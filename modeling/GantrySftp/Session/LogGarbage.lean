import GantrySftp.Session.JournalTail
import GantrySftp.Session.Manifest

/-!
# Garbage in a state file

Whatever bytes are in a journal or a manifest, an entry comes from a line that states it. The
manifest's fold never raises. The journal's raises on a line that is a well-formed `staged`
record of the current version with a path that no bytes decode to, and on no other line.
-/

namespace GantrySftp

open Library

/-! ## What lines of a journal state -/

/-- A line is a `staged` record of the current version with fields of the right types. -/
structure StagedRecord (text : Text) (staged target localPath : Text) (size mtime : ℤ)
    (fields : List (Text × JsonValue)) : Prop where
  loads : loads text = .ok (.object fields)
  version : (member fields "version").any equalsOne = true
  event : asString (member fields "event") = some (textOf "staged")
  staged : asString (member fields "staged") = some staged
  target : asString (member fields "target") = some target
  localPath : asString (member fields "local") = some localPath
  size : asInt (member fields "local_size") = some size
  mtime : asInt (member fields "local_mtime") = some mtime

/-- A line states that an upload is in flight: it is a `staged` record whose fields are the key
and the entry's values. -/
def StatesInFlight (text key : Text) (entry : JournalEntry) : Prop :=
  ∃ staged fields,
    StagedRecord text staged key entry.localPath entry.localSize entry.localMtime fields ∧
      encodeUtf8 staged = some entry.staged ∧ encodeUtf8 key = some entry.target

/-- A line is a `staged` record with a path that cannot be encoded to bytes. -/
def Unencodable (text : Text) : Prop :=
  ∃ staged target localPath size mtime fields,
    StagedRecord text staged target localPath size mtime fields ∧
      (encodeUtf8 staged = none ∨ encodeUtf8 target = none)

/-- What a `staged` record does to the state. -/
def stagedUpdate (staged target localPath : Text) (size mtime : ℤ) :
    Except JournalError (Option (Update Text JournalEntry)) := do
  let stagedBytes ← encodeName staged
  let targetBytes ← encodeName target
  pure (some
    { key := target
      value := some
        { staged := stagedBytes
          target := targetBytes
          localPath := localPath
          localSize := size
          localMtime := mtime } })

/-- The fields of a `staged` record are rebuilt, or are not of the right types. -/
theorem entryFrom_cases (fields : List (Text × JsonValue)) :
    entryFrom fields = .ok none ∨
      ∃ staged target localPath size mtime,
        asString (member fields "staged") = some staged ∧
        asString (member fields "target") = some target ∧
        asString (member fields "local") = some localPath ∧
        asInt (member fields "local_size") = some size ∧
        asInt (member fields "local_mtime") = some mtime ∧
        (entryFrom fields).map (Option.map fun entry => { key := target, value := some entry }) =
          stagedUpdate staged target localPath size mtime := by
  unfold entryFrom
  split
  · rename_i staged target localPath size mtime hstaged htarget hlocal hsize hmtime
    refine Or.inr ⟨staged, target, localPath, size, mtime, hstaged, htarget, hlocal, hsize,
      hmtime, ?_⟩
    unfold stagedUpdate
    cases encodeName staged with
    | error error => rfl
    | ok stagedBytes =>
      cases encodeName target with
      | error error => rfl
      | ok targetBytes => rfl
  · exact Or.inl rfl

/-- Everything a line can do: raise for its digits, nothing, free a target, or state an upload
in flight. -/
theorem lineUpdate_cases (text : Text) :
    (loads text = .error .valueError ∧ lineUpdate text = .error .valueError) ∨
      lineUpdate text = .ok none ∨
      (∃ target, lineUpdate text = .ok (some { key := target, value := none })) ∨
      ∃ staged target localPath size mtime fields,
        StagedRecord text staged target localPath size mtime fields ∧
          lineUpdate text = stagedUpdate staged target localPath size mtime := by
  unfold lineUpdate
  cases hloads : loads text with
  | error error =>
    cases error with
    | decodeError => exact Or.inr (Or.inl rfl)
    | valueError => exact Or.inl ⟨rfl, rfl⟩
  | ok value =>
    cases value with
    | object fields =>
      refine Or.inr ?_
      dsimp only
      unfold recordUpdate
      by_cases hversion : (member fields "version").any equalsOne = true
      · rw [if_pos hversion]
        cases htarget : asString (member fields "target") with
        | none => exact Or.inl rfl
        | some target =>
          by_cases hpublished : asString (member fields "event") = some (textOf "published")
          · exact Or.inr (Or.inl ⟨target, if_pos hpublished⟩)
          · by_cases hevent : asString (member fields "event") = some (textOf "staged")
            · dsimp only
              rw [if_neg hpublished, if_pos hevent]
              obtain hnone | ⟨staged, other, localPath, size, mtime, hstaged, hother, hlocal,
                hsize, hmtime, hentry⟩ := entryFrom_cases fields
              · rw [hnone]
                exact Or.inl rfl
              · obtain rfl : target = other := Option.some.inj (htarget.symm.trans hother)
                refine Or.inr (Or.inr ⟨staged, target, localPath, size, mtime, fields,
                  ⟨hloads, hversion, hevent, hstaged, htarget, hlocal, hsize, hmtime⟩, ?_⟩)
                rw [← hentry]
                cases entryFrom fields with
                | error error => rfl
                | ok entry => rfl
            · exact Or.inl ((if_neg hpublished).trans (if_neg hevent))
      · exact Or.inl (if_neg hversion)
    | _ => exact Or.inr (Or.inl rfl)

/-- What folding a `staged` record does. -/
theorem StagedRecord.lineUpdate {text staged target localPath : Text} {size mtime : ℤ}
    {fields : List (Text × JsonValue)}
    (h : StagedRecord text staged target localPath size mtime fields) :
    lineUpdate text = stagedUpdate staged target localPath size mtime := by
  have hother : asString (member fields "event") ≠ some (textOf "published") := by
    rw [h.event]
    decide
  have hrecord : recordUpdate fields = stagedUpdate staged target localPath size mtime := by
    unfold recordUpdate
    rw [if_pos h.version, h.target]
    dsimp only
    rw [if_neg hother, if_pos h.event, entryFrom, h.staged, h.target, h.localPath, h.size,
      h.mtime, stagedUpdate]
    dsimp only
    cases encodeName staged with
    | error error => rfl
    | ok stagedBytes =>
      cases encodeName target with
      | error error => rfl
      | ok targetBytes => rfl
  rw [GantrySftp.lineUpdate, h.loads]
  exact hrecord

/-- A `staged` record with paths that can be encoded states its entry. -/
theorem stagedUpdate_ok {staged target localPath : Text} {size mtime : ℤ}
    {stagedBytes targetBytes : Bytes} (hstaged : encodeUtf8 staged = some stagedBytes)
    (htarget : encodeUtf8 target = some targetBytes) :
    stagedUpdate staged target localPath size mtime =
      .ok (some
        { key := target
          value := some
            { staged := stagedBytes
              target := targetBytes
              localPath := localPath
              localSize := size
              localMtime := mtime } }) := by
  simp [stagedUpdate, encodeName, hstaged, htarget, pure, Except.pure, bind, Except.bind]

/-- A `staged` record with a path that cannot be encoded raises. -/
theorem stagedUpdate_error {staged target localPath : Text} {size mtime : ℤ}
    (h : encodeUtf8 staged = none ∨ encodeUtf8 target = none) :
    stagedUpdate staged target localPath size mtime = .error .unicodeEncodeError := by
  cases hstaged : encodeUtf8 staged with
  | none => simp [stagedUpdate, encodeName, hstaged, bind, Except.bind]
  | some stagedBytes =>
    cases htarget : encodeUtf8 target with
    | none => simp [stagedUpdate, encodeName, hstaged, htarget, bind, Except.bind]
    | some targetBytes => simp [hstaged, htarget] at h

/-- A line raises exactly when it is a `staged` record with a path that cannot be encoded,
digits apart. -/
theorem lineUpdate_raises_iff {text : Text} (hloads : loads text ≠ .error .valueError) :
    (∃ error, lineUpdate text = .error error) ↔ Unencodable text := by
  constructor
  · rintro ⟨error, herror⟩
    obtain ⟨hvalue, -⟩ | hnone | ⟨target, hfree⟩ | ⟨staged, target, localPath, size, mtime, fields,
      hrecord, hupdate⟩ := lineUpdate_cases text
    · exact absurd hvalue hloads
    · cases hnone.symm.trans herror
    · cases hfree.symm.trans herror
    · refine ⟨staged, target, localPath, size, mtime, fields, hrecord, ?_⟩
      by_contra hencodes
      obtain ⟨⟨stagedBytes, hstaged⟩, ⟨targetBytes, htarget⟩⟩ :
          (∃ bytes, encodeUtf8 staged = some bytes) ∧ ∃ bytes, encodeUtf8 target = some bytes := by
        simpa [Option.ne_none_iff_exists', ← ne_eq] using hencodes
      cases (stagedUpdate_ok hstaged htarget).symm.trans (hupdate.symm.trans herror)
  · rintro ⟨staged, target, localPath, size, mtime, fields, hrecord, hfails⟩
    exact ⟨_, hrecord.lineUpdate.trans (stagedUpdate_error hfails)⟩

/-- A line that sets an entry states it. -/
theorem statesInFlight_of_lineUpdate {text key : Text} {entry : JournalEntry}
    (h : lineUpdate text = .ok (some { key := key, value := some entry })) :
    StatesInFlight text key entry := by
  obtain ⟨-, herror⟩ | hnone | ⟨target, hfree⟩ | ⟨staged, target, localPath, size, mtime, fields,
    hrecord, hupdate⟩ := lineUpdate_cases text
  · cases herror.symm.trans h
  · cases hnone.symm.trans h
  · cases hfree.symm.trans h
  · cases hstaged : encodeUtf8 staged with
    | none => cases (stagedUpdate_error (Or.inl hstaged)).symm.trans (hupdate.symm.trans h)
    | some stagedBytes =>
      cases htarget : encodeUtf8 target with
      | none => cases (stagedUpdate_error (Or.inr htarget)).symm.trans (hupdate.symm.trans h)
      | some targetBytes =>
        cases (stagedUpdate_ok hstaged htarget).symm.trans (hupdate.symm.trans h)
        exact ⟨staged, fields, hrecord, hstaged, htarget⟩

/-! ## Folding a journal -/

/-- The journal's changes are those of its line reader. -/
theorem changesOf_eq (lines : List Text) :
    changesOf lines = LineReader.changes lineUpdate lines := by
  induction lines with
  | nil => rfl
  | cons text rest ih =>
    unfold changesOf LineReader.changes
    rw [ih]
    cases lineUpdate text with
    | error error => rfl
    | ok change => cases change <;> rfl

/-- The journal raises what its line reader does. -/
theorem raisedBy_eq (lines : List Text) :
    raisedBy lines = LineReader.raised lineUpdate lines := by
  induction lines with
  | nil => rfl
  | cons text rest ih =>
    unfold raisedBy LineReader.raised
    cases lineUpdate text with
    | error error => rfl
    | ok change => exact ih

/-- The complete lines of a file and its unterminated tail are all of its lines. -/
theorem linesOf_eq (bytes : Bytes) : linesOf bytes = decodedLines bytes := by
  rw [linesOf, ← decodedLines_append (terminated_splitTail bytes), splitTail_append]

/-- What a lookup reads begins where a line of the file does. -/
theorem readTail_terminated (folded : Folded) (file : LogFile) :
    ∃ front, Terminated front ∧ file.content = front ++ (readTail folded file).2 := by
  unfold readTail
  by_cases hdescribes : folded.describes file = true
  · rw [if_pos hdescribes]
    simp only [Folded.describes, Bool.and_eq_true, decide_eq_true_eq] at hdescribes
    obtain ⟨rest, hrest⟩ := List.head?_eq_some_iff.mp hdescribes.2
    refine ⟨file.content.take (folded.offset - 1) ++ [0x0A], Or.inr ⟨_, rfl⟩, ?_⟩
    dsimp only
    rw [hrest, List.tail_cons, List.append_assoc, List.singleton_append, ← hrest,
      List.take_append_drop]
  · rw [if_neg hdescribes]
    exact ⟨[], Or.inl rfl, rfl⟩

/-- A lookup raises only what a line of the file does. -/
theorem stagedFor_returns {file : LogFile}
    (hquiet : raisedBy (decodedLines file.content) = none) (folded : Folded) (target : Bytes)
    (source : SourceIdentity) :
    ∃ answer, (stagedFor (some file) target source folded).2 = .ok answer := by
  obtain ⟨front, hfront, hcontent⟩ := readTail_terminated folded file
  cases hread : readTail folded file with
  | mk state chunk =>
    have hchunk : raisedBy (linesOf chunk) = none := by
      rw [hcontent, hread, decodedLines_append hfront, raisedBy_append,
        Option.or_eq_none_iff] at hquiet
      rw [linesOf_eq]
      exact hquiet.2
    rw [stagedFor_answer folded file target source hread, answerFrom, hchunk]
    exact ⟨_, rfl⟩

/-- An entry folded from some lines is stated by one of them. -/
theorem statesInFlight_of_get {lines : List Text} {key : Text} {entry : JournalEntry}
    (h : ((Dict.empty : Entries).updateAll (changesOf lines)).get key = some entry) :
    ∃ text ∈ lines, StatesInFlight text key entry := by
  rw [changesOf_eq] at h
  obtain ⟨text, hmem, hread⟩ := LineReader.mem_changes (Dict.mem_of_get_updateAll h)
  exact ⟨text, hmem, statesInFlight_of_lineUpdate hread⟩

/-! ## Folding a manifest -/

/-- A line is a record of the current version whose fields are the key and the entry's values. -/
structure StatesSent (text key : Text) (entry : ManifestEntry)
    (fields : List (Text × JsonValue)) : Prop where
  loads : loads text = .ok (.object fields)
  version : (member fields "version").any equalsTwo = true
  target : member fields "target" = some (.string key)
  localSize : member fields "local_size" = some (.int entry.localSize)
  localMtime : member fields "local_mtime" = some (.int entry.localMtime)
  remoteSize : member fields "remote_size" = some (.int entry.remoteSize)
  remoteMtime : member fields "remote_mtime" = some (.int entry.remoteMtime)

/-- Only a string is read as one. -/
theorem eq_of_asString {value : Option JsonValue} {text : Text} (h : asString value = some text) :
    value = some (.string text) := by
  unfold asString at h
  split at h
  · cases h
    rfl
  · cases h

/-- Only an integer is read as one where booleans are not taken. -/
theorem ManifestEntry.eq_of_strictInt {value : Option JsonValue} {number : ℤ}
    (h : strictInt value = some number) : value = some (.int number) := by
  unfold strictInt at h
  split at h
  · cases h
    rfl
  · cases h

/-- An entry is rebuilt from its four fields. -/
theorem ManifestEntry.fromJson_eq_some {fields : List (Text × JsonValue)} {entry : ManifestEntry}
    (h : fromJson fields = some entry) :
    strictInt (member fields "local_size") = some entry.localSize ∧
      strictInt (member fields "local_mtime") = some entry.localMtime ∧
      strictInt (member fields "remote_size") = some entry.remoteSize ∧
      strictInt (member fields "remote_mtime") = some entry.remoteMtime := by
  simp only [fromJson, Option.bind_eq_bind, Option.bind_eq_some_iff, Option.pure_def,
    Option.some.injEq] at h
  obtain ⟨localSize, hlocalSize, localMtime, hlocalMtime, remoteSize, hremoteSize, remoteMtime,
    hremoteMtime, rfl⟩ := h
  exact ⟨hlocalSize, hlocalMtime, hremoteSize, hremoteMtime⟩

/-- A record that sets an entry is of the current version, with the key and the entry's fields. -/
theorem manifestUpdate_eq_some {fields : List (Text × JsonValue)} {key : Text}
    {entry : ManifestEntry}
    (h : manifestUpdate fields = some { key := key, value := some entry }) :
    (member fields "version").any equalsTwo = true ∧
      asString (member fields "target") = some key ∧
      ManifestEntry.fromJson fields = some entry := by
  unfold manifestUpdate at h
  by_cases hversion : (member fields "version").any equalsTwo = true
  · rw [if_pos hversion] at h
    split at h
    · rename_i target parsed htarget hparsed
      cases h
      exact ⟨hversion, htarget, hparsed⟩
    · cases h
  · rw [if_neg hversion] at h
    cases h

/-- A line of a manifest that sets an entry states it. -/
theorem statesSent_of_foldLine {text key : Text} {entry : ManifestEntry}
    (h : foldLine text = .ok (some { key := key, value := some entry })) :
    ∃ fields, StatesSent text key entry fields := by
  unfold foldLine at h
  cases hloads : loads text with
  | error error =>
    rw [hloads] at h
    cases error <;> cases h
  | ok value =>
    rw [hloads] at h
    cases value with
    | object fields =>
      obtain ⟨hversion, htarget, hparsed⟩ := manifestUpdate_eq_some (Except.ok.inj h)
      obtain ⟨hlocalSize, hlocalMtime, hremoteSize, hremoteMtime⟩ :=
        ManifestEntry.fromJson_eq_some hparsed
      exact ⟨fields, hloads, hversion, eq_of_asString htarget,
        ManifestEntry.eq_of_strictInt hlocalSize, ManifestEntry.eq_of_strictInt hlocalMtime,
        ManifestEntry.eq_of_strictInt hremoteSize, ManifestEntry.eq_of_strictInt hremoteMtime⟩
    | _ => cases h

/-- A line of a manifest raises only for its digits. -/
theorem foldLine_returns {text : Text} (hloads : loads text ≠ .error .valueError)
    (error : JsonError) : foldLine text ≠ .error error := by
  unfold foldLine
  cases hvalue : loads text with
  | error raised =>
    cases raised with
    | decodeError => exact nofun
    | valueError => exact absurd hvalue hloads
  | ok value => cases value <;> exact nofun

/-- Folding a manifest makes the changes of its lines. -/
theorem foldManifest_eq (raw : Bytes) :
    foldManifest (some raw) =
      match foldLine.raised (decodedLines raw) with
      | some error => .error error
      | none => .ok (Dict.empty.updateAll (foldLine.changes (decodedLines raw))) := by
  have happly := LineReader.apply_eq foldLine Dict.empty (decodedLines raw)
  cases hraised : foldLine.raised (decodedLines raw) with
  | some error =>
    rw [hraised] at happly
    simp only [foldManifest, happly]
    rfl
  | none =>
    rw [hraised] at happly
    simp only [foldManifest, happly]
    rfl

/-! ## Both logs -/

/-- What bytes in a state file do to a run: the folds and every lookup return, and what they
return is stated by a line of the file. A lookup answers from what its journal remembers of this
file, if anything. -/
structure DegradesToLess (file : LogFile) : Prop where
  journal : ∃ entries, fold (some file) = .ok entries ∧
    ∀ key entry, entries.get key = some entry →
      ∃ text ∈ decodedLines file.content, StatesInFlight text key entry
  lookup : ∀ folded target source,
    ∃ answer, (stagedFor (some file) target source folded).2 = .ok answer
  offer : ∀ folded target source staged, Faithful folded file →
    (stagedFor (some file) target source folded).2 = .ok (some staged) →
      ∃ text ∈ decodedLines file.content,
        StatesInFlight text (decodeName target) (entryOf staged target source)
  manifest : ∃ entries, foldManifest (some file.content) = .ok entries ∧
    ∀ key entry, entries.get key = some entry →
      ∃ text ∈ decodedLines file.content, ∃ fields, StatesSent text key entry fields

/-- A staging path offered to a source is that of an entry for exactly this source. -/
theorem offered_eq_some {entry : Option JournalEntry} {source : SourceIdentity} {staged : Bytes}
    (h : offered entry source = some staged) :
    ∃ found, entry = some found ∧ found.staged = staged ∧
      found = entryOf staged found.target source := by
  cases entry with
  | none => cases h
  | some found =>
    unfold offered at h
    dsimp only at h
    by_cases hmatches : entryMatches found source = true
    · rw [if_pos hmatches] at h
      cases h
      simp only [entryMatches, Bool.and_eq_true, decide_eq_true_eq] at hmatches
      obtain ⟨⟨hpath, hsize⟩, hmtime⟩ := hmatches
      refine ⟨found, rfl, rfl, ?_⟩
      rw [entryOf, ← hpath, ← hsize, ← hmtime]
    · rw [if_neg hmatches] at h
      cases h

/-- Lines raise nothing exactly when none is a `staged` record that cannot be encoded. -/
theorem raisedBy_eq_none_iff {lines : List Text}
    (hloads : ∀ text ∈ lines, loads text ≠ .error .valueError) :
    raisedBy lines = none ↔ ∀ text ∈ lines, ¬ Unencodable text := by
  rw [raisedBy_eq, LineReader.raised_eq_none_iff]
  refine forall₂_congr fun text hmem => ?_
  rw [← lineUpdate_raises_iff (hloads text hmem), not_exists]

/-- A state file degrades a run to knowing less exactly when none of its lines is a `staged`
record of the current version with a path that cannot be encoded to bytes. -/
theorem degradesToLess_iff (file : LogFile)
    (hloads : ∀ text ∈ decodedLines file.content, loads text ≠ .error .valueError) :
    DegradesToLess file ↔ ∀ text ∈ decodedLines file.content, ¬ Unencodable text := by
  rw [← raisedBy_eq_none_iff hloads]
  have hfold := fold_eq file
  rw [linesOf_eq] at hfold
  constructor
  · intro h
    obtain ⟨entries, hentries, -⟩ := h.journal
    rw [hentries] at hfold
    cases hraised : raisedBy (decodedLines file.content) with
    | none => rfl
    | some error =>
      rw [hraised] at hfold
      cases hfold
  · intro hquiet
    rw [hquiet] at hfold
    refine ⟨⟨_, hfold, fun key entry => statesInFlight_of_get⟩, stagedFor_returns hquiet, ?_, ?_⟩
    · intro folded target source staged hfaithful hanswer
      rw [stagedFor_eq_scratch hfaithful, scratchLookup, hfold] at hanswer
      obtain ⟨entry, hget, -, hentry⟩ := offered_eq_some (Except.ok.inj hanswer)
      obtain ⟨text, hmem, hstates⟩ := statesInFlight_of_get hget
      have htarget : entry.target = target := by
        obtain ⟨-, -, -, -, hencoded⟩ := hstates
        exact Option.some.inj (hencoded.symm.trans (encodeUtf8_decodeUtf8 target))
      rw [htarget] at hentry
      exact ⟨text, hmem, hentry ▸ hstates⟩
    · have hmanifest : foldLine.raised (decodedLines file.content) = none :=
        LineReader.raised_eq_none_iff.mpr fun text hmem => foldLine_returns (hloads text hmem)
      refine ⟨_, (foldManifest_eq _).trans (by rw [hmanifest]), fun key entry hget => ?_⟩
      obtain ⟨text, hmem, hread⟩ := LineReader.mem_changes (Dict.mem_of_get_updateAll hget)
      exact ⟨text, hmem, statesSent_of_foldLine hread⟩

/-- A journal with one `staged` record, whose staging path is a lone surrogate that escapes no
byte. -/
def surrogateLog : LogFile where
  device := 1
  inode := 1
  content := line "staged"
    [(textOf "staged", .string [0xD800]), (textOf "target", .string [0x74]),
      (textOf "local", .string [0x78]), (textOf "local_size", .int 0),
      (textOf "local_mtime", .int 0)]

/-- One record of a journal, torn in the middle of its document. -/
def tornLog : LogFile where
  device := 1
  inode := 1
  content := (stagedLine (sampleEntry [97])).take 40

/-- A torn journal degrades to knowing less. -/
theorem degradesToLess_iff_tornLog :
    DegradesToLess tornLog ↔ ∀ text ∈ decodedLines tornLog.content, ¬ Unencodable text :=
  degradesToLess_iff tornLog (by decide +kernel)

/-- The fold of a journal raises on a surrogate that escapes no byte. -/
theorem not_forall_degradesToLess :
    ¬ ∀ file : LogFile,
      (∀ text ∈ decodedLines file.content, loads text ≠ .error .valueError) →
        DegradesToLess file := by
  intro h
  obtain ⟨entries, hentries, -⟩ := (h surrogateLog (by decide +kernel)).journal
  have hraises : fold (some surrogateLog) = .error .unicodeEncodeError := by decide +kernel
  cases hraises.symm.trans hentries

end GantrySftp
