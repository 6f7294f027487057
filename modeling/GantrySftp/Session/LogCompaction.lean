import GantrySftp.Library.JsonSpelling
import GantrySftp.Session.StateLogs

/-!
# Compaction and crashes

Compacting a journal keeps what it says, and so does rewriting a manifest; a record appended to a
manifest replaces its entry. A crash that leaves only the first bytes of either file leaves what
some number of its first records say.
-/

namespace GantrySftp

open Library

/-! ## The journal -/

/-- A member of an object that is a string is spellable. -/
theorem spellable_of_asString {fields : List (Text × JsonValue)} {key : String} {text : Text}
    (hfields : ∀ field ∈ fields, field.2.Fits) (h : asString (member fields key) = some text) :
    Spellable text := hfields _ (mem_of_getEntry (eq_of_asString h))

/-- A member of an object that is taken for an integer has few enough digits. -/
theorem fits_of_asInt {fields : List (Text × JsonValue)} {key : String} {number : ℤ}
    (hfields : ∀ field ∈ fields, field.2.Fits) (h : asInt (member fields key) = some number) :
    number.natAbs < 10 ^ maxIntDigits := by
  have hone : 1 < 10 ^ maxIntDigits := Nat.one_lt_pow (by decide) (by decide)
  unfold asInt at h
  split at h
  · next value hvalue =>
    cases h
    exact hfields _ (mem_of_getEntry hvalue)
  · next value _ =>
    cases h
    cases value
    · exact Nat.zero_lt_of_lt hone
    · exact hone
  · cases h

/-- What a line states is in flight can be stated by a record. -/
theorem StatesInFlight.fits {text key : Text} {entry : JournalEntry}
    (h : StatesInFlight text key entry) (htext : ScalarText text) : entry.Fits := by
  obtain ⟨staged, fields, hrecord, -, -⟩ := h
  have hfields := fits_of_loads htext hrecord.loads
  exact ⟨spellable_of_asString hfields hrecord.localPath, fits_of_asInt hfields hrecord.size,
    fits_of_asInt hfields hrecord.mtime⟩

/-- Every entry is one for its key that a record can state. -/
def Entries.Kept (entries : Entries) : Prop :=
  ∀ item ∈ entries.entries, item.1 = decodeName item.2.target ∧ item.2.Fits

/-- Records keep the entries ones that records can state. -/
theorem Entries.Kept.update {entries : Entries} (h : entries.Kept) (record : JournalRecord) :
    Entries.Kept (entries.update record.change) := by
  cases record with
  | staged entry fits =>
    intro item hmem
    obtain rfl | hmem := mem_setEntry hmem
    · exact ⟨rfl, fits⟩
    · exact h item hmem
  | published target => exact fun item hmem => h item (List.mem_of_mem_filter hmem)

/-- What records leave are entries that records can state. -/
theorem Entries.Kept.updateAll {entries : Entries} (h : entries.Kept)
    (records : List JournalRecord) :
    Entries.Kept (entries.updateAll (records.map JournalRecord.change)) := by
  induction records generalizing entries with
  | nil => exact h
  | cons record rest ih => exact ih (h.update record)

/-- Setting an entry under the text its target is decoded to. -/
def JournalEntry.change (entry : JournalEntry) : Update Text JournalEntry where
  key := decodeName entry.target
  value := some entry

/-- The log of entries that records can state is made of their records. -/
theorem exists_staged_records {entries : List JournalEntry} (h : ∀ entry ∈ entries, entry.Fits) :
    ∃ records : List JournalRecord, entries.flatMap stagedLine = records.flatMap journalLog.line ∧
      records.map JournalRecord.change = entries.map JournalEntry.change := by
  induction entries with
  | nil => exact ⟨[], rfl, rfl⟩
  | cons entry entries ih =>
    obtain ⟨records, hlines, hchanges⟩ := ih fun other hmem => h other (List.mem_cons_of_mem _ hmem)
    have hfits := h entry List.mem_cons_self
    refine ⟨.staged entry hfits :: records, ?_, ?_⟩
    · rw [List.flatMap_cons, List.flatMap_cons, hlines, journalLog_staged]
    · rw [List.map_cons, List.map_cons, hchanges]
      rfl

/-- Folding a journal of records makes their changes. -/
theorem fold_records (records : List JournalRecord) (device inode : ℤ) :
    fold (some ⟨device, inode, records.flatMap journalLog.line⟩) =
      .ok (Dict.empty.updateAll (records.map JournalRecord.change)) := by
  obtain ⟨hchanges, hraised⟩ := journalLog.changes_lines records []
  rw [List.append_nil, decodedLines_nil] at hchanges hraised
  rw [fold_changes, hraised, hchanges]
  exact congrArg (fun changes => Except.ok (Dict.empty.updateAll changes)) (List.append_nil _)

/-- What any log has in flight is made of entries that records can state. -/
theorem fits_of_fold {file : LogFile} {entries : Entries} (h : fold (some file) = .ok entries) :
    ∀ entry ∈ entries.values, entry.Fits := by
  intro entry hmem
  obtain ⟨key, hget⟩ := Dict.mem_values_iff.mp hmem
  have hfold := fold_eq file
  rw [linesOf_eq] at hfold
  rw [h] at hfold
  cases hraised : raisedBy (decodedLines file.content) with
  | some error =>
    rw [hraised] at hfold
    cases hfold
  | none =>
    rw [hraised] at hfold
    cases hfold
    obtain ⟨text, hline, hstates⟩ := statesInFlight_of_get hget
    exact hstates.fits (scalarText_of_mem_decodedLines hline)

/-- The entries of a log, each under the text its target is decoded to. -/
def Entries.restated (entries : Entries) : Entries :=
  Dict.empty.updateAll (entries.values.map JournalEntry.change)

/-- Folding the log that holds only what is in flight gives it, restated. -/
theorem fold_compacted_restated {entries : Entries} (h : ∀ entry ∈ entries.values, entry.Fits)
    (device inode : ℤ) :
    fold (some ⟨device, inode, compacted entries⟩) = .ok entries.restated := by
  obtain ⟨records, hlines, hchanges⟩ := exists_staged_records h
  have hcompacted : compacted entries = records.flatMap journalLog.line := hlines
  rw [hcompacted, fold_records, hchanges]
  rfl

/-- Entries that records stated stay as they are. -/
theorem Entries.Kept.restated_eq {entries : Entries} (h : entries.Kept) :
    entries.restated = entries := by
  have hchanges : entries.values.map JournalEntry.change =
      entries.entries.map fun item => { key := item.1, value := some item.2 } := by
    unfold Dict.values
    rw [List.map_map]
    refine List.map_congr_left fun item hmem => ?_
    rw [(h item hmem).1]
    rfl
  rw [Entries.restated, hchanges, Dict.updateAll_self]

/-- Folding the log that holds only what is in flight gives what is in flight. -/
theorem fold_compacted {entries : Entries} (h : entries.Kept) (device inode : ℤ) :
    fold (some ⟨device, inode, compacted entries⟩) = .ok entries := by
  have hfits : ∀ entry ∈ entries.values, entry.Fits := by
    intro entry hmem
    obtain ⟨item, hitem, rfl⟩ := List.mem_map.mp hmem
    exact (h item hitem).2
  rw [fold_compacted_restated hfits, h.restated_eq]

/-- The first bytes of a journal of records fold to what its first records do. -/
theorem fold_take (records : List JournalRecord) (count : ℕ) (device inode : ℤ) :
    ∃ kept, fold (some ⟨device, inode, (records.flatMap journalLog.line).take count⟩) =
      fold (some ⟨device, inode, (records.take kept).flatMap journalLog.line⟩) := by
  obtain ⟨kept, hchanges, hraised⟩ := journalLog.changes_take records count
  refine ⟨kept, ?_⟩
  rw [fold_records, fold_changes, hraised, hchanges]
  rfl

/-! ## The manifest -/

/-- Every entry is one that a record can state. -/
def ManifestEntries.Fits (entries : ManifestEntries) : Prop :=
  ∀ item ∈ entries.entries, Spellable item.1 ∧ item.2.Fits

/-- The lines of entries that records can state are those of their records. -/
theorem exists_sent_records {items : List (Text × ManifestEntry)}
    (h : ∀ item ∈ items, Spellable item.1 ∧ item.2.Fits) :
    ∃ records : List ManifestRecord, (items.flatMap fun item => manifestLine item.1 item.2) =
        records.flatMap manifestLog.line ∧
      records.map ManifestRecord.change =
        items.map fun item => { key := item.1, value := some item.2 } := by
  induction items with
  | nil => exact ⟨[], rfl, rfl⟩
  | cons item items ih =>
    obtain ⟨records, hlines, hchanges⟩ := ih fun other hmem => h other (List.mem_cons_of_mem _ hmem)
    obtain ⟨hkey, hfits⟩ := h item List.mem_cons_self
    refine ⟨⟨item.1, item.2, hkey, hfits⟩ :: records, ?_, ?_⟩
    · rw [List.flatMap_cons, List.flatMap_cons, hlines, manifestLog_line]
    · rw [List.map_cons, List.map_cons, hchanges]
      rfl

/-- Folding a manifest of records makes their changes. -/
theorem foldManifest_records (records : List ManifestRecord) :
    foldManifest (some (records.flatMap manifestLog.line)) =
      .ok (Dict.empty.updateAll (records.map ManifestRecord.change)) := by
  obtain ⟨hchanges, hraised⟩ := manifestLog.changes_lines records []
  rw [List.append_nil, decodedLines_nil] at hchanges hraised
  have hread : manifestLog.read = foldLine := rfl
  rw [hread] at hchanges hraised
  rw [foldManifest_eq, hraised, hchanges]
  exact congrArg (fun changes => Except.ok (Dict.empty.updateAll changes)) (List.append_nil _)

/-- Folding a rewritten manifest gives its entries, in the order of their keys. -/
theorem foldManifest_manifestPayload {entries : ManifestEntries} (h : entries.Fits) :
    ∃ folded, foldManifest (some (manifestPayload entries)) = .ok folded ∧
      ∀ key, folded.get key = entries.get key := by
  have hperm := List.perm_insertionSort
    (fun left right : Text × ManifestEntry => left.1 ≤ right.1) entries.entries
  have hnodup := (hperm.map Prod.fst).nodup_iff.mpr entries.nodup
  obtain ⟨records, hlines, hchanges⟩ := exists_sent_records
    fun item hmem => h item (hperm.mem_iff.mp hmem)
  refine ⟨⟨_, hnodup⟩, ?_, fun key => getEntry_perm hperm hnodup key⟩
  rw [manifestPayload, hlines, foldManifest_records, hchanges]
  exact congrArg Except.ok (Dict.updateAll_self ⟨_, hnodup⟩)

/-- The first bytes of a manifest of records fold to what its first records do. -/
theorem foldManifest_take (records : List ManifestRecord) (count : ℕ) :
    ∃ kept, foldManifest (some ((records.flatMap manifestLog.line).take count)) =
      foldManifest (some ((records.take kept).flatMap manifestLog.line)) := by
  obtain ⟨kept, hchanges, hraised⟩ := manifestLog.changes_take records count
  have hread : manifestLog.read = foldLine := rfl
  rw [hread] at hchanges hraised
  refine ⟨kept, ?_⟩
  rw [foldManifest_records, foldManifest_eq, hraised, hchanges]
  rfl

/-- Folding a manifest after an append replaces the entry of the name, if the file ended with a
line feed. -/
theorem foldManifest_appendManifest {raw : Option Bytes}
    (hraw : ∀ content ∈ raw, Terminated content) (name : Bytes) {entry : ManifestEntry}
    (hentry : entry.Fits) :
    foldManifest (some (appendManifest raw name entry)) =
      (foldManifest raw).map fun entries => recordEntry entries name entry := by
  have hrecord : manifestLine (decodeName name) entry =
      manifestLog.line ⟨decodeName name, entry, spellable_decodeUtf8 name, hentry⟩ := rfl
  obtain ⟨hchanges, hraised⟩ := manifestLog.changes_lines
    [⟨decodeName name, entry, spellable_decodeUtf8 name, hentry⟩] []
  have hread : manifestLog.read = foldLine := rfl
  rw [List.append_nil, List.flatMap_singleton, ← hrecord, hread, decodedLines_nil]
    at hchanges hraised
  cases raw with
  | none =>
    rw [appendManifest, Option.getD_none, List.nil_append, foldManifest_eq, hraised, hchanges]
    rfl
  | some content =>
    rw [appendManifest, Option.getD_some, foldManifest_eq, foldManifest_eq,
      decodedLines_append (hraw content rfl), LineReader.raised_append,
      LineReader.changes_append, hraised, hchanges]
    cases hcontent : foldLine.raised (decodedLines content) with
    | some error => rfl
    | none =>
      rw [if_pos rfl, Dict.updateAll_append]
      rfl

/-! ## Both logs -/

/-- A journal that holds these records. -/
def journalOf (records : List JournalRecord) (device inode : ℤ) : LogFile where
  device := device
  inode := inode
  content := records.flatMap journalLog.line

/-- A manifest that holds these records. -/
def manifestOf (records : List ManifestRecord) : Bytes := records.flatMap manifestLog.line

/-- Compacting a journal of records gives the log of what is in flight. -/
theorem compact_journalOf (records : List JournalRecord) (device inode device' inode' : ℤ) :
    ∃ inFlight : Entries, inFlight.Kept ∧
      fold (some (journalOf records device inode)) = .ok inFlight ∧
      compact (some (journalOf records device inode)) device' inode' =
        .ok ⟨device', inode', compacted inFlight⟩ := by
  have hfold := fold_records records device inode
  refine ⟨_, Entries.Kept.updateAll ?_ records, hfold, ?_⟩
  · exact fun item hmem => absurd hmem List.not_mem_nil
  · rw [compact, journalOf, hfold]
    rfl

/-- What compaction, an append and a crash leave of what the state files say. -/
structure StatePreserved (records : List JournalRecord) (entries : ManifestEntries)
    (raw : Option Bytes) (name : Bytes) (entry : ManifestEntry) (sent : List ManifestRecord) :
    Prop where
  compact : ∀ device inode device' inode',
    (compact (some (journalOf records device inode)) device' inode').bind
        (fun file => fold (some file)) =
      fold (some (journalOf records device inode))
  compactTwice : ∀ device inode device' inode' device'' inode'',
    (GantrySftp.compact (some (journalOf records device inode)) device' inode').bind
        (fun file => (GantrySftp.compact (some file) device'' inode'').map LogFile.content) =
      (GantrySftp.compact (some (journalOf records device inode)) device' inode').map
        LogFile.content
  inFlight : ∀ device inode,
    ∃ inFlight, fold (some (journalOf records device inode)) = .ok inFlight
  rewrite : ∃ folded, foldManifest (some (manifestPayload entries)) = .ok folded ∧
    ∀ key, folded.get key = entries.get key
  append : foldManifest (some (appendManifest raw name entry)) =
    (foldManifest raw).map fun old => recordEntry old name entry
  journalCut : ∀ count device inode, ∃ kept,
    fold (some ⟨device, inode, (journalOf records device inode).content.take count⟩) =
      fold (some (journalOf (records.take kept) device inode))
  manifestCut : ∀ count, ∃ kept,
    foldManifest (some ((manifestOf sent).take count)) =
      foldManifest (some (manifestOf (sent.take kept)))

/-- Compaction and crashes preserve what the state logs say. -/
theorem state_preserved (records : List JournalRecord) {entries : ManifestEntries}
    (hentries : entries.Fits) {raw : Option Bytes} (hraw : ∀ content ∈ raw, Terminated content)
    (name : Bytes) {entry : ManifestEntry} (hentry : entry.Fits) (sent : List ManifestRecord) :
    StatePreserved records entries raw name entry sent where
  compact := by
    intro device inode device' inode'
    obtain ⟨inFlight, hkept, hfold, hcompact⟩ :=
      compact_journalOf records device inode device' inode'
    rw [hcompact, hfold]
    exact fold_compacted hkept device' inode'
  compactTwice := by
    intro device inode device' inode' device'' inode''
    obtain ⟨inFlight, hkept, hfold, hcompact⟩ :=
      compact_journalOf records device inode device' inode'
    have hagain : GantrySftp.compact (some ⟨device', inode', compacted inFlight⟩) device'' inode'' =
        .ok ⟨device'', inode'', compacted inFlight⟩ := by
      rw [GantrySftp.compact, fold_compacted hkept]
      rfl
    rw [hcompact]
    exact (congrArg (Except.map LogFile.content) hagain).trans rfl
  inFlight := fun device inode => ⟨_, fold_records records device inode⟩
  rewrite := foldManifest_manifestPayload hentries
  append := foldManifest_appendManifest hraw name hentry
  journalCut := fun count => fold_take records count
  manifestCut := foldManifest_take sent

/-- Zero has few enough digits. -/
theorem zero_fits : (0 : ℤ).natAbs < 10 ^ maxIntDigits := Nat.pow_pos (by decide)

/-- The entry of an upload of an empty source can be stated by a record. -/
theorem sampleEntry_fits (target : Bytes) : (sampleEntry target).Fits where
  localPath := spellable_of_forall (show ∀ point ∈ [120], _ by decide)
  localSize := zero_fits
  localMtime := zero_fits

/-- The entry of an empty file sent at the start of the epoch. -/
def emptySent : ManifestEntry := ⟨0, 0, 0, 0⟩

/-- That entry can be stated by a record. -/
theorem emptySent_fits : emptySent.Fits := ⟨zero_fits, zero_fits, zero_fits, zero_fits⟩

/-- A journal with a record for a name that is not UTF-8, and a manifest with one entry. -/
theorem state_preserved_sample :
    StatePreserved [.staged (sampleEntry [0xFF]) (sampleEntry_fits [0xFF]), .published [97]]
      (Dict.empty.set [116] emptySent) none [0xFF] emptySent [] :=
  state_preserved _
    (fun item hmem => by
      obtain rfl : item = ([116], emptySent) := List.mem_singleton.mp hmem
      exact ⟨spellable_of_forall (show ∀ point ∈ [116], _ by decide), emptySent_fits⟩)
    (fun content hmem => by cases hmem) [0xFF] emptySent_fits []

end GantrySftp
