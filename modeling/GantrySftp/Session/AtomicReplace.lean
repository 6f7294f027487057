import GantrySftp.Session.LogAppends

/-!
# Rewriting a state file

A rewrite returns with the payload in place or raises with the directory as it was, with two
exceptions: a write which accepts only part of the payload is taken for one that accepted it all,
and closing the directory's descriptor may raise once the new file is in place. Apart from short
writes, compacting a journal loses no entry that is in flight, unless two of them are for one
target, and rewriting a manifest none of its entries.
-/

namespace GantrySftp.StateFile

open Library

/-- A rewrite is all or nothing: it returns with the payload at its path and nothing else
changed, or raises with nothing changed. -/
def AllOrNothing {α : Type} (files : Files) (destination payload : Bytes) :
    Except StateError α × Files → Prop
  | (.ok _, files') => files' = Function.update files destination (some payload)
  | (.error _, files') => files' = files

/-- Every call of a rewrite up to the rename works, and the write accepts so many bytes. -/
structure Works (files : Files) (destination : Bytes) (calls : ReplaceCalls) (count : ℕ) :
    Prop where
  named : freshName files destination calls.suffixes ≠ none
  write : calls.write = .accepts count
  syncs : calls.syncs = true
  closes : calls.closes = true
  renames : calls.renames = true

/-- Every call up to the rename works, but the write accepts only part of the payload. -/
def CutShort (files : Files) (destination payload : Bytes) (calls : ReplaceCalls) : Prop :=
  ∃ count, Works files destination calls count ∧ count < payload.length

/-- Every call up to the rename works and changes the destination, and then the directory's
descriptor is not closed. -/
def RaisesLate (files : Files) (destination payload : Bytes) (calls : ReplaceCalls) : Prop :=
  calls.directory.raises = true ∧ ∃ count, Works files destination calls count ∧
    files destination ≠ some (payload.take count)

/-- A fresh name is no file's, and not the path's. -/
theorem freshName_spec {files : Files} {destination name : Bytes} {suffixes : List Bytes}
    (h : freshName files destination suffixes = some name) :
    files name = none ∧ name ≠ destination := by
  constructor
  · have hnone := List.find?_some (p := fun name => (files name).isNone) h
    exact Option.isNone_iff_eq_none.mp hnone
  · obtain ⟨suffix, -, rfl⟩ := List.mem_map.mp (List.mem_of_find?_eq_some h)
    intro heq
    have hlength := congrArg List.length heq
    simp [sibling] at hlength

/-- Removing a file that was created leaves the files as they were. -/
theorem update_none {files : Files} {name : Bytes} (h : files name = none)
    (content : Option Bytes) :
    Function.update (Function.update files name content) name none = files := by
  rw [Function.update_idem, ← h, Function.update_eq_self]

/-- Writing the temporary file and renaming it. -/
def written (temporary destination payload : Bytes) (calls : ReplaceCalls) : Disk PUnit := do
  Program.ensuring
    (do
      osWrite temporary payload calls.write
      attempt calls.syncs)
    (attempt calls.closes)
  replace temporary destination calls.renames

/-- Writing and renaming fails and leaves something in the temporary file, or every call works. -/
theorem exec_written (files : Files) (temporary destination payload : Bytes)
    (calls : ReplaceCalls) :
    ((∀ count, calls.write = .accepts count → calls.syncs = true → calls.closes = true →
          calls.renames = false) ∧
        ∃ content, (written temporary destination payload calls).exec
          (Function.update files temporary (some [])) =
            (.error .osError, Function.update files temporary (some content))) ∨
      ∃ count, calls.write = .accepts count ∧ calls.syncs = true ∧ calls.closes = true ∧
        calls.renames = true ∧
        (written temporary destination payload calls).exec
          (Function.update files temporary (some [])) =
            (.ok ⟨⟩, Function.update
              (Function.update (Function.update files temporary (some (payload.take count)))
                destination (some (payload.take count))) temporary none) := by
  obtain ⟨suffixes, write, syncs, closes, renames⟩ := calls
  cases write with
  | fails =>
    refine Or.inl ⟨nofun, [], ?_⟩
    cases closes <;> rfl
  | accepts count =>
    have hwritten : (Program.ensuring
        (do
          osWrite temporary payload (.accepts count)
          attempt syncs)
        (attempt closes)).exec (Function.update files temporary (some [])) =
          (if syncs && closes then .ok ⟨⟩ else .error .osError,
            Function.update files temporary (some (payload.take count))) := by
      cases syncs <;> cases closes <;>
        simp [Program.exec_ensuring, Program.exec_bind, osWrite, exec_attempt]
    simp only [written, Program.exec_bind, hwritten]
    by_cases hworks : (syncs && closes) = true
    · rw [if_pos hworks]
      rw [Bool.and_eq_true] at hworks
      cases renames with
      | false => exact Or.inl ⟨fun _ _ _ _ => rfl, _, rfl⟩
      | true =>
        refine Or.inr ⟨count, rfl, hworks.1, hworks.2, rfl, ?_⟩
        simp [replace, attempt]
    · rw [if_neg hworks]
      refine Or.inl ⟨fun _ _ hsyncs hcloses => absurd ?_ hworks, _, rfl⟩
      rw [Bool.and_eq_true]
      exact ⟨hsyncs, hcloses⟩

/-- Without a free name nothing is written. -/
theorem exec_unnamed {files : Files} {destination payload : Bytes} {calls : ReplaceCalls}
    (hname : freshName files destination calls.suffixes = none) :
    (replaceAtomically destination payload calls).exec files = (.error .osError, files) := by
  rw [replaceAtomically, Program.exec_bind, mkstemp, Program.exec_of, hname]

/-- With a free name a rewrite ends as its writing does, which removes the temporary file when it
fails and flushes the directory otherwise. -/
theorem exec_named {files : Files} {temporary destination payload : Bytes} {calls : ReplaceCalls}
    (hname : freshName files destination calls.suffixes = some temporary) :
    (replaceAtomically destination payload calls).exec files =
      let done := (written temporary destination payload calls).exec
        (Function.update files temporary (some []))
      if done.1.isOk then (if calls.directory.raises then .error .osError else .ok ⟨⟩, done.2)
      else (done.1, Function.update done.2 temporary none) := by
  rw [replaceAtomically, Program.exec_bind, mkstemp, Program.exec_of, hname]
  dsimp only
  rw [Program.exec_bind, Program.exec_tryCatch, ← written]
  obtain ⟨result, files'⟩ := (written temporary destination payload calls).exec
    (Function.update files temporary (some []))
  cases result with
  | error error => rfl
  | ok value => exact exec_fsyncDirectory calls.directory files'

/-- What a rewrite comes to: it raises with nothing changed, or every call up to the rename works
and what the write accepted is in place, whether flushing the directory raises or not. -/
theorem exec_replaceAtomically (files : Files) (destination payload : Bytes)
    (calls : ReplaceCalls) :
    ((∀ count, ¬ Works files destination calls count) ∧
        (replaceAtomically destination payload calls).exec files = (.error .osError, files)) ∨
      ∃ count, Works files destination calls count ∧
        (replaceAtomically destination payload calls).exec files =
          (if calls.directory.raises then .error .osError else .ok ⟨⟩,
            Function.update files destination (some (payload.take count))) := by
  cases hname : freshName files destination calls.suffixes with
  | none => exact Or.inl ⟨fun count hworks => hworks.named hname, exec_unnamed hname⟩
  | some temporary =>
    obtain ⟨habsent, hne⟩ := freshName_spec hname
    obtain ⟨hfails, content, hfailed⟩ | ⟨count, hwrite, hsyncs, hcloses, hrenames, hdone⟩ :=
      exec_written files temporary destination payload calls
    · refine Or.inl ⟨fun count hworks => ?_, ?_⟩
      · have hrenames := hfails count hworks.write hworks.syncs hworks.closes
        cases hrenames.symm.trans hworks.renames
      · rw [exec_named hname, hfailed]
        exact congrArg (Prod.mk _) (update_none habsent _)
    · have hnamed : freshName files destination calls.suffixes ≠ none := by
        rw [hname]
        exact Option.some_ne_none temporary
      refine Or.inr ⟨count, ⟨hnamed, hwrite, hsyncs, hcloses, hrenames⟩, ?_⟩
      rw [exec_named hname, hdone, Function.update_comm hne.symm, update_none habsent]
      rfl

/-- The number of bytes accepted is what the write says. -/
theorem Works.count_eq {files : Files} {destination : Bytes} {calls : ReplaceCalls}
    {count count' : ℕ} (h : Works files destination calls count)
    (h' : Works files destination calls count') : count = count' :=
  Writing.accepts.inj (h.write.symm.trans h'.write)

/-- When every call works, a rewrite is cut short where fewer bytes were accepted. -/
theorem Works.cutShort_iff {files : Files} {destination payload : Bytes} {calls : ReplaceCalls}
    {count : ℕ} (h : Works files destination calls count) :
    CutShort files destination payload calls ↔ count < payload.length := by
  refine ⟨fun ⟨other, hother, hlt⟩ => ?_, fun hlt => ⟨count, h, hlt⟩⟩
  rwa [h.count_eq hother]

/-- When every call works, a rewrite raises late where the directory's descriptor is not closed and
the destination did not hold what was accepted. -/
theorem Works.raisesLate_iff {files : Files} {destination payload : Bytes} {calls : ReplaceCalls}
    {count : ℕ} (h : Works files destination calls count) :
    RaisesLate files destination payload calls ↔
      calls.directory.raises = true ∧ files destination ≠ some (payload.take count) := by
  refine and_congr_right fun _ => ⟨fun ⟨other, hother, hne⟩ => ?_, fun hne => ⟨count, h, hne⟩⟩
  rwa [h.count_eq hother]

/-- What was accepted of a payload is all of it where it is as long. -/
theorem take_eq_self_iff {payload : Bytes} {count : ℕ} :
    payload.take count = payload ↔ ¬ count < payload.length := by
  rw [List.take_eq_self_iff, not_lt]

/-- A rewrite is all or nothing exactly when it is neither cut short with nothing raised nor raises
late. -/
theorem allOrNothing_iff (files : Files) (destination payload : Bytes) (calls : ReplaceCalls) :
    AllOrNothing files destination payload
        ((replaceAtomically destination payload calls).exec files) ↔
      ¬ (CutShort files destination payload calls ∧ calls.directory.raises = false) ∧
        ¬ RaisesLate files destination payload calls := by
  obtain ⟨hfails, hfailed⟩ | ⟨count, hworks, hdone⟩ :=
    exec_replaceAtomically files destination payload calls
  · rw [hfailed]
    exact iff_of_true rfl ⟨fun ⟨⟨count, hworks, _⟩, _⟩ => hfails count hworks,
      fun ⟨_, count, hworks, _⟩ => hfails count hworks⟩
  · rw [hdone, hworks.cutShort_iff, hworks.raisesLate_iff]
    cases hraises : calls.directory.raises with
    | false =>
      have hreturned : AllOrNothing files destination payload
          ((.ok ⟨⟩, Function.update files destination (some (payload.take count))) :
            Except StateError PUnit × Files) ↔ payload.take count = payload := by
        refine ⟨fun hwhole => ?_, fun hwhole => congrArg _ (congrArg some hwhole)⟩
        have hcontent := congrFun hwhole destination
        rw [Function.update_self, Function.update_self] at hcontent
        exact Option.some.inj hcontent
      rw [if_neg Bool.false_ne_true, hreturned, take_eq_self_iff]
      simp
    | true =>
      have hraised : AllOrNothing files destination payload
          ((.error .osError, Function.update files destination (some (payload.take count))) :
            Except StateError PUnit × Files) ↔ files destination = some (payload.take count) := by
        refine ⟨fun hsame => ?_, fun hsame => ?_⟩
        · have hcontent := congrFun hsame destination
          rw [Function.update_self] at hcontent
          exact hcontent.symm
        · change _ = files
          rw [← hsame, Function.update_eq_self]
      rw [if_pos rfl, hraised]
      simp

/-- A rewrite that is not cut short leaves the directory as it was or the payload in place. -/
theorem files_of_whole {files : Files} {destination payload : Bytes} {calls : ReplaceCalls}
    (hwhole : ¬ CutShort files destination payload calls) :
    ((∀ count, ¬ Works files destination calls count) ∧
        (replaceAtomically destination payload calls).exec files = (.error .osError, files)) ∨
      ¬ (∀ count, ¬ Works files destination calls count) ∧
        ((replaceAtomically destination payload calls).exec files).2 =
          Function.update files destination (some payload) := by
  obtain hfailed | ⟨count, hworks, hdone⟩ := exec_replaceAtomically files destination payload calls
  · exact Or.inl hfailed
  · have htake : payload.take count = payload :=
      take_eq_self_iff.mpr fun hshort => hwhole (hworks.cutShort_iff.mpr hshort)
    rw [hdone, htake]
    exact Or.inr ⟨fun hnone => hnone count hworks, rfl⟩

/-! ## What the rewrites of the two logs lose -/

/-- A journal that appends made, or that is missing. -/
def JournalAt (files : Files) (path : Bytes) : Prop :=
  files path = none ∨ ∃ appends : List (Appended JournalRecord),
    (∀ append ∈ appends, 0 < append.accepted) ∧ files path = some (journalLog.content appends)

/-- What is in flight in a journal that appends made can be stated by records. -/
theorem kept_of_fold {files : Files} {path : Bytes} (h : JournalAt files path)
    {surviving : Entries} (hfold : fold (logAt files path) = .ok surviving) : surviving.Kept := by
  have hempty : Entries.Kept Dict.empty := fun item hmem => absurd hmem List.not_mem_nil
  obtain hnone | ⟨appends, hpositive, hcontent⟩ := h
  · rw [logAt, hnone] at hfold
    cases hfold
    exact hempty
  · obtain ⟨records, hrecords⟩ := journalLog.exists_stated .clean appends
    rw [logAt, hcontent, Option.map_some, fold_content hpositive, hrecords] at hfold
    cases hfold
    exact hempty.updateAll records

/-- Every upload in flight before is in flight after. -/
def NoneLost (before after : Entries) : Prop := ∀ entry ∈ before.values, entry ∈ after.values

/-- No two different uploads are in flight for one target. -/
def Apart (entries : Entries) : Prop :=
  ∀ entry ∈ entries.values, ∀ other ∈ entries.values, entry.target = other.target → entry = other

/-- Restating what is in flight loses nothing exactly when no two uploads are for one target. -/
theorem noneLost_restated_iff (entries : Entries) :
    NoneLost entries entries.restated ↔ Apart entries := by
  have hchange : ∀ {entry : JournalEntry} {key : Text}, entries.restated.get key = some entry →
      key = decodeName entry.target ∧ entry ∈ entries.values := by
    intro entry key hget
    obtain ⟨found, hmem, hfound⟩ := List.mem_map.mp (Dict.mem_of_get_updateAll hget)
    obtain ⟨hkey, hvalue⟩ := Update.mk.inj hfound
    obtain rfl := Option.some.inj hvalue
    exact ⟨hkey.symm, hmem⟩
  constructor
  · intro h entry hentry other hother htarget
    obtain ⟨key, hget⟩ := Dict.mem_values_iff.mp (h entry hentry)
    obtain ⟨key', hget'⟩ := Dict.mem_values_iff.mp (h other hother)
    have hkeys : key = key' := by rw [(hchange hget).1, (hchange hget').1, htarget]
    rw [hkeys] at hget
    exact Option.some.inj (hget.symm.trans hget')
  · intro h entry hentry
    have hlast := lastChange_ne_none (List.mem_map_of_mem (f := JournalEntry.change) hentry)
    obtain ⟨value, hvalue⟩ := Option.ne_none_iff_exists'.mp hlast
    have hchanged : lastChange (decodeName entry.target)
        (entries.values.map JournalEntry.change) = some value := hvalue
    have hget : entries.restated.get (decodeName entry.target) = value := by
      rw [Entries.restated, Dict.get_updateAll, hchanged, Option.getD_some]
    cases value with
    | none =>
      obtain ⟨found, -, hfound⟩ := List.mem_map.mp (mem_of_lastChange hvalue)
      cases (Update.mk.inj hfound).2
    | some other =>
      obtain ⟨hkey, hother⟩ := hchange hget
      rw [h entry hentry other hother (decodeName_injective hkey)]
      exact Dict.mem_values_iff.mpr ⟨_, hget⟩

/-- A compaction leaves the files that its rewrite does. -/
theorem exec_compact {files : Files} {path : Bytes} {surviving : Entries}
    (hfold : fold (logAt files path) = .ok surviving) (calls : ReplaceCalls) :
    ((compact path calls).exec files).2 =
      ((replaceAtomically path (compacted surviving) calls).exec files).2 := by
  rw [compact, Program.exec_bind, Program.exec_get]
  dsimp only
  rw [hfold]
  dsimp only
  rw [Program.exec_bind]
  obtain ⟨result, files'⟩ := (replaceAtomically path (compacted surviving) calls).exec files
  cases result <;> rfl

/-- A journal with new content is read as that. -/
theorem logAt_update (files : Files) (path content : Bytes) :
    logAt (Function.update files path (some content)) path = some ⟨0, 0, content⟩ := by
  rw [logAt, Function.update_self, Option.map_some]

/-- What any journal has in flight is made of entries that records can state. -/
theorem fits_of_fold_logAt {files : Files} {path : Bytes} {surviving : Entries}
    (hfold : fold (logAt files path) = .ok surviving) : ∀ entry ∈ surviving.values, entry.Fits := by
  cases hfile : logAt files path with
  | none =>
    rw [hfile] at hfold
    cases hfold
    exact fun entry hmem => absurd hmem List.not_mem_nil
  | some file =>
    rw [hfile] at hfold
    exact fits_of_fold hfold

/-- What compacting a journal keeps, whatever the journal holds: all of it when it cannot be folded,
and what is in flight when the rewrite is not cut short, exactly unless two uploads are for one
target. In a journal that appends made no two are. -/
structure CompactionKeeps (files : Files) (path : Bytes) (calls : ReplaceCalls) : Prop where
  unfolded : ∀ error, fold (logAt files path) = .error error →
    ((compact path calls).exec files).2 = files
  kept : ∀ surviving, fold (logAt files path) = .ok surviving →
    ¬ CutShort files path (compacted surviving) calls →
      ∃ after, fold (logAt ((compact path calls).exec files).2 path) = .ok after ∧
        (NoneLost surviving after ↔ Apart surviving ∨ ∀ count, ¬ Works files path calls count)
  stated : JournalAt files path → ∀ surviving, fold (logAt files path) = .ok surviving →
    ¬ CutShort files path (compacted surviving) calls →
      fold (logAt ((compact path calls).exec files).2 path) = .ok surviving

/-- Compacting a journal keeps what is in flight. -/
theorem compact_keeps (files : Files) (path : Bytes) (calls : ReplaceCalls) :
    CompactionKeeps files path calls where
  unfolded := by
    intro error hfold
    rw [compact, Program.exec_bind, Program.exec_get]
    dsimp only
    rw [hfold]
    rfl
  kept := by
    intro surviving hfold hwhole
    rw [exec_compact hfold]
    obtain ⟨hnone, hfailed⟩ | ⟨hsome, hdone⟩ := files_of_whole hwhole
    · rw [hfailed]
      exact ⟨surviving, hfold, iff_of_true (fun _ hmem => hmem) (Or.inr hnone)⟩
    · rw [hdone, logAt_update]
      refine ⟨_, fold_compacted_restated (fits_of_fold_logAt hfold) 0 0, ?_⟩
      rw [noneLost_restated_iff, or_iff_left hsome]
  stated := by
    intro hjournal surviving hfold hwhole
    rw [exec_compact hfold]
    obtain ⟨-, hfailed⟩ | ⟨-, hdone⟩ := files_of_whole hwhole
    · rw [hfailed]
      exact hfold
    · rw [hdone, logAt_update]
      exact fold_compacted (kept_of_fold hjournal hfold) 0 0

/-- A file states these entries of a manifest and no others. -/
def StatesManifest (files : Files) (path : Bytes) (entries : ManifestEntries) : Prop :=
  ∃ folded, foldManifest (files path) = .ok folded ∧ ∀ key, folded.get key = entries.get key

/-- Rewriting a manifest puts all of its entries in place, or raises with them there or the old
file. -/
def ManifestKept {α : Type} (files : Files) (path : Bytes) (entries : ManifestEntries) :
    Except StateError α × Files → Prop
  | (.ok _, files') => StatesManifest files' path entries
  | (.error _, files') => files' = files ∨ StatesManifest files' path entries

/-- Rewriting a manifest loses no entry, unless it is cut short. -/
theorem writeManifest_keeps {files : Files} {path : Bytes} {entries : ManifestEntries}
    (hentries : entries.Fits) {calls : ReplaceCalls}
    (hwhole : ¬ CutShort files path (manifestPayload entries) calls) :
    ManifestKept files path entries ((writeManifest entries path calls).exec files) := by
  unfold writeManifest
  obtain ⟨-, hfailed⟩ | ⟨-, hdone⟩ := files_of_whole hwhole
  · rw [hfailed]
    exact Or.inl rfl
  · have hstates : StatesManifest
        ((replaceAtomically path (manifestPayload entries) calls).exec files).2 path entries := by
      obtain ⟨folded, hfold, hget⟩ := foldManifest_manifestPayload hentries
      refine ⟨folded, ?_, hget⟩
      rw [hdone, Function.update_self]
      exact hfold
    generalize (replaceAtomically path (manifestPayload entries) calls).exec files = outcome
      at hstates ⊢
    obtain ⟨result, files'⟩ := outcome
    cases result with
    | error error => exact Or.inr hstates
    | ok value => exact hstates

/-- Rewriting a state file is all or nothing exactly when the write is not cut short with nothing
raised and flushing the directory does not raise once the file has changed. When the write is not
cut short, neither a compaction nor a rewritten manifest loses anything, two uploads in flight for
one target apart. -/
theorem rewrites_iff (files : Files) (path payload : Bytes) (calls : ReplaceCalls)
    {entries : ManifestEntries} (hentries : entries.Fits) :
    (AllOrNothing files path payload ((replaceAtomically path payload calls).exec files) ↔
        ¬ (CutShort files path payload calls ∧ calls.directory.raises = false) ∧
          ¬ RaisesLate files path payload calls) ∧
      CompactionKeeps files path calls ∧
      (¬ CutShort files path (manifestPayload entries) calls →
        ManifestKept files path entries ((writeManifest entries path calls).exec files)) :=
  ⟨allOrNothing_iff files path payload calls, compact_keeps files path calls,
    writeManifest_keeps hentries⟩

/-- Calls of a rewrite that all work, with so many bytes accepted, except that the directory's
descriptor may not be closed. -/
def rewriting (count : ℕ) (closes : Bool) : ReplaceCalls :=
  ⟨[[120]], .accepts count, true, true, true, ⟨true, true, closes⟩⟩

/-- A directory with a journal of two uploads, one of which was published. -/
def twoUploads : Files := fun name =>
  if name = [106] then
    some (stagedLine (sampleEntry [98]) ++ stagedLine (sampleEntry [97]) ++ publishedLine [98])
  else none

/-- A manifest with two entries. -/
def twoSent : ManifestEntries := (Dict.empty.set [116] emptySent).set [97] emptySent

/-- Those entries can be stated by records. -/
theorem twoSent_fits : twoSent.Fits := by
  intro item hmem
  have hentries : twoSent.entries = [([116], emptySent), ([97], emptySent)] := by decide +kernel
  rw [hentries, List.mem_cons, List.mem_singleton] at hmem
  obtain rfl | rfl := hmem
  · exact ⟨spellable_of_forall (show ∀ point ∈ [116], _ by decide), emptySent_fits⟩
  · exact ⟨spellable_of_forall (show ∀ point ∈ [97], _ by decide), emptySent_fits⟩

/-- Rewrites of a journal with two uploads by calls that all work: it holds the payload, or after a
compaction the upload that is in flight, or two entries of a manifest. -/
theorem rewrites_iff_twoUploads :
    AllOrNothing twoUploads [106] [1, 2]
        ((replaceAtomically [106] [1, 2] (rewriting 1000 true)).exec twoUploads) ∧
      (∃ surviving, fold (logAt twoUploads [106]) = .ok surviving ∧
        surviving.get [97] = some (sampleEntry [97]) ∧
        fold (logAt ((compact [106] (rewriting 1000 true)).exec twoUploads).2 [106]) =
          .ok surviving) ∧
      ManifestKept twoUploads [106] twoSent
        ((writeManifest twoSent [106] (rewriting 1000 true)).exec twoUploads) := by
  obtain ⟨hwhole, hcompaction, hmanifest⟩ :=
    rewrites_iff twoUploads [106] [1, 2] (rewriting 1000 true) twoSent_fits
  have hlong : ∀ payload : Bytes, payload.length ≤ 1000 →
      ¬ CutShort twoUploads [106] payload (rewriting 1000 true) := by
    rintro payload hlength ⟨count, hworks, hshort⟩
    obtain rfl : 1000 = count := Writing.accepts.inj hworks.write
    omega
  have hjournal : JournalAt twoUploads [106] := by
    refine Or.inr ⟨[⟨.staged (sampleEntry [98]) (sampleEntry_fits [98]), 1000⟩,
      ⟨.staged (sampleEntry [97]) (sampleEntry_fits [97]), 1000⟩, ⟨.published [98], 1000⟩], ?_, ?_⟩
    · intro append hmem
      simp only [List.mem_cons, List.not_mem_nil, or_false] at hmem
      obtain rfl | rfl | rfl := hmem <;> decide
    · decide +kernel
  cases hfold : fold (logAt twoUploads [106]) with
  | error error =>
    have hreturns : (fold (logAt twoUploads [106])).isOk = true := by decide +kernel
    rw [hfold] at hreturns
    cases hreturns
  | ok surviving =>
    have hsays : (fold (logAt twoUploads [106])).map (fun entries =>
        (entries.get [97], decide ((compacted entries).length ≤ 1000))) =
          .ok (some (sampleEntry [97]), true) := by
      decide +kernel
    rw [hfold] at hsays
    obtain ⟨hget, hlength⟩ := Prod.mk.inj (Except.ok.inj hsays)
    exact ⟨hwhole.mpr ⟨fun h => hlong _ (by decide) h.1, fun h => absurd h.1 (by decide)⟩,
      ⟨surviving, rfl, hget,
        hcompaction.stated hjournal surviving hfold (hlong _ (of_decide_eq_true hlength))⟩,
      hmanifest (hlong _ (by decide +kernel))⟩

/-- The `staged` record of an upload for a target spelled in one way or another. -/
def recordFor (staged : ℕ) (target : Text) : Bytes :=
  line "staged"
    [(textOf "staged", .string [staged]), (textOf "target", .string target),
      (textOf "local", .string [0x78]), (textOf "local_size", .int 0),
      (textOf "local_mtime", .int 0)]

/-- A directory with a journal of two uploads for one target, which one record spells as a letter
and the other as two escaped bytes. -/
def twoSpellings : Files := fun name =>
  if name = [106] then some (recordFor 0x73 [0xE9] ++ recordFor 0x72 [0xDCC3, 0xDCA9]) else none

/-- The uploads that the journal has in flight. -/
def spelledEntries : List JournalEntry :=
  [⟨[0x73], [0xC3, 0xA9], [0x78], 0, 0⟩, ⟨[0x72], [0xC3, 0xA9], [0x78], 0, 0⟩]

/-- A write that accepts one of two bytes makes a rewrite return with half of its payload; one
whose payload is in place raises when the directory's descriptor is not closed; and compacting a
journal with two uploads for one target loses one. -/
theorem not_forall_allOrNothing :
    (¬ ∀ (files : Files) (path payload : Bytes) (count : ℕ), 0 < count → count ≤ payload.length →
      AllOrNothing files path payload
        ((replaceAtomically path payload (rewriting count true)).exec files)) ∧
    (¬ ∀ (files : Files) (path payload : Bytes),
      AllOrNothing files path payload
        ((replaceAtomically path payload (rewriting payload.length false)).exec files)) ∧
    ¬ ∀ (files : Files) (path : Bytes) (surviving after : Entries),
      fold (logAt files path) = .ok surviving →
      fold (logAt ((compact path
        (rewriting (compacted surviving).length true)).exec files).2 path) = .ok after →
      NoneLost surviving after := by
  refine ⟨fun h => ?_, fun h => ?_, fun h => ?_⟩
  · have hwhole := (allOrNothing_iff _ _ _ _).mp
      (h twoUploads [106] [1, 2] 1 (by decide) (by decide))
    exact hwhole.1 ⟨⟨1, ⟨by decide, rfl, rfl, rfl, rfl⟩, by decide⟩, rfl⟩
  · have hwhole := (allOrNothing_iff _ _ _ _).mp (h twoUploads [106] [1, 2])
    exact hwhole.2 ⟨rfl, 2, ⟨by decide, rfl, rfl, rfl, rfl⟩, by decide +kernel⟩
  · have hvalues : (fold (logAt twoSpellings [106])).map Dict.values = .ok spelledEntries := by
      decide +kernel
    cases hfold : fold (logAt twoSpellings [106]) with
    | error error =>
      rw [hfold] at hvalues
      cases hvalues
    | ok surviving =>
      rw [hfold] at hvalues
      have hworks : Works twoSpellings [106] (rewriting (compacted surviving).length true)
          (compacted surviving).length :=
        ⟨show freshName twoSpellings [106] [[120]] ≠ none by decide, rfl, rfl, rfl, rfl⟩
      have hwhole : ¬ CutShort twoSpellings [106] (compacted surviving)
          (rewriting (compacted surviving).length true) :=
        fun hshort => lt_irrefl _ (hworks.cutShort_iff.mp hshort)
      obtain ⟨after, hafter, hiff⟩ := (compact_keeps twoSpellings [106] _).kept surviving hfold hwhole
      obtain hapart | hnone := hiff.mp (h twoSpellings [106] surviving after hfold hafter)
      · unfold Apart at hapart
        rw [Except.ok.inj hvalues] at hapart
        exact absurd (hapart _ List.mem_cons_self _ (List.mem_cons_of_mem _ List.mem_cons_self) rfl)
          (by decide)
      · exact hnone _ hworks

end GantrySftp.StateFile
