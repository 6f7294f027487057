import GantrySftp.Session.StateFiles

/-!
# Appends to the journal

An append that returns leaves what its one write accepted, behind whatever was in the file. The
record stays visible to every later fold when the file was empty or ended with a line feed and the
whole line was accepted. A record behind a torn line, or itself torn, is lost.
-/

namespace GantrySftp.StateFile

open Library

/-! ## What an append leaves -/

/-- A call without an effect leaves the files, whether it fails or not. -/
theorem exec_attempt (works : Bool) (files : Files) :
    (attempt works).exec files = (if works then .ok ⟨⟩ else .error .osError, files) := by
  cases works <;> rfl

/-- The directory's descriptor is opened and not closed. -/
def DirectoryCalls.raises (calls : DirectoryCalls) : Bool := calls.opens && !calls.closes

/-- Flushing the directory leaves the files, and raises if its descriptor is not closed. -/
theorem exec_fsyncDirectory (calls : DirectoryCalls) (files : Files) :
    (fsyncDirectory calls).exec files =
      (if calls.raises then .error .osError else .ok ⟨⟩, files) := by
  obtain ⟨opens, syncs, closes⟩ := calls
  cases opens <;> cases syncs <;> cases closes <;> rfl

/-- An append that returns leaves the bytes that were accepted at the end of the file. -/
theorem appendRecord_returns {path record : Bytes} {calls : AppendCalls} {files : Files} {count : ℕ}
    (hwrite : calls.write = .accepts count)
    (hreturns : ((appendRecord path record calls).exec files).1 = .ok ⟨⟩) :
    ((appendRecord path record calls).exec files).2 path =
      some ((files path).getD [] ++ record.take count) := by
  obtain ⟨opens, write, syncs, closes, directory⟩ := calls
  subst hwrite
  cases opens with
  | false => cases hreturns
  | true =>
    have hwritten : (Program.ensuring
        (do
          osWrite path record (.accepts count)
          attempt syncs)
        (attempt closes)).exec (Function.update files path (some ((files path).getD []))) =
          (if syncs && closes then .ok ⟨⟩ else .error .osError,
            Function.update files path (some ((files path).getD [] ++ record.take count))) := by
      cases syncs <;> cases closes <;>
        simp [osWrite, Program.exec_ensuring, Program.exec_bind, exec_attempt]
    have hexec : (appendRecord path record ⟨true, .accepts count, syncs, closes, directory⟩).exec
        files = ((do
          Program.ensuring
            (do
              osWrite path record (.accepts count)
              attempt syncs)
            (attempt closes)
          if (files path).isNone then fsyncDirectory directory else pure ⟨⟩ : Disk PUnit).exec
            (Function.update files path (some ((files path).getD [])))) := rfl
    rw [hexec, Program.exec_bind, hwritten] at hreturns ⊢
    cases hworks : syncs && closes with
    | false =>
      rw [hworks] at hreturns
      cases hreturns
    | true =>
      simp only [if_true]
      split_ifs
      · rw [exec_fsyncDirectory]
        exact Function.update_self _ _ _
      · exact Function.update_self _ _ _

/-! ## Which records stay -/

/-- An entry is found by every later fold, whatever is appended to the file for other targets and
however much of each append is accepted. -/
def Durable (files : Files) (path target : Bytes) (entry : JournalEntry) : Prop :=
  ∀ later : List (Appended JournalRecord),
    (∀ next ∈ later, 0 < next.accepted ∧ next.record.change.key ≠ decodeName target) →
      ∀ device inode, ∃ entries,
        fold (some ⟨device, inode, (files path).getD [] ++ journalLog.content later⟩) = .ok entries ∧
          entries.get (decodeName target) = some entry

/-- Folding what appends leave makes the changes they state. -/
theorem fold_content {appends : List (Appended JournalRecord)}
    (hpositive : ∀ append ∈ appends, 0 < append.accepted) (device inode : ℤ) :
    fold (some ⟨device, inode, journalLog.content appends⟩) =
      .ok (Dict.empty.updateAll (journalLog.stated .clean appends)) := by
  obtain ⟨hchanges, hraised⟩ := RecordLog.changes_content .clean hpositive
  have hcontent : bytesOf ([] : List Text).flatten ++ journalLog.content appends =
      journalLog.content appends := rfl
  rw [hcontent] at hchanges hraised
  rw [fold_changes, hraised, hchanges]

/-- No two names are decoded to one text. -/
theorem decodeName_injective {name name' : Bytes} (h : decodeName name = decodeName name') :
    name = name' := by
  have hencoded := congrArg encodeUtf8 h
  rw [decodeName, decodeName, encodeUtf8_decodeUtf8, encodeUtf8_decodeUtf8] at hencoded
  exact Option.some.inj hencoded

/-- The first byte of a record for another target. -/
def elsewhere (target : Bytes) : Appended JournalRecord where
  record := .published (0x2E :: target)
  accepted := 1

/-- That record is for another target. -/
theorem elsewhere_key (target : Bytes) :
    (elsewhere target).record.change.key ≠ decodeName target := by
  intro h
  have hlength := congrArg List.length (decodeName_injective h)
  simp at hlength

/-- A staging call that returns is durable and visible exactly when the file was empty or ended
with a line feed and the whole line was accepted, or the complete lines of the file already
stated this very entry. -/
theorem staging_durable_iff {files : Files} {path staged target : Bytes} {source : SourceIdentity}
    {calls : AppendCalls} (before : List (Appended JournalRecord))
    (hbefore : ∀ append ∈ before, 0 < append.accepted)
    (hprior : (files path).getD [] = journalLog.content before)
    (hfits : (entryOf staged target source).Fits) {count : ℕ}
    (hwrite : calls.write = .accepts count) (hcount : 0 < count)
    (hreturns : ((staging path staged target source calls).exec files).1 = .ok ⟨⟩) :
    Durable ((staging path staged target source calls).exec files).2 path target
        (entryOf staged target source) ↔
      (Terminated ((files path).getD []) ∧
          (stagedLine (entryOf staged target source)).length ≤ count) ∨
        (foldedLines (splitTail ((files path).getD [])).1).get (decodeName target) =
          some (entryOf staged target source) := by
  have hleft := appendRecord_returns hwrite hreturns
  have hcontent : ∀ later : List (Appended JournalRecord),
      (((staging path staged target source calls).exec files).2 path).getD [] ++
          journalLog.content later =
        journalLog.content (before ++ ⟨.staged _ hfits, count⟩ :: later) := by
    intro later
    have hstaging : ((staging path staged target source calls).exec files).2 path = _ := hleft
    rw [hstaging, Option.getD_some, hprior]
    simp [RecordLog.content, RecordLog.bytes, journalLog_staged]
  have hpositive : ∀ later : List (Appended JournalRecord), (∀ next ∈ later, 0 < next.accepted) →
      ∀ append ∈ before ++ ⟨.staged _ hfits, count⟩ :: later, 0 < append.accepted := by
    intro later hlater append hmem
    obtain hmem | hmem := List.mem_append.mp hmem
    · exact hbefore append hmem
    · obtain rfl | hmem := List.mem_cons.mp hmem
      · exact hcount
      · exact hlater append hmem
  have hiff := RecordLog.durable_iff before ⟨.staged _ hfits, count⟩
    (show journalLog.change (.staged (entryOf staged target source) hfits) =
      { key := decodeName target, value := some (entryOf staged target source) } from rfl)
    (elsewhere_key target) Nat.one_pos
  have hcommitted : foldedLines (splitTail (journalLog.content before)).1 =
      Dict.empty.updateAll (journalLog.committed .clean before) := by
    rw [← journalLog.changes_splitTail hbefore, foldedLines, changesOf_eq]
    rfl
  rw [hprior, journalLog.terminated_content_iff hbefore, hcommitted, ← journalLog_staged _ hfits]
  refine Iff.trans ?_ hiff
  refine forall₂_congr fun later hlater => ?_
  have hfold := fold_content (hpositive later fun next hmem => (hlater next hmem).1)
  rw [hcontent]
  constructor
  · intro h
    obtain ⟨entries, hentries, hget⟩ := h 0 0
    rw [hfold] at hentries
    cases hentries
    exact hget
  · intro hget device inode
    exact ⟨_, hfold device inode, hget⟩

/-- Calls of an append that all work, with so many bytes accepted. -/
def working (count : ℕ) : AppendCalls := ⟨true, .accepts count, true, true, ⟨true, true, true⟩⟩

/-- A directory with a journal of one upload. -/
def oneUpload : Files := fun name =>
  if name = [106] then some (stagedLine (sampleEntry [98])) else none

/-- A staging call whose whole line is accepted behind the record of another upload. -/
theorem staging_durable_iff_oneUpload :
    Durable ((staging [106] [115] [97] ⟨[120], 0, 0⟩ (working 200)).exec oneUpload).2 [106] [97]
      (entryOf [115] [97] ⟨[120], 0, 0⟩) := by
  have hbefore : ∀ append ∈ [(⟨.staged (sampleEntry [98]) (sampleEntry_fits [98]), 200⟩ :
      Appended JournalRecord)], 0 < append.accepted := by
    intro append hmem
    obtain rfl := List.mem_singleton.mp hmem
    decide
  have hended : Terminated ((oneUpload [106]).getD []) :=
    Or.inr ⟨(stagedLine (sampleEntry [98])).dropLast, by decide +kernel⟩
  exact (staging_durable_iff _ hbefore (by decide +kernel) (sampleEntry_fits [97]) rfl (by decide)
    (by decide +kernel)).mpr (Or.inl ⟨hended, by decide +kernel⟩)

/-- The journal after a crash that left the first bytes of a record. -/
def tornFiles : Files := fun name =>
  if name = [106] then some ((stagedLine (sampleEntry [98])).take 40) else none

/-- A staging call that returns, its whole line accepted, is lost behind a torn line. -/
theorem not_forall_durable :
    ¬ ∀ (files : Files) (path staged target : Bytes) (source : SourceIdentity)
        (before : List (Appended JournalRecord)) (count : ℕ),
      (∀ append ∈ before, 0 < append.accepted) →
      (files path).getD [] = journalLog.content before →
      (entryOf staged target source).Fits → 0 < count →
      ((staging path staged target source (working count)).exec files).1 = .ok ⟨⟩ →
      Durable ((staging path staged target source (working count)).exec files).2 path target
        (entryOf staged target source) := by
  intro h
  have hbefore : ∀ append ∈ [(⟨.staged (sampleEntry [98]) (sampleEntry_fits [98]), 40⟩ :
      Appended JournalRecord)], 0 < append.accepted := by
    intro append hmem
    obtain rfl := List.mem_singleton.mp hmem
    decide
  obtain ⟨entries, hentries, hget⟩ := h tornFiles [106] [115] [97] ⟨[120], 0, 0⟩ _ 200 hbefore
    (by decide +kernel) (sampleEntry_fits [97]) (by decide) rfl []
      (fun _ hmem => absurd hmem List.not_mem_nil) 0 0
  have hlost : (fold (some ⟨0, 0, (((staging [106] [115] [97] ⟨[120], 0, 0⟩ (working 200)).exec
      tornFiles).2 [106]).getD [] ++ journalLog.content []⟩)).map (fun found => found.get
        (decodeName [97])) = .ok none := by
    decide +kernel
  rw [hentries] at hlost
  cases (Except.ok.inj hlost).symm.trans hget

end GantrySftp.StateFile
