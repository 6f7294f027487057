import GantrySftp.Session.Manifest
import GantrySftp.Session.RemoteNames

/-!
# Whether a file needs sending

A mirror compares three things about a file: what it looks like here, what the destination listing
says of it, and what was recorded when it was last sent. Local evidence is asked first, and no
answer of the server overrides it; only where everything matches is the file skipped.
-/

namespace GantrySftp

open Library

/-- What a comparison comes to. -/
inductive SyncDecision
  | transfer | skipped | undecidable
  deriving DecidableEq

/-- Why it comes to that. -/
inductive SyncReason
  | noRecord | localSizeChanged | localMtimeChanged | remoteGone | remoteSizeChanged
  | remoteMtimeChanged | identical | remoteSizeUnreported | remoteTimesUnreported
  | localAttrsUnreported
  deriving DecidableEq

/-- A decision about one file, and the reason for it. -/
structure Comparison where
  decision : SyncDecision
  reason : SyncReason
  deriving DecidableEq

/-- Whether a file is sent. -/
def Comparison.transfers (comparison : Comparison) : Bool := comparison.decision ≠ .skipped

/-- What the local file says, unless it matches the record. -/
def localSide (here : Attrs) (recorded : ManifestEntry) : Option Comparison :=
  match here.size, here.times with
  | some size, some times =>
    if size ≠ recorded.localSize then some ⟨.transfer, .localSizeChanged⟩
    else if times.mtime ≠ recorded.localMtime then some ⟨.transfer, .localMtimeChanged⟩
    else none
  | _, _ => some ⟨.undecidable, .localAttrsUnreported⟩

/-- What the destination listing says, where the local file matches the record. -/
def remoteSide (there : Option Attrs) (recorded : ManifestEntry) : Comparison :=
  match there with
  | none => ⟨.transfer, .remoteGone⟩
  | some there =>
    match there.size, there.times with
    | none, _ => ⟨.undecidable, .remoteSizeUnreported⟩
    | some _, none => ⟨.undecidable, .remoteTimesUnreported⟩
    | some size, some times =>
      if size ≠ recorded.remoteSize then ⟨.transfer, .remoteSizeChanged⟩
      else if times.mtime ≠ recorded.remoteMtime then ⟨.transfer, .remoteMtimeChanged⟩
      else ⟨.skipped, .identical⟩

/-- Decide whether one file needs sending. -/
def compareForSync (here : Attrs) (there : Option Attrs) (recorded : Option ManifestEntry) :
    Comparison :=
  match recorded with
  | none => ⟨.transfer, .noRecord⟩
  | some recorded => (localSide here recorded).getD (remoteSide there recorded)

/-- What `stat` says of a local file, its times in whole seconds. -/
structure LocalFacts where
  size : ℤ
  times : Times
  mode : ℤ

/-- Adapt a local name and its `stat` into the entry type a report is written in. -/
def localDirEntry (name : Bytes) (facts : LocalFacts) : DirEntry where
  filename := name
  attrs := { size := some facts.size, permissions := some facts.mode, times := some facts.times }

/-- The record for a file that has just landed, if the server said enough of it. -/
def manifestEntryFor (facts : LocalFacts) (landed : Attrs) : Option ManifestEntry :=
  match landed.size, landed.times with
  | some size, some times => some ⟨facts.size, facts.times.mtime, size, times.mtime⟩
  | _, _ => none

/-- Attributes that report this size and this modification time. -/
def Attrs.Stamped (attrs : Attrs) (size mtime : ℤ) : Prop :=
  attrs.size = some size ∧ ∃ times, attrs.times = some times ∧ times.mtime = mtime

/-- What a local entry reports is what `stat` says of the file. -/
theorem localDirEntry_stamped_iff {name : Bytes} {facts : LocalFacts} {size mtime : ℤ} :
    (localDirEntry name facts).attrs.Stamped size mtime ↔
      facts.size = size ∧ facts.times.mtime = mtime := by
  simp [localDirEntry, Attrs.Stamped]

/-- A record joins what `stat` says of the local file with what the server reports. -/
theorem manifestEntryFor_eq_some_iff {facts : LocalFacts} {landed : Attrs} {entry : ManifestEntry} :
    manifestEntryFor facts landed = some entry ↔
      entry.localSize = facts.size ∧ entry.localMtime = facts.times.mtime ∧
        landed.Stamped entry.remoteSize entry.remoteMtime := by
  obtain ⟨localSize, localMtime, remoteSize, remoteMtime⟩ := entry
  unfold manifestEntryFor Attrs.Stamped
  cases hsize : landed.size with
  | none => simp
  | some size =>
    cases htimes : landed.times with
    | none => simp
    | some times =>
      simp only [Option.some.injEq, ManifestEntry.mk.injEq, exists_eq_left']
      constructor
      · rintro ⟨rfl, rfl, rfl, rfl⟩
        exact ⟨rfl, rfl, rfl, rfl⟩
      · rintro ⟨rfl, rfl, rfl, rfl⟩
        exact ⟨rfl, rfl, rfl, rfl⟩

/-- The local file matches the record where it reports what was recorded. -/
theorem localSide_eq_none_iff {here : Attrs} {recorded : ManifestEntry} :
    localSide here recorded = none ↔ here.Stamped recorded.localSize recorded.localMtime := by
  unfold localSide Attrs.Stamped
  cases hsize : here.size with
  | none => simp
  | some size =>
    cases htimes : here.times with
    | none => simp
    | some times =>
      simp only [ne_eq, ite_not, Option.some.injEq, exists_eq_left']
      split_ifs with hsame hmtime
      · simp [hsame, hmtime]
      · simp [hmtime]
      · simp [hsame]

/-- Local evidence alone never has a file skipped. -/
theorem localSide_ne_skipped {here : Attrs} {recorded : ManifestEntry} {verdict : Comparison}
    (h : localSide here recorded = some verdict) : verdict.decision ≠ .skipped := by
  unfold localSide at h
  split at h
  · split_ifs at h <;> cases h <;> simp
  · cases h
    simp

/-- The listing has the file skipped where it reports what was recorded. -/
theorem remoteSide_skipped_iff {there : Option Attrs} {recorded : ManifestEntry} :
    (remoteSide there recorded).decision = .skipped ↔
      ∃ attrs, there = some attrs ∧ attrs.Stamped recorded.remoteSize recorded.remoteMtime := by
  unfold remoteSide Attrs.Stamped
  cases there with
  | none => simp
  | some there =>
    simp only [Option.some.injEq, exists_eq_left']
    cases hsize : there.size with
    | none => simp
    | some size =>
      cases htimes : there.times with
      | none => simp
      | some times =>
        simp only [ne_eq, ite_not, Option.some.injEq, exists_eq_left']
        split_ifs with hsame hmtime
        · simp [hsame, hmtime]
        · simp [hmtime]
        · simp [hsame]

/-- A file is skipped where both sides report what was recorded, and nowhere else. -/
theorem compareForSync_skipped_iff {here : Attrs} {there : Option Attrs}
    {recorded : Option ManifestEntry} :
    (compareForSync here there recorded).decision = .skipped ↔
      ∃ entry attrs, recorded = some entry ∧ there = some attrs ∧
        here.Stamped entry.localSize entry.localMtime ∧
        attrs.Stamped entry.remoteSize entry.remoteMtime := by
  cases recorded with
  | none => simp [compareForSync]
  | some entry =>
    simp only [compareForSync, Option.some.injEq, exists_and_left, exists_eq_left',
      ← localSide_eq_none_iff]
    cases hlocal : localSide here entry with
    | none => simpa using remoteSide_skipped_iff
    | some verdict =>
      have hne : verdict.decision ≠ .skipped := localSide_ne_skipped hlocal
      simp [hne]

end GantrySftp
