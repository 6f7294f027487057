import GantrySftp.Library.Alongside
import GantrySftp.Session.DryRun
import GantrySftp.Session.FreshPlaces
import GantrySftp.Session.TreeClaims

/-!
# A dry run tells what a download would do

Into an empty destination on a file system that keeps names apart, a download claims every file
that a dry run plans: the two go through one walk, make the same checks, and come to the same
numbers in different ways. A dry run counts a file before it is settled, and folds its name; a
download makes and claims it, and counts it once a worker is done with it.
-/

namespace GantrySftp

open Library Program Platform

/-- A worker that ends with the length of the remote file. -/
def WorkerAct.IsFaithful (length : Bytes → ℕ) : WorkerAct → Prop
  | .finishes _ served _ => ∀ remote, served remote = .ok (length remote)
  | _ => True

section Mirroring

variable (platform : Platform) (base : LocalDisk) (destination : LocalPath) (place : List Bytes)
  (length : Bytes → ℕ)

/-- A download that fills an empty destination, and a dry run that says so. -/
structure Mirrors (visited : List WalkEntry) (positions : List (List Bytes))
    (pending : List SettledDownload) (real dry : DownloadState) : Prop where
  fills : Fills platform base destination place visited positions pending real
  served : ∀ item count, .transferred item count ∈ real.effects → count = length item.remote
  faithful : ∀ next ∈ real.schedule.flatten, next.IsFaithful length
  disk : dry.disk = base
  idle : dry.transfers = []
  folded : ∃ claims, dry.ledger = .folded claims
  directories : dry.directories = real.directories
  skipped : dry.skipped = real.skipped
  files : dry.plannedFiles = (real.claimed pending).length
  bytes : dry.sizesUnreported = 0 →
    dry.plannedBytes = ((real.claimed pending).map fun item => (length item.remote : ℤ)).sum

variable {platform base destination place length} {visited : List WalkEntry}
  {positions : List (List Bytes)} {pending : List SettledDownload}
  {state state' real real' dry dry' : DownloadState} {options : TreeOptions}

/-! ## Workers -/

/-- A worker that opens a claimed file adds nothing to the disk. -/
theorem WorkerStep.kept (hstep : WorkerStep platform options false state state')
    (h : KeepsApart platform destination visited pending state) :
    state'.disk = state.disk ∧ state'.directories = state.directories := by
  cases hstep with
  | @opens index item place node disk hindex hopen =>
    have hmem : item ∈ state.claimed pending := mem_claimed hindex
    obtain ⟨node', hnode, hfile⟩ := h.file hmem
    exact ⟨((opened_of_openCall hopen).same hnode hfile).2, rfl⟩
  | _ => exact ⟨rfl, rfl⟩

/-- What workers do leaves a destination filled as it was. -/
theorem Fills.step (h : Fills platform base destination place visited positions pending state)
    (hstep : WorkerStep platform options false state state') :
    Fills platform base destination place visited positions pending state' := by
  obtain ⟨hdisk, -⟩ := hstep.kept h.apart
  obtain ⟨-, -, hcollisions⟩ := hstep.account pending
  exact {
    apart := h.apart.step hstep
    names := hdisk ▸ h.names
    kept := hdisk ▸ h.kept
    root := hdisk ▸ h.root
    located := hdisk ▸ h.located
    known := hdisk ▸ h.known
    clean := hcollisions.trans h.clean }

/-- What workers do is planned as it was, as long as they end with the lengths of the files. -/
theorem Mirrors.step (options : TreeOptions)
    (h : Mirrors platform base destination place length visited positions pending real dry)
    (hstep : WorkerStep platform options false real real')
    (hserved : ∀ item count, .transferred item count ∈ real'.effects →
      .transferred item count ∈ real.effects ∨ count = length item.remote)
    (hfaithful : ∀ next ∈ real'.schedule.flatten, next.IsFaithful length) :
    Mirrors platform base destination place length visited positions pending real' dry := by
  obtain ⟨-, hdirectories⟩ := hstep.kept h.fills.apart
  obtain ⟨hclaimed, hskipped, -⟩ := hstep.account pending
  exact { h with
    fills := h.fills.step hstep
    served := fun item count hmem => (hserved item count hmem).elim (h.served item count) id
    faithful := hfaithful
    directories := h.directories.trans hdirectories.symm
    skipped := h.skipped.trans hskipped.symm
    files := by rw [h.files, hclaimed]
    bytes := by rw [hclaimed]; exact h.bytes }

/-- An effect that is not new was there before. -/
theorem transferred_record {effect : LocalEffect} (heffect : effect.transferredItem = none)
    {item : SettledDownload} {count : ℕ}
    (hmem : .transferred item count ∈ (state.record effect).effects) :
    .transferred item count ∈ state.effects := by
  rcases List.mem_append.mp hmem with hold | hnew
  · exact hold
  · rw [← List.mem_singleton.mp hnew] at heffect
    cases heffect

/-- Changing the metadata of a file leaves the plan right. -/
theorem mirrors_records (options : TreeOptions) {index : ℕ} {item : SettledDownload}
    {stage : TransferStage}
    (h : Mirrors platform base destination place length visited positions pending real dry)
    (hindex : real.transfers[index]? = some ⟨item, stage⟩) {effects : List LocalEffect}
    (hmarks : ∀ effect ∈ effects, Marking platform false real.disk item stage effect) :
    Mirrors platform base destination place length visited positions pending
      (real.records effects) dry := by
  induction effects using List.reverseRecOn with
  | nil => rwa [DownloadState.records, List.append_nil]
  | append_singleton effects effect ih =>
    obtain ⟨hall, hlast⟩ := List.forall_mem_append.mp hmarks
    have hmark := List.forall_mem_singleton.mp hlast
    have hnone : effect.transferredItem = none := by
      obtain ⟨node, ⟨-, mark, rfl⟩ | ⟨place, -, rfl | ⟨mark, rfl⟩⟩⟩ := hmark <;> rfl
    have hrecord := (ih hall).step options (.marks hindex hmark)
      (fun _ _ hmem => Or.inl (transferred_record hnone hmem)) (ih hall).faithful
    rwa [DownloadState.record, DownloadState.records, List.append_assoc] at hrecord

/-- A faithful worker never fails, and leaves the plan right. -/
theorem mirrors_act {next : WorkerAct} (hnext : next.IsFaithful length) :
    Meets (Mirrors platform base destination place length visited positions pending · dry)
      (act platform options false next)
      (fun _ => (Mirrors platform base destination place length visited positions pending · dry))
      fun _ _ => False := by
  cases next with
  | takes index =>
    refine Meets.of fun real h => ?_
    split
    · exact h.step options (.takes ‹_›) (fun _ _ hmem => Or.inl hmem) h.faithful
    · exact h
  | opens index =>
    refine Meets.of fun real h => ?_
    split
    · rename_i item hindex
      obtain ⟨node, hnode, hfile⟩ := h.fills.apart.file (mem_claimed hindex)
      obtain ⟨place', hopen⟩ := openCall_file h.fills.names hnode hfile
      simp only [hopen]
      refine h.step options (.opens hindex hopen) (fun _ _ hmem => ?_) h.faithful
      exact Or.inl (transferred_record rfl hmem)
    · exact h
  | writes index =>
    refine Meets.of fun real h => ?_
    split
    · refine h.step options (.writes ‹_›) (fun _ _ hmem => ?_) h.faithful
      exact Or.inl (transferred_record rfl hmem)
    · exact h
  | finishes index served timed =>
    refine Meets.of fun real h => ?_
    have hends : ∀ (state : DownloadState) (item : SettledDownload) (stage : TransferStage),
        Mirrors platform base destination place length visited positions pending state dry →
        state.transfers[index]? = some ⟨item, stage⟩ → stage.isDone = false →
        (stage = .taken → options.resume = true) →
        Mirrors platform base destination place length visited positions pending
          (state.finishing index item (length item.remote)) dry := by
      intro state item stage h hstage hdone hresumed
      refine h.step options (.finishes hstage hdone hresumed) (fun _ _ hmem => ?_) h.faithful
      rcases List.mem_append.mp hmem with hold | hnew
      · exact Or.inl hold
      · cases List.mem_singleton.mp hnew
        exact Or.inr rfl
    split
    · rename_i item node hindex
      rw [hnext]
      exact hends _ _ _ (mirrors_records options h hindex
        (marking_writing _ _ _ (options.marks timed))) hindex rfl fun htaken => nomatch htaken
    · rename_i item hindex
      rw [hnext]
      dsimp only
      split_ifs with hresume
      · exact h
      · exact hends _ _ _ h hindex rfl fun _ => (Bool.not_eq_false _).mp hresume
      · obtain ⟨node, hnode, hfile⟩ := h.fills.apart.file (mem_claimed hindex)
        obtain ⟨place', hopen⟩ := reopenCall_file h.fills.names hnode hfile
        simp only [hopen]
        exact hends _ _ _ (mirrors_records options h hindex
          (marking_anew hopen (options.marks timed))) hindex rfl
            fun _ => (Bool.not_eq_false _).mp hresume
    · exact h

/-- Faithful workers in turn never fail. -/
theorem mirrors_acts {batch : List WorkerAct} (hbatch : ∀ next ∈ batch, next.IsFaithful length) :
    Meets (Mirrors platform base destination place length visited positions pending · dry)
      (batch.forM (act platform options false))
      (fun _ => (Mirrors platform base destination place length visited positions pending · dry))
      fun _ _ => False :=
  Meets.forM fun next hmem => mirrors_act (hbatch next hmem)

/-- The next part of the schedule. -/
theorem Mirrors.scheduling
    (h : Mirrors platform base destination place length visited positions pending real dry)
    {schedule : List (List WorkerAct)}
    (hfaithful : ∀ next ∈ schedule.flatten, next.IsFaithful length) :
    Mirrors platform base destination place length visited positions pending
      { real with schedule := schedule } dry :=
  h.step {} (.scheduled schedule) (fun _ _ => Or.inl) hfaithful

/-- While it lets its workers, a download goes on as planned. -/
theorem mirrors_letWorkers :
    Meets (Mirrors platform base destination place length visited positions pending · dry)
      (letWorkers platform options false)
      (fun _ => (Mirrors platform base destination place length visited positions pending · dry))
      fun _ _ => False := by
  refine Meets.get fun real h => ?_
  have hfaithful := h.faithful
  cases hschedule : real.schedule with
  | nil => exact Meets.pure fun _ heq => heq ▸ h
  | cons batch schedule =>
    rw [hschedule, List.flatten_cons] at hfaithful
    obtain ⟨hbatch, hlater⟩ := List.forall_mem_append.mp hfaithful
    refine Meets.bind (Meets.of fun _ heq => ?_) fun _ => mirrors_acts hbatch
    exact heq ▸ h.scheduling hlater

/-- The workers of a dry run do nothing. -/
theorem mirrors_act_idle (next : WorkerAct) :
    Meets (Mirrors platform base destination place length visited positions pending real)
      (act platform options false next)
      (fun _ => Mirrors platform base destination place length visited positions pending real)
      fun _ _ => False := by
  intro dry h
  rw [exec_act_idle next h.idle]
  exact h

/-- A dry run lets its workers do nothing. -/
theorem mirrors_letWorkers_idle :
    Meets (Mirrors platform base destination place length visited positions pending real)
      (letWorkers platform options false)
      (fun _ => Mirrors platform base destination place length visited positions pending real)
      fun _ _ => False := by
  refine Meets.get fun dry h => Meets.strengthen ?_ fun dry' heq => heq ▸ h
  cases dry.schedule with
  | nil => exact Meets.pure fun _ => id
  | cons batch schedule =>
    have hmove : Meets (Mirrors platform base destination place length visited positions pending real)
        (modify fun state => { state with schedule := schedule } : DownloadProgram Unit)
        (fun _ => Mirrors platform base destination place length visited positions pending real)
        fun _ _ => False := Meets.of fun dry' h' => { h' with }
    exact hmove.bind fun _ => Meets.forM fun next _ => mirrors_act_idle next

/-- Both runs let their workers. -/
theorem alongside_letWorkers (other : TreeOptions) :
    Alongside (Mirrors platform base destination place length visited positions pending)
      (letWorkers platform options false) (letWorkers platform other false)
      fun _ _ => Mirrors platform base destination place length visited positions pending :=
  Alongside.of_returns (fun _ => mirrors_letWorkers) fun _ => mirrors_letWorkers_idle

/-! ## Directories -/

/-- A step of a dry run that changes nothing of its plan. -/
structure SamePlan (state state' : DownloadState) : Prop where
  disk : state'.disk = state.disk
  transfers : state'.transfers = state.transfers
  folded : (∃ claims, state.ledger = .folded claims) → ∃ claims, state'.ledger = .folded claims
  directories : state'.directories = state.directories
  skipped : state'.skipped = state.skipped
  files : state'.plannedFiles = state.plannedFiles
  bytes : state'.plannedBytes = state.plannedBytes
  sizes : state'.sizesUnreported = state.sizesUnreported

/-- A step of a download that settles nothing, and one of a dry run that plans nothing. -/
theorem Mirrors.quiet
    (h : Mirrors platform base destination place length visited positions pending real dry)
    (hreal : SettlesNothing real real') (hdisk : real'.disk = real.disk)
    (hdirectories : real'.directories = real.directories)
    (hschedule : real'.schedule = real.schedule) (hdry : SamePlan dry dry') :
    Mirrors platform base destination place length visited positions pending real' dry' := by
  obtain ⟨added, heffects, hadded⟩ := hreal.effects
  have hclaimed := hreal.claimed_eq pending
  refine ⟨h.fills.quiet hreal hdisk, fun item count hmem => ?_, hschedule ▸ h.faithful,
    hdry.disk.trans h.disk, hdry.transfers.trans h.idle, hdry.folded h.folded, ?_, ?_, ?_, ?_⟩
  · rw [heffects] at hmem
    rcases List.mem_append.mp hmem with hold | hnew
    · exact h.served item count hold
    · cases hadded _ hnew
  · rw [hdry.directories, h.directories, hdirectories]
  · rw [hdry.skipped, h.skipped, hreal.skipped]
  · rw [hdry.files, h.files, hclaimed]
  · rw [hdry.sizes, hdry.bytes, hclaimed]
    exact h.bytes

/-- A dry run never fails to claim a directory. -/
theorem exec_claimDirectory_folded {claims : Dict Bytes Bytes} (state : DownloadState)
    (hledger : state.ledger = .folded claims) (path : LocalPath) (entry : WalkEntry) :
    ∃ state', (claimDirectory platform path entry).exec state = (.ok (), state') ∧
      SamePlan state state' := by
  unfold claimDirectory collidesWith claim collide
  simp only [exec_bind, exec_get, exec_of, hledger]
  cases claims.get (platform.foldName (platform.resolve state.disk path)) with
  | none =>
    simp only [exec_of, hledger]
    exact ⟨_, rfl, rfl, rfl, fun _ => ⟨_, rfl⟩, rfl, rfl, rfl, rfl, rfl⟩
  | some first => exact ⟨_, rfl, rfl, rfl, id, rfl, rfl, rfl, rfl, rfl⟩

/-- Where a walk comes next: to its root, or into a visited directory where nothing was settled. -/
def Follows (visited : List WalkEntry) (positions : List (List Bytes)) (entry : WalkEntry) : Prop :=
  entry.relative ≠ [] → entry.relative ∉ positions ∧
    ∃ parent ∈ visited, ∃ name, entry.relative = parent.relative ++ [name]

/-- Both runs settle the local directory of a visited one. -/
theorem alongside_makeDirectory {entry : WalkEntry} (hfollows : Follows visited positions entry) :
    Alongside (Mirrors platform base destination place length visited positions [])
      (doIf (entry.relative ≠ []) (makeDirectory platform { options with dryRun := false }
        (destination ++ entry.relative.map .down) entry))
      (doIf (entry.relative ≠ []) (makeDirectory platform { options with dryRun := true }
        (destination ++ entry.relative.map .down) entry))
      fun _ _ => Mirrors platform base destination place length (visited ++ [entry])
        (positions ++ [entry.relative]) [] := by
  intro real dry h
  by_cases hroot : entry.relative = []
  · rw [decide_eq_false (not_not.mpr hroot), doIf_false, doIf_false]
    exact { h with fills := h.fills.visitRoot hroot }
  · obtain ⟨hnew, parent, hparent, name, hentry⟩ := hfollows hroot
    obtain ⟨claims, hledger, -⟩ := h.fills.apart.ledger
    obtain ⟨claims', hfolded⟩ := h.folded
    obtain ⟨hexec, hfills⟩ := exec_makeDirectory { options with dryRun := false } rfl h.fills hledger
      hparent hentry hnew
    obtain ⟨dry', hexec', hplan⟩ := exec_claimDirectory_folded
      { dry with directories := dry.directories + 1 } hfolded
      (destination ++ entry.relative.map .down) entry
    have hdry : (makeDirectory platform { options with dryRun := true }
        (destination ++ entry.relative.map .down) entry).exec dry = (.ok (), dry') := hexec'
    rw [decide_eq_true hroot, doIf_true, doIf_true, hexec, hdry]
    refine ⟨hfills, fun item count hmem => h.served item count (transferred_record rfl hmem),
      h.faithful, hplan.disk.trans h.disk, hplan.transfers.trans h.idle, hplan.folded h.folded, ?_,
      ?_, ?_, ?_⟩
    · rw [hplan.directories, h.directories]
      rfl
    · rw [hplan.skipped, h.skipped]
      rfl
    · rw [hplan.files, h.files]
      rfl
    · rw [hplan.sizes, hplan.bytes]
      exact h.bytes

/-- Both runs make one check, and raise what it refuses. -/
theorem alongside_orRefuse {α : Type} (result : Except LocalError α)
    (before : DownloadState → DownloadState → Prop) :
    Alongside before (orRefuse result) (orRefuse result)
      fun value value' real dry => value = value' ∧ before real dry := by
  intro real dry h
  cases result with
  | error error => exact rfl
  | ok value => exact ⟨rfl, h⟩

/-- Both runs collect the same times. -/
theorem alongside_collectTimes (path : LocalPath) (child : DirEntry) :
    Alongside (Mirrors platform base destination place length visited positions pending)
      (collectTimes platform path child) (collectTimes platform path child)
      fun _ _ => Mirrors platform base destination place length visited positions pending := by
  unfold collectTimes
  cases child.attrs.times with
  | none => exact Alongside.pure fun _ _ => id
  | some times =>
    refine (alongside_orRefuse _ _).bind fun path path' => Alongside.modify fun real dry h => ?_
    exact h.2.quiet (.quiet rfl rfl rfl rfl rfl rfl rfl) rfl rfl rfl
      ⟨rfl, rfl, id, rfl, rfl, rfl, rfl, rfl⟩

/-- Both runs collect the same modes. -/
theorem alongside_collectModes (path : LocalPath) (child : DirEntry) :
    Alongside (Mirrors platform base destination place length visited positions pending)
      (collectModes platform path child) (collectModes platform path child)
      fun _ _ => Mirrors platform base destination place length visited positions pending := by
  unfold collectModes
  cases child.attrs.permissions with
  | none => exact Alongside.pure fun _ _ => id
  | some permissions =>
    refine (alongside_orRefuse _ _).bind fun path path' => Alongside.modify fun real dry h => ?_
    exact h.2.quiet (.quiet rfl rfl rfl rfl rfl rfl rfl) rfl rfl rfl
      ⟨rfl, rfl, id, rfl, rfl, rfl, rfl, rfl⟩

/-- Both runs pass over the same entries. -/
theorem Mirrors.skipping
    (h : Mirrors platform base destination place length visited positions pending real dry)
    (skipped : List Skipped) :
    Mirrors platform base destination place length visited positions pending
      { real with skipped := real.skipped ++ skipped }
      { dry with skipped := dry.skipped ++ skipped } :=
  { h with
    fills := { h.fills with apart := h.fills.apart.skipping _ }
    skipped := congrArg (· ++ skipped) h.skipped }

/-- Both runs settle a visited directory. -/
theorem alongside_settleDirectory {entry : WalkEntry} (hfollows : Follows visited positions entry) :
    Alongside (Mirrors platform base destination place length visited positions [])
      (settleDirectory platform { options with dryRun := false }
        (destination ++ entry.relative.map .down) entry)
      (settleDirectory platform { options with dryRun := true }
        (destination ++ entry.relative.map .down) entry)
      fun _ _ => Mirrors platform base destination place length (visited ++ [entry])
        (positions ++ [entry.relative]) [] := by
  unfold settleDirectory
  refine (alongside_makeDirectory hfollows).bind fun _ _ => ?_
  refine (Alongside.doIf (Alongside.forM (alongside_collectTimes _))).bind fun _ _ => ?_
  refine (Alongside.doIf (Alongside.forM (alongside_collectModes _))).bind fun _ _ => ?_
  exact Alongside.modify fun real dry h => h.skipping entry.skipped

/-- Paths are contained alike on a disk with more on it. -/
theorem checkContained_extends {disk disk' : LocalDisk} (h : disk.Extends disk') :
    platform.checkContained disk' destination = platform.checkContained disk destination := by
  funext candidate
  unfold checkContained
  rw [resolve_extends h, resolve_extends h]

/-- Both runs consider the same path. -/
theorem Mirrors.considering
    (h : Mirrors platform base destination place length visited positions pending real dry)
    (path : LocalPath) :
    Mirrors platform base destination place length visited positions pending
      (real.record (.considered path)) (dry.record (.considered path)) :=
  h.quiet (.record (.refl _) rfl) rfl rfl rfl ⟨rfl, rfl, id, rfl, rfl, rfl, rfl, rfl⟩

/-- Both runs enter a visited directory, or refuse its name. -/
theorem alongside_enterDirectory {entry : WalkEntry} (hfollows : Follows visited positions entry) :
    Alongside (Mirrors platform base destination place length visited positions [])
      (enterDirectory platform { options with dryRun := false } destination entry)
      (enterDirectory platform { options with dryRun := true } destination entry)
      fun path path' real dry =>
        (path = destination ++ entry.relative.map .down ∧ path' = path) ∧
        Mirrors platform base destination place length (visited ++ [entry])
          (positions ++ [entry.relative]) [] real dry := by
  intro real dry h
  have hsame : platform.localDirectory real.disk destination =
      platform.localDirectory base destination := by
    unfold localDirectory
    rw [checkContained_extends h.fills.kept]
  rw [exec_enterDirectory, exec_enterDirectory, h.disk, hsame]
  rcases localDirectory_cases platform base destination entry.relative with
    ⟨-, heq⟩ | ⟨-, error, -, heq⟩
  · simp only [heq]
    refine ((alongside_settleDirectory hfollows).bind fun _ _ => Alongside.pure fun _ _ hsettled =>
      ?_) _ _ (h.considering _)
    exact ⟨⟨rfl, rfl⟩, hsettled⟩
  · simp only [heq]
    exact rfl

/-! ## Files -/

/-- A file was counted for the plan. -/
structure Counted (child : DirEntry) (state state' : DownloadState) : Prop where
  disk : state'.disk = state.disk
  transfers : state'.transfers = state.transfers
  ledger : state'.ledger = state.ledger
  directories : state'.directories = state.directories
  skipped : state'.skipped = state.skipped
  files : state'.plannedFiles = state.plannedFiles + 1
  bytes : state'.sizesUnreported = 0 → state.sizesUnreported = 0 ∧
    ∃ size, child.attrs.size = some size ∧ state'.plannedBytes = state.plannedBytes + size

/-- Counting a file for the plan. -/
theorem exec_notePlanned (child : DirEntry) (state : DownloadState) :
    ∃ state', (notePlanned child).exec state = (.ok (), state') ∧ Counted child state state' := by
  unfold notePlanned
  rw [exec_modify]
  refine ⟨_, rfl, ?_⟩
  cases hsize : child.attrs.size with
  | none => exact ⟨rfl, rfl, rfl, rfl, rfl, rfl, fun h => absurd h (Nat.succ_ne_zero _)⟩
  | some size => exact ⟨rfl, rfl, rfl, rfl, rfl, rfl, fun h => ⟨h, size, hsize, rfl⟩⟩

/-- A dry run never fails to claim a file. -/
theorem exec_claimLocalDestination_folded (platform : Platform) {claims : Dict Bytes Bytes}
    (state : DownloadState) (hledger : state.ledger = .folded claims) (item : SettledDownload) :
    ∃ collision state', (claimLocalDestination platform true item).exec state =
      (.ok collision, state') ∧ SamePlan state state' := by
  unfold claimLocalDestination collidesWith claim
  rw [Bool.not_true, doIf_false]
  simp only [exec_bind, exec_pure, exec_of, hledger]
  cases claims.get (platform.foldName item.target) with
  | none =>
    simp only [exec_bind, exec_of, hledger]
    exact ⟨_, _, rfl, rfl, rfl, fun _ => ⟨_, rfl⟩, rfl, rfl, rfl, rfl, rfl⟩
  | some first => exact ⟨_, _, rfl, rfl, rfl, id, rfl, rfl, rfl, rfl, rfl⟩

/-- The path of a file, as both runs check it. -/
def checkedPath (platform : Platform) (disk : LocalDisk) (destination path : LocalPath)
    (child : DirEntry) : Except LocalError LocalPath :=
  platform.localChild path child.filename >>= platform.checkContained disk destination

/-- A checked path is the one of the file, or is said to be unsafe. -/
theorem checkedPath_cases (platform : Platform) (disk : LocalDisk) (destination path : LocalPath)
    (child : DirEntry) :
    checkedPath platform disk destination path child = .ok (path ++ [.down child.filename]) ∨
      ∃ error, IsUnsafe error ∧ checkedPath platform disk destination path child = .error error := by
  unfold checkedPath
  rcases localChild_cases platform path child.filename with ⟨-, heq⟩ | ⟨-, error, hsafety, heq⟩
  · rw [heq]
    rcases checkContained_cases platform disk destination (path ++ [.down child.filename]) with
      ⟨-, hcheck⟩ | ⟨-, hcheck⟩
    · exact Or.inl hcheck
    · exact Or.inr hcheck
  · rw [heq]
    exact Or.inr ⟨error, hsafety, rfl⟩

/-- Settling a file whose path is refused raises that. -/
theorem settleFile_refused (options : TreeOptions) {path : LocalPath} (entry : WalkEntry)
    {child : DirEntry} {error : LocalError} (state : DownloadState)
    (hcheck : checkedPath platform state.disk destination path child = .error error)
    (hsafety : IsUnsafe error) :
    ((settleFile platform options destination path entry child).exec state).1 = .error error := by
  obtain ⟨noted, hnoted, hdisk⟩ : ∃ noted,
      (doIf options.dryRun (notePlanned child)).exec state = (.ok (), noted) ∧
        noted.disk = state.disk := by
    cases options.dryRun with
    | true =>
      obtain ⟨noted, hexec, hcounted⟩ := exec_notePlanned child state
      exact ⟨noted, hexec, hcounted.disk⟩
    | false => exact ⟨state, rfl, rfl⟩
  obtain ⟨name, reason, directory, rfl⟩ := hsafety
  unfold settleFile
  unfold checkedPath at hcheck
  simp only [exec_bind, hnoted, exec_tryCatch, exec_claimDownload, hdisk, hcheck, exec_throw]

/-- Settling a file whose path is allowed, and that nothing holds, claims it. -/
theorem settleFile_claimed (options : TreeOptions) {path target : LocalPath} {entry : WalkEntry} {child : DirEntry}
    {state claimed : DownloadState}
    (hcheck : checkedPath platform state.disk destination path child = .ok target)
    (hclaim : (claimLocalDestination platform false
      ⟨joinRemote entry.path child.filename, target⟩).exec
        (state.record (.considered (path ++ [.down child.filename]))) = (.ok none, claimed)) :
    (settleFile platform { options with dryRun := false } destination path entry child).exec state =
      (.ok (some ⟨joinRemote entry.path child.filename, target⟩), claimed) := by
  unfold settleFile
  unfold checkedPath at hcheck
  simp only [doIf_false, exec_bind, exec_pure, exec_tryCatch, exec_claimDownload, hcheck, hclaim]

/-- Settling a file whose path is allowed counts it in a dry run, and never fails. -/
theorem settleFile_counted (options : TreeOptions) {path target : LocalPath} (entry : WalkEntry)
    {child : DirEntry} {state : DownloadState} (hfolded : ∃ claims, state.ledger = .folded claims)
    (hcheck : checkedPath platform state.disk destination path child = .ok target) :
    ∃ settled noted state',
      (settleFile platform { options with dryRun := true } destination path entry child).exec state =
        (.ok settled, state') ∧ Counted child state noted ∧ SamePlan noted state' := by
  obtain ⟨noted, hnoted, hcounted⟩ := exec_notePlanned child state
  obtain ⟨claims, hledger⟩ := hfolded
  obtain ⟨collision, claimed, hclaim, hplan⟩ := exec_claimLocalDestination_folded platform
    (noted.record (.considered (path ++ [.down child.filename]))) (hcounted.ledger.trans hledger)
    ⟨joinRemote entry.path child.filename, target⟩
  have hsame : SamePlan noted claimed := { hplan with }
  unfold settleFile
  unfold checkedPath at hcheck
  simp only [doIf_true, exec_bind, hnoted, exec_tryCatch, exec_claimDownload, hcounted.disk, hcheck,
    hclaim, exec_pure]
  cases collision with
  | none => exact ⟨_, noted, _, rfl, hcounted, hsame⟩
  | some collision => exact ⟨_, noted, _, rfl, hcounted, { hsame with }⟩

/-- Both runs settle a file, or refuse its name. -/
theorem alongside_settleFile {entry : WalkEntry} {child : DirEntry} (hentry : entry ∈ visited)
    (hnew : entry.relative ++ [child.filename] ∉ positions)
    (hsize : ∀ size, child.attrs.size = some size →
      size = length (joinRemote entry.path child.filename)) :
    Alongside (Mirrors platform base destination place length visited positions [])
      (settleFile platform { options with dryRun := false } destination
        (destination ++ entry.relative.map .down) entry child)
      (settleFile platform { options with dryRun := true } destination
        (destination ++ entry.relative.map .down) entry child)
      fun settled _ real dry => ∃ item, settled = some item ∧
        Mirrors platform base destination place length visited
          (positions ++ [entry.relative ++ [child.filename]]) [item] real dry := by
  intro real dry h
  have hsame : ∀ path, checkedPath platform real.disk destination path child =
      checkedPath platform dry.disk destination path child := fun path => by
    unfold checkedPath
    rw [h.disk, checkContained_extends h.fills.kept]
  rcases checkedPath_cases platform dry.disk destination (destination ++ entry.relative.map .down)
    child with hcheck | ⟨error, hsafety, hcheck⟩
  · obtain ⟨claims, hledger, -⟩ := h.fills.apart.ledger
    obtain ⟨claims', hfolded⟩ := h.folded
    have hconsidered :=
      h.considering (destination ++ entry.relative.map .down ++ [.down child.filename])
    obtain ⟨hclaim, hfills⟩ := exec_claimFile hconsidered.fills hledger hentry hnew
      (joinRemote entry.path child.filename)
    obtain ⟨settled, noted, dry', hexec, hcounted, hplan⟩ :=
      settleFile_counted options entry h.folded hcheck
    rw [← hsame] at hcheck
    rw [settleFile_claimed options hcheck hclaim, hexec]
    refine ⟨_, rfl, hfills, fun item count hmem => hconsidered.served item count
      (transferred_record rfl hmem), h.faithful, ?_, ?_, ?_, ?_, ?_, ?_, fun hreported => ?_⟩
    · rw [hplan.disk, hcounted.disk, h.disk]
    · rw [hplan.transfers, hcounted.transfers, h.idle]
    · exact hplan.folded ⟨claims', hcounted.ledger.trans hfolded⟩
    · rw [hplan.directories, hcounted.directories, h.directories]
      rfl
    · rw [hplan.skipped, hcounted.skipped, h.skipped]
      rfl
    · rw [hplan.files, hcounted.files, h.files]
      simp [DownloadState.claimed, claimedFile, DownloadState.record]
    · rw [hplan.sizes] at hreported
      obtain ⟨hbefore, size, hchild, hbytes⟩ := hcounted.bytes hreported
      rw [hplan.bytes, hbytes, h.bytes hbefore, hsize size hchild]
      simp [DownloadState.claimed, claimedFile, DownloadState.record]
  · have hdry := settleFile_refused { options with dryRun := true } entry dry hcheck hsafety
    rw [← hsame] at hcheck
    have hreal := settleFile_refused { options with dryRun := false } entry real hcheck hsafety
    exact Pairs.of_errors hreal hdry

/-- A claimed file is handed to the workers, as planned. -/
theorem Mirrors.handing {item : SettledDownload}
    (h : Mirrors platform base destination place length visited positions [item] real dry) :
    Mirrors platform base destination place length visited positions []
      { real with transfers := real.transfers ++ [⟨item, .waiting⟩] } dry :=
  { h with
    fills := { h.fills with apart := h.fills.apart.handing }
    files := by rw [claimed_handing]; exact h.files
    bytes := by rw [claimed_handing]; exact h.bytes }

/-- Both runs settle a file, and the download hands it to its workers. -/
theorem alongside_produceFile {entry : WalkEntry} {child : DirEntry} (hentry : entry ∈ visited)
    (hnew : entry.relative ++ [child.filename] ∉ positions)
    (hsize : ∀ size, child.attrs.size = some size →
      size = length (joinRemote entry.path child.filename)) :
    Alongside (Mirrors platform base destination place length visited positions [])
      (produceFile platform { options with dryRun := false } destination
        (destination ++ entry.relative.map .down) entry child)
      (produceFile platform { options with dryRun := true } destination
        (destination ++ entry.relative.map .down) entry child)
      fun _ _ => Mirrors platform base destination place length visited
        (positions ++ [entry.relative ++ [child.filename]]) [] := by
  refine (Alongside.raising LocalError.raised (alongside_settleFile hentry hnew hsize)).bind ?_
  intro settled settled' real dry hsettled
  obtain ⟨item, rfl, h⟩ := hsettled
  have hmove : ∀ dry, Meets (Mirrors platform base destination place length visited
        (positions ++ [entry.relative ++ [child.filename]]) [item] · dry)
      (modify fun state => { state with transfers := state.transfers ++ [⟨item, .waiting⟩] } :
        DownloadProgram Unit)
      (fun _ => (Mirrors platform base destination place length visited
        (positions ++ [entry.relative ++ [child.filename]]) [] · dry))
      fun _ _ => False := fun dry => Meets.of fun _ h => h.handing
  have hhand : Alongside
      (Mirrors platform base destination place length visited
        (positions ++ [entry.relative ++ [child.filename]]) [item])
      (hand platform { options with dryRun := false } false item) (pure ())
      fun _ _ => Mirrors platform base destination place length visited
        (positions ++ [entry.relative ++ [child.filename]]) [] :=
    Alongside.of_returns (fun dry => (hmove dry).bind fun _ => mirrors_letWorkers)
      fun _ => Meets.pure fun _ => id
  cases settled' with
  | none => exact hhand real dry h
  | some item' => exact hhand real dry h

/-- Both runs settle everything in a visited directory. -/
theorem alongside_settleVisited {entry : WalkEntry} (hfollows : Follows visited positions entry)
    (hnodup : (positions ++ entry.positions).Nodup)
    (hsizes : ∀ child ∈ entry.files, ∀ size, child.attrs.size = some size →
      size = length (joinRemote entry.path child.filename)) :
    Alongside (Mirrors platform base destination place length visited positions [])
      (settleVisited platform { options with dryRun := false } destination entry)
      (settleVisited platform { options with dryRun := true } destination entry)
      fun _ _ => Mirrors platform base destination place length (visited ++ [entry])
        (positions ++ entry.positions) [] := by
  refine (alongside_letWorkers _).bind fun _ _ => ?_
  refine (Alongside.raising LocalError.raised (alongside_enterDirectory hfollows)).bind ?_
  intro path path' real dry hentered
  obtain ⟨⟨rfl, rfl⟩, h⟩ := hentered
  refine Alongside.forM_items (fun front : List DirEntry =>
    Mirrors platform base destination place length (visited ++ [entry])
      (positions ++ entry.relative :: front.map fun child => entry.relative ++ [child.filename]) [])
    (fun front child back hfiles => ?_) real dry h
  have hmem : child ∈ entry.files := hfiles ▸ List.mem_append_right _ List.mem_cons_self
  have hnew : entry.relative ++ [child.filename] ∉ positions ++ entry.relative ::
      front.map fun child => entry.relative ++ [child.filename] := by
    unfold WalkEntry.positions WalkEntry.filePositions at hnodup
    rw [hfiles, List.map_append, List.map_cons, ← List.cons_append, ← List.append_assoc] at hnodup
    exact fun hold => (List.nodup_append.mp hnodup).2.2 _ hold _ List.mem_cons_self rfl
  have hnext : positions ++ entry.relative ::
        (front ++ [child]).map (fun child => entry.relative ++ [child.filename]) =
      positions ++ entry.relative :: front.map (fun child => entry.relative ++ [child.filename]) ++
        [entry.relative ++ [child.filename]] := by
    rw [List.map_append, List.append_assoc]
    rfl
  rw [hnext]
  exact alongside_produceFile (List.mem_append_right visited (List.mem_singleton_self entry)) hnew
    (hsizes child hmem)

/-! ## Runs -/

/-- Where a walk of distinct names comes, it comes next. -/
theorem follows_of_walks {listed : Bytes → List Bytes → WalkEntry → Prop} {root : Bytes}
    {entries : List WalkEntry} {rest : List (Bytes × List Bytes)}
    (h : Walks listed [(root, [])] entries rest)
    (hlisted : ∀ directory relative entry, listed directory relative entry →
      entry.relative = relative)
    (hdistinct : ∀ entry ∈ entries, entry.Distinct) {front back : List WalkEntry}
    {entry : WalkEntry} (hentries : entries = front ++ entry :: back) :
    Follows front (front.flatMap WalkEntry.positions) entry ∧
      (front.flatMap WalkEntry.positions ++ entry.positions).Nodup := by
  have hnodup : (front.flatMap WalkEntry.positions ++ entry.positions).Nodup := by
    have hall := (h.positions hlisted hdistinct (List.pairwise_singleton _ _)).1
    rw [hentries, List.flatMap_append, List.flatMap_cons, ← List.append_assoc] at hall
    exact hall.of_append_left
  refine ⟨fun hroot => ⟨fun hold => ?_, ?_⟩, hnodup⟩
  · exact (List.nodup_append.mp hnodup).2.2 _ hold _ List.mem_cons_self rfl
  · rcases h.parent hlisted hentries with hstart | ⟨parent, hparent, child, -, heq⟩
    · exact absurd (List.mem_singleton.mp hstart) hroot
    · exact ⟨parent, hparent, child.filename, heq⟩

/-- Both runs go through what a walk lists, and end as it does or as a check does. -/
theorem alongside_deliver (options : TreeOptions)
    {listed : Bytes → List Bytes → WalkEntry → Prop} {root : Bytes} {entries : List WalkEntry} {rest : List (Bytes × List Bytes)}
    (h : Walks listed [(root, [])] entries rest)
    (hlisted : ∀ directory relative entry, listed directory relative entry →
      entry.relative = relative)
    (hdistinct : ∀ entry ∈ entries, entry.Distinct)
    (hsizes : ∀ entry ∈ entries, ∀ child ∈ entry.files, ∀ size, child.attrs.size = some size →
      size = length (joinRemote entry.path child.filename)) (ending : Except TraversalError Unit) :
    Alongside (Mirrors platform base destination place length [] [] [])
      (deliver (settleVisited platform { options with dryRun := false } destination) entries ending)
      (deliver (settleVisited platform { options with dryRun := true } destination) entries ending)
      fun _ _ => Mirrors platform base destination place length entries
        (entries.flatMap WalkEntry.positions) [] := by
  refine (Alongside.forM_items (fun front => Mirrors platform base destination place length front
    (front.flatMap WalkEntry.positions) []) fun front entry back hentries => ?_).bind fun _ _ => ?_
  · have hmem : entry ∈ entries := hentries ▸ List.mem_append_right _ List.mem_cons_self
    obtain ⟨hfollows, hnodup⟩ := follows_of_walks h hlisted hdistinct hentries
    rw [List.flatMap_append, List.flatMap_singleton]
    exact alongside_settleVisited hfollows hnodup (hsizes entry hmem)
  · cases ending with
    | ok _ => exact Alongside.pure fun _ _ => id
    | error error => exact Alongside.throw error

/-- A walk delivers what it lists from a visit that differs in what the caller keeps. -/
theorem delivered_from (each : WalkEntry → DownloadProgram Unit) (server : TreeServer) (turns : ℕ)
    (maxDepth : Option ℕ) (root : Bytes) {start visit : Visit DownloadState}
    (hvisit : visit.keeping visit.walked start.held = start) :
    ∃ entries rest, Walks (fun directory relative entry => entry.Listed directory relative)
        [(root, [])] entries rest ∧
      ((bareWalk server turns maxDepth root).exec start).2.walked = start.walked ++ entries ∧
      Delivered each visit entries ((bareWalk server turns maxDepth root).exec start)
        ((walkHolding server turns maxDepth each root).exec visit) := by
  have hone : ∀ directory relative (state state' : Visit DownloadState) entry,
      (walkOne server directory relative maxDepth).exec state = (.ok entry, state') →
        entry.Listed directory relative := fun directory relative _ _ _ hexec =>
    (listed_walkOne server maxDepth directory relative).returned trivial hexec
  obtain ⟨entries, hdelivered⟩ : ∃ entries, Delivered each visit entries
      ((bareWalk server turns maxDepth root).exec (visit.keeping visit.walked start.held))
      ((walkHolding server turns maxDepth each root).exec visit) :=
    delivered_walk root visit start.held
  obtain ⟨entries', rest, hwalks, hwalked, -⟩ : ∃ entries rest,
      Walks (fun directory relative entry => entry.Listed directory relative) [(root, [])] entries
        rest ∧
      ((bareWalk server turns maxDepth root).exec start).2.walked = start.walked ++ entries ∧
      (((bareWalk server turns maxDepth root).exec start).1 = .ok () → rest = []) :=
    walks_bareWalk hone root start
  rw [hvisit] at hdelivered
  have hsame : visit.walked = start.walked := (congrArg Visit.walked hvisit :)
  obtain rfl : entries' = entries :=
    List.append_cancel_left (hwalked.symm.trans (hsame ▸ hdelivered.walked))
  exact ⟨entries', rest, hwalks, hwalked, hdelivered⟩

/-- Both runs walk the same tree, and settle everything in it. -/
theorem alongside_walkHolding (server : TreeServer) (turns : ℕ) (root : Bytes)
    (start : Visit DownloadState)
    (hdistinct : ∀ entry ∈ ((bareWalk server turns options.maxDepth root).exec start).2.walked,
      entry.Distinct)
    (hsizes : ∀ entry ∈ ((bareWalk server turns options.maxDepth root).exec start).2.walked,
      ∀ child ∈ entry.files, ∀ size, child.attrs.size = some size →
        size = length (joinRemote entry.path child.filename)) :
    Alongside
      (fun visit visit' => visit.keeping visit.walked start.held = start ∧
        visit'.keeping visit'.walked start.held = start ∧
        Mirrors platform base destination place length [] [] [] visit.held visit'.held)
      (walkHolding server turns options.maxDepth
        (settleVisited platform { options with dryRun := false } destination) root)
      (walkHolding server turns options.maxDepth
        (settleVisited platform { options with dryRun := true } destination) root)
      fun _ _ visit visit' => ∃ entries positions,
        Mirrors platform base destination place length entries positions [] visit.held
          visit'.held := by
  intro visit visit' hvisits
  obtain ⟨hvisit, hvisit', h⟩ := hvisits
  obtain ⟨entries, rest, hwalks, hwalked, hreal⟩ := delivered_from
    (settleVisited platform { options with dryRun := false } destination) server turns
    options.maxDepth root hvisit
  obtain ⟨entries', -, -, hwalked', hdry⟩ := delivered_from
    (settleVisited platform { options with dryRun := true } destination) server turns
    options.maxDepth root hvisit'
  obtain rfl : entries = entries' := List.append_cancel_left (hwalked.symm.trans hwalked')
  rw [hwalked] at hdistinct hsizes
  have hends : Pairs _ _ _ := alongside_deliver options hwalks
    (fun _ _ _ hlisted => hlisted.relative)
    (fun entry hmem => hdistinct entry (List.mem_append_right _ hmem))
    (fun entry hmem => hsizes entry (List.mem_append_right _ hmem))
    ((bareWalk server turns options.maxDepth root).exec start).1 visit.held visit'.held h
  rw [← hreal.outcome, ← hdry.outcome] at hends
  generalize (walkHolding server turns options.maxDepth
    (settleVisited platform { options with dryRun := false } destination) root).exec visit = outcome
    at hends ⊢
  generalize (walkHolding server turns options.maxDepth
    (settleVisited platform { options with dryRun := true } destination) root).exec visit' = outcome'
    at hends ⊢
  obtain ⟨_ | _, _⟩ := outcome
  · obtain ⟨_ | _, _⟩ := outcome'
    · exact hends
    · exact hends
  · obtain ⟨_ | _, _⟩ := outcome'
    · exact hends
    · exact ⟨entries, _, hends⟩

/-! ## What is returned -/

/-- A download that filled its destination as planned, and whose workers are done. -/
def HasMirrored (platform : Platform) (base : LocalDisk) (destination : LocalPath)
    (place : List Bytes) (length : Bytes → ℕ) (real dry : DownloadState) : Prop :=
  (∃ entries positions,
    Mirrors platform base destination place length entries positions [] real dry) ∧
  ∀ transfer ∈ real.transfers, transfer.stage.isDone = true

/-- What was moved is what was transferred, each file with its length. -/
theorem moved_eq {effects : List LocalEffect}
    (hserved : ∀ item count, .transferred item count ∈ effects → count = length item.remote) :
    effects.filterMap LocalEffect.transferredCount =
      (effects.filterMap LocalEffect.transferredItem).map fun item => length item.remote := by
  induction effects with
  | nil => rfl
  | cons effect effects ih =>
    have hrest := ih fun item count hmem => hserved item count (List.mem_cons_of_mem _ hmem)
    cases effect with
    | transferred item count =>
      rw [hserved item count List.mem_cons_self]
      exact congrArg (length item.remote :: ·) hrest
    | _ => exact hrest

/-- A download that is done did what was planned. -/
theorem HasMirrored.agrees (h : HasMirrored platform base destination place length real dry) :
    real.collisions = [] ∧ dry.plan.files = real.result.files ∧
      dry.plan.directories = real.result.directories ∧ dry.plan.skipped = real.result.skipped ∧
      (.unreportedSizes ∉ dry.plan.undetermined →
        dry.plan.bytesToTransfer = real.result.transferred) := by
  obtain ⟨⟨entries, positions, h⟩, hdone⟩ := h
  have hperm := h.fills.apart.finished hdone
  have hmoved : real.moved = real.transferred.map fun item => length item.remote := by
    rw [h.fills.apart.counts, moved_eq h.served]
    rfl
  refine ⟨h.fills.clean, ?_, h.directories, h.skipped, fun hreported => ?_⟩
  · change dry.plannedFiles = real.moved.length
    rw [h.files, hmoved, List.length_map, hperm.length_eq]
  · have hsizes : dry.sizesUnreported = 0 := by
      by_contra hne
      refine hreported (List.mem_append_right _ ?_)
      rw [if_neg hne]
      exact List.mem_singleton_self _
    change dry.plannedBytes = ((real.moved.sum : ℕ) : ℤ)
    have hsum : (real.transferred.map fun item => length item.remote).sum =
        ((real.claimed []).map fun item => length item.remote).sum := (hperm.map _).sum_eq
    rw [h.bytes hsizes, hmoved, hsum, Nat.cast_list_sum, List.map_map]
    rfl

/-- A download whose workers have come to the end of their schedule and left something behind. -/
def LeftBehind (state : DownloadState) : Prop :=
  state.schedule = [] ∧ ∃ transfer ∈ state.transfers, transfer.stage.isDone = false

/-- A download waits for its workers, unless they leave something behind. -/
theorem mirrored_finishWorkers {entries : List WalkEntry} :
    Meets (Mirrors platform base destination place length entries positions [] · dry)
      (finishWorkers platform options false)
      (fun _ => (HasMirrored platform base destination place length · dry))
      fun error real => error = .unfinished ∧ LeftBehind real := by
  refine Meets.get fun real h => ?_
  have hacts : Meets (· = real) (real.schedule.flatten.forM (act platform options false))
      (fun _ => (Mirrors platform base destination place length entries positions [] · dry))
      fun error real => error = .unfinished ∧ LeftBehind real :=
    (mirrors_acts h.faithful).weaken (fun _ heq => heq ▸ h) (fun _ _ => id) fun _ _ => False.elim
  refine hacts.bind fun _ => ?_
  have hmove : Meets (Mirrors platform base destination place length entries positions [] · dry)
      (modify fun state => { state with schedule := [] } : DownloadProgram Unit)
      (fun _ real => Mirrors platform base destination place length entries positions [] real dry ∧
        real.schedule = [])
      fun error real => error = .unfinished ∧ LeftBehind real :=
    Meets.of fun real h => ⟨h.scheduling fun next hmem => absurd hmem List.not_mem_nil, rfl⟩
  refine hmove.bind fun _ => Meets.get fun real h => Meets.ite (fun hall => ?_) fun hall => ?_
  · exact Meets.pure fun _ heq => heq ▸ ⟨⟨entries, positions, h.1⟩, List.all_eq_true.mp hall⟩
  · refine Meets.throw fun _ heq => heq ▸ ⟨rfl, h.2, ?_⟩
    simpa using hall

/-- A dry run has no workers to wait for. -/
theorem mirrors_finishWorkers_idle :
    Meets (Mirrors platform base destination place length visited positions pending real)
      (finishWorkers platform options false)
      (fun _ => Mirrors platform base destination place length visited positions pending real)
      fun _ _ => False := by
  refine Meets.get fun dry h => Meets.bind ((Meets.forM fun next _ =>
    mirrors_act_idle next).strengthen fun _ heq => heq ▸ h) fun _ => ?_
  have hmove : Meets (Mirrors platform base destination place length visited positions pending real)
      (modify fun state => { state with schedule := [] } : DownloadProgram Unit)
      (fun _ => Mirrors platform base destination place length visited positions pending real)
      fun _ _ => False := Meets.of fun dry h => { h with }
  refine hmove.bind fun _ => Meets.get fun dry h => Meets.ite (fun _ => ?_) fun hall => ?_
  · exact Meets.pure fun _ heq => heq ▸ h
  · rw [h.idle] at hall
    exact absurd rfl hall

/-- The times and modes of directories are no part of a plan. -/
theorem mirrored_applyMetadata :
    Meets (HasMirrored platform base destination place length · dry) (applyMetadata platform)
      (fun _ => (HasMirrored platform base destination place length · dry)) fun _ _ => False := by
  have hquietly : ∀ effect path, (∀ place, (effect path place : LocalEffect).isSettling = true) →
      Meets (HasMirrored platform base destination place length · dry)
        (applyQuietly platform effect path)
        (fun _ => (HasMirrored platform base destination place length · dry)) fun _ _ => False := by
    intro effect path heffect real h
    unfold applyQuietly
    rw [exec_modify]
    cases platform.stampCall real.disk path with
    | error error => exact h
    | ok place =>
      obtain ⟨⟨entries, positions, h⟩, hdone⟩ := h
      exact ⟨⟨entries, positions, h.quiet (.record (.refl _) (heffect _)) rfl rfl rfl
        ⟨rfl, rfl, id, rfl, rfl, rfl, rfl, rfl⟩⟩, hdone⟩
  refine Meets.get fun real h => Meets.bind ((Meets.forM fun entry _ =>
    hquietly _ _ fun _ => rfl).strengthen fun _ heq => heq ▸ h) fun _ => ?_
  refine Meets.get fun real h => (Meets.forM fun entry _ =>
    hquietly _ _ fun _ => rfl).strengthen fun _ heq => heq ▸ h

/-- A failure is raised again after the workers have wound down. -/
theorem exec_windDown_throw {follow : Bool} (error : TraversalError) (visit : Visit DownloadState) :
    ((onHeld (windDown platform options follow) >>= fun _ =>
      throw error : Traversal DownloadState Unit).exec visit).1 = .error error := by
  have hreturns : Ends _ _ ((windDown platform options follow).exec visit.held) :=
    windDown_returns visit.held trivial
  rw [exec_bind, onHeld, exec_focus]
  generalize (windDown platform options follow).exec visit.held = outcome at hreturns ⊢
  obtain ⟨_ | _, _⟩ := outcome
  · exact hreturns.elim
  · rfl

/-- Workers that came to the end of their schedule do nothing after a failure. -/
theorem exec_windDown_leftBehind {follow : Bool} (error : TraversalError)
    {visit : Visit DownloadState} (h : LeftBehind visit.held) :
    (onHeld (windDown platform options follow) >>= fun _ =>
      throw error : Traversal DownloadState Unit).exec visit = (.error error, visit) := by
  have hnothing : (windDown platform options follow).exec visit.held = (.ok (), visit.held) := by
    unfold windDown
    rw [exec_bind, exec_get]
    simp only [h.1, exec_pure]
  rw [exec_bind, onHeld, exec_focus, hnothing]
  rfl

/-- Two runs that agree, or a download that left something behind. -/
def Agree (after : DownloadState → DownloadState → Prop)
    (outcome outcome' : Except TraversalError Unit × Visit DownloadState) : Prop :=
  (outcome.1 = .error .unfinished ∧ LeftBehind outcome.2.held) ∨
    Pairs (fun _ _ visit visit' => after visit.held visit'.held) outcome outcome'

/-- Both runs transfer a tree, each in its way. -/
theorem agree_transferTree (server : TreeServer) (turns : ℕ) (root : Bytes)
    (start visit visit' : Visit DownloadState)
    (hdistinct : ∀ entry ∈ ((bareWalk server turns options.maxDepth root).exec start).2.walked,
      entry.Distinct)
    (hsizes : ∀ entry ∈ ((bareWalk server turns options.maxDepth root).exec start).2.walked,
      ∀ child ∈ entry.files, ∀ size, child.attrs.size = some size →
        size = length (joinRemote entry.path child.filename))
    (hvisit : visit.keeping visit.walked start.held = start)
    (hvisit' : visit'.keeping visit'.walked start.held = start)
    (h : Mirrors platform base destination place length [] [] [] visit.held visit'.held) :
    Agree (HasMirrored platform base destination place length)
      ((transferTree server turns platform { options with dryRun := false } destination root).exec
        visit)
      ((transferTree server turns platform { options with dryRun := true } destination root).exec
        visit') := by
  have hwalk : Pairs _ _ _ := alongside_walkHolding server turns root start hdistinct hsizes visit
    visit' ⟨hvisit, hvisit', h⟩
  unfold transferTree
  rw [exec_tryCatch, exec_tryCatch, exec_bind, exec_bind]
  generalize (walkHolding server turns options.maxDepth
    (settleVisited platform { options with dryRun := false } destination) root).exec visit = outcome
    at hwalk ⊢
  generalize (walkHolding server turns options.maxDepth
    (settleVisited platform { options with dryRun := true } destination) root).exec visit' = outcome'
    at hwalk ⊢
  obtain ⟨error | _, walked⟩ := outcome
  · obtain ⟨error' | _, walked'⟩ := outcome'
    · obtain rfl : error = error' := hwalk
      exact Or.inr (Pairs.of_errors (exec_windDown_throw error walked)
        (exec_windDown_throw error walked'))
    · exact hwalk.elim
  · obtain ⟨_ | _, walked'⟩ := outcome'
    · exact hwalk.elim
    · obtain ⟨entries, positions, hmirrors⟩ := hwalk
      have hreal : Ends _ _ ((finishWorkers platform { options with dryRun := false } false).exec
        walked.held) := mirrored_finishWorkers _ hmirrors
      simp only [onHeld, exec_focus]
      generalize (finishWorkers platform { options with dryRun := false } false).exec walked.held =
        finished at hreal ⊢
      obtain ⟨error | _, real⟩ := finished
      · obtain ⟨rfl, hleft⟩ := hreal
        have hthrown : (onHeld (windDown platform { options with dryRun := false } false) >>=
            fun _ => throw .unfinished : Traversal DownloadState Unit).exec
              { walked with held := real } = (.error .unfinished, { walked with held := real }) :=
          exec_windDown_leftBehind .unfinished hleft
        have hrun := congrArg (fun outcome : Except TraversalError Unit × Visit DownloadState =>
          outcome.1 = .error .unfinished ∧ LeftBehind outcome.2.held) hthrown
        exact Or.inl (hrun.mpr ⟨rfl, hleft⟩)
      · obtain ⟨⟨entries', positions', hdone⟩, hall⟩ := hreal
        have hdry : Ends _ _ ((finishWorkers platform { options with dryRun := true } false).exec
          walked'.held) := mirrors_finishWorkers_idle _ hdone
        generalize (finishWorkers platform { options with dryRun := true } false).exec walked'.held =
          finished' at hdry ⊢
        obtain ⟨_ | _, dry⟩ := finished'
        · exact hdry.elim
        · exact Or.inr ⟨⟨entries', positions', hdry⟩, hall⟩

/-- A dry run that starts plans nothing, in front of a destination that is empty. -/
theorem mirrors_fresh {schedule : List (List WorkerAct)} (schedule' : List (List WorkerAct))
    {made : DownloadState}
    (hmade : OnlyMakes (.fresh base (.destination .empty) schedule) made)
    (hnames : KeepsNames platform made.disk)
    (hempty : IsEmptyAt platform made.disk destination place)
    (hfaithful : ∀ next ∈ schedule.flatten, next.IsFaithful length) :
    Mirrors platform base destination place length [] [] [] made
      (.fresh base (.folded .empty) schedule') := by
  have hclaimed : made.claimed [] = [] := hmade.settles.claimed_eq []
  refine ⟨⟨(keepsApart_fresh base schedule).settle hmade.settles, hnames, hmade.settles.disk,
    ⟨hempty.located, hempty.directory⟩, fun _ hmem => absurd hmem List.not_mem_nil, ?_,
    hmade.settles.collisions⟩, ?_, ?_, rfl, rfl, ⟨_, rfl⟩, hmade.directories.symm,
    hmade.settles.skipped.symm, ?_, ?_⟩
  · intro names node hne hnode
    rw [hempty.empty names hne] at hnode
    cases hnode
  · intro item count hmem
    obtain ⟨added, heffects, hadded⟩ := hmade.settles.effects
    rw [heffects] at hmem
    cases hadded _ hmem
  · rw [hmade.schedule]
    exact hfaithful
  · rw [hclaimed]
    rfl
  · rw [hclaimed]
    exact fun _ => rfl

/-- Both runs download a tree, each in its way. -/
theorem agree_downloadTree (server : TreeServer) (turns : ℕ) (options : TreeOptions)
    (root : Bytes) (known : Option Bytes) {schedule schedule' : List (List WorkerAct)}
    (hnames : KeepsNames platform base) (havailable : IsAvailable platform base destination place)
    (hdistinct : ∀ entry ∈ ((bareWalk server turns options.maxDepth root).exec
      (startTree { options with dryRun := true } known base schedule')).2.walked, entry.Distinct)
    (hsizes : ∀ entry ∈ ((bareWalk server turns options.maxDepth root).exec
      (startTree { options with dryRun := true } known base schedule')).2.walked,
      ∀ child ∈ entry.files, ∀ size, child.attrs.size = some size →
        size = length (joinRemote entry.path child.filename))
    (hfaithful : ∀ next ∈ schedule.flatten, next.IsFaithful length) :
    Agree (HasMirrored platform base destination place length)
      ((downloadTree server turns platform { options with dryRun := false } destination root).exec
        (startTree { options with dryRun := false } known base schedule))
      ((downloadTree server turns platform { options with dryRun := true } destination root).exec
        (startTree { options with dryRun := true } known base schedule')) := by
  obtain ⟨made, hexec, hmakes, hkeeps, hempty⟩ : ∃ made,
      (makeDestination platform false destination).exec
        (.fresh base (.destination .empty) schedule) = (.ok (), made) ∧
      OnlyMakes (.fresh base (.destination .empty) schedule) made ∧
      KeepsNames platform made.disk ∧ IsEmptyAt platform made.disk destination place :=
    exec_makeDestination hnames havailable
  have hmirrors := mirrors_fresh schedule' hmakes hkeeps hempty hfaithful
  have hagree := agree_transferTree server turns root
    (startTree { options with dryRun := true } known base schedule')
    { startTree { options with dryRun := false } known base schedule with held := made }
    (startTree { options with dryRun := true } known base schedule') hdistinct hsizes rfl rfl hmirrors
  have hmade : (onHeld (makeDestination platform false destination)).exec
      (startTree { options with dryRun := false } known base schedule) =
        (.ok (), { startTree { options with dryRun := false } known base schedule with
          held := made }) := by
    have hheld : (makeDestination platform false destination).exec
        (startTree { options with dryRun := false } known base schedule).held =
          (.ok (), made) := hexec
    rw [onHeld, exec_focus, hheld]
  have hnothing : (onHeld (makeDestination platform true destination)).exec
      (startTree { options with dryRun := true } known base schedule') =
        (.ok (), startTree { options with dryRun := true } known base schedule') := rfl
  unfold downloadTree
  simp only [exec_bind, hmade, hnothing]
  generalize (transferTree server turns platform { options with dryRun := false } destination
    root).exec _ = outcome at hagree ⊢
  generalize (transferTree server turns platform { options with dryRun := true } destination
    root).exec _ = outcome' at hagree ⊢
  rcases hagree with ⟨hunfinished, hleft⟩ | hpairs
  · obtain ⟨_ | _, visit⟩ := outcome
    · exact Or.inl ⟨hunfinished, hleft⟩
    · cases hunfinished
  · refine Or.inr ?_
    obtain ⟨error | _, visit⟩ := outcome
    · obtain ⟨error' | _, visit'⟩ := outcome'
      · exact hpairs
      · exact hpairs.elim
    · obtain ⟨error' | _, visit'⟩ := outcome'
      · exact hpairs.elim
      · have happlied : Ends _ _ ((applyMetadata platform).exec visit.held) :=
          mirrored_applyMetadata _ hpairs
        simp only [Bool.not_false, doIf_true, onHeld, exec_focus]
        generalize (applyMetadata platform).exec visit.held = applied at happlied ⊢
        obtain ⟨_ | _, real⟩ := applied
        · exact happlied.elim
        · exact happlied

end Mirroring

/-- What a caller of a dry run learns of a download: the download raises what the dry run raises, or
does what it plans. A download also ends where its workers left something behind. -/
def TellsTruth (dry real : Except DownloadError TreeReport) (left : Prop) : Prop :=
  (real = .error (.raised .unfinished) ∧ left) ∨
    (∃ error, dry = .error error ∧ real = .error error) ∨
      ∃ plan result, dry = .ok (.planned plan) ∧ real = .ok (.finished result) ∧
        plan.files = result.files ∧ plan.directories = result.directories ∧
        plan.skipped = result.skipped ∧
        (.unreportedSizes ∉ plan.undetermined → plan.bytesToTransfer = result.transferred)

/-- Where a destination is empty or can be made, and its file system refuses nothing and keeps names
apart: a dry run of `get_tree` on a tree of distinct names with true sizes raises what a download of
the tree raises, or returns a plan with the files, the directories and the skipped entries that the
download comes to, and with the bytes if every size was reported; however the workers of the
download are scheduled, as long as they get each file as it is. -/
theorem getTree_dry_run_tells_truth (server : TreeServer) (turns : ℕ) (platform : Platform)
    (options : TreeOptions) (root : Bytes) (destination : LocalPath) (place : List Bytes)
    (known : Option Bytes) (disk : LocalDisk) (schedule schedule' : List (List WorkerAct))
    (length : Bytes → ℕ)
    (hnames : KeepsNames platform disk) (havailable : IsAvailable platform disk destination place)
    (hdistinct : ∀ entry ∈ ((bareWalk server turns options.maxDepth root).exec
      (startTree { options with dryRun := true } known disk schedule')).2.walked, entry.Distinct)
    (hsizes : ∀ entry ∈ ((bareWalk server turns options.maxDepth root).exec
      (startTree { options with dryRun := true } known disk schedule')).2.walked,
      ∀ child ∈ entry.files, ∀ size, child.attrs.size = some size →
        size = length (joinRemote entry.path child.filename))
    (hfaithful : ∀ next ∈ schedule.flatten, next.IsFaithful length) :
    let dry := (getTree server turns platform { options with dryRun := true } root destination).exec
      (startTree { options with dryRun := true } known disk schedule')
    let real := (getTree server turns platform { options with dryRun := false } root
      destination).exec (startTree { options with dryRun := false } known disk schedule)
    TellsTruth dry.1 real.1 (LeftBehind real.2.held) := by
  intro dry real
  have hagree := agree_downloadTree server turns options root known hnames havailable hdistinct
    hsizes hfaithful
  have hreal : real = (getTree server turns platform { options with dryRun := false } root
    destination).exec (startTree { options with dryRun := false } known disk schedule) := rfl
  have hdry : dry = (getTree server turns platform { options with dryRun := true } root
    destination).exec (startTree { options with dryRun := true } known disk schedule') := rfl
  unfold getTree requireLocalIo at hreal hdry
  rw [exec_bind] at hreal hdry
  cases hwindows : platform.windows with
  | true =>
    simp only [hwindows, if_true, exec_throw] at hreal hdry
    rw [hreal, hdry]
    exact Or.inr (Or.inl ⟨_, rfl, rfl⟩)
  | false =>
    simp only [hwindows, Bool.false_eq_true, if_false, if_true, exec_pure, exec_bind, exec_raising,
      exec_get] at hreal hdry
    generalize (downloadTree server turns platform { options with dryRun := false } destination
      root).exec _ = outcome at hagree hreal
    generalize (downloadTree server turns platform { options with dryRun := true } destination
      root).exec _ = outcome' at hagree hdry
    rcases hagree with ⟨hunfinished, hleft⟩ | hpairs
    · obtain ⟨_ | _, visit⟩ := outcome
      · cases hunfinished
        rw [hreal]
        exact Or.inl ⟨rfl, hleft⟩
      · cases hunfinished
    · refine Or.inr ?_
      obtain ⟨error | _, visit⟩ := outcome
      · obtain ⟨error' | _, visit'⟩ := outcome'
        · obtain rfl : error = error' := hpairs
          rw [hreal, hdry]
          exact Or.inl ⟨_, rfl, rfl⟩
        · exact hpairs.elim
      · obtain ⟨error' | _, visit'⟩ := outcome'
        · exact hpairs.elim
        · obtain ⟨hclean, hagrees⟩ := HasMirrored.agrees hpairs
          change real = (ite _ _ _ : Program (Visit DownloadState) DownloadError TreeReport).exec
            visit at hreal
          rw [if_pos hclean] at hreal
          rw [hreal, hdry]
          exact Or.inr ⟨_, _, rfl, rfl, hagrees⟩

/-- A server whose root holds two files of three bytes. -/
def pairServer : TreeServer where
  realpath _ _ := .ok [slash]
  opendir _ _ :=
    .ok ⟨[⟨[0x61], { size := some 3, permissions := some 0o100644 }⟩,
      ⟨[0x62], { size := some 3, permissions := some 0o100644 }⟩], .ok ()⟩
  lstat _ _ := .error .osError
  remove _ _ := .error .osError
  rmdir _ _ := .error .osError

/-- An empty file system that keeps all names apart. -/
def plainDisk : LocalDisk := { foldingDisk with fold := id }

/-- What the workers of a download of both files do. -/
def pairSchedule : List (List WorkerAct) :=
  [[], [.takes 0, .opens 0], [.writes 0, .finishes 0 (fun _ => .ok 3) true, .takes 1, .opens 1],
    [.writes 1, .finishes 1 (fun _ => .ok 3) true]]

theorem getTree_dry_run_tells_pair :
    let dry := (getTree pairServer 2 plainPlatform { dryRun := true } [slash]
      [.down [0x64]]).exec (startTree { dryRun := true } none plainDisk [])
    let real := (getTree pairServer 2 plainPlatform { dryRun := false } [slash]
      [.down [0x64]]).exec (startTree { dryRun := false } none plainDisk pairSchedule)
    TellsTruth dry.1 real.1 (LeftBehind real.2.held) ∧
      real.1 = .ok (.finished ⟨2, 0, 6, []⟩) := by
  have hwalked : ((bareWalk pairServer 2 none [slash]).exec
      (startTree { dryRun := true } none plainDisk [])).2.walked =
        [{ WalkEntry.unread [slash] [] with
          files := [⟨[0x61], { size := some 3, permissions := some 0o100644 }⟩,
            ⟨[0x62], { size := some 3, permissions := some 0o100644 }⟩] }] := by
    decide +kernel
  refine ⟨getTree_dry_run_tells_truth pairServer 2 plainPlatform {} [slash] [.down [0x64]] [[0x64]]
    none plainDisk pairSchedule [] (fun _ => 3) ⟨fun _ => rfl, Function.injective_id⟩ ?_ ?_ ?_ ?_, ?_⟩
  · refine ⟨[], [], [[0x64]], rfl, rfl, rfl, rfl, fun below hne _ => if_neg ?_⟩
    exact fun heq => hne (List.map_eq_nil_iff.mp heq)
  · rw [hwalked]
    exact List.forall_mem_singleton.mpr (by unfold WalkEntry.Distinct; decide)
  · rw [hwalked]
    refine List.forall_mem_singleton.mpr (List.forall_mem_cons.mpr ⟨?_,
      List.forall_mem_singleton.mpr ?_⟩)
    · rintro size ⟨⟩
      rfl
    · rintro size ⟨⟩
      rfl
  · simp [pairSchedule, WorkerAct.IsFaithful]
  · decide +kernel

end GantrySftp
