import GantrySftp.Session.TreeDownload

/-!
# A dry run does nothing locally

A dry run goes through the same walk as a download and settles the same files, but hands none of
them to the workers, which then have nothing to do. It looks at the local file system and at names,
and folds names where a download asks which files are one.
-/

namespace GantrySftp

open Library Program

/-- A download that has done nothing locally and has nothing for the workers to do. -/
structure IsPreview (disk : LocalDisk) (state : DownloadState) : Prop where
  disk : state.disk = disk
  idle : state.transfers = []
  effects : ∀ effect ∈ state.effects, ∃ path, effect = .considered path

/-- A step that keeps a preview one. -/
def Previews (state state' : DownloadState) : Prop :=
  ∀ disk, IsPreview disk state → IsPreview disk state'

section Steps

variable {platform : Platform} {options : TreeOptions} {state state' : DownloadState}

/-- A step that changes neither the disk nor the transfers nor what was done. -/
theorem Previews.same (hdisk : state'.disk = state.disk)
    (htransfers : state'.transfers = state.transfers) (heffects : state'.effects = state.effects) :
    Previews state state' := fun _ h =>
  ⟨hdisk.trans h.disk, htransfers.trans h.idle, fun effect hmem => h.effects effect (heffects ▸ hmem)⟩

/-- Considering a path. -/
theorem Previews.considering (path : LocalPath) :
    Previews state (state.record (.considered path)) := fun _ h =>
  ⟨h.disk, h.idle, List.forall_mem_append.mpr
    ⟨h.effects, List.forall_mem_singleton.mpr ⟨path, rfl⟩⟩⟩

/-! ## Workers -/

/-- A worker has nothing to do where nothing was handed out. -/
theorem exec_act_idle {follow : Bool} (next : WorkerAct) (hidle : state.transfers = []) :
    (act platform options follow next).exec state = (.ok (), state) := by
  cases next with
  | takes index => simp [act, hidle]
  | opens index => simp [act, hidle]
  | writes index => simp [act, hidle]
  | finishes index served timed => simp [act, hidle]

/-- A worker keeps a preview one. -/
theorem previews_act {follow : Bool} (next : WorkerAct) :
    Does Previews (act platform options follow next) := by
  intro state
  refine .single fun disk h => ?_
  rw [exec_act_idle next h.idle]
  exact h

/-- So do workers while they are let. -/
theorem previews_letWorkers {follow : Bool} :
    Does Previews (letWorkers platform options follow) := by
  refine Does.get.bind fun state => ?_
  cases state.schedule with
  | nil => exact .pure _
  | cons batch schedule =>
    refine (Does.modify fun _ => .same rfl rfl rfl).bind fun _ => ?_
    exact Does.forM fun next _ => previews_act next

/-- So do workers that are waited for. -/
theorem previews_finishWorkers {follow : Bool} :
    Does Previews (finishWorkers platform options follow) := by
  refine Does.get.bind fun state => (Does.forM fun next _ => previews_act next).bind fun _ => ?_
  refine (Does.modify fun _ => .same rfl rfl rfl).bind fun _ => Does.get.bind fun state' => ?_
  split
  · exact .pure _
  · exact .throw _

/-- So do workers after a failure. -/
theorem previews_windDown {follow : Bool} :
    Does Previews (windDown platform options follow) := by
  refine Does.get.bind fun state => ?_
  cases state.schedule with
  | nil => exact .pure _
  | cons batch schedule =>
    exact Does.forM fun next _ => (previews_act next).tryCatch fun _ => .pure _

/-! ## Settling -/

/-- A program whose errors are translated does what it does. -/
theorem previews_raising {α : Type} {program : LocalProgram α} (h : Does Previews program) :
    Does Previews (program.raising LocalError.raised) := fun state => h state

/-- Asking who holds a file keeps a preview one. -/
theorem previews_collidesWith (path : LocalPath) : Does Previews (collidesWith platform path) := by
  refine Does.of fun state => ?_
  split
  · exact .same rfl rfl rfl
  · split
    · exact .same rfl rfl rfl
    · exact .same rfl rfl rfl
    · exact .same rfl rfl rfl

/-- So does claiming a file. -/
theorem previews_claim (path : LocalPath) (remote : Bytes) :
    Does Previews (claim platform path remote) := by
  refine Does.of fun state => ?_
  split
  · exact .same rfl rfl rfl
  · split
    · exact .same rfl rfl rfl
    · exact .same rfl rfl rfl

/-- So does a check. -/
theorem previews_orRefuse {α : Type} (result : Except LocalError α) :
    Does Previews (orRefuse result) := Does.of fun _ => .same rfl rfl rfl

/-- So does claiming a directory. -/
theorem previews_claimDirectory (path : LocalPath) (entry : WalkEntry) :
    Does Previews (claimDirectory platform path entry) := by
  refine Does.get.bind fun state => (previews_collidesWith _).bind fun first => ?_
  cases first with
  | none => exact previews_claim _ _
  | some first => exact Does.modify fun _ => .same rfl rfl rfl

/-- So does collecting times. -/
theorem previews_collectTimes (path : LocalPath) (child : DirEntry) :
    Does Previews (collectTimes platform path child) := by
  unfold collectTimes
  cases child.attrs.times with
  | none => exact .pure _
  | some times =>
    exact (previews_orRefuse _).bind fun _ => Does.modify fun _ => .same rfl rfl rfl

/-- So does collecting modes. -/
theorem previews_collectModes (path : LocalPath) (child : DirEntry) :
    Does Previews (collectModes platform path child) := by
  unfold collectModes
  cases child.attrs.permissions with
  | none => exact .pure _
  | some permissions =>
    exact (previews_orRefuse _).bind fun _ => Does.modify fun _ => .same rfl rfl rfl

variable (hdry : options.dryRun = true)

include hdry

/-- A dry run makes no directory. -/
theorem previews_settleDirectory (path : LocalPath) (entry : WalkEntry) :
    Does Previews (settleDirectory platform options path entry) := by
  have hmake : Does Previews (makeDirectory platform options path entry) := by
    unfold makeDirectory
    rw [hdry, Bool.not_true, doIf_false]
    refine (Does.pure _).bind fun _ => (Does.modify fun _ => .same rfl rfl rfl).bind fun _ => ?_
    exact previews_claimDirectory path entry
  refine (Does.doIf hmake).bind fun _ => ?_
  refine (Does.doIf (Does.forM fun child _ => previews_collectTimes path child)).bind fun _ => ?_
  refine (Does.doIf (Does.forM fun child _ => previews_collectModes path child)).bind fun _ => ?_
  exact Does.modify fun _ => .same rfl rfl rfl

/-- Nor any file. -/
theorem previews_claimLocalDestination (item : SettledDownload) :
    Does Previews (claimLocalDestination platform options.dryRun item) := by
  unfold claimLocalDestination
  rw [hdry, Bool.not_true, doIf_false]
  refine (Does.pure _).bind fun _ => (previews_collidesWith _).bind fun first => ?_
  cases first with
  | none => exact (previews_claim _ _).bind fun _ => .pure _
  | some first => exact .pure _

/-- Settling a file considers its path at most. -/
theorem previews_settleFile (destination path : LocalPath) (entry : WalkEntry) (child : DirEntry) :
    Does Previews (settleFile platform options destination path entry child) := by
  have hplanned : Does Previews (notePlanned child) := by
    refine Does.modify fun state => ?_
    split
    · exact .same rfl rfl rfl
    · exact .same rfl rfl rfl
  have hclaim : Does Previews (claimDownload platform options destination path entry child) := by
    refine (Does.modify fun _ => .considering _).bind fun _ => (previews_orRefuse _).bind fun _ => ?_
    refine Does.get.bind fun _ => (previews_orRefuse _).bind fun _ => ?_
    exact (previews_claimLocalDestination hdry _).bind fun _ => .pure _
  refine (Does.doIf hplanned).bind fun _ =>
    (Does.tryCatch (hclaim.bind fun _ => .pure _) fun error => ?_).bind fun settled => ?_
  · cases error with
    | unsafePath _ _ _ => exact .throw _
    | os error =>
      change Does Previews (ite _ _ _)
      split
      · exact (Does.modify fun _ => .same rfl rfl rfl).bind fun _ => .pure _
      · exact .throw _
  · split
    · exact .pure _
    · exact .pure _
    · refine (Does.modify fun _ => .same rfl rfl rfl).bind fun _ => Does.bind ?_ fun _ => .pure _
      exact Does.doIf (Does.modify fun _ => .same rfl rfl rfl)

/-- Settling what is in a directory considers paths at most. -/
theorem previews_settleVisited (destination : LocalPath) (entry : WalkEntry) :
    Does Previews (settleVisited platform options destination entry) := by
  have henter : Does Previews (enterDirectory platform options destination entry) := by
    refine (Does.modify fun _ => .considering _).bind fun _ => Does.get.bind fun _ => ?_
    refine (previews_orRefuse _).bind fun path => ?_
    exact (previews_settleDirectory hdry path entry).bind fun _ => .pure _
  refine previews_letWorkers.bind fun _ => (previews_raising henter).bind fun path => ?_
  refine Does.forM fun child _ => ?_
  refine (previews_raising (previews_settleFile hdry destination path entry child)).bind ?_
  intro settled
  cases settled with
  | none => exact .pure _
  | some item =>
    unfold hand
    rw [hdry]
    exact .pure _

variable (server : TreeServer) (turns : ℕ) (root : Bytes) (destination : LocalPath)

/-- Nothing is made by walking a remote tree. -/
theorem preview_walkHolding {disk : LocalDisk} :
    Meets (fun visit => IsPreview disk visit.held)
      (walkHolding server turns options.maxDepth (settleVisited platform options destination) root)
      (fun _ visit => IsPreview disk visit.held) fun _ visit => IsPreview disk visit.held := by
  intro visit h
  obtain ⟨entries, hdelivered⟩ : ∃ entries,
      Delivered (settleVisited platform options destination) visit entries
        ((bareWalk server turns options.maxDepth root).exec
          (visit.keeping visit.walked visit.held))
        ((walkHolding server turns options.maxDepth
          (settleVisited platform options destination) root).exec visit) :=
    delivered_walk root visit visit.held
  have hdeliver : ∀ ending, Does Previews
      (deliver (settleVisited platform options destination) entries ending) := fun ending => by
    refine (Does.forM fun entry _ => previews_settleVisited hdry destination entry).bind fun _ => ?_
    cases ending with
    | ok _ => exact .pure _
    | error error => exact .throw _
  have hkeeps : ∀ ending, Meets (IsPreview disk)
      (deliver (settleVisited platform options destination) entries ending)
      (fun _ => IsPreview disk) fun _ => IsPreview disk := fun ending =>
    (hdeliver ending).keeps fun _ _ hstep => hstep disk
  exact hdelivered.ends (hkeeps _ visit.held h)

/-- Nor by all that a dry run does. -/
theorem preview_downloadTree {disk : LocalDisk} :
    Meets (fun visit => IsPreview disk visit.held)
      (downloadTree server turns platform options destination root)
      (fun _ visit => IsPreview disk visit.held) fun _ visit => IsPreview disk visit.held := by
  have hwork : ∀ {program : DownloadProgram Unit}, Does Previews program →
      Meets (fun visit => IsPreview disk visit.held) (onHeld program)
        (fun _ visit => IsPreview disk visit.held) fun _ visit => IsPreview disk visit.held := by
    intro program h
    have hkeeps : Meets (IsPreview disk) program (fun _ => IsPreview disk) fun _ => IsPreview disk :=
      h.keeps fun _ _ hstep => hstep disk
    exact meets_onHeld hkeeps
  unfold downloadTree makeDestination transferTree
  rw [hdry, Bool.not_true, doIf_false, doIf_false]
  refine (hwork (.pure _)).bind fun _ => Meets.bind ?_ fun _ => Meets.pure fun _ => id
  refine Meets.tryCatch ?_ fun error => (hwork previews_windDown).bind fun _ => Meets.throw fun _ => id
  exact (preview_walkHolding hdry server turns root destination).bind fun _ =>
    hwork previews_finishWorkers

/-- Nor by `get_tree`. -/
theorem preview_getTree {disk : LocalDisk} :
    Meets (fun visit => IsPreview disk visit.held)
      (getTree server turns platform options root destination)
      (fun _ visit => IsPreview disk visit.held) fun _ visit => IsPreview disk visit.held := by
  have hlocal : Meets (fun visit : Visit DownloadState => IsPreview disk visit.held)
      (requireLocalIo platform "get_tree()") (fun _ visit => IsPreview disk visit.held)
      fun _ visit => IsPreview disk visit.held :=
    Meets.ite (fun _ => Meets.throw fun _ => id) fun _ => Meets.pure fun _ => id
  refine hlocal.bind fun _ => ?_
  refine (Meets.raising (preview_downloadTree hdry server turns root destination)).bind fun _ => ?_
  refine Meets.get fun visit h => Meets.ite (fun _ => ?_) fun _ => Meets.ite (fun _ => ?_) fun _ => ?_
  · exact Meets.pure fun _ heq => heq ▸ h
  · exact Meets.pure fun _ heq => heq ▸ h
  · exact Meets.throw fun _ heq => heq ▸ h

end Steps

/-- Whatever a server lists and however it fails: a dry run of `get_tree` leaves the local file
system as it was, hands nothing to the workers, and does nothing locally but to consider paths. -/
theorem getTree_dry_does_nothing (server : TreeServer) (turns : ℕ) (platform : Platform)
    (options : TreeOptions) (root : Bytes) (destination : LocalPath) (known : Option Bytes)
    (disk : LocalDisk) (schedule : List (List WorkerAct)) :
    let options := { options with dryRun := true }
    let run := (getTree server turns platform options root destination).exec
      (startTree options known disk schedule)
    run.2.held.disk = disk ∧ run.2.held.transfers = [] ∧
      ∀ effect ∈ run.2.held.effects, ∃ path, effect = .considered path := by
  intro options' run
  have hfresh : IsPreview disk (startTree options' known disk schedule).held :=
    ⟨rfl, rfl, fun _ hmem => absurd hmem List.not_mem_nil⟩
  have hends : Ends _ _ run := preview_getTree rfl server turns root destination _ hfresh
  have hpreview : IsPreview disk run.2.held := by
    obtain ⟨_ | _, _⟩ := run
    · exact hends
    · exact hends
  exact ⟨hpreview.disk, hpreview.idle, hpreview.effects⟩

end GantrySftp
