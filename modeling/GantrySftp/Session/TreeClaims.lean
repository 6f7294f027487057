import GantrySftp.Session.DownloadClaims

/-!
# Every file of a tree has its own local file

A recursive download that comes to its end has transferred every file of its walk once, or has
passed it over because the file system refused its name or takes it for something else; then it
names what holds the local file. Never are two remote files written to one local file, whatever
the workers do and however the download ends.
-/

namespace GantrySftp

open Library Program Platform

/-- The files of a visited directory. -/
def WalkEntry.remoteFiles (entry : WalkEntry) : List Bytes :=
  entry.files.map fun child => joinRemote entry.path child.filename

/-- What was passed over because of the destination. -/
def DownloadState.refused (state : DownloadState) : List Bytes :=
  (state.skipped.filter (·.reason.isDestination)).map Skipped.path

section Accounts

variable (platform : Platform) (destination : LocalPath)

/-- A download that claimed or passed over each of these files, and reported the collisions. -/
structure AccountsFor (files : List Bytes) (pending : List SettledDownload)
    (state : DownloadState) : Prop where
  files : ((state.claimed pending).map SettledDownload.remote ++ state.refused).Perm files
  reported : ∀ skipped ∈ state.skipped, skipped.reason = .destinationCollision →
    ∃ collision ∈ state.collisions, collision.remote = skipped.path

/-- A download that keeps files apart and accounts for them. -/
def Settles (visited : List WalkEntry) (files : List Bytes) (pending : List SettledDownload)
    (state : DownloadState) : Prop :=
  KeepsApart platform destination visited pending state ∧ AccountsFor files pending state

variable {platform destination} {visited : List WalkEntry} {files : List Bytes}
  {pending : List SettledDownload} {state state' : DownloadState}

/-! ## Steps -/

/-- What was accounted for is accounted for still. -/
theorem AccountsFor.same (h : AccountsFor files pending state) (hsame : SameAccount state state') :
    AccountsFor files pending state' := by
  obtain ⟨htransfers, hskipped, hcollisions⟩ := hsame
  refine ⟨?_, ?_⟩
  · unfold DownloadState.claimed DownloadState.refused
    rw [htransfers, hskipped]
    exact h.files
  · rw [hskipped, hcollisions]
    exact h.reported

/-- A step that settles nothing keeps everything. -/
theorem Settles.settle (h : Settles platform destination visited files pending state)
    (hstep : SettlesNothing state state') :
    Settles platform destination visited files pending state' :=
  ⟨h.1.settle hstep, h.2.same hstep.sameAccount⟩

/-- A download that settled so much kept files apart. -/
theorem Settles.endsApart (h : Settles platform destination visited files pending state) {ε : Type}
    (error : ε) : EndsApart platform destination error state := ⟨visited, pending, h.1⟩

/-- A worker keeps everything. -/
theorem Settles.step {options : TreeOptions} {follow : Bool}
    (hstep : WorkerStep platform options follow state state')
    (h : Settles platform destination visited files pending state) :
    Settles platform destination visited files pending state' := by
  obtain ⟨hclaimed, hskipped, hcollisions⟩ := hstep.account pending
  refine ⟨h.1.step hstep, ?_⟩
  refine ⟨?_, ?_⟩
  · unfold DownloadState.refused
    rw [hclaimed, hskipped]
    exact h.2.files
  · rw [hskipped, hcollisions]
    exact h.2.reported

/-- A program that settles nothing keeps everything. -/
theorem meets_of_settlesNothing {ε α : Type} {program : Program DownloadState ε α}
    (h : Does SettlesNothing program) :
    Meets (Settles platform destination visited files pending) program
      (fun _ => Settles platform destination visited files pending)
      (EndsApart platform destination) :=
  (h.keeps fun _ _ hstep hsettles => Settles.settle hsettles hstep).weaken (fun _ => id)
    (fun _ _ => id) fun error _ hsettles => hsettles.endsApart error

/-- What the workers do keeps everything. -/
theorem settles_of_workers {options : TreeOptions} {follow : Bool} {program : DownloadProgram Unit}
    (h : Does (WorkerStep platform options follow) program) :
    Meets (Settles platform destination visited files pending) program
      (fun _ => Settles platform destination visited files pending)
      (EndsApart platform destination) :=
  (h.keeps fun _ _ hstep hsettles => hsettles.step hstep).weaken (fun _ => id)
    (fun _ _ => id) fun error _ hsettles => hsettles.endsApart error

/-- Nor does collecting times. -/
theorem does_collectTimes (path : LocalPath) (child : DirEntry) :
    Does SettlesNothing (collectTimes platform path child) := by
  unfold collectTimes
  cases child.attrs.times with
  | none => exact .pure _
  | some times =>
    exact (Does.of fun state => .refl state).bind fun _ =>
      Does.modify fun _ => .quiet rfl rfl rfl rfl rfl rfl rfl

/-- Nor does collecting modes. -/
theorem does_collectModes (path : LocalPath) (child : DirEntry) :
    Does SettlesNothing (collectModes platform path child) := by
  unfold collectModes
  cases child.attrs.permissions with
  | none => exact .pure _
  | some permissions =>
    exact (Does.of fun state => .refl state).bind fun _ =>
      Does.modify fun _ => .quiet rfl rfl rfl rfl rfl rfl rfl

/-- Nor does applying what was collected. -/
theorem does_applyMetadata : Does SettlesNothing (applyMetadata platform) := by
  have hquietly : ∀ (effect : LocalPath → List Bytes → LocalEffect) (path : LocalPath),
      (∀ place, (effect path place).isSettling = true) →
        Does SettlesNothing (applyQuietly platform effect path) := by
    intro effect path heffect
    refine Does.modify fun state => ?_
    split
    · exact .record (.refl _) (heffect _)
    · exact .refl state
  refine Does.get.bind fun state => Does.bind ?_ fun _ => Does.get.bind fun state' => ?_
  · exact Does.forM fun entry _ => hquietly _ _ fun _ => rfl
  · exact Does.forM fun entry _ => hquietly _ _ fun _ => rfl

/-! ## Settling -/

/-- Passing over something keeps files apart. -/
theorem KeepsApart.skipping (h : KeepsApart platform destination visited pending state)
    (skipped : List Skipped) :
    KeepsApart platform destination visited pending { state with skipped := skipped } :=
  ⟨h.ledger, h.apart, h.collisions, h.writing, h.own, h.transferred, h.counts⟩

/-- A visited directory may hold nodes. -/
theorem Settles.visit (h : Settles platform destination visited files pending state)
    (entry : WalkEntry) :
    Settles platform destination (visited ++ [entry]) files pending state :=
  ⟨h.1.visit entry, h.2⟩

/-- Entries that were passed over by the walk are no files of it. -/
theorem AccountsFor.skip (h : AccountsFor files pending state) {entry : WalkEntry}
    (hreasons : ∀ skipped ∈ entry.skipped, skipped.reason.isDestination = false) :
    AccountsFor files pending { state with skipped := state.skipped ++ entry.skipped } := by
  refine ⟨?_, ?_⟩
  · have hnone : entry.skipped.filter (·.reason.isDestination) = [] :=
      List.filter_eq_nil_iff.mpr fun skipped hmem => by
        rw [hreasons skipped hmem]
        exact Bool.false_ne_true
    unfold DownloadState.refused
    rw [List.filter_append, hnone, List.append_nil]
    exact h.files
  · intro skipped hmem hreason
    rcases List.mem_append.mp hmem with hold | hnew
    · exact h.reported skipped hold hreason
    · have := hreasons skipped hnew
      rw [hreason] at this
      cases this

/-- A file was passed over because of the destination. -/
theorem AccountsFor.refuse (h : AccountsFor files [] state) {entry : WalkEntry} {child : DirEntry}
    {reason : SkipReason} (hreason : reason.isDestination = true)
    (hreported : reason = .destinationCollision →
      ∃ collision ∈ state.collisions, collision.remote = joinRemote entry.path child.filename) :
    AccountsFor (files ++ [joinRemote entry.path child.filename]) []
      { state with
        skipped := state.skipped ++ [⟨joinRemote entry.path child.filename, child, reason⟩] } := by
  refine ⟨?_, ?_⟩
  · have hone : [Skipped.mk (joinRemote entry.path child.filename) child reason].filter
        (·.reason.isDestination) = [⟨joinRemote entry.path child.filename, child, reason⟩] :=
      List.filter_cons_of_pos (p := fun skipped : Skipped => skipped.reason.isDestination) hreason
    unfold DownloadState.refused
    rw [List.filter_append, hone, List.map_append, ← List.append_assoc]
    exact h.files.append_right _
  · refine List.forall_mem_append.mpr ⟨h.reported, List.forall_mem_singleton.mpr hreported⟩

/-- A file was claimed. -/
theorem AccountsFor.claim (h : AccountsFor files [] state) (item : SettledDownload) :
    AccountsFor (files ++ [item.remote]) [item] state := by
  refine ⟨?_, h.reported⟩
  have hclaimed : state.claimed [item] = state.claimed [] ++ [item] := by
    simp [DownloadState.claimed]
  rw [hclaimed, List.map_append, List.append_assoc]
  refine (List.perm_append_comm.append_left _).trans ?_
  rw [← List.append_assoc]
  exact h.files.append_right _

/-- Claiming a directory keeps what is accounted for, but that it may report a collision. -/
theorem accounts_claimDirectory (path : LocalPath) (entry : WalkEntry) :
    Meets (AccountsFor files pending) (claimDirectory platform path entry)
      (fun _ => AccountsFor files pending) fun _ _ => True := by
  refine Meets.get fun state h => ?_
  have hasked : Meets (· = state) (collidesWith platform (platform.resolve state.disk path))
      (fun _ => AccountsFor files pending) fun _ _ => True := by
    refine Meets.of fun state' heq => ?_
    have h' : AccountsFor files pending state' := heq ▸ h
    split
    · exact h'
    · split
      · exact h'
      · exact h'
      · trivial
  refine hasked.bind fun first => ?_
  cases first with
  | none =>
    refine Meets.of fun state' h' => ?_
    split
    · exact h'.same ⟨rfl, rfl, rfl⟩
    · split
      · exact h'.same ⟨rfl, rfl, rfl⟩
      · trivial
  | some first =>
    refine Meets.of fun state' h' => ⟨h'.files, fun skipped hmem hreason => ?_⟩
    obtain ⟨collision, hcollision, hremote⟩ := h'.reported skipped hmem hreason
    exact ⟨collision, List.mem_append_left _ hcollision, hremote⟩

variable {options : TreeOptions}

/-- Settling a visited directory. -/
theorem settles_settleDirectory {entry : WalkEntry}
    (hreasons : ∀ skipped ∈ entry.skipped, skipped.reason.isDestination = false) :
    Meets (Settles platform destination visited files [])
      (settleDirectory platform options (destination ++ entry.relative.map .down) entry)
      (fun _ => Settles platform destination (visited ++ [entry]) files [])
      (EndsApart platform destination) := by
  have hclaim : Meets (Settles platform destination visited files [])
      (claimDirectory platform (destination ++ entry.relative.map .down) entry)
      (fun _ => Settles platform destination (visited ++ [entry]) files [])
      (EndsApart platform destination) :=
    (((meets_claimDirectory entry).strengthen fun _ => And.left).both
      ((accounts_claimDirectory _ entry).strengthen fun _ => And.right)).weaken (fun _ => id)
        (fun _ _ => id) fun _ _ h => ⟨_, _, h.1⟩
  have hmake : Meets (Settles platform destination visited files [])
      (makeDirectory platform options (destination ++ entry.relative.map .down) entry)
      (fun _ => Settles platform destination (visited ++ [entry]) files [])
      (EndsApart platform destination) := by
    have hcount : Does SettlesNothing (modify fun state : DownloadState =>
        { state with directories := state.directories + 1 } : LocalProgram Unit) :=
      Does.modify fun _ => .quiet rfl rfl rfl rfl rfl rfl rfl
    refine (meets_of_settlesNothing (Does.doIf (does_ensureDirectory _))).bind fun _ => ?_
    exact (meets_of_settlesNothing hcount).bind fun _ => hclaim
  have hentered : Meets (Settles platform destination visited files [])
      (doIf (entry.relative ≠ [])
        (makeDirectory platform options (destination ++ entry.relative.map .down) entry))
      (fun _ => Settles platform destination (visited ++ [entry]) files [])
      (EndsApart platform destination) := by
    by_cases hroot : entry.relative = []
    · rw [decide_eq_false (not_not.mpr hroot), doIf_false]
      exact Meets.pure fun _ h => h.visit entry
    · rw [decide_eq_true hroot, doIf_true]
      exact hmake
  have hcollect : ∀ asked each, (∀ child, Does SettlesNothing (each child)) →
      Does SettlesNothing (doIf asked (entry.directories.forM each) : LocalProgram Unit) :=
    fun asked each heach => Does.doIf (Does.forM fun child _ => heach child)
  unfold settleDirectory
  refine hentered.bind fun _ => ?_
  refine (meets_of_settlesNothing (hcollect _ _ (does_collectTimes _))).bind fun _ => ?_
  refine (meets_of_settlesNothing (hcollect _ _ (does_collectModes _))).bind fun _ => ?_
  exact Meets.of fun state h => ⟨h.1.skipping _, h.2.skip hreasons⟩

/-- Entering a visited directory. -/
theorem settles_enterDirectory {entry : WalkEntry}
    (hreasons : ∀ skipped ∈ entry.skipped, skipped.reason.isDestination = false) :
    Meets (Settles platform destination visited files [])
      (enterDirectory platform options destination entry)
      (fun _ => Settles platform destination (visited ++ [entry]) files [])
      (EndsApart platform destination) := by
  intro state h
  rw [exec_enterDirectory]
  have hconsidered : Settles platform destination visited files []
      (state.record (.considered (destination ++ entry.relative.map .down))) :=
    h.settle (.record (.refl _) rfl)
  rcases localDirectory_cases platform state.disk destination entry.relative with
    ⟨-, heq⟩ | ⟨-, error, -, heq⟩
  · simp only [heq]
    refine (Meets.bind (settles_settleDirectory hreasons) fun _ => ?_) _ hconsidered
    exact Meets.pure fun _ hsettled => hsettled
  · simp only [heq]
    exact hconsidered.endsApart error

/-- A file was claimed for a remote path, or a collision says what holds its node. -/
def HasClaimed (platform : Platform) (destination : LocalPath) (visited : List WalkEntry)
    (files : List Bytes) (remote : Bytes) (settled : SettledDownload × Option PathCollision)
    (state : DownloadState) : Prop :=
  settled.1.remote = remote ∧ AccountsFor files [] state ∧
    settled.2.elim (KeepsApart platform destination visited [settled.1] state) fun collision =>
      KeepsApart platform destination visited [] state ∧ collision.remote = remote ∧
        collision.Names platform destination visited (state.claimed []) state.disk

/-- Claiming a file claims it or says what holds its node, and keeps what is accounted for. -/
theorem settles_claimLocalDestination (item : SettledDownload) :
    Meets (Settles platform destination visited files [])
      (claimLocalDestination platform false item)
      (fun collision =>
        HasClaimed platform destination visited files item.remote (item, collision))
      fun _ => Settles platform destination visited files [] := by
  have haccounts : Meets (AccountsFor files []) (claimLocalDestination platform false item)
      (fun _ => AccountsFor files []) fun _ => AccountsFor files [] :=
    (does_claimLocalDestination item).keeps fun _ _ hsame haccount => haccount.same hsame
  exact ((haccounts.strengthen fun _ => And.right).both
    ((meets_claimLocalDestination item).strengthen fun _ => And.left)).weaken (fun _ => id)
      (fun _ _ h => ⟨rfl, h⟩) fun _ _ h => ⟨h.2, h.1⟩

/-- Settling where a file goes claims it or says what holds its node. -/
theorem settles_claimDownload (hreal : options.dryRun = false) (path : LocalPath)
    (entry : WalkEntry) (child : DirEntry) :
    Meets (Settles platform destination visited files [])
      (claimDownload platform options destination path entry child)
      (HasClaimed platform destination visited files (joinRemote entry.path child.filename))
      fun _ => Settles platform destination visited files [] := by
  intro state h
  rw [exec_claimDownload, hreal]
  have hconsidered : Settles platform destination visited files []
      (state.record (.considered (path ++ [.down child.filename]))) :=
    h.settle (.record (.refl _) rfl)
  cases platform.localChild path child.filename >>=
    platform.checkContained state.disk destination with
  | error error => exact hconsidered
  | ok target =>
    refine (Meets.bind (settles_claimLocalDestination _) fun collision => ?_) _ hconsidered
    exact Meets.pure fun _ hclaimed => hclaimed

/-- A collision is reported, and the file passed over. -/
theorem settles_collide {entry : WalkEntry} {child : DirEntry} {collision : PathCollision}
    (h : KeepsApart platform destination visited [] state) (haccount : AccountsFor files [] state)
    (hremote : collision.remote = joinRemote entry.path child.filename)
    (hnames : collision.Names platform destination visited (state.claimed []) state.disk) :
    Settles platform destination visited (files ++ [joinRemote entry.path child.filename]) []
      { state with
        collisions := state.collisions ++ [collision]
        skipped := state.skipped ++
          [⟨joinRemote entry.path child.filename, child, .destinationCollision⟩] } := by
  have hcollided : AccountsFor files []
      { state with collisions := state.collisions ++ [collision] } := by
    refine ⟨haccount.files, fun skipped hmem hreason => ?_⟩
    obtain ⟨other, hother, hother'⟩ := haccount.reported skipped hmem hreason
    exact ⟨other, List.mem_append_left _ hother, hother'⟩
  refine ⟨(h.collide hnames).skipping _, hcollided.refuse rfl fun _ => ?_⟩
  exact ⟨collision, List.mem_append_right _ (List.mem_singleton_self _), hremote⟩

/-- Settling a file accounts for it. -/
theorem settles_settleFile (hreal : options.dryRun = false) (path : LocalPath)
    (entry : WalkEntry) (child : DirEntry) :
    Meets (Settles platform destination visited files [])
      (settleFile platform options destination path entry child)
      (fun settled => Settles platform destination visited
        (files ++ [joinRemote entry.path child.filename]) settled.toList)
      (EndsApart platform destination) := by
  have hplanned : Meets (Settles platform destination visited files [])
      (doIf options.dryRun (notePlanned child))
      (fun _ => Settles platform destination visited files [])
      (EndsApart platform destination) := by
    rw [hreal]
    exact Meets.pure fun _ h => h
  have hclaim : Meets (Settles platform destination visited files [])
      (claimDownload platform options destination path entry child >>= fun settled =>
        pure (some settled))
      (fun settled state => settled.elim
        (Settles platform destination visited
          (files ++ [joinRemote entry.path child.filename]) [] state)
        (HasClaimed platform destination visited files (joinRemote entry.path child.filename) ·
          state))
      fun _ => Settles platform destination visited files [] :=
    (settles_claimDownload hreal path entry child).bind fun settled =>
      Meets.pure fun _ hsettled => hsettled
  unfold settleFile
  refine hplanned.bind fun _ => (Meets.tryCatch hclaim fun error => ?_).bind fun settled => ?_
  · cases error with
    | unsafePath _ _ _ => exact Meets.throw fun _ h => h.endsApart _
    | os error =>
      refine Meets.ite (fun _ => ?_) fun _ => Meets.throw fun _ h => h.endsApart _
      refine Meets.of fun state h => ⟨h.1.skipping _, h.2.refuse rfl fun heq => ?_⟩
      cases heq
  · cases settled with
    | none => exact Meets.pure fun _ h => h
    | some settled =>
      obtain ⟨item, collision⟩ := settled
      cases collision with
      | none =>
        refine Meets.pure fun state h => ?_
        obtain ⟨hremote, haccount, happart⟩ := h
        refine ⟨happart, ?_⟩
        rw [← hremote]
        exact haccount.claim item
      | some collision =>
        rw [hreal, Bool.not_false, doIf_true]
        refine Meets.of fun state h => ?_
        obtain ⟨-, haccount, happart, hremote, hnames⟩ := h
        exact settles_collide happart haccount hremote hnames

/-! ## Runs -/

/-- Handing out a file that was claimed. -/
theorem settles_hand (hreal : options.dryRun = false) {follow : Bool} (item : SettledDownload) :
    Meets (Settles platform destination visited files [item]) (hand platform options follow item)
      (fun _ => Settles platform destination visited files [])
      (EndsApart platform destination) := by
  have hmove : Meets (Settles platform destination visited files [item])
      (modify fun state => { state with transfers := state.transfers ++ [⟨item, .waiting⟩] } :
        DownloadProgram Unit)
      (fun _ => Settles platform destination visited files [])
      (EndsApart platform destination) := by
    refine Meets.of fun state h => ⟨h.1.handing, ?_, h.2.reported⟩
    rw [claimed_handing]
    exact h.2.files
  unfold hand
  rw [hreal, Bool.not_false, doIf_true]
  exact hmove.bind fun _ => settles_of_workers does_letWorkers

/-- Settling everything in a visited directory accounts for its files. -/
theorem settles_settleVisited (hreal : options.dryRun = false) {entry : WalkEntry}
    (hreasons : ∀ skipped ∈ entry.skipped, skipped.reason.isDestination = false) :
    Meets (Settles platform destination visited files [])
      (settleVisited platform options destination entry)
      (fun _ => Settles platform destination (visited ++ [entry]) (files ++ entry.remoteFiles) [])
      (EndsApart platform destination) := by
  refine (settles_of_workers does_letWorkers).bind fun _ => ?_
  refine Meets.bind (apart_raising (settles_enterDirectory hreasons)) fun path => ?_
  refine Meets.strengthen (Meets.forM_items (fun front => Settles platform destination
    (visited ++ [entry])
      (files ++ front.map fun child : DirEntry => joinRemote entry.path child.filename) [])
      fun front child back _ => ?_) fun state h => ?_
  · refine (apart_raising (settles_settleFile hreal path entry child)).bind fun settled => ?_
    rw [List.map_append, ← List.append_assoc]
    cases settled with
    | none => exact Meets.pure fun _ h => h
    | some item => exact settles_hand hreal item
  · rw [List.map_nil, List.append_nil]
    exact h

/-- Delivering visited directories accounts for the files in all of them. -/
theorem settles_deliver (hreal : options.dryRun = false) {entries : List WalkEntry}
    (hreasons : ∀ entry ∈ entries, ∀ skipped ∈ entry.skipped, skipped.reason.isDestination = false)
    (ending : Except TraversalError Unit) :
    Meets (Settles platform destination [] [] [])
      (deliver (settleVisited platform options destination) entries ending)
      (fun _ => Settles platform destination entries (entries.flatMap WalkEntry.remoteFiles) [])
      (EndsApart platform destination) := by
  have hall : Meets (Settles platform destination [] [] [])
      (entries.forM (settleVisited platform options destination))
      (fun _ => Settles platform destination entries (entries.flatMap WalkEntry.remoteFiles) [])
      (EndsApart platform destination) := by
    refine Meets.forM_items (fun front => Settles platform destination front
      (front.flatMap WalkEntry.remoteFiles) []) fun front entry back hentries => ?_
    have hmem : entry ∈ entries := by
      rw [hentries]
      exact List.mem_append_right _ List.mem_cons_self
    rw [List.flatMap_append, List.flatMap_singleton]
    exact settles_settleVisited hreal (hreasons entry hmem)
  refine hall.bind fun _ => ?_
  cases ending with
  | ok _ => exact Meets.pure fun _ h => h
  | error error => exact Meets.throw fun _ h => h.endsApart error

variable (server : TreeServer) (turns : ℕ) (root : Bytes)

/-- Walking a remote tree accounts for the files in everything it reported. -/
theorem settles_walkHolding (hreal : options.dryRun = false) :
    Meets (fun visit => visit.walked = [] ∧ Settles platform destination [] [] [] visit.held)
      (walkHolding server turns options.maxDepth (settleVisited platform options destination) root)
      (fun _ visit => Settles platform destination visit.walked
        (visit.walked.flatMap WalkEntry.remoteFiles) [] visit.held)
      (fun error visit => EndsApart platform destination error visit.held) := by
  intro visit h
  obtain ⟨entries, rest, hwalks, hdelivered, -⟩ := delivered_listed
    (settleVisited platform options destination) server turns options.maxDepth root visit
  have hreasons : ∀ entry ∈ entries, ∀ skipped ∈ entry.skipped,
      skipped.reason.isDestination = false := by
    intro entry hentry
    obtain ⟨_, _, hlisted⟩ := hwalks.sound hentry
    exact hlisted.reasons
  have hends := hdelivered.ends (settles_deliver hreal hreasons _ visit.held h.2)
  have hreturned := hdelivered.returned
  generalize (walkHolding server turns options.maxDepth
    (settleVisited platform options destination) root).exec visit = outcome at hends hreturned ⊢
  obtain ⟨error | _, visit'⟩ := outcome
  · exact hends
  · have hwalked : visit'.walked = entries := by
      rw [hreturned rfl, h.1, List.nil_append]
    change Settles platform destination visit'.walked _ [] visit'.held
    rw [hwalked]
    exact hends

/-- A download that has settled everything, and whose workers are done. -/
def HasSettled (platform : Platform) (destination : LocalPath) (walked : List WalkEntry)
    (state : DownloadState) : Prop :=
  Settles platform destination walked (walked.flatMap WalkEntry.remoteFiles) [] state ∧
    ∀ transfer ∈ state.transfers, transfer.stage.isDone = true

/-- Transferring a tree accounts for the files in everything that was walked. -/
theorem settles_transferTree (hreal : options.dryRun = false) :
    Meets (fun visit => visit.walked = [] ∧ Settles platform destination [] [] [] visit.held)
      (transferTree server turns platform options destination root)
      (fun _ visit => HasSettled platform destination visit.walked visit.held)
      (fun error visit => EndsApart platform destination error visit.held) := by
  refine Meets.tryCatch ((settles_walkHolding server turns root hreal).bind fun _ => ?_)
    fun error => ?_
  · refine meets_onHeld_walked
      (fun walked => Settles platform destination walked (walked.flatMap WalkEntry.remoteFiles) [])
      (fun walked _ => HasSettled platform destination walked) fun walked => ?_
    exact (meets_finishWorkers fun _ _ => Settles.step).weaken (fun _ => id) (fun _ _ => id)
      fun error _ h => h.endsApart error
  · refine Meets.bind ((meets_onHeld (apart_of_workers does_windDown error)).weaken
      (fun visit h => h) (fun _ _ h => h) fun _ _ => id) fun _ => ?_
    exact Meets.throw fun _ h => h

/-- What a download that came to its end accounts for: every file of the walk was transferred once
or passed over because of the destination, and every collision was reported with what holds the
local file. -/
structure AccountsForAll (platform : Platform) (destination : LocalPath)
    (walked : List WalkEntry) (state : DownloadState) : Prop where
  once : state.transferred.Nodup
  files : (state.transferred.map SettledDownload.remote ++ state.refused).Perm
    (walked.flatMap WalkEntry.remoteFiles)
  counted : state.moved.length = state.transferred.length
  reported : ∀ skipped ∈ state.skipped, skipped.reason = .destinationCollision →
    ∃ collision ∈ state.collisions, collision.remote = skipped.path
  named : ∀ collision ∈ state.collisions,
    collision.Names platform destination walked state.transferred state.disk

/-- A download whose workers are done accounts for everything. -/
theorem HasSettled.accounts {walked : List WalkEntry}
    (h : HasSettled platform destination walked state) :
    AccountsForAll platform destination walked state := by
  obtain ⟨⟨happart, haccount⟩, hdone⟩ := h
  have hperm := happart.finished hdone
  refine ⟨hperm.nodup_iff.mpr happart.nodup, ?_, ?_, haccount.reported, fun collision hmem => ?_⟩
  · exact ((hperm.map _).append_right _).trans haccount.files
  · rw [happart.counts]
    exact length_transferred _
  · exact (happart.collisions collision hmem).extend (.refl _) (List.Subset.refl _)
      hperm.symm.subset

/-- A download that has done nothing has settled nothing. -/
theorem settles_fresh (disk : LocalDisk) (schedule : List (List WorkerAct)) :
    Settles platform destination [] [] [] (.fresh disk (.destination .empty) schedule) :=
  ⟨keepsApart_fresh disk schedule, .refl _, fun _ hmem => absurd hmem List.not_mem_nil⟩

/-- Downloading a tree accounts for the files in everything that was walked. -/
theorem settles_downloadTree (hreal : options.dryRun = false) :
    Meets (fun visit => visit.walked = [] ∧ Settles platform destination [] [] [] visit.held)
      (downloadTree server turns platform options destination root)
      (fun _ visit => HasSettled platform destination visit.walked visit.held)
      (fun error visit => EndsApart platform destination error visit.held) := by
  have hmake : Meets (Settles platform destination [] [] [])
      (makeDestination platform options.dryRun destination)
      (fun _ => Settles platform destination [] [] []) (EndsApart platform destination) :=
    Meets.doIf fun _ => apart_raising (meets_of_settlesNothing (does_ensureParents _))
  have hmetadata : ∀ walked, Meets (HasSettled platform destination walked)
      (applyMetadata platform) (fun _ => HasSettled platform destination walked)
      (EndsApart platform destination) := by
    intro walked
    refine (does_applyMetadata.keeps fun _ _ hstep hsettled => ?_).weaken (fun _ => id)
      (fun _ _ => id) fun error _ h => h.1.endsApart error
    refine ⟨hsettled.1.settle hstep, ?_⟩
    rw [hstep.transfers]
    exact hsettled.2
  refine Meets.bind (meets_onHeld_walked
    (fun walked state => walked = [] ∧ Settles platform destination [] [] [] state)
    (fun walked _ state => walked = [] ∧ Settles platform destination [] [] [] state)
    fun walked => ?_) fun _ => (settles_transferTree server turns root hreal).bind fun _ => ?_
  · refine Meets.assume fun state h => ?_
    exact hmake.weaken (fun state' heq => by rw [heq]; exact h.2) (fun _ _ hmade => ⟨h.1, hmade⟩)
      fun _ _ => id
  · exact Meets.doIf fun _ => meets_onHeld_walked (HasSettled platform destination)
      (fun walked _ => HasSettled platform destination walked) hmetadata

end Accounts

/-- However the workers are scheduled, whatever was in the destination, and whatever names its file
system takes for one: `get_tree` never opens or writes one local file for two remote ones. Where it
comes to its end, every file of the walk was transferred once, or passed over because the file
system refused its name or because of a collision that says which remote path holds its local
file; and it raises what was reported if anything was. -/
theorem getTree_keeps_files_apart (server : TreeServer) (turns : ℕ) (platform : Platform)
    (options : TreeOptions) (root : Bytes) (destination : LocalPath) (known : Option Bytes)
    (disk : LocalDisk) (schedule : List (List WorkerAct)) (hreal : options.dryRun = false) :
    let run := (getTree server turns platform options root destination).exec
      (startTree options known disk schedule)
    let state := run.2.held
    (∀ item other node, (item, node) ∈ state.effects.filterMap LocalEffect.written →
      (other, node) ∈ state.effects.filterMap LocalEffect.written → item = other) ∧
    ((∃ operation, run.1 = .error (.notImplemented operation)) ∨
      (∃ error, run.1 = .error (.raised error)) ∨
      AccountsForAll platform destination run.2.walked state ∧
        run.1 = if state.collisions = [] then .ok (.finished state.result) else
          .error (.collided state.collisions destination state.result.files
            state.result.transferred)) := by
  have hstart : (startTree options known disk schedule).walked = [] ∧
      Settles platform destination [] [] [] (startTree options known disk schedule).held := by
    refine ⟨rfl, ?_⟩
    unfold startTree
    rw [hreal]
    exact settles_fresh disk schedule
  have hends := settles_downloadTree server turns root hreal
    (startTree options known disk schedule) hstart
  intro run state
  have hrun : run = (getTree server turns platform options root destination).exec
      (startTree options known disk schedule) := rfl
  have hstate : state = run.2.held := rfl
  unfold getTree requireLocalIo at hrun
  rw [exec_bind] at hrun
  cases hwindows : platform.windows with
  | true =>
    simp only [hwindows, if_true, exec_throw] at hrun
    rw [hrun] at hstate ⊢
    rw [hstate]
    exact ⟨fun _ _ _ => hstart.2.1.written, Or.inl ⟨_, rfl⟩⟩
  | false =>
    simp only [hwindows, Bool.false_eq_true, if_false, exec_pure, exec_bind, exec_raising,
      exec_get, hreal] at hrun
    generalize (downloadTree server turns platform options destination root).exec
      (startTree options known disk schedule) = outcome at hends hrun
    obtain ⟨error | _, visit⟩ := outcome
    · obtain ⟨visited, pending, happart⟩ := hends
      have hheld : run = (.error (.raised error), visit) := hrun
      rw [hheld] at hstate ⊢
      rw [hstate]
      exact ⟨fun _ _ _ => happart.written, Or.inr (Or.inl ⟨error, rfl⟩)⟩
    · have hsettled : HasSettled platform destination visit.walked visit.held := hends
      have hheld : run = (if visit.held.collisions = [] then .ok (.finished visit.held.result) else
          .error (.collided visit.held.collisions destination visit.held.result.files
            visit.held.result.transferred), visit) := by
        rw [hrun]
        change ((ite _ _ _ : Program (Visit DownloadState) DownloadError TreeReport).exec visit) = _
        split_ifs
        · rfl
        · rfl
      rw [hheld] at hstate ⊢
      rw [hstate]
      exact ⟨fun _ _ _ => hsettled.1.1.written, Or.inr (Or.inr ⟨hsettled.accounts, rfl⟩)⟩

/-- A server whose root holds two files with names that differ in case only. -/
def twinServer : TreeServer where
  realpath _ _ := .ok [slash]
  opendir _ _ :=
    .ok ⟨[⟨[0x41], { permissions := some 0o100644 }⟩, ⟨[0x61], { permissions := some 0o100644 }⟩],
      .ok ()⟩
  lstat _ _ := .error .osError
  remove _ _ := .error .osError
  rmdir _ _ := .error .osError

/-- An empty file system that takes names for one when they differ in case only. -/
def foldingDisk : LocalDisk where
  fold := List.map Glob.fold
  names place := if place = [] then some 0 else none
  kinds _ := .directory
  next := 1
  fresh := by
    intro place node h
    split_ifs at h
    cases h
    exact Nat.one_pos

/-- A machine that refuses nothing. -/
def plainPlatform : Platform where
  windows := false
  linkLimit := 1
  refusal _ := none
  beyond := id
  foldName := localPathText

/-- A run that transfers one file of the two, and reports the other. -/
def twinRun : Except DownloadError TreeReport × Visit DownloadState :=
  (getTree twinServer 2 plainPlatform {} [slash] []).exec (startTree {} none foldingDisk
    [[], [.takes 0, .opens 0], [.writes 0, .finishes 0 (fun _ => .ok 3) true]])

theorem getTree_keeps_twins_apart :
    twinRun.1 = .error (.collided [⟨[.down [0x61]], [slash, 0x61], [slash, 0x41]⟩] [] 1 3) ∧
      AccountsForAll plainPlatform [] twinRun.2.walked twinRun.2.held := by
  have hcollided : twinRun.1 =
      .error (.collided [⟨[.down [0x61]], [slash, 0x61], [slash, 0x41]⟩] [] 1 3) := by
    decide +kernel
  obtain ⟨-, hrun⟩ := getTree_keeps_files_apart twinServer 2 plainPlatform {} [slash] [] none
    foldingDisk [[], [.takes 0, .opens 0], [.writes 0, .finishes 0 (fun _ => .ok 3) true]] rfl
  rcases hrun with ⟨operation, herror⟩ | ⟨error, herror⟩ | ⟨haccounts, -⟩
  · cases hcollided.symm.trans herror
  · cases hcollided.symm.trans herror
  · exact ⟨hcollided, haccounts⟩

end GantrySftp
