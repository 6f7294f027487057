import GantrySftp.Library.Dict
import GantrySftp.Session.LocalPaths
import GantrySftp.Session.Verify
import GantrySftp.Session.WalkDelivery

/-!
# Downloading a tree or a list

One task settles where every file goes: it makes directories, makes each file empty where nothing
is, and claims it for its remote path, in the order of the walk or of the list. Workers fill the
files meanwhile, in any order and at any speed: a schedule says what they do whenever the task
lets them. A dry run settles without making anything, and folds names where the download asks
the file system which names are one file. A download keeps a trace of what it did locally.
-/

namespace GantrySftp

open Library Program

/-! ## What a download keeps -/

/-- A file with its destination settled. -/
structure SettledDownload where
  remote : Bytes
  target : LocalPath
  deriving DecidableEq

/-- A remote path that was refused, and the one that holds its local file. -/
structure PathCollision where
  path : LocalPath
  remote : Bytes
  first : Bytes
  deriving DecidableEq

/-- Which remote path each local file belongs to: by node, or by the folded text of its path. -/
inductive Ledger
  | destination (claims : Dict ℕ Bytes)
  | folded (claims : Dict Bytes Bytes)

/-- How far the transfer of one file has come. -/
inductive TransferStage
  | waiting
  | taken
  | writing (node : ℕ)
  | done (count : ℕ)
  deriving DecidableEq

/-- A file handed to the workers. -/
structure Transfer where
  item : SettledDownload
  stage : TransferStage
  deriving DecidableEq

/-- What a worker does next, to the transfer at a place. It ends with what `get` returns, or raises,
for the remote path, whose times the server reported or not. -/
inductive WorkerAct
  | takes (index : ℕ)
  | opens (index : ℕ)
  | writes (index : ℕ)
  | finishes (index : ℕ) (served : Bytes → Except Failure ℕ) (timed : Bool)

/-- What is changed of the metadata of a file that is complete. -/
inductive Mark
  | mode | times
  deriving DecidableEq

/-- What a download does locally, with the place that the kernel came to. It considers a path
before it checks it. -/
inductive LocalEffect
  | considered (path : LocalPath)
  | made (path : LocalPath) (place : List Bytes)
  | touched (path : LocalPath) (place : List Bytes)
  | opened (item : SettledDownload) (place : List Bytes) (node : ℕ)
  | wrote (item : SettledDownload) (node : ℕ)
  | marked (item : SettledDownload) (mark : Mark) (node : ℕ)
  | transferred (item : SettledDownload) (count : ℕ)
  | stamped (path : LocalPath) (place : List Bytes)
  | chmodded (path : LocalPath) (place : List Bytes)
  deriving DecidableEq

/-- What a download keeps, with what its workers are going to do and what was done locally. -/
structure DownloadState where
  disk : LocalDisk
  ledger : Ledger
  directories : ℕ
  moved : List ℕ
  skipped : List Skipped
  collisions : List PathCollision
  plannedFiles : ℕ
  plannedBytes : ℤ
  sizesUnreported : ℕ
  directoryTimes : List (LocalPath × Times)
  directoryModes : List (LocalPath × ℤ)
  transfers : List Transfer
  schedule : List (List WorkerAct)
  effects : List LocalEffect

/-- A download that has done nothing. -/
def DownloadState.fresh (disk : LocalDisk) (ledger : Ledger) (schedule : List (List WorkerAct)) :
    DownloadState where
  disk := disk
  ledger := ledger
  directories := 0
  moved := []
  skipped := []
  collisions := []
  plannedFiles := 0
  plannedBytes := 0
  sizesUnreported := 0
  directoryTimes := []
  directoryModes := []
  transfers := []
  schedule := schedule
  effects := []

namespace DownloadState

/-- The state after something was done locally. -/
def record (state : DownloadState) (effect : LocalEffect) : DownloadState :=
  { state with effects := state.effects ++ [effect] }

/-- The state after several things were done locally. -/
def records (state : DownloadState) (effects : List LocalEffect) : DownloadState :=
  { state with effects := state.effects ++ effects }

/-- The state with a transfer at another stage. -/
def staging (state : DownloadState) (index : ℕ) (transfer : Transfer) : DownloadState :=
  { state with transfers := state.transfers.set index transfer }

/-- The state after a transfer is over. -/
def finishing (state : DownloadState) (index : ℕ) (item : SettledDownload) (count : ℕ) :
    DownloadState :=
  { (state.record (.transferred item count)).staging index ⟨item, .done count⟩
    with moved := state.moved ++ [count] }

end DownloadState

/-- What a caller of `get_tree` chooses, less the destination. -/
structure TreeOptions where
  maxDepth : Option ℕ := none
  preserveTimes : Bool := false
  mode : Option Mode := none
  resume : Bool := false
  dryRun : Bool := false
  deriving DecidableEq

/-- What is to be changed of the metadata of each file: its mode, and its times where the server
reported them. -/
def TreeOptions.marks (options : TreeOptions) (timed : Bool) : List Mark :=
  (if options.mode = none then [] else [.mode]) ++
    if options.preserveTimes && timed then [.times] else []

/-- Local programs. -/
abbrev LocalProgram := Program DownloadState LocalError

/-- Programs that a walk or a list runs. -/
abbrev DownloadProgram := Program DownloadState TraversalError

/-- The text of a local path. -/
def localPathText (path : LocalPath) : Bytes :=
  path.flatMap fun step =>
    slash :: match step with
      | .up => "..".toUTF8.toList
      | .down name => name

/-- A local error as a walk raises it. The destination is empty where the error names none. -/
def LocalError.raised : LocalError → TraversalError
  | .unsafePath name reason destination =>
    .unsafePath ((destination.map localPathText).getD []) name reason
  | .os _ => .failure .osError

/-- Return or raise what was computed. -/
def orRefuse {α : Type} (result : Except LocalError α) : LocalProgram α :=
  .of fun state => (result, state)

/-- Note what was done locally. -/
def note (effect : LocalEffect) : LocalProgram Unit := modify fun state => state.record effect

section Settling

variable (platform : Platform)

/-! ## Directories -/

/-- Make a directory, unless there is one. -/
def ensureDirectory (path : LocalPath) : LocalProgram Unit :=
  .of fun state =>
    match platform.mkdirCall state.disk path with
    | .ok (place, disk) => (.ok (), { state with disk := disk }.record (.made path place))
    | .error (.lookup .missing) => (.error (.os (.lookup .missing)), state)
    | .error error =>
      if platform.isDir state.disk path then (.ok (), state) else (.error (.os error), state)

/-- Whether the directory that a directory is to be made in is not there. -/
def lacksParent (disk : LocalDisk) (path : LocalPath) : Bool :=
  match platform.mkdirCall disk path with
  | .error (.lookup .missing) => true
  | _ => false

/-- Make a directory and those it is in, its steps given from the last, unless there is one. -/
def ensureParents : List (PathStep Bytes) → LocalProgram Unit
  | [] => ensureDirectory platform []
  | step :: parents => do
    let state ← MonadState.get
    doIf (lacksParent platform state.disk (step :: parents).reverse) (ensureParents parents)
    ensureDirectory platform (step :: parents).reverse

/-- The remote path that holds what a path names, if any. -/
def collidesWith (path : LocalPath) : LocalProgram (Option Bytes) :=
  .of fun state =>
    match state.ledger with
    | .folded claims => (.ok (claims.get (platform.foldName path)), state)
    | .destination claims =>
      match platform.identity state.disk path with
      | .ok node => (.ok (claims.get node), state)
      | .error (.lookup .missing) => (.ok none, state)
      | .error error => (.error (.os error), state)

/-- Claim what a path names for a remote path. -/
def claim (path : LocalPath) (remote : Bytes) : LocalProgram Unit :=
  .of fun state =>
    match state.ledger with
    | .folded claims =>
      (.ok (), { state with ledger := .folded (claims.set (platform.foldName path) remote) })
    | .destination claims =>
      match platform.identity state.disk path with
      | .ok node => (.ok (), { state with ledger := .destination (claims.set node remote) })
      | .error error => (.error (.os error), state)

/-- Report a collision. -/
def collide (collision : PathCollision) : LocalProgram Unit :=
  modify fun state => { state with collisions := state.collisions ++ [collision] }

/-- Claim the local directory of a visited one, as it resolves, or report what holds it. -/
def claimDirectory (path : LocalPath) (visited : WalkEntry) : LocalProgram Unit := do
  let created := platform.resolve (← MonadState.get).disk path
  match ← collidesWith platform created with
  | none => claim platform created visited.path
  | some first => collide ⟨path, visited.path, first⟩

/-- Collect the times of the directories in a visited one. -/
def collectTimes (path : LocalPath) (child : DirEntry) : LocalProgram Unit :=
  match child.attrs.times with
  | none => pure ()
  | some times => do
    let path ← orRefuse (platform.localChild path child.filename)
    modify fun state => { state with directoryTimes := state.directoryTimes ++ [(path, times)] }

/-- Collect the modes of the directories in a visited one. -/
def collectModes (path : LocalPath) (child : DirEntry) : LocalProgram Unit :=
  match child.attrs.permissions with
  | none => pure ()
  | some permissions => do
    let path ← orRefuse (platform.localChild path child.filename)
    let mode := maskedMode permissions
    modify fun state => { state with directoryModes := state.directoryModes ++ [(path, mode)] }

variable (options : TreeOptions)

/-- Make the local directory of a visited one below the root, and claim it. -/
def makeDirectory (path : LocalPath) (visited : WalkEntry) : LocalProgram Unit := do
  doIf (!options.dryRun) (ensureDirectory platform path)
  modify fun state => { state with directories := state.directories + 1 }
  claimDirectory platform path visited

/-- Settle a visited directory: make it below the root, and collect what is to be applied to
those in it and what was passed over. -/
def settleDirectory (path : LocalPath) (visited : WalkEntry) : LocalProgram Unit := do
  doIf (visited.relative ≠ []) (makeDirectory platform options path visited)
  doIf options.preserveTimes (visited.directories.forM (collectTimes platform path))
  doIf (options.mode = some .preserve) (visited.directories.forM (collectModes platform path))
  modify fun state => { state with skipped := state.skipped ++ visited.skipped }

/-! ## Files -/

/-- Make a file empty where nothing is. -/
def touchDestination (path : LocalPath) : LocalProgram Unit :=
  .of fun state =>
    match platform.openCall state.disk false path with
    | .ok (place, _, disk) => (.ok (), { state with disk := disk }.record (.touched path place))
    | .error error => (.error (.os error), state)

/-- Reserve a local file for a remote one, or say what holds it. -/
def claimLocalDestination (dryRun : Bool) (item : SettledDownload) :
    LocalProgram (Option PathCollision) := do
  doIf (!dryRun) (touchDestination platform item.target)
  match ← collidesWith platform item.target with
  | some first => pure (some ⟨item.target, item.remote, first⟩)
  | none => do
    claim platform item.target item.remote
    pure none

/-- Count a file that a preview would transfer. -/
def notePlanned (child : DirEntry) : LocalProgram Unit :=
  modify fun state =>
    match child.attrs.size with
    | none =>
      { state with
        plannedFiles := state.plannedFiles + 1, sizesUnreported := state.sizesUnreported + 1 }
    | some size =>
      { state with
        plannedFiles := state.plannedFiles + 1, plannedBytes := state.plannedBytes + size }

/-- Pass over a file of a visited directory. -/
def skipFile (visited : WalkEntry) (child : DirEntry) (reason : SkipReason) : LocalProgram Unit :=
  modify fun state =>
    let path := joinRemote visited.path child.filename
    { state with skipped := state.skipped ++ [Skipped.mk path child reason] }

variable (destination : LocalPath)

/-- Settle where a file of a visited directory goes. -/
def claimDownload (path : LocalPath) (visited : WalkEntry) (child : DirEntry) :
    LocalProgram (SettledDownload × Option PathCollision) := do
  note (.considered (path ++ [.down child.filename]))
  let target ← orRefuse (platform.localChild path child.filename)
  let target ← orRefuse (platform.checkContained (← MonadState.get).disk destination target)
  let item : SettledDownload := ⟨joinRemote visited.path child.filename, target⟩
  let collision ← claimLocalDestination platform options.dryRun item
  pure (item, collision)

/-- Settling where a file goes comes to claiming a checked path. -/
theorem exec_claimDownload (path : LocalPath) (visited : WalkEntry) (child : DirEntry)
    (state : DownloadState) :
    (claimDownload platform options destination path visited child).exec state =
      let considered := state.record (.considered (path ++ [.down child.filename]))
      match platform.localChild path child.filename >>=
        platform.checkContained state.disk destination with
      | .error error => (.error error, considered)
      | .ok target =>
        let item : SettledDownload := ⟨joinRemote visited.path child.filename, target⟩
        (claimLocalDestination platform options.dryRun item >>= fun collision =>
          pure (item, collision)).exec considered := by
  unfold claimDownload
  rw [exec_bind]
  change (orRefuse (platform.localChild path child.filename) >>= _).exec (state.record _) = _
  rw [exec_bind]
  cases platform.localChild path child.filename with
  | error error => rfl
  | ok target =>
    change (orRefuse (platform.checkContained state.disk destination target) >>= _).exec
      (state.record _) = _
    rw [exec_bind]
    change _ = match platform.checkContained state.disk destination target with
      | .error error => (Except.error error, _)
      | .ok target => _
    cases platform.checkContained state.disk destination target with
    | error error => rfl
    | ok target => rfl

/-- Settle a file of a visited directory, or report what stopped it. -/
def settleFile (path : LocalPath) (visited : WalkEntry) (child : DirEntry) :
    LocalProgram (Option SettledDownload) := do
  doIf options.dryRun (notePlanned child)
  let settled ← tryCatch
    (do
      let settled ← claimDownload platform options destination path visited child
      pure (some settled))
    fun error =>
      match error with
      | .os error =>
        if refusesTheName error then do
          skipFile visited child .destinationRefusedTheName
          pure none
        else throw (.os error)
      | .unsafePath _ _ _ => throw error
  match settled with
  | none => pure none
  | some (item, none) => pure (some item)
  | some (_, some collision) => do
    collide collision
    doIf (!options.dryRun) (skipFile visited child .destinationCollision)
    pure none

/-! ## Workers -/

variable (follow : Bool)

/-- One act of a worker. What is not possible at the stage of the transfer does not happen. A
transfer ends without its file having been opened only where it fails or resumes. -/
def act : WorkerAct → DownloadProgram Unit
  | .takes index =>
    .of fun state =>
      match state.transfers[index]? with
      | some ⟨item, .waiting⟩ => (.ok (), state.staging index ⟨item, .taken⟩)
      | _ => (.ok (), state)
  | .opens index =>
    .of fun state =>
      match state.transfers[index]? with
      | some ⟨item, .taken⟩ =>
        match platform.openCall state.disk follow item.target with
        | .ok (place, node, disk) =>
          (.ok (), ({ state with disk := disk }.record (.opened item place node)).staging index
            ⟨item, .writing node⟩)
        | .error _ => (.error (.failure .osError), state)
      | _ => (.ok (), state)
  | .writes index =>
    .of fun state =>
      match state.transfers[index]? with
      | some ⟨item, .writing node⟩ => (.ok (), state.record (.wrote item node))
      | _ => (.ok (), state)
  | .finishes index served timed =>
    .of fun state =>
      match state.transfers[index]? with
      | some ⟨item, .writing node⟩ =>
        match served item.remote with
        | .error failure => (.error (.failure failure), state)
        | .ok count =>
          let marks := (options.marks timed).map fun mark => .marked item mark node
          (.ok (), (state.records marks).finishing index item count)
      | some ⟨item, .taken⟩ =>
        match served item.remote with
        | .error failure => (.error (.failure failure), state)
        | .ok count =>
          if options.resume = false then (.ok (), state)
          else if options.marks timed = [] then (.ok (), state.finishing index item count)
          else
            -- there was nothing to transfer, and each change opens the file anew
            match platform.reopenCall state.disk follow item.target with
            | .error _ => (.error (.failure .osError), state)
            | .ok (place, node) =>
              let marks := (options.marks timed).flatMap fun mark =>
                [.opened item place node, .marked item mark node]
              (.ok (), (state.records marks).finishing index item count)
      | _ => (.ok (), state)

/-- What the workers do while the task lets them. -/
def letWorkers : DownloadProgram Unit := do
  match (← MonadState.get).schedule with
  | [] => pure ()
  | batch :: schedule => do
    modify fun state => { state with schedule := schedule }
    batch.forM (act platform options follow)

/-- Whether a transfer is over. -/
def TransferStage.isDone : TransferStage → Bool
  | .done _ => true
  | _ => false

/-- Wait for the workers. A schedule that leaves a transfer behind has not come to an end. -/
def finishWorkers : DownloadProgram Unit := do
  (← MonadState.get).schedule.flatten.forM (act platform options follow)
  modify fun state => { state with schedule := [] }
  let state ← MonadState.get
  if state.transfers.all (·.stage.isDone) then pure () else throw .unfinished

/-- What the workers still do once the download has failed, whatever becomes of it. -/
def windDown : DownloadProgram Unit := do
  match (← MonadState.get).schedule with
  | [] => pure ()
  | batch :: _ =>
    batch.forM fun next => tryCatch (act platform options follow next) fun _ => pure ()

/-- Hand a file to the workers, which do nothing with it in a dry run. -/
def hand (item : SettledDownload) : DownloadProgram Unit := do
  doIf (!options.dryRun) do
    modify fun state => { state with transfers := state.transfers ++ [⟨item, .waiting⟩] }
    letWorkers platform options follow

/-- Run a producer until it ends and the workers are done with what it handed them. -/
def forEachBounded (produce : DownloadProgram Unit) : DownloadProgram Unit :=
  tryCatch
    (do
      produce
      finishWorkers platform options follow)
    fun error => do
      windDown platform options follow
      throw error

/-! ## Trees -/

/-- Settle a file and hand it out. -/
def produceFile (path : LocalPath) (visited : WalkEntry) (child : DirEntry) :
    DownloadProgram Unit := do
  match ← (settleFile platform options destination path visited child).raising LocalError.raised with
  | none => pure ()
  | some item => hand platform options false item

/-- Settle the local directory of a visited one. -/
def enterDirectory (visited : WalkEntry) : LocalProgram LocalPath := do
  note (.considered (destination ++ visited.relative.map .down))
  let path ← orRefuse (platform.localDirectory (← MonadState.get).disk destination visited.relative)
  settleDirectory platform options path visited
  pure path

/-- Entering a visited directory comes to settling the local one, once that was checked. -/
theorem exec_enterDirectory (visited : WalkEntry) (state : DownloadState) :
    (enterDirectory platform options destination visited).exec state =
      let considered := state.record (.considered (destination ++ visited.relative.map .down))
      match platform.localDirectory state.disk destination visited.relative with
      | .error error => (.error error, considered)
      | .ok path =>
        (settleDirectory platform options path visited >>= fun _ => pure path).exec considered := by
  unfold enterDirectory
  rw [exec_bind]
  change (orRefuse (platform.localDirectory state.disk destination visited.relative) >>= _).exec
    (state.record _) = _
  rw [exec_bind]
  cases platform.localDirectory state.disk destination visited.relative with
  | error error => rfl
  | ok path => rfl

/-- Settle everything in a visited directory, and hand out its files. -/
def settleVisited (visited : WalkEntry) : DownloadProgram Unit := do
  letWorkers platform options false
  let path ← (enterDirectory platform options destination visited).raising LocalError.raised
  visited.files.forM (produceFile platform options destination path visited)

/-- Do something to the metadata of a directory, if that is possible. -/
def applyQuietly (effect : LocalPath → List Bytes → LocalEffect) (path : LocalPath) :
    DownloadProgram Unit :=
  modify fun state =>
    match platform.stampCall state.disk path with
    | .ok place => state.record (effect path place)
    | .error _ => state

/-- Apply the times and modes of the directories, once everything in them is there. -/
def applyMetadata : DownloadProgram Unit := do
  (← MonadState.get).directoryTimes.forM fun entry => applyQuietly platform .stamped entry.1
  (← MonadState.get).directoryModes.forM fun entry => applyQuietly platform .chmodded entry.1

end Settling

/-- What a plan could not determine. -/
inductive PlanLimit
  | remoteDirectoryExistence | perFileTransferDecisions | destinationComparison
  | unreportedSizes | destinationFilesystemRules
  deriving DecidableEq

/-- What a recursive transfer did. -/
structure TreeResult where
  files : ℕ
  directories : ℕ
  transferred : ℕ
  skipped : List Skipped
  deriving DecidableEq

/-- What a recursive transfer would do. -/
structure TreePlan where
  files : ℕ
  directories : ℕ
  bytesToTransfer : ℤ
  skipped : List Skipped
  potentialCollisions : List PathCollision
  undetermined : List PlanLimit
  deriving DecidableEq

/-- What `get_tree` returns. -/
inductive TreeReport
  | planned (plan : TreePlan)
  | finished (result : TreeResult)
  deriving DecidableEq

/-- What a download of several files raises. -/
inductive DownloadError
  | notImplemented (operation : String)
  | raised (error : TraversalError)
  | collided (collisions : List PathCollision) (destination : LocalPath) (files transferred : ℕ)
  deriving DecidableEq

/-- The plan of a dry run. -/
def DownloadState.plan (state : DownloadState) : TreePlan where
  files := state.plannedFiles
  directories := state.directories
  bytesToTransfer := state.plannedBytes
  skipped := state.skipped
  potentialCollisions := state.collisions
  undetermined :=
    [.destinationComparison, .destinationFilesystemRules, .perFileTransferDecisions] ++
      if state.sizesUnreported = 0 then [] else [.unreportedSizes]

/-- The result of a download. -/
def DownloadState.result (state : DownloadState) : TreeResult where
  files := state.moved.length
  directories := state.directories
  transferred := state.moved.sum
  skipped := state.skipped

section Calls

variable (server : TreeServer) (turns : ℕ) (platform : Platform) (options : TreeOptions)

/-- Refuse a platform without local input and output at offsets. -/
def requireLocalIo {σ : Type} (operation : String) : Program σ DownloadError Unit :=
  if platform.windows then throw (.notImplemented operation) else pure ()

/-- A visit of a download that has done nothing, in a session that may have asked for the default
directory before. -/
def startTree (known : Option Bytes) (disk : LocalDisk) (schedule : List (List WorkerAct)) :
    Visit DownloadState :=
  .fresh known
    (.fresh disk (if options.dryRun then .folded .empty else .destination .empty) schedule)

/-- Make the destination, unless this is a dry run. -/
def makeDestination (dryRun : Bool) (destination : LocalPath) : DownloadProgram Unit :=
  doIf (!dryRun) ((ensureParents platform destination.reverse).raising LocalError.raised)

/-- Walk a remote tree and settle everything in it, while the workers transfer the files. -/
def transferTree (destination : LocalPath) (root : Bytes) : Traversal DownloadState Unit :=
  tryCatch
    (do
      walkHolding server turns options.maxDepth (settleVisited platform options destination) root
      onHeld (finishWorkers platform options false))
    fun error => do
      onHeld (windDown platform options false)
      throw error

/-- What `get_tree` does, up to what it returns. -/
def downloadTree (destination : LocalPath) (root : Bytes) : Traversal DownloadState Unit := do
  onHeld (makeDestination platform options.dryRun destination)
  transferTree server turns platform options destination root
  doIf (!options.dryRun) (onHeld (applyMetadata platform))

/-- Download a remote tree into a local directory, or say what that would do. -/
def getTree (root : Bytes) (destination : LocalPath) :
    Program (Visit DownloadState) DownloadError TreeReport := do
  requireLocalIo platform "get_tree()"
  (downloadTree server turns platform options destination root).raising .raised
  let state := (← MonadState.get).held
  if options.dryRun then pure (.planned state.plan)
  else if state.collisions = [] then pure (.finished state.result)
  else
    throw (.collided state.collisions destination state.result.files state.result.transferred)

end Calls

end GantrySftp
