import GantrySftp.Session.Upload
import GantrySftp.Session.Verify

/-!
# Uploading a file

An atomic upload writes a staging file and renames it over the target, in one step where the
server can, else by a plain rename, and where the target is in the way by removing it first. A
failure removes the staging file, except once the target may be gone. With a journal the staging
path is recorded before the file is opened, and struck off when it was published or discarded.
-/

namespace GantrySftp

open Library

/-- How the file was put where it belongs. -/
inductive PublishMechanism
  | posixRename | rename | removeRename | inPlace
  deriving DecidableEq

/-- Whether the bytes were flushed to stable storage. -/
inductive Durability
  | fsynced | unavailable | skipped
  deriving DecidableEq

/-- How an upload is published. -/
structure Publish where
  atomic : Bool := true
  fsync : Bool := true
  requireAtomic : Bool := false
  requireFsync : Bool := false
  stagingName : Option Bytes := none
  journal : Bool := false
  deriving DecidableEq

/-- What a caller of `put` chooses. -/
structure PutOptions where
  publish : Publish := {}
  resume : Bool := false
  preserveTimes : Bool := false
  mode : Option Mode := none
  verify : Verify := .size
  depth : Option ℕ := none
  deriving DecidableEq

/-- A local file by its path, with what `stat` says of it besides its length. -/
structure LocalStat where
  path : Bytes
  times : Times
  mode : ℤ
  deriving DecidableEq

/-- Everything about an upload that is not about publishing it. -/
structure Upload where
  localStat : LocalStat
  fsync : Bool
  requireFsync : Bool
  depth : Option ℕ
  resume : Bool
  preserveTimes : Bool
  verify : Verify
  mode : Option ℤ

/-- What one `put` did. -/
structure UploadResult where
  transferred : ℕ
  remotePath : Bytes
  mechanism : PublishMechanism
  durability : Durability
  sizeCheck : SizeCheck
  times : TimePreservation
  contentCheck : ContentCheck
  resumeCheck : ResumeCheck
  stagedAt : Option Bytes
  mode : Option ℤ
  deriving DecidableEq

/-! ## Paths and options -/

/-- The separator of remote paths. -/
def slash : UInt8 := 0x2F

/-- A path up to its last separator, and the name behind it. -/
def splitParent (path : Bytes) : Bytes × Bytes :=
  let name := (path.reverse.takeWhile (· ≠ slash)).reverse
  (path.take (path.length - name.length), name)

/-- The longest name that common filesystems hold. -/
def maxStagedNameLength : ℕ := 255

/-- The staging path for a target: the name given, beside the target unless it has a separator
of its own, or a hidden name made of the target's and a random token. -/
def stagedPath (target token : Bytes) (name : Option Bytes) : Except Failure Bytes :=
  let split := splitParent target
  if split.2 = [] then .error (.valueError "remote path has no filename to publish")
  else
    match name with
    | some name => .ok (if slash ∈ name then name else split.1 ++ name)
    | none =>
      let suffix := ".".toUTF8.toList ++ token ++ ".part".toUTF8.toList
      let overhead := 1 + suffix.length
      .ok (split.1 ++ ".".toUTF8.toList ++ split.2.take (maxStagedNameLength - overhead) ++ suffix)

/-- Refuse publishing options that contradict each other. -/
def checkPublishFlags (options : PutOptions) : Except Failure Unit :=
  let policy := options.publish
  if policy.requireAtomic ∧ ¬ policy.atomic then
    .error (.valueError "require_atomic=True contradicts atomic=False")
  else if policy.requireFsync ∧ ¬ policy.fsync then
    .error (.valueError "require_fsync=True contradicts fsync=False")
  else if options.resume ∧ policy.atomic ∧ policy.stagingName = none ∧ ¬ policy.journal then
    .error (.valueError "resume=True needs journal= or staging_name= when atomic=True")
  else .ok ()

/-- The permission bits a file is created with: the lowest nine. -/
def createBits (mode : Option ℤ) : Option ℤ := mode.map fun bits => bits % 0o1000

/-- Identify a local file as it stands; one that is not there has no size. -/
def sourceIdentity (localStat : LocalStat) (localFile : Option Bytes) : SourceIdentity :=
  match localFile with
  | none => { path := decodeName localStat.path, size := 0, mtime := 0 }
  | some content =>
    { path := decodeName localStat.path, size := content.length, mtime := localStat.times.mtime }

/-- Where a resumed upload continues from: the remote size, which the local file must reach. -/
def uploadOffset (localSize : ℕ) (size : Option ℕ) : Except Failure ℕ :=
  match size with
  | none => .error (.transferError .noResumeSize 0 none)
  | some size =>
    if localSize < size then
      .error (.transferError (.partialTooLong size localSize) 0 (some size))
    else .ok size

variable (connection : Connection)

/-! ## Filling -/

/-- The permission bits an upload ends up with. -/
def uploadMode (localStat : LocalStat) : Option Mode → Session (Option ℤ)
  | none => pure none
  | some (.exactly bits) => pure (some bits)
  | some .preserve => do
    if (← MonadState.get).localFile.isSome then
      pure (some (maskedMode localStat.mode))
    else throw .osError

/-- The attributes of a path, or nothing if it is reported missing. -/
def statIfThere (path : Bytes) : Session (Option Attrs) :=
  tryCatch (do let attrs ← stat connection path; pure (some attrs)) fun failure =>
    if failure.isNoSuchFile then pure none else throw failure

/-- Where an upload starts: at the beginning, or where a previous one stopped. -/
def uploadResumeOffset (upload : Upload) (path : Bytes) : Session ℕ := do
  if upload.resume then
    match ← statIfThere connection path with
    | none => pure 0
    | some attrs => orThrow (uploadOffset (localSize (← MonadState.get).localFile) attrs.sizeNat)
  else pure 0

/-- Open a file for writing. -/
def openForUpload (path : Bytes) (pflags : OpenFlag) (mode : Option ℤ) : Session Handle :=
  withTransientRetry connection.profile (openFile connection path pflags mode)
    (transientAttempts - 1)

/-- Set the permissions of the uploaded file, where asked to. -/
def setMode (handle : Handle) (path : Bytes) : Option ℤ → Session Unit
  | none => pure ()
  | some mode => fchmod connection handle mode (some path)

/-- Carry the local file's times across, where asked to. -/
def setTimes (upload : Upload) (handle : Handle) : Session TimePreservation := do
  if upload.preserveTimes then
    if (← MonadState.get).localFile.isSome then
      tryCatch (do futime connection handle upload.localStat.times; pure .preserved) fun failure =>
        if failure.isServerError then pure .unavailable else throw failure
    else throw .osError
  else pure .skipped

/-- The refusal of a durable upload on a server that does not flush. -/
def notDurable : Failure := .capabilityError "durable upload" ["fsync@openssh.com"]

/-- Flush the uploaded file, where asked to. -/
def flush (upload : Upload) (handle : Handle) : Session Durability := do
  if upload.fsync then
    let flushed ← tryCatch (some <$> fsyncIfSupported connection handle) fun failure =>
      if failure.isServerError ∧ ¬ upload.requireFsync then pure none else throw failure
    match flushed with
    | none => pure .unavailable
    | some true => pure .fsynced
    | some false => if upload.requireFsync then throw notDurable else pure .unavailable
  else pure .skipped

/-- Find out before the transfer whether the server flushes. -/
def probeDurability (handle : Handle) : Session Unit := do
  if connection.supports .fsync then pure ()
  else if ← fsyncIfSupported connection handle then pure ()
  else throw notDurable

/-- What filling a file did. -/
abbrev Filled := ℕ × Durability × TimePreservation

/-- Transfer the local file and settle the remote file's permissions, times and durability. -/
def fill (upload : Upload) (handle : Handle) (path : Bytes) (startOffset : ℕ) :
    Session Filled := do
  let transferred ← uploadFrom connection handle upload.depth startOffset
  setMode connection handle path upload.mode
  let times ← setTimes connection upload handle
  let durability ← flush connection upload handle
  pure (transferred, durability, times)

/-- Fill an open file and close it, whatever comes of the filling. -/
def fillAndClose (upload : Upload) (handle : Handle) (path : Bytes) (startOffset : ℕ) :
    Session Filled := do
  let filled ← tryCatch (fill connection upload handle path startOffset) fun failure => do
    closeQuietly connection handle
    throw failure
  close connection handle
  pure filled

/-- Compare the remote size with the local one, where the server reports it. -/
def confirmSize (path : Bytes) (expected : ℕ) : Session SizeCheck := do
  let size ← tryCatch (Attrs.sizeNat <$> stat connection path) fun failure =>
    if failure.isServerError then pure none else throw failure
  match size with
  | none => pure .unavailable
  | some size =>
    if size ≠ expected then throw (.transferError (.sizeDiffers expected size) size (some size))
    else pure .matched

/-- The checks that follow once a file was filled. -/
def checkFilled (upload : Upload) (path : Bytes) : Session (SizeCheck × ContentCheck) := do
  let expected := localSize (← MonadState.get).localFile
  let sizeCheck ← confirmSize connection path expected
  let contentCheck ← verifyContent connection path expected upload.verify
  pure (sizeCheck, contentCheck)

/-- What an upload reports. -/
def uploadResult (upload : Upload) (target : Bytes) (filled : Filled)
    (checks : SizeCheck × ContentCheck) (resumeCheck : ResumeCheck)
    (mechanism : PublishMechanism) (stagedAt : Option Bytes) : UploadResult where
  transferred := filled.1
  remotePath := target
  mechanism := mechanism
  durability := filled.2.1
  sizeCheck := checks.1
  times := filled.2.2
  contentCheck := checks.2
  resumeCheck := resumeCheck
  stagedAt := stagedAt
  mode := upload.mode

/-! ## In place -/

/-- Upload into the target itself. -/
def putInPlace (upload : Upload) (target : Bytes) : Session UploadResult := do
  let start ← uploadResumeOffset connection upload target
  let resumeCheck ← gateResume connection target start upload.verify
  let handle ← openForUpload connection target (if upload.resume then .resume else .truncate)
    (createBits upload.mode)
  setMode connection handle target (createBits upload.mode)
  let filled ← fillAndClose connection upload handle target start
  let checks ← checkFilled connection upload target
  pure (uploadResult upload target filled checks resumeCheck .inPlace none)

/-! ## Publishing -/

/-- Whether a path is confirmed to be there. -/
def confirmedPresent (path : Bytes) : Session Bool :=
  tryCatch (do let _ ← lstat connection path; pure true) fun failure =>
    if failure.isServerError then pure false else throw failure

/-- The refusal of an atomic publish over a target that is there. -/
def notAtomic : Failure := .capabilityError "atomic publish" ["posix-rename@openssh.com"]

/-- Refuse at the start what could not be published atomically. -/
def refuseUnpublishable (target : Bytes) : Session Unit := do
  if ← confirmedPresent connection target then throw notAtomic else pure ()

/-- Remove the target. Unless that was refused, the staging file may now be the only copy. -/
def removeTarget (target : Bytes) : Session Unit :=
  tryCatch (remove connection target) fun failure =>
    if failure.isServerError then throw failure else throw (.stagedIsTheOnlyCopy failure false)

/-- Rename the staging file onto the removed target. It is the only copy if that fails. -/
def renameOntoRemoved (staged target : Bytes) : Session Unit :=
  tryCatch (rename connection staged target) fun failure =>
    throw (.stagedIsTheOnlyCopy failure true)

/-- Make way for the staging file by removing the target. -/
def replaceTarget (staged target : Bytes) (requireAtomic : Bool) : Session PublishMechanism :=
  if requireAtomic then throw notAtomic
  else do
    removeTarget connection target
    renameOntoRemoved connection staged target
    pure .removeRename

/-- What follows a plain rename that failed: a refusal may be because the target is there. -/
def afterRenameFailure (staged target : Bytes) (requireAtomic : Bool) (failure : Failure) :
    Session PublishMechanism :=
  if failure.isServerError then do
    if ← confirmedPresent connection target then
      replaceTarget connection staged target requireAtomic
    else throw failure
  else throw failure

/-- Publish by a plain rename. -/
def publishByPlainRename (staged target : Bytes) (requireAtomic : Bool) :
    Session PublishMechanism := do
  match ← attempt (rename connection staged target) with
  | .ok () => pure .rename
  | .error failure => afterRenameFailure connection staged target requireAtomic failure

/-- Rename the staging file over the target, as the server lets us. -/
def publish (staged target : Bytes) (requireAtomic : Bool) : Session PublishMechanism := do
  if ← posixRenameIfSupported connection staged target then pure .posixRename
  else publishByPlainRename connection staged target requireAtomic

/-- Remove the staging file of an upload that failed. What this raises is only noted. -/
def discard (staged : Bytes) : Session Unit :=
  tryCatch (remove connection staged) fun failure =>
    if failure.isException then pure () else throw failure

/-- Record that a staging file is about to be written. -/
def recordStaging (journal : Bool) (staged target : Bytes) (source : SourceIdentity) :
    Session Unit :=
  if journal then appendRecord (stagedLine (entryOf staged target source)) else pure ()

/-- Record that nothing is in flight for a target any more. -/
def recordPublished (journal : Bool) (target : Bytes) : Session Unit :=
  if journal then appendRecord (publishedLine target) else pure ()

/-- Fill the open staging file, check it, and publish it. -/
def fillAndPublish (upload : Upload) (target staged : Bytes) (requireAtomic : Bool)
    (handle : Handle) (start : ℕ) (resumeCheck : ResumeCheck) : Session UploadResult := do
  if upload.requireFsync then probeDurability connection handle else pure ()
  let filled ← fillAndClose connection upload handle staged start
  let checks ← checkFilled connection upload staged
  let mechanism ← publish connection staged target requireAtomic
  pure (uploadResult upload target filled checks resumeCheck mechanism (some staged))

/-- What follows a failure once the staging file is open: it is discarded and struck off the
journal, unless it may be the only copy. -/
def cleanUp (journal : Bool) (target staged : Bytes) : Failure → Session UploadResult
  | .stagedIsTheOnlyCopy failure _ => throw failure
  | failure => do
    discard connection staged
    recordPublished journal target
    throw failure

/-- Upload into a staging file and publish it as the target. -/
def putAtomically (upload : Upload) (target staged : Bytes) (requireAtomic journal : Bool)
    (source : SourceIdentity) : Session UploadResult := do
  if requireAtomic ∧ ¬ connection.supports .posixRename then
    refuseUnpublishable connection target
  else pure ()
  recordStaging journal staged target source
  let start ← uploadResumeOffset connection upload staged
  let resumeCheck ← gateResume connection staged start upload.verify
  let handle ← openForUpload connection staged (if upload.resume then .resume else .stage)
    (createBits upload.mode)
  let result ← tryCatch
    (fillAndPublish connection upload target staged requireAtomic handle start resumeCheck)
    (cleanUp connection journal target staged)
  recordPublished journal target
  pure result

/-! ## Uploads -/

/-- What a journal error is raised as. -/
def JournalError.failure : JournalError → Failure
  | .valueError => .valueError "Exceeds the limit (4300 digits) for integer string conversion"
  | .unicodeEncodeError => .unicodeError

/-- The staging path that the journal offers for a target. -/
def journalStagedFor (target : Bytes) (source : SourceIdentity) : Session (Option Bytes) :=
  .of fun world =>
    let found := stagedFor world.journal target source world.folded
    (found.2.mapError JournalError.failure, { world with folded := found.1 })

/-- The staging path to continue at: only a journal knows one, and only without a name given. -/
def resumeTarget (options : PutOptions) (target : Bytes) (source : SourceIdentity) :
    Session (Option Bytes) :=
  if options.publish.journal ∧ options.resume ∧ options.publish.stagingName = none then
    journalStagedFor target source
  else pure none

/-- The server's default directory, asked for once. -/
def defaultDirectory : Session Bytes := do
  match (← MonadState.get).root with
  | some root => pure root
  | none => do
    let root ← realpath connection ".".toUTF8.toList
    modify fun world => { world with root := some root }
    pure root

/-- Refuse a relative path on a server whose default directory is not rooted. -/
def requireRootedPaths (path : Bytes) (feature : String) : Session Unit := do
  if path.head? = some slash then pure ()
  else
    let root ← defaultDirectory connection
    if root.head? = some slash then pure () else throw (.capabilityError feature [])

/-- Whether a staging path is built from the target's. -/
def buildsStagingPath (options : PutOptions) : Bool :=
  match options.publish.stagingName with
  | none => true
  | some name => slash ∉ name

/-- Upload in place, or into the staging path of a previous upload or a new one. -/
def publishUpload (upload : Upload) (target token : Bytes) (options : PutOptions) :
    Session UploadResult := do
  if options.publish.atomic then
    if buildsStagingPath options then requireRootedPaths connection target "atomic publish"
    else pure ()
    let source := sourceIdentity upload.localStat (← MonadState.get).localFile
    let continuing ← resumeTarget options target source
    let staged ← match continuing with
      | some staged => pure staged
      | none => orThrow (stagedPath target token options.publish.stagingName)
    putAtomically connection upload target staged options.publish.requireAtomic
      options.publish.journal source
  else putInPlace connection upload target

/-- The upload that a `put` makes, once the permission bits are known. -/
def uploadOf (localStat : LocalStat) (options : PutOptions) (mode : Option ℤ) : Upload where
  localStat := localStat
  fsync := options.publish.fsync
  requireFsync := options.publish.requireFsync
  depth := options.depth
  resume := options.resume
  preserveTimes := options.preserveTimes
  verify := options.verify
  mode := mode

/-- Upload the local file. The token makes the name of a new staging file. -/
def put (localStat : LocalStat) (target token : Bytes) (options : PutOptions) :
    Session UploadResult := do
  orThrow (checkPublishFlags options)
  if options.publish.requireFsync ∧ (← refuses .fsync) then throw notDurable
  else
    let mode ← uploadMode localStat options.mode
    publishUpload connection (uploadOf localStat options mode) target token options

end GantrySftp
