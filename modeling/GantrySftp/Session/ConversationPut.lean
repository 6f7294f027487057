import GantrySftp.Session.Conversation

/-!
# Uploads against any replies

The verification ladder and `put`, request by request, with nothing assumed of the server's
replies. The WRITEs of a transfer, a second transfer, digests of the local file and the journal
are work on this side, with any outcome.
-/

namespace GantrySftp

open Library

namespace Talk

variable (line : Line)

/-! ## Checks -/

/-- Ask for the digests of a range through an open handle. Nothing means that the server did not
compute them. -/
def askDigests (handle : Handle) (start length : ℕ) : Talk (Option (Bytes × List Bytes)) :=
  tryCatch (some <$> checkFile line handle checkFileAlgorithms start length checkFileBlockSize)
    fun failure => if failure.isServerError then pure none else throw failure

/-- Whether the server's digests of a range match the local file's. Nothing means that the
question could not be asked. -/
def hashesAgree (path : Bytes) (start length : ℕ) : Talk (Option Bool) := do
  if ← refuses extensionCheckFile then pure none
  else if length = 0 then pure (some true)
  else
    let handle ← openPatiently line path .read none
    match ← finally_ (askDigests line handle start length) (closeQuietly line handle) with
    | none => pure none
    | some _ => work line.compared

/-- Whether a range read back from the server is the same in the local file. -/
def rereadAgrees (path : Bytes) (length : ℕ) : Talk Bool := do
  if length = 0 then pure true
  else
    let handle ← openPatiently line path .read none
    finally_ (work line.reread) (closeQuietly line handle)

/-- Compare the prefix a resume adopts, at the rung asked for; the server's digests are asked for
where none is. -/
def prefixAgrees (path : Bytes) (adopted : ℕ) : Verify → Talk (Option Bool)
  | .reread => some <$> rereadAgrees line path adopted
  | _ => hashesAgree line path 0 adopted

/-- Gate the prefix a resume adopts. -/
def gateResume (path : Bytes) (adopted : ℕ) (verify : Verify) : Talk ResumeCheck := do
  if adopted = 0 then pure .skipped
  else
    match ← prefixAgrees line path adopted verify with
    | none => pure .unavailable
    | some false => throw (.transferError (.notAPrefix adopted) 0 (some adopted))
    | some true => pure .matched

/-- Check the whole content at the rung asked for. -/
def verifyContent (path : Bytes) (expected : ℕ) : Verify → Talk ContentCheck
  | .size => pure .skipped
  | .hash => do
    match ← hashesAgree line path 0 expected with
    | none => pure .unavailable
    | some false => throw (.transferError (.contentDiffers expected) expected (some 0))
    | some true => pure .hashed
  | .reread => do
    if ← rereadAgrees line path expected then pure .reread
    else throw (.transferError (.contentDiffers expected) expected (some 0))

/-- Compare the remote size with the local one, where the server reports it. -/
def confirmSize (path : Bytes) (expected : ℕ) : Talk SizeCheck := do
  let size ← tryCatch (Attrs.sizeNat <$> stat line path) fun failure =>
    if failure.isServerError then pure none else throw failure
  match size with
  | none => pure .unavailable
  | some size =>
    if size ≠ expected then throw (.transferError (.sizeDiffers expected size) size (some size))
    else pure .matched

/-- The length of the local file. -/
def localLength : Talk ℕ := work fun deeds => .ok (line.localSize deeds)

/-- The checks that follow once a file was filled. -/
def checkFilled (upload : Upload) (path : Bytes) : Talk (SizeCheck × ContentCheck) := do
  let expected ← localLength line
  let sizeCheck ← confirmSize line path expected
  let contentCheck ← verifyContent line path expected upload.verify
  pure (sizeCheck, contentCheck)

/-! ## Filling -/

/-- The attributes of a path, or nothing if it is reported missing. -/
def statIfThere (path : Bytes) : Talk (Option Attrs) :=
  tryCatch (some <$> stat line path) fun failure =>
    if failure.isNoSuchFile then pure none else throw failure

/-- Where an upload starts: at the beginning, or where a previous one stopped. -/
def uploadResumeOffset (upload : Upload) (path : Bytes) : Talk ℕ := do
  if upload.resume then
    let localSize ← localLength line
    match ← statIfThere line path with
    | none => pure 0
    | some attrs => orRaise (uploadOffset localSize attrs.sizeNat)
  else pure 0

/-- Set the permissions of the uploaded file, where asked to. -/
def setMode (handle : Handle) (path : Bytes) : Option ℤ → Talk Unit
  | none => pure ()
  | some mode => fchmod line handle mode (some path)

/-- Carry times across to an open file, saying whether the server took them. -/
def carryTimes (handle : Handle) (times : Times) : Talk TimePreservation :=
  tryCatch (do futime line handle times; pure .preserved) fun failure =>
    if failure.isServerError then pure .unavailable else throw failure

/-- Carry the local file's times across, where asked to. -/
def setTimes (upload : Upload) (handle : Handle) : Talk TimePreservation := do
  if upload.preserveTimes then
    let times ← work line.localTimes
    carryTimes line handle times
  else pure .skipped

/-- Try to flush an open file. Nothing means that this was refused, and may be. -/
def tryFlush (upload : Upload) (handle : Handle) : Talk (Option Bool) :=
  tryCatch (some <$> fsyncIfSupported line handle) fun failure =>
    if failure.isServerError ∧ ¬ upload.requireFsync then pure none else throw failure

/-- Flush the uploaded file, where asked to. -/
def flush (upload : Upload) (handle : Handle) : Talk Durability := do
  if upload.fsync then
    match ← tryFlush line upload handle with
    | none => pure .unavailable
    | some true => pure .fsynced
    | some false => if upload.requireFsync then throw notDurable else pure .unavailable
  else pure .skipped

/-- Find out before the transfer whether the server flushes. -/
def probeDurability (handle : Handle) : Talk Unit := do
  if line.supports extensionFsync then pure ()
  else if ← fsyncIfSupported line handle then pure ()
  else throw notDurable

/-- Find out whether the server flushes, where that is required. -/
def requireFlush (upload : Upload) (handle : Handle) : Talk Unit :=
  if upload.requireFsync then probeDurability line handle else pure ()

/-- Transfer the local file and settle the remote file's permissions, times and durability. -/
def fill (upload : Upload) (handle : Handle) (path : Bytes) : Talk Filled := do
  let transferred ← work line.transfer
  setMode line handle path upload.mode
  let times ← setTimes line upload handle
  let durability ← flush line upload handle
  pure (transferred, durability, times)

/-- Fill an open file and close it, whatever comes of the filling. -/
def fillAndClose (upload : Upload) (handle : Handle) (path : Bytes) : Talk Filled := do
  let filled ← tryCatch (fill line upload handle path) fun failure => do
    closeQuietly line handle
    throw failure
  close line handle
  pure filled

/-! ## In place -/

/-- Upload into the target itself. -/
def putInPlace (upload : Upload) (target : Bytes) : Talk UploadResult := do
  let start ← uploadResumeOffset line upload target
  let resumeCheck ← gateResume line target start upload.verify
  let handle ← openPatiently line target (if upload.resume then .resume else .truncate)
    (createBits upload.mode)
  setMode line handle target (createBits upload.mode)
  let filled ← fillAndClose line upload handle target
  let checks ← checkFilled line upload target
  pure (uploadResult upload target filled checks resumeCheck .inPlace none)

/-! ## Publishing -/

/-- Whether a path is confirmed to be there. -/
def confirmedPresent (path : Bytes) : Talk Bool :=
  tryCatch (do let _ ← lstat line path; pure true) fun failure =>
    if failure.isServerError then pure false else throw failure

/-- Refuse what could not be published atomically. -/
def refuseUnpublishable (target : Bytes) : Talk Unit := do
  if ← confirmedPresent line target then throw notAtomic else pure ()

/-- Refuse at the start an atomic publish that the server does not offer. -/
def requirePublishable (target : Bytes) (requireAtomic : Bool) : Talk Unit :=
  if requireAtomic ∧ ¬ line.supports extensionPosixRename then refuseUnpublishable line target
  else pure ()

/-- Remove the target. Unless that was refused, the staging file may now be the only copy. -/
def removeTarget (target : Bytes) : Talk Unit :=
  tryCatch (remove line target) fun failure =>
    if failure.isServerError then throw failure else throw (.stagedIsTheOnlyCopy failure false)

/-- Rename the staging file onto the removed target. It is the only copy if that fails. -/
def renameOntoRemoved (staged target : Bytes) : Talk Unit :=
  tryCatch (rename line staged target) fun failure => throw (.stagedIsTheOnlyCopy failure true)

/-- Make way for the staging file by removing the target. -/
def replaceTarget (staged target : Bytes) (requireAtomic : Bool) : Talk PublishMechanism :=
  if requireAtomic then throw notAtomic
  else do
    removeTarget line target
    renameOntoRemoved line staged target
    pure .removeRename

/-- What follows a plain rename that failed: a refusal may be because the target is there. -/
def afterRenameFailure (staged target : Bytes) (requireAtomic : Bool) (failure : Failure) :
    Talk PublishMechanism :=
  if failure.isServerError then do
    if ← confirmedPresent line target then replaceTarget line staged target requireAtomic
    else throw failure
  else throw failure

/-- The outcome of a plain rename. -/
def renamed (staged target : Bytes) : Talk (Except Failure Unit) :=
  tryCatch (Except.ok <$> rename line staged target) fun failure => pure (.error failure)

/-- Publish by a plain rename. -/
def publishByPlainRename (staged target : Bytes) (requireAtomic : Bool) :
    Talk PublishMechanism := do
  match ← renamed line staged target with
  | .ok () => pure .rename
  | .error failure => afterRenameFailure line staged target requireAtomic failure

/-- Rename the staging file over the target, as the server lets us. -/
def publish (staged target : Bytes) (requireAtomic : Bool) : Talk PublishMechanism := do
  if ← posixRenameIfSupported line staged target then pure .posixRename
  else publishByPlainRename line staged target requireAtomic

/-- Remove the staging file of an upload that failed. What this raises is only noted. -/
def discard (staged : Bytes) : Talk Unit :=
  tryCatch (remove line staged) fun failure =>
    if failure.isException then pure () else throw failure

/-- Make a record in the journal, where there is one. -/
def record (journal : Bool) : Talk Unit := if journal then work line.journal else pure ()

/-- Fill the open staging file, check it, and publish it. -/
def fillAndPublish (upload : Upload) (target staged : Bytes) (requireAtomic : Bool)
    (handle : Handle) (resumeCheck : ResumeCheck) : Talk UploadResult := do
  requireFlush line upload handle
  let filled ← fillAndClose line upload handle staged
  let checks ← checkFilled line upload staged
  let mechanism ← publish line staged target requireAtomic
  pure (uploadResult upload target filled checks resumeCheck mechanism (some staged))

/-- What follows a failure once the staging file is open: it is discarded and struck off the
journal, unless it may be the only copy. -/
def cleanUp (journal : Bool) (staged : Bytes) : Failure → Talk UploadResult
  | .stagedIsTheOnlyCopy failure _ => throw failure
  | failure => do
    discard line staged
    record line journal
    throw failure

/-- Upload into a staging file and publish it as the target. -/
def putAtomically (upload : Upload) (target staged : Bytes) (requireAtomic journal : Bool) :
    Talk UploadResult := do
  requirePublishable line target requireAtomic
  record line journal
  let start ← uploadResumeOffset line upload staged
  let resumeCheck ← gateResume line staged start upload.verify
  let handle ← openPatiently line staged (if upload.resume then .resume else .stage)
    (createBits upload.mode)
  let result ← tryCatch
    (fillAndPublish line upload target staged requireAtomic handle resumeCheck)
    (cleanUp line journal staged)
  record line journal
  pure result

/-! ## Uploads -/

/-- The permission bits an upload ends up with. -/
def uploadMode : Option Mode → Talk (Option ℤ)
  | none => pure none
  | some (.exactly bits) => pure (some bits)
  | some .preserve => some <$> work line.localMode

/-- The staging path to continue at: only a journal knows one, and only without a name given. -/
def resumeTarget (options : PutOptions) : Talk (Option Bytes) :=
  if options.publish.journal ∧ options.resume ∧ options.publish.stagingName = none then
    work line.continuing
  else pure none

/-- The server's default directory, asked for once. -/
def defaultDirectory : Talk Bytes := do
  match (← MonadState.get).root with
  | some root => pure root
  | none => do
    let root ← realpath line ".".toUTF8.toList
    modify fun conversation => { conversation with root := some root }
    pure root

/-- Refuse a relative path on a server whose default directory is not rooted. -/
def requireRootedPaths (path : Bytes) (feature : String) : Talk Unit := do
  if path.head? = some GantrySftp.slash then pure ()
  else
    let root ← defaultDirectory line
    if root.head? = some GantrySftp.slash then pure () else throw (.capabilityError feature [])

/-- Check that a staging path can be built from the target's, where it is. -/
def requireStaging (target : Bytes) (options : PutOptions) : Talk Unit :=
  if buildsStagingPath options then requireRootedPaths line target "atomic publish" else pure ()

/-- The staging path of a previous upload or a new one. -/
def chooseStaged (target token : Bytes) (options : PutOptions) : Talk Bytes := do
  match ← resumeTarget line options with
  | some staged => pure staged
  | none => orRaise (stagedPath target token options.publish.stagingName)

/-- Upload in place, or into the staging path of a previous upload or a new one. -/
def publishUpload (upload : Upload) (target token : Bytes) (options : PutOptions) :
    Talk UploadResult := do
  if options.publish.atomic then
    requireStaging line target options
    let staged ← chooseStaged line target token options
    putAtomically line upload target staged options.publish.requireAtomic
      options.publish.journal
  else putInPlace line upload target

/-- Upload the local file. The token makes the name of a new staging file. -/
def put (localStat : LocalStat) (target token : Bytes) (options : PutOptions) :
    Talk UploadResult := do
  orRaise (checkPublishFlags options)
  if options.publish.requireFsync ∧ (← refuses extensionFsync) then throw notDurable
  else
    let mode ← uploadMode line options.mode
    publishUpload line (uploadOf localStat options mode) target token options

end Talk

end GantrySftp
