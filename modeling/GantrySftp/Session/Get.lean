import GantrySftp.Session.Verify

/-!
# Downloading a file

A download asks for the size, takes the length of the local file as the offset to resume from,
gates what it adopts, and reads the rest into the local file. The local file is emptied only
when the download starts at its first byte, and is left as it is when the download fails.
-/

namespace GantrySftp

open Library

/-- What a caller of `get` chooses. -/
structure GetOptions where
  depth : Option ℕ := none
  resume : Bool := false
  verifySize : Bool := true
  verify : Verify := .size
  preserveTimes : Bool := false
  mode : Option Mode := none
  deriving DecidableEq

/-- What one `get` did. -/
structure DownloadResult where
  transferred : ℕ
  sizeCheck : SizeCheck
  times : TimePreservation
  contentCheck : ContentCheck
  resumeCheck : ResumeCheck
  adopted : ℕ
  mode : Option ℤ
  deriving DecidableEq

/-- Where a resumed download continues from: the local file's length, which the remote file must
reach. -/
def downloadResumeOffset (localFile : Option Bytes) (size : Option ℕ) : Except Failure ℕ :=
  match size with
  | none => .error (.transferError .noResumeSize 0 none)
  | some size =>
    if size < localSize localFile then
      .error (.transferError (.partialTooLong (localSize localFile) size) 0
        (some (localSize localFile)))
    else .ok (localSize localFile)

/-- The permission bits a download ends up with. -/
def downloadMode (mode : Option Mode) (attrs : Attrs) : Except Failure (Option ℤ) :=
  match mode with
  | none => .ok none
  | some (.exactly bits) => .ok (some bits)
  | some .preserve =>
    match attrs.permissions with
    | none => .error (.transferError .noPermissions 0 (some 0))
    | some permissions => .ok (some (maskedMode permissions))

/-- Whether the times asked for are there to preserve. -/
def preservation (asked : Bool) (times : Option Times) : TimePreservation :=
  if asked then if times.isSome then .preserved else .unavailable else .skipped

/-- The content check that a gate over the whole file amounts to. -/
def gateAsContentCheck (resumeCheck : ResumeCheck) : Verify → ContentCheck
  | .size => .skipped
  | .hash => if resumeCheck = .matched then .hashed else .unavailable
  | .reread => if resumeCheck = .matched then .reread else .unavailable

/-- Compare what arrived with the size announced. -/
def confirmDownloadSize (arrived : ℕ) (announced : Option ℕ) (asked : Bool) :
    Except Failure SizeCheck :=
  if asked then
    match announced with
    | none => .ok .unavailable
    | some announced =>
      if arrived ≠ announced then
        .error (.transferError (.sizeDiffers announced arrived) arrived (some arrived))
      else .ok .matched
  else .ok .skipped

variable (connection : Connection)

/-- Make a local system call where one was asked for. -/
def systemCallIf (asked : Bool) : Session Unit := if asked then systemCall else pure ()

/-- Change the permissions and times of the local file, where asked to. -/
def stampLocal (mode : Option ℤ) (times : Option Times) : Session Unit := do
  systemCallIf mode.isSome
  systemCallIf times.isSome

/-- Open the local file for writing, emptied unless the download resumes behind what it has. -/
def openLocal (startOffset : ℕ) : Session Unit := do
  systemCall
  modify fun world =>
    { world with
      localFile := some (if startOffset = 0 then [] else world.localFile.getD []) }.record
      (.opened (startOffset = 0))

/-- Fill the local file from an open remote one. -/
def downloadLocal (size : Option ℕ) (depth : Option ℕ) (startOffset : ℕ) : Session ℕ :=
  .of fun world =>
    match world.script with
    | .download replies ending :: script =>
      let done := downloadHandle (DescriptorSink.mk (world.localFile.getD [])) size
        ⟨connection.readLength, depth.getD connection.depth⟩ startOffset replies ending.failure
      (done.2,
        { world with script := script, localFile := some done.1.sink.content }.record
          (.downloaded done.1.answered))
    | _ => (.error .killed, world.kill)

/-- Open the local destination and fill it. A failure leaves it where it is. -/
def downloadInto (size : Option ℕ) (depth : Option ℕ) (startOffset : ℕ) (times : Option Times)
    (mode : Option ℤ) : Session ℕ := do
  openLocal startOffset
  let transferred ← downloadLocal connection size depth startOffset
  stampLocal mode times
  pure transferred

/-- Ask for the attributes and open the file at once. Where only one of the two succeeds the
handle is given back. -/
def statAndOpen (path : Bytes) : Session (Attrs × Handle) := do
  let described ← attempt (stat connection path)
  let opened ← attempt (openForRead connection path)
  match described, opened with
  | .ok attrs, .ok handle => pure (attrs, handle)
  | .error failure, .ok handle => do
    closeQuietly connection handle
    throw failure
  | .error failure, .error _ => throw failure
  | .ok _, .error failure => throw failure

/-- The handle opened before, or one opened now. -/
def openedOr (path : Bytes) : Option Handle → Session Handle
  | some handle => pure handle
  | none => openForRead connection path

/-- The part of a download that follows once there is something to transfer: open the remote
file unless that was done, fill the local file, and check what arrived. -/
def transferFrom (path : Bytes) (options : GetOptions) (attrs : Attrs) (opened : Option Handle)
    (start : ℕ) (mode : Option ℤ) (resumeCheck : ResumeCheck) : Session DownloadResult := do
  let handle ← openedOr connection path opened
  let transferred ← tryCatch
    (downloadInto connection attrs.sizeNat options.depth start
      (if options.preserveTimes then attrs.times else none) mode) fun failure => do
      closeQuietly connection handle
      throw failure
  close connection handle
  let sizeCheck ← orThrow
    (confirmDownloadSize (start + transferred) attrs.sizeNat options.verifySize)
  let contentCheck ← verifyContent connection path (start + transferred) options.verify
  pure
    { transferred := transferred
      sizeCheck := sizeCheck
      times := preservation options.preserveTimes attrs.times
      contentCheck := contentCheck
      resumeCheck := resumeCheck
      adopted := start
      mode := mode }

/-- Change the permissions and times of the local file by its path, where asked to. -/
def stampPath (mode : Option ℤ) (times : Option Times) : Session Unit := do
  if mode.isSome ∨ times.isSome then
    if (← MonadState.get).localFile.isSome then stampLocal mode times else throw .osError
  else pure ()

/-- Finish a resume that found the local file already whole. -/
def alreadyComplete (options : GetOptions) (attrs : Attrs) (adopted : ℕ) (mode : Option ℤ)
    (resumeCheck : ResumeCheck) : Session DownloadResult := do
  stampPath mode (if options.preserveTimes then attrs.times else none)
  pure
    { transferred := 0
      sizeCheck := .matched
      times := preservation options.preserveTimes attrs.times
      contentCheck := gateAsContentCheck resumeCheck options.verify
      resumeCheck := resumeCheck
      adopted := adopted
      mode := mode }

/-- Download a remote file into the local one. -/
def get (path : Bytes) (options : GetOptions) : Session DownloadResult := do
  if options.resume then
    let attrs ← stat connection path
    let mode ← orThrow (downloadMode options.mode attrs)
    let start ← orThrow (downloadResumeOffset (← MonadState.get).localFile attrs.sizeNat)
    let resumeCheck ← gateResume connection path start options.verify
    if attrs.sizeNat = some start then
      alreadyComplete options attrs start mode resumeCheck
    else transferFrom connection path options attrs none start mode resumeCheck
  else
    let (attrs, handle) ← statAndOpen connection path
    let mode ← orThrow (downloadMode options.mode attrs)
    let resumeCheck ← gateResume connection path 0 options.verify
    transferFrom connection path options attrs (some handle) 0 mode resumeCheck

end GantrySftp
