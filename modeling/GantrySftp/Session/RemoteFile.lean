import GantrySftp.Library.MemoryFile
import GantrySftp.Library.Program
import GantrySftp.Session.DownloadExact
import GantrySftp.Session.Handshake
import GantrySftp.Session.WriteRange

/-!
# An open remote file with a cursor

Each call asks the server for what it needs and moves the cursor by what came back. Sizes are asked
for where a call depends on the end of the file. Reads and writes are pipelined, in requests of the
sizes that were negotiated for the handle.
-/

namespace GantrySftp

open Library

/-! ## Transfer sizes -/

/-- The largest payload to ask for, or to send, in one request. -/
def preferredLength : ℤ := 261120

/-- The ceiling on packets of a server that names none. -/
def defaultMaxPacketLength : ℤ := 262144

/-- The shortest request that makes progress. -/
def minimumUsefulLength : ℤ := 1

/-- The ceiling on packets to plan against. -/
def ServerLimits.effectiveMaxPacketLength (limits : ServerLimits) : ℤ :=
  match limits.maxPacketLength with
  | none => defaultMaxPacketLength
  | some length => if length = 0 then defaultMaxPacketLength else length

/-- What a READ costs before any payload. -/
def readRequestOverhead (handleLength : ℕ) : ℤ := 1 + 4 + (4 + handleLength) + 8 + 4

/-- What a WRITE costs before its payload. -/
def writeRequestOverhead (handleLength : ℕ) : ℤ := 1 + 4 + (4 + handleLength) + 8 + 4

/-- Payload bytes for each request, in each direction. A request carries at least one. -/
structure TransferSizes where
  readLength : ℕ
  writeLength : ℕ
  read_pos : 1 ≤ readLength
  write_pos : 1 ≤ writeLength

/-- The largest payload within a budget and a limit, and one at least. -/
def negotiatedLength (budget : ℤ) (limit : Option ℤ) : ℕ :=
  let length := min preferredLength budget
  (max (match limit with
    | none => length
    | some limit => min length limit) minimumUsefulLength).toNat

/-- A payload of at least one byte, and at most as many as preferred. -/
theorem negotiatedLength_bounds (budget : ℤ) (limit : Option ℤ) :
    1 ≤ negotiatedLength budget limit ∧ negotiatedLength budget limit ≤ 261120 := by
  unfold negotiatedLength preferredLength minimumUsefulLength
  cases limit with
  | none => dsimp only; omega
  | some limit => dsimp only; omega

/-- The largest payloads that fit, in each direction. -/
def negotiateTransferSizes (limits : ServerLimits) (handleLength : ℕ) : TransferSizes where
  readLength := negotiatedLength
    (limits.effectiveMaxPacketLength - readRequestOverhead handleLength) limits.maxReadLength
  writeLength := negotiatedLength
    (limits.effectiveMaxPacketLength - writeRequestOverhead handleLength) limits.maxWriteLength
  read_pos := (negotiatedLength_bounds _ _).1
  write_pos := (negotiatedLength_bounds _ _).1

/-- What the transfers of a session go by: what the server said of its limits, and the requests to
have in flight. -/
structure Pipeline where
  limits : ServerLimits
  depth : ℕ

/-- Payload sizes for a handle. -/
def Pipeline.sizesFor (pipeline : Pipeline) (handle : Bytes) : TransferSizes :=
  negotiateTransferSizes pipeline.limits handle.length

/-- How READs through a handle are paced. -/
def Pipeline.reading (pipeline : Pipeline) (handle : Bytes) : Schedule :=
  ⟨(pipeline.sizesFor handle).readLength, pipeline.depth⟩

/-- How WRITEs through a handle are paced. -/
def Pipeline.writing (pipeline : Pipeline) (handle : Bytes) : Schedule :=
  ⟨(pipeline.sizesFor handle).writeLength, pipeline.depth⟩

/-! ## One file object -/

/-- The file object: its handle while it is open, whether it was entered, and the cursor. -/
structure RemoteFile where
  handle : Option Bytes
  entered : Bool
  position : ℕ

/-- The file object, and what the remote file holds. -/
structure Remote where
  file : RemoteFile
  content : Bytes

/-- What a call raises: an error of the session, or the refusal of the language to make a buffer
that long. -/
inductive FileFailure
  | raised (failure : Failure)
  | overflowError
  deriving DecidableEq

/-- What a call returns. -/
inductive Returned
  | position (position : ℕ)
  | bytes (bytes : Bytes)
  | filled (count : ℕ) (buffer : Bytes)
  | written (count : ℕ)
  | attrs (attrs : Attrs)
  | unit

/-- What comes back for the requests of one call: to an FSTAT, to an FSETSTAT, to READs, and what
happens to the two tasks that send WRITEs, with the WRITEs that the server stores. A transfer that
they do not bring to its end is cut short. -/
structure Answers where
  attrs : Except Failure Attrs
  resized : Except Failure Unit
  replies : List (ℕ × Reply)
  tasks : List UploadTasks.Event
  stored : List Placed
  ending : Failure

/-- A file object that was not entered. -/
def RemoteFile.unopened : RemoteFile := ⟨none, false, 0⟩

/-- Programs on a file object. -/
abbrev OnRemote := Program Remote FileFailure

namespace RemoteFile

/-- Enter the file object with what the OPEN brought. It is entered once. -/
def enter (opened : Except Failure Bytes) : OnRemote Unit :=
  .of fun remote =>
    if remote.file.entered then
      (.error (.raised (.stateError
        "this open_file() has already been used; call open_file() again")), remote)
    else
      match opened with
      | .ok handle => (.ok (), { remote with
          file := { remote.file with entered := true, handle := some handle } })
      | .error failure => (.error (.raised failure), { remote with
          file := { remote.file with entered := true } })

/-- The handle, or the error that tells which half of the lifetime this is. -/
def openHandle : OnRemote Bytes :=
  .of fun remote =>
    match remote.file.handle with
    | some handle => (.ok handle, remote)
    | none =>
      (.error (.raised (.stateError
        (if remote.file.entered then
          "this open_file() is closed; its `async with` block has ended"
        else "this open_file() is not open; use it in an `async with` block"))), remote)

/-- Raise a ValueError. -/
def valueError {α : Type} (message : String) : OnRemote α :=
  throw (.raised (.valueError message))

/-- The cursor. -/
def tell : OnRemote ℕ := .of fun remote => (.ok remote.file.position, remote)

/-- Put the cursor somewhere. -/
def moveTo (position : ℕ) : OnRemote Unit :=
  .of fun remote => (.ok (), { remote with file := { remote.file with position := position } })

/-! ## What a session does with a handle -/

section Calls

variable (pipeline : Pipeline) (answers : Answers)

/-- Attributes of the open file. -/
def fstat : OnRemote Attrs := .of fun remote => (answers.attrs.mapError .raised, remote)

/-- Set the length of the open file. A size has to fit eight bytes. -/
def ftruncate (size : ℤ) : OnRemote Unit :=
  if size < 0 then valueError s!"size must not be negative, got {size}"
  else if 256 ^ 8 ≤ size then valueError s!"uint64 out of range: {size}"
  else
    .of fun remote =>
      match answers.resized with
      | .ok () => (.ok (), { remote with content := resize remote.content size.toNat })
      | .error failure => (.error (.raised failure), remote)

/-- Read into a buffer from an offset on. Returns the bytes read, and the buffer. -/
def readintoAt (handle buffer : Bytes) (offset : ℕ) : OnRemote (ℕ × Bytes) :=
  .of fun remote =>
    let done := readRangeInto buffer offset (pipeline.reading handle) answers.replies answers.ending
    ((done.2.map fun filled => (filled, done.1.sink.view)).mapError .raised, remote)

/-- The first length that no buffer can have. -/
def maxBufferLength : ℤ := 2 ^ 63

/-- Read up to so many bytes from an offset on. Nothing is asked for when none are wanted. -/
def readAt (handle : Bytes) (offset : ℕ) (length : ℤ) : OnRemote Bytes :=
  if length < 0 then valueError s!"length must not be negative, got {length}"
  else if length = 0 then pure []
  else if maxBufferLength ≤ length then throw .overflowError
  else do
    let (filled, buffer) ←
      readintoAt pipeline answers handle (List.replicate length.toNat 0) offset
    pure (buffer.take filled)

/-- Write at an offset. Nothing is sent when there is nothing to write. -/
def writeAt (handle : Bytes) (offset : ℕ) (data : Bytes) : OnRemote ℕ :=
  if data = [] then pure 0
  else
    .of fun remote =>
      let done := writeRangeFrom data offset (pipeline.writing handle) answers.tasks answers.ending
      (done.2.mapError .raised, { remote with content := pwriteAll remote.content answers.stored })

/-! ## The calls -/

/-- Where a seek leads. -/
def seekTarget (offset whence : ℤ) : OnRemote ℤ :=
  if whence = 0 then pure offset
  else if whence = 1 then do
    let position ← tell
    pure (position + offset)
  else if whence = 2 then do
    let attrs ← fstat answers
    match attrs.size with
    | none =>
      valueError "the server did not report a size, so SEEK_END has nothing to seek from"
    | some size => pure (size + offset)
  else valueError s!"whence must be os.SEEK_SET, SEEK_CUR or SEEK_END, got {whence}"

/-- Move the cursor and return where it is. -/
def seek (offset whence : ℤ) : OnRemote ℕ := do
  let _ ← openHandle
  let target ← seekTarget answers offset whence
  if target < 0 then
    valueError s!"seek would put the position at {target}, before the start"
  else do
    moveTo target.toNat
    pure target.toNat

/-- The length to read: the one given, or that of the rest of the file. -/
def lengthToRead (length : Option ℤ) : OnRemote ℤ :=
  match length with
  | some length => pure length
  | none => do
    let attrs ← fstat answers
    let position ← tell
    match attrs.size with
    | none =>
      valueError ("the server did not report a size, so read() cannot tell where the file " ++
        "ends; pass a length")
    | some size => pure (max 0 (size - position))

/-- Read from the cursor and move it past what was read. -/
def read (length : Option ℤ) : OnRemote Bytes := do
  let handle ← openHandle
  let length ← lengthToRead answers length
  let position ← tell
  let data ← readAt pipeline answers handle position length
  moveTo (position + data.length)
  pure data

/-- Read into a buffer and move the cursor past what was read. -/
def readinto (buffer : Bytes) : OnRemote (ℕ × Bytes) := do
  let handle ← openHandle
  let position ← tell
  let (filled, view) ← readintoAt pipeline answers handle buffer position
  moveTo (position + filled)
  pure (filled, view)

/-- Write at the cursor and move it past what was written. -/
def write (data : Bytes) : OnRemote ℕ := do
  let handle ← openHandle
  let position ← tell
  let written ← writeAt pipeline answers handle position data
  moveTo (position + written)
  pure written

/-- Attributes of the open file. -/
def stat : OnRemote Attrs := do
  let _ ← openHandle
  fstat answers

/-- Set the length of the file, the cursor's position unless one is given. The cursor stays. -/
def truncate (size : Option ℤ) : OnRemote Unit := do
  let _ ← openHandle
  let position ← tell
  ftruncate answers (size.getD position)

/-- A call, by what it is. -/
def call : FileCall → OnRemote Returned
  | .tell => return .position (← tell)
  | .seek offset whence => return .position (← seek answers offset whence)
  | .read length => return .bytes (← read pipeline answers length)
  | .readinto buffer => do
    let (filled, view) ← readinto pipeline answers buffer
    return .filled filled view
  | .write data => return .written (← write pipeline answers data)
  | .truncate size => do
    truncate answers size
    return .unit
  | .stat => return .attrs (← stat answers)

end Calls

end RemoteFile

/-- One call: what it returned or raised, with where the cursor is after it. -/
def Remote.turn (pipeline : Pipeline) (remote : Remote) (turn : FileCall × Answers) :
    List (Except FileFailure Returned × ℕ) × Remote :=
  let done := (RemoteFile.call pipeline turn.2 turn.1).exec remote
  ([(done.1, done.2.file.position)], done.2)

/-- A remote file that was just opened. -/
def Remote.opened (handle content : Bytes) : Remote := ⟨⟨some handle, true, 0⟩, content⟩

/-- Entering a file object whose OPEN brings a handle opens it, at the start. -/
theorem RemoteFile.exec_enter (handle content : Bytes) :
    (RemoteFile.enter (.ok handle)).exec ⟨.unopened, content⟩ =
      (.ok (), Remote.opened handle content) := rfl

end GantrySftp
