import GantrySftp.Session.World

/-!
# The pipelined upload

One sender keeps many WRITEs in flight, each at its own offset, while the receiver acknowledges
them in whatever order their replies come. The server performs a WRITE at any time between its
sending and its reply, or never. The transfer ends when everything was sent and nothing is
outstanding; a reply that is no acknowledgement ends it with a failure.
-/

namespace GantrySftp

open Library

/-- A WRITE without its reply yet. Whether the server has performed it is not for the sender to
know. -/
structure Sent where
  write : Placed
  performed : Bool

/-- The state of one file's worth of pipelined writes. `performed` records the WRITEs that the
server performed, and is read by nothing. -/
structure Uploader where
  source : Bytes
  schedule : Schedule
  nextId : ℕ
  nextOffset : ℕ
  outstanding : List (ℕ × Sent)
  acknowledged : ℕ
  failed : Option Failure
  performed : List Placed

namespace Uploader

/-- An upload about to begin. -/
def init (source : Bytes) (schedule : Schedule) (start : ℕ) : Uploader where
  source := source
  schedule := schedule
  nextId := 1
  nextOffset := start
  outstanding := []
  acknowledged := 0
  failed := none
  performed := []

/-- Whether everything was sent. -/
def allSent (state : Uploader) : Bool := state.source.length ≤ state.nextOffset

/-- Whether everything was sent and nothing is outstanding. -/
def finished (state : Uploader) : Bool := state.allSent && state.outstanding.isEmpty

/-- The next WRITE to send. -/
def nextWrite (state : Uploader) : Placed :=
  (state.nextOffset, (state.source.drop state.nextOffset).take state.schedule.requestLength)

/-- Send one WRITE, while the window has room and there is something to send. -/
def send (state : Uploader) : Uploader :=
  if state.failed.isNone ∧ ¬ state.allSent ∧ state.outstanding.length < state.schedule.depth then
    { state with
      nextId := state.nextId + 1
      nextOffset := state.nextOffset + state.nextWrite.2.length
      outstanding := state.outstanding ++ [(state.nextId, ⟨state.nextWrite, false⟩)] }
  else state

/-- The WRITEs performed once one that was sent is. -/
def settled (performed : List Placed) (sent : Sent) : List Placed :=
  if sent.performed then performed else performed ++ [sent.write]

/-- The server performs one of the outstanding WRITEs. -/
def perform (state : Uploader) (requestId : ℕ) : Uploader :=
  match popRequest requestId state.outstanding with
  | none => state
  | some (sent, outstanding) =>
    { state with
      performed := settled state.performed sent
      outstanding := outstanding ++ [(requestId, { sent with performed := true })] }

/-- Record the first failure. -/
def fail (state : Uploader) (failure : Failure) : Uploader := { state with failed := some failure }

/-- Handle the reply to one of the outstanding WRITEs. A WRITE answered with OK was performed. -/
def acknowledge (state : Uploader) (requestId : ℕ) (reply : Reply) : Uploader :=
  match popRequest requestId state.outstanding with
  | none => state.fail (.protocolError (.notOurs requestId))
  | some (sent, outstanding) =>
    let state := { state with outstanding := outstanding }
    match reply with
    | .status .ok _ =>
      { state with
        performed := settled state.performed sent
        acknowledged := state.acknowledged + sent.write.2.length }
    | .status code message =>
      state.fail (.transferError (.writeRefused code message) state.acknowledged
        (some sent.write.1))
    | _ => state.fail (.protocolError (.unexpectedReply reply))

/-- One event of an upload. Nothing is received once it has failed or finished; a WRITE still
outstanding then may be performed all the same. -/
def step (state : Uploader) : UploadEvent → Uploader
  | .send => state.send
  | .perform requestId => state.perform requestId
  | .reply requestId reply =>
    if state.failed.isSome ∨ state.finished then state else state.acknowledge requestId reply

/-- Transfer the file, as far as the events go. When they end before the transfer does, it ends
with the failure that cut it short. Returns the bytes acknowledged. -/
def run (state : Uploader) (events : List UploadEvent) (ending : Failure) :
    Uploader × Except Failure ℕ :=
  let final := events.foldl step state
  (final,
    match final.failed with
    | some failure => .error failure
    | none => if final.finished then .ok final.acknowledged else .error ending)

end Uploader

/-- Upload a local file through an open handle. -/
def uploadHandle (source : Bytes) (schedule : Schedule) (startOffset : ℕ)
    (events : List UploadEvent) (ending : Failure) : Uploader × Except Failure ℕ :=
  let initial := Uploader.init source schedule startOffset
  if schedule.depth < 1 then (initial, .error (.valueError
    s!"depth must be at least 1, got {schedule.depth}"))
  else if schedule.requestLength < 1 then
    (initial, .error (.valueError
      s!"write_length must be at least 1, got {schedule.requestLength}"))
  else if source.length < startOffset then
    (initial, .error (.valueError
      s!"start_offset {startOffset} is past the end of a {source.length}-byte local file"))
  else if source.length ≤ startOffset then (initial, .ok 0)
  else initial.run events ending

/-- The files after a WRITE through a handle. A file that is gone takes its bytes with it. -/
def Files.write (files : Files) (handle : Handle) (write : Placed) : Files :=
  files.put handle.file ((files handle.file).map fun content => pwrite content write.1 write.2)

/-- Record one performed WRITE. -/
def World.wrote (handle : Handle) (world : World) (write : Placed) : World :=
  { world with files := world.files.write handle write }.record
    (.wrote handle write.1 write.2)

/-- Push the local file through an open handle. -/
def uploadFrom (connection : Connection) (handle : Handle) (depth : Option ℕ)
    (startOffset : ℕ) : Session ℕ := .of fun world =>
  match world.script with
  | .upload events ending :: script =>
    match world.localFile with
    | none => (.error .osError, { world with script := script })
    | some source =>
      let done := uploadHandle source ⟨connection.writeLength, depth.getD connection.depth⟩
        startOffset events ending.failure
      (done.2, done.1.performed.foldl (World.wrote handle) { world with script := script })
  | _ => (.error .killed, world.kill)

end GantrySftp
