import GantrySftp.Session.Reply
import GantrySftp.Library.SparseFile
import GantrySftp.Library.Tiling

/-!
# The pipelined download

Many READs in flight, each payload written at the offset its own READ asked for. A short DATA
re-queues what is missing, an EOF stops issuing, and the transfer ends when nothing is
outstanding and nothing is left to ask for.
-/

namespace GantrySftp

open Library

/-- A byte range: still to be requested, or requested. -/
abbrev Range := Piece

/-- The region of a file one run is responsible for. Without an end it reads until EOF. -/
structure Span where
  start : ℕ
  stop : Option ℕ

/-- How one transfer paces itself: payload bytes per request, and requests in flight. -/
structure Schedule where
  requestLength : ℕ
  depth : ℕ

/-- Where a downloaded payload goes. -/
class Sink (σ : Type) where
  writeAt : σ → ℕ → Bytes → σ

/-- A descriptor of a file with this content, written at explicit offsets. -/
structure DescriptorSink where
  content : Bytes

instance : Sink DescriptorSink where
  writeAt sink offset payload := { content := pwrite sink.content offset payload }

/-- A caller's buffer whose first byte is the remote file's byte at `base`. -/
structure BufferSink where
  base : ℕ
  view : Bytes

/-- Whether a payload written at an offset lies inside the buffer. -/
def BufferSink.Holds (sink : BufferSink) (offset : ℕ) (payload : Bytes) : Prop :=
  sink.base ≤ offset ∧ offset + payload.length ≤ sink.base + sink.view.length

instance (sink : BufferSink) (offset : ℕ) (payload : Bytes) :
    Decidable (sink.Holds offset payload) :=
  inferInstanceAs (Decidable (_ ∧ _))

/-- A slice of the buffer is assigned. Python refuses a slice that does not lie inside it; a
download never writes one. -/
instance : Sink BufferSink where
  writeAt sink offset payload :=
    if sink.Holds offset payload then
      { sink with
        view := sink.view.take (offset - sink.base) ++ payload ++
          sink.view.drop (offset - sink.base + payload.length) }
    else sink

/-- The entry of a request id among those outstanding, and the others. -/
def popRequest {α : Type} (requestId : ℕ) : List (ℕ × α) → Option (α × List (ℕ × α))
  | [] => none
  | entry :: rest =>
    if entry.1 = requestId then some (entry.2, rest)
    else (popRequest requestId rest).map fun found => (found.1, entry :: found.2)

/-- A reply that was handled, with the range its READ asked for. -/
abbrev Answered := Range × Reply

/-- The state of one file's worth of pipelined reads. `answered` records the replies handled so
far and is read by nothing. -/
structure Downloader (σ : Type) where
  span : Span
  schedule : Schedule
  sink : σ
  nextId : ℕ
  backlog : List Range
  nextOffset : ℕ
  outstanding : List (ℕ × Range)
  written : ℕ
  eofAt : Option ℕ
  seenZeroLength : Bool
  answered : List Answered

namespace Downloader

variable {σ : Type}

/-- A download about to begin. -/
def init (span : Span) (schedule : Schedule) (sink : σ) : Downloader σ where
  span := span
  schedule := schedule
  sink := sink
  nextId := 1
  backlog := []
  nextOffset := span.start
  outstanding := []
  written := 0
  eofAt := none
  seenZeroLength := false
  answered := []

/-- Whether there is a range left to request. -/
def moreToIssue (state : Downloader σ) : Bool :=
  if state.backlog ≠ [] then true
  else if state.eofAt.isSome then false
  else
    match state.span.stop with
    | none => true
    | some stop => state.nextOffset < stop

/-- The length of the next range past the ones issued. -/
def freshLength (state : Downloader σ) : ℕ :=
  match state.span.stop with
  | none => state.schedule.requestLength
  | some stop => min state.schedule.requestLength (stop - state.nextOffset)

/-- Take the next range to request, preferring re-queued shortfalls. -/
def nextRange (state : Downloader σ) : Range × Downloader σ :=
  match state.backlog with
  | range :: backlog => (range, { state with backlog := backlog })
  | [] =>
    ({ offset := state.nextOffset, length := state.freshLength },
      { state with nextOffset := state.nextOffset + state.freshLength })

/-- Send one READ. -/
def issue (state : Downloader σ) : Downloader σ :=
  let (range, state) := state.nextRange
  { state with
    nextId := state.nextId + 1
    outstanding := state.outstanding ++ [(state.nextId, range)] }

/-- Why the next READ cannot be sent, if it cannot: no request id is free, or its range does not
fit the eight and four bytes that its fields have. -/
def sendFailure (state : Downloader σ) : Option Failure :=
  let range := state.nextRange.1
  if 256 ^ 4 - 1 ≤ state.outstanding.length then
    some (.stateError "every request id is in flight; cannot allocate another")
  else if 256 ^ 8 ≤ range.offset then
    some (.valueError s!"uint64 out of range: {range.offset}")
  else if 256 ^ 4 ≤ range.length then
    some (.valueError s!"uint32 out of range: {range.length}")
  else none

/-- Send READs while the window has room and there is something to ask for, at most `room` of
them. A READ that cannot be sent ends this, in the state before it. -/
def fill : ℕ → Downloader σ → Downloader σ × Option Failure
  | 0, state => (state, none)
  | room + 1, state =>
    if state.outstanding.length < state.schedule.depth ∧ state.moreToIssue then
      match state.sendFailure with
      | some failure => (state, some failure)
      | none => fill room state.issue
    else (state, none)

/-- Fill the window. -/
def fillWindow (state : Downloader σ) : Downloader σ × Option Failure :=
  fill (state.schedule.depth - state.outstanding.length) state

/-- What a short DATA leaves to be asked for again. -/
def shortfall (issued : Range) (payload : Bytes) : List Range :=
  if payload.length < issued.length then
    [{ offset := issued.offset + payload.length, length := issued.length - payload.length }]
  else []

/-- Where the file is now known to end. A recorded end of zero counts as none. -/
def earlierEof (eofAt : Option ℕ) (offset : ℕ) : ℕ :=
  match eofAt with
  | none => offset
  | some 0 => offset
  | some known => min known offset

/-- Handle a STATUS: an EOF stops issuing, anything else fails the transfer. -/
def handleStatus (state : Downloader σ) (issued : Range) (code : StatusCode) (message : Bytes) :
    Except Failure (Downloader σ) :=
  if code = .eof then
    .ok { state with
      eofAt := some (earlierEof state.eofAt issued.offset)
      answered := state.answered ++ [(issued, .status code message)] }
  else
    .error (.transferError (.readRefused code message) state.written (some issued.offset))

variable [Sink σ]

/-- Handle a DATA: refuse one that is too long, and a second one that is empty; write the
payload and re-queue what is missing. -/
def handleData (state : Downloader σ) (issued : Range) (payload : Bytes) (requestId : ℕ) :
    Except Failure (Downloader σ) :=
  if issued.length < payload.length then
    .error (.protocolError
      (.overlongData issued.length issued.offset payload.length requestId))
  else if payload = [] ∧ state.seenZeroLength then
    .error (.transferError .secondZeroLength state.written (some issued.offset))
  else
    .ok { state with
      seenZeroLength := state.seenZeroLength || payload = []
      sink := Sink.writeAt state.sink issued.offset payload
      written := state.written + payload.length
      backlog := state.backlog ++ shortfall issued payload
      answered := state.answered ++ [(issued, .data payload)] }

/-- Handle the reply to one of the outstanding READs. -/
def dispatch (state : Downloader σ) (requestId : ℕ) (reply : Reply) :
    Except Failure (Downloader σ) :=
  match popRequest requestId state.outstanding with
  | none => .error (.protocolError (.notOurs requestId))
  | some (issued, outstanding) =>
    let state := { state with outstanding := outstanding }
    match reply with
    | .data payload => state.handleData issued payload requestId
    | .status code message => state.handleStatus issued code message
    | _ => .error (.protocolError (.unexpectedReply reply))

/-- Transfer the file, as far as the replies go. When they run out while a READ is outstanding
the transfer ends with the failure that cut it short. Returns the bytes written by this run. -/
def run (state : Downloader σ) : List (ℕ × Reply) → Failure → Downloader σ × Except Failure ℕ
  | replies, ending =>
    match state.fillWindow with
    | (filled, some failure) => (filled, .error failure)
    | (filled, none) =>
      if filled.outstanding = [] then (filled, .ok filled.written)
      else
        match replies with
        | [] => (filled, .error ending)
        | (requestId, reply) :: rest =>
          match filled.dispatch requestId reply with
          | .error failure => (filled, .error failure)
          | .ok state => run state rest ending

end Downloader

/-- Download an open remote file into an open local one. -/
def downloadHandle {σ : Type} [Sink σ] (sink : σ) (size : Option ℕ) (schedule : Schedule)
    (startOffset : ℕ) (replies : List (ℕ × Reply)) (ending : Failure) :
    Downloader σ × Except Failure ℕ :=
  let initial := Downloader.init ⟨startOffset, size⟩ schedule sink
  if schedule.depth < 1 then (initial, .error (.valueError
    s!"depth must be at least 1, got {schedule.depth}"))
  else if schedule.requestLength < 1 then
    (initial, .error (.valueError
      s!"read_length must be at least 1, got {schedule.requestLength}"))
  else
    match size with
    | some size =>
      if size < startOffset then
        (initial, .error (.valueError
          s!"start_offset {startOffset} is past the end of a {size}-byte file"))
      else initial.run replies ending
    | none => initial.run replies ending

/-- Read a range of an open remote file into a caller's buffer. -/
def readRangeInto (view : Bytes) (offset : ℕ) (schedule : Schedule) (replies : List (ℕ × Reply))
    (ending : Failure) : Downloader BufferSink × Except Failure ℕ :=
  let initial := Downloader.init ⟨offset, some (offset + view.length)⟩ schedule
    (BufferSink.mk offset view)
  if schedule.depth < 1 then (initial, .error (.valueError
    s!"depth must be at least 1, got {schedule.depth}"))
  else if schedule.requestLength < 1 then
    (initial, .error (.valueError
      s!"read_length must be at least 1, got {schedule.requestLength}"))
  else if view = [] then (initial, .ok 0)
  else initial.run replies ending

/-- Read up to `length` bytes of an open remote file. -/
def readAt (offset length : ℕ) (schedule : Schedule) (replies : List (ℕ × Reply))
    (ending : Failure) : Except Failure Bytes :=
  if length = 0 then .ok []
  else
    let done := readRangeInto (List.replicate length 0) offset schedule replies ending
    done.2.map fun filled => done.1.sink.view.take filled

end GantrySftp
