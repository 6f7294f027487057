import GantrySftp.Codec.Framing
import GantrySftp.Codec.Packets
import GantrySftp.Library.Dict

/-!
# The client's protocol state machine

The handshake, request ids, and the table of requests that wait for a reply. A request is
recorded under its id when it is sent and retired by the reply that carries the id; whatever the
peer sends that cannot be explained so ends the connection.
-/

namespace GantrySftp

open Library

namespace Packet

/-- The request id of a packet, and zero for a hello, which has none. -/
def requestId : Packet → ℤ
  | init _ | version _ => 0
  | open_ packet => packet.requestId
  | close packet => packet.requestId
  | read packet => packet.requestId
  | write packet => packet.requestId
  | lstat packet => packet.requestId
  | fstat packet => packet.requestId
  | setstat packet => packet.requestId
  | fsetstat packet => packet.requestId
  | opendir packet => packet.requestId
  | readdir packet => packet.requestId
  | remove packet => packet.requestId
  | mkdir packet => packet.requestId
  | rmdir packet => packet.requestId
  | realpath packet => packet.requestId
  | stat packet => packet.requestId
  | rename packet => packet.requestId
  | readlink packet => packet.requestId
  | symlink packet => packet.requestId
  | extended packet => packet.requestId
  | status packet => packet.requestId
  | handle packet => packet.requestId
  | data packet => packet.requestId
  | name packet => packet.requestId
  | attrs packet => packet.requestId
  | extendedReply packet => packet.requestId

/-- Whether a packet goes from client to server with a request id. -/
def isRequest : Packet → Bool
  | open_ _ | close _ | read _ | write _ | lstat _ | fstat _ | setstat _ | fsetstat _
  | opendir _ | readdir _ | remove _ | mkdir _ | rmdir _ | realpath _ | stat _ | rename _
  | readlink _ | symlink _ | extended _ => true
  | init _ | version _ | status _ | handle _ | data _ | name _ | attrs _ | extendedReply _ => false

/-- Whether a packet answers a request. -/
def isResponse : Packet → Bool
  | status _ | handle _ | data _ | name _ | attrs _ | extendedReply _ => true
  | init _ | version _ | open_ _ | close _ | read _ | write _ | lstat _ | fstat _ | setstat _
  | fsetstat _ | opendir _ | readdir _ | remove _ | mkdir _ | rmdir _ | realpath _ | stat _
  | rename _ | readlink _ | symlink _ | extended _ => false

/-- The name of a packet's class, as messages print it. -/
def className : Packet → String
  | init _ => "Init"
  | version _ => "Version"
  | open_ _ => "Open"
  | close _ => "Close"
  | read _ => "Read"
  | write _ => "Write"
  | lstat _ => "LStat"
  | fstat _ => "FStat"
  | setstat _ => "SetStat"
  | fsetstat _ => "FSetStat"
  | opendir _ => "OpenDir"
  | readdir _ => "ReadDir"
  | remove _ => "Remove"
  | mkdir _ => "MkDir"
  | rmdir _ => "RmDir"
  | realpath _ => "RealPath"
  | stat _ => "Stat"
  | rename _ => "Rename"
  | readlink _ => "ReadLink"
  | symlink _ => "SymLink"
  | extended _ => "Extended"
  | status _ => "Status"
  | handle _ => "Handle"
  | data _ => "Data"
  | name _ => "Name"
  | attrs _ => "AttrsReply"
  | extendedReply _ => "ExtendedReply"

end Packet

/-- Where the connection is in its lifecycle. -/
inductive CodecState
  | new | awaitingVersion | ready | failed
  deriving DecidableEq

/-- The name of a state, as messages print it. -/
def CodecState.name : CodecState → String
  | new => "NEW"
  | awaitingVersion => "AWAITING_VERSION"
  | ready => "READY"
  | failed => "FAILED"

/-- Why a call on the codec was refused: the peer broke the protocol, the caller broke the
codec's rules, or a packet does not fit the format. -/
inductive CodecError
  | protocolError (error : ProtocolError)
  | stateError (message : String)
  | writeError (error : WriteError)
  deriving DecidableEq

namespace Codec

/-- A packet that expects exactly one reply. -/
structure Request where
  packet : Packet
  isRequest : packet.isRequest = true
  deriving DecidableEq

/-- A packet that answers a request. -/
structure Response where
  packet : Packet
  isResponse : packet.isResponse = true
  deriving DecidableEq

/-- The id a request was sent under. -/
def Request.requestId (request : Request) : ℤ := request.packet.requestId

/-- The id a response answers. -/
def Response.requestId (response : Response) : ℤ := response.packet.requestId

/-- Anything the codec can report from a chunk of received bytes. -/
inductive Event
  | negotiated (version : ℤ) (extensions : List (Bytes × Bytes))
  | completed (request : Request) (response : Response)
  deriving DecidableEq

/-- The smallest request id handed out. -/
def minRequestId : ℤ := 1

/-- The largest request id handed out. -/
def maxRequestId : ℤ := 0xFFFFFFFF

end Codec

/-- The client's side of one connection. -/
structure Codec where
  splitter : FrameSplitter
  state : CodecState
  version : Option ℤ
  extensions : Dict Bytes Bytes
  outstanding : Dict ℤ Codec.Request
  nextId : ℤ

namespace Codec

/-- A codec that has neither sent nor received anything. -/
def init (maxFrameLength : ℕ) (h : 1 ≤ maxFrameLength) : Codec where
  splitter := .empty maxFrameLength h
  state := .new
  version := none
  extensions := .empty
  outstanding := .empty
  nextId := minRequestId

/-- The refusal of any call once the connection failed. -/
def failedState : ProtocolError :=
  { message := "codec is in a failed state; the connection is not recoverable" }

/-! ## Sending -/

/-- Guard a call of the client's own. -/
def requireState (codec : Codec) (expected : CodecState) (action : String) :
    Except CodecError Unit :=
  let name := codec.state.name
  if codec.state = .failed then .error (.protocolError failedState)
  else if codec.state ≠ expected then .error (.stateError s!"cannot {action} while {name}")
  else .ok ()

/-- Encode a packet to be written to the transport. -/
def wire (packet : Packet) : Except CodecError Bytes := (encode packet).mapError .writeError

/-- Encode the INIT that opens the connection. The handshake counts as begun even when the
version asked for does not fit. -/
def initiate (codec : Codec) (version : ℤ) : Except CodecError Bytes × Codec :=
  match codec.requireState .new "send INIT" with
  | .error error => (.error error, codec)
  | .ok () =>
    (wire (.init { version := version }), { codec with state := .awaitingVersion })

/-- The id after an id, wrapping around at the largest. -/
def advance (requestId : ℤ) : ℤ :=
  if requestId ≥ maxRequestId then minRequestId else requestId + 1

/-- The first id from here on that is not in flight, after as many steps at most. -/
def firstFree (outstanding : Dict ℤ Request) : ℕ → ℤ → ℤ
  | 0, requestId => requestId
  | steps + 1, requestId =>
    if (outstanding.get requestId).isSome then firstFree outstanding steps (advance requestId)
    else requestId

/-- Reserve the next request id. With as many steps as there are requests in flight the search
passes them all. -/
def allocateRequestId (codec : Codec) : Except CodecError ℤ × Codec :=
  if codec.outstanding.entries.length > maxRequestId - minRequestId then
    (.error (.stateError "every request id is in flight; cannot allocate another"), codec)
  else
    let allocated := firstFree codec.outstanding codec.outstanding.entries.length codec.nextId
    (.ok allocated, { codec with nextId := advance allocated })

/-- Record a request as outstanding and encode it. -/
def send (codec : Codec) (request : Request) : Except CodecError Bytes × Codec :=
  let className := request.packet.className
  let requestId := request.requestId
  match codec.requireState .ready s!"send {className}" with
  | .error error => (.error error, codec)
  | .ok () =>
    match codec.outstanding.get requestId with
    | some existing =>
      let existingName := existing.packet.className
      (.error (.stateError (s!"request id {requestId} is already in flight for a " ++
        s!"{existingName}; ids come from allocate_request_id() and are free again once " ++
        "answered")), codec)
    | none =>
      match wire request.packet with
      | .error error => (.error error, codec)
      | .ok wire =>
        (.ok wire, { codec with outstanding := codec.outstanding.set requestId request })

/-! ## Receiving -/

/-- Why a negotiated version that is not ours cannot be spoken. -/
def versionRefusal (version : ℤ) : String :=
  if version < protocolVersion then
    s!"server negotiated filexfer v{version} and this client implements only " ++
    s!"v{protocolVersion}; draft-ietf-secsh-filexfer-02 4 has the server answer with " ++
    "the lower of its own version and ours, so this server is behaving correctly and " ++
    "simply cannot speak v3 -- 10.1 lists READLINK, SYMLINK and EXTENDED as v3 " ++
    "additions, and nothing tells a v3 client which of its requests this server knows"
  else
    s!"server negotiated filexfer v{version}, above the v{protocolVersion} this client " ++
    "implements; draft-ietf-secsh-filexfer-02 4 requires the answer to be the lower of " ++
    "the two versions, so a version above ours is a protocol violation -- and v4 ATTRS " ++
    "puts a 'byte type' ahead of every optional field (draft-04 5), which a v3 decoder " ++
    "reads as the leading byte of whatever comes next"

/-- Complete the handshake. A repeated extension keeps its last value. -/
def handleVersion (codec : Codec) (packet : Hello) : Except ProtocolError (Event × Codec) :=
  let name := codec.state.name
  if codec.state ≠ .awaitingVersion then
    .error { message := s!"server sent VERSION while {name}; the handshake happens once" }
  else if packet.version ≠ protocolVersion then
    .error { message := versionRefusal packet.version }
  else
    .ok (.negotiated packet.version packet.extensions,
      { codec with
        state := .ready
        version := some packet.version
        extensions := packet.extensions.foldl (fun dict pair => dict.set pair.1 pair.2) .empty })

/-- Retire the request that a response answers. -/
def handleResponse (codec : Codec) (response : Response) :
    Except ProtocolError (Event × Codec) :=
  let className := response.packet.className
  let name := codec.state.name
  let requestId := response.requestId
  if codec.state ≠ .ready then
    .error { message := s!"server sent {className} while {name}; nothing is answerable before " ++
      "VERSION" }
  else
    match codec.outstanding.get requestId with
    | none =>
      .error
        { message := s!"server sent {className} for request id {requestId}, which is not " ++
            "outstanding; it was never sent, or it was already answered"
          requestId := some requestId }
    | some request =>
      .ok (.completed request response,
        { codec with outstanding := codec.outstanding.pop requestId })

/-- Handle one decoded packet. -/
def handle (codec : Codec) (packet : Packet) : Except ProtocolError (Event × Codec) :=
  let className := packet.className
  match packet with
  | .version hello => codec.handleVersion hello
  | .init _ => .error { message := "server sent INIT; INIT is a client-to-server packet" }
  | packet =>
    if h : packet.isResponse = true then codec.handleResponse ⟨packet, h⟩
    else
      .error { message := s!"server sent {className}, which is a request; a client never " ++
        "receives requests" }

/-- Decode frames and handle them in order, up to the first that is refused. -/
def handleFrames (codec : Codec) : List Bytes → Except ProtocolError (List Event) × Codec
  | [] => (.ok [], codec)
  | frame :: frames =>
    match decode frame >>= codec.handle with
    | .error error => (.error error, codec)
    | .ok (event, codec) =>
      ((event :: ·) <$> (codec.handleFrames frames).1, (codec.handleFrames frames).2)

/-- The codec with a chunk fed to its splitter. -/
def fedWith (codec : Codec) (chunk : Chunk) : Codec :=
  { codec with splitter := (codec.splitter.feed chunk).2 }

/-- Feed received bytes and return everything that completed. What was decoded before a refused
frame is lost with it, and the connection has failed. -/
def receive (codec : Codec) (chunk : Chunk) : Except CodecError (List Event) × Codec :=
  if codec.state = .failed then (.error (.protocolError failedState), codec)
  else
    match (codec.splitter.feed chunk).1 with
    | .error error => (.error (.protocolError error), { codec.fedWith chunk with state := .failed })
    | .ok frames =>
      match (codec.fedWith chunk).handleFrames frames with
      | (.error error, codec) => (.error (.protocolError error), { codec with state := .failed })
      | (.ok events, codec) => (.ok events, codec)

end Codec

end GantrySftp
