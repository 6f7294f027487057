import GantrySftp.Codec.Correlation

/-!
# Routing replies to operations

One reader takes every reply from the codec and hands it to the exchange that sent the request.
An exchange is one operation's requests and replies; retiring it forgets the replies still routed
to it. A reply nobody is left to receive is counted, and a handle in it is closed by the reaper.
-/

namespace GantrySftp

open Library

/-- A reply together with the request it answers. -/
structure Completed where
  request : Codec.Request
  response : Codec.Response
  deriving DecidableEq

/-- What ends a connection, or refuses a request on it. -/
inductive DispatchError
  | codec (error : CodecError)
  | protocolError (message : String)
  | stateError (message : String)
  | transferTimeout (message : String)
  | connectError
  deriving DecidableEq

/-- One operation's requests and the replies to them. The ids are a set. -/
structure Exchange where
  outstanding : List ℤ
  ready : List Completed
  failure : Option DispatchError
  deriving DecidableEq

namespace Exchange

/-- An exchange that has sent nothing. -/
def new : Exchange where
  outstanding := []
  ready := []
  failure := none

/-- Expect a reply under an id. -/
def register (exchange : Exchange) (requestId : ℤ) : Exchange :=
  { exchange with outstanding := exchange.outstanding.insert requestId }

/-- Hand a reply to whoever is waiting. -/
def deliver (exchange : Exchange) (event : Completed) : Exchange :=
  { exchange with
    outstanding := exchange.outstanding.filter (· ≠ event.request.requestId)
    ready := exchange.ready ++ [event] }

/-- Report that the connection is finished. -/
def fail (exchange : Exchange) (error : DispatchError) : Exchange :=
  { exchange with failure := some error }

/-- The next reply, or what there is instead of it. Nothing means to go on waiting. -/
def next (exchange : Exchange) : Option (Except DispatchError Completed) :=
  match exchange.ready with
  | event :: _ => some (.ok event)
  | [] => exchange.failure.map .error

/-- The exchange without its next reply. -/
def take (exchange : Exchange) : Exchange := { exchange with ready := exchange.ready.tail }

end Exchange

/-- Owns the reader and the routing table of one connection. Exchanges are named by their places
among all that were ever opened; `exchanges` are those not yet retired. -/
structure Dispatcher where
  codec : Codec
  routes : Dict ℤ ℕ
  objects : List Exchange
  exchanges : List ℕ
  failure : Option DispatchError
  closed : Bool
  reading : Bool
  unclaimed : ℕ
  orphans : List Bytes
  reaped : ℕ

namespace Dispatcher

/-- A dispatcher of a connection after its handshake. -/
def init (codec : Codec) : Dispatcher where
  codec := codec
  routes := .empty
  objects := []
  exchanges := []
  failure := none
  closed := false
  reading := true
  unclaimed := 0
  orphans := []
  reaped := 0

/-- A codec after a handshake without extensions. -/
def negotiated : Codec :=
  { Codec.init 262144 (by decide) with state := .ready, version := some protocolVersion }

/-- An exchange by its name. -/
def object (dispatcher : Dispatcher) (name : ℕ) : Exchange :=
  dispatcher.objects.getD name .new

/-- Change one exchange. -/
def modify (dispatcher : Dispatcher) (name : ℕ) (change : Exchange → Exchange) : Dispatcher :=
  { dispatcher with objects := dispatcher.objects.modify name change }

/-! ## Exchanges -/

/-- Open an exchange for one operation. -/
def exchange (dispatcher : Dispatcher) : Dispatcher :=
  { dispatcher with
    objects := dispatcher.objects ++ [.new]
    exchanges := dispatcher.exchanges ++ [dispatcher.objects.length] }

/-- Forget an exchange and any reply still routed to one of its ids. -/
def retire (dispatcher : Dispatcher) (name : ℕ) : Dispatcher :=
  { dispatcher with
    exchanges := dispatcher.exchanges.filter (· ≠ name)
    routes := (dispatcher.object name).outstanding.foldl Dict.pop dispatcher.routes }

/-- Record a failure and wake everyone parked on the connection. -/
def fail (dispatcher : Dispatcher) (error : DispatchError) : Dispatcher :=
  let failed := { dispatcher with failure := some error, routes := .empty }
  dispatcher.exchanges.foldl (fun failed name => failed.modify name (·.fail error)) failed

/-! ## Sending -/

/-- Encode a request and route its reply to an exchange, up to the bytes to be written. -/
def submit (dispatcher : Dispatcher) (request : Codec.Request) (name : ℕ) :
    Except DispatchError Bytes × Dispatcher :=
  match dispatcher.failure with
  | some error => (.error error, dispatcher)
  | none =>
    if dispatcher.closed then
      (.error (.stateError "the session is closed; no further requests can be sent"), dispatcher)
    else
      match dispatcher.codec.send request with
      | (.error error, codec) => (.error (.codec error), { dispatcher with codec := codec })
      | (.ok wire, codec) =>
        (.ok wire,
          { dispatcher with
            codec := codec
            routes := dispatcher.routes.set request.requestId name })

/-- Send a request through an exchange, up to the bytes to be written. -/
def send (dispatcher : Dispatcher) (name : ℕ) (request : Codec.Request) :
    Except DispatchError Bytes × Dispatcher :=
  (dispatcher.modify name (·.register request.requestId)).submit request name

/-! ## Receiving -/

/-- The handle a reply carries, if it carries one. -/
def handleOf (event : Completed) : Option Bytes :=
  match event.response.packet with
  | .handle packet => some packet.handle
  | _ => none

/-- Queue a handle from a reply nobody was left to receive. -/
def orphan (dispatcher : Dispatcher) (event : Completed) : Dispatcher :=
  match handleOf event with
  | some handle => { dispatcher with orphans := dispatcher.orphans ++ [handle] }
  | none => dispatcher

/-- The exchange a reply is routed to. -/
def receiver (dispatcher : Dispatcher) (event : Completed) : Option ℕ :=
  dispatcher.routes.get event.request.requestId

/-- Hand a reply to its exchange, or count it where there is none. -/
def deliver (dispatcher : Dispatcher) (event : Completed) : Dispatcher :=
  let routed := { dispatcher with routes := dispatcher.routes.pop event.request.requestId }
  match dispatcher.receiver event with
  | none => { routed with unclaimed := routed.unclaimed + 1 }.orphan event
  | some name => routed.modify name (·.deliver event)

/-- Route one event of the codec. After the handshake only replies are expected. -/
def route (dispatcher : Dispatcher) : Codec.Event → Except DispatchError Dispatcher
  | .negotiated _ _ => .error (.protocolError "server sent Negotiated after the handshake")
  | .completed request response => .ok (dispatcher.deliver ⟨request, response⟩)

/-- Route events in order, up to the first that is refused. -/
def routeAll (dispatcher : Dispatcher) : List Codec.Event → Dispatcher
  | [] => dispatcher
  | event :: events =>
    match dispatcher.route event with
    | .error error => { dispatcher.fail error with reading := false }
    | .ok routed => routed.routeAll events

/-- One turn of the reader: feed a chunk to the codec and route what it completed. Any failure
stops the reader and is reported to everyone. -/
def receive (dispatcher : Dispatcher) (chunk : Chunk) : Dispatcher :=
  if dispatcher.reading then
    match dispatcher.codec.receive chunk with
    | (.error error, codec) =>
      { { dispatcher with codec := codec }.fail (.codec error) with reading := false }
    | (.ok events, codec) => { dispatcher with codec := codec }.routeAll events
  else dispatcher

/-! ## Orphans -/

/-- The CLOSE of a handle. -/
def closeRequest (requestId : ℤ) (handle : Bytes) : Codec.Request :=
  ⟨.close ⟨requestId, handle⟩, rfl⟩

/-- Send one CLOSE for an orphan, through an exchange of its own. Whatever refuses it is
swallowed. -/
def closeOrphan (dispatcher : Dispatcher) (handle : Bytes) : Dispatcher :=
  let counted := { dispatcher with reaped := dispatcher.reaped + 1 }
  match counted.codec.allocateRequestId with
  | (.error _, codec) => { counted with codec := codec }
  | (.ok requestId, codec) =>
    ({ counted with codec := codec }.exchange.send counted.objects.length
      (closeRequest requestId handle)).2

/-- One turn of the reaper: take the first orphan and close it. A closed session has no reaper. -/
def reap (dispatcher : Dispatcher) : Dispatcher :=
  if dispatcher.closed then dispatcher
  else
    match dispatcher.orphans with
    | [] => dispatcher
    | handle :: orphans => { dispatcher with orphans := orphans }.closeOrphan handle

/-- Refuse further work, and stop the reader and the reaper. -/
def close (dispatcher : Dispatcher) : Dispatcher :=
  { dispatcher with closed := true, reading := false }

end Dispatcher

end GantrySftp
