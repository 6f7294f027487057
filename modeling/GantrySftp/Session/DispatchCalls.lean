import GantrySftp.Library.Transcript
import GantrySftp.Session.Dispatch

/-!
# Calls on a dispatcher

A run of a dispatcher is any sequence of the calls that its users, its reader and its reaper make,
and leaves a history of the requests sent and the replies received. What each call does is said
here once, for the invariants of runs to use.
-/

namespace GantrySftp

open Library

namespace Dispatcher

/-! ## Histories -/

/-- A call on a dispatcher: what its users, its reader and its reaper do. A write that missed its
deadline fails the connection. -/
inductive Call
  | exchange
  | send (name : ℕ) (request : Codec.Request)
  | stalled (message : String)
  | receive (chunk : Chunk)
  | take (name : ℕ)
  | retire (name : ℕ)
  | reap
  | close

/-- What happened to requests and replies. -/
inductive Entry
  | sent (name : ℕ) (request : Codec.Request)
  | replied (receiver : Option ℕ) (event : Completed)
  | taken (name : ℕ) (event : Completed)
  | retired (name : ℕ)
  | reaped (handle : Bytes)
  | failed
  deriving DecidableEq

/-- What sending a request says, which is nothing when it is refused. -/
def saidSend (dispatcher : Dispatcher) (name : ℕ) (request : Codec.Request) : List Entry :=
  match (dispatcher.send name request).1 with
  | .ok _ => [.sent name request]
  | .error _ => []

/-- What routing events says. -/
def saidRoute (dispatcher : Dispatcher) : List Codec.Event → List Entry
  | [] => []
  | .negotiated _ _ :: _ => [.failed]
  | .completed request response :: events =>
    .replied (dispatcher.receiver ⟨request, response⟩) ⟨request, response⟩ ::
      (dispatcher.deliver ⟨request, response⟩).saidRoute events

/-- What a turn of the reader says. -/
def saidReceive (dispatcher : Dispatcher) (chunk : Chunk) : List Entry :=
  if dispatcher.reading then
    match dispatcher.codec.receive chunk with
    | (.error _, _) => [.failed]
    | (.ok events, codec) => { dispatcher with codec := codec }.saidRoute events
  else []

/-- What closing an orphan says. -/
def saidCloseOrphan (dispatcher : Dispatcher) (handle : Bytes) : List Entry :=
  let counted := { dispatcher with reaped := dispatcher.reaped + 1 }
  match counted.codec.allocateRequestId with
  | (.error _, _) => []
  | (.ok requestId, codec) =>
    { counted with codec := codec }.exchange.saidSend counted.objects.length
      (closeRequest requestId handle)

/-- What a turn of the reaper says. -/
def saidReap (dispatcher : Dispatcher) : List Entry :=
  if dispatcher.closed then []
  else
    match dispatcher.orphans with
    | [] => []
    | handle :: orphans =>
      .reaped handle :: { dispatcher with orphans := orphans }.saidCloseOrphan handle

/-- What a call says, and the dispatcher after it. A call that names an exchange no one opened
does nothing. -/
def call (dispatcher : Dispatcher) : Call → List Entry × Dispatcher
  | .exchange => ([], dispatcher.exchange)
  | .send name request =>
    if name < dispatcher.objects.length then
      (dispatcher.saidSend name request, (dispatcher.send name request).2)
    else ([], dispatcher)
  | .stalled message => ([.failed], dispatcher.fail (.transferTimeout message))
  | .receive chunk => (dispatcher.saidReceive chunk, dispatcher.receive chunk)
  | .take name =>
    match (dispatcher.object name).ready with
    | [] => ([], dispatcher)
    | event :: _ => ([.taken name event], dispatcher.modify name Exchange.take)
  | .retire name =>
    if name < dispatcher.objects.length then ([.retired name], dispatcher.retire name)
    else ([], dispatcher)
  | .reap => (dispatcher.saidReap, dispatcher.reap)
  | .close => ([], dispatcher.close)

/-- The history and the dispatcher after calls. -/
def run (dispatcher : Dispatcher) (calls : List Call) : List Entry × Dispatcher :=
  transcript call dispatcher calls

/-- The exchange and the request that an id waits for a reply to, after one more entry. -/
def Entry.update (requestId : ℤ) (found : Option (ℕ × Codec.Request)) :
    Entry → Option (ℕ × Codec.Request)
  | sent name request => if request.requestId = requestId then some (name, request) else found
  | replied _ event => if event.request.requestId = requestId then none else found
  | _ => found

/-- The exchange and the request that an id waits for a reply to. -/
def awaiting (history : List Entry) (requestId : ℤ) : Option (ℕ × Codec.Request) :=
  history.foldl (Entry.update requestId) none

/-- What an id waits for after one more entry. -/
@[simp] theorem awaiting_concat (history : List Entry) (entry : Entry) (requestId : ℤ) :
    awaiting (history ++ [entry]) requestId =
      entry.update requestId (awaiting history requestId) := by
  simp [awaiting, List.foldl_append]

/-- The reply an entry placed in an exchange's queue. -/
def Entry.deliveredTo (name : ℕ) : Entry → Option Completed
  | replied receiver event => if receiver = some name then some event else none
  | _ => none

/-- The reply an entry took from an exchange's queue. -/
def Entry.takenBy (name : ℕ) : Entry → Option Completed
  | taken other event => if other = name then some event else none
  | _ => none

/-- The replies placed in an exchange's queue. -/
def deliveredTo (name : ℕ) (history : List Entry) : List Completed :=
  history.filterMap (Entry.deliveredTo name)

/-- The replies taken from an exchange's queue. -/
def takenBy (name : ℕ) (history : List Entry) : List Completed :=
  history.filterMap (Entry.takenBy name)

/-- The replies placed in a queue after one more entry. -/
@[simp] theorem deliveredTo_concat (name : ℕ) (history : List Entry) (entry : Entry) :
    deliveredTo name (history ++ [entry]) =
      deliveredTo name history ++ (entry.deliveredTo name).toList := by
  simp only [deliveredTo, List.filterMap_append]
  cases hentry : entry.deliveredTo name <;> simp [hentry]

/-- The replies taken from a queue after one more entry. -/
@[simp] theorem takenBy_concat (name : ℕ) (history : List Entry) (entry : Entry) :
    takenBy name (history ++ [entry]) =
      takenBy name history ++ (entry.takenBy name).toList := by
  simp only [takenBy, List.filterMap_append]
  cases hentry : entry.takenBy name <;> simp [hentry]

/-! ## Objects -/

/-- Changing an exchange changes that one. -/
theorem object_modify (dispatcher : Dispatcher) (name other : ℕ) (change : Exchange → Exchange) :
    (dispatcher.modify name change).object other =
      if name = other ∧ other < dispatcher.objects.length then change (dispatcher.object other)
      else dispatcher.object other := by
  simp only [object, modify, List.getD_eq_getElem?_getD, List.getElem?_modify]
  split_ifs with hname hboth hboth
  · rw [List.getElem?_eq_getElem hboth.2]
    rfl
  · have hlong : dispatcher.objects.length ≤ other := by
      by_contra hshort
      exact hboth ⟨hname, by omega⟩
    rw [List.getElem?_eq_none hlong]
    rfl
  · exact absurd hboth.1 hname
  · simp

/-- Changing an exchange keeps all of them. -/
@[simp] theorem length_modify (dispatcher : Dispatcher) (name : ℕ) (change : Exchange → Exchange) :
    (dispatcher.modify name change).objects.length = dispatcher.objects.length := by
  simp [modify]

/-- Changing exchanges one after another changes nothing else, and no queue when no change does. -/
theorem foldl_modify (change : Exchange → Exchange)
    (hready : ∀ exchange, (change exchange).ready = exchange.ready) (names : List ℕ)
    (dispatcher : Dispatcher) :
    let changed := names.foldl (fun changed name => changed.modify name change) dispatcher
    changed.codec = dispatcher.codec ∧ changed.routes = dispatcher.routes ∧
      changed.objects.length = dispatcher.objects.length ∧
      changed.exchanges = dispatcher.exchanges ∧ changed.failure = dispatcher.failure ∧
      changed.orphans = dispatcher.orphans ∧
      ∀ name, (changed.object name).ready = (dispatcher.object name).ready := by
  induction names generalizing dispatcher with
  | nil => exact ⟨rfl, rfl, rfl, rfl, rfl, rfl, fun _ => rfl⟩
  | cons name names ih =>
    obtain ⟨hcodec, hroutes, hlength, hexchanges, hfailure, horphans, hqueues⟩ :=
      ih (dispatcher.modify name change)
    refine ⟨hcodec, hroutes, hlength.trans (length_modify _ _ _), hexchanges, hfailure, horphans,
      fun other => (hqueues other).trans ?_⟩
    rw [object_modify]
    split_ifs with hsame
    · rw [hready]
    · rfl

/-- What a failure leaves. -/
theorem fail_frame (dispatcher : Dispatcher) (error : DispatchError) :
    (dispatcher.fail error).codec = dispatcher.codec ∧
      (dispatcher.fail error).routes = .empty ∧
      (dispatcher.fail error).objects.length = dispatcher.objects.length ∧
      (dispatcher.fail error).exchanges = dispatcher.exchanges ∧
      (dispatcher.fail error).failure = some error ∧
      (dispatcher.fail error).orphans = dispatcher.orphans ∧
      ∀ name, ((dispatcher.fail error).object name).ready = (dispatcher.object name).ready :=
  foldl_modify (·.fail error) (fun _ => rfl) dispatcher.exchanges
    { dispatcher with failure := some error, routes := .empty }

/-- A new exchange has no reply to wait for. -/
@[simp] theorem object_exchange (dispatcher : Dispatcher) (name : ℕ) :
    dispatcher.exchange.object name = dispatcher.object name := by
  simp only [object, exchange, List.getD_eq_getElem?_getD]
  obtain hold | hnew := lt_or_ge name dispatcher.objects.length
  · rw [List.getElem?_append_left hold]
  · rw [List.getElem?_append_right hnew, List.getElem?_eq_none hnew]
    cases name - dispatcher.objects.length <;> rfl

/-- What submitting a request does: nothing where it is refused, and else have the codec record it
and route it to the exchange. -/
theorem submit_cases (dispatcher : Dispatcher) (request : Codec.Request) (name : ℕ) :
    (∃ error, dispatcher.submit request name = (.error error, dispatcher)) ∨
      ∃ wire codec, dispatcher.failure = none ∧ dispatcher.closed = false ∧
        dispatcher.codec.outstanding.get request.requestId = none ∧
        codec.outstanding = dispatcher.codec.outstanding.set request.requestId request ∧
        dispatcher.submit request name =
          (.ok wire,
            { dispatcher with
              codec := codec
              routes := dispatcher.routes.set request.requestId name }) := by
  unfold submit
  split
  · next error hfailure => exact Or.inl ⟨error, rfl⟩
  · next hfailure =>
    split_ifs with hclosed
    · exact Or.inl ⟨_, rfl⟩
    · obtain ⟨error, hsend, -⟩ | ⟨wire, -, hfree, hsend⟩ := dispatcher.codec.send_cases request
      · rw [hsend]
        exact Or.inl ⟨_, rfl⟩
      · rw [hsend]
        exact Or.inr ⟨wire, _, hfailure, by simpa using hclosed, hfree, rfl, rfl⟩

/-- What sending a request does: nothing but register the id where it is refused, and else have
the codec record it and route it to the exchange. -/
theorem send_cases (dispatcher : Dispatcher) (name : ℕ) (request : Codec.Request) :
    (∃ error, dispatcher.send name request =
        (.error error, dispatcher.modify name (·.register request.requestId))) ∨
      ∃ wire codec, dispatcher.failure = none ∧ dispatcher.closed = false ∧
        dispatcher.codec.outstanding.get request.requestId = none ∧
        codec.outstanding = dispatcher.codec.outstanding.set request.requestId request ∧
        dispatcher.send name request =
          (.ok wire,
            { dispatcher.modify name (·.register request.requestId) with
              codec := codec
              routes := dispatcher.routes.set request.requestId name }) :=
  submit_cases (dispatcher.modify name (·.register request.requestId)) request name

/-- What routing a reply does. -/
theorem deliver_frame (dispatcher : Dispatcher) (event : Completed) :
    (dispatcher.deliver event).codec = dispatcher.codec ∧
      (dispatcher.deliver event).routes = dispatcher.routes.pop event.request.requestId ∧
      (dispatcher.deliver event).objects.length = dispatcher.objects.length ∧
      (dispatcher.deliver event).exchanges = dispatcher.exchanges ∧
      (dispatcher.deliver event).failure = dispatcher.failure ∧
      (dispatcher.deliver event).closed = dispatcher.closed ∧
      (dispatcher.deliver event).orphans = dispatcher.orphans ++
        (if dispatcher.receiver event = none then (handleOf event).toList else []) ∧
      ∀ name, ((dispatcher.deliver event).object name).ready =
        (dispatcher.object name).ready ++
          if dispatcher.receiver event = some name ∧ name < dispatcher.objects.length then [event]
          else [] := by
  unfold deliver
  cases hreceiver : dispatcher.receiver event with
  | none =>
    unfold orphan
    cases hhandle : handleOf event with
    | none => simp [object]
    | some handle => simp [object]
  | some receiver =>
    refine ⟨rfl, rfl, length_modify _ _ _, rfl, rfl, rfl, by simp [modify], fun name => ?_⟩
    rw [object_modify]
    by_cases hname : receiver = name ∧ name < dispatcher.objects.length
    · obtain ⟨rfl, hopen⟩ := hname
      simp [hopen, object, Exchange.deliver]
    · simp [hname, object]

/-- Routing replies leaves the codec as it was. -/
theorem routeAll_codec (dispatcher : Dispatcher) (events : List Codec.Event) :
    (dispatcher.routeAll events).codec = dispatcher.codec := by
  induction events generalizing dispatcher with
  | nil => rfl
  | cons event events ih =>
    cases event with
    | negotiated version extensions => exact (fail_frame dispatcher _).1
    | completed request response => exact (ih _).trans (deliver_frame dispatcher _).1

/-- What a turn of the reader does: nothing once it stopped; report a failure; or route the replies
that the codec completed. -/
theorem receive_cases (dispatcher : Dispatcher) (chunk : Chunk) :
    (dispatcher.saidReceive chunk = [] ∧ dispatcher.receive chunk = dispatcher) ∨
      (∃ error after, (∀ requestId request, after.outstanding.get requestId = some request →
          dispatcher.codec.outstanding.get requestId = some request) ∧
        dispatcher.saidReceive chunk = [.failed] ∧
        dispatcher.receive chunk =
          { { dispatcher with codec := after }.fail error with reading := false }) ∨
      ∃ events after, Codec.HandledAll (dispatcher.codec.fedWith chunk) events after ∧
        dispatcher.saidReceive chunk =
          { dispatcher with codec := after }.saidRoute events ∧
        dispatcher.receive chunk = { dispatcher with codec := after }.routeAll events := by
  unfold saidReceive receive
  split_ifs
  · obtain ⟨-, hreceive⟩ | ⟨-, error, after, hreceive, -, hkept⟩ |
      ⟨-, frames, events, after, -, hhandle, hreceive⟩ := dispatcher.codec.receive_cases chunk
    · rw [hreceive]
      exact Or.inr (Or.inl ⟨_, _, fun _ _ hget => hget, rfl, rfl⟩)
    · rw [hreceive]
      exact Or.inr (Or.inl ⟨_, after, hkept, rfl, rfl⟩)
    · rw [hreceive]
      exact Or.inr (Or.inr ⟨events, after, Codec.handledAll_of_handleFrames hhandle, rfl, rfl⟩)
  · exact Or.inl ⟨rfl, rfl⟩

/-- What closing an orphan does: have the codec reserve an id, and send the request when there is
one. -/
theorem closeOrphan_cases (dispatcher : Dispatcher) (handle : Bytes) :
    (∃ codec, codec.outstanding = dispatcher.codec.outstanding ∧
        dispatcher.saidCloseOrphan handle = [] ∧
        dispatcher.closeOrphan handle =
          { dispatcher with reaped := dispatcher.reaped + 1, codec := codec }) ∨
      ∃ requestId codec, codec.outstanding = dispatcher.codec.outstanding ∧
        dispatcher.saidCloseOrphan handle =
          { dispatcher with reaped := dispatcher.reaped + 1, codec := codec }.exchange.saidSend
            dispatcher.objects.length (closeRequest requestId handle) ∧
        dispatcher.closeOrphan handle =
          ({ dispatcher with reaped := dispatcher.reaped + 1, codec := codec }.exchange.send
            dispatcher.objects.length (closeRequest requestId handle)).2 := by
  have houtstanding := dispatcher.codec.allocateRequestId_frame.2
  unfold saidCloseOrphan closeOrphan
  dsimp only
  cases hallocate : dispatcher.codec.allocateRequestId with
  | mk result codec =>
    rw [hallocate] at houtstanding
    cases result with
    | error error => exact Or.inl ⟨codec, houtstanding, rfl, rfl⟩
    | ok requestId => exact Or.inr ⟨requestId, codec, houtstanding, rfl, rfl⟩

/-- What a turn of the reaper does: nothing where no orphan waits, and else close the first. -/
theorem reap_cases (dispatcher : Dispatcher) :
    (dispatcher.saidReap = [] ∧ dispatcher.reap = dispatcher) ∨
      ∃ handle orphans, dispatcher.orphans = handle :: orphans ∧
        dispatcher.saidReap = .reaped handle ::
          { dispatcher with orphans := orphans }.saidCloseOrphan handle ∧
        dispatcher.reap = { dispatcher with orphans := orphans }.closeOrphan handle := by
  unfold saidReap reap
  split_ifs
  · exact Or.inl ⟨rfl, rfl⟩
  · split
    · next horphans => simp [horphans]
    · next handle orphans horphans => simp [horphans]

/-! ## Failed connections -/

/-- A dispatcher that failed refuses every request, and has failed still. -/
theorem send_of_failed {dispatcher : Dispatcher} (h : dispatcher.failure ≠ none) (name : ℕ)
    (request : Codec.Request) :
    dispatcher.saidSend name request = [] ∧ (dispatcher.send name request).2.failure ≠ none := by
  unfold saidSend
  obtain ⟨error, hrefused⟩ | ⟨wire, codec, hfailure, -⟩ := send_cases dispatcher name request
  · rw [hrefused]
    exact ⟨rfl, h⟩
  · exact absurd hfailure h

/-- Routing replies sends nothing, and a dispatcher that failed has failed still. -/
theorem route_frame (dispatcher : Dispatcher) (events : List Codec.Event) :
    (∀ name request, .sent name request ∉ dispatcher.saidRoute events) ∧
      (dispatcher.failure ≠ none → (dispatcher.routeAll events).failure ≠ none) := by
  induction events generalizing dispatcher with
  | nil => simp [saidRoute, routeAll]
  | cons event events ih =>
    cases event with
    | negotiated version extensions =>
      have hfailure := (fail_frame dispatcher
        (.protocolError "server sent Negotiated after the handshake")).2.2.2.2.1
      simp [saidRoute, routeAll, route, hfailure]
    | completed request response =>
      obtain ⟨hsaid, hfailed⟩ := ih (dispatcher.deliver ⟨request, response⟩)
      have hfailure := (deliver_frame dispatcher ⟨request, response⟩).2.2.2.2.1
      rw [hfailure] at hfailed
      exact ⟨by simpa [saidRoute] using hsaid, hfailed⟩

/-- A call on a dispatcher that failed sends nothing, and leaves it failed. -/
theorem call_of_failed {dispatcher : Dispatcher} (h : dispatcher.failure ≠ none)
    (request : Call) :
    (∀ name sent, .sent name sent ∉ (dispatcher.call request).1) ∧
      (dispatcher.call request).2.failure ≠ none := by
  have hfails : ∀ (dispatcher : Dispatcher) error, (dispatcher.fail error).failure ≠ none :=
    fun dispatcher error => by simp [(fail_frame dispatcher error).2.2.2.2.1]
  cases request with
  | exchange => simpa [call, exchange] using h
  | send name request =>
    obtain ⟨hsaid, hfailed⟩ := send_of_failed h name request
    simp only [call]
    split_ifs
    · simpa [hsaid] using hfailed
    · simpa using h
  | stalled message => simpa [call] using hfails dispatcher _
  | receive chunk =>
    simp only [call]
    obtain ⟨hsaid, hreceive⟩ | ⟨error, after, -, hsaid, hreceive⟩ |
      ⟨events, after, -, hsaid, hreceive⟩ := dispatcher.receive_cases chunk
    · rw [hsaid, hreceive]
      simpa using h
    · rw [hsaid, hreceive]
      simpa using hfails { dispatcher with codec := after } error
    · rw [hsaid, hreceive]
      obtain ⟨hsent, hfailed⟩ := route_frame { dispatcher with codec := after } events
      exact ⟨hsent, hfailed h⟩
  | take name =>
    simp only [call]
    split
    · simpa using h
    · simpa [modify] using h
  | retire name =>
    simp only [call]
    split_ifs <;> simpa [retire] using h
  | reap =>
    simp only [call]
    obtain ⟨hsaid, hreap⟩ | ⟨handle, orphans, -, hsaid, hreap⟩ := dispatcher.reap_cases
    · rw [hsaid, hreap]
      simpa using h
    · rw [hsaid, hreap]
      obtain ⟨codec, -, hsaid, hclose⟩ | ⟨requestId, codec, -, hsaid, hclose⟩ :=
        closeOrphan_cases { dispatcher with orphans := orphans } handle
      · rw [hsaid, hclose]
        simpa using h
      · have hfailure : ({ dispatcher with
            orphans := orphans
            reaped := dispatcher.reaped + 1
            codec := codec }.exchange).failure ≠ none := h
        obtain ⟨hnone, hfailed⟩ := send_of_failed hfailure dispatcher.objects.length
          (closeRequest requestId handle)
        rw [hsaid, hclose]
        exact ⟨by simp [hnone], hfailed⟩
  | close => simpa [call, close] using h

end Dispatcher

end GantrySftp
