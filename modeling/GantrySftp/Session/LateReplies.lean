import GantrySftp.Session.Handshake

/-!
# Replies to what was given up before the session

A session may be handed over with the request for the limits still in flight. Its id is not free
until the reply comes, so that no request of the session is sent under it before, and the reply
is routed to no exchange.
-/

namespace GantrySftp

open Library

namespace Dispatcher

/-- No reply under an id yet. -/
def Unanswered (requestId : ℤ) (history : List Entry) : Prop :=
  ∀ receiver event, .replied receiver event ∈ history → event.request.requestId ≠ requestId

/-- The first reply under an id goes to no exchange. -/
def Late (requestId : ℤ) (front : List Entry) (receiver : Option ℕ) (event : Completed) : Prop :=
  event.request.requestId = requestId → Unanswered requestId front → receiver = none

/-- How routes and codec agree on an id that was in flight before there was a session: until there
is a reply it is routed nowhere, and in flight unless the connection failed. -/
structure Abandoned (requestId : ℤ) (history : List Entry) (outstanding : Dict ℤ Codec.Request)
    (dispatcher : Dispatcher) : Prop where
  keyed : ∀ other request, outstanding.get other = some request → request.requestId = other
  unrouted : Unanswered requestId history → dispatcher.routes.get requestId = none
  waits : Unanswered requestId history → dispatcher.failure = none →
    (outstanding.get requestId).isSome = true
  late : Replied (Late requestId) history

section Steps

variable {requestId : ℤ} {history : List Entry} {outstanding : Dict ℤ Codec.Request}
  {dispatcher : Dispatcher}

/-- A dispatcher of a session that was handed over with the id in flight. -/
theorem abandoned_init {codec : Codec} (hkeyed : ∀ other request,
      codec.outstanding.get other = some request → request.requestId = other)
    (h : (codec.outstanding.get requestId).isSome = true) :
    Abandoned requestId [] codec.outstanding (init codec) where
  keyed := hkeyed
  unrouted := fun _ => rfl
  waits := fun _ _ => h
  late := replied_nil _

/-- Entries that are no replies leave an id as it was answered. -/
theorem unanswered_append {entries : List Entry}
    (h : ∀ receiver event, .replied receiver event ∉ entries) :
    Unanswered requestId (history ++ entries) ↔ Unanswered requestId history := by
  unfold Unanswered
  constructor
  · exact fun hall receiver event hmem => hall receiver event (List.mem_append_left _ hmem)
  · intro hall receiver event hmem
    exact hall receiver event ((List.mem_append.mp hmem).resolve_right (h receiver event))

/-- An entry that is no reply, and a dispatcher that routes and keeps in flight no less. -/
theorem Abandoned.said (h : Abandoned requestId history outstanding dispatcher) {entry : Entry}
    (hentry : ∀ receiver event, entry ≠ .replied receiver event) {dispatcher' : Dispatcher}
    (hroutes : dispatcher.routes.get requestId = none → dispatcher'.routes.get requestId = none)
    (hfailure : dispatcher'.failure = none → dispatcher.failure = none) :
    Abandoned requestId (history ++ [entry]) outstanding dispatcher' := by
  have hsame : Unanswered requestId (history ++ [entry]) ↔ Unanswered requestId history :=
    unanswered_append fun receiver event hmem =>
      hentry receiver event (List.mem_singleton.mp hmem).symm
  exact ⟨h.keyed, fun hnone => hroutes (h.unrouted (hsame.mp hnone)),
    fun hnone hfailed => h.waits (hsame.mp hnone) (hfailure hfailed),
    h.late.concat _ fun receiver event heq => absurd heq (hentry receiver event)⟩

/-- A dispatcher with the same routes and failure. -/
theorem Abandoned.congr (h : Abandoned requestId history outstanding dispatcher)
    {dispatcher' : Dispatcher} (hroutes : dispatcher'.routes = dispatcher.routes)
    (hfailure : dispatcher'.failure = dispatcher.failure) :
    Abandoned requestId history outstanding dispatcher' := by
  refine ⟨h.keyed, ?_, ?_, h.late⟩
  · rw [hroutes]
    exact h.unrouted
  · rw [hfailure]
    exact h.waits

/-- A routed reply is the first under the id, or leaves it in flight. -/
theorem Abandoned.replied (h : Abandoned requestId history outstanding dispatcher)
    (event : Completed) :
    Abandoned requestId (history ++ [.replied (dispatcher.receiver event) event])
      (outstanding.pop event.request.requestId) (dispatcher.deliver event) := by
  obtain ⟨-, hroutes, -, -, hfailure, -⟩ := deliver_frame dispatcher event
  have hbefore : ∀ {front : List Entry} {back : List Entry},
      Unanswered requestId (front ++ back) → Unanswered requestId front :=
    fun hnone receiver event hmem => hnone receiver event (List.mem_append_left _ hmem)
  constructor
  · intro other request hget
    rw [Dict.get_pop] at hget
    split_ifs at hget
    exact h.keyed other request hget
  · intro hnone
    rw [hroutes, Dict.get_pop]
    split_ifs
    · rfl
    · exact h.unrouted (hbefore hnone)
  · intro hnone hfailed
    have hother : event.request.requestId ≠ requestId := hnone (dispatcher.receiver event) event (by simp)
    rw [Dict.get_pop, if_neg hother]
    exact h.waits (hbefore hnone) (hfailure ▸ hfailed)
  · apply h.late.concat
    intro receiver found hentry hid hnone
    obtain ⟨rfl, rfl⟩ := Entry.replied.inj hentry
    rw [Dispatcher.receiver, hid]
    exact h.unrouted hnone

/-- A failure drops every route. -/
theorem Abandoned.fail (h : Abandoned requestId history outstanding dispatcher)
    {outstanding' : Dict ℤ Codec.Request}
    (hkept : ∀ other request, outstanding'.get other = some request →
      outstanding.get other = some request) (error : DispatchError) :
    Abandoned requestId (history ++ [.failed]) outstanding' (dispatcher.fail error) := by
  obtain ⟨-, hroutes, -, -, hfailure, -⟩ := fail_frame dispatcher error
  refine ⟨fun other request hget => h.keyed other request (hkept other request hget),
    fun _ => by rw [hroutes, Dict.get_empty], fun _ hnone => ?_, h.late.concat _ (by simp)⟩
  rw [hfailure] at hnone
  cases hnone

/-- Routing replies in order. -/
theorem Abandoned.routeAll {codec after : Codec} {events : List Codec.Event}
    (hhandled : Codec.HandledAll codec events after)
    (h : Abandoned requestId history codec.outstanding dispatcher) :
    Abandoned requestId (history ++ dispatcher.saidRoute events) after.outstanding
      (dispatcher.routeAll events) := by
  induction hhandled generalizing history dispatcher with
  | nil codec => simpa [saidRoute, Dispatcher.routeAll] using h
  | cons first rest ih =>
    cases first with
    | version hello hstate hversion extensions =>
      exact (h.fail (fun _ _ hget => rest.get hget) _).congr rfl rfl
    | response request response hstate hsent =>
      have hid : request.requestId = response.requestId := h.keyed _ _ hsent
      rw [← hid] at ih
      have hnext := ih (h.replied ⟨request, response⟩)
      rwa [List.append_assoc] at hnext

/-- No request is sent under an id that is in flight. -/
theorem Abandoned.send (h : Abandoned requestId history dispatcher.codec.outstanding dispatcher)
    (name : ℕ) (request : Codec.Request) :
    Abandoned requestId (history ++ dispatcher.saidSend name request)
      (dispatcher.send name request).2.codec.outstanding (dispatcher.send name request).2 := by
  unfold saidSend
  obtain ⟨error, hrefused⟩ | ⟨wire, codec, hfailure, -, hfree, houtstanding, hsent⟩ :=
    send_cases dispatcher name request
  · rw [hrefused]
    dsimp only
    rw [List.append_nil]
    exact h.congr rfl rfl
  · rw [hsent]
    dsimp only
    have hsame : Unanswered requestId (history ++ [.sent name request]) ↔
        Unanswered requestId history := unanswered_append (by simp)
    have hother : Unanswered requestId history → request.requestId ≠ requestId := by
      rintro hnone rfl
      have hwaits := h.waits hnone hfailure
      rw [hfree] at hwaits
      cases hwaits
    rw [houtstanding]
    refine ⟨fun other found hget => ?_, fun hnone => ?_, fun hnone _ => ?_,
      h.late.concat _ (by simp)⟩
    · rw [Dict.get_set] at hget
      split_ifs at hget with hid
      · obtain rfl := Option.some.inj hget
        exact hid
      · exact h.keyed other found hget
    · rw [Dict.get_set, if_neg (hother (hsame.mp hnone))]
      exact h.unrouted (hsame.mp hnone)
    · rw [Dict.get_set, if_neg (hother (hsame.mp hnone))]
      exact h.waits (hsame.mp hnone) hfailure

/-- A turn of the reader. -/
theorem Abandoned.receive
    (h : Abandoned requestId history dispatcher.codec.outstanding dispatcher) (chunk : Chunk) :
    Abandoned requestId (history ++ dispatcher.saidReceive chunk)
      (dispatcher.receive chunk).codec.outstanding (dispatcher.receive chunk) := by
  obtain ⟨hsaid, hreceive⟩ | ⟨error, after, hkept, hsaid, hreceive⟩ |
    ⟨events, after, hhandled, hsaid, hreceive⟩ := dispatcher.receive_cases chunk
  · rw [hsaid, hreceive]
    simpa using h
  · rw [hsaid, hreceive]
    have hfed : Abandoned requestId history dispatcher.codec.outstanding
        { dispatcher with codec := after } := h.congr rfl rfl
    have hcodec := (fail_frame { dispatcher with codec := after } error).1
    dsimp only
    rw [hcodec]
    exact (hfed.fail hkept error).congr rfl rfl
  · rw [hsaid, hreceive, routeAll_codec]
    have hfed : Abandoned requestId history (dispatcher.codec.fedWith chunk).outstanding
        { dispatcher with codec := after } := h.congr rfl rfl
    exact hfed.routeAll hhandled

/-- Closing an orphan. -/
theorem Abandoned.closeOrphan
    (h : Abandoned requestId history dispatcher.codec.outstanding dispatcher) (handle : Bytes) :
    Abandoned requestId (history ++ dispatcher.saidCloseOrphan handle)
      (dispatcher.closeOrphan handle).codec.outstanding (dispatcher.closeOrphan handle) := by
  obtain ⟨codec, houtstanding, hsaid, hclose⟩ | ⟨other, codec, houtstanding, hsaid, hclose⟩ :=
    dispatcher.closeOrphan_cases handle
  · rw [hsaid, hclose, List.append_nil, houtstanding]
    exact h.congr rfl rfl
  · rw [hsaid, hclose]
    rw [← houtstanding] at h
    apply Abandoned.send
    exact h.congr rfl rfl

/-- A turn of the reaper. -/
theorem Abandoned.reap (h : Abandoned requestId history dispatcher.codec.outstanding dispatcher) :
    Abandoned requestId (history ++ dispatcher.saidReap) dispatcher.reap.codec.outstanding
      dispatcher.reap := by
  obtain ⟨hsaid, hreap⟩ | ⟨handle, orphans, -, hsaid, hreap⟩ := dispatcher.reap_cases
  · rw [hsaid, hreap, List.append_nil]
    exact h
  · rw [hsaid, hreap, List.append_cons]
    apply Abandoned.closeOrphan
    exact h.said (by simp) id id

/-- A call on the dispatcher. -/
theorem Abandoned.call (h : Abandoned requestId history dispatcher.codec.outstanding dispatcher)
    (request : Call) :
    Abandoned requestId (history ++ (dispatcher.call request).1)
      (dispatcher.call request).2.codec.outstanding (dispatcher.call request).2 := by
  have hidle : Abandoned requestId (history ++ []) dispatcher.codec.outstanding dispatcher := by
    simpa using h
  cases request with
  | exchange => exact hidle.congr rfl rfl
  | send name request =>
    unfold Dispatcher.call
    dsimp only
    split_ifs
    · exact h.send name request
    · exact hidle
  | stalled message =>
    have hcodec := (fail_frame dispatcher (.transferTimeout message)).1
    unfold Dispatcher.call
    dsimp only
    rw [hcodec]
    exact h.fail (fun _ _ hget => hget) _
  | receive chunk => exact h.receive chunk
  | take name =>
    unfold Dispatcher.call
    dsimp only
    split
    · exact hidle
    · exact h.said (by simp) id id
  | retire name =>
    unfold Dispatcher.call
    dsimp only
    split_ifs
    · refine h.said (by simp) (fun hnone => ?_) id
      rw [Dispatcher.retire, Dict.get_foldl_pop]
      split_ifs
      · rfl
      · exact hnone
    · exact hidle
  | reap => exact h.reap
  | close => exact hidle.congr rfl rfl

end Steps

/-- The first reply under an id that was in flight before the session goes to no exchange, over
any run. -/
theorem replied_late {codec : Codec} (hkeyed : ∀ other request,
      codec.outstanding.get other = some request → request.requestId = other) {requestId : ℤ}
    (h : (codec.outstanding.get requestId).isSome = true) (calls : List Call) :
    Replied (Late requestId) ((init codec).run calls).1 := by
  have hall : Throughout Dispatcher.call (fun _ _ => True) (init codec) calls :=
    throughout_of_forall fun _ _ => trivial
  have hrun : Abandoned requestId ((init codec).run calls).1
      ((init codec).run calls).2.codec.outstanding ((init codec).run calls).2 :=
    transcript_invariant
      (fun history (dispatcher : Dispatcher) =>
        Abandoned requestId history dispatcher.codec.outstanding dispatcher)
      (abandoned_init hkeyed h) (fun _ _ request h _ => h.call request) hall
  exact hrun.late

end Dispatcher

/-- A session is handed over on a frame boundary if and only if the deadline does not pass in the
middle of writing the request for the limits. And whatever is in flight when a session is handed
over, the reply to it goes to no request of the session. -/
theorem openSession_handover_iff (deadline : Option String) (transport : Transport) :
    ((openSession deadline transport).OnBoundary ↔ ¬ CutsProbe deadline transport) ∧
      ∀ codec limits, (openSession deadline transport).outcome = .ok (codec, limits) →
        ∀ requestId, (codec.outstanding.get requestId).isSome = true →
          ∀ calls, Dispatcher.Replied (Dispatcher.Late requestId)
            ((Dispatcher.init codec).run calls).1 :=
  ⟨openSession_onBoundary deadline transport, fun _ _ hopened _ hwaits calls =>
    Dispatcher.replied_late (fun _ _ hget => openSession_keyed hopened hget) hwaits calls⟩

/-- The bytes of a VERSION that advertises limits. -/
def helloBytes : Chunk :=
  ⟨[0, 0, 0, 32, 2, 0, 0, 0, 3, 0, 0, 0, 18, 108, 105, 109, 105, 116, 115, 64, 111, 112, 101, 110,
    115, 115, 104, 46, 99, 111, 109, 0, 0, 0, 1, 49], false⟩

/-- A handshake with a server that has limits is complete once its VERSION arrived. -/
theorem negotiate_hello (deadline : Option String) (probe : WriteOutcome)
    (arrivals : List Arrival) :
    ∃ codec, negotiate deadline ⟨.written, probe, .chunk helloBytes :: arrivals⟩ =
        (.ok (codec, arrivals), initFrame) ∧
      (codec.extensions.get limitsExtension).isSome = true := by
  let asking : Codec :=
    { Codec.init defaultMaxFrameLength (by decide) with state := .awaitingVersion }
  have hfeed : asking.splitter.feed helloBytes = (.ok [helloBytes.data.drop 4],
      ⟨helloBytes.data, 36, defaultMaxFrameLength, by decide, by decide⟩) := by
    rw [FrameSplitter.feed, FrameSplitter.nextFrames_some rfl, FrameSplitter.nextFrames_none rfl]
    rfl
  have hdecode : decode (helloBytes.data.drop 4) =
      .ok (.version { version := 3, extensions := [(limitsExtension, [49])] }) := by
    decide +kernel
  have hreceive : ∃ codec, asking.receive helloBytes =
      (.ok [.negotiated 3 [(limitsExtension, [49])]], codec) ∧ codec.state = .ready ∧
        (codec.extensions.get limitsExtension).isSome = true := by
    unfold Codec.receive
    rw [if_neg (by decide), hfeed]
    simp only [Codec.handleFrames, hdecode]
    exact ⟨_, rfl, rfl, by simp⟩
  obtain ⟨codec, hreceive, hready, hlimits⟩ := hreceive
  have hread : readVersion deadline asking (.chunk helloBytes :: arrivals) =
      .ok (codec, arrivals) := by
    rw [readVersion, if_neg (by decide), hreceive]
    cases arrivals <;> simp [readVersion, hready]
  refine ⟨codec, ?_, hlimits⟩
  unfold negotiate
  rw [initiated_eq]
  exact Prod.ext hread rfl

/-- A server that is silent about its limits: the session is handed over with the request in
flight. -/
theorem openSession_handover_silent :
    let transport : Transport := ⟨.written, .written, [.chunk helloBytes]⟩
    ((openSession (some "30") transport).OnBoundary ↔ ¬ CutsProbe (some "30") transport) ∧
      ∃ codec limits, (openSession (some "30") transport).outcome = .ok (codec, limits) ∧
        ∀ calls, Dispatcher.Replied (Dispatcher.Late 1) ((Dispatcher.init codec).run calls).1 := by
  obtain ⟨codec, hnegotiate, hlimits⟩ := negotiate_hello (some "30") .written []
  obtain ⟨hfresh, hready, -⟩ := negotiate_ok hnegotiate
  obtain ⟨reserved, after, hallocate, hsend, houtstanding⟩ := send_limits hfresh hready
  have hopened : (openSession (some "30") ⟨.written, .written, [.chunk helloBytes]⟩).outcome =
      .ok (after, .unknown) := by
    rw [openSession_of_negotiate hnegotiate]
    unfold probeLimits readLimits
    rw [if_neg (by simpa using Option.isSome_iff_ne_none.mp hlimits)]
    simp only [hallocate, hsend, awaitLimits]
    rfl
  have hhandover := openSession_handover_iff (some "30")
    ⟨.written, .written, [.chunk helloBytes]⟩
  refine ⟨hhandover.1, after, .unknown, hopened, hhandover.2 after .unknown hopened 1 ?_⟩
  rw [houtstanding]
  rfl

/-- A session is handed over behind the first byte of the request for the limits. -/
theorem openSession_torn :
    ¬ ∀ deadline transport, (openSession deadline transport).OnBoundary := by
  intro h
  obtain ⟨codec, hnegotiate, hlimits⟩ := negotiate_hello (some "30") (.expired 1) []
  refine (openSession_onBoundary (some "30") ⟨.written, .expired 1, [.chunk helloBytes]⟩).mp
    (h _ _) ⟨⟨codec, [], initFrame, hnegotiate, hlimits⟩, rfl, 1, rfl, Nat.one_pos, ?_⟩
  decide +kernel

end GantrySftp
