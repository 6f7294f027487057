import GantrySftp.Session.DispatchCalls

/-!
# Which exchange gets which reply

Over any calls on a dispatcher, a reply goes to the exchange that sent its request, once, as long
as no exchange that retires takes another's route with it. It can, because an id is registered
with an exchange before the codec accepts the send: an id in flight for one exchange and refused
to another is one of the other's all the same.
-/

namespace GantrySftp

open Library

namespace Dispatcher

/-! ## Deliveries -/

/-- Every reply of a history meets a condition on what was there before it. -/
def Replied (condition : List Entry → Option ℕ → Completed → Prop) (history : List Entry) :
    Prop :=
  ∀ front receiver event back, history = front ++ .replied receiver event :: back →
    condition front receiver event

/-- Nothing was replied yet. -/
theorem replied_nil (condition : List Entry → Option ℕ → Completed → Prop) :
    Replied condition [] := by
  intro front receiver event back h
  simp at h

/-- Every reply meets a condition when one more entry does, if it is one. -/
theorem Replied.concat {condition : List Entry → Option ℕ → Completed → Prop}
    {history : List Entry} (h : Replied condition history) (entry : Entry)
    (hentry : ∀ receiver event, entry = .replied receiver event →
      condition history receiver event) :
    Replied condition (history ++ [entry]) := by
  intro front receiver event back hsplit
  cases back using List.reverseRecOn with
  | nil =>
    obtain ⟨rfl, hlast⟩ := List.append_inj' hsplit rfl
    exact hentry receiver event (List.cons.inj hlast).1
  | append_singleton back last =>
    rw [← List.cons_append, ← List.append_assoc] at hsplit
    exact h front receiver event back (List.append_inj' hsplit rfl).1

/-- A reply to a request of an exchange that is still open goes to that exchange, as long as the
connection has not failed. -/
def Delivers (front : List Entry) (receiver : Option ℕ) (event : Completed) : Prop :=
  .failed ∉ front → ∀ name request,
    awaiting front event.request.requestId = some (name, request) → .retired name ∉ front →
      receiver = some name ∧ event.request = request

/-- A reply that goes to an exchange answers a request the exchange sent and has no reply to. -/
def Asked (front : List Entry) (receiver : Option ℕ) (event : Completed) : Prop :=
  ∀ name, receiver = some name →
    awaiting front event.request.requestId = some (name, event.request)

/-! ## What holds throughout -/

/-- How routes, codec and history agree: an id that waits for a reply is in flight; a route belongs
to the exchange that waits; and every queue holds what was delivered and not taken. As long as
every retirement kept to its own routes, whatever an open exchange waits for is routed to it. -/
structure Routes (own : Prop) (history : List Entry) (outstanding : Dict ℤ Codec.Request)
    (dispatcher : Dispatcher) : Prop where
  keyed : ∀ requestId request, outstanding.get requestId = some request →
    request.requestId = requestId
  held : .failed ∉ history → ∀ requestId name request,
    awaiting history requestId = some (name, request) →
    outstanding.get requestId = some request ∧
      (own → .retired name ∉ history → dispatcher.routes.get requestId = some name)
  owned : ∀ requestId name, dispatcher.routes.get requestId = some name →
    name < dispatcher.objects.length ∧ ∃ request, awaiting history requestId = some (name, request)
  queued : ∀ name, deliveredTo name history =
    takenBy name history ++ (dispatcher.object name).ready
  failed : .failed ∈ history →
    dispatcher.failure ≠ none ∧ ∀ requestId, dispatcher.routes.get requestId = none
  delivers : own → Replied Delivers history
  asked : Replied Asked history

/-- A dispatcher of a connection with nothing in flight. -/
theorem routes_init (own : Prop) {codec : Codec} (h : codec.outstanding = .empty) :
    Routes own [] codec.outstanding (init codec) where
  keyed := by simp [h]
  held := by simp [awaiting]
  owned := by simp [init]
  queued := by simp [deliveredTo, takenBy, init, object, Exchange.new]
  failed := by simp
  delivers := fun _ => replied_nil _
  asked := replied_nil _

/-- A call that retires an exchange retires no id that is routed to another. -/
def RetiresOwn (dispatcher : Dispatcher) : Call → Prop
  | .retire name => ∀ requestId ∈ (dispatcher.object name).outstanding, ∀ owner,
      dispatcher.routes.get requestId = some owner → owner = name
  | _ => True

section Steps

variable {own : Prop} {history : List Entry} {outstanding : Dict ℤ Codec.Request} {dispatcher : Dispatcher}

/-- A dispatcher with the same routes, failure and queues, and no fewer exchanges. -/
theorem Routes.congr {dispatcher' : Dispatcher} (h : Routes own history outstanding dispatcher)
    (hroutes : dispatcher'.routes = dispatcher.routes)
    (hlength : dispatcher.objects.length ≤ dispatcher'.objects.length)
    (hfailure : dispatcher'.failure = dispatcher.failure)
    (hqueues : ∀ name, (dispatcher'.object name).ready = (dispatcher.object name).ready) :
    Routes own history outstanding dispatcher' where
  keyed := h.keyed
  held := by
    rw [hroutes]
    exact h.held
  owned := by
    rw [hroutes]
    intro requestId name hroute
    obtain ⟨hopen, hwaiting⟩ := h.owned requestId name hroute
    exact ⟨hopen.trans_le hlength, hwaiting⟩
  queued := fun name => by rw [hqueues, h.queued]
  failed := by
    rw [hfailure, hroutes]
    exact h.failed
  delivers := h.delivers
  asked := h.asked

/-- The codec is no part of the routes. -/
theorem Routes.with_codec (h : Routes own history outstanding dispatcher) (codec : Codec) :
    Routes own history outstanding { dispatcher with codec := codec } :=
  h.congr rfl le_rfl rfl fun _ => rfl

/-- A sent request waits for a reply to its exchange. -/
theorem Routes.sent (h : Routes own history outstanding dispatcher) {name : ℕ}
    (hopen : name < dispatcher.objects.length) {request : Codec.Request}
    (hfailure : dispatcher.failure = none)
    {dispatcher' : Dispatcher}
    (hroutes : dispatcher'.routes = dispatcher.routes.set request.requestId name)
    (hlength : dispatcher'.objects.length = dispatcher.objects.length)
    (hqueues : ∀ name, (dispatcher'.object name).ready = (dispatcher.object name).ready) :
    Routes own (history ++ [.sent name request]) (outstanding.set request.requestId request)
      dispatcher' := by
  have hnot : .failed ∉ history := fun hfailed => (h.failed hfailed).1 hfailure
  constructor
  · intro requestId found hfound
    rw [Dict.get_set] at hfound
    split_ifs at hfound with hid
    · rw [← Option.some.inj hfound, hid]
    · exact h.keyed requestId found hfound
  · intro _ requestId other found hwaiting
    rw [awaiting_concat, Entry.update] at hwaiting
    rw [hroutes, Dict.get_set, Dict.get_set]
    split_ifs at hwaiting with hid
    · obtain ⟨rfl, rfl⟩ := Prod.mk.inj (Option.some.inj hwaiting)
      exact ⟨if_pos hid, fun _ _ => if_pos hid⟩
    · obtain ⟨hheld, hroute⟩ := h.held hnot requestId other found hwaiting
      refine ⟨by rw [if_neg hid, hheld], fun hown hretired => ?_⟩
      rw [if_neg hid]
      exact hroute hown fun hmem => hretired (List.mem_append_left _ hmem)
  · intro requestId other hroute
    rw [hroutes, Dict.get_set] at hroute
    rw [hlength, awaiting_concat, Entry.update]
    split_ifs at hroute ⊢ with hid
    · obtain rfl := Option.some.inj hroute
      exact ⟨hopen, request, rfl⟩
    · exact h.owned requestId other hroute
  · intro other
    rw [hqueues]
    simpa [Entry.deliveredTo, Entry.takenBy] using h.queued other
  · intro hfailed
    simp [hnot] at hfailed
  · exact fun hown => (h.delivers hown).concat _ (by simp)
  · exact h.asked.concat _ (by simp)

/-- A routed reply goes to the exchange that waits for it. -/
theorem Routes.replied (h : Routes own history outstanding dispatcher) (event : Completed)
    (hsent : outstanding.get event.request.requestId = some event.request) :
    Routes own (history ++ [.replied (dispatcher.receiver event) event])
      (outstanding.pop event.request.requestId) (dispatcher.deliver event) := by
  obtain ⟨-, hroutes, hlength, -, hfailure, -, -, hqueues⟩ := deliver_frame dispatcher event
  constructor
  · intro requestId found hfound
    rw [Dict.get_pop] at hfound
    split_ifs at hfound
    exact h.keyed requestId found hfound
  · intro hnot requestId other found hwaiting
    rw [awaiting_concat, Entry.update] at hwaiting
    split_ifs at hwaiting with hid
    rw [hroutes, Dict.get_pop, Dict.get_pop, if_neg hid, if_neg hid]
    obtain ⟨hheld, hroute⟩ :=
      h.held (fun hmem => hnot (List.mem_append_left _ hmem)) requestId other found hwaiting
    exact ⟨hheld, fun hown hretired => hroute hown fun hmem =>
      hretired (List.mem_append_left _ hmem)⟩
  · intro requestId other hroute
    rw [hroutes, Dict.get_pop] at hroute
    split_ifs at hroute with hid
    rw [hlength, awaiting_concat, Entry.update, if_neg hid]
    exact h.owned requestId other hroute
  · intro other
    rw [hqueues]
    have hold := h.queued other
    by_cases hreceiver : dispatcher.receiver event = some other
    · have hopen := (h.owned _ _ hreceiver).1
      simp [hold, Entry.deliveredTo, Entry.takenBy, hreceiver, hopen]
    · simp [hold, Entry.deliveredTo, Entry.takenBy, hreceiver]
  · intro hfailed
    obtain ⟨hrecorded, hnone⟩ := h.failed (by simpa using hfailed)
    rw [hfailure, hroutes]
    exact ⟨hrecorded, by simp [hnone]⟩
  · intro hown
    apply (h.delivers hown).concat
    intro receiver found hentry hnot name request hwaiting hretired
    obtain ⟨rfl, rfl⟩ := Entry.replied.inj hentry
    obtain ⟨hheld, hroute⟩ := h.held hnot _ name request hwaiting
    exact ⟨hroute hown hretired, Option.some.inj (hsent.symm.trans hheld)⟩
  · apply h.asked.concat
    intro receiver found hentry name hreceiver
    obtain ⟨rfl, rfl⟩ := Entry.replied.inj hentry
    obtain ⟨-, request, hwaiting⟩ := h.owned _ _ hreceiver
    have hnot : .failed ∉ history := fun hfailed => by
      rw [receiver, (h.failed hfailed).2] at hreceiver
      cases hreceiver
    have hheld := (h.held hnot _ name request hwaiting).1
    rw [hwaiting, Option.some.inj (hsent.symm.trans hheld)]

/-- A failure drops every route. -/
theorem Routes.fail (h : Routes own history outstanding dispatcher) {outstanding' : Dict ℤ Codec.Request}
    (hkept : ∀ requestId request, outstanding'.get requestId = some request →
      outstanding.get requestId = some request) (error : DispatchError) :
    Routes own (history ++ [.failed]) outstanding' (dispatcher.fail error) := by
  obtain ⟨-, hroutes, -, -, hfailure, -, hqueues⟩ := fail_frame dispatcher error
  constructor
  · exact fun requestId request hget => h.keyed requestId request (hkept requestId request hget)
  · intro hnot
    simp at hnot
  · intro requestId name hroute
    rw [hroutes, Dict.get_empty] at hroute
    cases hroute
  · intro name
    rw [hqueues]
    simpa [Entry.deliveredTo, Entry.takenBy] using h.queued name
  · intro _
    rw [hfailure, hroutes]
    simp
  · exact fun hown => (h.delivers hown).concat _ (by simp)
  · exact h.asked.concat _ (by simp)

/-- Routing replies in order sends each where it is waited for. -/
theorem Routes.routeAll {codec after : Codec} {events : List Codec.Event}
    (hhandled : Codec.HandledAll codec events after)
    (h : Routes own history codec.outstanding dispatcher) :
    Routes own (history ++ dispatcher.saidRoute events) after.outstanding
      (dispatcher.routeAll events) := by
  induction hhandled generalizing history dispatcher with
  | nil codec => simpa [saidRoute, Dispatcher.routeAll] using h
  | cons first rest ih =>
    cases first with
    | version hello hstate hversion extensions =>
      exact (h.fail (fun _ _ hget => rest.get hget) _).congr rfl le_rfl rfl fun _ => rfl
    | response request response hstate hsent =>
      have hid : request.requestId = response.requestId := h.keyed _ _ hsent
      rw [← hid] at hsent ih
      have hnext := ih (h.replied ⟨request, response⟩ hsent)
      rwa [List.append_assoc] at hnext

/-- Sending a request keeps the agreement. -/
theorem Routes.send (h : Routes own history dispatcher.codec.outstanding dispatcher) {name : ℕ}
    (hopen : name < dispatcher.objects.length) (request : Codec.Request) :
    Routes own (history ++ dispatcher.saidSend name request)
      (dispatcher.send name request).2.codec.outstanding (dispatcher.send name request).2 := by
  have hqueues : ∀ other, ((dispatcher.modify name (·.register request.requestId)).object
      other).ready = (dispatcher.object other).ready := by
    intro other
    rw [object_modify]
    split_ifs <;> rfl
  unfold saidSend
  obtain ⟨error, hrefused⟩ | ⟨wire, codec, hfailure, -, -, houtstanding, hsent⟩ :=
    send_cases dispatcher name request
  · rw [hrefused]
    dsimp only
    rw [List.append_nil]
    exact h.congr rfl (length_modify _ _ _).ge rfl hqueues
  · rw [hsent]
    dsimp only
    rw [houtstanding]
    exact h.sent hopen hfailure rfl (length_modify _ _ _) hqueues

/-- A turn of the reader keeps the agreement. -/
theorem Routes.receive (h : Routes own history dispatcher.codec.outstanding dispatcher)
    (chunk : Chunk) :
    Routes own (history ++ dispatcher.saidReceive chunk)
      (dispatcher.receive chunk).codec.outstanding (dispatcher.receive chunk) := by
  obtain ⟨hsaid, hreceive⟩ | ⟨error, after, hkept, hsaid, hreceive⟩ |
    ⟨events, after, hhandled, hsaid, hreceive⟩ := dispatcher.receive_cases chunk
  · rw [hsaid, hreceive]
    simpa using h
  · rw [hsaid, hreceive]
    have hfailed := (h.with_codec after).fail hkept error
    have hcodec := (fail_frame { dispatcher with codec := after } error).1
    dsimp only
    rw [hcodec]
    exact hfailed.congr rfl le_rfl rfl fun _ => rfl
  · rw [hsaid, hreceive, routeAll_codec]
    exact (h.with_codec after).routeAll hhandled

/-- Taking a reply from a queue keeps the agreement. -/
theorem Routes.take (h : Routes own history outstanding dispatcher) {name : ℕ} {event : Completed}
    {ready : List Completed} (hready : (dispatcher.object name).ready = event :: ready) :
    Routes own (history ++ [.taken name event]) outstanding (dispatcher.modify name Exchange.take) := by
  have hopen : name < dispatcher.objects.length := by
    by_contra hnot
    rw [object, List.getD_eq_default _ _ (by omega)] at hready
    cases hready
  constructor
  · exact h.keyed
  · intro hnot requestId other request hwaiting
    rw [awaiting_concat] at hwaiting
    obtain ⟨hheld, hroute⟩ := h.held (by simpa using hnot) requestId other request hwaiting
    exact ⟨hheld, fun hown hretired => hroute hown (by simpa using hretired)⟩
  · intro requestId other hroute
    rw [length_modify, awaiting_concat]
    exact h.owned requestId other hroute
  · intro other
    rw [object_modify]
    have hold := h.queued other
    by_cases hname : name = other
    · subst hname
      simp [hold, hready, hopen, Entry.deliveredTo, Entry.takenBy, Exchange.take]
    · simp [hold, hname, Entry.deliveredTo, Entry.takenBy]
  · intro hfailed
    exact h.failed (by simpa using hfailed)
  · exact fun hown => (h.delivers hown).concat _ (by simp)
  · exact h.asked.concat _ (by simp)

/-- Retiring an exchange keeps the agreement when it takes no other exchange's route with it. -/
theorem Routes.retire (h : Routes own history outstanding dispatcher) (name : ℕ)
    (howns : own → ∀ requestId ∈ (dispatcher.object name).outstanding, ∀ owner,
      dispatcher.routes.get requestId = some owner → owner = name) :
    Routes own (history ++ [.retired name]) outstanding (dispatcher.retire name) := by
  constructor
  · exact h.keyed
  · intro hnot requestId other request hwaiting
    rw [awaiting_concat] at hwaiting
    obtain ⟨hheld, hroute⟩ := h.held (by simpa using hnot) requestId other request hwaiting
    refine ⟨hheld, fun hown hretired => ?_⟩
    have hother : other ≠ name ∧ .retired other ∉ history := by
      simpa [not_or, and_comm] using hretired
    have hfound := hroute hown hother.2
    rw [Dispatcher.retire, Dict.get_foldl_pop, if_neg]
    · exact hfound
    · exact fun hmem => hother.1 (howns hown requestId hmem other hfound)
  · intro requestId other hroute
    rw [Dispatcher.retire, Dict.get_foldl_pop] at hroute
    split_ifs at hroute
    rw [awaiting_concat]
    exact h.owned requestId other hroute
  · intro other
    simpa [Entry.deliveredTo, Entry.takenBy, Dispatcher.retire, object] using h.queued other
  · intro hfailed
    obtain ⟨hrecorded, hnone⟩ := h.failed (by simpa using hfailed)
    exact ⟨hrecorded, by simp [Dispatcher.retire, Dict.get_foldl_pop, hnone]⟩
  · exact fun hown => (h.delivers hown).concat _ (by simp)
  · exact h.asked.concat _ (by simp)

/-- Taking an orphan to close says nothing of routes. -/
theorem Routes.reaped (h : Routes own history outstanding dispatcher) (handle : Bytes) :
    Routes own (history ++ [.reaped handle]) outstanding dispatcher := by
  constructor
  · exact h.keyed
  · intro hnot requestId other request hwaiting
    rw [awaiting_concat] at hwaiting
    obtain ⟨hheld, hroute⟩ := h.held (by simpa using hnot) requestId other request hwaiting
    exact ⟨hheld, fun hown hretired => hroute hown (by simpa using hretired)⟩
  · intro requestId other hroute
    rw [awaiting_concat]
    exact h.owned requestId other hroute
  · intro other
    simpa [Entry.deliveredTo, Entry.takenBy] using h.queued other
  · intro hfailed
    exact h.failed (by simpa using hfailed)
  · exact fun hown => (h.delivers hown).concat _ (by simp)
  · exact h.asked.concat _ (by simp)

/-- Closing an orphan keeps the agreement. -/
theorem Routes.closeOrphan (h : Routes own history dispatcher.codec.outstanding dispatcher)
    (handle : Bytes) :
    Routes own (history ++ dispatcher.saidCloseOrphan handle)
      (dispatcher.closeOrphan handle).codec.outstanding (dispatcher.closeOrphan handle) := by
  obtain ⟨codec, houtstanding, hsaid, hclose⟩ | ⟨requestId, codec, houtstanding, hsaid, hclose⟩ :=
    dispatcher.closeOrphan_cases handle
  · rw [hsaid, hclose, List.append_nil, houtstanding]
    exact h.congr rfl le_rfl rfl fun _ => rfl
  · rw [hsaid, hclose]
    rw [← houtstanding] at h
    apply Routes.send
    · exact h.congr rfl (by simp [exchange]) rfl fun _ => congrArg _ (object_exchange _ _)
    · simp [exchange]

/-- A turn of the reaper keeps the agreement. -/
theorem Routes.reap (h : Routes own history dispatcher.codec.outstanding dispatcher) :
    Routes own (history ++ dispatcher.saidReap) dispatcher.reap.codec.outstanding
      dispatcher.reap := by
  obtain ⟨hsaid, hreap⟩ | ⟨handle, orphans, -, hsaid, hreap⟩ := dispatcher.reap_cases
  · rw [hsaid, hreap, List.append_nil]
    exact h
  · rw [hsaid, hreap, List.append_cons]
    apply Routes.closeOrphan
    exact (h.reaped handle).congr rfl le_rfl rfl fun _ => rfl

/-- A call keeps the agreement when it takes no other exchange's route with it. -/
theorem Routes.call (h : Routes own history dispatcher.codec.outstanding dispatcher) {request : Call}
    (howns : own → dispatcher.RetiresOwn request) :
    Routes own (history ++ (dispatcher.call request).1)
      (dispatcher.call request).2.codec.outstanding (dispatcher.call request).2 := by
  have hidle : Routes own (history ++ []) dispatcher.codec.outstanding dispatcher := by simpa using h
  cases request with
  | exchange =>
    exact hidle.congr rfl (by simp [Dispatcher.call, exchange]) rfl
      fun _ => congrArg _ (object_exchange _ _)
  | send name request =>
    unfold Dispatcher.call
    dsimp only
    split_ifs with hopen
    · exact h.send hopen request
    · exact hidle
  | stalled message =>
    have hcodec := (fail_frame dispatcher (.transferTimeout message)).1
    unfold Dispatcher.call
    dsimp only
    rw [hcodec]
    exact h.fail (fun _ _ hget => hget) _
  | receive chunk => exact h.receive chunk
  | take name =>
    unfold Dispatcher.call
    dsimp only
    split
    · exact hidle
    · next event ready hready => exact h.take hready
  | retire name =>
    unfold Dispatcher.call
    dsimp only
    split_ifs with hopen
    · exact h.retire name howns
    · exact hidle
  | reap => exact h.reap
  | close => exact hidle.congr rfl le_rfl rfl fun _ => rfl

end Steps

/-! ## Runs -/

/-- Routes, codec and history agree after any run. -/
theorem routes_run {own : Prop} {codec : Codec} (hcodec : codec.outstanding = .empty)
    (calls : List Call)
    (howns : Throughout call (fun dispatcher request => own → dispatcher.RetiresOwn request)
      (init codec) calls) :
    Routes own ((init codec).run calls).1 ((init codec).run calls).2.codec.outstanding
      ((init codec).run calls).2 :=
  transcript_invariant
    (fun history (dispatcher : Dispatcher) =>
      Routes own history dispatcher.codec.outstanding dispatcher)
    (routes_init own hcodec) (fun _ _ _ h howns => h.call howns) howns

/-- A refused send or a retirement leaves the routes of other exchanges as they were. -/
def KeepsOthers (dispatcher : Dispatcher) (request : Call) : Prop :=
  match request with
  | .send name packet => (∃ error, (dispatcher.send name packet).1 = .error error) →
      (dispatcher.call request).2.routes = dispatcher.routes
  | .retire name => ∀ requestId owner, owner ≠ name →
      ((dispatcher.call request).2.routes.get requestId = some owner ↔
        dispatcher.routes.get requestId = some owner)
  | _ => True

/-- A refused send routes nothing. -/
theorem keepsOthers_send (dispatcher : Dispatcher) (name : ℕ) (request : Codec.Request) :
    dispatcher.KeepsOthers (.send name request) := by
  rintro ⟨error, hrefused⟩
  simp only [call]
  split_ifs
  · obtain ⟨_, hsend⟩ | ⟨wire, codec, -, -, -, -, hsend⟩ := send_cases dispatcher name request
    · rw [hsend]
      rfl
    · rw [hsend] at hrefused
      cases hrefused
  · rfl

/-- A retirement leaves other exchanges' routes as they were exactly when it retires no id routed
to one of them. -/
theorem keepsOthers_retire (dispatcher : Dispatcher) (name : ℕ) :
    dispatcher.KeepsOthers (.retire name) ↔ dispatcher.RetiresOwn (.retire name) := by
  simp only [KeepsOthers, RetiresOwn, call]
  split_ifs with hopen
  · simp only [retire, Dict.get_foldl_pop]
    constructor
    · intro hkeeps requestId hmem owner hroute
      by_contra hother
      have hkept := (hkeeps requestId owner hother).mpr hroute
      simp [hmem] at hkept
    · intro hown requestId owner hother
      split_ifs with hmem
      · simp only [false_iff]
        exact fun hroute => hother (hown requestId hmem owner hroute)
      · rfl
  · have hnew : dispatcher.object name = .new := List.getD_eq_default _ _ (by omega)
    simp [hnew, Exchange.new]

/-- A call leaves other exchanges' routes as they were exactly when it retires no id routed to one
of them. -/
theorem keepsOthers_iff (dispatcher : Dispatcher) (request : Call) :
    dispatcher.KeepsOthers request ↔ dispatcher.RetiresOwn request := by
  cases request with
  | send name request => exact iff_of_true (keepsOthers_send dispatcher name request) trivial
  | retire name => exact keepsOthers_retire dispatcher name
  | _ => exact Iff.rfl

/-- What concurrent operations rely on over a run: a reply to a request of an open exchange is
placed in that exchange's queue, where it stays until it is taken, and no refused send and no
retirement touches the routes of another exchange. -/
structure RoutesReplies (codec : Codec) (calls : List Call) : Prop where
  delivers : Replied Delivers ((init codec).run calls).1
  asked : Replied Asked ((init codec).run calls).1
  queued : ∀ name, deliveredTo name ((init codec).run calls).1 =
    takenBy name ((init codec).run calls).1 ++ (((init codec).run calls).2.object name).ready
  keeps : Throughout call KeepsOthers (init codec) calls

/-- Replies are routed to the operations that wait for them exactly as long as no retirement
retires an id that is routed to another exchange. -/
theorem routesReplies_iff {codec : Codec} (h : codec.outstanding = .empty) (calls : List Call) :
    RoutesReplies codec calls ↔ Throughout call RetiresOwn (init codec) calls := by
  have hkeeps : Throughout call KeepsOthers (init codec) calls ↔
      Throughout call RetiresOwn (init codec) calls := throughout_congr keepsOthers_iff
  constructor
  · exact fun hreplies => hkeeps.mp hreplies.keeps
  · intro hown
    have hroutes : Routes True _ _ _ :=
      routes_run h calls ((throughout_congr fun _ _ => by simp).mp hown)
    exact ⟨hroutes.delivers trivial, hroutes.asked, hroutes.queued, hkeeps.mpr hown⟩

/-- Replies are routed over a run where one of two exchanges is retired. -/
theorem routesReplies_pair :
    RoutesReplies negotiated [.exchange, .exchange, .send 0 (closeRequest 1 []),
      .send 1 (closeRequest 2 []), .retire 0] := by
  apply (routesReplies_iff rfl _).mpr
  refine ⟨trivial, trivial, trivial, trivial, ?_, trivial⟩
  intro requestId hmem owner hroute
  let dispatcher := ((init negotiated).run [.exchange, .exchange, .send 0 (closeRequest 1 []),
    .send 1 (closeRequest 2 [])]).2
  change requestId ∈ (dispatcher.object 0).outstanding at hmem
  have hids : (dispatcher.object 0).outstanding = [1] := by decide
  have howner : dispatcher.routes.get 1 = some 0 := by decide
  rw [hids, List.mem_singleton] at hmem
  rw [hmem] at hroute
  exact (Option.some.inj (howner.symm.trans hroute)).symm

/-- An exchange whose send was refused takes the route of the exchange that holds its id. -/
theorem not_forall_routesReplies :
    ¬ ∀ codec calls, codec.outstanding = .empty → RoutesReplies codec calls := by
  intro h
  have hkeeps := (h negotiated [.exchange, .exchange, .send 0 (closeRequest 1 []),
    .send 1 (closeRequest 1 []), .retire 1] rfl).keeps
  have hroute := (hkeeps.2.2.2.2.1 1 0 (by decide)).mpr (by decide)
  revert hroute
  decide

end Dispatcher

end GantrySftp
