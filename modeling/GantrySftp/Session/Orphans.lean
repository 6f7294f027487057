import GantrySftp.Session.Routing

/-!
# What becomes of a handle

A HANDLE reply is either placed in the queue of the exchange that asked for it or queued to be
closed by the reaper, once. A handle that waits in a queue is lost when its exchange is retired
before it is taken, since the rule for orphans looks at the routes and not at the queues.
-/

namespace GantrySftp

open Library

namespace Dispatcher

/-! ## Accounts -/

/-- The handle an entry queued to be closed. -/
def Entry.orphaned : Entry → Option Bytes
  | replied none event => handleOf event
  | _ => none

/-- The handle an entry took to be closed. -/
def Entry.handleReaped : Entry → Option Bytes
  | reaped handle => some handle
  | _ => none

/-- The handles queued to be closed. -/
def orphaned (history : List Entry) : List Bytes := history.filterMap Entry.orphaned

/-- The handles taken to be closed. -/
def handlesReaped (history : List Entry) : List Bytes := history.filterMap Entry.handleReaped

/-- The handles queued to be closed after one more entry. -/
@[simp] theorem orphaned_concat (history : List Entry) (entry : Entry) :
    orphaned (history ++ [entry]) = orphaned history ++ entry.orphaned.toList := by
  simp only [orphaned, List.filterMap_append]
  cases hentry : entry.orphaned <;> simp [hentry]

/-- The handles taken to be closed after one more entry. -/
@[simp] theorem handlesReaped_concat (history : List Entry) (entry : Entry) :
    handlesReaped (history ++ [entry]) = handlesReaped history ++ entry.handleReaped.toList := by
  simp only [handlesReaped, List.filterMap_append]
  cases hentry : entry.handleReaped <;> simp [hentry]

/-- While the connection is up, a handle that waits in a queue waits for an open exchange. -/
def KeepsHandles (dispatcher : Dispatcher) : Prop :=
  dispatcher.failure = none → dispatcher.closed = false → ∀ name,
    ∀ event ∈ (dispatcher.object name).ready, (handleOf event).isSome →
      name ∈ dispatcher.exchanges

/-- An exchange is used only inside the block that opens it. -/
def Scoped (dispatcher : Dispatcher) : Call → Prop
  | .send name _ | .take name | .retire name => name ∈ dispatcher.exchanges
  | _ => True

/-- A call that, while the connection is up, retires no exchange before its handles are taken. -/
def TakesHandles (dispatcher : Dispatcher) : Call → Prop
  | .retire name => dispatcher.failure = none → dispatcher.closed = false →
      ∀ event ∈ (dispatcher.object name).ready, handleOf event = none
  | _ => True

/-! ## What holds throughout -/

/-- How exchanges, routes and orphans agree: the orphans not yet reaped are queued in order; a
route is registered with its exchange, which is open; and no handle waits for nobody. -/
structure Handles (history : List Entry) (dispatcher : Dispatcher) : Prop where
  orphans : orphaned history = handlesReaped history ++ dispatcher.orphans
  opened : ∀ name ∈ dispatcher.exchanges, name < dispatcher.objects.length
  registered : ∀ requestId name, dispatcher.routes.get requestId = some name →
    requestId ∈ (dispatcher.object name).outstanding
  routed : ∀ requestId name, dispatcher.routes.get requestId = some name →
    name ∈ dispatcher.exchanges
  kept : dispatcher.KeepsHandles

/-- A dispatcher without exchanges. -/
theorem handles_init (codec : Codec) : Handles [] (init codec) := by
  constructor <;> simp [orphaned, handlesReaped, init, KeepsHandles, object, Exchange.new]

section Steps

variable {history : List Entry} {dispatcher : Dispatcher}

/-- Registering an id takes none from an exchange. -/
theorem mem_outstanding_register {name other : ℕ} {requestId found : ℤ}
    (h : found ∈ (dispatcher.object other).outstanding) :
    found ∈ ((dispatcher.modify name (·.register requestId)).object other).outstanding := by
  rw [object_modify]
  split_ifs
  · exact List.mem_insert_of_mem h
  · exact h

/-- Delivering a reply takes no other id from an exchange. -/
theorem mem_outstanding_deliver {event : Completed} {name : ℕ} {requestId : ℤ}
    (hid : event.request.requestId ≠ requestId)
    (h : requestId ∈ (dispatcher.object name).outstanding) :
    requestId ∈ ((dispatcher.deliver event).object name).outstanding := by
  unfold deliver
  split
  · unfold orphan
    split <;> exact h
  · rw [object_modify]
    split_ifs
    · exact List.mem_filter.mpr ⟨h, by simpa using Ne.symm hid⟩
    · exact h

/-- Entries about neither a reply nor an orphan. -/
theorem Handles.said (h : Handles history dispatcher) (entry : Entry)
    (horphaned : entry.orphaned = none) (hreaped : entry.handleReaped = none) :
    Handles (history ++ [entry]) dispatcher where
  orphans := by simpa [horphaned, hreaped] using h.orphans
  opened := h.opened
  registered := h.registered
  routed := h.routed
  kept := h.kept

/-- A dispatcher with the same routes, exchanges, orphans and queues. -/
theorem Handles.congr {dispatcher' : Dispatcher} (h : Handles history dispatcher)
    (hroutes : dispatcher'.routes = dispatcher.routes)
    (hexchanges : dispatcher'.exchanges = dispatcher.exchanges)
    (horphans : dispatcher'.orphans = dispatcher.orphans)
    (hlength : dispatcher'.objects.length = dispatcher.objects.length)
    (hids : ∀ name, ∀ requestId ∈ (dispatcher.object name).outstanding,
      requestId ∈ (dispatcher'.object name).outstanding)
    (hready : ∀ name, ∀ event ∈ (dispatcher'.object name).ready,
      event ∈ (dispatcher.object name).ready)
    (hfailure : dispatcher'.failure = none → dispatcher.failure = none)
    (hclosed : dispatcher'.closed = false → dispatcher.closed = false) :
    Handles history dispatcher' where
  orphans := by rw [horphans, h.orphans]
  opened := by
    rw [hexchanges, hlength]
    exact h.opened
  registered := by
    rw [hroutes]
    exact fun requestId name hroute => hids name _ (h.registered requestId name hroute)
  routed := by
    rw [hroutes, hexchanges]
    exact h.routed
  kept := by
    intro hup hopen name event hmem hhandle
    rw [hexchanges]
    exact h.kept (hfailure hup) (hclosed hopen) name event (hready name event hmem) hhandle

/-- Opening an exchange keeps every handle. -/
theorem Handles.exchange (h : Handles history dispatcher) :
    Handles history dispatcher.exchange where
  orphans := h.orphans
  opened := by
    intro name hmem
    have hlength : dispatcher.exchange.objects.length = dispatcher.objects.length + 1 := by
      simp [Dispatcher.exchange]
    obtain hold | hnew := List.mem_append.mp hmem
    · have := h.opened name hold
      omega
    · have := List.mem_singleton.mp hnew
      omega
  registered := by
    intro requestId name hroute
    rw [object_exchange]
    exact h.registered requestId name hroute
  routed := fun requestId name hroute =>
    List.mem_append_left _ (h.routed requestId name hroute)
  kept := by
    intro hup hopen name event hmem hhandle
    rw [object_exchange] at hmem
    exact List.mem_append_left _ (h.kept hup hopen name event hmem hhandle)

/-- Sending through an open exchange keeps every handle. -/
theorem Handles.send (h : Handles history dispatcher) {name : ℕ}
    (hopen : name ∈ dispatcher.exchanges) (request : Codec.Request) :
    Handles (history ++ dispatcher.saidSend name request) (dispatcher.send name request).2 := by
  have hregistered : Handles history
      (dispatcher.modify name (·.register request.requestId)) := by
    refine h.congr rfl rfl rfl (length_modify _ _ _) ?_ ?_ id id
    · exact fun _ _ => mem_outstanding_register
    · intro other event hmem
      rw [object_modify] at hmem
      split_ifs at hmem <;> exact hmem
  unfold saidSend
  obtain ⟨error, hrefused⟩ | ⟨wire, codec, -, -, -, -, hsent⟩ :=
    send_cases dispatcher name request
  · rw [hrefused]
    dsimp only
    rw [List.append_nil]
    exact hregistered
  · rw [hsent]
    dsimp only
    have hsaid := hregistered.said (.sent name request) rfl rfl
    refine ⟨hsaid.orphans, hsaid.opened, ?_, ?_, hsaid.kept⟩
    · intro requestId other hroute
      rw [Dict.get_set] at hroute
      split_ifs at hroute with hid
      · rw [← Option.some.inj hroute, ← hid]
        change _ ∈ ((dispatcher.modify name (·.register _)).object name).outstanding
        rw [object_modify, if_pos ⟨rfl, h.opened name hopen⟩]
        exact List.mem_insert_self
      · exact hsaid.registered requestId other hroute
    · intro requestId other hroute
      rw [Dict.get_set] at hroute
      split_ifs at hroute
      · exact Option.some.inj hroute ▸ hopen
      · exact h.routed requestId other hroute

/-- Routing a reply keeps every handle. -/
theorem Handles.replied (h : Handles history dispatcher) (event : Completed) :
    Handles (history ++ [.replied (dispatcher.receiver event) event])
      (dispatcher.deliver event) := by
  obtain ⟨-, hroutes, hlength, hexchanges, hfailure, hclosed, horphans, hready⟩ :=
    deliver_frame dispatcher event
  constructor
  · rw [horphans, orphaned_concat, handlesReaped_concat, h.orphans]
    cases hreceiver : dispatcher.receiver event <;> simp [Entry.orphaned, Entry.handleReaped]
  · rw [hexchanges, hlength]
    exact h.opened
  · intro requestId name hroute
    rw [hroutes, Dict.get_pop] at hroute
    split_ifs at hroute with hid
    exact mem_outstanding_deliver hid (h.registered requestId name hroute)
  · intro requestId name hroute
    rw [hroutes, Dict.get_pop] at hroute
    rw [hexchanges]
    split_ifs at hroute
    exact h.routed requestId name hroute
  · intro hup hopen name other hmem hhandle
    rw [hfailure] at hup
    rw [hclosed] at hopen
    rw [hready, List.mem_append] at hmem
    rw [hexchanges]
    obtain hold | hnew := hmem
    · exact h.kept hup hopen name other hold hhandle
    · split_ifs at hnew with hreceiver
      · exact h.routed _ _ hreceiver.1
      · cases hnew

/-- A failure leaves no handle to be kept. -/
theorem Handles.fail (h : Handles history dispatcher) (error : DispatchError) :
    Handles (history ++ [.failed]) (dispatcher.fail error) := by
  obtain ⟨-, hroutes, hlength, hexchanges, hfailure, horphans, -⟩ := fail_frame dispatcher error
  have hsaid := h.said .failed rfl rfl
  constructor
  · rw [horphans, hsaid.orphans]
  · rw [hexchanges, hlength]
    exact h.opened
  · simp [hroutes]
  · simp [hroutes]
  · intro hup
    rw [hfailure] at hup
    cases hup

/-- Routing replies in order keeps every handle. -/
theorem Handles.routeAll (h : Handles history dispatcher) (events : List Codec.Event) :
    Handles (history ++ dispatcher.saidRoute events) (dispatcher.routeAll events) := by
  induction events generalizing history dispatcher with
  | nil => simpa [saidRoute, Dispatcher.routeAll] using h
  | cons event events ih =>
    cases event with
    | negotiated version extensions =>
      exact (h.fail _).congr rfl rfl rfl rfl (fun _ _ => id) (fun _ _ => id) id id
    | completed request response =>
      have hnext := ih (h.replied ⟨request, response⟩)
      rwa [List.append_assoc] at hnext

/-- A turn of the reader keeps every handle. -/
theorem Handles.receive (h : Handles history dispatcher) (chunk : Chunk) :
    Handles (history ++ dispatcher.saidReceive chunk) (dispatcher.receive chunk) := by
  have hcodec : ∀ codec, Handles history { dispatcher with codec := codec } := fun _ =>
    h.congr rfl rfl rfl rfl (fun _ _ => id) (fun _ _ => id) id id
  obtain ⟨hsaid, hreceive⟩ | ⟨error, after, -, hsaid, hreceive⟩ |
    ⟨events, after, -, hsaid, hreceive⟩ := dispatcher.receive_cases chunk
  · rw [hsaid, hreceive]
    simpa using h
  · rw [hsaid, hreceive]
    exact ((hcodec after).fail error).congr rfl rfl rfl rfl (fun _ _ => id) (fun _ _ => id) id id
  · rw [hsaid, hreceive]
    exact (hcodec after).routeAll events

/-- Taking a reply keeps every handle. -/
theorem Handles.take (h : Handles history dispatcher) (name : ℕ) (event : Completed) :
    Handles (history ++ [.taken name event]) (dispatcher.modify name Exchange.take) := by
  refine (h.said (.taken name event) rfl rfl).congr rfl rfl rfl (length_modify _ _ _) ?_ ?_ id id
  · intro other requestId hmem
    rw [object_modify]
    split_ifs <;> exact hmem
  · intro other found hmem
    rw [object_modify] at hmem
    split_ifs at hmem
    · exact List.mem_of_mem_tail hmem
    · exact hmem

/-- Retiring an exchange with no handle in its queue keeps every handle. -/
theorem Handles.retire (h : Handles history dispatcher) {name : ℕ}
    (htaken : dispatcher.TakesHandles (.retire name)) :
    Handles (history ++ [.retired name]) (dispatcher.retire name) := by
  have hsaid := h.said (.retired name) rfl rfl
  have hroute : ∀ requestId other, (dispatcher.retire name).routes.get requestId = some other →
      dispatcher.routes.get requestId = some other ∧
        requestId ∉ (dispatcher.object name).outstanding := by
    intro requestId other hroute
    rw [Dispatcher.retire, Dict.get_foldl_pop] at hroute
    split_ifs at hroute with hmem
    exact ⟨hroute, hmem⟩
  constructor
  · exact hsaid.orphans
  · exact fun other hmem => h.opened other (List.mem_of_mem_filter hmem)
  · exact fun requestId other hfound => h.registered requestId other (hroute _ _ hfound).1
  · intro requestId other hfound
    obtain ⟨hold, hnot⟩ := hroute requestId other hfound
    apply List.mem_filter.mpr
    refine ⟨h.routed requestId other hold, ?_⟩
    have hother : other ≠ name := by
      rintro rfl
      exact hnot (h.registered requestId other hold)
    simpa using hother
  · intro hup hopen other event hmem hhandle
    apply List.mem_filter.mpr
    refine ⟨h.kept hup hopen other event hmem hhandle, ?_⟩
    have hother : other ≠ name := by
      rintro rfl
      simp [htaken hup hopen event hmem] at hhandle
    simpa using hother

/-- A turn of the reaper keeps every handle. -/
theorem Handles.reap (h : Handles history dispatcher) :
    Handles (history ++ dispatcher.saidReap) dispatcher.reap := by
  obtain ⟨hsaid, hreap⟩ | ⟨handle, orphans, horphans, hsaid, hreap⟩ := dispatcher.reap_cases
  · rw [hsaid, hreap, List.append_nil]
    exact h
  · have htaken : ∀ codec reaped, Handles (history ++ [.reaped handle])
        { dispatcher with orphans := orphans, codec := codec, reaped := reaped } := fun _ _ =>
      { orphans := by simp [h.orphans, horphans, Entry.orphaned, Entry.handleReaped]
        opened := h.opened
        registered := h.registered
        routed := h.routed
        kept := h.kept }
    rw [hsaid, hreap, List.append_cons]
    obtain ⟨codec, -, hsaid, hclose⟩ | ⟨requestId, codec, -, hsaid, hclose⟩ :=
      closeOrphan_cases { dispatcher with orphans := orphans } handle
    · rw [hsaid, hclose, List.append_nil]
      exact htaken codec _
    · rw [hsaid, hclose]
      exact (htaken codec _).exchange.send (by simp [Dispatcher.exchange]) _

/-- A call keeps every handle when it retires no exchange before its handles are taken. -/
theorem Handles.call (h : Handles history dispatcher) {request : Call}
    (hscoped : dispatcher.Scoped request) (htaken : dispatcher.TakesHandles request) :
    Handles (history ++ (dispatcher.call request).1) (dispatcher.call request).2 := by
  have hidle : Handles (history ++ []) dispatcher := by simpa using h
  cases request with
  | exchange => simpa [Dispatcher.call] using h.exchange
  | send name request =>
    unfold Dispatcher.call
    dsimp only
    split_ifs
    · exact h.send hscoped request
    · exact hidle
  | stalled message => exact h.fail _
  | receive chunk => exact h.receive chunk
  | take name =>
    unfold Dispatcher.call
    dsimp only
    split
    · exact hidle
    · exact h.take _ _
  | retire name =>
    unfold Dispatcher.call
    dsimp only
    split_ifs
    · exact h.retire htaken
    · exact hidle
  | reap => exact h.reap
  | close =>
    exact hidle.congr rfl rfl rfl rfl (fun _ _ => id) (fun _ _ => id) id fun hopen => by cases hopen

end Steps

/-! ## Runs -/

/-- Exchanges, routes and orphans agree after any run that retires no exchange before its handles
are taken. -/
theorem handles_run (codec : Codec) (calls : List Call)
    (hscoped : Throughout call Scoped (init codec) calls)
    (htaken : Throughout call TakesHandles (init codec) calls) :
    Handles ((init codec).run calls).1 ((init codec).run calls).2 :=
  transcript_invariant Handles (handles_init codec) (fun _ _ _ h hcall => h.call hcall.1 hcall.2)
    (throughout_and.mpr ⟨hscoped, htaken⟩)

/-- What becomes of the handles of a run: a reply goes to an exchange that asked for it, where it
waits to be taken, and a handle that goes to none is queued to be closed, and taken from the queue
once. In every state, a handle that waits for its exchange waits for an open one. -/
structure ClosesHandles (codec : Codec) (calls : List Call) : Prop where
  asked : Replied Asked ((init codec).run calls).1
  queued : ∀ name, deliveredTo name ((init codec).run calls).1 =
    takenBy name ((init codec).run calls).1 ++ (((init codec).run calls).2.object name).ready
  orphans : orphaned ((init codec).run calls).1 =
    handlesReaped ((init codec).run calls).1 ++ ((init codec).run calls).2.orphans
  kept : ∀ front back, calls = front ++ back → ((init codec).run front).2.KeepsHandles

/-- A retirement that leaves no handle waiting for nobody found none in the queue. -/
theorem takesHandles_of_keepsHandles {dispatcher : Dispatcher} {request : Call}
    (h : (dispatcher.call request).2.KeepsHandles) (hscoped : dispatcher.Scoped request)
    (hopened : ∀ name ∈ dispatcher.exchanges, name < dispatcher.objects.length) :
    dispatcher.TakesHandles request := by
  cases request with
  | retire name =>
    intro hup hopen event hmem
    rw [call, if_pos (hopened name hscoped)] at h
    by_contra hhandle
    have hkept := h hup hopen name event hmem (Option.isSome_iff_ne_none.mpr hhandle)
    simp [retire] at hkept
  | _ => trivial

/-- No handle leaks exactly as long as no exchange is retired with a handle in its queue. -/
theorem closesHandles_iff {codec : Codec} (h : codec.outstanding = .empty) (calls : List Call)
    (hscoped : Throughout call Scoped (init codec) calls) :
    ClosesHandles codec calls ↔ Throughout call TakesHandles (init codec) calls := by
  constructor
  · intro hcloses
    have hkept := hcloses.kept
    clear hcloses
    induction calls using List.reverseRecOn with
    | nil => trivial
    | append_singleton calls request ih =>
      obtain ⟨hscoped, hlast⟩ := (throughout_concat).mp hscoped
      have hbefore := ih hscoped fun front back hsplit =>
        hkept front (back ++ [request]) (by simp [hsplit])
      have hafter := hkept (calls ++ [request]) [] (by simp)
      rw [run, transcript_concat] at hafter
      apply (throughout_concat).mpr
      exact ⟨hbefore, takesHandles_of_keepsHandles hafter hlast
        (handles_run codec calls hscoped hbefore).opened⟩
  · intro htaken
    have hroutes := routes_run h calls (throughout_of_forall fun _ _ => False.elim)
    refine ⟨hroutes.asked, hroutes.queued, (handles_run codec calls hscoped htaken).orphans, ?_⟩
    intro front back hsplit
    rw [hsplit] at hscoped htaken
    exact (handles_run codec front (throughout_of_append hscoped)
      (throughout_of_append htaken)).kept

/-- An OPENDIR. -/
def openRoot : Codec.Request := ⟨.opendir ⟨1, [47]⟩, rfl⟩

/-- A HANDLE reply to it. -/
def opened : Completed := ⟨openRoot, ⟨.handle ⟨1, [104]⟩, rfl⟩⟩

/-- The bytes of that reply. -/
def openedBytes : Chunk := ⟨[0, 0, 0, 10, 102, 0, 0, 0, 1, 0, 0, 0, 1, 104], false⟩

/-- An exchange that sent an OPENDIR and received the bytes of the reply has it in its queue. -/
theorem receive_opened :
    let asking := ((init negotiated).run [.exchange, .send 0 openRoot]).2
    ∃ codec routes, asking.receive openedBytes =
      { asking with codec := codec, routes := routes, objects := [⟨[], [opened], none⟩] } := by
  intro asking
  have hfeed : asking.codec.splitter.feed openedBytes =
      (.ok [[102, 0, 0, 0, 1, 0, 0, 0, 1, 104]],
        ⟨openedBytes.data, 14, 262144, by decide, by decide⟩) := by
    rw [FrameSplitter.feed, FrameSplitter.nextFrames_some rfl, FrameSplitter.nextFrames_none rfl]
    rfl
  have hdecode : decode [102, 0, 0, 0, 1, 0, 0, 0, 1, 104] = .ok opened.response.packet := by
    decide
  unfold receive Codec.receive
  rw [if_pos (by decide), if_neg (by decide), hfeed]
  simp only [Codec.handleFrames, hdecode]
  exact ⟨_, _, rfl⟩

/-- A handle that is taken before its exchange is retired does not leak. -/
theorem closesHandles_taken :
    ClosesHandles negotiated
      [.exchange, .send 0 openRoot, .receive openedBytes, .take 0, .retire 0] := by
  obtain ⟨codec, routes, hreceive⟩ := receive_opened
  let asking := ((init negotiated).run [.exchange, .send 0 openRoot]).2
  have hscoped : Throughout call Scoped (init negotiated)
      [.exchange, .send 0 openRoot, .receive openedBytes, .take 0, .retire 0] := by
    refine ⟨trivial, List.mem_singleton.mpr rfl, trivial, ?_, ?_, trivial⟩
    · change 0 ∈ (asking.receive openedBytes).exchanges
      rw [hreceive]
      exact List.mem_singleton.mpr rfl
    · change 0 ∈ ((asking.receive openedBytes).call (.take 0)).2.exchanges
      rw [hreceive]
      exact List.mem_singleton.mpr rfl
  apply (closesHandles_iff rfl _ hscoped).mpr
  refine ⟨trivial, trivial, trivial, trivial, ?_, trivial⟩
  change ((asking.receive openedBytes).call (.take 0)).2.TakesHandles (.retire 0)
  rw [hreceive]
  intro _ _ event hmem
  cases hmem

/-- A handle that waits in the queue of an exchange when it is retired leaks. -/
theorem not_forall_closesHandles :
    ¬ ∀ codec calls, codec.outstanding = .empty → Throughout call Scoped (init codec) calls →
      ClosesHandles codec calls := by
  intro h
  obtain ⟨codec, routes, hreceive⟩ := receive_opened
  let asking := ((init negotiated).run [.exchange, .send 0 openRoot]).2
  have hscoped : Throughout call Scoped (init negotiated)
      [.exchange, .send 0 openRoot, .receive openedBytes, .retire 0] := by
    refine ⟨trivial, List.mem_singleton.mpr rfl, trivial, ?_, trivial⟩
    change 0 ∈ (asking.receive openedBytes).exchanges
    rw [hreceive]
    exact List.mem_singleton.mpr rfl
  have hkept := (h negotiated _ rfl hscoped).kept _ [] (List.append_nil _).symm
  change ((asking.receive openedBytes).call (.retire 0)).2.KeepsHandles at hkept
  rw [hreceive] at hkept
  have hopen := hkept rfl rfl 0 opened (List.mem_singleton.mpr rfl) rfl
  cases hopen

end Dispatcher

end GantrySftp
