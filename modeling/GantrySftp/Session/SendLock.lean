import GantrySftp.Session.DispatchCalls

/-!
# Writing frames under the send lock

Tasks write their frames one at a time: a task that finds the lock taken parks on it, and is let in
later without another look at the connection. A write that misses its deadline fails the
connection, and a write that is cancelled from outside does not. Nothing follows a frame that was
cut short as long as only deadlines cut frames short, and only with no task parked.
-/

namespace GantrySftp

open Library

/-- A frame to be written, with the name of its request's class. -/
structure Frame where
  className : String
  wire : Bytes
  deriving DecidableEq

/-- A frame handed to the transport: what of it was written, and what was not. -/
structure Sending where
  className : String
  sent : Bytes
  unsent : Bytes
  deriving DecidableEq

namespace Sending

/-- A frame of which nothing is written yet. -/
def start (frame : Frame) : Sending where
  className := frame.className
  sent := []
  unsent := frame.wire

/-- More of a frame is written. -/
def advance (sending : Sending) (count : ℕ) : Sending where
  className := sending.className
  sent := sending.sent ++ sending.unsent.take count
  unsent := sending.unsent.drop count

/-- All bytes of the frame. -/
def wire (sending : Sending) : Bytes := sending.sent ++ sending.unsent

/-- Whether only part of the frame is written. -/
def Cut (sending : Sending) : Prop := sending.sent ≠ [] ∧ sending.unsent ≠ []

end Sending

/-- The failure of a connection that did not accept a frame in time. -/
def stalled (sending : Sending) (sendTimeout : String) : DispatchError :=
  let length := sending.wire.length
  let className := sending.className
  .transferTimeout (s!"the connection did not accept {length} bytes of " ++
    s!"{className} within {sendTimeout}s; the peer has stopped " ++
    "reading and the stream can no longer be trusted")

/-- The tasks that write through one dispatcher: the one inside the transport, which holds the
lock, and those parked on it. -/
structure Senders where
  dispatcher : Dispatcher
  sendTimeout : Option String
  holder : Option Sending
  parked : List Frame

namespace Senders

open Dispatcher

/-- A dispatcher with no task writing. -/
def start (codec : Codec) (sendTimeout : Option String) : Senders where
  dispatcher := init codec
  sendTimeout := sendTimeout
  holder := none
  parked := []

/-- What happens to the tasks that write. A deadline and a cancellation may find a task inside the
transport or parked on the lock. -/
inductive Event
  | call (request : Dispatcher.Call)
  | acquire (index : ℕ)
  | write (count : ℕ)
  | finish
  | expire
  | expireParked (index : ℕ)
  | cancel
  | cancelParked (index : ℕ)

/-- Take the send lock for a frame, or park on it. -/
def lock (senders : Senders) (frame : Frame) : Senders :=
  if senders.holder = none ∧ senders.parked = [] then
    { senders with holder := some (.start frame) }
  else { senders with parked := senders.parked ++ [frame] }

/-- The frame of a request that was sent. -/
def submitted : Entry → Option Frame
  | .sent _ request =>
    match Codec.wire request.packet with
    | .ok wire => some ⟨request.packet.className, wire⟩
    | .error _ => none
  | _ => none

/-- A call on the dispatcher, and the writes that the requests sent by it begin. -/
def call (senders : Senders) (request : Dispatcher.Call) : Senders :=
  let called := { senders with dispatcher := (senders.dispatcher.call request).2 }
  ((senders.dispatcher.call request).1.filterMap submitted).foldl lock called

/-- Let a parked task in when the lock is free. -/
def acquire (senders : Senders) (index : ℕ) : Senders :=
  match senders.holder, senders.parked[index]? with
  | none, some frame =>
    { senders with holder := some (.start frame), parked := senders.parked.eraseIdx index }
  | _, _ => senders

/-- The deadline of a task: fail the connection. -/
def timeOut (senders : Senders) (sending : Sending) (sendTimeout : String) : Senders :=
  { senders with dispatcher := senders.dispatcher.fail (stalled sending sendTimeout) }

/-- The call of the transport that ended, if one did, and the tasks after an event. Without a send
timeout there are no deadlines. -/
def step (senders : Senders) : Event → List Sending × Senders
  | .call request => ([], senders.call request)
  | .acquire index => ([], senders.acquire index)
  | .write count => ([], { senders with holder := senders.holder.map (·.advance count) })
  | .finish =>
    match senders.holder with
    | some sending =>
      if sending.unsent = [] then ([sending], { senders with holder := none }) else ([], senders)
    | none => ([], senders)
  | .expire =>
    match senders.holder, senders.sendTimeout with
    | some sending, some sendTimeout =>
      ([sending], { senders with holder := none }.timeOut sending sendTimeout)
    | _, _ => ([], senders)
  | .expireParked index =>
    match senders.parked[index]?, senders.sendTimeout with
    | some frame, some sendTimeout =>
      ([], { senders with parked := senders.parked.eraseIdx index }.timeOut
        (.start frame) sendTimeout)
    | _, _ => ([], senders)
  | .cancel =>
    match senders.holder with
    | some sending => ([sending], { senders with holder := none })
    | none => ([], senders)
  | .cancelParked index => ([], { senders with parked := senders.parked.eraseIdx index })

/-- The calls of the transport that ended, in order, and the tasks after events. -/
def run (senders : Senders) (events : List Event) : List Sending × Senders :=
  transcript step senders events

/-! ## Streams -/

/-- Nothing was handed to the transport after a frame was cut short. -/
def Untorn (sendings : List Sending) : Prop :=
  ∀ front sending back, sendings = front ++ sending :: back → sending.Cut → back = []

/-- The bytes that calls of the transport wrote. -/
def stream (sendings : List Sending) : Bytes := sendings.flatMap Sending.sent

/-- One more call, after none that was cut short. -/
theorem untorn_concat {sendings : List Sending} (h : ∀ sending ∈ sendings, ¬ sending.Cut)
    (last : Sending) : Untorn (sendings ++ [last]) := by
  intro front sending back hsplit hcut
  cases back using List.reverseRecOn with
  | nil => rfl
  | append_singleton back final =>
    rw [← List.cons_append, ← List.append_assoc] at hsplit
    have hmem : sending ∈ sendings := by
      rw [(List.append_inj' hsplit rfl).1]
      simp
    exact absurd hcut (h sending hmem)

/-- No call before the last was cut short. -/
theorem Untorn.not_cut {sendings : List Sending} {last : Sending}
    (h : Untorn (sendings ++ [last])) : ∀ sending ∈ sendings, ¬ sending.Cut := by
  intro sending hmem hcut
  obtain ⟨front, back, rfl⟩ := List.append_of_mem hmem
  have hnone := h front sending (back ++ [last]) (by simp) hcut
  simp at hnone

/-- Without a frame cut short, whole frames were written. -/
theorem stream_eq_of_not_cut {sendings : List Sending} (h : ∀ sending ∈ sendings, ¬ sending.Cut) :
    stream sendings = (sendings.filter (·.unsent = [])).flatMap Sending.wire := by
  induction sendings with
  | nil => rfl
  | cons sending sendings ih =>
    have hrest := ih fun other hmem => h other (List.mem_cons_of_mem _ hmem)
    have hnot := h sending List.mem_cons_self
    unfold stream at hrest ⊢
    by_cases hwhole : sending.unsent = []
    · simp [hwhole, hrest, Sending.wire]
    · have hsent : sending.sent = [] := by
        by_contra hsent
        exact hnot ⟨hsent, hwhole⟩
      simp [hwhole, hsent, hrest]

/-- Where nothing followed a frame cut short, the bytes are those of whole frames, and then those
of at most one truncated frame. -/
theorem Untorn.stream_eq {sendings : List Sending} (h : Untorn sendings) :
    ∃ rest, stream sendings =
        (sendings.filter (·.unsent = [])).flatMap Sending.wire ++ rest ∧
      (rest = [] ∨ ∃ front last, sendings = front ++ [last] ∧ last.Cut ∧ rest = last.sent) := by
  cases sendings using List.reverseRecOn with
  | nil => exact ⟨[], rfl, Or.inl rfl⟩
  | append_singleton front last =>
    have hfront := stream_eq_of_not_cut h.not_cut
    by_cases hcut : last.Cut
    · refine ⟨last.sent, ?_, Or.inr ⟨front, last, rfl, hcut, rfl⟩⟩
      unfold stream at hfront ⊢
      simp [hfront, hcut.2]
    · refine ⟨[], ?_, Or.inl rfl⟩
      rw [List.append_nil]
      apply stream_eq_of_not_cut
      intro sending hmem
      obtain hold | hnew := List.mem_append.mp hmem
      · exact h.not_cut sending hold
      · rwa [List.mem_singleton.mp hnew]

/-! ## What holds throughout -/

/-- A frame is cut short by its deadline only, and only when no task is parked on the lock. -/
def CutsLast (senders : Senders) : Event → Prop
  | .expire => ∀ sending ∈ senders.holder, sending.Cut → senders.parked = []
  | .cancel => ∀ sending ∈ senders.holder, ¬ sending.Cut
  | _ => True

/-- How tasks and calls of the transport agree: once a frame was cut short, the connection has
failed, and no task is writing or about to; and nothing followed it. -/
structure Stops (sendings : List Sending) (senders : Senders) : Prop where
  stopped : ∀ sending ∈ sendings, sending.Cut → senders.holder = none ∧ senders.parked = [] ∧
    senders.dispatcher.failure ≠ none
  untorn : Untorn sendings

/-- No task has written yet. -/
theorem stops_start (codec : Codec) (sendTimeout : Option String) :
    Stops [] (start codec sendTimeout) where
  stopped := by simp
  untorn := by
    intro front sending back hsplit
    simp at hsplit

section Steps

variable {sendings : List Sending} {senders : Senders}

/-- While a task is writing, or one is parked, no frame was cut short. -/
theorem Stops.not_cut (h : Stops sendings senders)
    (hbusy : senders.holder ≠ none ∨ senders.parked ≠ []) :
    ∀ sending ∈ sendings, ¬ sending.Cut := by
  intro sending hmem hcut
  obtain ⟨hfree, hempty, -⟩ := h.stopped sending hmem hcut
  simp [hfree, hempty] at hbusy

/-- Tasks before whose event no frame was cut short. -/
theorem Stops.of_not_cut (h : Stops sendings senders) {senders' : Senders}
    (hnot : ∀ sending ∈ sendings, ¬ sending.Cut) : Stops (sendings ++ []) senders' where
  stopped := by
    rw [List.append_nil]
    exact fun sending hmem hcut => absurd hcut (hnot sending hmem)
  untorn := by
    rw [List.append_nil]
    exact h.untorn

/-- A call of the transport ends, and when its frame was cut short nothing goes on. -/
theorem Stops.ends (h : Stops sendings senders) {last : Sending}
    (hholder : senders.holder = some last) {senders' : Senders}
    (hlast : last.Cut → senders'.holder = none ∧ senders'.parked = [] ∧
      senders'.dispatcher.failure ≠ none) : Stops (sendings ++ [last]) senders' := by
  have hnot := h.not_cut (Or.inl (by simp [hholder]))
  constructor
  · intro sending hmem hcut
    obtain hold | hnew := List.mem_append.mp hmem
    · exact absurd hcut (hnot sending hold)
    · rw [List.mem_singleton.mp hnew] at hcut
      exact hlast hcut
  · exact untorn_concat hnot last

/-- A call on a dispatcher begins no write after a frame was cut short. -/
theorem Stops.call (h : Stops sendings senders) (request : Dispatcher.Call) :
    Stops (sendings ++ []) (senders.call request) := by
  rw [List.append_nil]
  refine ⟨fun sending hmem hcut => ?_, h.untorn⟩
  obtain ⟨hfree, hempty, hfailed⟩ := h.stopped sending hmem hcut
  obtain ⟨hnone, hstill⟩ := call_of_failed hfailed request
  have hsubmitted : (senders.dispatcher.call request).1.filterMap submitted = [] := by
    apply List.filterMap_eq_nil_iff.mpr
    intro entry hentry
    cases entry with
    | sent name sent => exact absurd hentry (hnone name sent)
    | _ => rfl
  rw [Senders.call, hsubmitted]
  exact ⟨hfree, hempty, hstill⟩

/-- An event keeps the agreement when it cuts no frame short but the last. -/
theorem Stops.step (h : Stops sendings senders) {event : Event} (hcuts : senders.CutsLast event) :
    Stops (sendings ++ (senders.step event).1) (senders.step event).2 := by
  have hidle : Stops (sendings ++ []) senders := by simpa using h
  cases event with
  | call request => exact h.call request
  | acquire index =>
    simp only [Senders.step, acquire]
    split
    · next frame _ hfound =>
      refine h.of_not_cut (h.not_cut (Or.inr fun hempty => ?_))
      simp [hempty] at hfound
    · exact hidle
  | write count =>
    simp only [Senders.step]
    by_cases hfree : senders.holder = none
    · rw [hfree]
      refine ⟨fun sending hmem hcut => ?_, hidle.untorn⟩
      obtain ⟨-, hrest⟩ := hidle.stopped sending hmem hcut
      exact ⟨rfl, hrest⟩
    · exact h.of_not_cut (h.not_cut (Or.inl hfree))
  | finish =>
    simp only [Senders.step]
    split
    · next sending hholder =>
      split_ifs with hwhole
      · exact h.ends hholder fun hcut => absurd hwhole hcut.2
      · exact hidle
    · exact hidle
  | expire =>
    simp only [Senders.step]
    split
    · next sending sendTimeout hholder _ =>
      apply h.ends hholder
      intro hcut
      have hfailure := (fail_frame senders.dispatcher (stalled sending sendTimeout)).2.2.2.2.1
      refine ⟨rfl, hcuts sending hholder hcut, ?_⟩
      simp [timeOut, hfailure]
    · exact hidle
  | expireParked index =>
    simp only [Senders.step]
    split
    · next frame sendTimeout hfound _ =>
      refine h.of_not_cut (h.not_cut (Or.inr fun hempty => ?_))
      simp [hempty] at hfound
    · exact hidle
  | cancel =>
    simp only [Senders.step]
    split
    · next sending hholder => exact h.ends hholder fun hcut => absurd hcut (hcuts sending hholder)
    · exact hidle
  | cancelParked index =>
    refine ⟨fun sending hmem hcut => ?_, hidle.untorn⟩
    obtain ⟨hfree, hempty, hfailed⟩ := hidle.stopped sending hmem hcut
    exact ⟨hfree, by simp [Senders.step, hempty], hfailed⟩

end Steps

/-! ## Runs -/

/-- Every call of the transport so far, with the one that has not ended. -/
def sendings (senders : Senders) (events : List Event) : List Sending :=
  (senders.run events).1 ++ (senders.run events).2.holder.toList

/-- Once a frame was cut short nothing more is handed to the transport, in any run where only
deadlines cut frames short, and only with no task parked on the lock. What the peer gets is whole
frames, and then at most one truncated frame. -/
theorem untorn_run (codec : Codec) (sendTimeout : Option String) (events : List Event)
    (h : Throughout step CutsLast (start codec sendTimeout) events) :
    Untorn ((start codec sendTimeout).sendings events) ∧
      ∃ rest, stream ((start codec sendTimeout).sendings events) =
          (((start codec sendTimeout).sendings events).filter (·.unsent = [])).flatMap
            Sending.wire ++ rest ∧
        (rest = [] ∨ ∃ front last,
          (start codec sendTimeout).sendings events = front ++ [last] ∧ last.Cut ∧
            rest = last.sent) := by
  have hstops : Stops ((start codec sendTimeout).run events).1
      ((start codec sendTimeout).run events).2 :=
    transcript_invariant Stops (stops_start codec sendTimeout)
      (fun _ _ _ h hcuts => h.step hcuts) h
  have huntorn : Untorn ((start codec sendTimeout).sendings events) := by
    unfold sendings
    cases hholder : ((start codec sendTimeout).run events).2.holder with
    | none => simpa using hstops.untorn
    | some last => exact untorn_concat (hstops.not_cut (Or.inl (by simp [hholder]))) last
  exact ⟨huntorn, huntorn.stream_eq⟩

/-- A deadline cuts a frame short, and the next request is refused. -/
theorem untorn_run_expire :
    Untorn ((start negotiated (some "30")).sendings
      [.call .exchange, .call (.send 0 (closeRequest 1 [])), .write 3, .expire,
        .call (.send 0 (closeRequest 2 []))]) := by
  refine (untorn_run negotiated (some "30") _ ?_).1
  refine ⟨trivial, trivial, trivial, ?_, trivial, trivial⟩
  intro _ _ _
  rfl

/-- A task that is parked on the lock writes its frame after one that was cut short. -/
theorem not_forall_untorn :
    ¬ ∀ codec sendTimeout events, Untorn ((start codec sendTimeout).sendings events) := by
  intro h
  have hnone := h negotiated (some "30")
    [.call .exchange, .call (.send 0 (closeRequest 1 [])), .call (.send 0 (closeRequest 2 [])),
      .write 3, .expire, .acquire 0]
    [] ⟨"Close", [0, 0, 0], [9, 4, 0, 0, 0, 1, 0, 0, 0, 0]⟩ [⟨"Close", [], _⟩] rfl ⟨by simp, by simp⟩
  cases hnone

end Senders

end GantrySftp
