import GantrySftp.Codec.Machine
import Mathlib.Data.List.Induction

/-!
# Requests and their replies

Over any calls on a codec, with any bytes received in any pieces: the state only moves forward or
to failed, each completion carries the request that was sent under the reply's id since the id
was last free, and while the codec has not failed every request sent is either completed or
outstanding. Whatever cannot be explained as a reply fails the codec.
-/

namespace GantrySftp

open Library

namespace Codec

/-! ## Histories -/

/-- A call on a codec. -/
inductive Call
  | initiate (version : ℤ)
  | allocateRequestId
  | send (request : Request)
  | receive (chunk : Chunk)

/-- What happened to a request: it was sent, or reported as completed. -/
inductive Entry
  | sent (request : Request)
  | completed (request : Request) (response : Response)
  deriving DecidableEq

/-- The request id an entry is about. -/
def Entry.requestId : Entry → ℤ
  | sent request => request.requestId
  | completed _ response => response.requestId

/-- What an event says of a request. -/
def Event.entries : Event → List Entry
  | negotiated _ _ => []
  | completed request response => [.completed request response]

/-- The error a call raises, what it says of requests, and the codec after it. -/
def call (codec : Codec) : Call → Except CodecError (List Entry) × Codec
  | .initiate version =>
    ((fun _ => []) <$> (codec.initiate version).1, (codec.initiate version).2)
  | .allocateRequestId => ((fun _ => []) <$> codec.allocateRequestId.1, codec.allocateRequestId.2)
  | .send request => ((fun _ => [.sent request]) <$> (codec.send request).1, (codec.send request).2)
  | .receive chunk =>
    ((fun events => events.flatMap Event.entries) <$> (codec.receive chunk).1,
      (codec.receive chunk).2)

/-- What a call says of requests, which is nothing when it raises. -/
def said (codec : Codec) (request : Call) : List Entry :=
  match (codec.call request).1 with
  | .ok entries => entries
  | .error _ => []

/-- The history and the codec after calls. -/
def run (codec : Codec) (calls : List Call) : List Entry × Codec :=
  calls.foldl (fun (history, codec) request =>
    (history ++ codec.said request, (codec.call request).2)) ([], codec)

/-- A run with one more call. -/
theorem run_concat (codec : Codec) (calls : List Call) (request : Call) :
    codec.run (calls ++ [request]) =
      ((codec.run calls).1 ++ (codec.run calls).2.said request,
        ((codec.run calls).2.call request).2) := by
  simp [run, List.foldl_append]

/-! ## How the state moves -/

/-- A step of the lifecycle. -/
inductive Moves : CodecState → CodecState → Prop
  | stay (state : CodecState) : Moves state state
  | initiate : Moves .new .awaitingVersion
  | negotiate : Moves .awaitingVersion .ready
  | fail (state : CodecState) : Moves state .failed

/-- A refused guard raises, and once the codec failed it raises the peer's error. -/
theorem requireState_cases (codec : Codec) (expected : CodecState) (action : String) :
    (codec.state ≠ .failed ∧ codec.state = expected ∧
        codec.requireState expected action = .ok ()) ∨
      ∃ error, codec.requireState expected action = .error error ∧
        (codec.state = .failed → error = .protocolError failedState) := by
  unfold requireState
  dsimp only
  split_ifs with hfailed hother
  · exact Or.inr ⟨_, rfl, fun _ => rfl⟩
  · exact Or.inr ⟨_, rfl, fun h => absurd h hfailed⟩
  · exact Or.inl ⟨hfailed, not_not.mp hother, rfl⟩

/-- What opening the connection does: nothing but raise, or begin the handshake. -/
theorem initiate_cases (codec : Codec) (version : ℤ) :
    (∃ error, codec.initiate version = (.error error, codec) ∧
        (codec.state = .failed → error = .protocolError failedState)) ∨
      codec.state = .new ∧
        (codec.initiate version).2 = { codec with state := .awaitingVersion } := by
  unfold initiate
  obtain ⟨-, hstate, hguard⟩ | ⟨error, hguard, hfailed⟩ :=
    codec.requireState_cases .new "send INIT"
  · rw [hguard]
    exact Or.inr ⟨hstate, rfl⟩
  · rw [hguard]
    exact Or.inl ⟨error, rfl, hfailed⟩

/-- What sending a request does: nothing but raise, or record the request under its free id. -/
theorem send_cases (codec : Codec) (request : Request) :
    (∃ error, codec.send request = (.error error, codec) ∧
        (codec.state = .failed → error = .protocolError failedState)) ∨
      ∃ wire, codec.state = .ready ∧ codec.outstanding.get request.requestId = none ∧
        codec.send request = (.ok wire,
          { codec with outstanding := codec.outstanding.set request.requestId request }) := by
  unfold send
  dsimp only
  obtain ⟨hready, hstate, hguard⟩ | ⟨error, hguard, hfailed⟩ :=
    codec.requireState_cases .ready s!"send {request.packet.className}"
  · rw [hguard]
    cases hfree : codec.outstanding.get request.requestId with
    | some existing => exact Or.inl ⟨_, rfl, fun h => absurd h hready⟩
    | none =>
      cases hwire : wire request.packet with
      | error error => exact Or.inl ⟨_, rfl, fun h => absurd h hready⟩
      | ok wire => exact Or.inr ⟨wire, hstate, rfl, rfl⟩
  · rw [hguard]
    exact Or.inl ⟨error, rfl, hfailed⟩

/-- What handling a packet does when it is not refused: complete the handshake, or retire the
request that a response answers. -/
inductive Handled (codec : Codec) : Packet → Event → Codec → Prop
  | version (hello : Hello) (hstate : codec.state = .awaitingVersion)
      (hversion : hello.version = protocolVersion) (extensions : Dict Bytes Bytes) :
      Handled codec (.version hello) (.negotiated hello.version hello.extensions)
        { codec with state := .ready, version := some hello.version, extensions := extensions }
  | response (request : Request) (response : Response) (hstate : codec.state = .ready)
      (hsent : codec.outstanding.get response.requestId = some request) :
      Handled codec response.packet (.completed request response)
        { codec with outstanding := codec.outstanding.pop response.requestId }

/-- A packet that the connection cannot go on after. -/
def Offends (codec : Codec) : Packet → Prop
  | .version hello => codec.state ≠ .awaitingVersion ∨ hello.version ≠ protocolVersion
  | packet =>
    packet.isResponse = false ∨ codec.state ≠ .ready ∨
      codec.outstanding.get packet.requestId = none

/-- A packet that is not refused was handled. -/
theorem handled_of_handle {codec after : Codec} {packet : Packet} {event : Event}
    (h : codec.handle packet = .ok (event, after)) : Handled codec packet event after := by
  unfold handle at h
  dsimp only at h
  split at h
  · next hello =>
    unfold handleVersion at h
    dsimp only at h
    split_ifs at h with hstate hversion
    obtain ⟨rfl, rfl⟩ := Prod.mk.inj (Except.ok.inj h)
    exact .version hello (not_not.mp hstate) (not_not.mp hversion) _
  · cases h
  · split_ifs at h with hresponse
    unfold handleResponse at h
    dsimp only at h
    split_ifs at h with hstate
    split at h
    · cases h
    · next request hsent =>
      obtain ⟨rfl, rfl⟩ := Prod.mk.inj (Except.ok.inj h)
      exact .response request ⟨_, hresponse⟩ (not_not.mp hstate) hsent

/-- A packet that offends is refused. -/
theorem handle_of_offends {codec : Codec} {packet : Packet} (h : codec.Offends packet) :
    ∃ error, codec.handle packet = .error error := by
  cases hhandle : codec.handle packet with
  | error error => exact ⟨error, rfl⟩
  | ok result =>
    obtain ⟨event, after⟩ := result
    cases handled_of_handle hhandle with
    | version hello hstate hversion extensions =>
      obtain hother | hother := h
      · exact absurd hstate hother
      · exact absurd hversion hother
    | response request response hstate hsent =>
      unfold Offends at h
      split at h
      · next hello heq =>
        have hresponse := response.isResponse
        rw [heq] at hresponse
        cases hresponse
      · obtain hother | hother | hother := h
        · exact absurd response.isResponse (by simp [hother])
        · exact absurd hstate hother
        · exact absurd (hother.symm.trans hsent) nofun

/-! ## What a history and its codec agree on -/

/-- The last thing a history says of an id is that this request was sent under it. -/
def LastSent (history : List Entry) (requestId : ℤ) (request : Request) : Prop :=
  ∃ earlier middle, history = earlier ++ .sent request :: middle ∧
    request.requestId = requestId ∧ ∀ entry ∈ middle, entry.requestId ≠ requestId

/-- How many requests a history says were sent. -/
def sentCount (history : List Entry) : ℕ :=
  history.countP fun entry => match entry with | .sent _ => true | .completed _ _ => false

/-- How many completions a history has. -/
def completedCount (history : List Entry) : ℕ :=
  history.countP fun entry => match entry with | .sent _ => false | .completed _ _ => true

/-- What a codec's history says of the requests it waits for. -/
structure Correlates (history : List Entry) (codec : Codec) : Prop where
  answered : ∀ before request response after,
    history = before ++ .completed request response :: after →
      LastSent before response.requestId request
  outstanding : ∀ requestId request, codec.outstanding.get requestId = some request →
    LastSent history requestId request
  count : codec.state ≠ .failed →
    sentCount history = completedCount history + codec.outstanding.entries.length

/-- A request just sent is the last thing said of its id. -/
theorem LastSent.sent (history : List Entry) (request : Request) :
    LastSent (history ++ [.sent request]) request.requestId request :=
  ⟨history, [], rfl, rfl, by simp⟩

/-- What is said of another id changes nothing about an id. -/
theorem LastSent.concat {history : List Entry} {requestId : ℤ} {request : Request} {entry : Entry}
    (h : LastSent history requestId request) (hother : entry.requestId ≠ requestId) :
    LastSent (history ++ [entry]) requestId request := by
  obtain ⟨earlier, middle, rfl, hid, hmiddle⟩ := h
  refine ⟨earlier, middle ++ [entry], by simp, hid, ?_⟩
  intro other hmem
  obtain hold | hnew := List.mem_append.mp hmem
  · exact hmiddle other hold
  · exact List.mem_singleton.mp hnew ▸ hother

/-- Nothing was said and nothing is waited for at the start. -/
theorem correlates_init (maxFrameLength : ℕ) (h : 1 ≤ maxFrameLength) :
    Correlates [] (init maxFrameLength h) where
  answered := by simp
  outstanding := by simp [init]
  count := by simp [init, sentCount, completedCount, Dict.empty]

/-- The completions of a history with one more entry are its own and the entry's. -/
theorem answered_concat {history : List Entry} {entry : Entry}
    (h : ∀ before request response after,
      history = before ++ .completed request response :: after →
        LastSent before response.requestId request)
    (hentry : ∀ request response, entry = .completed request response →
      LastSent history response.requestId request)
    {before after : List Entry} {request : Request} {response : Response}
    (heq : history ++ [entry] = before ++ .completed request response :: after) :
    LastSent before response.requestId request := by
  rcases List.eq_nil_or_concat after with rfl | ⟨front, last, rfl⟩
  · obtain ⟨rfl, hlast⟩ := List.append_inj' heq rfl
    exact hentry request response (List.cons.inj hlast).1
  · rw [List.concat_eq_append, ← List.cons_append, ← List.append_assoc] at heq
    exact h before request response front (List.append_inj' heq rfl).1

/-- Sending a request under a free id keeps the agreement. -/
theorem Correlates.send {history : List Entry} {codec : Codec} (h : Correlates history codec)
    {request : Request} (hstate : codec.state = .ready)
    (hfree : codec.outstanding.get request.requestId = none) :
    Correlates (history ++ [.sent request])
      { codec with outstanding := codec.outstanding.set request.requestId request } where
  answered before request' response after heq :=
    answered_concat h.answered (by simp) heq
  outstanding requestId request' hget := by
    rw [Dict.get_set] at hget
    split_ifs at hget with hid
    · obtain rfl := Option.some.inj hget
      exact hid ▸ LastSent.sent history request
    · exact (h.outstanding requestId request' hget).concat hid
  count hready := by
    have hcount := h.count (by simp [hstate])
    simp only [sentCount, completedCount, List.countP_append] at hcount ⊢
    rw [hcount, Dict.length_set request hfree]
    simp
    omega

/-- Completing the request that waits under a response's id keeps the agreement. -/
theorem Correlates.complete {history : List Entry} {codec : Codec}
    (h : Correlates history codec) {request : Request} {response : Response}
    (hstate : codec.state = .ready)
    (hsent : codec.outstanding.get response.requestId = some request) :
    Correlates (history ++ [.completed request response])
      { codec with outstanding := codec.outstanding.pop response.requestId } where
  answered before request' response' after heq := by
    apply answered_concat h.answered _ heq
    intro other other' hentry
    obtain ⟨rfl, rfl⟩ := Entry.completed.inj hentry
    exact h.outstanding _ _ hsent
  outstanding requestId request' hget := by
    rw [Dict.get_pop] at hget
    split_ifs at hget with hid
    exact (h.outstanding requestId request' hget).concat hid
  count hready := by
    have hcount := h.count (by simp [hstate])
    have hlength := Dict.length_pop hsent
    simp only [sentCount, completedCount, List.countP_append] at hcount ⊢
    simp
    omega

/-- Handling a packet keeps the agreement. -/
theorem Correlates.handled {history : List Entry} {codec after : Codec} {packet : Packet}
    {event : Event} (h : Correlates history codec) (hhandled : Handled codec packet event after) :
    Correlates (history ++ event.entries) after := by
  cases hhandled with
  | version hello hstate hversion extensions =>
    rw [Event.entries, List.append_nil]
    exact ⟨h.answered, h.outstanding, fun _ => h.count (by simp [hstate])⟩
  | response request response hstate hsent => exact h.complete hstate hsent

/-- A codec that fails keeps what its history says, and may forget what it waits for. -/
theorem Correlates.fail {history : List Entry} {codec after : Codec}
    (h : Correlates history codec) (hfailed : after.state = .failed)
    (hget : ∀ requestId request, after.outstanding.get requestId = some request →
      codec.outstanding.get requestId = some request) : Correlates history after where
  answered := h.answered
  outstanding _ _ hsome := h.outstanding _ _ (hget _ _ hsome)
  count hnot := absurd hfailed hnot

/-! ## Frames -/

/-- Handling a packet only retires requests, and only completes the handshake. -/
theorem Handled.frame {codec after : Codec} {packet : Packet} {event : Event}
    (h : Handled codec packet event after) :
    (after.state = codec.state ∨ codec.state = .awaitingVersion ∧ after.state = .ready) ∧
      ∀ requestId request, after.outstanding.get requestId = some request →
        codec.outstanding.get requestId = some request := by
  cases h with
  | version hello hstate hversion extensions => exact ⟨Or.inr ⟨hstate, rfl⟩, fun _ _ h => h⟩
  | response request response hstate hsent =>
    refine ⟨Or.inl rfl, fun requestId request' hget => ?_⟩
    rw [Dict.get_pop] at hget
    split_ifs at hget
    exact hget

/-- A frame that is refused ends the handling of frames. -/
theorem handleFrames_cons_error {codec : Codec} {frame : Bytes} {error : ProtocolError}
    (h : decode frame >>= codec.handle = .error error) (frames : List Bytes) :
    codec.handleFrames (frame :: frames) = (.error error, codec) := by
  rw [handleFrames, h]

/-- A frame that is handled is followed by the others. -/
theorem handleFrames_cons_ok {codec after : Codec} {frame : Bytes} {event : Event}
    (h : decode frame >>= codec.handle = .ok (event, after)) (frames : List Bytes) :
    codec.handleFrames (frame :: frames) =
      ((event :: ·) <$> (after.handleFrames frames).1, (after.handleFrames frames).2) := by
  rw [handleFrames, h]

/-- A frame that is handled was decoded first. -/
theorem handled_of_frame {codec after : Codec} {frame : Bytes} {event : Event}
    (h : decode frame >>= codec.handle = .ok (event, after)) :
    ∃ packet, decode frame = .ok packet ∧ Handled codec packet event after := by
  cases hdecode : decode frame with
  | error error =>
    rw [hdecode] at h
    cases h
  | ok packet =>
    rw [hdecode] at h
    exact ⟨packet, rfl, handled_of_handle h⟩

/-- Handling frames only retires requests. -/
theorem handleFrames_get (codec : Codec) (frames : List Bytes) (requestId : ℤ)
    (request : Request)
    (h : (codec.handleFrames frames).2.outstanding.get requestId = some request) :
    codec.outstanding.get requestId = some request := by
  induction frames generalizing codec with
  | nil => exact h
  | cons frame frames ih =>
    cases hframe : decode frame >>= codec.handle with
    | error error =>
      rw [handleFrames_cons_error hframe] at h
      exact h
    | ok result =>
      obtain ⟨event, after⟩ := result
      obtain ⟨packet, -, hhandled⟩ := handled_of_frame hframe
      rw [handleFrames_cons_ok hframe] at h
      exact hhandled.frame.2 _ _ (ih after h)

/-- Frames that are not refused are handled one after another. -/
inductive HandledAll : Codec → List Event → Codec → Prop
  | nil (codec : Codec) : HandledAll codec [] codec
  | cons {codec middle after : Codec} {packet : Packet} {event : Event} {events : List Event}
      (first : Handled codec packet event middle) (rest : HandledAll middle events after) :
      HandledAll codec (event :: events) after

/-- Frames that are not refused were handled. -/
theorem handledAll_of_handleFrames {codec after : Codec} {frames : List Bytes}
    {events : List Event} (h : codec.handleFrames frames = (.ok events, after)) :
    HandledAll codec events after := by
  induction frames generalizing codec events with
  | nil =>
    obtain ⟨hevents, rfl⟩ := Prod.mk.inj h
    obtain rfl := Except.ok.inj hevents
    exact .nil codec
  | cons frame frames ih =>
    cases hframe : decode frame >>= codec.handle with
    | error error =>
      rw [handleFrames_cons_error hframe] at h
      cases h
    | ok result =>
      obtain ⟨event, middle⟩ := result
      obtain ⟨packet, -, hhandled⟩ := handled_of_frame hframe
      rw [handleFrames_cons_ok hframe] at h
      obtain ⟨hevents, hafter⟩ := Prod.mk.inj h
      cases hrest : (middle.handleFrames frames).1 with
      | error error =>
        rw [hrest] at hevents
        cases hevents
      | ok rest =>
        rw [hrest] at hevents
        obtain rfl := Except.ok.inj hevents
        exact .cons hhandled (ih (Prod.ext hrest hafter))

/-- Handling frames keeps the agreement. -/
theorem Correlates.handledAll {history : List Entry} {codec after : Codec} {events : List Event}
    (h : Correlates history codec) (hhandled : HandledAll codec events after) :
    Correlates (history ++ events.flatMap Event.entries) after := by
  induction hhandled generalizing history with
  | nil codec => simpa using h
  | cons first rest ih => simpa using ih (h.handled first)

/-- Handling frames only retires requests. -/
theorem HandledAll.get {codec after : Codec} {events : List Event}
    (h : HandledAll codec events after) {requestId : ℤ} {request : Request}
    (hget : after.outstanding.get requestId = some request) :
    codec.outstanding.get requestId = some request := by
  induction h with
  | nil codec => exact hget
  | cons first rest ih => exact first.frame.2 _ _ (ih hget)

/-- Handling frames only completes the handshake. -/
theorem HandledAll.state {codec after : Codec} {events : List Event}
    (h : HandledAll codec events after) :
    after.state = codec.state ∨ codec.state = .awaitingVersion ∧ after.state = .ready := by
  induction h with
  | nil codec => exact Or.inl rfl
  | cons first rest ih =>
    obtain hfirst | ⟨hawaiting, hready⟩ := first.frame.1
    · rwa [hfirst] at ih
    · obtain hsame | ⟨hagain, -⟩ := ih
      · exact Or.inr ⟨hawaiting, hsame.trans hready⟩
      · rw [hready] at hagain
        cases hagain

/-- A refused frame after frames that are handled is refused. -/
theorem handleFrames_append_error {codec middle : Codec} {before : List Bytes}
    {events : List Event} {frame : Bytes} {error : ProtocolError}
    (hbefore : codec.handleFrames before = (.ok events, middle))
    (hframe : decode frame >>= middle.handle = .error error) (frames : List Bytes) :
    ∃ error, (codec.handleFrames (before ++ frame :: frames)).1 = .error error := by
  induction before generalizing codec events with
  | nil =>
    obtain ⟨-, rfl⟩ := Prod.mk.inj hbefore
    exact ⟨error, by rw [List.nil_append, handleFrames_cons_error hframe]⟩
  | cons first before ih =>
    cases hfirst : decode first >>= codec.handle with
    | error error =>
      rw [handleFrames_cons_error hfirst] at hbefore
      cases hbefore
    | ok result =>
      obtain ⟨event, after⟩ := result
      rw [handleFrames_cons_ok hfirst] at hbefore
      obtain ⟨hevents, hmiddle⟩ := Prod.mk.inj hbefore
      cases hrest : (after.handleFrames before).1 with
      | error error =>
        rw [hrest] at hevents
        cases hevents
      | ok rest =>
        obtain ⟨error', herror⟩ := ih (Prod.ext hrest hmiddle)
        exact ⟨error', by rw [List.cons_append, handleFrames_cons_ok hfirst, herror]; rfl⟩

/-! ## Calls -/

/-- What receiving a chunk does: nothing but raise once the codec failed; fail it; or handle the
frames of the chunk. -/
theorem receive_cases (codec : Codec) (chunk : Chunk) :
    (codec.state = .failed ∧
        codec.receive chunk = (.error (.protocolError failedState), codec)) ∨
      (codec.state ≠ .failed ∧ ∃ error after,
        codec.receive chunk = (.error (.protocolError error), after) ∧ after.state = .failed ∧
          ∀ requestId request, after.outstanding.get requestId = some request →
            codec.outstanding.get requestId = some request) ∨
      codec.state ≠ .failed ∧ ∃ frames events after,
        (codec.splitter.feed chunk).1 = .ok frames ∧
          (codec.fedWith chunk).handleFrames frames = (.ok events, after) ∧
          codec.receive chunk = (.ok events, after) := by
  unfold receive
  dsimp only
  split_ifs with hfailed
  · exact Or.inl ⟨hfailed, rfl⟩
  · right
    cases hfeed : (codec.splitter.feed chunk).1 with
    | error error => exact Or.inl ⟨hfailed, error, _, rfl, rfl, fun _ _ h => h⟩
    | ok frames =>
      have hget := handleFrames_get (codec.fedWith chunk) frames
      cases hhandle : (codec.fedWith chunk).handleFrames frames with
      | mk result after =>
        rw [hhandle] at hget
        simp only [hhandle]
        cases result with
        | error error => exact Or.inl ⟨hfailed, error, _, rfl, rfl, hget⟩
        | ok events => exact Or.inr ⟨hfailed, frames, events, after, rfl, hhandle, rfl⟩

/-- Reserving an id changes neither the state nor what is waited for. -/
theorem allocateRequestId_frame (codec : Codec) :
    codec.allocateRequestId.2.state = codec.state ∧
      codec.allocateRequestId.2.outstanding = codec.outstanding := by
  unfold allocateRequestId
  split_ifs <;> exact ⟨rfl, rfl⟩

/-- A call that raises says nothing. -/
theorem said_of_error {codec : Codec} {request : Call} {error : CodecError}
    (h : (codec.call request).1 = .error error) : codec.said request = [] := by
  rw [said, h]

/-- What a call that does not raise says. -/
theorem said_of_ok {codec : Codec} {request : Call} {entries : List Entry}
    (h : (codec.call request).1 = .ok entries) : codec.said request = entries := by
  rw [said, h]

/-- Reserving an id and opening the connection say nothing. -/
theorem said_eq_nil {codec : Codec} {α : Type} {request : Call} {result : Except CodecError α}
    (h : (codec.call request).1 = (fun _ => []) <$> result) : codec.said request = [] := by
  rw [said, h]
  cases result <;> rfl

/-- A call keeps the agreement. -/
theorem Correlates.call {history : List Entry} {codec : Codec} (h : Correlates history codec)
    (request : Call) :
    Correlates (history ++ codec.said request) (codec.call request).2 := by
  cases request with
  | initiate version =>
    rw [said_eq_nil rfl, List.append_nil]
    obtain ⟨error, hinitiate, -⟩ | ⟨hstate, hinitiate⟩ := codec.initiate_cases version
    · rw [Codec.call, hinitiate]
      exact h
    · rw [Codec.call, hinitiate]
      exact ⟨h.answered, h.outstanding, fun _ => h.count (by simp [hstate])⟩
  | allocateRequestId =>
    rw [said_eq_nil rfl, List.append_nil]
    obtain ⟨hstate, houtstanding⟩ := codec.allocateRequestId_frame
    exact ⟨h.answered, by simpa only [Codec.call, houtstanding] using h.outstanding,
      by simpa only [Codec.call, hstate, houtstanding] using h.count⟩
  | send request =>
    obtain ⟨error, hsend, -⟩ | ⟨wire, hstate, hfree, hsend⟩ := codec.send_cases request
    · have hraised : (codec.call (.send request)).1 = .error error := by
        rw [Codec.call, hsend]
        rfl
      rw [said_of_error hraised, List.append_nil, Codec.call, hsend]
      exact h
    · have hsaid : (codec.call (.send request)).1 = .ok [.sent request] := by
        rw [Codec.call, hsend]
        rfl
      rw [said_of_ok hsaid, Codec.call, hsend]
      exact h.send hstate hfree
  | receive chunk =>
    obtain ⟨-, hreceive⟩ | ⟨-, error, after, hreceive, hfailed, hget⟩ |
      ⟨-, frames, events, after, -, hframes, hreceive⟩ := codec.receive_cases chunk
    · have hraised : (codec.call (.receive chunk)).1 = .error (.protocolError failedState) := by
        rw [Codec.call, hreceive]
        rfl
      rw [said_of_error hraised, List.append_nil, Codec.call, hreceive]
      exact h
    · have hraised : (codec.call (.receive chunk)).1 = .error (.protocolError error) := by
        rw [Codec.call, hreceive]
        rfl
      rw [said_of_error hraised, List.append_nil, Codec.call, hreceive]
      exact h.fail hfailed hget
    · have hsaid : (codec.call (.receive chunk)).1 = .ok (events.flatMap Event.entries) := by
        rw [Codec.call, hreceive]
        rfl
      rw [said_of_ok hsaid, Codec.call, hreceive]
      have hfed : Correlates history (codec.fedWith chunk) :=
        ⟨h.answered, h.outstanding, h.count⟩
      exact hfed.handledAll (handledAll_of_handleFrames hframes)

/-- A call moves the state forward, to failed, or not at all. -/
theorem moves_call (codec : Codec) (request : Call) :
    Moves codec.state (codec.call request).2.state := by
  cases request with
  | initiate version =>
    obtain ⟨error, hinitiate, -⟩ | ⟨hstate, hinitiate⟩ := codec.initiate_cases version
    · rw [call, hinitiate]
      exact .stay _
    · rw [call, hinitiate, hstate]
      exact .initiate
  | allocateRequestId =>
    rw [call, codec.allocateRequestId_frame.1]
    exact .stay _
  | send request =>
    obtain ⟨error, hsend, -⟩ | ⟨wire, -, -, hsend⟩ := codec.send_cases request
    · rw [call, hsend]
      exact .stay _
    · rw [call, hsend]
      exact .stay _
  | receive chunk =>
    obtain ⟨-, hreceive⟩ | ⟨-, error, after, hreceive, hfailed, -⟩ |
      ⟨-, frames, events, after, -, hframes, hreceive⟩ := codec.receive_cases chunk
    · rw [call, hreceive]
      exact .stay _
    · rw [call, hreceive, hfailed]
      exact .fail _
    · rw [call, hreceive]
      obtain hsame | ⟨hawaiting, hready⟩ := (handledAll_of_handleFrames hframes).state
      · rw [hsame]
        exact .stay _
      · rw [show codec.state = .awaitingVersion from hawaiting, hready]
        exact .negotiate

/-- Once the codec failed, every call but reserving an id raises the peer's error. -/
theorem call_of_failed {codec : Codec} (hfailed : codec.state = .failed) {request : Call}
    (hrequest : request ≠ .allocateRequestId) :
    (codec.call request).1 = .error (.protocolError failedState) := by
  cases request with
  | initiate version =>
    obtain ⟨error, hinitiate, herror⟩ | ⟨hstate, -⟩ := codec.initiate_cases version
    · rw [call, hinitiate, herror hfailed]
      rfl
    · rw [hfailed] at hstate
      cases hstate
  | allocateRequestId => exact absurd rfl hrequest
  | send request =>
    obtain ⟨error, hsend, herror⟩ | ⟨wire, hstate, -⟩ := codec.send_cases request
    · rw [call, hsend, herror hfailed]
      rfl
    · rw [hfailed] at hstate
      cases hstate
  | receive chunk =>
    obtain ⟨-, hreceive⟩ | ⟨hnot, -⟩ | ⟨hnot, -⟩ := codec.receive_cases chunk
    · rw [call, hreceive]
      rfl
    · exact absurd hfailed hnot
    · exact absurd hfailed hnot

/-- A frame that the connection cannot go on after: it does not decode, or its packet offends. -/
def FrameOffends (codec : Codec) (frame : Bytes) : Prop :=
  match decode frame with
  | .error _ => True
  | .ok packet => codec.Offends packet

/-- A frame that offends is refused. -/
theorem refused_of_frameOffends {codec : Codec} {frame : Bytes} (h : codec.FrameOffends frame) :
    ∃ error, decode frame >>= codec.handle = .error error := by
  unfold FrameOffends at h
  cases hdecode : decode frame with
  | error error => exact ⟨error, rfl⟩
  | ok packet =>
    rw [hdecode] at h
    exact handle_of_offends h

/-- A chunk whose frames the splitter refuses fails the codec. -/
theorem receive_of_feed_error {codec : Codec} {chunk : Chunk} {error : ProtocolError}
    (h : (codec.splitter.feed chunk).1 = .error error) :
    (codec.receive chunk).2.state = .failed := by
  obtain ⟨hfailed, hreceive⟩ | ⟨-, error, after, hreceive, hfailed, -⟩ |
    ⟨-, frames, events, after, hfeed, -⟩ := codec.receive_cases chunk
  · rw [hreceive]
    exact hfailed
  · rw [hreceive]
    exact hfailed
  · rw [h] at hfeed
    cases hfeed

/-- A chunk with a frame that offends when its turn comes fails the codec. -/
theorem receive_of_frameOffends {codec middle : Codec} {chunk : Chunk}
    {before frames : List Bytes} {frame : Bytes} {events : List Event}
    (hfeed : (codec.splitter.feed chunk).1 = .ok (before ++ frame :: frames))
    (hbefore : (codec.fedWith chunk).handleFrames before = (.ok events, middle))
    (hframe : middle.FrameOffends frame) : (codec.receive chunk).2.state = .failed := by
  obtain ⟨hfailed, hreceive⟩ | ⟨-, error, after, hreceive, hfailed, -⟩ |
    ⟨-, frames', events', after, hfeed', hframes, -⟩ := codec.receive_cases chunk
  · rw [hreceive]
    exact hfailed
  · rw [hreceive]
    exact hfailed
  · obtain rfl := Except.ok.inj (hfeed'.symm.trans hfeed)
    obtain ⟨error, herror⟩ := refused_of_frameOffends hframe
    obtain ⟨error', hrefused⟩ := handleFrames_append_error hbefore herror frames
    rw [hframes] at hrefused
    cases hrefused

/-! ## Whole runs -/

/-- A history and its codec agree after any calls. -/
theorem correlates_run (maxFrameLength : ℕ) (h : 1 ≤ maxFrameLength) (calls : List Call) :
    Correlates ((init maxFrameLength h).run calls).1 ((init maxFrameLength h).run calls).2 := by
  induction calls using List.reverseRecOn with
  | nil => exact correlates_init maxFrameLength h
  | append_singleton calls request ih =>
    rw [run_concat]
    exact ih.call request

/-- The completion at one place of a history answers the request sent at another: it carries the
request, under the same id, and nothing between them is about the id. -/
def Answers (history : List Entry) (sender completer : ℕ) : Prop :=
  ∃ request response, history[sender]? = some (.sent request) ∧
    history[completer]? = some (.completed request response) ∧
    request.requestId = response.requestId ∧ sender < completer ∧
    ∀ place entry, sender < place → place < completer → history[place]? = some entry →
      entry.requestId ≠ response.requestId

/-- A completion of the last request sent under its id answers it. -/
theorem Correlates.answers {history : List Entry} {codec : Codec} (h : Correlates history codec)
    {completer : ℕ} {request : Request} {response : Response}
    (hentry : history[completer]? = some (.completed request response)) :
    ∃ sender, Answers history sender completer := by
  obtain ⟨hlt, hget⟩ := List.getElem?_eq_some_iff.mp hentry
  have hsplit : history = history.take completer ++
      .completed request response :: history.drop (completer + 1) := by
    rw [← hget, List.getElem_cons_drop, List.take_append_drop]
  obtain ⟨earlier, middle, htake, hid, hmiddle⟩ := h.answered _ _ _ _ hsplit
  have hlength : completer = earlier.length + 1 + middle.length := by
    have := congrArg List.length htake
    simp only [List.length_take, List.length_append, List.length_cons] at this
    omega
  refine ⟨earlier.length, request, response, ?_, hentry, hid, by omega, ?_⟩
  · rw [hsplit, htake]
    simp
  · intro place entry hafter hbefore hplace
    apply hmiddle
    rw [hsplit, htake, List.append_assoc, List.getElem?_append_right (by omega)] at hplace
    obtain ⟨offset, hoffset⟩ := Nat.exists_eq_add_of_lt hafter
    rw [show place - earlier.length = offset + 1 by omega, List.cons_append,
      List.getElem?_cons_succ, List.getElem?_append_left (by omega)] at hplace
    exact List.mem_of_getElem? hplace

/-- A request that was sent is answered by one completion at most. -/
theorem Answers.unique {history : List Entry} {sender completer other : ℕ}
    (h : Answers history sender completer) (h' : Answers history sender other) :
    completer = other := by
  obtain ⟨request, response, hsent, hcompleted, hid, hlt, hbetween⟩ := h
  obtain ⟨request', response', hsent', hcompleted', hid', hlt', hbetween'⟩ := h'
  obtain rfl := Entry.sent.inj (Option.some.inj (hsent.symm.trans hsent'))
  obtain hless | rfl | hmore := lt_trichotomy completer other
  · exact absurd (hid.symm.trans hid') (hbetween' _ _ hlt hless hcompleted)
  · rfl
  · exact absurd (hid'.symm.trans hid) (hbetween _ _ hlt' hmore hcompleted')

/-- Requests and replies are correlated over any calls on a codec, with any bytes received in any
pieces. -/
theorem run_correlates (maxFrameLength : ℕ) (h : 1 ≤ maxFrameLength) (calls : List Call) :
    let codec := ((init maxFrameLength h).run calls).2
    let history := ((init maxFrameLength h).run calls).1
    (∀ request, Moves codec.state (codec.call request).2.state ∧
      (codec.state = .failed → request ≠ .allocateRequestId →
        ∃ error, (codec.call request).1 = .error (.protocolError error))) ∧
    (∀ completer request response, history[completer]? = some (.completed request response) →
      ∃ sender, Answers history sender completer) ∧
    (∀ sender completer other, Answers history sender completer →
      Answers history sender other → completer = other) ∧
    (codec.state ≠ .failed →
      sentCount history = completedCount history + codec.outstanding.entries.length) ∧
    (∀ chunk error, (codec.splitter.feed chunk).1 = .error error →
      (codec.receive chunk).2.state = .failed) ∧
    ∀ chunk before frame frames events middle,
      (codec.splitter.feed chunk).1 = .ok (before ++ frame :: frames) →
      (codec.fedWith chunk).handleFrames before = (.ok events, middle) →
      middle.FrameOffends frame → (codec.receive chunk).2.state = .failed := by
  have hcorrelates := correlates_run maxFrameLength h calls
  refine ⟨fun request => ⟨moves_call _ request, fun hfailed hrequest => ?_⟩, ?_, ?_, ?_, ?_, ?_⟩
  · exact ⟨_, call_of_failed hfailed hrequest⟩
  · exact fun _ _ _ hentry => hcorrelates.answers hentry
  · exact fun _ _ _ hfirst hsecond => hfirst.unique hsecond
  · exact hcorrelates.count
  · exact fun _ _ hfeed => receive_of_feed_error hfeed
  · exact fun _ _ _ _ _ _ hfeed hbefore hframe => receive_of_frameOffends hfeed hbefore hframe

/-- A handshake. -/
def handshaken : List Call := [.initiate 3, .receive ⟨[0, 0, 0, 5, 2, 0, 0, 0, 3], false⟩]

/-- A request to close a handle, and the reply that it was closed. -/
def closed (requestId : UInt8) : Call × Call :=
  (.send ⟨.close { requestId := requestId.toNat, handle := [] }, rfl⟩,
    .receive ⟨[0, 0, 0, 17, 101, 0, 0, 0, requestId, 0, 0, 0, 0, 0, 0, 0, 0, 0, 0, 0, 0], false⟩)

/-- A request to close a handle is answered once, and then nothing is in flight. -/
theorem run_correlates_closed :
    let run := (init 64 (by decide)).run (handshaken ++ [(closed 1).1, (closed 1).2])
    (∃ sender, Answers run.1 sender 1) ∧
      sentCount run.1 = completedCount run.1 + run.2.outstanding.entries.length := by
  obtain ⟨-, hanswered, -, hcount, -, -⟩ :=
    run_correlates 64 (by decide) (handshaken ++ [(closed 1).1, (closed 1).2])
  have hcompleted : ((init 64 (by decide)).run (handshaken ++ [(closed 1).1, (closed 1).2])).1[1]? =
      some (.completed ⟨.close { requestId := 1, handle := [] }, rfl⟩
        ⟨.status ⟨1, .ok, [], [], none⟩, rfl⟩) := by
    decide +kernel
  exact ⟨hanswered 1 _ _ hcompleted, hcount (by decide +kernel)⟩

end Codec

end GantrySftp
