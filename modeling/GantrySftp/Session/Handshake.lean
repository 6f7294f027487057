import GantrySftp.Session.Routing

/-!
# Opening a session

The handshake drives the transport itself: INIT and VERSION, and then a request for the server's
limits, if the server has the extension. The request is optional, so that a deadline that passes
over it is swallowed, whether the answer or the writing was waited for. The session is handed
over either way.
-/

namespace GantrySftp

open Library

/-! ## Transport -/

/-- What comes of writing bytes to the transport: the deadline may pass, or the transport break,
with any part of them written. -/
inductive WriteOutcome
  | written
  | expired (count : ℕ)
  | failed (count : ℕ)

/-- The bytes that were written. -/
def WriteOutcome.wrote (outcome : WriteOutcome) (wire : Bytes) : Bytes :=
  match outcome with
  | .written => wire
  | .expired count | .failed count => wire.take count

/-- What comes of waiting for bytes. -/
inductive Arrival
  | chunk (chunk : Chunk)
  | expired
  | failed

/-- What comes of every write and every wait of a handshake. Behind the arrivals is silence. -/
structure Transport where
  initiate : WriteOutcome
  probe : WriteOutcome
  arrivals : List Arrival

/-- Why no session is opened. What waits without a deadline may wait for ever. -/
inductive OpenError
  | codec (error : CodecError)
  | malformedLimits (error : ProtocolError)
  | transferTimeout (message : String)
  | transport
  | waiting

/-- What a passed deadline is reported as. Without one there is none to pass. -/
def OpenError.expired (deadline : Option String) (stalled : String) : OpenError :=
  match deadline with
  | none => .waiting
  | some deadline => .transferTimeout s!"{stalled} within {deadline}s"

/-! ## Negotiation -/

/-- Receive until the handshake is complete. -/
def readVersion (deadline : Option String) (codec : Codec) :
    List Arrival → Except OpenError (Codec × List Arrival)
  | [] =>
    if codec.state = .ready then .ok (codec, [])
    else .error (.expired deadline "server did not send VERSION")
  | arrival :: arrivals =>
    if codec.state = .ready then .ok (codec, arrival :: arrivals)
    else
      match arrival with
      | .failed => .error .transport
      | .expired => .error (.expired deadline "server did not send VERSION")
      | .chunk chunk =>
        match codec.receive chunk with
        | (.error error, _) => .error (.codec error)
        | (.ok _, codec) => readVersion deadline codec arrivals

/-- The bytes of INIT, and the codec that awaits VERSION. -/
def initiated : Except CodecError Bytes × Codec :=
  (Codec.init defaultMaxFrameLength (by decide)).initiate protocolVersion

/-- Send INIT and read VERSION within the deadline. -/
def negotiate (deadline : Option String) (transport : Transport) :
    Except OpenError (Codec × List Arrival) × Bytes :=
  match initiated with
  | (.error error, _) => (.error (.codec error), [])
  | (.ok wire, codec) =>
    match transport.initiate with
    | .failed _ => (.error .transport, transport.initiate.wrote wire)
    | .expired _ =>
      (.error (.expired deadline "the connection did not accept our INIT"),
        transport.initiate.wrote wire)
    | .written => (readVersion deadline codec transport.arrivals, wire)

/-! ## Limits -/

/-- The name of the extension that reports limits. -/
def limitsExtension : Bytes := "limits@openssh.com".toUTF8.toList

/-- What a server will accept. No number is no limit, or an unknown one. -/
structure ServerLimits where
  maxPacketLength : Option ℤ
  maxReadLength : Option ℤ
  maxWriteLength : Option ℤ
  maxOpenHandles : Option ℤ
  deriving DecidableEq

namespace ServerLimits

/-- The limits of a server that says nothing. -/
def unknown : ServerLimits := ⟨none, none, none, none⟩

/-- Zero means no limit. -/
def noLimitAsNone (value : ℤ) : Option ℤ := if value = 0 then none else some value

open WireReader in
/-- Read four limits. What stands behind them is ignored. -/
def decode : Reading ServerLimits := do
  let maxPacketLength ← readUint64
  let maxReadLength ← readUint64
  let maxWriteLength ← readUint64
  let maxOpenHandles ← readUint64
  pure
    { maxPacketLength := noLimitAsNone maxPacketLength
      maxReadLength := noLimitAsNone maxReadLength
      maxWriteLength := noLimitAsNone maxWriteLength
      maxOpenHandles := noLimitAsNone maxOpenHandles }

/-- The limits in the body of a reply. -/
def fromExtendedReply (data : Bytes) : Except ProtocolError ServerLimits :=
  Prod.fst <$> decode (.ofFrame data none)

end ServerLimits

/-- The request for the limits. -/
def limitsRequest (requestId : ℤ) : Codec.Request :=
  ⟨.extended { requestId := requestId, name := limitsExtension }, rfl⟩

/-- The limits in a response. A refusal means that they are unknown. -/
def limitsOf (response : Codec.Response) : Except OpenError ServerLimits :=
  match response.packet with
  | .extendedReply packet => (ServerLimits.fromExtendedReply packet.data).mapError .malformedLimits
  | _ => .ok .unknown

/-- The first reply among events. -/
def firstReply : List Codec.Event → Option Codec.Response
  | [] => none
  | .negotiated _ _ :: events => firstReply events
  | .completed _ response :: _ => some response

/-- The outcome of asking for limits: nothing when the deadline passed. -/
abbrev Probed := Option (Except OpenError ServerLimits)

/-- Receive until there is a reply. -/
def awaitLimits (codec : Codec) : List Arrival → Probed × Codec
  | [] => (none, codec)
  | .expired :: _ => (none, codec)
  | .failed :: _ => (some (.error .transport), codec)
  | .chunk chunk :: arrivals =>
    match codec.receive chunk with
    | (.error error, codec) => (some (.error (.codec error)), codec)
    | (.ok events, codec) =>
      match firstReply events with
      | some response => (some (limitsOf response), codec)
      | none => awaitLimits codec arrivals

/-- Ask for the limits and wait for the answer. -/
def readLimits (transport : Transport) (arrivals : List Arrival) (codec : Codec) :
    Probed × Codec × Bytes :=
  match codec.allocateRequestId with
  | (.error error, codec) => (some (.error (.codec error)), codec, [])
  | (.ok requestId, codec) =>
    match codec.send (limitsRequest requestId) with
    | (.error error, codec) => (some (.error (.codec error)), codec, [])
    | (.ok wire, codec) =>
      let written := transport.probe.wrote wire
      match transport.probe with
      | .failed _ => (some (.error .transport), codec, written)
      | .expired _ => (none, codec, written)
      | .written => ((awaitLimits codec arrivals).1, (awaitLimits codec arrivals).2, written)

/-- Read the server's limits, if it has the extension. A deadline that passes is tolerated. -/
def probeLimits (deadline : Option String) (transport : Transport) (arrivals : List Arrival)
    (codec : Codec) : Except OpenError ServerLimits × Codec × Bytes :=
  if (codec.extensions.get limitsExtension).isNone then (.ok .unknown, codec, [])
  else
    match readLimits transport arrivals codec with
    | (some limits, codec, written) => (limits, codec, written)
    | (none, codec, written) =>
      match deadline with
      | none => (.error .waiting, codec, written)
      | some _ => (.ok .unknown, codec, written)

/-! ## Opening -/

/-- What comes of opening a session: the codec and the limits it is handed over with, if it is, and
every byte written before. -/
structure Opening where
  outcome : Except OpenError (Codec × ServerLimits)
  written : Bytes

/-- Perform the handshake over a transport. -/
def openSession (deadline : Option String) (transport : Transport) : Opening :=
  match negotiate deadline transport with
  | (.error error, written) => { outcome := .error error, written := written }
  | (.ok (codec, arrivals), written) =>
    match probeLimits deadline transport arrivals codec with
    | (limits, codec, written') =>
      { outcome := (fun limits => (codec, limits)) <$> limits
        written := written ++ written' }

/-! ## Whole frames -/

/-- One frame: a body that is not empty behind its length. -/
def IsFrame (bytes : Bytes) : Prop :=
  ∃ body, body ≠ [] ∧ body.length < 256 ^ 4 ∧ bytes = toBigEndian 4 body.length ++ body

/-- Bytes that end where a frame ends. -/
def WholeFrames (bytes : Bytes) : Prop :=
  ∃ parts : List Bytes, (∀ part ∈ parts, IsFrame part) ∧ bytes = parts.flatten

/-- A splitter without a ceiling cuts a frame off whatever follows it. -/
theorem cutFrame_of_isFrame {body : Bytes} (hne : body ≠ []) (hfits : body.length < 256 ^ 4)
    (rest : Bytes) :
    cutFrame (256 ^ 4) (toBigEndian 4 body.length ++ body ++ rest) = .item body rest := by
  have hlength := List.length_pos_of_ne_nil hne
  unfold cutFrame lengthPrefixSize
  dsimp only
  rw [List.append_assoc, List.take_left' (toBigEndian_length 4 _), fromBigEndian_toBigEndian hfits,
    if_neg (by simp), if_neg (by omega), if_neg (by omega), if_neg (by simp),
    List.drop_left' (toBigEndian_length 4 _), ← List.append_assoc]
  simp [List.drop_append, toBigEndian_length, Nat.add_comm]

/-- A splitter without a ceiling waits for the rest of a frame that is cut short. -/
theorem cutFrame_of_take {frame : Bytes} (h : IsFrame frame) {count : ℕ}
    (hcut : count < frame.length) : cutFrame (256 ^ 4) (frame.take count) = .more := by
  obtain ⟨body, hne, hfits, rfl⟩ := h
  rw [List.length_append, toBigEndian_length] at hcut
  unfold cutFrame lengthPrefixSize
  dsimp only
  by_cases hshort : count < 4
  · rw [if_pos (by simp; omega)]
  · have hleading : ((toBigEndian 4 body.length ++ body).take count).take 4 =
        toBigEndian 4 body.length := by
      rw [List.take_take, min_eq_left (by omega), List.take_left' (toBigEndian_length 4 _)]
    rw [hleading, fromBigEndian_toBigEndian hfits]
    rw [if_neg (by simp; omega), if_neg (by simp [hne]), if_neg (by omega), if_pos (by simp; omega)]

/-- A splitter without a ceiling is left with nothing of whole frames, and with what follows
them. -/
theorem frames_of_wholeFrames {bytes : Bytes} (h : WholeFrames bytes) {rest : Bytes}
    (hrest : cutFrame (256 ^ 4) rest = .more) :
    (frames (256 ^ 4) (bytes ++ rest)).2 = .ok rest := by
  obtain ⟨parts, hparts, rfl⟩ := h
  unfold frames
  induction parts with
  | nil => rw [List.flatten_nil, List.nil_append, Cutter.parse_more hrest]
  | cons part parts ih =>
    obtain ⟨body, hne, hfits, rfl⟩ := hparts part List.mem_cons_self
    have hcut : (frameCutter (256 ^ 4)).cut
        (((toBigEndian 4 body.length ++ body) :: parts).flatten ++ rest) =
          .item body (parts.flatten ++ rest) := by
      rw [List.flatten_cons, List.append_assoc]
      exact cutFrame_of_isFrame hne hfits _
    rw [Cutter.parse_item hcut]
    exact ih fun other hmem => hparts other (List.mem_cons_of_mem _ hmem)

/-- Whole frames, and a frame behind them that is cut short, are not whole frames. -/
theorem WholeFrames.append_take_iff {bytes frame : Bytes} (h : WholeFrames bytes)
    (hframe : IsFrame frame) {count : ℕ} (hcut : count < frame.length) :
    WholeFrames (bytes ++ frame.take count) ↔ count = 0 := by
  have hnil : cutFrame (256 ^ 4) [] = .more := by simp [cutFrame, lengthPrefixSize]
  constructor
  · intro hwhole
    have hleft := frames_of_wholeFrames hwhole hnil
    rw [List.append_nil, frames_of_wholeFrames h (cutFrame_of_take hframe hcut)] at hleft
    have hlength := congrArg List.length (Except.ok.inj hleft)
    rw [List.length_take, List.length_nil] at hlength
    omega
  · rintro rfl
    simpa using h

/-- Whole frames, and a frame behind them. -/
theorem WholeFrames.append {bytes frame : Bytes} (h : WholeFrames bytes) (hframe : IsFrame frame) :
    WholeFrames (bytes ++ frame) := by
  obtain ⟨parts, hparts, rfl⟩ := h
  refine ⟨parts ++ [frame], fun part hmem => ?_, by simp⟩
  obtain hmem | hmem := List.mem_append.mp hmem
  · exact hparts part hmem
  · exact List.mem_singleton.mp hmem ▸ hframe

/-! ## What a handshake leaves -/

/-- A codec that has reserved no id and sent no request. -/
structure Codec.Fresh (codec : Codec) : Prop where
  outstanding : codec.outstanding = .empty
  nextId : codec.nextId = Codec.minRequestId

/-- Without requests no reply is handled. -/
theorem Codec.Fresh.handledAll {codec after : Codec} {events : List Codec.Event}
    (h : codec.Fresh) (hhandled : Codec.HandledAll codec events after) : after.Fresh := by
  induction hhandled with
  | nil codec => exact h
  | cons first rest ih =>
    cases first with
    | version hello hstate hversion extensions => exact ih ⟨h.outstanding, h.nextId⟩
    | response request response hstate hsent =>
      rw [h.outstanding] at hsent
      cases hsent

/-- What a chunk completes is handled, and what was in flight and is not retired still is. -/
theorem Codec.receive_ok {codec after : Codec} {chunk : Chunk} {events : List Codec.Event}
    (h : codec.receive chunk = (.ok events, after)) :
    Codec.HandledAll (codec.fedWith chunk) events after := by
  obtain ⟨-, hreceive⟩ | ⟨-, error, after', hreceive, -⟩ |
    ⟨-, frames, events', after', -, hhandle, hreceive⟩ := codec.receive_cases chunk
  · rw [hreceive] at h
    cases h
  · rw [hreceive] at h
    cases h
  · rw [hreceive] at h
    obtain ⟨hevents, rfl⟩ := Prod.mk.inj h
    obtain rfl := Except.ok.inj hevents
    exact Codec.handledAll_of_handleFrames hhandle

/-- A complete handshake leaves a codec that is ready and has sent no request. -/
theorem readVersion_ok {deadline : Option String} {codec ready : Codec}
    {arrivals rest : List Arrival} (hfresh : codec.Fresh)
    (h : readVersion deadline codec arrivals = .ok (ready, rest)) :
    ready.Fresh ∧ ready.state = .ready := by
  induction arrivals generalizing codec with
  | nil =>
    unfold readVersion at h
    split_ifs at h with hstate
    obtain ⟨rfl, -⟩ := Prod.mk.inj (Except.ok.inj h)
    exact ⟨hfresh, hstate⟩
  | cons arrival arrivals ih =>
    unfold readVersion at h
    split_ifs at h with hstate
    · obtain ⟨rfl, -⟩ := Prod.mk.inj (Except.ok.inj h)
      exact ⟨hfresh, hstate⟩
    · cases arrival with
      | failed => cases h
      | expired => cases h
      | chunk chunk =>
        cases hreceive : codec.receive chunk with
        | mk result after =>
          cases result with
          | error error =>
            simp only [hreceive] at h
            cases h
          | ok events =>
            simp only [hreceive] at h
            have hfed : (codec.fedWith chunk).Fresh := ⟨hfresh.outstanding, hfresh.nextId⟩
            exact ih (hfed.handledAll (Codec.receive_ok hreceive)) h

/-- The frame of INIT. -/
def initFrame : Bytes := [0, 0, 0, 5, 1, 0, 0, 0, 3]

/-- INIT is sent as its frame. -/
theorem initiated_eq : initiated = (.ok initFrame,
    { Codec.init defaultMaxFrameLength (by decide) with state := .awaitingVersion }) := rfl

/-- The frame of INIT is one. -/
theorem isFrame_initFrame : IsFrame initFrame :=
  ⟨[1, 0, 0, 0, 3], by decide, by decide, by decide⟩

/-- After negotiation the codec is ready, has sent no request, and INIT is all that was
written. -/
theorem negotiate_ok {deadline : Option String} {transport : Transport} {codec : Codec}
    {arrivals : List Arrival} {written : Bytes}
    (h : negotiate deadline transport = (.ok (codec, arrivals), written)) :
    codec.Fresh ∧ codec.state = .ready ∧ written = initFrame := by
  unfold negotiate at h
  rw [initiated_eq] at h
  dsimp only at h
  cases hwrite : transport.initiate with
  | failed count => simp [hwrite] at h
  | expired count => simp [hwrite] at h
  | written =>
    rw [hwrite] at h
    obtain ⟨hread, rfl⟩ := Prod.mk.inj h
    obtain ⟨hfresh, hready⟩ := readVersion_ok ⟨rfl, rfl⟩ hread
    exact ⟨hfresh, hready, rfl⟩

/-- The frame of the request for the limits. -/
def limitsFrame : Bytes := [0, 0, 0, 27, 200, 0, 0, 0, 1, 0, 0, 0, 18] ++ limitsExtension

/-- The frame of the request for the limits is one. -/
theorem isFrame_limitsFrame : IsFrame limitsFrame :=
  ⟨[200, 0, 0, 0, 1, 0, 0, 0, 18] ++ limitsExtension, by decide, by decide +kernel,
    by decide +kernel⟩

/-- The request for the limits is the first, and sent as its frame. -/
theorem send_limits {codec : Codec} (hfresh : codec.Fresh) (hready : codec.state = .ready) :
    ∃ reserved after, codec.allocateRequestId = (.ok 1, reserved) ∧
      reserved.send (limitsRequest 1) = (.ok limitsFrame, after) ∧
        after.outstanding = Dict.set .empty 1 (limitsRequest 1) := by
  have hwire : Codec.wire (limitsRequest 1).packet = .ok limitsFrame := by decide +kernel
  refine ⟨{ codec with nextId := 2 }, { codec with
    nextId := 2, outstanding := Dict.set .empty 1 (limitsRequest 1) }, ?_, ?_, rfl⟩
  · unfold Codec.allocateRequestId
    rw [hfresh.outstanding, hfresh.nextId]
    rfl
  · unfold Codec.send Codec.requireState
    simp [hready, hfresh.outstanding, hwire]
    rfl

/-! ## Handing over on a frame boundary -/

/-- If a session is handed over, whole frames were written before. -/
def Opening.OnBoundary (opening : Opening) : Prop :=
  (∃ session, opening.outcome = .ok session) → WholeFrames opening.written

/-- The deadline passes in the middle of writing the request for the limits. -/
def CutsProbe (deadline : Option String) (transport : Transport) : Prop :=
  (∃ codec arrivals written, negotiate deadline transport = (.ok (codec, arrivals), written) ∧
      (codec.extensions.get limitsExtension).isSome = true) ∧
    deadline.isSome = true ∧
      ∃ count, transport.probe = .expired count ∧ 0 < count ∧ count < limitsFrame.length

/-- Waiting for limits retires requests only. -/
theorem awaitLimits_get (codec : Codec) (arrivals : List Arrival) {requestId : ℤ}
    {request : Codec.Request}
    (h : (awaitLimits codec arrivals).2.outstanding.get requestId = some request) :
    codec.outstanding.get requestId = some request := by
  induction arrivals generalizing codec with
  | nil => exact h
  | cons arrival arrivals ih =>
    unfold awaitLimits at h
    cases arrival with
    | expired => exact h
    | failed => exact h
    | chunk chunk =>
      cases hreceive : codec.receive chunk with
      | mk result after =>
        have hkept : after.outstanding.get requestId = some request →
            codec.outstanding.get requestId = some request := by
          obtain ⟨-, hcase⟩ | ⟨-, error, after', hcase, -, hget⟩ |
            ⟨-, frames, events, after', -, hhandle, hcase⟩ := codec.receive_cases chunk
          · obtain ⟨-, rfl⟩ := Prod.mk.inj (hreceive.symm.trans hcase)
            exact id
          · obtain ⟨-, rfl⟩ := Prod.mk.inj (hreceive.symm.trans hcase)
            exact hget _ _
          · obtain ⟨-, rfl⟩ := Prod.mk.inj (hreceive.symm.trans hcase)
            exact (Codec.handledAll_of_handleFrames hhandle).get
        simp only [hreceive] at h
        cases result with
        | error error => exact hkept h
        | ok events =>
          dsimp only at h
          cases hreply : firstReply events with
          | some response =>
            rw [hreply] at h
            exact hkept h
          | none =>
            rw [hreply] at h
            exact hkept (ih after h)

/-- What asking for limits writes and leaves in flight: its one request. -/
theorem readLimits_frame {codec : Codec} (hfresh : codec.Fresh) (hready : codec.state = .ready)
    (transport : Transport) (arrivals : List Arrival) :
    (readLimits transport arrivals codec).2.2 = transport.probe.wrote limitsFrame ∧
      (∀ requestId request,
        (readLimits transport arrivals codec).2.1.outstanding.get requestId = some request →
          request.requestId = requestId) ∧
      ∀ count, transport.probe = .expired count →
        (readLimits transport arrivals codec).1 = none := by
  obtain ⟨reserved, after, hallocate, hsend, houtstanding⟩ := send_limits hfresh hready
  have hkeyed : ∀ requestId request, after.outstanding.get requestId = some request →
      request.requestId = requestId := by
    intro requestId request hget
    rw [houtstanding, Dict.get_set] at hget
    split_ifs at hget with hid
    · obtain rfl := Option.some.inj hget
      exact hid
    · cases hget
  unfold readLimits
  simp only [hallocate, hsend]
  cases hprobe : transport.probe with
  | written =>
    refine ⟨rfl, fun requestId request hget => ?_, fun count hcount => ?_⟩
    · exact hkeyed _ _ (awaitLimits_get after arrivals hget)
    · cases hcount
  | expired count => exact ⟨rfl, hkeyed, fun _ _ => rfl⟩
  | failed count =>
    refine ⟨rfl, hkeyed, fun expired hcount => ?_⟩
    cases hcount

/-- A failed write of the request for the limits is not tolerated. -/
theorem readLimits_failed {codec : Codec} (hfresh : codec.Fresh) (hready : codec.state = .ready)
    {transport : Transport} (arrivals : List Arrival) {count : ℕ}
    (h : transport.probe = .failed count) :
    (readLimits transport arrivals codec).1 = some (.error .transport) := by
  obtain ⟨reserved, after, hallocate, hsend, -⟩ := send_limits hfresh hready
  unfold readLimits
  simp only [hallocate, hsend, h]

/-- The probe ends on a frame boundary, if it ends at all, unless the deadline passes in the middle
of its request. -/
theorem probeLimits_boundary {codec : Codec} (hfresh : codec.Fresh) (hready : codec.state = .ready)
    (deadline : Option String) (transport : Transport) (arrivals : List Arrival) :
    ((∃ limits, (probeLimits deadline transport arrivals codec).1 = .ok limits) →
        WholeFrames (initFrame ++ (probeLimits deadline transport arrivals codec).2.2)) ↔
      ¬ ((codec.extensions.get limitsExtension).isSome = true ∧ deadline.isSome = true ∧
        ∃ count, transport.probe = .expired count ∧ 0 < count ∧ count < limitsFrame.length) := by
  have hinit : WholeFrames initFrame :=
    ⟨[initFrame], by simpa using isFrame_initFrame, by simp⟩
  unfold probeLimits
  cases hextension : codec.extensions.get limitsExtension with
  | none => simpa using hinit
  | some version =>
    obtain ⟨hwritten, -, hexpired⟩ := readLimits_frame hfresh hready transport arrivals
    have hfailed : ∀ count, transport.probe = .failed count →
        (readLimits transport arrivals codec).1 = some (.error .transport) :=
      fun count hcount => readLimits_failed hfresh hready arrivals hcount
    rw [if_neg (by simp)]
    generalize readLimits transport arrivals codec = read at hwritten hexpired hfailed
    obtain ⟨limits, after, written⟩ := read
    obtain rfl : written = transport.probe.wrote limitsFrame := hwritten
    cases hprobe : transport.probe with
    | written =>
      have hwhole : WholeFrames (initFrame ++ limitsFrame) := hinit.append isFrame_limitsFrame
      refine iff_of_true (fun _ => ?_) fun ⟨_, _, count, hcount, _⟩ => nomatch hcount
      cases limits <;> cases deadline <;> exact hwhole
    | failed count =>
      obtain rfl : limits = some (.error .transport) := hfailed count hprobe
      refine iff_of_true (fun ⟨limits, hlimits⟩ => nomatch hlimits) ?_
      exact fun ⟨_, _, count, hcount, _⟩ => nomatch hcount
    | expired count =>
      obtain rfl : limits = none := hexpired count hprobe
      cases deadline with
      | none => simp
      | some deadline =>
        have hcut : WholeFrames (initFrame ++ limitsFrame.take count) ↔
            ¬ (0 < count ∧ count < limitsFrame.length) := by
          by_cases hshort : count < limitsFrame.length
          · rw [hinit.append_take_iff isFrame_limitsFrame hshort]
            omega
          · rw [List.take_of_length_le (by omega)]
            exact iff_of_true (hinit.append isFrame_limitsFrame) (by omega)
        simpa [WriteOutcome.wrote] using hcut

/-- What comes of opening a session once it is negotiated. -/
theorem openSession_of_negotiate {deadline : Option String} {transport : Transport} {codec : Codec}
    {arrivals : List Arrival} {written : Bytes}
    (h : negotiate deadline transport = (.ok (codec, arrivals), written)) :
    openSession deadline transport =
      { outcome := (fun limits => ((probeLimits deadline transport arrivals codec).2.1, limits)) <$>
          (probeLimits deadline transport arrivals codec).1
        written := written ++ (probeLimits deadline transport arrivals codec).2.2 } := by
  unfold openSession
  rw [h]

/-- A session is handed over on a frame boundary if and only if the deadline does not pass in the
middle of writing the request for the limits. -/
theorem openSession_onBoundary (deadline : Option String) (transport : Transport) :
    (openSession deadline transport).OnBoundary ↔ ¬ CutsProbe deadline transport := by
  unfold Opening.OnBoundary CutsProbe
  cases hnegotiate : negotiate deadline transport with
  | mk negotiated written =>
    cases negotiated with
    | error error =>
      have hraised : (openSession deadline transport).outcome = .error error := by
        unfold openSession
        rw [hnegotiate]
      simp [hraised]
    | ok found =>
      obtain ⟨codec, arrivals⟩ := found
      obtain ⟨hfresh, hready, rfl⟩ := negotiate_ok hnegotiate
      have hboundary := probeLimits_boundary hfresh hready deadline transport arrivals
      rw [openSession_of_negotiate hnegotiate]
      generalize probeLimits deadline transport arrivals codec = probed at hboundary
      obtain ⟨limits, after, written⟩ := probed
      cases limits with
      | error error => simpa [Functor.map, Except.map] using hboundary
      | ok limits => simpa [Functor.map, Except.map] using hboundary

/-- What is still in flight when a session is handed over is under its own id. -/
theorem openSession_keyed {deadline : Option String} {transport : Transport} {codec : Codec}
    {limits : ServerLimits} (h : (openSession deadline transport).outcome = .ok (codec, limits))
    {requestId : ℤ} {request : Codec.Request}
    (hget : codec.outstanding.get requestId = some request) : request.requestId = requestId := by
  cases hnegotiate : negotiate deadline transport with
  | mk negotiated written =>
    cases negotiated with
    | error error =>
      unfold openSession at h
      rw [hnegotiate] at h
      cases h
    | ok found =>
      obtain ⟨ready, arrivals⟩ := found
      obtain ⟨hfresh, hready, -⟩ := negotiate_ok hnegotiate
      obtain ⟨-, hkeyed, -⟩ := readLimits_frame hfresh hready transport arrivals
      have hprobe : (probeLimits deadline transport arrivals ready).2.1 = ready ∨
          (probeLimits deadline transport arrivals ready).2.1 =
            (readLimits transport arrivals ready).2.1 := by
        unfold probeLimits
        split_ifs
        · exact Or.inl rfl
        · obtain ⟨limits, after, written⟩ := readLimits transport arrivals ready
          cases limits <;> cases deadline <;> exact Or.inr rfl
      rw [openSession_of_negotiate hnegotiate] at h
      generalize probeLimits deadline transport arrivals ready = probed at h hprobe
      obtain ⟨limits', after, written'⟩ := probed
      cases limits' with
      | error error => cases h
      | ok limits' =>
        obtain ⟨rfl, -⟩ := Prod.mk.inj (Except.ok.inj h)
        obtain hsame | hsame := hprobe
        · rw [show after = ready from hsame, hfresh.outstanding] at hget
          cases hget
        · exact hkeyed _ _ (hsame ▸ hget)

end GantrySftp
