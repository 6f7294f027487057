import GantrySftp.Codec.Correlation

/-!
# Refused calls

A call that the codec itself refuses, by its own rules or because a field does not fit the
format, leaves the codec as it was, so that a corrected call answers as it would have. Opening
the connection is the one exception: the handshake counts as begun before the version is encoded.
-/

namespace GantrySftp

open Library

/-- An error of the caller's own making: a broken rule, or a value that no field can hold. -/
def CodecError.IsRefusal : CodecError → Prop
  | .stateError _ => True
  | .writeError (.valueError _) => True
  | .writeError (.overflowError _) => False
  | .protocolError _ => False

namespace Codec

/-- The codec is what it was, and answers every later call as it would have. -/
structure Untouched (before after : Codec) : Prop where
  state : after.state = before.state
  outstanding : after.outstanding = before.outstanding
  nextId : after.nextId = before.nextId
  version : after.version = before.version
  extensions : after.extensions = before.extensions
  corrected : ∀ request, after.call request = before.call request

/-- A codec that is the same was not touched. -/
theorem Untouched.refl (codec : Codec) : Untouched codec codec :=
  ⟨rfl, rfl, rfl, rfl, rfl, fun _ => rfl⟩

/-- The call opens the connection with a version that its field cannot hold. -/
def OpensUnencodable (codec : Codec) : Call → Prop
  | .initiate version => codec.state = .new ∧ ¬FitsUint 4 version
  | .allocateRequestId => False
  | .send _ => False
  | .receive _ => False

/-! ## Opening the connection -/

/-- An opening packet is written when its version fits. -/
theorem wire_init_fits {version : ℤ} (hfits : FitsUint 4 version) :
    ∃ bytes, wire (.init { version := version }) = .ok bytes := by
  have hfield : WireWriter.writeUint32 version =
      WireWriter.writeBytes (toBigEndian 4 version.toNat) := if_pos hfits
  have hbody : Hello.encodeBody { version := version } =
      (do WireWriter.writeBytes (toBigEndian 4 version.toNat); pure ()) := by
    rw [Hello.encodeBody, hfield]
    rfl
  have hunframed : encodeUnframed (.init { version := version }) =
      .ok { chunks := [toBigEndian 1 1, toBigEndian 4 version.toNat], size := 5,
            size_eq := by simp } := by
    rw [encodeUnframed, Packet.encodeBody, hbody]
    simp [WireWriter.writeUint8, WireWriter.writeUint]
    rfl
  rw [wire, encode, hunframed]
  exact ⟨_, rfl⟩

/-- An opening packet is refused when its version does not fit. -/
theorem wire_init_refused {version : ℤ} (hfits : ¬FitsUint 4 version) :
    wire (.init { version := version }) =
      .error (.writeError (.valueError s!"uint32 out of range: {version}")) := by
  have hfield : WireWriter.writeUint32 version =
      throw (.valueError s!"uint32 out of range: {version}") := if_neg hfits
  have hunframed : encodeUnframed (.init { version := version }) =
      .error (.valueError s!"uint32 out of range: {version}") := by
    rw [encodeUnframed, Packet.encodeBody, Hello.encodeBody, hfield]
    simp [WireWriter.writeUint8, WireWriter.writeUint]
    rfl
  rw [wire, encode, hunframed]
  rfl

/-- Opening the connection with a version that fits either begins the handshake or raises and
changes nothing. -/
theorem initiate_of_fits {codec : Codec} {version : ℤ} {error : CodecError}
    (hfits : FitsUint 4 version) (h : (codec.initiate version).1 = .error error) :
    (codec.initiate version).2 = codec := by
  unfold initiate at h ⊢
  cases hguard : codec.requireState .new "send INIT" with
  | error refused => rfl
  | ok _ =>
    obtain ⟨bytes, hwritten⟩ := wire_init_fits hfits
    simp only [hguard, hwritten] at h
    cases h

/-- Opening a fresh connection with a version that does not fit raises and begins the
handshake. -/
theorem initiate_of_not_fits {codec : Codec} {version : ℤ} (hstate : codec.state = .new)
    (hfits : ¬FitsUint 4 version) :
    codec.initiate version =
      (.error (.writeError (.valueError s!"uint32 out of range: {version}")),
        { codec with state := .awaitingVersion }) := by
  have hguard : codec.requireState .new "send INIT" = .ok () := by
    simp [requireState, hstate]
  rw [initiate, hguard, ← wire_init_refused hfits]

/-! ## Every call -/

/-- A refused call leaves the very same codec, unless it opens the connection with a version
that does not fit. -/
theorem call_of_refused {codec : Codec} {request : Call} {error : CodecError}
    (h : (codec.call request).1 = .error error) (herror : error.IsRefusal)
    (hopens : ¬codec.OpensUnencodable request) : (codec.call request).2 = codec := by
  cases request with
  | initiate version =>
    cases hinitiate : (codec.initiate version).1 with
    | ok bytes =>
      rw [call, hinitiate] at h
      cases h
    | error refused =>
      by_cases hfits : FitsUint 4 version
      · exact initiate_of_fits hfits hinitiate
      · obtain ⟨error, heq, -⟩ | ⟨hstate, -⟩ := codec.initiate_cases version
        · simp only [call, heq]
        · exact absurd ⟨hstate, hfits⟩ hopens
  | allocateRequestId =>
    simp only [call, allocateRequestId] at h ⊢
    split_ifs at h ⊢ with hfull
    · rfl
    · cases h
  | send request =>
    obtain ⟨error, heq, -⟩ | ⟨bytes, -, -, heq⟩ := codec.send_cases request
    · simp only [call, heq]
    · rw [call, heq] at h
      cases h
  | receive chunk =>
    obtain ⟨-, heq⟩ | ⟨-, error, after, heq, -, -⟩ | ⟨-, frames, events, after, -, -, heq⟩ :=
      codec.receive_cases chunk
    all_goals
      rw [call, heq] at h
      cases h
      try exact herror.elim

/-- In whatever state calls have left a codec, a refused call leaves it untouched exactly when it
does not open the connection with a version that does not fit. -/
theorem refused_untouched_iff (maxFrameLength : ℕ) (h : 1 ≤ maxFrameLength) (calls : List Call)
    (request : Call) :
    let codec := ((init maxFrameLength h).run calls).2
    (∀ error, (codec.call request).1 = .error error → error.IsRefusal →
      Untouched codec (codec.call request).2) ↔ ¬codec.OpensUnencodable request := by
  intro codec
  apply Iff.intro
  · intro huntouched hopens
    cases request with
    | initiate version =>
      obtain ⟨hstate, hfits⟩ := hopens
      have hinitiate := initiate_of_not_fits hstate hfits
      have hcall : codec.call (.initiate version) =
          (.error (.writeError (.valueError s!"uint32 out of range: {version}")),
            { codec with state := .awaitingVersion }) := by
        rw [call, hinitiate]
        rfl
      have hsame := (huntouched _ (congrArg Prod.fst hcall) trivial).state
      rw [hcall, hstate] at hsame
      cases hsame
    | allocateRequestId => exact hopens
    | send request => exact hopens
    | receive chunk => exact hopens
  · intro hopens error herror hrefusal
    rw [call_of_refused herror hrefusal hopens]
    exact Untouched.refl codec

/-- Sending a request under an id that is in flight is refused and touches nothing. -/
theorem refused_untouched_iff_inFlight :
    let codec := ((init 64 (by decide)).run (handshaken ++ [(closed 1).1])).2
    ∃ error, (codec.call (closed 1).1).1 = .error error ∧ error.IsRefusal ∧
      Untouched codec (codec.call (closed 1).1).2 := by
  have huntouched :=
    (refused_untouched_iff 64 (by decide) (handshaken ++ [(closed 1).1]) (closed 1).1).mpr id
  have hrefused : (((init 64 (by decide)).run (handshaken ++ [(closed 1).1])).2.call
      (closed 1).1).1 = .error (.stateError ("request id 1 is already in flight for a Close; " ++
        "ids come from allocate_request_id() and are free again once answered")) := by
    decide +kernel
  exact ⟨_, hrefused, trivial, huntouched _ hrefused trivial⟩

/-- Asking a fresh codec for a version that does not fit is refused and begins the handshake, and
the corrected call is refused for that. -/
theorem refused_initiate_touches :
    ∃ error, ((init 64 (by decide)).call (.initiate (2 ^ 32))).1 = .error error ∧
      error.IsRefusal ∧
      ((init 64 (by decide)).call (.initiate (2 ^ 32))).2.state = .awaitingVersion ∧
      (∃ message, (((init 64 (by decide)).call (.initiate (2 ^ 32))).2.call (.initiate 3)).1 =
        .error (.stateError message)) ∧
      (∃ entries, ((init 64 (by decide)).call (.initiate 3)).1 = .ok entries) ∧
      ¬Untouched (init 64 (by decide)) ((init 64 (by decide)).call (.initiate (2 ^ 32))).2 := by
  have hcall : (init 64 (by decide)).call (.initiate (2 ^ 32)) =
      (.error (.writeError (.valueError s!"uint32 out of range: {(2 ^ 32 : ℤ)}")),
        { init 64 (by decide) with state := .awaitingVersion }) := by
    rw [call, initiate_of_not_fits rfl (by decide)]
    rfl
  obtain ⟨bytes, hwritten⟩ := wire_init_fits (show FitsUint 4 3 by decide)
  rw [hcall]
  refine ⟨_, rfl, trivial, rfl, ⟨_, rfl⟩, ⟨[], ?_⟩, fun huntouched => ?_⟩
  · change (fun _ => []) <$> wire (.init { version := 3 }) = _
    rw [hwritten]
    rfl
  · cases huntouched.state

end Codec

end GantrySftp
