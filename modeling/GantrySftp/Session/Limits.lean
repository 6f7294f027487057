import GantrySftp.Codec.RoundTrip
import GantrySftp.Session.RemoteFile

/-!
# Sizes that fit the server's limits

A payload shares its packet with a header whose length depends on the handle. The sizes that are
negotiated leave room for it inside the packet ceiling, and stay below the payload limits that the
server names and the sizes that are preferred. The header is counted as the encoders write it.
-/

namespace GantrySftp

open Library

/-! ## Negotiation -/

/-- Sizes that make progress, or a refusal of those that do not. -/
def TransferSizes.ofLengths (readLength writeLength : ℤ) : Except Failure TransferSizes :=
  if hread : readLength < minimumUsefulLength then
    .error (.valueError s!"read_length must be at least 1, got {readLength}")
  else if hwrite : writeLength < minimumUsefulLength then
    .error (.valueError s!"write_length must be at least 1, got {writeLength}")
  else .ok
    { readLength := readLength.toNat
      writeLength := writeLength.toNat
      read_pos := by unfold minimumUsefulLength at hread; omega
      write_pos := by unfold minimumUsefulLength at hwrite; omega }

/-- A length under a limit, if there is one. -/
def underLimit (length : ℤ) : Option ℤ → ℤ
  | none => length
  | some limit => min length limit

/-- The largest payloads that fit, in each direction, for the sizes that are preferred. -/
def negotiateTransferSizesFor (limits : ServerLimits) (handleLength : ℕ)
    (preferredRead preferredWrite : ℤ) : Except Failure TransferSizes :=
  let packetCeiling := limits.effectiveMaxPacketLength
  let readBudget := packetCeiling - readRequestOverhead handleLength
  let readLength := underLimit (min preferredRead readBudget) limits.maxReadLength
  let writeBudget := packetCeiling - writeRequestOverhead handleLength
  let writeLength := underLimit (min preferredWrite writeBudget) limits.maxWriteLength
  TransferSizes.ofLengths (max readLength minimumUsefulLength)
    (max writeLength minimumUsefulLength)

/-- Negotiation does not refuse the sizes that it comes to. -/
theorem negotiateTransferSizesFor_ok (limits : ServerLimits) (handleLength : ℕ)
    (preferredRead preferredWrite : ℤ) :
    ∃ sizes, negotiateTransferSizesFor limits handleLength preferredRead preferredWrite =
        .ok sizes ∧
      (sizes.readLength : ℤ) = max (underLimit (min preferredRead
        (limits.effectiveMaxPacketLength - readRequestOverhead handleLength))
          limits.maxReadLength) 1 ∧
      (sizes.writeLength : ℤ) = max (underLimit (min preferredWrite
        (limits.effectiveMaxPacketLength - writeRequestOverhead handleLength))
          limits.maxWriteLength) 1 := by
  unfold negotiateTransferSizesFor TransferSizes.ofLengths minimumUsefulLength
  dsimp only
  rw [dif_neg (not_lt.mpr (le_max_right _ _)), dif_neg (not_lt.mpr (le_max_right _ _))]
  refine ⟨_, rfl, ?_, ?_⟩
  · exact Int.toNat_of_nonneg (le_trans (by decide) (le_max_right _ _))
  · exact Int.toNat_of_nonneg (le_trans (by decide) (le_max_right _ _))

/-- What a handle's transfers go by is negotiated for the preferred length. -/
theorem negotiateTransferSizesFor_preferred (limits : ServerLimits) (handleLength : ℕ) :
    negotiateTransferSizesFor limits handleLength preferredLength preferredLength =
      .ok (negotiateTransferSizes limits handleLength) := by
  obtain ⟨sizes, hsizes, hread, hwrite⟩ := negotiateTransferSizesFor_ok limits handleLength
    preferredLength preferredLength
  have hlength : ∀ budget limit, ((negotiatedLength budget limit : ℕ) : ℤ) =
      max (underLimit (min preferredLength budget) limit) 1 := by
    intro budget limit
    unfold negotiatedLength underLimit
    rw [Int.toNat_of_nonneg (le_trans (by decide) (le_max_right _ _))]
    cases limit <;> rfl
  rw [hsizes]
  obtain ⟨readLength, writeLength, hpos, hpos'⟩ := sizes
  unfold negotiateTransferSizes
  simp only [Except.ok.injEq, TransferSizes.mk.injEq]
  dsimp only at hread hwrite
  rw [← hlength] at hread hwrite
  exact ⟨by exact_mod_cast hread, by exact_mod_cast hwrite⟩

/-! ## What the encoders write -/

section Sizes

variable {writer writer' : WireWriter}

/-- Raw bytes add their length. -/
theorem size_writeBytes {value : Bytes}
    (h : WireWriter.writeBytes value writer = .ok ((), writer')) :
    writer'.size = writer.size + value.length := by
  obtain rfl := (Prod.mk.inj (Except.ok.inj h)).2
  rfl

/-- An integer that was written adds the width of its field. -/
theorem size_writeUint {width : ℕ} {label : String} {value : ℤ}
    (h : WireWriter.writeUint width label value writer = .ok ((), writer')) :
    writer'.size = writer.size + width := by
  unfold WireWriter.writeUint at h
  split_ifs at h with hrange
  · rw [size_writeBytes h, toBigEndian_length]
  · cases h

/-- Two parts of a body were written when both were. -/
theorem writing_bind_ok {first : Writing Unit} {second : Unit → Writing Unit}
    (h : (first >>= second) writer = .ok ((), writer')) :
    ∃ between, first writer = .ok ((), between) ∧ second () between = .ok ((), writer') := by
  change (first writer >>= _) = _ at h
  cases hfirst : first writer with
  | error error =>
    rw [hfirst] at h
    cases h
  | ok written =>
    rw [hfirst] at h
    exact ⟨written.2, rfl, h⟩

/-- A string that was written adds its length and the width of its prefix. -/
theorem size_writeString {value : Bytes}
    (h : WireWriter.writeString value writer = .ok ((), writer')) :
    writer'.size = writer.size + 4 + value.length := by
  obtain ⟨between, hlength, hbytes⟩ := writing_bind_ok h
  rw [size_writeBytes hbytes, size_writeUint hlength]

/-- A packet that was encoded is its type byte and what its body adds to it. -/
theorem encodeUnframed_ok {packet : Packet} (h : encodeUnframed packet = .ok writer) :
    ∃ typed, typed.size = 1 ∧ packet.encodeBody typed = .ok ((), writer) := by
  unfold encodeUnframed at h
  generalize hrun : (do
    WireWriter.writeUint8 packet.packetType.value
    packet.encodeBody : Writing Unit) WireWriter.empty = ended at h
  cases ended with
  | error error => cases h
  | ok written =>
    obtain ⟨_, last⟩ := written
    obtain rfl := Except.ok.inj h
    obtain ⟨typed, htype, hbody⟩ := writing_bind_ok hrun
    exact ⟨typed, size_writeUint htype, hbody⟩

/-- A WRITE costs its overhead and its payload. -/
theorem size_encode_write {packet : Write} (h : encodeUnframed (.write packet) = .ok writer) :
    (writer.getvalue.length : ℤ) =
      writeRequestOverhead packet.handle.length + packet.data.length := by
  obtain ⟨typed, hsize, hbody⟩ := encodeUnframed_ok h
  obtain ⟨first, hid, hbody⟩ := writing_bind_ok hbody
  obtain ⟨second, hhandle, hbody⟩ := writing_bind_ok hbody
  obtain ⟨third, hoffset, hdata⟩ := writing_bind_ok hbody
  have hlength : writer.getvalue.length = writer.size := writer.size_eq.symm
  rw [hlength, size_writeString hdata, size_writeUint hoffset, size_writeString hhandle,
    size_writeUint hid, hsize, writeRequestOverhead]
  push_cast
  ring

/-- A DATA costs nine bytes and its payload. -/
theorem size_encode_data {packet : Data} (h : encodeUnframed (.data packet) = .ok writer) :
    writer.getvalue.length = 9 + packet.data.length := by
  obtain ⟨typed, hsize, hbody⟩ := encodeUnframed_ok h
  obtain ⟨first, hid, hdata⟩ := writing_bind_ok hbody
  have hlength : writer.getvalue.length = writer.size := writer.size_eq.symm
  rw [hlength, size_writeString hdata, size_writeUint hid, hsize]

end Sizes

/-- A packet in range is encoded, and its body is no longer than a ceiling. -/
def BodyFits (packet : Packet) (ceiling : ℕ) : Prop :=
  (packet.InRange → packet.Canonical → ∃ writer, encodeUnframed packet = .ok writer) ∧
    ∀ writer, encodeUnframed packet = .ok writer → writer.getvalue.length ≤ ceiling

/-- A packet's body fits when it does wherever it is encoded. -/
theorem bodyFits_of_length {packet : Packet} {ceiling : ℕ}
    (h : ∀ writer, encodeUnframed packet = .ok writer → writer.getvalue.length ≤ ceiling) :
    BodyFits packet ceiling := by
  refine ⟨fun hrange hcanonical => ?_, h⟩
  obtain ⟨writer, -, hwriter, -⟩ := encodeUnframed_eq hrange hcanonical
  exact ⟨writer, hwriter⟩

/-! ## What was negotiated -/

/-- A server's reply with its four numbers. -/
def limitsReply (packetLength readLimit writeLimit openHandles : UInt64) : Bytes :=
  toBigEndian 8 packetLength.toNat ++ toBigEndian 8 readLimit.toNat ++
    toBigEndian 8 writeLimit.toNat ++ toBigEndian 8 openHandles.toNat

/-- The ceiling that a packet length stands for: zero names none. -/
def ceilingOf (packetLength : ℕ) : ℕ := if packetLength = 0 then 262144 else packetLength

/-- Sizes of at least one byte that fit what is preferred, and what a server said of its limits
wherever a WRITE through the handle has room for a payload. -/
structure SizesFit (packetLength readLimit writeLimit : ℕ) (handle : Bytes)
    (preferredRead preferredWrite : ℤ) (sizes : TransferSizes) : Prop where
  one_le_read : 1 ≤ sizes.readLength
  one_le_write : 1 ≤ sizes.writeLength
  read_le : sizes.readLength ≤ preferredRead
  write_le : sizes.writeLength ≤ preferredWrite
  header : ∀ packet : Write, packet.handle = handle → ∀ writer,
    encodeUnframed (.write packet) = .ok writer →
      (writer.getvalue.length : ℤ) = writeRequestOverhead handle.length + packet.data.length
  within : writeRequestOverhead handle.length < ceilingOf packetLength →
    (readLimit ≠ 0 → sizes.readLength ≤ readLimit) ∧
    (writeLimit ≠ 0 → sizes.writeLength ≤ writeLimit) ∧
    (∀ packet : Write, packet.handle = handle → packet.data.length = sizes.writeLength →
      BodyFits (.write packet) (ceilingOf packetLength)) ∧
    (∀ packet : Data, packet.data.length = sizes.readLength →
      BodyFits (.data packet) (ceilingOf packetLength)) ∧
    ∀ length : ℕ, length ≤ preferredWrite → (writeLimit ≠ 0 → length ≤ writeLimit) →
      writeRequestOverhead handle.length + length ≤ ceilingOf packetLength →
        length ≤ sizes.writeLength

/-- The limits that a server's numbers stand for. -/
def limitsFor (packetLength readLimit writeLimit openHandles : ℕ) : ServerLimits where
  maxPacketLength := ServerLimits.noLimitAsNone packetLength
  maxReadLength := ServerLimits.noLimitAsNone readLimit
  maxWriteLength := ServerLimits.noLimitAsNone writeLimit
  maxOpenHandles := ServerLimits.noLimitAsNone openHandles

/-- The ceiling to plan against is the one that a packet length stands for. -/
theorem effectiveMaxPacketLength_limitsFor (packetLength readLimit writeLimit openHandles : ℕ) :
    (limitsFor packetLength readLimit writeLimit openHandles).effectiveMaxPacketLength =
      ceilingOf packetLength := by
  unfold ServerLimits.effectiveMaxPacketLength limitsFor ServerLimits.noLimitAsNone ceilingOf
    defaultMaxPacketLength
  by_cases hzero : packetLength = 0 <;> simp [hzero]

/-- A length under the limit that a number stands for. -/
theorem underLimit_noLimitAsNone (length : ℤ) (limit : ℕ) :
    underLimit length (ServerLimits.noLimitAsNone limit) =
      if limit = 0 then length else min length limit := by
  unfold ServerLimits.noLimitAsNone
  by_cases hzero : limit = 0 <;> simp [hzero, underLimit]

/-- The sizes negotiated for a server's numbers fit them. -/
theorem sizesFit_limitsFor (packetLength readLimit writeLimit openHandles : ℕ) (handle : Bytes)
    {preferredRead preferredWrite : ℤ} (hread : 1 ≤ preferredRead) (hwrite : 1 ≤ preferredWrite) :
    ∃ sizes, negotiateTransferSizesFor (limitsFor packetLength readLimit writeLimit openHandles)
        handle.length preferredRead preferredWrite = .ok sizes ∧
      SizesFit packetLength readLimit writeLimit handle preferredRead preferredWrite sizes := by
  obtain ⟨sizes, hsizes, hreads, hwrites⟩ := negotiateTransferSizesFor_ok
    (limitsFor packetLength readLimit writeLimit openHandles) handle.length preferredRead
    preferredWrite
  rw [effectiveMaxPacketLength_limitsFor] at hreads hwrites
  simp only [limitsFor, underLimit_noLimitAsNone] at hreads hwrites
  have hover : readRequestOverhead handle.length = writeRequestOverhead handle.length := rfl
  have hheader : (21 : ℤ) ≤ writeRequestOverhead handle.length := by
    unfold writeRequestOverhead
    omega
  refine ⟨sizes, hsizes, sizes.read_pos, sizes.write_pos, ?_, ?_, ?_, fun hroom => ⟨?_, ?_, ?_, ?_, ?_⟩⟩
  · split_ifs at hreads <;> omega
  · split_ifs at hwrites <;> omega
  · rintro packet rfl writer hwriter
    exact size_encode_write hwriter
  · intro hlimit
    rw [if_neg hlimit] at hreads
    omega
  · intro hlimit
    rw [if_neg hlimit] at hwrites
    omega
  · rintro packet rfl hlength
    refine bodyFits_of_length fun writer hwriter => ?_
    have hsize := size_encode_write hwriter
    split_ifs at hwrites <;> omega
  · intro packet hlength
    refine bodyFits_of_length fun writer hwriter => ?_
    have hsize := size_encode_data hwriter
    split_ifs at hreads <;> omega
  · intro length hpreferred hlimit hfits
    split_ifs at hwrites with hzero
    · omega
    · have hbelow := hlimit hzero
      omega

/-- A server's reply is decoded to the limits that its numbers stand for. -/
theorem fromExtendedReply_limitsReply (packetLength readLimit writeLimit openHandles : UInt64) :
    ServerLimits.fromExtendedReply (limitsReply packetLength readLimit writeLimit openHandles) =
      .ok (limitsFor packetLength.toNat readLimit.toNat writeLimit.toNat openHandles.toNat) := by
  have hreads : ∀ value : UInt64,
      Reads WireReader.readUint64 (toBigEndian 8 value.toNat) (value.toNat : ℤ) := by
    intro value
    have hvalue := value.toNat_lt
    exact reads_readUint (Int.natCast_nonneg _) (by exact_mod_cast hvalue)
  have hall : Reads ServerLimits.decode
      (toBigEndian 8 packetLength.toNat ++ (toBigEndian 8 readLimit.toNat ++
        (toBigEndian 8 writeLimit.toNat ++ toBigEndian 8 openHandles.toNat)))
      (limitsFor packetLength.toNat readLimit.toNat writeLimit.toNat openHandles.toNat) :=
    (hreads _).bind ((hreads _).bind ((hreads _).bind (hreads _).last))
  obtain ⟨reader, hrun, -⟩ := hall (.ofFrame _ none) [] (List.append_nil _).symm
  unfold ServerLimits.fromExtendedReply limitsReply
  rw [List.append_assoc, List.append_assoc]
  exact congrArg (Prod.fst <$> ·) hrun

/-- For every reply of a server to the question for its limits, or none, the sizes negotiated for a
handle fit them, and no longer payload would. -/
theorem negotiated_sizes_fit (handle : Bytes) {preferredRead preferredWrite : ℤ}
    (hread : 1 ≤ preferredRead) (hwrite : 1 ≤ preferredWrite) :
    (∀ packetLength readLimit writeLimit openHandles : UInt64, ∃ limits sizes,
      ServerLimits.fromExtendedReply (limitsReply packetLength readLimit writeLimit openHandles) =
          .ok limits ∧
        negotiateTransferSizesFor limits handle.length preferredRead preferredWrite = .ok sizes ∧
        SizesFit packetLength.toNat readLimit.toNat writeLimit.toNat handle preferredRead
          preferredWrite sizes) ∧
      ∃ sizes, negotiateTransferSizesFor .unknown handle.length preferredRead preferredWrite =
          .ok sizes ∧
        SizesFit 0 0 0 handle preferredRead preferredWrite sizes := by
  refine ⟨fun packetLength readLimit writeLimit openHandles => ?_, ?_⟩
  · obtain ⟨sizes, hsizes, hfit⟩ := sizesFit_limitsFor packetLength.toNat readLimit.toNat
      writeLimit.toNat openHandles.toNat handle hread hwrite
    exact ⟨_, sizes, fromExtendedReply_limitsReply _ _ _ _, hsizes, hfit⟩
  · exact sizesFit_limitsFor 0 0 0 0 handle hread hwrite

/-- The sizes for a handle of four bytes. -/
theorem negotiated_sizes_fit_four :
    (∀ packetLength readLimit writeLimit openHandles : UInt64, ∃ limits sizes,
      ServerLimits.fromExtendedReply (limitsReply packetLength readLimit writeLimit openHandles) =
          .ok limits ∧
        negotiateTransferSizesFor limits [0, 0, 0, 1].length 261120 261120 = .ok sizes ∧
        SizesFit packetLength.toNat readLimit.toNat writeLimit.toNat [0, 0, 0, 1] 261120 261120
          sizes) ∧
      ∃ sizes, negotiateTransferSizesFor .unknown [0, 0, 0, 1].length 261120 261120 = .ok sizes ∧
        SizesFit 0 0 0 [0, 0, 0, 1] 261120 261120 sizes :=
  negotiated_sizes_fit [0, 0, 0, 1] (by decide) (by decide)

end GantrySftp
