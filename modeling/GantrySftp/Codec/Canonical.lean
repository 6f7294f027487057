import GantrySftp.Codec.RoundTrip
import GantrySftp.Library.Repeats

/-!
# Encoding undoes decoding

The decoder's language. A frame that decodes is the encoding of what it decodes to, byte for byte,
except that a status may leave out its tail and that attributes may announce a list of extended
pairs without any. These two are read leniently and written in full.
-/

namespace GantrySftp

open Library

/-! ## Fields -/

/-- Bytes that are taken are the front of what is unread. -/
theorem take_eq_ok {n : ℕ} {reader reader' : WireReader} {bytes : Bytes}
    (h : WireReader.take n reader = .ok (bytes, reader')) :
    Input.unread reader = bytes ++ Input.unread reader' ∧ bytes.length = n := by
  unfold WireReader.take at h
  dsimp only at h
  split_ifs at h with hshort
  obtain ⟨rfl, rfl⟩ := Prod.mk.inj (Except.ok.inj h)
  change reader.buf.drop reader.pos = _ ++ reader.buf.drop (reader.pos + n) ∧ _
  refine ⟨by rw [← List.drop_drop, List.take_append_drop], ?_⟩
  rw [List.length_take, List.length_drop]
  unfold WireReader.remaining at hshort
  omega

/-- What reading an integer says: it fits its field, it is what the next bytes spell, and it is
written back as it was read. -/
structure UintRead (width : ℕ) (reader : WireReader) (value : ℤ) (reader' : WireReader) :
    Prop where
  fits : FitsUint width value
  width_le : width ≤ (Input.unread reader : Bytes).length
  unread_eq : Input.unread reader' = (Input.unread reader : Bytes).drop width
  value_eq : value = fromBigEndian ((Input.unread reader : Bytes).take width)
  repeats : ∀ label, Repeats False (WireWriter.writeUint width label value) (Input.unread reader)
    (Input.unread reader')

/-- An integer that is read fits its field, and is written back as it was read. -/
theorem readUint_eq_ok {width : ℕ} {reader reader' : WireReader} {value : ℤ}
    (h : WireReader.readUint width reader = .ok (value, reader')) :
    UintRead width reader value reader' := by
  obtain ⟨bytes, htake, rfl⟩ := bind_pure_eq_ok.mp h
  obtain ⟨hunread, rfl⟩ := take_eq_ok htake
  have hfits : FitsUint bytes.length (fromBigEndian bytes : ℤ) :=
    ⟨Int.natCast_nonneg _, by exact_mod_cast fromBigEndian_lt bytes⟩
  constructor
  · exact hfits
  · simp [hunread]
  · rw [hunread, List.drop_left]
  · rw [hunread, List.take_left]
  · intro label
    have happends : Appends (WireWriter.writeUint bytes.length label (fromBigEndian bytes)) _ :=
      appends_writeUint hfits.1 hfits.2
    rw [Int.toNat_natCast, toBigEndian_fromBigEndian] at happends
    exact ⟨bytes, bytes, hunread, happends, fun _ => rfl, False.elim⟩

/-- An integer that is read takes as many bytes as its field has. -/
theorem UintRead.length_consumed {width : ℕ} {reader reader' : WireReader} {value : ℤ}
    (h : UintRead width reader value reader') {consumed : Bytes}
    (hconsumed : Input.unread reader = consumed ++ Input.unread reader') :
    consumed.length = width := by
  have hlength := congrArg List.length hconsumed
  have hwidth := h.width_le
  rw [List.length_append, h.unread_eq, List.length_drop] at hlength
  omega

/-- A 32-bit integer that is read is written back as it was read. -/
theorem readUint32_eq_ok {reader reader' : WireReader} {value : ℤ}
    (h : WireReader.readUint32 reader = .ok (value, reader')) :
    FitsUint 4 value ∧ Repeats False (WireWriter.writeUint32 value) (Input.unread reader)
      (Input.unread reader') :=
  ⟨(readUint_eq_ok h).fits, (readUint_eq_ok h).repeats _⟩

/-- A 64-bit integer that is read is written back as it was read. -/
theorem readUint64_eq_ok {reader reader' : WireReader} {value : ℤ}
    (h : WireReader.readUint64 reader = .ok (value, reader')) :
    FitsUint 8 value ∧ Repeats False (WireWriter.writeUint64 value) (Input.unread reader)
      (Input.unread reader') :=
  ⟨(readUint_eq_ok h).fits, (readUint_eq_ok h).repeats _⟩

/-- A request id that is read is written back as it was read. -/
theorem readRequestId_eq_ok {reader reader' : WireReader} {value : ℤ}
    (h : WireReader.readRequestId reader = .ok (value, reader')) :
    FitsUint 4 value ∧ Repeats False (WireWriter.writeUint32 value) (Input.unread reader)
      (Input.unread reader') := by
  obtain ⟨requestId, middle, hread, hset⟩ := bind_eq_ok.mp h
  obtain ⟨_, middle', hset', hpure⟩ := bind_eq_ok.mp hset
  obtain ⟨rfl, rfl⟩ := pure_eq_ok.mp hpure
  obtain ⟨-, rfl⟩ := Prod.mk.inj (Except.ok.inj hset')
  obtain ⟨hfits, hrepeats⟩ := readUint32_eq_ok hread
  exact ⟨hfits, hrepeats⟩

/-- A request id that is read takes four bytes. -/
theorem length_of_readRequestId {reader reader' : WireReader} {value : ℤ}
    (h : WireReader.readRequestId reader = .ok (value, reader')) {consumed : Bytes}
    (hconsumed : Input.unread reader = consumed ++ Input.unread reader') :
    consumed.length = 4 := by
  obtain ⟨requestId, middle, hread, hset⟩ := bind_eq_ok.mp h
  obtain ⟨_, middle', hset', hpure⟩ := bind_eq_ok.mp hset
  obtain ⟨rfl, rfl⟩ := pure_eq_ok.mp hpure
  obtain ⟨-, rfl⟩ := Prod.mk.inj (Except.ok.inj hset')
  exact (readUint_eq_ok hread).length_consumed hconsumed

/-- Bytes that are taken are written back as they were read. -/
theorem repeats_writeBytes {n : ℕ} {reader reader' : WireReader} {bytes : Bytes}
    (h : WireReader.take n reader = .ok (bytes, reader')) :
    Repeats False (WireWriter.writeBytes bytes) (Input.unread reader) (Input.unread reader') :=
  ⟨bytes, bytes, (take_eq_ok h).1, appends_writeBytes bytes, fun _ => rfl, False.elim⟩

/-- A string that is read fits its field, and is written back as it was read. -/
theorem readString_eq_ok {reader reader' : WireReader} {value : Bytes}
    (h : WireReader.readString reader = .ok (value, reader')) :
    FitsString value ∧ Repeats False (WireWriter.writeString value) (Input.unread reader)
      (Input.unread reader') := by
  obtain ⟨length, middle, hlength, htake⟩ := bind_eq_ok.mp h
  obtain ⟨hfits, hrepeats⟩ := readUint32_eq_ok hlength
  have hvalue : (value.length : ℤ) = length := by
    rw [(take_eq_ok htake).2, Int.toNat_of_nonneg hfits.1]
  rw [← hvalue] at hrepeats hfits
  exact ⟨by exact_mod_cast hfits.2, hrepeats.seq (repeats_writeBytes htake)⟩

/-- A count that is read is written back as it was read. -/
theorem readCount_eq_ok {width : ℕ} {positive : 1 ≤ width} {item : String}
    {reader reader' : WireReader} {count : ℤ}
    (h : WireReader.readCount width positive item reader = .ok (count, reader')) :
    WireReader.readUint32 reader = .ok (count, reader') := by
  unfold WireReader.readCount at h
  dsimp only at h
  cases hread : WireReader.readUint32 reader with
  | error error =>
    rw [hread] at h
    cases h
  | ok found =>
    rw [hread] at h
    simp only [Bind.bind, Except.bind] at h
    split_ifs at h
    rw [← Except.ok.inj h]

/-- Whatever is left is written back as it was read. -/
theorem readRemaining_eq_ok {reader reader' : WireReader} {value : Bytes}
    (h : WireReader.readRemaining reader = .ok (value, reader')) :
    Repeats False (WireWriter.writeBytes value) (Input.unread reader) (Input.unread reader') :=
  repeats_writeBytes h

/-- A pair of strings that is read is written back as it was read. -/
theorem readPair_eq_ok {reader reader' : WireReader} {pair : Bytes × Bytes}
    (h : readPair reader = .ok (pair, reader')) :
    (FitsString pair.1 ∧ FitsString pair.2) ∧
      Repeats False (writePair pair) (Input.unread reader) (Input.unread reader') := by
  obtain ⟨first, middle, hfirst, hnext⟩ := bind_eq_ok.mp h
  obtain ⟨second, hsecond, rfl⟩ := bind_pure_eq_ok.mp hnext
  obtain ⟨hfits, hrepeats⟩ := readString_eq_ok hfirst
  obtain ⟨hfits', hrepeats'⟩ := readString_eq_ok hsecond
  exact ⟨⟨hfits, hfits'⟩, hrepeats.seq hrepeats'⟩

/-! ## Attributes -/

/-- The bytes of the fields a flags word announces ahead of the extended pairs. -/
def fixedFieldsLength (flags : ℕ) : ℕ :=
  (if hasFlag flags .size then 8 else 0) + (if hasFlag flags .uidgid then 8 else 0) +
    (if hasFlag flags .permissions then 4 else 0) + (if hasFlag flags .acmodtime then 8 else 0)

/-- The input begins with attributes that announce extended pairs, and count none. -/
def EmptyPairs (input : Bytes) : Prop :=
  hasFlag (fromBigEndian (input.take 4)) .extended = true ∧
    fromBigEndian ((input.drop (4 + fixedFieldsLength (fromBigEndian (input.take 4)))).take 4) = 0

instance (input : Bytes) : Decidable (EmptyPairs input) := inferInstanceAs (Decidable (_ ∧ _))

/-- Masking a word with a flag leaves the flag's bit when it is set. -/
theorem and_value (word : ℕ) (flag : AttrFlag) :
    word &&& flag.value = flag.bitIf (hasFlag word flag) := by
  have hpow : ∃ place, flag.value = 2 ^ place := by
    cases flag
    · exact ⟨0, rfl⟩
    · exact ⟨1, rfl⟩
    · exact ⟨2, rfl⟩
    · exact ⟨3, rfl⟩
    · exact ⟨31, rfl⟩
  obtain ⟨place, hplace⟩ := hpow
  unfold AttrFlag.bitIf hasFlag
  rw [hplace, Nat.and_two_pow]
  cases word.testBit place <;> simp

/-- A word without undefined bits is the flags word of the fields it announces. -/
theorem flagsWord_hasFlag {word : ℕ} (h : andNot word knownFlags = 0) :
    flagsWord (hasFlag word .size) (hasFlag word .uidgid) (hasFlag word .permissions)
      (hasFlag word .acmodtime) (hasFlag word .extended) = word := by
  have hmask : word = word &&& knownFlags := Nat.xor_eq_zero_iff.mp h
  unfold flagsWord
  simp only [← and_value]
  rw [← Nat.and_or_distrib_left, ← Nat.and_or_distrib_left, ← Nat.and_or_distrib_left,
    ← Nat.and_or_distrib_left]
  exact hmask.symm

/-- A timestamp in range is written like any 32-bit integer. -/
theorem writeTimestamp_eq {field : String} {value : ℤ} (h : FitsUint 4 value) :
    writeTimestamp field value = WireWriter.writeUint32 value := by
  have hle : value ≤ maxV3Timestamp := by
    have := h.2
    unfold maxV3Timestamp
    omega
  rw [writeTimestamp, if_pos ⟨h.1, hle⟩]

/-- An owner that is read is written back as it was read. -/
theorem readOwner_eq_ok {reader reader' : WireReader} {owner : Owner}
    (h : readOwner reader = .ok (owner, reader')) :
    (FitsUint 4 owner.uid ∧ FitsUint 4 owner.gid) ∧
      Input.unread reader' = (Input.unread reader : Bytes).drop 8 ∧
      Repeats False (writeOwner owner) (Input.unread reader) (Input.unread reader') := by
  obtain ⟨uid, middle, huid, hnext⟩ := bind_eq_ok.mp h
  obtain ⟨gid, hgid, rfl⟩ := bind_pure_eq_ok.mp hnext
  obtain ⟨hfits, hrepeats⟩ := readUint32_eq_ok huid
  obtain ⟨hfits', hrepeats'⟩ := readUint32_eq_ok hgid
  refine ⟨⟨hfits, hfits'⟩, ?_, hrepeats.seq hrepeats'⟩
  rw [(readUint_eq_ok hgid).unread_eq, (readUint_eq_ok huid).unread_eq, List.drop_drop]

/-- Times that are read are written back as they were read. -/
theorem readTimestamps_eq_ok {reader reader' : WireReader} {times : Times}
    (h : readTimestamps reader = .ok (times, reader')) :
    (FitsUint 4 times.atime ∧ FitsUint 4 times.mtime) ∧
      Input.unread reader' = (Input.unread reader : Bytes).drop 8 ∧
      Repeats False (writeTimestamps times) (Input.unread reader) (Input.unread reader') := by
  obtain ⟨atime, middle, hatime, hnext⟩ := bind_eq_ok.mp h
  obtain ⟨mtime, hmtime, rfl⟩ := bind_pure_eq_ok.mp hnext
  obtain ⟨hfits, hrepeats⟩ := readUint32_eq_ok hatime
  obtain ⟨hfits', hrepeats'⟩ := readUint32_eq_ok hmtime
  refine ⟨⟨hfits, hfits'⟩, ?_, ?_⟩
  · rw [(readUint_eq_ok hmtime).unread_eq, (readUint_eq_ok hatime).unread_eq, List.drop_drop]
  · unfold writeTimestamps
    rw [writeTimestamp_eq hfits, writeTimestamp_eq hfits']
    exact hrepeats.seq hrepeats'

/-- A field of fixed width under a flag takes its width when the flag is set. -/
theorem drop_of_readOptional {α : Type} {present : Bool} {read : Reading α} {width : ℕ}
    {reader reader' : WireReader} {field : Option α}
    (h : readOptional present read reader = .ok (field, reader'))
    (hread : ∀ value, read reader = .ok (value, reader') →
      Input.unread reader' = (Input.unread reader : Bytes).drop width) :
    Input.unread reader' = (Input.unread reader : Bytes).drop (if present then width else 0) := by
  unfold readOptional at h
  cases present with
  | false =>
    obtain ⟨-, rfl⟩ := pure_eq_ok.mp h
    simp
  | true =>
    obtain ⟨value, hvalue, -⟩ := bind_pure_eq_ok.mp h
    simpa using hread value hvalue

/-- What holds of each value a reader returns holds of one it returned under a flag. -/
theorem forall_of_readOptional {α : Type} {present : Bool} {read : Reading α}
    {reader reader' : WireReader} {field : Option α} {P : α → Prop}
    (h : readOptional present read reader = .ok (field, reader'))
    (hread : ∀ value, read reader = .ok (value, reader') → P value) : ∀ value ∈ field, P value := by
  unfold readOptional at h
  cases present with
  | false =>
    obtain ⟨rfl, -⟩ := pure_eq_ok.mp h
    simp
  | true =>
    obtain ⟨value, hvalue, rfl⟩ := bind_pure_eq_ok.mp h
    simpa using hread value hvalue

/-- Extended pairs that are read are written back as they were read, unless they were announced
and there were none. -/
theorem readExtended_eq_ok {present : Bool} {reader reader' : WireReader}
    {pairs : List (Bytes × Bytes)} (h : readExtended present reader = .ok (pairs, reader')) :
    (pairs.length < 256 ^ 4 ∧ FitsPairs pairs) ∧
      (¬ (present = true ∧ fromBigEndian ((Input.unread reader : Bytes).take 4) = 0) →
        (!pairs.isEmpty) = present) ∧
      Repeats (present = true ∧ fromBigEndian ((Input.unread reader : Bytes).take 4) = 0)
        (writeExtended pairs) (Input.unread reader) (Input.unread reader') := by
  unfold readExtended at h
  cases present with
  | false =>
    obtain ⟨rfl, rfl⟩ := pure_eq_ok.mp h
    refine ⟨⟨by simp, by simp [FitsPairs]⟩, by simp, ?_⟩
    exact (Repeats.pure _).congr (by simp)
  | true =>
    obtain ⟨count, middle, hcount, htimes⟩ := bind_eq_ok.mp h
    have hread := readCount_eq_ok hcount
    obtain ⟨hfits, hrepeats⟩ := readUint32_eq_ok hread
    have huint := readUint_eq_ok hread
    have hlength := length_of_readTimes htimes
    have hfitsPairs : FitsPairs pairs :=
      forall_of_readTimes (fun _ _ _ hpair => (readPair_eq_ok hpair).1) htimes
    have hpairs : Repeats False (pairs.forM writePair) (Input.unread middle)
        (Input.unread reader') :=
      (repeats_times (fun _ => False) (fun _ _ _ hpair => (readPair_eq_ok hpair).2) htimes).congr
        (by simp)
    have hcount : (pairs.length : ℤ) = count := by rw [hlength, Int.toNat_of_nonneg hfits.1]
    have hfitsLength : pairs.length < 256 ^ 4 := by
      rw [← hcount] at hfits
      exact_mod_cast hfits.2
    have hzero : fromBigEndian ((Input.unread reader : Bytes).take 4) = 0 ↔ pairs = [] := by
      rw [← List.length_eq_zero_iff, ← Nat.cast_eq_zero (R := ℤ), ← huint.value_eq, ← hcount]
      exact Nat.cast_eq_zero
    refine ⟨⟨hfitsLength, hfitsPairs⟩, ?_, ?_⟩
    · intro hnot
      have hne : pairs ≠ [] := fun hnil => hnot ⟨rfl, hzero.mpr hnil⟩
      simp [hne]
    · unfold writeExtended
      by_cases hnil : pairs = []
      · subst hnil
        obtain ⟨-, rfl⟩ := pure_eq_ok.mp (by rwa [← hlength] at htimes)
        refine ⟨(Input.unread reader : Bytes).take 4, [], ?_, Appends.pure, ?_, ?_⟩
        · rw [huint.unread_eq, List.take_append_drop]
        · exact fun hnot => absurd ⟨rfl, hzero.mpr rfl⟩ hnot
        · intro _
          have := huint.width_le
          simp only [List.length_take, List.length_nil]
          omega
      · rw [if_neg (by simp [hnil])]
        rw [← hcount] at hrepeats
        exact (hrepeats.seq hpairs).congr (by simp [hzero, hnil])

/-- The announced fields of attributes are written back as they were read, unless extended pairs
were announced and there were none. -/
theorem decodeAttrsFields_eq_ok {flags : ℕ} {reader reader' : WireReader} {attrs : Attrs}
    (h : decodeAttrsFields flags reader = .ok (attrs, reader')) :
    attrs.InRange ∧
      (¬ (hasFlag flags .extended = true ∧ fromBigEndian
          (((Input.unread reader : Bytes).drop (fixedFieldsLength flags)).take 4) = 0) →
        andNot flags knownFlags = 0 → attrs.flags = flags) ∧
      Repeats (hasFlag flags .extended = true ∧ fromBigEndian
          (((Input.unread reader : Bytes).drop (fixedFieldsLength flags)).take 4) = 0)
        (writeOptional WireWriter.writeUint64 attrs.size >>= fun _ =>
          writeOptional writeOwner attrs.owner >>= fun _ =>
          writeOptional WireWriter.writeUint32 attrs.permissions >>= fun _ =>
          writeOptional writeTimestamps attrs.times >>= fun _ => writeExtended attrs.extended)
        (Input.unread reader) (Input.unread reader') := by
  obtain ⟨size, afterSize, hsize, h⟩ := bind_eq_ok.mp h
  obtain ⟨owner, afterOwner, howner, h⟩ := bind_eq_ok.mp h
  obtain ⟨permissions, afterPermissions, hpermissions, h⟩ := bind_eq_ok.mp h
  obtain ⟨times, afterTimes, htimes, h⟩ := bind_eq_ok.mp h
  obtain ⟨extended, hextended, rfl⟩ := bind_pure_eq_ok.mp h
  obtain ⟨⟨hlength, hpairs⟩, hpresent, hrepeats⟩ := readExtended_eq_ok hextended
  have hunread : (Input.unread afterTimes : Bytes) =
      (Input.unread reader : Bytes).drop (fixedFieldsLength flags) := by
    rw [drop_of_readOptional htimes fun _ h => (readTimestamps_eq_ok h).2.1,
      drop_of_readOptional hpermissions fun _ h => (readUint_eq_ok h).unread_eq,
      drop_of_readOptional howner fun _ h => (readOwner_eq_ok h).2.1,
      drop_of_readOptional hsize fun _ h => (readUint_eq_ok h).unread_eq]
    simp only [List.drop_drop, fixedFieldsLength, Nat.add_assoc]
  obtain ⟨hsizeSome, hsizeRepeats⟩ :=
    repeats_optional hsize fun _ h => (readUint64_eq_ok h).2
  obtain ⟨hownerSome, hownerRepeats⟩ :=
    repeats_optional howner fun _ h => (readOwner_eq_ok h).2.2
  obtain ⟨hpermissionsSome, hpermissionsRepeats⟩ :=
    repeats_optional hpermissions fun _ h => (readUint32_eq_ok h).2
  obtain ⟨htimesSome, htimesRepeats⟩ :=
    repeats_optional htimes fun _ h => (readTimestamps_eq_ok h).2.2
  rw [hunread] at hrepeats hpresent
  refine ⟨?_, fun hodd hknown => ?_, ?_⟩
  · constructor
    · exact forall_of_readOptional hsize fun _ h => (readUint64_eq_ok h).1
    · exact forall_of_readOptional howner fun _ h => (readOwner_eq_ok h).1
    · exact forall_of_readOptional hpermissions fun _ h => (readUint32_eq_ok h).1
    · exact forall_of_readOptional htimes fun _ h => (readTimestamps_eq_ok h).1
    · exact hlength
    · exact hpairs
  · rw [Attrs.flags, hsizeSome, hownerSome, hpermissionsSome, htimesSome, hpresent hodd]
    exact flagsWord_hasFlag hknown
  · rw [← hunread] at hrepeats
    have hfields := hsizeRepeats.thenOdd (hownerRepeats.thenOdd
      (hpermissionsRepeats.thenOdd (htimesRepeats.thenOdd hrepeats)))
    rwa [hunread] at hfields

/-- Attributes that are read are in range, and are written back as they were read unless they
announced extended pairs and had none. -/
theorem decodeAttrs_eq_ok {reader reader' : WireReader} {attrs : Attrs}
    (h : decodeAttrs reader = .ok (attrs, reader')) :
    attrs.InRange ∧ Repeats (EmptyPairs (Input.unread reader)) (encodeAttrs attrs)
      (Input.unread reader) (Input.unread reader') := by
  obtain ⟨word, middle, hword, h⟩ := bind_eq_ok.mp h
  have huint := readUint_eq_ok hword
  have hflags : word.toNat = fromBigEndian ((Input.unread reader : Bytes).take 4) := by
    rw [huint.value_eq, Int.toNat_natCast]
  dsimp only at h
  split_ifs at h with hunknown
  · cases h
  have hknown : andNot word.toNat knownFlags = 0 := not_not.mp hunknown
  obtain ⟨hrange, hsame, hfields⟩ := decodeAttrsFields_eq_ok h
  have hodd : EmptyPairs (Input.unread reader) ↔ hasFlag word.toNat .extended = true ∧
      fromBigEndian
        (((Input.unread middle : Bytes).drop (fixedFieldsLength word.toNat)).take 4) = 0 := by
    rw [EmptyPairs, huint.unread_eq, List.drop_drop, hflags]
  refine ⟨hrange, ?_⟩
  by_cases hempty : EmptyPairs (Input.unread reader)
  · obtain ⟨consumed, written, hconsumed, happends, -, hless⟩ := hfields
    have hfits : FitsUint 4 (attrs.flags : ℤ) := fitsUint_length (flagsWord_known _ _ _ _ _).2
    refine ⟨(Input.unread reader : Bytes).take 4 ++ consumed, _, ?_,
      (appends_writeUint hfits.1 hfits.2).bind happends, fun hnot => absurd hempty hnot, fun _ => ?_⟩
    · rw [List.append_assoc, ← hconsumed, huint.unread_eq, List.take_append_drop]
    · have hshorter := hless (hodd.mp hempty)
      have hwidth := huint.width_le
      simp only [List.length_append, toBigEndian_length, List.length_take]
      omega
  · have hword : (attrs.flags : ℤ) = word := by
      rw [hsame (mt hodd.mpr hempty) hknown, Int.toNat_of_nonneg huint.fits.1]
    have hfirst : Repeats False (WireWriter.writeUint32 attrs.flags) (Input.unread reader)
        (Input.unread middle) := by
      rw [hword]
      exact huint.repeats _
    exact (hfirst.thenOdd hfields).congr hodd.symm

/-! ## Where attributes are -/

open WireReader in
/-- What is read of a frame's body ahead of its attributes at a place: the first and only ones of
most packets that carry any, and those of each entry of a name reply. -/
def beforeAttrs : PacketType → ℕ → Option (Reading Unit)
  | .open_, 0 => some do
    let _ ← readRequestId
    let _ ← readString
    let _ ← readUint32
    pure ()
  | .setstat, 0 | .fsetstat, 0 | .mkdir, 0 => some do
    let _ ← readRequestId
    let _ ← readString
    pure ()
  | .attrs, 0 => some do
    let _ ← readRequestId
    pure ()
  | .name, place => some do
    let _ ← readRequestId
    let count ← readUint32
    if place < count.toNat then
      let _ ← readTimes readNameEntry place
      let _ ← readString
      let _ ← readString
      pure ()
    else refuse "no such entry"
  | _, _ => none

/-- A frame's body has attributes that announce extended pairs and have none. -/
def HasEmptyPairs (packetType : PacketType) (reader : WireReader) : Prop :=
  ∃ place before middle, beforeAttrs packetType place = some before ∧
    before reader = .ok ((), middle) ∧ EmptyPairs (Input.unread middle)

/-- A packet without attributes has none that are empty. -/
theorem not_hasEmptyPairs {packetType : PacketType} {reader : WireReader}
    (h : ∀ place, beforeAttrs packetType place = none) : ¬ HasEmptyPairs packetType reader := by
  rintro ⟨place, before, middle, hbefore, -⟩
  rw [h] at hbefore
  cases hbefore

/-- A packet with one set of attributes has empty ones when those are. -/
theorem hasEmptyPairs_iff {packetType : PacketType} {reader middle : WireReader}
    {before : Reading Unit} (hzero : beforeAttrs packetType 0 = some before)
    (hsucc : ∀ place, beforeAttrs packetType (place + 1) = none)
    (hbefore : before reader = .ok ((), middle)) :
    HasEmptyPairs packetType reader ↔ EmptyPairs (Input.unread middle) := by
  constructor
  · rintro ⟨place, before', middle', hplace, hbefore', hempty⟩
    cases place with
    | zero =>
      obtain rfl := Option.some.inj (hzero.symm.trans hplace)
      obtain ⟨-, rfl⟩ := Prod.mk.inj (Except.ok.inj (hbefore.symm.trans hbefore'))
      exact hempty
    | succ place =>
      rw [hsucc] at hplace
      cases hplace
  · exact fun hempty => ⟨0, before, middle, hzero, hbefore, hempty⟩

/-! ## Bodies -/

/-- A request carrying a path is written back as it was read. -/
theorem PathRequest.decodeBody_eq_ok {reader reader' : WireReader} {packet : PathRequest}
    (h : PathRequest.decodeBody reader = .ok (packet, reader')) :
    packet.InRange ∧
      Repeats False packet.encodeBody (Input.unread reader) (Input.unread reader') := by
  obtain ⟨requestId, middle, hid, h⟩ := bind_eq_ok.mp h
  obtain ⟨path, hpath, rfl⟩ := bind_pure_eq_ok.mp h
  obtain ⟨hfits, hrepeats⟩ := readRequestId_eq_ok hid
  obtain ⟨hfits', hrepeats'⟩ := readString_eq_ok hpath
  exact ⟨⟨hfits, hfits'⟩, hrepeats.seq hrepeats'⟩

/-- A request carrying a handle is written back as it was read. -/
theorem HandleRequest.decodeBody_eq_ok {reader reader' : WireReader} {packet : HandleRequest}
    (h : HandleRequest.decodeBody reader = .ok (packet, reader')) :
    packet.InRange ∧
      Repeats False packet.encodeBody (Input.unread reader) (Input.unread reader') := by
  obtain ⟨requestId, middle, hid, h⟩ := bind_eq_ok.mp h
  obtain ⟨handle, hhandle, rfl⟩ := bind_pure_eq_ok.mp h
  obtain ⟨hfits, hrepeats⟩ := readRequestId_eq_ok hid
  obtain ⟨hfits', hrepeats'⟩ := readString_eq_ok hhandle
  exact ⟨⟨hfits, hfits'⟩, hrepeats.seq hrepeats'⟩

/-- A request carrying a path and attributes is written back as it was read, unless its
attributes are empty ones. -/
theorem PathAttrsRequest.decodeBody_eq_ok {packetType : PacketType}
    (htype : packetType = .setstat ∨ packetType = .mkdir) {reader reader' : WireReader}
    {packet : PathAttrsRequest} (h : PathAttrsRequest.decodeBody reader = .ok (packet, reader')) :
    packet.InRange ∧ Repeats (HasEmptyPairs packetType reader) packet.encodeBody
      (Input.unread reader) (Input.unread reader') := by
  obtain ⟨requestId, afterId, hid, h⟩ := bind_eq_ok.mp h
  obtain ⟨path, afterPath, hpath, h⟩ := bind_eq_ok.mp h
  obtain ⟨attrs, hattrs, rfl⟩ := bind_pure_eq_ok.mp h
  obtain ⟨hfits, hrepeats⟩ := readRequestId_eq_ok hid
  obtain ⟨hfits', hrepeats'⟩ := readString_eq_ok hpath
  obtain ⟨hrange, hwritten⟩ := decodeAttrs_eq_ok hattrs
  have hbefore : (do
      let _ ← WireReader.readRequestId
      let _ ← WireReader.readString
      pure () : Reading Unit) reader = .ok ((), afterPath) :=
    bind_eq_ok.mpr ⟨_, _, hid, bind_eq_ok.mpr ⟨_, _, hpath, rfl⟩⟩
  refine ⟨⟨hfits, hfits', hrange⟩, (hrepeats.thenOdd (hrepeats'.thenOdd hwritten)).congr ?_⟩
  obtain rfl | rfl := htype
  · exact (hasEmptyPairs_iff rfl (fun _ => rfl) hbefore).symm
  · exact (hasEmptyPairs_iff rfl (fun _ => rfl) hbefore).symm

/-- A request to set attributes on a handle is written back as it was read, unless its attributes
are empty ones. -/
theorem FSetStat.decodeBody_eq_ok {reader reader' : WireReader} {packet : FSetStat}
    (h : FSetStat.decodeBody reader = .ok (packet, reader')) :
    (Packet.fsetstat packet).InRange ∧ Repeats (HasEmptyPairs .fsetstat reader) packet.encodeBody
      (Input.unread reader) (Input.unread reader') := by
  obtain ⟨requestId, afterId, hid, h⟩ := bind_eq_ok.mp h
  obtain ⟨handle, afterHandle, hhandle, h⟩ := bind_eq_ok.mp h
  obtain ⟨attrs, hattrs, rfl⟩ := bind_pure_eq_ok.mp h
  obtain ⟨hfits, hrepeats⟩ := readRequestId_eq_ok hid
  obtain ⟨hfits', hrepeats'⟩ := readString_eq_ok hhandle
  obtain ⟨hrange, hwritten⟩ := decodeAttrs_eq_ok hattrs
  have hbefore : (do
      let _ ← WireReader.readRequestId
      let _ ← WireReader.readString
      pure () : Reading Unit) reader = .ok ((), afterHandle) :=
    bind_eq_ok.mpr ⟨_, _, hid, bind_eq_ok.mpr ⟨_, _, hhandle, rfl⟩⟩
  refine ⟨⟨hfits, hfits', hrange⟩, (hrepeats.thenOdd (hrepeats'.thenOdd hwritten)).congr ?_⟩
  exact (hasEmptyPairs_iff rfl (fun _ => rfl) hbefore).symm

/-- An attributes reply is written back as it was read, unless its attributes are empty ones. -/
theorem AttrsReply.decodeBody_eq_ok {reader reader' : WireReader} {packet : AttrsReply}
    (h : AttrsReply.decodeBody reader = .ok (packet, reader')) :
    (Packet.attrs packet).InRange ∧ Repeats (HasEmptyPairs .attrs reader) packet.encodeBody
      (Input.unread reader) (Input.unread reader') := by
  obtain ⟨requestId, afterId, hid, h⟩ := bind_eq_ok.mp h
  obtain ⟨attrs, hattrs, rfl⟩ := bind_pure_eq_ok.mp h
  obtain ⟨hfits, hrepeats⟩ := readRequestId_eq_ok hid
  obtain ⟨hrange, hwritten⟩ := decodeAttrs_eq_ok hattrs
  have hbefore : (do
      let _ ← WireReader.readRequestId
      pure () : Reading Unit) reader = .ok ((), afterId) := bind_eq_ok.mpr ⟨_, _, hid, rfl⟩
  refine ⟨⟨hfits, hrange⟩, (hrepeats.thenOdd hwritten).congr ?_⟩
  exact (hasEmptyPairs_iff rfl (fun _ => rfl) hbefore).symm

/-- The number an open request writes for split flags is the one they were split from. -/
theorem openWirePflags_splitPflags {wire : ℤ} (h : FitsUint 4 wire) :
    openWirePflags (splitPflags wire).1 (splitPflags wire).2 = wire := by
  unfold splitPflags openWirePflags
  dsimp only
  split_ifs with hundefined
  · rfl
  · have hmask : wire.toNat = wire.toNat &&& definedPflags := Nat.xor_eq_zero_iff.mp (not_not.mp hundefined)
    change ((wire.toNat &&& definedPflags : ℕ) : ℤ) = wire
    rw [← hmask, Int.toNat_of_nonneg h.1]

/-- An open request is written back as it was read, undefined bits and all, unless its attributes
are empty ones. -/
theorem Open.decodeBody_eq_ok {reader reader' : WireReader} {packet : Open}
    (h : Open.decodeBody reader = .ok (packet, reader')) :
    (Packet.open_ packet).InRange ∧ packet.Canonical ∧
      Repeats (HasEmptyPairs .open_ reader) packet.encodeBody (Input.unread reader)
        (Input.unread reader') := by
  obtain ⟨requestId, afterId, hid, h⟩ := bind_eq_ok.mp h
  obtain ⟨filename, afterFilename, hfilename, h⟩ := bind_eq_ok.mp h
  obtain ⟨wire, afterWire, hwire, h⟩ := bind_eq_ok.mp h
  obtain ⟨attrs, hattrs, rfl⟩ := bind_pure_eq_ok.mp h
  obtain ⟨hfits, hrepeats⟩ := readRequestId_eq_ok hid
  obtain ⟨hfits', hrepeats'⟩ := readString_eq_ok hfilename
  obtain ⟨hfitsWire, hrepeatsWire⟩ := readUint32_eq_ok hwire
  obtain ⟨hrange, hwritten⟩ := decodeAttrs_eq_ok hattrs
  have hraw : ∀ raw ∈ (splitPflags wire).2, raw = wire ∧ andNot wire.toNat definedPflags ≠ 0 := by
    intro raw hmem
    unfold splitPflags at hmem
    dsimp only at hmem
    split_ifs at hmem with hundefined
    · exact ⟨(Option.mem_some_iff.mp hmem).symm, hundefined⟩
    · cases hmem
  have hbefore : (do
      let _ ← WireReader.readRequestId
      let _ ← WireReader.readString
      let _ ← WireReader.readUint32
      pure () : Reading Unit) reader = .ok ((), afterWire) :=
    bind_eq_ok.mpr ⟨_, _, hid, bind_eq_ok.mpr ⟨_, _, hfilename, bind_eq_ok.mpr ⟨_, _, hwire, rfl⟩⟩⟩
  refine ⟨⟨hfits, hfits', fun raw hmem => (hraw raw hmem).1 ▸ hfitsWire, hrange⟩, ?_, ?_⟩
  · intro raw hmem
    obtain ⟨rfl, hundefined⟩ := hraw raw hmem
    exact ⟨hundefined, rfl⟩
  · unfold Open.encodeBody
    dsimp only
    rw [openWirePflags_splitPflags hfitsWire]
    refine (hrepeats.thenOdd (hrepeats'.thenOdd (hrepeatsWire.thenOdd hwritten))).congr ?_
    exact (hasEmptyPairs_iff rfl (fun _ => rfl) hbefore).symm

/-- A name entry's attributes are empty ones. -/
def OddEntry (reader : WireReader) : Prop :=
  ∃ filename afterFilename longname afterLongname,
    WireReader.readString reader = .ok (filename, afterFilename) ∧
      WireReader.readString afterFilename = .ok (longname, afterLongname) ∧
      EmptyPairs (Input.unread afterLongname)

/-- A name entry is written back as it was read, unless its attributes are empty ones. -/
theorem readNameEntry_eq_ok {reader reader' : WireReader} {entry : NameEntry}
    (h : readNameEntry reader = .ok (entry, reader')) :
    entry.InRange ∧ Repeats (OddEntry reader) (writeNameEntry entry) (Input.unread reader)
      (Input.unread reader') := by
  obtain ⟨filename, afterFilename, hfilename, h⟩ := bind_eq_ok.mp h
  obtain ⟨longname, afterLongname, hlongname, h⟩ := bind_eq_ok.mp h
  obtain ⟨attrs, hattrs, rfl⟩ := bind_pure_eq_ok.mp h
  obtain ⟨hfits, hrepeats⟩ := readString_eq_ok hfilename
  obtain ⟨hfits', hrepeats'⟩ := readString_eq_ok hlongname
  obtain ⟨hrange, hwritten⟩ := decodeAttrs_eq_ok hattrs
  refine ⟨⟨hfits, hfits', hrange⟩, (hrepeats.thenOdd (hrepeats'.thenOdd hwritten)).congr ?_⟩
  constructor
  · exact fun hempty => ⟨_, _, _, _, hfilename, hlongname, hempty⟩
  · rintro ⟨_, middle, _, middle', hfirst, hsecond, hempty⟩
    obtain ⟨-, rfl⟩ := Prod.mk.inj (Except.ok.inj (hfilename.symm.trans hfirst))
    obtain ⟨-, rfl⟩ := Prod.mk.inj (Except.ok.inj (hlongname.symm.trans hsecond))
    exact hempty

/-- A name reply is written back as it was read, unless the attributes of an entry are empty
ones. -/
theorem Name.decodeBody_eq_ok {reader reader' : WireReader} {packet : Name}
    (h : Name.decodeBody reader = .ok (packet, reader')) :
    (Packet.name packet).InRange ∧ Repeats (HasEmptyPairs .name reader) packet.encodeBody
      (Input.unread reader) (Input.unread reader') := by
  obtain ⟨requestId, afterId, hid, h⟩ := bind_eq_ok.mp h
  obtain ⟨entries, hentries, rfl⟩ := bind_pure_eq_ok.mp h
  obtain ⟨count, afterCount, hcount, htimes⟩ := bind_eq_ok.mp hentries
  have hread := readCount_eq_ok hcount
  obtain ⟨hfits, hrepeats⟩ := readRequestId_eq_ok hid
  obtain ⟨hfitsCount, hrepeatsCount⟩ := readUint32_eq_ok hread
  have hlength : (entries.length : ℤ) = count := by
    rw [length_of_readTimes htimes, Int.toNat_of_nonneg hfitsCount.1]
  have hwritten := repeats_times OddEntry (fun _ _ _ hentry => (readNameEntry_eq_ok hentry).2)
    htimes
  rw [← hlength] at hrepeatsCount hfitsCount
  refine ⟨⟨hfits, by exact_mod_cast hfitsCount.2,
    forall_of_readTimes (fun _ _ _ hentry => (readNameEntry_eq_ok hentry).1) htimes⟩,
    (hrepeats.thenOdd (hrepeatsCount.thenOdd hwritten)).congr ?_⟩
  constructor
  · rintro ⟨place, hplace, earlier, middle, hearlier, _, afterFilename, _, afterLongname,
      hfilename, hlongname, hempty⟩
    refine ⟨place, _, afterLongname, rfl, ?_, hempty⟩
    refine bind_eq_ok.mpr ⟨_, _, hid, bind_eq_ok.mpr ⟨_, _, hread, ?_⟩⟩
    rw [if_pos hplace]
    exact bind_eq_ok.mpr ⟨_, _, hearlier, bind_eq_ok.mpr ⟨_, _, hfilename,
      bind_eq_ok.mpr ⟨_, _, hlongname, rfl⟩⟩⟩
  · rintro ⟨place, _, middle, hbefore, hrun, hempty⟩
    obtain rfl := Option.some.inj hbefore
    obtain ⟨_, afterId', hid', hrun⟩ := bind_eq_ok.mp hrun
    obtain ⟨-, rfl⟩ := Prod.mk.inj (Except.ok.inj (hid.symm.trans hid'))
    obtain ⟨count', afterCount', hread', hrun⟩ := bind_eq_ok.mp hrun
    obtain ⟨rfl, rfl⟩ := Prod.mk.inj (Except.ok.inj (hread.symm.trans hread'))
    split_ifs at hrun with hplace
    · obtain ⟨earlier, later, hearlier, hrun⟩ := bind_eq_ok.mp hrun
      obtain ⟨filename, afterFilename, hfilename, hrun⟩ := bind_eq_ok.mp hrun
      obtain ⟨longname, afterLongname, hlongname, hrun⟩ := bind_eq_ok.mp hrun
      obtain ⟨-, rfl⟩ := pure_eq_ok.mp hrun
      exact ⟨place, hplace, earlier, later, hearlier, _, _, _, _, hfilename, hlongname, hempty⟩
    · cases hrun

/-- The number a status writes for a code it degraded is the one that was read. -/
theorem statusWireCode_statusCodeOf (rawCode : ℤ) :
    statusWireCode (statusCodeOf rawCode).1 (statusCodeOf rawCode).2 = rawCode := by
  unfold statusCodeOf
  cases hcode : StatusCode.ofValue rawCode with
  | none => rfl
  | some code =>
    have hfound := List.find?_some hcode
    simpa [statusWireCode] using hfound

/-- A status keeps the number it read when version 3 does not name it. -/
theorem statusCodeOf_raw {rawCode raw : ℤ} (h : raw ∈ (statusCodeOf rawCode).2) :
    raw = rawCode ∧ (statusCodeOf rawCode).1 = .failure ∧ StatusCode.ofValue raw = none := by
  unfold statusCodeOf at *
  cases hcode : StatusCode.ofValue rawCode with
  | none =>
    rw [hcode] at h
    obtain rfl := Option.mem_some_iff.mp h
    exact ⟨rfl, rfl, hcode⟩
  | some code =>
    rw [hcode] at h
    cases h

/-- A string of the tail is written back as it was read, and written as an empty one when the
frame ended first. -/
theorem readStatusTail_eq_ok {reader reader' : WireReader} {value : Bytes}
    (h : readStatusTail reader = .ok (value, reader')) :
    FitsString value ∧ (reader.atEnd = false → WireReader.readString reader = .ok (value, reader')) ∧
      (reader.atEnd = true → reader' = reader) ∧
      ∃ consumed written, Input.unread reader = consumed ++ Input.unread reader' ∧
        Appends (WireWriter.writeString value) written ∧
        (reader.atEnd = false → written = consumed) ∧
        (reader.atEnd = true → consumed.length = 0 ∧ written.length = 4) := by
  unfold readStatusTail at h
  split_ifs at h with hend
  · obtain ⟨rfl, rfl⟩ := Prod.mk.inj (Except.ok.inj h)
    have hfits : FitsUint 4 ((([] : Bytes).length : ℕ) : ℤ) := by decide
    exact ⟨by decide, by simp [hend], fun _ => rfl, [], _, rfl,
      (appends_writeUint hfits.1 hfits.2).bind (appends_writeBytes []), by simp [hend],
      fun _ => ⟨rfl, rfl⟩⟩
  · obtain ⟨hfits, consumed, written, hconsumed, happends, hsame, -⟩ := readString_eq_ok h
    exact ⟨hfits, fun _ => h, fun htrue => absurd htrue hend, consumed, written, hconsumed,
      happends, fun _ => hsame not_false, fun htrue => absurd htrue hend⟩

/-- A status leaves out its message, or its language. -/
def TailAbsent (reader : WireReader) : Prop :=
  ∃ requestId afterId code afterCode,
    WireReader.readRequestId reader = .ok (requestId, afterId) ∧
      WireReader.readUint32 afterId = .ok (code, afterCode) ∧
      (afterCode.atEnd = true ∨ ∃ message afterMessage,
        WireReader.readString afterCode = .ok (message, afterMessage) ∧
          afterMessage.atEnd = true)

/-- A status whose tail is read leaves it out when the frame ends ahead of the language. -/
theorem tailAbsent_iff {reader afterId afterCode afterMessage : WireReader}
    {requestId code : ℤ} {message : Bytes}
    (hid : WireReader.readRequestId reader = .ok (requestId, afterId))
    (hcode : WireReader.readUint32 afterId = .ok (code, afterCode))
    (hmessage : readStatusTail afterCode = .ok (message, afterMessage)) :
    TailAbsent reader ↔ afterMessage.atEnd = true := by
  obtain ⟨-, hread, hsame, -⟩ := readStatusTail_eq_ok hmessage
  constructor
  · rintro ⟨_, afterId', _, afterCode', hid', hcode', habsent⟩
    obtain ⟨-, rfl⟩ := Prod.mk.inj (Except.ok.inj (hid.symm.trans hid'))
    obtain ⟨-, rfl⟩ := Prod.mk.inj (Except.ok.inj (hcode.symm.trans hcode'))
    cases hend : afterCode.atEnd with
    | true => rw [hsame hend, hend]
    | false =>
      obtain habsent | ⟨message', afterMessage', hmessage', habsent⟩ := habsent
      · rw [hend] at habsent
        cases habsent
      · obtain ⟨-, rfl⟩ := Prod.mk.inj (Except.ok.inj ((hread hend).symm.trans hmessage'))
        exact habsent
  · intro habsent
    refine ⟨_, afterId, _, afterCode, hid, hcode, ?_⟩
    cases hend : afterCode.atEnd with
    | true => exact Or.inl rfl
    | false => exact Or.inr ⟨message, afterMessage, hread hend, habsent⟩

/-- A status is written back as it was read, and with empty strings for the tail it left out. -/
theorem Status.decodeBody_eq_ok {reader reader' : WireReader} {packet : Status}
    (h : Status.decodeBody reader = .ok (packet, reader')) :
    (Packet.status packet).InRange ∧ packet.Canonical ∧
      ∃ consumed written, Input.unread reader = consumed ++ Input.unread reader' ∧
        Appends packet.encodeBody written ∧ (¬ TailAbsent reader → written = consumed) ∧
        (TailAbsent reader → written.length = consumed.length + 4 ∨
          consumed.length = 8 ∧ written.length = 16) := by
  obtain ⟨requestId, afterId, hid, h⟩ := bind_eq_ok.mp h
  obtain ⟨rawCode, afterCode, hcode, h⟩ := bind_eq_ok.mp h
  obtain ⟨message, afterMessage, hmessage, h⟩ := bind_eq_ok.mp h
  obtain ⟨language, hlanguage, rfl⟩ := bind_pure_eq_ok.mp h
  obtain ⟨hfits, _, written₁, hconsumed₁, happends₁, hsame₁, -⟩ := readRequestId_eq_ok hid
  obtain ⟨hfitsCode, _, written₂, hconsumed₂, happends₂, hsame₂, -⟩ := readUint32_eq_ok hcode
  obtain ⟨hfitsMessage, -, hstay, consumed₃, written₃, hconsumed₃, happends₃, hsame₃, hmore₃⟩ :=
    readStatusTail_eq_ok hmessage
  obtain ⟨hfitsLanguage, -, -, consumed₄, written₄, hconsumed₄, happends₄, hsame₄, hmore₄⟩ :=
    readStatusTail_eq_ok hlanguage
  obtain rfl := hsame₁ not_false
  obtain rfl := hsame₂ not_false
  rw [tailAbsent_iff hid hcode hmessage]
  refine ⟨⟨hfits, fun raw hmem => (statusCodeOf_raw hmem).1 ▸ hfitsCode, hfitsMessage,
    hfitsLanguage⟩, fun raw hmem => (statusCodeOf_raw hmem).2,
    written₁ ++ (written₂ ++ (consumed₃ ++ consumed₄)),
    written₁ ++ (written₂ ++ (written₃ ++ written₄)), ?_, ?_, fun hpresent => ?_,
    fun habsent => ?_⟩
  · rw [hconsumed₁, hconsumed₂, hconsumed₃, hconsumed₄]
    simp
  · unfold Status.encodeBody
    dsimp only
    rw [statusWireCode_statusCodeOf]
    exact happends₁.bind (happends₂.bind (happends₃.bind happends₄))
  · have hmessagePresent : afterCode.atEnd = false := by
      by_contra hend
      have htrue : afterCode.atEnd = true := by simpa using hend
      rw [hstay htrue] at hpresent
      exact hpresent htrue
    rw [hsame₃ hmessagePresent, hsame₄ (by simpa using hpresent)]
  · obtain ⟨hlanguage, hlanguage'⟩ := hmore₄ habsent
    have hidLength : written₁.length = 4 := length_of_readRequestId hid hconsumed₁
    have hcodeLength : written₂.length = 4 :=
      (readUint_eq_ok hcode).length_consumed hconsumed₂
    simp only [List.length_append]
    cases hend : afterCode.atEnd with
    | true =>
      obtain ⟨hmessage, hmessage'⟩ := hmore₃ hend
      right
      omega
    | false =>
      left
      rw [hsame₃ hend]
      omega

/-- Pairs that are read until the frame ends are written back as they were read. -/
theorem readPairsUntilEnd_eq_ok {turns : ℕ} {reader reader' : WireReader}
    {pairs : List (Bytes × Bytes)} (h : readPairsUntilEnd turns reader = .ok (pairs, reader')) :
    FitsPairs pairs ∧
      Repeats False (pairs.forM writePair) (Input.unread reader) (Input.unread reader') := by
  induction turns generalizing reader pairs with
  | zero =>
    obtain ⟨rfl, rfl⟩ := pure_eq_ok.mp h
    exact ⟨by simp [FitsPairs], Repeats.pure _⟩
  | succ turns ih =>
    unfold readPairsUntilEnd at h
    split_ifs at h with hend
    · obtain ⟨rfl, rfl⟩ := Prod.mk.inj (Except.ok.inj h)
      exact ⟨by simp [FitsPairs], Repeats.pure _⟩
    · obtain ⟨pair, middle, hpair, hnext⟩ := bind_eq_ok.mp h
      obtain ⟨rest, hrest, rfl⟩ := bind_pure_eq_ok.mp hnext
      obtain ⟨hfits, hrepeats⟩ := readPair_eq_ok hpair
      obtain ⟨hfits', hrepeats'⟩ := ih hrest
      exact ⟨List.forall_mem_cons.mpr ⟨hfits, hfits'⟩, hrepeats.seq hrepeats'⟩

/-- A hello is written back as it was read. -/
theorem Hello.decodeBody_eq_ok {reader reader' : WireReader} {packet : Hello}
    (h : Hello.decodeBody reader = .ok (packet, reader')) :
    packet.InRange ∧
      Repeats False packet.encodeBody (Input.unread reader) (Input.unread reader') := by
  obtain ⟨version, middle, hversion, h⟩ := bind_eq_ok.mp h
  obtain ⟨extensions, hextensions, rfl⟩ := bind_pure_eq_ok.mp h
  obtain ⟨hfits, hrepeats⟩ := readUint32_eq_ok hversion
  obtain ⟨hfits', hrepeats'⟩ := readPairsUntilEnd_eq_ok hextensions
  exact ⟨⟨hfits, hfits'⟩, hrepeats.seq hrepeats'⟩

/-- A read request is written back as it was read. -/
theorem Read.decodeBody_eq_ok {reader reader' : WireReader} {packet : Read}
    (h : Read.decodeBody reader = .ok (packet, reader')) :
    (Packet.read packet).InRange ∧
      Repeats False packet.encodeBody (Input.unread reader) (Input.unread reader') := by
  obtain ⟨requestId, afterId, hid, h⟩ := bind_eq_ok.mp h
  obtain ⟨handle, afterHandle, hhandle, h⟩ := bind_eq_ok.mp h
  obtain ⟨offset, afterOffset, hoffset, h⟩ := bind_eq_ok.mp h
  obtain ⟨length, hlength, rfl⟩ := bind_pure_eq_ok.mp h
  obtain ⟨hfits₁, hrepeats₁⟩ := readRequestId_eq_ok hid
  obtain ⟨hfits₂, hrepeats₂⟩ := readString_eq_ok hhandle
  obtain ⟨hfits₃, hrepeats₃⟩ := readUint64_eq_ok hoffset
  obtain ⟨hfits₄, hrepeats₄⟩ := readUint32_eq_ok hlength
  exact ⟨⟨hfits₁, hfits₂, hfits₃, hfits₄⟩, hrepeats₁.seq (hrepeats₂.seq (hrepeats₃.seq hrepeats₄))⟩

/-- A write request is written back as it was read. -/
theorem Write.decodeBody_eq_ok {reader reader' : WireReader} {packet : Write}
    (h : Write.decodeBody reader = .ok (packet, reader')) :
    (Packet.write packet).InRange ∧
      Repeats False packet.encodeBody (Input.unread reader) (Input.unread reader') := by
  obtain ⟨requestId, afterId, hid, h⟩ := bind_eq_ok.mp h
  obtain ⟨handle, afterHandle, hhandle, h⟩ := bind_eq_ok.mp h
  obtain ⟨offset, afterOffset, hoffset, h⟩ := bind_eq_ok.mp h
  obtain ⟨data, hdata, rfl⟩ := bind_pure_eq_ok.mp h
  obtain ⟨hfits₁, hrepeats₁⟩ := readRequestId_eq_ok hid
  obtain ⟨hfits₂, hrepeats₂⟩ := readString_eq_ok hhandle
  obtain ⟨hfits₃, hrepeats₃⟩ := readUint64_eq_ok hoffset
  obtain ⟨hfits₄, hrepeats₄⟩ := readString_eq_ok hdata
  exact ⟨⟨hfits₁, hfits₂, hfits₃, hfits₄⟩, hrepeats₁.seq (hrepeats₂.seq (hrepeats₃.seq hrepeats₄))⟩

/-- A rename request is written back as it was read. -/
theorem Rename.decodeBody_eq_ok {reader reader' : WireReader} {packet : Rename}
    (h : Rename.decodeBody reader = .ok (packet, reader')) :
    (Packet.rename packet).InRange ∧
      Repeats False packet.encodeBody (Input.unread reader) (Input.unread reader') := by
  obtain ⟨requestId, afterId, hid, h⟩ := bind_eq_ok.mp h
  obtain ⟨oldpath, afterOldpath, hold, h⟩ := bind_eq_ok.mp h
  obtain ⟨newpath, hnew, rfl⟩ := bind_pure_eq_ok.mp h
  obtain ⟨hfits₁, hrepeats₁⟩ := readRequestId_eq_ok hid
  obtain ⟨hfits₂, hrepeats₂⟩ := readString_eq_ok hold
  obtain ⟨hfits₃, hrepeats₃⟩ := readString_eq_ok hnew
  exact ⟨⟨hfits₁, hfits₂, hfits₃⟩, hrepeats₁.seq (hrepeats₂.seq hrepeats₃)⟩

/-- A link request is written back as it was read. -/
theorem SymLink.decodeBody_eq_ok {reader reader' : WireReader} {packet : SymLink}
    (h : SymLink.decodeBody reader = .ok (packet, reader')) :
    (Packet.symlink packet).InRange ∧
      Repeats False packet.encodeBody (Input.unread reader) (Input.unread reader') := by
  obtain ⟨requestId, afterId, hid, h⟩ := bind_eq_ok.mp h
  obtain ⟨targetpath, afterTarget, htarget, h⟩ := bind_eq_ok.mp h
  obtain ⟨linkpath, hlink, rfl⟩ := bind_pure_eq_ok.mp h
  obtain ⟨hfits₁, hrepeats₁⟩ := readRequestId_eq_ok hid
  obtain ⟨hfits₂, hrepeats₂⟩ := readString_eq_ok htarget
  obtain ⟨hfits₃, hrepeats₃⟩ := readString_eq_ok hlink
  exact ⟨⟨hfits₁, hfits₂, hfits₃⟩, hrepeats₁.seq (hrepeats₂.seq hrepeats₃)⟩

/-- An extension request is written back as it was read. -/
theorem Extended.decodeBody_eq_ok {reader reader' : WireReader} {packet : Extended}
    (h : Extended.decodeBody reader = .ok (packet, reader')) :
    (Packet.extended packet).InRange ∧
      Repeats False packet.encodeBody (Input.unread reader) (Input.unread reader') := by
  obtain ⟨requestId, afterId, hid, h⟩ := bind_eq_ok.mp h
  obtain ⟨name, afterName, hname, h⟩ := bind_eq_ok.mp h
  obtain ⟨data, hdata, rfl⟩ := bind_pure_eq_ok.mp h
  obtain ⟨hfits₁, hrepeats₁⟩ := readRequestId_eq_ok hid
  obtain ⟨hfits₂, hrepeats₂⟩ := readString_eq_ok hname
  exact ⟨⟨hfits₁, hfits₂⟩, hrepeats₁.seq (hrepeats₂.seq (readRemaining_eq_ok hdata))⟩

/-- A payload is written back as it was read. -/
theorem Data.decodeBody_eq_ok {reader reader' : WireReader} {packet : Data}
    (h : Data.decodeBody reader = .ok (packet, reader')) :
    (Packet.data packet).InRange ∧
      Repeats False packet.encodeBody (Input.unread reader) (Input.unread reader') := by
  obtain ⟨requestId, afterId, hid, h⟩ := bind_eq_ok.mp h
  obtain ⟨data, hdata, rfl⟩ := bind_pure_eq_ok.mp h
  obtain ⟨hfits, hrepeats⟩ := readRequestId_eq_ok hid
  obtain ⟨hfits', hrepeats'⟩ := readString_eq_ok hdata
  exact ⟨⟨hfits, hfits'⟩, hrepeats.seq hrepeats'⟩

/-- An extension's reply is written back as it was read. -/
theorem ExtendedReply.decodeBody_eq_ok {reader reader' : WireReader} {packet : ExtendedReply}
    (h : ExtendedReply.decodeBody reader = .ok (packet, reader')) :
    (Packet.extendedReply packet).InRange ∧
      Repeats False packet.encodeBody (Input.unread reader) (Input.unread reader') := by
  obtain ⟨requestId, afterId, hid, h⟩ := bind_eq_ok.mp h
  obtain ⟨data, hdata, rfl⟩ := bind_pure_eq_ok.mp h
  obtain ⟨hfits, hrepeats⟩ := readRequestId_eq_ok hid
  exact ⟨hfits, hrepeats.seq (readRemaining_eq_ok hdata)⟩

/-! ## Frames -/

/-- The body of any packet but a status is in range, and is written back as it was read unless it
has attributes that are empty ones. -/
theorem decodeBody_eq_ok {packetType : PacketType} (htype : packetType ≠ .status)
    {reader reader' : WireReader} {packet : Packet}
    (h : decodeBody packetType reader = .ok (packet, reader')) :
    packet.packetType = packetType ∧ packet.InRange ∧ packet.Canonical ∧
      Repeats (HasEmptyPairs packetType reader) packet.encodeBody (Input.unread reader)
        (Input.unread reader') := by
  have hplain : ∀ {writer : Writing Unit}, (∀ place, beforeAttrs packetType place = none) →
      Repeats False writer (Input.unread reader) (Input.unread reader') →
        Repeats (HasEmptyPairs packetType reader) writer (Input.unread reader)
          (Input.unread reader') :=
    fun hnone hrepeats => hrepeats.congr (iff_of_false not_false (not_hasEmptyPairs hnone))
  cases packetType
  case status => exact absurd rfl htype
  all_goals obtain ⟨body, hbody, rfl⟩ := bind_pure_eq_ok.mp h
  case open_ =>
    obtain ⟨hrange, hcanonical, hrepeats⟩ := Open.decodeBody_eq_ok hbody
    exact ⟨rfl, hrange, hcanonical, hrepeats⟩
  case setstat =>
    obtain ⟨hrange, hrepeats⟩ := PathAttrsRequest.decodeBody_eq_ok (Or.inl rfl) hbody
    exact ⟨rfl, hrange, trivial, hrepeats⟩
  case mkdir =>
    obtain ⟨hrange, hrepeats⟩ := PathAttrsRequest.decodeBody_eq_ok (Or.inr rfl) hbody
    exact ⟨rfl, hrange, trivial, hrepeats⟩
  case fsetstat =>
    obtain ⟨hrange, hrepeats⟩ := FSetStat.decodeBody_eq_ok hbody
    exact ⟨rfl, hrange, trivial, hrepeats⟩
  case name =>
    obtain ⟨hrange, hrepeats⟩ := Name.decodeBody_eq_ok hbody
    exact ⟨rfl, hrange, trivial, hrepeats⟩
  case attrs =>
    obtain ⟨hrange, hrepeats⟩ := AttrsReply.decodeBody_eq_ok hbody
    exact ⟨rfl, hrange, trivial, hrepeats⟩
  case init | version =>
    obtain ⟨hrange, hrepeats⟩ := Hello.decodeBody_eq_ok hbody
    exact ⟨rfl, hrange, trivial, hplain (fun _ => rfl) hrepeats⟩
  case close | fstat | readdir | handle =>
    obtain ⟨hrange, hrepeats⟩ := HandleRequest.decodeBody_eq_ok hbody
    exact ⟨rfl, hrange, trivial, hplain (fun _ => rfl) hrepeats⟩
  case lstat | opendir | remove | rmdir | realpath | stat | readlink =>
    obtain ⟨hrange, hrepeats⟩ := PathRequest.decodeBody_eq_ok hbody
    exact ⟨rfl, hrange, trivial, hplain (fun _ => rfl) hrepeats⟩
  case read =>
    obtain ⟨hrange, hrepeats⟩ := Read.decodeBody_eq_ok hbody
    exact ⟨rfl, hrange, trivial, hplain (fun _ => rfl) hrepeats⟩
  case write =>
    obtain ⟨hrange, hrepeats⟩ := Write.decodeBody_eq_ok hbody
    exact ⟨rfl, hrange, trivial, hplain (fun _ => rfl) hrepeats⟩
  case rename =>
    obtain ⟨hrange, hrepeats⟩ := Rename.decodeBody_eq_ok hbody
    exact ⟨rfl, hrange, trivial, hplain (fun _ => rfl) hrepeats⟩
  case symlink =>
    obtain ⟨hrange, hrepeats⟩ := SymLink.decodeBody_eq_ok hbody
    exact ⟨rfl, hrange, trivial, hplain (fun _ => rfl) hrepeats⟩
  case extended =>
    obtain ⟨hrange, hrepeats⟩ := Extended.decodeBody_eq_ok hbody
    exact ⟨rfl, hrange, trivial, hplain (fun _ => rfl) hrepeats⟩
  case data =>
    obtain ⟨hrange, hrepeats⟩ := Data.decodeBody_eq_ok hbody
    exact ⟨rfl, hrange, trivial, hplain (fun _ => rfl) hrepeats⟩
  case extendedReply =>
    obtain ⟨hrange, hrepeats⟩ := ExtendedReply.decodeBody_eq_ok hbody
    exact ⟨rfl, hrange, trivial, hplain (fun _ => rfl) hrepeats⟩

/-- The packet type of a frame, and a reader at the start of its body. -/
def bodyOf (frame : Bytes) : Option (PacketType × WireReader) :=
  match WireReader.readUint8 (.ofFrame frame none) with
  | .error _ => none
  | .ok (rawType, _) =>
    (PacketType.ofValue rawType).bind fun packetType =>
      match WireReader.readUint8 (.ofFrame frame (some packetType.value)) with
      | .error _ => none
      | .ok (_, reader) => some (packetType, reader)

/-- A frame is a status that leaves out its message, or its language. -/
def StatusTailAbsent (frame : Bytes) : Prop :=
  ∃ reader, bodyOf frame = some (.status, reader) ∧ TailAbsent reader

/-- A frame contains attributes that announce extended pairs and have none. -/
def ContainsEmptyPairs (frame : Bytes) : Prop :=
  ∃ packetType reader, bodyOf frame = some (packetType, reader) ∧ HasEmptyPairs packetType reader

/-- A type byte that is named is the number of its type. -/
theorem value_of_ofValue {rawType : ℤ} {packetType : PacketType}
    (h : PacketType.ofValue rawType = some packetType) : (packetType.value : ℤ) = rawType := by
  simpa using List.find?_some h

/-- A frame that decodes is a type byte and a body that decodes with nothing left. -/
theorem decode_eq_ok {frame : Bytes} {packet : Packet} (h : decode frame = .ok packet) :
    ∃ packetType reader reader', bodyOf frame = some (packetType, reader) ∧
      decodeBody packetType reader = .ok (packet, reader') ∧
      Input.unread reader' = ([] : Bytes) ∧
      UintRead 1 (.ofFrame frame (some packetType.value)) packetType.value reader := by
  unfold decode decodeConsuming at h
  cases hraw : WireReader.readUint8 (.ofFrame frame none) with
  | error error =>
    rw [hraw] at h
    cases h
  | ok first =>
    rw [hraw] at h
    cases htype : PacketType.ofValue first.1 with
    | none =>
      simp only [Bind.bind, Except.bind, htype] at h
      cases h
    | some packetType =>
      simp only [Bind.bind, Except.bind, htype] at h
      cases hsecond : WireReader.readUint8 (.ofFrame frame (some packetType.value)) with
      | error error =>
        rw [hsecond] at h
        cases h
      | ok second =>
        rw [hsecond] at h
        cases hbody : decodeBody packetType second.2 with
        | error error =>
          simp only [hbody] at h
          cases h
        | ok last =>
          simp only [hbody] at h
          split_ifs at h with hend
          · obtain rfl := Except.ok.inj h
            refine ⟨packetType, second.2, last.2, ?_, hbody, (atEnd_iff _).mp hend, ?_⟩
            · simp [bodyOf, hraw, htype, hsecond]
            · have hfirst := readUint_eq_ok hraw
              have hagain := readUint_eq_ok hsecond
              have hvalue : second.1 = packetType.value :=
                hagain.value_eq.trans (hfirst.value_eq.symm.trans (value_of_ofValue htype).symm)
              rwa [hvalue] at hagain
          · cases h

/-- A packet whose type byte and body are appended is encoded as them. -/
theorem encodeUnframed_of_appends {packet : Packet} {typeByte body : Bytes}
    (htype : Appends (WireWriter.writeUint8 packet.packetType.value) typeByte)
    (hbody : Appends packet.encodeBody body) :
    ∃ writer, encodeUnframed packet = .ok writer ∧ writer.getvalue = typeByte ++ body := by
  obtain ⟨writer, hrun, hwritten⟩ := (htype.bind hbody) WireWriter.empty
  refine ⟨writer, ?_, hwritten⟩
  change Prod.snd <$> _ = _
  rw [hrun]
  rfl

/-- A frame that decodes holds a packet in range, which is written as the frame unless the frame
leaves out the tail of a status or has attributes that are empty ones. -/
theorem encodeUnframed_decode {frame : Bytes} {packet : Packet} (h : decode frame = .ok packet) :
    packet.InRange ∧ packet.Canonical ∧ ∃ writer, encodeUnframed packet = .ok writer ∧
      (¬ (StatusTailAbsent frame ∨ ContainsEmptyPairs frame) → writer.getvalue = frame) ∧
      (StatusTailAbsent frame → writer.getvalue.length = frame.length + 4 ∨
        frame.length = 9 ∧ writer.getvalue.length = 17) ∧
      (ContainsEmptyPairs frame → writer.getvalue.length < frame.length) := by
  obtain ⟨packetType, reader, reader', hbody, hdecode, hend, htypeByte⟩ := decode_eq_ok h
  obtain ⟨_, typeByte, hframe, htype, hsame, -⟩ := htypeByte.repeats "uint8"
  obtain rfl := hsame not_false
  have hwidth : typeByte.length = 1 := htypeByte.length_consumed hframe
  replace hframe : frame = typeByte ++ Input.unread reader := hframe
  have hunique : ∀ {other otherReader}, bodyOf frame = some (other, otherReader) →
      packetType = other ∧ reader = otherReader :=
    fun hother => Prod.mk.inj (Option.some.inj (hbody.symm.trans hother))
  by_cases hstatus : packetType = .status
  · subst hstatus
    obtain ⟨body, hbodyRead, rfl⟩ := bind_pure_eq_ok.mp hdecode
    obtain ⟨hrange, hcanonical, consumed, written, hconsumed, hwrite, hpresent, habsent⟩ :=
      Status.decodeBody_eq_ok hbodyRead
    rw [hend, List.append_nil] at hconsumed
    obtain ⟨writer, hencode, hvalue⟩ : ∃ writer, encodeUnframed (.status body) = .ok writer ∧ _ :=
      encodeUnframed_of_appends htype hwrite
    refine ⟨hrange, hcanonical, writer, hencode, fun hnot => ?_, ?_, ?_⟩
    · have htail : ¬ TailAbsent reader := fun htail => hnot (Or.inl ⟨reader, hbody, htail⟩)
      rw [hvalue, hpresent htail, hframe, hconsumed]
    · rintro ⟨_, hreader, htail⟩
      obtain ⟨-, rfl⟩ := hunique hreader
      have hlonger := habsent htail
      rw [hvalue, hframe, hconsumed, List.length_append, List.length_append]
      omega
    · rintro ⟨_, _, hreader, hempty⟩
      obtain ⟨rfl, -⟩ := hunique hreader
      exact absurd hempty (not_hasEmptyPairs fun _ => rfl)
  · obtain ⟨rfl, hrange, hcanonical, consumed, written, hconsumed, hwrite, hsame, hless⟩ :=
      decodeBody_eq_ok hstatus hdecode
    rw [hend, List.append_nil] at hconsumed
    obtain ⟨writer, hencode, hvalue⟩ := encodeUnframed_of_appends htype hwrite
    refine ⟨hrange, hcanonical, writer, hencode, fun hnot => ?_, ?_, ?_⟩
    · have hpairs : ¬ HasEmptyPairs packet.packetType reader :=
        fun hempty => hnot (Or.inr ⟨_, reader, hbody, hempty⟩)
      rw [hvalue, hsame hpairs, hframe, hconsumed]
    · rintro ⟨_, hreader, -⟩
      exact absurd (hunique hreader).1 hstatus
    · rintro ⟨_, _, hreader, hempty⟩
      obtain ⟨rfl, rfl⟩ := hunique hreader
      have hshorter := hless hempty
      rw [hvalue, hframe, hconsumed, List.length_append, List.length_append]
      omega

/-- A packet whose type byte and body fit a frame is encoded as them behind their length. -/
theorem encode_of_writer {packet : Packet} {writer : WireWriter}
    (h : encodeUnframed packet = .ok writer) :
    encode packet = if writer.getvalue.length < 256 ^ 4 then
      .ok (toBigEndian 4 writer.getvalue.length ++ writer.getvalue)
      else .error (.overflowError "int too big to convert") := by
  have hsize : writer.size = writer.getvalue.length := writer.size_eq
  simp only [encode, h, Bind.bind, Except.bind, WireWriter.frame, hsize]

/-- Encoding undoes decoding. A frame body that decodes is reproduced byte for byte behind its
length, except precisely when it leaves out the tail of a status or contains attributes that
announce extended pairs and have none. What was decoded from these is decoded again from its
encoding, unless the tail that a status left out no longer fits a frame, which is refused. -/
theorem encode_decode {body : Bytes} {packet : Packet} (hlength : body.length < 256 ^ 4)
    (h : decode body = .ok packet) :
    (encode packet = .ok (toBigEndian 4 body.length ++ body) ↔
        ¬ (StatusTailAbsent body ∨ ContainsEmptyPairs body)) ∧
      (StatusTailAbsent body ∨ ContainsEmptyPairs body →
        (StatusTailAbsent body → body.length + 4 < 256 ^ 4) →
        ∃ frame, encode packet = .ok frame ∧ decode (frame.drop 4) = .ok packet) ∧
      (StatusTailAbsent body → 256 ^ 4 ≤ body.length + 4 →
        encode packet = .error (.overflowError "int too big to convert")) := by
  obtain ⟨hrange, hcanonical, writer, hwriter, hsame, htail, hpairs⟩ := encodeUnframed_decode h
  have hencode := encode_of_writer hwriter
  have hother : StatusTailAbsent body ∨ ContainsEmptyPairs body →
      writer.getvalue.length ≠ body.length := by
    rintro (hodd | hodd)
    · have := htail hodd
      omega
    · exact (hpairs hodd).ne
  refine ⟨⟨fun hframe hodd => ?_, fun hnot => ?_⟩, fun hodd hroom => ?_, fun hodd hlong => ?_⟩
  · rw [hencode] at hframe
    split_ifs at hframe with hfits
    have hvalue := (List.append_inj (Except.ok.inj hframe) (by simp)).2
    exact hother hodd (congrArg List.length hvalue)
  · rw [hencode, hsame hnot, if_pos hlength]
  · have hfits : writer.getvalue.length < 256 ^ 4 := by
      obtain hodd | hodd := hodd
      · have := htail hodd
        have := hroom hodd
        omega
      · exact (hpairs hodd).trans hlength
    rw [if_pos hfits] at hencode
    obtain ⟨writer', reader, hwriter', hdecode, -⟩ := encodeUnframed_eq hrange hcanonical
    obtain rfl := Except.ok.inj (hwriter.symm.trans hwriter')
    refine ⟨_, hencode, ?_⟩
    rw [List.drop_left' (toBigEndian_length 4 _), decode, hdecode]
    rfl
  · have hlonger := htail hodd
    rw [hencode, if_neg (by omega)]

/-- A status whose code version 3 does not name. -/
def sampleStatus : Bytes := [101, 0, 0, 0, 7, 0, 0, 0, 99, 0, 0, 0, 0, 0, 0, 0, 0]

/-- A status whose code version 3 does not name is reproduced, and leaves out nothing. -/
theorem encode_decode_sampleStatus :
    encode (.status ⟨7, .failure, [], [], some 99⟩) =
        .ok (toBigEndian 4 sampleStatus.length ++ sampleStatus) ∧
      ¬ (StatusTailAbsent sampleStatus ∨ ContainsEmptyPairs sampleStatus) := by
  have hencode : encode (.status ⟨7, .failure, [], [], some 99⟩) =
      .ok (toBigEndian 4 sampleStatus.length ++ sampleStatus) := by
    decide +kernel
  exact ⟨hencode, (encode_decode (by decide) rfl).1.mp hencode⟩

/-! ## A status that cannot be written in full -/

/-- A status frame body with a message and no language. -/
def statusWithoutLanguage (message : Bytes) : Bytes :=
  toBigEndian 1 101 ++ (toBigEndian 4 7 ++ (toBigEndian 4 0 ++
    (toBigEndian 4 message.length ++ message)))

/-- A status with a message and no language decodes, and leaves out its tail. -/
theorem decode_statusWithoutLanguage {message : Bytes} (hfits : FitsString message) :
    decode (statusWithoutLanguage message) = .ok (.status ⟨7, .ok, message, [], none⟩) ∧
      StatusTailAbsent (statusWithoutLanguage message) := by
  have htypeFits : FitsUint 1 (101 : ℤ) := by decide
  have hidFits : FitsUint 4 (7 : ℤ) := by decide
  have hcodeFits : FitsUint 4 (0 : ℤ) := by decide
  have hlengthFits := fitsUint_length hfits
  have htype : Reads WireReader.readUint8 (toBigEndian 1 101) (101 : ℤ) :=
    reads_readUint htypeFits.1 htypeFits.2
  have hstring : Reads WireReader.readString (toBigEndian 4 message.length ++ message) message :=
    (reads_readUint hlengthFits.1 hlengthFits.2).bind (reads_take message)
  obtain ⟨raw, hraw, -⟩ := htype (.ofFrame (statusWithoutLanguage message) none) _ rfl
  obtain ⟨start, hstart, hunread⟩ :=
    htype (.ofFrame (statusWithoutLanguage message) (some 101)) _ rfl
  obtain ⟨middle, hid, hafterId⟩ := reads_readUint hidFits.1 hidFits.2 start _ hunread
  have hrequestId : WireReader.readRequestId start =
      .ok (7, { middle with requestId := some 7 }) := by
    simp only [WireReader.readRequestId, WireReader.readUint32, Bind.bind, StateT.bind, hid,
      Except.bind]
    rfl
  obtain ⟨afterCode, hcode, hafterCode⟩ :=
    reads_readUint hcodeFits.1 hcodeFits.2 { middle with requestId := some 7 } _ hafterId
  obtain ⟨afterMessage, hmessage, hafterMessage⟩ :=
    hstring afterCode [] (by rw [hafterCode, List.append_nil])
  have hend : afterMessage.atEnd = true := (atEnd_iff _).mpr hafterMessage
  have hmore : afterCode.atEnd = false := atEnd_eq_false hafterCode (by simp)
  have hstart' : WireReader.readUint8 (.ofFrame (statusWithoutLanguage message)
      (some (PacketType.status.value : ℤ))) = .ok (101, start) := hstart
  have hofValue : PacketType.ofValue 101 = some .status := rfl
  have hbody : bodyOf (statusWithoutLanguage message) = some (.status, start) := by
    simp only [bodyOf, hraw, hofValue, Option.bind_some, hstart']
  have hpresent : readStatusTail afterCode = .ok (message, afterMessage) := by
    rw [readStatusTail, hmore]
    exact hmessage
  have habsent : readStatusTail afterMessage = .ok ([], afterMessage) := by
    rw [readStatusTail, hend]
    rfl
  have hdecode : decodeBody .status start =
      .ok (.status ⟨7, .ok, message, [], none⟩, afterMessage) :=
    bind_pure_eq_ok.mpr ⟨_, bind_eq_ok.mpr ⟨7, _, hrequestId, bind_eq_ok.mpr ⟨0, _, hcode,
      bind_eq_ok.mpr ⟨message, _, hpresent, bind_pure_eq_ok.mpr ⟨[], habsent, rfl⟩⟩⟩⟩, rfl⟩
  refine ⟨?_, start, hbody, 7, _, 0, afterCode, hrequestId, hcode,
    Or.inr ⟨message, _, hmessage, hend⟩⟩
  simp only [decode, decodeConsuming, hraw, Bind.bind, Except.bind, hofValue, hstart', hdecode,
    hend, if_true]
  rfl

/-- A message for which a frame has just no room left for a language. -/
def longMessage : Bytes := List.replicate (256 ^ 4 - 17) 0

/-- Not every frame body that leaves out the tail of a status can be encoded again. -/
theorem not_forall_decode_encode_decode :
    ¬ ∀ (body : Bytes) (packet : Packet), body.length < 256 ^ 4 → decode body = .ok packet →
      StatusTailAbsent body ∨ ContainsEmptyPairs body →
      ∃ frame, encode packet = .ok frame ∧ decode (frame.drop 4) = .ok packet := by
  intro hall
  have hlong : longMessage.length = 256 ^ 4 - 17 := List.length_replicate
  have hfits : FitsString longMessage := by
    unfold FitsString
    omega
  have hlength : (statusWithoutLanguage longMessage).length = 256 ^ 4 - 4 := by
    simp only [statusWithoutLanguage, List.length_append, toBigEndian_length, hlong]
    norm_num
  obtain ⟨hdecode, habsent⟩ := decode_statusWithoutLanguage hfits
  obtain ⟨frame, hframe, -⟩ := hall _ _ (by omega) hdecode (Or.inl habsent)
  obtain ⟨-, -, writer, hwriter, -, htail, -⟩ := encodeUnframed_decode hdecode
  have hsize := htail habsent
  rw [encode_of_writer hwriter, if_neg (by omega)] at hframe
  cases hframe

end GantrySftp
