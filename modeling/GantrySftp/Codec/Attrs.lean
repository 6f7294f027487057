import GantrySftp.Codec.Constants
import GantrySftp.Codec.Wire

/-!
# The attribute structure

A flags word followed by the fields whose bits are set, in wire order. Two bits govern two
fields each, so owner and times are single values. An undefined bit announces a field of
unknown width and is refused.
-/

namespace GantrySftp

open Library

/-- A uid and gid, present or absent together. -/
structure Owner where
  uid : ℤ
  gid : ℤ
  deriving DecidableEq

/-- An access and a modification time in seconds, present or absent together. -/
structure Times where
  atime : ℤ
  mtime : ℤ
  deriving DecidableEq

/-- File attributes. Absent is not zero, so every field is optional. -/
structure Attrs where
  size : Option ℤ := none
  owner : Option Owner := none
  permissions : Option ℤ := none
  times : Option Times := none
  extended : List (Bytes × Bytes) := []
  deriving DecidableEq

/-- No attributes at all: a flags word of zero and nothing after it. -/
def emptyAttrs : Attrs := {}

/-- The flag bits version 3 defines. -/
def knownFlags : ℕ :=
  AttrFlag.size.value ||| AttrFlag.uidgid.value ||| AttrFlag.permissions.value |||
    AttrFlag.acmodtime.value ||| AttrFlag.extended.value

/-- A flag's bit, or none of them. -/
def AttrFlag.bitIf (flag : AttrFlag) (present : Bool) : ℕ := if present then flag.value else 0

/-- The flags word that announces the given fields. -/
def flagsWord (size owner permissions times extended : Bool) : ℕ :=
  AttrFlag.size.bitIf size ||| AttrFlag.uidgid.bitIf owner |||
    AttrFlag.permissions.bitIf permissions ||| AttrFlag.acmodtime.bitIf times |||
    AttrFlag.extended.bitIf extended

/-- The flags word an attribute structure encodes to. -/
def Attrs.flags (attrs : Attrs) : ℕ :=
  flagsWord attrs.size.isSome attrs.owner.isSome attrs.permissions.isSome attrs.times.isSome
    (!attrs.extended.isEmpty)

/-- The largest instant version 3 can carry. -/
def maxV3Timestamp : ℤ := 0xFFFFFFFF

/-- The fewest bytes an attribute structure occupies: its flags word. -/
def minAttrsLength : ℕ := 4

/-- The fewest bytes an extended pair occupies: two empty strings. -/
def minExtendedPairLength : ℕ := 8

open WireWriter in
/-- Write one timestamp, refusing a value the format cannot hold. -/
def writeTimestamp (field : String) (value : ℤ) : Writing Unit :=
  if 0 ≤ value ∧ value ≤ maxV3Timestamp then writeUint32 value
  else throw (.valueError (s!"{field} {value} does not fit filexfer v3's uint32 seconds field, " ++
    s!"which spans 0 to {maxV3Timestamp} (1970-01-01T00:00:00Z to 2106-02-07T06:28:15Z); a " ++
    "server reading it as signed stops even earlier, at 2038-01-19T03:14:07Z"))

open WireWriter in
/-- Write a uid and gid. -/
def writeOwner (owner : Owner) : Writing Unit := do
  writeUint32 owner.uid
  writeUint32 owner.gid

/-- Write an access and a modification time. -/
def writeTimestamps (times : Times) : Writing Unit := do
  writeTimestamp "atime" times.atime
  writeTimestamp "mtime" times.mtime

open WireWriter in
/-- Write a pair of binary strings. -/
def writePair (pair : Bytes × Bytes) : Writing Unit := do
  writeString pair.1
  writeString pair.2

open WireWriter in
/-- Write the extended pairs behind their count, or nothing when there are none. -/
def writeExtended (pairs : List (Bytes × Bytes)) : Writing Unit :=
  if pairs.isEmpty then pure () else do
    writeUint32 pairs.length
    pairs.forM writePair

open WireWriter in
/-- Append an attribute structure. -/
def encodeAttrs (attrs : Attrs) : Writing Unit := do
  writeUint32 attrs.flags
  writeOptional writeUint64 attrs.size
  writeOptional writeOwner attrs.owner
  writeOptional writeUint32 attrs.permissions
  writeOptional writeTimestamps attrs.times
  writeExtended attrs.extended

/-- Eight hexadecimal digits, as messages print a flags word. -/
def hexWord (n : ℕ) : String := String.ofList ((Nat.toDigits 16 n).leftpad 8 '0')

/-- Whether a flags word sets a flag's bit. -/
def hasFlag (flags : ℕ) (flag : AttrFlag) : Bool := flags &&& flag.value != 0

open WireReader in
/-- Read a uid and gid. -/
def readOwner : Reading Owner := do
  let uid ← readUint32
  let gid ← readUint32
  pure { uid := uid, gid := gid }

open WireReader in
/-- Read an access and a modification time. -/
def readTimestamps : Reading Times := do
  let atime ← readUint32
  let mtime ← readUint32
  pure { atime := atime, mtime := mtime }

open WireReader in
/-- Read a pair of binary strings. -/
def readPair : Reading (Bytes × Bytes) := do
  let first ← readString
  let second ← readString
  pure (first, second)

open WireReader in
/-- Read the extended pairs, when their flag is set. -/
def readExtended (present : Bool) : Reading (List (Bytes × Bytes)) :=
  if present then do
    let count ← readCount minExtendedPairLength (by decide) "ATTRS extended pair"
    readTimes readPair count.toNat
  else pure []

open WireReader in
/-- Read the fields a flags word announces. -/
def decodeAttrsFields (flags : ℕ) : Reading Attrs := do
  let size ← readOptional (hasFlag flags .size) readUint64
  let owner ← readOptional (hasFlag flags .uidgid) readOwner
  let permissions ← readOptional (hasFlag flags .permissions) readUint32
  let times ← readOptional (hasFlag flags .acmodtime) readTimestamps
  let extended ← readExtended (hasFlag flags .extended)
  pure { size := size, owner := owner, permissions := permissions, times := times,
         extended := extended }

open WireReader in
/-- Read an attribute structure, refusing a flags word that sets an undefined bit. -/
def decodeAttrs : Reading Attrs := do
  let word ← readUint32
  let unknown := andNot word.toNat knownFlags
  if unknown ≠ 0 then
    let unknownHex := hexWord unknown
    let knownHex := hexWord knownFlags
    refuse (s!"ATTRS sets undefined flag bits 0x{unknownHex}; filexfer v3 defines only " ++
      s!"0x{knownHex}, and an unknown bit means a field of unknown width")
  else
    decodeAttrsFields word.toNat

/-! ## Attributes read back as they were written -/

/-- Attributes whose fields the format can hold. -/
structure Attrs.InRange (attrs : Attrs) : Prop where
  size : ∀ value ∈ attrs.size, FitsUint 8 value
  owner : ∀ owner ∈ attrs.owner, FitsUint 4 owner.uid ∧ FitsUint 4 owner.gid
  permissions : ∀ value ∈ attrs.permissions, FitsUint 4 value
  times : ∀ times ∈ attrs.times, FitsUint 4 times.atime ∧ FitsUint 4 times.mtime
  extended_length : attrs.extended.length < 256 ^ 4
  extended : ∀ pair ∈ attrs.extended, FitsString pair.1 ∧ FitsString pair.2

/-- Each flag of a flags word is set exactly when its field was announced. -/
theorem hasFlag_flagsWord (size owner permissions times extended : Bool) :
    hasFlag (flagsWord size owner permissions times extended) .size = size ∧
    hasFlag (flagsWord size owner permissions times extended) .uidgid = owner ∧
    hasFlag (flagsWord size owner permissions times extended) .permissions = permissions ∧
    hasFlag (flagsWord size owner permissions times extended) .acmodtime = times ∧
    hasFlag (flagsWord size owner permissions times extended) .extended = extended := by
  revert size owner permissions times extended
  decide

/-- A flags word sets no undefined bit and fits its field. -/
theorem flagsWord_known (size owner permissions times extended : Bool) :
    andNot (flagsWord size owner permissions times extended) knownFlags = 0 ∧
    flagsWord size owner permissions times extended < 256 ^ 4 := by
  revert size owner permissions times extended
  decide

/-- A timestamp in range round-trips. -/
private theorem roundTrips_timestamp {field : String} {value : ℤ} (hfits : FitsUint 4 value) :
    RoundTrips 4 (writeTimestamp field value) WireReader.readUint32 value := by
  have hle : value ≤ maxV3Timestamp := by
    have := hfits.2
    unfold maxV3Timestamp
    omega
  rw [writeTimestamp, if_pos ⟨hfits.1, hle⟩]
  exact roundTrips_uint32 hfits

/-- A uid and gid round-trip. -/
private theorem roundTrips_owner {owner : Owner} (huid : FitsUint 4 owner.uid)
    (hgid : FitsUint 4 owner.gid) : RoundTrips 8 (writeOwner owner) readOwner owner :=
  (roundTrips_uint32 huid).bind (roundTrips_uint32 hgid).last

/-- Access and modification times round-trip. -/
private theorem roundTrips_times {times : Times} (hatime : FitsUint 4 times.atime)
    (hmtime : FitsUint 4 times.mtime) : RoundTrips 8 (writeTimestamps times) readTimestamps times :=
  (roundTrips_timestamp hatime).bind (roundTrips_timestamp hmtime).last

/-- A pair of strings round-trips, in at least the minimum width of an extended pair. -/
theorem roundTrips_pair {pair : Bytes × Bytes} (hfirst : FitsString pair.1)
    (hsecond : FitsString pair.2) :
    RoundTrips minExtendedPairLength (writePair pair) readPair pair :=
  (roundTrips_string hfirst).bind (roundTrips_string hsecond).last

/-- The extended pairs round-trip, absent and present. -/
private theorem roundTrips_extended {pairs : List (Bytes × Bytes)}
    (hlength : pairs.length < 256 ^ 4)
    (hpairs : ∀ pair ∈ pairs, FitsString pair.1 ∧ FitsString pair.2) :
    RoundTrips 0 (writeExtended pairs) (readExtended (!pairs.isEmpty)) pairs := by
  unfold writeExtended readExtended
  cases hempty : pairs.isEmpty with
  | true =>
    rw [List.isEmpty_iff] at hempty
    subst hempty
    exact RoundTrips.pure []
  | false =>
    have hcounted := roundTrips_counted (by decide) "ATTRS extended pair" hlength
      fun pair hmem => roundTrips_pair (hpairs pair hmem).1 (hpairs pair hmem).2
    exact hcounted.weaken (Nat.zero_le _)

/-- The announced fields of attributes in range round-trip. -/
private theorem roundTrips_attrsFields {attrs : Attrs} (hrange : attrs.InRange) :
    RoundTrips 0
      (writeOptional WireWriter.writeUint64 attrs.size >>= fun _ =>
        writeOptional writeOwner attrs.owner >>= fun _ =>
        writeOptional WireWriter.writeUint32 attrs.permissions >>= fun _ =>
        writeOptional writeTimestamps attrs.times >>= fun _ => writeExtended attrs.extended)
      (decodeAttrsFields attrs.flags) attrs := by
  obtain ⟨hsize, howner, hpermissions, htimes, hextended⟩ :=
    hasFlag_flagsWord attrs.size.isSome attrs.owner.isSome attrs.permissions.isSome
      attrs.times.isSome (!attrs.extended.isEmpty)
  refine (RoundTrips.optional hsize fun value hmem =>
    roundTrips_uint64 (hrange.size value hmem)).bind ?_
  refine (RoundTrips.optional howner fun owner hmem =>
    roundTrips_owner (hrange.owner owner hmem).1 (hrange.owner owner hmem).2).bind ?_
  refine (RoundTrips.optional hpermissions fun value hmem =>
    roundTrips_uint32 (hrange.permissions value hmem)).bind ?_
  refine (RoundTrips.optional htimes fun times hmem =>
    roundTrips_times (hrange.times times hmem).1 (hrange.times times hmem).2).bind ?_
  have hfield := roundTrips_extended hrange.extended_length hrange.extended
  rw [← hextended] at hfield
  exact hfield.last

/-- Attributes in range round-trip, for every combination of present fields. -/
theorem roundTrips_attrs {attrs : Attrs} (hrange : attrs.InRange) :
    RoundTrips minAttrsLength (encodeAttrs attrs) decodeAttrs attrs := by
  obtain ⟨hknown, hlt⟩ := flagsWord_known attrs.size.isSome attrs.owner.isSome
    attrs.permissions.isSome attrs.times.isSome (!attrs.extended.isEmpty)
  have hflags : FitsUint 4 (attrs.flags : ℤ) := fitsUint_length hlt
  have hunknown : ¬ andNot (attrs.flags : ℤ).toNat knownFlags ≠ 0 := not_not_intro hknown
  refine (roundTrips_uint32 hflags).bind ?_
  change RoundTrips 0 _ (if andNot (attrs.flags : ℤ).toNat knownFlags ≠ 0 then _ else
    decodeAttrsFields (attrs.flags : ℤ).toNat) attrs
  rw [if_neg hunknown]
  exact roundTrips_attrsFields hrange

end GantrySftp
