import GantrySftp.Library.BigEndian
import GantrySftp.Library.RoundTrip

/-!
# Primitive fields of the wire format

Fixed-width big-endian unsigned integers, and binary strings behind a 32-bit length. A reader
walks one frame body and never leaves it; a writer collects chunks and knows their total size.
Both carry that as part of their type.
-/

namespace GantrySftp

open Library

/-- A frame the peer sent that cannot be read as version 3. -/
structure ProtocolError where
  message : String
  packetType : Option ℤ := none
  requestId : Option ℤ := none
  rawFrame : Option Bytes := none
  deriving DecidableEq

/-- How many bytes of an offending frame an error keeps. -/
def maxFrameExcerpt : ℕ := 256

/-- A value no field of the format can hold, or a body too long for its length prefix. -/
inductive WriteError
  | valueError (message : String)
  | overflowError (message : String)
  deriving DecidableEq

/-! ## Reading -/

/-- A position inside one frame body, with what is attached to an error raised there. -/
structure WireReader where
  buf : Bytes
  pos : ℕ
  packetType : Option ℤ
  requestId : Option ℤ
  pos_le : pos ≤ buf.length

/-- Computations that read one frame. -/
abbrev Reading := StateT WireReader (Except ProtocolError)

namespace WireReader

/-- A reader at the start of a frame body. -/
def ofFrame (buf : Bytes) (packetType : Option ℤ) : WireReader where
  buf := buf
  pos := 0
  packetType := packetType
  requestId := none
  pos_le := Nat.zero_le _

/-- Bytes left unread in the frame. -/
def remaining (reader : WireReader) : ℕ := reader.buf.length - reader.pos

/-- Whether every byte of the frame has been consumed. -/
def atEnd (reader : WireReader) : Bool := reader.pos ≥ reader.buf.length

/-- The error for a frame the reader's caller refuses, carrying the frame's state. -/
def refusal (reader : WireReader) (message : String) : ProtocolError where
  message := message
  packetType := reader.packetType
  requestId := reader.requestId
  rawFrame := some (reader.buf.take maxFrameExcerpt)

/-- Refuse the frame at the current position. -/
def refuse {α : Type} (message : String) : Reading α := fun reader =>
  .error (reader.refusal message)

/-- The next `n` bytes, which must be there. -/
def take (n : ℕ) : Reading Bytes := fun reader =>
  let offset := reader.pos
  let available := reader.remaining
  if h : n > reader.remaining then
    .error (reader.refusal
      s!"truncated frame: need {n} more bytes at offset {offset}, {available} available")
  else
    .ok ((reader.buf.drop reader.pos).take n,
      { reader with
        pos := reader.pos + n
        pos_le := by have := reader.pos_le; unfold remaining at h; omega })

/-- Read a big-endian unsigned integer of `width` bytes. -/
def readUint (width : ℕ) : Reading ℤ := do
  let bytes ← take width
  pure (fromBigEndian bytes)

/-- Read a single unsigned byte. -/
def readUint8 : Reading ℤ := readUint 1

/-- Read a big-endian 32-bit unsigned integer. -/
def readUint32 : Reading ℤ := readUint 4

/-- Read a big-endian 64-bit unsigned integer. -/
def readUint64 : Reading ℤ := readUint 8

/-- Record the request id for error reporting. -/
def setRequestId (requestId : ℤ) : Reading Unit := fun reader =>
  .ok ((), { reader with requestId := some requestId })

/-- Read a request id, and name it in any error raised after it. -/
def readRequestId : Reading ℤ := do
  let requestId ← readUint32
  setRequestId requestId
  pure requestId

/-- Read an item count, refusing one the rest of the frame cannot hold. The minimum width of
an item is at least one byte, or every count would fit. -/
def readCount (itemLength : ℕ) (_positive : 1 ≤ itemLength) (item : String) : Reading ℤ :=
  fun reader => do
    let offset := reader.pos
    let (count, reader') ← readUint32 reader
    let available := reader'.remaining
    if count * itemLength > available then
      .error (reader.refusal (s!"{item} count {count} at offset {offset} cannot fit in the " ++
        s!"frame: each takes at least {itemLength} bytes and {available} remain after the count"))
    else
      .ok (count, reader')

/-- Read a length-prefixed binary string. -/
def readString : Reading Bytes := do
  let length ← readUint32
  take length.toNat

/-- Read everything left in the frame. -/
def readRemaining : Reading Bytes := fun reader => take reader.remaining reader

end WireReader

/-! ## Writing -/

/-- The chunks of a frame body in order, and their total size. -/
structure WireWriter where
  chunks : List Bytes
  size : ℕ
  size_eq : size = chunks.flatten.length

/-- Computations that build one frame body. -/
abbrev Writing := StateT WireWriter (Except WriteError)

namespace WireWriter

/-- A writer that has written nothing. -/
def empty : WireWriter where
  chunks := []
  size := 0
  size_eq := rfl

/-- The accumulated body. -/
def getvalue (writer : WireWriter) : Bytes := writer.chunks.flatten

/-- Append raw bytes with no length prefix. -/
def writeBytes (value : Bytes) : Writing Unit := fun writer =>
  .ok ((),
    { chunks := writer.chunks ++ [value]
      size := writer.size + value.length
      size_eq := by simp [writer.size_eq] })

/-- Append a big-endian unsigned integer of `width` bytes, refusing one that does not fit. -/
def writeUint (width : ℕ) (label : String) (value : ℤ) : Writing Unit :=
  if 0 ≤ value ∧ value < 256 ^ width then writeBytes (toBigEndian width value.toNat)
  else throw (.valueError s!"{label} out of range: {value}")

/-- Append an unsigned byte. -/
def writeUint8 (value : ℤ) : Writing Unit := writeUint 1 "uint8" value

/-- Append a big-endian 32-bit unsigned integer. -/
def writeUint32 (value : ℤ) : Writing Unit := writeUint 4 "uint32" value

/-- Append a big-endian 64-bit unsigned integer. -/
def writeUint64 (value : ℤ) : Writing Unit := writeUint 8 "uint64" value

/-- Append a length-prefixed binary string. -/
def writeString (value : Bytes) : Writing Unit := do
  writeUint32 value.length
  writeBytes value

/-- The body behind its 32-bit length prefix. -/
def frame (writer : WireWriter) : Except WriteError Bytes :=
  if writer.size < 256 ^ 4 then .ok (toBigEndian 4 writer.size ++ writer.getvalue)
  else .error (.overflowError "int too big to convert")

end WireWriter

/-! ## Each field reads back what it wrote -/

instance : Input WireReader UInt8 where
  unread reader := reader.buf.drop reader.pos

instance : Output WireWriter UInt8 where
  written := WireWriter.getvalue

/-- Bytes left unread are counted by `remaining`. -/
theorem length_unread (reader : WireReader) :
    (Input.unread reader : Bytes).length = reader.remaining := List.length_drop

/-- A reader is at the end exactly when nothing is left. -/
theorem atEnd_iff (reader : WireReader) :
    reader.atEnd = true ↔ (Input.unread reader : Bytes) = [] := by
  change decide (reader.pos ≥ reader.buf.length) = true ↔ reader.buf.drop reader.pos = []
  simp

/-- Taking as many bytes as a known prefix has returns that prefix. -/
theorem reads_take (bytes : Bytes) : Reads (WireReader.take bytes.length) bytes bytes := by
  intro reader rest hunread
  have hlength : bytes.length ≤ reader.remaining := by
    rw [← length_unread, hunread, List.length_append]
    omega
  have hleading : (reader.buf.drop reader.pos).take bytes.length = bytes := by
    change List.take bytes.length (Input.unread reader) = bytes
    rw [hunread, List.take_left]
  refine ⟨{ reader with pos := reader.pos + bytes.length, pos_le := ?_ }, ?_, ?_⟩
  · have := reader.pos_le
    unfold WireReader.remaining at hlength
    omega
  · rw [WireReader.take, dif_neg (Nat.not_lt.mpr hlength), hleading]
  · change reader.buf.drop (reader.pos + bytes.length) = rest
    rw [← List.drop_drop]
    change List.drop bytes.length (Input.unread reader) = rest
    rw [hunread, List.drop_left]

/-- Raw bytes are appended as they are. -/
theorem appends_writeBytes (bytes : Bytes) : Appends (WireWriter.writeBytes bytes) bytes := by
  intro writer
  refine ⟨_, rfl, ?_⟩
  change (writer.chunks ++ [bytes]).flatten = writer.chunks.flatten ++ bytes
  simp

/-- An integer in range is appended as its big-endian spelling. -/
theorem appends_writeUint {width : ℕ} {label : String} {value : ℤ} (hlow : 0 ≤ value)
    (hhigh : value < 256 ^ width) :
    Appends (WireWriter.writeUint width label value) (toBigEndian width value.toNat) := by
  rw [WireWriter.writeUint, if_pos ⟨hlow, hhigh⟩]
  exact appends_writeBytes _

/-- The big-endian spelling of an integer in range is read back as that integer. -/
theorem reads_readUint {width : ℕ} {value : ℤ} (hlow : 0 ≤ value) (hhigh : value < 256 ^ width) :
    Reads (WireReader.readUint width) (toBigEndian width value.toNat) value := by
  have hnat : value.toNat < 256 ^ width := by
    rw [Int.toNat_lt hlow]
    exact_mod_cast hhigh
  have hvalue : (fromBigEndian (toBigEndian width value.toNat) : ℤ) = value := by
    rw [fromBigEndian_toBigEndian hnat, Int.toNat_of_nonneg hlow]
  have htake := reads_take (toBigEndian width value.toNat)
  rw [toBigEndian_length] at htake
  have hread : Reads (WireReader.readUint width) _
      (fromBigEndian (toBigEndian width value.toNat) : ℤ) := htake.last
  rwa [hvalue] at hread

/-- An integer a field of `width` bytes can hold. -/
def FitsUint (width : ℕ) (value : ℤ) : Prop := 0 ≤ value ∧ value < 256 ^ width

/-- A byte string a 32-bit length can describe. -/
def FitsString (value : Bytes) : Prop := value.length < 256 ^ 4

instance (width : ℕ) (value : ℤ) : Decidable (FitsUint width value) :=
  inferInstanceAs (Decidable (_ ∧ _))

instance (value : Bytes) : Decidable (FitsString value) :=
  inferInstanceAs (Decidable (_ < _))

/-- An integer in range round-trips through a field of its width. -/
theorem roundTrips_uint {width : ℕ} {label : String} {value : ℤ} (hfits : FitsUint width value) :
    RoundTrips width (WireWriter.writeUint width label value) (WireReader.readUint width)
      value :=
  ⟨_, (toBigEndian_length _ _).ge, appends_writeUint hfits.1 hfits.2,
    reads_readUint hfits.1 hfits.2⟩

/-- A 32-bit field round-trips. -/
theorem roundTrips_uint32 {value : ℤ} (hfits : FitsUint 4 value) :
    RoundTrips 4 (WireWriter.writeUint32 value) WireReader.readUint32 value :=
  roundTrips_uint hfits

/-- A 64-bit field round-trips. -/
theorem roundTrips_uint64 {value : ℤ} (hfits : FitsUint 8 value) :
    RoundTrips 8 (WireWriter.writeUint64 value) WireReader.readUint64 value :=
  roundTrips_uint hfits

/-- A request id round-trips, and recording it consumes nothing. -/
theorem roundTrips_requestId {value : ℤ} (hfits : FitsUint 4 value) :
    RoundTrips 4 (WireWriter.writeUint32 value) WireReader.readRequestId value := by
  obtain ⟨bytes, hwidth, happends, hreads⟩ := roundTrips_uint32 hfits
  refine ⟨bytes, hwidth, happends, ?_⟩
  intro reader rest hunread
  obtain ⟨reader', hrun, hrest⟩ := hreads reader rest hunread
  refine ⟨{ reader' with requestId := some value }, ?_, hrest⟩
  simp only [WireReader.readRequestId, Bind.bind, StateT.bind, hrun, Except.bind]
  rfl

/-- The length of a list or string, as the field that carries it sees it. -/
theorem fitsUint_length {n : ℕ} (h : n < 256 ^ 4) : FitsUint 4 (n : ℤ) :=
  ⟨Int.natCast_nonneg n, by exact_mod_cast h⟩

/-- A binary string round-trips. -/
theorem roundTrips_string {value : Bytes} (hfits : FitsString value) :
    RoundTrips 4 (WireWriter.writeString value) WireReader.readString value := by
  refine (roundTrips_uint32 (fitsUint_length hfits)).bind ?_
  exact ⟨value, Nat.zero_le _, appends_writeBytes value, reads_take value⟩

/-- Raw bytes at the end of a frame are read back by reading what remains. -/
theorem roundTripsToEnd_bytes (value : Bytes) :
    RoundTripsToEnd (WireWriter.writeBytes value) WireReader.readRemaining value := by
  refine ⟨value, appends_writeBytes value, ?_⟩
  intro reader hunread
  have hlength : reader.remaining = value.length := by rw [← length_unread, hunread]
  obtain ⟨reader', hrun, hrest⟩ := reads_take value reader [] (by rw [hunread, List.append_nil])
  exact ⟨reader', by rw [WireReader.readRemaining, hlength, hrun], hrest⟩

/-- A count whose items all follow it is accepted. -/
theorem readCount_eq {count width : ℕ} (positive : 1 ≤ width) (item : String)
    (hcount : count < 256 ^ 4) {reader : WireReader} {rest : Bytes}
    (hunread : Input.unread reader = toBigEndian 4 count ++ rest)
    (hroom : count * width ≤ rest.length) :
    ∃ reader', WireReader.readCount width positive item reader = .ok ((count : ℤ), reader') ∧
      Input.unread reader' = rest := by
  have hfits := fitsUint_length hcount
  obtain ⟨reader', hrun, hrest⟩ := reads_readUint hfits.1 hfits.2 reader rest hunread
  refine ⟨reader', ?_, hrest⟩
  have hremaining : ¬ (count : ℤ) * width > reader'.remaining := by
    rw [← length_unread, hrest, not_lt]
    exact_mod_cast hroom
  change (WireReader.readUint32 reader >>= _) = _
  rw [WireReader.readUint32, hrun]
  simp only [Bind.bind, Except.bind, hremaining, if_false]

/-- A counted list round-trips when each of its items does, at no less than the minimum width
the reader assumes for an item. -/
theorem roundTrips_counted {α : Type} {write : α → Writing Unit} {read : Reading α}
    {width : ℕ} (positive : 1 ≤ width) (item : String) {items : List α}
    (hcount : items.length < 256 ^ 4)
    (hitems : ∀ value ∈ items, RoundTrips width (write value) read value) :
    RoundTrips 4
      (WireWriter.writeUint32 items.length >>= fun _ => items.forM write)
      (WireReader.readCount width positive item >>= fun count => readTimes read count.toNat)
      items := by
  obtain ⟨back, hwidth, happends, hreads⟩ := roundTrips_items items hitems
  have hfits := fitsUint_length hcount
  refine ⟨toBigEndian 4 items.length ++ back, by simp, ?_, ?_⟩
  · exact (appends_writeUint hfits.1 hfits.2).bind happends
  · intro reader rest hunread
    rw [List.append_assoc] at hunread
    obtain ⟨middle, hrun, hmiddle⟩ := readCount_eq positive item hcount hunread
      (Nat.le_trans hwidth (by rw [List.length_append]; omega))
    obtain ⟨last, hrun', hlast⟩ := hreads middle rest hmiddle
    refine ⟨last, ?_, hlast⟩
    simp only [Bind.bind, StateT.bind, hrun, Except.bind, Int.toNat_natCast, hrun']

end GantrySftp
