import GantrySftp.Codec.Canonical
import GantrySftp.Library.Truncation

/-!
# Typed bodies of extension requests

An extension request is an ordinary packet whose data the extension defines. Each extension here
builds that data and reads it back. A body that was cut short is refused and one that goes on is
read as if it did not. The reply that carries file hashes has a prefix of its own and an
unprefixed tail.
-/

namespace GantrySftp

open Library

/-- The request to rename over an existing target, as it appears on the wire. -/
def posixRenameName : Bytes := "posix-rename@openssh.com".toUTF8.toList

/-- The request to flush a handle, as it appears on the wire. -/
def fsyncName : Bytes := "fsync@openssh.com".toUTF8.toList

/-- The request to set attributes without following a link, as it appears on the wire. -/
def lsetstatName : Bytes := "lsetstat@openssh.com".toUTF8.toList

/-- The request for hashes of a file, as it appears on the wire. -/
def checkFileName : Bytes := "check-file".toUTF8.toList

/-- The names fit their field. -/
theorem fitsString_names : FitsString posixRenameName ∧ FitsString lsetstatName ∧
    FitsString fsyncName ∧ FitsString checkFileName := by
  decide +kernel

/-! ## Names in messages -/

/-- One byte of a quoted name, as messages print it. -/
def reprByte (quote byte : UInt8) : String :=
  if byte = quote ∨ byte = 92 then "\\" ++ String.singleton (Char.ofNat byte.toNat)
  else if byte = 9 then "\\t"
  else if byte = 10 then "\\n"
  else if byte = 13 then "\\r"
  else if byte < 32 ∨ 127 ≤ byte then
    "\\x" ++ String.ofList ((Nat.toDigits 16 byte.toNat).leftpad 2 '0')
  else String.singleton (Char.ofNat byte.toNat)

/-- A name in single quotes, or in double ones when that spares it escapes. -/
def quotedName (name : Bytes) : String :=
  let quote : UInt8 := if 39 ∈ name ∧ 34 ∉ name then 34 else 39
  let mark := String.singleton (Char.ofNat quote.toNat)
  mark ++ String.join (name.map (reprByte quote)) ++ mark

/-- A byte string as messages print it. -/
def reprBytes (value : Bytes) : String := "b" ++ quotedName value

/-! ## Requests -/

/-- A request that carries what an extension writes. -/
def extendedOf (requestId : ℤ) (name : Bytes) (body : Writing Unit) :
    Except WriteError Extended := do
  let (_, writer) ← body WireWriter.empty
  pure { requestId := requestId, name := name, data := writer.getvalue }

/-- A reader over the data of a request, which must name the extension. -/
def payloadOf (request : Extended) (expected : Bytes) : Except ProtocolError WireReader :=
  if request.name ≠ expected then
    let wanted := quotedName expected
    let found := reprBytes request.name
    .error
      { message := s!"expected extension {wanted}, got {found}"
        packetType := some PacketType.extended.value
        requestId := some request.requestId
        rawFrame := some (request.data.take maxFrameExcerpt) }
  else
    .ok { WireReader.ofFrame request.data (some PacketType.extended.value) with
      requestId := some request.requestId }

/-- What an extension reads back out of a request, ignoring bytes after it. -/
def ofExtended {α : Type} (expected : Bytes) (body : ℤ → Reading α) (request : Extended) :
    Except ProtocolError α := do
  let reader ← payloadOf request expected
  let (value, _) ← body request.requestId reader
  pure value

/-- A rename that overwrites the target. -/
structure PosixRename where
  requestId : ℤ
  oldpath : Bytes
  newpath : Bytes
  deriving DecidableEq

namespace PosixRename

open WireWriter in
/-- Write the paths. -/
def writeBody (rename : PosixRename) : Writing Unit := do
  writeString rename.oldpath
  writeString rename.newpath

open WireReader in
/-- Read the paths. -/
def readBody (requestId : ℤ) : Reading PosixRename := do
  let oldpath ← readString
  let newpath ← readString
  pure { requestId := requestId, oldpath := oldpath, newpath := newpath }

/-- The request that carries the rename. -/
def toExtended (rename : PosixRename) : Except WriteError Extended :=
  extendedOf rename.requestId posixRenameName rename.writeBody

/-- The rename that a request carries. -/
def fromExtended (request : Extended) : Except ProtocolError PosixRename :=
  ofExtended posixRenameName readBody request

/-- An id and paths that fit. -/
def InRange (rename : PosixRename) : Prop :=
  FitsUint 4 rename.requestId ∧ FitsString rename.oldpath ∧ FitsString rename.newpath

end PosixRename

/-- A change of attributes that does not follow a link. -/
structure LSetStat where
  requestId : ℤ
  path : Bytes
  attrs : Attrs := emptyAttrs
  deriving DecidableEq

namespace LSetStat

/-- Write the path and the attributes. -/
def writeBody (change : LSetStat) : Writing Unit := do
  WireWriter.writeString change.path
  encodeAttrs change.attrs

/-- Read the path and the attributes. -/
def readBody (requestId : ℤ) : Reading LSetStat := do
  let path ← WireReader.readString
  let attrs ← decodeAttrs
  pure { requestId := requestId, path := path, attrs := attrs }

/-- The request that carries the change. -/
def toExtended (change : LSetStat) : Except WriteError Extended :=
  extendedOf change.requestId lsetstatName change.writeBody

/-- The change that a request carries. -/
def fromExtended (request : Extended) : Except ProtocolError LSetStat :=
  ofExtended lsetstatName readBody request

/-- An id, a path and attributes that fit. -/
def InRange (change : LSetStat) : Prop :=
  FitsUint 4 change.requestId ∧ FitsString change.path ∧ change.attrs.InRange

end LSetStat

/-- A flush of an open handle. -/
structure Fsync where
  requestId : ℤ
  handle : Bytes
  deriving DecidableEq

namespace Fsync

/-- Write the handle. -/
def writeBody (flush : Fsync) : Writing Unit := WireWriter.writeString flush.handle

/-- Read the handle. -/
def readBody (requestId : ℤ) : Reading Fsync := do
  let handle ← WireReader.readString
  pure { requestId := requestId, handle := handle }

/-- The request that carries the flush. -/
def toExtended (flush : Fsync) : Except WriteError Extended :=
  extendedOf flush.requestId fsyncName flush.writeBody

/-- The flush that a request carries. -/
def fromExtended (request : Extended) : Except ProtocolError Fsync :=
  ofExtended fsyncName readBody request

/-- An id and a handle that fit. -/
def InRange (flush : Fsync) : Prop := FitsUint 4 flush.requestId ∧ FitsString flush.handle

end Fsync

/-- A question for hashes of a range of a file, one for each block of it. -/
structure CheckFile where
  requestId : ℤ
  handle : Bytes
  algorithms : Bytes := "sha256,sha1,md5".toUTF8.toList
  startOffset : ℤ := 0
  length : ℤ := 0
  blockSize : ℤ := 0
  deriving DecidableEq

namespace CheckFile

open WireWriter in
/-- Write the handle, the algorithms, the range and the block size. -/
def writeBody (check : CheckFile) : Writing Unit := do
  writeString check.handle
  writeString check.algorithms
  writeUint64 check.startOffset
  writeUint64 check.length
  writeUint32 check.blockSize

open WireReader in
/-- Read the handle, the algorithms, the range and the block size. -/
def readBody (requestId : ℤ) : Reading CheckFile := do
  let handle ← readString
  let algorithms ← readString
  let startOffset ← readUint64
  let length ← readUint64
  let blockSize ← readUint32
  pure { requestId := requestId, handle := handle, algorithms := algorithms,
         startOffset := startOffset, length := length, blockSize := blockSize }

/-- The request that carries the question. -/
def toExtended (check : CheckFile) : Except WriteError Extended :=
  extendedOf check.requestId checkFileName check.writeBody

/-- The question that a request carries. -/
def fromExtended (request : Extended) : Except ProtocolError CheckFile :=
  ofExtended checkFileName readBody request

/-- An id, strings, offsets and a block size that fit. -/
def InRange (check : CheckFile) : Prop :=
  FitsUint 4 check.requestId ∧ FitsString check.handle ∧ FitsString check.algorithms ∧
    FitsUint 8 check.startOffset ∧ FitsUint 8 check.length ∧ FitsUint 4 check.blockSize

end CheckFile

/-! ## The reply with hashes -/

/-- The answer to a question for hashes, one behind another. -/
structure CheckFileReply where
  requestId : ℤ
  algorithm : Bytes
  digests : Bytes
  deriving DecidableEq

/-- A refusal of a reply with hashes. -/
def CheckFileReply.refusal (reply : ExtendedReply) (message : String) : ProtocolError where
  message := message
  requestId := some reply.requestId
  rawFrame := some (reply.data.take maxFrameExcerpt)

/-- Read the answer out of an extension's reply. The name is checked before the algorithm is
read, and the hashes run to the end. -/
def CheckFileReply.fromReply (reply : ExtendedReply) : Except ProtocolError CheckFileReply :=
  match WireReader.readString (.ofFrame reply.data none) with
  | .error _ =>
    .error (refusal reply "check-file reply is truncated before the extension name")
  | .ok (name, reader) =>
    if name ≠ checkFileName then
      let echoed := reprBytes name
      let expected := reprBytes checkFileName
      .error (refusal reply (s!"check-file reply echoed {echoed} where {expected} was expected; " ++
        "draft-ietf-secsh-filexfer-extensions-00 3 sends the algorithm first and " ++
        "echoes no name, so a server implementing that spelling arrives here, and " ++
        "this library implements paramiko's, which echoes it"))
    else
      match WireReader.readString reader with
      | .error _ =>
        .error (refusal reply "check-file reply is truncated before the algorithm name")
      | .ok (algorithm, reader) => do
        let (digests, _) ← WireReader.readRemaining reader
        pure { requestId := reply.requestId, algorithm := algorithm, digests := digests }

/-- Split hashes that stand behind one another into one for each block, or the message of the
refusal. -/
def splitDigests (digests : Bytes) (digestSize : ℤ) (algorithm : Bytes) :
    Except String (List Bytes) :=
  if digestSize < 1 then .error s!"digest_size must be at least 1, got {digestSize}"
  else
    let size := digestSize.toNat
    if digests.length % size ≠ 0 then
      let given := digests.length
      let named := reprBytes algorithm
      .error (s!"{given} digest bytes do not divide into {digestSize}-byte " ++
        s!"digests, so this is not {named} output")
    else
      let starts := List.range' 0 ((digests.length + size - 1) / size) size
      .ok (starts.map fun start => (digests.drop start).take size)

/-- The hashes of an answer, one for each block. -/
def CheckFileReply.split (reply : CheckFileReply) (digestSize : ℤ) : Except String (List Bytes) :=
  splitDigests reply.digests digestSize reply.algorithm

/-! ## Fields that are cut short -/

/-- Bytes that are taken are taken from a longer frame as well. -/
theorem stable_take (n : ℕ) : Stable (WireReader.take n) := by
  intro reader reader' bytes h longer more hunread
  obtain ⟨hsplit, rfl⟩ := take_eq_ok h
  rw [hsplit, List.append_assoc] at hunread
  exact reads_take bytes longer _ hunread

/-- An integer. -/
theorem stable_readUint (width : ℕ) : Stable (WireReader.readUint width) :=
  (stable_take width).last

/-- A string. -/
theorem stable_readString : Stable WireReader.readString :=
  (stable_readUint 4).bind fun length => stable_take length.toNat

/-- A count that the rest of a frame can hold fits the rest of a longer one. -/
theorem stable_readCount {width : ℕ} (positive : 1 ≤ width) (item : String) :
    Stable (WireReader.readCount width positive item) := by
  intro reader reader' count h longer more hunread
  have hread := readCount_eq_ok h
  obtain ⟨longer', hrun, hrest⟩ := stable_readUint 4 _ _ _ hread longer more hunread
  have hroom : ¬count * width > reader'.remaining := by
    intro hless
    simp only [WireReader.readCount, hread, Bind.bind, Except.bind, if_pos hless] at h
    cases h
  have hlength : longer'.remaining = reader'.remaining + more.length := by
    rw [← length_unread, ← length_unread, hrest, List.length_append]
  have hroom' : ¬count * width > longer'.remaining := by
    rw [hlength]
    push_cast
    omega
  refine ⟨longer', ?_, hrest⟩
  have hrun' : WireReader.readUint32 longer = .ok (count, longer') := hrun
  simp only [WireReader.readCount, hrun', Bind.bind, Except.bind, if_neg hroom']

/-- A pair of strings. -/
theorem stable_readPair : Stable readPair :=
  stable_readString.bind fun _ => stable_readString.last

/-- Extended pairs behind their count. -/
theorem stable_readExtended (present : Bool) : Stable (readExtended present) := by
  cases present with
  | false => exact Stable.pure []
  | true => exact (stable_readCount _ _).bind fun count => stable_readPair.times count.toNat

/-- The fields that a flags word announces. -/
theorem stable_decodeAttrsFields (flags : ℕ) : Stable (decodeAttrsFields flags) := by
  have howner : Stable readOwner := (stable_readUint 4).bind fun _ => (stable_readUint 4).last
  have htimes : Stable readTimestamps :=
    (stable_readUint 4).bind fun _ => (stable_readUint 4).last
  refine ((stable_readUint 8).optional _).bind fun size => ?_
  refine (howner.optional _).bind fun owner => ?_
  refine ((stable_readUint 4).optional _).bind fun permissions => ?_
  exact (htimes.optional _).bind fun times => (stable_readExtended _).last

/-- An attribute structure. -/
theorem stable_decodeAttrs : Stable decodeAttrs := by
  refine (stable_readUint 4).bind fun word => ?_
  dsimp only
  split_ifs with hunknown
  · exact Stable.refused fun reader => ⟨_, rfl⟩
  · exact stable_decodeAttrsFields _

/-! ## Requests survive their frames -/

/-- How long the body of a request's frame is: the type, the id, the name behind its length, and
the data. -/
def Extended.frameLength (request : Extended) : ℕ :=
  9 + request.name.length + request.data.length

/-- The request that carries a value is written to a frame and read back from it, unless it is
longer than a frame can be. Reading it gives the value, whatever follows its data, and is refused
when any of its data is missing. -/
structure Survives {α : Type} (toExtended : α → Except WriteError Extended)
    (fromExtended : Extended → Except ProtocolError α) (value : α) (request : Extended) :
    Prop where
  built : toExtended value = .ok request
  framed : request.frameLength < 256 ^ 4 → ∃ frame, encode (.extended request) = .ok frame ∧
    fromBigEndian (frame.take 4) = (frame.drop 4).length ∧
    decode (frame.drop 4) = .ok (.extended request)
  unframed : 256 ^ 4 ≤ request.frameLength →
    encode (.extended request) = .error (.overflowError "int too big to convert")
  recovered : fromExtended request = .ok value
  truncated : ∀ data missing, request.data = data ++ missing → missing ≠ [] →
    ∃ error, fromExtended { request with data := data } = .error error
  prolonged : ∀ more, fromExtended { request with data := request.data ++ more } = .ok value

/-- A request in range is written as long as it should be. -/
theorem encodeUnframed_extended {request : Extended} (h : (Packet.extended request).InRange) :
    ∃ writer, encodeUnframed (.extended request) = .ok writer ∧
      writer.getvalue.length = request.frameLength := by
  have htype : FitsUint 1 (Packet.packetType (.extended request)).value :=
    ⟨Int.natCast_nonneg _, by exact_mod_cast PacketType.value_lt _⟩
  have hlength := fitsUint_length h.2
  obtain ⟨writer, hwriter, hvalue⟩ :=
    encodeUnframed_of_appends (appends_writeUint htype.1 htype.2)
      ((appends_writeUint h.1.1 h.1.2).bind
        (((appends_writeUint hlength.1 hlength.2).bind (appends_writeBytes request.name)).bind
          (appends_writeBytes request.data)))
  refine ⟨writer, hwriter, ?_⟩
  simp only [hvalue, List.length_append, toBigEndian_length, Extended.frameLength]
  omega

/-- A request in range is read back from its frame when it fits one. -/
theorem decode_encode_extended {request : Extended} (h : (Packet.extended request).InRange) :
    (request.frameLength < 256 ^ 4 → ∃ frame, encode (.extended request) = .ok frame ∧
      fromBigEndian (frame.take 4) = (frame.drop 4).length ∧
      decode (frame.drop 4) = .ok (.extended request)) ∧
    (256 ^ 4 ≤ request.frameLength →
      encode (.extended request) = .error (.overflowError "int too big to convert")) := by
  obtain ⟨writer, hwriter, hlength⟩ := encodeUnframed_extended h
  constructor
  · intro hfits
    have hframe : (Packet.extended request).FrameFits := by
      intro written hwritten
      rw [hwriter] at hwritten
      rw [← Except.ok.inj hwritten, writer.size_eq]
      exact hlength ▸ hfits
    obtain ⟨frame, _, hencode, -, hprefix, hdecode, -⟩ := decode_encode h trivial hframe
    exact ⟨frame, hencode, hprefix, hdecode⟩
  · intro hlong
    rw [encode_of_writer hwriter, hlength, if_neg (Nat.not_lt.mpr hlong)]

/-- A reader over the data of a request that names the extension. -/
theorem payloadOf_self (requestId : ℤ) (name data : Bytes) :
    ∃ reader, payloadOf ⟨requestId, name, data⟩ name = .ok reader ∧
      Input.unread reader = data :=
  ⟨_, if_neg (not_not_intro rfl), rfl⟩

/-- Reading out of a request is reading its data. -/
theorem ofExtended_eq {α : Type} {name : Bytes} {body : ℤ → Reading α} {request : Extended}
    {reader : WireReader} (h : payloadOf request name = .ok reader) :
    ofExtended name body request = Prod.fst <$> body request.requestId reader := by
  simp only [ofExtended, h, Bind.bind, Except.bind]
  cases body request.requestId reader <;> rfl

/-- An extension whose body round-trips and is read field by field survives its frame. -/
theorem survives_of_roundTrips {α : Type} {name : Bytes} {requestId : ℤ} {write : Writing Unit}
    {body : ℤ → Reading α} {toExtended : α → Except WriteError Extended} {value : α} {width : ℕ}
    (hbuilt : toExtended value = extendedOf requestId name write) (hid : FitsUint 4 requestId)
    (hname : FitsString name) (htrip : RoundTrips width write (body requestId) value)
    (hstable : Stable (body requestId)) :
    ∃ request, Survives toExtended (ofExtended name body) value request := by
  obtain ⟨data, -, happends, hreads⟩ := htrip
  obtain ⟨writer, hrun, hwritten⟩ := happends WireWriter.empty
  have hdata : writer.getvalue = data := hwritten
  obtain ⟨hfits, hlong⟩ := decode_encode_extended
    (show (Packet.extended ⟨requestId, name, data⟩).InRange from ⟨hid, hname⟩)
  have hread (more : Bytes) :
      ofExtended name body ⟨requestId, name, data ++ more⟩ = .ok value := by
    obtain ⟨reader, hreader, hunread⟩ := payloadOf_self requestId name (data ++ more)
    obtain ⟨reader', hvalue, -⟩ := hreads reader more hunread
    rw [ofExtended_eq hreader]
    change Prod.fst <$> body requestId reader = _
    rw [hvalue]
    rfl
  refine ⟨⟨requestId, name, data⟩, ?_, hfits, hlong, ?_, ?_, hread⟩
  · simp only [hbuilt, extendedOf, hrun, Bind.bind, Except.bind, hdata]
    rfl
  · have hwhole := hread []
    rwa [List.append_nil] at hwhole
  · intro front missing hsplit hmissing
    obtain ⟨reader, hreader, hunread⟩ := payloadOf_self requestId name front
    have hwhole : Input.unread (WireReader.ofFrame data none) = data := rfl
    have hinput : data = Input.unread reader ++ missing := by rw [hunread]; exact hsplit
    obtain ⟨error, herror⟩ := hreads.refuses hstable hwhole hinput hmissing
    refine ⟨error, ?_⟩
    rw [ofExtended_eq hreader]
    change Prod.fst <$> body requestId reader = _
    rw [herror]
    rfl

/-- A rename survives its frame. -/
theorem PosixRename.survives {rename : PosixRename} (h : rename.InRange) :
    ∃ request, Survives toExtended fromExtended rename request := by
  have htrip : RoundTrips 8 rename.writeBody (readBody rename.requestId) rename :=
    (roundTrips_string h.2.1).bind (roundTrips_string h.2.2).last
  have hstable : Stable (readBody rename.requestId) :=
    stable_readString.bind fun _ => stable_readString.last
  exact survives_of_roundTrips rfl h.1 fitsString_names.1 htrip hstable

/-- A change of attributes survives its frame. -/
theorem LSetStat.survives {change : LSetStat} (h : change.InRange) :
    ∃ request, Survives toExtended fromExtended change request := by
  have htrip : RoundTrips 8 change.writeBody (readBody change.requestId) change :=
    (roundTrips_string h.2.1).bind (roundTrips_attrs h.2.2).last
  have hstable : Stable (readBody change.requestId) :=
    stable_readString.bind fun _ => stable_decodeAttrs.last
  exact survives_of_roundTrips rfl h.1 fitsString_names.2.1 htrip hstable

/-- A flush survives its frame. -/
theorem Fsync.survives {flush : Fsync} (h : flush.InRange) :
    ∃ request, Survives toExtended fromExtended flush request := by
  have htrip : RoundTrips 4 flush.writeBody (readBody flush.requestId) flush :=
    (roundTrips_string h.2).last
  exact survives_of_roundTrips rfl h.1 fitsString_names.2.2.1 htrip stable_readString.last

/-- A question for hashes survives its frame. -/
theorem CheckFile.survives {check : CheckFile} (h : check.InRange) :
    ∃ request, Survives toExtended fromExtended check request := by
  obtain ⟨hid, hhandle, halgorithms, hstart, hlength, hblock⟩ := h
  have htrip : RoundTrips 28 check.writeBody (readBody check.requestId) check :=
    (roundTrips_string hhandle).bind <| (roundTrips_string halgorithms).bind <|
      (roundTrips_uint64 hstart).bind <| (roundTrips_uint64 hlength).bind
        (roundTrips_uint32 hblock).last
  have hstable : Stable (readBody check.requestId) :=
    stable_readString.bind fun _ => stable_readString.bind fun _ =>
      (stable_readUint 8).bind fun _ => (stable_readUint 8).bind fun _ => (stable_readUint 4).last
  exact survives_of_roundTrips rfl hid fitsString_names.2.2.2 htrip hstable

/-! ## Hashes are split where they were joined -/

/-- Slices of equal width, taken behind one another, are the lists that were joined. -/
theorem map_slices_flatten {size : ℕ} {digests : List Bytes}
    (h : ∀ digest ∈ digests, digest.length = size) (front : Bytes) :
    ((List.range' front.length digests.length size).map fun start =>
      ((front ++ digests.flatten).drop start).take size) = digests := by
  induction digests generalizing front with
  | nil => rfl
  | cons digest digests ih =>
    have hdigest := h digest List.mem_cons_self
    have hrest := ih (fun other hmem => h other (List.mem_cons_of_mem _ hmem)) (front ++ digest)
    rw [List.length_append, hdigest, List.append_assoc] at hrest
    rw [List.length_cons, List.range'_succ, List.map_cons, List.flatten_cons, hrest,
      List.drop_left, ← hdigest, List.take_left]

/-- Hashes of equal width are split again into the list they were joined from. -/
theorem splitDigests_flatten {size : ℕ} (hsize : 0 < size) {digests : List Bytes}
    (h : ∀ digest ∈ digests, digest.length = size) (algorithm : Bytes) :
    splitDigests digests.flatten size algorithm = .ok digests := by
  have hlength : digests.flatten.length = digests.length * size := by
    rw [List.length_flatten, List.map_congr_left h, List.map_const', List.sum_replicate_nat]
  have hcount : (digests.length * size + size - 1) / size = digests.length := by
    rw [Nat.add_sub_assoc hsize, Nat.mul_comm, Nat.mul_add_div hsize,
      Nat.div_eq_of_lt (Nat.sub_lt hsize Nat.one_pos), Nat.add_zero]
  have hpositive : ¬(size : ℤ) < 1 := by omega
  have hslices := map_slices_flatten h []
  rw [List.nil_append, List.length_nil] at hslices
  simp only [splitDigests, if_neg hpositive, Int.toNat_natCast, hlength, Nat.mul_mod_left,
    ne_eq, not_true_eq_false, if_false, hcount, hslices]

/-- A byte string behind its length. -/
def lengthPrefixed (value : Bytes) : Bytes := toBigEndian 4 value.length ++ value

/-- The data of a reply with hashes: the name of the extension, the algorithm, and the hashes
behind one another. -/
def checkFileReplyData (algorithm : Bytes) (digests : List Bytes) : Bytes :=
  lengthPrefixed checkFileName ++ (lengthPrefixed algorithm ++ digests.flatten)

/-- A string behind its length is read. -/
theorem reads_lengthPrefixed {value : Bytes} (h : FitsString value) :
    Reads WireReader.readString (lengthPrefixed value) value :=
  (reads_readUint (fitsUint_length h).1 (fitsUint_length h).2).bind (reads_take value)

/-- A reply with hashes is read back. -/
theorem fromReply_checkFileReplyData (requestId : ℤ) {algorithm : Bytes} (h : FitsString algorithm)
    (digests : List Bytes) :
    CheckFileReply.fromReply ⟨requestId, checkFileReplyData algorithm digests⟩ =
      .ok ⟨requestId, algorithm, digests.flatten⟩ := by
  obtain ⟨first, hfirst, hunread⟩ := reads_lengthPrefixed fitsString_names.2.2.2
    (.ofFrame (checkFileReplyData algorithm digests) none) _ rfl
  obtain ⟨second, hsecond, hunread'⟩ := reads_lengthPrefixed h first _ hunread
  have hall : Reads (WireReader.take second.remaining) digests.flatten digests.flatten := by
    rw [← length_unread, hunread']
    exact reads_take _
  obtain ⟨third, hthird, -⟩ := hall second [] (by rw [hunread', List.append_nil])
  simp only [CheckFileReply.fromReply, hfirst, hsecond, ne_eq, not_true_eq_false, if_false,
    WireReader.readRemaining, hthird, Bind.bind, Except.bind]
  rfl

/-- Every value of an extension survives its frame, and a reply with any hashes of equal width is
split into them. -/
theorem extensions_survive :
    (∀ rename : PosixRename, rename.InRange →
      ∃ request, Survives PosixRename.toExtended PosixRename.fromExtended rename request) ∧
    (∀ change : LSetStat, change.InRange →
      ∃ request, Survives LSetStat.toExtended LSetStat.fromExtended change request) ∧
    (∀ flush : Fsync, flush.InRange →
      ∃ request, Survives Fsync.toExtended Fsync.fromExtended flush request) ∧
    (∀ check : CheckFile, check.InRange →
      ∃ request, Survives CheckFile.toExtended CheckFile.fromExtended check request) ∧
    (∀ (requestId : ℤ) (algorithm : Bytes) (size : ℕ) (digests : List Bytes),
      FitsString algorithm → 0 < size → (∀ digest ∈ digests, digest.length = size) →
      ∃ reply, CheckFileReply.fromReply ⟨requestId, checkFileReplyData algorithm digests⟩ =
          .ok reply ∧
        reply.requestId = requestId ∧ reply.algorithm = algorithm ∧
        reply.split size = .ok digests) := by
  refine ⟨fun _ h => PosixRename.survives h, fun _ h => LSetStat.survives h,
    fun _ h => Fsync.survives h, fun _ h => CheckFile.survives h, ?_⟩
  intro requestId algorithm size digests halgorithm hsize hdigests
  exact ⟨_, fromReply_checkFileReplyData requestId halgorithm digests, rfl, rfl,
    splitDigests_flatten hsize hdigests algorithm⟩

/-- The times of a link, and an extended attribute. -/
def linkTimes : Attrs := { times := some ⟨5, 6⟩, extended := [([118], [1, 2])] }

/-- Those attributes are in range. -/
theorem linkTimes_inRange : linkTimes.InRange where
  size := nofun
  owner := nofun
  permissions := nofun
  times := by
    intro times hmem
    obtain rfl : ⟨5, 6⟩ = times := Option.some.inj hmem
    decide
  extended_length := by decide
  extended := by
    intro pair hmem
    obtain rfl := List.mem_singleton.mp hmem
    decide

/-- A change of a link's times survives its frame, and two hashes of two bytes are split. -/
theorem extensions_survive_change :
    (∃ request, Survives LSetStat.toExtended LSetStat.fromExtended ⟨7, [97], linkTimes⟩ request) ∧
      ∃ reply, CheckFileReply.fromReply ⟨7, checkFileReplyData [109] [[1, 2], [3, 4]]⟩ = .ok reply ∧
        reply.requestId = 7 ∧ reply.algorithm = [109] ∧ reply.split 2 = .ok [[1, 2], [3, 4]] :=
  ⟨extensions_survive.2.1 ⟨7, [97], linkTimes⟩ ⟨by decide, by decide, linkTimes_inRange⟩,
    extensions_survive.2.2.2.2 7 [109] 2 [[1, 2], [3, 4]] (by decide) (by decide) (by decide)⟩

end GantrySftp
