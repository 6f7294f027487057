import GantrySftp.Codec.Packets
import Mathlib

/-!
# Decoding undoes encoding

Each packet's body is read back field by field. The two packets that can carry a number version
3 does not name round-trip in their canonical form, and the lists that only the end of the frame
terminates round-trip because the frame ends exactly there.
-/

namespace GantrySftp

open Library

/-! ## Packets the format can hold -/

/-- A list of string pairs each of which the format can hold. -/
def FitsPairs (pairs : List (Bytes × Bytes)) : Prop :=
  ∀ pair ∈ pairs, FitsString pair.1 ∧ FitsString pair.2

/-- A version that fits and extension strings that fit. -/
def Hello.InRange (packet : Hello) : Prop :=
  FitsUint 4 packet.version ∧ FitsPairs packet.extensions

/-- An id and a path that fit. -/
def PathRequest.InRange (packet : PathRequest) : Prop :=
  FitsUint 4 packet.requestId ∧ FitsString packet.path

/-- An id and a handle that fit. -/
def HandleRequest.InRange (packet : HandleRequest) : Prop :=
  FitsUint 4 packet.requestId ∧ FitsString packet.handle

/-- An id, a path and attributes that fit. -/
def PathAttrsRequest.InRange (packet : PathAttrsRequest) : Prop :=
  FitsUint 4 packet.requestId ∧ FitsString packet.path ∧ packet.attrs.InRange

/-- An entry whose names and attributes fit. -/
def NameEntry.InRange (entry : NameEntry) : Prop :=
  FitsString entry.filename ∧ FitsString entry.longname ∧ entry.attrs.InRange

/-- Every field of the packet fits the field of the format that carries it. -/
def Packet.InRange : Packet → Prop
  | init packet => packet.InRange
  | version packet => packet.InRange
  | open_ packet => FitsUint 4 packet.requestId ∧ FitsString packet.filename ∧
      (∀ raw ∈ packet.rawPflags, FitsUint 4 raw) ∧ packet.attrs.InRange
  | close packet => packet.InRange
  | read packet => FitsUint 4 packet.requestId ∧ FitsString packet.handle ∧
      FitsUint 8 packet.offset ∧ FitsUint 4 packet.length
  | write packet => FitsUint 4 packet.requestId ∧ FitsString packet.handle ∧
      FitsUint 8 packet.offset ∧ FitsString packet.data
  | lstat packet => packet.InRange
  | fstat packet => packet.InRange
  | setstat packet => packet.InRange
  | fsetstat packet => FitsUint 4 packet.requestId ∧ FitsString packet.handle ∧
      packet.attrs.InRange
  | opendir packet => packet.InRange
  | readdir packet => packet.InRange
  | remove packet => packet.InRange
  | mkdir packet => packet.InRange
  | rmdir packet => packet.InRange
  | realpath packet => packet.InRange
  | stat packet => packet.InRange
  | rename packet => FitsUint 4 packet.requestId ∧ FitsString packet.oldpath ∧
      FitsString packet.newpath
  | readlink packet => packet.InRange
  | symlink packet => FitsUint 4 packet.requestId ∧ FitsString packet.targetpath ∧
      FitsString packet.linkpath
  | extended packet => FitsUint 4 packet.requestId ∧ FitsString packet.name
  | status packet => FitsUint 4 packet.requestId ∧ (∀ raw ∈ packet.rawCode, FitsUint 4 raw) ∧
      FitsString packet.message ∧ FitsString packet.language
  | handle packet => packet.InRange
  | data packet => FitsUint 4 packet.requestId ∧ FitsString packet.data
  | name packet => FitsUint 4 packet.requestId ∧ packet.entries.length < 256 ^ 4 ∧
      ∀ entry ∈ packet.entries, entry.InRange
  | attrs packet => FitsUint 4 packet.requestId ∧ packet.attrs.InRange
  | extendedReply packet => FitsUint 4 packet.requestId

/-- An open request keeps a raw value only when it sets undefined bits, and `pflags` holds its
defined ones. -/
def Open.Canonical (packet : Open) : Prop :=
  ∀ raw ∈ packet.rawPflags,
    andNot raw.toNat definedPflags ≠ 0 ∧ OpenFlag.mask raw.toNat = packet.pflags

/-- A status keeps a raw code only when version 3 does not name it, and then reports a failure. -/
def Status.Canonical (packet : Status) : Prop :=
  ∀ raw ∈ packet.rawCode, packet.code = .failure ∧ StatusCode.ofValue raw = none

/-- The packet is what decoding its own frame would build, as far as raw numbers go. -/
def Packet.Canonical : Packet → Prop
  | open_ packet => packet.Canonical
  | status packet => packet.Canonical
  | _ => True

/-- The packet's type byte and body are no longer than a length prefix can describe. -/
def Packet.FrameFits (packet : Packet) : Prop :=
  ∀ writer, encodeUnframed packet = .ok writer → writer.size < 256 ^ 4

/-! ## The parts with a branch -/

/-- The flags of a canonical open request are split back out of the number it writes. -/
theorem splitPflags_openWirePflags {packet : Open} (hcanonical : packet.Canonical) :
    splitPflags (openWirePflags packet.pflags packet.rawPflags) =
      (packet.pflags, packet.rawPflags) := by
  cases hraw : packet.rawPflags with
  | none =>
    have hoverflow : andNot packet.pflags.bits definedPflags = 0 := by
      rw [andNot, packet.pflags.defined, Nat.xor_self]
    simp [openWirePflags, splitPflags, OpenFlag.mask_bits, hoverflow]
  | some raw =>
    obtain ⟨hundefined, hmask⟩ := hcanonical raw hraw
    simp [openWirePflags, splitPflags, hundefined, hmask]

/-- The number an open request in range writes for its flags fits its field. -/
theorem fitsUint_openWirePflags {packet : Open} (hrange : ∀ raw ∈ packet.rawPflags, FitsUint 4 raw) :
    FitsUint 4 (openWirePflags packet.pflags packet.rawPflags) := by
  cases hraw : packet.rawPflags with
  | none => exact fitsUint_length packet.pflags.bits_lt
  | some raw => exact hrange raw hraw

/-- The code of a canonical status is recovered from the number it writes. -/
theorem statusCodeOf_statusWireCode {packet : Status} (hcanonical : packet.Canonical) :
    statusCodeOf (statusWireCode packet.code packet.rawCode) =
      (packet.code, packet.rawCode) := by
  cases hraw : packet.rawCode with
  | none => simp [statusWireCode, statusCodeOf, StatusCode.ofValue_value]
  | some raw =>
    obtain ⟨hcode, hunnamed⟩ := hcanonical raw hraw
    simp [statusWireCode, statusCodeOf, hunnamed, hcode]

/-- The number a status in range writes for its code fits its field. -/
theorem fitsUint_statusWireCode {packet : Status} (hrange : ∀ raw ∈ packet.rawCode, FitsUint 4 raw) :
    FitsUint 4 (statusWireCode packet.code packet.rawCode) := by
  cases hraw : packet.rawCode with
  | none => exact fitsUint_length packet.code.value_lt
  | some raw => exact hrange raw hraw

/-- A reader with a byte ahead of it is not at the end. -/
theorem atEnd_eq_false {reader : WireReader} {bytes rest : Bytes}
    (hunread : Input.unread reader = bytes ++ rest) (hne : 0 < bytes.length) :
    reader.atEnd = false := by
  rw [Bool.eq_false_iff, Ne, atEnd_iff, hunread]
  intro hempty
  have hnil := List.append_eq_nil_iff.mp hempty
  rw [hnil.1] at hne
  exact Nat.lt_irrefl 0 hne

/-- A string of the tail that is there is read back. -/
theorem roundTrips_tail {value : Bytes} (hfits : FitsString value) :
    RoundTrips 4 (WireWriter.writeString value) readStatusTail value := by
  obtain ⟨bytes, hwidth, happends, hreads⟩ := roundTrips_string hfits
  refine ⟨bytes, hwidth, happends, ?_⟩
  intro reader rest hunread
  rw [readStatusTail, atEnd_eq_false hunread (by omega)]
  exact hreads reader rest hunread

/-- Pairs up to the end of the frame are read back whenever there are turns enough for them. -/
theorem reads_pairsUntilEnd {pairs : List (Bytes × Bytes)} (hpairs : FitsPairs pairs) :
    ∃ bytes, Appends (pairs.forM writePair) bytes ∧
      ∀ turns, bytes.length ≤ turns → ReadsToEnd (readPairsUntilEnd turns) bytes pairs := by
  induction pairs with
  | nil =>
    refine ⟨[], Appends.pure, ?_⟩
    intro turns _ reader hunread
    have hend : reader.atEnd = true := (atEnd_iff reader).mpr hunread
    cases turns with
    | zero => exact ⟨reader, rfl, hunread⟩
    | succ turns =>
      refine ⟨reader, ?_, hunread⟩
      change (if reader.atEnd then _ else _) = _
      rw [hend, if_pos rfl]
  | cons pair pairs ih =>
    obtain ⟨back, hback, hreads⟩ := ih fun other hmem => hpairs other (List.mem_cons_of_mem _ hmem)
    obtain ⟨hfirst, hsecond⟩ := hpairs pair List.mem_cons_self
    obtain ⟨front, hwidth, hfront, hread⟩ := roundTrips_pair hfirst hsecond
    have hpositive : 0 < front.length := Nat.lt_of_lt_of_le (by decide) hwidth
    refine ⟨front ++ back, hfront.bind hback, ?_⟩
    intro turns hturns reader hunread
    rw [List.length_append] at hturns
    obtain ⟨turns, rfl⟩ : ∃ n, turns = n + 1 := ⟨turns - 1, by omega⟩
    have hrest : ReadsToEnd (readPairsUntilEnd turns) back pairs := hreads turns (by omega)
    have hall : ReadsToEnd (readPair >>= fun pair => readPairsUntilEnd turns >>= fun pairs =>
        pure (pair :: pairs)) (front ++ back) (pair :: pairs) := hread.bindToEnd hrest.last
    obtain ⟨reader', hrun, hend⟩ := hall reader hunread
    refine ⟨reader', ?_, hend⟩
    change (if reader.atEnd then _ else _) = _
    rw [atEnd_eq_false hunread hpositive]
    exact hrun

/-- The extension pairs of a hello round-trip at the end of their frame. -/
theorem roundTripsToEnd_extensionPairs {pairs : List (Bytes × Bytes)} (hpairs : FitsPairs pairs) :
    RoundTripsToEnd (pairs.forM writePair) decodeExtensionPairs pairs := by
  obtain ⟨bytes, happends, hreads⟩ := reads_pairsUntilEnd hpairs
  refine ⟨bytes, happends, ?_⟩
  intro reader hunread
  have hlength : bytes.length ≤ reader.remaining := by rw [← length_unread, hunread]
  exact hreads reader.remaining hlength reader hunread

/-- A name entry round-trips, in at least the minimum width the reader assumes. -/
theorem roundTrips_nameEntry {entry : NameEntry} (hrange : entry.InRange) :
    RoundTrips minNameEntryLength (writeNameEntry entry) readNameEntry entry :=
  (roundTrips_string hrange.1).bind <| (roundTrips_string hrange.2.1).bind
    (roundTrips_attrs hrange.2.2).last

/-- The entries of a name reply round-trip behind their count. -/
theorem roundTrips_nameEntries {entries : List NameEntry} (hlength : entries.length < 256 ^ 4)
    (hentries : ∀ entry ∈ entries, entry.InRange) :
    RoundTrips 4
      (WireWriter.writeUint32 entries.length >>= fun _ => entries.forM writeNameEntry)
      readNameEntries entries :=
  roundTrips_counted (by decide) "NAME entry" hlength fun entry hmem =>
    roundTrips_nameEntry (hentries entry hmem)

/-! ## Bodies -/

/-- A hello round-trips. -/
theorem Hello.roundTrips {packet : Hello} (hrange : packet.InRange) :
    RoundTripsToEnd packet.encodeBody Hello.decodeBody packet :=
  (roundTrips_uint32 hrange.1).bindToEnd (roundTripsToEnd_extensionPairs hrange.2).last

/-- A request carrying a path round-trips. -/
theorem PathRequest.roundTrips {packet : PathRequest} (hrange : packet.InRange) :
    RoundTripsToEnd packet.encodeBody PathRequest.decodeBody packet :=
  (roundTrips_requestId hrange.1).bindToEnd (roundTrips_string hrange.2).last.toEnd

/-- A request carrying a handle round-trips. -/
theorem HandleRequest.roundTrips {packet : HandleRequest} (hrange : packet.InRange) :
    RoundTripsToEnd packet.encodeBody HandleRequest.decodeBody packet :=
  (roundTrips_requestId hrange.1).bindToEnd (roundTrips_string hrange.2).last.toEnd

/-- A request carrying a path and attributes round-trips. -/
theorem PathAttrsRequest.roundTrips {packet : PathAttrsRequest} (hrange : packet.InRange) :
    RoundTripsToEnd packet.encodeBody PathAttrsRequest.decodeBody packet :=
  (roundTrips_requestId hrange.1).bindToEnd <| (roundTrips_string hrange.2.1).bindToEnd
    (roundTrips_attrs hrange.2.2).last.toEnd

/-- A canonical open request round-trips. -/
theorem Open.roundTrips {packet : Open} (hrange : (Packet.open_ packet).InRange)
    (hcanonical : packet.Canonical) :
    RoundTripsToEnd packet.encodeBody Open.decodeBody packet := by
  obtain ⟨hid, hfilename, hraw, hattrs⟩ := hrange
  refine (roundTrips_requestId hid).bindToEnd ?_
  refine (roundTrips_string hfilename).bindToEnd ?_
  refine (roundTrips_uint32 (fitsUint_openWirePflags hraw)).bindToEnd ?_
  rw [splitPflags_openWirePflags hcanonical]
  exact (roundTrips_attrs hattrs).last.toEnd

/-- A read request round-trips. -/
theorem Read.roundTrips {packet : Read} (hrange : (Packet.read packet).InRange) :
    RoundTripsToEnd packet.encodeBody Read.decodeBody packet :=
  (roundTrips_requestId hrange.1).bindToEnd <| (roundTrips_string hrange.2.1).bindToEnd <|
    (roundTrips_uint64 hrange.2.2.1).bindToEnd (roundTrips_uint32 hrange.2.2.2).last.toEnd

/-- A write request round-trips. -/
theorem Write.roundTrips {packet : Write} (hrange : (Packet.write packet).InRange) :
    RoundTripsToEnd packet.encodeBody Write.decodeBody packet :=
  (roundTrips_requestId hrange.1).bindToEnd <| (roundTrips_string hrange.2.1).bindToEnd <|
    (roundTrips_uint64 hrange.2.2.1).bindToEnd (roundTrips_string hrange.2.2.2).last.toEnd

/-- A request to set attributes on a handle round-trips. -/
theorem FSetStat.roundTrips {packet : FSetStat} (hrange : (Packet.fsetstat packet).InRange) :
    RoundTripsToEnd packet.encodeBody FSetStat.decodeBody packet :=
  (roundTrips_requestId hrange.1).bindToEnd <| (roundTrips_string hrange.2.1).bindToEnd
    (roundTrips_attrs hrange.2.2).last.toEnd

/-- A rename request round-trips. -/
theorem Rename.roundTrips {packet : Rename} (hrange : (Packet.rename packet).InRange) :
    RoundTripsToEnd packet.encodeBody Rename.decodeBody packet :=
  (roundTrips_requestId hrange.1).bindToEnd <| (roundTrips_string hrange.2.1).bindToEnd
    (roundTrips_string hrange.2.2).last.toEnd

/-- A link request round-trips, target first in both directions. -/
theorem SymLink.roundTrips {packet : SymLink} (hrange : (Packet.symlink packet).InRange) :
    RoundTripsToEnd packet.encodeBody SymLink.decodeBody packet :=
  (roundTrips_requestId hrange.1).bindToEnd <| (roundTrips_string hrange.2.1).bindToEnd
    (roundTrips_string hrange.2.2).last.toEnd

/-- An extension request round-trips, its data running to the end of the frame. -/
theorem Extended.roundTrips {packet : Extended} (hrange : (Packet.extended packet).InRange) :
    RoundTripsToEnd packet.encodeBody Extended.decodeBody packet :=
  (roundTrips_requestId hrange.1).bindToEnd <| (roundTrips_string hrange.2).bindToEnd
    (roundTripsToEnd_bytes packet.data).last

/-- A canonical status round-trips, with its whole tail. -/
theorem Status.roundTrips {packet : Status} (hrange : (Packet.status packet).InRange)
    (hcanonical : packet.Canonical) :
    RoundTripsToEnd packet.encodeBody Status.decodeBody packet := by
  obtain ⟨hid, hraw, hmessage, hlanguage⟩ := hrange
  refine (roundTrips_requestId hid).bindToEnd ?_
  refine (roundTrips_uint32 (fitsUint_statusWireCode hraw)).bindToEnd ?_
  rw [statusCodeOf_statusWireCode hcanonical]
  exact (roundTrips_tail hmessage).bindToEnd (roundTrips_tail hlanguage).last.toEnd

/-- A payload round-trips. -/
theorem Data.roundTrips {packet : Data} (hrange : (Packet.data packet).InRange) :
    RoundTripsToEnd packet.encodeBody Data.decodeBody packet :=
  (roundTrips_requestId hrange.1).bindToEnd (roundTrips_string hrange.2).last.toEnd

/-- A name reply round-trips, for any number of entries. -/
theorem Name.roundTrips {packet : Name} (hrange : (Packet.name packet).InRange) :
    RoundTripsToEnd packet.encodeBody Name.decodeBody packet :=
  (roundTrips_requestId hrange.1).bindToEnd
    (roundTrips_nameEntries hrange.2.1 hrange.2.2).last.toEnd

/-- An attributes reply round-trips. -/
theorem AttrsReply.roundTrips {packet : AttrsReply} (hrange : (Packet.attrs packet).InRange) :
    RoundTripsToEnd packet.encodeBody AttrsReply.decodeBody packet :=
  (roundTrips_requestId hrange.1).bindToEnd (roundTrips_attrs hrange.2).last.toEnd

/-- An extension's reply round-trips. -/
theorem ExtendedReply.roundTrips {packet : ExtendedReply}
    (hrange : (Packet.extendedReply packet).InRange) :
    RoundTripsToEnd packet.encodeBody ExtendedReply.decodeBody packet :=
  (roundTrips_requestId hrange).bindToEnd (roundTripsToEnd_bytes packet.data).last

/-- Every canonical packet in range has a body that its type's decoder reads back. -/
theorem Packet.roundTrips {packet : Packet} (hrange : packet.InRange)
    (hcanonical : packet.Canonical) :
    RoundTripsToEnd packet.encodeBody (decodeBody packet.packetType) packet := by
  cases packet with
  | init packet | version packet => exact (Hello.roundTrips hrange).last
  | open_ packet => exact (Open.roundTrips hrange hcanonical).last
  | close packet | fstat packet | readdir packet | handle packet =>
    exact (HandleRequest.roundTrips hrange).last
  | lstat packet | opendir packet | remove packet | rmdir packet | realpath packet | stat packet
  | readlink packet => exact (PathRequest.roundTrips hrange).last
  | setstat packet | mkdir packet => exact (PathAttrsRequest.roundTrips hrange).last
  | read packet => exact (Read.roundTrips hrange).last
  | write packet => exact (Write.roundTrips hrange).last
  | fsetstat packet => exact (FSetStat.roundTrips hrange).last
  | rename packet => exact (Rename.roundTrips hrange).last
  | symlink packet => exact (SymLink.roundTrips hrange).last
  | extended packet => exact (Extended.roundTrips hrange).last
  | status packet => exact (Status.roundTrips hrange hcanonical).last
  | data packet => exact (Data.roundTrips hrange).last
  | name packet => exact (Name.roundTrips hrange).last
  | attrs packet => exact (AttrsReply.roundTrips hrange).last
  | extendedReply packet => exact (ExtendedReply.roundTrips hrange).last

/-! ## Frames -/

/-- Reading the type byte of a frame body leaves the packet's own body. -/
private theorem readUint8_typeByte (packetType : PacketType) (body : Bytes)
    (known : Option ℤ) :
    ∃ reader, WireReader.readUint8
        (.ofFrame (toBigEndian 1 (packetType.value : ℤ).toNat ++ body) known) =
          .ok ((packetType.value : ℤ), reader) ∧
      Input.unread reader = body := by
  have hfits : FitsUint 1 (packetType.value : ℤ) :=
    ⟨Int.natCast_nonneg _, by exact_mod_cast packetType.value_lt⟩
  exact reads_readUint hfits.1 hfits.2 _ body rfl

/-- A body that its type's decoder reads to the end is a frame body that decodes. -/
theorem decodeConsuming_eq {packet : Packet} {body : Bytes}
    (hbody : ReadsToEnd (decodeBody packet.packetType) body packet) :
    ∃ reader, decodeConsuming (toBigEndian 1 (packet.packetType.value : ℤ).toNat ++ body) =
      .ok (packet, reader) ∧ reader.remaining = 0 := by
  obtain ⟨first, hfirst, -⟩ := readUint8_typeByte packet.packetType body none
  obtain ⟨second, hsecond, hunread⟩ :=
    readUint8_typeByte packet.packetType body (some packet.packetType.value)
  obtain ⟨reader, hdecode, hend⟩ := hbody second hunread
  have hatEnd : reader.atEnd = true := (atEnd_iff reader).mpr hend
  refine ⟨reader, ?_, ?_⟩
  · simp only [decodeConsuming, hfirst, Bind.bind, Except.bind, PacketType.ofValue_value, hsecond,
      hdecode, hatEnd, if_true]
    rfl
  · rw [← length_unread, hend, List.length_nil]

/-- A canonical packet in range is written as its type byte and a body that decodes back. -/
theorem encodeUnframed_eq {packet : Packet} (hrange : packet.InRange)
    (hcanonical : packet.Canonical) :
    ∃ writer reader, encodeUnframed packet = .ok writer ∧
      decodeConsuming writer.getvalue = .ok (packet, reader) ∧ reader.remaining = 0 := by
  have htype : FitsUint 1 (packet.packetType.value : ℤ) :=
    ⟨Int.natCast_nonneg _, by exact_mod_cast packet.packetType.value_lt⟩
  obtain ⟨body, hbody, hdecode⟩ := Packet.roundTrips hrange hcanonical
  obtain ⟨writer, hrun, hwritten⟩ :=
    (appends_writeUint htype.1 htype.2).bind hbody WireWriter.empty
  obtain ⟨reader, hframe, hremaining⟩ := decodeConsuming_eq hdecode
  refine ⟨writer, reader, ?_, ?_, hremaining⟩
  · change Prod.snd <$> _ = _
    rw [WireWriter.writeUint8, hrun]
    rfl
  · rw [← hframe]
    exact congrArg decodeConsuming hwritten

/-- Decoding undoes encoding: the frame of a canonical packet in range is its body behind the
body's length, and the body decodes to the packet with every byte consumed. -/
theorem decode_encode {packet : Packet} (hrange : packet.InRange)
    (hcanonical : packet.Canonical) (hfits : packet.FrameFits) :
    ∃ frame reader, encode packet = .ok frame ∧
      4 ≤ frame.length ∧
      fromBigEndian (frame.take 4) = (frame.drop 4).length ∧
      decode (frame.drop 4) = .ok packet ∧
      decodeConsuming (frame.drop 4) = .ok (packet, reader) ∧ reader.remaining = 0 := by
  obtain ⟨writer, reader, hwriter, hdecode, hremaining⟩ := encodeUnframed_eq hrange hcanonical
  have hsize : writer.size < 256 ^ 4 := hfits writer hwriter
  have htake : (toBigEndian 4 writer.size ++ writer.getvalue).take 4 = toBigEndian 4 writer.size :=
    List.take_left' (toBigEndian_length 4 _)
  have hdrop : (toBigEndian 4 writer.size ++ writer.getvalue).drop 4 = writer.getvalue :=
    List.drop_left' (toBigEndian_length 4 _)
  refine ⟨toBigEndian 4 writer.size ++ writer.getvalue, reader, ?_, ?_, ?_, ?_, ?_, hremaining⟩
  · simp only [encode, hwriter, Bind.bind, Except.bind, WireWriter.frame, hsize, if_true]
  · rw [List.length_append, toBigEndian_length]
    omega
  · rw [htake, hdrop, fromBigEndian_toBigEndian hsize]
    exact writer.size_eq
  · rw [hdrop, decode, hdecode]
    rfl
  · rw [hdrop, hdecode]

/-- A name reply with one entry that carries a size and a vendor pair. -/
def sampleName : Packet :=
  .name ⟨7, [⟨[97], [97, 98], ⟨some 5, none, none, none, [([120], [])]⟩⟩]⟩

/-- A name reply is read back from its frame. -/
theorem decode_encode_sampleName :
    ∃ frame reader, encode sampleName = .ok frame ∧
      4 ≤ frame.length ∧
      fromBigEndian (frame.take 4) = (frame.drop 4).length ∧
      decode (frame.drop 4) = .ok sampleName ∧
      decodeConsuming (frame.drop 4) = .ok (sampleName, reader) ∧ reader.remaining = 0 := by
  refine decode_encode ?_ trivial ?_
  · simp only [sampleName, Packet.InRange, NameEntry.InRange, FitsUint, FitsString]
    simp
    constructor <;> simp [FitsUint, FitsString]
  · intro writer hwriter
    have hsize : writer.size = 45 := by
      simp [encodeUnframed, sampleName, Packet.encodeBody, Name.encodeBody, writeNameEntry,
        WireWriter.writeUint8, WireWriter.writeUint32, WireWriter.writeUint64,
        WireWriter.writeUint, WireWriter.writeString, WireWriter.writeBytes, encodeAttrs,
        writeOptional, writeExtended, writePair, Bind.bind, StateT.bind, Except.bind,
        Attrs.flags, flagsWord, AttrFlag.bitIf, AttrFlag.value, WireWriter.empty, Functor.map,
        Except.map, Pure.pure, StateT.pure, Except.pure, PacketType.value,
        Packet.packetType] at hwriter
      rw [← hwriter]
    rw [hsize]
    decide

end GantrySftp
