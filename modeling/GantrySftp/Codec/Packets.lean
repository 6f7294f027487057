import GantrySftp.Codec.Attrs

/-!
# The 27 packets of the format

Every packet carries exactly the fields on the wire. Request bodies of one shape share their
encoder and decoder; the packet type is the only thing that differs between them. A frame is a
length prefix, a type byte and the body the type selects.
-/

namespace GantrySftp

open Library

/-! ## Shared body shapes -/

/-- A request carrying a single path. -/
structure PathRequest where
  requestId : ℤ
  path : Bytes
  deriving DecidableEq

/-- A request carrying a single open handle. -/
structure HandleRequest where
  requestId : ℤ
  handle : Bytes
  deriving DecidableEq

/-- A request carrying a path and an attribute set. -/
structure PathAttrsRequest where
  requestId : ℤ
  path : Bytes
  attrs : Attrs := emptyAttrs
  deriving DecidableEq

/-- A hello: a version and the extensions that come with it, and no request id. -/
structure Hello where
  version : ℤ := protocolVersion
  extensions : List (Bytes × Bytes) := []
  deriving DecidableEq

open WireWriter in
/-- Write a request carrying a single path. -/
def PathRequest.encodeBody (packet : PathRequest) : Writing Unit := do
  writeUint32 packet.requestId
  writeString packet.path

open WireReader in
/-- Read a request carrying a single path. -/
def PathRequest.decodeBody : Reading PathRequest := do
  let requestId ← readRequestId
  let path ← readString
  pure { requestId := requestId, path := path }

open WireWriter in
/-- Write a request carrying a single open handle. -/
def HandleRequest.encodeBody (packet : HandleRequest) : Writing Unit := do
  writeUint32 packet.requestId
  writeString packet.handle

open WireReader in
/-- Read a request carrying a single open handle. -/
def HandleRequest.decodeBody : Reading HandleRequest := do
  let requestId ← readRequestId
  let handle ← readString
  pure { requestId := requestId, handle := handle }

open WireWriter in
/-- Write a request carrying a path and an attribute set. -/
def PathAttrsRequest.encodeBody (packet : PathAttrsRequest) : Writing Unit := do
  writeUint32 packet.requestId
  writeString packet.path
  encodeAttrs packet.attrs

open WireReader in
/-- Read a request carrying a path and an attribute set. -/
def PathAttrsRequest.decodeBody : Reading PathAttrsRequest := do
  let requestId ← readRequestId
  let path ← readString
  let attrs ← decodeAttrs
  pure { requestId := requestId, path := path, attrs := attrs }

open WireWriter in
/-- Write a version and its extensions. -/
def Hello.encodeBody (packet : Hello) : Writing Unit := do
  writeUint32 packet.version
  packet.extensions.forM writePair

/-- Read pairs until the frame runs out. A pair takes bytes, so as many turns as bytes suffice. -/
def readPairsUntilEnd : ℕ → Reading (List (Bytes × Bytes))
  | 0 => pure []
  | turns + 1 => fun reader =>
    if reader.atEnd then .ok ([], reader) else
      (do
        let pair ← readPair
        let pairs ← readPairsUntilEnd turns
        pure (pair :: pairs) : Reading _) reader

/-- Read the extension pairs of a hello. Only the end of the frame terminates the list. -/
def decodeExtensionPairs : Reading (List (Bytes × Bytes)) := fun reader =>
  readPairsUntilEnd reader.remaining reader

open WireReader in
/-- Read a version and its extensions. -/
def Hello.decodeBody : Reading Hello := do
  let version ← readUint32
  let extensions ← decodeExtensionPairs
  pure { version := version, extensions := extensions }

/-! ## Requests with a layout of their own -/

/-- Open a file. A wire value that sets undefined bits is kept whole in `rawPflags`. -/
structure Open where
  requestId : ℤ
  filename : Bytes
  pflags : OpenFlag
  attrs : Attrs := emptyAttrs
  rawPflags : Option ℤ := none
  deriving DecidableEq

/-- Split a wire value into the bits version 3 names and, when there are others, itself. -/
def splitPflags (wire : ℤ) : OpenFlag × Option ℤ :=
  (OpenFlag.mask wire.toNat, if andNot wire.toNat definedPflags ≠ 0 then some wire else none)

/-- The number an open request writes for its flags. -/
def openWirePflags (pflags : OpenFlag) : Option ℤ → ℤ
  | none => pflags.bits
  | some rawPflags => rawPflags

open WireWriter in
/-- Write an open request. -/
def Open.encodeBody (packet : Open) : Writing Unit := do
  writeUint32 packet.requestId
  writeString packet.filename
  writeUint32 (openWirePflags packet.pflags packet.rawPflags)
  encodeAttrs packet.attrs

open WireReader in
/-- Read an open request. -/
def Open.decodeBody : Reading Open := do
  let requestId ← readRequestId
  let filename ← readString
  let wire ← readUint32
  let attrs ← decodeAttrs
  pure
    { requestId := requestId
      filename := filename
      pflags := (splitPflags wire).1
      attrs := attrs
      rawPflags := (splitPflags wire).2 }

/-- Read `length` bytes at an explicit offset. -/
structure Read where
  requestId : ℤ
  handle : Bytes
  offset : ℤ
  length : ℤ
  deriving DecidableEq

open WireWriter in
/-- Write a read request. -/
def Read.encodeBody (packet : Read) : Writing Unit := do
  writeUint32 packet.requestId
  writeString packet.handle
  writeUint64 packet.offset
  writeUint32 packet.length

open WireReader in
/-- Read a read request. -/
def Read.decodeBody : Reading Read := do
  let requestId ← readRequestId
  let handle ← readString
  let offset ← readUint64
  let length ← readUint32
  pure { requestId := requestId, handle := handle, offset := offset, length := length }

/-- Write `data` at an explicit offset. -/
structure Write where
  requestId : ℤ
  handle : Bytes
  offset : ℤ
  data : Bytes
  deriving DecidableEq

open WireWriter in
/-- Write a write request. -/
def Write.encodeBody (packet : Write) : Writing Unit := do
  writeUint32 packet.requestId
  writeString packet.handle
  writeUint64 packet.offset
  writeString packet.data

open WireReader in
/-- Read a write request. -/
def Write.decodeBody : Reading Write := do
  let requestId ← readRequestId
  let handle ← readString
  let offset ← readUint64
  let data ← readString
  pure { requestId := requestId, handle := handle, offset := offset, data := data }

/-- Set attributes on an open handle. -/
structure FSetStat where
  requestId : ℤ
  handle : Bytes
  attrs : Attrs := emptyAttrs
  deriving DecidableEq

open WireWriter in
/-- Write a request to set attributes on an open handle. -/
def FSetStat.encodeBody (packet : FSetStat) : Writing Unit := do
  writeUint32 packet.requestId
  writeString packet.handle
  encodeAttrs packet.attrs

open WireReader in
/-- Read a request to set attributes on an open handle. -/
def FSetStat.decodeBody : Reading FSetStat := do
  let requestId ← readRequestId
  let handle ← readString
  let attrs ← decodeAttrs
  pure { requestId := requestId, handle := handle, attrs := attrs }

/-- Rename `oldpath` to `newpath`. -/
structure Rename where
  requestId : ℤ
  oldpath : Bytes
  newpath : Bytes
  deriving DecidableEq

open WireWriter in
/-- Write a rename request. -/
def Rename.encodeBody (packet : Rename) : Writing Unit := do
  writeUint32 packet.requestId
  writeString packet.oldpath
  writeString packet.newpath

open WireReader in
/-- Read a rename request. -/
def Rename.decodeBody : Reading Rename := do
  let requestId ← readRequestId
  let oldpath ← readString
  let newpath ← readString
  pure { requestId := requestId, oldpath := oldpath, newpath := newpath }

/-- Create a link at `linkpath` pointing to `targetpath`. On the wire the target comes first,
the reverse of the draft, which is what servers expect. -/
structure SymLink where
  requestId : ℤ
  targetpath : Bytes
  linkpath : Bytes
  deriving DecidableEq

open WireWriter in
/-- Write a link request, target first. -/
def SymLink.encodeBody (packet : SymLink) : Writing Unit := do
  writeUint32 packet.requestId
  writeString packet.targetpath
  writeString packet.linkpath

open WireReader in
/-- Read a link request, target first. -/
def SymLink.decodeBody : Reading SymLink := do
  let requestId ← readRequestId
  let targetpath ← readString
  let linkpath ← readString
  pure { requestId := requestId, targetpath := targetpath, linkpath := linkpath }

/-- A vendor extension request, whose data the codec does not interpret. -/
structure Extended where
  requestId : ℤ
  name : Bytes
  data : Bytes := []
  deriving DecidableEq

open WireWriter in
/-- Write an extension request. -/
def Extended.encodeBody (packet : Extended) : Writing Unit := do
  writeUint32 packet.requestId
  writeString packet.name
  writeBytes packet.data

open WireReader in
/-- Read an extension request. -/
def Extended.decodeBody : Reading Extended := do
  let requestId ← readRequestId
  let name ← readString
  let data ← readRemaining
  pure { requestId := requestId, name := name, data := data }

/-! ## Responses -/

/-- The universal reply. A code version 3 cannot name arrives as a failure with the number
kept in `rawCode`. -/
structure Status where
  requestId : ℤ
  code : StatusCode
  message : Bytes := []
  language : Bytes := []
  rawCode : Option ℤ := none
  deriving DecidableEq

/-- The number a status writes for its code. -/
def statusWireCode (code : StatusCode) : Option ℤ → ℤ
  | none => code.value
  | some rawCode => rawCode

/-- The code a wire number degrades to, with the number when version 3 has no name for it. -/
def statusCodeOf (rawCode : ℤ) : StatusCode × Option ℤ :=
  match StatusCode.ofValue rawCode with
  | some code => (code, none)
  | none => (.failure, some rawCode)

open WireWriter in
/-- Write a status. -/
def Status.encodeBody (packet : Status) : Writing Unit := do
  writeUint32 packet.requestId
  writeUint32 (statusWireCode packet.code packet.rawCode)
  writeString packet.message
  writeString packet.language

/-- Read a string of the tail, or nothing when the frame ends first: a terse server is not a
broken one. -/
def readStatusTail : Reading Bytes := fun reader =>
  if reader.atEnd then .ok ([], reader) else WireReader.readString reader

open WireReader in
/-- Read a status. -/
def Status.decodeBody : Reading Status := do
  let requestId ← readRequestId
  let rawCode ← readUint32
  let message ← readStatusTail
  let language ← readStatusTail
  pure
    { requestId := requestId
      code := (statusCodeOf rawCode).1
      message := message
      language := language
      rawCode := (statusCodeOf rawCode).2 }

/-- Payload of a read. A short payload is not the end of the file. -/
structure Data where
  requestId : ℤ
  data : Bytes
  deriving DecidableEq

open WireWriter in
/-- Write a payload. -/
def Data.encodeBody (packet : Data) : Writing Unit := do
  writeUint32 packet.requestId
  writeString packet.data

open WireReader in
/-- Read a payload. -/
def Data.decodeBody : Reading Data := do
  let requestId ← readRequestId
  let data ← readString
  pure { requestId := requestId, data := data }

/-- One entry of a name reply. -/
structure NameEntry where
  filename : Bytes
  longname : Bytes
  attrs : Attrs
  deriving DecidableEq

/-- The fewest bytes one name entry occupies. -/
def minNameEntryLength : ℕ := 4 + 4 + minAttrsLength

open WireWriter in
/-- Write one entry of a name reply. -/
def writeNameEntry (entry : NameEntry) : Writing Unit := do
  writeString entry.filename
  writeString entry.longname
  encodeAttrs entry.attrs

open WireReader in
/-- Read one entry of a name reply. -/
def readNameEntry : Reading NameEntry := do
  let filename ← readString
  let longname ← readString
  let attrs ← decodeAttrs
  pure { filename := filename, longname := longname, attrs := attrs }

/-- Filenames with attributes. -/
structure Name where
  requestId : ℤ
  entries : List NameEntry := []
  deriving DecidableEq

open WireWriter in
/-- Write a name reply. -/
def Name.encodeBody (packet : Name) : Writing Unit := do
  writeUint32 packet.requestId
  writeUint32 packet.entries.length
  packet.entries.forM writeNameEntry

open WireReader in
/-- Read the entries of a name reply behind their count. -/
def readNameEntries : Reading (List NameEntry) := do
  let count ← readCount minNameEntryLength (by decide) "NAME entry"
  readTimes readNameEntry count.toNat

open WireReader in
/-- Read a name reply. -/
def Name.decodeBody : Reading Name := do
  let requestId ← readRequestId
  let entries ← readNameEntries
  pure { requestId := requestId, entries := entries }

/-- Attributes answering a stat. -/
structure AttrsReply where
  requestId : ℤ
  attrs : Attrs := emptyAttrs
  deriving DecidableEq

open WireWriter in
/-- Write an attributes reply. -/
def AttrsReply.encodeBody (packet : AttrsReply) : Writing Unit := do
  writeUint32 packet.requestId
  encodeAttrs packet.attrs

open WireReader in
/-- Read an attributes reply. -/
def AttrsReply.decodeBody : Reading AttrsReply := do
  let requestId ← readRequestId
  let attrs ← decodeAttrs
  pure { requestId := requestId, attrs := attrs }

/-- The reply of an extension that defines its own, surfaced as raw bytes. -/
structure ExtendedReply where
  requestId : ℤ
  data : Bytes := []
  deriving DecidableEq

open WireWriter in
/-- Write an extension's reply. -/
def ExtendedReply.encodeBody (packet : ExtendedReply) : Writing Unit := do
  writeUint32 packet.requestId
  writeBytes packet.data

open WireReader in
/-- Read an extension's reply. -/
def ExtendedReply.decodeBody : Reading ExtendedReply := do
  let requestId ← readRequestId
  let data ← readRemaining
  pure { requestId := requestId, data := data }

/-! ## The union and the dispatch table -/

/-- Every filexfer packet, in both directions. -/
inductive Packet
  | init (packet : Hello)
  | version (packet : Hello)
  | open_ (packet : Open)
  | close (packet : HandleRequest)
  | read (packet : Read)
  | write (packet : Write)
  | lstat (packet : PathRequest)
  | fstat (packet : HandleRequest)
  | setstat (packet : PathAttrsRequest)
  | fsetstat (packet : FSetStat)
  | opendir (packet : PathRequest)
  | readdir (packet : HandleRequest)
  | remove (packet : PathRequest)
  | mkdir (packet : PathAttrsRequest)
  | rmdir (packet : PathRequest)
  | realpath (packet : PathRequest)
  | stat (packet : PathRequest)
  | rename (packet : Rename)
  | readlink (packet : PathRequest)
  | symlink (packet : SymLink)
  | extended (packet : Extended)
  | status (packet : Status)
  | handle (packet : HandleRequest)
  | data (packet : Data)
  | name (packet : Name)
  | attrs (packet : AttrsReply)
  | extendedReply (packet : ExtendedReply)
  deriving DecidableEq

namespace Packet

/-- The type byte of a packet. -/
def packetType : Packet → PacketType
  | init _ => .init
  | version _ => .version
  | open_ _ => .open_
  | close _ => .close
  | read _ => .read
  | write _ => .write
  | lstat _ => .lstat
  | fstat _ => .fstat
  | setstat _ => .setstat
  | fsetstat _ => .fsetstat
  | opendir _ => .opendir
  | readdir _ => .readdir
  | remove _ => .remove
  | mkdir _ => .mkdir
  | rmdir _ => .rmdir
  | realpath _ => .realpath
  | stat _ => .stat
  | rename _ => .rename
  | readlink _ => .readlink
  | symlink _ => .symlink
  | extended _ => .extended
  | status _ => .status
  | handle _ => .handle
  | data _ => .data
  | name _ => .name
  | attrs _ => .attrs
  | extendedReply _ => .extendedReply

/-- Write a packet's body, excluding the type byte. -/
def encodeBody : Packet → Writing Unit
  | init packet => packet.encodeBody
  | version packet => packet.encodeBody
  | open_ packet => packet.encodeBody
  | close packet => packet.encodeBody
  | read packet => packet.encodeBody
  | write packet => packet.encodeBody
  | lstat packet => packet.encodeBody
  | fstat packet => packet.encodeBody
  | setstat packet => packet.encodeBody
  | fsetstat packet => packet.encodeBody
  | opendir packet => packet.encodeBody
  | readdir packet => packet.encodeBody
  | remove packet => packet.encodeBody
  | mkdir packet => packet.encodeBody
  | rmdir packet => packet.encodeBody
  | realpath packet => packet.encodeBody
  | stat packet => packet.encodeBody
  | rename packet => packet.encodeBody
  | readlink packet => packet.encodeBody
  | symlink packet => packet.encodeBody
  | extended packet => packet.encodeBody
  | status packet => packet.encodeBody
  | handle packet => packet.encodeBody
  | data packet => packet.encodeBody
  | name packet => packet.encodeBody
  | attrs packet => packet.encodeBody
  | extendedReply packet => packet.encodeBody

end Packet

/-- Read a packet's body, with the type byte already consumed. -/
def decodeBody : PacketType → Reading Packet
  | .init => do let packet ← Hello.decodeBody; pure (.init packet)
  | .version => do let packet ← Hello.decodeBody; pure (.version packet)
  | .open_ => do let packet ← Open.decodeBody; pure (.open_ packet)
  | .close => do let packet ← HandleRequest.decodeBody; pure (.close packet)
  | .read => do let packet ← Read.decodeBody; pure (.read packet)
  | .write => do let packet ← Write.decodeBody; pure (.write packet)
  | .lstat => do let packet ← PathRequest.decodeBody; pure (.lstat packet)
  | .fstat => do let packet ← HandleRequest.decodeBody; pure (.fstat packet)
  | .setstat => do let packet ← PathAttrsRequest.decodeBody; pure (.setstat packet)
  | .fsetstat => do let packet ← FSetStat.decodeBody; pure (.fsetstat packet)
  | .opendir => do let packet ← PathRequest.decodeBody; pure (.opendir packet)
  | .readdir => do let packet ← HandleRequest.decodeBody; pure (.readdir packet)
  | .remove => do let packet ← PathRequest.decodeBody; pure (.remove packet)
  | .mkdir => do let packet ← PathAttrsRequest.decodeBody; pure (.mkdir packet)
  | .rmdir => do let packet ← PathRequest.decodeBody; pure (.rmdir packet)
  | .realpath => do let packet ← PathRequest.decodeBody; pure (.realpath packet)
  | .stat => do let packet ← PathRequest.decodeBody; pure (.stat packet)
  | .rename => do let packet ← Rename.decodeBody; pure (.rename packet)
  | .readlink => do let packet ← PathRequest.decodeBody; pure (.readlink packet)
  | .symlink => do let packet ← SymLink.decodeBody; pure (.symlink packet)
  | .extended => do let packet ← Extended.decodeBody; pure (.extended packet)
  | .status => do let packet ← Status.decodeBody; pure (.status packet)
  | .handle => do let packet ← HandleRequest.decodeBody; pure (.handle packet)
  | .data => do let packet ← Data.decodeBody; pure (.data packet)
  | .name => do let packet ← Name.decodeBody; pure (.name packet)
  | .attrs => do let packet ← AttrsReply.decodeBody; pure (.attrs packet)
  | .extendedReply => do let packet ← ExtendedReply.decodeBody; pure (.extendedReply packet)

/-- The type byte and body of a packet, as the writer holds them before framing. -/
def encodeUnframed (packet : Packet) : Except WriteError WireWriter :=
  Prod.snd <$> (do
    WireWriter.writeUint8 packet.packetType.value
    packet.encodeBody : Writing Unit) WireWriter.empty

/-- Encode a packet into a complete wire frame, length prefix included. -/
def encode (packet : Packet) : Except WriteError Bytes := do
  let writer ← encodeUnframed packet
  writer.frame

/-- Decode one frame body, with the reader as it stands after the packet. -/
def decodeConsuming (frame : Bytes) : Except ProtocolError (Packet × WireReader) := do
  let (rawType, _) ← WireReader.readUint8 (.ofFrame frame none)
  match PacketType.ofValue rawType with
  | none =>
    let defined := PacketType.all.map PacketType.value
    throw
      { message := s!"unknown packet type {rawType}; filexfer v3 defines {defined}"
        packetType := some rawType
        rawFrame := some (frame.take maxFrameExcerpt) }
  | some packetType =>
    let (_, reader) ← WireReader.readUint8 (.ofFrame frame (some packetType.value))
    let (packet, reader) ← decodeBody packetType reader
    if reader.atEnd then pure (packet, reader)
    else
      let label := packetType.label
      let remaining := reader.remaining
      throw
        { message :=
            s!"{label} frame has {remaining} trailing bytes after a complete packet"
          packetType := some packetType.value
          rawFrame := some (frame.take maxFrameExcerpt) }

/-- Decode one frame body into a packet. -/
def decode (frame : Bytes) : Except ProtocolError Packet :=
  Prod.fst <$> decodeConsuming frame

end GantrySftp
