import GantrySftp.Session.Reply
import Mathlib.Logic.Function.Basic

/-!
# The server

A server holds files by name. Paths reach them through a name resolution that the client cannot
see, so two spellings may name one file. A request is performed as filexfer describes or not at
all, and its answer may be lost on the way.
-/

namespace GantrySftp

open Library

/-- What each file of a server holds. A file that is not there holds nothing. -/
abbrev Files := Bytes → Option Bytes

namespace Files

/-- Put content into a file, or remove it. -/
def put (files : Files) (file : Bytes) (content : Option Bytes) : Files :=
  Function.update files file content

/-- Move a file over another name. -/
def move (files : Files) (old new : Bytes) : Files :=
  if old = new then files else (files.put new (files old)).put old none

/-- The file just put. -/
@[simp] theorem put_self (files : Files) (file : Bytes) (content : Option Bytes) :
    files.put file content file = content :=
  Function.update_self _ _ _

/-- Another file than the one just put. -/
@[simp] theorem put_of_ne {other file : Bytes} (h : other ≠ file) (files : Files)
    (content : Option Bytes) : files.put file content other = files other :=
  Function.update_of_ne h _ _

/-- A move leaves other files alone. -/
theorem move_of_ne {files : Files} {old new other : Bytes} (hold : other ≠ old)
    (hnew : other ≠ new) : files.move old new other = files other := by
  unfold move
  split_ifs
  · rfl
  · rw [put_of_ne hold, put_of_ne hnew]

/-- A move puts the file under its new name. -/
theorem move_new (files : Files) (old new : Bytes) : files.move old new new = files old := by
  unfold move
  split_ifs with hsame
  · rw [hsame]
  · rw [put_of_ne (Ne.symm hsame), put_self]

/-- A move to another name leaves nothing under the old one. -/
theorem move_old {files : Files} {old new : Bytes} (h : old ≠ new) :
    files.move old new old = none := by
  unfold move
  rw [if_neg h, put_self]

end Files

/-! ## Open flags -/

namespace OpenFlag

/-- READ. -/
def read : OpenFlag := mask 0x01

/-- WRITE with CREAT and TRUNC. -/
def truncate : OpenFlag := mask (0x02 ||| 0x08 ||| 0x10)

/-- WRITE with CREAT. -/
def resume : OpenFlag := mask (0x02 ||| 0x08)

/-- WRITE with CREAT and EXCL. -/
def stage : OpenFlag := mask (0x02 ||| 0x08 ||| 0x20)

/-- Whether a missing file is created. -/
def creates (flags : OpenFlag) : Bool := flags.bits &&& 0x08 != 0

/-- Whether an existing file is emptied. -/
def truncates (flags : OpenFlag) : Bool := flags.bits &&& 0x10 != 0

/-- Whether an existing file is refused. -/
def excludes (flags : OpenFlag) : Bool := flags.creates && flags.bits &&& 0x20 != 0

end OpenFlag

/-! ## Blocks of a range -/

/-- Bytes per digest in every `check-file` request. -/
def checkFileBlockSize : ℕ := 65536

/-- Where each digest's block begins. -/
def blockBounds (start length blockSize : ℕ) : List ℕ :=
  List.range' start ((length + blockSize - 1) / blockSize) blockSize

/-- The part of a content that one block covers. -/
def blockOf (content : Bytes) (start length blockSize offset : ℕ) : Bytes :=
  (content.drop offset).take (min blockSize (start + length - offset))

/-- One digest for each block of a range. -/
def blockDigests (digest : Bytes → Bytes) (content : Bytes) (start length blockSize : ℕ) :
    List Bytes :=
  (blockBounds start length blockSize).map fun offset =>
    digest (blockOf content start length blockSize offset)

/-! ## Requests -/

/-- A request, less its id. -/
inductive Request
  | stat (path : Bytes)
  | lstat (path : Bytes)
  | open_ (path : Bytes) (pflags : OpenFlag) (attrs : Attrs)
  | close (handle : Handle)
  | remove (path : Bytes)
  | rename (oldpath newpath : Bytes)
  | posixRename (oldpath newpath : Bytes)
  | fsync (handle : Handle)
  | fsetstat (handle : Handle) (attrs : Attrs)
  | checkFile (handle : Handle) (algorithms : Bytes) (startOffset length blockSize : ℕ)
  | realpath (path : Bytes)
  deriving DecidableEq

/-- A server: the file each path names, its default directory, and how it hashes. -/
structure Server where
  resolve : Bytes → Bytes
  realpath : Bytes → Bytes
  hashAlgorithm : Bytes
  digest : Bytes → Bytes → Bytes

namespace Server

/-- Perform a request: the files afterwards and the reply, or the code it is refused with. Both
renames replace what the new name held; a server that will not is one that refuses. No request
here sets a file's size through its attributes. -/
def perform (server : Server) (files : Files) : Request → Except StatusCode (Files × Reply)
  | .stat path | .lstat path =>
    match files (server.resolve path) with
    | none => .error .noSuchFile
    | some content => .ok (files, .attrs { size := some content.length })
  | .open_ path pflags _ =>
    let file := server.resolve path
    match files file with
    | none =>
      if pflags.creates then .ok (files.put file (some []), .handle ⟨file⟩)
      else .error .noSuchFile
    | some _ =>
      if pflags.excludes then .error .failure
      else if pflags.truncates then .ok (files.put file (some []), .handle ⟨file⟩)
      else .ok (files, .handle ⟨file⟩)
  | .close _ | .fsync _ | .fsetstat _ _ => .ok (files, .status .ok [])
  | .remove path =>
    match files (server.resolve path) with
    | none => .error .noSuchFile
    | some _ => .ok (files.put (server.resolve path) none, .status .ok [])
  | .rename oldpath newpath | .posixRename oldpath newpath =>
    match files (server.resolve oldpath) with
    | none => .error .noSuchFile
    | some _ =>
      .ok (files.move (server.resolve oldpath) (server.resolve newpath), .status .ok [])
  | .checkFile handle _ startOffset length blockSize =>
    match files handle.file with
    | none => .error .failure
    | some content =>
      .ok (files, .digests server.hashAlgorithm
        (blockDigests (server.digest server.hashAlgorithm) content startOffset length blockSize))
  | .realpath path => .ok (files, .name [server.realpath path])

/-- The files after a request was performed, or the same files where it cannot be. -/
def after (server : Server) (files : Files) (request : Request) : Files :=
  match server.perform files request with
  | .ok (files', _) => files'
  | .error _ => files

end Server

/-! ## What becomes of a request -/

/-- A STATUS saying that a request was not performed. -/
structure Refusal where
  code : StatusCode
  message : Bytes
  refused : code ≠ .ok
  deriving DecidableEq

/-- The refusal of a request as unknown. -/
def Refusal.unknown : Refusal := ⟨.opUnsupported, [], by decide⟩

/-- The refusal of a request for no stated reason. -/
def Refusal.unexplained : Refusal := ⟨.failure, [], by decide⟩

/-- What cuts an operation short from outside: no answer in time, a lost connection, a
cancellation, or a local call or callback that raised. -/
inductive Interruption
  | timeout | connectionLost | cancelled | localError
  deriving DecidableEq

/-- What an interrupted operation raises. -/
def Interruption.failure : Interruption → Failure
  | timeout => .transferTimeout
  | connectionLost => .connectionLost
  | cancelled => .cancelled
  | localError => .osError

/-- What becomes of one request. It is performed and answered, possibly with no attributes but
the type of reply; refused and not performed; answered with a packet of another type; or not
answered, having been performed or not. -/
inductive Fate
  | answer (terse : Bool)
  | refuse (refusal : Refusal)
  | garble (performed : Bool)
  | lose (performed : Bool) (interruption : Interruption)
  deriving DecidableEq

/-- A reply with the attributes left out. -/
def Reply.withoutAttrs : Reply → Reply
  | .attrs _ => .attrs emptyAttrs
  | reply => reply

/-- Serve a request as its fate has it. -/
def Server.serve (server : Server) (files : Files) (request : Request) :
    Fate → Files × Except Failure Reply
  | .answer terse =>
    match server.perform files request with
    | .ok (files', reply) => (files', .ok (if terse then reply.withoutAttrs else reply))
    | .error code => (files, .ok (.status code []))
  | .refuse refusal => (files, .ok (.status refusal.code refusal.message))
  | .garble performed =>
    (if performed then server.after files request else files, .ok (.data []))
  | .lose performed interruption =>
    (if performed then server.after files request else files, .error interruption.failure)

end GantrySftp
