import GantrySftp.Library.LinkedTree
import GantrySftp.Session.Traversal

/-!
# Local paths

A name from a listing becomes a local path by one component at a time, and only where it can be
one; the finished path is then resolved, and has to be inside the resolved destination. System
calls locate their paths as the kernel does, through directories and at most so many links, and
open files for a download without following a link at the end.
-/

namespace GantrySftp

open Library

/-- A local path from the root on. -/
abbrev LocalPath := List (PathStep Bytes)

/-- A local file system: which node each place names, and what the nodes are. -/
abbrev LocalDisk := LinkedTree Bytes

/-- Why a local system call failed. -/
inductive OsError
  | lookup (error : LookupError)
  | fileExists
  | isADirectory
  | illegalSequence
  | other (number : ℕ)
  deriving DecidableEq

/-- Whether the file system refuses the name itself. -/
def refusesTheName (error : OsError) : Bool := error = .illegalSequence

/-- What a local operation raises. -/
inductive LocalError
  | unsafePath (name : Bytes) (reason : String) (destination : Option LocalPath)
  | os (error : OsError)
  deriving DecidableEq

/-- The machine a download runs on: its rules for names, how many links the kernel follows, what
it refuses to make or open, what a path with more links than that resolves to, and what the text
of a path folds to. -/
structure Platform where
  windows : Bool
  linkLimit : ℕ
  refusal : List Bytes → Option OsError
  beyond : LocalPath → LocalPath
  foldName : LocalPath → Bytes

/-! ## Names -/

/-- Characters that no name may hold on Windows, beyond the separator. -/
def windowsForbiddenCharacters : Bytes := "\\:*?\"<>|".toUTF8.toList

/-- The names of devices on Windows. -/
def windowsReservedNames : List Bytes :=
  (["con", "prn", "aux", "nul"] ++
    (["1", "2", "3", "4", "5", "6", "7", "8", "9"].flatMap fun digit =>
      ["com" ++ digit, "lpt" ++ digit])).map fun name => name.toUTF8.toList

/-- Why a name cannot be used on Windows, if it cannot. -/
def windowsReason (name : Bytes) : Option String :=
  let stem := (name.takeWhile (· ≠ Glob.dot)).map Glob.fold
  if windowsForbiddenCharacters.any name.contains then
    some "a character Windows does not allow in a filename"
  else if name.any (· < 32) then some "a control character"
  else if name.getLast? = some Glob.dot ∨ name.getLast? = some 0x20 then
    some "a trailing dot or space, which Windows strips"
  else if stem ∈ windowsReservedNames then
    some ("the reserved device name '" ++
      String.ofList (stem.map fun byte => Char.ofNat byte.toNat) ++ "'")
  else none

namespace Platform

variable (platform : Platform)

/-- Why a name cannot be one local file name, if it cannot. -/
def unsafeReason (name : Bytes) : Option String :=
  match remoteComponentReason name with
  | some reason => some reason
  | none => if platform.windows then windowsReason name else none

/-- Refuse a name that cannot be one local file name. -/
def checkComponent (name : Bytes) : Except LocalError Unit :=
  match platform.unsafeReason name with
  | none => .ok ()
  | some reason => .error (.unsafePath name reason none)

/-- Join one name onto a local directory. -/
def localChild (parent : LocalPath) (name : Bytes) : Except LocalError LocalPath := do
  platform.checkComponent name
  pure (parent ++ [.down name])

/-- The last component of a path. -/
def lastName (path : LocalPath) : Bytes :=
  match path.getLast? with
  | some (.down name) => name
  | some .up => "..".toUTF8.toList
  | none => []

variable (disk : LocalDisk)

/-- The place a path resolves to, within the links that the kernel follows. -/
def resolvesTo (path : LocalPath) : Option (List Bytes) :=
  disk.resolveFrom platform.linkLimit [] path

/-- A path with every link in it followed, whether or not anything is there. -/
def resolve (path : LocalPath) : LocalPath :=
  match platform.resolvesTo disk path with
  | some place => place.map .down
  | none => platform.beyond path

/-- Refuse a path that resolves to outside of a directory. -/
def checkContained (root candidate : LocalPath) : Except LocalError LocalPath :=
  if (platform.resolve disk root).isPrefixOf (platform.resolve disk candidate) then .ok candidate
  else
    .error (.unsafePath (lastName candidate) "a path that escapes the destination directory"
      (some root))

/-- The local directory for a walked position, every component checked on its own. -/
def localDirectory (destination : LocalPath) (relative : List Bytes) :
    Except LocalError LocalPath := do
  platform.checkContained disk destination (← relative.foldlM platform.localChild destination)

/-! ## System calls -/

/-- Locate a path, with the link at its end followed or not. -/
def locate (follow : Bool) (path : LocalPath) : Except OsError (List Bytes) :=
  (disk.locateFrom follow platform.linkLimit [] path).mapError .lookup

/-- Refuse what the platform refuses at a place. -/
def checkRefusal (place : List Bytes) : Except OsError Unit :=
  match platform.refusal place with
  | none => .ok ()
  | some error => .error error

/-- Whether a path leads to a directory. -/
def isDir (path : LocalPath) : Bool :=
  match platform.locate disk true path with
  | .ok place => disk.isDirectory place
  | .error _ => false

/-- The node that a path names, a link for itself. -/
def identity (path : LocalPath) : Except OsError ℕ := do
  let place ← platform.locate disk false path
  match disk.node place with
  | some node => .ok node
  | none => .error (.lookup .missing)

/-- Make a directory where nothing is, and say where that was. -/
def mkdirCall (path : LocalPath) : Except OsError (List Bytes × LocalDisk) := do
  let place ← platform.locate disk false path
  match disk.node place with
  | some _ => .error .fileExists
  | none => do
    platform.checkRefusal place
    .ok (place, disk.add place .directory)

/-- Open a file for writing, made empty where nothing is: where it is, its node, and the disk. -/
def openCall (follow : Bool) (path : LocalPath) :
    Except OsError (List Bytes × ℕ × LocalDisk) := do
  let place ← platform.locate disk follow path
  platform.checkRefusal place
  match disk.node place with
  | none => .ok (place, disk.next, disk.add place .file)
  | some node =>
    match disk.kinds node with
    | .file => .ok (place, node, disk)
    | .directory => .error .isADirectory
    | .link _ => .error (.lookup .tooManyLinks)

/-- Open what is there to change its times or its mode: where it is, and its node. -/
def reopenCall (follow : Bool) (path : LocalPath) : Except OsError (List Bytes × ℕ) := do
  let place ← platform.locate disk follow path
  platform.checkRefusal place
  match disk.node place with
  | none => .error (.lookup .missing)
  | some node =>
    match disk.kinds node with
    | .link _ => .error (.lookup .tooManyLinks)
    | _ => .ok (place, node)

/-- Open what is there to change its times or its mode, but no link: where it is. -/
def stampCall (path : LocalPath) : Except OsError (List Bytes) := do
  let (place, _) ← platform.reopenCall disk false path
  pure place

end Platform

end GantrySftp
