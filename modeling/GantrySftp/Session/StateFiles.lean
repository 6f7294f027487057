import GantrySftp.Library.Program
import GantrySftp.Session.LogCompaction
import Mathlib.Logic.Function.Basic

/-!
# State files on the local disk

The directory a state file is in, as the contents of its files by name, and the system calls that
change it. Each call does what it is told to, or fails; a write accepts some of its bytes. A
record is appended by one write, and a file is rewritten through a temporary sibling. The entry of
a new file is flushed through a descriptor of the directory: that this cannot be opened or flushed
is ignored, that it cannot be closed is raised.
-/

namespace GantrySftp.StateFile

open Library

/-- The files of a directory, by name. -/
abbrev Files := Bytes → Option Bytes

/-- Why an operation on a state file raises. -/
inductive StateError
  | osError
  | folding (error : JournalError)
  deriving DecidableEq

/-- Programs over a directory. -/
abbrev Disk := Program Files StateError

/-- What a call to write does: it fails, or accepts so many bytes. -/
inductive Writing
  | fails
  | accepts (count : ℕ)
  deriving DecidableEq

/-- A call with no effect on the files, which may fail. -/
def attempt (works : Bool) : Disk PUnit := if works then pure ⟨⟩ else throw .osError

/-- One write to a file at its end. The number of bytes accepted is not looked at. -/
def osWrite (name buffer : Bytes) : Writing → Disk PUnit
  | .fails => throw .osError
  | .accepts count =>
    modify fun files => Function.update files name ((files name).map (· ++ buffer.take count))

/-! ## Flushing the directory -/

/-- What the calls that flush a directory do. -/
structure DirectoryCalls where
  opens : Bool
  syncs : Bool
  closes : Bool

/-- Flush a directory entry, ignoring a platform that will not let us. -/
def fsyncDirectory (calls : DirectoryCalls) : Disk PUnit :=
  if calls.opens then
    Program.ensuring (tryCatch (attempt calls.syncs) fun _ => pure ⟨⟩) (attempt calls.closes)
  else pure ⟨⟩

/-! ## Appending a record -/

/-- What the calls of an append do. -/
structure AppendCalls where
  opens : Bool
  write : Writing
  syncs : Bool
  closes : Bool
  directory : DirectoryCalls

/-- Open a file for appending, creating it if it is missing. -/
def openAppending (path : Bytes) (works : Bool) : Disk PUnit := do
  attempt works
  modify fun files => Function.update files path (some ((files path).getD []))

/-- Append one record to the journal. -/
def appendRecord (path record : Bytes) (calls : AppendCalls) : Disk PUnit := do
  let firstTime := ((← get) path).isNone
  openAppending path calls.opens
  Program.ensuring
    (do
      osWrite path record calls.write
      attempt calls.syncs)
    (attempt calls.closes)
  if firstTime then fsyncDirectory calls.directory else pure ⟨⟩

/-- Record that an upload is about to write to a staging file. -/
def staging (path staged target : Bytes) (source : SourceIdentity) (calls : AppendCalls) :
    Disk PUnit :=
  appendRecord path (stagedLine (entryOf staged target source)) calls

/-! ## Rewriting a file -/

/-- What the calls of a rewrite do: the names that are tried for the temporary file, and the
rest. -/
structure ReplaceCalls where
  suffixes : List Bytes
  write : Writing
  syncs : Bool
  closes : Bool
  renames : Bool
  directory : DirectoryCalls

/-- A name for a temporary sibling. -/
def sibling (destination suffix : Bytes) : Bytes := destination ++ 0x2E :: suffix

/-- The first name tried that no file has. -/
def freshName (files : Files) (destination : Bytes) (suffixes : List Bytes) : Option Bytes :=
  (suffixes.map (sibling destination)).find? fun name => (files name).isNone

/-- Create a temporary sibling under a name that no file has. -/
def mkstemp (destination : Bytes) (suffixes : List Bytes) : Disk Bytes :=
  .of fun files =>
    match freshName files destination suffixes with
    | some name => (.ok name, Function.update files name (some []))
    | none => (.error .osError, files)

/-- Rename a file over another, or to a new name. -/
def replace (name destination : Bytes) (works : Bool) : Disk PUnit := do
  attempt works
  modify fun files => Function.update (Function.update files destination (files name)) name none

/-- Remove a file, if it is there. -/
def unlink (name : Bytes) : Disk PUnit := modify fun files => Function.update files name none

/-- Put a payload at a path through a temporary sibling. -/
def replaceAtomically (destination payload : Bytes) (calls : ReplaceCalls) : Disk PUnit := do
  let temporary ← mkstemp destination calls.suffixes
  tryCatch
    (do
      Program.ensuring
        (do
          osWrite temporary payload calls.write
          attempt calls.syncs)
        (attempt calls.closes)
      replace temporary destination calls.renames)
    fun error => do
      unlink temporary
      throw error
  fsyncDirectory calls.directory

/-- The journal a path names. -/
def logAt (files : Files) (path : Bytes) : Option LogFile :=
  (files path).map fun content => { device := 0, inode := 0, content := content }

/-- Rewrite the journal with what is in flight, and say how many entries that is. -/
def compact (path : Bytes) (calls : ReplaceCalls) : Disk ℕ := do
  let files ← get
  match fold (logAt files path) with
  | .error error => throw (.folding error)
  | .ok surviving =>
    replaceAtomically path (compacted surviving) calls
    pure surviving.entries.length

/-- Rewrite the manifest with one line for each entry. -/
def writeManifest (entries : ManifestEntries) (path : Bytes) (calls : ReplaceCalls) : Disk PUnit :=
  replaceAtomically path (manifestPayload entries) calls

end GantrySftp.StateFile
