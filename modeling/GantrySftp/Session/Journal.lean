import GantrySftp.Library.JsonRoundTrip
import GantrySftp.Library.Lines

/-!
# The upload journal

An append-only log of JSON lines. A `staged` record names the file an upload is about to write
and a `published` record says that nothing is in flight for a target any more; the state is
folded from the lines, one entry per target. The whole log is folded by `fold`. The lookup
`stagedFor` remembers how far it has folded and which file that was, and reads only what was
appended since.
-/

namespace GantrySftp

open Library

/-- Schema version on every line. -/
def journalVersion : ℤ := 1

/-- Which local file, and which version of it, an upload is sending. -/
structure SourceIdentity where
  path : Text
  size : ℤ
  mtime : ℤ
  deriving DecidableEq

/-- One upload that had begun staging and had not yet been published. -/
structure JournalEntry where
  staged : Bytes
  target : Bytes
  localPath : Text
  localSize : ℤ
  localMtime : ℤ
  deriving DecidableEq

/-- What folding a line can raise: a number with too many digits to convert, or a path with a
surrogate that escapes no byte. -/
inductive JournalError
  | valueError
  | unicodeEncodeError
  deriving DecidableEq

/-- Decode a remote name reversibly. -/
def decodeName (filename : Bytes) : Text := decodeUtf8 surrogateEscape filename

/-! ## Writing records -/

/-- The members of one record. -/
def recordMembers (event : String) (fields : List (Text × JsonScalar)) :
    List (Text × JsonScalar) :=
  (textOf "version", .int journalVersion) :: (textOf "event", .string (textOf event)) :: fields

/-- One record, as the bytes appended to the file. The document is printable ASCII, so each of
its code points is one byte. -/
def line (event : String) (fields : List (Text × JsonScalar)) : Bytes :=
  (dumps (recordMembers event fields) ++ [0x0A]).map UInt8.ofNat

/-- The fields of the `staged` record for an entry. -/
def fieldsOf (entry : JournalEntry) : List (Text × JsonScalar) :=
  [(textOf "staged", .string (decodeName entry.staged)),
    (textOf "target", .string (decodeName entry.target)),
    (textOf "local", .string entry.localPath),
    (textOf "local_size", .int entry.localSize),
    (textOf "local_mtime", .int entry.localMtime)]

/-- The record that bytes are about to be written to an entry's staging file. -/
def stagedLine (entry : JournalEntry) : Bytes := line "staged" (fieldsOf entry)

/-- The record that nothing is in flight for a target any more. -/
def publishedLine (target : Bytes) : Bytes :=
  line "published" [(textOf "target", .string (decodeName target))]

/-- The entry an upload records before it opens its staging file. -/
def entryOf (staged target : Bytes) (source : SourceIdentity) : JournalEntry where
  staged := staged
  target := target
  localPath := source.path
  localSize := source.size
  localMtime := source.mtime

/-! ## Folding lines -/

/-- A member of an object. -/
def member (fields : List (Text × JsonValue)) (key : String) : Option JsonValue :=
  getEntry (textOf key) fields

/-- Whether a value compares equal to the integer one: a true boolean and a float that rounds
to one do. -/
def equalsOne : JsonValue → Bool
  | .int value => value == 1
  | .bool value => value
  | .float mantissa exponent =>
    if 0 ≤ exponent then mantissa * 10 ^ exponent.toNat == 1
    else
      (2 ^ 54 - 1) * 10 ^ (-exponent).toNat ≤ mantissa * 2 ^ 54 &&
        mantissa * 2 ^ 53 ≤ (2 ^ 53 + 1) * 10 ^ (-exponent).toNat
  | _ => false

/-- A string value. -/
def asString : Option JsonValue → Option Text
  | some (.string value) => some value
  | _ => none

/-- An integer value; a boolean is an integer too. -/
def asInt : Option JsonValue → Option ℤ
  | some (.int value) => some value
  | some (.bool value) => some (if value then 1 else 0)
  | _ => none

/-- Encode a decoded path again, raising on a surrogate that escapes no byte. -/
def encodeName (name : Text) : Except JournalError Bytes :=
  match encodeUtf8 name with
  | some bytes => .ok bytes
  | none => .error .unicodeEncodeError

/-- Rebuild a `staged` record, or nothing if it is not one this version understands. -/
def entryFrom (fields : List (Text × JsonValue)) : Except JournalError (Option JournalEntry) :=
  match asString (member fields "staged"), asString (member fields "target"),
    asString (member fields "local"), asInt (member fields "local_size"),
    asInt (member fields "local_mtime") with
  | some staged, some target, some localPath, some size, some mtime => do
    let stagedBytes ← encodeName staged
    let targetBytes ← encodeName target
    pure (some
      { staged := stagedBytes
        target := targetBytes
        localPath := localPath
        localSize := size
        localMtime := mtime })
  | _, _, _, _, _ => pure none

/-- What a decoded record does to the state, if anything. -/
def recordUpdate (fields : List (Text × JsonValue)) :
    Except JournalError (Option (Update Text JournalEntry)) :=
  if (member fields "version").any equalsOne then
    match asString (member fields "target") with
    | none => pure none
    | some target =>
      if asString (member fields "event") = some (textOf "published") then
        pure (some { key := target, value := none })
      else if asString (member fields "event") = some (textOf "staged") then do
        let entry ← entryFrom fields
        pure (entry.map fun entry => { key := target, value := some entry })
      else pure none
  else pure none

/-- What one line does to the state, if anything. A line that is not a document is ignored. -/
def lineUpdate (text : Text) : Except JournalError (Option (Update Text JournalEntry)) :=
  match loads text with
  | .error .decodeError => pure none
  | .error .valueError => throw .valueError
  | .ok (.object fields) => recordUpdate fields
  | .ok _ => pure none

/-- What is still in flight, keyed by decoded target path. -/
abbrev Entries := Dict Text JournalEntry

/-- Fold lines into the state in place, up to the first that raises. -/
def applyAll (entries : Entries) : List Text → Entries × Option JournalError
  | [] => (entries, none)
  | text :: rest =>
    match lineUpdate text with
    | .error error => (entries, some error)
    | .ok none => applyAll entries rest
    | .ok (some change) => applyAll (entries.update change) rest

/-! ## Reading the file -/

/-- The file the journal's path names: its identity and its bytes. -/
structure LogFile where
  device : ℤ
  inode : ℤ
  content : Bytes

/-- How much of one log has been folded, into what, and which file it was. -/
structure Folded where
  device : ℤ
  inode : ℤ
  offset : ℕ
  entries : Entries

namespace Folded

/-- Nothing folded yet. -/
def fresh : Folded where
  device := -1
  inode := -1
  offset := 0
  entries := Dict.empty

/-- Forget a fold that cannot describe this file. -/
def restart (device inode : ℤ) : Folded where
  device := device
  inode := inode
  offset := 0
  entries := Dict.empty

/-- Whether the fold is of this file and ended where a record ends: the identity is the same,
the file has not become shorter, and the byte before the offset is still a line feed. -/
def describes (folded : Folded) (file : LogFile) : Bool :=
  file.device = folded.device && file.inode = folded.inode && 0 < folded.offset &&
    folded.offset ≤ file.content.length &&
    (file.content.drop (folded.offset - 1)).head? = some 0x0A

end Folded

/-- The bytes after the fold, or the whole file when the fold does not describe it. -/
def readTail (folded : Folded) (file : LogFile) : Folded × Bytes :=
  if folded.describes file then (folded, (file.content.drop (folded.offset - 1)).tail)
  else (.restart file.device file.inode, file.content)

/-- Fold whatever was appended since last time, and hand back the unterminated tail. A path
that cannot be opened or read has nothing in flight. -/
def foldTail (folded : Folded) : Option LogFile → Folded × Except JournalError Text
  | none => (.restart (-1) (-1), .ok [])
  | some file =>
    let read := readTail folded file
    let split := splitTail read.2
    let applied := applyAll read.1.entries (decodedLines split.1)
    match applied.2 with
    | some error => ({ read.1 with entries := applied.1 }, .error error)
    | none =>
      ({ read.1 with entries := applied.1, offset := read.1.offset + split.1.length },
        .ok (decodeUtf8 replaceError split.2))

/-- Fold the whole log: what is still in flight, keyed by decoded target path. -/
def fold (file : Option LogFile) : Except JournalError Entries :=
  match foldTail .fresh file with
  | (_, .error error) => .error error
  | (folded, .ok tail) =>
    match applyAll folded.entries (splitLines tail) with
    | (_, some error) => .error error
    | (entries, none) => .ok entries

/-- A state with at most the entry of one target. -/
def scratchOf (key : Text) : Option JournalEntry → Entries
  | none => Dict.empty
  | some entry => Dict.empty.set key entry

/-- What an unterminated tail says about one target, without committing it to the fold. -/
def tailSays (entry : Option JournalEntry) (key tail : Text) :
    Except JournalError (Option JournalEntry) :=
  match applyAll (scratchOf key entry) (splitLines tail) with
  | (_, some error) => .error error
  | (scratch, none) => .ok (scratch.get key)

/-- Whether an entry describes an upload of exactly the bytes a source names. -/
def entryMatches (entry : JournalEntry) (source : SourceIdentity) : Bool :=
  entry.localPath = source.path && entry.localSize = source.size &&
    entry.localMtime = source.mtime

/-- The staging path an entry offers a source. -/
def offered (entry : Option JournalEntry) (source : SourceIdentity) : Option Bytes :=
  match entry with
  | none => none
  | some entry => if entryMatches entry source then some entry.staged else none

/-- The staging path a previous run left for a target, with the fold as it is left behind. -/
def stagedFor (file : Option LogFile) (target : Bytes) (source : SourceIdentity)
    (folded : Folded) : Folded × Except JournalError (Option Bytes) :=
  let key := decodeName target
  match foldTail folded file with
  | (folded, .error error) => (folded, .error error)
  | (folded, .ok tail) =>
    if tail.isEmpty then (folded, .ok (offered (folded.entries.get key) source))
    else
      match tailSays (folded.entries.get key) key tail with
      | .error error => (folded, .error error)
      | .ok entry => (folded, .ok (offered entry source))

/-- The log holding only what is still in flight. -/
def compacted (entries : Entries) : Bytes := entries.values.flatMap stagedLine

/-- Rewrite the log through a new file, unless folding it raises. -/
def compact (file : Option LogFile) (device inode : ℤ) : Except JournalError LogFile := do
  let surviving ← fold file
  pure { device := device, inode := inode, content := compacted surviving }

end GantrySftp
