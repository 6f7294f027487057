import GantrySftp.Library.LineLog
import GantrySftp.Session.Journal

/-!
# The manifest of a mirror

What a mirror recorded sending, as a log of JSON lines keyed by decoded remote path: what the
file looked like here and there when it was sent. Later lines win. The whole log is folded by
`foldManifest`, and rewritten with one line for each entry at the end of a run.
-/

namespace GantrySftp

open Library

/-- Schema version on every line. -/
def manifestVersion : ℤ := 2

/-- What one file looked like on both sides when it was sent. -/
structure ManifestEntry where
  localSize : ℤ
  localMtime : ℤ
  remoteSize : ℤ
  remoteMtime : ℤ
  deriving DecidableEq

/-- What is known, keyed by decoded remote path. -/
abbrev ManifestEntries := Dict Text ManifestEntry

namespace ManifestEntry

/-- An entry as the fields written to disk. -/
def asJson (entry : ManifestEntry) : List (Text × JsonScalar) :=
  [(textOf "local_size", .int entry.localSize), (textOf "local_mtime", .int entry.localMtime),
    (textOf "remote_size", .int entry.remoteSize), (textOf "remote_mtime", .int entry.remoteMtime)]

/-- An integer value that is not a boolean. -/
def strictInt : Option JsonValue → Option ℤ
  | some (.int value) => some value
  | _ => none

/-- Rebuild one entry, or nothing if the object on disk is not one. -/
def fromJson (fields : List (Text × JsonValue)) : Option ManifestEntry := do
  let localSize ← strictInt (member fields "local_size")
  let localMtime ← strictInt (member fields "local_mtime")
  let remoteSize ← strictInt (member fields "remote_size")
  let remoteMtime ← strictInt (member fields "remote_mtime")
  pure
    { localSize := localSize
      localMtime := localMtime
      remoteSize := remoteSize
      remoteMtime := remoteMtime }

end ManifestEntry

/-! ## Writing -/

/-- The members of one record. -/
def manifestMembers (target : Text) (entry : ManifestEntry) : List (Text × JsonScalar) :=
  (textOf "version", .int manifestVersion) :: (textOf "target", .string target) :: entry.asJson

/-- One record, as the bytes written to the file. -/
def manifestLine (target : Text) (entry : ManifestEntry) : Bytes :=
  (dumps (manifestMembers target entry) ++ [0x0A]).map UInt8.ofNat

/-- The file after one record is appended to it; a missing file is created. -/
def appendManifest (raw : Option Bytes) (remotePath : Bytes) (entry : ManifestEntry) : Bytes :=
  raw.getD [] ++ manifestLine (decodeName remotePath) entry

/-- The file rewritten with one line for each entry, sorted by key. No two keys are equal. -/
def manifestPayload (entries : ManifestEntries) : Bytes :=
  (entries.entries.insertionSort fun left right => left.1 ≤ right.1).flatMap fun item =>
    manifestLine item.1 item.2

/-- Note what one file looked like on both sides, replacing any earlier record. -/
def recordEntry (entries : ManifestEntries) (remotePath : Bytes) (entry : ManifestEntry) :
    ManifestEntries :=
  entries.set (decodeName remotePath) entry

/-! ## Folding -/

/-- Whether a value compares equal to the integer two: a float that rounds to two does, and no
boolean. -/
def equalsTwo : JsonValue → Bool
  | .int value => value == 2
  | .float mantissa exponent =>
    if 0 ≤ exponent then mantissa * 10 ^ exponent.toNat == 2
    else
      (2 ^ 54 - 1) * 10 ^ (-exponent).toNat ≤ mantissa * 2 ^ 53 &&
        mantissa * 2 ^ 52 ≤ (2 ^ 53 + 1) * 10 ^ (-exponent).toNat
  | _ => false

/-- What a decoded record does to the state, if anything. -/
def manifestUpdate (fields : List (Text × JsonValue)) : Option (Update Text ManifestEntry) :=
  if (member fields "version").any equalsTwo then
    match asString (member fields "target"), ManifestEntry.fromJson fields with
    | some target, some parsed => some { key := target, value := some parsed }
    | _, _ => none
  else none

/-- What one line does to the state, if anything. A line that is not a document is ignored. -/
def foldLine : LineReader JsonError Text ManifestEntry := fun text =>
  match loads text with
  | .error .decodeError => pure none
  | .error .valueError => throw .valueError
  | .ok (.object fields) => pure (manifestUpdate fields)
  | .ok _ => pure none

/-- Read the file and give what is known. A file that cannot be read says nothing. -/
def foldManifest : Option Bytes → Except JsonError ManifestEntries
  | none => pure Dict.empty
  | some raw =>
    match foldLine.apply Dict.empty (decodedLines raw) with
    | (_, some error) => throw error
    | (entries, none) => pure entries

end GantrySftp
