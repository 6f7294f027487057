import GantrySftp.Session.Operations

/-!
# The verification ladder

The server's own digests where it has them, a second transfer where it is asked for, and a
length otherwise. A check that could not be made is reported as such and is never a pass; one
that fails raises.
-/

namespace GantrySftp

open Library

/-- Which rung a transfer should try to reach. -/
inductive Verify
  | size | hash | reread
  deriving DecidableEq

/-- Whether the content was verified, and by which rung. -/
inductive ContentCheck
  | skipped | hashed | reread | unavailable
  deriving DecidableEq

/-- Whether the partial a resume adopted was proven to be a prefix. -/
inductive ResumeCheck
  | skipped | matched | unavailable
  deriving DecidableEq

/-- Whether a length was compared. -/
inductive SizeCheck
  | matched | unavailable | skipped
  deriving DecidableEq

/-- Whether timestamps were carried across. -/
inductive TimePreservation
  | preserved | unavailable | skipped
  deriving DecidableEq

/-- The permission bits asked for: exactly these, or the other side's. -/
inductive Mode
  | exactly (bits : ℤ)
  | preserve
  deriving DecidableEq

/-- The size an attribute structure reports. -/
def Attrs.sizeNat (attrs : Attrs) : Option ℕ := attrs.size.map Int.toNat

/-- The length of a local file, or zero if it is not there. -/
def localSize (localFile : Option Bytes) : ℕ := (localFile.getD []).length

variable (connection : Connection)

/-- The digests of a range of the local file, which must be there. -/
def localBlockDigests (algorithm : Bytes) (start length : ℕ) : Session (List Bytes) := do
  match (← MonadState.get).localFile with
  | none => throw .osError
  | some content =>
    pure (blockDigests (connection.server.digest algorithm) content start length
      checkFileBlockSize)

/-- Whether the server's digests of a range match the local file's. Nothing means that the
question could not be asked. -/
def hashesAgree (path : Bytes) (start length : ℕ) : Session (Option Bool) := do
  if ← refuses .checkFile then pure none
  else if length = 0 then pure (some true)
  else
    let handle ← openForRead connection path
    let answer ← finally_
      (tryCatch (some <$> checkFile connection handle start length checkFileBlockSize)
        fun failure => if failure.isServerError then pure none else throw failure)
      (closeQuietly connection handle)
    match answer with
    | none => pure none
    | some (algorithm, theirs) => do
      let mine ← localBlockDigests connection algorithm start length
      pure (some (decide (theirs = mine)))

/-- Whether a range is the same in two contents, block by block. -/
def rangesEqual (left right : Bytes) (start length blockSize : ℕ) : Bool :=
  (blockBounds start length blockSize).all fun offset =>
    blockOf left start length blockSize offset = blockOf right start length blockSize offset

/-- Read a range of an open file back into an empty scratch file. -/
def rereadRange (start length : ℕ) : Session Bytes := .of fun world =>
  match world.script with
  | .reread replies ending :: script =>
    let done := downloadHandle (DescriptorSink.mk []) (some (start + length))
      ⟨connection.readLength, connection.depth⟩ start replies ending.failure
    (done.2.map fun _ => done.1.sink.content, { world with script := script })
  | _ => (.error .killed, world.kill)

/-- Whether a range read back from the server is the same in the local file. -/
def rereadAgrees (path : Bytes) (start length : ℕ) : Session Bool := do
  if length = 0 then pure true
  else
    let handle ← openForRead connection path
    finally_
      (do
        let scratch ← rereadRange connection start length
        match (← MonadState.get).localFile with
        | none => throw .osError
        | some content => pure (rangesEqual scratch content start length checkFileBlockSize))
      (closeQuietly connection handle)

/-- Compare the prefix a resume adopts, at the rung asked for; the server's digests are asked for
where none is. -/
def prefixAgrees (path : Bytes) (adopted : ℕ) : Verify → Session (Option Bool)
  | .reread => some <$> rereadAgrees connection path 0 adopted
  | _ => hashesAgree connection path 0 adopted

/-- Gate the prefix a resume adopts. -/
def gateResume (path : Bytes) (adopted : ℕ) (verify : Verify) : Session ResumeCheck := do
  if adopted = 0 then pure .skipped
  else
    match ← prefixAgrees connection path adopted verify with
    | none => pure .unavailable
    | some false => throw (.transferError (.notAPrefix adopted) 0 (some adopted))
    | some true => pure .matched

/-- Check the whole content at the rung asked for, after a transfer in either direction. -/
def verifyContent (path : Bytes) (expected : ℕ) : Verify → Session ContentCheck
  | .size => pure .skipped
  | .hash => do
    match ← hashesAgree connection path 0 expected with
    | none => pure .unavailable
    | some false => throw (.transferError (.contentDiffers expected) expected (some 0))
    | some true => pure .hashed
  | .reread => do
    if ← rereadAgrees connection path 0 expected then pure .reread
    else throw (.transferError (.contentDiffers expected) expected (some 0))

end GantrySftp
