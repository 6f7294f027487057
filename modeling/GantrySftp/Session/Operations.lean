import GantrySftp.Session.World

/-!
# Operations

Each operation sends one request and reads one kind of reply. An extension the server did not
advertise is tried anyway and remembered when the server does not know it. A refusal the server
is known to give in passing is tried again.
-/

namespace GantrySftp

open Library

variable (connection : Connection)

/-- Raise what a check raised. -/
def orThrow {α : Type} : Except Failure α → Session α
  | .ok value => pure value
  | .error failure => throw failure

/-- The outcome of a program, which then does not raise. -/
def attempt {α : Type} (program : Session α) : Session (Except Failure α) :=
  tryCatch (Except.ok <$> program) fun failure => pure (.error failure)

/-- Send a request whose answer is a STATUS, and check it. -/
def expectStatus (request : Request) (path : Option Bytes) : Session Unit := do
  match ← GantrySftp.request connection request with
  | .status code message => orThrow (raiseForStatus code message path)
  | reply => throw (unexpected reply none)

/-- Send a request whose answer is an attribute structure. -/
def expectAttrs (request : Request) (path : Bytes) : Session Attrs := do
  match ← GantrySftp.request connection request with
  | .attrs attrs => pure attrs
  | reply => throw (unexpected reply (some path))

/-- The attributes of a path, following symbolic links. -/
def stat (path : Bytes) : Session Attrs := expectAttrs connection (.stat path) path

/-- The attributes of a path, following nothing. -/
def lstat (path : Bytes) : Session Attrs := expectAttrs connection (.lstat path) path

/-- Open a file. -/
def openFile (path : Bytes) (pflags : OpenFlag) (mode : Option ℤ) : Session Handle := do
  let attrs := match mode with
    | none => emptyAttrs
    | some mode => { permissions := some mode }
  match ← request connection (.open_ path pflags attrs) with
  | .handle handle => pure handle
  | reply => throw (unexpected reply (some path))

/-- Close a handle. -/
def close (handle : Handle) : Session Unit := expectStatus connection (.close handle) none

/-- Remove a file. -/
def remove (path : Bytes) : Session Unit := expectStatus connection (.remove path) (some path)

/-- Rename a file. -/
def rename (oldPath newPath : Bytes) : Session Unit :=
  expectStatus connection (.rename oldPath newPath) (some newPath)

/-- Rename a file over another, in one step. -/
def posixRename (oldPath newPath : Bytes) : Session Unit :=
  expectStatus connection (.posixRename oldPath newPath) (some newPath)

/-- Flush a file to stable storage. -/
def fsync (handle : Handle) : Session Unit := expectStatus connection (.fsync handle) none

/-- The permission bits a mode can carry. -/
def permissionBits : ℕ := 0o7777

/-- The lowest twelve bits of a mode: a mask of ones keeps the remainder of a negative one too. -/
def maskedMode (mode : ℤ) : ℤ := mode % (permissionBits + 1)

/-- Set the permissions of an open file. -/
def fchmod (handle : Handle) (mode : ℤ) (path : Option Bytes) : Session Unit :=
  expectStatus connection (.fsetstat handle { permissions := some (maskedMode mode) }) path

/-- Set the times of an open file. -/
def futime (handle : Handle) (times : Times) : Session Unit :=
  expectStatus connection (.fsetstat handle { times := some times }) none

/-- The canonical form of a path. -/
def realpath (path : Bytes) : Session Bytes := do
  match ← request connection (.realpath path) with
  | .name [filename] => pure filename
  | .name filenames => throw (.protocolError (.notOneName filenames.length))
  | reply => throw (unexpected reply (some path))

/-- Whether the server advertises an extension. -/
def Connection.supports (extension : Extension) : Bool := connection.extensions.contains extension

/-- Whether this session has learned that the server does not know an extension. -/
def refuses (extension : Extension) : Session Bool := do
  pure ((← MonadState.get).unsupported.contains extension)

/-- Remember that the server does not know an extension. -/
def learnUnsupported (extension : Extension) : Session Unit :=
  modify fun world => { world with unsupported := extension :: world.unsupported }

/-- What a refused attempt at an extension comes to: an advertised extension's refusal is raised
again, an unknown extension is remembered, and any other refusal counts as not performed. -/
def refusedExtension (extension : Extension) (failure : Failure) : Session Bool :=
  if failure.isServerError ∧ ¬ connection.supports extension then
    if failure.isUnsupported then do
      learnUnsupported extension
      pure false
    else pure false
  else throw failure

/-- Try an extension, saying whether it was performed. -/
def attemptExtension (extension : Extension) (attempt : Session Unit) : Session Bool := do
  if ← refuses extension then pure false
  else
    tryCatch (do attempt; pure true) fun failure => refusedExtension connection extension failure

/-- An extension's refusal as unknown counts as not performed, advertised or not. -/
def orUnsupported (attempt : Session Bool) : Session Bool :=
  tryCatch attempt fun failure => if failure.isUnsupported then pure false else throw failure

/-- Flush a file if the server will, saying whether it did. -/
def fsyncIfSupported (handle : Handle) : Session Bool :=
  orUnsupported (attemptExtension connection .fsync (fsync connection handle))

/-- Rename over another file in one step if the server will, saying whether it did. -/
def posixRenameIfSupported (oldPath newPath : Bytes) : Session Bool :=
  orUnsupported (attemptExtension connection .posixRename (posixRename connection oldPath newPath))

/-- The digests offered in a `check-file` request, in order of preference. -/
def checkFileAlgorithms : Bytes := "sha256,sha1,md5".toUTF8.toList

/-- Remember that the server does not know `check-file`, unless it advertises it. -/
def learnCheckFile : Session Unit :=
  if connection.supports .checkFile then pure () else learnUnsupported .checkFile

/-- Read the reply to a `check-file` request. -/
def checkFileReply : Reply → Session (Bytes × List Bytes)
  | .digests algorithm digests =>
    if connection.hashlib.contains algorithm then pure (algorithm, digests)
    else throw (.protocolError (.unexpectedReply (.digests algorithm digests)))
  | .status .opUnsupported message => do
    learnCheckFile connection
    throw (unexpected (.status .opUnsupported message) none)
  | reply => throw (unexpected reply none)

/-- Ask the server for the digests of a range. -/
def checkFile (handle : Handle) (startOffset length blockSize : ℕ) :
    Session (Bytes × List Bytes) := do
  if ← refuses .checkFile then throw (.serverError .opUnsupported [] none)
  else
    let reply ← request connection
      (.checkFile handle checkFileAlgorithms startOffset length blockSize)
    checkFileReply connection reply

/-! ## Trying again -/

/-- How often a request is tried. -/
def transientAttempts : ℕ := 3

/-- Whether a failure is a refusal that the server is known to give in passing. -/
def isTransientRefusal (profile : ServerProfile) : Failure → Bool
  | .serverError .failure message _ => profile.classifiesTransient message
  | _ => false

/-- Try a request again while it is refused in passing, `retries` times at most. -/
def withTransientRetry {α : Type} (profile : ServerProfile) (attempt : Session α) :
    (retries : ℕ) → Session α
  | 0 => attempt
  | retries + 1 => tryCatch attempt fun failure =>
    if isTransientRefusal profile failure then withTransientRetry profile attempt retries
    else throw failure

/-- Open a file for reading. -/
def openForRead (path : Bytes) : Session Handle :=
  withTransientRetry connection.profile (openFile connection path .read none)
    (transientAttempts - 1)

/-- Close a handle, whatever comes of it short of a cancellation. -/
def closeQuietly (handle : Handle) : Session Unit :=
  tryCatch (close connection handle) fun failure =>
    if failure.isException then pure () else throw failure

end GantrySftp
