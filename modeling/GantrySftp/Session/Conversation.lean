import GantrySftp.Session.Put
import GantrySftp.Session.RemoteNames

/-!
# A session against any replies

The session's operations once more, with nothing assumed of the server: it may answer any request
with any reply, depending on everything that was asked before. What it does to its files is left
out. Work on this side of the connection is one step with any outcome.
-/

namespace GantrySftp

open Library

namespace Talk

/-- The wire name of the flush extension. -/
def extensionFsync : Bytes := "fsync@openssh.com".toUTF8.toList

/-- The wire name of the extension that renames over a file. -/
def extensionPosixRename : Bytes := "posix-rename@openssh.com".toUTF8.toList

/-- The wire name of the extension that sets attributes without following a link. -/
def extensionLsetstat : Bytes := "lsetstat@openssh.com".toUTF8.toList

/-- The wire name of the extension that computes digests. -/
def extensionCheckFile : Bytes := "check-file".toUTF8.toList

/-- A request, less its request id. -/
inductive Demand
  | stat (path : Bytes)
  | lstat (path : Bytes)
  | realpath (path : Bytes)
  | open_ (path : Bytes) (pflags : OpenFlag) (attrs : Attrs)
  | close (handle : Handle)
  | setstat (path : Bytes) (attrs : Attrs)
  | fsetstat (handle : Handle) (attrs : Attrs)
  | mkdir (path : Bytes)
  | rmdir (path : Bytes)
  | remove (path : Bytes)
  | rename (oldPath newPath : Bytes)
  | symlink (targetPath linkPath : Bytes)
  | posixRename (oldPath newPath : Bytes)
  | fsync (handle : Handle)
  | lsetstat (path : Bytes) (attrs : Attrs)
  | checkFile (handle : Handle) (algorithms : Bytes) (startOffset length blockSize : ℕ)
  deriving DecidableEq

/-- The extension a request is for. -/
def Demand.extension : Demand → Option Bytes
  | posixRename _ _ => some extensionPosixRename
  | fsync _ => some extensionFsync
  | lsetstat _ _ => some extensionLsetstat
  | checkFile _ _ _ _ _ => some extensionCheckFile
  | _ => none

/-- What a request comes to: a reply, or none. -/
abbrev Answer := Except Interruption Reply

/-- One step of a session: a request with its answer, or work on this side. -/
inductive Deed
  | asked (demand : Demand) (answer : Answer)
  | worked
  deriving DecidableEq

/-- What a session has learned, and everything it did. -/
structure Conversation where
  unsupported : List Bytes
  root : Option Bytes
  deeds : List Deed

/-- A session that was just opened. -/
def Conversation.fresh : Conversation where
  unsupported := []
  root := none
  deeds := []

/-- The two ends of a session. The server advertises extensions and answers each request; on this
side there are digests that can be computed, a local file and a journal. What becomes of a step
may depend on everything before it. -/
structure Line where
  advertised : List Bytes
  profile : ServerProfile
  answer : List Deed → Demand → Answer
  hashlib : List Bytes
  localSize : List Deed → ℕ
  localMode : List Deed → Except Failure ℤ
  localTimes : List Deed → Except Failure Times
  transfer : List Deed → Except Failure ℕ
  compared : List Deed → Except Failure (Option Bool)
  reread : List Deed → Except Failure Bool
  journal : List Deed → Except Failure Unit
  continuing : List Deed → Except Failure (Option Bytes)

end Talk

open Talk

/-- Operations of a session, with nothing assumed of the server. -/
abbrev Talk := Program Conversation Failure

namespace Talk

/-! ## Steps -/

/-- The answer to a request was taken note of. -/
def Conversation.heard (conversation : Conversation) (line : Line) (demand : Demand) :
    Conversation :=
  { conversation with
    deeds := conversation.deeds ++ [.asked demand (line.answer conversation.deeds demand)] }

/-- Work was done on this side. -/
def Conversation.worked (conversation : Conversation) : Conversation :=
  { conversation with deeds := conversation.deeds ++ [.worked] }

/-- An extension is remembered as unknown to the server. -/
def Conversation.learn (conversation : Conversation) (extension : Bytes) : Conversation :=
  { conversation with unsupported := extension :: conversation.unsupported }

variable (line : Line)

/-- Send one request and wait for its reply. -/
def ask (demand : Demand) : Talk Reply := .of fun conversation =>
  ((line.answer conversation.deeds demand).mapError Interruption.failure,
    conversation.heard line demand)

/-- Do work on this side. -/
def work {α : Type} (outcome : List Deed → Except Failure α) : Talk α := .of fun conversation =>
  (outcome conversation.deeds, conversation.worked)

/-- Raise what a check raised. -/
def orRaise {α : Type} : Except Failure α → Talk α
  | .ok value => pure value
  | .error failure => throw failure

/-! ## Single requests -/

/-- Send a request whose answer is a STATUS, and check it. -/
def expectStatus (demand : Demand) (path : Option Bytes) : Talk Unit := do
  match ← ask line demand with
  | .status code message => orRaise (raiseForStatus code message path)
  | reply => throw (unexpected reply none)

/-- Send a request whose answer is an attribute structure. -/
def expectAttrs (demand : Demand) (path : Bytes) : Talk Attrs := do
  match ← ask line demand with
  | .attrs attrs => pure attrs
  | reply => throw (unexpected reply (some path))

/-- The attributes of a path, following symbolic links. -/
def stat (path : Bytes) : Talk Attrs := expectAttrs line (.stat path) path

/-- The attributes of a path, following nothing. -/
def lstat (path : Bytes) : Talk Attrs := expectAttrs line (.lstat path) path

/-- The canonical form of a path. -/
def realpath (path : Bytes) : Talk Bytes := do
  match ← ask line (.realpath path) with
  | .name [filename] => pure filename
  | .name filenames => throw (.protocolError (.notOneName filenames.length))
  | reply => throw (unexpected reply (some path))

/-- The attributes a file is opened with. -/
def openAttrs : Option ℤ → Attrs
  | none => emptyAttrs
  | some mode => { permissions := some mode }

/-- Open a file. -/
def openFile (path : Bytes) (pflags : OpenFlag) (mode : Option ℤ) : Talk Handle := do
  match ← ask line (.open_ path pflags (openAttrs mode)) with
  | .handle handle => pure handle
  | reply => throw (unexpected reply (some path))

/-- Close a handle. -/
def close (handle : Handle) : Talk Unit := expectStatus line (.close handle) none

/-- Remove a file. -/
def remove (path : Bytes) : Talk Unit := expectStatus line (.remove path) (some path)

/-- Remove an empty directory. -/
def rmdir (path : Bytes) : Talk Unit := expectStatus line (.rmdir path) (some path)

/-- Rename a file. -/
def rename (oldPath newPath : Bytes) : Talk Unit :=
  expectStatus line (.rename oldPath newPath) (some newPath)

/-- Make a symbolic link. -/
def symlink (target linkPath : Bytes) : Talk Unit :=
  expectStatus line (.symlink target linkPath) (some linkPath)

/-- Rename a file over another, in one step. -/
def posixRename (oldPath newPath : Bytes) : Talk Unit :=
  expectStatus line (.posixRename oldPath newPath) (some newPath)

/-- Flush a file to stable storage. -/
def fsync (handle : Handle) : Talk Unit := expectStatus line (.fsync handle) none

/-- The attributes that set permission bits, as far as a mode can carry them. -/
def modeAttrs (mode : ℤ) : Attrs := { permissions := some (maskedMode mode) }

/-- Set the permissions of an open file. -/
def fchmod (handle : Handle) (mode : ℤ) (path : Option Bytes) : Talk Unit :=
  expectStatus line (.fsetstat handle (modeAttrs mode)) path

/-- Set the times of an open file. -/
def futime (handle : Handle) (times : Times) : Talk Unit :=
  expectStatus line (.fsetstat handle { times := some times }) none

/-- Set the length of a file. -/
def truncate (path : Bytes) (size : ℤ) : Talk Unit :=
  expectStatus line (.setstat path { size := some size }) (some path)

/-- Set the length of an open file. -/
def ftruncate (handle : Handle) (size : ℤ) : Talk Unit :=
  if size < 0 then throw (.valueError s!"size must not be negative, got {size}")
  else expectStatus line (.fsetstat handle { size := some size }) none

/-- Whether a path is a directory, following nothing. -/
def isDirectory (path : Bytes) : Talk Bool :=
  tryCatch (do let attrs ← lstat line path; pure (decide (entryKind attrs = .directory)))
    fun failure => if failure.isServerError then pure false else throw failure

/-- What follows a refusal to make a directory. -/
def mkdirRefused (path : Bytes) (existOk : Bool) (failure : Failure) : Talk Unit :=
  if failure.isServerError ∧ existOk then do
    if ← isDirectory line path then pure () else throw failure
  else throw failure

/-- Make a directory. With `existOk` one that is there will do. -/
def mkdir (path : Bytes) (existOk : Bool) : Talk Unit :=
  tryCatch (expectStatus line (.mkdir path) (some path)) (mkdirRefused line path existOk)

/-! ## Extensions -/

/-- Whether the server advertises an extension. -/
def Line.supports (extension : Bytes) : Bool := line.advertised.contains extension

/-- Whether this session has learned that the server does not know an extension. -/
def refuses (extension : Bytes) : Talk Bool := do
  pure ((← MonadState.get).unsupported.contains extension)

/-- Remember that the server does not know an extension. -/
def learnUnsupported (extension : Bytes) : Talk Unit :=
  modify fun conversation => conversation.learn extension

/-- What a refused attempt at an extension comes to: an advertised extension's refusal is raised
again, an unknown extension is remembered, and any other refusal counts as not performed. -/
def refusedExtension (extension : Bytes) (failure : Failure) : Talk Bool :=
  if failure.isServerError ∧ ¬ line.supports extension then
    if failure.isUnsupported then do
      learnUnsupported extension
      pure false
    else pure false
  else throw failure

/-- Try an extension, saying whether it was performed. -/
def attemptExtension (extension : Bytes) (attempt : Talk Unit) : Talk Bool := do
  if ← refuses extension then pure false
  else tryCatch (do attempt; pure true) (refusedExtension line extension)

/-- An extension's refusal as unknown counts as not performed, advertised or not. -/
def orUnsupported (attempt : Talk Bool) : Talk Bool :=
  tryCatch attempt fun failure => if failure.isUnsupported then pure false else throw failure

/-- Flush a file if the server will, saying whether it did. -/
def fsyncIfSupported (handle : Handle) : Talk Bool :=
  orUnsupported (attemptExtension line extensionFsync (fsync line handle))

/-- Rename over another file in one step if the server will, saying whether it did. -/
def posixRenameIfSupported (oldPath newPath : Bytes) : Talk Bool :=
  orUnsupported (attemptExtension line extensionPosixRename (posixRename line oldPath newPath))

/-- The refusal to set an attribute without following a link. -/
def notWithoutFollowing (operation : String) : Failure :=
  .capabilityError s!"{operation} without following a symlink" ["lsetstat@openssh.com"]

/-- Set attributes of a path. Without following a link there is only the extension. -/
def setOneAttribute (path : Bytes) (attrs : Attrs) (followSymlinks : Bool) (operation : String) :
    Talk Unit :=
  if followSymlinks then expectStatus line (.setstat path attrs) (some path)
  else do
    if ← attemptExtension line extensionLsetstat
        (expectStatus line (.lsetstat path attrs) (some path)) then pure ()
    else throw (notWithoutFollowing operation)

/-- Set the permissions of a path. -/
def chmod (path : Bytes) (mode : ℤ) (followSymlinks : Bool) : Talk Unit :=
  setOneAttribute line path (modeAttrs mode) followSymlinks "chmod"

/-- Set the owner of a path. -/
def chown (path : Bytes) (owner : Owner) (followSymlinks : Bool) : Talk Unit :=
  setOneAttribute line path { owner := some owner } followSymlinks "chown"

/-- Set the times of a path. -/
def utime (path : Bytes) (times : Times) (followSymlinks : Bool) : Talk Unit :=
  setOneAttribute line path { times := some times } followSymlinks "utime"

/-- Remember that the server does not know `check-file`, unless it advertises it. -/
def learnCheckFile : Talk Unit :=
  if line.supports extensionCheckFile then pure () else learnUnsupported extensionCheckFile

/-- Read the reply to a `check-file` request. -/
def checkFileReply : Reply → Talk (Bytes × List Bytes)
  | .digests algorithm digests =>
    if line.hashlib.contains algorithm then pure (algorithm, digests)
    else throw (.protocolError (.unexpectedReply (.digests algorithm digests)))
  | .status .opUnsupported message => do
    learnCheckFile line
    throw (unexpected (.status .opUnsupported message) none)
  | reply => throw (unexpected reply none)

/-- Ask the server for the digests of a range. -/
def checkFile (handle : Handle) (algorithms : Bytes) (startOffset length blockSize : ℕ) :
    Talk (Bytes × List Bytes) := do
  if ← refuses extensionCheckFile then throw (.serverError .opUnsupported [] none)
  else
    let reply ← ask line (.checkFile handle algorithms startOffset length blockSize)
    checkFileReply line reply

/-! ## Trying again -/

/-- Try a request again while it is refused in passing, `retries` times at most. -/
def withTransientRetry {α : Type} (attempt : Talk α) : (retries : ℕ) → Talk α
  | 0 => attempt
  | retries + 1 => tryCatch attempt fun failure =>
    if isTransientRefusal line.profile failure then withTransientRetry attempt retries
    else throw failure

/-- Open a file, trying again while that is refused in passing. -/
def openPatiently (path : Bytes) (pflags : OpenFlag) (mode : Option ℤ) : Talk Handle :=
  withTransientRetry line (openFile line path pflags mode) (transientAttempts - 1)

/-- Close a handle, whatever comes of it short of a cancellation. -/
def closeQuietly (handle : Handle) : Talk Unit :=
  tryCatch (close line handle) fun failure =>
    if failure.isException then pure () else throw failure

/-- Run cleanup after a program, whether it returns or raises. What the cleanup raises replaces
the outcome. -/
def finally_ {α : Type} (program : Talk α) (cleanup : Talk Unit) : Talk α := do
  let value ← tryCatch program fun failure => do
    cleanup
    throw failure
  cleanup
  pure value

end Talk

end GantrySftp
