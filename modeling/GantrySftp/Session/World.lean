import GantrySftp.Library.Program
import GantrySftp.Session.Download
import GantrySftp.Session.Journal
import GantrySftp.Session.Server

/-!
# What a session works on

The state one process and its server share: the server's files, a local file, the journal, and
what the session has learned. A script says what becomes of each step that can go wrong, one
turn a step; a process whose script is at its end, or whose next step is of another kind, has
been killed there, and nothing it does afterwards has any effect. Every change of the server's
files or of the journal is recorded as a moment, which no operation reads.
-/

namespace GantrySftp

open Library

/-- An optional extension. -/
inductive Extension
  | fsync | posixRename | checkFile
  deriving DecidableEq

/-- What another party does to one file. -/
structure Change where
  file : Bytes
  content : Option Bytes
  deriving DecidableEq

/-- The files after other parties' changes. -/
def Files.changed (files : Files) (changes : List Change) : Files :=
  changes.foldl (fun files change => files.put change.file change.content) files

/-- What becomes of one write to the journal: the identity a new file is created under, how much
is written when that is not all, and what is raised. -/
structure AppendFate where
  device : ℤ
  inode : ℤ
  kept : Option ℕ
  raised : Option Interruption
  deriving DecidableEq

namespace AppendFate

/-- What is written of some bytes. -/
def written (fate : AppendFate) (payload : Bytes) : Bytes :=
  match fate.kept with
  | none => payload
  | some kept => payload.take kept

/-- What a write returns or raises. -/
def outcome (fate : AppendFate) : Except Failure Unit :=
  match fate.raised with
  | none => .ok ()
  | some interruption => .error interruption.failure

end AppendFate

/-- What becomes of rewriting the journal: the new file is in place, after which something may
still be raised, or something is raised before that. -/
inductive RewriteFate
  | replaces (fate : AppendFate)
  | raises (interruption : Interruption)
  deriving DecidableEq

/-- One event of a pipelined upload: the sender hands one WRITE to the server, the server
performs a WRITE it holds, or a reply arrives. -/
inductive UploadEvent
  | send
  | perform (requestId : ℕ)
  | reply (requestId : ℕ) (reply : Reply)
  deriving DecidableEq

/-- What becomes of one step. Other parties act before a request is served. -/
inductive Turn
  | exchange (others : List Change) (fate : Fate)
  | system (raised : Option Interruption)
  | append (fate : AppendFate)
  | compact (fate : RewriteFate)
  | download (replies : List (ℕ × Reply)) (ending : Interruption)
  | reread (replies : List (ℕ × Reply)) (ending : Interruption)
  | upload (events : List UploadEvent) (ending : Interruption)
  deriving DecidableEq

/-- What happened at a moment. -/
inductive Event
  | others
  | exchanged (request : Request) (answer : Except Failure Reply)
  | wrote (handle : Handle) (offset : ℕ) (payload : Bytes)
  | opened (truncated : Bool)
  | downloaded (answered : List Answered)
  | appended (record : Bytes)
  | compacted

/-- An event, and the server's files and the journal after it. -/
structure Moment where
  event : Event
  files : Files
  journal : Option LogFile

/-- The state of one process and its server. -/
structure World where
  files : Files
  localFile : Option Bytes
  journal : Option LogFile
  folded : Folded
  unsupported : List Extension
  root : Option Bytes
  script : List Turn
  trace : List Moment

/-- Operations of a session. -/
abbrev Session := Program World Failure

/-- What is known of a server's error messages. -/
structure ServerProfile where
  informativeMessages : Bool
  transientMessages : List Bytes

/-- Whether a refusal's message is one this server gives when trying again can help. -/
def ServerProfile.classifiesTransient (profile : ServerProfile) (message : Bytes) : Bool :=
  profile.informativeMessages &&
    profile.transientMessages.any fun marker => message.tails.any (marker.isPrefixOf ·)

/-- A session's server, with what was settled when the session was opened: the extensions it
advertises, its profile, payload bytes per request, requests in flight, and the digests that can
be computed on this side. -/
structure Connection where
  server : Server
  extensions : List Extension
  profile : ServerProfile
  readLength : ℕ
  writeLength : ℕ
  depth : ℕ
  hashlib : List Bytes

namespace World

/-- Record an event with the state it left. -/
def record (world : World) (event : Event) : World :=
  { world with
    trace := world.trace ++ [{ event := event, files := world.files, journal := world.journal }] }

/-- The process is gone: no further step has any effect. -/
def kill (world : World) : World := { world with script := [] }

/-- Serve one request. -/
def serve (world : World) (server : Server) (request : Request) (others : List Change)
    (fate : Fate) : Except Failure Reply × World :=
  let before := { world with files := world.files.changed others }.record .others
  let served := server.serve before.files request fate
  (served.2, { before with files := served.1 }.record (.exchanged request served.2))

/-- Append a record to the journal, as its fate has it. -/
def append (world : World) (record : Bytes) (fate : AppendFate) : Except Failure Unit × World :=
  let written := fate.written record
  let file := match world.journal with
    | none => { device := fate.device, inode := fate.inode, content := written }
    | some file => { file with content := file.content ++ written }
  (fate.outcome, { world with journal := some file }.record (.appended written))

/-- Replace the journal by a new file, unless something is raised before that. -/
def replace (world : World) (payload : Bytes) : RewriteFate → Except Failure Unit × World
  | .replaces fate =>
    let file := { device := fate.device, inode := fate.inode, content := fate.written payload }
    (fate.outcome, { world with journal := some file }.record .compacted)
  | .raises interruption => (.error interruption.failure, world)

end World

/-! ## A plain session -/

/-- A server that names files by their paths and whose digests are the contents themselves. -/
def Server.plain : Server where
  resolve := id
  realpath := id
  hashAlgorithm := []
  digest := fun _ content => content

/-- A session with a plain server that advertises nothing, one byte to a request. -/
def Connection.plain (depth : ℕ) : Connection where
  server := .plain
  extensions := []
  profile := { informativeMessages := false, transientMessages := [] }
  readLength := 1
  writeLength := 1
  depth := depth
  hashlib := [[]]

/-- A process that has done nothing yet. -/
def World.starting (files : Files) (localFile : Option Bytes) (script : List Turn) : World where
  files := files
  localFile := localFile
  journal := none
  folded := .fresh
  unsupported := []
  root := none
  script := script
  trace := []

/-! ## Steps -/

/-- Send one request and wait for its reply. -/
def request (connection : Connection) (request : Request) : Session Reply := .of fun world =>
  match world.script with
  | .exchange others fate :: script =>
    { world with script := script }.serve connection.server request others fate
  | _ => (.error .killed, world.kill)

/-- Make a local system call. -/
def systemCall : Session Unit := .of fun world =>
  match world.script with
  | .system raised :: script =>
    (match raised with
      | none => .ok ()
      | some interruption => .error interruption.failure, { world with script := script })
  | _ => (.error .killed, world.kill)

/-- Append one record to the journal. -/
def appendRecord (record : Bytes) : Session Unit := .of fun world =>
  match world.script with
  | .append fate :: script => { world with script := script }.append record fate
  | _ => (.error .killed, world.kill)

/-- Run cleanup after a program, whether it returns or raises. What the cleanup raises replaces
the outcome. -/
def finally_ {α : Type} (program : Session α) (cleanup : Session Unit) : Session α := do
  let value ← tryCatch program fun failure => do
    cleanup
    throw failure
  cleanup
  pure value

end GantrySftp
