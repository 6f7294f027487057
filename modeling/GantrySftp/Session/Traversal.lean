import GantrySftp.Library.Program
import GantrySftp.Session.GlobPattern

/-!
# Traversals of a remote tree

Walking, matching and removing a tree ask the server about one path at a time, and build every
path they ask about from the names it listed before. A server is what it answers to each request
after those before it, and nothing else is known of it; a tree may have no end, so a traversal
is given the turns it may take. Paths are resolved against the working directory beforehand.
-/

namespace GantrySftp

open Library

/-- What a traversal asks of the server about a path. -/
inductive TreeRequest
  | realpath (path : Bytes)
  | opendir (path : Bytes)
  | lstat (path : Bytes)
  | remove (path : Bytes)
  | rmdir (path : Bytes)
  deriving DecidableEq

/-- The path a request is about. -/
def TreeRequest.path : TreeRequest → Bytes
  | realpath path | opendir path | lstat path | remove path | rmdir path => path

/-- The entries read from an open directory, and how the reading ended. -/
structure Listing where
  entries : List DirEntry
  ending : Except Failure Unit

/-- A server, by its answers after the requests before. -/
structure TreeServer where
  realpath : List TreeRequest → Bytes → Except Failure Bytes
  opendir : List TreeRequest → Bytes → Except Failure Listing
  lstat : List TreeRequest → Bytes → Except Failure Attrs
  remove : List TreeRequest → Bytes → Except Failure Unit
  rmdir : List TreeRequest → Bytes → Except Failure Unit

/-- What a traversal raises. It raises `unfinished` when its turns are up. -/
inductive TraversalError
  | failure (failure : Failure)
  | unsafePath (directory name : Bytes) (reason : String)
  | patternError (error : Glob.PatternError)
  | unfinished
  deriving DecidableEq

/-- What a traversal did so far: its requests, the default directory once asked for, the
directories it reported, the matches it yielded, and what its caller keeps. -/
structure Visit (σ : Type) where
  sent : List TreeRequest
  root : Option Bytes
  walked : List WalkEntry
  matched : List GlobMatch
  held : σ

/-- A traversal that has done nothing, in a session that may have asked for the default
directory before. -/
def Visit.fresh {σ : Type} (root : Option Bytes) (held : σ) : Visit σ where
  sent := []
  root := root
  walked := []
  matched := []
  held := held

/-- Traversals. -/
abbrev Traversal (σ : Type) := Program (Visit σ) TraversalError

/-! ## Requests -/

section Requests

variable {σ : Type} (server : TreeServer)

/-- Send one request, and take its answer as it is. -/
def ask {α : Type} (request : TreeRequest) (answer : List TreeRequest → Except Failure α) :
    Traversal σ (Except Failure α) :=
  .of fun visit => (.ok (answer visit.sent), { visit with sent := visit.sent ++ [request] })

/-- Raise a failure. -/
def raise {α : Type} (failure : Failure) : Traversal σ α := throw (.failure failure)

/-- Raise what was answered, unless it is a value. -/
def orRaise {α : Type} : Except Failure α → Traversal σ α
  | .ok value => pure value
  | .error failure => raise failure

/-- Remove a file. -/
def removeFile (path : Bytes) : Traversal σ Unit := do
  orRaise (← ask (.remove path) fun sent => server.remove sent path)

/-- Remove an empty directory. -/
def removeDirectory (path : Bytes) : Traversal σ Unit := do
  orRaise (← ask (.rmdir path) fun sent => server.rmdir sent path)

/-- The attributes of a path, or nothing where it is reported missing. -/
def attrsOrAbsent (path : Bytes) : Traversal σ (Option Attrs) := do
  match ← ask (.lstat path) fun sent => server.lstat sent path with
  | .ok attrs => pure (some attrs)
  | .error failure => if failure.isNoSuchFile then pure none else raise failure

/-- Read a directory's entries one at a time, less the directory itself and its parent. How the
reading ended comes after what was done at each entry. -/
def scandir {β : Type} (directory : Bytes) (each : β → DirEntry → Traversal σ β) (init : β) :
    Traversal σ (β × Except Failure Unit) := do
  match ← ask (.opendir directory) fun sent => server.opendir sent directory with
  | .error failure => pure (init, .error failure)
  | .ok listing =>
    let result ← (listing.entries.filter fun entry => entry.filename ∉ dotNames).foldlM each init
    pure (result, listing.ending)

/-- The directory that relative paths start from. -/
def here : Bytes := ".".toUTF8.toList

/-- The server's default directory, asked for once. -/
def defaultRoot : Traversal σ Bytes := do
  match (← MonadState.get).root with
  | some root => pure root
  | none => do
    let root ← orRaise (← ask (.realpath here) fun sent => server.realpath sent here)
    modify fun visit => { visit with root := some root }
    pure root

/-- Refuse a relative path on a server whose default directory is not rooted. -/
def requireRooted (path : Bytes) (feature : String) : Traversal σ Unit := do
  if path.head? = some slash then pure ()
  else
    let root ← defaultRoot server
    if root.head? = some slash then pure () else raise (.capabilityError feature [])

/-! ## Walking -/

/-- What an entry is, asking the server when its listing did not say; nothing where it is no
longer there. -/
def settleKind (path : Bytes) (entry : DirEntry) : Traversal σ (Option EntryKind) := do
  if entry.kind = .unknown then
    let attrs ← attrsOrAbsent server path
    pure (attrs.map entryKind)
  else pure (some entry.kind)

/-- What an entry is, or why a walk passes over it. -/
def settleForWalk (path : Bytes) (entry : DirEntry) : Traversal σ (Except SkipReason EntryKind) :=
  tryCatch
    (do
      match ← settleKind server path entry with
      | some kind => pure (.ok kind)
      | none => pure (.error .vanished))
    fun error =>
      match error with
      | .failure failure =>
        if failure.isServerError then pure (.error .kindRefused) else throw error
      | _ => throw error

/-- Pass over a child. -/
def WalkEntry.skip (visited : WalkEntry) (child : DirEntry) (reason : SkipReason) : WalkEntry :=
  let path := joinRemote visited.path child.filename
  { visited with
    skipped := visited.skipped ++ [Skipped.mk path child reason] }

/-- Sort one child into what a walk descends into, the regular files, and the rest. -/
def WalkEntry.sort (visited : WalkEntry) (atLimit : Bool) (child : DirEntry) :
    Except SkipReason EntryKind → WalkEntry
  | .error reason => visited.skip child reason
  | .ok .directory =>
    if atLimit then visited.skip child .tooDeep
    else { visited with directories := visited.directories ++ [child] }
  | .ok .file => { visited with files := visited.files ++ [child] }
  | .ok kind => visited.skip child (skipReason kind)

/-- A directory of which nothing was read. -/
def WalkEntry.unread (directory : Bytes) (relative : List Bytes) : WalkEntry where
  path := directory
  relative := relative
  directories := []
  files := []
  skipped := []

/-- Sort one child, once it is settled what it is. -/
def walkChild (atLimit : Bool) (visited : WalkEntry) (child : DirEntry) :
    Traversal σ WalkEntry := do
  let settled ← settleForWalk server (joinRemote visited.path child.filename) child
  pure (visited.sort atLimit child settled)

/-- Whether a directory is as deep as a walk goes. -/
def atLimit (maxDepth : Option ℕ) (relative : List Bytes) : Bool :=
  maxDepth.any (· ≤ relative.length)

/-- List one directory and sort its entries. -/
def walkOne (directory : Bytes) (relative : List Bytes) (maxDepth : Option ℕ) :
    Traversal σ WalkEntry := do
  let (visited, ending) ← scandir server directory (walkChild server (atLimit maxDepth relative))
    (.unread directory relative)
  orRaise ending
  pure visited

/-- The directories below one that was visited, with the names they are reached by. -/
def WalkEntry.below (visited : WalkEntry) : List (Bytes × List Bytes) :=
  visited.directories.map fun child =>
    (joinRemote visited.path child.filename, visited.relative ++ [child.filename])

/-- Report a directory. -/
def report (visited : WalkEntry) : Traversal σ Unit :=
  modify fun visit => { visit with walked := visit.walked ++ [visited] }

/-- Visit the pending directories, the last found first, and do something at each. -/
def walkPending {β : Type} (maxDepth : Option ℕ) (each : β → WalkEntry → Traversal σ β) :
    (turns : ℕ) → β → (pending : List (Bytes × List Bytes)) → Traversal σ β
  | _, result, [] => pure result
  | 0, _, _ :: _ => throw .unfinished
  | turns + 1, result, (directory, relative) :: pending => do
    let visited ← walkOne server directory relative maxDepth
    report visited
    let result ← each result visited
    walkPending maxDepth each turns result (visited.below ++ pending)

/-- Walk a tree from its root, top down. -/
def walk {β : Type} (turns : ℕ) (maxDepth : Option ℕ) (each : β → WalkEntry → Traversal σ β)
    (init : β) (root : Bytes) : Traversal σ β := do
  requireRooted server root "walking a tree"
  walkPending server maxDepth each turns init [(root, [])]

/-! ## Removing -/

/-- Remove what one directory held, and the directory. -/
def removeVisited (visited : WalkEntry) : Traversal σ Unit := do
  visited.files.forM fun child => removeFile server (joinRemote visited.path child.filename)
  visited.skipped.forM fun skipped => removeFile server skipped.path
  removeDirectory server visited.path

/-- How many files and how many directories were removed. -/
abbrev Removed := ℕ × ℕ

/-- Remove a tree, bottom up, once all of it was walked. -/
def rmtree (turns : ℕ) (root : Bytes) : Traversal σ Removed := do
  let entries ← walk server turns none (fun entries visited => pure (entries ++ [visited])) [] root
  entries.reverse.forM (removeVisited server)
  pure ((entries.map fun visited => visited.files.length + visited.skipped.length).sum,
    entries.length)

end Requests

/-! ## Matching -/

section Matching

variable {σ : Type} (server : TreeServer) (turns : ℕ) (maxDepth : Option ℕ)
  (caseSensitive directoriesOnly : Bool)

/-- The directory to list for a path that may have no components. -/
def orHere (directory : Bytes) : Bytes := if directory = [] then here else directory

/-- Take the spelling of the default directory off a path. -/
def stripDotPrefix (path : Bytes) : Bytes :=
  if path = here then []
  else if (here ++ [slash]).isPrefixOf path then path.drop 2 else path

/-- Refuse a name that is no path component. -/
def checkListedName (directory name : Bytes) : Traversal σ Bytes :=
  match remoteComponentReason name with
  | none => pure name
  | some reason => throw (.unsafePath directory name reason)

/-- Whether a name matches a component, raising what the component is refused for. -/
def matches_ (component name : Bytes) : Traversal σ Bool :=
  match matchComponent caseSensitive component name with
  | .ok matched => pure matched
  | .error error => throw (.patternError error)

/-- Whether a matched entry is a directory. An entry that is gone is none; one the server does
not describe is refused. -/
def isDirectory (path : Bytes) (entry : DirEntry) : Traversal σ Bool := do
  match ← settleKind server path entry with
  | some .unknown =>
    raise (.capabilityError "glob() against a server that sends no permission bits" [])
  | settled => pure (settled = some .directory)

/-- Yield a match. -/
def yield_ (path : Bytes) (entry : DirEntry) : Traversal σ Unit :=
  modify fun visit =>
    { visit with matched := visit.matched ++ [{ path := path, entry := entry }] }

/-- Do something with an entry whose name matches: go on below it, or yield it. -/
def matchEntry (deeper : Option (Bytes → Traversal σ Unit)) (path : Bytes) (entry : DirEntry) :
    Traversal σ Unit := do
  match deeper with
  | some descend => if ← isDirectory server path entry then descend path else pure ()
  | none =>
    if directoriesOnly then
      if ← isDirectory server path entry then yield_ path entry else pure ()
    else yield_ path entry

/-- Match one entry of a directory against a component. -/
def matchListed (head : Bytes) (deeper : Option (Bytes → Traversal σ Unit)) (directory : Bytes)
    (entry : DirEntry) : Traversal σ Unit := do
  let name ← checkListedName directory entry.filename
  if ← matches_ caseSensitive head name then
    matchEntry server directoriesOnly deeper (joinRemote directory name) entry
  else pure ()

/-- Match the entries of a directory against a component. A directory that is not there has
none. -/
def matchLevel (head : Bytes) (deeper : Option (Bytes → Traversal σ Unit)) (directory : Bytes) :
    Traversal σ Unit := do
  let (_, ending) ← scandir server (orHere directory)
    (fun (_ : Unit) entry =>
      matchListed server caseSensitive directoriesOnly head deeper directory entry) ()
  match ending with
  | .ok () => pure ()
  | .error failure => if failure.isNoSuchFile then pure () else raise failure

/-- The component that a trailing `**` stands before. -/
def everything : Bytes := "*".toUTF8.toList

/-- Match components against the contents of a directory, descending as needed. -/
def matchIn : (components : List Bytes) → (directory : Bytes) → Traversal σ Unit
  | [], _ => pure ()
  | head :: rest, directory =>
    if head = recursive then
      walk server turns maxDepth
        (fun (_ : Unit) visited =>
          let reached := if directory = [] then stripDotPrefix visited.path else visited.path
          match rest with
          | [] => matchLevel server caseSensitive directoriesOnly everything none reached
          | _ :: _ => matchIn rest reached)
        () (orHere directory)
    else
      matchLevel server caseSensitive directoriesOnly head
        (match rest with
          | [] => none
          | _ :: _ => some (matchIn rest))
        directory

/-- Resolve a pattern that has no magic in it. -/
def literal (path : Bytes) : Traversal σ Unit := do
  match ← attrsOrAbsent server path with
  | none => pure ()
  | some attrs =>
    if directoriesOnly ∧ entryKind attrs ≠ .directory then pure ()
    else yield_ path { filename := (splitParent path).2, attrs := attrs }

/-- Match a pattern against remote names. -/
def glob (pattern : Bytes) : Traversal σ Unit := do
  match validatePattern pattern with
  | .error error => throw (.patternError error)
  | .ok () => pure ()
  requireRooted server pattern "globbing"
  let (base, components, directoriesOnly) := splitPattern pattern caseSensitive
  match components with
  | [] => literal server directoriesOnly base
  | _ :: _ => matchIn server turns maxDepth caseSensitive directoriesOnly components base

end Matching

end GantrySftp
