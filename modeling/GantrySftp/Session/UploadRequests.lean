import GantrySftp.Session.AtomicPut

/-!
# What the requests of an upload do

Every step of an upload takes from the front of the script, adds to the end of the trace, and
leaves the local file alone. An OPEN, a REMOVE or a rename either did to its files what it says
or left them as they were, and an answer that passes for success says that it did.
-/

namespace GantrySftp

open Library Program Relation

/-! ## What every step keeps -/

/-- A later state of the same process. -/
structure Continues (world world' : World) : Prop where
  script : world'.script <:+ world.script
  localFile : world'.localFile = world.localFile
  trace : world.trace <+: world'.trace

/-- One state after another, and another after that. -/
theorem Continues.trans {first second third : World} (h : Continues first second)
    (h' : Continues second third) : Continues first third where
  script := h'.script.trans h.script
  localFile := h'.localFile.trans h.localFile
  trace := h.trace.trans h'.trace

section Steps

variable {world world' : World}

/-- Serving a request. -/
theorem Served.continues {server : Server} {req : Request} {others : List Change}
    {answer : Except Failure Reply} (h : Served server req world others answer world') :
    Continues world world' :=
  ⟨h.script_suffix, h.localFile, ⟨_, h.trace.symm⟩⟩

/-- Appending a record. -/
theorem Appended.continues {record : Bytes} {fate : AppendFate}
    (h : Appended record world fate world') : Continues world world' :=
  ⟨⟨[.append fate], h.script.symm⟩, h.localFile, ⟨_, h.trace.symm⟩⟩

/-- Sending the local file. -/
theorem Uploaded.continues {handle : Handle} {start : ℕ} {result : Except Failure ℕ}
    (h : Uploaded handle start world result world') : Continues world world' := by
  obtain ⟨turn, hscript⟩ := h.script
  obtain ⟨writes, -, -, -, htrace⟩ := h.outcome
  obtain ⟨moments, hmoments, -⟩ := foldl_wrote_trace handle world writes
  exact ⟨⟨[turn], hscript.symm⟩, h.localFile, ⟨moments, (htrace.trans hmoments).symm⟩⟩

/-- What a session does between the requests that matter. -/
theorem Idle.continues {connection : Connection} (h : Idle connection world world') :
    Continues world world' := by
  cases h with
  | served hreads hserved => exact hserved.continues
  | own unsupported folded root hscript => exact ⟨hscript, rfl, List.prefix_rfl⟩

/-- Every step of an upload. -/
theorem Step.continues {job : Job} {phase phase' : Phase}
    (h : Step job (phase, world) (phase', world')) : Continues world world' := by
  cases h with
  | idle phase h => exact h.continues
  | unrecorded h => exact ⟨List.suffix_rfl, rfl, List.prefix_rfl⟩
  | recorded hjournal h => exact h.continues
  | planned h => exact ⟨List.suffix_rfl, rfl, List.prefix_rfl⟩
  | opened h => exact h.continues
  | uploaded h => exact h.continues
  | renamed hreq h => exact h.continues
  | removed h => exact h.continues
  | renamedAgain h => exact h.continues
  | discarded hphase h => exact h.continues
  | unsettled hjournal hphase => exact ⟨List.suffix_rfl, rfl, List.prefix_rfl⟩
  | settled hjournal hphase h => exact h.continues

end Steps

/-! ## WRITEs in the trace -/

/-- The WRITE to a file that a moment records, if it does. -/
def Moment.writeTo (file : Bytes) (moment : Moment) : Option Placed :=
  match moment.event with
  | .wrote handle offset payload => if handle.file = file then some (offset, payload) else none
  | _ => none

/-- The WRITEs to a file, in the order they were performed. -/
def writesTo (file : Bytes) (trace : List Moment) : List Placed :=
  trace.filterMap (Moment.writeTo file)

/-- Serving a request writes nothing. -/
theorem Served.writesTo_eq {server : Server} {req : Request} {world world' : World}
    {others : List Change} {answer : Except Failure Reply}
    (h : Served server req world others answer world') (file : Bytes) :
    writesTo file world'.trace = writesTo file world.trace := by
  rw [h.trace]
  simp [writesTo, Moment.writeTo]

/-- Appending a record writes nothing on the server. -/
theorem Appended.writesTo_eq {record : Bytes} {world world' : World} {fate : AppendFate}
    (h : Appended record world fate world') (file : Bytes) :
    writesTo file world'.trace = writesTo file world.trace := by
  rw [h.trace]
  simp [writesTo, Moment.writeTo]

/-- Between the requests that matter nothing is written. -/
theorem Idle.writesTo_eq {connection : Connection} {world world' : World}
    (h : Idle connection world world') (file : Bytes) :
    writesTo file world'.trace = writesTo file world.trace := by
  cases h with
  | served hreads hserved => exact hserved.writesTo_eq file
  | own unsupported folded root hscript => rfl

/-- WRITEs through a handle are the WRITEs to its file. -/
theorem writesTo_foldl_wrote (handle : Handle) (world : World) (writes : List Placed) :
    writesTo handle.file (writes.foldl (World.wrote handle) world).trace =
      writesTo handle.file world.trace ++ writes := by
  induction writes generalizing world with
  | nil => simp
  | cons write rest ih =>
    have hwrote : writesTo handle.file (World.wrote handle world write).trace =
        writesTo handle.file world.trace ++ [write] := by
      simp [World.wrote, World.record, writesTo, Moment.writeTo]
    rw [List.foldl_cons, ih, hwrote, List.append_assoc, List.singleton_append]

/-! ## What the requests of an upload do -/

/-- What a file holds that was just opened. -/
def OpenFlag.opened (flags : OpenFlag) (before : Option Bytes) : Bytes :=
  if flags.truncates then [] else before.getD []

/-- Opening a file again changes nothing. -/
@[simp] theorem OpenFlag.opened_opened (flags : OpenFlag) (before : Option Bytes) :
    flags.opened (some (flags.opened before)) = flags.opened before := by
  unfold opened
  split_ifs <;> rfl

/-- Opening a file gives a handle to it, and puts there what it holds once it is open. -/
theorem Server.perform_open {server : Server} {files files' : Files} {path : Bytes}
    {pflags : OpenFlag} {attrs : Attrs} {reply : Reply}
    (h : server.perform files (.open_ path pflags attrs) = .ok (files', reply)) :
    reply = .handle ⟨server.resolve path⟩ ∧
      files' (server.resolve path) = some (pflags.opened (files (server.resolve path))) ∧
      (pflags.excludes = true → files (server.resolve path) = none) := by
  unfold perform at h
  dsimp only at h
  cases hfile : files (server.resolve path) with
  | none =>
    rw [hfile] at h
    dsimp only at h
    split_ifs at h
    obtain ⟨rfl, rfl⟩ := Prod.mk.inj (Except.ok.inj h)
    refine ⟨rfl, ?_, fun _ => rfl⟩
    rw [Files.put_self, OpenFlag.opened, Option.getD_none, ite_self]
  | some content =>
    rw [hfile] at h
    dsimp only at h
    split_ifs at h with hexcludes htruncates
    · obtain ⟨rfl, rfl⟩ := Prod.mk.inj (Except.ok.inj h)
      refine ⟨rfl, ?_, fun hexcluded => absurd hexcluded hexcludes⟩
      rw [Files.put_self, OpenFlag.opened, if_pos htruncates]
    · obtain ⟨rfl, rfl⟩ := Prod.mk.inj (Except.ok.inj h)
      refine ⟨rfl, ?_, fun hexcluded => absurd hexcluded hexcludes⟩
      rw [hfile, OpenFlag.opened, if_neg htruncates, Option.getD_some]

/-- What passes for success is a STATUS of OK or EOF. -/
theorem status_of_passed {answer : Except Failure Reply} (h : verdict answer = .passed) :
    ∃ code message, answer = .ok (.status code message) ∧ (code = .ok ∨ code = .eof) := by
  unfold verdict at h
  split at h
  · next code message =>
    split_ifs at h with hcode
    exact ⟨code, message, rfl, hcode⟩
  · cases h

namespace Served

variable {server : Server} {world world' : World} {others : List Change}
  {answer : Except Failure Reply} {path : Bytes} {names : List Bytes}

/-- A file that was to be opened is as it was or as opening leaves it. -/
theorem open_cases {pflags : OpenFlag} {attrs : Attrs}
    (h : Served server (.open_ path pflags attrs) world others answer world')
    (hscript : Undisturbed names world.script) (hfile : server.resolve path ∈ names) :
    world'.files (server.resolve path) = world.files (server.resolve path) ∨
      world'.files (server.resolve path) =
        some (pflags.opened (world.files (server.resolve path))) := by
  rw [← h.changed hscript hfile]
  obtain hfiles | hfiles := h.files
  · exact Or.inl (congrFun hfiles _)
  · rw [hfiles, Server.after]
    cases hperform : server.perform (world.files.changed others) (.open_ path pflags attrs) with
    | ok done => exact Or.inr (Server.perform_open hperform).2.1
    | error code => exact Or.inl rfl

/-- A handle is given to a file that was opened. -/
theorem opened_handle {pflags : OpenFlag} {attrs : Attrs} {handle : Handle}
    (h : Served server (.open_ path pflags attrs) world others (.ok (.handle handle)) world')
    (hscript : Undisturbed names world.script) (hfile : server.resolve path ∈ names) :
    handle.file = server.resolve path ∧
      world'.files (server.resolve path) =
        some (pflags.opened (world.files (server.resolve path))) ∧
      (pflags.excludes = true → world.files (server.resolve path) = none) := by
  obtain ⟨hhandle, hopened⟩ := Server.perform_open (h.opened rfl)
  rw [h.changed hscript hfile] at hopened
  exact ⟨congrArg Handle.file (Reply.handle.inj hhandle), hopened⟩

/-- A file that was to be removed is as it was or gone. -/
theorem remove_cases (h : Served server (.remove path) world others answer world')
    (hscript : Undisturbed names world.script) (hfile : server.resolve path ∈ names) :
    world'.files (server.resolve path) = world.files (server.resolve path) ∨
      world'.files (server.resolve path) = none := by
  rw [← h.changed hscript hfile]
  obtain hfiles | hfiles := h.files
  · exact Or.inl (congrFun hfiles _)
  · rw [hfiles, Server.after, Server.perform]
    cases hcontent : world.files.changed others (server.resolve path) with
    | none => exact Or.inl hcontent
    | some content => exact Or.inr (Files.put_self _ _ _)

end Served

/-- A rename of one path to another, of either kind. -/
def Request.Renames (oldpath newpath : Bytes) (req : Request) : Prop :=
  req = .rename oldpath newpath ∨ req = .posixRename oldpath newpath

/-- Renaming moves the file, if it is there. -/
theorem Server.perform_renames {server : Server} {files files' : Files} {req : Request}
    {oldpath newpath : Bytes} {reply : Reply} (hreq : req.Renames oldpath newpath)
    (h : server.perform files req = .ok (files', reply)) :
    (files (server.resolve oldpath)).isSome ∧
      files' = files.move (server.resolve oldpath) (server.resolve newpath) := by
  obtain rfl | rfl := hreq
  all_goals
    unfold perform at h
    dsimp only at h
    cases hfile : files (server.resolve oldpath) with
    | none =>
      rw [hfile] at h
      cases h
    | some content =>
      rw [hfile] at h
      exact ⟨rfl, (Prod.mk.inj (Except.ok.inj h)).1.symm⟩

/-- What a rename that was performed did to the two files. -/
structure Files.Moved (files files' : Files) (old new : Bytes) : Prop where
  there : (files old).isSome
  atNew : files' new = files old
  atOld : old ≠ new → files' old = none

/-- A move over another name, seen at the two names. -/
theorem Files.moved_of_move {files before files' : Files} {old new : Bytes}
    (hthere : (before old).isSome) (hbefore : before old = files old)
    (hmove : files' = before.move old new) : files.Moved files' old new where
  there := hbefore ▸ hthere
  atNew := by rw [hmove, Files.move_new, hbefore]
  atOld := fun hne => by rw [hmove, Files.move_old hne]

/-- After a rename the file that was moved is gone from its old name, unless that is the new
one. -/
theorem Files.Moved.remains {files files' : Files} {old new content : Bytes}
    (h : files.Moved files' old new) (hcontent : files old = some content) :
    files' old = some content ∨ files' old = none := by
  by_cases hsame : old = new
  · subst hsame
    exact Or.inl (h.atNew.trans hcontent)
  · exact Or.inr (h.atOld hsame)

namespace Served

variable {server : Server} {req : Request} {world world' : World} {others : List Change}
  {answer : Except Failure Reply} {oldpath newpath : Bytes} {names : List Bytes}

/-- A rename was performed or it left both files alone. -/
theorem rename_cases (h : Served server req world others answer world')
    (hreq : req.Renames oldpath newpath) (hscript : Undisturbed names world.script)
    (hold : server.resolve oldpath ∈ names) :
    world'.files = world.files.changed others ∨
      world.files.Moved world'.files (server.resolve oldpath) (server.resolve newpath) := by
  obtain hfiles | hfiles := h.files
  · exact Or.inl hfiles
  · unfold Server.after at hfiles
    cases hperform : server.perform (world.files.changed others) req with
    | ok done =>
      rw [hperform] at hfiles
      obtain ⟨hthere, hmove⟩ := Server.perform_renames hreq hperform
      exact Or.inr (Files.moved_of_move hthere (h.changed hscript hold) (hfiles.trans hmove))
    | error code =>
      rw [hperform] at hfiles
      exact Or.inl hfiles

/-- A rename that passes for success was performed, unless EOF was answered. -/
theorem renamed (h : Served server req world others answer world')
    (hreq : req.Renames oldpath newpath) (hscript : Undisturbed names world.script)
    (hold : server.resolve oldpath ∈ names) (hpassed : verdict answer = .passed) :
    world.files.Moved world'.files (server.resolve oldpath) (server.resolve newpath) ∨
      world'.files = world.files.changed others ∧
        ∃ message, answer = .ok (.status .eof message) := by
  obtain ⟨code, message, rfl, rfl | rfl⟩ := status_of_passed hpassed
  · obtain ⟨hthere, hmove⟩ := Server.perform_renames hreq (h.performed rfl)
    exact Or.inl (Files.moved_of_move hthere (h.changed hscript hold) hmove)
  · exact Or.inr ⟨h.refused rfl nofun, message, rfl⟩

/-- A rename that counts as refused was not performed. -/
theorem unchanged (h : Served server req world others answer world')
    (hrefused : verdict answer = .refused) : world'.files = world.files.changed others := by
  unfold verdict at hrefused
  split at hrefused
  · next code message =>
    split_ifs at hrefused with hcode
    exact h.refused rfl fun hok => hcode (Or.inl hok)
  · cases hrefused

end Served

section Frames

variable {world world' : World} {req : Request} {others : List Change}
  {answer : Except Failure Reply}

/-- A request that only reads leaves an undisturbed file alone. -/
theorem Served.frame_of_reads {server : Server} {names : List Bytes} {file : Bytes}
    (h : Served server req world others answer world') (hreads : req.reads = true)
    (hscript : Undisturbed names world.script) (hfile : file ∈ names) :
    world'.files file = world.files file := by
  rw [← h.changed hscript hfile]
  obtain hfiles | hfiles := h.files
  · rw [hfiles]
  · rw [hfiles, Server.after_reads hreads]

/-- Between the requests that matter an undisturbed file is left alone. -/
theorem Idle.frame {connection : Connection} {names : List Bytes} {file : Bytes}
    (h : Idle connection world world') (hscript : Undisturbed names world.script)
    (hfile : file ∈ names) : world'.files file = world.files file := by
  cases h with
  | served hreads hserved => exact hserved.frame_of_reads hreads hscript hfile
  | own unsupported folded root hrest => rfl

/-- An exchange is in the trace. -/
theorem Served.mem_trace {server : Server} (h : Served server req world others answer world') :
    ⟨.exchanged req answer, world'.files, world.journal⟩ ∈ world'.trace := by
  rw [h.trace]
  exact List.mem_append_right _ (List.mem_cons_of_mem _ List.mem_cons_self)

end Frames

end GantrySftp
