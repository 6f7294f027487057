import GantrySftp.Session.Exchanges
import GantrySftp.Session.Put
import GantrySftp.Session.UploadWindow

/-!
# The publishing protocol

What an upload has done to its staging file and its target, as a protocol of phases: recorded,
planned, opened, filled, renamed into place, and on the way out discarded and struck off. Every
upload follows it, whatever becomes of its requests; an upload that returns has reached the end.
-/

namespace GantrySftp

open Library Program Relation

/-! ## Phases and steps -/

/-- What is fixed for one upload. An upload in place stages in the target itself. -/
structure Job where
  connection : Connection
  upload : Upload
  target : Bytes
  staged : Bytes
  pflags : OpenFlag
  journal : Bool
  source : SourceIdentity

namespace Job

variable (job : Job)

/-- The file the staging path names. -/
def stagedFile : Bytes := job.connection.server.resolve job.staged

/-- The file the target names. -/
def targetFile : Bytes := job.connection.server.resolve job.target

/-- The record that the staging file is about to be written. -/
def stagingRecord : Bytes := stagedLine (entryOf job.staged job.target job.source)

end Job

/-- How far an upload has come. In `failing` only the cleanup is left, and in `stranded` not even
that: the staging file may be the only copy. -/
inductive Phase
  | ready | recorded
  | planned (start : ℕ)
  | staging (handle : Handle) (start : ℕ)
  | failing | filled | removed | stranded | published | discarded | done | dropped

namespace Phase

/-- After the staging file's OPEN. -/
def afterOpen (start : ℕ) : Except Failure Reply → Phase
  | .ok (.handle handle) => staging handle start
  | _ => planned start

/-- After the transfer. -/
def afterUpload : Except Failure ℕ → Phase
  | .ok _ => filled
  | .error _ => failing

/-- After a first rename. -/
def afterRename : Verdict → Phase
  | .passed => published
  | .refused => filled
  | .unclear => failing

/-- After the target's REMOVE. -/
def afterRemoval : Verdict → Phase
  | .passed => removed
  | .refused => filled
  | .unclear => stranded

/-- After the rename that follows it. -/
def afterSecondRename : Verdict → Phase
  | .passed => published
  | _ => stranded

/-- Whether a failure leads to the staging file being discarded. -/
inductive Clearing : Phase → Prop
  | staging (handle : Handle) (start : ℕ) : Clearing (staging handle start)
  | failing : Clearing failing
  | filled : Clearing filled

/-- The last step: a published or discarded file is struck off the journal. -/
inductive Settling : Phase → Phase → Prop
  | published : Settling published done
  | discarded : Settling discarded dropped

end Phase

/-- A record was appended to the journal, or part of it. -/
structure Appended (record : Bytes) (world : World) (fate : AppendFate) (world' : World) :
    Prop where
  script : world.script = .append fate :: world'.script
  files : world'.files = world.files
  localFile : world'.localFile = world.localFile
  journal : ∃ file, world'.journal = some file ∧
    file.content = (world.journal.elim [] LogFile.content) ++ fate.written record
  trace : world'.trace =
    world.trace ++ [⟨.appended (fate.written record), world.files, world'.journal⟩]

/-- The local file was sent through a handle, as far as that went: slices of it were written,
and once that returned exactly everything from the start on. -/
structure Uploaded (handle : Handle) (start : ℕ) (world : World) (result : Except Failure ℕ)
    (world' : World) : Prop where
  script : ∃ turn, world.script = turn :: world'.script
  localFile : world'.localFile = world.localFile
  journal : world'.journal = world.journal
  outcome : ∃ writes : List Placed,
    (∀ write ∈ writes, Slice (world.localFile.getD []) write) ∧
    (∀ count, result = .ok count → start ≤ localSize world.localFile ∧
      ∀ i, Covered writes i ↔ start ≤ i ∧ i < localSize world.localFile) ∧
    world'.files = (writes.foldl (World.wrote handle) world).files ∧
    world'.trace = (writes.foldl (World.wrote handle) world).trace

/-- The local file is sent, or the process was killed. -/
theorem exec_uploadFrom (connection : Connection) (handle : Handle) (depth : Option ℕ)
    (start : ℕ) (world : World) :
    Uploaded handle start world ((uploadFrom connection handle depth start).exec world).1
      ((uploadFrom connection handle depth start).exec world).2 ∨
    (uploadFrom connection handle depth start).exec world = (.error .killed, world.kill) := by
  unfold uploadFrom
  rw [exec_of]
  split
  · next events ending script hscript =>
    refine Or.inl ?_
    split
    · refine ⟨⟨_, hscript⟩, rfl, rfl, [], fun _ hmem => absurd hmem List.not_mem_nil, ?_, rfl, rfl⟩
      intro count hcount
      cases hcount
    · next source hlocal =>
      dsimp only
      rw [foldl_wrote_script, foldl_wrote_frame]
      refine ⟨⟨_, hscript⟩, rfl, rfl, _, ?_, fun count hcount => ?_, rfl, rfl⟩
      · rw [hlocal]
        exact slice_of_upload
      · rw [hlocal]
        exact ⟨uploadHandle_start_le hcount, uploadHandle_covered hcount⟩
  · exact Or.inr rfl

/-- Where an upload may start: at the beginning when it does not resume, or when the staging file
was reported missing; else at its end. -/
def Plans (job : Job) (world : World) (start : ℕ) : Prop :=
  job.upload.resume = false ∧ start = 0 ∨
    job.upload.resume = true ∧ (start = localSize (world.files job.stagedFile) ∨
      start = 0 ∧ ∃ moment ∈ world.trace, moment.files = world.files ∧ ∃ message,
        moment.event = .exchanged (.stat job.staged) (.ok (.status .noSuchFile message)))

/-- One step of an upload. -/
inductive Step (job : Job) : Phase × World → Phase × World → Prop
  | idle (phase : Phase) {world world' : World} (h : Idle job.connection world world') :
      Step job (phase, world) (phase, world')
  | unrecorded {world : World} (h : job.journal = false) :
      Step job (.ready, world) (.recorded, world)
  | recorded {world world' : World} {fate : AppendFate} (hjournal : job.journal = true)
      (h : Appended job.stagingRecord world fate world') :
      Step job (.ready, world) (.recorded, world')
  | planned {world : World} {start : ℕ} (h : Plans job world start) :
      Step job (.recorded, world) (.planned start, world)
  | opened {start : ℕ} {attrs : Attrs} {world world' : World} {others : List Change}
      {answer : Except Failure Reply}
      (h : Served job.connection.server (.open_ job.staged job.pflags attrs) world others answer
        world') :
      Step job (.planned start, world) (.afterOpen start answer, world')
  | uploaded {handle : Handle} {start : ℕ} {world world' : World} {result : Except Failure ℕ}
      (h : Uploaded handle start world result world') :
      Step job (.staging handle start, world) (.afterUpload result, world')
  | renamed {req : Request} {world world' : World} {others : List Change}
      {answer : Except Failure Reply}
      (hreq : req = .rename job.staged job.target ∨ req = .posixRename job.staged job.target)
      (h : Served job.connection.server req world others answer world') :
      Step job (.filled, world) (.afterRename (verdict answer), world')
  | removed {world world' : World} {others : List Change} {answer : Except Failure Reply}
      (h : Served job.connection.server (.remove job.target) world others answer world') :
      Step job (.filled, world) (.afterRemoval (verdict answer), world')
  | renamedAgain {world world' : World} {others : List Change} {answer : Except Failure Reply}
      (h : Served job.connection.server (.rename job.staged job.target) world others answer
        world') :
      Step job (.removed, world) (.afterSecondRename (verdict answer), world')
  | discarded {phase : Phase} {world world' : World} {others : List Change}
      {answer : Except Failure Reply} (hphase : phase.Clearing)
      (h : Served job.connection.server (.remove job.staged) world others answer world') :
      Step job (phase, world) (.discarded, world')
  | unsettled {phase phase' : Phase} {world : World} (hjournal : job.journal = false)
      (hphase : phase.Settling phase') : Step job (phase, world) (phase', world)
  | settled {phase phase' : Phase} {world world' : World} {fate : AppendFate}
      (hjournal : job.journal = true) (hphase : phase.Settling phase')
      (h : Appended (publishedLine job.target) world fate world') :
      Step job (phase, world) (phase', world')

/-! ## Steps of the operations -/

/-- What killed the process happened in the phase it was in. -/
theorem step_kill (job : Job) (phase : Phase) (world : World) :
    Step job (phase, world) (phase, world.kill) :=
  .idle phase (idle_kill job.connection world)

/-- What only reads stays in its phase. -/
theorem follows_of_idle {job : Job} {α : Type} {program : Session α}
    (h : Does (Idle job.connection) program) (phase : Phase) :
    Follows (Step job) phase program (fun _ phase' => phase' = phase)
      fun _ phase' => phase' = phase :=
  .of_does h fun _ _ => .idle phase

/-- Appending a record takes one step of a protocol. -/
theorem follows_appendRecord {π : Type} {step : π × World → π × World → Prop} {before after : π}
    {record : Bytes}
    (happended : ∀ world fate world', Appended record world fate world' →
      step (before, world) (after, world'))
    (hkilled : ∀ world : World, step (before, world) (before, world.kill)) :
    Follows step before (appendRecord record) (fun _ phase => phase = after) fun _ _ => True := by
  refine .of fun world => ?_
  split
  · next fate script hscript =>
    refine ⟨after, ?_, happended world fate _ ⟨hscript, rfl, rfl, ?_, rfl⟩⟩
    · unfold World.append AppendFate.outcome
      cases fate.raised with
      | none => rfl
      | some interruption => trivial
    · unfold World.append
      cases world.journal <;> exact ⟨_, rfl, rfl⟩
  · exact ⟨before, trivial, hkilled world⟩

section Operations

variable {job : Job}

/-- Recording the staging file, where there is a journal. -/
theorem follows_recordStaging :
    Follows (Step job) .ready (recordStaging job.journal job.staged job.target job.source)
      (fun _ phase => phase = .recorded) fun _ _ => True := by
  unfold recordStaging
  by_cases hjournal : job.journal = true
  · rw [if_pos hjournal]
    exact follows_appendRecord (fun _ _ _ => .recorded hjournal) (step_kill job _)
  · rw [if_neg hjournal]
    exact .advance (.pure rfl) fun _ => .unrecorded (by simpa using hjournal)

/-- Striking off the journal, where there is one. -/
theorem follows_recordPublished {phase phase' : Phase} (h : phase.Settling phase') :
    Follows (Step job) phase (recordPublished job.journal job.target)
      (fun _ last => last = phase') fun _ _ => True := by
  unfold recordPublished
  by_cases hjournal : job.journal = true
  · rw [if_pos hjournal]
    exact follows_appendRecord (fun _ _ _ => .settled hjournal h) (step_kill job _)
  · rw [if_neg hjournal]
    exact .advance (.pure rfl) fun _ => .unsettled (by simpa using hjournal) h

/-- Attributes are those of a file that is there, and its length only truthfully. -/
theorem Served.attrs {server : Server} {path : Bytes} {world world' : World}
    {others : List Change} {answer : Except Failure Reply} {attrs : Attrs}
    (h : Served server (.stat path) world others answer world')
    (hanswer : answer = .ok (.attrs attrs)) :
    ∃ content, world'.files (server.resolve path) = some content ∧
      ∀ size ∈ attrs.sizeNat, size = content.length := by
  obtain ⟨reply, terse, hperform, hgiven⟩ | ⟨_, _, -, -, hrefused⟩ | ⟨hunclear, -⟩ := h.outcome
  · unfold Server.perform at hperform
    dsimp only at hperform
    cases hfile : world.files.changed others (server.resolve path) with
    | none =>
      rw [hfile] at hperform
      cases hperform
    | some content =>
      rw [hfile] at hperform
      obtain ⟨hfiles, rfl⟩ := Prod.mk.inj (Except.ok.inj hperform)
      refine ⟨content, by rw [← hfiles, hfile], fun size hsize => ?_⟩
      rw [hgiven] at hanswer
      cases terse
      · obtain rfl := Reply.attrs.inj (Except.ok.inj hanswer)
        cases hsize
        rfl
      · obtain rfl := Reply.attrs.inj (Except.ok.inj hanswer)
        cases hsize
  · rw [hrefused] at hanswer
    cases hanswer
  · rw [hanswer] at hunclear
    exact hunclear.elim

/-- What asking for the attributes of a file that may be missing makes of an answer. -/
def foundIn (path : Bytes) : Except Failure Reply → Except Failure (Option Attrs)
  | .ok (.attrs attrs) => .ok (some attrs)
  | .ok reply => missing (unexpected reply (some path))
  | .error failure => missing failure
where
  /-- A failure that says the file is missing counts as an answer. -/
  missing (failure : Failure) : Except Failure (Option Attrs) :=
    if failure.isNoSuchFile then .ok none else .error failure

/-- Whether a file is missing is no attribute. -/
theorem foundIn_missing_ne (failure : Failure) (attrs : Attrs) :
    foundIn.missing failure ≠ .ok (some attrs) := by
  unfold foundIn.missing
  split_ifs <;> simp

/-- Attributes that were found were answered. -/
theorem foundIn_some {path : Bytes} {answer : Except Failure Reply} {attrs : Attrs}
    (h : foundIn path answer = .ok (some attrs)) : answer = .ok (.attrs attrs) := by
  cases answer with
  | error failure => exact absurd h (foundIn_missing_ne failure attrs)
  | ok reply =>
    cases reply with
    | attrs found => rw [Option.some.inj (Except.ok.inj h)]
    | _ => exact absurd h (foundIn_missing_ne _ attrs)

/-- A reply that says the file is missing is a STATUS that does. -/
theorem status_of_unexpected {reply : Reply} {path : Option Bytes}
    (h : (unexpected reply path).isNoSuchFile = true) :
    ∃ message, reply = .status .noSuchFile message := by
  cases reply with
  | status code message =>
    cases code with
    | noSuchFile => exact ⟨message, rfl⟩
    | _ => cases h
  | _ => cases h

/-- A file that is missing was answered to be, unless the answer is missing itself. -/
theorem foundIn_none {path : Bytes} {answer : Except Failure Reply}
    (h : foundIn path answer = .ok none)
    (hanswer : ∀ failure, answer = .error failure → failure.isServerError = false) :
    ∃ message, answer = .ok (.status .noSuchFile message) := by
  have hmissing : ∀ failure, foundIn.missing failure = .ok none →
      failure.isNoSuchFile = true := by
    intro failure hfailure
    by_contra hnot
    rw [foundIn.missing, if_neg hnot] at hfailure
    cases hfailure
  cases answer with
  | error failure =>
    have hrefusal := failure.isServerError_of_isNoSuchFile (hmissing failure h)
    rw [hanswer failure rfl] at hrefusal
    cases hrefusal
  | ok reply =>
    cases reply with
    | attrs found => cases h
    | _ =>
      obtain ⟨message, hreply⟩ := status_of_unexpected (hmissing _ h)
      exact ⟨message, congrArg _ hreply⟩

/-- Asking for the attributes of a file that may be missing is one request. -/
theorem exec_statIfThere (connection : Connection) (path : Bytes) (world : World) :
    (statIfThere connection path).exec world =
      (foundIn path ((request connection (.stat path)).exec world).1,
        ((request connection (.stat path)).exec world).2) := by
  have hhandler : ∀ (failure : Failure) (world : World),
      (if failure.isNoSuchFile then pure none else throw failure :
        Session (Option Attrs)).exec world = (foundIn.missing failure, world) := by
    intro failure world
    unfold foundIn.missing
    split_ifs <;> rfl
  unfold statIfThere stat expectAttrs
  simp only [exec_tryCatch, exec_bind]
  generalize (request connection (.stat path)).exec world = outcome
  obtain ⟨failure | reply, world'⟩ := outcome
  · exact hhandler failure world'
  · cases reply with
    | attrs found => rfl
    | _ => exact hhandler _ world'

/-- Opening the staging file. -/
theorem follows_openFile (start : ℕ) (mode : Option ℤ) :
    Follows (Step job) (.planned start) (openFile job.connection job.staged job.pflags mode)
      (fun handle phase => phase = .staging handle start)
      fun _ phase => phase = .planned start := by
  refine .bind (.weaken (follows_request (fun _ _ _ _ => .opened) (step_kill job _))
    (fun _ _ => id) ?_) fun reply phase hphase => ?_
  · rintro failure phase ⟨-, rfl | ⟨-, rfl⟩⟩ <;> rfl
  · subst hphase
    cases reply with
    | handle handle => exact .pure rfl
    | status _ _ => exact .throw rfl
    | data _ => exact .throw rfl
    | attrs _ => exact .throw rfl
    | name _ => exact .throw rfl
    | digests _ _ => exact .throw rfl

/-- Opening the staging file again after a refusal in passing. -/
theorem follows_openForUpload (start : ℕ) (mode : Option ℤ) :
    Follows (Step job) (.planned start)
      (openForUpload job.connection job.staged job.pflags mode)
      (fun handle phase => phase = .staging handle start)
      fun _ phase => phase = .planned start := by
  unfold openForUpload
  induction transientAttempts - 1 with
  | zero => exact follows_openFile start mode
  | succ retries ih =>
    refine .tryCatch (follows_openFile start mode) fun failure phase hphase => ?_
    subst hphase
    split_ifs
    · exact ih
    · exact .throw rfl

/-- Raising what a check raised leaves the state alone. -/
theorem exec_orThrow {α : Type} (result : Except Failure α) (world : World) :
    (orThrow result).exec world = (result, world) := by
  cases result <;> rfl

/-- An upload is resumed at the end of what was reported. -/
theorem uploadOffset_ok {localSize : ℕ} {size : Option ℕ} {start : ℕ}
    (h : uploadOffset localSize size = .ok start) : size = some start := by
  unfold uploadOffset at h
  cases size with
  | none => cases h
  | some size =>
    dsimp only at h
    split_ifs at h
    rw [Except.ok.inj h]

/-- Finding where to start. -/
theorem follows_uploadResumeOffset :
    Follows (Step job) .recorded (uploadResumeOffset job.connection job.upload job.staged)
      (fun start phase => phase = .planned start) fun _ _ => True := by
  intro world
  unfold uploadResumeOffset
  by_cases hresume : job.upload.resume = true
  · rw [if_pos hresume, exec_bind, exec_statIfThere]
    obtain ⟨others, h⟩ | h := exec_request job.connection (.stat job.staged) world
    · generalize (request job.connection (.stat job.staged)).exec world = outcome at h ⊢
      obtain ⟨answer, world'⟩ := outcome
      have hidle : Step job (.recorded, world) (.recorded, world') := .idle _ (.served rfl h)
      dsimp only at h ⊢
      cases hfound : foundIn job.staged answer with
      | error failure => exact ⟨.recorded, trivial, .single hidle⟩
      | ok found =>
        cases found with
        | none =>
          obtain ⟨message, rfl⟩ := foundIn_none hfound fun _ => h.unanswered
          have hmem : (⟨.exchanged (.stat job.staged) (.ok (.status .noSuchFile message)),
              world'.files, world.journal⟩ : Moment) ∈ world'.trace := by
            rw [h.trace]
            exact List.mem_append_right _ (List.mem_cons_of_mem _ List.mem_cons_self)
          have hplans : Plans job world' 0 :=
            Or.inr ⟨hresume, Or.inr ⟨rfl, _, hmem, rfl, message, rfl⟩⟩
          exact ⟨_, rfl, .tail (.single hidle) (.planned hplans)⟩
        | some attrs =>
          obtain ⟨content, hcontent, hsize⟩ := h.attrs (foundIn_some hfound)
          have hplans : ∀ start, uploadOffset (localSize world'.localFile) attrs.sizeNat =
              .ok start → Plans job world' start := by
            intro start hstart
            refine Or.inr ⟨hresume, Or.inl ?_⟩
            rw [Job.stagedFile, hcontent]
            exact hsize start (uploadOffset_ok hstart)
          dsimp only
          rw [exec_bind]
          change ∃ phase', Allows _ _ (exec (orThrow (uploadOffset (localSize world'.localFile)
            attrs.sizeNat)) world').1 phase' ∧ ReflTransGen _ _ (phase', (exec (orThrow
              (uploadOffset (localSize world'.localFile) attrs.sizeNat)) world').2)
          rw [exec_orThrow]
          cases hoffset : uploadOffset (localSize world'.localFile) attrs.sizeNat with
          | ok start => exact ⟨_, rfl, .tail (.single hidle) (.planned (hplans start hoffset))⟩
          | error failure => exact ⟨_, trivial, .single hidle⟩
    · rw [h]
      exact ⟨.recorded, trivial, .single (step_kill job _ world)⟩
  · rw [if_neg hresume]
    exact ⟨.planned 0, rfl, .single (.planned (Or.inl ⟨by simpa using hresume, rfl⟩))⟩

/-- Sending the local file. -/
theorem follows_uploadFrom (handle : Handle) (start : ℕ) (depth : Option ℕ) :
    Follows (Step job) (.staging handle start) (uploadFrom job.connection handle depth start)
      (fun _ phase => phase = .filled) fun _ phase => phase.Clearing := by
  intro world
  obtain h | h := exec_uploadFrom job.connection handle depth start world
  · refine ⟨_, ?_, .single (.uploaded h)⟩
    generalize ((uploadFrom job.connection handle depth start).exec world).1 = result
    cases result with
    | ok count => rfl
    | error failure => exact .failing
  · rw [h]
    exact ⟨_, .staging handle start, .single (step_kill job _ world)⟩

end Operations

end GantrySftp
