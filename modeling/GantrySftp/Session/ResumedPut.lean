import GantrySftp.Session.PutRuns

/-!
# Uploads that are resumed

A resumed upload takes whatever its staging file holds for the beginning of the local file. When
it returns it has published the local file exactly when that was so: when the file a journal names
begins the local file, and when the upload before it left no gap between its WRITEs.
-/

namespace GantrySftp

open Library Program Relation

/-! ## What is published -/

namespace PutCall

variable {call : PutCall} {result : UploadResult}

/-- A `put` that returns has published the file it completed. -/
theorem published (hreturns : call.run.1 = .ok result) (halone : call.job.Alone call.found)
    (hfaithful : AnswersFaithfully call.connection.server call.run.2.trace) :
    ∃ writes, (∀ write ∈ writes, Slice (call.found.localFile.getD []) write) ∧
      call.job.Complete (call.found.files call.job.stagedFile) (call.found.localFile.getD [])
        call.run.2.trace writes ∧
      call.run.2.files (call.connection.server.resolve call.target) =
        some (call.job.content (call.found.files call.job.stagedFile) writes) := by
  obtain ⟨phase, hallowed, hsteps⟩ := call.steps
  rw [hreturns] at hallowed
  obtain rfl : phase = call.last := hallowed
  obtain ⟨writes, -, hslices, hheld⟩ := (Job.Leaves.of_steps halone hsteps).holds
  refine ⟨writes, hslices, ?_⟩
  rw [← call.job_targetFile]
  unfold last at hheld
  split_ifs at hheld with hatomic
  · exact ⟨hheld.1, hheld.2.1.resolve_right hfaithful.2⟩
  · have hsame : call.job.stagedFile = call.job.targetFile := by
      unfold job
      rw [if_neg hatomic]
      rfl
    refine ⟨hheld.1, ?_⟩
    rw [← hsame]
    exact hheld.2

/-- A `put` that returns has published the local file exactly when it continued a prefix of it. -/
theorem published_eq_iff {source : Bytes} (hsource : call.found.localFile = some source)
    (hreturns : call.run.1 = .ok result) (halone : call.job.Alone call.found)
    (hfaithful : AnswersFaithfully call.connection.server call.run.2.trace) :
    call.run.2.files (call.connection.server.resolve call.target) = some source ↔
      call.job.pflags.opened (call.found.files call.job.stagedFile) <+: source := by
  obtain ⟨writes, hslices, hcomplete, hfile⟩ := published hreturns halone hfaithful
  rw [hsource, Option.getD_some] at hslices hcomplete
  rw [hfile, Option.some.injEq]
  exact hcomplete.content_eq_iff call.flags hslices (call.job_connection.symm ▸ hfaithful.1)

/-- What a resumed upload continues is all there is. -/
theorem opened_of_resume (hresume : call.options.resume = true) (content : Option Bytes) :
    call.job.pflags.opened content = content.getD [] := by
  have hkept := call.flags.resumed (call.job_resume.trans hresume)
  rw [OpenFlag.opened, if_neg (by simp [hkept])]

end PutCall

/-- A resumed atomic `put` that returns has published the local file exactly when the staging file
it picked, from its journal or by name, held a prefix of it. -/
theorem journal_put_eq_iff {call : PutCall} {source : Bytes} {result : UploadResult}
    (hatomic : call.options.publish.atomic = true) (hresume : call.options.resume = true)
    (hsource : call.found.localFile = some source) (hreturns : call.run.1 = .ok result)
    (halone : call.job.Alone call.found)
    (hfaithful : AnswersFaithfully call.connection.server call.run.2.trace) :
    ∃ staged, call.choice = .ok staged ∧
      (call.run.2.files (call.connection.server.resolve call.target) = some source ↔
        (call.found.files (call.connection.server.resolve staged)).getD [] <+: source) := by
  obtain ⟨⟨failure, hraises⟩, -⟩ | ⟨staged, hchoice, hjob⟩ := call.reads_or_picks hatomic
  · cases hreturns.symm.trans hraises
  · have hiff := PutCall.published_eq_iff hsource hreturns halone hfaithful
    rw [PutCall.opened_of_resume hresume] at hiff
    have hfile : call.job.stagedFile = call.connection.server.resolve staged :=
      congrArg Job.stagedFile hjob
    rw [hfile] at hiff
    exact ⟨staged, hchoice, hiff⟩

/-- A `put` of the bytes 1 and 2 to the file named by the bytes 47 and 116, resumed from a journal
that says the file named by the bytes 47 and 120 is its staging file. That holds one byte. -/
def adopting (first : UInt8) : PutCall where
  connection := .plain 1
  localStat := ⟨[108], ⟨0, 0⟩, 0⟩
  target := [47, 116]
  token := []
  options := { publish := { fsync := false, journal := true }, resume := true }
  found :=
    { World.starting (Function.update (fun _ => none) [47, 120] (some [first])) (some [1, 2])
        [.append ⟨0, 0, none, none⟩, .exchange [] (.answer false), .exchange [] (.answer false),
          .exchange [] (.refuse .unknown), .exchange [] (.answer false),
          .exchange [] (.answer false),
          .upload [.send, .perform 1, .reply 1 (.status .ok [])] .timeout,
          .exchange [] (.answer false), .exchange [] (.answer false),
          .exchange [] (.answer false), .append ⟨0, 0, none, none⟩] with
      journal := some ⟨0, 1, stagedLine (entryOf [47, 120] [47, 116]
        (sourceIdentity ⟨[108], ⟨0, 0⟩, 0⟩ (some [1, 2])))⟩ }

/-- What it returns. -/
def adopted : UploadResult :=
  ⟨1, [47, 116], .posixRename, .skipped, .matched, .skipped, .skipped, .unavailable,
    some [47, 120], none⟩

/-- A staging file that begins the local file is completed. -/
theorem journal_put_eq_iff_prefix :
    let call := adopting 1
    call.run.2.files (call.connection.server.resolve call.target) = some [1, 2] ∧
      ∃ staged, call.choice = .ok staged ∧
        (call.found.files (call.connection.server.resolve staged)).getD [] <+: [1, 2] := by
  intro call
  have hpublished : call.run.2.files (call.connection.server.resolve call.target) =
      some [1, 2] := by decide +kernel
  have hreturns : call.run.1 = .ok adopted := by decide +kernel
  obtain ⟨staged, hchoice, hiff⟩ := @journal_put_eq_iff call [1, 2] adopted rfl rfl rfl hreturns
    (by decide +kernel) (answersFaithfully_of_tells (by decide +kernel))
  exact ⟨hpublished, staged, hchoice, hiff.mp hpublished⟩

/-- A record that names another file of the server has that file published. -/
theorem not_forall_journal_put :
    ¬ ∀ (call : PutCall) (source : Bytes) (result : UploadResult),
      call.options.publish.atomic = true → call.options.publish.journal = true →
      call.options.publish.stagingName = none → call.options.resume = true →
      call.found.localFile = some source → call.job.Alone call.found →
      AnswersFaithfully call.connection.server call.run.2.trace → call.run.1 = .ok result →
      call.run.2.files (call.connection.server.resolve call.target) = some source := by
  intro h
  have hright := h (adopting 9) [1, 2] adopted rfl rfl rfl rfl rfl (by decide +kernel)
    (answersFaithfully_of_tells (by decide +kernel)) (by decide +kernel)
  exact absurd hright (by decide +kernel)

/-! ## What an upload before it left -/

/-- How far an upload has come with opening its file: the file is as it was at every moment, or
at some moment it was as opening leaves it. -/
inductive Job.Opening (job : Job) (kept : Option Bytes) (run : List Moment) (files : Files) :
    Phase → Prop
  | unopened {phase : Phase} (hphase : phase.Unopened) (hfile : files job.stagedFile = kept)
      (hrun : ∀ moment ∈ run, moment.files job.stagedFile = kept) : Opening job kept run files phase
  | opened {phase : Phase}
      (hopened : ∃ moment ∈ run, moment.files job.stagedFile = some (job.pflags.opened kept))
      (hfile : phase.Unopened → files job.stagedFile = some (job.pflags.opened kept)) :
      Opening job kept run files phase

/-- What the WRITEs of an upload went over: nothing, once its OPEN has emptied the file, else what
the file held. -/
def Job.base (job : Job) (kept : Option Bytes) (run : List Moment) : Bytes :=
  if job.pflags.truncates = true ∧ ∃ moment ∈ run, moment.files job.stagedFile = some [] then []
  else kept.getD []

section Left

variable {job : Job} {initial world world' : World} {kept : Option Bytes} {run more : List Moment}
  {phase phase' : Phase} {files files' : Files} {source content : Bytes} {writes : List Placed}

/-- Once the file was opened the WRITEs go over what opening left. -/
theorem Job.base_of_opened
    (h : ∃ moment ∈ run, moment.files job.stagedFile = some (job.pflags.opened kept)) :
    job.base kept run = job.pflags.opened kept := by
  unfold base OpenFlag.opened at *
  by_cases htruncates : job.pflags.truncates = true
  · rw [if_pos htruncates] at h ⊢
    exact if_pos ⟨htruncates, h⟩
  · rw [if_neg htruncates]
    exact if_neg fun hboth => htruncates hboth.1

/-- While the file is not opened it is what it was. -/
theorem Job.base_of_unopened (h : ∀ moment ∈ run, moment.files job.stagedFile = kept) :
    job.base kept run = kept.getD [] := by
  unfold base
  split_ifs with hemptied
  · obtain ⟨-, moment, hmem, hempty⟩ := hemptied
    rw [(h moment hmem).symm.trans hempty]
    rfl
  · rfl

/-- What is left of a file that was opened is what its WRITEs made of it. -/
theorem Job.Holds.left (h : job.Holds kept source world writes phase) (hphase : ¬ phase.Unopened)
    (hleft : world.files job.stagedFile = some content) : content = job.content kept writes := by
  have hremains : world.files job.stagedFile = some (job.content kept writes) ∨
      world.files job.stagedFile = none := by
    cases phase with
    | ready => exact absurd .ready hphase
    | recorded => exact absurd .recorded hphase
    | planned start => exact absurd (.planned start) hphase
    | staging handle start => exact h.remains (.staging handle start)
    | failing => exact h
    | filled => exact h.remains .filled
    | removed => exact h.2
    | stranded => exact h
    | published => exact h.2.2
    | discarded => exact h
    | done => exact h.2.2
    | dropped => exact h
  obtain hfile | hnone := hremains
  · exact Option.some.inj (hleft.symm.trans hfile)
  · cases hleft.symm.trans hnone

/-- Nothing is written before the file is open. -/
theorem Job.Holds.unwritten (h : job.Holds kept source world writes phase)
    (hphase : phase.Unopened) : writes = [] := by
  cases hphase with
  | ready => exact h.1
  | recorded => exact h.1
  | planned start => exact h.1

namespace Job.Opening

/-- What is left of the file an upload writes. -/
theorem left (h : job.Opening kept run world.files phase)
    (hheld : job.Holds kept source world writes phase)
    (hleft : world.files job.stagedFile = some content) :
    content = pwriteAll (job.base kept run) writes := by
  cases h with
  | unopened hphase hfile hrun =>
    rw [hheld.unwritten hphase, base_of_unopened hrun, ← hfile, hleft]
    rfl
  | opened hopened hfile =>
    rw [base_of_opened hopened]
    by_cases hphase : phase.Unopened
    · rw [hheld.unwritten hphase]
      exact Option.some.inj (hleft.symm.trans (hfile hphase))
    · exact hheld.left hphase hleft

/-- The file stays as it is. -/
theorem append (h : job.Opening kept run files phase)
    (hphase : phase'.Unopened ↔ phase.Unopened)
    (hmore : ∀ moment ∈ more, moment.files job.stagedFile = files job.stagedFile)
    (hsame : files' job.stagedFile = files job.stagedFile) :
    job.Opening kept (run ++ more) files' phase' := by
  cases h with
  | unopened hunopened hfile hrun =>
    refine .unopened (hphase.mpr hunopened) (hsame.trans hfile) fun moment hmem => ?_
    obtain hmem | hmem := List.mem_append.mp hmem
    · exact hrun moment hmem
    · exact (hmore moment hmem).trans hfile
  | opened hopened hfile =>
    obtain ⟨moment, hmem, hcontent⟩ := hopened
    exact .opened ⟨moment, List.mem_append_left _ hmem, hcontent⟩ fun hunopened =>
      hsame.trans (hfile (hphase.mp hunopened))

/-- What happens once the file is open. -/
theorem later (h : job.Opening kept run files phase) (hphase : ¬ phase.Unopened)
    (hphase' : ¬ phase'.Unopened) : job.Opening kept (run ++ more) files' phase' := by
  cases h with
  | unopened hunopened hfile hrun => exact absurd hunopened hphase
  | opened hopened hfile =>
    obtain ⟨moment, hmem, hcontent⟩ := hopened
    exact .opened ⟨moment, List.mem_append_left _ hmem, hcontent⟩ fun hunopened =>
      absurd hunopened hphase'

/-- The file after its OPEN. -/
theorem open_ {start : ℕ} {attrs : Attrs} {others : List Change} {answer : Except Failure Reply}
    (halone : job.Alone world) (h : job.Opening kept run world.files (.planned start))
    (hserved : Served job.connection.server (.open_ job.staged job.pflags attrs) world others
      answer world') :
    job.Opening kept
      (run ++ exchangeMoments world world' (.open_ job.staged job.pflags attrs) others answer)
      world'.files (.afterOpen start answer) := by
  have hbefore := hserved.changed halone Job.staged_mem
  have hlast : (⟨.exchanged (.open_ job.staged job.pflags attrs) answer, world'.files,
      world.journal⟩ : Moment) ∈
      run ++ exchangeMoments world world' (.open_ job.staged job.pflags attrs) others answer :=
    List.mem_append_right _ (List.mem_cons_of_mem _ List.mem_cons_self)
  -- Once the file is as opening leaves it, it makes no difference whether it is opened again.
  have hopened : world'.files job.stagedFile = some (job.pflags.opened kept) →
      job.Opening kept
        (run ++ exchangeMoments world world' (.open_ job.staged job.pflags attrs) others answer)
        world'.files (.afterOpen start answer) :=
    fun hfile => .opened ⟨_, hlast, hfile⟩ fun _ => hfile
  cases h with
  | opened hopens hfile =>
    refine hopened ?_
    obtain hsame | hopen := hserved.open_cases halone Job.staged_mem
    · exact hsame.trans (hfile (.planned start))
    · have hagain : job.pflags.opened (world.files job.stagedFile) = job.pflags.opened kept :=
        (congrArg _ (hfile (.planned start))).trans (OpenFlag.opened_opened _ _)
      exact hopen.trans (congrArg some hagain)
  | unopened hphase hfile hrun =>
    obtain hsame | hopen := hserved.open_cases halone Job.staged_mem
    · unfold Phase.afterOpen
      split
      · obtain ⟨-, hopen, -⟩ := hserved.opened_handle halone Job.staged_mem
        exact .opened ⟨_, hlast, hfile ▸ hopen⟩ fun _ => hfile ▸ hopen
      · refine append (.unopened hphase hfile hrun) Iff.rfl (fun moment hmem => ?_) hsame
        obtain rfl | hmem := List.mem_cons.mp hmem
        · exact hbefore
        · obtain rfl := List.mem_singleton.mp hmem
          exact hsame
    · exact hopened (hfile ▸ hopen)

/-- A file that is struck off the journal was opened before and is afterwards. -/
theorem unopened_of_settling (h : phase.Settling phase') : phase'.Unopened ↔ phase.Unopened := by
  cases h with
  | published => constructor <;> intro hunopened <;> cases hunopened
  | discarded => constructor <;> intro hunopened <;> cases hunopened

/-- Every step of an undisturbed upload. -/
theorem step (halone : job.Alone world) (hstep : Step job (phase, world) (phase', world'))
    (h : job.Opening kept run world.files phase) :
    ∃ more, world'.trace = world.trace ++ more ∧
      job.Opening kept (run ++ more) world'.files phase' := by
  obtain ⟨more, htrace⟩ := hstep.continues.trace
  have hquiet : ∀ {phase phase' : Phase}, job.Opening kept run world.files phase →
      (phase'.Unopened ↔ phase.Unopened) → ∃ more, world.trace = world.trace ++ more ∧
        job.Opening kept (run ++ more) world.files phase' := fun h hphase =>
    ⟨[], (List.append_nil _).symm, h.append hphase (by simp) rfl⟩
  have hlater : ¬ phase.Unopened → ¬ phase'.Unopened → ∃ more, world'.trace = world.trace ++ more ∧
      job.Opening kept (run ++ more) world'.files phase' := fun hphase hphase' =>
    ⟨more, htrace.symm, h.later hphase hphase'⟩
  have happended : ∀ {record : Bytes} {fate : AppendFate}, Appended record world fate world' →
      (phase'.Unopened ↔ phase.Unopened) → ∃ more, world'.trace = world.trace ++ more ∧
        job.Opening kept (run ++ more) world'.files phase' := by
    intro record fate happended hphase
    refine ⟨_, happended.trace, h.append hphase (fun moment hmem => ?_)
      (congrFun happended.files _)⟩
    obtain rfl := List.mem_singleton.mp hmem
    rfl
  cases hstep with
  | idle phase hidle =>
    cases hidle with
    | served hreads hserved =>
      have hsame := hserved.frame_of_reads hreads halone Job.staged_mem
      refine ⟨_, hserved.trace, h.append Iff.rfl (fun moment hmem => ?_) hsame⟩
      obtain rfl | hmem := List.mem_cons.mp hmem
      · exact hserved.changed halone Job.staged_mem
      · obtain rfl := List.mem_singleton.mp hmem
        exact hsame
    | own unsupported folded root hscript => exact hquiet h Iff.rfl
  | unrecorded hjournal => exact hquiet h ⟨fun _ => .ready, fun _ => .recorded⟩
  | recorded hjournal hrecorded =>
    exact happended hrecorded ⟨fun _ => .ready, fun _ => .recorded⟩
  | planned hplans => exact hquiet h ⟨fun _ => .recorded, fun _ => .planned _⟩
  | opened hserved => exact ⟨_, hserved.trace, h.open_ halone hserved⟩
  | @uploaded handle start _ _ result hsent =>
    refine hlater (by rintro ⟨⟩) ?_
    cases result <;> rintro ⟨⟩
  | @renamed req _ _ _ answer hreq hserved =>
    refine hlater (by rintro ⟨⟩) ?_
    cases hverdict : verdict answer <;> rintro ⟨⟩
  | @removed _ _ _ answer hserved =>
    refine hlater (by rintro ⟨⟩) ?_
    cases hverdict : verdict answer <;> rintro ⟨⟩
  | @renamedAgain _ _ _ answer hserved =>
    refine hlater (by rintro ⟨⟩) ?_
    cases hverdict : verdict answer <;> rintro ⟨⟩
  | discarded hphase hserved =>
    refine hlater ?_ (by rintro ⟨⟩)
    rintro ⟨⟩ <;> cases hphase
  | unsettled hjournal hphase =>
    exact hquiet h (unopened_of_settling hphase)
  | settled hjournal hphase hrecorded =>
    exact happended hrecorded (unopened_of_settling hphase)

/-- Every run of an undisturbed upload. -/
theorem of_steps {state : Phase × World} (halone : job.Alone initial)
    (hsteps : ReflTransGen (Step job) (.ready, initial) state) :
    ∃ run, state.2.trace = initial.trace ++ run ∧
      job.Opening (initial.files job.stagedFile) run state.2.files state.1 := by
  induction hsteps with
  | refl => exact ⟨[], (List.append_nil _).symm, .unopened .ready rfl (by simp)⟩
  | tail hbefore hlast ih =>
    obtain ⟨run, htrace, hopening⟩ := ih
    have hundisturbed := halone.suffix (Job.Leaves.of_steps halone hbefore).continues.script
    obtain ⟨more, hmore, hopening'⟩ := hopening.step hundisturbed hlast
    exact ⟨run ++ more, by rw [hmore, htrace, List.append_assoc], hopening'⟩

end Job.Opening

/-- What a `put` left of the file it wrote is what its WRITEs made of what was there. -/
theorem PutCall.left_eq {call : PutCall} (hsource : call.found.localFile = some source)
    (halone : call.job.Alone call.found) (hrun : call.run.2.trace = call.found.trace ++ run)
    (hleft : call.run.2.files call.job.stagedFile = some content) :
    (∀ write ∈ writesTo call.job.stagedFile run, Slice source write) ∧
      content = pwriteAll (call.job.base (call.found.files call.job.stagedFile) run)
        (writesTo call.job.stagedFile run) := by
  obtain ⟨phase, -, hsteps⟩ := call.steps
  obtain ⟨writes, hwrites, hslices, hheld⟩ := (Job.Leaves.of_steps halone hsteps).holds
  obtain ⟨run', hrun', hopening⟩ := Job.Opening.of_steps halone hsteps
  dsimp only at hwrites hrun'
  obtain rfl : run = run' := List.append_cancel_left (hrun.symm.trans hrun')
  have hsame : writesTo call.job.stagedFile run = writes := by
    rw [hrun, writesTo, List.filterMap_append] at hwrites
    exact List.append_cancel_left hwrites
  rw [hsource, Option.getD_some] at hslices hheld
  rw [hsame]
  exact ⟨hslices, hopening.left hheld hleft⟩

end Left

/-- A `put` that takes up what another left of the same local file, and returns, has published it
exactly when the other left nothing or left no gap. -/
theorem resumed_put_eq_iff {first resumed : PutCall} {source : Bytes} {result : UploadResult}
    {run : List Moment} (hfirst : first.found.localFile = some source)
    (hsource : resumed.found.localFile = some source) (hresume : resumed.options.resume = true)
    (hreturns : resumed.run.1 = .ok result)
    (halone : first.job.Alone first.found ∧ resumed.job.Alone resumed.found)
    (hfaithful : AnswersFaithfully resumed.connection.server resumed.run.2.trace)
    (hrun : first.run.2.trace = first.found.trace ++ run)
    (htakes : resumed.found.files resumed.job.stagedFile = none ∨
      resumed.job.stagedFile = first.job.stagedFile ∧
        resumed.found.files resumed.job.stagedFile = first.run.2.files first.job.stagedFile) :
    resumed.run.2.files (resumed.connection.server.resolve resumed.target) = some source ↔
      resumed.found.files resumed.job.stagedFile = none ∨
        Gapless source (first.job.base (first.found.files first.job.stagedFile) run)
          (writesTo first.job.stagedFile run) := by
  rw [PutCall.published_eq_iff hsource hreturns halone.2 hfaithful,
    PutCall.opened_of_resume hresume]
  cases hfound : resumed.found.files resumed.job.stagedFile with
  | none => simp
  | some content =>
    rw [hfound] at htakes
    obtain hnone | ⟨-, hleft⟩ := htakes
    · cases hnone
    · obtain ⟨hslices, hmade⟩ := PutCall.left_eq hfirst halone.1 hrun hleft.symm
      obtain ⟨writes, hresumed, hcomplete, -⟩ :=
        PutCall.published hreturns halone.2 hfaithful
      rw [hsource, Option.getD_some] at hresumed hcomplete
      have hinside := (hcomplete.content_eq resumed.flags hresumed
        (resumed.job_connection.symm ▸ hfaithful.1)).1
      rw [PutCall.opened_of_resume hresume, hfound, Option.getD_some] at hinside
      have hbase := (length_le_pwriteAll _ _).trans
        ((congrArg List.length hmade).symm.trans_le hinside)
      rw [Option.getD_some, hmade, pwriteAll_prefix_iff hslices hbase]
      simp

/-- A `put` in place of the bytes 1 and 2 to the file named by the bytes 47 and 116, with two WRITEs
of one byte in flight. -/
def pairPut (resume : Bool) (content : Option Bytes) (script : List Turn) : PutCall where
  connection := .plain 2
  localStat := ⟨[108], ⟨0, 0⟩, 0⟩
  target := [47, 116]
  token := []
  options := { publish := { atomic := false, fsync := false }, resume := resume }
  found := .starting (Function.update (fun _ => none) [47, 116] content) (some [1, 2]) script

/-- The first of two times out once its second WRITE, or its first, was answered. -/
def brokenOff (answered : ℕ) : PutCall :=
  pairPut false none
    [.exchange [] (.answer false),
      .upload [.send, .send, .perform answered, .reply answered (.status .ok [])] .timeout,
      .exchange [] (.answer false)]

/-- The second takes up what was left on a server without `check-file`. -/
def takenUp (content : Bytes) (events : List UploadEvent) : PutCall :=
  pairPut true (some content)
    [.exchange [] (.answer false), .exchange [] (.answer false),
      .exchange [] (.refuse .unknown), .exchange [] (.answer false),
      .exchange [] (.answer false), .upload events .timeout, .exchange [] (.answer false),
      .exchange [] (.answer false)]

/-- What the second returns, having sent this many bytes. -/
def pairTaken (transferred : ℕ) : UploadResult :=
  ⟨transferred, [47, 116], .inPlace, .skipped, .matched, .skipped, .skipped, .unavailable, none,
    none⟩

/-- A put that times out once its first WRITE was answered is completed. -/
theorem resumed_put_eq_iff_pair :
    let first := brokenOff 1
    let resumed := takenUp [1] [.send, .perform 1, .reply 1 (.status .ok [])]
    resumed.run.2.files (resumed.connection.server.resolve resumed.target) = some [1, 2] ∧
      (resumed.found.files resumed.job.stagedFile = none ∨
        Gapless [1, 2] (first.job.base (first.found.files first.job.stagedFile) first.run.2.trace)
          (writesTo first.job.stagedFile first.run.2.trace)) := by
  intro first resumed
  have hpublished : resumed.run.2.files (resumed.connection.server.resolve resumed.target) =
      some [1, 2] := by decide +kernel
  have hreturns : resumed.run.1 = .ok (pairTaken 1) := by decide +kernel
  have htakes : resumed.found.files resumed.job.stagedFile = first.run.2.files first.job.stagedFile :=
    by decide +kernel
  have hiff := @resumed_put_eq_iff first resumed [1, 2] (pairTaken 1) first.run.2.trace rfl rfl rfl
    hreturns ⟨by decide +kernel, by decide +kernel⟩
    (answersFaithfully_of_tells (by decide +kernel)) rfl (Or.inr ⟨rfl, htakes⟩)
  exact ⟨hpublished, hiff.mp hpublished⟩

/-- With two WRITEs in flight the second can be performed alone. The put then leaves a hole at the
start of the file, and one that takes it up finds the length right and returns. -/
theorem not_forall_resumed_put_eq :
    ¬ ∀ (first resumed : PutCall) (source : Bytes) (failure : Failure) (result : UploadResult),
      first.found.localFile = some source → resumed.found.localFile = some source →
      1 ≤ first.connection.depth → 1 ≤ first.connection.writeLength →
      first.job.Alone first.found → resumed.job.Alone resumed.found →
      AnswersFaithfully first.connection.server first.run.2.trace →
      AnswersFaithfully resumed.connection.server resumed.run.2.trace →
      resumed.options = { first.options with resume := true } → resumed.target = first.target →
      resumed.found.files resumed.job.stagedFile = first.run.2.files first.job.stagedFile →
      first.run.1 = .error failure → resumed.run.1 = .ok result →
        resumed.run.2.files (resumed.connection.server.resolve resumed.target) = some source := by
  intro h
  have hwhole := h (brokenOff 2) (takenUp [0, 2] []) [1, 2] .transferTimeout (pairTaken 0) rfl rfl
    (by decide) (by decide) (by decide +kernel) (by decide +kernel)
    (answersFaithfully_of_tells (by decide +kernel))
    (answersFaithfully_of_tells (by decide +kernel)) rfl rfl (by decide +kernel)
    (by decide +kernel) (by decide +kernel)
  exact absurd hwhole (by decide +kernel)

end GantrySftp
