import GantrySftp.Session.UploadRequests

/-!
# What an upload leaves in the file it writes

From its opening to the end of the upload the staging file holds what it was opened with under
the WRITEs performed so far, or is gone. Once it is filled those WRITEs are exactly the source
from where the upload started, and what is published is that file.
-/

namespace GantrySftp

open Library Program Relation

/-! ## The staging file by phase -/

/-- A file was reported missing that held this. -/
def ReportedMissing (connection : Connection) (path : Bytes) (content : Option Bytes)
    (trace : List Moment) : Prop :=
  ∃ moment ∈ trace, moment.files (connection.server.resolve path) = content ∧ ∃ message,
    moment.event = .exchanged (.stat path) (.ok (.status .noSuchFile message))

/-- EOF was answered to a request. -/
def AnsweredEof (trace : List Moment) : Prop :=
  ∃ moment ∈ trace, ∃ req message, moment.event = .exchanged req (.ok (.status .eof message))

namespace Job

variable (job : Job) (kept : Option Bytes) (source : Bytes)

/-- Where an upload starts in a staging file that held this: at its end when it resumes, unless
the file was reported missing. -/
def Starts (trace : List Moment) (start : ℕ) : Prop :=
  job.upload.resume = false ∧ start = 0 ∨
    job.upload.resume = true ∧ (start = localSize kept ∨
      start = 0 ∧ ReportedMissing job.connection job.staged kept trace)

/-- The WRITEs performed are exactly the source from where the upload started. -/
structure Complete (trace : List Moment) (writes : List Placed) : Prop where
  created : job.pflags.excludes = true → kept = none
  covered : ∃ start, job.Starts kept trace start ∧ start ≤ source.length ∧
    ∀ i, Covered writes i ↔ start ≤ i ∧ i < source.length

/-- What the staging file holds under WRITEs once it is open. -/
def content (writes : List Placed) : Bytes := pwriteAll (job.pflags.opened kept) writes

/-- The staging file, and the target once it was published, by phase. -/
def Holds (world : World) (writes : List Placed) : Phase → Prop
  | .ready | .recorded => writes = [] ∧ world.files job.stagedFile = kept
  | .planned start =>
    writes = [] ∧ job.Starts kept world.trace start ∧
      (world.files job.stagedFile = kept ∨
        world.files job.stagedFile = some (job.content kept []))
  | .staging handle start =>
    writes = [] ∧ job.Starts kept world.trace start ∧ handle.file = job.stagedFile ∧
      (job.pflags.excludes = true → kept = none) ∧
      world.files job.stagedFile = some (job.content kept [])
  | .filled =>
    job.Complete kept source world.trace writes ∧
      world.files job.stagedFile = some (job.content kept writes)
  | .removed =>
    job.Complete kept source world.trace writes ∧
      (world.files job.stagedFile = some (job.content kept writes) ∨
        world.files job.stagedFile = none)
  | .published | .done =>
    job.Complete kept source world.trace writes ∧
      (world.files job.targetFile = some (job.content kept writes) ∨ AnsweredEof world.trace) ∧
      (world.files job.stagedFile = some (job.content kept writes) ∨
        world.files job.stagedFile = none)
  | .failing | .stranded | .discarded | .dropped =>
    world.files job.stagedFile = some (job.content kept writes) ∨
      world.files job.stagedFile = none

end Job

section Holding

variable {job : Job} {kept : Option Bytes} {source : Bytes} {world world' : World}
  {writes : List Placed} {phase phase' : Phase}

/-- What was reported stays reported. -/
theorem ReportedMissing.mono {connection : Connection} {path : Bytes} {content : Option Bytes}
    {trace trace' : List Moment} (h : ReportedMissing connection path content trace)
    (htrace : trace <+: trace') : ReportedMissing connection path content trace' := by
  obtain ⟨moment, hmem, hreported⟩ := h
  exact ⟨moment, htrace.subset hmem, hreported⟩

/-- What was answered stays answered. -/
theorem AnsweredEof.mono {trace trace' : List Moment} (h : AnsweredEof trace)
    (htrace : trace <+: trace') : AnsweredEof trace' := by
  obtain ⟨moment, hmem, hanswered⟩ := h
  exact ⟨moment, htrace.subset hmem, hanswered⟩

/-- Where an upload starts stays where it starts. -/
theorem Job.Starts.mono {trace trace' : List Moment} {start : ℕ}
    (h : job.Starts kept trace start) (htrace : trace <+: trace') :
    job.Starts kept trace' start :=
  h.imp id fun ⟨hresume, hstart⟩ =>
    ⟨hresume, hstart.imp id fun ⟨hzero, hmissing⟩ => ⟨hzero, hmissing.mono htrace⟩⟩

/-- What is complete stays complete. -/
theorem Job.Complete.mono {trace trace' : List Moment} (h : job.Complete kept source trace writes)
    (htrace : trace <+: trace') : job.Complete kept source trace' writes := by
  obtain ⟨hcreated, start, hstarts, hcovered⟩ := h
  exact ⟨hcreated, start, hstarts.mono htrace, hcovered⟩

/-- Nothing is lost while the two files stay as they are. -/
theorem Job.Holds.congr (h : job.Holds kept source world writes phase)
    (hstaged : world'.files job.stagedFile = world.files job.stagedFile)
    (htarget : world'.files job.targetFile = world.files job.targetFile)
    (htrace : world.trace <+: world'.trace) : job.Holds kept source world' writes phase := by
  unfold Holds at h ⊢
  rw [hstaged, htarget]
  cases phase with
  | ready => exact h
  | recorded => exact h
  | planned start => exact ⟨h.1, h.2.1.mono htrace, h.2.2⟩
  | staging handle start => exact ⟨h.1, h.2.1.mono htrace, h.2.2⟩
  | filled => exact ⟨h.1.mono htrace, h.2⟩
  | removed => exact ⟨h.1.mono htrace, h.2⟩
  | published => exact ⟨h.1.mono htrace, h.2.1.imp id fun heof => heof.mono htrace, h.2.2⟩
  | done => exact ⟨h.1.mono htrace, h.2.1.imp id fun heof => heof.mono htrace, h.2.2⟩
  | failing => exact h
  | stranded => exact h
  | discarded => exact h
  | dropped => exact h

/-- A staging file that was open holds what its WRITEs made of it, or is gone. -/
theorem Job.Holds.remains (h : job.Holds kept source world writes phase)
    (hphase : phase.Clearing) :
    world.files job.stagedFile = some (job.content kept writes) ∨
      world.files job.stagedFile = none := by
  cases hphase with
  | staging handle start =>
    obtain ⟨rfl, -, -, -, hcontent⟩ := h
    exact Or.inl hcontent
  | failing => exact h
  | filled => exact Or.inl h.2

end Holding

/-! ## Steps -/

section Preserving

variable {job : Job} {kept : Option Bytes} {source : Bytes} {world world' : World}
  {writes : List Placed} {phase phase' : Phase} {req : Request} {others : List Change}
  {answer : Except Failure Reply}

/-- Other parties leave the staging file and the target alone. -/
def Job.Alone (job : Job) (world : World) : Prop :=
  Undisturbed [job.stagedFile, job.targetFile] world.script

instance (job : Job) (world : World) : Decidable (job.Alone world) :=
  inferInstanceAs (Decidable (Undisturbed _ _))

/-- The staging file is one of the two. -/
theorem Job.staged_mem : job.stagedFile ∈ [job.stagedFile, job.targetFile] :=
  List.mem_cons_self

/-- The target is one of the two. -/
theorem Job.target_mem : job.targetFile ∈ [job.stagedFile, job.targetFile] :=
  List.mem_cons_of_mem _ List.mem_cons_self

/-- The staging file after its OPEN. -/
theorem Job.Holds.opened {start : ℕ} {attrs : Attrs} (halone : job.Alone world)
    (h : job.Holds kept source world writes (.planned start))
    (hserved : Served job.connection.server (.open_ job.staged job.pflags attrs) world others
      answer world') :
    job.Holds kept source world' writes (.afterOpen start answer) := by
  obtain ⟨hwrites, hstarts, hcontent⟩ := h
  have hstarts' := hstarts.mono hserved.continues.trace
  have hopened : job.pflags.opened (world.files job.stagedFile) = job.content kept [] := by
    obtain hcontent | hcontent := hcontent
    · exact congrArg _ hcontent
    · exact (congrArg _ hcontent).trans (OpenFlag.opened_opened _ _)
  have hplanned : job.Holds kept source world' writes (.planned start) := by
    refine ⟨hwrites, hstarts', ?_⟩
    obtain hfile | hfile := hserved.open_cases halone Job.staged_mem
    · exact hcontent.imp hfile.trans hfile.trans
    · exact Or.inr (hfile.trans (congrArg some hopened))
  unfold Phase.afterOpen
  split
  · next handle =>
    obtain ⟨hhandle, hfile, hexcludes⟩ := hserved.opened_handle halone Job.staged_mem
    refine ⟨hwrites, hstarts', hhandle, fun hexcluded => ?_, hfile.trans (congrArg some hopened)⟩
    obtain hcontent | hcontent := hcontent
    · exact hcontent.symm.trans (hexcludes hexcluded)
    · cases hcontent.symm.trans (hexcludes hexcluded)
  · exact hplanned

/-- The staging file after the transfer, with the WRITEs that made it. -/
theorem Job.Holds.uploaded {handle : Handle} {start : ℕ} {result : Except Failure ℕ}
    (h : job.Holds kept source world writes (.staging handle start))
    (hsource : world.localFile.getD [] = source) (hserved : Uploaded handle start world result world') :
    ∃ sent, writesTo job.stagedFile world'.trace = writesTo job.stagedFile world.trace ++ sent ∧
      (∀ write ∈ sent, Slice source write) ∧
      job.Holds kept source world' sent (.afterUpload result) := by
  obtain ⟨hwrites, hstarts, hhandle, hcreated, hcontent⟩ := h
  obtain ⟨sent, hslices, hcovered, hfiles, htrace⟩ := hserved.outcome
  subst hsource
  have hfile : world'.files job.stagedFile = some (job.content kept sent) := by
    rw [← hhandle] at hcontent ⊢
    rw [hfiles, foldl_wrote_files handle world sent hcontent, Files.put_self]
    rfl
  refine ⟨sent, ?_, hslices, ?_⟩
  · rw [htrace, ← hhandle]
    exact writesTo_foldl_wrote handle world sent
  · cases result with
    | error failure => exact Or.inl hfile
    | ok count =>
      obtain ⟨hstart, hcovers⟩ := hcovered count rfl
      exact ⟨⟨hcreated, start, hstarts.mono hserved.continues.trace, hstart, hcovers⟩, hfile⟩

/-- The staging file after a first rename. -/
theorem Job.Holds.renamed (halone : job.Alone world)
    (h : job.Holds kept source world writes .filled) (hreq : req.Renames job.staged job.target)
    (hserved : Served job.connection.server req world others answer world') :
    job.Holds kept source world' writes (.afterRename (verdict answer)) := by
  obtain ⟨hcomplete, hcontent⟩ := h
  have hcomplete' := hcomplete.mono hserved.continues.trace
  have hsame : world'.files = world.files.changed others →
      world'.files job.stagedFile = some (job.content kept writes) := fun hfiles =>
    (congrFun hfiles _).trans ((hserved.changed halone Job.staged_mem).trans hcontent)
  cases hverdict : verdict answer with
  | passed =>
    obtain hmoved | ⟨hfiles, message, rfl⟩ :=
      hserved.renamed hreq halone Job.staged_mem hverdict
    · exact ⟨hcomplete', Or.inl (hmoved.atNew.trans hcontent), hmoved.remains hcontent⟩
    · exact ⟨hcomplete', Or.inr ⟨_, hserved.mem_trace, req, message, rfl⟩, Or.inl (hsame hfiles)⟩
  | refused => exact ⟨hcomplete', hsame (hserved.unchanged hverdict)⟩
  | unclear =>
    obtain hfiles | hmoved := hserved.rename_cases hreq halone Job.staged_mem
    · exact Or.inl (hsame hfiles)
    · exact hmoved.remains hcontent

/-- The staging file after the target's REMOVE. -/
theorem Job.Holds.removed (halone : job.Alone world)
    (h : job.Holds kept source world writes .filled)
    (hserved : Served job.connection.server (.remove job.target) world others answer world') :
    job.Holds kept source world' writes (.afterRemoval (verdict answer)) := by
  obtain ⟨hcomplete, hcontent⟩ := h
  have hcomplete' := hcomplete.mono hserved.continues.trace
  have hremains : world'.files job.stagedFile = some (job.content kept writes) ∨
      world'.files job.stagedFile = none := by
    by_cases hsame : job.stagedFile = job.targetFile
    · rw [hsame] at hcontent ⊢
      exact (hserved.remove_cases halone Job.target_mem).imp (fun hfile => hfile.trans hcontent) id
    · refine Or.inl ((hserved.frame halone Job.staged_mem ?_).trans hcontent)
      exact fun hmem => hsame (List.mem_singleton.mp hmem)
  cases hverdict : verdict answer with
  | passed => exact ⟨hcomplete', hremains⟩
  | refused =>
    refine ⟨hcomplete', (congrFun (hserved.unchanged hverdict) _).trans ?_⟩
    exact (hserved.changed halone Job.staged_mem).trans hcontent
  | unclear => exact hremains

/-- The staging file after the second rename. -/
theorem Job.Holds.renamedAgain (halone : job.Alone world)
    (h : job.Holds kept source world writes .removed)
    (hserved : Served job.connection.server (.rename job.staged job.target) world others answer
      world') :
    job.Holds kept source world' writes (.afterSecondRename (verdict answer)) := by
  obtain ⟨hcomplete, hcontent⟩ := h
  have hcomplete' := hcomplete.mono hserved.continues.trace
  have hsame : world'.files = world.files.changed others →
      world'.files job.stagedFile = world.files job.stagedFile := fun hfiles =>
    (congrFun hfiles _).trans (hserved.changed halone Job.staged_mem)
  have hthere : ∀ {files : Files}, world.files.Moved files job.stagedFile job.targetFile →
      world.files job.stagedFile = some (job.content kept writes) := by
    intro files hmoved
    refine hcontent.resolve_right fun hnone => ?_
    have hsome := hmoved.there
    rw [hnone] at hsome
    cases hsome
  have hstranded : job.Holds kept source world' writes .stranded := by
    obtain hfiles | hmoved := hserved.rename_cases (Or.inl rfl) halone Job.staged_mem
    · exact hcontent.imp (hsame hfiles).trans (hsame hfiles).trans
    · exact hmoved.remains (hthere hmoved)
  cases hverdict : verdict answer with
  | passed =>
    obtain hmoved | ⟨hfiles, message, rfl⟩ :=
      hserved.renamed (Or.inl rfl) halone Job.staged_mem hverdict
    · exact ⟨hcomplete', Or.inl (hmoved.atNew.trans (hthere hmoved)),
        hmoved.remains (hthere hmoved)⟩
    · exact ⟨hcomplete', Or.inr ⟨_, hserved.mem_trace, _, message, rfl⟩,
        hcontent.imp (hsame hfiles).trans (hsame hfiles).trans⟩
  | refused => exact hstranded
  | unclear => exact hstranded

/-- The staging file after its own REMOVE. -/
theorem Job.Holds.discarded (halone : job.Alone world)
    (h : job.Holds kept source world writes phase) (hphase : phase.Clearing)
    (hserved : Served job.connection.server (.remove job.staged) world others answer world') :
    job.Holds kept source world' writes .discarded := by
  obtain hfile | hfile := hserved.remove_cases halone Job.staged_mem
  · exact (h.remains hphase).imp hfile.trans hfile.trans
  · exact Or.inr hfile

/-- Striking a file off the journal says nothing about the file. -/
theorem Job.Holds.settled (h : job.Holds kept source world writes phase)
    (hphase : phase.Settling phase') : job.Holds kept source world writes phase' := by
  cases hphase with
  | published => exact h
  | discarded => exact h

end Preserving

/-! ## Whole uploads -/

/-- What an upload has made of its staging file and its target since its initial state. -/
structure Job.Leaves (job : Job) (initial : World) (state : Phase × World) : Prop where
  continues : Continues initial state.2
  holds : ∃ writes, writesTo job.stagedFile state.2.trace =
      writesTo job.stagedFile initial.trace ++ writes ∧
    (∀ write ∈ writes, Slice (initial.localFile.getD []) write) ∧
    job.Holds (initial.files job.stagedFile) (initial.localFile.getD []) state.2 writes state.1

namespace Job.Leaves

variable {job : Job} {initial world world' : World} {phase phase' : Phase}

/-- An upload about to begin. -/
theorem refl (job : Job) (initial : World) : job.Leaves initial (.ready, initial) where
  continues := ⟨List.suffix_rfl, rfl, List.prefix_rfl⟩
  holds := ⟨[], (List.append_nil _).symm, by simp, rfl, rfl⟩

/-- A step that writes nothing. -/
theorem of_step (h : job.Leaves initial (phase, world)) (hcontinues : Continues world world')
    (hwrites : writesTo job.stagedFile world'.trace = writesTo job.stagedFile world.trace)
    (hholds : ∀ writes, job.Holds (initial.files job.stagedFile) (initial.localFile.getD []) world
        writes phase →
      job.Holds (initial.files job.stagedFile) (initial.localFile.getD []) world' writes phase') :
    job.Leaves initial (phase', world') := by
  obtain ⟨writes, htrace, hslices, hheld⟩ := h.holds
  exact ⟨h.continues.trans hcontinues, writes, hwrites.trans htrace, hslices, hholds writes hheld⟩

/-- A record appended to the journal. -/
theorem appended {record : Bytes} {fate : AppendFate} (h : job.Leaves initial (phase, world))
    (happended : Appended record world fate world')
    (hholds : ∀ writes, job.Holds (initial.files job.stagedFile) (initial.localFile.getD []) world'
        writes phase →
      job.Holds (initial.files job.stagedFile) (initial.localFile.getD []) world' writes phase') :
    job.Leaves initial (phase', world') :=
  h.of_step happended.continues (happended.writesTo_eq _) fun writes hheld =>
    hholds writes (hheld.congr (congrFun happended.files _) (congrFun happended.files _)
      happended.continues.trace)

/-- The protocol moving on by itself. -/
theorem moved (h : job.Leaves initial (phase, world))
    (hholds : ∀ writes, job.Holds (initial.files job.stagedFile) (initial.localFile.getD []) world
        writes phase →
      job.Holds (initial.files job.stagedFile) (initial.localFile.getD []) world writes phase') :
    job.Leaves initial (phase', world) :=
  h.of_step ⟨List.suffix_rfl, rfl, List.prefix_rfl⟩ rfl hholds

/-- Every step of an undisturbed upload. -/
theorem step (halone : job.Alone initial) (before later : Phase × World)
    (hstep : Step job before later) (h : job.Leaves initial before) :
    job.Leaves initial later := by
  have hundisturbed : job.Alone before.2 := halone.suffix h.continues.script
  cases hstep with
  | idle phase hidle =>
    exact h.of_step hidle.continues (hidle.writesTo_eq _) fun writes hheld =>
      hheld.congr (hidle.frame hundisturbed Job.staged_mem)
        (hidle.frame hundisturbed Job.target_mem) hidle.continues.trace
  | unrecorded hjournal => exact h.moved fun _ hheld => hheld
  | recorded hjournal happended => exact h.appended happended fun _ hheld => hheld
  | @planned world start hplans =>
    refine h.moved fun writes hheld => ⟨hheld.1, ?_, Or.inl hheld.2⟩
    refine hplans.imp id fun ⟨hresume, hstart⟩ => ⟨hresume, ?_⟩
    rw [← hheld.2]
    refine hstart.imp id ?_
    rintro ⟨hzero, moment, hmem, hfiles, hmissing⟩
    exact ⟨hzero, moment, hmem, congrFun hfiles _, hmissing⟩
  | opened hserved =>
    exact h.of_step hserved.continues (hserved.writesTo_eq _) fun _ hheld =>
      hheld.opened hundisturbed hserved
  | uploaded hsent =>
    obtain ⟨writes, htrace, -, hheld⟩ := h.holds
    have hsource := congrArg (·.getD []) h.continues.localFile
    obtain ⟨sent, hwrites, hslices, hheld'⟩ := hheld.uploaded hsource hsent
    obtain rfl := hheld.1
    rw [List.append_nil] at htrace
    exact ⟨h.continues.trans hsent.continues, sent, hwrites.trans (congrArg (· ++ sent) htrace),
      hslices, hheld'⟩
  | renamed hreq hserved =>
    exact h.of_step hserved.continues (hserved.writesTo_eq _) fun _ hheld =>
      hheld.renamed hundisturbed hreq hserved
  | removed hserved =>
    exact h.of_step hserved.continues (hserved.writesTo_eq _) fun _ hheld =>
      hheld.removed hundisturbed hserved
  | renamedAgain hserved =>
    exact h.of_step hserved.continues (hserved.writesTo_eq _) fun _ hheld =>
      hheld.renamedAgain hundisturbed hserved
  | discarded hphase hserved =>
    exact h.of_step hserved.continues (hserved.writesTo_eq _) fun _ hheld =>
      hheld.discarded hundisturbed hphase hserved
  | unsettled hjournal hphase => exact h.moved fun _ hheld => hheld.settled hphase
  | settled hjournal hphase happended =>
    exact h.appended happended fun _ hheld => hheld.settled hphase

/-- What an undisturbed upload has made of its staging file and its target, however far it came. -/
theorem of_steps {state : Phase × World} (halone : job.Alone initial)
    (hsteps : ReflTransGen (Step job) (.ready, initial) state) : job.Leaves initial state := by
  induction hsteps with
  | refl => exact refl job initial
  | tail _ hlast ih => exact step halone _ _ hlast ih

end Job.Leaves

/-! ## What a truthful server was given -/

/-- A server that has reported a file missing only when it was. -/
def Truthful (server : Server) (trace : List Moment) : Prop :=
  ∀ moment ∈ trace, ∀ path message,
    moment.event = .exchanged (.stat path) (.ok (.status .noSuchFile message)) →
      moment.files (server.resolve path) = none

/-- A moment at which no file was reported missing that was there. -/
def Moment.Tells (server : Server) (moment : Moment) : Prop :=
  match moment.event with
  | .exchanged (.stat path) (.ok (.status .noSuchFile _)) =>
    moment.files (server.resolve path) = none
  | _ => True

instance (server : Server) (moment : Moment) : Decidable (moment.Tells server) := by
  unfold Moment.Tells
  split <;> infer_instance

/-- A server was truthful at every moment. -/
theorem truthful_of_tells {server : Server} {trace : List Moment}
    (h : ∀ moment ∈ trace, moment.Tells server) : Truthful server trace := by
  intro moment hmem path message hevent
  have htells := h moment hmem
  unfold Moment.Tells at htells
  rwa [hevent] at htells

/-- A server that has also answered EOF, which ends a READ or a READDIR, to nothing else. -/
def AnswersFaithfully (server : Server) (trace : List Moment) : Prop :=
  Truthful server trace ∧ ¬ AnsweredEof trace

/-- A moment at which EOF was answered to nothing. -/
def Moment.NoEof (moment : Moment) : Prop :=
  match moment.event with
  | .exchanged _ (.ok (.status .eof _)) => False
  | _ => True

instance (moment : Moment) : Decidable moment.NoEof := by
  unfold Moment.NoEof
  split <;> infer_instance

/-- A server answered faithfully at every moment. -/
theorem answersFaithfully_of_tells {server : Server} {trace : List Moment}
    (h : ∀ moment ∈ trace, moment.Tells server ∧ moment.NoEof) :
    AnswersFaithfully server trace := by
  refine ⟨truthful_of_tells fun moment hmem => (h moment hmem).1, ?_⟩
  rintro ⟨moment, hmem, req, message, hevent⟩
  have hnone := (h moment hmem).2
  unfold Moment.NoEof at hnone
  rwa [hevent] at hnone

/-- A file that was truthfully reported missing held nothing. -/
theorem ReportedMissing.eq_none {connection : Connection} {path : Bytes} {content : Option Bytes}
    {trace : List Moment} (h : ReportedMissing connection path content trace)
    (htruthful : Truthful connection.server trace) : content = none := by
  obtain ⟨moment, hmem, hcontent, message, hevent⟩ := h
  exact hcontent.symm.trans (htruthful moment hmem path message hevent)

namespace Job

variable {job : Job} {kept : Option Bytes} {source : Bytes} {trace : List Moment}
  {writes : List Placed} {start : ℕ}

/-- An upload that does not resume opens an empty file, and one that does keeps what is there. -/
structure Flags (job : Job) : Prop where
  fresh : job.upload.resume = false → job.pflags.truncates = true ∨ job.pflags.excludes = true
  resumed : job.upload.resume = true → job.pflags.truncates = false

/-- The flags of a staging file. -/
theorem flags_of_staging (h : job.pflags = stagingFlags job.upload.resume) : job.Flags where
  fresh := fun hresume => by
    rw [h, hresume]
    exact Or.inr (by decide)
  resumed := fun hresume => by
    rw [h, hresume]
    decide

/-- With a truthful server an upload starts at the end of the file it opened. -/
theorem Starts.eq_length (h : job.Starts kept trace start) (hflags : job.Flags)
    (hcreated : job.pflags.excludes = true → kept = none)
    (htruthful : Truthful job.connection.server trace) :
    start = (job.pflags.opened kept).length := by
  unfold OpenFlag.opened
  obtain ⟨hresume, rfl⟩ | ⟨hresume, hstart | ⟨rfl, hmissing⟩⟩ := h
  · obtain htruncates | hexcludes := hflags.fresh hresume
    · rw [if_pos htruncates, List.length_nil]
    · rw [hcreated hexcludes, Option.getD_none, ite_self, List.length_nil]
  · rw [hflags.resumed hresume]
    exact hstart
  · rw [hmissing.eq_none htruthful, Option.getD_none, ite_self, List.length_nil]

/-- A complete upload to a truthful server has continued the file it opened with the source from
there on. -/
theorem Complete.content_eq (h : job.Complete kept source trace writes) (hflags : job.Flags)
    (hslices : ∀ write ∈ writes, Slice source write)
    (htruthful : Truthful job.connection.server trace) :
    (job.pflags.opened kept).length ≤ source.length ∧ job.content kept writes =
      overlay source (job.pflags.opened kept) (job.pflags.opened kept).length := by
  obtain ⟨hcreated, start, hstarts, hinside, hcovered⟩ := h
  obtain rfl := hstarts.eq_length hflags hcreated htruthful
  exact ⟨hinside, pwriteAll_eq_overlay hslices le_rfl hinside hcovered⟩

/-- A complete upload to a truthful server has made the source exactly when it opened a prefix of
it. -/
theorem Complete.content_eq_iff (h : job.Complete kept source trace writes) (hflags : job.Flags)
    (hslices : ∀ write ∈ writes, Slice source write)
    (htruthful : Truthful job.connection.server trace) :
    job.content kept writes = source ↔ job.pflags.opened kept <+: source := by
  obtain ⟨hinside, hcontent⟩ := h.content_eq hflags hslices htruthful
  rw [hcontent, overlay_eq_iff hinside]

end Job

end GantrySftp
