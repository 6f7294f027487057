import GantrySftp.Session.StagedContent

/-!
# No upload loses both copies

While its staging file is another file than its target, an upload leaves at the target what was
there before, or the complete new file, or nothing after it sent a REMOVE of the target, and then
the staging file is the complete new file. This holds at every moment of every run, however its
requests are answered, lost or cut short.
-/

namespace GantrySftp

open Library Program Relation

/-! ## Moments -/

/-- Something holds of the moments so far and the files at every moment of a run. -/
def AtEveryMoment (holds : List Moment → Files → Prop) (run : List Moment) : Prop :=
  ∀ past moment, past ++ [moment] <+: run → holds (past ++ [moment]) moment.files

section Moments

variable {holds : List Moment → Files → Prop} {run later : List Moment}

/-- Nothing has happened yet. -/
theorem AtEveryMoment.nil : AtEveryMoment holds [] := by
  intro past moment hprefix
  exact absurd (List.prefix_nil.mp hprefix) (by simp)

/-- One more moment of a run. -/
theorem AtEveryMoment.concat {moment : Moment} (h : AtEveryMoment holds run)
    (hlast : holds (run ++ [moment]) moment.files) : AtEveryMoment holds (run ++ [moment]) := by
  intro past last hprefix
  obtain heq | hinside := List.prefix_concat_iff.mp hprefix
  · obtain ⟨rfl, hsame⟩ := List.append_inj' heq rfl
    obtain rfl := List.singleton_injective hsame
    exact hlast
  · exact h past last hinside

/-- More moments of a run. -/
theorem AtEveryMoment.append (h : AtEveryMoment holds run)
    (hlater : ∀ past, past <+: later → ∀ moment ∈ later, holds (run ++ past) moment.files) :
    AtEveryMoment holds (run ++ later) := by
  induction later generalizing run with
  | nil => rwa [List.append_nil]
  | cons moment rest ih =>
    have hone : [moment] <+: moment :: rest := ⟨rest, rfl⟩
    rw [List.append_cons]
    refine ih (h.concat (hlater [moment] hone moment List.mem_cons_self)) fun past hpast last hmem =>
      ?_
    rw [List.append_assoc]
    exact hlater (moment :: past) (List.cons_prefix_cons.mpr ⟨rfl, hpast⟩) last
      (List.mem_cons_of_mem _ hmem)

end Moments

namespace Job

variable (job : Job) (kept : Option Bytes) (source : Bytes)

/-! ## The new file -/

/-- What an upload makes: what its staging file was opened with, continued by the rest of the
source. -/
def completed : Bytes :=
  job.pflags.opened kept ++ source.drop (job.pflags.opened kept).length

/-- The complete new file is there. -/
structure IsNew (content : Option Bytes) : Prop where
  content : content = some (job.completed kept source)
  inside : (job.pflags.opened kept).length ≤ source.length
  created : job.pflags.excludes = true → kept = none

/-- The complete new file is there under one of the two paths. -/
def HoldsNew (files : Files) : Prop :=
  job.IsNew kept source (files job.targetFile) ∨ job.IsNew kept source (files job.stagedFile)

variable {job kept source} {content : Option Bytes}

/-- The complete new file is as long as the source. -/
theorem IsNew.length_eq (h : job.IsNew kept source content) :
    (job.completed kept source).length = source.length := by
  have hinside := h.inside
  simp only [completed, List.length_append, List.length_drop]
  omega

/-! ## What is kept -/

variable (job kept source) (previous : Option Bytes)

/-- A moment at which the server answered, or failed to answer, a REMOVE of the target. -/
def RemovesTarget (moment : Moment) : Prop :=
  ∃ answer, moment.event = .exchanged (.remove job.target) answer

/-- A REMOVE of the target was sent. -/
def Sent (past : List Moment) : Prop := ∃ moment ∈ past, job.RemovesTarget moment

/-- A REMOVE of the target was sent that changed it. -/
def Gone (past : List Moment) : Prop :=
  ∃ moment ∈ past, job.RemovesTarget moment ∧ moment.files job.targetFile ≠ previous

/-- The target is as it was or the complete new file, or it is gone after a REMOVE and the staging
file is the complete new file. -/
def Stands (past : List Moment) (files : Files) : Prop :=
  files job.targetFile = previous ∨ job.IsNew kept source (files job.targetFile) ∨
    files job.targetFile = none ∧ job.IsNew kept source (files job.stagedFile) ∧ job.Sent past

/-- Nothing is lost: the target stands, and after a REMOVE that changed it the complete new file
is there. -/
def Safe (past : List Moment) (files : Files) : Prop :=
  job.Stands kept source previous past files ∧
    (job.Gone previous past → job.HoldsNew kept source files)

/-- The target, and the staging file once it may be the only copy, by phase. -/
def Keeps (past : List Moment) (files : Files) : Phase → Prop
  | .ready | .recorded | .planned _ | .staging _ _ | .filled =>
    files job.targetFile = previous ∧ ¬ job.Gone previous past
  | .failing | .discarded | .dropped =>
    (files job.targetFile = previous ∨ job.IsNew kept source (files job.targetFile)) ∧
      ¬ job.Gone previous past
  | .removed =>
    (files job.targetFile = previous ∨ files job.targetFile = none) ∧
      job.IsNew kept source (files job.stagedFile) ∧ job.Sent past
  | .stranded | .published | .done =>
    job.Stands kept source previous past files ∧ job.HoldsNew kept source files

variable {job kept source previous} {past more : List Moment} {files files' : Files}
  {phase : Phase}

/-- What is kept in a phase is safe. -/
theorem Keeps.safe (h : job.Keeps kept source previous past files phase) :
    job.Safe kept source previous past files := by
  cases phase with
  | removed =>
    obtain ⟨htarget, hstaged, hsent⟩ := h
    exact ⟨htarget.imp id fun hnone => Or.inr ⟨hnone, hstaged, hsent⟩, fun _ => Or.inr hstaged⟩
  | stranded => exact ⟨h.1, fun _ => h.2⟩
  | published => exact ⟨h.1, fun _ => h.2⟩
  | done => exact ⟨h.1, fun _ => h.2⟩
  | failing => exact ⟨h.1.imp id Or.inl, fun hgone => absurd hgone h.2⟩
  | discarded => exact ⟨h.1.imp id Or.inl, fun hgone => absurd hgone h.2⟩
  | dropped => exact ⟨h.1.imp id Or.inl, fun hgone => absurd hgone h.2⟩
  | _ => exact ⟨Or.inl h.1, fun hgone => absurd hgone h.2⟩

/-- A REMOVE that was sent stays sent. -/
theorem Sent.append (h : job.Sent past) : job.Sent (past ++ more) := by
  obtain ⟨moment, hmem, hremoves⟩ := h
  exact ⟨moment, List.mem_append_left _ hmem, hremoves⟩

/-- Moments at which no REMOVE changed the target. -/
theorem gone_append
    (h : ∀ moment ∈ more, job.RemovesTarget moment → moment.files job.targetFile = previous) :
    job.Gone previous (past ++ more) ↔ job.Gone previous past := by
  refine ⟨fun ⟨moment, hmem, hremoves, hchanged⟩ => ?_, fun ⟨moment, hmem, hgone⟩ =>
    ⟨moment, List.mem_append_left _ hmem, hgone⟩⟩
  obtain hmem | hmem := List.mem_append.mp hmem
  · exact ⟨moment, hmem, hremoves, hchanged⟩
  · exact absurd (h moment hmem hremoves) hchanged

/-- What is safe stays safe while the two files stay as they are. -/
theorem Safe.append (h : job.Safe kept source previous past files)
    (hmore : ∀ moment ∈ more, ¬ job.RemovesTarget moment)
    (htarget : files' job.targetFile = files job.targetFile)
    (hstaged : files' job.stagedFile = files job.stagedFile) :
    job.Safe kept source previous (past ++ more) files' := by
  unfold Safe Stands HoldsNew at h ⊢
  rw [htarget, hstaged, gone_append fun moment hmem hremoves => absurd hremoves (hmore moment hmem)]
  exact ⟨h.1.imp id (.imp id fun hgone => ⟨hgone.1, hgone.2.1, hgone.2.2.append⟩), h.2⟩

/-- What is kept stays kept while the two files stay as they are. -/
theorem Keeps.append (h : job.Keeps kept source previous past files phase)
    (hmore : ∀ moment ∈ more, ¬ job.RemovesTarget moment)
    (htarget : files' job.targetFile = files job.targetFile)
    (hstaged : files' job.stagedFile = files job.stagedFile) :
    job.Keeps kept source previous (past ++ more) files' phase := by
  unfold Keeps Stands HoldsNew at h ⊢
  rw [htarget, hstaged, gone_append fun moment hmem hremoves => absurd hremoves (hmore moment hmem)]
  have hstands : (files job.targetFile = previous ∨ job.IsNew kept source (files job.targetFile) ∨
      files job.targetFile = none ∧ job.IsNew kept source (files job.stagedFile) ∧
        job.Sent past) → files job.targetFile = previous ∨
      job.IsNew kept source (files job.targetFile) ∨ files job.targetFile = none ∧
        job.IsNew kept source (files job.stagedFile) ∧ job.Sent (past ++ more) :=
    .imp id (.imp id fun hgone => ⟨hgone.1, hgone.2.1, hgone.2.2.append⟩)
  cases phase with
  | removed => exact ⟨h.1, h.2.1, h.2.2.append⟩
  | stranded => exact ⟨hstands h.1, h.2⟩
  | published => exact ⟨hstands h.1, h.2⟩
  | done => exact ⟨hstands h.1, h.2⟩
  | _ => exact h

end Job

/-! ## One step -/

section Steps

variable {job : Job} {initial world world' : World} {previous : Option Bytes}
  {past : List Moment} {phase phase' : Phase} {req : Request} {others : List Change}
  {answer : Except Failure Reply}

/-- What an upload holds and has kept at every moment since its initial state. -/
structure Job.Guards (job : Job) (initial : World) (previous : Option Bytes)
    (state : Phase × World) : Prop where
  leaves : job.Leaves initial state
  run : ∃ past, state.2.trace = initial.trace ++ past ∧
    AtEveryMoment (job.Safe (initial.files job.stagedFile) (initial.localFile.getD []) previous)
      past ∧
    job.Keeps (initial.files job.stagedFile) (initial.localFile.getD []) previous past
      state.2.files state.1

/-- The moments of an exchange. -/
def exchangeMoments (world world' : World) (req : Request) (others : List Change)
    (answer : Except Failure Reply) : List Moment :=
  [⟨.others, world.files.changed others, world.journal⟩,
    ⟨.exchanged req answer, world'.files, world.journal⟩]

/-- Only a REMOVE of the target is one. -/
theorem not_removesTarget (h : req ≠ .remove job.target) :
    ∀ moment ∈ exchangeMoments world world' req others answer, ¬ job.RemovesTarget moment := by
  intro moment hmem ⟨found, hevent⟩
  obtain rfl | hmem := List.mem_cons.mp hmem
  · cases hevent
  · obtain rfl := List.mem_singleton.mp hmem
    exact h (Event.exchanged.inj hevent).1

/-- An exchange is safe at both of its moments when the state after it is. -/
theorem AtEveryMoment.served {kept : Option Bytes} {source : Bytes} (halone : job.Alone world)
    (hserved : Served job.connection.server req world others answer world')
    (h : AtEveryMoment (job.Safe kept source previous) past)
    (hbefore : job.Safe kept source previous past world.files)
    (hafter : job.Safe kept source previous
      (past ++ exchangeMoments world world' req others answer) world'.files) :
    AtEveryMoment (job.Safe kept source previous)
      (past ++ exchangeMoments world world' req others answer) := by
  unfold exchangeMoments at hafter ⊢
  rw [List.append_cons] at hafter ⊢
  refine (h.concat ?_).concat hafter
  refine hbefore.append (fun moment hmem => ?_) (hserved.changed halone Job.target_mem)
    (hserved.changed halone Job.staged_mem)
  obtain rfl := List.mem_singleton.mp hmem
  rintro ⟨found, hevent⟩
  cases hevent

/-- The staging file of a filled phase is the complete new file. -/
theorem Job.Leaves.isNew (h : job.Leaves initial (.filled, world)) (hflags : job.Flags)
    (htruthful : Truthful job.connection.server world.trace) :
    job.IsNew (initial.files job.stagedFile) (initial.localFile.getD [])
      (world.files job.stagedFile) := by
  obtain ⟨writes, -, hslices, hcomplete, hcontent⟩ := h.holds
  obtain ⟨hinside, hmade⟩ := hcomplete.content_eq hflags hslices htruthful
  refine ⟨?_, hinside, hcomplete.created⟩
  rw [hcontent, hmade, overlay, List.take_length, List.drop_eq_nil_of_le hinside, List.append_nil,
    Job.completed]

namespace Job.Keeps

variable {kept : Option Bytes} {source : Bytes}

/-- A request that is no REMOVE of the target removes nothing there. -/
theorem not_gone (h : ¬ job.Gone previous past) (hreq : req ≠ .remove job.target) :
    ¬ job.Gone previous (past ++ exchangeMoments world world' req others answer) := by
  rwa [gone_append fun moment hmem hremoves =>
    absurd hremoves (not_removesTarget hreq moment hmem)]

/-- What is kept after the staging file's OPEN. -/
theorem opened {start : ℕ} {attrs : Attrs}
    (h : job.Keeps kept source previous past world.files (.planned start))
    (htarget : world'.files job.targetFile = world.files job.targetFile) :
    job.Keeps kept source previous
      (past ++ exchangeMoments world world' (.open_ job.staged job.pflags attrs) others answer)
      world'.files (.afterOpen start answer) := by
  have hreq : Request.open_ job.staged job.pflags attrs ≠ .remove job.target := nofun
  have hgone := @not_gone job world world' _ _ _ others answer h.2 hreq
  unfold Phase.afterOpen
  split
  · exact ⟨htarget.trans h.1, hgone⟩
  · exact ⟨htarget.trans h.1, hgone⟩

/-- What is kept after a first rename. -/
theorem renamed (halone : job.Alone world)
    (h : job.Keeps kept source previous past world.files .filled)
    (hnew : job.IsNew kept source (world.files job.stagedFile))
    (hreq : req.Renames job.staged job.target)
    (hserved : Served job.connection.server req world others answer world') :
    job.Keeps kept source previous (past ++ exchangeMoments world world' req others answer)
      world'.files (.afterRename (verdict answer)) := by
  have hremove : req ≠ .remove job.target := by
    rintro rfl
    obtain heq | heq := hreq <;> cases heq
  have hgone := @not_gone job world world' _ _ _ others answer h.2 hremove
  have hsame : ∀ file ∈ [job.stagedFile, job.targetFile],
      world'.files = world.files.changed others → world'.files file = world.files file :=
    fun file hmem hfiles => (congrFun hfiles file).trans (hserved.changed halone hmem)
  cases hverdict : verdict answer with
  | passed =>
    obtain hmoved | ⟨hfiles, -⟩ := hserved.renamed hreq halone Job.staged_mem hverdict
    · have hplaced := hmoved.atNew ▸ hnew
      exact ⟨Or.inr (Or.inl hplaced), Or.inl hplaced⟩
    · exact ⟨Or.inl ((hsame _ Job.target_mem hfiles).trans h.1),
        Or.inr (hsame _ Job.staged_mem hfiles ▸ hnew)⟩
  | refused =>
    exact ⟨(hsame _ Job.target_mem (hserved.unchanged hverdict)).trans h.1, hgone⟩
  | unclear =>
    obtain hfiles | hmoved := hserved.rename_cases hreq halone Job.staged_mem
    · exact ⟨Or.inl ((hsame _ Job.target_mem hfiles).trans h.1), hgone⟩
    · exact ⟨Or.inr (hmoved.atNew ▸ hnew), hgone⟩

/-- What is kept after the target's REMOVE. -/
theorem removed (halone : job.Alone world) (hdiffers : job.stagedFile ≠ job.targetFile)
    (h : job.Keeps kept source previous past world.files .filled)
    (hnew : job.IsNew kept source (world.files job.stagedFile))
    (hserved : Served job.connection.server (.remove job.target) world others answer world') :
    job.Keeps kept source previous
      (past ++ exchangeMoments world world' (.remove job.target) others answer)
      world'.files (.afterRemoval (verdict answer)) := by
  have hstaged := hserved.frame halone Job.staged_mem fun hmem =>
    hdiffers (List.mem_singleton.mp hmem)
  have hnew' := hstaged ▸ hnew
  have htarget : world'.files job.targetFile = previous ∨ world'.files job.targetFile = none :=
    (hserved.remove_cases halone Job.target_mem).imp (·.trans h.1) id
  have hsent : job.Sent
      (past ++ exchangeMoments world world' (.remove job.target) others answer) :=
    ⟨_, List.mem_append_right _ (List.mem_cons_of_mem _ List.mem_cons_self), answer, rfl⟩
  cases hverdict : verdict answer with
  | passed => exact ⟨htarget, hnew', hsent⟩
  | refused =>
    have hfile : world'.files job.targetFile = previous :=
      (congrFun (hserved.unchanged hverdict) _).trans
        ((hserved.changed halone Job.target_mem).trans h.1)
    refine ⟨hfile, ?_⟩
    rw [gone_append]
    · exact h.2
    · intro moment hmem hremoves
      obtain rfl | hmem := List.mem_cons.mp hmem
      · obtain ⟨_, hevent⟩ := hremoves
        cases hevent
      · rw [List.mem_singleton.mp hmem]
        exact hfile
  | unclear => exact ⟨htarget.imp id fun hnone => Or.inr ⟨hnone, hnew', hsent⟩, Or.inr hnew'⟩

/-- What is kept after the second rename. -/
theorem renamedAgain (halone : job.Alone world)
    (h : job.Keeps kept source previous past world.files .removed)
    (hserved : Served job.connection.server (.rename job.staged job.target) world others answer
      world') :
    job.Keeps kept source previous
      (past ++ exchangeMoments world world' (.rename job.staged job.target) others answer)
      world'.files (.afterSecondRename (verdict answer)) := by
  obtain ⟨htarget, hnew, hsent⟩ := h
  have hkept : ∀ last : Phase, (last = .published ∨ last = .stranded) →
      job.Keeps kept source previous
        (past ++ exchangeMoments world world' (.rename job.staged job.target) others answer)
        world'.files last := by
    intro last hlast
    have hboth : job.Stands kept source previous
        (past ++ exchangeMoments world world' (.rename job.staged job.target) others answer)
        world'.files ∧ job.HoldsNew kept source world'.files := by
      obtain hfiles | hmoved := hserved.rename_cases (Or.inl rfl) halone Job.staged_mem
      · have hsame : ∀ file ∈ [job.stagedFile, job.targetFile],
            world'.files file = world.files file := fun file hmem =>
          (congrFun hfiles file).trans (hserved.changed halone hmem)
        have hnew' := hsame _ Job.staged_mem ▸ hnew
        refine ⟨?_, Or.inr hnew'⟩
        rw [Stands, hsame _ Job.target_mem]
        exact htarget.imp id fun hnone => Or.inr ⟨hnone, hnew', hsent.append⟩
      · have hplaced := hmoved.atNew ▸ hnew
        exact ⟨Or.inr (Or.inl hplaced), Or.inl hplaced⟩
    obtain rfl | rfl := hlast
    · exact hboth
    · exact hboth
  cases verdict answer with
  | passed => exact hkept _ (Or.inl rfl)
  | refused => exact hkept _ (Or.inr rfl)
  | unclear => exact hkept _ (Or.inr rfl)

/-- What is kept after the staging file's REMOVE. -/
theorem discarded (halone : job.Alone world) (hdiffers : job.stagedFile ≠ job.targetFile)
    (h : job.Keeps kept source previous past world.files phase) (hphase : phase.Clearing)
    (hserved : Served job.connection.server (.remove job.staged) world others answer world') :
    job.Keeps kept source previous
      (past ++ exchangeMoments world world' (.remove job.staged) others answer)
      world'.files .discarded := by
  have hframe := hserved.frame halone Job.target_mem fun hmem =>
    hdiffers (List.mem_singleton.mp hmem).symm
  have hclearing : (world.files job.targetFile = previous ∨
      job.IsNew kept source (world.files job.targetFile)) ∧ ¬ job.Gone previous past := by
    cases hphase with
    | staging handle start => exact ⟨Or.inl h.1, h.2⟩
    | failing => exact h
    | filled => exact ⟨Or.inl h.1, h.2⟩
  refine ⟨?_, not_gone hclearing.2 fun heq => ?_⟩
  · rw [hframe]
    exact hclearing.1
  · exact hdiffers (congrArg job.connection.server.resolve (Request.remove.inj heq))

end Job.Keeps

namespace Job.Guards

/-- Nothing is lost at the start. -/
theorem refl (job : Job) (initial : World) :
    job.Guards initial (initial.files job.targetFile) (.ready, initial) where
  leaves := .refl job initial
  run := ⟨[], (List.append_nil _).symm, .nil, rfl, fun ⟨_, hmem, _⟩ =>
    absurd hmem List.not_mem_nil⟩

/-- An exchange. -/
theorem served (h : job.Guards initial previous (phase, world)) (halone : job.Alone world)
    (hleaves : job.Leaves initial (phase', world'))
    (hserved : Served job.connection.server req world others answer world')
    (hkeeps : ∀ past, job.Keeps (initial.files job.stagedFile) (initial.localFile.getD []) previous
        past world.files phase →
      job.Keeps (initial.files job.stagedFile) (initial.localFile.getD []) previous
        (past ++ exchangeMoments world world' req others answer) world'.files phase') :
    job.Guards initial previous (phase', world') := by
  obtain ⟨past, htrace, hsafe, hkept⟩ := h.run
  refine ⟨hleaves, past ++ exchangeMoments world world' req others answer, ?_,
    hsafe.served halone hserved hkept.safe (hkeeps past hkept).safe, hkeeps past hkept⟩
  rw [hserved.trace, htrace, List.append_assoc]
  rfl

/-- Moments at each of which as much is kept as before them. -/
theorem lasting (h : job.Guards initial previous (phase, world))
    (hleaves : job.Leaves initial (phase', world')) {more : List Moment}
    (htrace : world'.trace = world.trace ++ more)
    (hkeeps : ∀ past, job.Keeps (initial.files job.stagedFile) (initial.localFile.getD []) previous
        past world.files phase →
      (∀ part, part <+: more → ∀ moment ∈ more,
        job.Keeps (initial.files job.stagedFile) (initial.localFile.getD []) previous
          (past ++ part) moment.files phase) ∧
      job.Keeps (initial.files job.stagedFile) (initial.localFile.getD []) previous
        (past ++ more) world'.files phase') :
    job.Guards initial previous (phase', world') := by
  obtain ⟨past, hpast, hsafe, hkept⟩ := h.run
  obtain ⟨hmoments, hkept'⟩ := hkeeps past hkept
  refine ⟨hleaves, past ++ more, ?_, ?_, hkept'⟩
  · rw [htrace, hpast, List.append_assoc]
  · exact hsafe.append fun part hpart moment hmem => (hmoments part hpart moment hmem).safe

/-- A record appended to the journal. -/
theorem appended {record : Bytes} {fate : AppendFate}
    (h : job.Guards initial previous (phase, world))
    (hleaves : job.Leaves initial (phase', world')) (happended : Appended record world fate world')
    (hphase : ∀ past files,
      job.Keeps (initial.files job.stagedFile) (initial.localFile.getD []) previous past files
        phase →
      job.Keeps (initial.files job.stagedFile) (initial.localFile.getD []) previous past files
        phase') :
    job.Guards initial previous (phase', world') := by
  have hquiet : ∀ part, part <+: [⟨.appended (fate.written record), world.files, world'.journal⟩] →
      ∀ moment ∈ part, ¬ job.RemovesTarget moment := by
    intro part hpart moment hmem ⟨answer, hevent⟩
    obtain rfl := List.mem_singleton.mp (hpart.subset hmem)
    cases hevent
  refine h.lasting hleaves happended.trace fun past hkept => ⟨fun part hpart moment hmem => ?_, ?_⟩
  · obtain rfl := List.mem_singleton.mp hmem
    exact hkept.append (hquiet part hpart) rfl rfl
  · rw [happended.files]
    exact hphase _ _ (hkept.append (hquiet _ List.prefix_rfl) rfl rfl)

/-- The local file sent to the staging file. -/
theorem uploaded {handle : Handle} {start : ℕ} {result : Except Failure ℕ}
    (h : job.Guards initial previous (.staging handle start, world))
    (hdiffers : job.stagedFile ≠ job.targetFile)
    (hleaves : job.Leaves initial (.afterUpload result, world'))
    (hsent : Uploaded handle start world result world') :
    job.Guards initial previous (.afterUpload result, world') := by
  obtain ⟨writes, -, -, hfiles, htrace⟩ := hsent.outcome
  obtain ⟨moments, hmoments, hwrote⟩ := foldl_wrote_trace handle world writes
  obtain ⟨sent, -, -, hheld⟩ := h.leaves.holds
  obtain ⟨-, -, hhandle, -, hcontent⟩ := hheld
  have hother : job.targetFile ≠ handle.file := hhandle ▸ hdiffers.symm
  have hquiet : ∀ part, part <+: moments → ∀ moment ∈ part, ¬ job.RemovesTarget moment := by
    intro part hpart moment hmem ⟨answer, hevent⟩
    obtain ⟨offset, payload, hwritten⟩ := (hwrote moment (hpart.subset hmem)).2.1
    rw [hwritten] at hevent
    cases hevent
  have htarget : world'.files job.targetFile = world.files job.targetFile := by
    rw [← hhandle] at hcontent
    rw [hfiles, foldl_wrote_files handle world writes hcontent, Files.put_of_ne hother]
  refine h.lasting hleaves (htrace.trans hmoments) fun past hkept =>
    ⟨fun part hpart moment hmem => ⟨?_, ?_⟩, ?_⟩
  · exact ((hwrote moment hmem).2.2 _ hother).trans hkept.1
  · rw [gone_append fun moment hmem hremoves => absurd hremoves (hquiet part hpart moment hmem)]
    exact hkept.2
  · have hgone : ¬ job.Gone previous (past ++ moments) := by
      rw [gone_append fun moment hmem hremoves =>
        absurd hremoves (hquiet _ List.prefix_rfl moment hmem)]
      exact hkept.2
    cases result with
    | ok count => exact ⟨htarget.trans hkept.1, hgone⟩
    | error failure => exact ⟨Or.inl (htarget.trans hkept.1), hgone⟩

/-- Between the requests that matter. -/
theorem idle (h : job.Guards initial previous (phase, world)) (halone : job.Alone world)
    (hleaves : job.Leaves initial (phase, world')) (hidle : Idle job.connection world world') :
    job.Guards initial previous (phase, world') := by
  cases hidle with
  | served hreads hserved =>
    refine h.served halone hleaves hserved fun past hkept =>
      hkept.append (not_removesTarget ?_) (hserved.frame_of_reads hreads halone Job.target_mem)
        (hserved.frame_of_reads hreads halone Job.staged_mem)
    rintro rfl
    cases hreads
  | own unsupported folded root hscript => exact ⟨hleaves, h.run⟩

/-- Every step of an undisturbed upload into another file than its target. -/
theorem step (halone : job.Alone initial) (hdiffers : job.stagedFile ≠ job.targetFile)
    (hflags : job.Flags) (before later : Phase × World) (hstep : Step job before later)
    (htruthful : Truthful job.connection.server later.2.trace)
    (h : job.Guards initial previous before) : job.Guards initial previous later := by
  have hundisturbed : job.Alone before.2 := halone.suffix h.leaves.continues.script
  have hleaves := h.leaves.step halone before later hstep
  have htruthful' : Truthful job.connection.server before.2.trace := fun moment hmem =>
    htruthful moment (hstep.continues.trace.subset hmem)
  cases hstep with
  | idle phase hidle => exact h.idle hundisturbed hleaves hidle
  | unrecorded hjournal => exact ⟨hleaves, h.run⟩
  | recorded hjournal happended => exact h.appended hleaves happended fun _ _ hkept => hkept
  | planned hplans => exact ⟨hleaves, h.run⟩
  | opened hserved =>
    have htarget := hserved.frame hundisturbed Job.target_mem fun hmem =>
      hdiffers (List.mem_singleton.mp hmem).symm
    exact h.served hundisturbed hleaves hserved fun past hkept => hkept.opened htarget
  | uploaded hsent => exact h.uploaded hdiffers hleaves hsent
  | renamed hreq hserved =>
    have hnew := h.leaves.isNew hflags htruthful'
    exact h.served hundisturbed hleaves hserved fun past hkept =>
      hkept.renamed hundisturbed hnew hreq hserved
  | removed hserved =>
    have hnew := h.leaves.isNew hflags htruthful'
    exact h.served hundisturbed hleaves hserved fun past hkept =>
      hkept.removed hundisturbed hdiffers hnew hserved
  | renamedAgain hserved =>
    exact h.served hundisturbed hleaves hserved fun past hkept =>
      hkept.renamedAgain hundisturbed hserved
  | discarded hphase hserved =>
    exact h.served hundisturbed hleaves hserved fun past hkept =>
      hkept.discarded hundisturbed hdiffers hphase hserved
  | unsettled hjournal hphase =>
    refine ⟨hleaves, ?_⟩
    obtain ⟨past, hpast, hsafe, hkept⟩ := h.run
    refine ⟨past, hpast, hsafe, ?_⟩
    cases hphase with
    | published => exact hkept
    | discarded => exact hkept
  | settled hjournal hphase happended =>
    refine h.appended hleaves happended fun _ _ hkept => ?_
    cases hphase with
    | published => exact hkept
    | discarded => exact hkept

/-- Every run of an undisturbed upload into another file than its target. -/
theorem of_steps {state : Phase × World} (halone : job.Alone initial)
    (hdiffers : job.stagedFile ≠ job.targetFile) (hflags : job.Flags)
    (hsteps : ReflTransGen (Step job) (.ready, initial) state)
    (htruthful : Truthful job.connection.server state.2.trace) :
    job.Guards initial (initial.files job.targetFile) state := by
  induction hsteps with
  | refl => exact refl job initial
  | tail _ hlast ih =>
    refine step halone hdiffers hflags _ _ hlast htruthful (ih fun moment hmem => ?_)
    exact htruthful moment (hlast.continues.trace.subset hmem)

end Job.Guards

/-! ## A staging file that is the target -/

/-- Before the staging file is open. -/
inductive Phase.Unopened : Phase → Prop
  | ready : Unopened .ready
  | recorded : Unopened .recorded
  | planned (start : ℕ) : Unopened (.planned start)

/-- A file that is there is not opened by an OPEN that excludes it. -/
theorem Served.open_excluded {server : Server} {path : Bytes} {pflags : OpenFlag} {attrs : Attrs}
    {names : List Bytes} {content : Bytes}
    (h : Served server (.open_ path pflags attrs) world others answer world')
    (hscript : Undisturbed names world.script) (hfile : server.resolve path ∈ names)
    (hexcludes : pflags.excludes = true)
    (hcontent : world.files (server.resolve path) = some content) :
    world'.files = world.files.changed others ∧ ∀ handle, answer ≠ .ok (.handle handle) := by
  have hthere := (h.changed hscript hfile).trans hcontent
  have hrefused : ∀ files' reply, server.perform (world.files.changed others)
      (.open_ path pflags attrs) ≠ .ok (files', reply) := by
    intro files' reply hperform
    cases hthere.symm.trans ((Server.perform_open hperform).2.2 hexcludes)
  refine ⟨?_, fun handle hanswer => hrefused _ _ (h.opened hanswer)⟩
  obtain hfiles | hfiles := h.files
  · exact hfiles
  · unfold Server.after at hfiles
    cases hperform : server.perform (world.files.changed others) (.open_ path pflags attrs) with
    | ok done => exact absurd hperform (hrefused _ _)
    | error code => rwa [hperform] at hfiles

/-- An upload that would have to create its target as the staging file never opens it. -/
theorem Job.Guards.step_blocked {content : Bytes} (halone : job.Alone initial)
    (hsame : job.stagedFile = job.targetFile) (hexcludes : job.pflags.excludes = true)
    (before later : Phase × World) (hstep : Step job before later)
    (h : job.Guards initial (some content) before ∧ before.1.Unopened) :
    job.Guards initial (some content) later ∧ later.1.Unopened := by
  obtain ⟨h, hphase⟩ := h
  have hundisturbed : job.Alone before.2 := halone.suffix h.leaves.continues.script
  have hleaves := h.leaves.step halone before later hstep
  cases hstep with
  | idle phase hidle => exact ⟨h.idle hundisturbed hleaves hidle, hphase⟩
  | unrecorded hjournal => exact ⟨⟨hleaves, h.run⟩, .recorded⟩
  | recorded hjournal happended =>
    exact ⟨h.appended hleaves happended fun _ _ hkept => hkept, .recorded⟩
  | planned hplans => exact ⟨⟨hleaves, h.run⟩, .planned _⟩
  | @opened start attrs world world' others answer hserved =>
    obtain ⟨past, -, -, hkept, -⟩ := h.run
    have hcontent : world.files job.stagedFile = some content := hsame ▸ hkept
    obtain ⟨hfiles, hhandle⟩ :=
      hserved.open_excluded hundisturbed Job.staged_mem hexcludes hcontent
    have htarget := (congrFun hfiles _).trans (hserved.changed hundisturbed Job.target_mem)
    refine ⟨h.served hundisturbed hleaves hserved fun past hkept => hkept.opened htarget, ?_⟩
    dsimp only
    unfold Phase.afterOpen
    split
    · exact absurd rfl (hhandle _)
    · exact .planned start
  | uploaded hsent => cases hphase
  | renamed hreq hserved => cases hphase
  | removed hserved => cases hphase
  | renamedAgain hserved => cases hphase
  | discarded hclearing hserved =>
    cases hphase <;> cases hclearing
  | unsettled hjournal hsettling => cases hphase <;> cases hsettling
  | settled hjournal hsettling happended => cases hphase <;> cases hsettling

/-- A run of an upload that would have to create its target as the staging file. -/
theorem Job.Guards.of_blocked {content : Bytes} {state : Phase × World} (halone : job.Alone initial)
    (hsame : job.stagedFile = job.targetFile) (hexcludes : job.pflags.excludes = true)
    (hcontent : initial.files job.targetFile = some content)
    (hsteps : ReflTransGen (Step job) (.ready, initial) state) :
    job.Guards initial (some content) state := by
  have hrun : job.Guards initial (some content) state ∧ state.1.Unopened := by
    induction hsteps with
    | refl => exact ⟨hcontent ▸ refl job initial, .ready⟩
    | tail _ hlast ih => exact step_blocked halone hsame hexcludes _ _ hlast ih
  exact hrun.1

end Steps

/-! ## Whole uploads -/

/-- An upload into a staging file that is published as the target. -/
def Job.atomic (connection : Connection) (upload : Upload) (target staged : Bytes) (journal : Bool)
    (source : SourceIdentity) : Job where
  connection := connection
  upload := upload
  target := target
  staged := staged
  pflags := stagingFlags upload.resume
  journal := journal
  source := source

/-- A run that lost no copy: at its end and at every moment of it the target is as it was, or the
complete new file is there; and from a REMOVE of the target that was performed on it is there. -/
structure Job.NeverLost (job : Job) (previous : Bytes) (initial ended : World) : Prop where
  kept : ended.files job.targetFile = some previous ∨
    job.HoldsNew (initial.files job.stagedFile) (initial.localFile.getD []) ended.files
  always : ∀ past moment later, ended.trace = initial.trace ++ past ++ moment :: later →
    moment.files job.targetFile = some previous ∨
      job.HoldsNew (initial.files job.stagedFile) (initial.localFile.getD []) moment.files
  lasting : ∀ past removal later, ended.trace = initial.trace ++ past ++ removal :: later →
    job.RemovesTarget removal → removal.files job.targetFile = none →
      (∀ moment ∈ removal :: later, job.HoldsNew (initial.files job.stagedFile)
        (initial.localFile.getD []) moment.files) ∧
      job.HoldsNew (initial.files job.stagedFile) (initial.localFile.getD []) ended.files

/-- What is safe is not lost. -/
theorem Job.Safe.kept {job : Job} {kept : Option Bytes} {source : Bytes} {previous : Option Bytes}
    {past : List Moment} {files : Files} (h : job.Safe kept source previous past files) :
    files job.targetFile = previous ∨ job.HoldsNew kept source files := by
  obtain htarget | hnew | ⟨-, hnew, -⟩ := h.1
  · exact Or.inl htarget
  · exact Or.inr (Or.inl hnew)
  · exact Or.inr (Or.inr hnew)

/-- Guarded runs lose no copy. -/
theorem Job.Guards.neverLost {job : Job} {previous : Bytes} {initial : World}
    {state : Phase × World} (h : job.Guards initial (some previous) state) :
    job.NeverLost previous initial state.2 := by
  obtain ⟨run, htrace, hsafe, hkeeps⟩ := h.run
  have hrun : ∀ past rest, state.2.trace = initial.trace ++ past ++ rest → run = past ++ rest := by
    intro past rest hsplit
    rw [htrace, List.append_assoc] at hsplit
    exact List.append_cancel_left hsplit
  refine ⟨hkeeps.safe.kept, fun past moment later hsplit => ?_,
    fun past removal later hsplit hremoves hnone => ?_⟩
  · obtain rfl := hrun past _ hsplit
    exact (hsafe past moment ⟨later, by simp⟩).kept
  · obtain rfl := hrun past _ hsplit
    have hgone : ∀ rest, job.Gone (some previous) (past ++ removal :: rest) := fun rest =>
      ⟨removal, by simp, hremoves, by simp [hnone]⟩
    refine ⟨fun moment hmem => ?_, hkeeps.safe.2 (hgone later)⟩
    obtain ⟨before, after, hlater⟩ := List.append_of_mem hmem
    have hmoment := hsafe (past ++ before) moment ⟨after, by simp [hlater]⟩
    refine hmoment.2 ?_
    cases before with
    | nil =>
      obtain ⟨rfl, rfl⟩ := List.cons.inj hlater
      simpa using hgone []
    | cons first before =>
      obtain ⟨rfl, -⟩ := List.cons.inj hlater
      simpa using hgone (before ++ [moment])

/-- No run of an atomic upload loses both copies. -/
theorem putAtomically_neverLost (connection : Connection) (upload : Upload) (target staged : Bytes)
    (requireAtomic journal : Bool) (source : SourceIdentity) {initial : World} {previous : Bytes}
    (hprevious : initial.files (connection.server.resolve target) = some previous)
    (hdiffers : connection.server.resolve staged ≠ connection.server.resolve target ∨
      upload.resume = false)
    (halone : Undisturbed [connection.server.resolve staged, connection.server.resolve target]
      initial.script)
    (htruthful : Truthful connection.server ((putAtomically connection upload target staged
      requireAtomic journal source).exec initial).2.trace) :
    (Job.atomic connection upload target staged journal source).NeverLost previous initial
      ((putAtomically connection upload target staged requireAtomic journal source).exec
        initial).2 := by
  let job := Job.atomic connection upload target staged journal source
  obtain ⟨phase, -, hsteps⟩ := @follows_putAtomically job rfl requireAtomic initial
  have hflags : job.Flags := Job.flags_of_staging rfl
  have hundisturbed : job.Alone initial := halone
  by_cases hsame : job.stagedFile = job.targetFile
  · have hexcludes : job.pflags.excludes = true := by
      have hresume := hdiffers.resolve_left (not_not_intro hsame)
      change (stagingFlags upload.resume).excludes = true
      rw [hresume]
      decide
    exact (Job.Guards.of_blocked hundisturbed hsame hexcludes hprevious hsteps).neverLost
  · have hguards := Job.Guards.of_steps hundisturbed hsame hflags hsteps htruthful
    rw [show initial.files job.targetFile = some previous from hprevious] at hguards
    exact hguards.neverLost

/-- An upload of a local file and nothing else. -/
def bareUpload (resume : Bool) : Upload where
  localStat := ⟨[108], ⟨0, 0⟩, 0⟩
  fsync := false
  requireFsync := false
  depth := none
  resume := resume
  preserveTimes := false
  verify := .size
  mode := none

/-- A server that knows no `posix-rename` and renames onto nothing that is there, and a process
that hears no answer once the target is removed. -/
def lostRename : World :=
  .starting (Function.update (fun _ => none) [116] (some [9])) (some [7])
    [.exchange [] (.answer false), .upload [.send, .perform 1, .reply 1 (.status .ok [])] .timeout,
      .exchange [] (.answer false), .exchange [] (.answer false),
      .exchange [] (.refuse .unknown),
      .exchange [] (.refuse .unexplained), .exchange [] (.answer false),
      .exchange [] (.answer false), .exchange [] (.lose false .connectionLost)]

/-- A process that is cut off between removing its target and renaming onto it. -/
theorem putAtomically_neverLost_cut :
    let ended := (putAtomically (.plain 1) (bareUpload false) [116] [115] false false ⟨[], 0, 0⟩).exec
      lostRename
    ended.1 = .error .connectionLost ∧ ended.2.files [116] = none ∧
      ended.2.files [115] = some [7] ∧
      (Job.atomic (.plain 1) (bareUpload false) [116] [115] false ⟨[], 0, 0⟩).NeverLost [9] lostRename
        ended.2 :=
  ⟨by decide +kernel, by decide +kernel, by decide +kernel,
    putAtomically_neverLost (.plain 1) (bareUpload false) [116] [115] false false ⟨[], 0, 0⟩ rfl
      (Or.inl (by decide)) (by decide +kernel) (truthful_of_tells (by decide +kernel))⟩

/-- A plain session whose server takes the path `/./t` for `/t`. -/
def Connection.aliasing : Connection :=
  { Connection.plain 1 with
    server := { Server.plain with
      resolve := fun path => if path = [47, 46, 47, 116] then [47, 116] else path } }

/-- A target that holds the first of three bytes, and a process that hears nothing after its first
WRITE was answered and removes its staging file. -/
def aliasedTarget : World :=
  .starting (Function.update (fun _ => none) [47, 116] (some [1])) (some [1, 2, 3])
    [.exchange [] (.answer false), .exchange [] (.answer false), .exchange [] (.refuse .unknown),
      .exchange [] (.answer false), .exchange [] (.answer false),
      .upload [.send, .perform 1, .reply 1 (.status .ok [])] .timeout,
      .exchange [] (.answer false), .exchange [] (.answer false)]

/-- An upload that resumes at another spelling of its target's path loses both copies when a WRITE
fails. -/
theorem not_forall_neverLost :
    ¬ ∀ (connection : Connection) (upload : Upload) (target staged : Bytes)
        (requireAtomic journal : Bool) (source : SourceIdentity) (initial : World)
        (previous : Bytes), staged ≠ target →
      initial.files (connection.server.resolve target) = some previous →
      Undisturbed [connection.server.resolve staged, connection.server.resolve target]
        initial.script →
      Truthful connection.server ((putAtomically connection upload target staged requireAtomic
        journal source).exec initial).2.trace →
      (Job.atomic connection upload target staged journal source).NeverLost previous initial
        ((putAtomically connection upload target staged requireAtomic journal source).exec
          initial).2 := by
  intro h
  have hkept := (h .aliasing (bareUpload true) [47, 116] [47, 46, 47, 116] false false ⟨[], 0, 0⟩
    aliasedTarget [1] (by decide) (by decide +kernel) (by decide +kernel)
    (truthful_of_tells (by decide +kernel))).kept
  have htarget : (Job.atomic .aliasing (bareUpload true) [47, 116] [47, 46, 47, 116] false
      ⟨[], 0, 0⟩).targetFile = [47, 116] := by
    decide +kernel
  have hstaged : (Job.atomic .aliasing (bareUpload true) [47, 116] [47, 46, 47, 116] false
      ⟨[], 0, 0⟩).stagedFile = [47, 116] := by
    decide +kernel
  have hgone : ((putAtomically .aliasing (bareUpload true) [47, 116] [47, 46, 47, 116] false false
      ⟨[], 0, 0⟩).exec aliasedTarget).2.files [47, 116] = none := by
    decide +kernel
  unfold Job.HoldsNew at hkept
  rw [htarget, hstaged, hgone] at hkept
  obtain hprevious | hnew | hnew := hkept
  · cases hprevious
  · cases hnew.content
  · cases hnew.content

end GantrySftp
