import GantrySftp.Session.Publishing

/-!
# Every upload follows the publishing protocol

The operations of an upload, from the finished transfer to the record that strikes the staging
file off the journal, each take the steps of the protocol and no others. An upload that returned
has reached its last phase, and one that failed is in whatever phase it failed in.
-/

namespace GantrySftp

open Library Program Relation

/-! ## What only reads -/

section Reading

variable (connection : Connection)

/-- Setting attributes other than the size. -/
theorem idle_fsetstat (handle : Handle) (attrs : Attrs) (path : Option Bytes) :
    Does (Idle connection) (expectStatus connection (.fsetstat handle attrs) path) :=
  does_expectStatus ((readingSteps_idle connection).request _ rfl) path

/-- Setting the permissions, where asked to. -/
theorem idle_setMode (handle : Handle) (path : Bytes) (mode : Option ℤ) :
    Does (Idle connection) (setMode connection handle path mode) := by
  cases mode with
  | none => exact .pure _
  | some mode => exact idle_fsetstat connection handle _ (some path)

/-- Setting the times, where asked to. -/
theorem idle_setTimes (upload : Upload) (handle : Handle) :
    Does (Idle connection) (setTimes connection upload handle) := by
  unfold setTimes
  split_ifs
  · refine .bind .get fun world => ?_
    split_ifs
    · refine .tryCatch (.bind (idle_fsetstat connection handle _ none) fun _ => .pure _)
        fun failure => ?_
      split_ifs
      · exact .pure _
      · exact .throw _
    · exact .throw _
  · exact .pure _

/-- Flushing, if the server will. -/
theorem idle_fsyncIfSupported (handle : Handle) :
    Does (Idle connection) (fsyncIfSupported connection handle) :=
  does_orUnsupported (does_attemptExtension
    (does_expectStatus ((readingSteps_idle connection).request _ rfl) none)
    ((readingSteps_idle connection).learn .fsync))

/-- Flushing, where asked to. -/
theorem idle_flush (upload : Upload) (handle : Handle) :
    Does (Idle connection) (flush connection upload handle) := by
  unfold flush
  split
  · refine .bind (.tryCatch (.bind (idle_fsyncIfSupported connection handle) fun _ => .pure _)
      fun failure => ?_) fun flushed => ?_
    · split_ifs
      · exact .pure _
      · exact .throw _
    · cases flushed with
      | none => exact .pure _
      | some flushed =>
        cases flushed
        · dsimp only
          split_ifs
          · exact .throw _
          · exact .pure _
        · exact .pure _
  · exact .pure _

/-- Finding out whether the server flushes. -/
theorem idle_probeDurability (handle : Handle) :
    Does (Idle connection) (probeDurability connection handle) := by
  unfold probeDurability
  split_ifs
  · exact .pure _
  · refine .bind (idle_fsyncIfSupported connection handle) fun flushed => ?_
    split_ifs
    · exact .pure _
    · exact .throw _

/-- Comparing sizes. -/
theorem idle_confirmSize (path : Bytes) (expected : ℕ) :
    Does (Idle connection) (confirmSize connection path expected) := by
  refine .bind (.tryCatch (.bind ((readingSteps_idle connection).stat path) fun _ => .pure _)
    fun failure => ?_) fun size => ?_
  · split_ifs
    · exact .pure _
    · exact .throw _
  · cases size with
    | none => exact .pure _
    | some size =>
      dsimp only
      split_ifs
      · exact .throw _
      · exact .pure _

/-- The checks of a filled file. -/
theorem idle_checkFilled (upload : Upload) (path : Bytes) :
    Does (Idle connection) (checkFilled connection upload path) :=
  .bind .get fun _ => .bind (idle_confirmSize connection path _) fun _ =>
    .bind ((readingSteps_idle connection).verifyContent path _ upload.verify) fun _ => .pure _

/-- Asking whether a path is there. -/
theorem idle_confirmedPresent (path : Bytes) :
    Does (Idle connection) (confirmedPresent connection path) := by
  refine .tryCatch (.bind ((readingSteps_idle connection).lstat path) fun _ => .pure _)
    fun failure => ?_
  split_ifs
  · exact .pure _
  · exact .throw _

/-- Refusing what could not be published. -/
theorem idle_refuseUnpublishable (target : Bytes) :
    Does (Idle connection) (refuseUnpublishable connection target) := by
  refine .bind (idle_confirmedPresent connection target) fun present => ?_
  split_ifs
  · exact .throw _
  · exact .pure _

end Reading

/-! ## Filling -/

section Following

variable {job : Job}

/-- What only reads stays in its phase, which is one to discard from. -/
theorem follows_clearing {α : Type} {program : Session α}
    (h : Does (Idle job.connection) program) {phase : Phase} (hphase : phase.Clearing) :
    Follows (Step job) phase program (fun _ phase' => phase' = phase)
      fun _ phase' => phase'.Clearing := by
  refine (follows_of_idle h phase).weaken (fun _ _ => id) fun _ phase' heq => ?_
  rw [heq]
  exact hphase

/-- Filling the staging file. -/
theorem follows_fill (handle : Handle) (start : ℕ) :
    Follows (Step job) (.staging handle start)
      (fill job.connection job.upload handle job.staged start)
      (fun _ phase => phase = .filled) fun _ phase => phase.Clearing := by
  refine .bind (follows_uploadFrom handle start _) fun transferred phase hphase => ?_
  subst hphase
  refine .bind (follows_clearing (idle_setMode _ _ _ _) .filled) fun _ phase hphase => ?_
  subst hphase
  refine .bind (follows_clearing (idle_setTimes _ _ _) .filled) fun _ phase hphase => ?_
  subst hphase
  refine .bind (follows_clearing (idle_flush _ _ _) .filled) fun _ phase hphase => ?_
  subst hphase
  exact .pure rfl

/-- Filling the staging file and closing it. -/
theorem follows_fillAndClose (handle : Handle) (start : ℕ) :
    Follows (Step job) (.staging handle start)
      (fillAndClose job.connection job.upload handle job.staged start)
      (fun _ phase => phase = .filled) fun _ phase => phase.Clearing := by
  refine .bind (.tryCatch (follows_fill handle start) fun failure phase hphase => ?_)
    fun filled phase hphase => ?_
  · refine .bind (follows_clearing ((readingSteps_idle _).closeQuietly handle) hphase)
      fun _ phase' hphase' => ?_
    subst hphase'
    exact .throw hphase
  · subst hphase
    refine .bind (follows_clearing ((readingSteps_idle _).close handle) .filled)
      fun _ phase hphase => ?_
    subst hphase
    exact .pure rfl

/-! ## Publishing -/

/-- How a publish fails: from a phase to discard from, or with the staging file as the only copy. -/
def Abandons (failure : Failure) (phase : Phase) : Prop :=
  (∃ cause removed, failure = .stagedIsTheOnlyCopy cause removed) ∨ phase.Clearing

/-- After a first rename that raised there is something to discard. -/
theorem clearing_of_raised {failure : Failure} {phase : Phase}
    (h : Raised .filled Phase.afterRename failure phase) : phase.Clearing := by
  unfold Raised at h
  split_ifs at h
  · rw [h]
    exact .filled
  · obtain rfl | ⟨-, rfl⟩ := h
    · exact .failing
    · exact .filled

/-- An operation of the protocol that is answered with a STATUS. -/
theorem follows_status {before : Phase} (next : Verdict → Phase) {req : Request}
    (h : ∀ world others answer world',
      Served job.connection.server req world others answer world' →
        Step job (before, world) (next (verdict answer), world')) (path : Option Bytes) :
    Follows (Step job) before (expectStatus job.connection req path)
      (fun _ phase => phase = next .passed) (Raised before next) :=
  follows_expectStatus h (step_kill job before) path

/-- A first rename. -/
theorem follows_rename {req : Request}
    (hreq : req = .rename job.staged job.target ∨ req = .posixRename job.staged job.target)
    (path : Option Bytes) :
    Follows (Step job) .filled (expectStatus job.connection req path)
      (fun _ phase => phase = .published) (Raised .filled Phase.afterRename) :=
  follows_status Phase.afterRename (fun _ _ _ _ => .renamed hreq) path

/-- After a refused rename nothing is different. -/
theorem filled_of_raised {failure : Failure} {phase : Phase}
    (h : Raised .filled Phase.afterRename failure phase) (hrefusal : failure.isServerError = true) :
    phase = .filled := by
  unfold Raised at h
  rwa [if_pos hrefusal] at h

/-- Renaming in one step, if the server will. -/
theorem follows_posixRenameIfSupported :
    Follows (Step job) .filled
      (posixRenameIfSupported job.connection job.staged job.target)
      (fun performed phase => phase = if performed then .published else .filled)
      fun failure phase => phase.Clearing ∧ (failure.isServerError = true → phase = .filled) := by
  refine .tryCatch (?_ : Follows (Step job) .filled _ _ fun failure phase =>
    phase.Clearing ∧ (failure.isServerError = true → phase = .filled))
    fun failure phase hphase => ?_
  · refine .bind (.weaken (follows_of_idle (does_refuses .posixRename) .filled) (fun _ _ => id)
      fun _ phase hphase => ?_) fun refused phase hphase => ?_
    · subst hphase
      exact ⟨.filled, fun _ => rfl⟩
    · subst hphase
      split_ifs
      · exact .pure rfl
      · refine .tryCatch (.bind (follows_rename (Or.inr rfl) _) fun _ phase hphase => ?_)
          fun failure phase hphase => ?_
        · subst hphase
          exact .pure rfl
        · have hclearing := clearing_of_raised hphase
          unfold refusedExtension
          split_ifs with hrefused hunsupported
          · obtain rfl := filled_of_raised hphase hrefused.1
            refine .bind (.weaken (follows_of_idle ((readingSteps_idle job.connection).learn _)
              .filled) (fun _ _ => id) fun _ phase hphase => ?_) fun _ phase hphase => ?_
            · subst hphase
              exact ⟨.filled, fun _ => rfl⟩
            · subst hphase
              exact .pure rfl
          · obtain rfl := filled_of_raised hphase hrefused.1
            exact .pure rfl
          · exact .throw ⟨hclearing, filled_of_raised hphase⟩
  · split_ifs with hunsupported
    · obtain rfl := hphase.2 (failure.isServerError_of_isUnsupported hunsupported)
      exact .pure rfl
    · exact .throw hphase

/-- Making way by removing the target. -/
theorem follows_removeTarget :
    Follows (Step job) .filled (removeTarget job.connection job.target)
      (fun _ phase => phase = .removed) Abandons := by
  refine .tryCatch (follows_status Phase.afterRemoval (fun _ _ _ _ => .removed) _)
    fun failure phase hphase => ?_
  split_ifs with hrefused
  · unfold Raised at hphase
    rw [if_pos hrefused] at hphase
    subst hphase
    exact .throw (Or.inr .filled)
  · exact .throw (Or.inl ⟨_, _, rfl⟩)

/-- Renaming onto the removed target. -/
theorem follows_renameOntoRemoved :
    Follows (Step job) .removed (renameOntoRemoved job.connection job.staged job.target)
      (fun _ phase => phase = .published) Abandons :=
  .tryCatch (follows_status Phase.afterSecondRename (fun _ _ _ _ => .renamedAgain) _)
    fun _ _ _ => .throw (Or.inl ⟨_, _, rfl⟩)

/-- Replacing the target. -/
theorem follows_replaceTarget (requireAtomic : Bool) :
    Follows (Step job) .filled
      (replaceTarget job.connection job.staged job.target requireAtomic)
      (fun _ phase => phase = .published) Abandons := by
  unfold replaceTarget
  split_ifs
  · exact .throw (Or.inr .filled)
  · refine .bind follows_removeTarget fun _ phase hphase => ?_
    subst hphase
    refine .bind follows_renameOntoRemoved fun _ phase hphase => ?_
    subst hphase
    exact .pure rfl

/-- The phase after a first rename was tried, however that ended. -/
def AfterTry : Except Failure Unit → Phase → Prop
  | .ok _, phase => phase = .published
  | .error failure, phase => Raised .filled Phase.afterRename failure phase

/-- Publishing by a plain rename. -/
theorem follows_publishByPlainRename (requireAtomic : Bool) :
    Follows (Step job) .filled
      (publishByPlainRename job.connection job.staged job.target requireAtomic)
      (fun _ phase => phase = .published) Abandons := by
  have hattempt : Follows (Step job) .filled
      (attempt (rename job.connection job.staged job.target))
      AfterTry Abandons :=
    .tryCatch (.bind (follows_rename (Or.inl rfl) _) fun _ phase hphase => .pure hphase)
      fun failure phase hphase => .pure hphase
  refine .bind hattempt fun result phase hphase => ?_
  cases result with
  | ok _ => exact .pure hphase
  | error failure =>
    dsimp only [afterRenameFailure] at hphase ⊢
    split_ifs with hrefused
    · obtain rfl := filled_of_raised hphase hrefused
      refine .bind (.weaken (follows_of_idle (idle_confirmedPresent _ _) .filled)
        (fun _ _ => id) fun _ phase hphase => ?_) fun present phase hphase => ?_
      · subst hphase
        exact Or.inr .filled
      · subst hphase
        split_ifs
        · exact follows_replaceTarget requireAtomic
        · exact .throw (Or.inr .filled)
    · exact .throw (Or.inr (clearing_of_raised hphase))

/-- Publishing the staging file as the target. -/
theorem follows_publish (requireAtomic : Bool) :
    Follows (Step job) .filled (publish job.connection job.staged job.target requireAtomic)
      (fun _ phase => phase = .published) Abandons := by
  refine .bind (.weaken follows_posixRenameIfSupported (fun _ _ => id)
    fun _ phase hphase => Or.inr hphase.1) fun performed phase hphase => ?_
  subst hphase
  cases performed
  · exact follows_publishByPlainRename requireAtomic
  · exact .pure rfl

/-! ## The whole upload -/

/-- Removing the staging file. What this raises is only noted, unless it ends the process. -/
theorem follows_discard {phase : Phase} (hclearing : phase.Clearing) :
    Follows (Step job) phase (discard job.connection job.staged)
      (fun _ phase' => phase' = .discarded) fun _ _ => True := by
  refine .tryCatch (follows_status (fun _ => .discarded) (fun _ _ _ _ => .discarded hclearing) _)
    fun failure phase' hphase => ?_
  split_ifs with hexception
  · unfold Raised at hphase
    split_ifs at hphase
    · exact .pure hphase
    · obtain rfl | ⟨rfl, -⟩ := hphase
      · exact .pure rfl
      · cases hexception
  · exact .throw trivial

/-- Cleaning up after a failure. -/
theorem follows_cleanUp {failure : Failure} {phase : Phase} (h : Abandons failure phase) :
    Follows (Step job) phase (cleanUp job.connection job.journal job.target job.staged failure)
      (fun _ _ => False) fun _ _ => True := by
  have hdiscard : ∀ failure : Failure, phase.Clearing →
      Follows (Step job) phase (do
        discard job.connection job.staged
        recordPublished job.journal job.target
        throw failure : Session UploadResult) (fun _ _ => False) fun _ _ => True := by
    intro failure hclearing
    refine .bind (follows_discard hclearing) fun _ phase' hphase => ?_
    subst hphase
    exact .bind (follows_recordPublished .discarded) fun _ _ _ => .throw trivial
  obtain ⟨cause, removed, rfl⟩ | hclearing := h
  · exact .throw trivial
  · cases failure with
    | stagedIsTheOnlyCopy cause removed => exact .throw trivial
    | _ => exact hdiscard _ hclearing

/-- Filling the open staging file and publishing it. -/
theorem follows_fillAndPublish (requireAtomic : Bool) (handle : Handle) (start : ℕ)
    (resumeCheck : ResumeCheck) :
    Follows (Step job) (.staging handle start)
      (fillAndPublish job.connection job.upload job.target job.staged requireAtomic handle start
        resumeCheck) (fun _ phase => phase = .published) Abandons := by
  have hfill : Follows (Step job) (.staging handle start) (do
      let filled ← fillAndClose job.connection job.upload handle job.staged start
      let checks ← checkFilled job.connection job.upload job.staged
      let mechanism ← publish job.connection job.staged job.target requireAtomic
      pure (uploadResult job.upload job.target filled checks resumeCheck mechanism
        (some job.staged)) : Session UploadResult) (fun _ phase => phase = .published) Abandons := by
    refine .bind ((follows_fillAndClose handle start).weaken (fun _ _ => id) fun _ _ => Or.inr)
      fun filled phase hphase => ?_
    subst hphase
    refine .bind ((follows_clearing (idle_checkFilled _ _ _) .filled).weaken (fun _ _ => id)
      fun _ _ => Or.inr) fun checks phase hphase => ?_
    subst hphase
    refine .bind (follows_publish requireAtomic) fun mechanism phase hphase => ?_
    subst hphase
    exact .pure rfl
  unfold fillAndPublish
  dsimp only
  split_ifs
  · refine .bind ((follows_clearing (idle_probeDurability _ _) (.staging handle start)).weaken
      (fun _ _ => id) fun _ _ => Or.inr) fun _ phase hphase => ?_
    subst hphase
    exact hfill
  · exact hfill

/-- The flags a staging file is opened with. -/
def stagingFlags (resume : Bool) : OpenFlag := if resume then .resume else .stage

/-- Uploading into a staging file and publishing it follows the protocol to its end. -/
theorem follows_putAtomically (hpflags : job.pflags = stagingFlags job.upload.resume)
    (requireAtomic : Bool) :
    Follows (Step job) .ready
      (putAtomically job.connection job.upload job.target job.staged requireAtomic job.journal
        job.source) (fun _ phase => phase = .done) fun _ _ => True := by
  have hput : Follows (Step job) .ready (do
      recordStaging job.journal job.staged job.target job.source
      let start ← uploadResumeOffset job.connection job.upload job.staged
      let resumeCheck ← gateResume job.connection job.staged start job.upload.verify
      let handle ← openForUpload job.connection job.staged (stagingFlags job.upload.resume)
        (createBits job.upload.mode)
      let result ← tryCatch
        (fillAndPublish job.connection job.upload job.target job.staged requireAtomic handle start
          resumeCheck) (cleanUp job.connection job.journal job.target job.staged)
      recordPublished job.journal job.target
      pure result : Session UploadResult) (fun _ phase => phase = .done) fun _ _ => True := by
    refine .bind follows_recordStaging fun _ phase hphase => ?_
    subst hphase
    refine .bind follows_uploadResumeOffset fun start phase hphase => ?_
    subst hphase
    refine .bind ((follows_of_idle ((readingSteps_idle _).gateResume _ _ _) _).weaken
      (fun _ _ => id) fun _ _ _ => trivial) fun resumeCheck phase hphase => ?_
    subst hphase
    have hopen := @follows_openForUpload job start (createBits job.upload.mode)
    rw [hpflags] at hopen
    refine .bind (hopen.weaken (fun _ _ => id) fun _ _ _ => trivial) fun handle phase hphase => ?_
    subst hphase
    refine .bind (.tryCatch (follows_fillAndPublish requireAtomic handle start resumeCheck)
      fun failure phase hphase => ?_) fun result phase hphase => ?_
    · exact (follows_cleanUp hphase).weaken (fun _ _ => False.elim) fun _ _ => id
    · subst hphase
      refine .bind (follows_recordPublished .published) fun _ phase hphase => ?_
      subst hphase
      exact .pure rfl
  unfold putAtomically
  dsimp only
  split
  · refine .bind ((follows_of_idle (idle_refuseUnpublishable _ _) .ready).weaken (fun _ _ => id)
      fun _ _ _ => trivial) fun _ phase hphase => ?_
    subst hphase
    exact hput
  · exact hput

end Following

end GantrySftp
