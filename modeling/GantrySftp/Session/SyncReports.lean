import GantrySftp.Session.SyncRuns

/-!
# What a mirror reports

Every file a mirror considers is to be sent or has its outcome, and what is sent gets its outcome
when it is there. A mirror that comes to its end has one outcome for each file it considered, and a
file with the outcome of being skipped held what it should when its directory was listed.
-/

namespace GantrySftp

open Library

variable {α : Type} {world next : SyncWorld α} {run : SyncRun α}

/-- The file, where it is not reported yet. -/
def SyncSend.unreported (send : SyncSend) : List Bytes :=
  match send.stage with
  | .waiting | .reading => [send.target]
  | .sent | .landed _ => []

/-- Every file that was considered is reported or is to be sent, and nothing else is. -/
def SyncRun.ReportsEach (run : SyncRun α) : Prop :=
  run.considered.Perm
    (run.outcomes.map SyncOutcome.remotePath ++ run.sends.flatMap SyncSend.unreported)

/-- A file that is considered is reported, or to be sent. -/
theorem SyncRun.ReportsEach.decide (h : run.ReportsEach) (target : Bytes) (verdict : Comparison) :
    (run.decide target verdict).ReportsEach := by
  unfold SyncRun.decide
  split_ifs
  · unfold SyncRun.ReportsEach
    dsimp only
    rw [List.flatMap_append, ← List.append_assoc]
    exact h.append_right _
  · unfold SyncRun.ReportsEach
    dsimp only
    rw [List.map_append, List.append_assoc]
    refine (h.append_right [target]).trans ?_
    rw [List.append_assoc]
    exact List.perm_append_comm.append_left _

/-- A file whose report does not change comes to another stage. -/
theorem SyncRun.ReportsEach.moveTo (h : run.ReportsEach) {index : ℕ} {send : SyncSend}
    {stage : SendStage} (hsend : run.sends[index]? = some send)
    (hsame : { send with stage := stage }.unreported = send.unreported) :
    (run.moveTo index send stage).ReportsEach := by
  have hperm := perm_flatMap_set hsend SyncSend.unreported { send with stage := stage }
  rw [hsame] at hperm
  exact h.trans (((List.perm_append_left_iff _).mp hperm).symm.append_left _)

/-- A file that was sent is reported. -/
theorem SyncRun.ReportsEach.afterSending (h : run.ReportsEach) {index : ℕ} {send : SyncSend}
    (hsend : run.sends[index]? = some send) (hreading : send.stage = .reading)
    (transferred : ℕ) : (run.afterSending index send transferred).ReportsEach := by
  have hperm := perm_flatMap_set hsend SyncSend.unreported { send with stage := .sent }
  have hbefore : send.unreported = [send.target] := by
    rw [SyncSend.unreported, hreading]
  have hafter : { send with stage := .sent }.unreported = [] := rfl
  rw [hbefore, hafter, List.nil_append] at hperm
  unfold SyncRun.ReportsEach
  change run.considered.Perm ((run.outcomes ++ [_]).map SyncOutcome.remotePath ++
    (run.sends.set index _).flatMap SyncSend.unreported)
  rw [List.map_append]
  exact perm_pass h hperm

/-- A file that is past its report is forgotten. -/
theorem SyncRun.ReportsEach.forget (h : run.ReportsEach) {index : ℕ} {send : SyncSend}
    (hsend : run.sends[index]? = some send) (hreported : send.unreported = []) :
    { run with sends := run.sends.eraseIdx index }.ReportsEach := by
  obtain ⟨hindex, rfl⟩ := List.getElem?_eq_some_iff.mp hsend
  have hperm := (List.getElem_cons_eraseIdx_perm hindex).flatMap_right SyncSend.unreported
  rw [List.flatMap_cons, hreported, List.nil_append] at hperm
  exact h.trans (hperm.symm.append_left _)

/-- A mirror under way has its reports. -/
def SyncWorld.ReportsEach (world : SyncWorld α) : Prop :=
  ∀ run, world.run = some run → run.ReportsEach

/-- A mirror that is taken to another stage keeps its reports. -/
theorem SyncWorld.ReportsEach.advance (h : world.ReportsEach) {index : ℕ}
    {stage after : SendStage}
    (hsame : ∀ send : SyncSend, send.stage = stage →
      { send with stage := after }.unreported = send.unreported)
    (hstep : world.advance index stage after = some next) : next.ReportsEach := by
  simp only [SyncWorld.advance, bind, Option.bind_eq_some_iff, Option.some.injEq] at hstep
  obtain ⟨run, hrun, send, hsend, _, hguard, rfl⟩ := hstep
  intro moved hmoved
  obtain rfl := Option.some.inj hmoved
  exact (h run hrun).moveTo hsend (hsame send ((Option.guard_eq_some' _).mp hguard))

/-- Every step keeps the reports. -/
theorem SyncWorld.ReportsEach.step (h : world.ReportsEach) {event : SyncEvent α}
    (hstep : world.step event = some next) : next.ReportsEach := by
  intro last hlast
  cases event with
  | editsLocal target copy =>
    obtain rfl := Option.some.inj hstep
    exact h last hlast
  | editsRemote target copy =>
    obtain rfl := Option.some.inj hstep
    exact h last hlast
  | starts =>
    simp only [SyncWorld.step, SyncWorld.start, bind, Option.bind_eq_some_iff, Option.some.injEq]
      at hstep
    obtain ⟨_, -, recorded, -, rfl⟩ := hstep
    obtain rfl := Option.some.inj hlast
    exact List.Perm.refl _
  | lists directory listing =>
    simp only [SyncWorld.step, SyncWorld.list, bind, Option.bind_eq_some_iff, Option.some.injEq]
      at hstep
    obtain ⟨run, hrun, rfl⟩ := hstep
    obtain rfl := Option.some.inj hlast
    exact h run hrun
  | considers name =>
    simp only [SyncWorld.step, SyncWorld.consider, bind, Option.bind_eq_some_iff,
      Option.some.injEq] at hstep
    obtain ⟨run, hrun, copy, -, rfl⟩ := hstep
    obtain rfl := Option.some.inj hlast
    exact (h run hrun).decide _ _
  | begins index =>
    have hadvance : world.advance index .waiting .reading = some next := hstep
    refine h.advance (fun send hstage => ?_) hadvance last hlast
    rw [SyncSend.unreported, SyncSend.unreported, hstage]
  | sends index size mtime transferred =>
    simp only [SyncWorld.step, SyncWorld.send, bind, Option.bind_eq_some_iff, Option.some.injEq]
      at hstep
    obtain ⟨run, hrun, send, hsend, _, hguard, copy, -, rfl⟩ := hstep
    obtain rfl := Option.some.inj hlast
    exact (h run hrun).afterSending hsend ((Option.guard_eq_some' _).mp hguard) transferred
  | stats index attrs =>
    have hadvance : world.advance index .sent (.landed attrs) = some next := hstep
    refine h.advance (fun send hstage => ?_) hadvance last hlast
    rw [SyncSend.unreported, SyncSend.unreported, hstage]
  | records index accepted =>
    simp only [SyncWorld.step, SyncWorld.record, bind, Option.bind_eq_some_iff,
      Option.some.injEq] at hstep
    obtain ⟨run, hrun, send, hsend, landed, hlanded, copy, -, hnext⟩ := hstep
    have hreported : send.unreported = [] := by
      rw [SyncSend.unreported, SendStage.attrs_eq_some_iff.mp hlanded]
    have hforgotten := (h run hrun).forget hsend hreported
    cases hentry : manifestEntryFor copy.facts landed with
    | none =>
      rw [hentry] at hnext
      subst hnext
      obtain rfl := Option.some.inj hlast
      exact hforgotten
    | some entry =>
      rw [hentry] at hnext
      subst hnext
      obtain rfl := Option.some.inj hlast
      exact hforgotten
  | saves =>
    simp only [SyncWorld.step, SyncWorld.save, bind, Option.bind_eq_some_iff, Option.some.injEq]
      at hstep
    obtain ⟨run, -, -, -, rfl⟩ := hstep
    cases hlast
  | stops =>
    obtain rfl := Option.some.inj hstep
    cases hlast

/-- A mirror that comes to its end has reported every file it considered, each exactly as often as
it considered it, and no other: whatever runs were before, whatever is edited meanwhile, and in
whatever order its files are read, sent and recorded. -/
theorem mirror_reports_each_file {start world finished : SyncWorld α} {events : List (SyncEvent α)}
    (hstart : start.run = none) (hruns : runSteps SyncWorld.step start events = some world)
    {run : SyncRun α} (hrun : world.run = some run) (hsaves : world.step .saves = some finished) :
    run.considered.Perm (run.outcomes.map SyncOutcome.remotePath) := by
  have hfresh : start.ReportsEach := fun run h => (by rw [hstart] at h; cases h)
  have hworld : world.ReportsEach :=
    runSteps_preserves (fun _ _ _ h hstep => h.step hstep) hfresh hruns
  simp only [SyncWorld.step, SyncWorld.save, bind, Option.bind_eq_some_iff, Option.some.injEq]
    at hsaves
  obtain ⟨same, hsame, _, hguard, -⟩ := hsaves
  obtain rfl := Option.some.inj (hrun.symm.trans hsame)
  have hnone : run.sends = [] := List.isEmpty_iff.mp ((Option.guard_eq_some' _).mp hguard)
  have hreports := hworld run hrun
  rw [SyncRun.ReportsEach, hnone, List.flatMap_nil, List.append_nil] at hreports
  exact hreports

/-! ## What is reported as skipped -/

/-- Everything that is to be sent may have changed. -/
def SyncRun.SendsChanges (run : SyncRun α) : Prop :=
  ∀ send ∈ run.sends, send.verdict.transfers = true

/-- A file that is considered is to be sent only if it may have changed. -/
theorem SyncRun.SendsChanges.decide (h : run.SendsChanges) (target : Bytes)
    (verdict : Comparison) : (run.decide target verdict).SendsChanges := by
  unfold SyncRun.decide
  split_ifs with htransfers
  · exact List.forall_mem_append.mpr ⟨h, List.forall_mem_singleton.mpr htransfers⟩
  · exact h

/-- What is reported once a file was considered was reported before, or is of that file. -/
theorem SyncRun.mem_decide {outcome : SyncOutcome} {target : Bytes} {verdict : Comparison}
    (hmem : outcome ∈ (run.decide target verdict).outcomes) :
    outcome ∈ run.outcomes ∨
      outcome.remotePath = target ∧ outcome.decision = verdict.decision := by
  unfold SyncRun.decide at hmem
  split_ifs at hmem
  · exact Or.inl hmem
  · refine (List.mem_append.mp hmem).imp_right fun hlast => ?_
    obtain rfl := List.mem_singleton.mp hlast
    exact ⟨rfl, rfl⟩

/-- A file that comes to another stage may have changed still. -/
theorem SyncRun.SendsChanges.moveTo (h : run.SendsChanges) {index : ℕ} {send : SyncSend}
    (hsend : run.sends[index]? = some send) (stage : SendStage) :
    (run.moveTo index send stage).SendsChanges :=
  forall_mem_set h index (h send (List.mem_of_getElem? hsend))

/-- What is reported as skipped once a file was sent was reported before. -/
theorem SyncRun.SendsChanges.mem_afterSending (h : run.SendsChanges) {index : ℕ}
    {send : SyncSend} (hsend : run.sends[index]? = some send) {transferred : ℕ}
    {outcome : SyncOutcome} (hskipped : outcome.decision = .skipped)
    (hmem : outcome ∈ (run.afterSending index send transferred).outcomes) :
    outcome ∈ run.outcomes := by
  refine (List.mem_append.mp hmem).resolve_right fun hlast => ?_
  obtain rfl := List.mem_singleton.mp hlast
  have hchanged := h send (List.mem_of_getElem? hsend)
  rw [Comparison.transfers, decide_eq_true_eq] at hchanged
  exact hchanged hskipped

/-- A mirror under way sends only what may have changed. -/
def SyncWorld.SendsChanges (world : SyncWorld α) : Prop :=
  ∀ run, world.run = some run → run.SendsChanges

/-- A mirror under way reports an outcome. -/
def SyncWorld.Has (world : SyncWorld α) (outcome : SyncOutcome) : Prop :=
  ∃ run, world.run = some run ∧ outcome ∈ run.outcomes

/-- A mirror that goes on sends only what may have changed when its run does. -/
theorem SyncWorld.SendsChanges.goOn (h : world.SendsChanges) (hrun : world.run = some run)
    {last : SyncRun α} (hnext : next.run = some last)
    (hkeeps : run.SendsChanges → last.SendsChanges) : next.SendsChanges := by
  intro found hfound
  obtain rfl := Option.some.inj (hnext.symm.trans hfound)
  exact hkeeps (h run hrun)

/-- A mirror that goes on reports an outcome when its run does. -/
theorem SyncWorld.Has.mem {last : SyncRun α} {outcome : SyncOutcome} (h : next.Has outcome)
    (hnext : next.run = some last) : outcome ∈ last.outcomes := by
  obtain ⟨found, hfound, hmem⟩ := h
  obtain rfl := Option.some.inj (hnext.symm.trans hfound)
  exact hmem

/-- A mirror that is not under way sends and reports nothing. -/
theorem SyncWorld.idle_of_none (hnone : world.run = none) :
    world.SendsChanges ∧ ∀ outcome, ¬world.Has outcome := by
  refine ⟨fun run hrun => (by cases hnone.symm.trans hrun), ?_⟩
  rintro outcome ⟨run, hrun, -⟩
  cases hnone.symm.trans hrun

/-- A file comes to another stage: what is sent may have changed still, and nothing is reported. -/
theorem SyncWorld.SendsChanges.advance (h : world.SendsChanges) {index : ℕ}
    {stage after : SendStage} (hstep : world.advance index stage after = some next) :
    next.SendsChanges ∧ ∀ outcome, next.Has outcome → world.Has outcome := by
  simp only [SyncWorld.advance, bind, Option.bind_eq_some_iff, Option.some.injEq] at hstep
  obtain ⟨run, hrun, send, hsend, _, -, rfl⟩ := hstep
  refine ⟨h.goOn hrun rfl fun hrun => hrun.moveTo hsend after, fun outcome hhas => ?_⟩
  have hmem := hhas.mem rfl
  exact ⟨run, hrun, hmem⟩

/-- An outcome that says that a file was skipped, which the mirror comes to by an event. -/
def SyncWorld.Skips (world next : SyncWorld α) (event : SyncEvent α) (outcome : SyncOutcome) :
    Prop :=
  outcome.decision = .skipped → next.Has outcome → ¬world.Has outcome →
    ∃ run name copy, event = .considers name ∧ world.run = some run ∧
      run.target name = outcome.remotePath ∧ world.here (run.target name) = some copy ∧
        (run.compare name copy).decision = .skipped

/-- No outcome is new where each was there before. -/
theorem SyncWorld.skips_of_has {event : SyncEvent α} {outcome : SyncOutcome}
    (h : outcome.decision = .skipped → next.Has outcome → world.Has outcome) :
    world.Skips next event outcome :=
  fun hskipped hhas hnot => absurd (h hskipped hhas) hnot

/-- Only what may have changed is ever to be sent, and an outcome that says a file was skipped
comes of considering the file. -/
theorem SyncWorld.SendsChanges.step (h : world.SendsChanges) {event : SyncEvent α}
    (hstep : world.step event = some next) :
    next.SendsChanges ∧ ∀ outcome, world.Skips next event outcome := by
  cases event with
  | editsLocal target copy =>
    obtain rfl := Option.some.inj hstep
    exact ⟨h, fun _ => skips_of_has fun _ hhas => hhas⟩
  | editsRemote target copy =>
    obtain rfl := Option.some.inj hstep
    exact ⟨h, fun _ => skips_of_has fun _ hhas => hhas⟩
  | starts =>
    simp only [SyncWorld.step, SyncWorld.start, bind, Option.bind_eq_some_iff, Option.some.injEq]
      at hstep
    obtain ⟨_, -, recorded, -, rfl⟩ := hstep
    refine ⟨fun run hrun => ?_, fun outcome => skips_of_has fun _ hhas => ?_⟩
    · obtain rfl := Option.some.inj hrun
      exact List.forall_mem_nil _
    · exact absurd (hhas.mem rfl) List.not_mem_nil
  | lists directory listing =>
    simp only [SyncWorld.step, SyncWorld.list, bind, Option.bind_eq_some_iff, Option.some.injEq]
      at hstep
    obtain ⟨run, hrun, rfl⟩ := hstep
    refine ⟨h.goOn hrun rfl id, fun outcome => skips_of_has fun _ hhas => ?_⟩
    have hmem := hhas.mem rfl
    exact ⟨run, hrun, hmem⟩
  | considers name =>
    simp only [SyncWorld.step, SyncWorld.consider, bind, Option.bind_eq_some_iff,
      Option.some.injEq] at hstep
    obtain ⟨run, hrun, copy, hcopy, rfl⟩ := hstep
    refine ⟨h.goOn hrun rfl fun hrun => hrun.decide _ _, fun outcome => ?_⟩
    intro hskipped hhas hnot
    obtain hmem | ⟨htarget, hdecision⟩ := SyncRun.mem_decide (hhas.mem rfl)
    · exact absurd ⟨run, hrun, hmem⟩ hnot
    · exact ⟨run, name, copy, rfl, hrun, htarget.symm, hcopy, hdecision.symm.trans hskipped⟩
  | begins index =>
    have hadvance : world.advance index .waiting .reading = some next := hstep
    exact (h.advance hadvance).imp_right fun hhas outcome => skips_of_has fun _ => hhas outcome
  | sends index size mtime transferred =>
    simp only [SyncWorld.step, SyncWorld.send, bind, Option.bind_eq_some_iff, Option.some.injEq]
      at hstep
    obtain ⟨run, hrun, send, hsend, _, -, copy, -, rfl⟩ := hstep
    refine ⟨h.goOn hrun rfl fun hrun => hrun.moveTo hsend .sent, fun outcome => ?_⟩
    exact skips_of_has fun hskipped hhas =>
      ⟨run, hrun, (h run hrun).mem_afterSending hsend hskipped (hhas.mem rfl)⟩
  | stats index attrs =>
    have hadvance : world.advance index .sent (.landed attrs) = some next := hstep
    exact (h.advance hadvance).imp_right fun hhas outcome => skips_of_has fun _ => hhas outcome
  | records index accepted =>
    simp only [SyncWorld.step, SyncWorld.record, bind, Option.bind_eq_some_iff,
      Option.some.injEq] at hstep
    obtain ⟨run, hrun, send, -, landed, -, copy, -, hnext⟩ := hstep
    obtain ⟨last, hlast, hsends, houtcomes⟩ : ∃ last, next.run = some last ∧
        last.sends = run.sends.eraseIdx index ∧ last.outcomes = run.outcomes := by
      cases hentry : manifestEntryFor copy.facts landed <;>
      · rw [hentry] at hnext
        subst hnext
        exact ⟨_, rfl, rfl, rfl⟩
    refine ⟨h.goOn hrun hlast fun hrun send hmem =>
      hrun send (List.mem_of_mem_eraseIdx (hsends ▸ hmem)), fun outcome => ?_⟩
    exact skips_of_has fun _ hhas => ⟨run, hrun, houtcomes ▸ hhas.mem hlast⟩
  | saves =>
    simp only [SyncWorld.step, SyncWorld.save, bind, Option.bind_eq_some_iff, Option.some.injEq]
      at hstep
    obtain ⟨run, -, -, -, rfl⟩ := hstep
    obtain ⟨hsends, hreports⟩ := idle_of_none (rfl : { world with
      manifest := some (manifestPayload run.recorded), run := none }.run = none)
    exact ⟨hsends, fun outcome => skips_of_has fun _ hhas => absurd hhas (hreports outcome)⟩
  | stops =>
    obtain rfl := Option.some.inj hstep
    obtain ⟨hsends, hreports⟩ := idle_of_none (rfl : { world with run := none }.run = none)
    exact ⟨hsends, fun outcome => skips_of_has fun _ hhas => absurd hhas (hreports outcome)⟩

/-- A file that a mirror reports as skipped was compared, and held at the destination, when its
directory was listed, what it held here when it was compared. -/
theorem reported_skipped_was_there {localAt remoteAt : Bytes → ℤ → ℤ → α} {start : SyncWorld α}
    {events : List (SyncEvent α)} (hstart : start.Sound localAt remoteAt) (hnone : start.run = none)
    (hsteps : AllowedSteps SyncWorld.step (SyncWorld.Fair localAt remoteAt) start events world)
    {outcome : SyncOutcome} (hhas : world.Has outcome) (hskipped : outcome.decision = .skipped) :
    ∃ front name back before earlier copy, events = front ++ .considers name :: back ∧
      AllowedSteps SyncWorld.step (SyncWorld.Fair localAt remoteAt) start front before ∧
        before.run = some earlier ∧ earlier.target name = outcome.remotePath ∧
          before.here outcome.remotePath = some copy ∧
            earlier.listed outcome.remotePath = some copy.content := by
  obtain ⟨hidle, hfresh⟩ := SyncWorld.idle_of_none hnone
  obtain hhas | ⟨front, event, back, before, after, rfl, hfront, hstep, hnot, hafter⟩ :=
    AllowedSteps.exists_step (SyncWorld.Has · outcome) hsteps hhas
  · exact absurd hhas (hfresh outcome)
  · have hchanges : before.SendsChanges :=
      hfront.preserves (fun _ _ _ h _ hstep => (h.step hstep).1) hidle
    have hbefore : before.Sound localAt remoteAt :=
      hfront.preserves (fun _ _ _ h hfair hstep => h.step hfair hstep) hstart
    obtain ⟨earlier, name, copy, rfl, hrun, htarget, hcopy, hcompare⟩ :=
      (hchanges.step hstep).2 outcome hskipped hafter hnot
    have hlisted := (hbefore.run earlier hrun).skipped hbefore hcopy hcompare
    rw [htarget] at hcopy hlisted
    exact ⟨front, name, back, before, earlier, copy, rfl, hfront, hrun, htarget, hcopy, hlisted⟩

/-- A later mirror, which skips the file that was sent before. -/
def skippingRun : SyncRun ℤ :=
  { sentRun with
    outcomes := [⟨[slash, 0x61], .skipped, .identical, 0⟩]
    considered := [[slash, 0x61]] }

/-- It sends the other file of the directory. -/
def laterRun (stage : SendStage) : SyncRun ℤ :=
  { skippingRun with
    sends := [⟨[slash, 0x62], ⟨.transfer, .noRecord⟩, stage⟩]
    considered := [[slash, 0x61], [slash, 0x62]] }

/-- It comes to its end with both files reported. -/
def endedRun : SyncRun ℤ :=
  { laterRun .sent with
    recorded := recordEntry (Dict.empty.updateAll [sampleSent.change]) [slash, 0x62] ⟨3, 10, 3, 20⟩
    sends := []
    outcomes := [⟨[slash, 0x61], .skipped, .identical, 0⟩, ⟨[slash, 0x62], .transfer, .noRecord, 3⟩] }

/-- Where it has recorded what it sent, while the destination was edited. -/
def endedWorld : SyncWorld ℤ where
  here := sentWorld.here
  there := Function.update (Function.update sentWorld.there [slash, 0x63] none) [slash, 0x62]
    (some ⟨10, 3, 20⟩)
  manifest := some (manifestLine (decodeName [slash, 0x61]) ⟨3, 10, 3, 20⟩ ++
    (manifestLine (decodeName [slash, 0x62]) ⟨3, 10, 3, 20⟩).take 1)
  run := some endedRun

theorem mirror_reports_each_file_skipped :
    endedRun.considered.Perm (endedRun.outcomes.map SyncOutcome.remotePath) := by
  have hskipped : sentRun.compare [0x61] sampleCopy = ⟨.skipped, .identical⟩ := by decide +kernel
  have hother : skippingRun.compare [0x62] sampleCopy = ⟨.transfer, .noRecord⟩ := by
    decide +kernel
  have hskips : { sentWorld with run := some sentRun }.step (.considers [0x61]) =
      some { sentWorld with run := some skippingRun } := by
    have hdecide : sentRun.decide [slash, 0x61] (sentRun.compare [0x61] sampleCopy) =
        skippingRun := by
      rw [hskipped]
      rfl
    rw [← hdecide]
    rfl
  have hconsiders : { sentWorld with run := some skippingRun }.step (.considers [0x62]) =
      some { sentWorld with run := some (laterRun .waiting) } := by
    have hdecide : skippingRun.decide [slash, 0x62] (skippingRun.compare [0x62] sampleCopy) =
        laterRun .waiting := by
      rw [hother]
      rfl
    rw [← hdecide]
    rfl
  have hsends : runSteps SyncWorld.step { sentWorld with run := some (laterRun .waiting) }
      [.begins 0, .editsRemote [slash, 0x63] none, .sends 0 3 20 3, .stats 0 sampleReport,
        .records 0 1] = some endedWorld := rfl
  have hruns : runSteps SyncWorld.step sentWorld
      [.starts, .lists [slash] [⟨[0x61], sampleReport⟩], .considers [0x61], .considers [0x62],
        .begins 0, .editsRemote [slash, 0x63] none, .sends 0 3 20 3, .stats 0 sampleReport,
        .records 0 1] = some endedWorld :=
    runSteps_cons.mpr ⟨_, start_sentWorld, runSteps_cons.mpr ⟨{ sentWorld with run := some sentRun },
      rfl, runSteps_cons.mpr ⟨_, hskips, runSteps_cons.mpr ⟨_, hconsiders, hsends⟩⟩⟩⟩
  exact mirror_reports_each_file rfl hruns rfl rfl

end GantrySftp
