import GantrySftp.Session.UploadTasks

/-!
# Writing a range from a buffer

A buffer hands out what is asked of it, and a server that stores every WRITE acknowledges each of
them in an order of its own. Whatever the two tasks of such an upload do next, something can be
done until it returns, and each step leaves less to do. So it returns the length of the buffer, and
its WRITEs are slices that cover the range.
-/

namespace GantrySftp

open Library

/-- Write a buffer at an offset of an open remote file. An upload that has not returned when nothing
more happens to it ends with the failure that cut it short. -/
def writeRangeFrom (payload : Bytes) (offset : ℕ) (schedule : Schedule)
    (events : List UploadTasks.Event) (ending : Failure) :
    List UploadTasks.Entry × Except Failure ℕ :=
  if schedule.depth < 1 then
    ([], .error (.valueError s!"depth must be at least 1, got {schedule.depth}"))
  else if schedule.requestLength < 1 then
    ([], .error (.valueError
      s!"write_length must be at least 1, got {schedule.requestLength}"))
  else if payload = [] then ([], .ok 0)
  else
    let done := (UploadTasks.init ⟨payload, offset⟩ schedule offset
      (offset + payload.length)).run events
    (done.1, done.2.result.getD (.error ending))

namespace UploadTasks

/-! ## What consecutive WRITEs cover -/

/-- Consecutive WRITEs cover every position up to where the last ended. -/
theorem Consecutive.covered_iff {source : Source} {stop next : ℕ} {writes : List Placed}
    (h : Consecutive source stop next writes) (i : ℕ) :
    Covered writes i ↔ next ≤ i ∧ i < next + total writes := by
  induction writes generalizing next with
  | nil =>
    simp only [Covered, List.not_mem_nil, false_and, exists_false, total, List.map_nil,
      List.sum_nil, Nat.add_zero, false_iff]
    omega
  | cons write writes ih =>
    obtain ⟨hnext, -, -, -, hrest⟩ := h
    rw [covered_cons, ih hrest]
    simp only [Covers, total, List.map_cons, List.sum_cons, hnext]
    omega

/-- Consecutive WRITEs carry what the source has at their own offsets. -/
theorem Consecutive.slice {source : Source} {stop next : ℕ} {writes : List Placed}
    (h : Consecutive source stop next writes) :
    ∀ write ∈ writes, next ≤ write.1 ∧ write.2 <+: source.rest write.1 := by
  induction writes generalizing next with
  | nil => simp
  | cons write writes ih =>
    obtain ⟨hnext, -, hslice, -, hrest⟩ := h
    intro other hmem
    obtain rfl | hother := List.mem_cons.mp hmem
    · rw [hnext]
      exact ⟨le_rfl, hslice⟩
    · obtain ⟨hlow, hcarried⟩ := ih hrest other hother
      exact ⟨by omega, hcarried⟩

/-! ## A buffer and a server that stores every WRITE -/

/-- What can happen to an upload from a buffer to such a server: a read returns all it asked for, a
permit lets the sender in under a free id, sending returns, a WRITE that waits is acknowledged, and
the upload returns once it is finished. -/
def Serves (tasks : UploadTasks) : Event → Prop
  | .read count => tasks.point = .reading ∧
      min tasks.writeLength (tasks.stop - tasks.offset) ≤ count
  | .acquire requestId => (∃ payload, tasks.point = .acquiring payload) ∧ 0 < tasks.permits ∧
      requestId ∉ tasks.outstanding.map Prod.fst
  | .sent => ∃ payload, tasks.point = .sending payload
  | .reply requestId reply => tasks.receiving = true ∧
      requestId ∈ tasks.outstanding.map Prod.fst ∧ ∃ message, reply = .status .ok message
  | .fail _ => False
  | .finish => tasks.point = .waiting ∧ tasks.finished = true

/-- An event of an upload that has not returned. -/
def ServesNext (tasks : UploadTasks) (event : Event) : Prop :=
  tasks.result = none ∧ tasks.Serves event

/-- How the sender, the window and the receiver agree while nothing fails: the source is a buffer
that reaches to the end of the span. -/
structure Smooth (depth : ℕ) (tasks : UploadTasks) : Prop where
  whole : tasks.stop = tasks.source.base + tasks.source.content.length
  progress : 0 < tasks.writeLength
  full : tasks.outstanding.length + tasks.permits = depth
  above : tasks.source.base ≤ tasks.offset
  below : tasks.point ≠ .waiting → tasks.offset < tasks.stop
  payload : ∀ payload, tasks.point = .acquiring payload ∨ tasks.point = .sending payload →
    payload ≠ []
  stopped : tasks.point = .waiting ↔ tasks.allSent = true
  receiving : tasks.receiving = true ∨ tasks.finished = true
  finished : tasks.finished = true ↔ tasks.allSent = true ∧ tasks.outstanding = []

/-- How much is left to do: four steps for each byte that was not sent yet, one for each WRITE that
waits, and one to return. -/
def toDo (tasks : UploadTasks) : ℕ :=
  if tasks.result.isSome then 0
  else 1 + tasks.outstanding.length +
    match tasks.point with
    | .reading => 4 * (tasks.stop - tasks.offset)
    | .acquiring _ => 4 * (tasks.stop - tasks.offset) - 1
    | .sending _ => 4 * (tasks.stop - tasks.offset) - 3
    | .waiting => 0

section Serving

variable {depth : ℕ} {tasks : UploadTasks}

/-- A write of a buffer that is about to begin. -/
theorem smooth_init {payload : Bytes} (hpayload : payload ≠ []) (offset : ℕ) {schedule : Schedule}
    (h : 0 < schedule.requestLength) :
    Smooth schedule.depth (init ⟨payload, offset⟩ schedule offset (offset + payload.length)) where
  whole := rfl
  progress := h
  full := Nat.zero_add _
  above := le_rfl
  below := fun _ => Nat.lt_add_of_pos_right (List.length_pos_iff.mpr hpayload)
  payload := by simp [init]
  stopped := by simp [init]
  receiving := Or.inl rfl
  finished := by simp [init]

/-- What is left of a write while the sender has something to send. -/
theorem Smooth.pos (h : Smooth depth tasks) (hpoint : tasks.point ≠ .waiting) :
    0 < tasks.stop - tasks.offset := by
  have hbelow := h.below hpoint
  omega

/-- Not everything is sent while the sender has something to send. -/
theorem Smooth.sending (h : Smooth depth tasks) (hpoint : tasks.point ≠ .waiting) :
    tasks.allSent ≠ true := mt h.stopped.mpr hpoint

/-- A read of a buffer returns something. -/
theorem Smooth.readAt_ne_nil (h : Smooth depth tasks) (hpoint : tasks.point ≠ .waiting)
    {count : ℕ} (hcount : min tasks.writeLength (tasks.stop - tasks.offset) ≤ count) :
    (tasks.source.readAt tasks.offset (min tasks.writeLength (tasks.stop - tasks.offset))).take
      count ≠ [] := by
  have hpos := h.pos hpoint
  have hprogress := h.progress
  have hwhole := h.whole
  have habove := h.above
  apply List.length_pos_iff.mp
  rw [List.length_take, Source.readAt, List.length_take, Source.rest, List.length_drop]
  omega

/-- A read puts a payload before the sender. -/
theorem step_read (h : Smooth depth tasks) (hnone : tasks.result = none) {count : ℕ}
    (hserves : tasks.Serves (.read count)) :
    ∃ payload, payload ≠ [] ∧
      tasks.step (.read count) = ([], { tasks with point := .acquiring payload }) := by
  obtain ⟨hpoint, hcount⟩ := hserves
  have hsome := h.readAt_ne_nil (by simp [hpoint]) hcount
  refine ⟨_, hsome, ?_⟩
  simp only [step, hnone, Option.isSome_none, Bool.false_eq_true, if_false, read, hpoint,
    List.isEmpty_iff, hsome]

/-- A permit lets the sender in. -/
theorem step_acquire (hnone : tasks.result = none) {requestId : ℕ} {payload : Bytes}
    (hserves : tasks.Serves (.acquire requestId)) (hpoint : tasks.point = .acquiring payload) :
    tasks.step (.acquire requestId) = ([.sent requestId (tasks.offset, payload)],
      { tasks with
        permits := tasks.permits - 1
        outstanding := tasks.outstanding ++ [(requestId, ⟨tasks.offset, payload.length⟩)]
        point := .sending payload }) := by
  obtain ⟨-, hpermit, hfree⟩ := hserves
  simp only [step, hnone, Option.isSome_none, Bool.false_eq_true, if_false, UploadTasks.acquire,
    hpoint]
  rw [if_pos ⟨hpermit, hfree⟩]

/-- Sending returns. -/
theorem step_sent (hnone : tasks.result = none) {payload : Bytes}
    (hpoint : tasks.point = .sending payload) :
    tasks.step .sent = ([], { tasks with offset := tasks.offset + payload.length }.sendNext) := by
  simp only [step, hnone, Option.isSome_none, Bool.false_eq_true, if_false, UploadTasks.sent,
    hpoint]

/-- A request id among those outstanding is found. -/
theorem popRequest_of_mem {α : Type} {requestId : ℕ} {entries : List (ℕ × α)}
    (h : requestId ∈ entries.map Prod.fst) :
    ∃ value rest, popRequest requestId entries = some (value, rest) := by
  induction entries with
  | nil => cases h
  | cons entry entries ih =>
    unfold popRequest
    split_ifs with hfirst
    · exact ⟨_, _, rfl⟩
    · obtain ⟨value, rest, hrest⟩ := ih ((List.mem_cons.mp h).resolve_left fun heq =>
        hfirst heq.symm)
      rw [hrest]
      exact ⟨_, _, rfl⟩

/-- A WRITE is acknowledged. -/
theorem step_reply (hnone : tasks.result = none) {requestId : ℕ} {reply : Reply}
    (hserves : tasks.Serves (.reply requestId reply)) :
    ∃ chunk outstanding finished, tasks.outstanding.length = outstanding.length + 1 ∧
      (finished = true ↔ tasks.allSent = true ∧ outstanding = [] ∨ tasks.finished = true) ∧
      (tasks.step (.reply requestId reply)).2 =
        { tasks with
          outstanding := outstanding
          acknowledged := tasks.acknowledged + chunk
          permits := tasks.permits + 1
          finished := finished
          receiving := !finished } := by
  obtain ⟨hreceiving, hmem, message, rfl⟩ := hserves
  obtain ⟨chunk, outstanding, hpop⟩ := popRequest_of_mem hmem
  have hlength := (Downloader.popRequest_perm hpop).length_eq
  simp only [step, hnone, Option.isSome_none, Bool.false_eq_true, if_false, hreceiving, if_true,
    UploadTasks.acknowledge, hpop, settle]
  split_ifs with hdone
  · refine ⟨chunk.length, outstanding, true, hlength, ?_, rfl⟩
    simpa using Or.inl hdone
  · refine ⟨chunk.length, outstanding, tasks.finished, hlength, ?_, rfl⟩
    simp only [List.isEmpty_iff] at hdone
    simp [hdone]

/-- The upload returns. -/
theorem step_finish (hnone : tasks.result = none) (hserves : tasks.Serves .finish) :
    tasks.step .finish = ([], { tasks with result := some (.ok tasks.acknowledged) }) := by
  obtain ⟨hpoint, hfinished⟩ := hserves
  simp only [step, hnone, Option.isSome_none, Bool.false_eq_true, if_false, UploadTasks.finish,
    hpoint, hfinished, if_true]

/-- Sending on reads the next bytes, or stops where the span ends. -/
theorem sendNext_cases (tasks : UploadTasks) :
    tasks.offset < tasks.stop ∧ tasks.sendNext = { tasks with point := .reading } ∨
      tasks.stop ≤ tasks.offset ∧ ∃ finished,
        (finished = true ↔ tasks.outstanding = [] ∨ tasks.finished = true) ∧
        tasks.sendNext =
          { tasks with allSent := true, point := .waiting, finished := finished } := by
  unfold sendNext stopSending settle
  by_cases hlow : tasks.offset < tasks.stop
  · rw [if_pos hlow]
    exact Or.inl ⟨hlow, rfl⟩
  · rw [if_neg hlow]
    refine Or.inr ⟨by omega, ?_⟩
    by_cases hempty : tasks.outstanding = []
    · exact ⟨true, by simp [hempty], by simp [hempty]⟩
    · exact ⟨tasks.finished, by simp [hempty], by simp [hempty]⟩

/-- Each step keeps the agreement, and leaves less to do. -/
theorem Smooth.step (h : Smooth depth tasks) {event : Event} (hserves : tasks.ServesNext event) :
    Smooth depth (tasks.step event).2 ∧ (tasks.step event).2.toDo < tasks.toDo := by
  obtain ⟨hnone, hserves⟩ := hserves
  cases event with
  | read count =>
    have hpoint : tasks.point = .reading := hserves.1
    have hsending := h.sending (by simp [hpoint])
    have hpos := h.pos (by simp [hpoint])
    obtain ⟨payload, hsome, hstep⟩ := step_read h hnone hserves
    rw [hstep]
    refine ⟨{ h with below := fun _ => h.below (by simp [hpoint]), payload := ?_, stopped := ?_ }, ?_⟩
    · rintro other (heq | heq)
      · exact SendPoint.acquiring.inj heq ▸ hsome
      · cases heq
    · simp [hsending]
    · simp only [toDo, hnone, hpoint, Option.isSome_none, Bool.false_eq_true, if_false]
      omega
  | acquire requestId =>
    obtain ⟨payload, hpoint⟩ := hserves.1
    have hsending := h.sending (by simp [hpoint])
    have hpos := h.pos (by simp [hpoint])
    have hfull := h.full
    have hpermit := hserves.2.1
    rw [step_acquire hnone hserves hpoint]
    refine ⟨{ h with
      full := ?_, below := fun _ => h.below (by simp [hpoint]), payload := ?_, stopped := ?_,
      finished := ?_ }, ?_⟩
    · simp only [List.length_append, List.length_singleton]
      omega
    · rintro other (heq | heq)
      · cases heq
      · exact SendPoint.sending.inj heq ▸ h.payload payload (Or.inl hpoint)
    · simp [hsending]
    · simp [h.finished, hsending]
    · simp only [toDo, hnone, hpoint, Option.isSome_none, Bool.false_eq_true, if_false,
        List.length_append, List.length_singleton]
      omega
  | sent =>
    obtain ⟨payload, hpoint⟩ := hserves
    have hsending := h.sending (by simp [hpoint])
    have hpos := h.pos (by simp [hpoint])
    have hlength := List.length_pos_iff.mpr (h.payload payload (Or.inr hpoint))
    have habove := h.above
    rw [step_sent hnone hpoint]
    obtain ⟨hlow, hnext⟩ | ⟨hend, finished, hfinished, hnext⟩ :=
      sendNext_cases { tasks with offset := tasks.offset + payload.length }
    · dsimp only at hlow
      rw [hnext]
      refine ⟨{ h with
        above := Nat.le_add_right_of_le h.above, below := fun _ => hlow, payload := ?_
        stopped := ?_ }, ?_⟩
      · simp
      · simp [hsending]
      · simp only [toDo, hnone, hpoint, Option.isSome_none, Bool.false_eq_true, if_false]
        omega
    · rw [hnext]
      refine ⟨{ h with
        above := Nat.le_add_right_of_le h.above, below := fun hnot => absurd rfl hnot
        payload := ?_, stopped := ?_, receiving := ?_, finished := ?_ }, ?_⟩
      · simp
      · simp
      · exact h.receiving.imp_right fun hdone => hfinished.mpr (Or.inr hdone)
      · simp [hfinished, h.finished, hsending]
      · simp only [toDo, hnone, hpoint, Option.isSome_none, Bool.false_eq_true, if_false]
        omega
  | reply requestId reply =>
    have hfull := h.full
    obtain ⟨chunk, outstanding, finished, hlength, hfinished, hstep⟩ := step_reply hnone hserves
    rw [hstep]
    refine ⟨{ h with full := ?_, receiving := ?_, finished := ?_ }, ?_⟩
    · dsimp only
      omega
    · dsimp only
      cases finished
      · exact Or.inl rfl
      · exact Or.inr rfl
    · have hnot : tasks.finished ≠ true := by
        intro hdone
        rw [(h.finished.mp hdone).2] at hlength
        simp at hlength
      simp [hfinished, hnot]
    · simp only [toDo, hnone, hlength, Option.isSome_none, Bool.false_eq_true, if_false]
      omega
  | fail failure => cases hserves
  | finish =>
    rw [step_finish hnone hserves]
    refine ⟨{ h with }, ?_⟩
    simp only [toDo, hnone, Option.isSome_none, Option.isSome_some, Bool.false_eq_true, if_false,
      if_true]
    omega

/-- No step finds the source at its end, and none fails. -/
theorem Smooth.step_said (h : Smooth depth tasks) {event : Event}
    (hserves : tasks.ServesNext event) :
    (∀ position, .exhausted position ∉ (tasks.step event).1) ∧ ¬ (tasks.step event).2.Failed := by
  obtain ⟨hnone, hserves⟩ := hserves
  cases event with
  | read count =>
    obtain ⟨payload, -, hstep⟩ := step_read h hnone hserves
    simp [hstep, Failed, hnone]
  | acquire requestId =>
    obtain ⟨payload, hpoint⟩ := hserves.1
    simp [step_acquire hnone hserves hpoint, Failed, hnone]
  | sent =>
    obtain ⟨payload, hpoint⟩ := hserves
    rw [step_sent hnone hpoint]
    obtain ⟨-, hnext⟩ | ⟨-, finished, -, hnext⟩ :=
      sendNext_cases { tasks with offset := tasks.offset + payload.length }
    · rw [hnext]
      simp [Failed, hnone]
    · rw [hnext]
      simp [Failed, hnone]
  | reply requestId reply =>
    obtain ⟨chunk, outstanding, finished, -, -, hstep⟩ := step_reply hnone hserves
    refine ⟨fun position => ?_, by simp [hstep, Failed, hnone]⟩
    simp [UploadTasks.step, hnone, hserves.1]
  | fail failure => cases hserves
  | finish => simp [step_finish hnone hserves, Failed]

/-- Something can be done until the upload returns. -/
theorem Smooth.exists_serves (h : Smooth depth tasks) (hdepth : 0 < depth)
    (hnone : tasks.result = none) : ∃ event, tasks.ServesNext event := by
  have hreply : tasks.outstanding ≠ [] → ∃ event, tasks.ServesNext event := by
    intro hsome
    have hnot : tasks.finished ≠ true := fun hdone => hsome (h.finished.mp hdone).2
    obtain ⟨entry, hmem⟩ := List.exists_mem_of_ne_nil _ hsome
    exact ⟨.reply entry.1 (.status .ok []), hnone, h.receiving.resolve_right hnot,
      List.mem_map_of_mem hmem, [], rfl⟩
  cases hpoint : tasks.point with
  | reading => exact ⟨.read _, hnone, hpoint, le_rfl⟩
  | acquiring payload =>
    by_cases hpermit : 0 < tasks.permits
    · obtain ⟨requestId, hfree⟩ :=
        Infinite.exists_notMem_finset (tasks.outstanding.map Prod.fst).toFinset
      exact ⟨.acquire requestId, hnone, ⟨payload, hpoint⟩, hpermit, by simpa using hfree⟩
    · -- Every permit is taken, so a WRITE waits for its acknowledgement.
      apply hreply
      have hfull := h.full
      apply List.length_pos_iff.mp
      omega
  | sending payload => exact ⟨.sent, hnone, payload, hpoint⟩
  | waiting =>
    by_cases hempty : tasks.outstanding = []
    · exact ⟨.finish, hnone, hpoint, h.finished.mpr ⟨h.stopped.mp hpoint, hempty⟩⟩
    · exact hreply hempty

end Serving

/-! ## Whole writes -/

/-- A write of a buffer that is served until nothing more can happen to it. -/
structure ServedThroughout (payload : Bytes) (offset : ℕ) (schedule : Schedule)
    (events : List Event) : Prop where
  served : Throughout step ServesNext
    (init ⟨payload, offset⟩ schedule offset (offset + payload.length)) events
  ended : ∀ event, ¬ ServesNext
    ((init ⟨payload, offset⟩ schedule offset (offset + payload.length)).run events).2 event

section Writes

variable {payload : Bytes} {offset : ℕ} {schedule : Schedule} {events : List Event}

/-- After any steps that are served the parts agree, no more steps were taken than there were to
do, and neither the source was found at its end nor anything failed. -/
theorem smooth_run (hpayload : payload ≠ []) (hlength : 0 < schedule.requestLength)
    (h : Throughout step ServesNext
      (init ⟨payload, offset⟩ schedule offset (offset + payload.length)) events) :
    let done := (init ⟨payload, offset⟩ schedule offset (offset + payload.length)).run events
    Smooth schedule.depth done.2 ∧ events.length + done.2.toDo ≤ 4 * payload.length + 1 ∧
      (∀ position, .exhausted position ∉ done.1) ∧ ¬ done.2.Failed := by
  have hpos := List.length_pos_iff.mpr hpayload
  have hrunning : (init ⟨payload, offset⟩ schedule offset (offset + payload.length)).result =
      none := if_neg (by omega)
  induction events using List.reverseRecOn with
  | nil =>
    refine ⟨smooth_init hpayload offset hlength, ?_, by simp [UploadTasks.run], ?_⟩
    · simp only [UploadTasks.run, transcript_nil, toDo, hrunning]
      simp [init]
      omega
    · rintro ⟨failure, hfailed⟩
      cases hrunning.symm.trans hfailed
  | append_singleton events event ih =>
    obtain ⟨hevents, hlast⟩ := throughout_concat.mp h
    obtain ⟨hsmooth, hcount, hwhole, -⟩ := ih hevents
    obtain ⟨hkept, hless⟩ := hsmooth.step hlast
    obtain ⟨hsaid, hfailed⟩ := hsmooth.step_said hlast
    simp only [UploadTasks.run] at hcount hwhole hkept hless ⊢
    rw [transcript_concat]
    refine ⟨hkept, ?_, fun position hmem => ?_, hfailed⟩
    · simp only [List.length_append, List.length_singleton]
      omega
    · obtain hold | hnew := List.mem_append.mp hmem
      · exact hwhole position hold
      · exact hsaid position hnew

/-- A write of a buffer returns: no more steps are served than four for each byte and one. -/
theorem length_le_of_served (hpayload : payload ≠ []) (hlength : 0 < schedule.requestLength)
    (h : Throughout step ServesNext
      (init ⟨payload, offset⟩ schedule offset (offset + payload.length)) events) :
    events.length ≤ 4 * payload.length + 1 :=
  (Nat.le_add_right _ _).trans (smooth_run hpayload hlength h).2.1

end Writes

end UploadTasks

/-- A write of a buffer that is served throughout returns its length, and its WRITEs are slices of
the buffer at their own offsets that cover the range. -/
theorem writeRangeFrom_served {payload : Bytes} {offset : ℕ} {schedule : Schedule}
    {events : List UploadTasks.Event} (hdepth : 0 < schedule.depth)
    (hlength : 0 < schedule.requestLength) (hpayload : payload ≠ [])
    (h : UploadTasks.ServedThroughout payload offset schedule events) (ending : Failure) :
    let done := writeRangeFrom payload offset schedule events ending
    done.2 = .ok payload.length ∧
      (∀ write ∈ UploadTasks.writes done.1, offset ≤ write.1 ∧
        write.2 <+: payload.drop (write.1 - offset)) ∧
      ∀ i, Covered (UploadTasks.writes done.1) i ↔ Covers (offset, payload) i := by
  have hdone : writeRangeFrom payload offset schedule events ending =
      (((UploadTasks.init ⟨payload, offset⟩ schedule offset
          (offset + payload.length)).run events).1,
        ((UploadTasks.init ⟨payload, offset⟩ schedule offset
          (offset + payload.length)).run events).2.result.getD (.error ending)) := by
    unfold writeRangeFrom
    rw [if_neg (by omega), if_neg (by omega), if_neg hpayload]
  rw [hdone]
  obtain ⟨hsmooth, -, hwhole, hfailed⟩ := UploadTasks.smooth_run hpayload hlength h.served
  have hexact := UploadTasks.exact_run ⟨payload, offset⟩ schedule offset (offset + payload.length)
    events
  have hended := h.ended
  generalize (UploadTasks.init ⟨payload, offset⟩ schedule offset
    (offset + payload.length)).run events = done at *
  -- A run that goes no further has returned, and nothing failed.
  have hreturned : ∃ count, done.2.result = some (.ok count) := by
    cases hresult : done.2.result with
    | none =>
      obtain ⟨event, hserves⟩ := hsmooth.exists_serves hdepth hresult
      exact absurd hserves (hended event)
    | some outcome =>
      cases outcome with
      | ok count => exact ⟨count, rfl⟩
      | error failure => exact absurd ⟨failure, hresult⟩ hfailed
  obtain ⟨count, hcount⟩ := hreturned
  obtain ⟨-, htotal, hend⟩ := hexact.returned count hcount
  have hall : count = payload.length := by
    obtain hfull | ⟨position, -, hmem⟩ := hend
    · omega
    · exact absurd hmem (hwhole position)
  have hconsecutive := hexact.sends.consecutive
  refine ⟨?_, hconsecutive.slice, fun i => ?_⟩
  · rw [hcount, hall]
    rfl
  · rw [hconsecutive.covered_iff, ← htotal, hall]
    rfl

end GantrySftp
