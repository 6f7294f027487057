import GantrySftp.Session.DownloadWindow
import GantrySftp.Session.Upload

/-!
# The window of an upload

Whatever the server performs of an upload is a slice of the source at its own offset. As long as
nothing has failed, the WRITEs performed and those still waiting to be tile what was sent; so an
upload that returns has had every byte from its offset on performed. One that fails may leave
any of the outstanding WRITEs performed, and holes below them.
-/

namespace GantrySftp

open Library

namespace Uploader

/-- The WRITEs that were sent and not performed yet. -/
def waiting (outstanding : List (ℕ × Sent)) : List Placed :=
  outstanding.filterMap fun entry => if entry.2.performed then none else some entry.2.write

/-- What holds at every point of an upload. -/
structure Window (start : ℕ) (state : Uploader) : Prop where
  start_le : start ≤ state.nextOffset
  inside : state.nextOffset ≤ state.source.length
  slices : ∀ write ∈ state.performed, Slice state.source write
  sent : ∀ entry ∈ state.outstanding, Slice state.source entry.2.write
  tiles : state.failed = none → Tiles start state.nextOffset
    ((state.performed ++ waiting state.outstanding).map placedRange)

/-- An upload about to begin. -/
theorem window_init {source : Bytes} {start : ℕ} (h : start ≤ source.length)
    (schedule : Schedule) : Window start (init source schedule start) where
  start_le := le_rfl
  inside := h
  slices := by simp [init]
  sent := by simp [init]
  tiles := fun _ => Tiles.nil start

/-! ## One event -/

variable {start : ℕ} {state : Uploader} {sent : Sent} {outstanding : List (ℕ × Sent)}
  {requestId : ℕ}

/-- Performing a WRITE moves it from those waiting to those performed. -/
theorem settled_perm (h : popRequest requestId state.outstanding = some (sent, outstanding)) :
    (state.performed ++ waiting state.outstanding).Perm
      (settled state.performed sent ++ waiting outstanding) := by
  have hwaiting : (waiting state.outstanding).Perm (waiting ((requestId, sent) :: outstanding)) :=
    (Downloader.popRequest_perm h).filterMap _
  refine (hwaiting.append_left _).trans ?_
  unfold settled waiting
  by_cases hperformed : sent.performed = true
  · simp [hperformed]
  · simp [hperformed, List.append_assoc]

/-- An outstanding WRITE is a slice. -/
theorem Window.popped (h : Window start state)
    (hpop : popRequest requestId state.outstanding = some (sent, outstanding)) :
    Slice state.source sent.write :=
  h.sent _ ((Downloader.popRequest_perm hpop).mem_iff.mpr List.mem_cons_self)

/-- What was performed is a slice still. -/
theorem settled_slices (h : Window start state)
    (hpop : popRequest requestId state.outstanding = some (sent, outstanding)) :
    ∀ write ∈ settled state.performed sent, Slice state.source write := by
  unfold settled
  split_ifs
  · exact h.slices
  · intro write hmem
    obtain hold | hnew := List.mem_append.mp hmem
    · exact h.slices write hold
    · rw [List.mem_singleton.mp hnew]
      exact h.popped hpop

/-- What remains outstanding is of slices still. -/
theorem sent_of_pop (h : Window start state)
    (hpop : popRequest requestId state.outstanding = some (sent, outstanding)) :
    ∀ entry ∈ outstanding, Slice state.source entry.2.write := fun entry hmem =>
  h.sent entry ((Downloader.popRequest_perm hpop).mem_iff.mpr (List.mem_cons_of_mem _ hmem))

/-- Sending keeps the window. -/
theorem Window.send (h : Window start state) : Window start state.send := by
  have hstart := h.start_le
  have hinside := h.inside
  unfold Uploader.send
  split_ifs with hroom
  · constructor
    · exact hstart.trans (Nat.le_add_right _ _)
    · have hlength : state.nextWrite.2.length ≤ state.source.length - state.nextOffset := by
        rw [nextWrite, List.length_take, List.length_drop]
        exact min_le_right _ _
      dsimp only
      omega
    · exact h.slices
    · intro entry hmem
      obtain hold | hnew := List.mem_append.mp hmem
      · exact h.sent entry hold
      · rw [List.mem_singleton.mp hnew]
        exact List.take_prefix _ _
    · intro hfailed
      refine ((h.tiles hfailed).push hstart state.nextWrite.2.length).perm ?_
      have hwaiting : waiting (state.outstanding ++ [(state.nextId, ⟨state.nextWrite, false⟩)]) =
          waiting state.outstanding ++ [state.nextWrite] := by
        simp [waiting, List.filterMap_append]
      dsimp only
      rw [hwaiting, ← List.append_assoc]
      have hmap : (state.performed ++ waiting state.outstanding ++ [state.nextWrite]).map
          placedRange = (state.performed ++ waiting state.outstanding).map placedRange ++
            [placedRange state.nextWrite] := List.map_append
      rw [hmap]
      exact (List.perm_append_singleton _ _).symm
  · exact h

/-- Performing keeps the window. -/
theorem Window.perform (h : Window start state) (requestId : ℕ) :
    Window start (state.perform requestId) := by
  unfold Uploader.perform
  cases hpop : popRequest requestId state.outstanding with
  | none => exact h
  | some found =>
    obtain ⟨sent, outstanding⟩ := found
    constructor
    · exact h.start_le
    · exact h.inside
    · exact settled_slices h hpop
    · intro entry hmem
      obtain hold | hnew := List.mem_append.mp hmem
      · exact sent_of_pop h hpop entry hold
      · have hslice := h.popped hpop
        rw [List.mem_singleton.mp hnew]
        exact hslice
    · intro hfailed
      have hwaiting : waiting (outstanding ++ [(requestId, { sent with performed := true })]) =
          waiting outstanding := by
        simp [waiting, List.filterMap_append]
      dsimp only
      rw [hwaiting]
      exact (h.tiles hfailed).perm ((settled_perm hpop).map _)

/-- Failing keeps the window. -/
theorem Window.fail (h : Window start state) {outstanding : List (ℕ × Sent)}
    (hsent : ∀ entry ∈ outstanding, Slice state.source entry.2.write) (failure : Failure) :
    Window start (Uploader.fail { state with outstanding := outstanding } failure) where
  start_le := h.start_le
  inside := h.inside
  slices := h.slices
  sent := hsent
  tiles := nofun

/-- Handling a reply keeps the window. -/
theorem Window.acknowledge (h : Window start state) (requestId : ℕ) (reply : Reply) :
    Window start (state.acknowledge requestId reply) := by
  unfold Uploader.acknowledge
  cases hpop : popRequest requestId state.outstanding with
  | none => exact h.fail h.sent _
  | some found =>
    obtain ⟨sent, outstanding⟩ := found
    dsimp only
    split
    · constructor
      · exact h.start_le
      · exact h.inside
      · exact settled_slices h hpop
      · exact fun entry hmem => sent_of_pop h hpop entry hmem
      · exact fun hfailed => (h.tiles hfailed).perm ((settled_perm hpop).map _)
    · exact h.fail (sent_of_pop h hpop) _
    · exact h.fail (sent_of_pop h hpop) _

/-- Every event keeps the window. -/
theorem Window.step (h : Window start state) (event : UploadEvent) :
    Window start (state.step event) := by
  cases event with
  | send => exact h.send
  | perform requestId => exact h.perform requestId
  | reply requestId reply =>
    unfold Uploader.step
    dsimp only
    split_ifs
    · exact h
    · exact h.acknowledge requestId reply

/-- A whole upload keeps the window. -/
theorem Window.foldl (h : Window start state) (events : List UploadEvent) :
    Window start (events.foldl Uploader.step state) := by
  induction events generalizing state with
  | nil => exact h
  | cons event rest ih => exact ih (h.step event)

/-- No event changes the source. -/
theorem step_source (state : Uploader) (event : UploadEvent) :
    (state.step event).source = state.source := by
  cases event with
  | send =>
    change state.send.source = _
    unfold send
    split_ifs <;> rfl
  | perform requestId =>
    change (state.perform requestId).source = _
    unfold perform
    split <;> rfl
  | reply requestId reply =>
    unfold step
    dsimp only
    split_ifs
    · rfl
    · unfold acknowledge
      split
      · rfl
      · dsimp only
        split <;> rfl

/-- An upload does not change the source. -/
theorem foldl_source (state : Uploader) (events : List UploadEvent) :
    (events.foldl step state).source = state.source := by
  induction events generalizing state with
  | nil => rfl
  | cons event rest ih => exact (ih _).trans (step_source state event)

/-- An upload that finished had exactly the source from its start on performed. -/
theorem Window.covered_iff (h : Window start state) (hfailed : state.failed = none)
    (hfinished : state.finished = true) (i : ℕ) :
    Covered state.performed i ↔ start ≤ i ∧ i < state.source.length := by
  obtain ⟨hsent, hnone⟩ := (Bool.and_eq_true _ _).mp hfinished
  have hnext : state.source.length ≤ state.nextOffset := of_decide_eq_true hsent
  have htiles := h.tiles hfailed
  rw [List.isEmpty_iff.mp hnone, waiting, List.filterMap_nil, List.append_nil] at htiles
  constructor
  · rintro ⟨write, hmem, hcovers⟩
    have hinside := htiles.inside (List.mem_map_of_mem hmem) (Piece.contains_iff.mpr hcovers)
    exact ⟨hinside.1, hinside.2.trans_le h.inside⟩
  · rintro ⟨hlow, hhigh⟩
    obtain ⟨piece, hmem, hcontains⟩ := htiles.exists_contains hlow (hhigh.trans_le hnext)
    obtain ⟨write, hwrite, rfl⟩ := List.mem_map.mp hmem
    exact ⟨write, hwrite, Piece.contains_iff.mp hcontains⟩

end Uploader

section Handle

variable {source : Bytes} {schedule : Schedule} {startOffset : ℕ} {events : List UploadEvent}
  {ending : Failure}

/-- An upload sends nothing, or runs from an offset inside the source. -/
theorem uploadHandle_cases :
    (uploadHandle source schedule startOffset events ending).1 =
        .init source schedule startOffset ∧
      (∀ count, (uploadHandle source schedule startOffset events ending).2 = .ok count →
        startOffset = source.length) ∨
    startOffset ≤ source.length ∧ uploadHandle source schedule startOffset events ending =
      (Uploader.init source schedule startOffset).run events ending := by
  unfold uploadHandle
  dsimp only
  split_ifs with hdepth hlength hpast hempty
  · exact Or.inl ⟨rfl, nofun⟩
  · exact Or.inl ⟨rfl, nofun⟩
  · exact Or.inl ⟨rfl, nofun⟩
  · exact Or.inl ⟨rfl, fun _ _ => by omega⟩
  · exact Or.inr ⟨by omega, rfl⟩

/-- Whatever an upload had performed are slices of the source. -/
theorem slice_of_upload :
    ∀ write ∈ (uploadHandle source schedule startOffset events ending).1.performed,
      Slice source write := by
  obtain ⟨hinit, -⟩ | ⟨hstart, hrun⟩ := uploadHandle_cases
  · rw [hinit]
    simp [Uploader.init]
  · rw [hrun]
    have hwindow := (Uploader.window_init hstart schedule).foldl events
    have hslices := hwindow.slices
    rw [Uploader.foldl_source] at hslices
    exact hslices

/-- An upload that returns had exactly the source from its offset on performed. -/
theorem uploadHandle_covered {count : ℕ}
    (hdone : (uploadHandle source schedule startOffset events ending).2 = .ok count) (i : ℕ) :
    Covered (uploadHandle source schedule startOffset events ending).1.performed i ↔
      startOffset ≤ i ∧ i < source.length := by
  obtain ⟨hinit, hwhole⟩ | ⟨hstart, hrun⟩ := uploadHandle_cases
  · obtain rfl := hwhole count hdone
    rw [hinit]
    constructor
    · rintro ⟨write, hmem, -⟩
      cases hmem
    · intro hi
      omega
  · rw [hrun] at hdone ⊢
    have hwindow := (Uploader.window_init hstart schedule).foldl events
    have hsource := Uploader.foldl_source (.init source schedule startOffset) events
    unfold Uploader.run at hdone ⊢
    dsimp only at hdone ⊢
    generalize events.foldl Uploader.step (.init source schedule startOffset) = final at *
    change final.source = source at hsource
    subst hsource
    obtain ⟨hfailed, hfinished⟩ : final.failed = none ∧ final.finished = true := by
      split at hdone
      · cases hdone
      · next hnone =>
        split_ifs at hdone with hfinished
        exact ⟨hnone, hfinished⟩
    exact hwindow.covered_iff hfailed hfinished i

/-- An upload that returns started inside the source. -/
theorem uploadHandle_start_le {count : ℕ}
    (hdone : (uploadHandle source schedule startOffset events ending).2 = .ok count) :
    startOffset ≤ source.length := by
  obtain ⟨-, hwhole⟩ | ⟨hstart, -⟩ := uploadHandle_cases
  · exact (hwhole count hdone).le
  · exact hstart

end Handle

/-! ## What WRITEs leave -/

section Writes

variable (handle : Handle) (world : World) (writes : List Placed)

/-- Recording WRITEs changes the files and the trace only. -/
theorem foldl_wrote_frame :
    writes.foldl (World.wrote handle) world =
      { world with
        files := (writes.foldl (World.wrote handle) world).files
        trace := (writes.foldl (World.wrote handle) world).trace } := by
  induction writes generalizing world with
  | nil => rfl
  | cons write rest ih => exact ih (World.wrote handle world write)

/-- Recording WRITEs has nothing to do with the script. -/
theorem foldl_wrote_script (script : List Turn) :
    writes.foldl (World.wrote handle) { world with script := script } =
      { writes.foldl (World.wrote handle) world with script := script } := by
  induction writes generalizing world with
  | nil => rfl
  | cons write rest ih => exact ih (World.wrote handle world write)

/-- The files after WRITEs through a handle hold them in its file. -/
theorem foldl_wrote_files {content : Bytes} (h : world.files handle.file = some content) :
    (writes.foldl (World.wrote handle) world).files =
      world.files.put handle.file (some (pwriteAll content writes)) := by
  induction writes generalizing world content with
  | nil => exact (Function.update_eq_self_iff.mpr h.symm).symm
  | cons write rest ih =>
    have hwritten : (World.wrote handle world write).files =
        world.files.put handle.file (some (pwrite content write.1 write.2)) := by
      change world.files.write handle write = _
      rw [Files.write, h]
      rfl
    have hcontent : (World.wrote handle world write).files handle.file =
        some (pwrite content write.1 write.2) := by
      rw [hwritten, Files.put_self]
    rw [List.foldl_cons, ih _ hcontent, hwritten]
    exact Function.update_idem _ _ _

/-- Every moment of WRITEs through a handle has the other files as they were. -/
theorem foldl_wrote_trace :
    ∃ moments, (writes.foldl (World.wrote handle) world).trace = world.trace ++ moments ∧
      ∀ moment ∈ moments, moment.journal = world.journal ∧
        (∃ offset payload, moment.event = .wrote handle offset payload) ∧
          ∀ file ≠ handle.file, moment.files file = world.files file := by
  induction writes generalizing world with
  | nil => exact ⟨[], (List.append_nil _).symm, fun _ hmem => absurd hmem List.not_mem_nil⟩
  | cons write rest ih =>
    obtain ⟨moments, htrace, hmoments⟩ := ih (World.wrote handle world write)
    have hfiles : ∀ file ≠ handle.file,
        (World.wrote handle world write).files file = world.files file := fun file hne =>
      Files.put_of_ne hne _ _
    have hwrote : (World.wrote handle world write).trace = world.trace ++
        [⟨.wrote handle write.1 write.2, (World.wrote handle world write).files,
          world.journal⟩] := rfl
    rw [hwrote, List.append_assoc] at htrace
    refine ⟨_, htrace, fun moment hmem => ?_⟩
    obtain rfl | hlater := List.mem_cons.mp hmem
    · exact ⟨rfl, ⟨_, _, rfl⟩, hfiles⟩
    · obtain ⟨hjournal, hevent, hother⟩ := hmoments moment hlater
      exact ⟨hjournal, hevent, fun file hne => (hother file hne).trans (hfiles file hne)⟩

end Writes

end GantrySftp
