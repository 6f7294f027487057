import GantrySftp.Session.Download
import Mathlib.Logic.Relation

/-!
# The window of a download

At every point of a download the ranges written, dropped at an EOF, outstanding and queued again
tile the region between its start and the next offset, whatever the server answers. A download
that ends normally has nothing outstanding and nothing queued, so every byte of the region was
written or answered with EOF; with truthful answers that is exactly the rest of the file.
-/

namespace GantrySftp

open Library Relation

/-! ## What the handled replies wrote -/

/-- What a handled reply wrote. -/
def landedBy : Answered → Option Placed
  | (issued, .data payload) => some (issued.offset, payload)
  | _ => none

/-- The writes of the handled replies, in order. -/
def landed (answered : List Answered) : List Placed := answered.filterMap landedBy

/-- The range a handled EOF dropped. -/
def droppedBy : Answered → Option Range
  | (issued, .status .eof _) => some issued
  | _ => none

/-- The ranges that were answered with EOF. -/
def dropped (answered : List Answered) : List Range := answered.filterMap droppedBy

/-- The range a write covers. -/
def placedRange (write : Placed) : Range := ⟨write.1, write.2.length⟩

/-- A reply a server can give that holds this content: DATA is the bytes at the offset asked
for, and EOF is answered only at or past the end. -/
def TruthfulRead (content : Bytes) : Answered → Prop
  | (issued, .data payload) => payload <+: content.drop issued.offset
  | (issued, .status .eof _) => content.length ≤ issued.offset
  | _ => True

instance (content : Bytes) : DecidablePred (TruthfulRead content)
  | (issued, .data payload) => inferInstanceAs (Decidable (payload <+: content.drop issued.offset))
  | (issued, .status .eof _) => inferInstanceAs (Decidable (content.length ≤ issued.offset))
  | (_, .status .ok _) | (_, .status .noSuchFile _) | (_, .status .permissionDenied _)
  | (_, .status .failure _) | (_, .status .badMessage _) | (_, .status .noConnection _)
  | (_, .status .connectionLost _) | (_, .status .opUnsupported _) => isTrue trivial
  | (_, .handle _) | (_, .attrs _) | (_, .name _) | (_, .digests _ _) => isTrue trivial

namespace Downloader

variable {σ : Type}

/-! ## The window -/

/-- The ranges of a download that were not written. -/
def unwritten (state : Downloader σ) : List Range :=
  dropped state.answered ++ (state.outstanding.map Prod.snd ++ state.backlog)

/-- All ranges of a download, wherever they are. -/
def pieces (state : Downloader σ) : List Range :=
  (landed state.answered).map placedRange ++ state.unwritten

/-! ## Sending -/

/-- A range taken past the ones issued is not empty and stays inside the region. -/
theorem freshLength_pos {state : Downloader σ} (hlength : 0 < state.schedule.requestLength)
    (hbacklog : state.backlog = []) (hmore : state.moreToIssue = true) :
    0 < state.freshLength ∧
      ∀ stop ∈ state.span.stop, state.nextOffset + state.freshLength ≤ stop := by
  unfold moreToIssue at hmore
  unfold freshLength
  rw [hbacklog] at hmore
  cases hstop : state.span.stop with
  | none => exact ⟨hlength, by intro stop hmem; cases hmem⟩
  | some stop =>
    rw [hstop] at hmore
    have hroom : state.nextOffset < stop := by
      by_contra hfull
      simp [hfull] at hmore
    refine ⟨by simp only [lt_min_iff]; omega, ?_⟩
    rintro _ ⟨⟩
    simp only
    omega

/-- Sending a READ of a queued range only moves the range. -/
theorem unwritten_issue_queued {state : Downloader σ} (hbacklog : state.backlog ≠ []) :
    state.issue.unwritten.Perm state.unwritten ∧ state.issue.nextOffset = state.nextOffset := by
  unfold issue nextRange unwritten
  cases hqueue : state.backlog with
  | nil => exact absurd hqueue hbacklog
  | cons range backlog => exact ⟨by simp, rfl⟩

/-- Sending a READ past the ones issued adds a range there. -/
theorem unwritten_issue_fresh {state : Downloader σ} (hbacklog : state.backlog = []) :
    state.issue.unwritten.Perm (⟨state.nextOffset, state.freshLength⟩ :: state.unwritten) ∧
      state.issue.nextOffset = state.nextOffset + state.freshLength := by
  unfold issue nextRange unwritten
  rw [hbacklog]
  refine ⟨?_, rfl⟩
  simp only [List.map_append, List.map_cons, List.map_nil, List.append_nil]
  rw [← List.append_assoc]
  exact List.perm_append_singleton _ _

/-- Sending a READ changes nothing else. -/
theorem issue_frame (state : Downloader σ) :
    state.issue.span = state.span ∧ state.issue.schedule = state.schedule ∧
      state.issue.sink = state.sink ∧ state.issue.written = state.written ∧
      state.issue.eofAt = state.eofAt ∧ state.issue.answered = state.answered := by
  unfold issue nextRange
  cases state.backlog <;> exact ⟨rfl, rfl, rfl, rfl, rfl, rfl⟩

/-- Filling the window handles nothing. -/
theorem fill_frame (room : ℕ) (state : Downloader σ) :
    (fill room state).1.span = state.span ∧ (fill room state).1.schedule = state.schedule ∧
      (fill room state).1.answered = state.answered := by
  induction room generalizing state with
  | zero => exact ⟨rfl, rfl, rfl⟩
  | succ room ih =>
    unfold fill
    split_ifs with hmore
    · cases state.sendFailure with
      | some failure => exact ⟨rfl, rfl, rfl⟩
      | none =>
        obtain ⟨hspan, hschedule, -, -, -, hanswered⟩ := issue_frame state
        obtain ⟨hspan', hschedule', hanswered'⟩ := ih state.issue
        exact ⟨hspan'.trans hspan, hschedule'.trans hschedule, hanswered'.trans hanswered⟩
    · exact ⟨rfl, rfl, rfl⟩

/-- Filling the window handles no reply. -/
theorem fillWindow_answered {state filled : Downloader σ} {refused : Option Failure}
    (hfill : state.fillWindow = (filled, refused)) : filled.answered = state.answered := by
  have hframe : state.fillWindow.1.answered = state.answered := (fill_frame _ state).2.2
  rwa [hfill] at hframe

/-- Sending a READ takes one place of the window. -/
theorem issue_outstanding_length (state : Downloader σ) :
    state.issue.outstanding.length = state.outstanding.length + 1 := by
  unfold issue nextRange
  cases state.backlog <;> simp

/-- A window with room for `room` more READs is full afterwards, or nothing is left to ask for,
unless a READ could not be sent. -/
theorem fill_full {room : ℕ} {state : Downloader σ}
    (h : state.schedule.depth ≤ state.outstanding.length + room)
    (hsent : (fill room state).2 = none) :
    (fill room state).1.schedule.depth ≤ (fill room state).1.outstanding.length ∨
      (fill room state).1.moreToIssue = false := by
  induction room generalizing state with
  | zero => exact Or.inl h
  | succ room ih =>
    unfold fill at hsent ⊢
    split_ifs at hsent ⊢ with hmore
    · cases hfailure : state.sendFailure with
      | some failure =>
        rw [hfailure] at hsent
        cases hsent
      | none =>
        rw [hfailure] at hsent
        refine ih ?_ hsent
        rw [issue_outstanding_length, (issue_frame state).2.1]
        omega
    · obtain hfull | hdone := not_and_or.mp hmore
      · exact Or.inl (not_lt.mp hfull)
      · exact Or.inr (Bool.eq_false_iff.mpr hdone)

/-- With nothing outstanding after filling, nothing is left to ask for. -/
theorem fillWindow_done {state filled : Downloader σ} (hdepth : 0 < state.schedule.depth)
    (hfill : state.fillWindow = (filled, none)) (hnone : filled.outstanding = []) :
    filled.moreToIssue = false := by
  have hroom : state.schedule.depth ≤
      state.outstanding.length + (state.schedule.depth - state.outstanding.length) := by
    omega
  have hfull := fill_full hroom (congrArg Prod.snd hfill)
  change (state.fillWindow).1.schedule.depth ≤ (state.fillWindow).1.outstanding.length ∨
    (state.fillWindow).1.moreToIssue = false at hfull
  have hschedule : state.fillWindow.1.schedule = state.schedule := (fill_frame _ state).2.1
  rw [hschedule, hfill, hnone, List.length_nil] at hfull
  exact hfull.resolve_left (by omega)

/-- Popping a request takes its entry out and leaves the others. -/
theorem popRequest_perm {α : Type} {requestId : ℕ} {entries rest : List (ℕ × α)} {value : α}
    (h : popRequest requestId entries = some (value, rest)) :
    entries.Perm ((requestId, value) :: rest) := by
  induction entries generalizing rest with
  | nil => cases h
  | cons entry entries ih =>
    rw [popRequest] at h
    split_ifs at h with hid
    · obtain ⟨rfl, rfl⟩ := Prod.mk.inj (Option.some.inj h)
      rw [← hid]
    · obtain ⟨found, hfound, hpair⟩ := Option.map_eq_some_iff.mp h
      obtain ⟨rfl, rfl⟩ := Prod.mk.inj hpair
      exact ((ih hfound).cons entry).trans (List.Perm.swap _ _ _)

/-! ## What holds throughout -/

variable [Sink σ]

/-- What holds at every point of a download into `sink`. -/
structure Window (sink : σ) (state : Downloader σ) : Prop where
  requestLength_pos : 0 < state.schedule.requestLength
  tiles : Tiles state.span.start state.nextOffset state.pieces
  start_le : state.span.start ≤ state.nextOffset
  inside : ∀ stop ∈ state.span.stop, state.nextOffset ≤ max state.span.start stop
  length_pos : ∀ range ∈ state.unwritten, 0 < range.length
  ended : state.eofAt.isSome → dropped state.answered ≠ []
  sink_eq : state.sink = (landed state.answered).foldl
    (fun sink write => Sink.writeAt sink write.1 write.2) sink
  written_eq : state.written = ((landed state.answered).map fun write => write.2.length).sum

/-- A download about to begin. -/
theorem window_init (span : Span) {schedule : Schedule} (h : 0 < schedule.requestLength)
    (sink : σ) : Window sink (init span schedule sink) where
  requestLength_pos := h
  tiles := Tiles.nil _
  start_le := le_rfl
  inside := fun _ _ => le_max_left _ _
  length_pos := by intro range hmem; cases hmem
  ended := by intro h; cases h
  sink_eq := rfl
  written_eq := rfl

/-- Sending a READ keeps the window. -/
theorem Window.issue {sink : σ} {state : Downloader σ} (h : Window sink state)
    (hmore : state.moreToIssue = true) : Window sink state.issue := by
  obtain ⟨hspan, hschedule, hsink, hwritten, heof, hanswered⟩ := issue_frame state
  by_cases hbacklog : state.backlog = []
  · obtain ⟨hunwritten, hnext⟩ := unwritten_issue_fresh hbacklog
    obtain ⟨hpos, hinside⟩ := freshLength_pos h.requestLength_pos hbacklog hmore
    have hpieces : (⟨state.nextOffset, state.freshLength⟩ :: state.pieces).Perm
        state.issue.pieces := by
      unfold pieces
      rw [hanswered]
      exact List.perm_middle.symm.trans (hunwritten.symm.append_left _)
    constructor
    · exact hschedule ▸ h.requestLength_pos
    · rw [hspan, hnext]
      exact (h.tiles.push h.start_le _).perm hpieces
    · rw [hspan, hnext]
      exact h.start_le.trans (Nat.le_add_right _ _)
    · rw [hspan, hnext]
      exact fun stop hstop => (hinside stop hstop).trans (le_max_right _ _)
    · intro range hmem
      obtain rfl | hold := List.mem_cons.mp (hunwritten.mem_iff.mp hmem)
      · exact hpos
      · exact h.length_pos range hold
    · rw [heof, hanswered]
      exact h.ended
    · rw [hsink, hanswered]
      exact h.sink_eq
    · rw [hwritten, hanswered]
      exact h.written_eq
  · obtain ⟨hunwritten, hnext⟩ := unwritten_issue_queued hbacklog
    have hpieces : state.pieces.Perm state.issue.pieces := by
      unfold pieces
      rw [hanswered]
      exact hunwritten.symm.append_left _
    constructor
    · exact hschedule ▸ h.requestLength_pos
    · rw [hspan, hnext]
      exact h.tiles.perm hpieces
    · rw [hspan, hnext]
      exact h.start_le
    · rw [hspan, hnext]
      exact h.inside
    · exact fun range hmem => h.length_pos range (hunwritten.mem_iff.mp hmem)
    · rw [heof, hanswered]
      exact h.ended
    · rw [hsink, hanswered]
      exact h.sink_eq
    · rw [hwritten, hanswered]
      exact h.written_eq

/-- What handling a reply that does not fail did: a DATA that was not too long was written and
its shortfall queued, or an EOF was recorded. -/
theorem dispatch_cases {state state' : Downloader σ} {requestId : ℕ} {reply : Reply}
    (h : state.dispatch requestId reply = .ok state') :
    ∃ issued outstanding, popRequest requestId state.outstanding = some (issued, outstanding) ∧
      ((∃ payload, reply = .data payload ∧ payload.length ≤ issued.length ∧
        state' = { state with
          outstanding := outstanding
          seenZeroLength := state.seenZeroLength || payload = []
          sink := Sink.writeAt state.sink issued.offset payload
          written := state.written + payload.length
          backlog := state.backlog ++ shortfall issued payload
          answered := state.answered ++ [(issued, reply)] }) ∨
      ∃ message, reply = .status .eof message ∧
        state' = { state with
          outstanding := outstanding
          eofAt := some (earlierEof state.eofAt issued.offset)
          answered := state.answered ++ [(issued, reply)] }) := by
  unfold dispatch at h
  cases hpop : popRequest requestId state.outstanding with
  | none =>
    rw [hpop] at h
    cases h
  | some found =>
    obtain ⟨issued, outstanding⟩ := found
    rw [hpop] at h
    refine ⟨issued, outstanding, rfl, ?_⟩
    cases reply with
    | data payload =>
      simp only [handleData] at h
      split_ifs at h with hlong hsecond
      exact Or.inl ⟨payload, rfl, not_lt.mp hlong, (Except.ok.inj h).symm⟩
    | status code message =>
      simp only [handleStatus] at h
      split_ifs at h with heof
      subst heof
      exact Or.inr ⟨message, rfl, (Except.ok.inj h).symm⟩
    | handle _ => cases h
    | attrs _ => cases h
    | name _ => cases h
    | digests _ _ => cases h

/-- One more handled DATA is one more write. -/
theorem landed_append_data (answered : List Answered) (issued : Range) (payload : Bytes) :
    landed (answered ++ [(issued, .data payload)]) =
      landed answered ++ [(issued.offset, payload)] := by
  simp [landed, landedBy]

/-- A handled STATUS wrote nothing. -/
theorem landed_append_status (answered : List Answered) (issued : Range) (code : StatusCode)
    (message : Bytes) :
    landed (answered ++ [(issued, .status code message)]) = landed answered := by
  have hnone : landedBy (issued, .status code message) = none := rfl
  simp [landed, hnone]

/-- A shortfall is what a write leaves of its range. -/
theorem countP_shortfall (i : ℕ) {issued : Range} {payload : Bytes}
    (h : payload.length ≤ issued.length) :
    [placedRange (issued.offset, payload)].countP (Piece.contains i) +
        (shortfall issued payload).countP (Piece.contains i) =
      [issued].countP (Piece.contains i) := by
  have hempty := countP_contains_empty i (issued.offset + payload.length)
  rw [← countP_contains_cut i h, placedRange]
  unfold shortfall
  split_ifs with hshort
  · rw [← List.countP_append]
    rfl
  · rw [Nat.sub_eq_zero_of_le (not_lt.mp hshort)]
    change _ = ([(⟨issued.offset, payload.length⟩ : Range)] ++
      [(⟨issued.offset + payload.length, 0⟩ : Range)]).countP _
    rw [List.countP_append, hempty, List.countP_nil]

/-- What is queued again after a DATA is not empty. -/
theorem shortfall_pos {issued : Range} {payload : Bytes} {range : Range}
    (h : range ∈ shortfall issued payload) : 0 < range.length := by
  unfold shortfall at h
  split_ifs at h with hshort
  · obtain rfl := List.mem_singleton.mp h
    simp only
    omega
  · cases h

/-- Handling a reply keeps the window. -/
theorem Window.dispatch {sink : σ} {state state' : Downloader σ} {requestId : ℕ} {reply : Reply}
    (h : Window sink state) (hdispatch : state.dispatch requestId reply = .ok state') :
    Window sink state' := by
  obtain ⟨issued, outstanding, hpop, hcases⟩ := dispatch_cases hdispatch
  have hperm := (popRequest_perm hpop).map Prod.snd
  obtain ⟨payload, rfl, hlength, rfl⟩ | ⟨message, rfl, rfl⟩ := hcases
  · constructor
    · exact h.requestLength_pos
    · refine h.tiles.congr fun i => ?_
      have hcut := countP_shortfall i hlength
      simp only [pieces, unwritten, landed_append_data, dropped, List.filterMap_append, droppedBy,
        List.map_append, List.countP_append, hperm.countP_eq, List.map_cons, List.countP_cons,
        List.map_nil, List.countP_nil, List.filterMap_cons, List.filterMap_nil] at hcut ⊢
      omega
    · exact h.start_le
    · exact h.inside
    · intro range hmem
      simp only [unwritten, dropped, List.filterMap_append, List.filterMap_cons, droppedBy,
        List.filterMap_nil, List.append_nil, List.mem_append] at hmem
      obtain hdropped | houtstanding | hqueued | hshort := hmem
      · exact h.length_pos range (List.mem_append_left _ hdropped)
      · refine h.length_pos range (List.mem_append_right _ (List.mem_append_left _ ?_))
        exact hperm.mem_iff.mpr (List.mem_cons_of_mem _ houtstanding)
      · exact h.length_pos range (List.mem_append_right _ (List.mem_append_right _ hqueued))
      · exact shortfall_pos hshort
    · intro hended
      simpa [dropped, droppedBy] using h.ended hended
    · rw [landed_append_data, List.foldl_append, ← h.sink_eq]
      rfl
    · rw [landed_append_data, List.map_append, List.sum_append, ← h.written_eq]
      rfl
  · constructor
    · exact h.requestLength_pos
    · refine h.tiles.congr fun i => ?_
      simp only [pieces, unwritten, landed, landedBy, dropped, List.filterMap_append, droppedBy,
        List.map_append, List.countP_append, hperm.countP_eq, List.map_cons, List.countP_cons,
        List.map_nil, List.countP_nil, List.filterMap_cons, List.filterMap_nil]
      omega
    · exact h.start_le
    · exact h.inside
    · intro range hmem
      refine h.length_pos range ?_
      simp only [unwritten, dropped, List.filterMap_append, List.filterMap_cons, droppedBy,
        List.filterMap_nil, List.mem_append, List.mem_singleton] at hmem ⊢
      obtain (hdropped | rfl) | houtstanding | hqueued := hmem
      · exact Or.inl hdropped
      · exact Or.inr (Or.inl (hperm.mem_iff.mpr List.mem_cons_self))
      · exact Or.inr (Or.inl (hperm.mem_iff.mpr (List.mem_cons_of_mem _ houtstanding)))
      · exact Or.inr (Or.inr hqueued)
    · intro _ hnone
      simp [dropped, droppedBy] at hnone
    · rw [landed_append_status]
      exact h.sink_eq
    · rw [landed_append_status]
      exact h.written_eq

/-- Handling a reply changes neither the region nor the pace. -/
theorem dispatch_frame {state state' : Downloader σ} {requestId : ℕ} {reply : Reply}
    (h : state.dispatch requestId reply = .ok state') :
    state'.span = state.span ∧ state'.schedule = state.schedule := by
  obtain ⟨issued, outstanding, -, ⟨payload, -, -, rfl⟩ | ⟨message, -, rfl⟩⟩ := dispatch_cases h
  · exact ⟨rfl, rfl⟩
  · exact ⟨rfl, rfl⟩

/-! ## Whole runs -/

section Run

variable {state filled state' : Downloader σ} {requestId : ℕ} {reply : Reply}
  {failure ending : Failure} {replies : List (ℕ × Reply)}

/-- A READ that cannot be sent ends a download. -/
theorem run_of_refused (hfill : state.fillWindow = (filled, some failure)) :
    state.run replies ending = (filled, .error failure) := by
  unfold run
  rw [hfill]

/-- With nothing outstanding a download is done. -/
theorem run_of_none (hfill : state.fillWindow = (filled, none)) (hnone : filled.outstanding = []) :
    state.run replies ending = (filled, .ok filled.written) := by
  unfold run
  rw [hfill]
  exact if_pos hnone

/-- Without a reply for what is outstanding a download is cut short. -/
theorem run_of_nil (hfill : state.fillWindow = (filled, none)) (hsome : filled.outstanding ≠ []) :
    state.run [] ending = (filled, .error ending) := by
  unfold run
  rw [hfill]
  exact if_neg hsome

/-- A reply that cannot be handled ends a download. -/
theorem run_of_error (hfill : state.fillWindow = (filled, none)) (hsome : filled.outstanding ≠ [])
    (hdispatch : filled.dispatch requestId reply = .error failure) :
    state.run ((requestId, reply) :: replies) ending = (filled, .error failure) := by
  unfold run
  rw [hfill]
  simp [hsome, hdispatch]

/-- After a reply that was handled a download goes on. -/
theorem run_of_ok (hfill : state.fillWindow = (filled, none)) (hsome : filled.outstanding ≠ [])
    (hdispatch : filled.dispatch requestId reply = .ok state') :
    state.run ((requestId, reply) :: replies) ending = state'.run replies ending := by
  rw [run.eq_def]
  simp [hfill, hsome, hdispatch]

end Run

/-- One step of a download: a READ is sent where the window has room and there is something to
ask for, or a reply is handled. -/
inductive Moves : Downloader σ → Downloader σ → Prop
  | issue {state : Downloader σ} (hroom : state.outstanding.length < state.schedule.depth)
      (hmore : state.moreToIssue = true) : Moves state state.issue
  | handle {state state' : Downloader σ} {requestId : ℕ} {reply : Reply}
      (h : state.dispatch requestId reply = .ok state') : Moves state state'

/-- Filling the window sends READs. -/
theorem fill_moves (room : ℕ) (state : Downloader σ) :
    ReflTransGen Moves state (fill room state).1 := by
  induction room generalizing state with
  | zero => exact .refl
  | succ room ih =>
    unfold fill
    split_ifs with hmore
    · cases state.sendFailure with
      | some failure => exact .refl
      | none => exact .head (.issue hmore.1 hmore.2) (ih _)
    · exact .refl

/-- Filling the window as far as it goes sends READs. -/
theorem fillWindow_moves {state filled : Downloader σ} {refused : Option Failure}
    (h : state.fillWindow = (filled, refused)) : ReflTransGen Moves state filled := by
  have hmoves := fill_moves (state.schedule.depth - state.outstanding.length) state
  rwa [show fill _ state = (filled, refused) from h] at hmoves

/-- A download sends READs and handles replies, however it ends. -/
theorem run_moves (state : Downloader σ) (replies : List (ℕ × Reply)) (ending : Failure) :
    ReflTransGen Moves state (state.run replies ending).1 := by
  induction replies generalizing state with
  | nil =>
    cases hfill : state.fillWindow with
    | mk filled refused =>
      have hmoves := fillWindow_moves hfill
      cases refused with
      | some failure => rwa [run_of_refused hfill]
      | none =>
        by_cases hnone : filled.outstanding = []
        · rwa [run_of_none hfill hnone]
        · rwa [run_of_nil hfill hnone]
  | cons reply rest ih =>
    cases hfill : state.fillWindow with
    | mk filled refused =>
      have hmoves := fillWindow_moves hfill
      cases refused with
      | some failure => rwa [run_of_refused hfill]
      | none =>
        by_cases hnone : filled.outstanding = []
        · rwa [run_of_none hfill hnone]
        · cases hdispatch : filled.dispatch reply.1 reply.2 with
          | error failure => rwa [run_of_error hfill hnone hdispatch]
          | ok state' =>
            rw [run_of_ok hfill hnone hdispatch]
            exact (hmoves.tail (.handle hdispatch)).trans (ih state')

/-- A step keeps the window. -/
theorem Window.move {sink : σ} {state state' : Downloader σ} (h : Window sink state)
    (hmove : Moves state state') : Window sink state' := by
  cases hmove with
  | issue hroom hmore => exact h.issue hmore
  | handle hdispatch => exact h.dispatch hdispatch

/-- Any steps keep the window. -/
theorem Window.moves {sink : σ} {state state' : Downloader σ} (h : Window sink state)
    (hmoves : ReflTransGen Moves state state') : Window sink state' := by
  induction hmoves with
  | refl => exact h
  | tail _ hmove ih => exact ih.move hmove

/-- A download keeps the window, however it ends. -/
theorem Window.run {sink : σ} {state : Downloader σ} (h : Window sink state)
    (replies : List (ℕ × Reply)) (ending : Failure) :
    Window sink (state.run replies ending).1 :=
  h.moves (run_moves state replies ending)

/-- A step changes neither the region nor the pace. -/
theorem move_frame {state state' : Downloader σ} (h : Moves state state') :
    state'.span = state.span ∧ state'.schedule = state.schedule := by
  cases h with
  | issue hroom hmore => exact ⟨(issue_frame state).1, (issue_frame state).2.1⟩
  | handle hdispatch => exact dispatch_frame hdispatch

/-- No steps change the region or the pace. -/
theorem moves_frame {state state' : Downloader σ} (h : ReflTransGen Moves state state') :
    state'.span = state.span ∧ state'.schedule = state.schedule := by
  induction h with
  | refl => exact ⟨rfl, rfl⟩
  | tail _ hmove ih => exact ⟨(move_frame hmove).1.trans ih.1, (move_frame hmove).2.trans ih.2⟩

/-- A download changes neither its region nor its pace. -/
theorem run_frame (state : Downloader σ) (replies : List (ℕ × Reply)) (ending : Failure) :
    (state.run replies ending).1.span = state.span ∧
      (state.run replies ending).1.schedule = state.schedule :=
  moves_frame (run_moves state replies ending)

/-- A download that returns has nothing outstanding and nothing left to ask for, and returns
what it wrote. -/
theorem run_done {state : Downloader σ} (hdepth : 0 < state.schedule.depth)
    {replies : List (ℕ × Reply)} {ending : Failure} {count : ℕ}
    (h : (state.run replies ending).2 = .ok count) :
    (state.run replies ending).1.outstanding = [] ∧
      (state.run replies ending).1.moreToIssue = false ∧
      count = (state.run replies ending).1.written := by
  induction replies generalizing state with
  | nil =>
    cases hfill : state.fillWindow with
    | mk filled refused =>
      cases refused with
      | some failure =>
        rw [run_of_refused hfill] at h
        cases h
      | none =>
        by_cases hnone : filled.outstanding = []
        · rw [run_of_none hfill hnone] at h ⊢
          exact ⟨hnone, fillWindow_done hdepth hfill hnone, (Except.ok.inj h).symm⟩
        · rw [run_of_nil hfill hnone] at h
          cases h
  | cons reply rest ih =>
    cases hfill : state.fillWindow with
    | mk filled refused =>
      cases refused with
      | some failure =>
        rw [run_of_refused hfill] at h
        cases h
      | none =>
        by_cases hnone : filled.outstanding = []
        · rw [run_of_none hfill hnone] at h ⊢
          exact ⟨hnone, fillWindow_done hdepth hfill hnone, (Except.ok.inj h).symm⟩
        · cases hdispatch : filled.dispatch reply.1 reply.2 with
          | error failure =>
            rw [run_of_error hfill hnone hdispatch] at h
            cases h
          | ok state' =>
            rw [run_of_ok hfill hnone hdispatch] at h ⊢
            have hframe := moves_frame ((fillWindow_moves hfill).tail (.handle hdispatch))
            apply ih _ h
            rw [hframe.2]
            exact hdepth

/-! ## Truthful answers -/

/-- Truthful answers write slices of the content. -/
theorem slice_of_truthful {content : Bytes} {answered : List Answered}
    (h : ∀ reply ∈ answered, TruthfulRead content reply) :
    ∀ write ∈ landed answered, Slice content write := by
  intro write hmem
  obtain ⟨⟨issued, reply⟩, hreply, hlanded⟩ := List.mem_filterMap.mp hmem
  cases reply with
  | data payload =>
    obtain rfl := Option.some.inj hlanded
    exact h _ hreply
  | status _ _ => cases hlanded
  | handle _ => cases hlanded
  | attrs _ => cases hlanded
  | name _ => cases hlanded
  | digests _ _ => cases hlanded

/-- A position a write covers lies between the start and the next offset. -/
theorem Window.inside_of_covered {sink : σ} {state : Downloader σ} (h : Window sink state)
    {i : ℕ} (hcovered : Covered (landed state.answered) i) :
    state.span.start ≤ i ∧ i < state.nextOffset := by
  obtain ⟨write, hmem, hcovers⟩ := hcovered
  have hpiece : placedRange write ∈ state.pieces :=
    List.mem_append_left _ (List.mem_map_of_mem hmem)
  exact h.tiles.inside hpiece (Piece.contains_iff.mpr hcovers)

/-- A dropped range is one that was answered with EOF. -/
theorem mem_dropped {answered : List Answered} {range : Range} (h : range ∈ dropped answered) :
    ∃ message, (range, .status .eof message) ∈ answered := by
  obtain ⟨⟨issued, reply⟩, hreply, hdropped⟩ := List.mem_filterMap.mp h
  unfold droppedBy at hdropped
  split at hdropped
  · next message heq =>
    obtain ⟨rfl, rfl⟩ := Prod.mk.inj heq
    obtain rfl := Option.some.inj hdropped
    exact ⟨message, hreply⟩
  · cases hdropped

/-- With truthful answers a dropped range begins at or past the end of the content. -/
theorem dropped_past {content : Bytes} {answered : List Answered}
    (h : ∀ reply ∈ answered, TruthfulRead content reply) {range : Range}
    (hmem : range ∈ dropped answered) : content.length ≤ range.offset := by
  obtain ⟨message, hreply⟩ := mem_dropped hmem
  exact h _ hreply

/-- A download that is done asked for everything the content has, or for its whole region. -/
theorem Window.next_of_done {sink : σ} {state : Downloader σ} (h : Window sink state)
    (hdone : state.moreToIssue = false) {content : Bytes}
    (htruthful : ∀ reply ∈ state.answered, TruthfulRead content reply) :
    content.length ≤ state.nextOffset ∨ ∃ stop ∈ state.span.stop, stop ≤ state.nextOffset := by
  unfold moreToIssue at hdone
  by_cases hended : state.eofAt.isSome
  · left
    obtain ⟨range, hmem⟩ := List.exists_mem_of_ne_nil _ (h.ended hended)
    have hunwritten : range ∈ state.unwritten := List.mem_append_left _ hmem
    have hinside := h.tiles.inside (List.mem_append_right _ hunwritten)
      (Piece.contains_iff.mpr ⟨le_rfl, Nat.lt_add_of_pos_right (h.length_pos range hunwritten)⟩)
    exact (dropped_past htruthful hmem).trans hinside.2.le
  · cases hspan : state.span.stop with
    | none => simp [hended, hspan] at hdone
    | some stop =>
      have hfull : state.backlog = [] ∧ stop ≤ state.nextOffset := by
        simpa [hended, hspan] using hdone
      exact Or.inr ⟨stop, rfl, hfull.2⟩

/-- A download that is done, with truthful answers, wrote exactly what the content has of its
region. -/
theorem Window.covered_iff {sink : σ} {state : Downloader σ} (h : Window sink state)
    (hnone : state.outstanding = []) (hdone : state.moreToIssue = false) {content : Bytes}
    (htruthful : ∀ reply ∈ state.answered, TruthfulRead content reply) (i : ℕ) :
    Covered (landed state.answered) i ↔
      state.span.start ≤ i ∧ i < content.length ∧ ∀ stop ∈ state.span.stop, i < stop := by
  have hbacklog : state.backlog = [] := by
    by_contra hqueued
    simp [moreToIssue, hqueued] at hdone
  constructor
  · intro hcovered
    obtain ⟨hlow, hnext⟩ := h.inside_of_covered hcovered
    refine ⟨hlow, lt_length_of_covered (slice_of_truthful htruthful) hcovered, ?_⟩
    intro stop hstop
    have hinside := h.inside stop hstop
    omega
  · rintro ⟨hlow, hhigh, hbefore⟩
    have hnext : i < state.nextOffset := by
      obtain hnext | ⟨stop, hstop, hnext⟩ := h.next_of_done hdone htruthful
      · exact hhigh.trans_le hnext
      · exact (hbefore stop hstop).trans_le hnext
    obtain ⟨piece, hmem, hcontains⟩ := h.tiles.exists_contains hlow hnext
    rw [pieces, unwritten, hnone, hbacklog, List.map_nil, List.append_nil, List.append_nil] at hmem
    obtain hlanded | hdropped := List.mem_append.mp hmem
    · obtain ⟨write, hwrite, rfl⟩ := List.mem_map.mp hlanded
      exact ⟨write, hwrite, Piece.contains_iff.mp hcontains⟩
    · have hpast := dropped_past htruthful hdropped
      have hlow' := (Piece.contains_iff.mp hcontains).1
      omega

/-- A download that is done with nothing dropped covered its whole region. -/
theorem Window.covered_of_done {sink : σ} {state : Downloader σ} (h : Window sink state)
    (hnone : state.outstanding = []) (hdone : state.moreToIssue = false)
    (hdropped : dropped state.answered = []) {stop : ℕ} (hstop : stop ∈ state.span.stop) {i : ℕ}
    (hlow : state.span.start ≤ i) (hhigh : i < stop) : Covered (landed state.answered) i := by
  have hend : state.eofAt = none := by
    by_contra hended
    exact h.ended (Option.isSome_iff_ne_none.mpr hended) hdropped
  have hspan : state.span.stop = some stop := hstop
  have hfull : state.backlog = [] ∧ stop ≤ state.nextOffset := by
    simpa [moreToIssue, hend, hspan] using hdone
  obtain ⟨piece, hmem, hcontains⟩ := h.tiles.exists_contains hlow (hhigh.trans_le hfull.2)
  rw [pieces, unwritten, hdropped, hnone, hfull.1, List.map_nil, List.append_nil, List.append_nil,
    List.append_nil] at hmem
  obtain ⟨write, hwrite, rfl⟩ := List.mem_map.mp hmem
  exact ⟨write, hwrite, Piece.contains_iff.mp hcontains⟩

end Downloader

section Handle

variable {σ : Type} [Sink σ] (sink : σ) (size : Option ℕ) (schedule : Schedule)
  (startOffset : ℕ) (replies : List (ℕ × Reply)) (ending : Failure)

/-- A download is refused before anything is sent, or runs with a pace that makes progress from
an offset inside the file. -/
theorem downloadHandle_cases :
    (∃ failure, downloadHandle sink size schedule startOffset replies ending =
      (.init ⟨startOffset, size⟩ schedule sink, .error failure)) ∨
    0 < schedule.depth ∧ 0 < schedule.requestLength ∧ (∀ stop ∈ size, startOffset ≤ stop) ∧
      downloadHandle sink size schedule startOffset replies ending =
        (Downloader.init ⟨startOffset, size⟩ schedule sink).run replies ending := by
  unfold downloadHandle
  dsimp only
  split_ifs with hdepth hlength
  · exact Or.inl ⟨_, rfl⟩
  · exact Or.inl ⟨_, rfl⟩
  · cases size with
    | none => exact Or.inr ⟨by omega, by omega, by simp, rfl⟩
    | some size =>
      dsimp only
      split_ifs with hpast
      · exact Or.inl ⟨_, rfl⟩
      · refine Or.inr ⟨by omega, by omega, ?_, rfl⟩
        rintro _ ⟨⟩
        exact not_lt.mp hpast

/-- The sink of a download holds what its replies wrote. -/
theorem downloadHandle_sink :
    (downloadHandle sink size schedule startOffset replies ending).1.sink =
      (landed (downloadHandle sink size schedule startOffset replies ending).1.answered).foldl
        (fun sink write => Sink.writeAt sink write.1 write.2) sink := by
  obtain ⟨failure, heq⟩ | ⟨-, hlength, -, heq⟩ :=
    downloadHandle_cases sink size schedule startOffset replies ending
  · rw [heq]
    rfl
  · rw [heq]
    exact ((Downloader.window_init _ hlength sink).run replies ending).sink_eq

variable {sink size schedule startOffset replies ending}

/-- A download that returns, with truthful answers and the size told truthfully, wrote exactly
the content from its offset on. -/
theorem downloadHandle_covered {count : ℕ} {content : Bytes}
    (hdone : (downloadHandle sink size schedule startOffset replies ending).2 = .ok count)
    (htruthful : ∀ reply ∈ (downloadHandle sink size schedule startOffset replies
      ending).1.answered, TruthfulRead content reply)
    (hsize : ∀ stop ∈ size, stop = content.length) (i : ℕ) :
    Covered (landed (downloadHandle sink size schedule startOffset replies ending).1.answered) i ↔
      startOffset ≤ i ∧ i < content.length := by
  obtain ⟨failure, heq⟩ | ⟨hdepth, hlength, -, heq⟩ :=
    downloadHandle_cases sink size schedule startOffset replies ending
  · rw [heq] at hdone
    cases hdone
  · rw [heq] at hdone htruthful ⊢
    have hwindow := (Downloader.window_init ⟨startOffset, size⟩ hlength sink).run replies ending
    obtain ⟨hnone, hmore, -⟩ := Downloader.run_done hdepth hdone
    obtain ⟨hspan, -⟩ := Downloader.run_frame
      (Downloader.init ⟨startOffset, size⟩ schedule sink) replies ending
    rw [hwindow.covered_iff hnone hmore htruthful i, hspan]
    constructor
    · exact fun ⟨hlow, hhigh, _⟩ => ⟨hlow, hhigh⟩
    · exact fun ⟨hlow, hhigh⟩ => ⟨hlow, hhigh, fun stop hstop => hsize stop hstop ▸ hhigh⟩

end Handle

/-- Writes into a descriptor are writes into its file. -/
theorem foldl_descriptorSink (sink : DescriptorSink) (writes : List Placed) :
    (writes.foldl (fun sink write => Sink.writeAt sink write.1 write.2) sink).content =
      pwriteAll sink.content writes := by
  induction writes generalizing sink with
  | nil => rfl
  | cons write rest ih => exact ih _

end GantrySftp
