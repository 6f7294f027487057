import GantrySftp.Session.DownloadWindow

/-!
# What a server can make a download do

Every READ of a download is outstanding or was answered, and every answer took its range from
those outstanding. So the writes stay inside the ranges asked for and never overlap, and a
download of a region with a known end sends at most one READ for each byte of it and one for a
DATA without any.
-/

namespace GantrySftp

open Library Relation

namespace Downloader

variable {σ : Type}

/-! ## The account of the READs -/

/-- The ranges that were written. -/
def writtenRanges (state : Downloader σ) : List Range := (landed state.answered).map placedRange

/-- The ranges of the READs that are outstanding. -/
def outstandingRanges (state : Downloader σ) : List Range := state.outstanding.map Prod.snd

/-- The ranges that were written, are outstanding, or are queued again. -/
def ranges (state : Downloader σ) : List Range :=
  state.writtenRanges ++ (state.outstandingRanges ++ state.backlog)

/-- The number of READs sent so far. -/
def readsIssued (state : Downloader σ) : ℕ := state.nextId - 1

/-- Whether a write carried no byte. -/
def isEmptyWrite (write : Placed) : Bool := write.2 = []

/-- What the replies handled so far account for. -/
structure Ledger (state : Downloader σ) : Prop where
  nextId_eq : state.nextId = state.answered.length + state.outstanding.length + 1
  window : state.outstanding.length ≤ state.schedule.depth
  answered_length :
    state.answered.length = (landed state.answered).length + (dropped state.answered).length
  empties : (landed state.answered).countP isEmptyWrite ≤ state.seenZeroLength.toNat
  asked : ∀ reply ∈ state.answered, state.span.start ≤ reply.1.offset ∧ 0 < reply.1.length ∧
    reply.1.offset + reply.1.length ≤ state.nextOffset
  within : ∀ issued payload, (issued, Reply.data payload) ∈ state.answered →
    payload.length ≤ issued.length

/-- A download about to begin. -/
theorem ledger_init (span : Span) (schedule : Schedule) (sink : σ) :
    Ledger (init span schedule sink) where
  nextId_eq := rfl
  window := Nat.zero_le _
  answered_length := rfl
  empties := Nat.zero_le _
  asked := by intro reply hmem; cases hmem
  within := by intro issued payload hmem; cases hmem

/-- Sending a READ uses the next id and changes whether an empty DATA was seen no more than it
changes the past. -/
theorem issue_ledger_frame (state : Downloader σ) :
    state.issue.nextId = state.nextId + 1 ∧ state.issue.seenZeroLength = state.seenZeroLength ∧
      state.nextOffset ≤ state.issue.nextOffset := by
  unfold issue nextRange
  cases state.backlog <;> simp

/-- Sending a READ keeps the account. -/
theorem Ledger.issue {state : Downloader σ} (h : Ledger state)
    (hroom : state.outstanding.length < state.schedule.depth) : Ledger state.issue := by
  obtain ⟨hspan, hschedule, -, -, -, hanswered⟩ := issue_frame state
  obtain ⟨hnextId, hseen, hnext⟩ := issue_ledger_frame state
  have hlength := issue_outstanding_length state
  constructor
  · rw [hnextId, hanswered, hlength, h.nextId_eq]
    omega
  · rw [hlength, hschedule]
    exact hroom
  · rw [hanswered]
    exact h.answered_length
  · rw [hanswered, hseen]
    exact h.empties
  · rw [hanswered, hspan]
    intro reply hmem
    obtain ⟨hstart, hpos, hend⟩ := h.asked reply hmem
    exact ⟨hstart, hpos, hend.trans hnext⟩
  · rw [hanswered]
    exact h.within

/-- A written range is part of the range of an answered READ. -/
theorem Ledger.written {state : Downloader σ} (h : Ledger state) {range : Range}
    (hmem : range ∈ state.writtenRanges) : ∃ issued ∈ state.answered.map Prod.fst,
      issued.offset = range.offset ∧ range.length ≤ issued.length := by
  obtain ⟨write, hwrite, rfl⟩ := List.mem_map.mp hmem
  obtain ⟨⟨issued, reply⟩, hreply, hlanded⟩ := List.mem_filterMap.mp hwrite
  refine ⟨issued, List.mem_map_of_mem hreply, ?_⟩
  unfold landedBy at hlanded
  split at hlanded
  · next payload heq =>
    obtain ⟨rfl, rfl⟩ := Prod.mk.inj heq
    obtain rfl := Option.some.inj hlanded
    exact ⟨rfl, h.within _ _ hreply⟩
  · cases hlanded

/-- The ranges written hold a position when some write covers it. -/
theorem written_pos_iff {state : Downloader σ} {i : ℕ} :
    0 < state.writtenRanges.countP (Piece.contains i) ↔ Covered (landed state.answered) i := by
  rw [List.countP_pos_iff]
  constructor
  · rintro ⟨range, hmem, hcontains⟩
    obtain ⟨write, hwrite, rfl⟩ := List.mem_map.mp hmem
    exact ⟨write, hwrite, Piece.contains_iff.mp hcontains⟩
  · rintro ⟨write, hmem, hcovers⟩
    exact ⟨placedRange write, List.mem_map_of_mem hmem, Piece.contains_iff.mpr hcovers⟩

variable [Sink σ] {sink : σ}

/-- Handling a reply adds one to those handled. -/
theorem dispatch_answered_length {state state' : Downloader σ} {requestId : ℕ} {reply : Reply}
    (h : state.dispatch requestId reply = .ok state') :
    state'.answered.length = state.answered.length + 1 := by
  obtain ⟨issued, outstanding, -, ⟨payload, -, -, rfl⟩ | ⟨message, -, rfl⟩⟩ := dispatch_cases h
  · simp
  · simp

/-- The range of an outstanding READ is not empty and lies inside the region asked for so far. -/
theorem Window.outstanding_inside {state : Downloader σ} (h : Window sink state) {requestId : ℕ}
    {range : Range} (hmem : (requestId, range) ∈ state.outstanding) :
    state.span.start ≤ range.offset ∧ 0 < range.length ∧
      range.offset + range.length ≤ state.nextOffset := by
  have hunwritten : range ∈ state.unwritten :=
    List.mem_append_right _ (List.mem_append_left _ (List.mem_map_of_mem hmem))
  have hpos := h.length_pos range hunwritten
  obtain ⟨hstart, hend⟩ := h.tiles.le_of_pos (List.mem_append_right _ hunwritten) hpos
  exact ⟨hstart, hpos, hend⟩

/-- Handling a reply keeps the account. -/
theorem Ledger.dispatch {state state' : Downloader σ} (h : Ledger state)
    (hwindow : Window sink state) {requestId : ℕ} {reply : Reply}
    (hdispatch : state.dispatch requestId reply = .ok state') : Ledger state' := by
  have hsecond : ∀ issued outstanding, popRequest requestId state.outstanding =
      some (issued, outstanding) → reply = .data [] → state.seenZeroLength = false := by
    intro issued outstanding hpop hempty
    by_contra hseen
    have hseen : state.seenZeroLength = true := by simpa using hseen
    simp [Downloader.dispatch, hpop, hempty, handleData, hseen] at hdispatch
  obtain ⟨issued, outstanding, hpop, hcases⟩ := dispatch_cases hdispatch
  have hperm := popRequest_perm hpop
  have hlength : state.outstanding.length = outstanding.length + 1 := by
    simpa using hperm.length_eq
  have hissued := hwindow.outstanding_inside (hperm.mem_iff.mpr List.mem_cons_self)
  have hasked : ∀ answer ∈ state.answered ++ [(issued, reply)],
      state.span.start ≤ answer.1.offset ∧ 0 < answer.1.length ∧
        answer.1.offset + answer.1.length ≤ state.nextOffset := by
    intro answer hmem
    obtain hold | hnew := List.mem_append.mp hmem
    · exact h.asked answer hold
    · obtain rfl := List.mem_singleton.mp hnew
      exact hissued
  have hnextId := h.nextId_eq
  have hroom := h.window
  have hcount := h.answered_length
  obtain ⟨payload, rfl, hfits, rfl⟩ | ⟨message, rfl, rfl⟩ := hcases
  · constructor
    · simp only [List.length_append, List.length_singleton]
      omega
    · simp only
      omega
    · have hdropped : dropped (state.answered ++ [(issued, .data payload)]) =
          dropped state.answered := by simp [dropped, droppedBy]
      simp only [landed_append_data, hdropped, List.length_append, List.length_singleton]
      omega
    · have hold := h.empties
      simp only [landed_append_data, List.countP_append, List.countP_singleton, isEmptyWrite,
        decide_eq_true_eq]
      split_ifs with hempty
      · have hseen := hsecond _ _ hpop (congrArg Reply.data hempty)
        rw [hseen] at hold
        simpa [hseen, hempty] using hold
      · simpa [hempty] using hold
    · exact hasked
    · intro range bytes hmem
      obtain hold | hnew := List.mem_append.mp hmem
      · exact h.within range bytes hold
      · obtain ⟨rfl, hreply⟩ := Prod.mk.inj (List.mem_singleton.mp hnew)
        obtain rfl := Reply.data.inj hreply
        exact hfits
  · constructor
    · simp only [List.length_append, List.length_singleton]
      omega
    · simp only
      omega
    · have hdropped : dropped (state.answered ++ [(issued, .status .eof message)]) =
          dropped state.answered ++ [issued] := by simp [dropped, droppedBy]
      simp only [landed_append_status, hdropped, List.length_append, List.length_singleton]
      omega
    · rw [landed_append_status]
      exact h.empties
    · exact hasked
    · intro range bytes hmem
      obtain hold | hnew := List.mem_append.mp hmem
      · exact h.within range bytes hold
      · cases (Prod.mk.inj (List.mem_singleton.mp hnew)).2

/-- A step keeps the account. -/
theorem Ledger.move {state state' : Downloader σ} (h : Ledger state) (hwindow : Window sink state)
    (hmove : Moves state state') : Ledger state' := by
  cases hmove with
  | issue hroom hmore => exact h.issue hroom
  | handle hdispatch => exact h.dispatch hwindow hdispatch

/-- Any steps keep the account. -/
theorem Ledger.moves {state state' : Downloader σ} (h : Ledger state) (hwindow : Window sink state)
    (hmoves : ReflTransGen Moves state state') : Ledger state' := by
  induction hmoves with
  | refl => exact h
  | tail hbefore hmove ih => exact ih.move (hwindow.moves hbefore) hmove

/-! ## What the account bounds -/

/-- What no server can make a download break. The writes are all there are, each within the range
of the READ it answers; the ranges written, outstanding and queued again share no position and
lie between the start and the next offset; and where the end is known, they lie before it and
their READs are no more than its bytes and one. -/
structure Contained (sink : σ) (state : Downloader σ) : Prop where
  sink_eq : state.sink = (landed state.answered).foldl
    (fun sink write => Sink.writeAt sink write.1 write.2) sink
  within : ∀ issued payload, (issued, Reply.data payload) ∈ state.answered →
    payload.length ≤ issued.length
  disjoint : state.ranges.Pairwise fun left right =>
    ∀ i, ¬ (left.contains i = true ∧ right.contains i = true)
  inside : ∀ range ∈ state.ranges ++ state.answered.map Prod.fst,
    state.span.start ≤ range.offset ∧ range.offset + range.length ≤ state.nextOffset
  once : ∀ i, state.writtenRanges.countP (Piece.contains i) ≤ 1
  window : state.outstanding.length ≤ state.schedule.depth
  nextId_eq : state.readsIssued = state.answered.length + state.outstanding.length
  beforeStop : ∀ stop ∈ state.span.stop, ∀ range ∈ state.ranges ++ state.answered.map Prod.fst,
    range.offset + range.length ≤ stop
  reads : ∀ stop ∈ state.span.stop, state.readsIssued ≤ (stop - state.span.start) + 1

/-- Every range lies between the start and the next offset, and is part of one that is not
empty and does too. -/
theorem Ledger.enclosed {state : Downloader σ} (h : Ledger state) (hwindow : Window sink state)
    {range : Range} (hmem : range ∈ state.ranges ++ state.answered.map Prod.fst) :
    ∃ whole : Range, whole.offset = range.offset ∧ range.length ≤ whole.length ∧
      0 < whole.length ∧ state.span.start ≤ whole.offset ∧
      whole.offset + whole.length ≤ state.nextOffset := by
  have hasked : ∀ issued ∈ state.answered.map Prod.fst, state.span.start ≤ issued.offset ∧
      0 < issued.length ∧ issued.offset + issued.length ≤ state.nextOffset := by
    intro issued hissued
    obtain ⟨reply, hreply, rfl⟩ := List.mem_map.mp hissued
    exact h.asked reply hreply
  simp only [ranges, outstandingRanges, List.append_assoc, List.mem_append] at hmem
  obtain hwritten | hout | hqueued | hanswered := hmem
  · obtain ⟨issued, hissued, hoffset, hlength⟩ := h.written hwritten
    obtain ⟨hstart, hpos, hend⟩ := hasked issued hissued
    exact ⟨issued, hoffset, hlength, hpos, hstart, hend⟩
  · obtain ⟨⟨requestId, found⟩, hentry, rfl⟩ := List.mem_map.mp hout
    obtain ⟨hstart, hpos, hend⟩ := hwindow.outstanding_inside hentry
    exact ⟨found, rfl, le_rfl, hpos, hstart, hend⟩
  · have hunwritten : range ∈ state.unwritten :=
      List.mem_append_right _ (List.mem_append_right _ hqueued)
    have hpos := hwindow.length_pos range hunwritten
    obtain ⟨hstart, hend⟩ := hwindow.tiles.le_of_pos (List.mem_append_right _ hunwritten) hpos
    exact ⟨range, rfl, le_rfl, hpos, hstart, hend⟩
  · obtain ⟨hstart, hpos, hend⟩ := hasked range hanswered
    exact ⟨range, rfl, le_rfl, hpos, hstart, hend⟩

/-- Writes are no more than their bytes and the writes without any. -/
theorem length_le_of_writes (writes : List Placed) :
    writes.length ≤ ((writes.map placedRange).map Piece.length).sum +
      writes.countP isEmptyWrite := by
  induction writes with
  | nil => simp
  | cons write writes ih =>
    obtain ⟨offset, payload⟩ := write
    cases payload with
    | nil => simp [placedRange, isEmptyWrite] at ih ⊢; omega
    | cons byte payload => simp [placedRange, isEmptyWrite] at ih ⊢; omega

/-- The ranges that were not written are no more than their bytes. -/
theorem Window.length_le_sum {state : Downloader σ} (h : Window sink state) :
    state.unwritten.length ≤ (state.unwritten.map Piece.length).sum := by
  have hpos : ∀ length ∈ state.unwritten.map Piece.length, 1 ≤ length := by
    intro length hmem
    obtain ⟨range, hrange, rfl⟩ := List.mem_map.mp hmem
    exact h.length_pos range hrange
  simpa using List.length_le_sum_of_one_le _ hpos

/-- The READs sent are no more than the bytes asked for and one. -/
theorem Ledger.readsIssued_le {state : Downloader σ} (h : Ledger state)
    (hwindow : Window sink state) :
    state.readsIssued ≤ (state.nextOffset - state.span.start) + 1 := by
  have hsum := hwindow.tiles.sum_length
  have hwrites := length_le_of_writes (landed state.answered)
  have hunwritten := hwindow.length_le_sum
  have hempties := h.empties
  have hseen : state.seenZeroLength.toNat ≤ 1 := Bool.toNat_le _
  have hanswered := h.answered_length
  have hnextId := h.nextId_eq
  simp only [pieces, List.map_append, List.sum_append] at hsum
  simp only [unwritten, List.length_append, List.length_map] at hunwritten hsum
  unfold readsIssued
  omega

/-- No position is written twice. -/
theorem Window.once {state : Downloader σ} (h : Window sink state) (i : ℕ) :
    state.writtenRanges.countP (Piece.contains i) ≤ if state.span.start ≤ i ∧ i < state.nextOffset
      then 1 else 0 := by
  have hwritten : state.writtenRanges.Sublist state.pieces := List.sublist_append_left _ _
  rw [← h.tiles i]
  exact hwritten.countP_le

/-- The bytes written are those of the ranges written. -/
theorem Window.written_eq_sum {state : Downloader σ} (h : Window sink state) :
    state.written = (state.writtenRanges.map Piece.length).sum := by
  rw [h.written_eq, writtenRanges, List.map_map]
  rfl

/-- What the account bounds. -/
theorem Ledger.contained {state : Downloader σ} (h : Ledger state) (hwindow : Window sink state) :
    Contained sink state := by
  have hsublist : state.ranges.Sublist state.pieces := by
    unfold ranges pieces unwritten
    exact (List.sublist_append_right _ _).append_left _
  constructor
  · exact hwindow.sink_eq
  · exact h.within
  · exact hwindow.tiles.pairwise.sublist hsublist
  · intro range hmem
    obtain ⟨whole, hoffset, hlength, -, hstart, hend⟩ := h.enclosed hwindow hmem
    omega
  · intro i
    apply (hwindow.once i).trans
    split_ifs <;> omega
  · exact h.window
  · have hnextId := h.nextId_eq
    unfold readsIssued
    omega
  · intro stop hstop range hmem
    obtain ⟨whole, hoffset, hlength, hpos, hstart, hend⟩ := h.enclosed hwindow hmem
    have hinside := hwindow.inside stop hstop
    omega
  · intro stop hstop
    have hinside := hwindow.inside stop hstop
    have hreads := h.readsIssued_le hwindow
    omega

/-! ## Whole runs -/

/-- Every state of a download keeps within its bounds. -/
theorem contained_of_moves {span : Span} {schedule : Schedule} (h : 0 < schedule.requestLength)
    {state : Downloader σ} (hmoves : ReflTransGen Moves (init span schedule sink) state) :
    Contained sink state :=
  ((ledger_init span schedule sink).moves (window_init span h sink) hmoves).contained
    ((window_init span h sink).moves hmoves)

/-- Once as many replies were handled as READs can be sent, nothing is outstanding after filling
the window. -/
theorem outstanding_eq_nil {state filled : Downloader σ} {refused : Option Failure}
    (hledger : Ledger state) (hwindow : Window sink state)
    (hfill : state.fillWindow = (filled, refused)) {stop : ℕ} (hstop : stop ∈ state.span.stop)
    (henough : stop - state.span.start + 1 ≤ state.answered.length) : filled.outstanding = [] := by
  have hmoves := fillWindow_moves hfill
  have hspan := (moves_frame hmoves).1
  have hanswered := fillWindow_answered hfill
  have hfilled := (hledger.moves hwindow hmoves).contained (hwindow.moves hmoves)
  have hreads := hfilled.reads stop (hspan ▸ hstop)
  rw [hfilled.nextId_eq, hanswered, hspan] at hreads
  apply List.eq_nil_of_length_eq_zero
  omega

/-- A run with as many replies as READs can be sent does not depend on what comes after them. -/
theorem run_append {state : Downloader σ} (hledger : Ledger state) (hwindow : Window sink state)
    {stop : ℕ} (hstop : stop ∈ state.span.stop) {replies : List (ℕ × Reply)}
    (henough : stop - state.span.start + 1 ≤ state.answered.length + replies.length)
    (later : List (ℕ × Reply)) (ending ending' : Failure) :
    state.run (replies ++ later) ending' = state.run replies ending := by
  induction replies generalizing state with
  | nil =>
    cases hfill : state.fillWindow with
    | mk filled refused =>
      have hnone := outstanding_eq_nil hledger hwindow hfill hstop henough
      cases refused with
      | some failure => rw [run_of_refused hfill, run_of_refused hfill]
      | none => rw [run_of_none hfill hnone, run_of_none hfill hnone]
  | cons reply rest ih =>
    cases hfill : state.fillWindow with
    | mk filled refused =>
      cases refused with
      | some failure => rw [run_of_refused hfill, run_of_refused hfill]
      | none =>
        by_cases hnone : filled.outstanding = []
        · rw [run_of_none hfill hnone, run_of_none hfill hnone]
        · cases hdispatch : filled.dispatch reply.1 reply.2 with
          | error failure =>
            rw [List.cons_append, run_of_error hfill hnone hdispatch,
              run_of_error hfill hnone hdispatch]
          | ok state' =>
            have hmoves := (fillWindow_moves hfill).tail (.handle hdispatch)
            have hspan := (moves_frame hmoves).1
            have hanswered := fillWindow_answered hfill
            have hlength := dispatch_answered_length hdispatch
            rw [List.cons_append, run_of_ok hfill hnone hdispatch, run_of_ok hfill hnone hdispatch]
            apply ih (hledger.moves hwindow hmoves) (hwindow.moves hmoves) (hspan ▸ hstop)
            rw [hspan, hlength, hanswered]
            rw [List.length_cons] at henough
            omega

/-- Whatever the server answers, a download stays within its bounds at every point, and one whose
end is known is over after one reply for each byte of its region and one. -/
theorem contained_run (span : Span) (schedule : Schedule) (sink : σ)
    (h : 0 < schedule.requestLength) :
    (∀ state, ReflTransGen Moves (init span schedule sink) state → Contained sink state) ∧
      ∀ replies ending,
        ReflTransGen Moves (init span schedule sink)
          ((init span schedule sink).run replies ending).1 ∧
        ∀ stop ∈ span.stop, stop - span.start + 1 ≤ replies.length → ∀ later ending',
          (init span schedule sink).run (replies ++ later) ending' =
            (init span schedule sink).run replies ending := by
  refine ⟨fun state hmoves => contained_of_moves h hmoves, fun replies ending => ⟨?_, ?_⟩⟩
  · exact run_moves _ _ _
  · intro stop hstop henough later ending'
    have hreplies : stop - (init span schedule sink).span.start + 1 ≤
        (init span schedule sink).answered.length + replies.length :=
      henough.trans (Nat.le_add_left _ _)
    exact run_append (ledger_init span schedule sink) (window_init span h sink) hstop hreplies
      later ending ending'

/-- A download of four bytes with an EOF for the second READ and a short DATA for the first. -/
theorem contained_run_pair :
    Contained (DescriptorSink.mk [])
      ((init ⟨0, some 4⟩ ⟨2, 2⟩ (DescriptorSink.mk [])).run
        [(2, .status .eof []), (1, .data [7])] .connectionLost).1 :=
  (contained_run ⟨0, some 4⟩ ⟨2, 2⟩ (DescriptorSink.mk []) (by decide)).1 _
    ((contained_run ⟨0, some 4⟩ ⟨2, 2⟩ (DescriptorSink.mk []) (by decide)).2
      [(2, .status .eof []), (1, .data [7])] .connectionLost).1

end Downloader

end GantrySftp
