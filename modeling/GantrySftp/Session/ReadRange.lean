import GantrySftp.Session.DownloadBounds

/-!
# Reading a range into a buffer

A range read counts the bytes it wrote anywhere in the buffer. An EOF drops the range of its own
READ and leaves the ranges further on alone, so the count is that of a filled front exactly when
no READ was answered with EOF below a byte that arrived.
-/

namespace GantrySftp

open Library Relation

/-! ## Writing into a buffer -/

namespace BufferSink

/-- A slice inside the buffer is assigned as it would be written into a file. -/
theorem writeAt_of_holds {sink : BufferSink} {offset : ℕ} {payload : Bytes}
    (h : sink.Holds offset payload) :
    Sink.writeAt sink offset payload =
      ⟨sink.base, pwrite sink.view (offset - sink.base) payload⟩ := by
  obtain ⟨hlow, hhigh⟩ := h
  change (if sink.Holds offset payload then _ else sink) = _
  rw [if_pos ⟨hlow, hhigh⟩]
  unfold pwrite
  split_ifs with hempty
  · subst hempty
    simp
  · have hgap : offset - sink.base - sink.view.length = 0 := by omega
    simp [hgap]

/-- A slice inside the buffer does not change its length. -/
theorem length_pwrite_of_holds {sink : BufferSink} {offset : ℕ} {payload : Bytes}
    (h : sink.Holds offset payload) :
    (pwrite sink.view (offset - sink.base) payload).length = sink.view.length := by
  obtain ⟨hlow, hhigh⟩ := h
  rw [length_pwrite]
  split_ifs <;> omega

/-- The place of a write in the buffer. -/
def placeIn (base : ℕ) (write : Placed) : Placed := (write.1 - base, write.2)

/-- Slices inside the buffer are assigned as they would be written into a file. -/
theorem foldl_writeAt {sink : BufferSink} {writes : List Placed}
    (h : ∀ write ∈ writes, sink.Holds write.1 write.2) :
    writes.foldl (fun sink write => Sink.writeAt sink write.1 write.2) sink =
        ⟨sink.base, pwriteAll sink.view (writes.map (placeIn sink.base))⟩ ∧
      (pwriteAll sink.view (writes.map (placeIn sink.base))).length = sink.view.length := by
  induction writes generalizing sink with
  | nil => exact ⟨rfl, rfl⟩
  | cons write rest ih =>
    have hwrite := h write List.mem_cons_self
    have hlength := length_pwrite_of_holds hwrite
    have hrest : ∀ other ∈ rest, Holds
        ⟨sink.base, pwrite sink.view (write.1 - sink.base) write.2⟩ other.1 other.2 := by
      intro other hmem
      obtain ⟨hlow, hhigh⟩ := h other (List.mem_cons_of_mem _ hmem)
      exact ⟨hlow, by simpa only [hlength] using hhigh⟩
    obtain ⟨hfold, hsame⟩ := ih hrest
    rw [List.foldl_cons, writeAt_of_holds hwrite]
    exact ⟨hfold, hsame.trans hlength⟩

/-- The places of writes past the base cover a position of the buffer when the writes cover its
position in the file. -/
theorem covered_placeIn {base : ℕ} {writes : List Placed}
    (h : ∀ write ∈ writes, base ≤ write.1) (i : ℕ) :
    Covered (writes.map (placeIn base)) i ↔ Covered writes (base + i) := by
  constructor
  · rintro ⟨_, hmem, hlow, hhigh⟩
    obtain ⟨write, hwrite, rfl⟩ := List.mem_map.mp hmem
    have hbase := h write hwrite
    simp only [placeIn] at hlow hhigh
    exact ⟨write, hwrite, by omega, by omega⟩
  · rintro ⟨write, hwrite, hlow, hhigh⟩
    have hbase := h write hwrite
    refine ⟨placeIn base write, List.mem_map_of_mem hwrite, ?_, ?_⟩ <;>
      (simp only [placeIn]; omega)

end BufferSink

/-! ## The run behind a range read -/

section Range

variable {view : Bytes} {offset : ℕ} {schedule : Schedule} {replies : List (ℕ × Reply)}
  {ending : Failure}

/-- The region of a range read. -/
def rangeSpan (view : Bytes) (offset : ℕ) : Span := ⟨offset, some (offset + view.length)⟩

/-- A range read that returns asked for nothing because the buffer is empty, or is a download into
it with a pace that makes progress. -/
theorem readRangeInto_ok {count : ℕ}
    (h : (readRangeInto view offset schedule replies ending).2 = .ok count) :
    0 < schedule.depth ∧ 0 < schedule.requestLength ∧
      (view = [] ∧ count = 0 ∧ (readRangeInto view offset schedule replies ending).1 =
        .init (rangeSpan view offset) schedule (BufferSink.mk offset view) ∨
      readRangeInto view offset schedule replies ending =
        (Downloader.init (rangeSpan view offset) schedule (BufferSink.mk offset view)).run
          replies ending) := by
  unfold readRangeInto at h ⊢
  dsimp only at h ⊢
  split_ifs at h ⊢ with hdepth hlength hempty
  · exact ⟨by omega, by omega, Or.inl ⟨hempty, (Except.ok.inj h).symm, rfl⟩⟩
  · exact ⟨by omega, by omega, Or.inr rfl⟩

/-- What holds when a range read returns. -/
theorem readRangeInto_done {count : ℕ}
    (h : (readRangeInto view offset schedule replies ending).2 = .ok count) :
    let done := (readRangeInto view offset schedule replies ending).1
    done.span = rangeSpan view offset ∧ done.Window (BufferSink.mk offset view) ∧ done.Ledger ∧
      done.unwritten = dropped done.answered ∧ count = done.written := by
  obtain ⟨hdepth, hlength, ⟨hview, rfl, heq⟩ | heq⟩ := readRangeInto_ok h
  · rw [heq]
    exact ⟨rfl, Downloader.window_init _ hlength _, Downloader.ledger_init _ _ _, rfl, rfl⟩
  · rw [heq] at h ⊢
    have hmoves := Downloader.run_moves
      (.init (rangeSpan view offset) schedule (BufferSink.mk offset view)) replies ending
    have hinit := Downloader.window_init (rangeSpan view offset) hlength (BufferSink.mk offset view)
    obtain ⟨hnone, hmore, hcount⟩ := Downloader.run_done hdepth h
    have hbacklog : ((Downloader.init (rangeSpan view offset) schedule
        (BufferSink.mk offset view)).run replies ending).1.backlog = [] := by
      by_contra hqueued
      simp [Downloader.moreToIssue, hqueued] at hmore
    refine ⟨(Downloader.moves_frame hmoves).1, hinit.moves hmoves,
      (Downloader.ledger_init _ _ _).moves hinit hmoves, ?_, hcount⟩
    simp [Downloader.unwritten, hnone, hbacklog]

end Range

/-! ## What was received -/

/-- A byte was received for a position of the file: a DATA carried it there, for a READ of a range
that holds the position. -/
def ReceivedAt (answered : List Answered) (position : ℕ) (byte : UInt8) : Prop :=
  ∃ issued payload, (issued, Reply.data payload) ∈ answered ∧
    Piece.contains position issued = true ∧ Covers (issued.offset, payload) position ∧
    payload.getD (position - issued.offset) 0 = byte

/-- What a range read that returns a count reports: the bytes up to the count were received for
their own positions, and no byte past it changed. -/
structure Reported (view : Bytes) (offset : ℕ) (done : Downloader BufferSink) (count : ℕ) :
    Prop where
  length_eq : done.sink.view.length = view.length
  received : ∀ i < count, ReceivedAt done.answered (offset + i) (done.sink.view.getD i 0)
  unchanged : ∀ i, count ≤ i → done.sink.view.getD i 0 = view.getD i 0

/-- No READ was answered with EOF at an offset below the end of a byte that arrived. -/
def EndsConsistently (answered : List Answered) : Prop :=
  ∀ range ∈ dropped answered, ∀ write ∈ landed answered, write.2 ≠ [] →
    write.1 + write.2.length ≤ range.offset

/-- A write is the payload of a DATA. -/
theorem mem_landed {answered : List Answered} {write : Placed} (h : write ∈ landed answered) :
    ∃ issued : Range, issued.offset = write.1 ∧ (issued, Reply.data write.2) ∈ answered := by
  obtain ⟨⟨issued, reply⟩, hreply, hlanded⟩ := List.mem_filterMap.mp h
  unfold landedBy at hlanded
  split at hlanded
  · next payload heq =>
    obtain ⟨rfl, rfl⟩ := Prod.mk.inj heq
    obtain rfl := Option.some.inj hlanded
    exact ⟨issued, rfl, hreply⟩
  · cases hlanded

/-- A position that a byte was received for is covered by a write. -/
theorem ReceivedAt.covered {answered : List Answered} {position : ℕ} {byte : UInt8}
    (h : ReceivedAt answered position byte) : Covered (landed answered) position := by
  obtain ⟨issued, payload, hmem, -, hcovers, -⟩ := h
  exact ⟨(issued.offset, payload), List.mem_filterMap.mpr ⟨_, hmem, rfl⟩, hcovers⟩

namespace Downloader

section Buffer

variable {view : Bytes} {offset : ℕ} {done : Downloader BufferSink}
  (hspan : done.span = rangeSpan view offset) (hwindow : done.Window (BufferSink.mk offset view))
  (hledger : done.Ledger)

include hspan hwindow hledger

/-- Every write of a range read lies inside the buffer. -/
theorem holds_of_landed {write : Placed} (h : write ∈ landed done.answered) :
    (BufferSink.mk offset view).Holds write.1 write.2 := by
  have hmem : placedRange write ∈ done.ranges ++ done.answered.map Prod.fst :=
    List.mem_append_left _ (List.mem_append_left _ (List.mem_map_of_mem h))
  have hcontained := hledger.contained hwindow
  have hlow := (hcontained.inside _ hmem).1
  have hhigh := hcontained.beforeStop (offset + view.length) (by rw [hspan]; rfl) _ hmem
  rw [hspan] at hlow
  exact ⟨hlow, hhigh⟩

/-- A byte of the buffer was received where a write covers its position. -/
theorem received_of_covered {i : ℕ} (h : Covered (landed done.answered) (offset + i)) :
    ReceivedAt done.answered (offset + i) (done.sink.view.getD i 0) := by
  have hholds : ∀ write ∈ landed done.answered,
      (BufferSink.mk offset view).Holds write.1 write.2 :=
    fun _ hmem => holds_of_landed hspan hwindow hledger hmem
  have hbase : ∀ write ∈ landed done.answered, offset ≤ write.1 := fun write hmem =>
    (hholds write hmem).1
  rw [hwindow.sink_eq, (BufferSink.foldl_writeAt hholds).1]
  obtain ⟨_, hmem, hcovers, hbyte⟩ := getD_pwriteAll_of_covered
    ((BufferSink.covered_placeIn hbase i).mpr h) view
  obtain ⟨write, hwrite, rfl⟩ := List.mem_map.mp hmem
  obtain ⟨issued, hoffset, hreply⟩ := mem_landed hwrite
  have hbelow := hbase write hwrite
  have hfits := hledger.within _ _ hreply
  obtain ⟨hlow, hhigh⟩ := hcovers
  simp only [BufferSink.placeIn] at hlow hhigh hbyte
  refine ⟨issued, write.2, hreply, Piece.contains_iff.mpr ⟨by omega, by omega⟩,
    ⟨by simp only; omega, by simp only; omega⟩, ?_⟩
  rw [hbyte, hoffset]
  congr 1
  omega

/-- A byte of the buffer is as it was where no write covers its position. -/
theorem unchanged_of_not_covered {i : ℕ} (h : ¬ Covered (landed done.answered) (offset + i)) :
    done.sink.view.getD i 0 = view.getD i 0 := by
  have hholds : ∀ write ∈ landed done.answered,
      (BufferSink.mk offset view).Holds write.1 write.2 :=
    fun _ hmem => holds_of_landed hspan hwindow hledger hmem
  have hbase : ∀ write ∈ landed done.answered, offset ≤ write.1 := fun write hmem =>
    (hholds write hmem).1
  rw [hwindow.sink_eq, (BufferSink.foldl_writeAt hholds).1]
  exact getD_pwriteAll_of_not_covered (mt (BufferSink.covered_placeIn hbase i).mp h) view

/-- The buffer keeps its length. -/
theorem length_view : done.sink.view.length = view.length := by
  have hholds : ∀ write ∈ landed done.answered,
      (BufferSink.mk offset view).Holds write.1 write.2 :=
    fun _ hmem => holds_of_landed hspan hwindow hledger hmem
  rw [hwindow.sink_eq, (BufferSink.foldl_writeAt hholds).1]
  exact (BufferSink.foldl_writeAt hholds).2

end Buffer

section Front

variable {σ : Type} [Sink σ] {sink : σ} {state : Downloader σ}

/-- The start of a dropped range is not written. -/
theorem Window.not_covered_of_dropped (h : Window sink state) {range : Range}
    (hmem : range ∈ dropped state.answered) : ¬ Covered (landed state.answered) range.offset := by
  intro hcovered
  have hunwritten : range ∈ state.unwritten := List.mem_append_left _ hmem
  have hcontains : range.contains range.offset = true :=
    Piece.contains_iff.mpr ⟨le_rfl, Nat.lt_add_of_pos_right (h.length_pos range hunwritten)⟩
  have hwritten := written_pos_iff.mpr hcovered
  have hdropped : 0 < state.unwritten.countP (Piece.contains range.offset) :=
    List.countP_pos_iff.mpr ⟨range, hunwritten, hcontains⟩
  have hcount := h.tiles range.offset
  rw [pieces, List.countP_append] at hcount
  change state.writtenRanges.countP _ + _ = _ at hcount
  split_ifs at hcount <;> omega

/-- When the writes fill a front as long as they are, they cover nothing else. -/
theorem Window.not_covered_past (h : Window sink state)
    (hfront : ∀ i < state.written, Covered (landed state.answered) (state.span.start + i)) {i : ℕ}
    (hpast : state.written ≤ i) : ¬ Covered (landed state.answered) (state.span.start + i) := by
  intro hcovered
  have hall : ∀ position ∈ insert (state.span.start + i)
      (Finset.Ico state.span.start (state.span.start + state.written)),
      0 < state.writtenRanges.countP (Piece.contains position) := by
    intro position hmem
    apply written_pos_iff.mpr
    obtain rfl | hin := Finset.mem_insert.mp hmem
    · exact hcovered
    · obtain ⟨hlow, hhigh⟩ := Finset.mem_Ico.mp hin
      have := hfront (position - state.span.start) (by omega)
      rwa [Nat.add_sub_cancel' hlow] at this
  have hcard := card_le_sum_length _ hall
  rw [Finset.card_insert_of_notMem (by simp; omega), Nat.card_Ico, ← h.written_eq_sum] at hcard
  omega

/-- The writes of a download that is done fill a front as long as they are exactly when no READ
was answered with EOF below a byte that arrived. -/
theorem Window.front_iff (h : Window sink state)
    (hdone : state.unwritten = dropped state.answered) :
    (∀ i < state.written, Covered (landed state.answered) (state.span.start + i)) ↔
      EndsConsistently state.answered := by
  constructor
  · intro hfront range hrange write hwrite hbytes
    by_contra hbelow
    have hlength : 0 < write.2.length := List.length_pos_iff.mpr hbytes
    have hlast : Covered (landed state.answered) (write.1 + write.2.length - 1) :=
      ⟨write, hwrite, by omega, by omega⟩
    have hstart : state.span.start ≤ range.offset :=
      (h.tiles.le_of_pos (List.mem_append_right _ (List.mem_append_left _ hrange))
        (h.length_pos range (List.mem_append_left _ hrange))).1
    -- The dropped range begins past the front, and so the write does not end inside it.
    have hpast : state.span.start + state.written ≤ range.offset := by
      by_contra hinside
      apply h.not_covered_of_dropped hrange
      have := hfront (range.offset - state.span.start) (by omega)
      rwa [Nat.add_sub_cancel' hstart] at this
    apply h.not_covered_past hfront (i := write.1 + write.2.length - 1 - state.span.start)
      (by omega)
    rwa [Nat.add_sub_cancel' (by omega)]
  · intro hends i hi
    by_contra hhole
    -- Every write ends before the hole, so together they are shorter than the front.
    have hbefore : ∀ write ∈ landed state.answered, write.2 ≠ [] →
        write.1 + write.2.length ≤ state.span.start + i := by
      intro write hwrite hbytes
      by_contra hpast
      have hlength : 0 < write.2.length := List.length_pos_iff.mpr hbytes
      have hinside := h.tiles.le_of_pos
        (List.mem_append_left _ (List.mem_map_of_mem hwrite)) hlength
      simp only [placedRange] at hinside
      obtain ⟨piece, hmem, hcontains⟩ := h.tiles.exists_contains
        (Nat.le_add_right state.span.start i) (by omega)
      rw [pieces, hdone] at hmem
      obtain hlanded | hdropped := List.mem_append.mp hmem
      · obtain ⟨other, hother, rfl⟩ := List.mem_map.mp hlanded
        exact hhole ⟨other, hother, Piece.contains_iff.mp hcontains⟩
      · have hlate := hends piece hdropped write hwrite hbytes
        have hlow := (Piece.contains_iff.mp hcontains).1
        omega
    have hsum : (state.writtenRanges.map Piece.length).sum ≤
        (Finset.Ico state.span.start (state.span.start + i)).card := by
      apply sum_length_le
      intro position
      have honce := h.once position
      obtain hzero | hpos := Nat.eq_zero_or_pos
        (state.writtenRanges.countP (Piece.contains position))
      · omega
      · obtain ⟨write, hwrite, hlow, hhigh⟩ := written_pos_iff.mp hpos
        have hbytes : write.2 ≠ [] := by
          intro hnil
          rw [hnil, List.length_nil] at hhigh
          omega
        have hend := hbefore write hwrite hbytes
        have hstart := (h.inside_of_covered (written_pos_iff.mp hpos)).1
        rw [if_pos (Finset.mem_Ico.mpr ⟨hstart, by omega⟩)]
        split_ifs at honce <;> omega
    rw [← h.written_eq_sum, Nat.card_Ico] at hsum
    omega

end Front

/-! ## What a range read reports -/

/-- A download into a buffer that is done reports what was received exactly when the EOFs it was
answered with are consistent with the bytes that arrived. -/
theorem reported_iff {view : Bytes} {offset : ℕ} {done : Downloader BufferSink}
    (hspan : done.span = rangeSpan view offset) (hwindow : done.Window (BufferSink.mk offset view))
    (hledger : done.Ledger) (hdone : done.unwritten = dropped done.answered) :
    Reported view offset done done.written ↔ EndsConsistently done.answered := by
  have hfront := hwindow.front_iff hdone
  have hpast := hwindow.not_covered_past
  rw [hspan] at hfront hpast
  rw [← hfront]
  constructor
  · intro hreported i hi
    exact (hreported.received i hi).covered
  · intro hcovered
    constructor
    · exact length_view hspan hwindow hledger
    · exact fun i hi => received_of_covered hspan hwindow hledger (hcovered i hi)
    · exact fun i hi => unchanged_of_not_covered hspan hwindow hledger (hpast hcovered hi)

/-- No more is written than the buffer holds. -/
theorem Window.written_le_stop {σ : Type} [Sink σ] {sink : σ} {state : Downloader σ}
    (h : Window sink state) {stop : ℕ} (hstop : stop ∈ state.span.stop) :
    state.written ≤ stop - state.span.start := by
  have hsum := h.tiles.sum_length
  have hinside := h.inside stop hstop
  rw [pieces, List.map_append, List.sum_append] at hsum
  change (state.writtenRanges.map Piece.length).sum + _ = _ at hsum
  rw [← h.written_eq_sum] at hsum
  omega

end Downloader

/-- A range read that returns reports only what was received, and `readAt` returns only what was
received, exactly when no READ was answered with EOF below a byte that arrived. -/
theorem readRangeInto_reported_iff {view : Bytes} {offset : ℕ} {schedule : Schedule}
    {replies : List (ℕ × Reply)} {ending : Failure} {count : ℕ}
    (h : (readRangeInto view offset schedule replies ending).2 = .ok count) :
    let done := (readRangeInto view offset schedule replies ending).1
    (Reported view offset done count ↔ EndsConsistently done.answered) ∧
      ∀ length, view = List.replicate length 0 →
        ∃ bytes, readAt offset length schedule replies ending = .ok bytes ∧ bytes.length = count ∧
          ((∀ i < bytes.length, ReceivedAt done.answered (offset + i) (bytes.getD i 0)) ↔
            EndsConsistently done.answered) := by
  intro done
  obtain ⟨hspan, hwindow, hledger, hdone, rfl⟩ := readRangeInto_done h
  refine ⟨Downloader.reported_iff hspan hwindow hledger hdone, ?_⟩
  rintro length rfl
  have hlength : done.sink.view.length = length := by
    rw [Downloader.length_view hspan hwindow hledger, List.length_replicate]
  have hle : done.written ≤ length := by
    have hstop : offset + (List.replicate length (0 : UInt8)).length ∈ done.span.stop := by
      rw [hspan]
      rfl
    have hwritten := hwindow.written_le_stop hstop
    rw [hspan, List.length_replicate] at hwritten
    exact hwritten.trans_eq (Nat.add_sub_cancel_left offset length)
  have hread : readAt offset length schedule replies ending =
      .ok (done.sink.view.take done.written) := by
    unfold readAt
    split_ifs with hempty
    · have hnone : done.written = 0 := by omega
      rw [hnone, List.take_zero]
    · dsimp only
      rw [h]
      rfl
  have htake : (done.sink.view.take done.written).length = done.written := by
    rw [List.length_take]
    omega
  refine ⟨_, hread, htake, ?_⟩
  have hfront := hwindow.front_iff hdone
  rw [hspan] at hfront
  rw [htake, ← hfront]
  constructor
  · exact fun hreceived i hi => (hreceived i hi).covered
  · intro hcovered i hi
    have hbyte : (done.sink.view.take done.written).getD i 0 = done.sink.view.getD i 0 := by
      rw [List.getD_eq_getElem _ _ (htake.symm ▸ hi), List.getD_eq_getElem _ _ (by omega),
        List.getElem_take]
    rw [hbyte]
    exact Downloader.received_of_covered hspan hwindow hledger (hcovered i hi)

/-- Two READs of a byte each, the second answered with EOF. -/
def frontThenEof : List (ℕ × Reply) := [(1, .data [5]), (2, .status .eof [])]

/-- A range read of two bytes of which the first arrived. -/
theorem readRangeInto_reported_iff_front :
    Reported [0, 0] 0 (readRangeInto [0, 0] 0 ⟨1, 2⟩ frontThenEof .connectionLost).1 1 ↔
      EndsConsistently (readRangeInto [0, 0] 0 ⟨1, 2⟩ frontThenEof .connectionLost).1.answered :=
  (readRangeInto_reported_iff (by decide +kernel)).1

/-- Two READs of a byte each, the first answered with EOF and the second with its byte. -/
def eofThenByte : List (ℕ × Reply) := [(1, .status .eof []), (2, .data [7])]

/-- Not every range read that returns reports only what was received. -/
theorem not_forall_reported :
    ¬ ∀ (view : Bytes) (offset : ℕ) (schedule : Schedule) (replies : List (ℕ × Reply))
      (ending : Failure) (count : ℕ),
      (readRangeInto view offset schedule replies ending).2 = .ok count →
        Reported view offset (readRangeInto view offset schedule replies ending).1 count := by
  intro hall
  have hreported := hall [0, 0] 0 ⟨1, 2⟩ eofThenByte .connectionLost 1 (by decide +kernel)
  obtain ⟨write, hmem, hlow, hhigh⟩ := (hreported.received 0 (by decide)).covered
  have hlanded : landed (readRangeInto [0, 0] 0 ⟨1, 2⟩ eofThenByte .connectionLost).1.answered =
      [(1, [7])] := by decide +kernel
  rw [hlanded, List.mem_singleton] at hmem
  subst hmem
  omega

end GantrySftp
