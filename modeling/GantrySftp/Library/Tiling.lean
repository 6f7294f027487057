import Mathlib

/-!
# Pieces that tile an interval

Pieces of an interval in any order and in any number of heaps tile it when every position lies
in exactly one of them. Counting the pieces at a position makes this a sum over the heaps, so
cutting a piece, moving it between heaps and adding one at the end are each one line of
arithmetic.
-/

namespace Library

/-- A run of positions. -/
structure Piece where
  offset : ℕ
  length : ℕ
  deriving DecidableEq

/-- Whether a position lies in a piece. -/
def Piece.contains (i : ℕ) (piece : Piece) : Bool :=
  piece.offset ≤ i && i < piece.offset + piece.length

/-- A position lies in a piece when it is between its ends. -/
@[simp] theorem Piece.contains_iff {piece : Piece} {i : ℕ} :
    piece.contains i = true ↔ piece.offset ≤ i ∧ i < piece.offset + piece.length := by
  simp [Piece.contains]

/-- Every position from `start` up to `next`, and no other, lies in exactly one piece. -/
def Tiles (start next : ℕ) (pieces : List Piece) : Prop :=
  ∀ i, pieces.countP (Piece.contains i) = if start ≤ i ∧ i < next then 1 else 0

/-- Pieces that share no position are pairwise disjoint. -/
theorem pairwise_of_countP_le_one {pieces : List Piece}
    (h : ∀ i, pieces.countP (Piece.contains i) ≤ 1) :
    pieces.Pairwise fun left right => ∀ i, ¬ (left.contains i = true ∧ right.contains i = true) := by
  induction pieces with
  | nil => exact .nil
  | cons piece rest ih =>
    refine .cons (fun other hmem i => ?_) (ih fun i => ?_)
    · rintro ⟨hleft, hright⟩
      have hcount := h i
      have hpos : 0 < rest.countP (Piece.contains i) :=
        List.countP_pos_iff.mpr ⟨other, hmem, hright⟩
      rw [List.countP_cons_of_pos hleft] at hcount
      omega
    · exact (List.Sublist.countP_le (List.sublist_cons_self piece rest)).trans (h i)

/-- Of the elements that are counted once at most, any two are the same. -/
theorem eq_of_countP_le_one {α : Type} {counted : α → Bool} {items : List α}
    (h : items.countP counted ≤ 1) {left right : α} (hleft : left ∈ items)
    (hright : right ∈ items) (hcounted : counted left = true) (hcounted' : counted right = true) :
    left = right := by
  rw [List.countP_eq_length_filter] at h
  have hleft' := List.mem_filter.mpr ⟨hleft, hcounted⟩
  have hright' := List.mem_filter.mpr ⟨hright, hcounted'⟩
  obtain ⟨only, honly⟩ := List.length_eq_one_iff.mp
    (le_antisymm h (List.length_pos_of_mem hleft'))
  rw [honly] at hleft' hright'
  rw [List.mem_singleton.mp hleft', List.mem_singleton.mp hright']

/-- Some position is past the end of every piece. -/
theorem exists_bound (pieces : List Piece) :
    ∃ bound, ∀ piece ∈ pieces, piece.offset + piece.length ≤ bound := by
  induction pieces with
  | nil => exact ⟨0, by simp⟩
  | cons piece rest ih =>
    obtain ⟨bound, hbound⟩ := ih
    refine ⟨max (piece.offset + piece.length) bound, ?_⟩
    intro other hmem
    obtain rfl | hrest := List.mem_cons.mp hmem
    · exact le_max_left _ _
    · exact (hbound other hrest).trans (le_max_right _ _)

/-- Counting the pieces at each position of a range that holds them all counts their lengths. -/
theorem sum_countP_contains {pieces : List Piece} {bound : ℕ}
    (h : ∀ piece ∈ pieces, piece.offset + piece.length ≤ bound) :
    ∑ i ∈ Finset.range bound, pieces.countP (Piece.contains i) =
      (pieces.map Piece.length).sum := by
  induction pieces with
  | nil => simp
  | cons piece rest ih =>
    have hpiece := h piece List.mem_cons_self
    have hcard : ∑ i ∈ Finset.range bound, (if piece.contains i = true then 1 else 0) =
        piece.length := by
      rw [← Finset.card_filter]
      have hinterval : (Finset.range bound).filter (fun i => piece.contains i = true) =
          Finset.Ico piece.offset (piece.offset + piece.length) := by
        ext i
        simp only [Finset.mem_filter, Finset.mem_range, Piece.contains_iff, Finset.mem_Ico]
        omega
      rw [hinterval, Nat.card_Ico, Nat.add_sub_cancel_left]
    simp only [List.countP_cons, Finset.sum_add_distrib, List.map_cons, List.sum_cons]
    rw [ih fun other hmem => h other (List.mem_cons_of_mem _ hmem), hcard, Nat.add_comm]

/-- Pieces that share no position and lie inside a set are no longer than it together. -/
theorem sum_length_le {pieces : List Piece} (positions : Finset ℕ)
    (h : ∀ i, pieces.countP (Piece.contains i) ≤ if i ∈ positions then 1 else 0) :
    (pieces.map Piece.length).sum ≤ positions.card := by
  obtain ⟨bound, hbound⟩ := exists_bound pieces
  rw [← sum_countP_contains hbound]
  calc ∑ i ∈ Finset.range bound, pieces.countP (Piece.contains i)
      ≤ ∑ i ∈ Finset.range bound, (if i ∈ positions then 1 else 0) :=
        Finset.sum_le_sum fun i _ => h i
    _ = ((Finset.range bound).filter (· ∈ positions)).card := (Finset.card_filter _ _).symm
    _ ≤ positions.card :=
        Finset.card_le_card fun i hmem => (Finset.mem_filter.mp hmem).2

/-- Pieces that cover a set are at least as long as it together. -/
theorem card_le_sum_length {pieces : List Piece} (positions : Finset ℕ)
    (h : ∀ i ∈ positions, 0 < pieces.countP (Piece.contains i)) :
    positions.card ≤ (pieces.map Piece.length).sum := by
  obtain ⟨bound, hbound⟩ := exists_bound pieces
  have hinside : positions ⊆ Finset.range bound := by
    intro i hmem
    obtain ⟨piece, hpiece, hcontains⟩ := List.countP_pos_iff.mp (h i hmem)
    exact Finset.mem_range.mpr ((Piece.contains_iff.mp hcontains).2.trans_le (hbound piece hpiece))
  rw [← sum_countP_contains hbound]
  calc positions.card
      = ∑ i ∈ positions, 1 := Finset.card_eq_sum_ones _
    _ ≤ ∑ i ∈ positions, pieces.countP (Piece.contains i) := Finset.sum_le_sum h
    _ ≤ ∑ i ∈ Finset.range bound, pieces.countP (Piece.contains i) :=
        Finset.sum_le_sum_of_subset hinside

namespace Tiles

variable {start next : ℕ} {pieces pieces' : List Piece}

/-- No pieces tile the empty interval. -/
theorem nil (start : ℕ) : Tiles start start [] := by
  intro i
  rw [List.countP_nil, if_neg (by omega)]

/-- The order of the pieces does not matter. -/
theorem perm (h : Tiles start next pieces) (hperm : pieces.Perm pieces') :
    Tiles start next pieces' := by
  intro i
  rw [← hperm.countP_eq, h i]

/-- Pieces still tile when only their counts at each position are the same. -/
theorem congr (h : Tiles start next pieces)
    (hcount : ∀ i, pieces'.countP (Piece.contains i) = pieces.countP (Piece.contains i)) :
    Tiles start next pieces' := fun i => (hcount i).trans (h i)

/-- A piece added at the end. -/
theorem push (h : Tiles start next pieces) (hle : start ≤ next) (length : ℕ) :
    Tiles start (next + length) (⟨next, length⟩ :: pieces) := by
  intro i
  have hcount := h i
  rw [List.countP_cons, hcount]
  simp only [Piece.contains_iff]
  split_ifs <;> omega

/-- A position of the interval lies in some piece. -/
theorem exists_contains (h : Tiles start next pieces) {i : ℕ} (hlow : start ≤ i)
    (hhigh : i < next) : ∃ piece ∈ pieces, piece.contains i = true := by
  rw [← List.countP_pos_iff, h i, if_pos ⟨hlow, hhigh⟩]
  exact Nat.one_pos

/-- A position of a piece lies in the interval. -/
theorem inside (h : Tiles start next pieces) {piece : Piece} (hmem : piece ∈ pieces) {i : ℕ}
    (hcontains : piece.contains i = true) : start ≤ i ∧ i < next := by
  have hpos : 0 < pieces.countP (Piece.contains i) :=
    List.countP_pos_iff.mpr ⟨piece, hmem, hcontains⟩
  rw [h i] at hpos
  by_contra houtside
  rw [if_neg houtside] at hpos
  exact lt_irrefl _ hpos

/-- A piece that is not empty lies inside the interval. -/
theorem le_of_pos (h : Tiles start next pieces) {piece : Piece} (hmem : piece ∈ pieces)
    (hpos : 0 < piece.length) : start ≤ piece.offset ∧ piece.offset + piece.length ≤ next := by
  have hfirst := h.inside hmem (Piece.contains_iff.mpr ⟨le_rfl, Nat.lt_add_of_pos_right hpos⟩)
  have hlast : piece.contains (piece.offset + (piece.length - 1)) = true :=
    Piece.contains_iff.mpr ⟨by omega, by omega⟩
  have hinside := h.inside hmem hlast
  omega

/-- No position lies in two pieces. -/
theorem pairwise (h : Tiles start next pieces) :
    pieces.Pairwise fun left right => ∀ i, ¬ (left.contains i = true ∧ right.contains i = true) := by
  refine pairwise_of_countP_le_one fun i => ?_
  rw [h i]
  split_ifs <;> omega

/-- The lengths of the pieces sum to the length of the interval. -/
theorem sum_length (h : Tiles start next pieces) :
    (pieces.map Piece.length).sum = next - start := by
  rw [← Nat.card_Ico]
  apply le_antisymm
  · apply sum_length_le
    intro i
    rw [h i]
    simp
  · apply card_le_sum_length
    intro i hmem
    rw [h i, if_pos (Finset.mem_Ico.mp hmem)]
    exact Nat.one_pos

end Tiles

/-- Cutting a piece in two does not change what its parts count at a position. -/
theorem countP_contains_cut (i : ℕ) {piece : Piece} {front : ℕ} (h : front ≤ piece.length) :
    [(⟨piece.offset, front⟩ : Piece), ⟨piece.offset + front, piece.length - front⟩].countP
        (Piece.contains i) = [piece].countP (Piece.contains i) := by
  simp only [List.countP_cons, List.countP_nil, Piece.contains_iff]
  split_ifs <;> omega

/-- An empty piece contains no position. -/
theorem countP_contains_empty (i offset : ℕ) :
    [(⟨offset, 0⟩ : Piece)].countP (Piece.contains i) = 0 := by
  simp only [List.countP_cons, List.countP_nil, Piece.contains_iff]
  split_ifs <;> omega

end Library
