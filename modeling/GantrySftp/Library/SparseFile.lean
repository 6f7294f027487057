import GantrySftp.Library.BigEndian
import Mathlib.Data.List.GetD

/-!
# Files written at offsets

Bytes written at an offset past the end leave zeros between. A file built by writing slices of
one source at their own offsets holds the source wherever a write covered it. Whether the file
is a prefix of the source then depends on what lies below its last byte and was never covered.
-/

namespace Library

/-- One write: an offset and the bytes written there. -/
abbrev Placed := ℕ × Bytes

/-- Write bytes at an offset. Writing none changes nothing; writing past the end leaves zeros
between. -/
def pwrite (content : Bytes) (offset : ℕ) (payload : Bytes) : Bytes :=
  if payload = [] then content
  else
    content.take offset ++ List.replicate (offset - content.length) 0 ++ payload ++
      content.drop (offset + payload.length)

/-- Make writes in order. -/
def pwriteAll (content : Bytes) (writes : List Placed) : Bytes :=
  writes.foldl (fun content write => pwrite content write.1 write.2) content

/-- The positions a write covers. -/
def Covers (write : Placed) (i : ℕ) : Prop := write.1 ≤ i ∧ i < write.1 + write.2.length

/-- The positions some write covers. -/
def Covered (writes : List Placed) (i : ℕ) : Prop := ∃ write ∈ writes, Covers write i

instance (write : Placed) (i : ℕ) : Decidable (Covers write i) :=
  inferInstanceAs (Decidable (_ ∧ _))

instance (writes : List Placed) (i : ℕ) : Decidable (Covered writes i) :=
  inferInstanceAs (Decidable (∃ write ∈ writes, Covers write i))

/-- A write of the bytes a source has at its offset. -/
def Slice (source : Bytes) (write : Placed) : Prop := write.2 <+: source.drop write.1

/-! ## Single writes -/

/-- A file reaches as far as it did, or as far as the write. -/
theorem length_pwrite (content : Bytes) (offset : ℕ) (payload : Bytes) :
    (pwrite content offset payload).length =
      if payload = [] then content.length else max content.length (offset + payload.length) := by
  unfold pwrite
  split_ifs with hempty
  · rfl
  · simp only [List.length_append, List.length_take, List.length_replicate, List.length_drop]
    omega

/-- A write at the end of a file appends. -/
theorem pwrite_at_end (content payload : Bytes) :
    pwrite content content.length payload = content ++ payload := by
  unfold pwrite
  split_ifs with hempty
  · rw [hempty, List.append_nil]
  · rw [List.take_length, Nat.sub_self, List.drop_eq_nil_of_le (Nat.le_add_right _ _)]
    simp

/-- A position is in the file if it was, or if it is not past the bytes written. -/
theorem lt_length_pwrite (content : Bytes) (offset : ℕ) (payload : Bytes) (i : ℕ) :
    i < (pwrite content offset payload).length ↔
      i < content.length ∨ ∃ j, i ≤ j ∧ Covers (offset, payload) j := by
  rw [length_pwrite]
  constructor
  · intro h
    split_ifs at h with hempty
    · exact Or.inl h
    · have hpos : 0 < payload.length := List.length_pos_iff.mpr hempty
      obtain hlt | hle := lt_or_ge i content.length
      · exact Or.inl hlt
      · exact Or.inr ⟨offset + payload.length - 1, by omega, by simp only [Covers]; omega⟩
  · rintro (h | ⟨j, hij, hlow, hhigh⟩)
    · split_ifs <;> omega
    · have hpos : payload ≠ [] := by
        rintro rfl
        simp only [List.length_nil] at hlow hhigh
        omega
      rw [if_neg hpos]
      simp only at hhigh
      omega

/-- The byte at a position of the file after a write: the payload's, the one that was there, or
a zero. -/
theorem getD_pwrite (content : Bytes) (offset : ℕ) (payload : Bytes) (i : ℕ) :
    (pwrite content offset payload).getD i 0 =
      if Covers (offset, payload) i then payload.getD (i - offset) 0 else content.getD i 0 := by
  by_cases hempty : payload = []
  · subst hempty
    have huncovered : ¬ Covers (offset, []) i := by
      simp only [Covers, List.length_nil]
      omega
    rw [pwrite, if_pos rfl, if_neg huncovered]
  have hhead : (content.take offset ++ List.replicate (offset - content.length) 0).length =
      offset := by
    simp only [List.length_append, List.length_take, List.length_replicate]
    omega
  rw [pwrite, if_neg hempty]
  simp only [List.getD_eq_getElem?_getD, List.append_assoc (_ ++ _)]
  obtain hlow | hlow := lt_or_ge i offset
  · have huncovered : ¬ Covers (offset, payload) i := fun hcovers => by
      simp only [Covers] at hcovers
      omega
    rw [List.getElem?_append_left (by omega), if_neg huncovered]
    grind
  · rw [List.getElem?_append_right (by omega), hhead]
    obtain hhigh | hhigh := lt_or_ge i (offset + payload.length)
    · rw [List.getElem?_append_left (by omega), if_pos ⟨hlow, hhigh⟩]
    · have huncovered : ¬ Covers (offset, payload) i := fun hcovers => by
        simp only [Covers] at hcovers
        omega
      rw [List.getElem?_append_right (by omega), List.getElem?_drop, if_neg huncovered]
      congr 2
      omega

/-- A slice holds the source's bytes at the positions it covers, which are in the source. -/
theorem Slice.getD {source : Bytes} {write : Placed} {i : ℕ} (h : Slice source write)
    (hcovers : Covers write i) :
    write.2.getD (i - write.1) 0 = source.getD i 0 ∧ i < source.length := by
  obtain ⟨hlow, hhigh⟩ := hcovers
  have hinside : i - write.1 < write.2.length := by omega
  have hlength : write.2.length ≤ source.length - write.1 := by
    rw [← List.length_drop]
    exact h.length_le
  have hbyte : write.2[i - write.1]? = source[i]? := by
    have hslice := List.prefix_iff_getElem?.mp h _ hinside
    rw [List.getElem?_drop, Nat.add_sub_cancel' hlow] at hslice
    rw [hslice, List.getElem?_eq_getElem hinside]
  exact ⟨by rw [List.getD_eq_getElem?_getD, List.getD_eq_getElem?_getD, hbyte], by omega⟩

/-! ## Many writes -/

/-- Writes made after others start from the file those left. -/
theorem pwriteAll_append (content : Bytes) (front back : List Placed) :
    pwriteAll content (front ++ back) = pwriteAll (pwriteAll content front) back :=
  List.foldl_append

/-- A position is in the file if it was, or if some write covers it or one behind it. -/
theorem lt_length_pwriteAll (content : Bytes) (writes : List Placed) (i : ℕ) :
    i < (pwriteAll content writes).length ↔
      i < content.length ∨ ∃ j, i ≤ j ∧ Covered writes j := by
  induction writes generalizing content with
  | nil => simp [pwriteAll, Covered]
  | cons write rest ih =>
    change i < (pwriteAll (pwrite content write.1 write.2) rest).length ↔ _
    rw [ih, lt_length_pwrite]
    simp only [Covered, List.mem_cons, exists_eq_or_imp, and_or_left, exists_or, or_assoc]

/-- Writes never shorten a file. -/
theorem length_le_pwriteAll (content : Bytes) (writes : List Placed) :
    content.length ≤ (pwriteAll content writes).length :=
  Nat.le_of_not_lt fun hlt =>
    lt_irrefl _ ((lt_length_pwriteAll content writes _).mpr (Or.inl hlt))

/-- Some write covers a position when the first does or one of the others. -/
theorem covered_cons {write : Placed} {rest : List Placed} {i : ℕ} :
    Covered (write :: rest) i ↔ Covers write i ∨ Covered rest i := by
  simp only [Covered, List.mem_cons, exists_eq_or_imp]

/-- Writes leave the positions that none of them covers. -/
theorem getD_pwriteAll_of_not_covered {writes : List Placed} {i : ℕ} (h : ¬ Covered writes i)
    (content : Bytes) : (pwriteAll content writes).getD i 0 = content.getD i 0 := by
  induction writes generalizing content with
  | nil => rfl
  | cons write rest ih =>
    rw [covered_cons, not_or] at h
    change (pwriteAll (pwrite content write.1 write.2) rest).getD i 0 = _
    rw [ih h.2, getD_pwrite, if_neg h.1]

/-- The byte at a position that writes cover is that of one of them. -/
theorem getD_pwriteAll_of_covered {writes : List Placed} {i : ℕ} (h : Covered writes i)
    (content : Bytes) : ∃ write ∈ writes, Covers write i ∧
      (pwriteAll content writes).getD i 0 = write.2.getD (i - write.1) 0 := by
  induction writes generalizing content with
  | nil => obtain ⟨write, hmem, -⟩ := h; cases hmem
  | cons write rest ih =>
    change ∃ found ∈ write :: rest, Covers found i ∧
      (pwriteAll (pwrite content write.1 write.2) rest).getD i 0 = _
    by_cases hrest : Covered rest i
    · obtain ⟨found, hmem, hcovers, hbyte⟩ := ih hrest (pwrite content write.1 write.2)
      exact ⟨found, List.mem_cons_of_mem _ hmem, hcovers, hbyte⟩
    · have hwrite : Covers write i := (covered_cons.mp h).resolve_right hrest
      refine ⟨write, List.mem_cons_self, hwrite, ?_⟩
      rw [getD_pwriteAll_of_not_covered hrest, getD_pwrite, if_pos hwrite]

/-- The byte at a position of a file written with slices of a source: the source's where a write
covers it, and what was there before elsewhere. -/
theorem getD_pwriteAll {source : Bytes} {writes : List Placed}
    (hslices : ∀ write ∈ writes, Slice source write) (content : Bytes) (i : ℕ) :
    (pwriteAll content writes).getD i 0 =
      if Covered writes i then source.getD i 0 else content.getD i 0 := by
  split_ifs with hcovered
  · obtain ⟨write, hmem, hcovers, hbyte⟩ := getD_pwriteAll_of_covered hcovered content
    rw [hbyte]
    exact ((hslices write hmem).getD hcovers).1
  · exact getD_pwriteAll_of_not_covered hcovered content

/-- Positions that slices of a source cover are in the source. -/
theorem lt_length_of_covered {source : Bytes} {writes : List Placed}
    (hslices : ∀ write ∈ writes, Slice source write) {i : ℕ} (h : Covered writes i) :
    i < source.length := by
  obtain ⟨write, hmem, hcovers⟩ := h
  exact ((hslices write hmem).getD hcovers).2

/-- Files written with slices of a source do not outgrow it. -/
theorem length_pwriteAll_le {source content : Bytes} {writes : List Placed}
    (hslices : ∀ write ∈ writes, Slice source write)
    (hlength : content.length ≤ source.length) :
    (pwriteAll content writes).length ≤ source.length := by
  by_contra hlong
  rw [not_le, lt_length_pwriteAll] at hlong
  obtain hlong | ⟨j, hj, hcovered⟩ := hlong
  · omega
  · have := lt_length_of_covered hslices hcovered
    omega

/-! ## Prefixes -/

/-- Bytes are a prefix of others when they are no longer and agree at every position. -/
theorem prefix_iff_getD (content source : Bytes) :
    content <+: source ↔ content.length ≤ source.length ∧
      ∀ i < content.length, content.getD i 0 = source.getD i 0 := by
  refine ⟨fun h => ⟨h.length_le, fun i hi => ?_⟩, fun ⟨hlength, hbytes⟩ => ?_⟩
  · rw [List.getD_eq_getElem _ _ hi, h.getElem hi, List.getD_eq_getElem]
  · rw [List.prefix_iff_getElem?]
    intro i hi
    have hbyte := hbytes i hi
    rw [List.getD_eq_getElem _ _ hi, List.getD_eq_getElem _ _ (by omega)] at hbyte
    rw [List.getElem?_eq_getElem (by omega), hbyte]

/-- Nothing is missing below a byte that is there: every position up to one in the file is
covered, or holds the source's byte without. -/
def Gapless (source content : Bytes) (writes : List Placed) : Prop :=
  ∀ i, (i < content.length ∨ ∃ j, i ≤ j ∧ Covered writes j) →
    Covered writes i ∨ content.getD i 0 = source.getD i 0

/-- A file written with slices of a source is a prefix of it exactly when nothing is missing. -/
theorem pwriteAll_prefix_iff {source content : Bytes} {writes : List Placed}
    (hslices : ∀ write ∈ writes, Slice source write)
    (hlength : content.length ≤ source.length) :
    pwriteAll content writes <+: source ↔ Gapless source content writes := by
  rw [prefix_iff_getD, and_iff_right (length_pwriteAll_le hslices hlength)]
  refine forall_congr' fun i => ?_
  rw [lt_length_pwriteAll, getD_pwriteAll hslices]
  refine imp_congr_right fun _ => ?_
  split_ifs with hcovered
  · simp [hcovered]
  · simp [hcovered]

/-- Writing everything behind a file of the source completes it exactly when the file was a
prefix. -/
theorem pwriteAll_eq_iff {source content : Bytes} {writes : List Placed}
    (hslices : ∀ write ∈ writes, Slice source write)
    (hlength : content.length ≤ source.length)
    (hbehind : ∀ i, Covered writes i ↔ content.length ≤ i ∧ i < source.length) :
    pwriteAll content writes = source ↔ content <+: source := by
  have hall : (pwriteAll content writes).length = source.length := by
    refine le_antisymm (length_pwriteAll_le hslices hlength) (Nat.le_of_not_lt fun hshort => ?_)
    have hlast : (pwriteAll content writes).length <
        (pwriteAll content writes).length := by
      rw [lt_length_pwriteAll]
      obtain hlt | hle := lt_or_ge (pwriteAll content writes).length content.length
      · exact Or.inl hlt
      · exact Or.inr ⟨_, le_rfl, (hbehind _).mpr ⟨hle, hshort⟩⟩
    exact lt_irrefl _ hlast
  constructor
  · intro heq
    refine (prefix_iff_getD _ _).mpr ⟨hlength, fun i hi => ?_⟩
    have hbyte := getD_pwriteAll hslices content i
    rw [heq, if_neg fun hcovered => by have := (hbehind i).mp hcovered; omega] at hbyte
    exact hbyte.symm
  · intro hleading
    refine List.IsPrefix.eq_of_length ((prefix_iff_getD _ _).mpr ⟨hall.le, fun i hi => ?_⟩) hall
    rw [getD_pwriteAll hslices]
    split_ifs with hcovered
    · rfl
    · refine ((prefix_iff_getD _ _).mp hleading).2 i (Nat.lt_of_not_le fun hle => ?_)
      exact hcovered ((hbehind i).mpr ⟨hle, hall ▸ hi⟩)

/-- Slices of a payload that together cover it from an offset on write what one write of it
there does. -/
theorem pwriteAll_eq_pwrite {content payload : Bytes} {start : ℕ} {writes : List Placed}
    (hslices : ∀ write ∈ writes, start ≤ write.1 ∧ write.2 <+: payload.drop (write.1 - start))
    (hcovered : ∀ i, Covered writes i ↔ Covers (start, payload) i) :
    pwriteAll content writes = pwrite content start payload := by
  have hlength : (pwriteAll content writes).length = (pwrite content start payload).length := by
    apply eq_of_forall_lt_iff
    intro i
    simp only [lt_length_pwriteAll, lt_length_pwrite, hcovered]
  apply List.IsPrefix.eq_of_length _ hlength
  apply (prefix_iff_getD _ _).mpr
  refine ⟨hlength.le, fun i _ => ?_⟩
  rw [getD_pwrite]
  split_ifs with hinside
  · obtain ⟨write, hmem, hcovers, hbyte⟩ :=
      getD_pwriteAll_of_covered ((hcovered i).mpr hinside) content
    obtain ⟨hstart, hslice⟩ := hslices write hmem
    have hplaced : Slice payload (write.1 - start, write.2) := hslice
    have hwithin : Covers (write.1 - start, write.2) (i - start) := by
      obtain ⟨hlow, hhigh⟩ := hcovers
      simp only [Covers]
      omega
    have hvalue := (hplaced.getD hwithin).1
    have hshift : i - start - (write.1 - start) = i - write.1 := by
      have hlow := hcovers.1
      omega
    rw [hbyte, ← hvalue, hshift]
  · exact getD_pwriteAll_of_not_covered (mt (hcovered i).mp hinside) content

/-! ## Overlays -/

/-- A file that holds the source's bytes from an offset on and keeps its own elsewhere. -/
def overlay (source content : Bytes) (start : ℕ) : Bytes :=
  content.take start ++ source.drop start ++ content.drop source.length

section Overlay

variable {source content : Bytes} {start : ℕ}

/-- An overlay reaches as far as the longer of the two. -/
theorem length_overlay (hcontent : start ≤ content.length) (hsource : start ≤ source.length) :
    (overlay source content start).length = max source.length content.length := by
  simp only [overlay, List.length_append, List.length_take, List.length_drop]
  omega

/-- An overlay holds the source's bytes from the offset on, and its own elsewhere. -/
theorem getD_overlay (hcontent : start ≤ content.length) (hsource : start ≤ source.length)
    (i : ℕ) : (overlay source content start).getD i 0 =
      if start ≤ i ∧ i < source.length then source.getD i 0 else content.getD i 0 := by
  simp only [overlay, List.getD_eq_getElem?_getD, List.getElem?_append, List.length_append,
    List.length_take, List.length_drop, List.getElem?_take, List.getElem?_drop]
  grind

/-- Over a file that ends at the offset, an overlay is the source exactly when the file was a
prefix of it. -/
theorem overlay_eq_iff (hlength : content.length ≤ source.length) :
    overlay source content content.length = source ↔ content <+: source := by
  rw [overlay, List.take_length, List.drop_eq_nil_of_le hlength, List.append_nil,
    List.prefix_iff_eq_append]

/-- Over an empty file an overlay is the source. -/
@[simp] theorem overlay_nil : overlay source [] 0 = source := by simp [overlay]

/-- Slices of a source that cover it from an offset on make an overlay. -/
theorem pwriteAll_eq_overlay {writes : List Placed}
    (hslices : ∀ write ∈ writes, Slice source write) (hcontent : start ≤ content.length)
    (hsource : start ≤ source.length)
    (hcovered : ∀ i, Covered writes i ↔ start ≤ i ∧ i < source.length) :
    pwriteAll content writes = overlay source content start := by
  have hlength : (pwriteAll content writes).length = (overlay source content start).length := by
    refine eq_of_forall_lt_iff fun i => ?_
    simp only [lt_length_pwriteAll, length_overlay hcontent hsource, hcovered, lt_max_iff]
    constructor
    · rintro (hi | ⟨j, hij, -, hj⟩)
      · exact Or.inr hi
      · exact Or.inl (hij.trans_lt hj)
    · rintro (hi | hi)
      · exact (lt_or_ge i content.length).imp id fun hle => ⟨i, le_rfl, hcontent.trans hle, hi⟩
      · exact Or.inl hi
  refine List.IsPrefix.eq_of_length ((prefix_iff_getD _ _).mpr ⟨hlength.le, fun i _ => ?_⟩) hlength
  rw [getD_pwriteAll hslices, getD_overlay hcontent hsource]
  simp only [hcovered]

end Overlay

end Library
