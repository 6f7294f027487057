import Mathlib.Data.List.Forall2

/-!
# Sequences of patterns

A sequence of pattern elements covers a sequence of names when each element accounts for one name
that fits it, except that some elements account for any number of names. A sequence may cover
names in several ways; with one such element at most, it covers them in one way or in none.
-/

namespace Library

namespace Wildcards

variable {γ ν : Type} (many : γ → Bool) (fits : γ → ν → Bool)

/-- Elements that account for all of some names, in order. -/
inductive Covers : List γ → List ν → Prop
  | nil : Covers [] []
  | skip {element : γ} {rest : List γ} {names : List ν} (h : many element = true)
      (below : Covers rest names) : Covers (element :: rest) names
  | more {element : γ} {rest : List γ} {name : ν} {names : List ν} (h : many element = true)
      (below : Covers (element :: rest) names) : Covers (element :: rest) (name :: names)
  | one {element : γ} {rest : List γ} {name : ν} {names : List ν} (h : many element = false)
      (fit : fits element name = true) (below : Covers rest names) :
      Covers (element :: rest) (name :: names)

/-- In how many ways elements cover names. -/
def ways : List γ → List ν → ℕ
  | [], [] => 1
  | [], _ :: _ => 0
  | element :: rest, [] => if many element then ways rest [] else 0
  | element :: rest, name :: names =>
    if many element then ways rest (name :: names) + ways (element :: rest) names
    else if fits element name then ways rest names else 0
termination_by elements names => elements.length + names.length

variable {many fits} {element : γ} {rest : List γ} {name : ν} {names : List ν}

/-- Nothing covers no names in one way. -/
@[simp] theorem ways_nil_nil : ways many fits [] [] = 1 := by rw [ways]

/-- Nothing covers no name. -/
@[simp] theorem ways_nil_cons : ways many fits [] (name :: names) = 0 := by rw [ways]

/-- No names are covered by elements that may account for none. -/
theorem ways_cons_nil : ways many fits (element :: rest) [] =
    if many element then ways many fits rest [] else 0 := by rw [ways]

/-- An element that accounts for any number of names may skip the first, or not. -/
theorem ways_many (h : many element = true) :
    ways many fits (element :: rest) (name :: names) =
      ways many fits rest (name :: names) + ways many fits (element :: rest) names := by
  rw [ways, if_pos h]

/-- An element that accounts for one name must fit it. -/
theorem ways_one (h : many element = false) :
    ways many fits (element :: rest) (name :: names) =
      if fits element name then ways many fits rest names else 0 := by
  rw [ways, if_neg (Bool.not_eq_true _ ▸ h)]

/-- There is a way exactly where the elements cover the names. -/
theorem ways_pos_iff {elements : List γ} :
    0 < ways many fits elements names ↔ Covers many fits elements names := by
  constructor
  · intro h
    induction elements, names using ways.induct many fits with
    | case1 => exact .nil
    | case2 => simp at h
    | case3 element rest hmany ih =>
      rw [ways_cons_nil, if_pos hmany] at h
      exact .skip hmany (ih h)
    | case4 element rest hmany =>
      rw [ways_cons_nil, if_neg hmany] at h
      exact absurd h (Nat.lt_irrefl 0)
    | case5 element rest name names hmany ihskip ihmore =>
      rw [ways_many hmany] at h
      obtain hskip | hmore := Nat.add_pos_iff_pos_or_pos.mp h
      · exact .skip hmany (ihskip hskip)
      · exact .more hmany (ihmore hmore)
    | case6 element rest name names hmany hfit ih =>
      rw [ways_one (Bool.not_eq_true _ ▸ hmany), if_pos hfit] at h
      exact .one (Bool.not_eq_true _ ▸ hmany) hfit (ih h)
    | case7 element rest name names hmany hfit =>
      rw [ways_one (Bool.not_eq_true _ ▸ hmany), if_neg hfit] at h
      exact absurd h (Nat.lt_irrefl 0)
  · intro h
    induction h with
    | nil => simp
    | @skip element rest names hmany _ ih =>
      cases names with
      | nil =>
        rw [ways_cons_nil, if_pos hmany]
        exact ih
      | cons name names =>
        rw [ways_many hmany]
        exact Nat.add_pos_left ih _
    | more hmany _ ih =>
      rw [ways_many hmany]
      exact Nat.add_pos_right _ ih
    | one hmany hfit _ ih =>
      rw [ways_one hmany, if_pos hfit]
      exact ih

instance (elements : List γ) (names : List ν) : Decidable (Covers many fits elements names) :=
  decidable_of_iff _ ways_pos_iff

/-! ## Elements behind elements -/

/-- Covered names behind covered names. -/
theorem Covers.append {front back : List γ} {names names' : List ν}
    (hfront : Covers many fits front names) (hback : Covers many fits back names') :
    Covers many fits (front ++ back) (names ++ names') := by
  induction hfront with
  | nil => exact hback
  | skip h _ ih => exact .skip h ih
  | more h _ ih => exact .more h ih
  | one h hfit _ ih => exact .one h hfit ih

/-- Names are covered by elements behind others when they can be cut so that each covers its
part. -/
theorem covers_append {front back : List γ} :
    Covers many fits (front ++ back) names ↔
      ∃ names₁ names₂, names = names₁ ++ names₂ ∧ Covers many fits front names₁ ∧
        Covers many fits back names₂ := by
  constructor
  · intro h
    generalize helements : front ++ back = elements at h
    induction h generalizing front with
    | nil =>
      obtain ⟨rfl, rfl⟩ := List.append_eq_nil_iff.mp helements
      exact ⟨[], [], rfl, .nil, .nil⟩
    | @skip element rest names hmany hrest ih =>
      cases front with
      | nil =>
        obtain rfl : back = element :: rest := helements
        exact ⟨[], names, rfl, .nil, .skip hmany hrest⟩
      | cons first front =>
        obtain ⟨rfl, hback⟩ := List.cons.inj helements
        obtain ⟨names₁, names₂, heq, hfront, hcovers⟩ := ih hback
        exact ⟨names₁, names₂, heq, .skip hmany hfront, hcovers⟩
    | @more element rest name names hmany hrest ih =>
      cases front with
      | nil =>
        obtain rfl : back = element :: rest := helements
        exact ⟨[], name :: names, rfl, .nil, .more hmany hrest⟩
      | cons first front =>
        obtain ⟨rfl, -⟩ := List.cons.inj helements
        obtain ⟨names₁, names₂, rfl, hfront, hcovers⟩ := ih helements
        exact ⟨name :: names₁, names₂, rfl, .more hmany hfront, hcovers⟩
    | @one element rest name names hmany hfit hrest ih =>
      cases front with
      | nil =>
        obtain rfl : back = element :: rest := helements
        exact ⟨[], name :: names, rfl, .nil, .one hmany hfit hrest⟩
      | cons first front =>
        obtain ⟨rfl, hback⟩ := List.cons.inj helements
        obtain ⟨names₁, names₂, rfl, hfront, hcovers⟩ := ih hback
        exact ⟨name :: names₁, names₂, rfl, .one hmany hfit hfront, hcovers⟩
  · rintro ⟨names₁, names₂, rfl, hfront, hback⟩
    exact hfront.append hback

/-- Any names are covered by one element that accounts for any number. -/
theorem covers_many (h : many element = true) (names : List ν) :
    Covers many fits [element] names := by
  induction names with
  | nil => exact .skip h .nil
  | cons name names ih => exact .more h ih

/-- One element of the other kind covers one name that fits it. -/
theorem covers_one_iff (h : many element = false) :
    Covers many fits [element] names ↔ ∃ name, names = [name] ∧ fits element name = true := by
  constructor
  · intro hcovers
    cases hcovers with
    | skip hmany => exact absurd hmany (by simp [h])
    | more hmany => exact absurd hmany (by simp [h])
    | one _ hfit hrest =>
      cases hrest
      exact ⟨_, rfl, hfit⟩
  · rintro ⟨name, rfl, hfit⟩
    exact .one h hfit .nil

/-- A last element that accounts for any number of names leaves the first names, however many, to
the others. -/
theorem covers_concat_many {front : List γ} (h : many element = true) :
    Covers many fits (front ++ [element]) names ↔
      ∃ count ≤ names.length, Covers many fits front (names.take count) := by
  rw [covers_append]
  constructor
  · rintro ⟨names₁, names₂, rfl, hfront, -⟩
    exact ⟨names₁.length, by simp, by simpa using hfront⟩
  · rintro ⟨count, -, hfront⟩
    exact ⟨names.take count, names.drop count, (List.take_append_drop count names).symm, hfront,
      covers_many h _⟩

/-- A last element of the other kind leaves all names but the last to the others. -/
theorem covers_concat_one {front : List γ} (h : many element = false) :
    Covers many fits (front ++ [element]) names ↔
      ∃ init last, names = init ++ [last] ∧ Covers many fits front init ∧
        fits element last = true := by
  rw [covers_append]
  constructor
  · rintro ⟨init, names₂, rfl, hfront, hback⟩
    obtain ⟨last, rfl, hfit⟩ := (covers_one_iff h).mp hback
    exact ⟨init, last, rfl, hfront, hfit⟩
  · rintro ⟨init, last, rfl, hfront, hfit⟩
    exact ⟨init, [last], rfl, hfront, (covers_one_iff h).mpr ⟨last, rfl, hfit⟩⟩

/-! ## One way at most -/

/-- Elements that each account for one name cover names of their own number only, in one way at
most. -/
theorem ways_of_none {elements : List γ} (h : ∀ element ∈ elements, many element = false) :
    ways many fits elements names ≤ if elements.length = names.length then 1 else 0 := by
  induction elements generalizing names with
  | nil => cases names <;> simp
  | cons element rest ih =>
    have helement := h element List.mem_cons_self
    cases names with
    | nil =>
      rw [ways_cons_nil]
      simp [helement]
    | cons name names =>
      rw [ways_one helement]
      have hrest : ways many fits rest names ≤ if rest.length = names.length then 1 else 0 :=
        ih fun other hmem => h other (List.mem_cons_of_mem _ hmem)
      simp only [List.length_cons, Nat.add_right_cancel_iff]
      by_cases hfit : fits element name = true
      · rw [if_pos hfit]
        exact hrest
      · rw [if_neg hfit]
        exact Nat.zero_le _

/-- With one element that accounts for any number of names, names are covered in one way at
most. -/
theorem ways_le_one {elements : List γ} (h : (elements.filter many).length ≤ 1) :
    ways many fits elements names ≤ 1 := by
  induction elements generalizing names with
  | nil => cases names <;> simp
  | cons element rest ih =>
    cases helement : many element with
    | false =>
      rw [List.filter_cons_of_neg (by simp [helement])] at h
      cases names with
      | nil => simp [ways_cons_nil, helement]
      | cons name names =>
        rw [ways_one helement]
        split_ifs
        · exact ih h
        · exact Nat.zero_le _
    | true =>
      rw [List.filter_cons_of_pos helement, List.length_cons] at h
      have hnone : ∀ other ∈ rest, many other = false := by
        intro other hmem
        by_contra hmany
        have : other ∈ rest.filter many :=
          List.mem_filter.mpr ⟨hmem, (Bool.not_eq_false _).mp hmany⟩
        have := List.length_pos_of_mem this
        omega
      -- the first element leaves as many names as there are other elements, or more than that
      have hshort : ∀ {names : List ν}, ways many fits (element :: rest) names ≤
          if rest.length ≤ names.length then 1 else 0 := by
        intro names
        induction names with
        | nil =>
          rw [ways_cons_nil, if_pos helement]
          have : ways many fits rest [] ≤ if rest.length = [].length then 1 else 0 :=
            ways_of_none hnone
          simpa [Nat.le_zero] using this
        | cons name names ihnames =>
          rw [ways_many helement]
          have : ways many fits rest (name :: names) ≤
              if rest.length = (name :: names).length then 1 else 0 := ways_of_none hnone
          simp only [List.length_cons] at this ihnames ⊢
          split_ifs at this ihnames ⊢ <;> omega
      refine Nat.le_trans hshort ?_
      split
      · exact Nat.le_refl 1
      · exact Nat.zero_le 1

/-! ## As few names as possible -/

/-- The elements that account for one name each. -/
def ones (many : γ → Bool) (elements : List γ) : List γ :=
  elements.filter fun element => !many element

/-- An element that accounts for any number of names is left out. -/
theorem ones_many (h : many element = true) : ones many (element :: rest) = ones many rest :=
  List.filter_cons_of_neg (by simp [h])

/-- An element of the other kind stays. -/
theorem ones_one (h : many element = false) :
    ones many (element :: rest) = element :: ones many rest :=
  List.filter_cons_of_pos (by simp [h])

/-- Elements cover one name for each that accounts for one. -/
theorem covers_of_ones {elements : List γ}
    (h : List.Forall₂ (fun element name => fits element name = true) (ones many elements) names) :
    Covers many fits elements names := by
  induction elements generalizing names with
  | nil =>
    cases h
    exact .nil
  | cons element rest ih =>
    cases hmany : many element with
    | true =>
      rw [ones_many hmany] at h
      exact .skip hmany (ih h)
    | false =>
      rw [ones_one hmany] at h
      cases h with
      | cons hfit hrest => exact .one hmany hfit (ih hrest)

/-- Where each element fits a name, names can be given that the elements fit in order. -/
theorem exists_fits {elements : List γ}
    (h : ∀ element ∈ elements, ∃ name, fits element name = true) :
    ∃ names, List.Forall₂ (fun element name => fits element name = true) elements names := by
  induction elements with
  | nil => exact ⟨[], .nil⟩
  | cons element rest ih =>
    obtain ⟨name, hfit⟩ := h element List.mem_cons_self
    obtain ⟨names, hrest⟩ := ih fun other hmem => h other (List.mem_cons_of_mem _ hmem)
    exact ⟨name :: names, .cons hfit hrest⟩

/-- Elements cover no fewer names. -/
theorem Covers.length_ones {elements : List γ} (h : Covers many fits elements names) :
    (ones many elements).length ≤ names.length := by
  induction h with
  | nil => exact Nat.le_refl _
  | skip hmany below ih =>
    rw [ones_many hmany]
    exact ih
  | more hmany below ih => exact Nat.le_succ_of_le ih
  | one hmany hfit below ih =>
    rw [ones_one hmany]
    exact Nat.succ_le_succ ih

/-- Where they cover no more, each accounts for the name in its place. -/
theorem Covers.forall_ones {elements : List γ} (h : Covers many fits elements names)
    (hlength : names.length = (ones many elements).length) :
    List.Forall₂ (fun element name => fits element name = true) (ones many elements) names := by
  induction h with
  | nil => exact .nil
  | skip hmany below ih =>
    rw [ones_many hmany] at hlength ⊢
    exact ih hlength
  | more hmany below ih =>
    have hless := below.length_ones
    rw [List.length_cons] at hlength
    omega
  | one hmany hfit below ih =>
    rw [ones_one hmany] at hlength ⊢
    exact .cons hfit (ih (Nat.succ.inj hlength))

/-- Each element that accounts for one name fits one. -/
theorem Covers.exists_fit {elements : List γ} (h : Covers many fits elements names)
    (hmem : element ∈ ones many elements) : ∃ name ∈ names, fits element name = true := by
  induction h with
  | nil => cases hmem
  | skip hmany below ih =>
    rw [ones_many hmany] at hmem
    exact ih hmem
  | more hmany below ih =>
    obtain ⟨name, hname, hfit⟩ := ih hmem
    exact ⟨name, List.mem_cons_of_mem _ hname, hfit⟩
  | one hmany hfit below ih =>
    rw [ones_one hmany] at hmem
    obtain rfl | hmem := List.mem_cons.mp hmem
    · exact ⟨_, List.mem_cons_self, hfit⟩
    · obtain ⟨name, hname, hfit⟩ := ih hmem
      exact ⟨name, List.mem_cons_of_mem _ hname, hfit⟩

/-- A first name that the first of them does not fit is accounted for by an element in front. -/
theorem Covers.tail {elements : List γ} (h : Covers many fits elements (name :: names))
    (hmisses : ∀ element ∈ (ones many elements).head?, fits element name = false) :
    Covers many fits elements names := by
  generalize hall : name :: names = all at h
  induction h with
  | nil => cases hall
  | skip hmany below ih =>
    rw [ones_many hmany] at hmisses
    exact .skip hmany (ih hmisses hall)
  | more hmany below ih =>
    obtain ⟨rfl, rfl⟩ := List.cons.inj hall
    exact below
  | one hmany hfit below ih =>
    obtain ⟨rfl, rfl⟩ := List.cons.inj hall
    rw [ones_one hmany] at hmisses
    cases hfit.symm.trans (hmisses _ rfl)

/-- Names that fit the same elements are covered alike. -/
theorem Covers.congr {elements : List γ} {names' : List ν} (h : Covers many fits elements names)
    (hnames : List.Forall₂
      (fun name name' => ∀ element ∈ elements, fits element name = fits element name')
      names names') : Covers many fits elements names' := by
  induction h generalizing names' with
  | nil =>
    cases hnames
    exact .nil
  | skip hmany below ih =>
    exact .skip hmany (ih (hnames.imp fun _ _ hsame other hmem =>
      hsame other (List.mem_cons_of_mem _ hmem)))
  | more hmany below ih =>
    cases hnames with
    | cons hsame hnames => exact .more hmany (ih hnames)
  | one hmany hfit below ih =>
    cases hnames with
    | cons hsame hnames =>
      refine .one hmany ((hsame _ List.mem_cons_self).symm.trans hfit) (ih ?_)
      exact hnames.imp fun _ _ hsame other hmem => hsame other (List.mem_cons_of_mem _ hmem)

/-- Two names that an element tells apart are told apart by the elements around it, where each
of these fits a name. -/
theorem covers_apart {elements front back : List γ} {before after : List ν} {name' : ν}
    (hones : ones many elements = front ++ element :: back)
    (hfit : fits element name = true) (hmiss : fits element name' = false)
    (hfront : List.Forall₂ (fun element name => fits element name = true) front before)
    (hback : List.Forall₂ (fun element name => fits element name = true) back after) :
    Covers many fits elements (before ++ name :: after) ∧
      ¬Covers many fits elements (before ++ name' :: after) := by
  apply And.intro
  · apply covers_of_ones
    rw [hones]
    exact List.rel_append hfront (.cons hfit hback)
  · intro h
    have hlength : (before ++ name' :: after).length = (ones many elements).length := by
      rw [hones]
      simp only [List.length_append, List.length_cons, hfront.length_eq, hback.length_eq]
    have hall := h.forall_ones hlength
    rw [hones] at hall
    have hdrop := List.forall₂_drop front.length hall
    rw [List.drop_left, hfront.length_eq, List.drop_left] at hdrop
    cases hdrop with
    | cons hfit' _ => cases hfit'.symm.trans hmiss

end Wildcards

end Library
