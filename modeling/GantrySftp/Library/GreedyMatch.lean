import GantrySftp.Library.Wildcards

/-!
# Matching with one place to go back to

A sequence of elements is matched from the left, and where an element does not fit, matching goes
back to the last element that accounts for any number of names and lets it account for one more.
That single place is enough: the outcome is that of a search over all the ways to cover the names.
An element may refuse to be tested, which ends the matching.
-/

namespace Library

namespace Wildcards

variable {γ ν ε : Type}

/-- The element fits the name, which one that refuses does not. -/
def accepts (test : γ → ν → Except ε Bool) (element : γ) (name : ν) : Bool :=
  match test element name with
  | .ok fit => fit
  | .error _ => false

/-- The first element, if there is one, does not fit the name. -/
def Misses (many : γ → Bool) (test : γ → ν → Except ε Bool) : List γ → ν → Prop
  | [], _ => True
  | element :: _, name => many element = false ∧ test element name = .ok false

/-- How the loop ends and after how many turns, from the place to go back to, the elements and the
names. The place holds what follows the last element that accounts for any number of names, and
the names that this began with. -/
inductive Loops (many : γ → Bool) (test : γ → ν → Except ε Bool) :
    Option (List γ × List ν) → List γ → List ν → Except ε Bool → ℕ → Prop
  | done (last : Option (List γ × List ν)) (elements : List γ) :
      Loops many test last elements [] (.ok (elements.all many)) 0
  | many {last : Option (List γ × List ν)} {element : γ} {rest : List γ} {name : ν}
      {names : List ν} {result : Except ε Bool} {turns : ℕ} (h : many element = true)
      (more : Loops many test (some (rest, name :: names)) rest (name :: names) result turns) :
      Loops many test last (element :: rest) (name :: names) result (turns + 1)
  | fit {last : Option (List γ × List ν)} {element : γ} {rest : List γ} {name : ν}
      {names : List ν} {result : Except ε Bool} {turns : ℕ} (h : many element = false)
      (hfit : test element name = .ok true) (more : Loops many test last rest names result turns) :
      Loops many test last (element :: rest) (name :: names) result (turns + 1)
  | back {resumed : List γ} {begun : List ν} {elements : List γ} {name : ν} {names : List ν}
      {result : Except ε Bool} {turns : ℕ} (h : Misses many test elements name)
      (more : Loops many test (some (resumed, begun.tail)) resumed begun.tail result turns) :
      Loops many test (some (resumed, begun)) elements (name :: names) result (turns + 1)
  | stop {elements : List γ} {name : ν} {names : List ν} (h : Misses many test elements name) :
      Loops many test none elements (name :: names) (.ok false) 1
  | refused {last : Option (List γ × List ν)} {element : γ} {rest : List γ} {name : ν}
      {names : List ν} {error : ε} (h : many element = false)
      (herror : test element name = .error error) :
      Loops many test last (element :: rest) (name :: names) (.error error) 1

variable {many : γ → Bool} {test : γ → ν → Except ε Bool}

/-! ## The place to go back to -/

/-- The elements matched since the place to go back to account for one name each. -/
def Behind (many : γ → Bool) : Option (List γ × List ν) → List γ → List ν → Prop
  | none, _, _ => True
  | some (resumed, begun), elements, names =>
    ∃ front passed, resumed = front ++ elements ∧ begun = passed ++ names ∧
      front.length = passed.length ∧ ∀ element ∈ front, many element = false

/-- Nothing was matched since a place just taken. -/
theorem behind_self (elements : List γ) (names : List ν) :
    Behind many (some (elements, names)) elements names :=
  ⟨[], [], rfl, rfl, rfl, by simp⟩

/-- One more element was matched with one more name. -/
theorem Behind.fit {last : Option (List γ × List ν)} {element : γ} {rest : List γ} {name : ν}
    {names : List ν} (h : Behind many last (element :: rest) (name :: names))
    (hone : many element = false) : Behind many last rest names := by
  cases last with
  | none => trivial
  | some last =>
    obtain ⟨resumed, begun⟩ := last
    obtain ⟨front, passed, rfl, rfl, hlength, hfront⟩ := h
    refine ⟨front ++ [element], passed ++ [name], by simp, by simp, by simp [hlength], ?_⟩
    intro other hmem
    obtain hmem | hmem := List.mem_append.mp hmem
    · exact hfront other hmem
    · exact List.mem_singleton.mp hmem ▸ hone

/-- What follows the place to go back to covers the names from a later one on. -/
def CoversLater (many : γ → Bool) (test : γ → ν → Except ε Bool) :
    Option (List γ × List ν) → Prop
  | none => False
  | some (resumed, begun) =>
    ∃ count, 1 ≤ count ∧ count ≤ begun.length ∧
      Covers many (accepts test) resumed (begun.drop count)

/-- Elements that account for one name each cover as many names as they are. -/
theorem length_of_covers {front : List γ} {names : List ν}
    (hfront : ∀ element ∈ front, many element = false)
    (h : Covers many (accepts test) front names) : names.length = front.length := by
  induction h with
  | nil => rfl
  | skip hmany _ _ => exact absurd hmany (by simp [hfront _ List.mem_cons_self])
  | more hmany _ _ => exact absurd hmany (by simp [hfront _ List.mem_cons_self])
  | one _ _ _ ih =>
    exact congrArg Nat.succ (ih fun other hmem => hfront other (List.mem_cons_of_mem _ hmem))

/-- Where what follows the place covers later names, what is left of the elements covers what is
left of those. -/
theorem CoversLater.left {last : Option (List γ × List ν)} {elements : List γ} {names : List ν}
    (h : CoversLater many test last) (hbehind : Behind many last elements names) :
    ∃ count, 1 ≤ count ∧ count ≤ names.length ∧
      Covers many (accepts test) elements (names.drop count) := by
  cases last with
  | none => exact h.elim
  | some last =>
    obtain ⟨resumed, begun⟩ := last
    obtain ⟨front, passed, rfl, rfl, hlength, hfront⟩ := hbehind
    obtain ⟨count, hpos, hle, hcovers⟩ := h
    obtain ⟨names₁, names₂, heq, hcovered, hrest⟩ := covers_append.mp hcovers
    have hshort := length_of_covers hfront hcovered
    have htotal := congrArg List.length heq
    simp only [List.length_drop, List.length_append] at htotal hle
    refine ⟨count, hpos, by omega, ?_⟩
    have hdrop : names.drop count = names₂ := by
      have hdropped := congrArg (List.drop names₁.length) heq
      rw [List.drop_left, List.drop_drop, hshort, hlength,
        Nat.add_comm count, ← List.drop_drop, List.drop_left] at hdropped
      exact hdropped
    rw [hdrop]
    exact hrest

/-- An element that accounts for any number of names accounts for those in front as well. -/
theorem covers_of_drop {element : γ} {rest : List γ} {names : List ν} {count : ℕ}
    {fits : γ → ν → Bool} (hmany : many element = true)
    (h : Covers many fits (element :: rest) (names.drop count)) :
    Covers many fits (element :: rest) names := by
  induction count generalizing names with
  | zero => exact h
  | succ count ih =>
    cases names with
    | nil => exact h
    | cons name names => exact .more hmany (ih h)

/-- An element that accounts for any number of names leaves the rest from some name on. -/
theorem covers_many_iff {element : γ} {rest : List γ} {names : List ν} {fits : γ → ν → Bool}
    (hmany : many element = true) :
    Covers many fits (element :: rest) names ↔
      ∃ count ≤ names.length, Covers many fits rest (names.drop count) := by
  apply Iff.intro
  · intro h
    have hsplit : Covers many fits ([element] ++ rest) names := h
    obtain ⟨names₁, names₂, rfl, -, hrest⟩ := covers_append.mp hsplit
    exact ⟨names₁.length, by simp, by simpa using hrest⟩
  · rintro ⟨count, -, hrest⟩
    exact covers_of_drop hmany (.skip hmany hrest)

/-- Elements cover names exactly when the names can be cut into a piece for each element, of one
name that fits it unless it accounts for any number. -/
theorem covers_iff_pieces {elements : List γ} {names : List ν} {fits : γ → ν → Bool} :
    Covers many fits elements names ↔
      ∃ pieces : List (List ν), pieces.flatten = names ∧
        List.Forall₂ (fun element piece =>
          many element = true ∨ ∃ name, piece = [name] ∧ fits element name = true)
            elements pieces := by
  apply Iff.intro
  · intro h
    induction elements generalizing names with
    | nil =>
      cases h
      exact ⟨[], rfl, .nil⟩
    | cons element rest ih =>
      have hsplit : Covers many fits ([element] ++ rest) names := h
      obtain ⟨names₁, names₂, rfl, hone, hrest⟩ := covers_append.mp hsplit
      obtain ⟨pieces, rfl, hpieces⟩ := ih hrest
      refine ⟨names₁ :: pieces, rfl, .cons ?_ hpieces⟩
      cases hmany : many element with
      | true => exact Or.inl rfl
      | false => exact Or.inr ((covers_one_iff hmany).mp hone)
  · rintro ⟨pieces, rfl, hpieces⟩
    induction hpieces with
    | nil => exact .nil
    | @cons element piece rest pieces hpiece _ ih =>
      have hfront : Covers many fits [element] piece := by
        cases hmany : many element with
        | true => exact covers_many hmany piece
        | false =>
          apply (covers_one_iff hmany).mpr
          obtain hother | hone := hpiece
          · exact absurd hother (by simp [hmany])
          · exact hone
      exact hfront.append ih

/-! ## What the loop decides -/

/-- No names are covered exactly by elements that account for any number. -/
theorem covers_nil_iff {elements : List γ} {fits : γ → ν → Bool} :
    Covers many fits elements [] ↔ elements.all many = true := by
  induction elements with
  | nil => exact ⟨fun _ => rfl, fun _ => .nil⟩
  | cons element rest ih =>
    rw [List.all_cons, Bool.and_eq_true, ← ih]
    apply Iff.intro
    · intro h
      cases h with
      | skip hmany hrest => exact ⟨hmany, hrest⟩
    · rintro ⟨hmany, hrest⟩
      exact .skip hmany hrest

/-- Elements that miss the first name do not cover the names. -/
theorem Misses.not_covers {elements : List γ} {name : ν} {names : List ν}
    (h : Misses many test elements name) :
    ¬Covers many (accepts test) elements (name :: names) := by
  intro hcovers
  cases hcovers with
  | skip hmany _ => exact absurd hmany (by simp [h.1])
  | more hmany _ => exact absurd hmany (by simp [h.1])
  | one _ hfit _ =>
    rw [accepts, h.2] at hfit
    cases hfit

/-- The loop that is not refused finds whether the elements cover the names, or what follows the
place to go back to covers later ones. -/
theorem Loops.decides {last : Option (List γ × List ν)} {elements : List γ} {names : List ν}
    {result : Except ε Bool} {turns : ℕ} (h : Loops many test last elements names result turns)
    (hbehind : Behind many last elements names) {matched : Bool} (hresult : result = .ok matched) :
    matched = true ↔
      Covers many (accepts test) elements names ∨ CoversLater many test last := by
  induction h with
  | done last elements =>
    obtain rfl := Except.ok.inj hresult
    rw [covers_nil_iff]
    refine ⟨Or.inl, fun h => h.elim id fun hlater => ?_⟩
    obtain ⟨count, hpos, hle, -⟩ := hlater.left hbehind
    exact absurd hle (by simp; omega)
  | @many last element rest name names result turns hmany more ih =>
    rw [ih (behind_self rest (name :: names)) hresult]
    have hnow : Covers many (accepts test) (element :: rest) (name :: names) ↔
        Covers many (accepts test) rest (name :: names) ∨
          CoversLater many test (some (rest, name :: names)) := by
      rw [covers_many_iff hmany]
      apply Iff.intro
      · rintro ⟨count, hle, hrest⟩
        cases count with
        | zero => exact Or.inl hrest
        | succ count => exact Or.inr ⟨count + 1, Nat.succ_pos count, hle, hrest⟩
      · rintro (hrest | ⟨count, -, hle, hrest⟩)
        · exact ⟨0, Nat.zero_le _, hrest⟩
        · exact ⟨count, hle, hrest⟩
    rw [← hnow]
    refine ⟨Or.inl, fun h => h.elim id fun hlater => ?_⟩
    obtain ⟨count, -, -, hcovers⟩ := hlater.left hbehind
    exact covers_of_drop hmany hcovers
  | @fit last element rest name names result turns hone hfit more ih =>
    rw [ih (hbehind.fit hone) hresult]
    apply or_congr_left
    apply Iff.intro
    · exact .one hone (by rw [accepts, hfit])
    · intro hcovers
      cases hcovers with
      | skip hmany _ => exact absurd hmany (by simp [hone])
      | more hmany _ => exact absurd hmany (by simp [hone])
      | one _ _ hrest => exact hrest
  | @back resumed begun elements name names result turns hmisses more ih =>
    rw [ih (behind_self resumed begun.tail) hresult, or_iff_right hmisses.not_covers]
    obtain ⟨front, passed, -, rfl, -, -⟩ := hbehind
    apply Iff.intro
    · rintro (hcovers | ⟨count, -, hle, hcovers⟩)
      · exact ⟨1, Nat.le_refl 1, by simp; omega, by simpa using hcovers⟩
      · refine ⟨count + 1, Nat.le_add_left 1 count, ?_, ?_⟩
        · simp only [List.length_tail, List.length_append, List.length_cons] at hle ⊢
          omega
        · rwa [List.drop_tail] at hcovers
    · rintro ⟨count, hpos, hle, hcovers⟩
      obtain ⟨count, rfl⟩ := Nat.exists_eq_add_of_le' hpos
      cases count with
      | zero => exact Or.inl (by simpa using hcovers)
      | succ count =>
        refine Or.inr ⟨count + 1, Nat.le_add_left 1 count, ?_, ?_⟩
        · simp only [List.length_tail, List.length_append, List.length_cons] at hle ⊢
          omega
        · rwa [List.drop_tail]
  | stop hmisses =>
    obtain rfl := Except.ok.inj hresult
    refine ⟨by simp, fun h => h.elim (fun hcovers => absurd hcovers hmisses.not_covers) False.elim⟩
  | refused => cases hresult

/-- The loop from the start that is not refused finds whether the elements cover the names. -/
theorem Loops.covers {elements : List γ} {names : List ν} {matched : Bool} {turns : ℕ}
    (h : Loops many test none elements names (.ok matched) turns) :
    matched = true ↔ Covers many (accepts test) elements names := by
  rw [h.decides trivial rfl]
  exact or_iff_left id

/-! ## How long it takes -/

/-- A bound on the turns the loop can take. -/
def turnsBound : Option (List γ × List ν) → List γ → List ν → ℕ
  | none, elements, names => elements.length + 1 + names.length * elements.length
  | some (resumed, begun), elements, _ =>
    elements.length + begun.length * (resumed.length + 1)

/-- Taking a new place to go back to leaves less to do. -/
theorem turnsBound_many {last : Option (List γ × List ν)} {element : γ} {rest : List γ}
    {names : List ν} (hbehind : Behind many last (element :: rest) names) :
    turnsBound (some (rest, names)) rest names + 1 ≤ turnsBound last (element :: rest) names := by
  cases last with
  | none =>
    simp only [turnsBound, List.length_cons]
    omega
  | some last =>
    obtain ⟨resumed, begun⟩ := last
    obtain ⟨front, passed, rfl, rfl, -, -⟩ := hbehind
    have hmul : names.length * (rest.length + 1) ≤
        (passed ++ names).length * ((front ++ element :: rest).length + 1) := by
      apply Nat.mul_le_mul
      · simp
      · simp only [List.length_append, List.length_cons]
        omega
    simp only [turnsBound, List.length_cons]
    omega

/-- Matching an element leaves less to do. -/
theorem turnsBound_fit (last : Option (List γ × List ν)) (element : γ) (rest : List γ) (name : ν)
    (names : List ν) :
    turnsBound last rest names + 1 ≤ turnsBound last (element :: rest) (name :: names) := by
  cases last with
  | none =>
    have hmul : names.length * rest.length ≤ (names.length + 1) * (rest.length + 1) :=
      Nat.mul_le_mul (Nat.le_succ _) (Nat.le_succ _)
    simp only [turnsBound, List.length_cons]
    omega
  | some last =>
    simp only [turnsBound, List.length_cons]
    omega

/-- Going back leaves less to do. -/
theorem turnsBound_back (resumed : List γ) {begun : List ν} (elements : List γ) (names : List ν)
    (hbegun : begun ≠ []) :
    turnsBound (some (resumed, begun.tail)) resumed begun.tail + 1 ≤
      turnsBound (some (resumed, begun)) elements names := by
  cases begun with
  | nil => exact absurd rfl hbegun
  | cons first begun =>
    simp only [turnsBound, List.tail_cons, List.length_cons, Nat.succ_mul]
    omega

/-- One element at least is left, or nothing is there to go back to. -/
theorem turnsBound_pos (last : Option (List γ × List ν)) (element : γ) (rest : List γ)
    (names : List ν) : 1 ≤ turnsBound last (element :: rest) names := by
  cases last <;> simp only [turnsBound, List.length_cons] <;> omega

/-- Where an element is missed, the loop stops or goes back. -/
theorem exists_loops_of_misses {last : Option (List γ × List ν)} {elements : List γ} {name : ν}
    {names : List ν} (hbehind : Behind many last elements (name :: names))
    (hmisses : Misses many test elements name)
    (ih : ∀ resumed begun, last = some (resumed, begun) →
      ∃ result turns, Loops many test (some (resumed, begun.tail)) resumed begun.tail result turns ∧
        turns ≤ turnsBound (some (resumed, begun.tail)) resumed begun.tail) :
    ∃ result turns, Loops many test last elements (name :: names) result turns ∧
      turns ≤ turnsBound last elements (name :: names) := by
  cases last with
  | none =>
    refine ⟨_, _, .stop hmisses, ?_⟩
    simp only [turnsBound]
    omega
  | some last =>
    obtain ⟨resumed, begun⟩ := last
    obtain ⟨result, turns, hloops, hturns⟩ := ih resumed begun rfl
    have hbegun : begun ≠ [] := by
      obtain ⟨front, passed, -, rfl, -, -⟩ := hbehind
      simp
    exact ⟨result, turns + 1, .back hmisses hloops,
      Nat.le_trans (Nat.succ_le_succ hturns)
        (turnsBound_back resumed elements (name :: names) hbegun)⟩

/-- The loop ends within its bound. -/
theorem exists_loops {last : Option (List γ × List ν)} {elements : List γ} {names : List ν}
    (hbehind : Behind many last elements names) :
    ∃ result turns, Loops many test last elements names result turns ∧
      turns ≤ turnsBound last elements names := by
  induction hbound : turnsBound last elements names using Nat.strongRecOn
    generalizing last elements names with
  | ind bound ih =>
    subst hbound
    cases names with
    | nil => exact ⟨_, 0, .done last elements, Nat.zero_le _⟩
    | cons name names =>
      have hback : ∀ resumed begun, last = some (resumed, begun) →
          ∃ result turns,
            Loops many test (some (resumed, begun.tail)) resumed begun.tail result turns ∧
              turns ≤ turnsBound (some (resumed, begun.tail)) resumed begun.tail := by
        rintro resumed begun rfl
        have hbegun : begun ≠ [] := by
          obtain ⟨front, passed, -, rfl, -, -⟩ := hbehind
          simp
        exact ih _ (turnsBound_back resumed elements (name :: names) hbegun)
          (behind_self resumed begun.tail) rfl
      cases elements with
      | nil => exact exists_loops_of_misses hbehind trivial hback
      | cons element rest =>
        cases hmany : many element with
        | true =>
          have hless := turnsBound_many hbehind
          obtain ⟨result, turns, hloops, hturns⟩ := ih _ hless (behind_self rest (name :: names)) rfl
          exact ⟨result, turns + 1, .many hmany hloops,
            Nat.le_trans (Nat.succ_le_succ hturns) hless⟩
        | false =>
          cases htest : test element name with
          | error error =>
            exact ⟨_, 1, .refused hmany htest, turnsBound_pos last element rest (name :: names)⟩
          | ok fit =>
            cases fit with
            | true =>
              have hless := turnsBound_fit last element rest name names
              obtain ⟨result, turns, hloops, hturns⟩ := ih _ hless (hbehind.fit hmany) rfl
              exact ⟨result, turns + 1, .fit hmany htest hloops,
                Nat.le_trans (Nat.succ_le_succ hturns) hless⟩
            | false => exact exists_loops_of_misses hbehind ⟨hmany, htest⟩ hback

/-- The loop ends in one way. -/
theorem Loops.unique {last : Option (List γ × List ν)} {elements : List γ} {names : List ν}
    {result result' : Except ε Bool} {turns turns' : ℕ}
    (h : Loops many test last elements names result turns)
    (h' : Loops many test last elements names result' turns') : result = result' := by
  induction h generalizing turns' with
  | done => cases h'; rfl
  | many hmany more ih =>
    cases h' with
    | many _ more' => exact ih more'
    | fit hone _ _ => exact absurd hmany (by simp [hone])
    | back hmisses _ => exact absurd hmany (by simp [hmisses.1])
    | stop hmisses => exact absurd hmany (by simp [hmisses.1])
    | refused hone _ => exact absurd hmany (by simp [hone])
  | fit hone hfit more ih =>
    cases h' with
    | many hmany _ => exact absurd hmany (by simp [hone])
    | fit _ _ more' => exact ih more'
    | back hmisses _ => cases hfit.symm.trans hmisses.2
    | stop hmisses => cases hfit.symm.trans hmisses.2
    | refused _ herror => cases hfit.symm.trans herror
  | back hmisses more ih =>
    cases h' with
    | many hmany _ => exact absurd hmany (by simp [hmisses.1])
    | fit _ hfit _ => cases hfit.symm.trans hmisses.2
    | back _ more' => exact ih more'
    | refused _ herror => cases herror.symm.trans hmisses.2
  | stop hmisses =>
    cases h' with
    | many hmany _ => exact absurd hmany (by simp [hmisses.1])
    | fit _ hfit _ => cases hfit.symm.trans hmisses.2
    | stop _ => rfl
    | refused _ herror => cases herror.symm.trans hmisses.2
  | refused hone herror =>
    cases h' with
    | many hmany _ => exact absurd hmany (by simp [hone])
    | fit _ hfit _ => cases hfit.symm.trans herror
    | back hmisses _ => cases herror.symm.trans hmisses.2
    | stop hmisses => cases herror.symm.trans hmisses.2
    | refused _ herror' => exact herror.symm.trans herror' ▸ rfl

/-! ## When an element is asked that refuses -/

/-- An element that refuses stands behind elements that each account for any number of names or
fit one. -/
inductive Exposed (many : γ → Bool) (test : γ → ν → Except ε Bool) : List γ → Prop
  | here {element : γ} {rest : List γ} {name : ν} {error : ε} (h : many element = false)
      (herror : test element name = .error error) : Exposed many test (element :: rest)
  | many {element : γ} {rest : List γ} (h : many element = true)
      (more : Exposed many test rest) : Exposed many test (element :: rest)
  | fit {element : γ} {rest : List γ} {name : ν} (h : many element = false)
      (hfit : test element name = .ok true) (more : Exposed many test rest) :
      Exposed many test (element :: rest)

/-- The loop is refused only by an element that it can reach. -/
theorem Loops.exposed {last : Option (List γ × List ν)} {elements : List γ} {names : List ν}
    {result : Except ε Bool} {turns : ℕ} (h : Loops many test last elements names result turns)
    {error : ε} (hresult : result = .error error) :
    Exposed many test elements ∨ ∃ place ∈ last, Exposed many test place.1 := by
  induction h with
  | done => cases hresult
  | @many last element rest name names result turns hmany more ih =>
    obtain hrest | ⟨place, hplace, hresumed⟩ := ih hresult
    · exact Or.inl (.many hmany hrest)
    · obtain rfl := Option.some.inj hplace
      exact Or.inl (.many hmany hresumed)
  | fit hone hfit more ih =>
    obtain hrest | hresumed := ih hresult
    · exact Or.inl (.fit hone hfit hrest)
    · exact Or.inr hresumed
  | @back resumed begun elements name names result turns hmisses more ih =>
    obtain hresumed | ⟨place, hplace, hresumed⟩ := ih hresult
    · exact Or.inr ⟨_, rfl, hresumed⟩
    · obtain rfl := Option.some.inj hplace
      exact Or.inr ⟨_, rfl, hresumed⟩
  | stop => cases hresult
  | refused hone herror => exact Or.inl (.here hone herror)

/-- An element that can be reached is asked about some names, wherever the place to go back to
is. -/
theorem Exposed.refuses {elements : List γ} (h : Exposed many test elements) :
    ∃ name names, ∀ last, ∃ error turns,
      Loops many test last elements (name :: names) (.error error) turns := by
  induction h with
  | @here element rest name error hone herror =>
    exact ⟨name, [], fun last => ⟨error, 1, .refused hone herror⟩⟩
  | @many element rest hmany more ih =>
    obtain ⟨name, names, hloops⟩ := ih
    refine ⟨name, names, fun last => ?_⟩
    obtain ⟨error, turns, hrest⟩ := hloops (some (rest, name :: names))
    exact ⟨error, turns + 1, .many hmany hrest⟩
  | @fit element rest name hone hfit more ih =>
    obtain ⟨next, names, hloops⟩ := ih
    refine ⟨name, next :: names, fun last => ?_⟩
    obtain ⟨error, turns, hrest⟩ := hloops last
    exact ⟨error, turns + 1, .fit hone hfit hrest⟩

/-- Behind an element that accounts for any number of names, the names can begin with any. -/
theorem Exposed.refuses_behind {elements : List γ} (h : Exposed many test elements)
    (hsteady : ∀ element name error, test element name = .error error →
      ∀ other, ∃ error', test element other = .error error') (first : ν) :
    ∃ names error turns, Loops many test (some (elements, first :: names)) elements
      (first :: names) (.error error) turns := by
  induction h with
  | @here element rest name error hone herror =>
    obtain ⟨error', herror'⟩ := hsteady element name error herror first
    exact ⟨[], error', 1, .refused hone herror'⟩
  | @many element rest hmany more ih =>
    obtain ⟨names, error, turns, hrest⟩ := ih
    exact ⟨names, error, turns + 1, .many hmany hrest⟩
  | @fit element rest name hone hfit more ih =>
    have hexposed : Exposed many test (element :: rest) := .fit hone hfit more
    cases hfirst : test element first with
    | error error => exact ⟨[], error, 1, .refused hone hfirst⟩
    | ok fit =>
      cases fit with
      | true =>
        obtain ⟨next, names, hloops⟩ := more.refuses
        obtain ⟨error, turns, hrest⟩ := hloops (some (element :: rest, first :: next :: names))
        exact ⟨next :: names, error, turns + 1, .fit hone hfirst hrest⟩
      | false =>
        -- the first name is missed, and matching starts again behind it
        obtain ⟨next, names, hloops⟩ := hexposed.refuses
        obtain ⟨error, turns, hagain⟩ := hloops (some (element :: rest, next :: names))
        exact ⟨next :: names, error, turns + 1, .back ⟨hone, hfirst⟩ hagain⟩

end Wildcards

end Library
