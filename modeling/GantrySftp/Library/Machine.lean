import Mathlib

/-!
# Machines whose steps may be impossible

A step takes a state and an input to another state, or to none where it is not possible. What
every step preserves holds after any number of them, and where every step brings a state nearer
to its end, there are only so many. A machine that keeps its parts in a list moves one of them at
a time, which changes what the list holds by that part alone.
-/

namespace Library

section

variable {σ ι : Type*} {step : σ → ι → Option σ}

/-- Steps after one another, all of them possible. -/
def runSteps (step : σ → ι → Option σ) (state : σ) (inputs : List ι) : Option σ :=
  inputs.foldlM step state

/-- No steps. -/
@[simp] theorem runSteps_nil (state : σ) : runSteps step state [] = some state := rfl

/-- A first step, and the others from where it leads. -/
theorem runSteps_cons {state last : σ} {input : ι} {inputs : List ι} :
    runSteps step state (input :: inputs) = some last ↔
      ∃ next, step state input = some next ∧ runSteps step next inputs = some last := by
  unfold runSteps
  rw [List.foldlM_cons]
  exact Option.bind_eq_some_iff

/-- What every step preserves holds wherever the steps lead. -/
theorem runSteps_preserves {Holds : σ → Prop}
    (hstep : ∀ state input next, Holds state → step state input = some next → Holds next)
    {state last : σ} {inputs : List ι} (hstate : Holds state)
    (h : runSteps step state inputs = some last) : Holds last := by
  induction inputs generalizing state with
  | nil => exact Option.some.inj h ▸ hstate
  | cons input inputs ih =>
    obtain ⟨next, hnext, hlast⟩ := runSteps_cons.mp h
    exact ih (hstep state input next hstate hnext) hlast

/-- Steps after one another, each of them allowed where it is taken. -/
inductive AllowedSteps (step : σ → ι → Option σ) (Allowed : σ → ι → Prop) : σ → List ι → σ → Prop
  | nil (state : σ) : AllowedSteps step Allowed state [] state
  | cons {state next last : σ} {input : ι} {inputs : List ι} (hallowed : Allowed state input)
    (hstep : step state input = some next) (hrest : AllowedSteps step Allowed next inputs last) :
    AllowedSteps step Allowed state (input :: inputs) last

/-- Allowed steps, and others from where they lead. -/
theorem AllowedSteps.append {Allowed : σ → ι → Prop} {state next last : σ} {inputs more : List ι}
    (hsteps : AllowedSteps step Allowed state inputs next)
    (hmore : AllowedSteps step Allowed next more last) :
    AllowedSteps step Allowed state (inputs ++ more) last := by
  induction hsteps with
  | nil state => exact hmore
  | cons hallowed hstep hrest ih => exact .cons hallowed hstep (ih hmore)

/-- What every allowed step preserves holds wherever allowed steps lead. -/
theorem AllowedSteps.preserves {Allowed : σ → ι → Prop} {Holds : σ → Prop}
    (h : ∀ state input next, Holds state → Allowed state input → step state input = some next →
      Holds next)
    {state last : σ} {inputs : List ι} (hsteps : AllowedSteps step Allowed state inputs last)
    (hstate : Holds state) : Holds last := by
  induction hsteps with
  | nil state => exact hstate
  | cons hallowed hstep hrest ih => exact ih (h _ _ _ hstate hallowed hstep)

/-- What holds where allowed steps lead held before them, or one of them brought it about. -/
theorem AllowedSteps.exists_step {Allowed : σ → ι → Prop} {state last : σ} {inputs : List ι}
    (Holds : σ → Prop) (hsteps : AllowedSteps step Allowed state inputs last) (hlast : Holds last) :
    Holds state ∨ ∃ front input back before after, inputs = front ++ input :: back ∧
      AllowedSteps step Allowed state front before ∧ step before input = some after ∧
        ¬Holds before ∧ Holds after := by
  induction hsteps with
  | nil state => exact Or.inl hlast
  | @cons state next last input inputs hallowed hstep hrest ih =>
    obtain hnext | ⟨front, later, back, before, after, rfl, hfront, hlater, hnot, hafter⟩ :=
      ih hlast
    · by_cases hstate : Holds state
      · exact Or.inl hstate
      · exact Or.inr ⟨[], input, inputs, state, next, rfl, .nil state, hstep, hstate, hnext⟩
    · exact Or.inr ⟨input :: front, later, back, before, after, rfl, .cons hallowed hstep hfront,
        hlater, hnot, hafter⟩

/-- Where every step costs something, there are no more of them than can be paid for. -/
theorem length_le_of_runSteps {Holds : σ → Prop} {budget : σ → ℕ}
    (hstep : ∀ state input next, Holds state → step state input = some next →
      Holds next ∧ budget next < budget state)
    {state last : σ} {inputs : List ι} (hstate : Holds state)
    (h : runSteps step state inputs = some last) :
    inputs.length + budget last ≤ budget state := by
  induction inputs generalizing state with
  | nil =>
    rw [Option.some.inj h]
    simp
  | cons input inputs ih =>
    obtain ⟨next, hnext, hlast⟩ := runSteps_cons.mp h
    obtain ⟨hholds, hless⟩ := hstep state input next hstate hnext
    have hrest := ih hholds hlast
    rw [List.length_cons]
    omega

end

section

variable {α β : Type*} {parts : List α} {index : ℕ} {old : α}

/-- A part stands before the others, and a part that replaces it as well. -/
theorem exists_perm_set (h : parts[index]? = some old) :
    ∃ others, parts.Perm (old :: others) ∧
      ∀ new, (parts.set index new).Perm (new :: others) := by
  obtain ⟨hindex, rfl⟩ := List.getElem?_eq_some_iff.mp h
  exact ⟨parts.eraseIdx index, (List.getElem_cons_eraseIdx_perm hindex).symm,
    List.set_perm_cons_eraseIdx hindex⟩

/-- What the parts hold together changes by the part that moves. -/
theorem perm_flatMap_set (h : parts[index]? = some old) (hold : α → List β) (new : α) :
    (hold old ++ (parts.set index new).flatMap hold).Perm (hold new ++ parts.flatMap hold) := by
  obtain ⟨others, hparts, hset⟩ := exists_perm_set h
  have hbefore := hparts.flatMap_right hold
  have hafter := (hset new).flatMap_right hold
  rw [List.flatMap_cons] at hbefore hafter
  have hswap : (hold old ++ (hold new ++ others.flatMap hold)).Perm
      (hold new ++ (hold old ++ others.flatMap hold)) := by
    rw [← List.append_assoc, ← List.append_assoc]
    exact List.perm_append_comm.append_right _
  exact (hafter.append_left _).trans (hswap.trans (hbefore.symm.append_left _))

/-- What the parts weigh together changes by the part that moves. -/
theorem sum_map_set (h : parts[index]? = some old) (weight : α → ℕ) (new : α) :
    weight old + ((parts.set index new).map weight).sum = weight new + (parts.map weight).sum := by
  obtain ⟨others, hparts, hset⟩ := exists_perm_set h
  rw [(hparts.map weight).sum_nat, ((hset new).map weight).sum_nat, List.map_cons, List.map_cons,
    List.sum_cons, List.sum_cons]
  omega

/-- An item that is taken is held from then on. -/
theorem perm_take {whole past held held' : List β} {item : β} (h : whole.Perm (past ++ held))
    (hheld : held'.Perm (item :: held)) : (whole ++ [item]).Perm (past ++ held') := by
  have hmoved : (past ++ held ++ [item]).Perm (past ++ (item :: held)) := by
    rw [List.append_assoc]
    exact (List.perm_append_singleton item held).append_left past
  exact (h.append_right _).trans (hmoved.trans (hheld.symm.append_left past))

/-- An item that is let go is past from then on. -/
theorem perm_pass {whole past held held' : List β} {item : β} (h : whole.Perm (past ++ held))
    (hheld : (item :: held').Perm held) : whole.Perm (past ++ [item] ++ held') := by
  rw [List.append_assoc]
  exact h.trans (hheld.symm.append_left past)

/-- What holds of all parts holds of them after one moves to where it holds as well. -/
theorem forall_mem_set {Holds : α → Prop} (h : ∀ part ∈ parts, Holds part) (index : ℕ) {new : α}
    (hnew : Holds new) : ∀ part ∈ parts.set index new, Holds part := by
  intro part hmem
  obtain hmem | rfl := List.mem_or_eq_of_mem_set hmem
  · exact h part hmem
  · exact hnew

end

end Library
