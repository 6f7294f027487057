import Mathlib

/-!
# Programs that fail and keep their state

A program reads and changes a state, and returns a value or raises an error; the changes made
before an error stay. `Meets` states what holds of the state when a program returns and when it
raises, with one rule for each way to build a program. `Does` states by which steps the state
changes, however the program ends.
-/

namespace Library

/-- Programs over a state `σ` that raise errors of type `ε`. -/
abbrev Program (σ ε : Type) := ExceptT ε (StateM σ)

namespace Program

variable {σ ε α β γ : Type}

/-- The program that does what a function of the state says. -/
def of (step : σ → Except ε α × σ) : Program σ ε α := ExceptT.mk step

/-- Run a program from a state. -/
def exec (program : Program σ ε α) (state : σ) : Except ε α × σ := program.run state

/-- Running a step is applying it. -/
@[simp] theorem exec_of (step : σ → Except ε α × σ) (state : σ) :
    (of step).exec state = step state := rfl

/-- Returning changes nothing. -/
@[simp] theorem exec_pure (value : α) (state : σ) :
    (pure value : Program σ ε α).exec state = (.ok value, state) := rfl

/-- Raising changes nothing. -/
@[simp] theorem exec_throw (error : ε) (state : σ) :
    (throw error : Program σ ε α).exec state = (.error error, state) := rfl

/-- Reading the state changes nothing. -/
@[simp] theorem exec_get (state : σ) :
    (get : Program σ ε σ).exec state = (.ok state, state) := rfl

/-- Changing the state. -/
@[simp] theorem exec_modify (change : σ → σ) (state : σ) :
    (modify change : Program σ ε PUnit).exec state = (.ok ⟨⟩, change state) := rfl

/-- The second program runs only when the first returns. -/
theorem exec_bind (first : Program σ ε α) (next : α → Program σ ε β) (state : σ) :
    (first >>= next).exec state =
      match first.exec state with
      | (.ok value, state') => (next value).exec state'
      | (.error error, state') => (.error error, state') := by
  change (ExceptT.bindCont next (first.run state).1).run (first.run state).2 = _
  unfold exec
  obtain ⟨_ | _, _⟩ := first.run state <;> rfl

/-- A handler runs only when the program raises, from the state it left. -/
theorem exec_tryCatch (program : Program σ ε α) (handler : ε → Program σ ε α) (state : σ) :
    (tryCatch program handler).exec state =
      match program.exec state with
      | (.ok value, state') => (.ok value, state')
      | (.error error, state') => (handler error).exec state' := by
  unfold exec
  simp only [tryCatch, tryCatchThe, MonadExceptOf.tryCatch, ExceptT.tryCatch, ExceptT.run_mk]
  simp only [bind, StateT.bind, ExceptT.run]
  obtain ⟨_ | _, _⟩ := program state <;> rfl

/-- A program and what is done after it in any case. What is done afterwards may raise instead. -/
def ensuring (program : Program σ ε α) (final : Program σ ε PUnit) : Program σ ε α :=
  of fun state =>
    match program.exec state with
    | (result, middle) =>
      match final.exec middle with
      | (.ok _, state') => (result, state')
      | (.error error, state') => (.error error, state')

/-- What is done in any case is done from the state the program left. -/
theorem exec_ensuring (program : Program σ ε α) (final : Program σ ε PUnit) (state : σ) :
    (ensuring program final).exec state =
      match final.exec (program.exec state).2 with
      | (.ok _, state') => ((program.exec state).1, state')
      | (.error error, state') => (.error error, state') := rfl

/-! ## What holds afterwards -/

/-- What holds of an outcome: of the value and the state, or of the error and the state. -/
def Ends (after : α → σ → Prop) (failed : ε → σ → Prop) : Except ε α × σ → Prop
  | (.ok value, state) => after value state
  | (.error error, state) => failed error state

/-- Started where `before` holds, the program returns where `after` does or raises where
`failed` does. -/
def Meets (before : σ → Prop) (program : Program σ ε α) (after : α → σ → Prop)
    (failed : ε → σ → Prop) : Prop :=
  ∀ state, before state → Ends after failed (program.exec state)

section Rules

variable {before before' : σ → Prop} {after after' : α → σ → Prop}
  {failed failed' : ε → σ → Prop}

/-- What holds of an outcome still holds with weaker conditions. -/
theorem Ends.weaken {outcome : Except ε α × σ} (h : Ends after failed outcome)
    (hafter : ∀ value state, after value state → after' value state)
    (hfailed : ∀ error state, failed error state → failed' error state) :
    Ends after' failed' outcome := by
  obtain ⟨_ | _, _⟩ := outcome
  · exact hfailed _ _ h
  · exact hafter _ _ h

/-- A stronger condition before and weaker ones afterwards. -/
theorem Meets.weaken {program : Program σ ε α} (h : Meets before program after failed)
    (hbefore : ∀ state, before' state → before state)
    (hafter : ∀ value state, after value state → after' value state)
    (hfailed : ∀ error state, failed error state → failed' error state) :
    Meets before' program after' failed' :=
  fun state hstate => (h state (hbefore state hstate)).weaken hafter hfailed

/-- A stronger condition before. -/
theorem Meets.strengthen {program : Program σ ε α} (h : Meets before program after failed)
    (hbefore : ∀ state, before' state → before state) : Meets before' program after failed :=
  h.weaken hbefore (fun _ _ => id) fun _ _ => id

/-- A program that returns at once. -/
theorem Meets.pure {value : α} (h : ∀ state, before state → after value state) :
    Meets before (pure value : Program σ ε α) after failed := h

/-- A program that raises at once. -/
theorem Meets.throw {error : ε} (h : ∀ state, before state → failed error state) :
    Meets before (throw error : Program σ ε α) after failed := h

/-- A program that is one step. -/
theorem Meets.of {step : σ → Except ε α × σ}
    (h : ∀ state, before state → Ends after failed (step state)) :
    Meets before (of step) after failed := h

/-- What holds between two programs, and whichever of them raises. -/
theorem Meets.bind {middle : β → σ → Prop} {first : Program σ ε β} {next : β → Program σ ε α}
    (hfirst : Meets before first middle failed)
    (hnext : ∀ value, Meets (middle value) (next value) after failed) :
    Meets before (first >>= next) after failed := by
  intro state hstate
  have hmiddle := hfirst state hstate
  rw [exec_bind]
  generalize first.exec state = outcome at hmiddle ⊢
  obtain ⟨_ | value, state'⟩ := outcome
  · exact hmiddle
  · exact hnext value state' hmiddle

/-- What holds between a program that raises and its handler. -/
theorem Meets.tryCatch {raised : ε → σ → Prop} {program : Program σ ε α}
    {handler : ε → Program σ ε α} (hprogram : Meets before program after raised)
    (hhandler : ∀ error, Meets (raised error) (handler error) after failed) :
    Meets before (tryCatch program handler) after failed := by
  intro state hstate
  have hmiddle := hprogram state hstate
  rw [exec_tryCatch]
  generalize program.exec state = outcome at hmiddle ⊢
  obtain ⟨error | _, state'⟩ := outcome
  · exact hhandler error state' hmiddle
  · exact hmiddle

/-- A program that reads the state may use what it read. -/
theorem Meets.get {next : σ → Program σ ε α}
    (h : ∀ state, before state → Meets (· = state) (next state) after failed) :
    Meets before (get >>= next) after failed := by
  intro state hstate
  rw [exec_bind]
  exact h state hstate state rfl

/-- What every turn of a loop keeps, with what it carries. -/
theorem Meets.foldlM {kept : β → σ → Prop} {items : List γ} {each : β → γ → Program σ ε β}
    (h : ∀ value, ∀ item ∈ items, Meets (kept value) (each value item) kept failed) (init : β) :
    Meets (kept init) (items.foldlM each init) kept failed := by
  induction items generalizing init with
  | nil => exact Meets.pure fun _ => id
  | cons item items ih =>
    rw [List.foldlM_cons]
    refine (h init item List.mem_cons_self).bind fun value => ih ?_ value
    exact fun value other hmem => h value other (List.mem_cons_of_mem _ hmem)

/-- What every turn of a loop keeps. -/
theorem Meets.forM {items : List γ} {each : γ → Program σ ε PUnit}
    (h : ∀ item ∈ items, Meets before (each item) (fun _ => before) failed) :
    Meets before (items.forM each) (fun _ => before) failed := by
  induction items with
  | nil => exact Meets.pure fun _ => id
  | cons item items ih =>
    change Meets before (each item >>= fun _ => items.forM each) _ _
    refine (h item List.mem_cons_self).bind fun _ => ih ?_
    exact fun other hmem => h other (List.mem_cons_of_mem _ hmem)

/-- A choice between programs. -/
theorem Meets.ite {condition : Prop} [Decidable condition] {yes no : Program σ ε α}
    (hyes : condition → Meets before yes after failed)
    (hno : ¬ condition → Meets before no after failed) :
    Meets before (if condition then yes else no) after failed := by
  by_cases hcondition : condition
  · rw [if_pos hcondition]
    exact hyes hcondition
  · rw [if_neg hcondition]
    exact hno hcondition

/-- Whatever the condition before, it may be assumed of a state that meets it. -/
theorem Meets.assume {program : Program σ ε α}
    (h : ∀ state, before state → Meets (· = state) program after failed) :
    Meets before program after failed :=
  fun state hstate => h state hstate state rfl

end Rules

/-! ## What a program does to the state -/

open Relation in
/-- The program changes the state by these steps only, however it ends. -/
def Does (step : σ → σ → Prop) (program : Program σ ε α) : Prop :=
  ∀ state, ReflTransGen step state (program.exec state).2

section Doing

open Relation

variable {step step' : σ → σ → Prop}

/-- A program that is one step. -/
theorem Does.of {transition : σ → Except ε α × σ}
    (h : ∀ state, step state (transition state).2) : Does step (of transition) :=
  fun state => .single (h state)

/-- A program that changes the state by a function. -/
theorem Does.modify {change : σ → σ} (h : ∀ state, step state (change state)) :
    Does step (modify change : Program σ ε PUnit) := fun state => .single (h state)

/-- A program that returns at once. -/
theorem Does.pure (value : α) : Does step (pure value : Program σ ε α) := fun _ => .refl

/-- A program that raises at once. -/
theorem Does.throw (error : ε) : Does step (throw error : Program σ ε α) := fun _ => .refl

/-- A program that reads the state. -/
theorem Does.get : Does step (get : Program σ ε σ) := fun _ => .refl

/-- Two programs in sequence. -/
theorem Does.bind {first : Program σ ε β} {next : β → Program σ ε α} (hfirst : Does step first)
    (hnext : ∀ value, Does step (next value)) : Does step (first >>= next) := by
  intro state
  have hmiddle := hfirst state
  rw [exec_bind]
  generalize first.exec state = outcome at hmiddle ⊢
  obtain ⟨_ | value, state'⟩ := outcome
  · exact hmiddle
  · exact hmiddle.trans (hnext value state')

/-- A program and the handler of what it raises. -/
theorem Does.tryCatch {program : Program σ ε α} {handler : ε → Program σ ε α}
    (hprogram : Does step program) (hhandler : ∀ error, Does step (handler error)) :
    Does step (tryCatch program handler) := by
  intro state
  have hmiddle := hprogram state
  rw [exec_tryCatch]
  generalize program.exec state = outcome at hmiddle ⊢
  obtain ⟨error | _, state'⟩ := outcome
  · exact hmiddle.trans (hhandler error state')
  · exact hmiddle

/-- A program that does fewer kinds of steps. -/
theorem Does.mono {program : Program σ ε α} (h : Does step program)
    (hstep : ∀ state state', step state state' → step' state state') : Does step' program :=
  fun state => ReflTransGen.mono hstep _ _ (h state)

/-- What every step preserves, the program preserves. -/
theorem Does.preserves {program : Program σ ε α} (h : Does step program)
    {invariant : σ → Prop} (hstep : ∀ state state', step state state' → invariant state →
      invariant state') {state : σ} (hstate : invariant state) :
    invariant (program.exec state).2 := by
  have hrun := h state
  generalize (program.exec state).2 = last at hrun ⊢
  induction hrun with
  | refl => exact hstate
  | tail _ hlast ih => exact hstep _ _ hlast ih

end Doing

/-! ## Programs that do not look at a part of the state -/

/-- The program does not look at what a change of the state changes, and keeps it. -/
def Ignores (change : σ → σ) (program : Program σ ε α) : Prop :=
  ∀ state, program.exec (change state) =
    ((program.exec state).1, change (program.exec state).2)

section Ignoring

variable {change : σ → σ}

/-- A program that returns at once. -/
theorem Ignores.pure (value : α) : Ignores change (pure value : Program σ ε α) := fun _ => rfl

/-- A program that raises at once. -/
theorem Ignores.throw (error : ε) : Ignores change (throw error : Program σ ε α) := fun _ => rfl

/-- A program that is one step. -/
theorem Ignores.of {step : σ → Except ε α × σ}
    (h : ∀ state, step (change state) = ((step state).1, change (step state).2)) :
    Ignores change (of step) := h

/-- Two programs in sequence. -/
theorem Ignores.bind {first : Program σ ε β} {next : β → Program σ ε α}
    (hfirst : Ignores change first) (hnext : ∀ value, Ignores change (next value)) :
    Ignores change (first >>= next) := by
  intro state
  rw [exec_bind, exec_bind, hfirst state]
  generalize first.exec state = outcome
  obtain ⟨_ | value, state'⟩ := outcome
  · rfl
  · exact hnext value state'

/-- A program and the handler of what it raises. -/
theorem Ignores.tryCatch {program : Program σ ε α} {handler : ε → Program σ ε α}
    (hprogram : Ignores change program) (hhandler : ∀ error, Ignores change (handler error)) :
    Ignores change (tryCatch program handler) := by
  intro state
  rw [exec_tryCatch, exec_tryCatch, hprogram state]
  generalize program.exec state = outcome
  obtain ⟨error | _, state'⟩ := outcome
  · exact hhandler error state'
  · rfl

end Ignoring

/-! ## Programs that returned -/

/-- Two programs in sequence returned when both did. -/
theorem exec_bind_ok {first : Program σ ε β} {next : β → Program σ ε α} {state state' : σ}
    {value : α} :
    (first >>= next).exec state = (.ok value, state') ↔
      ∃ middle between, first.exec state = (.ok middle, between) ∧
        (next middle).exec between = (.ok value, state') := by
  rw [exec_bind]
  generalize first.exec state = outcome
  obtain ⟨error | middle, between⟩ := outcome
  · simp
  · constructor
    · exact fun h => ⟨middle, between, rfl, h⟩
    · rintro ⟨_, _, heq, h⟩
      cases heq
      exact h

/-- A program with a handler returned when it did, or when its handler did. -/
theorem exec_tryCatch_ok {program : Program σ ε α} {handler : ε → Program σ ε α}
    {state state' : σ} {value : α} :
    (tryCatch program handler).exec state = (.ok value, state') ↔
      program.exec state = (.ok value, state') ∨
        ∃ error between, program.exec state = (.error error, between) ∧
          (handler error).exec between = (.ok value, state') := by
  rw [exec_tryCatch]
  generalize program.exec state = outcome
  obtain ⟨error | middle, between⟩ := outcome
  · constructor
    · exact fun h => Or.inr ⟨error, between, rfl, h⟩
    · rintro (heq | ⟨_, _, heq, h⟩)
      · cases heq
      · cases heq
        exact h
  · simp

end Program

end Library
