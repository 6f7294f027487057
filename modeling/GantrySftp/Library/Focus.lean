import GantrySftp.Library.Program

/-!
# Programs over a part of the state

A program over a part of a state is one over the whole state that leaves the rest alone, and one
that raises errors of one type is one that raises errors of another, once they are translated.
-/

namespace Library

namespace Program

variable {σ τ ε ε' α γ : Type}

/-- Translate what a program raises. -/
def raising (translate : ε → ε') (program : Program σ ε α) : Program σ ε' α :=
  of fun state => ((program.exec state).1.mapError translate, (program.exec state).2)

/-- A program over a part of the state. -/
def focus (view : σ → τ) (put : τ → σ → σ) (program : Program τ ε α) : Program σ ε α :=
  of fun state => ((program.exec (view state)).1, put (program.exec (view state)).2 state)

/-- A program that is run only where asked for. -/
def doIf (asked : Bool) (program : Program σ ε PUnit) : Program σ ε PUnit :=
  if asked then program else pure ⟨⟩

/-- A program that was asked for. -/
@[simp] theorem doIf_true (program : Program σ ε PUnit) : doIf true program = program := rfl

/-- A program that was not asked for. -/
@[simp] theorem doIf_false (program : Program σ ε PUnit) : doIf false program = pure ⟨⟩ := rfl

/-- What holds before a program that is only run where asked for holds after it, if running it
does not change that. -/
theorem Meets.doIf {asked : Bool} {program : Program σ ε PUnit} {kept : σ → Prop}
    {failed : ε → σ → Prop} (h : asked = true → Meets kept program (fun _ => kept) failed) :
    Meets kept (doIf asked program) (fun _ => kept) failed := by
  cases asked with
  | true => exact h rfl
  | false => exact Meets.pure fun _ => id

/-- A program that is only run where asked for does what it does. -/
theorem Does.doIf {step : σ → σ → Prop} {asked : Bool} {program : Program σ ε PUnit}
    (h : Does step program) : Does step (doIf asked program) := by
  cases asked with
  | true => exact h
  | false => exact Does.pure _

/-- What every step of a program keeps is kept, however the program ends. -/
theorem Does.keeps {step : σ → σ → Prop} {program : Program σ ε α} (h : Does step program)
    {kept : σ → Prop} (hstep : ∀ state state', step state state' → kept state → kept state') :
    Meets kept program (fun _ => kept) fun _ => kept := by
  intro state hstate
  have hkept := h.preserves hstep hstate
  generalize program.exec state = outcome at hkept ⊢
  obtain ⟨_ | _, _⟩ := outcome
  · exact hkept
  · exact hkept

/-- A loop does what each of its turns does. -/
theorem Does.forM {step : σ → σ → Prop} {items : List γ} {each : γ → Program σ ε PUnit}
    (h : ∀ item ∈ items, Does step (each item)) : Does step (items.forM each) := by
  induction items with
  | nil => exact Does.pure _
  | cons item items ih =>
    refine (h item List.mem_cons_self).bind fun _ => ih ?_
    exact fun other hmem => h other (List.mem_cons_of_mem _ hmem)

/-- A program whose errors are translated does the same to the state. -/
@[simp] theorem exec_raising (translate : ε → ε') (program : Program σ ε α) (state : σ) :
    (program.raising translate).exec state =
      ((program.exec state).1.mapError translate, (program.exec state).2) := rfl

/-- A program over a part of the state is run on that part. -/
@[simp] theorem exec_focus (view : σ → τ) (put : τ → σ → σ) (program : Program τ ε α)
    (state : σ) :
    (program.focus view put).exec state =
      ((program.exec (view state)).1, put (program.exec (view state)).2 state) := rfl

/-- What holds afterwards, with the errors translated. -/
theorem Meets.raising {translate : ε → ε'} {program : Program σ ε α} {before : σ → Prop}
    {after : α → σ → Prop} {failed : ε' → σ → Prop}
    (h : Meets before program after fun error => failed (translate error)) :
    Meets before (program.raising translate) after failed := by
  intro state hstate
  have hends := h state hstate
  rw [exec_raising]
  generalize program.exec state = outcome at hends ⊢
  obtain ⟨_ | _, _⟩ := outcome
  · exact hends
  · exact hends

/-- Whatever a program does, it does something. -/
theorem Meets.top (before : σ → Prop) (program : Program σ ε α) :
    Meets before program (fun _ _ => True) fun _ _ => True := by
  intro state _
  generalize program.exec state = outcome
  obtain ⟨_ | _, _⟩ := outcome
  · trivial
  · trivial

/-- Two things that hold afterwards hold together. -/
theorem Meets.both {before : σ → Prop} {program : Program σ ε α} {after after' : α → σ → Prop}
    {failed failed' : ε → σ → Prop} (h : Meets before program after failed)
    (h' : Meets before program after' failed') :
    Meets before program (fun value state => after value state ∧ after' value state)
      fun error state => failed error state ∧ failed' error state := by
  intro state hstate
  have hends := h state hstate
  have hends' := h' state hstate
  generalize program.exec state = outcome at hends hends' ⊢
  obtain ⟨_ | _, _⟩ := outcome
  · exact ⟨hends, hends'⟩
  · exact ⟨hends, hends'⟩

/-- What holds of a value that a program returned. -/
theorem Meets.returned {before : σ → Prop} {program : Program σ ε α} {after : α → σ → Prop}
    {failed : ε → σ → Prop} (h : Meets before program after failed) {state state' : σ} {value : α}
    (hstate : before state) (hexec : program.exec state = (.ok value, state')) :
    after value state' := by
  have hends := h state hstate
  rw [hexec] at hends
  exact hends

/-- What every turn of a loop adds to what holds of the items before it. -/
theorem Meets.forM_items {items : List γ} {each : γ → Program σ ε PUnit}
    (kept : List γ → σ → Prop) {failed : ε → σ → Prop}
    (h : ∀ front item back, items = front ++ item :: back →
      Meets (kept front) (each item) (fun _ => kept (front ++ [item])) failed) :
    Meets (kept []) (items.forM each) (fun _ => kept items) failed := by
  suffices hfrom : ∀ front back, items = front ++ back →
      Meets (kept front) (back.forM each) (fun _ => kept items) failed from hfrom [] items rfl
  intro front back
  induction back generalizing front with
  | nil =>
    intro hitems
    rw [List.append_nil] at hitems
    rw [hitems]
    exact Meets.pure fun _ => id
  | cons item back ih =>
    intro hitems
    change Meets (kept front) (each item >>= fun _ => back.forM each) _ _
    refine (h front item back hitems).bind fun _ => ih (front ++ [item]) ?_
    rw [hitems, List.append_assoc]
    rfl

/-- A program that reads the state, and makes nothing of what a change of it changes. -/
theorem Ignores.get {change : σ → σ} {next : σ → Program σ ε α}
    (hsame : ∀ state, next (change state) = next state)
    (h : ∀ state, Ignores change (next state)) :
    Ignores change ((MonadState.get : Program σ ε σ) >>= next) := by
  intro state
  change (next (change state)).exec (change state) = (((next state).exec state).1, _)
  rw [hsame]
  exact h state state

/-- A change of the state that another does not get in the way of. -/
theorem Ignores.modify {change other : σ → σ}
    (h : ∀ state, other (change state) = change (other state)) :
    Ignores change (modify other : Program σ ε PUnit) := by
  intro state
  change ((Except.ok ⟨⟩, other (change state)) : Except ε PUnit × σ) = _
  rw [h]
  rfl

/-- Doing something for every item, one after the other. -/
theorem exec_forM_cons (item : γ) (items : List γ) (each : γ → Program σ ε PUnit) (state : σ) :
    ((item :: items).forM each).exec state =
      match (each item).exec state with
      | (.ok _, state') => (items.forM each).exec state'
      | (.error error, state') => (.error error, state') := by
  change (each item >>= fun _ => items.forM each).exec state = _
  rw [exec_bind]
  generalize (each item).exec state = outcome
  obtain ⟨_ | _, _⟩ := outcome
  · rfl
  · rfl

end Program

end Library
