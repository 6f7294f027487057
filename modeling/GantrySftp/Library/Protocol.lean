import GantrySftp.Library.Program

/-!
# Programs that follow a protocol

A protocol is a step relation on phases and states. A program follows it from a phase when it
changes the phase and the state by steps only, from any state, and ends in a phase that its
outcome allows. What every step preserves then holds wherever the program ends.
-/

namespace Library

open Relation

namespace Program

variable {π σ ε α β : Type}

/-- Whether a phase is allowed by an outcome. -/
def Allows (after : α → π → Prop) (failed : ε → π → Prop) : Except ε α → π → Prop
  | .ok value, phase => after value phase
  | .error error, phase => failed error phase

/-- From a phase the program does steps of the protocol only, and ends in a phase that its
outcome allows. -/
def Follows (step : π × σ → π × σ → Prop) (phase : π) (program : Program σ ε α)
    (after : α → π → Prop) (failed : ε → π → Prop) : Prop :=
  ∀ state, ∃ phase', Allows after failed (program.exec state).1 phase' ∧
    ReflTransGen step (phase, state) (phase', (program.exec state).2)

namespace Follows

variable {step : π × σ → π × σ → Prop} {phase : π} {after after' : α → π → Prop}
  {failed failed' : ε → π → Prop}

/-- Outcomes that allow more phases. -/
theorem weaken {program : Program σ ε α} (h : Follows step phase program after failed)
    (hafter : ∀ value phase, after value phase → after' value phase)
    (hfailed : ∀ error phase, failed error phase → failed' error phase) :
    Follows step phase program after' failed' := by
  intro state
  obtain ⟨phase', hallowed, hsteps⟩ := h state
  refine ⟨phase', ?_, hsteps⟩
  generalize (program.exec state).1 = result at hallowed ⊢
  cases result with
  | ok value => exact hafter value phase' hallowed
  | error error => exact hfailed error phase' hallowed

/-- A program that returns at once. -/
theorem pure {value : α} (h : after value phase) :
    Follows step phase (pure value : Program σ ε α) after failed :=
  fun _ => ⟨phase, h, .refl⟩

/-- A program that raises at once. -/
theorem throw {error : ε} (h : failed error phase) :
    Follows step phase (throw error : Program σ ε α) after failed :=
  fun _ => ⟨phase, h, .refl⟩

/-- A program that is one step of the protocol. -/
theorem of {transition : σ → Except ε α × σ}
    (h : ∀ state, ∃ phase', Allows after failed (transition state).1 phase' ∧
      step (phase, state) (phase', (transition state).2)) :
    Follows step phase (of transition) after failed := by
  intro state
  obtain ⟨phase', hallowed, hstep⟩ := h state
  exact ⟨phase', hallowed, .single hstep⟩

/-- A program that does only what the protocol allows within the phase. -/
theorem of_does {idle : σ → σ → Prop} {program : Program σ ε α} (h : Does idle program)
    (hstep : ∀ state state', idle state state' → step (phase, state) (phase, state')) :
    Follows step phase program (fun _ phase' => phase' = phase)
      fun _ phase' => phase' = phase := by
  intro state
  refine ⟨phase, ?_, (h state).lift (Prod.mk phase) hstep⟩
  generalize (program.exec state).1 = result
  cases result <;> rfl

/-- The protocol moves on by itself. -/
theorem advance {phase' : π} {program : Program σ ε α}
    (h : Follows step phase' program after failed)
    (hstep : ∀ state, step (phase, state) (phase', state)) :
    Follows step phase program after failed := by
  intro state
  obtain ⟨last, hallowed, hsteps⟩ := h state
  exact ⟨last, hallowed, .head (hstep state) hsteps⟩

/-- Two programs in sequence. -/
theorem bind {middle : β → π → Prop} {first : Program σ ε β} {next : β → Program σ ε α}
    (hfirst : Follows step phase first middle failed)
    (hnext : ∀ value phase', middle value phase' →
      Follows step phase' (next value) after failed) :
    Follows step phase (first >>= next) after failed := by
  intro state
  obtain ⟨phase', hallowed, hsteps⟩ := hfirst state
  rw [exec_bind]
  generalize first.exec state = outcome at hallowed hsteps ⊢
  obtain ⟨error | value, between⟩ := outcome
  · exact ⟨phase', hallowed, hsteps⟩
  · obtain ⟨last, hlast, hrest⟩ := hnext value phase' hallowed between
    exact ⟨last, hlast, hsteps.trans hrest⟩

/-- A program and the handler of what it raises. -/
theorem tryCatch {raised : ε → π → Prop} {program : Program σ ε α}
    {handler : ε → Program σ ε α} (hprogram : Follows step phase program after raised)
    (hhandler : ∀ error phase', raised error phase' →
      Follows step phase' (handler error) after failed) :
    Follows step phase (tryCatch program handler) after failed := by
  intro state
  obtain ⟨phase', hallowed, hsteps⟩ := hprogram state
  rw [exec_tryCatch]
  generalize program.exec state = outcome at hallowed hsteps ⊢
  obtain ⟨error | value, between⟩ := outcome
  · obtain ⟨last, hlast, hrest⟩ := hhandler error phase' hallowed between
    exact ⟨last, hlast, hsteps.trans hrest⟩
  · exact ⟨phase', hallowed, hsteps⟩

end Follows

end Program

end Library
