import Mathlib.Data.List.Induction

/-!
# Transcripts of a machine

A machine takes events one at a time, and says something at each. A transcript is all that it said
over some events, with the state it ended in. What each event keeps, when it meets a condition
where it happens, holds after any events that all do.
-/

namespace Library

variable {σ ε ω : Type*}

/-- What a machine says over events, and its state after them. -/
def transcript (step : σ → ε → List ω × σ) (state : σ) (events : List ε) : List ω × σ :=
  events.foldl (fun (said, state) event => (said ++ (step state event).1, (step state event).2))
    ([], state)

variable (step : σ → ε → List ω × σ) (state : σ)

/-- The transcript of no event. -/
@[simp] theorem transcript_nil : transcript step state [] = ([], state) := rfl

/-- A transcript with one more event. -/
theorem transcript_concat (events : List ε) (event : ε) :
    transcript step state (events ++ [event]) =
      ((transcript step state events).1 ++ (step (transcript step state events).2 event).1,
        (step (transcript step state events).2 event).2) := by
  simp [transcript, List.foldl_append]

/-- The state after a transcript with one event before it. -/
theorem transcript_cons (event : ε) (events : List ε) :
    (transcript step state (event :: events)).2 =
      (transcript step (step state event).2 events).2 := by
  induction events using List.reverseRecOn with
  | nil => rfl
  | append_singleton events last ih =>
    rw [← List.cons_append, transcript_concat, transcript_concat, ih]

/-- Every event meets a condition on the state it finds. -/
def Throughout (condition : σ → ε → Prop) (state : σ) : List ε → Prop
  | [] => True
  | event :: events =>
    condition state event ∧ Throughout condition (step state event).2 events

variable {step state} {condition : σ → ε → Prop}

/-- Every event meets a condition exactly when all but the last do and the last does. -/
theorem throughout_concat {events : List ε} {event : ε} :
    Throughout step condition state (events ++ [event]) ↔
      Throughout step condition state events ∧
        condition (transcript step state events).2 event := by
  induction events generalizing state with
  | nil => simp [Throughout]
  | cons first events ih => simp [Throughout, ih, transcript_cons, and_assoc]

/-- Every event meets a condition when those of a longer transcript do. -/
theorem throughout_of_append {front back : List ε}
    (h : Throughout step condition state (front ++ back)) :
    Throughout step condition state front := by
  induction front generalizing state with
  | nil => trivial
  | cons event front ih => exact ⟨h.1, ih h.2⟩

/-- A condition that holds everywhere is met throughout. -/
theorem throughout_of_forall (h : ∀ state event, condition state event) {events : List ε} :
    Throughout step condition state events := by
  induction events generalizing state with
  | nil => trivial
  | cons event events ih => exact ⟨h state event, ih⟩

/-- Conditions that agree everywhere agree throughout. -/
theorem throughout_congr {other : σ → ε → Prop}
    (h : ∀ state event, condition state event ↔ other state event) {events : List ε} :
    Throughout step condition state events ↔ Throughout step other state events := by
  induction events generalizing state with
  | nil => rfl
  | cons event events ih => simp only [Throughout, h, ih]

/-- Two conditions are met throughout exactly when each is. -/
theorem throughout_and {other : σ → ε → Prop} {events : List ε} :
    Throughout step (fun state event => condition state event ∧ other state event) state events ↔
      Throughout step condition state events ∧ Throughout step other state events := by
  induction events generalizing state with
  | nil => simp [Throughout]
  | cons event events ih =>
    simp only [Throughout, ih]
    tauto

/-- What holds at first, and is kept by every event that meets a condition, holds after any events
that all meet it. -/
theorem transcript_invariant (invariant : List ω → σ → Prop) (hinit : invariant [] state)
    (hstep : ∀ said state event, invariant said state → condition state event →
      invariant (said ++ (step state event).1) (step state event).2)
    {events : List ε} (h : Throughout step condition state events) :
    invariant (transcript step state events).1 (transcript step state events).2 := by
  induction events using List.reverseRecOn with
  | nil => exact hinit
  | append_singleton events event ih =>
    obtain ⟨hevents, hlast⟩ := throughout_concat.mp h
    rw [transcript_concat]
    exact hstep _ _ _ (ih hevents) hlast

end Library
