import GantrySftp.Library.Focus

/-!
# Two programs side by side

Two programs run alongside when both return, in states that are related, or both raise the same
error. There is one rule for each way to build a program; a loop may relate the states by the
items it has gone through, and programs that are known to return need not do so step by step.
-/

namespace Library

namespace Program

variable {σ τ ε ε' α β α' β' γ : Type}

/-- Outcomes that go together: values and states that are related, or one error. -/
def Pairs (after : α → β → σ → τ → Prop) : Except ε α × σ → Except ε β × τ → Prop
  | (.ok value, state), (.ok value', state') => after value value' state state'
  | (.error error, _), (.error error', _) => error = error'
  | _, _ => False

/-- From states that are related, two programs return related values and states, or raise one
error. -/
def Alongside (before : σ → τ → Prop) (program : Program σ ε α) (other : Program τ ε β)
    (after : α → β → σ → τ → Prop) : Prop :=
  ∀ state state', before state state' → Pairs after (program.exec state) (other.exec state')

/-- Outcomes that are one error. -/
theorem Pairs.of_errors {after : α → β → σ → τ → Prop} {outcome : Except ε α × σ}
    {outcome' : Except ε β × τ} {error : ε} (h : outcome.1 = .error error)
    (h' : outcome'.1 = .error error) : Pairs after outcome outcome' := by
  obtain ⟨_, _⟩ := outcome
  obtain ⟨_, _⟩ := outcome'
  cases h
  cases h'
  rfl

namespace Alongside

variable {before before' : σ → τ → Prop} {after after' : α → β → σ → τ → Prop}

/-- Programs that return at once. -/
theorem pure {value : α} {value' : β}
    (h : ∀ state state', before state state' → after value value' state state') :
    Alongside before (pure value : Program σ ε α) (pure value') after := h

/-- Programs that raise one error at once. -/
theorem throw (error : ε) :
    Alongside before (throw error : Program σ ε α) (throw error : Program τ ε β) after :=
  fun _ _ _ => rfl

/-- Programs that change their states. -/
theorem modify {change : σ → σ} {change' : τ → τ} {after : PUnit → PUnit → σ → τ → Prop}
    (h : ∀ state state', before state state' → after ⟨⟩ ⟨⟩ (change state) (change' state')) :
    Alongside before (modify change : Program σ ε PUnit) (modify change') after := h

/-- Programs in sequence. -/
theorem bind {middle : α' → β' → σ → τ → Prop} {program : Program σ ε α'}
    {other : Program τ ε β'} {next : α' → Program σ ε α} {next' : β' → Program τ ε β}
    (h : Alongside before program other middle)
    (hnext : ∀ value value', Alongside (middle value value') (next value) (next' value') after) :
    Alongside before (program >>= next) (other >>= next') after := by
  intro state state' hstates
  have hpairs := h state state' hstates
  rw [exec_bind, exec_bind]
  generalize program.exec state = outcome at hpairs ⊢
  generalize other.exec state' = outcome' at hpairs ⊢
  obtain ⟨_ | _, _⟩ := outcome
  · obtain ⟨_ | _, _⟩ := outcome'
    · exact hpairs
    · exact hpairs.elim
  · obtain ⟨_ | _, _⟩ := outcome'
    · exact hpairs.elim
    · exact hnext _ _ _ _ hpairs

/-- Programs with their errors translated. -/
theorem raising (translate : ε → ε') {program : Program σ ε α} {other : Program τ ε β}
    (h : Alongside before program other after) :
    Alongside before (program.raising translate) (other.raising translate) after := by
  intro state state' hstates
  have hpairs := h state state' hstates
  rw [exec_raising, exec_raising]
  generalize program.exec state = outcome at hpairs ⊢
  generalize other.exec state' = outcome' at hpairs ⊢
  obtain ⟨_ | _, _⟩ := outcome
  · obtain ⟨_ | _, _⟩ := outcome'
    · exact congrArg translate hpairs
    · exact hpairs
  · obtain ⟨_ | _, _⟩ := outcome'
    · exact hpairs
    · exact hpairs

/-- Loops over the same items, with states related by the items before. -/
theorem forM_items {items : List γ} {each : γ → Program σ ε PUnit}
    {other : γ → Program τ ε PUnit} (kept : List γ → σ → τ → Prop)
    (h : ∀ front item back, items = front ++ item :: back →
      Alongside (kept front) (each item) (other item) fun _ _ => kept (front ++ [item])) :
    Alongside (kept []) (items.forM each) (items.forM other) fun _ _ => kept items := by
  suffices hfrom : ∀ front back, items = front ++ back →
      Alongside (kept front) (back.forM each) (back.forM other) fun _ _ => kept items from
    hfrom [] items rfl
  intro front back
  induction back generalizing front with
  | nil =>
    intro hitems
    rw [List.append_nil] at hitems
    rw [hitems]
    exact pure fun _ _ => id
  | cons item back ih =>
    intro hitems
    change Alongside (kept front) (each item >>= fun _ => back.forM each)
      (other item >>= fun _ => back.forM other) _
    refine (h front item back hitems).bind fun _ _ => ih (front ++ [item]) ?_
    rw [hitems, List.append_assoc]
    rfl

/-- Loops over the same items, with states related alike all along. -/
theorem forM {items : List γ} {each : γ → Program σ ε PUnit} {other : γ → Program τ ε PUnit}
    (h : ∀ item, Alongside before (each item) (other item) fun _ _ => before) :
    Alongside before (items.forM each) (items.forM other) fun _ _ => before :=
  forM_items (fun _ => before) fun _ item _ _ => h item

/-- Programs that are run only where asked for, both or neither. -/
theorem doIf {asked : Bool} {program : Program σ ε PUnit} {other : Program τ ε PUnit}
    (h : Alongside before program other fun _ _ => before) :
    Alongside before (doIf asked program) (doIf asked other) fun _ _ => before := by
  cases asked with
  | true => exact h
  | false => exact pure fun _ _ => id

/-- Programs that both return, and that change the states one after the other. -/
theorem of_returns {middle : σ → τ → Prop} {after : σ → τ → Prop} {program : Program σ ε PUnit}
    {other : Program τ ε PUnit}
    (h : ∀ state', Meets (before · state') program (fun _ => (middle · state')) fun _ _ => False)
    (hother : ∀ state, Meets (middle state) other (fun _ => after state) fun _ _ => False) :
    Alongside before program other fun _ _ => after := by
  intro state state' hstates
  have hends := h state' state hstates
  generalize program.exec state = outcome at hends ⊢
  obtain ⟨_ | _, _⟩ := outcome
  · exact hends.elim
  · have hends' := hother _ state' hends
    generalize other.exec state' = outcome' at hends' ⊢
    obtain ⟨_ | _, _⟩ := outcome'
    · exact hends'.elim
    · exact hends'

end Alongside

end Program

end Library
