import GantrySftp.Library.Repeats

/-!
# Readers that notice a truncated input

A reader is stable when whatever it returns from an input it also returns from a longer one,
leaving the rest as it came. A stable reader that reads an input to its end refuses every proper
prefix of it.
-/

namespace Library

section

variable {σ β ε α γ : Type} [Input σ β]

/-- What the reader returns is the same when more input follows. -/
def Stable (reader : StateT σ (Except ε) α) : Prop :=
  ∀ (state state' : σ) (value : α), reader state = .ok (value, state') →
    ∀ (longer : σ) (more : List β), Input.unread longer = Input.unread state ++ more →
      ∃ longer', reader longer = .ok (value, longer') ∧
        Input.unread longer' = Input.unread state' ++ more

namespace Stable

variable {reader : StateT σ (Except ε) α} {next : α → StateT σ (Except ε) γ}

/-- Returning a value reads nothing. -/
theorem pure (value : α) : Stable (Pure.pure value : StateT σ (Except ε) α) := by
  intro state state' result h longer more hunread
  obtain ⟨rfl, rfl⟩ := pure_eq_ok.mp h
  exact ⟨longer, rfl, hunread⟩

/-- Stable readers follow one another. -/
theorem bind (hreader : Stable reader) (hnext : ∀ value, Stable (next value)) :
    Stable (reader >>= next) := by
  intro state state' result h longer more hunread
  obtain ⟨value, middle, hfirst, hsecond⟩ := bind_eq_ok.mp h
  obtain ⟨longer', hrun, hmiddle⟩ := hreader _ _ _ hfirst longer more hunread
  obtain ⟨longer'', hrun', hend⟩ := hnext value _ _ _ hsecond longer' more hmiddle
  exact ⟨longer'', bind_eq_ok.mpr ⟨value, longer', hrun, hrun'⟩, hend⟩

/-- A stable reader may build its result from the last value it reads. -/
theorem last {build : α → γ} (hreader : Stable reader) :
    Stable (reader >>= fun field => Pure.pure (build field)) :=
  hreader.bind fun value => Stable.pure (build value)

/-- A reader that always refuses returns nothing. -/
theorem refused (h : ∀ state, ∃ error, reader state = .error error) : Stable reader := by
  intro state state' value hok
  obtain ⟨error, herror⟩ := h state
  rw [herror] at hok
  cases hok

/-- A field that is there only under a flag. -/
theorem optional (present : Bool) (hreader : Stable reader) :
    Stable (readOptional present reader) := by
  cases present with
  | false => exact Stable.pure none
  | true => exact hreader.last

/-- A number of equal fields. -/
theorem times (hreader : Stable reader) (count : ℕ) : Stable (readTimes reader count) := by
  induction count with
  | zero => exact Stable.pure []
  | succ count ih => exact hreader.bind fun value => ih.last

end Stable

/-- A stable reader refuses an input that something is missing from. -/
theorem Reads.refuses {reader : StateT σ (Except ε) α} {input missing : List β} {value : α}
    (hreads : Reads reader input value) (hstable : Stable reader) {state whole : σ}
    (hwhole : Input.unread whole = input) (hinput : input = Input.unread state ++ missing)
    (hmissing : missing ≠ []) : ∃ error, reader state = .error error := by
  cases h : reader state with
  | error error => exact ⟨error, rfl⟩
  | ok found =>
    obtain ⟨result, state'⟩ := found
    obtain ⟨whole', hrun, hleft⟩ := hstable _ _ _ h whole missing (hwhole.trans hinput)
    obtain ⟨whole'', hrun', hend⟩ := hreads whole [] (by rw [hwhole, List.append_nil])
    have hsame : whole' = whole'' := by
      rw [hrun] at hrun'
      exact congrArg Prod.snd (Except.ok.inj hrun')
    rw [hsame, hend] at hleft
    exact absurd (List.append_eq_nil_iff.mp hleft.symm).2 hmissing

end

end Library
