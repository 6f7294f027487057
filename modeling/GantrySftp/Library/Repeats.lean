import GantrySftp.Library.RoundTrip

/-!
# Writers that repeat what was read

The converse of a round trip. When a reader accepted something, the writer of the value it
returned appends exactly what was consumed, except at places that a format reads leniently: there
it appends less. Such steps compose along a sequence of reads.
-/

namespace Library

section

variable {σ ω β ε δ α γ : Type} [Input σ β] [Output ω β]

/-- Between two points of an input, a writer appends exactly what was consumed, or less of it
where the input is `odd`. -/
def Repeats (odd : Prop) (writer : StateT ω (Except δ) Unit) (before after : List β) : Prop :=
  ∃ consumed written, before = consumed ++ after ∧ Appends writer written ∧
    (¬ odd → written = consumed) ∧ (odd → written.length < consumed.length)

/-- A sequence of reads succeeds when each of them does. -/
theorem bind_eq_ok {first : StateT σ (Except ε) α} {next : α → StateT σ (Except ε) γ}
    {state state' : σ} {result : γ} :
    (first >>= next) state = .ok (result, state') ↔
      ∃ value middle, first state = .ok (value, middle) ∧ next value middle = .ok (result, state') := by
  change (first state >>= fun found => next found.1 found.2) = _ ↔ _
  cases hfirst : first state with
  | error error => simp [Bind.bind, Except.bind]
  | ok found =>
    obtain ⟨value, middle⟩ := found
    simp [Bind.bind, Except.bind]

/-- Returning a value reads nothing. -/
theorem pure_eq_ok {value result : α} {state state' : σ} :
    (Pure.pure value : StateT σ (Except ε) α) state = .ok (result, state') ↔
      value = result ∧ state = state' := by
  change Except.ok (value, state) = _ ↔ _
  simp

/-- A read whose value a result is built from. -/
theorem bind_pure_eq_ok {first : StateT σ (Except ε) α} {build : α → γ} {state state' : σ}
    {result : γ} :
    (first >>= fun value => Pure.pure (build value)) state = .ok (result, state') ↔
      ∃ value, first state = .ok (value, state') ∧ build value = result := by
  rw [bind_eq_ok]
  simp only [pure_eq_ok]
  constructor
  · rintro ⟨value, middle, hfirst, hbuild, rfl⟩
    exact ⟨value, hfirst, hbuild⟩
  · rintro ⟨value, hfirst, hbuild⟩
    exact ⟨value, state', hfirst, hbuild, rfl⟩

namespace Repeats

variable {first second : StateT ω (Except δ) Unit} {odd odd' : Prop} {before middle after : List β}

/-- Doing nothing repeats nothing. -/
theorem pure (before : List β) :
    Repeats False (Pure.pure () : StateT ω (Except δ) Unit) before before :=
  ⟨[], [], rfl, Appends.pure, fun _ => rfl, False.elim⟩

/-- Consecutive writers repeat consecutive parts of the input. -/
theorem bind (hfirst : Repeats odd first before middle) (hsecond : Repeats odd' second middle after) :
    Repeats (odd ∨ odd') (first >>= fun _ => second) before after := by
  obtain ⟨consumed, written, rfl, happends, hsame, hless⟩ := hfirst
  obtain ⟨consumed', written', rfl, happends', hsame', hless'⟩ := hsecond
  refine ⟨consumed ++ consumed', written ++ written', by simp, happends.bind happends', ?_, ?_⟩
  · intro hodd
    obtain ⟨hodd, hodd'⟩ := not_or.mp hodd
    rw [hsame hodd, hsame' hodd']
  · intro hodd
    have hle : written.length ≤ consumed.length := by
      by_cases h : odd
      · exact Nat.le_of_lt (hless h)
      · exact Nat.le_of_eq (congrArg List.length (hsame h))
    have hle' : written'.length ≤ consumed'.length := by
      by_cases h : odd'
      · exact Nat.le_of_lt (hless' h)
      · exact Nat.le_of_eq (congrArg List.length (hsame' h))
    simp only [List.length_append]
    obtain h | h := hodd
    · have := hless h
      omega
    · have := hless' h
      omega

/-- An equivalent condition may stand for the odd places. -/
theorem congr (h : Repeats odd first before after) (hiff : odd ↔ odd') :
    Repeats odd' first before after := by
  obtain ⟨consumed, written, hbefore, happends, hsame, hless⟩ := h
  exact ⟨consumed, written, hbefore, happends, fun hodd => hsame (mt hiff.mp hodd),
    fun hodd => hless (hiff.mpr hodd)⟩

/-- Consecutive writers of which neither meets an odd place. -/
theorem seq (hfirst : Repeats False first before middle)
    (hsecond : Repeats False second middle after) :
    Repeats False (first >>= fun _ => second) before after :=
  (hfirst.bind hsecond).congr (by simp)

/-- A writer that meets no odd place, and another after it. -/
theorem thenOdd (hfirst : Repeats False first before middle)
    (hsecond : Repeats odd second middle after) :
    Repeats odd (first >>= fun _ => second) before after :=
  (hfirst.bind hsecond).congr (by simp)

end Repeats

/-- A field that may be absent is repeated when it was read under its flag. -/
theorem repeats_optional {write : α → StateT ω (Except δ) Unit} {reader : StateT σ (Except ε) α}
    {present : Bool} {field : Option α} {state state' : σ}
    (h : readOptional present reader state = .ok (field, state'))
    (hreader : ∀ value, reader state = .ok (value, state') →
      Repeats False (write value) (Input.unread state) (Input.unread state')) :
    field.isSome = present ∧
      Repeats False (writeOptional write field) (Input.unread state) (Input.unread state') := by
  unfold readOptional at h
  cases present with
  | false =>
    obtain ⟨rfl, rfl⟩ := pure_eq_ok.mp h
    exact ⟨rfl, Repeats.pure _⟩
  | true =>
    obtain ⟨value, hvalue, rfl⟩ := bind_pure_eq_ok.mp h
    exact ⟨rfl, hreader value hvalue⟩

/-- Items read one after another are repeated one after another; the input is odd where it is odd
for one of the items. -/
theorem repeats_times {write : α → StateT ω (Except δ) Unit} {reader : StateT σ (Except ε) α}
    (Odd : σ → Prop)
    (hreader : ∀ state value state', reader state = .ok (value, state') →
      Repeats (Odd state) (write value) (Input.unread state) (Input.unread state'))
    {count : ℕ} {state state' : σ} {values : List α}
    (h : readTimes reader count state = .ok (values, state')) :
    Repeats (∃ place < count, ∃ earlier middle,
        readTimes reader place state = .ok (earlier, middle) ∧ Odd middle)
      (values.forM write) (Input.unread state) (Input.unread state') := by
  induction count generalizing state values with
  | zero =>
    obtain ⟨rfl, rfl⟩ := pure_eq_ok.mp h
    exact (Repeats.pure _).congr (by simp)
  | succ count ih =>
    obtain ⟨value, middle, hvalue, hnext⟩ := bind_eq_ok.mp h
    obtain ⟨rest, hrest, rfl⟩ := bind_pure_eq_ok.mp hnext
    refine ((hreader _ _ _ hvalue).bind (ih hrest)).congr ?_
    constructor
    · rintro (hodd | ⟨place, hplace, earlier, later, hearlier, hodd⟩)
      · exact ⟨0, Nat.succ_pos _, [], state, rfl, hodd⟩
      · refine ⟨place + 1, Nat.succ_lt_succ hplace, value :: earlier, later, ?_, hodd⟩
        exact bind_eq_ok.mpr ⟨value, middle, hvalue, bind_pure_eq_ok.mpr ⟨earlier, hearlier, rfl⟩⟩
    · rintro ⟨place, hplace, earlier, later, hearlier, hodd⟩
      cases place with
      | zero =>
        obtain ⟨-, rfl⟩ := pure_eq_ok.mp hearlier
        exact Or.inl hodd
      | succ place =>
        obtain ⟨value', middle', hvalue', hmore⟩ := bind_eq_ok.mp hearlier
        obtain ⟨rfl, rfl⟩ := Prod.mk.inj (Except.ok.inj (hvalue.symm.trans hvalue'))
        obtain ⟨more, hmore, -⟩ := bind_pure_eq_ok.mp hmore
        exact Or.inr ⟨place, Nat.lt_of_succ_lt_succ hplace, more, later, hmore, hodd⟩

/-- As many values are read as there are reads. -/
theorem length_of_readTimes {reader : StateT σ (Except ε) α} {count : ℕ} {state state' : σ}
    {values : List α} (h : readTimes reader count state = .ok (values, state')) :
    values.length = count := by
  induction count generalizing state values with
  | zero =>
    obtain ⟨rfl, rfl⟩ := pure_eq_ok.mp h
    rfl
  | succ count ih =>
    obtain ⟨value, middle, hvalue, hnext⟩ := bind_eq_ok.mp h
    obtain ⟨rest, hrest, rfl⟩ := bind_pure_eq_ok.mp hnext
    rw [List.length_cons, ih hrest]

/-- What holds of each value that is read holds of all that are read. -/
theorem forall_of_readTimes {reader : StateT σ (Except ε) α} {P : α → Prop}
    (hreader : ∀ state value state', reader state = .ok (value, state') → P value)
    {count : ℕ} {state state' : σ} {values : List α}
    (h : readTimes reader count state = .ok (values, state')) : ∀ value ∈ values, P value := by
  induction count generalizing state values with
  | zero =>
    obtain ⟨rfl, rfl⟩ := pure_eq_ok.mp h
    simp
  | succ count ih =>
    obtain ⟨value, middle, hvalue, hnext⟩ := bind_eq_ok.mp h
    obtain ⟨rest, hrest, rfl⟩ := bind_pure_eq_ok.mp hnext
    simp only [List.mem_cons, forall_eq_or_imp]
    exact ⟨hreader _ _ _ hvalue, ih hrest⟩

end

end Library
