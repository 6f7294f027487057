import Mathlib.Data.List.Basic

/-!
# Writers and readers that undo each other

A writer appends to an output state and a reader consumes a prefix of its input state. A pair
round-trips a value when the reader, run on what the writer appended and anything after it,
returns the value and stops exactly where the writer stopped. Pairs compose in sequence, so a
format is verified field by field; readers that run to the end of their input close a sequence.
-/

namespace Library

/-- A state of a reader, seen as the input that is left. -/
class Input (σ : Type) (β : outParam Type) where
  unread : σ → List β

/-- A state of a writer, seen as the output so far. -/
class Output (ω : Type) (β : outParam Type) where
  written : ω → List β

section

variable {σ ω β ε δ α γ : Type} [Input σ β] [Output ω β]

/-- The writer succeeds from every state and appends exactly `output`. -/
def Appends (writer : StateT ω (Except δ) Unit) (output : List β) : Prop :=
  ∀ state, ∃ state', writer state = .ok ((), state') ∧
    Output.written state' = Output.written state ++ output

/-- The reader returns `value` after consuming exactly `input`, whatever follows it. -/
def Reads (reader : StateT σ (Except ε) α) (input : List β) (value : α) : Prop :=
  ∀ state rest, Input.unread state = input ++ rest →
    ∃ state', reader state = .ok (value, state') ∧ Input.unread state' = rest

/-- The reader returns `value` when `input` is all that is left, and leaves nothing. -/
def ReadsToEnd (reader : StateT σ (Except ε) α) (input : List β) (value : α) : Prop :=
  ∀ state, Input.unread state = input →
    ∃ state', reader state = .ok (value, state') ∧ Input.unread state' = []

/-- The reader recovers `value` from what the writer appends, with anything after it, and what
the writer appends is at least `width` long. -/
def RoundTrips (width : ℕ) (writer : StateT ω (Except δ) Unit) (reader : StateT σ (Except ε) α)
    (value : α) : Prop :=
  ∃ bytes : List β, width ≤ bytes.length ∧ Appends writer bytes ∧ Reads reader bytes value

/-- The reader recovers `value` from what the writer appends, with nothing after it. -/
def RoundTripsToEnd (writer : StateT ω (Except δ) Unit) (reader : StateT σ (Except ε) α)
    (value : α) : Prop :=
  ∃ bytes, Appends writer bytes ∧ ReadsToEnd reader bytes value

/-- Write a field that may be absent. -/
def writeOptional (write : α → StateT ω (Except δ) Unit) : Option α → StateT ω (Except δ) Unit
  | some value => write value
  | none => Pure.pure ()

/-- Read a field that is there only under a flag. -/
def readOptional (present : Bool) (reader : StateT σ (Except ε) α) :
    StateT σ (Except ε) (Option α) :=
  if present then reader >>= fun value => Pure.pure (some value) else Pure.pure none

/-- Doing nothing appends nothing. -/
theorem Appends.pure : Appends (Pure.pure () : StateT ω (Except δ) Unit) [] := by
  intro state
  exact ⟨state, rfl, (List.append_nil _).symm⟩

/-- Outputs of consecutive writers are concatenated. -/
theorem Appends.bind {first second : StateT ω (Except δ) Unit} {front back : List β}
    (hfirst : Appends first front) (hsecond : Appends second back) :
    Appends (first >>= fun _ => second) (front ++ back) := by
  intro state
  obtain ⟨middle, hrun, hmiddle⟩ := hfirst state
  obtain ⟨last, hrun', hlast⟩ := hsecond middle
  refine ⟨last, ?_, ?_⟩
  · simp only [Bind.bind, StateT.bind, hrun, Except.bind, hrun']
  · rw [hlast, hmiddle, List.append_assoc]

/-- Returning a value consumes nothing. -/
theorem Reads.pure (value : α) : Reads (Pure.pure value : StateT σ (Except ε) α) [] value := by
  intro state rest hunread
  exact ⟨state, rfl, hunread⟩

/-- Consecutive readers consume consecutive inputs. -/
theorem Reads.bind {first : StateT σ (Except ε) α} {second : α → StateT σ (Except ε) γ}
    {front back : List β} {value : α} {result : γ} (hfirst : Reads first front value)
    (hsecond : Reads (second value) back result) :
    Reads (first >>= second) (front ++ back) result := by
  intro state rest hunread
  obtain ⟨middle, hrun, hmiddle⟩ := hfirst state (back ++ rest) (by rw [hunread, List.append_assoc])
  obtain ⟨last, hrun', hlast⟩ := hsecond middle rest hmiddle
  refine ⟨last, ?_, hlast⟩
  simp only [Bind.bind, StateT.bind, hrun, Except.bind, hrun']

/-- A reader may build its result from the last value it reads. -/
theorem Reads.last {reader : StateT σ (Except ε) α} {build : α → γ} {input : List β} {value : α}
    (hreads : Reads reader input value) :
    Reads (reader >>= fun field => Pure.pure (build field)) input (build value) := by
  have hbuild : Reads (reader >>= fun field => Pure.pure (build field)) (input ++ [])
      (build value) := hreads.bind (Reads.pure _)
  rwa [List.append_nil] at hbuild

/-- A reader that runs to the end may follow one that stops early. -/
theorem Reads.bindToEnd {first : StateT σ (Except ε) α} {second : α → StateT σ (Except ε) γ}
    {front back : List β} {value : α} {result : γ} (hfirst : Reads first front value)
    (hsecond : ReadsToEnd (second value) back result) :
    ReadsToEnd (first >>= second) (front ++ back) result := by
  intro state hunread
  obtain ⟨middle, hrun, hmiddle⟩ := hfirst state back hunread
  obtain ⟨last, hrun', hlast⟩ := hsecond middle hmiddle
  refine ⟨last, ?_, hlast⟩
  simp only [Bind.bind, StateT.bind, hrun, Except.bind, hrun']

/-- A reader that runs to the end may build its result from the last value it reads. -/
theorem ReadsToEnd.last {reader : StateT σ (Except ε) α} {build : α → γ} {input : List β}
    {value : α} (hreads : ReadsToEnd reader input value) :
    ReadsToEnd (reader >>= fun field => Pure.pure (build field)) input (build value) := by
  intro state hunread
  obtain ⟨state', hrun, hend⟩ := hreads state hunread
  refine ⟨state', ?_, hend⟩
  simp only [Bind.bind, StateT.bind, hrun, Except.bind]
  rfl

/-- A reader that ignores what follows also works when nothing does. -/
theorem Reads.toEnd {reader : StateT σ (Except ε) α} {input : List β} {value : α}
    (hreads : Reads reader input value) : ReadsToEnd reader input value := by
  intro state hunread
  exact hreads state [] (by rw [hunread, List.append_nil])

namespace RoundTrips

variable {first second : StateT ω (Except δ) Unit} {reader : StateT σ (Except ε) α}
  {next : α → StateT σ (Except ε) γ} {value : α} {result : γ} {width width' : ℕ}

/-- The empty pair round-trips a constant. -/
theorem pure (value : α) : RoundTrips 0 (Pure.pure () : StateT ω (Except δ) Unit)
    (Pure.pure value : StateT σ (Except ε) α) value :=
  ⟨[], Nat.zero_le _, Appends.pure, Reads.pure value⟩

/-- A lower bound on the width may be forgotten. -/
theorem weaken (h : RoundTrips width first reader value) (hle : width' ≤ width) :
    RoundTrips width' first reader value := by
  obtain ⟨bytes, hwidth, happends, hreads⟩ := h
  exact ⟨bytes, Nat.le_trans hle hwidth, happends, hreads⟩

/-- A field followed by the rest of a layout. -/
theorem bind (hfirst : RoundTrips width first reader value)
    (hsecond : RoundTrips (width' - width) second (next value) result) :
    RoundTrips width' (first >>= fun _ => second) (reader >>= next) result := by
  obtain ⟨front, hwidth, hfront, hread⟩ := hfirst
  obtain ⟨back, hwidth', hback, hread'⟩ := hsecond
  refine ⟨front ++ back, ?_, hfront.bind hback, hread.bind hread'⟩
  rw [List.length_append]
  omega

/-- A field followed by the rest of a layout that runs to the end. -/
theorem bindToEnd (hfirst : RoundTrips width first reader value)
    (hsecond : RoundTripsToEnd second (next value) result) :
    RoundTripsToEnd (first >>= fun _ => second) (reader >>= next) result := by
  obtain ⟨front, -, hfront, hread⟩ := hfirst
  obtain ⟨back, hback, hread'⟩ := hsecond
  exact ⟨front ++ back, hfront.bind hback, hread.bindToEnd hread'⟩

/-- The last field of a layout, with the reader building its result from the field. -/
theorem last {build : α → γ} (hfirst : RoundTrips width first reader value) :
    RoundTrips width first (reader >>= fun field => Pure.pure (build field)) (build value) := by
  obtain ⟨bytes, hwidth, happends, hreads⟩ := hfirst
  exact ⟨bytes, hwidth, happends, hreads.last⟩

/-- A layout that ignores what follows also works when nothing does. -/
theorem toEnd (h : RoundTrips width first reader value) :
    RoundTripsToEnd first reader value := by
  obtain ⟨bytes, -, happends, hreads⟩ := h
  exact ⟨bytes, happends, hreads.toEnd⟩

/-- An optional field: written when present, read when its presence flag is set. -/
theorem optional {write : α → StateT ω (Except δ) Unit} {field : Option α} {present : Bool}
    (hpresent : present = field.isSome)
    (hfield : ∀ value ∈ field, RoundTrips width (write value) reader value) :
    RoundTrips 0 (writeOptional write field) (readOptional present reader) field := by
  subst hpresent
  cases field with
  | none => exact RoundTrips.pure none
  | some value => exact (hfield value rfl).last.weaken (Nat.zero_le _)

end RoundTrips

/-- The last field of a layout that runs to the end. -/
theorem RoundTripsToEnd.last {first : StateT ω (Except δ) Unit} {reader : StateT σ (Except ε) α}
    {value : α} {build : α → γ} (hfirst : RoundTripsToEnd first reader value) :
    RoundTripsToEnd first (reader >>= fun field => Pure.pure (build field)) (build value) := by
  obtain ⟨bytes, happends, hreads⟩ := hfirst
  exact ⟨bytes, happends, hreads.last⟩

/-- Run a reader a fixed number of times, keeping the values in order. -/
def readTimes (reader : StateT σ (Except ε) α) : ℕ → StateT σ (Except ε) (List α)
  | 0 => Pure.pure []
  | count + 1 => do
    let value ← reader
    let values ← readTimes reader count
    Pure.pure (value :: values)

/-- Items written one after another are read back by as many reads, and occupy at least the
minimum width of an item each. -/
theorem roundTrips_items {write : α → StateT ω (Except δ) Unit}
    {reader : StateT σ (Except ε) α} {width : ℕ} (items : List α)
    (hitems : ∀ item ∈ items, RoundTrips width (write item) reader item) :
    RoundTrips (items.length * width) (items.forM write) (readTimes reader items.length)
      items := by
  induction items with
  | nil => exact (RoundTrips.pure []).weaken (by simp)
  | cons item items ih =>
    have hitem := hitems item List.mem_cons_self
    have hrest := ih fun other hmem => hitems other (List.mem_cons_of_mem _ hmem)
    refine hitem.bind (hrest.last.weaken ?_)
    rw [List.length_cons, Nat.succ_mul]
    omega

end

end Library
