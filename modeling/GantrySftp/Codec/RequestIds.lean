import GantrySftp.Codec.Correlation
import Mathlib.Data.Finset.Card

/-!
# Request ids

Ids are handed out around a circle that leaves out zero, passing over those in flight. The search
for a free id ends unless every id of the circle is in flight, and an id comes back only after
every other id was handed out or seen in flight.
-/

namespace GantrySftp

open Library

namespace Codec

/-! ## The circle of ids -/

/-- Ids follow each other around the circle of all ids. -/
theorem advance_iterate {requestId : ℤ} (hlow : minRequestId ≤ requestId)
    (hhigh : requestId ≤ maxRequestId) (steps : ℕ) :
    advance^[steps] requestId = (requestId - 1 + steps) % maxRequestId + 1 := by
  induction steps with
  | zero =>
    simp only [minRequestId, maxRequestId, Function.iterate_zero, id_eq] at *
    omega
  | succ steps ih =>
    rw [Function.iterate_succ_apply', ih, advance]
    simp only [minRequestId, maxRequestId] at *
    split_ifs <;> omega

/-- An id that may be handed out. -/
def InCircle (requestId : ℤ) : Prop := minRequestId ≤ requestId ∧ requestId ≤ maxRequestId

instance (requestId : ℤ) : Decidable (InCircle requestId) := inferInstanceAs (Decidable (_ ∧ _))

/-- The circle is never left. -/
theorem InCircle.advance_iterate {requestId : ℤ} (h : InCircle requestId) (steps : ℕ) :
    InCircle (advance^[steps] requestId) := by
  rw [Codec.advance_iterate h.1 h.2]
  simp only [InCircle, minRequestId, maxRequestId]
  omega

/-- As many ids follow each other as are different, up to once around. -/
theorem steps_le_card {requestId : ℤ} (h : InCircle requestId) {steps : ℕ} {ids : Finset ℤ}
    (hsteps : (steps : ℤ) ≤ maxRequestId)
    (hids : ∀ step < steps, advance^[step] requestId ∈ ids) : steps ≤ ids.card := by
  have hinjective : Set.InjOn (fun step => advance^[step] requestId) (Finset.range steps) := by
    intro first hfirst second hsecond heq
    have hfirst := Finset.mem_range.mp hfirst
    have hsecond := Finset.mem_range.mp hsecond
    simp only [Codec.advance_iterate h.1 h.2, maxRequestId] at heq hsteps
    omega
  have hsubset : (Finset.range steps).image (fun step => advance^[step] requestId) ⊆ ids := by
    intro other hother
    obtain ⟨step, hstep, rfl⟩ := Finset.mem_image.mp hother
    exact hids step (Finset.mem_range.mp hstep)
  calc steps = ((Finset.range steps).image fun step => advance^[step] requestId).card := by
        rw [Finset.card_image_of_injOn hinjective, Finset.card_range]
    _ ≤ ids.card := Finset.card_le_card hsubset

/-- Coming back to an id takes once around the circle. -/
theorem once_around {requestId : ℤ} (h : InCircle requestId) {steps : ℕ}
    (hback : advance^[steps + 1] requestId = requestId) : maxRequestId ≤ steps + 1 := by
  have hlow := h.1
  have hhigh := h.2
  rw [Codec.advance_iterate hlow hhigh] at hback
  simp only [minRequestId, maxRequestId] at *
  omega

/-! ## The search for a free id -/

/-- The ids of the circle that are in flight. -/
def inFlight (codec : Codec) : Finset ℤ :=
  ((codec.outstanding.entries.map Prod.fst).filter InCircle).toFinset

/-- What being in flight means. -/
theorem mem_inFlight {codec : Codec} {requestId : ℤ} :
    requestId ∈ codec.inFlight ↔
      (codec.outstanding.get requestId).isSome = true ∧ InCircle requestId := by
  simp only [inFlight, List.mem_toFinset, List.mem_filter, decide_eq_true_eq]
  exact and_congr_left fun _ => mem_keys_iff_getEntry

/-- No more ids are in flight than requests are outstanding. -/
theorem card_inFlight_le (codec : Codec) :
    codec.inFlight.card ≤ codec.outstanding.entries.length := by
  calc codec.inFlight.card
      ≤ ((codec.outstanding.entries.map Prod.fst).filter InCircle).length :=
        List.toFinset_card_le _
    _ ≤ (codec.outstanding.entries.map Prod.fst).length := List.length_filter_le _ _
    _ = codec.outstanding.entries.length := List.length_map _

/-- The loop that passes over ids in flight, from one id to the first that is free. -/
inductive Searches (outstanding : Dict ℤ Request) : ℤ → ℤ → Prop
  | free (requestId : ℤ) (h : outstanding.get requestId = none) :
      Searches outstanding requestId requestId
  | passes (requestId allocated : ℤ) (h : (outstanding.get requestId).isSome = true)
      (rest : Searches outstanding (advance requestId) allocated) :
      Searches outstanding requestId allocated

/-- What the loop ends at is free, and everything it passed was in flight. -/
theorem Searches.passed {outstanding : Dict ℤ Request} {requestId allocated : ℤ}
    (h : Searches outstanding requestId allocated) :
    outstanding.get allocated = none ∧ ∃ steps, allocated = advance^[steps] requestId ∧
      ∀ step < steps, (outstanding.get (advance^[step] requestId)).isSome = true := by
  induction h with
  | free requestId h => exact ⟨h, 0, rfl, by simp⟩
  | passes requestId allocated h rest ih =>
    obtain ⟨hfree, steps, rfl, hpassed⟩ := ih
    refine ⟨hfree, steps + 1, rfl, ?_⟩
    intro step hstep
    cases step with
    | zero => exact h
    | succ step => exact hpassed step (Nat.lt_of_succ_lt_succ hstep)

/-- The bounded search is the loop wherever it finds a free id. -/
theorem searches_firstFree {outstanding : Dict ℤ Request} {steps : ℕ} {requestId : ℤ}
    (h : outstanding.get (firstFree outstanding steps requestId) = none) :
    Searches outstanding requestId (firstFree outstanding steps requestId) := by
  induction steps generalizing requestId with
  | zero => exact .free requestId h
  | succ steps ih =>
    unfold firstFree at h ⊢
    split_ifs at h ⊢ with hsome
    · exact .passes requestId _ hsome (ih h)
    · exact .free requestId h

/-- When the search for a free id fails, every id it passed is in flight. -/
theorem isSome_of_firstFree {outstanding : Dict ℤ Request} {steps : ℕ} {requestId : ℤ}
    (h : (outstanding.get (firstFree outstanding steps requestId)).isSome = true) :
    ∀ step < steps + 1, (outstanding.get (advance^[step] requestId)).isSome = true := by
  induction steps generalizing requestId with
  | zero =>
    intro step hstep
    obtain rfl := Nat.lt_one_iff.mp hstep
    exact h
  | succ steps ih =>
    unfold firstFree at h
    split_ifs at h with hsome
    · intro step hstep
      cases step with
      | zero => exact hsome
      | succ step => exact ih h step (Nat.lt_of_succ_lt_succ hstep)
    · exact absurd h hsome

/-- Unless every id is in flight, the search ends at a free one. -/
theorem firstFree_free {codec : Codec} (hnext : InCircle codec.nextId)
    (hroom : (codec.outstanding.entries.length : ℤ) ≤ maxRequestId - minRequestId) :
    codec.outstanding.get
      (firstFree codec.outstanding codec.outstanding.entries.length codec.nextId) = none := by
  by_contra hnone
  have hpassed := isSome_of_firstFree (Option.isSome_iff_ne_none.mpr hnone)
  have hsteps : ((codec.outstanding.entries.length + 1 : ℕ) : ℤ) ≤ maxRequestId := by
    simp only [minRequestId] at hroom
    omega
  have hcard := steps_le_card hnext hsteps fun step hstep =>
    mem_inFlight.mpr ⟨hpassed step hstep, hnext.advance_iterate step⟩
  have hlength := codec.card_inFlight_le
  omega

/-- What reserving an id does: hand out what the loop ends at, or refuse because every id is in
flight. -/
theorem allocateRequestId_cases {codec : Codec} (hnext : InCircle codec.nextId) :
    (∃ allocated, Searches codec.outstanding codec.nextId allocated ∧
        codec.allocateRequestId = (.ok allocated, { codec with nextId := advance allocated })) ∨
      (∃ message, codec.allocateRequestId = (.error (.stateError message), codec)) ∧
        maxRequestId ≤ codec.outstanding.entries.length := by
  unfold allocateRequestId
  split_ifs with hfull
  · refine Or.inr ⟨⟨_, rfl⟩, ?_⟩
    simp only [minRequestId] at hfull
    omega
  · exact Or.inl ⟨_, searches_firstFree (firstFree_free hnext (not_lt.mp hfull)), rfl⟩

/-! ## Along calls -/

/-- Handling a packet hands out no id. -/
theorem Handled.nextId {codec after : Codec} {packet : Packet} {event : Event}
    (h : Handled codec packet event after) : after.nextId = codec.nextId := by
  cases h <;> rfl

/-- Handling frames hands out no id. -/
theorem handleFrames_nextId (codec : Codec) (frames : List Bytes) :
    (codec.handleFrames frames).2.nextId = codec.nextId := by
  induction frames generalizing codec with
  | nil => rfl
  | cons frame frames ih =>
    cases hframe : decode frame >>= codec.handle with
    | error error => rw [handleFrames_cons_error hframe]
    | ok result =>
      obtain ⟨event, after⟩ := result
      obtain ⟨packet, -, hhandled⟩ := handled_of_frame hframe
      rw [handleFrames_cons_ok hframe, ih, hhandled.nextId]

/-- Receiving hands out no id. -/
theorem receive_nextId (codec : Codec) (chunk : Chunk) :
    (codec.receive chunk).2.nextId = codec.nextId := by
  unfold receive
  split_ifs with hfailed
  · rfl
  · cases hfeed : (codec.splitter.feed chunk).1 with
    | error error => rfl
    | ok frames =>
      have hsame := (codec.fedWith chunk).handleFrames_nextId frames
      cases hhandle : (codec.fedWith chunk).handleFrames frames with
      | mk result after =>
        rw [hhandle] at hsame
        simp only [hhandle]
        cases result <;> exact hsame

/-- Every call but reserving an id leaves the next one. -/
theorem call_nextId (codec : Codec) {request : Call} (h : request ≠ .allocateRequestId) :
    (codec.call request).2.nextId = codec.nextId := by
  cases request with
  | initiate version =>
    obtain ⟨error, hinitiate, -⟩ | ⟨-, hinitiate⟩ := codec.initiate_cases version
    · rw [call, hinitiate]
    · rw [call, hinitiate]
  | allocateRequestId => exact absurd rfl h
  | send request =>
    obtain ⟨error, hsend, -⟩ | ⟨wire, -, -, hsend⟩ := codec.send_cases request
    · rw [call, hsend]
    · rw [call, hsend]
  | receive chunk => exact codec.receive_nextId chunk

/-- The ids a call hands out. -/
def handedOut (codec : Codec) : Call → List ℤ
  | .allocateRequestId =>
    match codec.allocateRequestId.1 with
    | .ok allocated => [allocated]
    | .error _ => []
  | .initiate _ => []
  | .send _ => []
  | .receive _ => []

/-- The ids a call may pass over, which are those in flight when it reserves one. -/
def passable (codec : Codec) : Call → Finset ℤ
  | .allocateRequestId => codec.inFlight
  | .initiate _ => ∅
  | .send _ => ∅
  | .receive _ => ∅

/-- The ids that calls hand out, in order. -/
def allocations (codec : Codec) : List Call → List ℤ
  | [] => []
  | request :: calls => codec.handedOut request ++ (codec.call request).2.allocations calls

/-- The ids in flight at one of the calls that reserve an id. -/
def busy (codec : Codec) : List Call → Finset ℤ
  | [] => ∅
  | request :: calls => codec.passable request ∪ (codec.call request).2.busy calls

/-- A run with one more call in front. -/
theorem run_cons (codec : Codec) (request : Call) (calls : List Call) :
    (codec.run (request :: calls)).2 = ((codec.call request).2.run calls).2 := by
  induction calls using List.reverseRecOn with
  | nil => rfl
  | append_singleton calls last ih => rw [← List.cons_append, run_concat, run_concat, ih]

/-- A run goes on where another ended. -/
theorem run_append (codec : Codec) (front back : List Call) :
    (codec.run (front ++ back)).2 = ((codec.run front).2.run back).2 := by
  induction front generalizing codec with
  | nil => rfl
  | cons request front ih => rw [List.cons_append, run_cons, run_cons, ih]

/-- The ids that calls and more calls hand out. -/
theorem allocations_append (codec : Codec) (front back : List Call) :
    codec.allocations (front ++ back) =
      codec.allocations front ++ (codec.run front).2.allocations back := by
  induction front generalizing codec with
  | nil => rfl
  | cons request front ih =>
    rw [List.cons_append, allocations, allocations, ih, run_cons, List.append_assoc]

/-- What is in flight along calls and more calls. -/
theorem busy_append (codec : Codec) (front back : List Call) :
    codec.busy (front ++ back) = codec.busy front ∪ (codec.run front).2.busy back := by
  induction front generalizing codec with
  | nil => simp [busy, run]
  | cons request front ih =>
    rw [List.cons_append, busy, busy, ih, run_cons, Finset.union_assoc]

/-- The counter goes around the circle over ids that are handed out or passed over. -/
def Passes (before after : ℤ) (allocated : List ℤ) (passed : Finset ℤ) : Prop :=
  ∃ steps, after = advance^[steps] before ∧
    ∀ step < steps, advance^[step] before ∈ allocated ∨ advance^[step] before ∈ passed

/-- One way around the circle goes on with another. -/
theorem Passes.append {before middle after : ℤ} {first second : List ℤ}
    {passed passed' : Finset ℤ} (h : Passes before middle first passed)
    (h' : Passes middle after second passed') :
    Passes before after (first ++ second) (passed ∪ passed') := by
  obtain ⟨steps, rfl, hsteps⟩ := h
  obtain ⟨steps', rfl, hsteps'⟩ := h'
  refine ⟨steps' + steps, (Function.iterate_add_apply advance steps' steps before).symm, ?_⟩
  intro step hstep
  rw [List.mem_append, Finset.mem_union]
  by_cases hless : step < steps
  · exact (hsteps step hless).imp Or.inl Or.inl
  · obtain ⟨more, rfl⟩ := Nat.exists_eq_add_of_le' (not_lt.mp hless)
    rw [Function.iterate_add_apply]
    exact (hsteps' more (by omega)).imp Or.inr Or.inr

/-- The loop goes over ids in flight. -/
theorem Searches.passes_to {codec : Codec} {allocated : ℤ} (hnext : InCircle codec.nextId)
    (h : Searches codec.outstanding codec.nextId allocated) :
    Passes codec.nextId allocated [] codec.inFlight := by
  obtain ⟨-, steps, rfl, hpassed⟩ := h.passed
  refine ⟨steps, rfl, fun step hstep => Or.inr ?_⟩
  exact mem_inFlight.mpr ⟨hpassed step hstep, hnext.advance_iterate step⟩

/-- A call moves the counter over what it hands out and what is in flight. -/
theorem call_passes {codec : Codec} (hnext : InCircle codec.nextId) (request : Call) :
    Passes codec.nextId (codec.call request).2.nextId (codec.handedOut request)
      (codec.passable request) := by
  by_cases hrequest : request = .allocateRequestId
  · subst hrequest
    obtain ⟨allocated, hsearches, hallocate⟩ | ⟨⟨message, hallocate⟩, -⟩ :=
      allocateRequestId_cases hnext
    · have hlast : Passes allocated (advance allocated) [allocated] ∅ := by
        refine ⟨1, rfl, fun step hstep => Or.inl ?_⟩
        obtain rfl := Nat.lt_one_iff.mp hstep
        exact List.mem_singleton_self allocated
      have hpasses := (hsearches.passes_to hnext).append hlast
      rw [List.nil_append, Finset.union_empty] at hpasses
      simpa only [call, handedOut, passable, hallocate] using hpasses
    · refine ⟨0, ?_, by simp⟩
      rw [call, hallocate]
      rfl
  · exact ⟨0, codec.call_nextId hrequest, by simp⟩

/-- The counter stays in the circle. -/
theorem inCircle_call {codec : Codec} (hnext : InCircle codec.nextId) (request : Call) :
    InCircle (codec.call request).2.nextId := by
  obtain ⟨steps, hsteps, -⟩ := call_passes hnext request
  rw [hsteps]
  exact hnext.advance_iterate steps

/-- The counter stays in the circle along calls. -/
theorem inCircle_run {codec : Codec} (hnext : InCircle codec.nextId) (calls : List Call) :
    InCircle (codec.run calls).2.nextId := by
  induction calls using List.reverseRecOn with
  | nil => exact hnext
  | append_singleton calls request ih =>
    rw [run_concat]
    exact inCircle_call ih request

/-- Calls move the counter over what they hand out and what was in flight. -/
theorem run_passes {codec : Codec} (hnext : InCircle codec.nextId) (calls : List Call) :
    Passes codec.nextId (codec.run calls).2.nextId (codec.allocations calls)
      (codec.busy calls) := by
  induction calls generalizing codec with
  | nil => exact ⟨0, rfl, by simp⟩
  | cons request calls ih =>
    rw [run_cons]
    exact (call_passes hnext request).append (ih (inCircle_call hnext request))

/-! ## When an id comes back -/

/-- What reserving an id does when it is not refused. -/
theorem searches_of_allocated {codec : Codec} (hnext : InCircle codec.nextId) {requestId : ℤ}
    (h : codec.allocateRequestId.1 = .ok requestId) :
    Searches codec.outstanding codec.nextId requestId ∧
      codec.allocateRequestId.2 = { codec with nextId := advance requestId } := by
  obtain ⟨allocated, hsearches, hallocate⟩ | ⟨⟨message, hallocate⟩, -⟩ :=
    allocateRequestId_cases hnext
  · rw [hallocate] at h ⊢
    obtain rfl := Except.ok.inj h
    exact ⟨hsearches, rfl⟩
  · rw [hallocate] at h
    cases h

/-- Between two allocations of one id, every other id of the circle is handed out or in flight at
an allocation. -/
theorem maxRequestId_le_of_again {codec : Codec} (hnext : InCircle codec.nextId) {requestId : ℤ}
    {between : List Call} (hfirst : codec.allocateRequestId.1 = .ok requestId)
    (hsecond : ((codec.call .allocateRequestId).2.run between).2.allocateRequestId.1 =
      .ok requestId) :
    maxRequestId ≤ ((codec.call .allocateRequestId).2.allocations between).length +
      ((codec.call .allocateRequestId).2.busy (between ++ [.allocateRequestId])).card + 1 := by
  obtain ⟨hsearches, hafter⟩ := searches_of_allocated hnext hfirst
  have hadvanced : (codec.call .allocateRequestId).2.nextId = advance requestId := by
    rw [call, hafter]
  have hcircle := inCircle_call hnext .allocateRequestId
  have hrequestId : InCircle requestId := by
    obtain ⟨-, steps, rfl, -⟩ := hsearches.passed
    exact hnext.advance_iterate steps
  generalize (codec.call .allocateRequestId).2 = after at *
  have hfinal := inCircle_run hcircle between
  have hpasses := (run_passes hcircle between).append
    ((searches_of_allocated hfinal hsecond).1.passes_to hfinal)
  rw [List.append_nil, hadvanced] at hpasses
  obtain ⟨steps, hback, hpassed⟩ := hpasses
  have haround : maxRequestId ≤ steps + 1 := once_around hrequestId hback.symm
  obtain ⟨most, hmost⟩ : ∃ most : ℕ, (most : ℤ) + 1 = maxRequestId := ⟨4294967294, rfl⟩
  have hcard : most ≤ ((after.allocations between).toFinset ∪
      after.busy (between ++ [.allocateRequestId])).card := by
    apply steps_le_card (hrequestId.advance_iterate 1) (by omega)
    intro step hstep
    rw [Finset.mem_union, List.mem_toFinset, busy_append, busy, busy, Finset.union_empty]
    exact hpassed step (by omega)
  have hunion := Finset.card_union_le (after.allocations between).toFinset
    (after.busy (between ++ [.allocateRequestId]))
  have hlength := List.toFinset_card_le (after.allocations between)
  omega

/-- Reserving an id after any calls ends, at an id of the circle that is not in flight or refused
because every id is in flight; and between two allocations of one id every other id of the
circle is handed out or is in flight at an allocation. -/
theorem allocations_fresh (maxFrameLength : ℕ) (h : 1 ≤ maxFrameLength) (calls : List Call) :
    let codec := ((init maxFrameLength h).run calls).2
    ((∃ allocated, Searches codec.outstanding codec.nextId allocated ∧
          codec.allocateRequestId = (.ok allocated, { codec with nextId := advance allocated }) ∧
          1 ≤ allocated ∧ allocated ≤ 2 ^ 32 - 1 ∧ codec.outstanding.get allocated = none) ∨
        (∃ message, codec.allocateRequestId = (.error (.stateError message), codec)) ∧
          2 ^ 32 - 1 ≤ codec.outstanding.entries.length) ∧
      ∀ (requestId : ℤ) (between : List Call),
        codec.allocateRequestId.1 = .ok requestId →
        ((codec.call .allocateRequestId).2.run between).2.allocateRequestId.1 = .ok requestId →
        2 ^ 32 - 2 ≤ ((codec.call .allocateRequestId).2.allocations between).length +
          ((codec.call .allocateRequestId).2.busy (between ++ [.allocateRequestId])).card := by
  intro codec
  have hnext : InCircle codec.nextId := inCircle_run (show InCircle minRequestId by decide) calls
  apply And.intro
  · obtain ⟨allocated, hsearches, hallocate⟩ | ⟨hrefused, hfull⟩ := allocateRequestId_cases hnext
    · obtain ⟨hfree, steps, rfl, -⟩ := hsearches.passed
      have hcircle := hnext.advance_iterate steps
      exact Or.inl ⟨_, hsearches, hallocate, hcircle.1, hcircle.2, hfree⟩
    · refine Or.inr ⟨hrefused, ?_⟩
      simp only [maxRequestId] at hfull
      omega
  · intro requestId between hfirst hsecond
    have hmost := maxRequestId_le_of_again hnext hfirst hsecond
    simp only [maxRequestId] at hmost
    omega

/-- A codec that waits for the request under the smallest id passes over no other. -/
theorem run_waiting {codec : Codec} {request : Request}
    (h : codec.outstanding.entries = [(minRequestId, request)]) (hnext : minRequestId < codec.nextId)
    (count : ℕ) (hroom : codec.nextId + count ≤ maxRequestId + 1) :
    (codec.run (.replicate count .allocateRequestId)).2.outstanding.entries =
        [(minRequestId, request)] ∧
      (codec.run (.replicate count .allocateRequestId)).2.nextId =
        advance^[count] codec.nextId := by
  induction count generalizing codec with
  | zero => exact ⟨h, rfl⟩
  | succ count ih =>
    have hfree : (codec.outstanding.get codec.nextId).isSome = false := by
      rw [Dict.get, h, getEntry, if_neg hnext.ne]
      rfl
    have hallocate : codec.allocateRequestId =
        (.ok codec.nextId, { codec with nextId := advance codec.nextId }) := by
      simp [allocateRequestId, h, firstFree, hfree, minRequestId, maxRequestId]
    have hcall : (codec.call .allocateRequestId).2 =
        { codec with nextId := advance codec.nextId } := by rw [call, hallocate]
    rw [List.replicate_succ, run_cons, hcall, Function.iterate_succ_apply]
    cases count with
    | zero => exact ⟨h, rfl⟩
    | succ count =>
      have hadvance : advance codec.nextId = codec.nextId + 1 := by
        rw [advance, if_neg (by push_cast at hroom; omega)]
      refine @ih { codec with nextId := advance codec.nextId } h ?_ ?_
      · change minRequestId < advance codec.nextId
        omega
      · change advance codec.nextId + ((count + 1 : ℕ) : ℤ) ≤ maxRequestId + 1
        push_cast at hroom ⊢
        omega

/-- A codec that waits for the request under the smallest id passes over it. -/
theorem allocateRequestId_waiting {codec : Codec} {request : Request}
    (h : codec.outstanding.entries = [(minRequestId, request)])
    (hnext : codec.nextId = minRequestId) : codec.allocateRequestId.1 = .ok 2 := by
  have htaken : (codec.outstanding.get minRequestId).isSome = true := by
    rw [Dict.get, h, getEntry, if_pos rfl]
    rfl
  have hroom : ¬(codec.outstanding.entries.length : ℤ) > maxRequestId - minRequestId := by
    rw [h, List.length_singleton]
    decide
  rw [allocateRequestId, if_neg hroom]
  change Except.ok (firstFree codec.outstanding codec.outstanding.entries.length codec.nextId) = _
  rw [h, hnext, List.length_singleton, firstFree, if_pos htaken, firstFree]
  rfl

/-- A codec that waits for the reply to one request hands out the next id, and that one again once
every id was handed out or passed over. -/
theorem allocations_fresh_waiting :
    let codec := ((init 64 (by decide)).run (handshaken ++ [(closed 1).1])).2
    (∃ allocated, codec.allocateRequestId.1 = .ok allocated ∧
        codec.outstanding.get allocated = none) ∧
      2 ^ 32 - 2 ≤ ((codec.call .allocateRequestId).2.allocations
          (.replicate (2 ^ 32 - 3) .allocateRequestId)).length +
        ((codec.call .allocateRequestId).2.busy
          (.replicate (2 ^ 32 - 3) .allocateRequestId ++ [.allocateRequestId])).card := by
  obtain ⟨hfinds, hcircles⟩ := allocations_fresh 64 (by decide) (handshaken ++ [(closed 1).1])
  have hsecond : ((init 64 (by decide)).run (handshaken ++ [(closed 1).1])).2.allocateRequestId.1 =
      .ok 2 := by
    decide +kernel
  have hthird : (((init 64 (by decide)).run (handshaken ++ [(closed 1).1])).2.call
      .allocateRequestId).2.nextId = 3 := by
    decide +kernel
  have hwaiting : (((init 64 (by decide)).run (handshaken ++ [(closed 1).1])).2.call
      .allocateRequestId).2.outstanding.entries =
        [(minRequestId, ⟨.close { requestId := 1, handle := [] }, rfl⟩)] := by
    decide +kernel
  generalize ((init 64 (by decide)).run (handshaken ++ [(closed 1).1])).2 = codec at *
  intro codec
  refine ⟨?_, hcircles 2 _ hsecond ?_⟩
  · obtain ⟨allocated, -, hallocate, -, -, hfree⟩ | ⟨⟨message, hrefused⟩, -⟩ := hfinds
    · exact ⟨allocated, congrArg Prod.fst hallocate, hfree⟩
    · rw [hrefused] at hsecond
      cases hsecond
  · have hroom : (3 : ℤ) + ((2 ^ 32 - 3 : ℕ) : ℤ) ≤ maxRequestId + 1 := by norm_num [maxRequestId]
    obtain ⟨hleft, hnext⟩ := run_waiting hwaiting (by rw [hthird]; decide) (2 ^ 32 - 3)
      (by simpa only [hthird] using hroom)
    have hback : advance^[2 ^ 32 - 3] (3 : ℤ) = minRequestId :=
      advance_iterate (show minRequestId ≤ 3 by decide) (by decide) _
    rw [hthird, hback] at hnext
    exact allocateRequestId_waiting hleft hnext

/-- A codec that waits for nothing hands out the next id. -/
theorem allocateRequestId_idle {codec : Codec} (h : codec.outstanding.entries = []) :
    codec.allocateRequestId =
      (.ok codec.nextId, { codec with nextId := advance codec.nextId }) := by
  simp [allocateRequestId, h, firstFree, minRequestId, maxRequestId]

/-- A codec that waits for nothing hands out ids one after another. -/
theorem run_idle {codec : Codec} (h : codec.outstanding.entries = []) (count : ℕ) :
    (codec.run (.replicate count .allocateRequestId)).2.outstanding.entries = [] ∧
      (codec.run (.replicate count .allocateRequestId)).2.nextId =
        advance^[count] codec.nextId ∧
      (codec.allocations (.replicate count .allocateRequestId)).length = count ∧
      codec.busy (.replicate count .allocateRequestId) = ∅ := by
  induction count generalizing codec with
  | zero => exact ⟨h, rfl, rfl, rfl⟩
  | succ count ih =>
    have hallocate := allocateRequestId_idle h
    have hcall : (codec.call .allocateRequestId).2 =
        { codec with nextId := advance codec.nextId } := by rw [call, hallocate]
    have hidle : (codec.call .allocateRequestId).2.outstanding.entries = [] := by rw [hcall, h]
    obtain ⟨hempty, hnext, hlength, hbusy⟩ := ih hidle
    rw [List.replicate_succ, run_cons, allocations, busy]
    refine ⟨hempty, ?_, ?_, ?_⟩
    · rw [hnext, hcall, Function.iterate_succ_apply]
    · rw [List.length_append, hlength, handedOut, hallocate]
      exact Nat.add_comm 1 count
    · rw [hbusy, passable, inFlight, h]
      rfl

/-- Two requests under ids of their own choice, each answered before the next, and an id reserved
while each waits. -/
def unasked : List Call :=
  [(closed 2).1, .allocateRequestId, (closed 2).2, (closed 4).1, .allocateRequestId, (closed 4).2]

/-- With nothing ever outstanding an id comes back after one allocation less than there are ids,
and with one request outstanding at a time it comes back after fewer still. -/
theorem id_comes_back_early :
    (¬∀ (requestId : ℤ) (between : List Call),
        (init 64 (by decide)).allocateRequestId.1 = .ok requestId →
        (((init 64 (by decide)).call .allocateRequestId).2.run between).2.allocateRequestId.1 =
          .ok requestId →
        2 ^ 32 - 1 ≤ (((init 64 (by decide)).call .allocateRequestId).2.allocations between).length +
          (((init 64 (by decide)).call .allocateRequestId).2.busy
            (between ++ [.allocateRequestId])).card) ∧
    ¬∀ (requestId : ℤ) (between : List Call),
        ((init 64 (by decide)).run handshaken).2.allocateRequestId.1 = .ok requestId →
        (((init 64 (by decide)).run (handshaken ++ [.allocateRequestId])).2.run
          between).2.allocateRequestId.1 = .ok requestId →
        (∀ count, (((init 64 (by decide)).run (handshaken ++ [.allocateRequestId])).2.run
          (between.take count)).2.outstanding.entries.length ≤ 1) →
        2 ^ 32 - 2 ≤ (((init 64 (by decide)).run
          (handshaken ++ [.allocateRequestId])).2.allocations between).length + 1 := by
  apply And.intro
  · intro hclaim
    have hidle : ((init 64 (by decide)).call .allocateRequestId).2.outstanding.entries = [] := rfl
    have hback : advance^[2 ^ 32 - 2] ((init 64 (by decide)).call .allocateRequestId).2.nextId =
        1 := advance_iterate (show minRequestId ≤ 2 by decide) (by decide) _
    obtain ⟨hempty, hnext, hlength, hbusy⟩ := run_idle hidle (2 ^ 32 - 2)
    have hagain := congrArg Prod.fst (allocateRequestId_idle hempty)
    rw [hnext, hback] at hagain
    have hmost := hclaim 1 _ rfl hagain
    rw [hlength, busy_append, hbusy, busy, busy, passable, inFlight, hempty] at hmost
    simp at hmost
  · have hfirst : ((init 64 (by decide)).run handshaken).2.outstanding.entries = [] := by
      decide +kernel
    have hone : ((init 64 (by decide)).run handshaken).2.nextId = 1 := by decide +kernel
    have hidle : (((init 64 (by decide)).run (handshaken ++ [.allocateRequestId])).2.run
        unasked).2.outstanding.entries = [] := by decide +kernel
    have hsix : (((init 64 (by decide)).run (handshaken ++ [.allocateRequestId])).2.run
        unasked).2.nextId = 6 := by decide +kernel
    have hskipped : ((init 64 (by decide)).run
        (handshaken ++ [.allocateRequestId])).2.allocations unasked = [3, 5] := by decide +kernel
    have hsingle : ∀ count ≤ 6, (((init 64 (by decide)).run
        (handshaken ++ [.allocateRequestId])).2.run
          (unasked.take count)).2.outstanding.entries.length ≤ 1 := by decide +kernel
    generalize ((init 64 (by decide)).run (handshaken ++ [.allocateRequestId])).2 = codec at *
    intro hclaim
    obtain ⟨hempty, hnext, hlength, -⟩ := run_idle hidle (2 ^ 32 - 6)
    have hback : advance^[2 ^ 32 - 6] (codec.run unasked).2.nextId = 1 := by
      rw [hsix]
      exact advance_iterate (show minRequestId ≤ 6 by decide) (by decide) _
    have hagain := congrArg Prod.fst (allocateRequestId_idle hempty)
    rw [hnext, hback, ← run_append] at hagain
    have hmost := hclaim 1 _ ?_ hagain ?_
    · rw [allocations_append, List.length_append, hlength, hskipped] at hmost
      simp at hmost
    · rw [allocateRequestId_idle hfirst, hone]
    · intro count
      rw [List.take_append]
      by_cases hcount : count ≤ 6
      · rw [show count - unasked.length = 0 from Nat.sub_eq_zero_of_le hcount, List.take_zero,
          List.append_nil]
        exact hsingle count hcount
      · rw [List.take_of_length_le (Nat.le_of_lt (not_le.mp hcount)), List.take_replicate,
          run_append, (run_idle hidle _).1]
        exact Nat.zero_le 1

end Codec

end GantrySftp
