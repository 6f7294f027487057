import GantrySftp.Session.GlobPattern

/-!
# Patterns that are never refused

How a bracket expression is read, and whether it is refused, does not depend on the name. A
component that passes the check up front is therefore refused for no name: matching reads its
bracket expressions from the same places.
-/

namespace GantrySftp

open Library

namespace Glob

/-! ## Where reading ends -/

/-- Two readings that agree in part, continued by readings that agree where they did. -/
theorem map_bind_congr {ε α β γ δ : Type} {left right : Except ε α} {part : α → γ}
    {next next' : α → Except ε β} {rest : β → δ} (h : left.map part = right.map part)
    (hnext : ∀ value value', part value = part value' →
      (next value).map rest = (next' value').map rest) :
    (left >>= next).map rest = (right >>= next').map rest := by
  cases left with
  | error error =>
    cases right with
    | error error' => exact congrArg Except.error (Except.error.inj h)
    | ok value' => cases h
  | ok value =>
    cases right with
    | error error' => cases h
    | ok value' => exact hnext value value' (Except.ok.inj h)

section Reading

variable (caseSensitive : Bool)

/-- A member ends in the same place whatever is looked for. -/
theorem plainItem_fst (subject : Option UInt8) (low : UInt8) (rest : Bytes) :
    (plainItem caseSensitive subject low rest).1 = (plainItem true none low rest).1 := by
  unfold plainItem
  cases rest with
  | nil => rfl
  | cons second behind =>
    dsimp only
    split_ifs
    · rfl
    · cases behind with
      | nil => rfl
      | cons high after =>
        dsimp only
        split_ifs <;> rfl

/-- A character class is read alike whatever is looked for. -/
theorem readNamedClass_fst (subject : Option UInt8) (rest : Bytes) :
    (readNamedClass caseSensitive subject rest).map (Option.map Prod.fst) =
      (readNamedClass true none rest).map (Option.map Prod.fst) := by
  unfold readNamedClass
  cases untilClose colon rest with
  | none => rfl
  | some found =>
    dsimp only
    split_ifs
    · cases namedClasses.lookup found.1 <;> rfl
    · rfl

/-- A sub-expression is read alike whatever is looked for. -/
theorem readSubExpression_fst (subject : Option UInt8) (marker : UInt8) (rest : Bytes) :
    (readSubExpression caseSensitive subject marker rest).map (Option.map Prod.fst) =
      (readSubExpression true none marker rest).map (Option.map Prod.fst) := by
  unfold readSubExpression
  split
  · exact readNamedClass_fst _ _ _
  · split
    · cases untilClose marker rest with
      | none => rfl
      | some found => split <;> rfl
    · rfl

/-- One class member is read alike whatever is looked for. -/
theorem matchClassItem_fst (subject : Option UInt8) (low : UInt8) (rest : Bytes) :
    (matchClassItem caseSensitive subject low rest).map Prod.fst =
      (matchClassItem true none low rest).map Prod.fst := by
  unfold matchClassItem
  have hplain := plainItem_fst caseSensitive subject low rest
  cases rest with
  | nil => exact congrArg Except.ok hplain
  | cons marker behind =>
    dsimp only
    split_ifs
    · refine map_bind_congr (readSubExpression_fst caseSensitive subject marker behind)
        fun found found' hfound => ?_
      cases found with
      | none =>
        cases found' with
        | none => exact congrArg Except.ok hplain
        | some _ => cases hfound
      | some _ =>
        cases found' with
        | none => cases hfound
        | some _ => exact congrArg Except.ok (Option.some.inj hfound)
    · exact congrArg Except.ok hplain

/-- The members of a class are read alike whatever is looked for. -/
theorem scanItems_fst (subject : Option UInt8) (turns : ℕ) (first matched matched' : Bool)
    (pattern : Bytes) :
    (scanItems caseSensitive subject turns first matched pattern).map (Option.map Prod.fst) =
      (scanItems true none turns first matched' pattern).map (Option.map Prod.fst) := by
  induction turns generalizing first matched matched' pattern with
  | zero => rfl
  | succ turns ih =>
    unfold scanItems
    cases pattern with
    | nil => rfl
    | cons low rest =>
      dsimp only
      split_ifs
      · rfl
      · refine map_bind_congr (matchClassItem_fst caseSensitive subject low rest)
          fun found found' hfound => ?_
        obtain ⟨behind, hit⟩ := found
        obtain ⟨behind', hit'⟩ := found'
        obtain rfl : behind = behind' := hfound
        exact ih _ _ _ _

/-- A bracket expression is read alike whatever is looked for. -/
theorem scanClass_fst (subject : Option UInt8) (rest : Bytes) :
    (scanClass caseSensitive subject rest).map Prod.fst =
      (scanClass true none rest).map Prod.fst := by
  unfold scanClass
  dsimp only
  generalize (if rest.head?.any negate.contains = true then rest.tail else rest) = items
  refine map_bind_congr (scanItems_fst caseSensitive subject (items.length + 1) true false false
    items) fun found found' hfound => ?_
  cases found with
  | none =>
    cases found' with
    | none => rfl
    | some _ => cases hfound
  | some _ =>
    cases found' with
    | none => cases hfound
    | some _ => exact congrArg Except.ok (Option.some.inj hfound)

end Reading

/-! ## Where reading goes on -/

/-- A character class ends behind where it was read from. -/
theorem untilClose_length {marker : UInt8} {rest name behind : Bytes}
    (h : untilClose marker rest = some (name, behind)) : behind.length ≤ rest.length := by
  induction rest generalizing name behind with
  | nil => cases h
  | cons byte rest ih =>
    unfold untilClose at h
    split at h
    · obtain ⟨rfl, rfl⟩ := Prod.mk.inj (Option.some.inj h)
      simp only [List.length_tail, List.length_cons]
      omega
    · obtain ⟨⟨name', behind'⟩, hfound, heq⟩ := Option.map_eq_some_iff.mp h
      obtain ⟨-, rfl⟩ := Prod.mk.inj heq
      exact (ih hfound).trans (Nat.le_succ _)

/-- A member ends behind where it was read from. -/
theorem plainItem_length (low : UInt8) (rest : Bytes) :
    (plainItem true none low rest).1.length ≤ rest.length := by
  unfold plainItem
  cases rest with
  | nil => exact le_rfl
  | cons second behind =>
    dsimp only
    split_ifs
    · exact Nat.le_succ _
    · cases behind with
      | nil => exact le_rfl
      | cons high after =>
        dsimp only
        split_ifs
        · simp only [List.length_cons]
          omega
        · exact le_rfl

/-- A class member ends behind where it was read from. -/
theorem matchClassItem_length {low : UInt8} {rest behind : Bytes} {hit : Bool}
    (h : matchClassItem true none low rest = .ok (behind, hit)) :
    behind.length ≤ rest.length := by
  have hplain := plainItem_length low rest
  unfold matchClassItem at h
  cases rest with
  | nil =>
    rw [Except.ok.inj h] at hplain
    exact hplain
  | cons marker after =>
    dsimp only at h
    split_ifs at h with hopen
    · cases hread : readSubExpression true none marker after with
      | error error =>
        rw [hread] at h
        cases h
      | ok found =>
        rw [hread] at h
        cases found with
        | none =>
          rw [Except.ok.inj h] at hplain
          exact hplain
        | some found =>
          obtain rfl : found = (behind, hit) := Except.ok.inj h
          unfold readSubExpression readNamedClass at hread
          split at hread
          · cases huntil : untilClose colon after with
            | none =>
              rw [huntil] at hread
              cases hread
            | some named =>
              rw [huntil] at hread
              have hlength := untilClose_length huntil
              dsimp only at hread
              split at hread
              · cases hclass : namedClasses.lookup named.1 with
                | none =>
                  rw [hclass] at hread
                  cases hread
                | some members =>
                  rw [hclass] at hread
                  cases hread
                  exact hlength.trans (Nat.le_succ _)
              · cases hread
          · split at hread
            · cases huntil : untilClose marker after with
              | none =>
                rw [huntil] at hread
                cases hread
              | some named =>
                rw [huntil] at hread
                dsimp only at hread
                split at hread <;> cases hread
            · cases hread
    · rw [Except.ok.inj h] at hplain
      exact hplain

/-- The members of a class end behind where they were read from. -/
theorem scanItems_length {turns : ℕ} {first matched hit : Bool} {pattern behind : Bytes}
    (h : scanItems true none turns first matched pattern = .ok (some (behind, hit))) :
    behind.length ≤ pattern.length := by
  induction turns generalizing first matched pattern with
  | zero => cases h
  | succ turns ih =>
    unfold scanItems at h
    cases pattern with
    | nil => cases h
    | cons low rest =>
      dsimp only at h
      split at h
      · obtain ⟨rfl, -⟩ := Prod.mk.inj (Option.some.inj (Except.ok.inj h))
        exact Nat.le_succ _
      · cases hitem : matchClassItem true none low rest with
        | error error =>
          rw [hitem] at h
          cases h
        | ok item =>
          rw [hitem] at h
          have hrest := ih h
          exact (hrest.trans (matchClassItem_length hitem)).trans (Nat.le_succ _)

/-- A bracket expression ends behind where it was read from. -/
theorem scanClass_length {rest behind : Bytes} {hit : Bool}
    (h : scanClass true none rest = .ok (behind, hit)) : behind.length ≤ rest.length := by
  unfold scanClass at h
  dsimp only at h
  have hitems : (if rest.head?.any negate.contains = true then rest.tail else rest).length ≤
      rest.length := by
    split <;> simp
  generalize (if rest.head?.any negate.contains = true then rest.tail else rest) = items
    at h hitems
  cases hscan : scanItems true none (items.length + 1) true false items with
  | error error =>
    rw [hscan] at h
    cases h
  | ok found =>
    rw [hscan] at h
    cases found with
    | none =>
      obtain ⟨rfl, -⟩ := Prod.mk.inj (Except.ok.inj h)
      exact le_rfl
    | some found =>
      obtain ⟨rfl, -⟩ := Prod.mk.inj (Except.ok.inj h)
      exact (scanItems_length hscan).trans hitems

/-! ## Accepted patterns -/

/-- A pattern whose bracket expressions were all accepted from here on. -/
def Accepted (pattern : Bytes) : Prop :=
  ∃ turns, pattern.length ≤ turns ∧ validateLoop turns pattern = .ok ()

/-- Behind an ordinary byte, an accepted pattern is accepted. -/
theorem Accepted.tail {element : UInt8} {rest : Bytes} (h : Accepted (element :: rest))
    (hescape : element ≠ escape) (hopen : element ≠ openClass) : Accepted rest := by
  obtain ⟨turns, hlength, hloop⟩ := h
  cases turns with
  | zero => simp at hlength
  | succ turns =>
    rw [validateLoop, if_neg hescape, if_neg hopen] at hloop
    · exact ⟨turns, Nat.le_of_succ_le_succ hlength, hloop⟩

/-- Behind an escaped byte, an accepted pattern is accepted. -/
theorem Accepted.escaped {rest : Bytes} (h : Accepted (escape :: rest)) : Accepted rest.tail := by
  obtain ⟨turns, hlength, hloop⟩ := h
  cases turns with
  | zero => simp at hlength
  | succ turns =>
    rw [validateLoop, if_pos rfl] at hloop
    · refine ⟨turns, ?_, hloop⟩
      simp only [List.length_cons, List.length_tail] at hlength ⊢
      omega

/-- A bracket expression of an accepted pattern is read, and the pattern accepted behind it. -/
theorem Accepted.bracket {rest : Bytes} (h : Accepted (openClass :: rest)) :
    ∃ behind hit, scanClass true none rest = .ok (behind, hit) ∧ Accepted behind := by
  obtain ⟨turns, hlength, hloop⟩ := h
  cases turns with
  | zero => simp at hlength
  | succ turns =>
    rw [validateLoop, if_neg (by decide), if_pos rfl] at hloop
    · cases hscan : scanClass true none rest with
      | error error =>
        rw [hscan] at hloop
        cases hloop
      | ok found =>
        rw [hscan] at hloop
        refine ⟨found.1, found.2, rfl, turns, ?_, hloop⟩
        exact (scanClass_length hscan).trans (Nat.le_of_succ_le_succ hlength)

/-- Nothing is accepted. -/
theorem accepted_nil : Accepted [] := ⟨0, le_rfl, rfl⟩

variable {caseSensitive : Bool}

/-- What is left of a pattern, if a byte matched, is accepted where it would be. -/
theorem Accepted.of_mem_ite {behind other : Bytes} (h : Accepted behind) {matched : Bool}
    (hmem : other ∈ if matched then some behind else none) : Accepted other := by
  cases matched with
  | false => cases hmem
  | true => exact Option.some.inj hmem ▸ h

/-- An accepted pattern is not refused for any byte, and what is left of it is accepted. -/
theorem Accepted.matchSingle {pattern : Bytes} (h : Accepted pattern) (byte : UInt8) :
    ∃ found, matchSingle caseSensitive pattern byte = .ok found ∧
      ∀ behind ∈ found, Accepted behind := by
  unfold Glob.matchSingle
  cases pattern with
  | nil => exact ⟨none, rfl, by simp⟩
  | cons element rest =>
    dsimp only
    by_cases hquestion : element = question
    · rw [if_pos hquestion]
      subst hquestion
      refine ⟨some rest, rfl, ?_⟩
      rintro _ ⟨⟩
      exact h.tail (by decide) (by decide)
    rw [if_neg hquestion]
    by_cases hopen : element = openClass
    · rw [if_pos hopen]
      subst hopen
      obtain ⟨behind, hit, hscan, hbehind⟩ := h.bracket
      have hfst := scanClass_fst caseSensitive (some byte) rest
      rw [hscan] at hfst
      cases hread : scanClass caseSensitive (some byte) rest with
      | error error =>
        rw [hread] at hfst
        cases hfst
      | ok read =>
        rw [hread] at hfst
        have hsame : read.1 = behind := Except.ok.inj hfst
        exact ⟨_, rfl, fun other hother => (hsame ▸ hbehind).of_mem_ite hother⟩
    rw [if_neg hopen]
    cases rest with
    | nil => exact ⟨_, rfl, fun other hother => accepted_nil.of_mem_ite hother⟩
    | cons escaped behind =>
      dsimp only
      by_cases hescape : element = escape
      · rw [if_pos hescape]
        subst hescape
        exact ⟨_, rfl, fun other hother => h.escaped.of_mem_ite hother⟩
      · rw [if_neg hescape]
        exact ⟨_, rfl, fun other hother => (h.tail hescape hopen).of_mem_ite hother⟩

/-- An accepted pattern is refused for no name. -/
theorem Accepted.matchLoop (turns : ℕ) {last : LastStar} {pattern : Bytes}
    (h : Accepted pattern) (hlast : ∀ star ∈ last, Accepted star.1) (name : Bytes) :
    ∃ matched, matchLoop caseSensitive turns last pattern name = .ok matched := by
  induction turns generalizing last pattern name with
  | zero => cases name <;> exact ⟨_, by rw [Glob.matchLoop]⟩
  | succ turns ih =>
    cases name with
    | nil => exact ⟨_, by rw [Glob.matchLoop]⟩
    | cons byte rest =>
      unfold Glob.matchLoop
      split
      · next hstar =>
        have htail : Accepted pattern.tail := by
          cases pattern with
          | nil => cases hstar
          | cons element rest =>
            obtain rfl : element = star := Option.some.inj hstar
            exact h.tail (by decide) (by decide)
        refine ih htail ?_ _
        rintro _ ⟨⟩
        exact htail
      · obtain ⟨found, hsingle, hfound⟩ :
            ∃ found, Glob.matchSingle caseSensitive pattern byte = .ok found ∧
              ∀ behind ∈ found, Accepted behind := h.matchSingle byte
        rw [hsingle]
        cases found with
        | some behind => exact ih (hfound behind rfl) hlast rest
        | none =>
          cases last with
          | none => exact ⟨false, rfl⟩
          | some star =>
            have hresumed := hlast star rfl
            refine ih hresumed ?_ _
            rintro _ ⟨⟩
            exact hresumed

end Glob

open Glob

/-- A component that is accepted on its own is refused for no name. -/
theorem matchComponent_of_accepted (caseSensitive : Bool) {component : Bytes}
    (h : validatePattern component = .ok ()) (name : Bytes) :
    ∃ matched, matchComponent caseSensitive component name = .ok matched := by
  unfold matchComponent
  split
  · exact ⟨false, rfl⟩
  · exact Accepted.matchLoop _ ⟨_, le_rfl, h⟩ (by simp) name

end GantrySftp
