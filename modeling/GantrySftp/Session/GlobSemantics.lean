import GantrySftp.Library.GreedyMatch
import GantrySftp.Session.GlobGrammar
import Mathlib.Tactic.Ring

/-!
# What a glob component matches

A component matches exactly the names that can be cut into a piece for each of its elements, in
order, apart from the rule for a leading period. The matching loop reads elements where the
grammar spells them, so that it is the loop with one place to go back to, and ends within the
product of the two lengths.
-/

namespace GantrySftp

open Library Library.Wildcards

namespace Glob

/-! ## Testing elements -/

/-- Whether an element takes any number of bytes. -/
def Element.isRun : Element → Bool
  | run => true
  | any | oneOf _ _ | literal _ | refused => false

/-- Test a byte against an element, which a refused one refuses. -/
def Element.test (caseSensitive : Bool) : Element → UInt8 → Except Unit Bool
  | run, _ => .ok false
  | any, _ => .ok true
  | oneOf negated members, byte =>
    .ok (members.any (Member.holds caseSensitive (some byte)) != negated)
  | literal value, byte => .ok (equal caseSensitive value (some byte))
  | refused, _ => .error ()

/-- A byte is in a member exactly when the member is for it. -/
theorem Member.holds_iff (member : Member) (byte : UInt8) :
    member.holds true (some byte) = true ↔ member.Denotes byte := by
  cases member with
  | byte value =>
    simp only [holds, equal, Denotes, if_true, beq_iff_eq]
    exact eq_comm
  | range low high => simp [holds, inRange, Denotes, within]
  | named members => rfl

/-- The pieces an element is for, by its test. -/
theorem Element.takes_iff (element : Element) (piece : Bytes) :
    element.Takes piece ↔ element.isRun = true ∨
      ∃ byte, piece = [byte] ∧ accepts (Element.test true) element byte = true := by
  cases element with
  | run => simp [Takes, isRun]
  | any => simp [Takes, isRun, accepts, test]
  | oneOf negated members =>
    have htest : ∀ byte, accepts (Element.test true) (.oneOf negated members) byte = true ↔
        ((∃ member ∈ members, member.Denotes byte) ↔ negated = false) := by
      intro byte
      have hany : members.any (Member.holds true (some byte)) = true ↔
          ∃ member ∈ members, member.Denotes byte := by
        simp only [List.any_eq_true, Member.holds_iff]
      rw [← hany]
      simp only [accepts, test]
      cases members.any (Member.holds true (some byte)) <;> cases negated <;> simp
    simp only [Takes, isRun, htest]
    simp
  | literal value =>
    simp only [Takes, isRun, accepts, test, equal, if_true, beq_iff_eq]
    simp
  | refused => simp [Takes, isRun, accepts, test]

/-- A name is cut into pieces for elements exactly when the elements cover it. -/
theorem covers_iff_takes {elements : List Element} {name : Bytes} :
    Covers Element.isRun (accepts (Element.test true)) elements name ↔
      ∃ pieces : List Bytes, pieces.flatten = name ∧
        List.Forall₂ Element.Takes elements pieces := by
  rw [covers_iff_pieces]
  have hpieces : ∀ element piece, (element.isRun = true ∨ ∃ byte, piece = [byte] ∧
      accepts (Element.test true) element byte = true) ↔ Element.Takes element piece :=
    fun element piece => (element.takes_iff piece).symm
  simp only [hpieces]

/-! ## Reading elements -/

/-- The bytes that mean something else are not stars. -/
theorem ne_star : question ≠ star ∧ openClass ≠ star ∧ escape ≠ star := by decide

/-- A component begins with a star exactly where its first element is a run. -/
theorem Spells.head_run {pattern : Bytes} {element : Element} {elements : List Element}
    (h : Spells pattern (element :: elements)) :
    (pattern.head? = some star ↔ element.isRun = true) ∧
      (element.isRun = true → Spells pattern.tail elements) := by
  cases h with
  | run more => exact ⟨by simp [Element.isRun], fun _ => more⟩
  | any more => exact ⟨by simp [Element.isRun, ne_star], nofun⟩
  | oneOf h more => exact ⟨by simp [Element.isRun, ne_star], nofun⟩
  | refused h => exact ⟨by simp [Element.isRun, ne_star], nofun⟩
  | unclosed hopen hrefused more => exact ⟨by simp [Element.isRun, ne_star], nofun⟩
  | escaped more => exact ⟨by simp [Element.isRun, ne_star], nofun⟩
  | literal hstar hquestion hopen hescape more => exact ⟨by simp [Element.isRun, hstar], nofun⟩

/-- Only elements that take any number of bytes are left where only stars are. -/
theorem Spells.all_star {pattern : Bytes} {elements : List Element} (h : Spells pattern elements) :
    pattern.all (· == star) = elements.all Element.isRun := by
  induction h with
  | nil => rfl
  | run more ih => simp [Element.isRun, ih]
  | any more ih => simp [Element.isRun, ne_star]
  | oneOf h more ih => simp [Element.isRun, ne_star]
  | refused h => simp [Element.isRun, ne_star]
  | unclosed hopen hrefused more ih => simp [Element.isRun, ne_star]
  | escaped more ih => simp [Element.isRun, ne_star]
  | literal hstar hquestion hopen hescape more ih => simp [Element.isRun, hstar]

/-- A byte is matched against the first element that a component spells. -/
theorem Spells.matchSingle (caseSensitive : Bool) {pattern : Bytes} {element : Element}
    {elements : List Element} (h : Spells pattern (element :: elements))
    (hone : element.isRun = false) (byte : UInt8) :
    (∃ error, element = .refused ∧
        matchSingle caseSensitive pattern byte = .error error) ∨
      ∃ behind matched, element.test caseSensitive byte = .ok matched ∧ Spells behind elements ∧
        matchSingle caseSensitive pattern byte = .ok (if matched then some behind else none) := by
  cases h with
  | run more => cases hone
  | @any rest _ more =>
    refine Or.inr ⟨rest, true, rfl, more, ?_⟩
    unfold Glob.matchSingle
    dsimp only
    rw [if_pos rfl]
    rfl
  | @oneOf rest behind members _ hmembers more =>
    refine Or.inr ⟨behind, _, rfl, more, ?_⟩
    unfold Glob.matchSingle
    dsimp only
    rw [if_neg (by decide), if_pos rfl,
      scanClass_of_members caseSensitive (some byte) hmembers]
    rfl
  | @refused rest hrefused =>
    obtain ⟨error, hscan⟩ := scanClass_refused caseSensitive (some byte) hrefused
    refine Or.inl ⟨error, rfl, ?_⟩
    unfold Glob.matchSingle
    dsimp only
    rw [if_neg (by decide), if_pos rfl, hscan]
    rfl
  | @unclosed rest _ hopen hrefused more =>
    refine Or.inr ⟨rest, _, rfl, more, ?_⟩
    unfold Glob.matchSingle
    dsimp only
    rw [if_neg (by decide), if_pos rfl,
      scanClass_unclosed caseSensitive (some byte) hopen hrefused]
    rfl
  | @escaped value rest _ more =>
    refine Or.inr ⟨rest, _, rfl, more, ?_⟩
    unfold Glob.matchSingle
    dsimp only
    rw [if_neg (by decide), if_neg (by decide)]
    rfl
  | @literal value rest _ hstar hquestion hopen hescape more =>
    refine Or.inr ⟨rest, _, rfl, more, ?_⟩
    unfold Glob.matchSingle
    dsimp only
    rw [if_neg hquestion, if_neg hopen]
    cases rest with
    | nil => rfl
    | cons escaped behind =>
      dsimp only
      rw [if_neg fun heq => by cases hescape heq]

/-! ## The loop -/

/-- How the matching loop ends and after how many turns, each of which matches one element at
most. -/
inductive Ends (caseSensitive : Bool) :
    LastStar → (pattern name : Bytes) → Except PatternError Bool → ℕ → Prop
  | done (last : LastStar) (pattern : Bytes) :
      Ends caseSensitive last pattern [] (.ok (pattern.all (· == star))) 0
  | star {last : LastStar} {pattern rest : Bytes} {byte : UInt8}
      {result : Except PatternError Bool} {turns : ℕ} (h : pattern.head? = some star)
      (more : Ends caseSensitive (some (pattern.tail, byte :: rest)) pattern.tail (byte :: rest)
        result turns) :
      Ends caseSensitive last pattern (byte :: rest) result (turns + 1)
  | fit {last : LastStar} {pattern behind rest : Bytes} {byte : UInt8}
      {result : Except PatternError Bool} {turns : ℕ} (h : pattern.head? ≠ some star)
      (hfit : matchSingle caseSensitive pattern byte = .ok (some behind))
      (more : Ends caseSensitive last behind rest result turns) :
      Ends caseSensitive last pattern (byte :: rest) result (turns + 1)
  | back {resumed begun pattern rest : Bytes} {byte : UInt8}
      {result : Except PatternError Bool} {turns : ℕ} (h : pattern.head? ≠ some star)
      (hmiss : matchSingle caseSensitive pattern byte = .ok none)
      (more : Ends caseSensitive (some (resumed, begun.tail)) resumed begun.tail result turns) :
      Ends caseSensitive (some (resumed, begun)) pattern (byte :: rest) result (turns + 1)
  | stop {pattern rest : Bytes} {byte : UInt8} (h : pattern.head? ≠ some star)
      (hmiss : matchSingle caseSensitive pattern byte = .ok none) :
      Ends caseSensitive none pattern (byte :: rest) (.ok false) 1
  | refused {last : LastStar} {pattern rest : Bytes} {byte : UInt8} {error : PatternError}
      (h : pattern.head? ≠ some star)
      (herror : matchSingle caseSensitive pattern byte = .error error) :
      Ends caseSensitive last pattern (byte :: rest) (.error error) 1

/-- With as many turns as the loop takes, matching returns what the loop ends with. -/
theorem Ends.matchLoop {caseSensitive : Bool} {last : LastStar} {pattern name : Bytes}
    {result : Except PatternError Bool} {turns : ℕ}
    (h : Ends caseSensitive last pattern name result turns) {given : ℕ} (hturns : turns ≤ given) :
    matchLoop caseSensitive given last pattern name = result := by
  induction h generalizing given with
  | done last pattern => cases given <;> rw [Glob.matchLoop]
  | star h more ih =>
    cases given with
    | zero => cases hturns
    | succ given =>
      unfold Glob.matchLoop
      rw [if_pos h]
      exact ih (Nat.le_of_succ_le_succ hturns)
  | fit h hfit more ih =>
    cases given with
    | zero => cases hturns
    | succ given =>
      unfold Glob.matchLoop
      rw [if_neg h, hfit]
      exact ih (Nat.le_of_succ_le_succ hturns)
  | back h hmiss more ih =>
    cases given with
    | zero => cases hturns
    | succ given =>
      unfold Glob.matchLoop
      rw [if_neg h, hmiss]
      exact ih (Nat.le_of_succ_le_succ hturns)
  | stop h hmiss =>
    cases given with
    | zero => cases hturns
    | succ given =>
      unfold Glob.matchLoop
      rw [if_neg h, hmiss]
      rfl
  | refused h herror =>
    cases given with
    | zero => cases hturns
    | succ given =>
      unfold Glob.matchLoop
      rw [if_neg h, herror]
      rfl

/-- The place to go back to, in bytes and in elements. -/
def SpellsPlace : LastStar → Option (List Element × Bytes) → Prop
  | none, none => True
  | some (pattern, begun), some (elements, begun') => begun = begun' ∧ Spells pattern elements
  | none, some _ => False
  | some _, none => False

/-- A component that misses a byte in its elements misses it. -/
theorem Spells.misses {caseSensitive : Bool} {pattern : Bytes} {elements : List Element}
    (h : Spells pattern elements) {byte : UInt8}
    (hmisses : Misses Element.isRun (Element.test caseSensitive) elements byte) :
    pattern.head? ≠ some star ∧ Glob.matchSingle caseSensitive pattern byte = .ok none := by
  cases elements with
  | nil =>
    cases h
    exact ⟨nofun, rfl⟩
  | cons element elements =>
    obtain ⟨hone, htest⟩ := hmisses
    refine ⟨fun hhead => ?_, ?_⟩
    · rw [h.head_run.1.mp hhead] at hone
      cases hone
    · obtain ⟨error, rfl, -⟩ | ⟨behind, matched, hmatched, -, hsingle⟩ :=
        h.matchSingle caseSensitive hone byte
      · cases htest
      · rw [htest] at hmatched
        obtain rfl := Except.ok.inj hmatched
        exact hsingle

/-- The loop over the elements that a component spells is the loop over the component. -/
theorem ends_of_loops {caseSensitive : Bool} {place : Option (List Element × Bytes)}
    {elements : List Element} {name : Bytes} {outcome : Except Unit Bool} {turns : ℕ}
    (h : Loops Element.isRun (Element.test caseSensitive) place elements name outcome turns)
    {last : LastStar} {pattern : Bytes} (hspells : Spells pattern elements)
    (hplace : SpellsPlace last place) :
    ∃ result, Ends caseSensitive last pattern name result turns ∧
      result.mapError (fun _ => ()) = outcome := by
  induction h generalizing last pattern with
  | done place elements =>
    refine ⟨_, .done last pattern, ?_⟩
    rw [hspells.all_star]
    rfl
  | @many place element elements byte rest outcome turns hrun more ih =>
    obtain ⟨hhead, htail⟩ := hspells.head_run
    have htaken : SpellsPlace (some (pattern.tail, byte :: rest)) (some (elements, byte :: rest)) :=
      ⟨rfl, htail hrun⟩
    obtain ⟨result, hends, hresult⟩ := ih (htail hrun) htaken
    exact ⟨result, .star (hhead.mpr hrun) hends, hresult⟩
  | @fit place element elements byte rest outcome turns hone hfit more ih =>
    have hhead : pattern.head? ≠ some star := by
      intro hstar
      rw [hspells.head_run.1.mp hstar] at hone
      cases hone
    obtain ⟨error, rfl, -⟩ | ⟨behind, matched, hmatched, hbehind, hsingle⟩ :=
      hspells.matchSingle caseSensitive hone byte
    · cases hfit
    · rw [hfit] at hmatched
      obtain rfl := Except.ok.inj hmatched
      obtain ⟨result, hends, hresult⟩ := ih hbehind hplace
      exact ⟨result, .fit hhead hsingle hends, hresult⟩
  | @back resumed begun elements byte rest outcome turns hmisses more ih =>
    obtain ⟨hhead, hmiss⟩ := hspells.misses hmisses
    cases last with
    | none => exact hplace.elim
    | some last =>
      obtain ⟨rfl, hresumed⟩ := hplace
      have hagain : SpellsPlace (some (last.1, last.2.tail)) (some (resumed, last.2.tail)) :=
        ⟨rfl, hresumed⟩
      obtain ⟨result, hends, hresult⟩ := ih hresumed hagain
      exact ⟨result, .back hhead hmiss hends, hresult⟩
  | stop hmisses =>
    obtain ⟨hhead, hmiss⟩ := hspells.misses hmisses
    cases last with
    | none => exact ⟨_, .stop hhead hmiss, rfl⟩
    | some last => exact hplace.elim
  | @refused place element elements byte rest error hone herror =>
    have hhead : pattern.head? ≠ some star := by
      intro hstar
      rw [hspells.head_run.1.mp hstar] at hone
      cases hone
    obtain ⟨refusal, rfl, hsingle⟩ | ⟨behind, matched, hmatched, -, -⟩ :=
      hspells.matchSingle caseSensitive hone byte
    · exact ⟨_, .refused hhead hsingle, rfl⟩
    · rw [herror] at hmatched
      cases hmatched

/-- As many turns as a match can take. -/
theorem turnsBound_le {pattern : Bytes} {elements : List Element} (h : Spells pattern elements)
    (name : Bytes) :
    turnsBound none elements name ≤ (pattern.length + 1) * (name.length + 1) := by
  have hlength := h.length_le
  have hmul : name.length * elements.length ≤ name.length * pattern.length :=
    Nat.mul_le_mul_left _ hlength
  calc turnsBound none elements name
      = elements.length + 1 + name.length * elements.length := rfl
    _ ≤ name.length * pattern.length + pattern.length + name.length + 1 := by omega
    _ = (pattern.length + 1) * (name.length + 1) := by ring

/-- Matching a component is the loop over the elements it spells, which ends in time. -/
theorem matchHere_ends (caseSensitive : Bool) {pattern : Bytes} {elements : List Element}
    (h : Spells pattern elements) (name : Bytes) :
    ∃ result outcome turns,
      Loops Element.isRun (Element.test caseSensitive) none elements name outcome turns ∧
        Ends caseSensitive none pattern name result turns ∧
        turns ≤ (pattern.length + 1) * (name.length + 1) ∧
        result.mapError (fun _ => ()) = outcome ∧
        matchHere caseSensitive pattern name = result := by
  have hstart : Behind Element.isRun none elements name := trivial
  obtain ⟨outcome, turns, hloops, hturns⟩ :
      ∃ outcome turns, Loops Element.isRun (Element.test caseSensitive) none elements name outcome
        turns ∧ turns ≤ turnsBound none elements name := exists_loops hstart
  obtain ⟨result, hends, hresult⟩ := ends_of_loops hloops h (show SpellsPlace none none from trivial)
  have hbound := hturns.trans (turnsBound_le h name)
  refine ⟨result, outcome, turns, hloops, hends, hbound, hresult, ?_⟩
  apply hends.matchLoop (hbound.trans _)
  calc (pattern.length + 1) * (name.length + 1)
      ≤ (pattern.length + name.length + 1) * (name.length + 2) :=
        Nat.mul_le_mul (by omega) (by omega)
    _ = matchTurns pattern name := Nat.mul_comm _ _

/-! ## Refused elements -/

/-- Only a refused element refuses a byte. -/
theorem Element.eq_refused {caseSensitive : Bool} {element : Element} {byte : UInt8} {error : Unit}
    (h : element.test caseSensitive byte = .error error) : element = .refused := by
  cases element with
  | refused => rfl
  | run => cases h
  | any => cases h
  | oneOf negated members => cases h
  | literal value => cases h

/-- Where a refused element can be reached, there is one. -/
theorem refused_mem {caseSensitive : Bool} {elements : List Element}
    (h : Exposed Element.isRun (Element.test caseSensitive) elements) :
    Element.refused ∈ elements := by
  induction h with
  | here hone herror => exact Element.eq_refused herror ▸ List.mem_cons_self
  | many hrun more ih => exact List.mem_cons_of_mem _ ih
  | fit hone hfit more ih => exact List.mem_cons_of_mem _ ih

/-- A pattern begins with a literal period in one of two spellings. -/
theorem matchesLeadingDot_iff (pattern : Bytes) :
    matchesLeadingDot pattern = true ↔
      pattern.head? = some dot ∨ ∃ rest, pattern = escape :: dot :: rest := by
  rw [matchesLeadingDot, Bool.or_eq_true, decide_eq_true_eq, List.isPrefixOf_iff_prefix]
  apply or_congr_right
  apply Iff.intro
  · rintro ⟨rest, rfl⟩
    exact ⟨rest, rfl⟩
  · rintro ⟨rest, rfl⟩
    exact ⟨rest, rfl⟩

end Glob

open Glob

section Component

variable {caseSensitive : Bool} {pattern : Bytes} {elements : List Element}
  (hspells : Spells pattern elements) (name : Bytes)
include hspells

/-- What a component matches is what its elements cover, apart from the rule for a leading
period. -/
theorem matchComponent_covers {matched : Bool}
    (h : matchComponent caseSensitive pattern name = .ok matched) :
    matched = true ↔ (name.head? = some dot → matchesLeadingDot pattern = true) ∧
      Covers Element.isRun (accepts (Element.test caseSensitive)) elements name := by
  obtain ⟨result, outcome, turns, hloops, -, -, houtcome, hmatch⟩ :=
    matchHere_ends caseSensitive hspells name
  unfold matchComponent at h
  by_cases hdot : name.head? = some dot ∧ ¬matchesLeadingDot pattern = true
  · rw [if_pos hdot] at h
    obtain rfl := Except.ok.inj h
    exact ⟨nofun, fun h => absurd (h.1 hdot.1) hdot.2⟩
  · rw [if_neg hdot] at h
    obtain rfl := hmatch.symm.trans h
    subst houtcome
    rw [hloops.covers]
    exact (and_iff_right fun hhead => not_not.mp fun hnot => hdot ⟨hhead, hnot⟩).symm

/-- A component without a refused element is refused for no name. -/
theorem exists_matchComponent (hrefused : Element.refused ∉ elements) :
    ∃ matched, matchComponent caseSensitive pattern name = .ok matched := by
  obtain ⟨result, outcome, turns, hloops, -, -, houtcome, hmatch⟩ :=
    matchHere_ends caseSensitive hspells name
  unfold matchComponent
  split
  · exact ⟨false, rfl⟩
  rw [hmatch]
  cases result with
  | ok matched => exact ⟨matched, rfl⟩
  | error error =>
    obtain hexposed | ⟨place, hplace, -⟩ := hloops.exposed houtcome.symm
    · exact absurd (refused_mem hexposed) hrefused
    · cases hplace

end Component

/-- A component matches exactly the names that can be cut into a piece for each of its elements,
if a leading period of the name is spelled out; it is refused only where it spells a refused
element; and the loop ends within the product of the two lengths. -/
theorem matchComponent_iff (pattern name : Bytes) :
    (∃ elements, Spells pattern elements) ∧
      (∀ elements, Spells pattern elements →
        (∀ matched, matchComponent true pattern name = .ok matched →
          (matched = true ↔
            (name.head? = some dot →
              pattern.head? = some dot ∨ ∃ rest, pattern = escape :: dot :: rest) ∧
            ∃ pieces : List Bytes, pieces.flatten = name ∧
              List.Forall₂ Element.Takes elements pieces)) ∧
        (Element.refused ∉ elements → ∃ matched, matchComponent true pattern name = .ok matched)) ∧
      ∃ result turns, Ends true none pattern name result turns ∧
        turns ≤ (pattern.length + 1) * (name.length + 1) ∧
        matchHere true pattern name = result := by
  obtain ⟨elements, hspells⟩ := exists_spells pattern
  refine ⟨⟨elements, hspells⟩, ?_, ?_⟩
  · intro elements hspells
    refine ⟨fun matched hmatched => ?_, exists_matchComponent hspells name⟩
    rw [← matchesLeadingDot_iff, ← covers_iff_takes]
    exact matchComponent_covers hspells name hmatched
  · obtain ⟨result, outcome, turns, -, hends, hturns, -, hmatch⟩ := matchHere_ends true hspells name
    exact ⟨result, turns, hends, hturns, hmatch⟩

end GantrySftp
