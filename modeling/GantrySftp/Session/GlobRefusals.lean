import GantrySftp.Session.GlobLocality
import GantrySftp.Session.GlobSemantics

/-!
# Patterns that are refused when they are matched

A component is refused for some name exactly where a refused sub-expression stands behind
elements that names lead through. The check up front reads the pattern as a whole, and covers
every component when no bracket expression it reads reaches across a separator; one that does
hides what its component, read alone, is refused for.
-/

namespace GantrySftp

open Library Library.Wildcards

namespace Glob

/-! ## Refused components -/

/-- An element that the first byte of a name can meet. -/
def Element.Leads (caseSensitive : Bool) (component : Bytes) (element : Element) : Prop :=
  element.isRun = true ∨ element = .refused ∨ matchesLeadingDot component = true ∨
    ∃ byte ≠ dot, element.test caseSensitive byte = .ok true

/-- A refused sub-expression stands behind elements that are each a run or for some byte, where a
leading period does not exclude every name. -/
def Exposes (caseSensitive : Bool) (component : Bytes) : Prop :=
  ∃ elements, Spells component elements ∧
    Exposed Element.isRun (Element.test caseSensitive) elements ∧
      ∀ element ∈ elements.head?, element.Leads caseSensitive component

/-- A component that is refused for a name exposes a refused sub-expression. -/
theorem exposes_of_error {caseSensitive : Bool} {component name : Bytes} {error : PatternError}
    (h : matchComponent caseSensitive component name = .error error) :
    Exposes caseSensitive component := by
  unfold matchComponent at h
  by_cases hdot : name.head? = some dot ∧ ¬matchesLeadingDot component = true
  · rw [if_pos hdot] at h
    cases h
  rw [if_neg hdot] at h
  obtain ⟨elements, hspells⟩ := exists_spells component
  obtain ⟨result, outcome, turns, hloops, -, -, houtcome, hmatch⟩ :=
    matchHere_ends caseSensitive hspells name
  obtain rfl := hmatch.symm.trans h
  subst houtcome
  refine ⟨elements, hspells, ?_, ?_⟩
  · obtain hexposed | ⟨place, hplace, -⟩ := hloops.exposed rfl
    · exact hexposed
    · cases hplace
  · intro element hhead
    cases hloops with
    | many hrun more =>
      obtain rfl := Option.some.inj hhead
      exact Or.inl hrun
    | @fit _ _ _ byte _ _ _ hone hfit more =>
      obtain rfl := Option.some.inj hhead
      refine Or.inr (Or.inr ?_)
      by_cases hbyte : byte = dot
      · exact Or.inl (not_not.mp fun hnot => hdot ⟨congrArg some hbyte, hnot⟩)
      · exact Or.inr ⟨byte, hbyte, hfit⟩
    | refused hone herror =>
      obtain rfl := Option.some.inj hhead
      exact Or.inr (Or.inl (Element.eq_refused herror))

/-- The loop over the elements of a component ends as matching does. -/
theorem error_of_loops {caseSensitive : Bool} {component name : Bytes} {elements : List Element}
    (hspells : Spells component elements) {error : Unit} {turns : ℕ}
    (hloops : Loops Element.isRun (Element.test caseSensitive) none elements name (.error error)
      turns)
    (hdot : name.head? = some dot → matchesLeadingDot component = true) :
    ∃ refusal, matchComponent caseSensitive component name = .error refusal := by
  obtain ⟨result, outcome, turns', hloops', -, -, houtcome, hmatch⟩ :=
    matchHere_ends caseSensitive hspells name
  obtain rfl := hloops.unique hloops'
  unfold matchComponent
  rw [if_neg fun h => h.2 (hdot h.1), hmatch]
  cases result with
  | ok matched => cases houtcome
  | error refusal => exact ⟨refusal, rfl⟩

/-- A component that exposes a refused sub-expression is refused for a name. -/
theorem Exposes.error {caseSensitive : Bool} {component : Bytes}
    (h : Exposes caseSensitive component) :
    ∃ name refusal, matchComponent caseSensitive component name = .error refusal := by
  obtain ⟨elements, hspells, hexposed, hleads⟩ := h
  have hsteady : ∀ element name error, Element.test caseSensitive element name = .error error →
      ∀ other, ∃ error', Element.test caseSensitive element other = .error error' := by
    intro element name error herror other
    rw [Element.eq_refused herror]
    exact ⟨(), rfl⟩
  cases hexposed with
  | @here element rest byte error hone herror =>
    obtain ⟨error', herror'⟩ := hsteady element byte error herror openClass
    exact ⟨[openClass], error_of_loops hspells (.refused hone herror') nofun⟩
  | many hrun more =>
    obtain ⟨names, error, turns, hloops⟩ := more.refuses_behind hsteady openClass
    exact ⟨openClass :: names, error_of_loops hspells (.many hrun hloops) nofun⟩
  | @fit element rest byte hone hfit more =>
    obtain ⟨next, names, hrefuses⟩ := more.refuses
    obtain ⟨error, turns, hloops⟩ := hrefuses none
    obtain hrun | rfl | hdot | ⟨other, hother, htest⟩ := hleads element rfl
    · cases hone.symm.trans hrun
    · cases hfit
    · exact ⟨byte :: next :: names, error_of_loops hspells (.fit hone hfit hloops) fun _ => hdot⟩
    · exact ⟨other :: next :: names, error_of_loops hspells (.fit hone htest hloops)
        fun hhead => absurd (Option.some.inj hhead) hother⟩

end Glob

open Glob

/-- What a pattern leaves to be matched are components of it. -/
theorem mem_splitPattern {pattern : Bytes} {folded : Bool} {component : Bytes}
    (h : component ∈ (splitPattern pattern folded).2.1) : component ∈ splitComponents pattern :=
  List.mem_of_mem_drop h

/-- A pattern that passes the check up front is refused for no name that is matched against one of
its components exactly when no component exposes a refused sub-expression; and none does where no
bracket expression, as the whole pattern is read, reaches across a separator. -/
theorem validated_matches_iff (pattern : Bytes) (folded : Bool)
    (hvalid : validatePattern pattern = .ok ()) :
    ((∀ component ∈ (splitPattern pattern folded).2.1, ∀ name caseSensitive,
        ∃ matched, matchComponent caseSensitive component name = .ok matched) ↔
      ∀ component ∈ (splitPattern pattern folded).2.1, ∀ caseSensitive,
        ¬Exposes caseSensitive component) ∧
    (Apart pattern → ∀ component ∈ (splitPattern pattern folded).2.1, ∀ caseSensitive,
      ¬Exposes caseSensitive component) := by
  refine ⟨⟨?_, ?_⟩, ?_⟩
  · intro hmatches component hmem caseSensitive hexposes
    obtain ⟨name, refusal, herror⟩ := hexposes.error
    obtain ⟨matched, hmatched⟩ := hmatches component hmem name caseSensitive
    rw [herror] at hmatched
    cases hmatched
  · intro hexposes component hmem name caseSensitive
    cases hmatch : matchComponent caseSensitive component name with
    | ok matched => exact ⟨matched, rfl⟩
    | error error => exact absurd (exposes_of_error hmatch) (hexposes component hmem caseSensitive)
  · intro hapart component hmem caseSensitive hexposes
    have haccepted := Accepted.components ⟨_, le_rfl, hvalid⟩ hapart (mem_splitPattern hmem)
    obtain ⟨name, refusal, herror⟩ := hexposes.error
    obtain ⟨matched, hmatched⟩ :=
      matchComponent_of_accepted caseSensitive (accepted_iff.mp haccepted) name
    rw [herror] at hmatched
    cases hmatched

/-- A star and a suffix are accepted, and refused for no name. -/
theorem validated_matches_iff_star :
    validatePattern "*.csv".toUTF8.toList = .ok () ∧
      ∀ component ∈ (splitPattern "*.csv".toUTF8.toList true).2.1, ∀ name caseSensitive,
        ∃ matched, matchComponent caseSensitive component name = .ok matched := by
  have hiff := validated_matches_iff "*.csv".toUTF8.toList true (by decide +kernel)
  have hapart : Apart "*.csv".toUTF8.toList := by
    rw [show "*.csv".toUTF8.toList = [star, dot, 0x63, 0x73, 0x76] by decide +kernel]
    iterate 5 refine .other (by decide) (by decide) ?_
    exact .nil
  exact ⟨by decide +kernel, hiff.1.mpr (hiff.2 hapart)⟩

/-- A bracket that is not closed in its component hides what another component is refused for. -/
theorem validated_pattern_refused :
    validatePattern "[a/[][:digits:]]".toUTF8.toList = .ok () ∧
      "[][:digits:]]".toUTF8.toList ∈ (splitPattern "[a/[][:digits:]]".toUTF8.toList true).2.1 ∧
      matchComponent true "[][:digits:]]".toUTF8.toList "x".toUTF8.toList =
        .error (.unknownClass "digits".toUTF8.toList) := by
  decide +kernel

end GantrySftp
