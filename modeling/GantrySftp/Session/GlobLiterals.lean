import GantrySftp.Session.GlobSemantics
import GantrySftp.Session.GlobMeaning

/-!
# Components without magic

Read as a pattern, a component without magic matches one name, the one that is left without the
backslashes that escape. That name is the component itself unless a byte stands behind a
backslash.
-/

namespace GantrySftp

open Library Library.Wildcards

namespace Glob

/-- What a component spells whose bytes all mean themselves, but for a backslash in front of
another byte. -/
def unescaped : Bytes → Bytes
  | [] => []
  | [value] => [value]
  | value :: next :: rest =>
    if value = escape then next :: unescaped rest else value :: unescaped (next :: rest)

/-- No component spells more bytes than it has. -/
theorem unescaped_length_le (component : Bytes) :
    (unescaped component).length ≤ component.length := by
  induction component using unescaped.induct with
  | case1 => exact le_rfl
  | case2 value => exact le_rfl
  | case3 next rest ih =>
    rw [unescaped, if_pos rfl]
    exact Nat.succ_le_succ (ih.trans (Nat.le_succ _))
  | case4 value next rest hvalue ih =>
    rw [unescaped, if_neg hvalue]
    exact Nat.succ_le_succ ih

/-- A component spells itself exactly when no byte stands behind a backslash. -/
theorem unescaped_eq_iff (component : Bytes) :
    unescaped component = component ↔ escape ∉ component.dropLast := by
  induction component using unescaped.induct with
  | case1 => simp [unescaped]
  | case2 value => simp [unescaped]
  | case3 next rest ih =>
    refine iff_of_false (fun h => ?_) (by simp)
    have hlength := congrArg List.length h
    have hle := unescaped_length_le rest
    rw [unescaped, if_pos rfl] at hlength
    simp only [List.length_cons] at hlength
    omega
  | case4 value next rest hvalue ih =>
    rw [unescaped, if_neg hvalue, List.cons.injEq, and_iff_right rfl, ih,
      List.dropLast_cons_of_ne_nil (List.cons_ne_nil _ _), List.mem_cons, not_or,
      and_iff_right (Ne.symm hvalue)]

/-- Every byte of a component but the backslash is in what it spells. -/
theorem mem_unescaped {component : Bytes} {byte : UInt8} (hne : byte ≠ escape)
    (h : byte ∈ component) : byte ∈ unescaped component := by
  induction component using unescaped.induct with
  | case1 => exact h
  | case2 value => exact h
  | case3 next rest ih =>
    rw [unescaped, if_pos rfl]
    obtain rfl | hmem := List.mem_cons.mp h
    · exact absurd rfl hne
    obtain rfl | hmem := List.mem_cons.mp hmem
    · exact List.mem_cons_self
    · exact List.mem_cons_of_mem _ (ih hmem)
  | case4 value next rest hvalue ih =>
    rw [unescaped, if_neg hvalue]
    obtain rfl | hmem := List.mem_cons.mp h
    · exact List.mem_cons_self
    · exact List.mem_cons_of_mem _ (ih hmem)

/-- The bytes that need matching: a star, a question mark and a bracket. -/
theorem magicBytes_eq : magicBytes = [star, question, openClass] := by decide +kernel

/-- A component has no magic when none of its bytes is a star, a question mark or a bracket. -/
theorem bytes_of_hasMagic {component : Bytes} (h : hasMagic component = false) :
    ∀ byte ∈ component, byte ≠ star ∧ byte ≠ question ∧ byte ≠ openClass := by
  have hmagic : ∀ special ∈ [star, question, openClass], special ∉ component := by
    intro special hspecial hcontains
    unfold hasMagic at h
    rw [List.any_eq_false, magicBytes_eq] at h
    exact h special hspecial (List.contains_iff_mem.mpr hcontains)
  intro byte hmem
  refine ⟨?_, ?_, ?_⟩ <;> rintro rfl
  · exact hmagic _ (by simp) hmem
  · exact hmagic _ (by simp) hmem
  · exact hmagic _ (by simp) hmem

/-- A component without magic spells its bytes, but for the backslashes that escape. -/
theorem spells_unescaped {component : Bytes}
    (h : ∀ byte ∈ component, byte ≠ star ∧ byte ≠ question ∧ byte ≠ openClass) :
    Spells component ((unescaped component).map .literal) := by
  induction component using unescaped.induct with
  | case1 => exact .nil
  | case2 value =>
    obtain ⟨hstar, hquestion, hopen⟩ := h value List.mem_cons_self
    exact .literal hstar hquestion hopen (fun _ => rfl) .nil
  | case3 next rest ih =>
    rw [unescaped, if_pos rfl]
    exact .escaped (ih fun byte hmem => h byte (by simp [hmem]))
  | case4 value next rest hvalue ih =>
    obtain ⟨hstar, hquestion, hopen⟩ := h value List.mem_cons_self
    rw [unescaped, if_neg hvalue]
    exact .literal hstar hquestion hopen (fun heq => absurd heq hvalue)
      (ih fun byte hmem => h byte (List.mem_cons_of_mem _ hmem))

/-- Literal bytes cover themselves only. -/
theorem covers_literal_iff {values name : Bytes} :
    Covers Element.isRun (accepts (Element.test true)) (values.map .literal) name ↔
      name = values := by
  induction values generalizing name with
  | nil =>
    apply Iff.intro
    · intro h
      cases h
      rfl
    · rintro rfl
      exact .nil
  | cons value values ih =>
    apply Iff.intro
    · intro h
      cases h with
      | skip hrun below => cases hrun
      | more hrun below => cases hrun
      | @one _ _ byte _ hone hfit below =>
        obtain rfl := ih.mp below
        have heq : value = byte := by simpa [accepts, Element.test, equal] using hfit
        rw [heq]
    · rintro rfl
      refine .one rfl ?_ (ih.mpr rfl)
      simp [accepts, Element.test, equal]

/-- A component that spells a period first begins with one, escaped or not. -/
theorem matchesLeadingDot_of_unescaped {component : Bytes}
    (h : (unescaped component).head? = some dot) : matchesLeadingDot component = true := by
  rw [matchesLeadingDot_iff]
  cases component using unescaped.fun_cases with
  | case1 => cases h
  | case2 value => exact Or.inl h
  | case3 next rest =>
    rw [unescaped, if_pos rfl] at h
    obtain rfl := Option.some.inj h
    exact Or.inr ⟨rest, rfl⟩
  | case4 value next rest hvalue =>
    rw [unescaped, if_neg hvalue] at h
    exact Or.inl h

end Glob

open Glob

/-- A component without magic matches one name, what it spells. -/
theorem fits_unescaped_iff {component : Bytes} (h : hasMagic component = false) (name : Bytes) :
    fits component name = true ↔ name = unescaped component := by
  have hspells := spells_unescaped (bytes_of_hasMagic h)
  obtain ⟨matched, hmatched⟩ : ∃ matched, matchComponent true component name = .ok matched :=
    exists_matchComponent hspells name (by simp)
  have hcovers := matchComponent_covers hspells name hmatched
  rw [covers_literal_iff] at hcovers
  unfold fits
  rw [hmatched]
  simp only [Except.ok.injEq, decide_eq_true_eq, hcovers, and_iff_right_iff_imp]
  rintro rfl
  exact matchesLeadingDot_of_unescaped

/-- A component without magic is looked up as what it matches exactly when no byte stands behind a
backslash, or it holds a byte that no entry has in its name. -/
theorem fits_self_iff {component : Bytes} (h : hasMagic component = false)
    (hname : IsName component) :
    (∀ name, IsComponent name → (fits component name = true ↔ name = component)) ↔
      escape ∉ component.dropLast ∨ 0 ∈ component := by
  simp only [fits_unescaped_iff h]
  apply Iff.intro
  · intro hsame
    by_contra hnot
    obtain ⟨hescape, hzero⟩ := not_or.mp hnot
    have hcomponent : IsComponent component :=
      isComponent_iff.mpr ⟨hname.1.1, hname.2, hname.1.2, hzero⟩
    exact hescape ((unescaped_eq_iff component).mp ((hsame component hcomponent).mpr rfl).symm)
  · rintro (hescape | hzero) name hcomponent
    · rw [(unescaped_eq_iff component).mpr hescape]
    · have hnone := (isComponent_iff.mp hcomponent).2.2.2
      apply iff_of_false
      · rintro rfl
        exact hnone (mem_unescaped (by decide) hzero)
      · rintro rfl
        exact hnone hzero

end GantrySftp
