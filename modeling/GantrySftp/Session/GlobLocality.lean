import GantrySftp.Session.GlobGrammar

/-!
# Bracket expressions and separators

A pattern is checked as a whole and matched component by component. Where no bracket expression
that the whole pattern spells reaches across a separator, both read the same expressions, and a
pattern that is accepted as a whole is accepted in each component.
-/

namespace GantrySftp

open Library

namespace Glob

/-- No bracket expression that is read has a separator in it. -/
inductive Apart : Bytes → Prop
  | nil : Apart []
  | closed {inside behind : Bytes} {members : List Member}
      (h : Members true (negation (inside ++ behind)).2 members behind) (hinside : slash ∉ inside)
      (more : Apart behind) : Apart (openClass :: (inside ++ behind))
  | unclosed {rest : Bytes}
      (h : ¬∃ members behind, Members true (negation rest).2 members behind)
      (more : Apart rest) : Apart (openClass :: rest)
  | escaped {value : UInt8} {rest : Bytes} (more : Apart rest) : Apart (escape :: value :: rest)
  | other {value : UInt8} {rest : Bytes} (hopen : value ≠ openClass)
      (hescape : value = escape → rest = []) (more : Apart rest) : Apart (value :: rest)

/-! ## Texts in front of others -/

/-- Bytes without a separator stand in front of the first separator. -/
theorem append_of_slash_not_mem {front back text rest : Bytes}
    (heq : front ++ back = text ++ slash :: rest) (hfront : slash ∉ front) :
    ∃ between, text = front ++ between ∧ back = between ++ slash :: rest := by
  obtain ⟨between, rfl, rfl⟩ | ⟨between, rfl, hrest⟩ := List.append_eq_append_iff.mp heq
  · exact ⟨between, rfl, rfl⟩
  · cases between with
    | nil => exact ⟨[], by simp, by simpa using hrest.symm⟩
    | cons first between =>
      obtain ⟨rfl, -⟩ := List.cons.inj hrest
      exact absurd (List.mem_append_right _ List.mem_cons_self) hfront

/-- A negation is read from the front. -/
theorem negation_append (text rest : Bytes) :
    negation (text ++ slash :: rest) =
      ((negation text).1, (negation text).2 ++ slash :: rest) := by
  cases text with
  | nil =>
    have hslash : slash ∉ negate := by decide +kernel
    simp [negation, hslash]
  | cons first text =>
    unfold negation
    dsimp only [List.cons_append, List.head?_cons, List.tail_cons]
    split <;> rfl

/-- A character class stays one in front of more. -/
theorem IsNamed.append {text name behind : Bytes} (h : IsNamed text name behind) (more : Bytes) :
    IsNamed (text ++ more) name (behind ++ more) := by
  obtain ⟨rfl, hletters⟩ := h
  exact ⟨by simp, hletters⟩

/-- A refused sub-expression stays one in front of more. -/
theorem Refused.append {text : Bytes} (h : Refused text) (more : Bytes) :
    Refused (text ++ more) := by
  obtain ⟨name, behind, hnamed, hlookup⟩ | ⟨marker, content, behind, hmarker, rfl⟩ := h
  · exact Or.inl ⟨name, _, hnamed.append more, hlookup⟩
  · exact Or.inr ⟨marker, content, behind ++ more, hmarker, by simp⟩

/-- A range stays one in front of more. -/
theorem IsRange.append {text behind : Bytes} {low high : UInt8}
    (h : IsRange text low high behind) (more : Bytes) :
    IsRange (text ++ more) low high (behind ++ more) := by
  obtain ⟨rfl, hclose⟩ := h
  exact ⟨rfl, hclose⟩

/-- A member is in front of what stands behind it. -/
theorem Member.Spelled.taken {text rest : Bytes} {member : Member} (h : member.Spelled text rest) :
    ∃ first taken, text = first :: taken ++ rest := by
  cases h with
  | @named _ name _ _ hnamed _ =>
    obtain ⟨rfl, -⟩ := hnamed
    exact ⟨openClass, colon :: (name ++ [colon, closeClass]), by simp⟩
  | escaped value => exact ⟨escape, [value], rfl⟩
  | @range _ _ low high hrange _ =>
    obtain ⟨rfl, -⟩ := hrange
    exact ⟨low, [dash, high], rfl⟩
  | @byte value => exact ⟨value, [], rfl⟩

/-- The members of an expression are in front of what stands behind it. -/
theorem Members.taken {first : Bool} {text behind : Bytes} {members : List Member}
    (h : Members first text members behind) : ∃ taken, text = taken ++ behind := by
  induction h with
  | close behind => exact ⟨[closeClass], rfl⟩
  | member hclose h more ih =>
    obtain ⟨first, taken, rfl⟩ := h.taken
    obtain ⟨later, rfl⟩ := ih
    exact ⟨first :: taken ++ later, by simp⟩

/-! ## Reading less -/

/-- A member that ends in front of more is read without it. -/
theorem Member.Spelled.of_append {text rest more : Bytes} {member : Member}
    (h : member.Spelled (text ++ more) (rest ++ more)) : member.Spelled text rest := by
  generalize htext : text ++ more = whole at h
  generalize hrest : rest ++ more = left at h
  cases h with
  | @named _ name _ _ hnamed hlookup =>
    subst hrest
    have heq : text ++ more = openClass :: colon :: (name ++ colon :: closeClass :: rest) ++ more := by
      rw [htext, hnamed.1]
      simp
    exact .named ⟨List.append_cancel_right heq, hnamed.2⟩ hlookup
  | escaped value =>
    subst hrest
    obtain rfl : text = escape :: value :: rest := List.append_cancel_right htext
    exact .escaped value rest
  | @range _ _ low high hrange hescape =>
    subst hrest
    obtain rfl : text = low :: dash :: high :: rest :=
      List.append_cancel_right (htext.trans hrange.1)
    exact .range ⟨rfl, hrange.2⟩ hescape
  | @byte value _ hrefused hnamed hescape hrange =>
    subst hrest
    obtain rfl : text = value :: rest := List.append_cancel_right htext
    refine .byte (fun h => hrefused (h.append more)) ?_ ?_ ?_
    · rintro ⟨name, behind, h⟩
      exact hnamed ⟨name, _, h.append more⟩
    · exact fun heq => (List.append_eq_nil_iff.mp (hescape heq)).1
    · rintro ⟨low, high, behind, h⟩
      exact hrange ⟨low, high, _, h.append more⟩

/-- An expression that is closed in front of more is closed without it. -/
theorem Members.of_append {first : Bool} {text behind more : Bytes} {members : List Member}
    (h : Members first (text ++ more) members (behind ++ more)) :
    Members first text members behind := by
  generalize htext : text ++ more = whole at h
  generalize hbehind : behind ++ more = left at h
  induction h generalizing text with
  | close left =>
    subst hbehind
    obtain rfl : text = closeClass :: behind := List.append_cancel_right htext
    exact .close behind
  | @member first whole rest left member members hclose h more' ih =>
    subst hbehind
    obtain ⟨taken, hrest⟩ := more'.taken
    rw [← List.append_assoc] at hrest
    subst hrest
    obtain ⟨value, front, hwhole⟩ := h.taken
    have heq : text ++ more = value :: front ++ (taken ++ behind) ++ more := by
      rw [htext, hwhole]
      simp
    obtain rfl := List.append_cancel_right heq
    subst htext
    refine .member ?_ h.of_append (ih rfl rfl)
    simpa using hclose

/-! ## Reading more -/

/-- A member that is read in front of a separator is read in front of more, unless more is refused
or the member is the last byte, or the last but a dash. -/
theorem Member.Spelled.append_slash {text behind : Bytes} {member : Member}
    (h : member.Spelled text behind) (rest : Bytes) :
    Refused (text ++ slash :: rest) ∨
      member.Spelled (text ++ slash :: rest) (behind ++ slash :: rest) ∨
        behind = [] ∨ behind = [dash] := by
  cases h with
  | named hnamed hlookup => exact Or.inr (Or.inl (.named (hnamed.append _) hlookup))
  | escaped value => exact Or.inr (Or.inl (.escaped value _))
  | range hrange hescape => exact Or.inr (Or.inl (.range (hrange.append _) hescape))
  | @byte value _ hrefused hnamed hescape hrange =>
    by_cases hmore : Refused (value :: behind ++ slash :: rest)
    · exact Or.inl hmore
    refine Or.inr ?_
    by_cases hempty : behind = [] ∨ behind = [dash]
    · exact Or.inr hempty
    refine Or.inl (.byte hmore ?_ ?_ ?_)
    · rintro ⟨name, after, heq, hletters⟩
      have hname : slash ∉ colon :: (name ++ [colon, closeClass]) := by
        intro hmem
        obtain heq | hmem := List.mem_cons.mp hmem
        · exact absurd heq (by decide)
        obtain hmem | hmem := List.mem_append.mp hmem
        · exact absurd (hletters slash hmem) (by decide)
        · exact absurd hmem (by decide)
      have hfront : colon :: (name ++ [colon, closeClass]) ++ after = behind ++ slash :: rest := by
        have htail : behind ++ slash :: rest = colon :: (name ++ colon :: closeClass :: after) :=
          (List.cons.inj heq).2
        rw [htail]
        simp
      obtain ⟨between, hbetween, -⟩ := append_of_slash_not_mem hfront hname
      refine hnamed ⟨name, between, ?_, hletters⟩
      rw [hbetween, (List.cons.inj heq).1]
      simp
    · exact fun heq => absurd (Or.inl (hescape heq)) hempty
    · rintro ⟨low, high, after, heq, hclose⟩
      cases behind with
      | nil => exact hempty (Or.inl rfl)
      | cons second behind =>
        cases behind with
        | nil =>
          obtain rfl := (List.cons.inj (List.cons.inj heq).2).1
          exact hempty (Or.inr rfl)
        | cons third behind =>
          obtain ⟨rfl, hthird⟩ := List.cons.inj (List.cons.inj heq).2
          obtain ⟨rfl, -⟩ := List.cons.inj hthird
          exact hrange ⟨value, third, behind, rfl, hclose⟩

/-- An expression is neither closed nor refused at its end or at a last dash. -/
theorem not_members_of_last {behind : Bytes} (h : behind = [] ∨ behind = [dash]) :
    (¬∃ members after, Members false behind members after) ∧ ¬MeetsRefused false behind := by
  have hnil : (¬∃ members after, Members false [] members after) ∧ ¬MeetsRefused false [] := by
    apply And.intro
    · rintro ⟨members, after, hmembers⟩
      exact absurd hmembers.length_lt (by simp)
    · intro hrefused
      cases hrefused with
      | here h => obtain ⟨_, _, ⟨h, -⟩, -⟩ | ⟨_, _, _, -, h⟩ := h <;> cases h
      | later _ h _ => exact absurd h.length_lt (by simp)
  obtain rfl | rfl := h
  · exact hnil
  have hlast : ∀ {member : Member} {rest : Bytes}, member.Spelled [dash] rest → rest = [] := by
    intro member rest h
    exact List.eq_nil_of_length_eq_zero (Nat.lt_one_iff.mp h.length_lt)
  apply And.intro
  · rintro ⟨members, after, hmembers⟩
    cases hmembers with
    | member _ h more =>
      obtain rfl := hlast h
      exact hnil.1 ⟨_, _, more⟩
  · intro hrefused
    cases hrefused with
    | here h =>
      obtain ⟨_, _, ⟨h, -⟩, -⟩ | ⟨_, _, _, -, h⟩ := h
      · exact absurd (List.cons.inj h).1 (by decide)
      · exact absurd (List.cons.inj h).1 (by decide)
    | later _ h more =>
      obtain rfl := hlast h
      exact hnil.2 more

/-- What comes first in a text comes first with more behind it. -/
theorem Member.Spelled.head_append {text behind : Bytes} {member : Member}
    (h : member.Spelled text behind) (more : Bytes) : (text ++ more).head? = text.head? := by
  obtain ⟨first, taken, rfl⟩ := h.taken
  rfl

/-- An expression that is closed in front of a separator is closed in front of more, unless more is
refused. -/
theorem Members.append_slash {first : Bool} {text behind : Bytes} {members : List Member}
    (h : Members first text members behind) (rest : Bytes) :
    MeetsRefused first (text ++ slash :: rest) ∨
      Members first (text ++ slash :: rest) members (behind ++ slash :: rest) := by
  induction h with
  | close behind => exact Or.inr (.close _)
  | member hclose h more ih =>
    have hclose' := hclose
    rw [← h.head_append (slash :: rest)] at hclose'
    obtain hrefused | hspelled | hlast := h.append_slash rest
    · exact Or.inl (.here hrefused)
    · obtain hmeets | hmembers := ih
      · exact Or.inl (.later hclose' hspelled hmeets)
      · exact Or.inr (.member hclose' hspelled hmembers)
    · exact absurd ⟨_, _, more⟩ (not_members_of_last hlast).1

/-- An expression that is refused in front of a separator is refused in front of more. -/
theorem MeetsRefused.append_slash {first : Bool} {text : Bytes} (h : MeetsRefused first text)
    (rest : Bytes) : MeetsRefused first (text ++ slash :: rest) := by
  induction h with
  | here h => exact .here (h.append _)
  | later hclose h more ih =>
    have hclose' := hclose
    rw [← h.head_append (slash :: rest)] at hclose'
    obtain hrefused | hspelled | hlast := h.append_slash rest
    · exact .here hrefused
    · exact .later hclose' hspelled ih
    · exact absurd more (not_members_of_last hlast).2

/-! ## Accepted in each component -/

/-- As many turns as bytes are enough to check a pattern. -/
theorem validateLoop_turns {turns turns' : ℕ} {pattern : Bytes} (h : pattern.length ≤ turns)
    (h' : pattern.length ≤ turns') : validateLoop turns pattern = validateLoop turns' pattern := by
  induction turns generalizing turns' pattern with
  | zero =>
    obtain rfl := List.eq_nil_of_length_eq_zero (Nat.le_zero.mp h)
    cases turns' <;> rfl
  | succ turns ih =>
    cases pattern with
    | nil => cases turns' <;> rfl
    | cons element rest =>
      cases turns' with
      | zero => simp at h'
      | succ turns' =>
        have hrest := Nat.le_of_succ_le_succ h
        have hrest' := Nat.le_of_succ_le_succ h'
        unfold validateLoop
        by_cases hescape : element = escape
        · have htail : rest.tail.length ≤ rest.length := by simp
          rw [if_pos hescape, if_pos hescape]
          exact ih (htail.trans hrest) (htail.trans hrest')
        rw [if_neg hescape, if_neg hescape]
        by_cases hopen : element = openClass
        · rw [if_pos hopen, if_pos hopen]
          cases hscan : scanClass true none rest with
          | error error => rfl
          | ok found =>
            have hless := scanClass_length hscan
            exact ih (hless.trans hrest) (hless.trans hrest')
        · rw [if_neg hopen, if_neg hopen]
          exact ih hrest hrest'

/-- What is accepted is accepted in as many turns as it has bytes. -/
theorem accepted_iff {pattern : Bytes} :
    Accepted pattern ↔ validateLoop pattern.length pattern = .ok () := by
  apply Iff.intro
  · rintro ⟨turns, hlength, hloop⟩
    rw [← hloop]
    exact validateLoop_turns le_rfl hlength
  · exact fun h => ⟨_, le_rfl, h⟩

/-- An ordinary byte in front of what is accepted is accepted. -/
theorem Accepted.cons {element : UInt8} {rest : Bytes} (h : Accepted rest)
    (hopen : element ≠ openClass) (hescape : element = escape → rest = []) :
    Accepted (element :: rest) := by
  rw [accepted_iff] at h ⊢
  rw [List.length_cons, validateLoop]
  by_cases heq : element = escape
  · rw [if_pos heq, hescape heq]
    rfl
  · rw [if_neg heq, if_neg hopen]
    exact h

/-- An escaped byte in front of what is accepted is accepted. -/
theorem Accepted.cons_escape {rest : Bytes} (h : Accepted rest) (value : UInt8) :
    Accepted (escape :: value :: rest) := by
  refine ⟨rest.length + 2, le_rfl, ?_⟩
  rw [validateLoop, if_pos rfl, List.tail_cons]
  rw [accepted_iff] at h
  rw [← h]
  exact validateLoop_turns (Nat.le_succ _) le_rfl

/-- A bracket expression in front of what is accepted is accepted. -/
theorem Accepted.cons_bracket {rest behind : Bytes} {hit : Bool} (h : Accepted behind)
    (hscan : scanClass true none rest = .ok (behind, hit)) : Accepted (openClass :: rest) := by
  refine ⟨rest.length + 1, le_rfl, ?_⟩
  rw [validateLoop, if_neg (by decide), if_pos rfl, hscan]
  rw [accepted_iff] at h
  rw [← h]
  exact validateLoop_turns (scanClass_length hscan) le_rfl

/-- What is accepted as a whole is accepted on both sides of its first separator, where no bracket
expression reaches across one. -/
theorem Accepted.of_slash {front back : Bytes} (hslash : slash ∉ front)
    (h : Accepted (front ++ slash :: back)) (hapart : Apart (front ++ slash :: back)) :
    Accepted front ∧ Accepted back ∧ Apart back := by
  induction hlength : front.length using Nat.strong_induction_on generalizing front with
  | _ length ih =>
    subst hlength
    cases front with
    | nil =>
      refine ⟨accepted_nil, h.tail (by decide) (by decide), ?_⟩
      generalize hwhole : [] ++ slash :: back = whole at hapart
      cases hapart with
      | nil => cases hwhole
      | closed => exact absurd (List.cons.inj hwhole).1 (by decide)
      | unclosed => exact absurd (List.cons.inj hwhole).1 (by decide)
      | escaped => exact absurd (List.cons.inj hwhole).1 (by decide)
      | other _ _ more =>
        obtain ⟨-, rfl⟩ := List.cons.inj hwhole
        exact more
    | cons value front =>
      have hfront : slash ∉ front := fun hmem => hslash (List.mem_cons_of_mem _ hmem)
      generalize hwhole : value :: front ++ slash :: back = whole at hapart
      cases hapart with
      | nil => cases hwhole
      | @closed inside behind members hmembers hinside more =>
        obtain ⟨rfl, hrest⟩ := List.cons.inj hwhole
        obtain ⟨between, rfl, rfl⟩ := append_of_slash_not_mem hrest.symm hinside
        have hbetween : slash ∉ between := fun hmem => hfront (List.mem_append_right _ hmem)
        obtain ⟨behind, hit, hscan, hbehind⟩ := h.bracket
        rw [List.append_eq, List.append_assoc, scanClass_of_members true none hmembers] at hscan
        obtain ⟨rfl, -⟩ := Prod.mk.inj (Except.ok.inj hscan)
        obtain ⟨haccepted, hback⟩ := ih between.length
          (by simp only [List.length_cons, List.length_append]; omega) hbetween hbehind more rfl
        rw [← List.append_assoc, negation_append] at hmembers
        exact ⟨haccepted.cons_bracket (scanClass_of_members true none hmembers.of_append), hback⟩
      | @unclosed rest hunclosed more =>
        obtain ⟨rfl, rfl⟩ := List.cons.inj hwhole
        obtain ⟨behind, hit, hscan, hbehind⟩ := h.bracket
        rw [List.append_eq] at hscan hunclosed more
        have hunrefused : ¬MeetsRefused true (negation (front ++ slash :: back)).2 := by
          intro hrefused
          obtain ⟨error, herror⟩ := scanClass_refused true none hrefused
          rw [hscan] at herror
          cases herror
        rw [scanClass_unclosed true none hunclosed hunrefused] at hscan
        obtain ⟨rfl, -⟩ := Prod.mk.inj (Except.ok.inj hscan)
        obtain ⟨haccepted, hback⟩ := ih front.length (Nat.lt_succ_self _) hfront hbehind more rfl
        rw [negation_append] at hunclosed hunrefused
        have hopen : ¬∃ members after, Members true (negation front).2 members after := by
          rintro ⟨members, after, hmembers⟩
          obtain hrefused | hmore := hmembers.append_slash back
          · exact hunrefused hrefused
          · exact hunclosed ⟨_, _, hmore⟩
        exact ⟨haccepted.cons_bracket (scanClass_unclosed true none hopen
          fun hrefused => hunrefused (hrefused.append_slash back)), hback⟩
      | @escaped next rest more =>
        obtain ⟨rfl, hrest⟩ := List.cons.inj hwhole
        cases front with
        | nil =>
          obtain ⟨rfl, rfl⟩ := List.cons.inj hrest
          exact ⟨accepted_nil.cons (by decide) fun _ => rfl, h.escaped, more⟩
        | cons value front =>
          obtain ⟨rfl, rfl⟩ := List.cons.inj hrest
          obtain ⟨haccepted, hback⟩ := ih front.length (by simp only [List.length_cons]; omega)
            (fun hmem => hfront (List.mem_cons_of_mem _ hmem)) h.escaped more rfl
          exact ⟨haccepted.cons_escape value, hback⟩
      | @other other rest hopen hescape more =>
        obtain ⟨rfl, rfl⟩ := List.cons.inj hwhole
        have hvalue : value ≠ escape := fun heq =>
          absurd (List.append_eq_nil_iff.mp (hescape heq)).2 (by simp)
        obtain ⟨haccepted, hback⟩ := ih front.length (Nat.lt_succ_self _) hfront
          (h.tail hvalue hopen) more rfl
        exact ⟨haccepted.cons hopen fun heq => absurd heq hvalue, hback⟩

/-- A path without a separator is its only component. -/
theorem mem_splitComponents_plain {path component : Bytes} (h : slash ∉ path)
    (hmem : component ∈ splitComponents path) : component = path := by
  unfold splitComponents at hmem
  rw [List.splitOn_eq_singleton h] at hmem
  exact List.mem_singleton.mp (List.mem_filter.mp hmem).1

/-- What is accepted as a whole is accepted in each component, where no bracket expression reaches
across a separator. -/
theorem Accepted.components {pattern : Bytes} (h : Accepted pattern) (hapart : Apart pattern)
    {component : Bytes} (hmem : component ∈ splitComponents pattern) : Accepted component := by
  induction hlength : pattern.length using Nat.strong_induction_on generalizing pattern with
  | _ length ih =>
    subst hlength
    by_cases hslash : slash ∈ pattern
    · obtain ⟨front, back, heq, hfront⟩ := List.eq_append_cons_of_mem hslash
      subst heq
      obtain ⟨haccepted, hback, hapart⟩ := Accepted.of_slash hfront h hapart
      rw [splitComponents_slash] at hmem
      obtain hmem | hmem := List.mem_append.mp hmem
      · exact mem_splitComponents_plain hfront hmem ▸ haccepted
      · exact ih back.length (by simp only [List.length_append, List.length_cons]; omega) hback
          hapart hmem rfl
    · exact mem_splitComponents_plain hslash hmem ▸ h

end Glob

end GantrySftp
