import GantrySftp.Session.GlobAccepted

/-!
# The grammar of glob patterns

What a component of a pattern spells, stated by rules on its text: elements in order, and in a
bracket expression members in order. The readers of the matcher read what the rules say, and
refuse where the rules say so.
-/

namespace GantrySftp

open Library

namespace Glob

/-! ## Members of a bracket expression -/

/-- A member of a bracket expression. -/
inductive Member
  | byte (value : UInt8)
  | range (low high : UInt8)
  | named (members : UInt8 → Bool)

/-- The bytes a member is for. -/
def Member.Denotes : Member → UInt8 → Prop
  | byte value, subject => subject = value
  | range low high, subject => low ≤ subject ∧ subject ≤ high
  | named members, subject => members subject = true

/-- Lowercase letters on both sides of which colons and brackets stand, and what stands behind. -/
def IsNamed (text name behind : Bytes) : Prop :=
  text = openClass :: colon :: (name ++ colon :: closeClass :: behind) ∧
    ∀ letter ∈ name, within 0x61 0x7A letter = true

/-- A sub-expression that names no character class, or depends on a locale. -/
def Refused (text : Bytes) : Prop :=
  (∃ name behind, IsNamed text name behind ∧ namedClasses.lookup name = none) ∨
    ∃ marker content behind, (marker = equals ∨ marker = dot) ∧
      text = openClass :: marker :: (content ++ marker :: closeClass :: behind)

/-- The text begins with the two ends of a range and a dash between them. -/
def IsRange (text : Bytes) (low high : UInt8) (behind : Bytes) : Prop :=
  text = low :: dash :: high :: behind ∧ high ≠ closeClass

/-- The member that a text begins with, and what stands behind it. -/
inductive Member.Spelled : Bytes → Member → Bytes → Prop
  | named {text name behind : Bytes} {members : UInt8 → Bool} (h : IsNamed text name behind)
      (hname : namedClasses.lookup name = some members) : Spelled text (.named members) behind
  | escaped (value : UInt8) (behind : Bytes) : Spelled (escape :: value :: behind) (.byte value) behind
  | range {text behind : Bytes} {low high : UInt8} (h : IsRange text low high behind)
      (hescape : low ≠ escape) : Spelled text (.range low high) behind
  | byte {value : UInt8} {behind : Bytes} (hrefused : ¬Refused (value :: behind))
      (hnamed : ¬∃ name rest, IsNamed (value :: behind) name rest)
      (hescape : value = escape → behind = [])
      (hrange : ¬∃ low high rest, IsRange (value :: behind) low high rest) :
      Spelled (value :: behind) (.byte value) behind

/-- The members up to the bracket that closes the expression, which is a member itself where it
comes first. -/
inductive Members : (first : Bool) → Bytes → List Member → Bytes → Prop
  | close (behind : Bytes) : Members false (closeClass :: behind) [] behind
  | member {first : Bool} {text rest behind : Bytes} {member : Member} {members : List Member}
      (hclose : first = true ∨ text.head? ≠ some closeClass) (h : member.Spelled text rest)
      (more : Members false rest members behind) : Members first text (member :: members) behind

/-- A refused sub-expression comes where a member would, before the expression is closed. -/
inductive MeetsRefused : (first : Bool) → Bytes → Prop
  | here {first : Bool} {text : Bytes} (h : Refused text) : MeetsRefused first text
  | later {first : Bool} {text rest : Bytes} {member : Member}
      (hclose : first = true ∨ text.head? ≠ some closeClass) (h : member.Spelled text rest)
      (more : MeetsRefused false rest) : MeetsRefused first text

/-- Whether an expression is negated, and its text behind that. -/
def negation (text : Bytes) : Bool × Bytes :=
  let negated := text.head?.any negate.contains
  (negated, if negated then text.tail else text)

/-! ## Elements -/

/-- An element of a pattern component. -/
inductive Element
  | run
  | any
  | oneOf (negated : Bool) (members : List Member)
  | literal (value : UInt8)
  | refused

/-- The pieces of a name that an element is for. -/
def Element.Takes : Element → Bytes → Prop
  | run, _ => True
  | any, piece => ∃ subject, piece = [subject]
  | oneOf negated members, piece =>
    ∃ subject, piece = [subject] ∧ ((∃ member ∈ members, member.Denotes subject) ↔ negated = false)
  | literal value, piece => piece = [value]
  | refused, _ => False

/-- The elements that a component spells. Reading ends at a refused sub-expression. -/
inductive Spells : Bytes → List Element → Prop
  | nil : Spells [] []
  | run {rest : Bytes} {elements : List Element} (more : Spells rest elements) :
      Spells (star :: rest) (.run :: elements)
  | any {rest : Bytes} {elements : List Element} (more : Spells rest elements) :
      Spells (question :: rest) (.any :: elements)
  | oneOf {rest behind : Bytes} {members : List Member} {elements : List Element}
      (h : Members true (negation rest).2 members behind) (more : Spells behind elements) :
      Spells (openClass :: rest) (.oneOf (negation rest).1 members :: elements)
  | refused {rest : Bytes} (h : MeetsRefused true (negation rest).2) :
      Spells (openClass :: rest) [.refused]
  | unclosed {rest : Bytes} {elements : List Element}
      (hopen : ¬∃ members behind, Members true (negation rest).2 members behind)
      (hrefused : ¬MeetsRefused true (negation rest).2) (more : Spells rest elements) :
      Spells (openClass :: rest) (.literal openClass :: elements)
  | escaped {value : UInt8} {rest : Bytes} {elements : List Element} (more : Spells rest elements) :
      Spells (escape :: value :: rest) (.literal value :: elements)
  | literal {value : UInt8} {rest : Bytes} {elements : List Element} (hstar : value ≠ star)
      (hquestion : value ≠ question) (hopen : value ≠ openClass) (hescape : value = escape → rest = [])
      (more : Spells rest elements) : Spells (value :: rest) (.literal value :: elements)

/-! ## Reading members -/

/-- What stands in front of a marker and a closing bracket was found. -/
theorem eq_of_untilClose {marker : UInt8} {rest name behind : Bytes}
    (h : untilClose marker rest = some (name, behind)) :
    rest = name ++ marker :: closeClass :: behind := by
  induction rest generalizing name behind with
  | nil => cases h
  | cons byte rest ih =>
    unfold untilClose at h
    split at h
    · next hfound =>
      obtain ⟨rfl, rfl⟩ := Prod.mk.inj (Option.some.inj h)
      rw [hfound.1, List.nil_append, List.cons_head?_tail (Option.mem_def.mpr hfound.2)]
    · obtain ⟨⟨name', behind'⟩, hfound, heq⟩ := Option.map_eq_some_iff.mp h
      obtain ⟨rfl, rfl⟩ := Prod.mk.inj heq
      rw [ih hfound, List.cons_append]

/-- A marker and a closing bracket are found where they stand. -/
theorem isSome_untilClose (marker : UInt8) (name behind : Bytes) :
    (untilClose marker (name ++ marker :: closeClass :: behind)).isSome = true := by
  induction name with
  | nil => simp [untilClose]
  | cons byte name ih =>
    rw [List.cons_append]
    unfold untilClose
    split
    · rfl
    · rw [Option.isSome_map]
      exact ih

/-- A marker and a closing bracket are found at once where the marker stands nowhere else. -/
theorem untilClose_eq {marker : UInt8} {name : Bytes} (h : marker ∉ name) (behind : Bytes) :
    untilClose marker (name ++ marker :: closeClass :: behind) = some (name, behind) := by
  induction name with
  | nil => simp [untilClose]
  | cons byte name ih =>
    have hbyte : byte ≠ marker := fun heq => h (heq ▸ List.mem_cons_self)
    rw [List.cons_append]
    unfold untilClose
    rw [if_neg fun hfound => hbyte hfound.1, ih fun hmem => h (List.mem_cons_of_mem _ hmem)]
    rfl

/-- A colon is no lowercase letter. -/
theorem colon_not_mem {name : Bytes} (h : ∀ letter ∈ name, within 0x61 0x7A letter = true) :
    colon ∉ name :=
  fun hmem => absurd (h colon hmem) (by decide)

section Reading

variable (caseSensitive : Bool) (subject : Option UInt8)

/-- Whether the subject is among the bytes a member is for. -/
def Member.holds : Member → Bool
  | byte value => equal caseSensitive value subject
  | range low high => inRange caseSensitive low high subject
  | named members => inMembers caseSensitive members subject

/-- A sub-expression that names a character class is read as that class, or refused. -/
theorem readNamedClass_of_isNamed {text name behind : Bytes} (h : IsNamed text name behind) :
    readNamedClass caseSensitive subject (text.drop 2) =
      match namedClasses.lookup name with
      | none => .error (.unknownClass name)
      | some members => .ok (some (behind, inMembers caseSensitive members subject)) := by
  obtain ⟨rfl, hletters⟩ := h
  have hall : name.all (within 0x61 0x7A) = true := List.all_eq_true.mpr hletters
  change readNamedClass caseSensitive subject (name ++ colon :: closeClass :: behind) = _
  unfold readNamedClass
  rw [untilClose_eq (colon_not_mem hletters)]
  exact if_pos hall

/-- A bracket and a colon that open no character class are read as none. -/
theorem readNamedClass_none {rest : Bytes}
    (h : ¬∃ name behind, IsNamed (openClass :: colon :: rest) name behind) :
    readNamedClass caseSensitive subject rest = .ok none := by
  unfold readNamedClass
  cases huntil : untilClose colon rest with
  | none => rfl
  | some found =>
    obtain ⟨name, behind⟩ := found
    have heq := eq_of_untilClose huntil
    have hletters : ¬name.all (within 0x61 0x7A) = true := by
      intro hall
      exact h ⟨name, behind, by rw [heq], List.all_eq_true.mp hall⟩
    simp only [hletters]
    rfl

/-- A refused sub-expression is refused. -/
theorem matchClassItem_refused {low : UInt8} {rest : Bytes} (h : Refused (low :: rest)) :
    ∃ error, matchClassItem caseSensitive subject low rest = .error error := by
  obtain ⟨name, behind, hnamed, hlookup⟩ | ⟨marker, content, behind, hmarker, heq⟩ := h
  · have hread := readNamedClass_of_isNamed caseSensitive subject hnamed
    obtain ⟨rfl, heq⟩ := List.cons.inj hnamed.1
    subst heq
    rw [hlookup] at hread
    change readNamedClass caseSensitive subject (name ++ colon :: closeClass :: behind) = _ at hread
    refine ⟨.unknownClass name, ?_⟩
    simp only [matchClassItem, readSubExpression, if_true, hread]
    rfl
  · obtain ⟨rfl, rfl⟩ := List.cons.inj heq
    have hfound := isSome_untilClose marker content behind
    obtain ⟨found, hfound⟩ := Option.isSome_iff_exists.mp hfound
    have hcolon : marker ≠ colon := by
      obtain rfl | rfl := hmarker <;> decide
    simp only [matchClassItem, readSubExpression, if_true, if_neg hcolon, if_pos hmarker, hfound]
    split
    · exact ⟨_, rfl⟩
    · exact ⟨_, rfl⟩

/-- A bracket that opens no sub-expression is a member like another byte. -/
theorem matchClassItem_plain {low : UInt8} {rest : Bytes} (hrefused : ¬Refused (low :: rest))
    (hnamed : ¬∃ name behind, IsNamed (low :: rest) name behind) :
    matchClassItem caseSensitive subject low rest =
      .ok (plainItem caseSensitive subject low rest) := by
  unfold matchClassItem
  cases rest with
  | nil => rfl
  | cons marker behind =>
    dsimp only
    by_cases hopen : low = openClass
    · subst hopen
      rw [if_pos rfl]
      have hnone : readSubExpression caseSensitive subject marker behind = .ok none := by
        unfold readSubExpression
        by_cases hcolon : marker = colon
        · subst hcolon
          rw [if_pos rfl]
          exact readNamedClass_none caseSensitive subject hnamed
        · rw [if_neg hcolon]
          by_cases hmarker : marker = equals ∨ marker = dot
          · rw [if_pos hmarker]
            cases huntil : untilClose marker behind with
            | none => rfl
            | some found =>
              obtain ⟨content, rest⟩ := found
              refine absurd (Or.inr ⟨marker, content, rest, hmarker, ?_⟩) hrefused
              rw [eq_of_untilClose huntil]
          · rw [if_neg hmarker]
      rw [hnone]
      rfl
    · rw [if_neg hopen]

/-- A dash behind a bracket opens no sub-expression that is refused. -/
theorem not_refused_dash (low : UInt8) (rest : Bytes) : ¬Refused (low :: dash :: rest) := by
  rintro (⟨name, behind, ⟨heq, -⟩, -⟩ | ⟨marker, content, behind, hmarker, heq⟩)
  · exact absurd (List.cons.inj (List.cons.inj heq).2).1 (by decide)
  · obtain rfl := (List.cons.inj (List.cons.inj heq).2).1
    exact absurd hmarker (by decide)

/-- A dash behind a bracket opens no character class. -/
theorem not_isNamed_dash (low : UInt8) (rest : Bytes) :
    ¬∃ name behind, IsNamed (low :: dash :: rest) name behind := by
  rintro ⟨name, behind, heq, -⟩
  exact absurd (List.cons.inj (List.cons.inj heq).2).1 (by decide)

/-- A member is read as the rules spell it. -/
theorem Member.Spelled.matchClassItem {text rest : Bytes} {member : Member}
    (h : member.Spelled text rest) :
    ∃ low behind, text = low :: behind ∧
      matchClassItem caseSensitive subject low behind =
        .ok (rest, member.holds caseSensitive subject) := by
  cases h with
  | @named _ name _ members hnamed hlookup =>
    have hread := readNamedClass_of_isNamed caseSensitive subject hnamed
    obtain ⟨rfl, -⟩ := hnamed
    rw [hlookup] at hread
    change readNamedClass caseSensitive subject (name ++ colon :: closeClass :: rest) = _ at hread
    refine ⟨_, _, rfl, ?_⟩
    simp only [Glob.matchClassItem, readSubExpression, if_true, hread]
    rfl
  | escaped value =>
    refine ⟨_, _, rfl, ?_⟩
    rw [Glob.matchClassItem, if_neg (by decide)]
    rfl
  | @range _ _ low high hrange hescape =>
    obtain ⟨rfl, hclose⟩ := hrange
    refine ⟨low, dash :: high :: rest, rfl, ?_⟩
    rw [matchClassItem_plain caseSensitive subject (not_refused_dash low _) (not_isNamed_dash low _)]
    simp only [plainItem, if_neg hescape, if_pos (And.intro trivial hclose)]
    rfl
  | @byte value _ hrefused hnamed hescape hrange =>
    refine ⟨value, rest, rfl, ?_⟩
    rw [matchClassItem_plain caseSensitive subject hrefused hnamed]
    unfold plainItem
    cases rest with
    | nil => rfl
    | cons second behind =>
      have hvalue : value ≠ escape := fun heq => by cases hescape heq
      dsimp only
      rw [if_neg hvalue]
      cases behind with
      | nil => rfl
      | cons high after =>
        have hplain : ¬(second = dash ∧ high ≠ closeClass) := by
          rintro ⟨rfl, hhigh⟩
          exact hrange ⟨value, high, after, rfl, hhigh⟩
        dsimp only
        rw [if_neg hplain]
        rfl

/-- Every text is refused or begins with a member. -/
theorem refused_or_spelled (low : UInt8) (rest : Bytes) :
    Refused (low :: rest) ∨ ∃ member behind, Member.Spelled (low :: rest) member behind := by
  by_cases hrefused : Refused (low :: rest)
  · exact Or.inl hrefused
  refine Or.inr ?_
  by_cases hnamed : ∃ name behind, IsNamed (low :: rest) name behind
  · obtain ⟨name, behind, hnamed⟩ := hnamed
    cases hlookup : namedClasses.lookup name with
    | none => exact absurd (Or.inl ⟨name, behind, hnamed, hlookup⟩) hrefused
    | some members => exact ⟨_, _, .named hnamed hlookup⟩
  by_cases hescape : low = escape ∧ rest ≠ []
  · obtain ⟨rfl, hrest⟩ := hescape
    obtain ⟨value, behind, rfl⟩ := List.exists_cons_of_ne_nil hrest
    exact ⟨_, _, .escaped value behind⟩
  by_cases hrange : ∃ low' high behind, IsRange (low :: rest) low' high behind
  · obtain ⟨low', high, behind, hrange⟩ := hrange
    refine ⟨_, _, .range hrange ?_⟩
    rintro rfl
    obtain ⟨rfl, hrest⟩ := List.cons.inj hrange.1
    exact hescape ⟨rfl, by simp [hrest]⟩
  · exact ⟨_, _, .byte hrefused hnamed (fun heq => not_not.mp fun hne => hescape ⟨heq, hne⟩) hrange⟩

/-! ## Reading bracket expressions -/

/-- A member takes a byte at least. -/
theorem Member.Spelled.length_lt {text rest : Bytes} {member : Member}
    (h : member.Spelled text rest) : rest.length < text.length := by
  obtain ⟨low, behind, rfl, hitem⟩ := h.matchClassItem true none
  exact Nat.lt_succ_of_le (matchClassItem_length hitem)

/-- What stands behind an expression is shorter than its text. -/
theorem Members.length_lt {first : Bool} {text behind : Bytes} {members : List Member}
    (h : Members first text members behind) : behind.length < text.length := by
  induction h with
  | close behind => exact Nat.lt_succ_self _
  | member hclose h more ih => exact ih.trans h.length_lt

/-- A byte that is not the closing bracket, or comes first, is the first of a member. -/
theorem scanItems_member {turns : ℕ} {first matched : Bool} {text rest : Bytes} {member : Member}
    (hclose : first = true ∨ text.head? ≠ some closeClass) (h : member.Spelled text rest) :
    scanItems caseSensitive subject (turns + 1) first matched text =
      scanItems caseSensitive subject turns false
        (matched || member.holds caseSensitive subject) rest := by
  obtain ⟨low, behind, rfl, hitem⟩ := h.matchClassItem caseSensitive subject
  have hgoes : ¬(low = closeClass ∧ ¬first = true) := by
    rintro ⟨rfl, hfirst⟩
    exact hclose.elim hfirst fun hne => hne rfl
  rw [scanItems, if_neg hgoes, hitem]
  rfl

/-- The members of an expression are read up to the bracket that closes it. -/
theorem Members.scanItems {first : Bool} {text behind : Bytes} {members : List Member}
    (h : Members first text members behind) {turns : ℕ} (hturns : text.length < turns)
    (matched : Bool) :
    scanItems caseSensitive subject turns first matched text =
      .ok (some (behind, matched || members.any (Member.holds caseSensitive subject))) := by
  induction h generalizing turns matched with
  | close behind =>
    cases turns with
    | zero => cases hturns
    | succ turns =>
      rw [Glob.scanItems, if_pos (by simp), List.any_nil, Bool.or_false]
  | member hclose h more ih =>
    cases turns with
    | zero => cases hturns
    | succ turns =>
      have hless := h.length_lt
      rw [scanItems_member caseSensitive subject hclose h, ih (by omega), List.any_cons,
        Bool.or_assoc]

/-- An expression with a refused sub-expression is refused. -/
theorem MeetsRefused.scanItems {first : Bool} {text : Bytes} (h : MeetsRefused first text)
    {turns : ℕ} (hturns : text.length < turns) (matched : Bool) :
    ∃ error, scanItems caseSensitive subject turns first matched text = .error error := by
  induction h generalizing turns matched with
  | @here first text hrefused =>
    cases turns with
    | zero => cases hturns
    | succ turns =>
      cases text with
      | nil => obtain ⟨_, _, ⟨h, -⟩, -⟩ | ⟨_, _, _, -, h⟩ := hrefused <;> cases h
      | cons low rest =>
        obtain ⟨error, hitem⟩ := matchClassItem_refused caseSensitive subject hrefused
        have hgoes : ¬(low = closeClass ∧ ¬first = true) := by
          rintro ⟨rfl, -⟩
          obtain ⟨_, _, ⟨h, -⟩, -⟩ | ⟨_, _, _, -, h⟩ := hrefused
          · exact absurd (List.cons.inj h).1 (by decide)
          · exact absurd (List.cons.inj h).1 (by decide)
        refine ⟨error, ?_⟩
        rw [Glob.scanItems, if_neg hgoes, hitem]
        rfl
  | later hclose h more ih =>
    cases turns with
    | zero => cases hturns
    | succ turns =>
      have hless := h.length_lt
      rw [scanItems_member caseSensitive subject hclose h]
      exact ih (by omega) _

/-- An expression is closed, or refused, or read to the end of the text. -/
theorem scanItems_cases (first : Bool) (text : Bytes) :
    (∃ members behind, Members first text members behind) ∨ MeetsRefused first text ∨
      ∀ turns matched, scanItems caseSensitive subject turns first matched text = .ok none := by
  induction hlength : text.length using Nat.strong_induction_on generalizing first text with
  | _ length ih =>
    subst hlength
    cases text with
    | nil =>
      refine Or.inr (Or.inr fun turns matched => ?_)
      cases turns <;> rfl
    | cons low rest =>
      by_cases hclose : first = true ∨ (low :: rest).head? ≠ some closeClass
      · obtain hrefused | ⟨member, behind, hmember⟩ := refused_or_spelled low rest
        · exact Or.inr (Or.inl (.here hrefused))
        obtain ⟨members, after, hmembers⟩ | hrefused | hnone :=
          ih _ hmember.length_lt false behind rfl
        · exact Or.inl ⟨_, _, .member hclose hmember hmembers⟩
        · exact Or.inr (Or.inl (.later hclose hmember hrefused))
        · refine Or.inr (Or.inr fun turns matched => ?_)
          cases turns with
          | zero => rfl
          | succ turns =>
            rw [scanItems_member caseSensitive subject hclose hmember]
            exact hnone _ _
      · obtain ⟨hfirst, hhead⟩ := not_or.mp hclose
        obtain rfl : low = closeClass := Option.some.inj (not_not.mp hhead)
        obtain rfl : first = false := (Bool.not_eq_true first).mp hfirst
        exact Or.inl ⟨_, _, .close rest⟩

/-- A closed expression is read to behind the bracket that closes it. -/
theorem scanClass_of_members {rest behind : Bytes} {members : List Member}
    (h : Members true (negation rest).2 members behind) :
    scanClass caseSensitive subject rest =
      .ok (behind,
        members.any (Member.holds caseSensitive subject) != (negation rest).1) := by
  have hitems := h.scanItems caseSensitive subject (Nat.lt_succ_self _) false
  unfold negation at hitems
  unfold scanClass
  dsimp only at hitems ⊢
  rw [hitems]
  rfl

/-- An expression with a refused sub-expression is refused. -/
theorem scanClass_refused {rest : Bytes} (h : MeetsRefused true (negation rest).2) :
    ∃ error, scanClass caseSensitive subject rest = .error error := by
  obtain ⟨error, hitems⟩ := h.scanItems caseSensitive subject (Nat.lt_succ_self _) false
  refine ⟨error, ?_⟩
  unfold negation at hitems
  unfold scanClass
  dsimp only at hitems ⊢
  rw [hitems]
  rfl

/-- An expression that is never closed is an ordinary bracket. -/
theorem scanClass_unclosed {rest : Bytes}
    (hopen : ¬∃ members behind, Members true (negation rest).2 members behind)
    (hrefused : ¬MeetsRefused true (negation rest).2) :
    scanClass caseSensitive subject rest = .ok (rest, equal caseSensitive openClass subject) := by
  obtain hclosed | hmeets | hnone :=
    scanItems_cases caseSensitive subject true (negation rest).2
  · exact absurd hclosed hopen
  · exact absurd hmeets hrefused
  · have hitems := hnone ((negation rest).2.length + 1) false
    unfold negation at hitems
    unfold scanClass
    dsimp only at hitems ⊢
    rw [hitems]
    rfl

end Reading

/-! ## Reading components -/

/-- What stands behind a negation is no longer than its text. -/
theorem negation_length_le (text : Bytes) : (negation text).2.length ≤ text.length := by
  unfold negation
  dsimp only
  split <;> simp

/-- Every component spells elements. -/
theorem exists_spells (pattern : Bytes) : ∃ elements, Spells pattern elements := by
  induction hlength : pattern.length using Nat.strong_induction_on generalizing pattern with
  | _ length ih =>
    subst hlength
    cases pattern with
    | nil => exact ⟨[], .nil⟩
    | cons value rest =>
      obtain ⟨elements, hrest⟩ := ih _ (Nat.lt_succ_self rest.length) rest rfl
      by_cases hstar : value = star
      · subst hstar
        exact ⟨_, .run hrest⟩
      by_cases hquestion : value = question
      · subst hquestion
        exact ⟨_, .any hrest⟩
      by_cases hopen : value = openClass
      · subst hopen
        by_cases hrefused : MeetsRefused true (negation rest).2
        · exact ⟨_, .refused hrefused⟩
        by_cases hclosed : ∃ members behind, Members true (negation rest).2 members behind
        · obtain ⟨members, behind, hmembers⟩ := hclosed
          have hless := hmembers.length_lt
          have hnegation := negation_length_le rest
          obtain ⟨after, hafter⟩ := ih behind.length
            (by simp only [List.length_cons]; omega) behind rfl
          exact ⟨_, .oneOf hmembers hafter⟩
        · exact ⟨_, .unclosed hclosed hrefused hrest⟩
      by_cases hescape : value = escape ∧ rest ≠ []
      · obtain ⟨rfl, hne⟩ := hescape
        obtain ⟨next, behind, rfl⟩ := List.exists_cons_of_ne_nil hne
        obtain ⟨after, hafter⟩ := ih behind.length
          (by simp only [List.length_cons]; omega) behind rfl
        exact ⟨_, .escaped hafter⟩
      · exact ⟨_, .literal hstar hquestion hopen
          (fun heq => not_not.mp fun hne => hescape ⟨heq, hne⟩) hrest⟩

/-- A component spells no more elements than it has bytes. -/
theorem Spells.length_le {pattern : Bytes} {elements : List Element} (h : Spells pattern elements) :
    elements.length ≤ pattern.length := by
  induction h with
  | nil => exact le_rfl
  | run more ih => exact Nat.succ_le_succ ih
  | any more ih => exact Nat.succ_le_succ ih
  | @oneOf rest behind members elements hmembers more ih =>
    have hless := hmembers.length_lt
    have hnegation := negation_length_le rest
    simp only [List.length_cons]
    omega
  | refused h => simp
  | unclosed hopen hrefused more ih => exact Nat.succ_le_succ ih
  | escaped more ih =>
    simp only [List.length_cons]
    omega
  | literal hstar hquestion hopen hescape more ih => exact Nat.succ_le_succ ih

end Glob

end GantrySftp
