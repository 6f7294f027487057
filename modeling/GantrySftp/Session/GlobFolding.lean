import GantrySftp.Session.GlobSemantics

/-!
# Matching without regard to case

Without regard to case, a byte is folded, a range is tried as it stands and with both ends folded,
and a character class is tried for both cases. A range as it stands knows the case of a letter
where only one of its ends is in an alphabet: what it takes only so is taken in one case only,
unless another member of the expression makes up for it.
-/

namespace GantrySftp

open Library Library.Wildcards

namespace Glob

/-! ## Folding -/

/-- A byte is within its bounds as a number. -/
theorem within_iff (low high byte : UInt8) :
    within low high byte = true ↔ low.toNat ≤ byte.toNat ∧ byte.toNat ≤ high.toNat := by
  simp [within, UInt8.le_iff_toNat_le]

/-- What a byte is folded to, as a number. -/
theorem fold_toNat (byte : UInt8) : (fold byte).toNat =
    if 65 ≤ byte.toNat ∧ byte.toNat ≤ 90 then byte.toNat + 32 else byte.toNat := by
  have hwithin := within_iff 0x41 0x5A byte
  change _ ↔ 65 ≤ byte.toNat ∧ byte.toNat ≤ 90 at hwithin
  simp only [fold, hwithin]
  split_ifs with h
  · rw [UInt8.toNat_add]
    change (byte.toNat + 32) % 256 = _
    omega
  · rfl

/-- The other case of a byte, as a number. -/
theorem swapCase_toNat (byte : UInt8) : (swapCase byte).toNat =
    if 65 ≤ byte.toNat ∧ byte.toNat ≤ 90 then byte.toNat + 32
    else if 97 ≤ byte.toNat ∧ byte.toNat ≤ 122 then byte.toNat - 32 else byte.toNat := by
  have hupper := within_iff 0x41 0x5A byte
  have hlower := within_iff 0x61 0x7A byte
  change _ ↔ 65 ≤ byte.toNat ∧ byte.toNat ≤ 90 at hupper
  change _ ↔ 97 ≤ byte.toNat ∧ byte.toNat ≤ 122 at hlower
  simp only [swapCase, hupper, hlower]
  split_ifs with h h'
  · rw [UInt8.toNat_add]
    change (byte.toNat + 32) % 256 = _
    omega
  · have hle : (0x20 : UInt8) ≤ byte := UInt8.le_iff_toNat_le.mpr (show 32 ≤ byte.toNat by omega)
    rw [UInt8.toNat_sub_of_le _ _ hle]
    rfl
  · rfl

/-- Two bytes fold to one exactly when they are one or the two cases of a letter. -/
theorem fold_eq_iff (byte other : UInt8) :
    fold byte = fold other ↔ other = byte ∨ other = swapCase byte := by
  simp only [← UInt8.toNat_inj, fold_toNat, swapCase_toNat]
  split_ifs <;> omega

/-- A letter has one other case. -/
theorem swapCase_swapCase (byte : UInt8) : swapCase (swapCase byte) = byte := by
  simp only [← UInt8.toNat_inj, swapCase_toNat]
  split_ifs <;> omega

/-- The other case of a byte is folded to what the byte is. -/
theorem fold_swapCase (byte : UInt8) : fold (swapCase byte) = fold byte :=
  ((fold_eq_iff byte (swapCase byte)).mpr (Or.inr rfl)).symm

/-! ## Ranges -/

/-- A range takes the letter as it stands, and not its other case: of a capital, the range ends
behind the capitals and before its other case; of another letter, it begins in the capitals and
behind its other case. -/
def Splits (low high letter : UInt8) : Prop :=
  (within 0x41 0x5A letter = true ∧ low ≤ letter ∧ 0x5A < high ∧ high < fold letter) ∨
    (within 0x61 0x7A letter = true ∧ letter ≤ high ∧ low ≤ 0x5A ∧ letter < fold low)

/-- A range knows the case of exactly the letters that it splits. -/
theorem splits_iff (low high letter : UInt8) :
    Splits low high letter ↔ inRange false low high (some letter) = true ∧
      inRange false low high (some (swapCase letter)) = false := by
  rw [← Bool.not_eq_true]
  simp only [Splits, inRange, Bool.false_eq_true, if_false, Bool.or_eq_true, within_iff,
    fold_swapCase, fold_toNat, swapCase_toNat, UInt8.le_iff_toNat_le, UInt8.lt_iff_toNat_lt,
    show (0x41 : UInt8).toNat = 65 from rfl, show (0x5A : UInt8).toNat = 90 from rfl,
    show (0x61 : UInt8).toNat = 97 from rfl, show (0x7A : UInt8).toNat = 122 from rfl]
  split_ifs <;> omega

/-! ## Elements -/

/-- Each letter that a range of the expression takes in one case only is taken in the other case
by a member of it. -/
def Element.CaseBlind : Element → Prop
  | oneOf _ members => ∀ low high letter, Member.range low high ∈ members → Splits low high letter →
    ∃ member ∈ members, member.holds false (some (swapCase letter)) = true
  | run | any | literal _ | refused => True

/-- A member that is for a byte is for its other case, or a range that splits it. -/
theorem Member.holds_swapCase {member : Member} {byte : UInt8}
    (h : member.holds false (some byte) = true) :
    member.holds false (some (swapCase byte)) = true ∨
      ∃ low high, member = .range low high ∧ Splits low high byte := by
  cases member with
  | byte value =>
    refine Or.inl ?_
    simp only [holds, equal, Bool.false_eq_true, if_false, fold_swapCase] at h ⊢
    exact h
  | range low high =>
    by_cases hsplits : Splits low high byte
    · exact Or.inr ⟨low, high, rfl, hsplits⟩
    · rw [splits_iff] at hsplits
      exact Or.inl ((Bool.not_eq_false _).mp fun hmiss => hsplits ⟨h, hmiss⟩)
  | named members =>
    refine Or.inl ?_
    simp only [holds, inMembers, Bool.false_eq_true, if_false, swapCase_swapCase] at h ⊢
    exact Bool.or_comm _ _ ▸ h

/-- Where no letter is left in one case only, the members are for both cases of a byte. -/
theorem Element.CaseBlind.any_holds {negated : Bool} {members : List Member}
    (h : (oneOf negated members).CaseBlind) {byte : UInt8}
    (hany : members.any (Member.holds false (some byte)) = true) :
    members.any (Member.holds false (some (swapCase byte))) = true := by
  obtain ⟨member, hmem, hholds⟩ := List.any_eq_true.mp hany
  obtain hother | ⟨low, high, rfl, hsplits⟩ := Member.holds_swapCase hholds
  · exact List.any_eq_true.mpr ⟨member, hmem, hother⟩
  · exact List.any_eq_true.mpr (h low high byte hmem hsplits)

/-- An element takes both cases of every byte or neither exactly when it leaves no letter in one
case only. -/
theorem Element.caseBlind_iff (element : Element) :
    element.CaseBlind ↔ ∀ byte,
      accepts (Element.test false) element (swapCase byte) =
        accepts (Element.test false) element byte := by
  cases element with
  | run => exact iff_of_true trivial fun byte => rfl
  | any => exact iff_of_true trivial fun byte => rfl
  | refused => exact iff_of_true trivial fun byte => rfl
  | literal value =>
    refine iff_of_true trivial fun byte => ?_
    simp only [accepts, test, equal, Bool.false_eq_true, if_false, fold_swapCase]
  | oneOf negated members =>
    have haccepts : ∀ byte, accepts (Element.test false) (oneOf negated members) byte =
        (members.any (Member.holds false (some byte)) != negated) := by
      intro byte
      simp only [accepts, test]
    simp only [haccepts]
    apply Iff.intro
    · intro hblind byte
      congr 1
      apply Bool.eq_iff_iff.mpr
      refine ⟨fun hany => ?_, hblind.any_holds⟩
      exact swapCase_swapCase byte ▸ hblind.any_holds hany
    · intro hsame low high letter hmem hsplits
      apply List.any_eq_true.mp
      have hletter : members.any (Member.holds false (some letter)) = true :=
        List.any_eq_true.mpr ⟨_, hmem, ((splits_iff low high letter).mp hsplits).1⟩
      have heq := hsame letter
      rw [hletter] at heq
      cases negated <;> simp_all

/-- An element that takes the one case of a byte and not the other takes a letter. -/
theorem ne_dot_of_accepts {element : Element} {byte : UInt8}
    (h : accepts (Element.test false) element byte = true)
    (hother : accepts (Element.test false) element (swapCase byte) = false) :
    byte ≠ dot ∧ swapCase byte ≠ dot := by
  apply And.intro
  · rintro rfl
    cases h.symm.trans hother
  · intro hdot
    have hswap := congrArg swapCase hdot
    rw [swapCase_swapCase] at hswap
    obtain rfl : byte = dot := hswap
    cases h.symm.trans hother

/-! ## Names -/

/-- Names in which only the case of letters differs. -/
theorem map_fold_iff {name other : Bytes} : name.map fold = other.map fold ↔
    List.Forall₂ (fun byte byte' => byte' = byte ∨ byte' = swapCase byte) name other := by
  simp only [← List.forall₂_eq_eq_eq, List.forall₂_map_left_iff, List.forall₂_map_right_iff,
    fold_eq_iff]

/-- Some name can match: each element that takes one byte takes some, and the first, unless it
spells out a leading period, another one than a period. -/
def Matchable (pattern : Bytes) (elements : List Element) : Prop :=
  (∀ element ∈ ones Element.isRun elements,
      ∃ byte, accepts (Element.test false) element byte = true) ∧
    (matchesLeadingDot pattern = false → ∀ element ∈ elements.head?, element.isRun = false →
      ∃ byte ≠ dot, accepts (Element.test false) element byte = true)

section Names

variable {pattern : Bytes} {elements : List Element}

/-- Only a component that some name can match matches one. -/
theorem matchable_of_match {name : Bytes}
    (hcovers : Covers Element.isRun (accepts (Element.test false)) elements name)
    (hdot : name.head? = some dot → matchesLeadingDot pattern = true) :
    Matchable pattern elements := by
  apply And.intro
  · intro element hmem
    obtain ⟨byte, -, hfit⟩ := hcovers.exists_fit hmem
    exact ⟨byte, hfit⟩
  · intro hnot element hhead hone
    cases hcovers with
    | nil => cases hhead
    | skip hrun below =>
      obtain rfl := Option.some.inj hhead
      cases hone.symm.trans hrun
    | more hrun below =>
      obtain rfl := Option.some.inj hhead
      cases hone.symm.trans hrun
    | @one _ _ byte _ _ hfit below =>
      obtain rfl := Option.some.inj hhead
      refine ⟨byte, ?_, hfit⟩
      rintro rfl
      cases hnot.symm.trans (hdot rfl)

/-- Bytes for the elements in front of one, in front of which another may have to stand so that no
period comes first. -/
theorem exists_before (hmatchable : Matchable pattern elements) {front back : List Element}
    {element : Element} (hones : ones Element.isRun elements = front ++ element :: back) :
    ∃ lead before : Bytes,
      List.Forall₂ (fun element byte => accepts (Element.test false) element byte = true)
        front before ∧
      (∀ names, Covers Element.isRun (accepts (Element.test false)) elements
          (lead ++ (before ++ names)) ↔
        Covers Element.isRun (accepts (Element.test false)) elements (before ++ names)) ∧
      ∀ byte ≠ dot, ∀ names, (lead ++ (before ++ byte :: names)).head? = some dot →
        matchesLeadingDot pattern = true := by
  obtain ⟨hlive, hhead⟩ := hmatchable
  have hfront : ∀ other ∈ front, ∃ byte, accepts (Element.test false) other byte = true :=
    fun other hmem => hlive other (hones ▸ List.mem_append_left _ hmem)
  cases front with
  | nil =>
    exact ⟨[], [], .nil, fun names => Iff.rfl, fun byte hne names hdot =>
      absurd (Option.some.inj hdot) hne⟩
  | cons first front =>
    obtain ⟨after, hafter⟩ := exists_fits fun other hmem =>
      hfront other (List.mem_cons_of_mem _ hmem)
    by_cases hfree : matchesLeadingDot pattern = true ∨
        ∃ byte ≠ dot, accepts (Element.test false) first byte = true
    · obtain ⟨byte, hfit, hdot⟩ : ∃ byte, accepts (Element.test false) first byte = true ∧
          (byte = dot → matchesLeadingDot pattern = true) := by
        obtain hleading | ⟨byte, hne, hfit⟩ := hfree
        · obtain ⟨byte, hfit⟩ := hfront first List.mem_cons_self
          exact ⟨byte, hfit, fun _ => hleading⟩
        · exact ⟨byte, hfit, fun heq => absurd heq hne⟩
      exact ⟨[], byte :: after, .cons hfit hafter, fun names => Iff.rfl,
        fun _ _ names heq => hdot (Option.some.inj heq)⟩
    · -- the first byte is a period, and the component begins with a run that takes one in front
      obtain ⟨hleading, hnone⟩ := not_or.mp hfree
      have hmisses : ∀ byte ≠ dot, accepts (Element.test false) first byte = false :=
        fun byte hne => (Bool.not_eq_true _).mp fun hfit => hnone ⟨byte, hne, hfit⟩
      obtain ⟨byte, hfit⟩ := hfront first List.mem_cons_self
      have hdash : accepts (Element.test false) first dash = false := hmisses dash (by decide)
      refine ⟨[dash], byte :: after, .cons hfit hafter, fun names => ⟨fun h => ?_, fun h => ?_⟩,
        fun _ _ names heq => absurd (Option.some.inj heq) (by decide)⟩
      · apply h.tail
        rw [hones]
        rintro other hother
        obtain rfl := Option.some.inj hother
        exact hdash
      · cases elements with
        | nil => cases hones
        | cons start rest =>
          cases hrun : start.isRun with
          | true => exact .more hrun h
          | false =>
            rw [ones_one hrun] at hones
            obtain ⟨rfl, -⟩ := List.cons.inj hones
            exact absurd (hhead ((Bool.not_eq_true _).mp hleading) start rfl hrun) hnone

/-- Names in which only the case of letters differs are covered alike by elements that are for both
cases of every byte. -/
theorem covers_of_map_fold {name other : Bytes}
    (hblind : ∀ element ∈ ones Element.isRun elements, element.CaseBlind)
    (hnames : name.map fold = other.map fold)
    (h : Covers Element.isRun (accepts (Element.test false)) elements name) :
    Covers Element.isRun (accepts (Element.test false)) elements other := by
  apply h.congr
  refine (map_fold_iff.mp hnames).imp fun byte byte' hbyte element hmem => ?_
  have helement : element.CaseBlind := by
    cases hrun : element.isRun with
    | true =>
      cases element with
      | run => trivial
      | any | oneOf _ _ | literal _ | refused => cases hrun
    | false => exact hblind element (List.mem_filter.mpr ⟨hmem, by rw [hrun]; rfl⟩)
  obtain rfl | rfl := hbyte
  · rfl
  · exact ((element.caseBlind_iff).mp helement byte).symm

/-- A leading period has no case. -/
theorem head_dot_of_map_fold {name other : Bytes} (hnames : name.map fold = other.map fold)
    (h : name.head? = some dot) : other.head? = some dot := by
  cases map_fold_iff.mp hnames with
  | nil => exact h
  | cons hbyte _ =>
    obtain rfl := Option.some.inj h
    obtain rfl | rfl := hbyte <;> rfl

/-- Where an element tells the two cases of a byte apart, two names are told apart. -/
theorem exists_told_apart (hmatchable : Matchable pattern elements) {element : Element}
    (hmem : element ∈ ones Element.isRun elements) {byte : UInt8}
    (hfit : accepts (Element.test false) element byte = true)
    (hmiss : accepts (Element.test false) element (swapCase byte) = false) :
    ∃ name other : Bytes, name.map fold = other.map fold ∧
      (name.head? = some dot → matchesLeadingDot pattern = true) ∧
      Covers Element.isRun (accepts (Element.test false)) elements name ∧
      ¬Covers Element.isRun (accepts (Element.test false)) elements other := by
  obtain ⟨front, back, hones⟩ := List.append_of_mem hmem
  obtain ⟨lead, before, hbefore, hlead, hdot⟩ := exists_before hmatchable hones
  obtain ⟨after, hafter⟩ := exists_fits fun other hother =>
    hmatchable.1 other (hones ▸ List.mem_append_right _ (List.mem_cons_of_mem _ hother))
  obtain ⟨hcovers, hnot⟩ := covers_apart hones hfit hmiss hbefore hafter
  refine ⟨lead ++ (before ++ byte :: after), lead ++ (before ++ swapCase byte :: after), ?_,
    hdot byte (ne_dot_of_accepts hfit hmiss).1 after, (hlead _).mpr hcovers,
    fun h => hnot ((hlead _).mp h)⟩
  simp only [List.map_append, List.map_cons, fold_swapCase]

/-- A component that is accepted spells no refused element. -/
theorem Spells.refused_not_mem (h : Spells pattern elements) (haccepted : Accepted pattern) :
    Element.refused ∉ elements := by
  induction h with
  | nil => exact List.not_mem_nil
  | run more ih =>
    have hrest := ih (haccepted.tail (by decide) (by decide))
    simpa using hrest
  | any more ih =>
    have hrest := ih (haccepted.tail (by decide) (by decide))
    simpa using hrest
  | oneOf hmembers more ih =>
    obtain ⟨behind, hit, hscan, hbehind⟩ := haccepted.bracket
    rw [scanClass_of_members true none hmembers] at hscan
    obtain ⟨rfl, -⟩ := Prod.mk.inj (Except.ok.inj hscan)
    simpa using ih hbehind
  | refused hrefused =>
    obtain ⟨behind, hit, hscan, -⟩ := haccepted.bracket
    obtain ⟨error, herror⟩ := scanClass_refused true none hrefused
    cases herror.symm.trans hscan
  | unclosed hopen hrefused more ih =>
    obtain ⟨behind, hit, hscan, hbehind⟩ := haccepted.bracket
    rw [scanClass_unclosed true none hopen hrefused] at hscan
    obtain ⟨rfl, -⟩ := Prod.mk.inj (Except.ok.inj hscan)
    simpa using ih hbehind
  | escaped more ih => simpa using ih haccepted.escaped
  | @literal value rest elements hstar hquestion hopen hescape more ih =>
    have hrest : Accepted rest := by
      by_cases heq : value = escape
      · rw [hescape heq]
        exact accepted_nil
      · exact haccepted.tail heq hopen
    simpa using ih hrest

end Names

end Glob

open Glob

/-- Without regard to case, a component that is not refused matches names alike in which only the
case of letters differs, exactly when it matches none or each letter that a range takes in one
case only is taken in the other case by another member of the expression. -/
theorem matchComponent_folded_iff {pattern : Bytes} {elements : List Element}
    (hspells : Spells pattern elements) (hvalid : validatePattern pattern = .ok ()) :
    (∀ name other : Bytes, name.map Glob.fold = other.map Glob.fold →
        matchComponent false pattern name = matchComponent false pattern other) ↔
      (Matchable pattern elements →
        ∀ element ∈ ones Element.isRun elements, element.CaseBlind) := by
  have hrefused := hspells.refused_not_mem ⟨_, le_rfl, hvalid⟩
  apply Iff.intro
  · intro hsame hmatchable element hmem
    rw [element.caseBlind_iff]
    by_contra hnot
    obtain ⟨byte, hne⟩ := not_forall.mp hnot
    obtain ⟨letter, hfit, hmiss⟩ : ∃ letter,
        accepts (Element.test false) element letter = true ∧
          accepts (Element.test false) element (swapCase letter) = false := by
      cases hbyte : accepts (Element.test false) element byte with
      | true => exact ⟨byte, hbyte, (Bool.not_eq_true _).mp fun h => hne (h.trans hbyte.symm)⟩
      | false =>
        refine ⟨swapCase byte, ?_, (congrArg _ (swapCase_swapCase byte)).trans hbyte⟩
        exact (Bool.not_eq_false _).mp fun h => hne (h.trans hbyte.symm)
    obtain ⟨name, other, hnames, hdot, hcovers, hother⟩ := exists_told_apart hmatchable hmem hfit hmiss
    obtain ⟨matched, hmatched⟩ := exists_matchComponent hspells name hrefused
    obtain rfl : matched = true :=
      (matchComponent_covers hspells name hmatched).mpr ⟨hdot, hcovers⟩
    rw [hsame name other hnames] at hmatched
    exact hother ((matchComponent_covers hspells other hmatched).mp rfl).2
  · -- each name matches where the other does
    intro hblind name other hnames
    have himp : ∀ {name other : Bytes}, name.map Glob.fold = other.map Glob.fold →
        matchComponent false pattern name = .ok true →
        matchComponent false pattern other = .ok true := by
      intro name other hnames hmatched
      obtain ⟨hdot, hcovers⟩ := (matchComponent_covers hspells name hmatched).mp rfl
      obtain ⟨matched, hother⟩ := exists_matchComponent hspells other hrefused
      rw [hother, (matchComponent_covers hspells other hother).mpr ⟨fun hhead =>
          hdot (head_dot_of_map_fold hnames.symm hhead),
        covers_of_map_fold (hblind (matchable_of_match hcovers hdot)) hnames hcovers⟩]
    obtain ⟨matched, hname⟩ := exists_matchComponent hspells name hrefused
    obtain ⟨matched', hother⟩ := exists_matchComponent hspells other hrefused
    rw [hname, hother]
    congr 1
    apply Bool.eq_iff_iff.mpr
    apply Iff.intro
    · rintro rfl
      exact Except.ok.inj (hother.symm.trans (himp hnames hname))
    · rintro rfl
      exact Except.ok.inj (hname.symm.trans (himp hnames.symm hother))

/-- A range of capitals is accepted, and takes names alike in which only the case of letters
differs. -/
theorem matchComponent_folded_iff_capitals :
    validatePattern "[A-Z]*".toUTF8.toList = .ok () ∧
      ∀ name other : Bytes, name.map Glob.fold = other.map Glob.fold →
        matchComponent false "[A-Z]*".toUTF8.toList name =
          matchComponent false "[A-Z]*".toUTF8.toList other := by
  have htext : "[A-Z]*".toUTF8.toList = [openClass, 0x41, dash, 0x5A, closeClass, star] := by
    decide +kernel
  have hmember : Member.Spelled [0x41, dash, 0x5A, closeClass, star] (.range 0x41 0x5A)
      [closeClass, star] := .range ⟨rfl, by decide⟩ (by decide)
  have hmembers : Members true (negation [0x41, dash, 0x5A, closeClass, star]).2
      [.range 0x41 0x5A] [star] := by
    rw [show (negation _).2 = [0x41, dash, 0x5A, closeClass, star] by decide +kernel]
    exact .member (Or.inl rfl) hmember (.close _)
  have hspells : Spells "[A-Z]*".toUTF8.toList [.oneOf false [.range 0x41 0x5A], .run] := by
    rw [htext, show false = (negation [0x41, dash, 0x5A, closeClass, star]).1 by decide +kernel]
    exact .oneOf hmembers (.run .nil)
  refine ⟨by decide +kernel,
    (matchComponent_folded_iff hspells (by decide +kernel)).mpr fun _ element hmem => ?_⟩
  obtain rfl : element = .oneOf false [.range 0x41 0x5A] := List.mem_singleton.mp hmem
  intro low high letter hrange hsplits
  obtain ⟨rfl, rfl⟩ := Member.range.inj (List.mem_singleton.mp hrange)
  obtain ⟨-, -, hhigh, -⟩ | ⟨hletter, -, -, hlow⟩ := hsplits
  · exact absurd hhigh (by decide)
  · -- the fold of the first capital is the first small letter
    have hfold : Glob.fold 0x41 = (0x61 : UInt8) := by decide
    rw [hfold, UInt8.lt_iff_toNat_lt] at hlow
    exact absurd ((within_iff _ _ _).mp hletter).1 (Nat.not_le.mpr hlow)

/-- A range from a capital to a byte between the alphabets takes only capitals. -/
theorem matchComponent_knows_case :
    validatePattern "[A-_]".toUTF8.toList = .ok () ∧
      "B".toUTF8.toList.map Glob.fold = "b".toUTF8.toList.map Glob.fold ∧
      matchComponent false "[A-_]".toUTF8.toList "B".toUTF8.toList = .ok true ∧
      matchComponent false "[A-_]".toUTF8.toList "b".toUTF8.toList = .ok false := by
  decide +kernel

end GantrySftp
