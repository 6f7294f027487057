import GantrySftp.Library.JsonRoundTrip

/-!
# What a document spells

Reading any document, whoever wrote it, yields nothing that the writer could not write again: the
reader joins the halves of an escaped pair, so no string it reads holds a pair as two code points,
and it refuses integers with too many digits.
-/

namespace Library

/-! ## Strings -/

/-- A hexadecimal digit is worth less than sixteen. -/
private theorem hexValue_lt {point value : ℕ} (h : hexValue point = some value) : value < 16 := by
  unfold hexValue at h
  split_ifs at h <;> cases h <;> omega

/-- Four hexadecimal digits spell a code unit. -/
theorem readHexFour_spec {text rest : Text} {unit : ℕ} (h : readHexFour text = some (unit, rest)) :
    unit < 0x10000 ∧ rest <:+ text := by
  unfold readHexFour at h
  split at h
  · rename_i a b c d rest'
    simp only [Option.bind_eq_bind, Option.bind_eq_some_iff, Option.pure_def,
      Option.some.injEq, Prod.mk.injEq] at h
    obtain ⟨a', ha, b', hb, c', hc, d', hd, hunit, rfl⟩ := h
    have := hexValue_lt ha
    have := hexValue_lt hb
    have := hexValue_lt hc
    have := hexValue_lt hd
    exact ⟨by omega, [a, b, c, d], rfl⟩
  · cases h

/-- A low surrogate completes a pair where four hexadecimal digits spell it. -/
theorem readLowSurrogate_isSome {text rest : Text} {unit : ℕ}
    (h : readHexFour text = some (unit, rest)) (hlow : IsLowSurrogate unit) :
    (readLowSurrogate (0x5C :: 0x75 :: text)).isSome := by
  simpa [readLowSurrogate, h] using hlow

/-- What completes a pair is a low surrogate. -/
theorem readLowSurrogate_spec {text rest : Text} {unit : ℕ}
    (h : readLowSurrogate text = some (unit, rest)) : IsLowSurrogate unit ∧ rest <:+ text := by
  unfold readLowSurrogate at h
  split_ifs at h
  simp only [Option.bind_eq_bind, Option.bind_eq_some_iff] at h
  obtain ⟨⟨unit', rest'⟩, hread, h⟩ := h
  dsimp only at h
  split_ifs at h with hlow
  cases h
  exact ⟨hlow, (readHexFour_spec hread).2.trans (List.drop_suffix 2 text)⟩

/-- What an escape spells, in a text that goes on with another one or not: a code point that
exists; a high surrogate only where nothing completes it, a low one only from one code unit. -/
structure Escaped (text : Text) (point : ℕ) (rest : Text) : Prop where
  lt : point < 0x110000
  high : IsHighSurrogate point → readLowSurrogate rest = none
  low : IsLowSurrogate point → (readLowSurrogate (0x5C :: text)).isSome
  suffix : rest <:+ text

/-- One or two code units spell a code point. -/
theorem readUnits_spec {text rest : Text} {point : ℕ} (h : readUnits text = some (point, rest)) :
    Escaped (0x75 :: text) point rest := by
  unfold readUnits at h
  simp only [Option.bind_eq_bind, Option.bind_eq_some_iff] at h
  obtain ⟨⟨unit, after⟩, hread, h⟩ := h
  obtain ⟨hunit, hafter⟩ := readHexFour_spec hread
  have hbehind : after <:+ 0x75 :: text := hafter.trans (List.suffix_cons _ _)
  dsimp only at h
  split_ifs at h with hhigh
  · cases hlow : readLowSurrogate after with
    | none =>
      rw [hlow] at h
      cases h
      exact ⟨by omega, fun _ => hlow, fun hpoint => by omega, hbehind⟩
    | some read =>
      obtain ⟨low, last⟩ := read
      obtain ⟨hlowUnit, hlast⟩ := readLowSurrogate_spec hlow
      rw [hlow] at h
      obtain ⟨rfl, rfl⟩ := Prod.mk.inj (Option.some.inj h)
      exact ⟨by omega, fun hpoint => by omega, fun hpoint => by omega, hlast.trans hbehind⟩
  · cases h
    exact ⟨by omega, fun hpoint => absurd hpoint hhigh,
      fun hpoint => readLowSurrogate_isSome hread hpoint, hbehind⟩

/-- The letter of an escape spells an ASCII character. -/
private theorem letterPoint_lt {letter point : ℕ} (h : letterPoint letter = some point) :
    point < 0x80 := by
  unfold letterPoint at h
  split_ifs at h <;> cases h <;> omega

/-- An escape spells a code point. -/
theorem readEscape_spec {text rest : Text} {point : ℕ} (h : readEscape text = some (point, rest)) :
    Escaped text point rest := by
  cases text with
  | nil => cases h
  | cons letter text =>
    rw [readEscape] at h
    cases hletter : letterPoint letter with
    | some found =>
      rw [hletter] at h
      cases h
      have := letterPoint_lt hletter
      exact ⟨by omega, fun hpoint => by omega, fun hpoint => by omega, List.suffix_cons _ _⟩
    | none =>
      rw [hletter] at h
      dsimp only at h
      split_ifs at h with hu
      subst hu
      exact readUnits_spec h

/-- What a string read from a text without surrogates is. It begins with a low surrogate only
where the text completes a pair. -/
structure StringRead (text value rest : Text) : Prop where
  spellable : Spellable value
  low : readLowSurrogate text = none → ∀ next ∈ value.head?, ¬ IsLowSurrogate next
  suffix : rest <:+ text

/-- A string read from a text without surrogates is spellable. -/
theorem readString_spec {turns : ℕ} {text value rest : Text} (htext : ScalarText text)
    (h : readString turns text = some (value, rest)) : StringRead text value rest := by
  induction turns generalizing text value with
  | zero => cases h
  | succ turns ih =>
    cases text with
    | nil => cases h
    | cons point text =>
      have hcons : text <:+ point :: text := List.suffix_cons _ _
      unfold readString at h
      split_ifs at h with hquote hescape hcontrol
      · cases h
        exact ⟨trivial, fun _ _ hmem => (by cases hmem), hcons⟩
      · simp only [Option.bind_eq_bind, Option.bind_eq_some_iff] at h
        obtain ⟨⟨escaped, after⟩, hread, ⟨others, last⟩, hothers, h⟩ := h
        cases h
        have hpoint := readEscape_spec hread
        have hafter := hpoint.suffix.trans hcons
        have hrest := ih (htext.suffix hafter) hothers
        refine ⟨⟨hpoint.lt, fun hhigh => hrest.low (hpoint.high hhigh), hrest.spellable⟩, ?_,
          hrest.suffix.trans hafter⟩
        intro hnone next hmem hlow
        obtain rfl := Option.some.inj hmem
        have hsome := hpoint.low hlow
        rw [← hescape, hnone] at hsome
        cases hsome
      · simp only [Option.bind_eq_bind, Option.bind_eq_some_iff] at h
        obtain ⟨⟨others, last⟩, hothers, h⟩ := h
        cases h
        obtain ⟨hlt, hnot⟩ := htext point List.mem_cons_self
        have hrest := ih (htext.suffix hcons) hothers
        refine ⟨⟨hlt, fun hhigh => by omega, hrest.spellable⟩, ?_, hrest.suffix.trans hcons⟩
        intro _ next hmem hlow
        obtain rfl := Option.some.inj hmem
        omega

/-! ## Numbers -/

/-- Digits are worth less than the power of ten of their count. -/
theorem digitsValue_lt {digits : Text} (h : ∀ digit ∈ digits, isDigit digit = true) :
    digitsValue digits < 10 ^ digits.length := by
  suffices hfold : ∀ value, digits.foldl (fun value digit => value * 10 + (digit - 0x30)) value <
      (value + 1) * 10 ^ digits.length by
    simpa [digitsValue] using hfold 0
  induction digits with
  | nil => intro value; simp
  | cons digit digits ih =>
    intro value
    have hdigit := h digit List.mem_cons_self
    simp only [isDigit, Bool.and_eq_true, decide_eq_true_eq] at hdigit
    have hrest := ih (fun other hmem => h other (List.mem_cons_of_mem _ hmem))
      (value * 10 + (digit - 0x30))
    have hmul : (value * 10 + (digit - 0x30) + 1) * 10 ^ digits.length ≤
        (value * 10 + 10) * 10 ^ digits.length :=
      Nat.mul_le_mul_right _ (by omega)
    have hpower : (value + 1) * 10 ^ (digit :: digits).length =
        (value * 10 + 10) * 10 ^ digits.length := by
      rw [List.length_cons, pow_succ]
      ring
    rw [List.foldl_cons, hpower]
    exact hrest.trans_le hmul

/-- What digits are spanned, and what is left behind them. -/
theorem spanDigits_spec (text : Text) :
    (∀ digit ∈ (spanDigits text).1, isDigit digit = true) ∧ (spanDigits text).2 <:+ text := by
  induction text with
  | nil => exact ⟨fun _ hmem => absurd hmem List.not_mem_nil, List.suffix_rfl⟩
  | cons point rest ih =>
    unfold spanDigits
    split_ifs with hpoint
    · refine ⟨fun digit hmem => ?_, ih.2.trans (List.suffix_cons _ _)⟩
      obtain rfl | hmem := List.mem_cons.mp hmem
      · exact hpoint
      · exact ih.1 digit hmem
    · exact ⟨fun _ hmem => absurd hmem List.not_mem_nil, List.suffix_rfl⟩

/-- The integer digits of a number are digits. -/
theorem readIntDigits_spec (text : Text) :
    (∀ digit ∈ (readIntDigits text).1, isDigit digit = true) ∧
      (readIntDigits text).2 <:+ text := by
  unfold readIntDigits
  split_ifs
  · refine ⟨fun digit hmem => ?_, List.tail_suffix text⟩
    obtain rfl := List.mem_singleton.mp hmem
    rfl
  · exact spanDigits_spec text

/-- A fraction is at the front of a text. -/
theorem readFraction_suffix (text : Text) : (readFraction text).2 <:+ text := by
  unfold readFraction
  dsimp only
  split_ifs
  · exact (spanDigits_spec _).2.trans (List.tail_suffix text)
  · exact List.suffix_rfl

/-- An exponent is at the front of a text. -/
theorem readExponent_suffix (text : Text) : (readExponent text).2 <:+ text := by
  cases text with
  | nil => exact List.suffix_rfl
  | cons mark rest =>
    simp only [readExponent]
    have hcons : rest <:+ mark :: rest := List.suffix_cons _ _
    -- The digits follow the mark, or a sign behind it.
    split_ifs
    all_goals first
      | exact List.suffix_rfl
      | exact (spanDigits_spec _).2.trans hcons
      | exact ((spanDigits_spec _).2.trans (List.tail_suffix rest)).trans hcons

/-! ## Values -/

/-- A value that the writer can write again, if it is one that it writes. -/
def JsonValue.Fits : JsonValue → Prop
  | int value => value.natAbs < 10 ^ maxIntDigits
  | string value => Spellable value
  | _ => True

/-- A value read at the front of a text, whose members, if any, can be written again. -/
structure ValueRead (text : Text) (value : JsonValue) (rest : Text) : Prop where
  fits : value.Fits
  members : ∀ fields, value = .object fields → ∀ member ∈ fields, member.2.Fits
  suffix : rest <:+ text

/-- A number has few enough digits to be written again. -/
theorem readNumber_spec {text rest : Text} {value : JsonValue}
    (h : readNumber text = .ok (value, rest)) : ValueRead text value rest := by
  unfold readNumber at h
  dsimp only at h
  generalize hunsigned : (if text.head? = some 0x2D then text.tail else text) = unsigned at h
  obtain ⟨hdigits, hbehind⟩ := readIntDigits_spec unsigned
  have hsigned : unsigned <:+ text := by
    rw [← hunsigned]
    split_ifs
    · exact List.tail_suffix text
    · exact List.suffix_rfl
  have hrest : (readExponent (readFraction (readIntDigits unsigned).2).2).2 <:+ text :=
    (((readExponent_suffix _).trans (readFraction_suffix _)).trans hbehind).trans hsigned
  have hsign : (if text.head? = some 0x2D then (-1 : ℤ) else 1).natAbs = 1 := by
    split_ifs <;> rfl
  generalize (if text.head? = some 0x2D then (-1 : ℤ) else 1) = sign at h hsign
  split_ifs at h with hnone hinteger hmany
  · cases h
    have hvalue := digitsValue_lt hdigits
    have hpower : 10 ^ (readIntDigits unsigned).1.length ≤ 10 ^ maxIntDigits :=
      Nat.pow_le_pow_right (by decide) (not_lt.mp hmany)
    have hnumber : (sign * digitsValue (readIntDigits unsigned).1).natAbs < 10 ^ maxIntDigits := by
      rw [Int.natAbs_mul, hsign, one_mul, Int.natAbs_natCast]
      exact hvalue.trans_le hpower
    exact ⟨hnumber, fun _ heq => (by cases heq), hrest⟩
  · cases h
    exact ⟨trivial, fun _ heq => (by cases heq), hrest⟩

/-- White space is at the front of a text. -/
theorem skipSpace_suffix (text : Text) : skipSpace text <:+ text := by
  induction text with
  | nil => exact List.suffix_rfl
  | cons point rest ih =>
    unfold skipSpace
    split_ifs
    · exact ih.trans (List.suffix_cons _ _)
    · exact List.suffix_rfl

/-- A literal word is no integer, string or object. -/
theorem readWord_spec {word text rest : Text} {value found : JsonValue}
    (h : readWord word found text = .ok (value, rest)) (hfits : found.Fits)
    (hfound : ∀ fields, found ≠ .object fields) : ValueRead text value rest := by
  unfold readWord at h
  split_ifs at h
  cases h
  exact ⟨hfits, fun fields heq => absurd heq (hfound fields), List.drop_suffix _ _⟩

/-- With so many turns, values, members and elements are read as they can be written again. -/
structure ReadsWell (turns : ℕ) : Prop where
  value : ∀ {text rest : Text} {value : JsonValue}, ScalarText text →
    readValue turns text = .ok (value, rest) → ValueRead text value rest
  members : ∀ {members : List (Text × JsonValue)} {text rest : Text} {value : JsonValue},
    ScalarText text → (∀ member ∈ members, member.2.Fits) →
      readMembers turns members text = .ok (value, rest) → ValueRead text value rest
  elements : ∀ {values : List JsonValue} {text rest : Text} {value : JsonValue},
    ScalarText text → readElements turns values text = .ok (value, rest) →
      ValueRead text value rest

namespace ReadsWell

variable {turns : ℕ}

/-- A value, when its members and elements are read well. -/
theorem value_succ (h : ReadsWell turns) {text rest : Text} {value : JsonValue}
    (htext : ScalarText text) (hread : readValue (turns + 1) text = .ok (value, rest)) :
    ValueRead text value rest := by
  cases text with
  | nil => cases hread
  | cons point text =>
    have hcons : text <:+ point :: text := List.suffix_cons _ _
    have hspace : skipSpace text <:+ point :: text := (skipSpace_suffix text).trans hcons
    unfold readValue at hread
    split_ifs at hread
    · cases hstring : readString (text.length + 1) text with
      | none =>
        rw [hstring] at hread
        cases hread
      | some read =>
        rw [hstring] at hread
        cases hread
        have hspec := readString_spec (htext.suffix hcons) hstring
        exact ⟨hspec.spellable, fun _ heq => (by cases heq), hspec.suffix.trans hcons⟩
    · cases hread
      refine ⟨trivial, fun fields heq => ?_, (List.tail_suffix _).trans hspace⟩
      cases heq
      exact fun _ hmem => absurd hmem List.not_mem_nil
    · have hspec := h.members (htext.suffix hspace) (fun _ hmem => absurd hmem List.not_mem_nil)
        hread
      exact ⟨hspec.fits, hspec.members, hspec.suffix.trans hspace⟩
    · cases hread
      exact ⟨trivial, fun _ heq => (by cases heq), (List.tail_suffix _).trans hspace⟩
    · have hspec := h.elements (htext.suffix hspace) hread
      exact ⟨hspec.fits, hspec.members, hspec.suffix.trans hspace⟩
    all_goals first
      | exact readNumber_spec hread
      | exact readWord_spec hread trivial fun _ heq => (by cases heq)

/-- The next member, and those after it. -/
theorem members_succ (h : ReadsWell turns) {members : List (Text × JsonValue)}
    {text rest : Text} {value : JsonValue} (htext : ScalarText text)
    (hmembers : ∀ member ∈ members, member.2.Fits)
    (hread : readMembers (turns + 1) members text = .ok (value, rest)) :
    ValueRead text value rest := by
  unfold readMembers at hread
  split_ifs at hread with hquote
  cases hkey : readString text.length text.tail with
  | none =>
    rw [hkey] at hread
    cases hread
  | some read =>
    obtain ⟨key, afterKey⟩ := read
    have hafterKey : afterKey <:+ text :=
      (readString_spec (htext.suffix (List.tail_suffix text)) hkey).suffix.trans
        (List.tail_suffix text)
    rw [hkey] at hread
    dsimp only at hread
    split_ifs at hread with hcolon
    have hnext : skipSpace (skipSpace afterKey).tail <:+ text :=
      (((skipSpace_suffix _).trans (List.tail_suffix _)).trans (skipSpace_suffix _)).trans hafterKey
    cases hvalue : readValue turns (skipSpace (skipSpace afterKey).tail) with
    | error error =>
      rw [hvalue] at hread
      cases hread
    | ok read =>
      obtain ⟨found, afterValue⟩ := read
      have hfound := h.value (htext.suffix hnext) hvalue
      have hset : ∀ member ∈ setEntry key found members, member.2.Fits := by
        intro member hmem
        obtain rfl | hmem := mem_setEntry hmem
        · exact hfound.fits
        · exact hmembers member hmem
      have hspace : skipSpace afterValue <:+ text :=
        ((skipSpace_suffix _).trans hfound.suffix).trans hnext
      rw [hvalue] at hread
      simp only [Bind.bind, Except.bind] at hread
      split_ifs at hread
      · cases hread
        refine ⟨trivial, fun fields heq => ?_, (List.tail_suffix _).trans hspace⟩
        cases heq
        exact hset
      · have hmore : skipSpace (skipSpace afterValue).tail <:+ text :=
          ((skipSpace_suffix _).trans (List.tail_suffix _)).trans hspace
        have hspec := h.members (htext.suffix hmore) hset hread
        exact ⟨hspec.fits, hspec.members, hspec.suffix.trans hmore⟩

/-- The next element, and those after it. -/
theorem elements_succ (h : ReadsWell turns) {values : List JsonValue} {text rest : Text}
    {value : JsonValue} (htext : ScalarText text)
    (hread : readElements (turns + 1) values text = .ok (value, rest)) :
    ValueRead text value rest := by
  unfold readElements at hread
  cases hvalue : readValue turns text with
  | error error =>
    rw [hvalue] at hread
    cases hread
  | ok read =>
    obtain ⟨found, afterValue⟩ := read
    have hspace : skipSpace afterValue <:+ text :=
      (skipSpace_suffix _).trans (h.value htext hvalue).suffix
    rw [hvalue] at hread
    simp only [Bind.bind, Except.bind] at hread
    split_ifs at hread
    · cases hread
      exact ⟨trivial, fun _ heq => (by cases heq), (List.tail_suffix _).trans hspace⟩
    · have hmore : skipSpace (skipSpace afterValue).tail <:+ text :=
        ((skipSpace_suffix _).trans (List.tail_suffix _)).trans hspace
      have hspec := h.elements (htext.suffix hmore) hread
      exact ⟨hspec.fits, hspec.members, hspec.suffix.trans hmore⟩

end ReadsWell

/-- Values, members and elements are read as they can be written again. -/
theorem readsWell (turns : ℕ) : ReadsWell turns := by
  induction turns with
  | zero =>
    constructor
    · intro text rest value _ hread
      cases text <;> cases hread
    · intro members text rest value _ _ hread
      cases hread
    · intro values text rest value _ hread
      cases hread
  | succ turns ih => exact ⟨ih.value_succ, ih.members_succ, ih.elements_succ⟩

/-- The members of an object in a document without surrogates can be written again. -/
theorem fits_of_loads {text : Text} {fields : List (Text × JsonValue)} (htext : ScalarText text)
    (h : loads text = .ok (.object fields)) : ∀ member ∈ fields, member.2.Fits := by
  unfold loads at h
  split_ifs at h
  cases hread : readValue (text.length + 1) (skipSpace text) with
  | error error =>
    rw [hread] at h
    cases h
  | ok read =>
    obtain ⟨value, rest⟩ := read
    rw [hread] at h
    simp only [Bind.bind, Except.bind] at h
    split_ifs at h
    cases h
    exact ((readsWell _).value (htext.suffix (skipSpace_suffix text)) hread).members fields rfl

end Library
