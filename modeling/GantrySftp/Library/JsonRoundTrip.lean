import GantrySftp.Library.Json

/-!
# Reading back a written document

The reader takes one turn for each code point of a written string, joins the two halves of an
escaped pair, and stops a number at the comma or brace after it. An object of integers and
spellable strings is read back member by member.
-/

namespace Library

/-- A text whose code points exist and which spells no pair as two code points. -/
def Spellable : Text → Prop
  | [] => True
  | point :: rest =>
    point < 0x110000 ∧ (IsHighSurrogate point → ∀ next ∈ rest.head?, ¬ IsLowSurrogate next) ∧
      Spellable rest

/-- A text without high surrogates is spellable. -/
theorem spellable_of_forall {text : Text}
    (h : ∀ point ∈ text, point < 0x110000 ∧ ¬ IsHighSurrogate point) : Spellable text := by
  induction text with
  | nil => trivial
  | cons point rest ih =>
    obtain ⟨hlt, hhigh⟩ := h point List.mem_cons_self
    exact ⟨hlt, fun hpoint => absurd hpoint hhigh,
      ih fun other hmem => h other (List.mem_cons_of_mem _ hmem)⟩

/-! ## Strings -/

/-- A hexadecimal digit is read back. -/
private theorem hexValue_hexDigit : ∀ n < 16, hexValue (hexDigit n) = some n := by decide

/-- The four digits of a code unit are read back. -/
private theorem readHexFour_hexFour {unit : ℕ} (hunit : unit < 0x10000) (rest : Text) :
    readHexFour (hexFour unit ++ rest) = some (unit, rest) := by
  have hvalue : unit / 0x1000 % 16 * 0x1000 + unit / 0x100 % 16 * 0x100 +
      unit / 0x10 % 16 * 0x10 + unit % 16 = unit := by omega
  simp [hexFour, readHexFour, hexValue_hexDigit _ (Nat.mod_lt _ (by decide)), hvalue]

/-- A code unit spelled by an escape completes a pair exactly when it is a low surrogate. -/
theorem readLowSurrogate_unit {unit : ℕ} (hunit : unit < 0x10000) (rest : Text) :
    readLowSurrogate (0x5C :: 0x75 :: (hexFour unit ++ rest)) =
      if IsLowSurrogate unit then some (unit, rest) else none := by
  simp [readLowSurrogate, readHexFour_hexFour hunit]

/-- The letter of an escape is not the one that announces code units. -/
private theorem escapeLetter_ne {point letter : ℕ} (h : escapeLetter point = some letter) :
    letter ≠ 0x75 ∧ letterPoint letter = some point := by
  unfold escapeLetter at h
  split_ifs at h with h1 h2 h3 h4 h5 h6 h7 <;> cases h <;> subst_vars <;> decide

/-- Code points written as themselves are neither quotes, backslashes nor controls. -/
private theorem escapeLetter_none {point : ℕ} (h : escapeLetter point = none) :
    point ≠ 0x22 ∧ point ≠ 0x5C := by
  unfold escapeLetter at h
  split_ifs at h with h1 h2
  exact ⟨h1, h2⟩

/-- The spelling of a code point that is not a low surrogate does not complete a pair. -/
theorem readLowSurrogate_escapePoint {point : ℕ} (hpoint : point < 0x110000)
    (hlow : ¬ IsLowSurrogate point) (rest : Text) :
    readLowSurrogate (escapePoint point ++ rest) = none := by
  unfold escapePoint
  cases hletter : escapeLetter point with
  | some letter =>
    have hne := (escapeLetter_ne hletter).1
    rw [readLowSurrogate, if_neg]
    simpa using hne
  | none =>
    have hne := (escapeLetter_none hletter).2
    by_cases hprintable : 0x20 ≤ point ∧ point ≤ 0x7E
    · simp only [hprintable, and_self, if_true]
      rw [readLowSurrogate, if_neg]
      cases rest <;> simp [hne]
    by_cases hshort : point < 0x10000
    · simp only [hprintable, hshort, if_false, if_true]
      exact (readLowSurrogate_unit hshort rest).trans (if_neg hlow)
    · have hunit : 0xD800 + (point - 0x10000) / 0x400 < 0x10000 := by omega
      have hhigh : ¬ IsLowSurrogate (0xD800 + (point - 0x10000) / 0x400) := by omega
      simp only [hprintable, hshort, if_false, List.cons_append, List.append_assoc]
      exact (readLowSurrogate_unit hunit _).trans (if_neg hhigh)

/-- Code units that spell a code point are read back as it, unless what follows completes a
pair that was not written as one. -/
theorem readUnits_hexFour {point : ℕ} (hshort : point < 0x10000) {rest : Text}
    (hpair : IsHighSurrogate point → readLowSurrogate rest = none) :
    readUnits (hexFour point ++ rest) = some (point, rest) := by
  by_cases hhigh : IsHighSurrogate point
  · simp [readUnits, readHexFour_hexFour hshort, hpair hhigh]
  · simp [readUnits, readHexFour_hexFour hshort, hhigh]

/-- The two code units of a pair are joined. -/
private theorem readUnits_pair {high low : ℕ} (hhigh : IsHighSurrogate high)
    (hlow : IsLowSurrogate low) (rest : Text) :
    readUnits (hexFour high ++ 0x5C :: 0x75 :: (hexFour low ++ rest)) =
      some (0x10000 + (high - 0xD800) * 0x400 + (low - 0xDC00), rest) := by
  have hunit : high < 0x10000 := by omega
  have hunit' : low < 0x10000 := by omega
  have hread := readLowSurrogate_unit hunit' rest
  rw [if_pos hlow] at hread
  simp only [readUnits, readHexFour_hexFour hunit, Option.bind_eq_bind, Option.bind_some,
    if_pos hhigh, hread]

/-- The two code units of a code point outside the basic plane are read back as it. -/
private theorem readUnits_long {point : ℕ} (hlong : ¬ point < 0x10000) (hpoint : point < 0x110000)
    (rest : Text) :
    readUnits (hexFour (0xD800 + (point - 0x10000) / 0x400) ++
      0x5C :: 0x75 :: (hexFour (0xDC00 + (point - 0x10000) % 0x400) ++ rest)) =
        some (point, rest) := by
  have hvalue : 0x10000 + (0xD800 + (point - 0x10000) / 0x400 - 0xD800) * 0x400 +
      (0xDC00 + (point - 0x10000) % 0x400 - 0xDC00) = point := by omega
  rw [readUnits_pair (by omega) (by omega), hvalue]

/-- One turn reads one code point back from its spelling. -/
theorem readString_escapePoint {point : ℕ} (hpoint : point < 0x110000) {rest : Text}
    (hpair : IsHighSurrogate point → readLowSurrogate rest = none) (turns : ℕ) :
    readString (turns + 1) (escapePoint point ++ rest) =
      (readString turns rest).map fun result => (point :: result.1, result.2) := by
  unfold escapePoint
  cases hletter : escapeLetter point with
  | some letter =>
    simp [readString, readEscape, (escapeLetter_ne hletter).2, Option.map_eq_bind]
  | none =>
    obtain ⟨hquote, hbackslash⟩ := escapeLetter_none hletter
    have hletterPoint : letterPoint 0x75 = none := rfl
    by_cases hprintable : 0x20 ≤ point ∧ point ≤ 0x7E
    · have hcontrol : ¬ point < 0x20 := by omega
      simp [hprintable, readString, hquote, hbackslash, hcontrol, Option.map_eq_bind]
    by_cases hshort : point < 0x10000
    · simp [hprintable, hshort, readString, readEscape, hletterPoint,
        readUnits_hexFour hshort hpair, Option.map_eq_bind]
    · simp [hprintable, hshort, readString, readEscape, hletterPoint,
        readUnits_long hshort hpoint, Option.map_eq_bind]

/-- A spellable string is read back up to its closing quote. -/
theorem readString_dumps {text : Text} (htext : Spellable text) (rest : Text) {turns : ℕ}
    (hturns : text.length < turns) :
    readString turns (text.flatMap escapePoint ++ 0x22 :: rest) = some (text, rest) := by
  induction text generalizing turns with
  | nil =>
    obtain ⟨turns, rfl⟩ : ∃ n, turns = n + 1 := ⟨turns - 1, by simp at hturns; omega⟩
    simp [readString]
  | cons point text ih =>
    obtain ⟨hpoint, hpair, hrest⟩ := htext
    obtain ⟨turns, rfl⟩ : ∃ n, turns = n + 1 := ⟨turns - 1, by simp at hturns; omega⟩
    have hnext : IsHighSurrogate point →
        readLowSurrogate (text.flatMap escapePoint ++ 0x22 :: rest) = none := by
      intro hhigh
      cases text with
      | nil => rw [readLowSurrogate, if_neg (by cases rest <;> simp)]
      | cons next text =>
        rw [List.flatMap_cons, List.append_assoc]
        exact readLowSurrogate_escapePoint hrest.1 (hpair hhigh next rfl) _
    rw [List.flatMap_cons, List.append_assoc, readString_escapePoint hpoint hnext,
      ih hrest (by simpa using hturns)]
    rfl

/-! ## Integers -/

/-- A text that does not go on with a digit, a fraction or an exponent. -/
def EndsNumber (text : Text) : Prop :=
  ∀ point ∈ text.head?, isDigit point = false ∧ point ≠ 0x2E ∧ point ≠ 0x65 ∧ point ≠ 0x45

/-- What the digits written for a natural are. -/
structure DecimalOf (n : ℕ) (digits : Text) : Prop where
  isDigit : ∀ digit ∈ digits, isDigit digit = true
  value : digitsValue digits = n
  ne_nil : digits ≠ []
  zero : digits.head? = some 0x30 → digits = [0x30]
  length : ∀ width, 1 ≤ width → n < 10 ^ width → digits.length ≤ width

/-- A digit is a decimal of its value. -/
private theorem decimalOf_digit {n : ℕ} (hn : n < 10) : DecimalOf n [0x30 + n] where
  isDigit := by
    intro digit hmem
    rw [List.mem_singleton] at hmem
    subst hmem
    simp [isDigit]
    omega
  value := by simp [digitsValue]
  ne_nil := List.cons_ne_nil _ _
  zero := by simp
  length := by
    intro width hwidth _
    simpa using hwidth

/-- One more digit makes a decimal of a larger number. -/
private theorem decimalOf_append {n : ℕ} {digits : Text} (hn : 10 ≤ n)
    (h : DecimalOf (n / 10) digits) : DecimalOf n (digits ++ [0x30 + n % 10]) where
  isDigit := by
    intro digit hmem
    rw [List.mem_append, List.mem_singleton] at hmem
    obtain hmem | rfl := hmem
    · exact h.isDigit digit hmem
    · have := Nat.mod_lt n (by decide : 10 > 0)
      simp [isDigit]
      omega
  value := by
    have hvalue := h.value
    rw [digitsValue] at hvalue
    rw [digitsValue, List.foldl_append, hvalue, List.foldl_cons, List.foldl_nil]
    omega
  ne_nil := by simp
  zero := by
    intro hzero
    obtain ⟨first, rest, rfl⟩ := List.exists_cons_of_ne_nil h.ne_nil
    have hfirst : first = 0x30 := by simpa using hzero
    subst hfirst
    have hdigits := h.zero rfl
    have hvalue := h.value
    rw [hdigits] at hvalue
    simp [digitsValue] at hvalue
    omega
  length := by
    intro width hwidth hlt
    obtain ⟨width, rfl⟩ : ∃ w, width = w + 1 := ⟨width - 1, by omega⟩
    have hdiv : n / 10 < 10 ^ width := by
      rw [Nat.div_lt_iff_lt_mul (by decide)]
      rwa [pow_succ] at hlt
    have hpositive : 1 ≤ width := by
      by_contra hcontra
      have : width = 0 := by omega
      subst this
      omega
    have := h.length width hpositive hdiv
    rw [List.length_append, List.length_singleton]
    omega

/-- With turns enough, the digits written for a natural are a decimal of it. -/
private theorem decimalFrom_eq (turns n : ℕ) (written : Text) (hturns : n < turns) :
    ∃ digits, decimalFrom turns n written = digits ++ written ∧ DecimalOf n digits := by
  induction turns generalizing n written with
  | zero => omega
  | succ turns ih =>
    unfold decimalFrom
    by_cases hn : n < 10
    · exact ⟨[0x30 + n], by simp [hn], decimalOf_digit hn⟩
    · obtain ⟨digits, hdigits, hdecimal⟩ := ih (n / 10) ((0x30 + n % 10) :: written) (by omega)
      refine ⟨digits ++ [0x30 + n % 10], ?_, decimalOf_append (by omega) hdecimal⟩
      simp [hn, hdigits]

/-- The digits written for a natural are a decimal of it. -/
theorem decimalOf_decimal (n : ℕ) : DecimalOf n (decimal n) := by
  obtain ⟨digits, hdigits, hdecimal⟩ := decimalFrom_eq (n + 1) n [] (Nat.lt_succ_self n)
  rw [decimal, hdigits, List.append_nil]
  exact hdecimal

/-- Digits are taken up to the first code point that is not one. -/
private theorem spanDigits_append {digits rest : Text} (hdigits : ∀ digit ∈ digits, isDigit digit = true)
    (hrest : ∀ point ∈ rest.head?, isDigit point = false) :
    spanDigits (digits ++ rest) = (digits, rest) := by
  induction digits with
  | nil =>
    cases rest with
    | nil => rfl
    | cons point rest => simp [spanDigits, hrest point rfl]
  | cons digit digits ih =>
    have hdigit := hdigits digit List.mem_cons_self
    simp [spanDigits, hdigit, ih fun other hmem => hdigits other (List.mem_cons_of_mem _ hmem)]

/-- Digits that an integer literal can have: some, with no zero in front, and not too many. -/
structure Literal (digits : Text) : Prop where
  isDigit : ∀ digit ∈ digits, isDigit digit = true
  ne_nil : digits ≠ []
  zero : digits.head? = some 0x30 → digits = [0x30]
  length : digits.length ≤ maxIntDigits

/-- The digits of a literal are read back. -/
private theorem readIntDigits_literal {digits rest : Text} (h : Literal digits)
    (hrest : EndsNumber rest) : readIntDigits (digits ++ rest) = (digits, rest) := by
  obtain ⟨first, others, rfl⟩ := List.exists_cons_of_ne_nil h.ne_nil
  by_cases hfirst : first = 0x30
  · subst hfirst
    have hothers := List.cons.inj (h.zero rfl)
    simp [readIntDigits, hothers.2]
  · rw [readIntDigits, if_neg (by simpa using hfirst)]
    exact spanDigits_append h.isDigit fun point hmem => (hrest point hmem).1

/-- Nothing that ends a number is read as a fraction or an exponent. -/
private theorem readFraction_readExponent {rest : Text} (hrest : EndsNumber rest) :
    readFraction rest = ([], rest) ∧ readExponent rest = (none, rest) := by
  cases rest with
  | nil => exact ⟨rfl, rfl⟩
  | cons point rest =>
    obtain ⟨-, hdot, he, hE⟩ := hrest point rfl
    constructor
    · simp [readFraction, hdot]
    · simp [readExponent, he, hE]

/-- A literal with a sign or without is read as an integer. -/
theorem readNumber_literal {digits rest : Text} (h : Literal digits) (hrest : EndsNumber rest) :
    readNumber (digits ++ rest) = .ok (.int (digitsValue digits), rest) ∧
      readNumber (0x2D :: (digits ++ rest)) = .ok (.int (-digitsValue digits), rest) := by
  have hlength : ¬ maxIntDigits < digits.length := Nat.not_lt.mpr h.length
  obtain ⟨hfraction, hexponent⟩ := readFraction_readExponent hrest
  have hdigits := readIntDigits_literal h hrest
  have hhead : (digits ++ rest).head? ≠ some 0x2D := by
    obtain ⟨first, others, hcons⟩ := List.exists_cons_of_ne_nil h.ne_nil
    have hfirst := h.isDigit first (by rw [hcons]; exact List.mem_cons_self)
    rw [hcons]
    intro hcontra
    have : first = 0x2D := by simpa using hcontra
    subst this
    cases hfirst
  constructor
  · simp only [readNumber, if_false, hhead, hdigits, hfraction, hexponent, hlength]
    simp [h.ne_nil]
  · rw [readNumber]
    simp [hdigits, h.ne_nil, hfraction, hexponent, hlength]

/-- The digits written for a natural are a literal when they are few enough. -/
theorem literal_decimal {n : ℕ} (hn : n < 10 ^ maxIntDigits) : Literal (decimal n) where
  isDigit := (decimalOf_decimal n).isDigit
  ne_nil := (decimalOf_decimal n).ne_nil
  zero := (decimalOf_decimal n).zero
  length := (decimalOf_decimal n).length maxIntDigits (by decide) hn

/-- A written integer with few enough digits is read back. -/
theorem readNumber_dumpsInt {n : ℤ} (hn : n.natAbs < 10 ^ maxIntDigits) {rest : Text}
    (hrest : EndsNumber rest) : readNumber (dumpsInt n ++ rest) = .ok (.int n, rest) := by
  obtain ⟨hunsigned, hsigned⟩ := readNumber_literal (literal_decimal hn) hrest
  rw [(decimalOf_decimal n.natAbs).value] at hunsigned hsigned
  unfold dumpsInt
  by_cases hneg : n < 0
  · have hvalue : -(n.natAbs : ℤ) = n := by omega
    rw [if_pos hneg, List.cons_append, hsigned, hvalue]
  · have hvalue : (n.natAbs : ℤ) = n := by omega
    rw [if_neg hneg, hunsigned, hvalue]

/-! ## Objects -/

/-- A value the writer spells and the reader reads back. -/
def JsonScalar.Fits : JsonScalar → Prop
  | int value => value.natAbs < 10 ^ maxIntDigits
  | string value => Spellable value

/-- A code point that is not white space is not skipped. -/
theorem skipSpace_cons {point : ℕ} (hpoint : 0x20 < point) (rest : Text) :
    skipSpace (point :: rest) = point :: rest := by
  rw [skipSpace, if_neg (by omega)]

/-- A spelling is never empty. -/
private theorem length_escapePoint (point : ℕ) : 1 ≤ (escapePoint point).length := by
  unfold escapePoint
  cases escapeLetter point with
  | some letter => simp
  | none =>
    dsimp only
    split_ifs <;> simp

/-- A string is no longer than its spelling. -/
theorem length_le_flatMap (text : Text) :
    text.length ≤ (text.flatMap escapePoint).length := by
  induction text with
  | nil => simp
  | cons point text ih =>
    have := length_escapePoint point
    rw [List.flatMap_cons, List.length_append, List.length_cons]
    omega

/-- A written value starts with a quote, a sign or a digit. -/
theorem dumpsScalar_head (value : JsonScalar) :
    ∃ first rest, dumpsScalar value = first :: rest ∧
      (first = 0x22 ∨ first = 0x2D ∨ isDigit first = true) := by
  cases value with
  | string text => exact ⟨0x22, _, rfl, Or.inl rfl⟩
  | int n =>
    have hdecimal := decimalOf_decimal n.natAbs
    obtain ⟨first, rest, hcons⟩ := List.exists_cons_of_ne_nil hdecimal.ne_nil
    have hfirst := hdecimal.isDigit first (by rw [hcons]; exact List.mem_cons_self)
    by_cases hneg : n < 0
    · exact ⟨0x2D, decimal n.natAbs, by simp [dumpsScalar, dumpsInt, hneg], Or.inr (Or.inl rfl)⟩
    · exact ⟨first, rest, by simp [dumpsScalar, dumpsInt, hneg, hcons], Or.inr (Or.inr hfirst)⟩

/-- White space is not skipped in front of a written value. -/
private theorem skipSpace_dumpsScalar (value : JsonScalar) (rest : Text) :
    skipSpace (dumpsScalar value ++ rest) = dumpsScalar value ++ rest := by
  obtain ⟨first, others, hcons, hfirst⟩ := dumpsScalar_head value
  have hpoint : 0x20 < first := by
    obtain rfl | rfl | hdigit := hfirst
    · decide
    · decide
    · simp only [isDigit, Bool.and_eq_true, decide_eq_true_eq] at hdigit
      omega
  rw [hcons, List.cons_append, skipSpace_cons hpoint]

/-- A text that begins with a digit, or with a sign that no word follows, is read as a number. -/
theorem readValue_number (turns : ℕ) {first : ℕ} {rest : Text}
    (h : isDigit first = true ∨ first = 0x2D ∧ rest.head? ≠ some 0x49) :
    readValue (turns + 1) (first :: rest) = readNumber (first :: rest) := by
  have hword : textOf "-Infinity" = [0x2D, 0x49, 0x6E, 0x66, 0x69, 0x6E, 0x69, 0x74, 0x79] := rfl
  obtain hdigit | ⟨rfl, hhead⟩ := h
  · simp only [isDigit, Bool.and_eq_true, decide_eq_true_eq] at hdigit
    have hfirst : (0x2D == first) = false := by
      rw [beq_eq_false_iff_ne]
      omega
    have hne : first ≠ 0x22 ∧ first ≠ 0x7B ∧ first ≠ 0x5B ∧ first ≠ 0x6E ∧ first ≠ 0x74 ∧
        first ≠ 0x66 ∧ first ≠ 0x4E ∧ first ≠ 0x49 := by omega
    simp [readValue, hword, List.isPrefixOf, hfirst, hne]
  · cases rest with
    | nil => simp [readValue, hword, List.isPrefixOf]
    | cons next rest =>
      have hnext : (0x49 == next) = false := by
        rw [beq_eq_false_iff_ne]
        intro heq
        subst heq
        exact hhead rfl
      simp [readValue, hword, List.isPrefixOf, hnext]

/-- A written integer is read as a number. -/
private theorem readValue_dumpsInt {n : ℤ} (turns : ℕ) (rest : Text) :
    readValue (turns + 1) (dumpsInt n ++ rest) = readNumber (dumpsInt n ++ rest) := by
  have hdecimal := decimalOf_decimal n.natAbs
  obtain ⟨first, others, hcons⟩ := List.exists_cons_of_ne_nil hdecimal.ne_nil
  have hdigit := hdecimal.isDigit first (by rw [hcons]; exact List.mem_cons_self)
  unfold dumpsInt
  rw [hcons]
  by_cases hneg : n < 0
  · have hfirst : (first :: others ++ rest).head? ≠ some 0x49 := by
      intro heq
      obtain rfl : first = 0x49 := Option.some.inj heq
      cases hdigit
    rw [if_pos hneg]
    exact readValue_number turns (Or.inr ⟨rfl, hfirst⟩)
  · rw [if_neg hneg]
    exact readValue_number turns (Or.inl hdigit)

/-- A written value is read back. -/
theorem readValue_dumpsScalar {value : JsonScalar} (hfits : value.Fits) (turns : ℕ) {rest : Text}
    (hrest : EndsNumber rest) :
    readValue (turns + 1) (dumpsScalar value ++ rest) = .ok (value.toValue, rest) := by
  cases value with
  | int n => exact (readValue_dumpsInt turns rest).trans (readNumber_dumpsInt hfits hrest)
  | string text =>
    have hturns : text.length < (text.flatMap escapePoint ++ 0x22 :: rest).length + 1 := by
      have := length_le_flatMap text
      rw [List.length_append]
      omega
    have hread := readString_dumps hfits rest hturns
    simp only [dumpsScalar, dumpsString, List.cons_append, List.append_assoc, List.nil_append,
      readValue, if_true, hread]
    rfl

/-- A member whose key and value the reader reads back. -/
def MemberFits (member : Text × JsonScalar) : Prop := Spellable member.1 ∧ member.2.Fits

/-- What reading a written member comes to: the member is set, and the reader goes on behind its
value. -/
theorem readMembers_dumpsMember {member : Text × JsonScalar} (hfits : MemberFits member)
    (members : List (Text × JsonValue)) (turns : ℕ) {rest : Text} (hrest : EndsNumber rest) :
    readMembers (turns + 2) members (dumpsMember member ++ rest) =
      if (skipSpace rest).head? = some 0x7D then
        .ok (.object (setEntry member.1 member.2.toValue members), (skipSpace rest).tail)
      else if (skipSpace rest).head? = some 0x2C then
        readMembers (turns + 1) (setEntry member.1 member.2.toValue members)
          (skipSpace (skipSpace rest).tail)
      else .error .decodeError := by
  obtain ⟨key, value⟩ := member
  obtain ⟨hkey, hvalue⟩ := hfits
  have htext : dumpsMember (key, value) ++ rest = 0x22 :: (key.flatMap escapePoint ++
      0x22 :: (0x3A :: 0x20 :: (dumpsScalar value ++ rest))) := by
    simp [dumpsMember, dumpsString]
  have hturns : key.length < (key.flatMap escapePoint ++
      0x22 :: (0x3A :: 0x20 :: (dumpsScalar value ++ rest))).length + 1 := by
    have := length_le_flatMap key
    rw [List.length_append]
    omega
  have hread := readString_dumps hkey (0x3A :: 0x20 :: (dumpsScalar value ++ rest)) hturns
  have hcolon : skipSpace (0x3A :: 0x20 :: (dumpsScalar value ++ rest)) =
      0x3A :: 0x20 :: (dumpsScalar value ++ rest) := skipSpace_cons (by decide) _
  have hspace : skipSpace (0x20 :: (dumpsScalar value ++ rest)) = dumpsScalar value ++ rest := by
    rw [skipSpace, if_pos (Or.inl rfl), skipSpace_dumpsScalar]
  have hscalar := readValue_dumpsScalar hvalue turns hrest
  rw [htext, readMembers]
  simp only [List.head?_cons, ne_eq, not_true_eq_false, if_false, List.length_cons,
    List.tail_cons, hread, hcolon, hspace, hscalar, Bind.bind, Except.bind]

/-- Members written one after another are read back in order, up to the closing brace. -/
theorem readMembers_dumpsMembers {members : List (Text × JsonScalar)} (hne : members ≠ [])
    (hfits : ∀ member ∈ members, MemberFits member) (done : List (Text × JsonValue)) {turns : ℕ}
    (hturns : members.length < turns) (rest : Text) :
    readMembers turns done (dumpsMembers members ++ 0x7D :: rest) =
      .ok (.object (members.foldl (fun done member => setEntry member.1 member.2.toValue done)
        done), rest) := by
  induction members generalizing done turns with
  | nil => exact absurd rfl hne
  | cons member members ih =>
    obtain ⟨turns, rfl⟩ : ∃ n, turns = n + 2 := ⟨turns - 2, by simp at hturns; omega⟩
    have hmember := hfits member List.mem_cons_self
    cases members with
    | nil =>
      have hbrace : EndsNumber (0x7D :: rest) := by
        intro point hmem
        obtain rfl : 0x7D = point := Option.some.inj hmem
        decide
      rw [dumpsMembers, readMembers_dumpsMember hmember done turns hbrace,
        skipSpace_cons (by decide)]
      rfl
    | cons next members =>
      have hcomma : ∀ text, EndsNumber (0x2C :: text) := by
        intro text point hmem
        obtain rfl : 0x2C = point := Option.some.inj hmem
        decide
      have hlonger : (next :: members).length < turns + 1 := by simpa using hturns
      have hrest := ih (List.cons_ne_nil _ _)
        (fun other hmem => hfits other (List.mem_cons_of_mem _ hmem))
        (setEntry member.1 member.2.toValue done) hlonger
      have hquote : ∀ text, skipSpace (0x20 :: (dumpsMembers (next :: members) ++ text)) =
          dumpsMembers (next :: members) ++ text := by
        intro text
        rw [skipSpace, if_pos (Or.inl rfl)]
        cases members with
        | nil => exact skipSpace_cons (by decide) _
        | cons other members => exact skipSpace_cons (by decide) _
      rw [dumpsMembers, List.append_assoc, List.cons_append, List.cons_append,
        readMembers_dumpsMember hmember done turns (hcomma _), skipSpace_cons (by decide)]
      simp only [List.head?_cons, Option.some.injEq, List.tail_cons, hquote]
      exact hrest
      exact List.cons_ne_nil _ _

/-- A written list of members has at least a code point for each. -/
theorem length_le_dumpsMembers (members : List (Text × JsonScalar)) :
    members.length ≤ (dumpsMembers members).length := by
  induction members with
  | nil => simp
  | cons member members ih =>
    cases members with
    | nil => simp [dumpsMembers, dumpsMember, dumpsString]
    | cons next members =>
      simp only [dumpsMembers, List.length_append, List.length_cons] at ih ⊢
      omega

/-- The members an object is read back with: sorted by key, a repeated key keeping its first
place and its last value. -/
def readBack (members : List (Text × JsonScalar)) : List (Text × JsonValue) :=
  (members.insertionSort fun left right => left.1 ≤ right.1).foldl
    (fun done member => setEntry member.1 member.2.toValue done) []

/-- A written object is read back, whatever follows it. -/
theorem readValue_dumps {members : List (Text × JsonScalar)} (hne : members ≠ [])
    (hfits : ∀ member ∈ members, MemberFits member) (rest : Text) {turns : ℕ}
    (hturns : (dumps members).length < turns) :
    readValue turns (dumps members ++ rest) = .ok (.object (readBack members), rest) := by
  have hmem : ∀ member, member ∈ members.insertionSort (fun left right => left.1 ≤ right.1) ↔
      member ∈ members := fun member => List.mem_insertionSort _
  have hsorted : members.insertionSort (fun left right => left.1 ≤ right.1) ≠ [] := by
    obtain ⟨member, rest, rfl⟩ := List.exists_cons_of_ne_nil hne
    exact List.ne_nil_of_mem ((hmem member).mpr List.mem_cons_self)
  unfold readBack
  unfold dumps at hturns ⊢
  generalize members.insertionSort (fun left right => left.1 ≤ right.1) = sorted
    at hmem hsorted hturns ⊢
  have hsortedFits : ∀ member ∈ sorted, MemberFits member :=
    fun member h => hfits member ((hmem member).mp h)
  obtain ⟨turns, rfl⟩ : ∃ n, turns = n + 1 := ⟨turns - 1, by omega⟩
  have henough : sorted.length < turns := by
    have := length_le_dumpsMembers sorted
    simp only [List.length_append, List.length_cons] at hturns
    omega
  have hread := readMembers_dumpsMembers hsorted hsortedFits [] henough rest
  obtain ⟨quoted, hquote⟩ : ∃ others, dumpsMembers sorted ++ 0x7D :: rest = 0x22 :: others := by
    obtain ⟨member, others, rfl⟩ := List.exists_cons_of_ne_nil hsorted
    cases others with
    | nil => exact ⟨_, rfl⟩
    | cons next others => exact ⟨_, rfl⟩
  have htext : 0x7B :: dumpsMembers sorted ++ [0x7D] ++ rest = 0x7B :: 0x22 :: quoted := by
    rw [← hquote]
    simp
  rw [hquote] at hread
  rw [htext, readValue]
  simpa [skipSpace_cons] using hread

/-- A written object is a document. -/
theorem loads_dumps {members : List (Text × JsonScalar)} (hne : members ≠ [])
    (hfits : ∀ member ∈ members, MemberFits member) :
    loads (dumps members) = .ok (.object (readBack members)) := by
  have hread := readValue_dumps hne hfits [] (Nat.lt_succ_self _)
  rw [List.append_nil] at hread
  have hspace : skipSpace (dumps members) = dumps members := skipSpace_cons (by decide) _
  have hmark : (dumps members).head? ≠ some 0xFEFF := by
    intro hmark
    cases hmark
  rw [loads, if_neg hmark, hspace, hread]
  rfl

/-! ## What is written is printable -/

/-- Printable ASCII. -/
def Printable (text : Text) : Prop := ∀ point ∈ text, 0x20 ≤ point ∧ point ≤ 0x7E

/-- Printable texts are closed under concatenation. -/
private theorem Printable.append {front back : Text} (hfront : Printable front)
    (hback : Printable back) : Printable (front ++ back) := by
  intro point hmem
  obtain hmem | hmem := List.mem_append.mp hmem
  · exact hfront point hmem
  · exact hback point hmem

/-- A printable code point in front of a printable text. -/
private theorem Printable.cons {point : ℕ} {text : Text} (hpoint : 0x20 ≤ point ∧ point ≤ 0x7E)
    (htext : Printable text) : Printable (point :: text) := by
  intro other hmem
  obtain rfl | hmem := List.mem_cons.mp hmem
  · exact hpoint
  · exact htext other hmem

/-- The spelling of a code point is printable. -/
private theorem printable_escapePoint (point : ℕ) : Printable (escapePoint point) := by
  have hletter : ∀ letter, escapeLetter point = some letter → 0x20 ≤ letter ∧ letter ≤ 0x7E := by
    intro letter h
    unfold escapeLetter at h
    split_ifs at h <;> cases h <;> decide
  have hdigit : ∀ n < 16, 0x20 ≤ hexDigit n ∧ hexDigit n ≤ 0x7E := by decide
  have hfour : ∀ unit, Printable (hexFour unit) := by
    intro unit other hmem
    simp only [hexFour, List.mem_cons, List.not_mem_nil, or_false] at hmem
    obtain rfl | rfl | rfl | rfl := hmem <;> exact hdigit _ (Nat.mod_lt _ (by decide))
  unfold escapePoint
  cases h : escapeLetter point with
  | some letter => exact .cons (by decide) (.cons (hletter letter h) nofun)
  | none =>
    dsimp only
    split_ifs with hprintable hshort
    · exact .cons hprintable nofun
    · exact .cons (by decide) (.cons (by decide) (hfour point))
    · exact .append (.cons (by decide) (.cons (by decide) (hfour _)))
        (.cons (by decide) (.cons (by decide) (hfour _)))

/-- A written string is printable. -/
private theorem printable_dumpsString (text : Text) : Printable (dumpsString text) := by
  refine .append (.cons (by decide) ?_) (.cons (by decide) nofun)
  intro point hmem
  obtain ⟨source, -, hmem⟩ := List.mem_flatMap.mp hmem
  exact printable_escapePoint source point hmem

/-- A written value is printable. -/
private theorem printable_dumpsScalar (value : JsonScalar) : Printable (dumpsScalar value) := by
  cases value with
  | string text => exact printable_dumpsString text
  | int n =>
    have hdigits : Printable (decimal n.natAbs) := by
      intro digit hmem
      have hdigit := (decimalOf_decimal n.natAbs).isDigit digit hmem
      simp only [isDigit, Bool.and_eq_true, decide_eq_true_eq] at hdigit
      omega
    simp only [dumpsScalar, dumpsInt]
    split_ifs
    · exact .cons (by decide) hdigits
    · exact hdigits

/-- Written members are printable. -/
private theorem printable_dumpsMembers (members : List (Text × JsonScalar)) :
    Printable (dumpsMembers members) := by
  have hmember : ∀ member, Printable (dumpsMember member) := fun member =>
    .append (printable_dumpsString _) (.cons (by decide) (.cons (by decide)
      (printable_dumpsScalar _)))
  induction members with
  | nil => exact nofun
  | cons member members ih =>
    cases members with
    | nil => exact hmember member
    | cons next members => exact .append (hmember member) (.cons (by decide) (.cons (by decide) ih))

/-- A written object is printable, so it is a single line and its own UTF-8 spelling. -/
theorem printable_dumps (members : List (Text × JsonScalar)) : Printable (dumps members) :=
  .append (.cons (by decide) (printable_dumpsMembers _)) (.cons (by decide) nofun)

/-- The text a byte string is decoded to with escapes is spellable. -/
theorem spellable_decodeUtf8 (bytes : Bytes) : Spellable (decodeUtf8 surrogateEscape bytes) :=
  spellable_of_forall (points_of_encodeUtf8 (encodeUtf8_decodeUtf8 bytes))

end Library
