import GantrySftp.Library.JsonRoundTrip

/-!
# Documents cut short

A written object that is cut anywhere is no document, not even when other such objects, cut or
whole, are written right behind the cut. A cut inside a string is closed by the first quote that
follows, and then nothing goes on as a member of an object would; a cut anywhere else meets an
opening brace where none can stand.
-/

namespace Library

/-- A cut through two texts written one after the other goes through the first, or leaves it
whole. -/
theorem cut_append {cut more front back : Text} (h : cut ++ more = front ++ back) :
    (∃ tail, cut ++ tail = front ∧ tail ≠ []) ∨ ∃ tail, cut = front ++ tail ∧ tail ++ more = back := by
  obtain ⟨tail, hfront, hmore⟩ | ⟨tail, hcut, hback⟩ := List.append_eq_append_iff.mp h
  · cases tail with
    | nil => exact Or.inr ⟨[], by rw [hfront, List.append_nil, List.append_nil], hmore⟩
    | cons point tail => exact Or.inl ⟨_, hfront.symm, List.cons_ne_nil _ _⟩
  · exact Or.inr ⟨tail, hcut, hback.symm⟩

/-- Nothing is in front of a cut through a single code point. -/
theorem cut_singleton {cut more : Text} {point : ℕ} (h : cut ++ more = [point]) (hmore : more ≠ []) :
    cut = [] := by
  cases cut with
  | nil => rfl
  | cons first cut =>
    have htail := (List.cons.inj h).2
    exact absurd (List.append_eq_nil_iff.mp htail).2 hmore

/-- A text with which no member of an object goes on. -/
def Stuck (text : Text) : Prop :=
  ∀ point ∈ (skipSpace text).head?, point ≠ 0x3A ∧ point ≠ 0x2C ∧ point ≠ 0x7D

/-- Reading a value does not fail for its digits, and leaves a text with which no member goes
on. -/
def Stops (result : Except JsonError (JsonValue × Text)) : Prop :=
  result ≠ .error .valueError ∧ ∀ value rest, result = .ok (value, rest) → Stuck rest

/-- An error other than for digits stops. -/
theorem stops_decodeError : Stops (.error .decodeError) := ⟨nofun, nofun⟩

/-- A value with nothing to go on with behind it stops. -/
theorem stops_ok {value : JsonValue} {rest : Text} (h : Stuck rest) : Stops (.ok (value, rest)) := by
  refine ⟨nofun, fun value after heq => ?_⟩
  cases heq
  exact h

/-- A text with an opening brace in front, if it is not empty. -/
def Braced (text : Text) : Prop := ∀ point ∈ text.head?, point = 0x7B

/-- A text that completes nothing begun in front of it: a string or a value that it ends, or is
itself, leaves a text with which no member goes on. -/
structure Foreign (text : Text) : Prop where
  braced : Braced text
  string : ∀ turns value rest, readString turns text = some (value, rest) → Stuck rest
  value : ∀ turns, text.length < turns → Stops (readValue turns text)

/-- White space is not skipped in front of an opening brace. -/
theorem Braced.skipSpace {text : Text} (h : Braced text) : skipSpace text = text := by
  cases text with
  | nil => rfl
  | cons point rest =>
    obtain rfl : point = 0x7B := h point rfl
    exact skipSpace_cons (by decide) rest

/-- No member goes on with an opening brace. -/
theorem Braced.stuck {text : Text} (h : Braced text) : Stuck text := by
  intro point hmem
  rw [h.skipSpace] at hmem
  obtain rfl := h point hmem
  decide

/-- An opening brace ends a number. -/
theorem Braced.endsNumber {text : Text} (h : Braced text) : EndsNumber text := by
  intro point hmem
  obtain rfl := h point hmem
  decide

/-- Nothing completes nothing. -/
theorem foreign_nil : Foreign [] where
  braced := nofun
  string := by
    intro turns value rest h
    cases turns <;> cases h
  value := by
    intro turns _
    cases turns <;> exact stops_decodeError

/-! ## Strings -/

/-- The front of an escape, in which the letter or a hexadecimal digit is missing. -/
def PartialEscape (cut : Text) : Prop :=
  cut = [0x5C] ∨ ∃ digits, digits.length < 4 ∧ cut = 0x5C :: 0x75 :: digits

/-- Too few hexadecimal digits in front of a brace spell no code unit. -/
theorem readHexFour_cut {digits rest : Text} (hdigits : digits.length < 4) (hrest : Braced rest) :
    readHexFour (digits ++ rest) = none := by
  have hbrace : hexValue 0x7B = none := rfl
  cases rest with
  | nil =>
    rcases digits with _ | ⟨a, _ | ⟨b, _ | ⟨c, _ | ⟨d, digits⟩⟩⟩⟩
    all_goals first | rfl | (simp at hdigits; omega)
  | cons point rest =>
    obtain rfl : point = 0x7B := hrest point rfl
    rcases digits with _ | ⟨a, _ | ⟨b, _ | ⟨c, _ | ⟨d, digits⟩⟩⟩⟩
    · rcases rest with _ | ⟨b, _ | ⟨c, _ | ⟨d, rest⟩⟩⟩ <;> simp [readHexFour, hbrace]
    · rcases rest with _ | ⟨c, _ | ⟨d, rest⟩⟩ <;> simp [readHexFour, hbrace]
    · rcases rest with _ | ⟨d, rest⟩ <;> simp [readHexFour, hbrace]
    · simp [readHexFour, hbrace]
    · simp at hdigits
      omega

/-- A cut escape ends the reading of a string. -/
theorem PartialEscape.readString {cut rest : Text} (h : PartialEscape cut) (hrest : Braced rest)
    (turns : ℕ) : readString turns (cut ++ rest) = none := by
  have hescape : ∃ tail, cut = 0x5C :: tail ∧ readEscape (tail ++ rest) = none := by
    obtain rfl | ⟨digits, hdigits, rfl⟩ := h
    · refine ⟨[], rfl, ?_⟩
      cases rest with
      | nil => rfl
      | cons point rest =>
        obtain rfl : point = 0x7B := hrest point rfl
        rfl
    · refine ⟨0x75 :: digits, rfl, ?_⟩
      have hletter : letterPoint 0x75 = none := rfl
      simp [readEscape, hletter, readUnits, readHexFour_cut hdigits hrest]
  obtain ⟨tail, rfl, hread⟩ := hescape
  cases turns with
  | zero => rfl
  | succ turns => simp [Library.readString, hread]

/-- A cut escape does not complete a pair. -/
theorem PartialEscape.readLowSurrogate {cut rest : Text} (h : PartialEscape cut)
    (hrest : Braced rest) : readLowSurrogate (cut ++ rest) = none := by
  obtain rfl | ⟨digits, hdigits, rfl⟩ := h
  · rw [Library.readLowSurrogate, if_neg]
    cases rest with
    | nil => simp
    | cons point rest =>
      obtain rfl : point = 0x7B := hrest point rfl
      simp
  · simp [Library.readLowSurrogate, readHexFour_cut hdigits hrest]

/-- An opening brace does not complete a pair. -/
theorem Braced.readLowSurrogate {rest : Text} (h : Braced rest) : readLowSurrogate rest = none := by
  rw [Library.readLowSurrogate, if_neg]
  cases rest with
  | nil => simp
  | cons point rest =>
    obtain rfl : point = 0x7B := h point rfl
    simp

/-- What is in front of a cut through one code unit. -/
theorem cut_unit {cut more four : Text} (h : cut ++ more = 0x5C :: 0x75 :: four)
    (hfour : four.length = 4) (hmore : more ≠ []) : cut = [] ∨ PartialEscape cut := by
  have hlength := congrArg List.length h
  have hpositive := List.length_pos_of_ne_nil hmore
  rcases cut with _ | ⟨a, _ | ⟨b, digits⟩⟩
  · exact Or.inl rfl
  · obtain ⟨rfl, -⟩ := List.cons.inj h
    exact Or.inr (Or.inl rfl)
  · obtain ⟨rfl, htail⟩ := List.cons.inj h
    obtain ⟨rfl, -⟩ := List.cons.inj htail
    refine Or.inr (Or.inr ⟨digits, ?_, rfl⟩)
    simp only [List.length_append, List.length_cons] at hlength
    omega

/-- What is in front of a cut through the spelling of a code point: nothing, a cut escape, or
the first half of a pair with nothing or a cut escape behind it. -/
theorem cut_escapePoint {cut more : Text} {point : ℕ} (hpoint : point < 0x110000)
    (h : cut ++ more = escapePoint point) (hmore : more ≠ []) :
    cut = [] ∨ PartialEscape cut ∨
      ∃ unit tail, IsHighSurrogate unit ∧ cut = 0x5C :: 0x75 :: (hexFour unit ++ tail) ∧
        (tail = [] ∨ PartialEscape tail) := by
  have hpositive := List.length_pos_of_ne_nil hmore
  unfold escapePoint at h
  cases hletter : escapeLetter point with
  | some letter =>
    rw [hletter] at h
    rcases cut with _ | ⟨a, _ | ⟨b, cut⟩⟩
    · exact Or.inl rfl
    · obtain ⟨rfl, -⟩ := List.cons.inj h
      exact Or.inr (Or.inl (Or.inl rfl))
    · have hlength := congrArg List.length h
      simp only [List.length_append, List.length_cons, List.length_nil] at hlength
      omega
  | none =>
    rw [hletter] at h
    dsimp only at h
    by_cases hprintable : 0x20 ≤ point ∧ point ≤ 0x7E
    · rw [if_pos hprintable] at h
      rcases cut with _ | ⟨a, cut⟩
      · exact Or.inl rfl
      · have hlength := congrArg List.length h
        simp only [List.length_append, List.length_cons, List.length_nil] at hlength
        omega
    rw [if_neg hprintable] at h
    by_cases hshort : point < 0x10000
    · rw [if_pos hshort] at h
      obtain hnil | hescape := cut_unit h rfl hmore
      · exact Or.inl hnil
      · exact Or.inr (Or.inl hescape)
    · rw [if_neg hshort, List.cons_append, List.cons_append] at h
      generalize hunit : 0xD800 + (point - 0x10000) / 0x400 = unit at h
      rcases cut with _ | ⟨a, _ | ⟨b, digits⟩⟩
      · exact Or.inl rfl
      · obtain ⟨rfl, -⟩ := List.cons.inj h
        exact Or.inr (Or.inl (Or.inl rfl))
      obtain ⟨rfl, hletters⟩ := List.cons.inj h
      obtain ⟨rfl, hdigits⟩ := List.cons.inj hletters
      obtain ⟨tail, hcut, htail⟩ | ⟨tail, rfl, htail⟩ := cut_append hdigits
      · have hlength := congrArg List.length hcut
        have hfour : (hexFour unit).length = 4 := rfl
        have := List.length_pos_of_ne_nil htail
        rw [List.length_append] at hlength
        exact Or.inr (Or.inl (Or.inr ⟨digits, by omega, rfl⟩))
      · exact Or.inr (Or.inr ⟨unit, tail, by omega, rfl, cut_unit htail rfl hmore⟩)

/-- A cut through the spelling of a code point does not complete a pair unless the code point
does. -/
theorem readLowSurrogate_cut {cut more rest : Text} {point : ℕ} (hpoint : point < 0x110000)
    (h : cut ++ more = escapePoint point) (hmore : more ≠ []) (hrest : Braced rest) :
    readLowSurrogate (cut ++ rest) = none := by
  obtain rfl | hescape | ⟨unit, tail, hhigh, rfl, -⟩ := cut_escapePoint hpoint h hmore
  · exact hrest.readLowSurrogate
  · exact hescape.readLowSurrogate hrest
  · have hunit : unit < 0x10000 := by omega
    have hlow : ¬ IsLowSurrogate unit := by omega
    rw [List.cons_append, List.cons_append, List.append_assoc, readLowSurrogate_unit hunit]
    exact if_neg hlow

/-- A cut through the spelling of a code point ends the reading of a string, or leaves it to
what follows the cut. -/
theorem readString_cut {cut more rest : Text} {point : ℕ} (hpoint : point < 0x110000)
    (h : cut ++ more = escapePoint point) (hmore : more ≠ []) (hrest : Foreign rest) (turns : ℕ)
    {value after : Text} (hread : readString turns (cut ++ rest) = some (value, after)) :
    Stuck after := by
  obtain rfl | hescape | ⟨unit, tail, hhigh, rfl, htail⟩ := cut_escapePoint hpoint h hmore
  · exact hrest.string turns value after hread
  · rw [hescape.readString hrest.braced] at hread
    cases hread
  · have hletter : letterPoint 0x75 = none := rfl
    have hlow : readLowSurrogate (tail ++ rest) = none := by
      obtain rfl | hescape := htail
      · exact hrest.braced.readLowSurrogate
      · exact hescape.readLowSurrogate hrest.braced
    have hunits := readUnits_hexFour (show unit < 0x10000 by omega) fun _ => hlow
    cases turns with
    | zero => cases hread
    | succ turns =>
      have hturn : readString (turns + 1) (0x5C :: 0x75 :: (hexFour unit ++ tail) ++ rest) =
          (readString turns (tail ++ rest)).map fun result => (unit :: result.1, result.2) := by
        simp [readString, readEscape, hletter, hunits, Option.map_eq_bind]
      rw [hturn, Option.map_eq_some_iff] at hread
      obtain ⟨⟨inner, rest'⟩, hinner, heq⟩ := hread
      cases heq
      obtain rfl | hescape := htail
      · exact hrest.string turns inner _ hinner
      · rw [hescape.readString hrest.braced] at hinner
        cases hinner

/-- A cut through the spelling of a string does not complete a pair. -/
theorem readLowSurrogate_cut_string {text cut more rest : Text} (htext : Spellable text)
    (hlow : ∀ next ∈ text.head?, ¬ IsLowSurrogate next)
    (h : cut ++ more = text.flatMap escapePoint ++ [0x22]) (hmore : more ≠ [])
    (hrest : Braced rest) : readLowSurrogate (cut ++ rest) = none := by
  cases text with
  | nil =>
    rw [cut_singleton h hmore]
    exact hrest.readLowSurrogate
  | cons next text =>
    rw [List.flatMap_cons, List.append_assoc] at h
    obtain ⟨tail, hcut, htail⟩ | ⟨tail, rfl, -⟩ := cut_append h
    · exact readLowSurrogate_cut htext.1 hcut htail hrest
    · rw [List.append_assoc]
      exact readLowSurrogate_escapePoint htext.1 (hlow next rfl) _

/-- A string cut before its closing quote is read to a text with which no member goes on, if at
all. -/
theorem readString_cut_string {text cut more rest : Text} (htext : Spellable text)
    (h : cut ++ more = text.flatMap escapePoint ++ [0x22]) (hmore : more ≠ [])
    (hrest : Foreign rest) {turns : ℕ} {value after : Text}
    (hread : readString turns (cut ++ rest) = some (value, after)) : Stuck after := by
  induction text generalizing cut turns value with
  | nil =>
    rw [cut_singleton h hmore] at hread
    exact hrest.string turns value after hread
  | cons point text ih =>
    obtain ⟨hpoint, hpair, hspellable⟩ := htext
    rw [List.flatMap_cons, List.append_assoc] at h
    obtain ⟨tail, hcut, htail⟩ | ⟨tail, rfl, htail⟩ := cut_append h
    · exact readString_cut hpoint hcut htail hrest turns hread
    · cases turns with
      | zero => cases hread
      | succ turns =>
        have hlow : IsHighSurrogate point → readLowSurrogate (tail ++ rest) = none :=
          fun hhigh => readLowSurrogate_cut_string hspellable (hpair hhigh) htail hmore
            hrest.braced
        rw [List.append_assoc, readString_escapePoint hpoint hlow, Option.map_eq_some_iff] at hread
        obtain ⟨⟨inner, rest'⟩, hinner, heq⟩ := hread
        cases heq
        exact ih hspellable htail hinner

/-! ## Values -/

/-- Digits cut short are a literal. -/
theorem literal_cut {digits cut more : Text} (h : Literal digits) (hcut : cut ++ more = digits)
    (hne : cut ≠ []) (hmore : more ≠ []) : Literal cut where
  isDigit := fun digit hmem => h.isDigit digit (hcut ▸ List.mem_append_left more hmem)
  ne_nil := hne
  zero := by
    intro hzero
    have hlength : (cut ++ more).length = 1 := by
      have hhead : digits.head? = some 0x30 := by
        rw [← hcut, List.head?_append_of_ne_nil _ hne, hzero]
      rw [hcut, h.zero hhead]
      rfl
    have := List.length_pos_of_ne_nil hne
    have := List.length_pos_of_ne_nil hmore
    rw [List.length_append] at hlength
    omega
  length := by
    have hlength := h.length
    rw [← hcut, List.length_append] at hlength
    omega

/-- A sign with no digit behind it is no number. -/
theorem readNumber_sign {rest : Text} (hrest : Braced rest) :
    readNumber (0x2D :: rest) = .error .decodeError := by
  cases rest with
  | nil => rfl
  | cons point rest =>
    obtain rfl : point = 0x7B := hrest point rfl
    simp [readNumber, readIntDigits, spanDigits, isDigit]

/-- An integer cut short is read as another, or not at all. -/
theorem readValue_cut_int {n : ℤ} (hn : n.natAbs < 10 ^ maxIntDigits) {cut more rest : Text}
    (h : cut ++ more = dumpsInt n) (hne : cut ≠ []) (hmore : more ≠ []) (hrest : Braced rest)
    (turns : ℕ) : Stops (readValue (turns + 1) (cut ++ rest)) := by
  have hliteral := literal_decimal hn
  obtain ⟨first, others, rfl⟩ := List.exists_cons_of_ne_nil hne
  unfold dumpsInt at h
  by_cases hneg : n < 0
  · rw [if_pos hneg] at h
    obtain ⟨rfl, hcut⟩ := List.cons.inj h
    have hhead : (others ++ rest).head? ≠ some 0x49 := by
      cases others with
      | nil => exact fun heq => absurd (hrest _ heq) (by decide)
      | cons digit others =>
        intro heq
        obtain rfl : digit = 0x49 := Option.some.inj heq
        have := hliteral.isDigit 0x49 (hcut ▸ List.mem_cons_self)
        cases this
    rw [List.cons_append, readValue_number turns (Or.inr ⟨rfl, hhead⟩)]
    by_cases hothers : others = []
    · rw [hothers, List.nil_append, readNumber_sign hrest]
      exact stops_decodeError
    · rw [(readNumber_literal (literal_cut hliteral hcut hothers hmore) hrest.endsNumber).2]
      exact stops_ok hrest.stuck
  · rw [if_neg hneg] at h
    have hcut := literal_cut hliteral h hne hmore
    rw [List.cons_append, readValue_number turns (Or.inl (hcut.isDigit _ List.mem_cons_self)),
      ← List.cons_append, (readNumber_literal hcut hrest.endsNumber).1]
    exact stops_ok hrest.stuck

/-- A value cut short is read to a text with which no member goes on, if at all. -/
theorem readValue_cut {scalar : JsonScalar} (hfits : scalar.Fits) {cut more rest : Text}
    (h : cut ++ more = dumpsScalar scalar) (hmore : more ≠ []) (hrest : Foreign rest) {turns : ℕ}
    (hturns : (cut ++ rest).length < turns) : Stops (readValue turns (cut ++ rest)) := by
  obtain ⟨turns, rfl⟩ : ∃ n, turns = n + 1 := ⟨turns - 1, by omega⟩
  cases cut with
  | nil => exact hrest.value _ hturns
  | cons first cut =>
    cases scalar with
    | int n => exact readValue_cut_int hfits h (List.cons_ne_nil _ _) hmore hrest.braced turns
    | string text =>
      obtain ⟨rfl, hcut⟩ := List.cons.inj h
      simp only [List.cons_append, readValue, if_true]
      cases hstring : readString ((cut ++ rest).length + 1) (cut ++ rest) with
      | none => exact stops_decodeError
      | some result => exact stops_ok (readString_cut_string hfits hcut hmore hrest hstring)

/-! ## Members -/

/-- Members need a quote in front. -/
theorem readMembers_braced (turns : ℕ) (done : List (Text × JsonValue)) {text : Text}
    (h : Braced text) : readMembers turns done text = .error .decodeError := by
  cases turns with
  | zero => rfl
  | succ turns =>
    rw [readMembers, if_pos]
    intro heq
    exact absurd (h _ heq) (by decide)

/-- A member whose value stops ends the reading of its object. -/
theorem readMembers_stops {key after rest : Text} (hkey : Spellable key) {turns : ℕ}
    (done : List (Text × JsonValue)) (hspace : skipSpace rest = after)
    (hvalue : Stops (readValue turns after)) :
    readMembers (turns + 1) done (dumpsString key ++ 0x3A :: rest) = .error .decodeError := by
  have htext : dumpsString key ++ 0x3A :: rest =
      0x22 :: (key.flatMap escapePoint ++ 0x22 :: 0x3A :: rest) := by
    simp [dumpsString]
  have hturns : key.length < (key.flatMap escapePoint ++ 0x22 :: 0x3A :: rest).length + 1 := by
    have := length_le_flatMap key
    rw [List.length_append]
    omega
  have hread := readString_dumps hkey (0x3A :: rest) hturns
  have hcolon : skipSpace (0x3A :: rest) = 0x3A :: rest := skipSpace_cons (by decide) _
  rw [htext, readMembers]
  simp only [List.head?_cons, ne_eq, not_true_eq_false, if_false, List.length_cons,
    List.tail_cons, hread, hcolon, hspace]
  cases hresult : readValue turns after with
  | error error =>
    rw [hresult] at hvalue
    cases error with
    | decodeError => rfl
    | valueError => exact absurd rfl hvalue.1
  | ok result =>
    obtain ⟨value, text⟩ := result
    have hstuck := hvalue.2 value text hresult
    have hbrace : (skipSpace text).head? ≠ some 0x7D := fun heq => (hstuck _ heq).2.2 rfl
    have hcomma : (skipSpace text).head? ≠ some 0x2C := fun heq => (hstuck _ heq).2.1 rfl
    simp only [Bind.bind, Except.bind, if_neg hbrace, if_neg hcomma]

/-- A key that no member goes on after ends the reading of its object. -/
theorem readMembers_key (turns : ℕ) (done : List (Text × JsonValue)) {text : Text}
    (h : ∀ value after, readString (text.length + 1) text = some (value, after) → Stuck after) :
    readMembers turns done (0x22 :: text) = .error .decodeError := by
  cases turns with
  | zero => rfl
  | succ turns =>
    rw [readMembers]
    simp only [List.head?_cons, ne_eq, not_true_eq_false, if_false, List.length_cons,
      List.tail_cons]
    cases hread : readString (text.length + 1) text with
    | none => rfl
    | some result =>
      obtain ⟨value, after⟩ := result
      have hcolon : (skipSpace after).head? ≠ some 0x3A := fun heq => (h value after hread _ heq).1 rfl
      exact if_pos hcolon

/-- White space in front of a value cut short is skipped. -/
theorem skipSpace_cut {scalar : JsonScalar} {cut more rest : Text}
    (h : cut ++ more = dumpsScalar scalar) (hrest : Braced rest) :
    skipSpace (0x20 :: (cut ++ rest)) = cut ++ rest := by
  rw [skipSpace, if_pos (Or.inl rfl)]
  cases cut with
  | nil => exact hrest.skipSpace
  | cons point cut =>
    obtain ⟨first, others, hcons, hfirst⟩ := dumpsScalar_head scalar
    rw [hcons] at h
    obtain ⟨rfl, -⟩ := List.cons.inj h
    apply skipSpace_cons
    obtain rfl | rfl | hdigit := hfirst
    · decide
    · decide
    · simp only [isDigit, Bool.and_eq_true, decide_eq_true_eq] at hdigit
      omega

/-- A member cut short ends the reading of its object. -/
theorem readMembers_cut_member {member : Text × JsonScalar} (hfits : MemberFits member)
    {cut more rest : Text} (h : cut ++ more = dumpsMember member) (hmore : more ≠ [])
    (hrest : Foreign rest) {turns : ℕ} (hturns : (cut ++ rest).length < turns)
    (done : List (Text × JsonValue)) :
    readMembers turns done (cut ++ rest) = .error .decodeError := by
  obtain ⟨turns, rfl⟩ : ∃ n, turns = n + 1 := ⟨turns - 1, by omega⟩
  obtain ⟨key, scalar⟩ := member
  obtain ⟨hkey, hvalue⟩ := hfits
  obtain ⟨tail, hcut, htail⟩ | ⟨tail, rfl, htail⟩ := cut_append h
  · cases cut with
    | nil => exact readMembers_braced _ done hrest.braced
    | cons point cut =>
      obtain ⟨rfl, hstring⟩ := List.cons.inj hcut
      exact readMembers_key _ done fun value after => readString_cut_string hkey hstring htail hrest
  rcases tail with _ | ⟨colon, _ | ⟨space, tail⟩⟩
  · have htext : dumpsString key ++ [] ++ rest = 0x22 :: (key.flatMap escapePoint ++ 0x22 :: rest) := by
      simp [dumpsString]
    rw [htext]
    refine readMembers_key _ done fun value after hread => ?_
    have hlength : key.length < (key.flatMap escapePoint ++ 0x22 :: rest).length + 1 := by
      have := length_le_flatMap key
      rw [List.length_append]
      omega
    rw [readString_dumps hkey rest hlength] at hread
    cases hread
    exact hrest.braced.stuck
  · obtain ⟨rfl, -⟩ := List.cons.inj htail
    rw [List.append_assoc, List.singleton_append]
    refine readMembers_stops hkey done hrest.braced.skipSpace (hrest.value turns ?_)
    simp only [List.length_append, List.length_cons] at hturns
    omega
  · obtain ⟨rfl, hafter⟩ := List.cons.inj htail
    obtain ⟨rfl, hscalar⟩ := List.cons.inj hafter
    rw [List.append_assoc, List.cons_append, List.cons_append]
    refine readMembers_stops hkey done (skipSpace_cut hscalar hrest.braced)
      (readValue_cut hvalue hscalar hmore hrest ?_)
    simp only [List.length_append, List.length_cons] at hturns ⊢
    omega

/-- A member is longer than its colon and the space behind it. -/
theorem length_dumpsMember (member : Text × JsonScalar) : 2 ≤ (dumpsMember member).length := by
  simp only [dumpsMember, dumpsString, List.length_append, List.length_cons]
  omega

/-- A member that no other follows ends the reading of its object. -/
theorem readMembers_last {member : Text × JsonScalar} (hfits : MemberFits member) {rest : Text}
    (hrest : Braced rest) {turns : ℕ} (hturns : (dumpsMember member ++ rest).length < turns)
    (done : List (Text × JsonValue)) :
    readMembers turns done (dumpsMember member ++ rest) = .error .decodeError := by
  have := length_dumpsMember member
  rw [List.length_append] at hturns
  obtain ⟨turns, rfl⟩ : ∃ n, turns = n + 2 := ⟨turns - 2, by omega⟩
  have hbrace : (skipSpace rest).head? ≠ some 0x7D := fun heq => (hrest.stuck _ heq).2.2 rfl
  have hcomma : (skipSpace rest).head? ≠ some 0x2C := fun heq => (hrest.stuck _ heq).2.1 rfl
  rw [readMembers_dumpsMember hfits done turns hrest.endsNumber, if_neg hbrace, if_neg hcomma]

/-- The reader goes on behind the comma that follows a member. -/
theorem readMembers_comma {member : Text × JsonScalar} (hfits : MemberFits member) (rest : Text)
    (turns : ℕ) (done : List (Text × JsonValue)) :
    readMembers (turns + 2) done (dumpsMember member ++ 0x2C :: rest) =
      readMembers (turns + 1) (setEntry member.1 member.2.toValue done) (skipSpace rest) := by
  have hends : EndsNumber (0x2C :: rest) := by
    intro point hmem
    obtain rfl : 0x2C = point := Option.some.inj hmem
    decide
  rw [readMembers_dumpsMember hfits done turns hends, skipSpace_cons (by decide)]
  rfl

/-- Written members begin with a quote. -/
theorem dumpsMembers_head {members : List (Text × JsonScalar)} (hne : members ≠ []) (rest : Text) :
    ∃ others, dumpsMembers members ++ rest = 0x22 :: others := by
  obtain ⟨member, others, rfl⟩ := List.exists_cons_of_ne_nil hne
  cases others with
  | nil => exact ⟨_, rfl⟩
  | cons next others => exact ⟨_, rfl⟩

/-- White space in front of members cut short is skipped. -/
theorem skipSpace_cut_members {members : List (Text × JsonScalar)} (hne : members ≠ [])
    {cut more rest : Text} (h : cut ++ more = dumpsMembers members ++ [0x7D])
    (hrest : Braced rest) : skipSpace (cut ++ rest) = cut ++ rest := by
  cases cut with
  | nil => exact hrest.skipSpace
  | cons point cut =>
    obtain ⟨others, hquote⟩ := dumpsMembers_head hne [0x7D]
    rw [hquote] at h
    obtain ⟨rfl, -⟩ := List.cons.inj h
    exact skipSpace_cons (by decide) _

/-- Members cut short are no object. -/
theorem readMembers_cut {members : List (Text × JsonScalar)}
    (hfits : ∀ member ∈ members, MemberFits member) {cut more rest : Text}
    (h : cut ++ more = dumpsMembers members ++ [0x7D]) (hmore : more ≠ []) (hrest : Foreign rest)
    {turns : ℕ} (hturns : (cut ++ rest).length < turns) (done : List (Text × JsonValue)) :
    readMembers turns done (cut ++ rest) = .error .decodeError := by
  induction members generalizing cut done turns with
  | nil =>
    rw [cut_singleton h hmore]
    exact readMembers_braced turns done hrest.braced
  | cons member members ih =>
    have hmember := hfits member List.mem_cons_self
    cases members with
    | nil =>
      obtain ⟨tail, hcut, htail⟩ | ⟨tail, rfl, htail⟩ := cut_append h
      · exact readMembers_cut_member hmember hcut htail hrest hturns done
      · rw [cut_singleton htail hmore, List.append_nil] at hturns ⊢
        exact readMembers_last hmember hrest.braced hturns done
    | cons next members =>
      rw [dumpsMembers, List.append_assoc] at h
      · obtain ⟨tail, hcut, htail⟩ | ⟨tail, rfl, htail⟩ := cut_append h
        · exact readMembers_cut_member hmember hcut htail hrest hturns done
        have := length_dumpsMember member
        rcases tail with _ | ⟨comma, tail⟩
        · rw [List.append_nil] at hturns ⊢
          exact readMembers_last hmember hrest.braced hturns done
        obtain ⟨rfl, hafter⟩ := List.cons.inj htail
        rw [List.length_append, List.length_append, List.length_cons] at hturns
        obtain ⟨turns, rfl⟩ : ∃ n, turns = n + 2 := ⟨turns - 2, by omega⟩
        rw [List.append_assoc, List.cons_append, readMembers_comma hmember]
        rcases tail with _ | ⟨space, tail⟩
        · rw [List.nil_append, hrest.braced.skipSpace]
          exact readMembers_braced _ _ hrest.braced
        · obtain ⟨rfl, hmembers⟩ := List.cons.inj hafter
          rw [List.cons_append, skipSpace, if_pos (Or.inl rfl),
            skipSpace_cut_members (List.cons_ne_nil _ _) hmembers hrest.braced]
          refine ih (fun other hmem => hfits other (List.mem_cons_of_mem _ hmem)) hmembers ?_ _
          simp only [List.length_append, List.length_cons] at hturns ⊢
          omega
      · exact List.cons_ne_nil _ _

/-! ## Documents -/

/-- A written object whose first key begins with a lower-case letter. -/
structure WrittenObject (text : Text) : Prop where
  written : ∃ members, members ≠ [] ∧ (∀ member ∈ members, MemberFits member) ∧
    text = dumps members
  letter : ∃ letter rest, text = 0x7B :: 0x22 :: letter :: rest ∧ 0x61 ≤ letter ∧ letter ≤ 0x7A

/-- An object cut short is no value. -/
theorem WrittenObject.readValue_cut {text : Text} (h : WrittenObject text) {cut more rest : Text}
    (hcut : cut ++ more = text) (hne : cut ≠ []) (hmore : more ≠ []) (hrest : Foreign rest)
    {turns : ℕ} (hturns : (cut ++ rest).length < turns) :
    readValue turns (cut ++ rest) = .error .decodeError := by
  obtain ⟨members, hmembers, hfits, rfl⟩ := h.written
  have hmem : ∀ member, member ∈ members.insertionSort (fun left right => left.1 ≤ right.1) ↔
      member ∈ members := fun member => List.mem_insertionSort _
  unfold dumps at hcut
  generalize members.insertionSort (fun left right => left.1 ≤ right.1) = sorted at hmem hcut
  have hsorted : sorted ≠ [] := by
    obtain ⟨member, others, rfl⟩ := List.exists_cons_of_ne_nil hmembers
    exact List.ne_nil_of_mem ((hmem member).mpr List.mem_cons_self)
  have hsortedFits : ∀ member ∈ sorted, MemberFits member :=
    fun member hmember => hfits member ((hmem member).mp hmember)
  obtain ⟨turns, rfl⟩ : ∃ n, turns = n + 1 := ⟨turns - 1, by omega⟩
  obtain ⟨point, cut, rfl⟩ := List.exists_cons_of_ne_nil hne
  obtain rfl : point = 0x7B := (List.cons.inj hcut).1
  have hafter : cut ++ more = dumpsMembers sorted ++ [0x7D] := (List.cons.inj hcut).2
  have hspace := skipSpace_cut_members hsorted hafter hrest.braced
  have hbrace : (cut ++ rest).head? ≠ some 0x7D := by
    cases cut with
    | nil => exact fun heq => absurd (hrest.braced _ heq) (by decide)
    | cons point cut =>
      obtain ⟨others, hquote⟩ := dumpsMembers_head hsorted [0x7D]
      intro heq
      obtain rfl : point = 0x7D := Option.some.inj heq
      cases (List.cons.inj (hafter.trans hquote)).1
  have henough : (cut ++ rest).length < turns := by
    simp only [List.cons_append, List.length_cons] at hturns
    omega
  have hvalue : readValue (turns + 1) (0x7B :: (cut ++ rest)) =
      readMembers turns [] (cut ++ rest) := by
    rw [readValue]
    simp only [hspace, if_neg hbrace, if_true]
    rfl
  rw [List.cons_append, hvalue]
  exact readMembers_cut hsortedFits hafter hmore hrest henough []

/-- A written object in front of a text is read, whatever follows it. -/
theorem WrittenObject.readValue {text : Text} (h : WrittenObject text) (rest : Text) {turns : ℕ}
    (hturns : text.length < turns) :
    ∃ value, readValue turns (text ++ rest) = .ok (value, rest) := by
  obtain ⟨members, hmembers, hfits, rfl⟩ := h.written
  exact ⟨_, readValue_dumps hmembers hfits rest hturns⟩

/-- The front of a written object: some of it, or all. -/
def DocumentPiece (text : Text) : Prop := ∃ object more, WrittenObject object ∧ text ++ more = object ∧
  text ≠ []

/-- A piece begins with an opening brace. -/
theorem DocumentPiece.head {text : Text} (h : DocumentPiece text) : ∃ rest, text = 0x7B :: rest := by
  obtain ⟨object, more, hobject, htext, hne⟩ := h
  obtain ⟨letter, others, rfl, -⟩ := hobject.letter
  obtain ⟨point, rest, rfl⟩ := List.exists_cons_of_ne_nil hne
  obtain ⟨rfl, -⟩ := List.cons.inj htext
  exact ⟨rest, rfl⟩

/-- A piece in front of a foreign text is read to that text, or not at all. -/
theorem DocumentPiece.readValue {text rest : Text} (h : DocumentPiece text) (hrest : Foreign rest) {turns : ℕ}
    (hturns : (text ++ rest).length < turns) :
    readValue turns (text ++ rest) = .error .decodeError ∨
      ∃ value, readValue turns (text ++ rest) = .ok (value, rest) := by
  obtain ⟨object, more, hobject, htext, hne⟩ := h
  by_cases hmore : more = []
  · obtain rfl : text = object := by rw [← htext, hmore, List.append_nil]
    rw [List.length_append] at hturns
    exact Or.inr (hobject.readValue rest (by omega))
  · exact Or.inl (hobject.readValue_cut htext hne hmore hrest hturns)

/-- A piece in front of a foreign text is foreign. -/
theorem DocumentPiece.foreign {text rest : Text} (h : DocumentPiece text) (hrest : Foreign rest) :
    Foreign (text ++ rest) where
  braced := by
    obtain ⟨others, rfl⟩ := h.head
    intro point hmem
    exact (Option.some.inj hmem).symm
  string := by
    intro turns value after hread
    obtain ⟨object, more, hobject, htext, hne⟩ := h
    obtain ⟨letter, others, rfl, hlow, hhigh⟩ := hobject.letter
    rcases text with _ | ⟨brace, text⟩
    · exact absurd rfl hne
    obtain ⟨rfl, hquoted⟩ := List.cons.inj htext
    cases turns with
    | zero => cases hread
    | succ turns =>
      have hturn : readString (turns + 1) (0x7B :: text ++ rest) =
          (readString turns (text ++ rest)).map fun result => (0x7B :: result.1, result.2) := by
        simp [readString, Option.map_eq_bind]
      rw [hturn, Option.map_eq_some_iff] at hread
      obtain ⟨⟨inner, rest'⟩, hinner, heq⟩ := hread
      cases heq
      rcases text with _ | ⟨quote, text⟩
      · exact hrest.string turns inner _ hinner
      obtain ⟨rfl, hletter⟩ := List.cons.inj hquoted
      cases turns with
      | zero => cases hinner
      | succ turns =>
        obtain rfl : text ++ rest = rest' := by
          simp [readString] at hinner
          exact hinner.2
        rcases text with _ | ⟨first, text⟩
        · exact hrest.braced.stuck
        · obtain ⟨rfl, -⟩ := List.cons.inj hletter
          intro point hmem
          rw [List.cons_append, skipSpace_cons (by omega)] at hmem
          obtain rfl := Option.some.inj hmem
          omega
  value := by
    intro turns hturns
    obtain herror | ⟨value, hvalue⟩ := h.readValue hrest hturns
    · rw [herror]
      exact stops_decodeError
    · rw [hvalue]
      exact stops_ok hrest.braced.stuck

/-- Pieces written one behind the other are foreign. -/
theorem foreign_flatten {pieces : List Text} (h : ∀ piece ∈ pieces, DocumentPiece piece) :
    Foreign pieces.flatten := by
  induction pieces with
  | nil => exact foreign_nil
  | cons piece pieces ih =>
    rw [List.flatten_cons]
    exact (h piece List.mem_cons_self).foreign
      (ih fun other hmem => h other (List.mem_cons_of_mem _ hmem))

/-- A document in braces is the value at its front with nothing behind it. -/
theorem loads_braced {rest : Text} {result : Except JsonError (JsonValue × Text)}
    (hread : readValue ((0x7B :: rest).length + 1) (0x7B :: rest) = result) :
    loads (0x7B :: rest) = result.bind fun read =>
      if (skipSpace read.2).isEmpty then .ok read.1 else .error .decodeError := by
  have hmark : (0x7B :: rest).head? ≠ some 0xFEFF := by
    intro heq
    cases heq
  rw [loads, if_neg hmark, skipSpace_cons (by decide), hread]
  rfl

/-- A written object cut short is no document. -/
theorem WrittenObject.loads_cut {text : Text} (h : WrittenObject text) {cut more : Text}
    (hcut : cut ++ more = text) (hmore : more ≠ []) : loads cut = .error .decodeError := by
  by_cases hne : cut = []
  · rw [hne]
    rfl
  · have hread := h.readValue_cut hcut hne hmore foreign_nil (Nat.lt_succ_self _)
    rw [List.append_nil] at hread
    obtain ⟨rest, rfl⟩ := DocumentPiece.head ⟨text, more, h, hcut, hne⟩
    exact loads_braced hread

/-- Pieces written behind a piece make no document. -/
theorem loads_pieces {first : Text} {pieces : List Text} (hfirst : DocumentPiece first)
    (hne : pieces ≠ []) (hpieces : ∀ piece ∈ pieces, DocumentPiece piece) :
    loads (first ++ pieces.flatten) = .error .decodeError := by
  have hforeign := foreign_flatten hpieces
  have hresult := hfirst.readValue hforeign (Nat.lt_succ_self _)
  obtain ⟨rest, rfl⟩ := hfirst.head
  obtain herror | ⟨value, hvalue⟩ := hresult
  · exact loads_braced herror
  · refine (loads_braced hvalue).trans (if_neg ?_)
    rw [hforeign.braced.skipSpace, List.isEmpty_iff]
    obtain ⟨piece, others, rfl⟩ := List.exists_cons_of_ne_nil hne
    obtain ⟨tail, rfl⟩ := (hpieces _ List.mem_cons_self).head
    rw [List.flatten_cons]
    exact List.cons_ne_nil _ _

end Library
