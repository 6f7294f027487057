import GantrySftp.Library.BigEndian
import Mathlib.Tactic.Common

/-!
# UTF-8 with an error handler

A text is a list of code points, lone surrogates included. The decoder reads a byte at a time
and remembers the bytes of an unfinished sequence; a sequence that cannot be finished is handed
whole to an error handler. Escaping each undecodable byte as a low surrogate loses nothing: the
encoder with the same convention gives every byte string back. After a line feed the decoder
remembers nothing, so a byte string may be decoded line by line.
-/

namespace Library

/-- A text: its code points. -/
abbrev Text := List ℕ

/-- The bytes of a sequence that is not finished yet. The constructors say how many bytes were
seen and how many the lead byte announced. -/
inductive Utf8Pending
  | none
  | oneOfTwo (lead : UInt8)
  | oneOfThree (lead : UInt8)
  | twoOfThree (lead second : UInt8)
  | oneOfFour (lead : UInt8)
  | twoOfFour (lead second : UInt8)
  | threeOfFour (lead second third : UInt8)
  deriving DecidableEq

namespace Utf8Pending

/-- The bytes seen so far. -/
def bytes : Utf8Pending → Bytes
  | none => []
  | oneOfTwo lead | oneOfThree lead | oneOfFour lead => [lead]
  | twoOfThree lead second | twoOfFour lead second => [lead, second]
  | threeOfFour lead second third => [lead, second, third]

/-- The smallest and the largest byte that may come next. Second bytes are restricted so that
no code point has two spellings, none is a surrogate and none exceeds the last one. -/
def bounds : Utf8Pending → ℕ × ℕ
  | none => (0x00, 0xFF)
  | oneOfThree lead =>
    if lead.toNat = 0xE0 then (0xA0, 0xBF)
    else if lead.toNat = 0xED then (0x80, 0x9F) else (0x80, 0xBF)
  | oneOfFour lead =>
    if lead.toNat = 0xF0 then (0x90, 0xBF)
    else if lead.toNat = 0xF4 then (0x80, 0x8F) else (0x80, 0xBF)
  | _ => (0x80, 0xBF)

/-- Whether a byte continues the sequence. -/
def accepts (pending : Utf8Pending) (byte : UInt8) : Bool :=
  pending.bounds.1 ≤ byte.toNat && byte.toNat ≤ pending.bounds.2

end Utf8Pending

/-- A byte that starts a sequence: what it decodes to at once, and what it leaves pending. -/
def utf8Start (onError : Bytes → Text) (byte : UInt8) : Text × Utf8Pending :=
  if byte.toNat < 0x80 then ([byte.toNat], .none)
  else if 0xC2 ≤ byte.toNat ∧ byte.toNat ≤ 0xDF then ([], .oneOfTwo byte)
  else if 0xE0 ≤ byte.toNat ∧ byte.toNat ≤ 0xEF then ([], .oneOfThree byte)
  else if 0xF0 ≤ byte.toNat ∧ byte.toNat ≤ 0xF4 then ([], .oneOfFour byte)
  else (onError [byte], .none)

/-- The code point or the longer pending sequence that an accepted byte makes. -/
def utf8Continue (onError : Bytes → Text) : Utf8Pending → UInt8 → Text × Utf8Pending
  | .none, byte => utf8Start onError byte
  | .oneOfTwo lead, byte => ([(lead.toNat - 0xC0) * 0x40 + (byte.toNat - 0x80)], .none)
  | .oneOfThree lead, byte => ([], .twoOfThree lead byte)
  | .twoOfThree lead second, byte =>
    ([(lead.toNat - 0xE0) * 0x1000 + (second.toNat - 0x80) * 0x40 + (byte.toNat - 0x80)], .none)
  | .oneOfFour lead, byte => ([], .twoOfFour lead byte)
  | .twoOfFour lead second, byte => ([], .threeOfFour lead second byte)
  | .threeOfFour lead second third, byte =>
    ([(lead.toNat - 0xF0) * 0x40000 + (second.toNat - 0x80) * 0x1000 +
      (third.toNat - 0x80) * 0x40 + (byte.toNat - 0x80)], .none)

/-- One byte of input. A byte that does not continue the pending sequence ends it as an error
and starts a sequence of its own. -/
def utf8Step (onError : Bytes → Text) (pending : Utf8Pending) (byte : UInt8) :
    Text × Utf8Pending :=
  if pending.accepts byte then utf8Continue onError pending byte
  else
    let started := utf8Start onError byte
    (onError pending.bytes ++ started.1, started.2)

/-- Decode the rest of the input after a pending sequence. -/
def decodeUtf8From (onError : Bytes → Text) : Utf8Pending → Bytes → Text
  | .none, [] => []
  | pending, [] => onError pending.bytes
  | pending, byte :: rest =>
    let stepped := utf8Step onError pending byte
    stepped.1 ++ decodeUtf8From onError stepped.2 rest

/-- Decode a byte string, handing each maximal undecodable sequence to the handler. -/
def decodeUtf8 (onError : Bytes → Text) (bytes : Bytes) : Text :=
  decodeUtf8From onError .none bytes

/-- The handler that replaces an undecodable sequence by one replacement character. -/
def replaceError (_ : Bytes) : Text := [0xFFFD]

/-- The handler that keeps each undecodable byte as a low surrogate. -/
def surrogateEscape (bytes : Bytes) : Text := bytes.map fun byte => 0xDC00 + byte.toNat

/-- The spelling of one code point, with escaped bytes put back; other surrogates have none. -/
def encodePoint (point : ℕ) : Option Bytes :=
  if point < 0x80 then some [UInt8.ofNat point]
  else if point < 0x800 then
    some [UInt8.ofNat (0xC0 + point / 0x40), UInt8.ofNat (0x80 + point % 0x40)]
  else if 0xDC80 ≤ point ∧ point ≤ 0xDCFF then some [UInt8.ofNat (point - 0xDC00)]
  else if 0xD800 ≤ point ∧ point ≤ 0xDFFF then none
  else if point < 0x10000 then
    some [UInt8.ofNat (0xE0 + point / 0x1000), UInt8.ofNat (0x80 + point / 0x40 % 0x40),
      UInt8.ofNat (0x80 + point % 0x40)]
  else if point < 0x110000 then
    some [UInt8.ofNat (0xF0 + point / 0x40000), UInt8.ofNat (0x80 + point / 0x1000 % 0x40),
      UInt8.ofNat (0x80 + point / 0x40 % 0x40), UInt8.ofNat (0x80 + point % 0x40)]
  else none

/-- Encode a text, putting escaped bytes back. -/
def encodeUtf8 : Text → Option Bytes
  | [] => some []
  | point :: rest => do
    let spelling ← encodePoint point
    let spellings ← encodeUtf8 rest
    pure (spelling ++ spellings)

/-! ## Decoding line by line -/

/-- A line feed ends whatever is pending, is decoded as itself and leaves nothing pending. -/
theorem utf8Step_lineFeed (onError : Bytes → Text) (pending : Utf8Pending) :
    ∃ text, utf8Step onError pending 0x0A = (text ++ [0x0A], .none) := by
  have hstart : utf8Start onError 0x0A = ([0x0A], .none) := rfl
  cases hpending : pending.accepts 0x0A with
  | false => exact ⟨onError pending.bytes, by simp [utf8Step, hpending, hstart]⟩
  | true =>
    have hnone : pending = .none := by
      cases pending with
      | none => rfl
      | oneOfTwo | twoOfThree | twoOfFour | threeOfFour => cases hpending
      | oneOfThree lead | oneOfFour lead =>
        simp only [Utf8Pending.accepts, Utf8Pending.bounds] at hpending
        split_ifs at hpending <;> cases hpending
    subst hnone
    exact ⟨[], rfl⟩

/-- A line feed is decoded as itself after what its line decodes to, and what follows it is
decoded as if it stood alone. -/
theorem decodeUtf8_line (onError : Bytes → Text) (front : Bytes) :
    ∃ text, ∀ back, decodeUtf8 onError (front ++ 0x0A :: back) =
      text ++ 0x0A :: decodeUtf8 onError back := by
  suffices h : ∀ pending, ∃ text, ∀ back, decodeUtf8From onError pending (front ++ 0x0A :: back) =
      text ++ 0x0A :: decodeUtf8 onError back from h .none
  induction front with
  | nil =>
    intro pending
    obtain ⟨text, hstep⟩ := utf8Step_lineFeed onError pending
    refine ⟨text, fun back => ?_⟩
    simp [decodeUtf8From, hstep, decodeUtf8]
  | cons byte front ih =>
    intro pending
    obtain ⟨text, htext⟩ := ih (utf8Step onError pending byte).2
    refine ⟨(utf8Step onError pending byte).1 ++ text, fun back => ?_⟩
    simp only [List.cons_append, decodeUtf8From, htext, List.append_assoc]

/-! ## Escaping loses nothing -/

/-- Texts are encoded piece by piece. -/
theorem encodeUtf8_append {front back : Text} {bytes bytes' : Bytes}
    (hfront : encodeUtf8 front = some bytes) (hback : encodeUtf8 back = some bytes') :
    encodeUtf8 (front ++ back) = some (bytes ++ bytes') := by
  induction front generalizing bytes with
  | nil =>
    obtain rfl : [] = bytes := Option.some.inj hfront
    exact hback
  | cons point front ih =>
    simp only [encodeUtf8, Option.bind_eq_bind, Option.bind_eq_some_iff, Option.pure_def,
      Option.some.injEq] at hfront
    obtain ⟨spelling, hpoint, spellings, hrest, rfl⟩ := hfront
    simp [encodeUtf8, hpoint, ih hrest]

/-- A text that is encoded has no code point that does not exist and no high surrogate. -/
theorem points_of_encodeUtf8 {text : Text} {bytes : Bytes} (h : encodeUtf8 text = some bytes) :
    ∀ point ∈ text, point < 0x110000 ∧ ¬ (0xD800 ≤ point ∧ point ≤ 0xDBFF) := by
  induction text generalizing bytes with
  | nil => exact nofun
  | cons first text ih =>
    simp only [encodeUtf8, Option.bind_eq_bind, Option.bind_eq_some_iff] at h
    obtain ⟨spelling, hfirst, spellings, hrest, -⟩ := h
    intro point hmem
    obtain rfl | hmem := List.mem_cons.mp hmem
    · unfold encodePoint at hfirst
      split_ifs at hfirst <;> omega
    · exact ih hrest point hmem

/-- A single code point is encoded as its spelling. -/
theorem encodeUtf8_singleton {point : ℕ} {spelling : Bytes}
    (h : encodePoint point = some spelling) : encodeUtf8 [point] = some spelling := by
  simp [encodeUtf8, h]

/-- Escaped bytes, none of them ASCII, are put back. -/
theorem encodeUtf8_surrogateEscape {bytes : Bytes} (h : ∀ byte ∈ bytes, 0x80 ≤ byte.toNat) :
    encodeUtf8 (surrogateEscape bytes) = some bytes := by
  induction bytes with
  | nil => rfl
  | cons byte bytes ih =>
    have hlow := h byte List.mem_cons_self
    have hhigh := byte.toNat_lt
    have hpoint : encodePoint (0xDC00 + byte.toNat) = some [byte] := by
      have hvalue : 0xDC00 + byte.toNat - 0xDC00 = byte.toNat := by omega
      rw [encodePoint, if_neg (by omega), if_neg (by omega), if_pos (by omega), hvalue,
        UInt8.ofNat_toNat]
    exact encodeUtf8_append (encodeUtf8_singleton hpoint)
      (ih fun other hmem => h other (List.mem_cons_of_mem _ hmem))

/-- The pending bytes are the start of a sequence some code point has. -/
def Utf8Pending.WellFormed : Utf8Pending → Prop
  | none => True
  | oneOfTwo lead => 0xC2 ≤ lead.toNat ∧ lead.toNat ≤ 0xDF
  | oneOfThree lead => 0xE0 ≤ lead.toNat ∧ lead.toNat ≤ 0xEF
  | twoOfThree lead second =>
    (0xE0 ≤ lead.toNat ∧ lead.toNat ≤ 0xEF) ∧ (oneOfThree lead).accepts second = true
  | oneOfFour lead => 0xF0 ≤ lead.toNat ∧ lead.toNat ≤ 0xF4
  | twoOfFour lead second =>
    (0xF0 ≤ lead.toNat ∧ lead.toNat ≤ 0xF4) ∧ (oneOfFour lead).accepts second = true
  | threeOfFour lead second third =>
    ((0xF0 ≤ lead.toNat ∧ lead.toNat ≤ 0xF4) ∧ (oneOfFour lead).accepts second = true) ∧
      (0x80 ≤ third.toNat ∧ third.toNat ≤ 0xBF)

/-- An accepted second byte of three, with what the restricted leads exclude. -/
private theorem accepts_oneOfThree {lead second : UInt8}
    (h : (Utf8Pending.oneOfThree lead).accepts second = true) :
    0x80 ≤ second.toNat ∧ second.toNat ≤ 0xBF ∧ (lead.toNat = 0xE0 → 0xA0 ≤ second.toNat) ∧
      (lead.toNat = 0xED → second.toNat ≤ 0x9F) := by
  simp only [Utf8Pending.accepts, Utf8Pending.bounds] at h
  split_ifs at h <;> simp only [Bool.and_eq_true, decide_eq_true_eq] at h <;> omega

/-- An accepted second byte of four, with what the restricted leads exclude. -/
private theorem accepts_oneOfFour {lead second : UInt8}
    (h : (Utf8Pending.oneOfFour lead).accepts second = true) :
    0x80 ≤ second.toNat ∧ second.toNat ≤ 0xBF ∧ (lead.toNat = 0xF0 → 0x90 ≤ second.toNat) ∧
      (lead.toNat = 0xF4 → second.toNat ≤ 0x8F) := by
  simp only [Utf8Pending.accepts, Utf8Pending.bounds] at h
  split_ifs at h <;> simp only [Bool.and_eq_true, decide_eq_true_eq] at h <;> omega

/-- A last byte, of which nothing but the common bounds is asked. -/
private theorem accepts_last {pending : Utf8Pending} {byte : UInt8}
    (hbounds : pending.bounds = (0x80, 0xBF)) (h : pending.accepts byte = true) :
    0x80 ≤ byte.toNat ∧ byte.toNat ≤ 0xBF := by
  simp only [Utf8Pending.accepts, hbounds, Bool.and_eq_true, decide_eq_true_eq] at h
  exact h

/-- A byte is determined by its value. -/
private theorem ofNat_eq_byte {n : ℕ} {byte : UInt8} (h : n = byte.toNat) :
    UInt8.ofNat n = byte := by
  rw [h, UInt8.ofNat_toNat]

/-- The code point of a two-byte sequence is spelled by that sequence. -/
private theorem encodePoint_two {lead byte : UInt8} (hlead : 0xC2 ≤ lead.toNat ∧ lead.toNat ≤ 0xDF)
    (hbyte : 0x80 ≤ byte.toNat ∧ byte.toNat ≤ 0xBF) :
    encodePoint ((lead.toNat - 0xC0) * 0x40 + (byte.toNat - 0x80)) = some [lead, byte] := by
  rw [encodePoint, if_neg (by omega), if_pos (by omega)]
  exact congrArg some (congrArg₂ List.cons (ofNat_eq_byte (by omega))
    (congrArg₂ List.cons (ofNat_eq_byte (by omega)) rfl))

/-- The code point of a three-byte sequence is spelled by that sequence. -/
private theorem encodePoint_three {lead second byte : UInt8}
    (hlead : 0xE0 ≤ lead.toNat ∧ lead.toNat ≤ 0xEF)
    (hsecond : (Utf8Pending.oneOfThree lead).accepts second = true)
    (hbyte : 0x80 ≤ byte.toNat ∧ byte.toNat ≤ 0xBF) :
    encodePoint ((lead.toNat - 0xE0) * 0x1000 + (second.toNat - 0x80) * 0x40 +
      (byte.toNat - 0x80)) = some [lead, second, byte] := by
  obtain ⟨hlow, hhigh, hE0, hED⟩ := accepts_oneOfThree hsecond
  rw [encodePoint, if_neg (by omega), if_neg (by omega), if_neg (by omega), if_neg (by omega),
    if_pos (by omega)]
  exact congrArg some (congrArg₂ List.cons (ofNat_eq_byte (by omega))
    (congrArg₂ List.cons (ofNat_eq_byte (by omega))
      (congrArg₂ List.cons (ofNat_eq_byte (by omega)) rfl)))

/-- The code point of a four-byte sequence is spelled by that sequence. -/
private theorem encodePoint_four {lead second third byte : UInt8}
    (hlead : 0xF0 ≤ lead.toNat ∧ lead.toNat ≤ 0xF4)
    (hsecond : (Utf8Pending.oneOfFour lead).accepts second = true)
    (hthird : 0x80 ≤ third.toNat ∧ third.toNat ≤ 0xBF)
    (hbyte : 0x80 ≤ byte.toNat ∧ byte.toNat ≤ 0xBF) :
    encodePoint ((lead.toNat - 0xF0) * 0x40000 + (second.toNat - 0x80) * 0x1000 +
      (third.toNat - 0x80) * 0x40 + (byte.toNat - 0x80)) = some [lead, second, third, byte] := by
  obtain ⟨hlow, hhigh, hF0, hF4⟩ := accepts_oneOfFour hsecond
  rw [encodePoint, if_neg (by omega), if_neg (by omega), if_neg (by omega), if_neg (by omega),
    if_neg (by omega), if_pos (by omega)]
  exact congrArg some (congrArg₂ List.cons (ofNat_eq_byte (by omega))
    (congrArg₂ List.cons (ofNat_eq_byte (by omega))
      (congrArg₂ List.cons (ofNat_eq_byte (by omega))
        (congrArg₂ List.cons (ofNat_eq_byte (by omega)) rfl))))

/-- Starting a sequence accounts for its byte, decoded or pending. -/
private theorem utf8Start_accounts (byte : UInt8) :
    (utf8Start surrogateEscape byte).2.WellFormed ∧
    ∃ spelled, encodeUtf8 (utf8Start surrogateEscape byte).1 = some spelled ∧
      spelled ++ (utf8Start surrogateEscape byte).2.bytes = [byte] := by
  unfold utf8Start
  split_ifs with hascii htwo hthree hfour
  · refine ⟨trivial, [byte], encodeUtf8_singleton ?_, rfl⟩
    rw [encodePoint, if_pos hascii, UInt8.ofNat_toNat]
  · exact ⟨htwo, [], rfl, rfl⟩
  · exact ⟨hthree, [], rfl, rfl⟩
  · exact ⟨hfour, [], rfl, rfl⟩
  · refine ⟨trivial, [byte], encodeUtf8_surrogateEscape ?_, rfl⟩
    intro other hmem
    rw [List.mem_singleton] at hmem
    subst hmem
    omega

/-- No pending byte is ASCII. -/
private theorem pending_bytes_high {pending : Utf8Pending} (h : pending.WellFormed) :
    ∀ byte ∈ pending.bytes, 0x80 ≤ byte.toNat := by
  intro byte hmem
  cases pending with
  | none => cases hmem
  | oneOfTwo lead | oneOfThree lead | oneOfFour lead =>
    obtain rfl : byte = lead := List.mem_singleton.mp hmem
    unfold Utf8Pending.WellFormed at h
    omega
  | twoOfThree lead second =>
    obtain ⟨hlow, -⟩ := accepts_oneOfThree h.2
    have hlead := h.1
    simp only [Utf8Pending.bytes, List.mem_cons, List.not_mem_nil, or_false] at hmem
    obtain rfl | rfl := hmem <;> omega
  | twoOfFour lead second =>
    obtain ⟨hlow, -⟩ := accepts_oneOfFour h.2
    have hlead := h.1
    simp only [Utf8Pending.bytes, List.mem_cons, List.not_mem_nil, or_false] at hmem
    obtain rfl | rfl := hmem <;> omega
  | threeOfFour lead second third =>
    obtain ⟨hlow, -⟩ := accepts_oneOfFour h.1.2
    have hlead := h.1.1
    have hthird := h.2
    simp only [Utf8Pending.bytes, List.mem_cons, List.not_mem_nil, or_false] at hmem
    obtain rfl | rfl | rfl := hmem <;> omega

/-- One step accounts for the pending bytes and the new one, decoded or still pending. -/
private theorem utf8Step_accounts {pending : Utf8Pending} (h : pending.WellFormed)
    (byte : UInt8) :
    (utf8Step surrogateEscape pending byte).2.WellFormed ∧
    ∃ spelled, encodeUtf8 (utf8Step surrogateEscape pending byte).1 = some spelled ∧
      spelled ++ (utf8Step surrogateEscape pending byte).2.bytes = pending.bytes ++ [byte] := by
  unfold utf8Step
  split_ifs with haccepts
  · cases pending with
    | none => exact utf8Start_accounts byte
    | oneOfTwo lead =>
      exact ⟨trivial, _, encodeUtf8_singleton (encodePoint_two h (accepts_last rfl haccepts)), rfl⟩
    | oneOfThree lead => exact ⟨⟨h, haccepts⟩, [], rfl, rfl⟩
    | twoOfThree lead second =>
      exact ⟨trivial, _, encodeUtf8_singleton
        (encodePoint_three h.1 h.2 (accepts_last rfl haccepts)), rfl⟩
    | oneOfFour lead => exact ⟨⟨h, haccepts⟩, [], rfl, rfl⟩
    | twoOfFour lead second => exact ⟨⟨h, accepts_last rfl haccepts⟩, [], rfl, rfl⟩
    | threeOfFour lead second third =>
      exact ⟨trivial, _, encodeUtf8_singleton
        (encodePoint_four h.1.1 h.1.2 h.2 (accepts_last rfl haccepts)), rfl⟩
  · obtain ⟨hwell, spelled, hspelled, hbytes⟩ := utf8Start_accounts byte
    refine ⟨hwell, pending.bytes ++ spelled,
      encodeUtf8_append (encodeUtf8_surrogateEscape (pending_bytes_high h)) hspelled, ?_⟩
    rw [List.append_assoc, hbytes]

/-- Decoding with escapes and encoding again gives any byte string back. -/
theorem encodeUtf8_decodeUtf8 (bytes : Bytes) :
    encodeUtf8 (decodeUtf8 surrogateEscape bytes) = some bytes := by
  suffices h : ∀ pending : Utf8Pending, pending.WellFormed →
      encodeUtf8 (decodeUtf8From surrogateEscape pending bytes) = some (pending.bytes ++ bytes)
    from h .none trivial
  induction bytes with
  | nil =>
    intro pending hpending
    have hescaped := encodeUtf8_surrogateEscape (pending_bytes_high hpending)
    rw [List.append_nil]
    cases pending with
    | none => rfl
    | _ => exact hescaped
  | cons byte rest ih =>
    intro pending hpending
    obtain ⟨hwell, spelled, hspelled, hbytes⟩ := utf8Step_accounts hpending byte
    have hrest := encodeUtf8_append hspelled (ih _ hwell)
    rw [← List.append_assoc, hbytes, List.append_assoc, List.singleton_append] at hrest
    simpa only [decodeUtf8From] using hrest

/-! ## Decoding yields no surrogates of its own -/

/-- A code point that exists and is no surrogate. -/
abbrev IsScalarValue (point : ℕ) : Prop := point < 0x110000 ∧ ¬ (0xD800 ≤ point ∧ point ≤ 0xDFFF)

/-- A text of scalar values. -/
def ScalarText (text : Text) : Prop := ∀ point ∈ text, IsScalarValue point

/-- The end of a text of scalar values is one. -/
theorem ScalarText.suffix {text rest : Text} (h : ScalarText text) (hrest : rest <:+ text) :
    ScalarText rest := fun point hmem => h point (hrest.mem hmem)

/-- Starting a sequence yields scalar values, apart from what the handler makes of an error. -/
private theorem utf8Start_scalar {onError : Bytes → Text}
    (herror : ∀ bytes, ScalarText (onError bytes)) (byte : UInt8) :
    (utf8Start onError byte).2.WellFormed ∧ ScalarText (utf8Start onError byte).1 := by
  unfold utf8Start
  split_ifs with hascii htwo hthree hfour
  · refine ⟨trivial, fun point hmem => ?_⟩
    obtain rfl := List.mem_singleton.mp hmem
    omega
  · exact ⟨htwo, nofun⟩
  · exact ⟨hthree, nofun⟩
  · exact ⟨hfour, nofun⟩
  · exact ⟨trivial, herror _⟩

/-- One step yields scalar values, apart from what the handler makes of an error. -/
private theorem utf8Step_scalar {onError : Bytes → Text}
    (herror : ∀ bytes, ScalarText (onError bytes)) {pending : Utf8Pending}
    (h : pending.WellFormed) (byte : UInt8) :
    (utf8Step onError pending byte).2.WellFormed ∧
      ScalarText (utf8Step onError pending byte).1 := by
  unfold utf8Step
  split_ifs with haccepts
  · cases pending with
    | none => exact utf8Start_scalar herror byte
    | oneOfTwo lead =>
      obtain ⟨hlow, hhigh⟩ := accepts_last rfl haccepts
      refine ⟨trivial, fun point hmem => ?_⟩
      simp only [utf8Continue, List.mem_singleton] at hmem
      unfold Utf8Pending.WellFormed at h
      omega
    | oneOfThree lead => exact ⟨⟨h, haccepts⟩, nofun⟩
    | twoOfThree lead second =>
      obtain ⟨hlow, hhigh, hE0, hED⟩ := accepts_oneOfThree h.2
      have hlead := h.1
      have hlast := accepts_last rfl haccepts
      refine ⟨trivial, fun point hmem => ?_⟩
      simp only [utf8Continue, List.mem_singleton] at hmem
      omega
    | oneOfFour lead => exact ⟨⟨h, haccepts⟩, nofun⟩
    | twoOfFour lead second => exact ⟨⟨h, accepts_last rfl haccepts⟩, nofun⟩
    | threeOfFour lead second third =>
      obtain ⟨hlow, hhigh, hF0, hF4⟩ := accepts_oneOfFour h.1.2
      have hlead := h.1.1
      have hthird := h.2
      have hlast := accepts_last rfl haccepts
      refine ⟨trivial, fun point hmem => ?_⟩
      simp only [utf8Continue, List.mem_singleton] at hmem
      omega
  · obtain ⟨hwell, hpoints⟩ := utf8Start_scalar herror byte
    refine ⟨hwell, fun point hmem => ?_⟩
    obtain hmem | hmem := List.mem_append.mp hmem
    · exact herror _ point hmem
    · exact hpoints point hmem

/-- With a handler that yields scalar values, decoding does. -/
theorem scalarText_decodeUtf8 {onError : Bytes → Text}
    (herror : ∀ bytes, ScalarText (onError bytes)) (bytes : Bytes) :
    ScalarText (decodeUtf8 onError bytes) := by
  suffices h : ∀ pending : Utf8Pending, pending.WellFormed →
      ScalarText (decodeUtf8From onError pending bytes) from h .none trivial
  induction bytes with
  | nil =>
    intro pending _
    cases pending with
    | none => exact nofun
    | _ => exact herror _
  | cons byte rest ih =>
    intro pending hpending point hmem
    obtain ⟨hwell, hpoints⟩ := utf8Step_scalar herror hpending byte
    simp only [decodeUtf8From] at hmem
    obtain hmem | hmem := List.mem_append.mp hmem
    · exact hpoints point hmem
    · exact ih _ hwell point hmem

end Library
