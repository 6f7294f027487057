import GantrySftp.Library.Dict
import GantrySftp.Library.Utf8
import Mathlib

/-!
# Flat JSON documents

A reader for one JSON document in a text, and a writer for objects whose values are integers and
strings, with sorted keys and everything outside printable ASCII escaped. Reading what was
written gives the members back. A string whose code points contain a surrogate pair written as
two has no such spelling, because the reader joins the pair.
-/

namespace Library

/-- A JSON value. A number with a fraction or an exponent is kept as its exact decimal. -/
inductive JsonValue
  | null
  | bool (value : Bool)
  | int (value : ℤ)
  | float (mantissa exponent : ℤ)
  | notFinite
  | string (value : Text)
  | array (values : List JsonValue)
  | object (members : List (Text × JsonValue))

/-- Why a text is not read: it is not a document, or a number has too many digits to convert. -/
inductive JsonError
  | decodeError
  | valueError
  deriving DecidableEq

/-- The most digits an integer literal may have. -/
def maxIntDigits : ℕ := 4300

/-- A value an object is written with. -/
inductive JsonScalar
  | int (value : ℤ)
  | string (value : Text)
  deriving DecidableEq

/-- A written value, as a reader sees it. -/
def JsonScalar.toValue : JsonScalar → JsonValue
  | int value => .int value
  | string value => .string value

/-- The code points of a string of the source language. -/
def textOf (s : String) : Text := s.toList.map Char.toNat

/-! ## Writing -/

/-- A lower-case hexadecimal digit. -/
def hexDigit (n : ℕ) : ℕ := if n < 10 then 0x30 + n else 0x57 + n

/-- The four hexadecimal digits of a code unit. -/
def hexFour (n : ℕ) : Text :=
  [hexDigit (n / 0x1000 % 16), hexDigit (n / 0x100 % 16), hexDigit (n / 0x10 % 16),
    hexDigit (n % 16)]

/-- The letter of a two-character escape, for the code points written with one. -/
def escapeLetter (point : ℕ) : Option ℕ :=
  if point = 0x22 then some 0x22
  else if point = 0x5C then some 0x5C
  else if point = 0x0A then some 0x6E
  else if point = 0x0D then some 0x72
  else if point = 0x09 then some 0x74
  else if point = 0x0C then some 0x66
  else if point = 0x08 then some 0x62
  else none

/-- The spelling of a code point inside a string. -/
def escapePoint (point : ℕ) : Text :=
  match escapeLetter point with
  | some letter => [0x5C, letter]
  | none =>
    if 0x20 ≤ point ∧ point ≤ 0x7E then [point]
    else if point < 0x10000 then 0x5C :: 0x75 :: hexFour point
    else
      0x5C :: 0x75 :: hexFour (0xD800 + (point - 0x10000) / 0x400) ++
        0x5C :: 0x75 :: hexFour (0xDC00 + (point - 0x10000) % 0x400)

/-- A string between its quotes. -/
def dumpsString (text : Text) : Text := 0x22 :: text.flatMap escapePoint ++ [0x22]

/-- The decimal digits of a natural, in front of what is already written. -/
def decimalFrom : ℕ → ℕ → Text → Text
  | 0, _, written => written
  | fuel + 1, n, written =>
    if n < 10 then (0x30 + n) :: written else decimalFrom fuel (n / 10) ((0x30 + n % 10) :: written)

/-- The decimal digits of a natural. -/
def decimal (n : ℕ) : Text := decimalFrom (n + 1) n []

/-- An integer. -/
def dumpsInt (n : ℤ) : Text := if n < 0 then 0x2D :: decimal n.natAbs else decimal n.natAbs

/-- A value of an object. -/
def dumpsScalar : JsonScalar → Text
  | .int value => dumpsInt value
  | .string value => dumpsString value

/-- A member of an object. -/
def dumpsMember (member : Text × JsonScalar) : Text :=
  dumpsString member.1 ++ 0x3A :: 0x20 :: dumpsScalar member.2

/-- Members separated by commas. -/
def dumpsMembers : List (Text × JsonScalar) → Text
  | [] => []
  | [member] => dumpsMember member
  | member :: rest => dumpsMember member ++ 0x2C :: 0x20 :: dumpsMembers rest

/-- An object with its keys sorted. -/
def dumps (members : List (Text × JsonScalar)) : Text :=
  0x7B :: dumpsMembers (members.insertionSort fun left right => left.1 ≤ right.1) ++ [0x7D]

/-! ## Reading -/

/-- Skip white space between tokens. -/
def skipSpace : Text → Text
  | [] => []
  | point :: rest =>
    if point = 0x20 ∨ point = 0x09 ∨ point = 0x0A ∨ point = 0x0D then skipSpace rest
    else point :: rest

/-- The value of a hexadecimal digit. -/
def hexValue (point : ℕ) : Option ℕ :=
  if 0x30 ≤ point ∧ point ≤ 0x39 then some (point - 0x30)
  else if 0x61 ≤ point ∧ point ≤ 0x66 then some (point - 0x57)
  else if 0x41 ≤ point ∧ point ≤ 0x46 then some (point - 0x37)
  else none

/-- Four hexadecimal digits, and what follows them. -/
def readHexFour : Text → Option (ℕ × Text)
  | a :: b :: c :: d :: rest => do
    let a ← hexValue a
    let b ← hexValue b
    let c ← hexValue c
    let d ← hexValue d
    pure (a * 0x1000 + b * 0x100 + c * 0x10 + d, rest)
  | _ => none

/-- A code unit that announces a second one. -/
abbrev IsHighSurrogate (unit : ℕ) : Prop := 0xD800 ≤ unit ∧ unit ≤ 0xDBFF

/-- A code unit that completes a pair. -/
abbrev IsLowSurrogate (unit : ℕ) : Prop := 0xDC00 ≤ unit ∧ unit ≤ 0xDFFF

/-- The unit after a high surrogate, when an escape spells a low one right there. -/
def readLowSurrogate (text : Text) : Option (ℕ × Text) :=
  if text.take 2 = [0x5C, 0x75] then do
    let (unit, rest) ← readHexFour (text.drop 2)
    if IsLowSurrogate unit then pure (unit, rest) else none
  else none

/-- The code point of a two-character escape. -/
def letterPoint (letter : ℕ) : Option ℕ :=
  if letter = 0x22 ∨ letter = 0x5C ∨ letter = 0x2F then some letter
  else if letter = 0x62 then some 0x08
  else if letter = 0x66 then some 0x0C
  else if letter = 0x6E then some 0x0A
  else if letter = 0x72 then some 0x0D
  else if letter = 0x74 then some 0x09
  else none

/-- The code point an escape of one or two code units spells, after its `u`. -/
def readUnits (text : Text) : Option (ℕ × Text) := do
  let (unit, rest) ← readHexFour text
  if IsHighSurrogate unit then
    match readLowSurrogate rest with
    | some (low, rest) => some (0x10000 + (unit - 0xD800) * 0x400 + (low - 0xDC00), rest)
    | none => some (unit, rest)
  else some (unit, rest)

/-- The code point an escape spells, after its backslash. -/
def readEscape : Text → Option (ℕ × Text)
  | [] => none
  | letter :: rest =>
    match letterPoint letter with
    | some point => some (point, rest)
    | none => if letter = 0x75 then readUnits rest else none

/-- The rest of a string after its opening quote. Every turn takes a code point, so as many
turns as the text is long suffice; the same holds of every other count of turns below. -/
def readString : ℕ → Text → Option (Text × Text)
  | 0, _ => none
  | _, [] => none
  | turns + 1, point :: rest =>
    if point = 0x22 then some ([], rest)
    else if point = 0x5C then do
      let (escaped, rest) ← readEscape rest
      let (value, rest) ← readString turns rest
      pure (escaped :: value, rest)
    else if point < 0x20 then none
    else do
      let (value, rest) ← readString turns rest
      pure (point :: value, rest)

/-- Whether a code point is a decimal digit. -/
def isDigit (point : ℕ) : Bool := 0x30 ≤ point && point ≤ 0x39

/-- The digits at the front of a text, and what follows them. -/
def spanDigits : Text → Text × Text
  | [] => ([], [])
  | point :: rest =>
    if isDigit point then
      let spanned := spanDigits rest
      (point :: spanned.1, spanned.2)
    else ([], point :: rest)

/-- The value of decimal digits. -/
def digitsValue (digits : Text) : ℕ :=
  digits.foldl (fun value digit => value * 10 + (digit - 0x30)) 0

/-- The digits after a decimal point, when there is one with digits. -/
def readFraction (text : Text) : Text × Text :=
  let spanned := spanDigits text.tail
  if text.head? = some 0x2E ∧ spanned.1 ≠ [] then spanned else ([], text)

/-- The value of an exponent, when there is one with digits. -/
def readExponent (text : Text) : Option ℤ × Text :=
  match text with
  | mark :: rest =>
    if mark = 0x65 ∨ mark = 0x45 then
      let negative := rest.head? = some 0x2D
      let signless := if negative ∨ rest.head? = some 0x2B then rest.tail else rest
      let spanned := spanDigits signless
      if spanned.1.isEmpty then (none, text)
      else
        let magnitude : ℤ := digitsValue spanned.1
        (some (if negative then -magnitude else magnitude), spanned.2)
    else (none, text)
  | [] => (none, text)

/-- The integer digits of a number: a lone zero, or digits that do not begin with one. -/
def readIntDigits (text : Text) : Text × Text :=
  if text.head? = some 0x30 then ([0x30], text.tail) else spanDigits text

/-- A number. -/
def readNumber (text : Text) : Except JsonError (JsonValue × Text) :=
  let negative := text.head? = some 0x2D
  let digits := readIntDigits (if negative then text.tail else text)
  if digits.1.isEmpty then .error .decodeError else
  let fraction := readFraction digits.2
  let exponent := readExponent fraction.2
  let sign : ℤ := if negative then -1 else 1
  if fraction.1.isEmpty ∧ exponent.1 = none then
    if maxIntDigits < digits.1.length then .error .valueError
    else .ok (.int (sign * digitsValue digits.1), exponent.2)
  else
    .ok (.float (sign * digitsValue (digits.1 ++ fraction.1))
      (exponent.1.getD 0 - fraction.1.length), exponent.2)

/-- A literal word, when the text begins with it. -/
def readWord (word : Text) (value : JsonValue) (text : Text) :
    Except JsonError (JsonValue × Text) :=
  if word.isPrefixOf text then .ok (value, text.drop word.length) else .error .decodeError

mutual

/-- A value at the front of a text, and what follows it. -/
def readValue : ℕ → Text → Except JsonError (JsonValue × Text)
  | 0, _ => .error .decodeError
  | _, [] => .error .decodeError
  | turns + 1, point :: rest =>
    if point = 0x22 then
      match readString (rest.length + 1) rest with
      | some (value, rest) => .ok (.string value, rest)
      | none => .error .decodeError
    else if point = 0x7B then
      if (skipSpace rest).head? = some 0x7D then .ok (.object [], (skipSpace rest).tail)
      else readMembers turns [] (skipSpace rest)
    else if point = 0x5B then
      if (skipSpace rest).head? = some 0x5D then .ok (.array [], (skipSpace rest).tail)
      else readElements turns [] (skipSpace rest)
    else if point = 0x6E then readWord (textOf "null") .null (point :: rest)
    else if point = 0x74 then readWord (textOf "true") (.bool true) (point :: rest)
    else if point = 0x66 then readWord (textOf "false") (.bool false) (point :: rest)
    else if point = 0x4E then readWord (textOf "NaN") .notFinite (point :: rest)
    else if point = 0x49 then readWord (textOf "Infinity") .notFinite (point :: rest)
    else if (textOf "-Infinity").isPrefixOf (point :: rest) then
      readWord (textOf "-Infinity") .notFinite (point :: rest)
    else readNumber (point :: rest)

/-- The members of an object, from the quote of the next key on. A repeated key keeps its first
place and its last value. -/
def readMembers : ℕ → List (Text × JsonValue) → Text → Except JsonError (JsonValue × Text)
  | 0, _, _ => .error .decodeError
  | turns + 1, members, text =>
    if text.head? ≠ some 0x22 then .error .decodeError else
    match readString text.length text.tail with
    | none => .error .decodeError
    | some (key, afterKey) =>
      if (skipSpace afterKey).head? ≠ some 0x3A then .error .decodeError else do
      let (value, afterValue) ← readValue turns (skipSpace (skipSpace afterKey).tail)
      let members := setEntry key value members
      let next := skipSpace afterValue
      if next.head? = some 0x7D then .ok (.object members, next.tail)
      else if next.head? = some 0x2C then readMembers turns members (skipSpace next.tail)
      else .error .decodeError

/-- The elements of an array, from the next value on. -/
def readElements : ℕ → List JsonValue → Text → Except JsonError (JsonValue × Text)
  | 0, _, _ => .error .decodeError
  | turns + 1, values, text => do
    let (value, afterValue) ← readValue turns text
    let values := values ++ [value]
    let next := skipSpace afterValue
    if next.head? = some 0x5D then .ok (.array values, next.tail)
    else if next.head? = some 0x2C then readElements turns values (skipSpace next.tail)
    else .error .decodeError

end

/-- Read a text that is one document and nothing else. A byte order mark is refused. -/
def loads (text : Text) : Except JsonError JsonValue :=
  if text.head? = some 0xFEFF then .error .decodeError else do
  let (value, rest) ← readValue (text.length + 1) (skipSpace text)
  if (skipSpace rest).isEmpty then .ok value else .error .decodeError

end Library
