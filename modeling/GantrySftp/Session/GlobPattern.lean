import GantrySftp.Session.RemoteNames

/-!
# Glob patterns

The dialect of `glob(3)`, matched one component at a time and byte by byte, with a single place
to go back to: the last star. A bracket expression without an end is an ordinary bracket; a
sub-expression that depends on a locale, or names no character class, is refused whatever the
name it is matched against.
-/

namespace GantrySftp

open Library

/-- The component that crosses directory levels. -/
def recursive : Bytes := "**".toUTF8.toList

/-- Bytes that make a component a pattern rather than a literal name. -/
def magicBytes : Bytes := "*?[".toUTF8.toList

/-- Whether a pattern component contains anything that needs matching. -/
def hasMagic (component : Bytes) : Bool := magicBytes.any component.contains

/-- What crosses levels has magic. -/
theorem hasMagic_recursive : hasMagic recursive = true := by decide +kernel

/-- Split a pattern into the directory it can start from, the parts that must be matched, and
whether only directories are asked for. -/
def splitPattern (pattern : Bytes) (caseSensitive : Bool) : Bytes × List Bytes × Bool :=
  let directoriesOnly := pattern.getLast? = some slash ∧ pattern ≠ [slash]
  let absolute := pattern.head? = some slash
  let parts := splitComponents pattern
  let index := (parts.findIdx? fun part => hasMagic part || part = recursive).getD parts.length
  let index := if ¬ caseSensitive ∧ parts ≠ [] then min index (parts.length - 1) else index
  let joined := List.intercalate [slash] (parts.take index)
  (if absolute then slash :: joined else joined, parts.drop index, directoriesOnly)

/-! ## Bytes -/

namespace Glob

/-- The star. -/
def star : UInt8 := 0x2A

/-- The question mark. -/
def question : UInt8 := 0x3F

/-- The byte that opens a bracket expression. -/
def openClass : UInt8 := 0x5B

/-- The byte that closes one. -/
def closeClass : UInt8 := 0x5D

/-- The byte that escapes the next. -/
def escape : UInt8 := 0x5C

/-- The period. -/
def dot : UInt8 := 0x2E

/-- The byte between the ends of a range. -/
def dash : UInt8 := 0x2D

/-- The byte on both sides of a character class. -/
def colon : UInt8 := 0x3A

/-- The byte on both sides of an equivalence class. -/
def equals : UInt8 := 0x3D

/-- The bytes that negate a bracket expression. -/
def negate : Bytes := "!^".toUTF8.toList

/-- Whether a byte is in an inclusive range. -/
def within (low high byte : UInt8) : Bool := low ≤ byte && byte ≤ high

/-- Lowercase one ASCII byte. -/
def fold (byte : UInt8) : UInt8 := if within 0x41 0x5A byte then byte + 0x20 else byte

/-- The other ASCII case of one byte. -/
def swapCase (byte : UInt8) : UInt8 :=
  if within 0x41 0x5A byte then byte + 0x20
  else if within 0x61 0x7A byte then byte - 0x20
  else byte

/-- ASCII letters. -/
def isAlpha (byte : UInt8) : Bool := within 0x41 0x5A byte || within 0x61 0x7A byte

/-- ASCII digits. -/
def isDigit (byte : UInt8) : Bool := within 0x30 0x39 byte

/-- The POSIX character classes, as the bytes they match. -/
def namedClasses : List (Bytes × (UInt8 → Bool)) :=
  [("alnum".toUTF8.toList, fun byte => isAlpha byte || isDigit byte),
    ("alpha".toUTF8.toList, isAlpha),
    ("blank".toUTF8.toList, fun byte => byte == 0x09 || byte == 0x20),
    ("cntrl".toUTF8.toList, fun byte => within 0x00 0x1F byte || byte == 0x7F),
    ("digit".toUTF8.toList, isDigit),
    ("graph".toUTF8.toList, within 0x21 0x7E),
    ("lower".toUTF8.toList, within 0x61 0x7A),
    ("print".toUTF8.toList, within 0x20 0x7E),
    ("punct".toUTF8.toList, fun byte => within 0x21 0x7E byte && !isAlpha byte && !isDigit byte),
    ("space".toUTF8.toList, fun byte => byte == 0x20 || within 0x09 0x0D byte),
    ("upper".toUTF8.toList, within 0x41 0x5A),
    ("xdigit".toUTF8.toList, fun byte =>
      isDigit byte || within 0x41 0x46 byte || within 0x61 0x66 byte)]

/-! ## Bracket expressions -/

/-- A bracket sub-expression that is refused: a character class that does not exist, or one of
the two that depend on a locale. -/
inductive PatternError
  | unknownClass (name : Bytes)
  | equivalenceClass (content : Bytes)
  | collatingSymbol (content : Bytes)
  deriving DecidableEq

section Classes

variable (caseSensitive : Bool)

/-- Whether a byte of the pattern equals the subject. No subject equals nothing. -/
def equal (left : UInt8) : Option UInt8 → Bool
  | none => false
  | some right => if caseSensitive then left == right else fold left == fold right

/-- Whether the subject is in an inclusive range, folding both ends when asked. -/
def inRange (low high : UInt8) : Option UInt8 → Bool
  | none => false
  | some byte =>
    if caseSensitive then within low high byte
    else within low high byte || within (fold low) (fold high) (fold byte)

/-- Whether the subject is in a character class. -/
def inMembers (members : UInt8 → Bool) : Option UInt8 → Bool
  | none => false
  | some byte => if caseSensitive then members byte else members byte || members (swapCase byte)

/-- What stands before the first `]` that follows a marker, and what stands behind it. -/
def untilClose (marker : UInt8) : Bytes → Option (Bytes × Bytes)
  | [] => none
  | byte :: rest =>
    if byte = marker ∧ rest.head? = some closeClass then some ([], rest.tail)
    else (untilClose marker rest).map fun found => (byte :: found.1, found.2)

/-- Read a character class behind its opening, or nothing when there is none. -/
def readNamedClass (subject : Option UInt8) (rest : Bytes) :
    Except PatternError (Option (Bytes × Bool)) :=
  match untilClose colon rest with
  | none => .ok none
  | some (name, behind) =>
    if name.all (within 0x61 0x7A) then
      match namedClasses.lookup name with
      | none => .error (.unknownClass name)
      | some members => .ok (some (behind, inMembers caseSensitive members subject))
    else .ok none

/-- Read a sub-expression behind its opening bracket, or nothing when it opens none. -/
def readSubExpression (subject : Option UInt8) (marker : UInt8) (rest : Bytes) :
    Except PatternError (Option (Bytes × Bool)) :=
  if marker = colon then readNamedClass caseSensitive subject rest
  else if marker = equals ∨ marker = dot then
    match untilClose marker rest with
    | none => .ok none
    | some (content, _) =>
      if marker = equals then .error (.equivalenceClass content)
      else .error (.collatingSymbol content)
  else .ok none

/-- Consume a class member that is no sub-expression: an escaped byte, a range, or a byte. -/
def plainItem (subject : Option UInt8) (low : UInt8) (rest : Bytes) : Bytes × Bool :=
  match rest with
  | [] => ([], equal caseSensitive low subject)
  | second :: behind =>
    if low = escape then (behind, equal caseSensitive second subject)
    else
      match behind with
      | [] => (rest, equal caseSensitive low subject)
      | high :: after =>
        if second = dash ∧ high ≠ closeClass then
          (after, inRange caseSensitive low high subject)
        else (rest, equal caseSensitive low subject)

/-- Consume one class member and say whether it matched. -/
def matchClassItem (subject : Option UInt8) (low : UInt8) (rest : Bytes) :
    Except PatternError (Bytes × Bool) :=
  match rest with
  | [] => .ok (plainItem caseSensitive subject low rest)
  | marker :: behind =>
    if low = openClass then do
      match ← readSubExpression caseSensitive subject marker behind with
      | some found => pure found
      | none => pure (plainItem caseSensitive subject low rest)
    else .ok (plainItem caseSensitive subject low rest)

/-- Consume class members to the closing bracket, which is a member itself in the first position.
Every member takes a byte at least, so that the length of what is left bounds the turns. -/
def scanItems (subject : Option UInt8) :
    ℕ → (first matched : Bool) → Bytes → Except PatternError (Option (Bytes × Bool))
  | 0, _, _, _ => .ok none
  | turns + 1, first, matched, pattern =>
    match pattern with
    | [] => .ok none
    | low :: rest =>
      if low = closeClass ∧ ¬ first then .ok (some (rest, matched))
      else do
        let (behind, hit) ← matchClassItem caseSensitive subject low rest
        scanItems subject turns false (matched || hit) behind

/-- Read a bracket expression behind its opening bracket: what stands behind it, and whether the
subject is in it. One without an end is an ordinary bracket. -/
def scanClass (subject : Option UInt8) (rest : Bytes) : Except PatternError (Bytes × Bool) := do
  let negated := rest.head?.any negate.contains
  let items := if negated then rest.tail else rest
  match ← scanItems caseSensitive subject (items.length + 1) true false items with
  | some (behind, matched) => pure (behind, matched != negated)
  | none => pure (rest, equal caseSensitive openClass subject)

/-- Match one byte against the first element of a pattern: what is left of the pattern, if it
matched. -/
def matchSingle (pattern : Bytes) (byte : UInt8) : Except PatternError (Option Bytes) :=
  match pattern with
  | [] => .ok none
  | element :: rest =>
    if element = question then .ok (some rest)
    else if element = openClass then do
      let (behind, matched) ← scanClass caseSensitive (some byte) rest
      pure (if matched then some behind else none)
    else
      match rest with
      | escaped :: behind =>
        if element = escape then
          .ok (if equal caseSensitive escaped (some byte) then some behind else none)
        else .ok (if equal caseSensitive element (some byte) then some rest else none)
      | [] => .ok (if equal caseSensitive element (some byte) then some rest else none)

end Classes

/-! ## Matching -/

/-- Where the last star was: what follows it in the pattern, and where in the name it began. -/
abbrev LastStar := Option (Bytes × Bytes)

/-- Match a name against a pattern, going back to the last star where a byte does not match. Ends
after as many turns as it is given. -/
def matchLoop (caseSensitive : Bool) : ℕ → LastStar → (pattern name : Bytes) →
    Except PatternError Bool
  | _, _, pattern, [] => .ok (pattern.all (· == star))
  | 0, _, _, _ :: _ => .ok false
  | turns + 1, last, pattern, byte :: rest =>
    if pattern.head? = some star then
      matchLoop caseSensitive turns (some (pattern.tail, byte :: rest)) pattern.tail (byte :: rest)
    else do
      match ← matchSingle caseSensitive pattern byte with
      | some behind => matchLoop caseSensitive turns last behind rest
      | none =>
        match last with
        | none => pure false
        | some (resumed, begun) =>
          matchLoop caseSensitive turns (some (resumed, begun.tail)) resumed begun.tail

/-- As many turns as a match can take. -/
def matchTurns (pattern name : Bytes) : ℕ :=
  (name.length + 2) * (pattern.length + name.length + 1)

/-- Match a name against a pattern from their first bytes. -/
def matchHere (caseSensitive : Bool) (pattern name : Bytes) : Except PatternError Bool :=
  matchLoop caseSensitive (matchTurns pattern name) none pattern name

/-- Whether a pattern begins with a literal period, escaped or not. -/
def matchesLeadingDot (pattern : Bytes) : Bool :=
  pattern.head? = some dot || [escape, dot].isPrefixOf pattern

/-- Refuse every pattern that matching could refuse: read the bracket expressions against no
byte. -/
def validateLoop : ℕ → Bytes → Except PatternError Unit
  | 0, _ => .ok ()
  | _, [] => .ok ()
  | turns + 1, element :: rest =>
    if element = escape then validateLoop turns rest.tail
    else if element = openClass then do
      let (behind, _) ← scanClass true none rest
      validateLoop turns behind
    else validateLoop turns rest

end Glob

open Glob

/-- Match one name against one pattern component. A leading period is matched only by one. -/
def matchComponent (caseSensitive : Bool) (pattern name : Bytes) : Except PatternError Bool :=
  if name.head? = some dot ∧ ¬ matchesLeadingDot pattern then .ok false
  else matchHere caseSensitive pattern name

/-- Refuse a pattern that will not be honoured. -/
def validatePattern (pattern : Bytes) : Except PatternError Unit :=
  validateLoop pattern.length pattern

end GantrySftp
