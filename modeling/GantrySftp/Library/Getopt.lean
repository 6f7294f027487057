import GantrySftp.Library.Utf8

/-!
# Reading command lines

The arguments of a command are read from the front. One that begins with a dash is a cluster of
letters, each a flag or an option with an argument, which is the rest of the cluster or, where
nothing is left of it, the whole next element. Two dashes end the options, and so does the first
argument that begins with no dash. What follows are the operands.
-/

namespace Library

/-- A text as it is spelled. -/
def Text.of (spelled : String) : Text := spelled.toList.map Char.toNat

/-- What an element of a command line says: a flag, or an option with its argument. -/
inductive Said
  | flag (letter : ℕ)
  | setting (letter : ℕ) (argument : Text)
  deriving DecidableEq

namespace Said

/-- The argument that an element gives a letter. -/
def argument? (letter : ℕ) : Said → Option Text
  | flag _ => none
  | setting other argument => if other = letter then some argument else none

/-- Whether an element is the flag of a letter. -/
def isFlag (letter : ℕ) : Said → Bool
  | flag other => other = letter
  | setting _ _ => false

end Said

namespace Getopt

/-- The dash. -/
def dash : ℕ := 45

variable (takes : ℕ → Option Bool)

/-- What the letters of a cluster say, and the letter whose argument is the next element, if there
is one. `takes` tells whether a letter takes an argument, and nothing of a letter that is unknown. -/
def cluster : Text → Option (List Said × Option ℕ)
  | [] => some ([], none)
  | letter :: letters =>
    match takes letter with
    | none => none
    | some false => (cluster letters).map fun read => (.flag letter :: read.1, read.2)
    | some true =>
      if letters = [] then some ([], some letter) else some ([.setting letter letters], none)

/-- Put what was read before what is read of the rest. -/
def before (said : List Said) (rest : Option (List Said × List Text)) :
    Option (List Said × List Text) :=
  rest.map fun read => (said ++ read.1, read.2)

/-- What the elements of a command line say, and its operands, unless it cannot be read. A letter
may be waiting for its argument. -/
def read : Option ℕ → List Text → Option (List Said × List Text)
  | none, [] => some ([], [])
  | some _, [] => none
  | some letter, argument :: arguments => before [.setting letter argument] (read none arguments)
  | none, argument :: arguments =>
    match argument with
    | first :: letters =>
      if first = dash ∧ letters = [dash] then some ([], arguments)
      else if first = dash ∧ letters ≠ [] then
        match cluster takes letters with
        | none => none
        | some (said, waiting) => before said (read waiting arguments)
      else some ([], argument :: arguments)
    | [] => some ([], argument :: arguments)

/-- What was read before what was read before the rest. -/
theorem before_before (first second : List Said) (rest : Option (List Said × List Text)) :
    before first (before second rest) = before (first ++ second) rest := by
  cases rest with
  | none => rfl
  | some read => exact congrArg (fun said => some (said, read.2)) (List.append_assoc _ _ _).symm

variable {takes}

/-- A letter that takes an argument takes the next element whole. -/
theorem read_setting {letter : ℕ} (htakes : takes letter = some true) (hdash : letter ≠ dash)
    (argument : Text) (arguments : List Text) :
    read takes none ([dash, letter] :: argument :: arguments) =
      before [.setting letter argument] (read takes none arguments) := by
  have hcluster : cluster takes [letter] = some ([], some letter) := by
    simp [cluster, htakes]
  have hread : read takes none ([dash, letter] :: argument :: arguments) =
      before [] (before [.setting letter argument] (read takes none arguments)) := by
    rw [read]
    simp [hdash, hcluster, read]
  rw [hread, before_before, List.nil_append]

/-- A letter that takes no argument is a flag. -/
theorem read_flag {letter : ℕ} (htakes : takes letter = some false) (hdash : letter ≠ dash)
    (arguments : List Text) :
    read takes none ([dash, letter] :: arguments) =
      before [.flag letter] (read takes none arguments) := by
  have hcluster : cluster takes [letter] = some ([.flag letter], none) := by
    simp [cluster, htakes]
  rw [read]
  simp [hdash, hcluster]

/-- Two dashes end the options. -/
theorem read_dashes (arguments : List Text) :
    read takes none ([dash, dash] :: arguments) = some ([], arguments) := by
  rw [read]
  simp

/-- Options with their arguments, each an element of its own, are read as they are given. -/
theorem read_settings {letter : ℕ} (htakes : takes letter = some true) (hdash : letter ≠ dash)
    (given : List Text) (arguments : List Text) :
    read takes none ((given.flatMap fun argument => [[dash, letter], argument]) ++ arguments) =
      before (given.map (.setting letter)) (read takes none arguments) := by
  induction given with
  | nil => simp [before]
  | cons argument given ih =>
    rw [List.flatMap_cons, List.append_assoc]
    change read takes none ([dash, letter] :: argument :: (_ ++ arguments)) = _
    rw [read_setting htakes hdash, ih, before_before]
    rfl

end Getopt

end Library
