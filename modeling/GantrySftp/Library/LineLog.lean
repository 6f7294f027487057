import GantrySftp.Library.Dict
import GantrySftp.Library.Lines

/-!
# Logs of lines

A log is folded line by line into a dictionary: a reader makes of each line nothing, a change or
an error, and the fold stops at the first error. What a fold leaves was put there by some line.
-/

namespace Library

/-- What a reader makes of a line: nothing, a change, or an error. -/
abbrev LineReader (ε κ ν : Type) := Text → Except ε (Option (Update κ ν))

/-- Whether a result is a given error can be decided whatever the values are. -/
instance decidableEqError {ε α : Type} [DecidableEq ε] (result : Except ε α) (error : ε) :
    Decidable (result = .error error) :=
  match result with
  | .ok _ => isFalse nofun
  | .error raised => decidable_of_iff (raised = error) ⟨congrArg _, Except.error.inj⟩

namespace LineReader

variable {ε κ ν : Type}

/-- The changes lines make, up to the first that raises. -/
def changes (read : LineReader ε κ ν) : List Text → List (Update κ ν)
  | [] => []
  | text :: rest =>
    match read text with
    | .error _ => []
    | .ok none => changes read rest
    | .ok (some change) => change :: changes read rest

/-- The first thing lines raise. -/
def raised (read : LineReader ε κ ν) : List Text → Option ε
  | [] => none
  | text :: rest =>
    match read text with
    | .error error => some error
    | .ok _ => raised read rest

/-- A line that says nothing changes nothing. -/
theorem silent {read : LineReader ε κ ν} {text : Text} (h : read text = .ok none)
    (rest : List Text) :
    changes read (text :: rest) = changes read rest ∧
      raised read (text :: rest) = raised read rest := by
  simp [changes, raised, h]

/-- A line that makes a change makes it first. -/
theorem stating {read : LineReader ε κ ν} {text : Text} {change : Update κ ν}
    (h : read text = .ok (some change)) (rest : List Text) :
    changes read (text :: rest) = change :: changes read rest ∧
      raised read (text :: rest) = raised read rest := by
  simp [changes, raised, h]

/-- More lines only add changes, and none once a line raises. -/
theorem changes_append (read : LineReader ε κ ν) (front back : List Text) :
    changes read (front ++ back) =
      changes read front ++ (if raised read front = none then changes read back else []) := by
  induction front with
  | nil => rfl
  | cons text rest ih =>
    rw [List.cons_append, changes, changes, raised]
    cases read text with
    | error error => rfl
    | ok change =>
      cases change with
      | none => exact ih
      | some change => exact congrArg (change :: ·) ih

/-- The first thing raised is raised by the front, or else by the back. -/
theorem raised_append (read : LineReader ε κ ν) (front back : List Text) :
    raised read (front ++ back) = (raised read front).or (raised read back) := by
  induction front with
  | nil => simp [raised]
  | cons text rest ih =>
    rw [List.cons_append, raised, raised]
    cases read text with
    | error error => rfl
    | ok change => exact ih

/-- Fold lines into a dictionary in place, up to the first that raises. -/
def apply [DecidableEq κ] (read : LineReader ε κ ν) (dict : Dict κ ν) :
    List Text → Dict κ ν × Option ε
  | [] => (dict, none)
  | text :: rest =>
    match read text with
    | .error error => (dict, some error)
    | .ok none => apply read dict rest
    | .ok (some change) => apply read (dict.update change) rest

/-- Folding lines makes their changes and raises what they raise. -/
theorem apply_eq [DecidableEq κ] (read : LineReader ε κ ν) (dict : Dict κ ν)
    (lines : List Text) :
    apply read dict lines = (dict.updateAll (changes read lines), raised read lines) := by
  induction lines generalizing dict with
  | nil => rfl
  | cons text rest ih =>
    unfold apply changes raised
    cases read text with
    | error error => rfl
    | ok change =>
      cases change with
      | none => exact ih dict
      | some change => exact ih (dict.update change)

/-- Lines raise nothing when each of them is read. -/
theorem raised_eq_none_iff {read : LineReader ε κ ν} {lines : List Text} :
    raised read lines = none ↔ ∀ text ∈ lines, ∀ error, read text ≠ .error error := by
  induction lines with
  | nil => simp [raised]
  | cons text rest ih =>
    unfold raised
    cases hread : read text with
    | error error => simp [hread]
    | ok change => simp [hread, ih]

/-- A change of some lines is the change of one of them. -/
theorem mem_changes {read : LineReader ε κ ν} {lines : List Text} {change : Update κ ν}
    (h : change ∈ changes read lines) : ∃ text ∈ lines, read text = .ok (some change) := by
  induction lines with
  | nil => cases h
  | cons text rest ih =>
    unfold changes at h
    cases hread : read text with
    | error error =>
      rw [hread] at h
      cases h
    | ok made =>
      rw [hread] at h
      cases made with
      | none =>
        obtain ⟨other, hmem, hother⟩ := ih h
        exact ⟨other, List.mem_cons_of_mem _ hmem, hother⟩
      | some made =>
        obtain rfl | h := List.mem_cons.mp h
        · exact ⟨text, List.mem_cons_self, hread⟩
        · obtain ⟨other, hmem, hother⟩ := ih h
          exact ⟨other, List.mem_cons_of_mem _ hmem, hother⟩

end LineReader

variable {κ ν : Type} [DecidableEq κ]

/-- The last change to a key is one of the changes. -/
theorem mem_of_lastChange {key : κ} {changes : List (Update κ ν)} {value : Option ν}
    (h : lastChange key changes = some value) : { key := key, value := value } ∈ changes := by
  induction changes with
  | nil => cases h
  | cons change rest ih =>
    unfold lastChange at h
    cases hlast : lastChange key rest with
    | some later =>
      rw [hlast] at h ih
      exact List.mem_cons_of_mem _ (ih h)
    | none =>
      rw [hlast] at h
      by_cases hkey : change.key = key
      · rw [if_pos hkey] at h
        cases h
        subst hkey
        exact List.mem_cons_self
      · cases (if_neg hkey).symm.trans h

/-- A value found after changes to an empty dictionary was put there by one of them. -/
theorem Dict.mem_of_get_updateAll {changes : List (Update κ ν)} {key : κ} {value : ν}
    (h : ((Dict.empty : Dict κ ν).updateAll changes).get key = some value) :
    { key := key, value := some value } ∈ changes := by
  rw [Dict.get_updateAll, Dict.get_empty] at h
  cases hlast : lastChange key changes with
  | none =>
    rw [hlast] at h
    cases h
  | some last =>
    rw [hlast] at h
    obtain rfl : last = some value := h
    exact mem_of_lastChange hlast

end Library
