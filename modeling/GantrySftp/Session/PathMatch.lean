import GantrySftp.Session.GlobExact

/-!
# Matching a path without a server

A path is matched against a pattern by sweeping over its components: which of its first components
the pattern so far accounts for, brought up to date once for each pattern component. That is the
meaning of the pattern, but for a `**` at its end, which a server's entries are matched against
as if a `*` stood behind it.
-/

namespace GantrySftp

open Library Program Wildcards

/-! ## The sweep -/

/-- Once a `**` can account for some names, it can for any after them. -/
def spreadFrom : (seen : Bool) → List Bool → List Bool
  | _, [] => []
  | seen, value :: rest => (seen || value) :: spreadFrom (seen || value) rest

/-- Let `**` account for zero or more names. -/
def spread (reachable : List Bool) : List Bool := spreadFrom false reachable

section Sweep

variable (caseSensitive : Bool)

/-- Let a component account for a name, if the names before can be accounted for. -/
def matchNext (element : Bytes) (reachable : Bool) (name : Bytes) :
    Except Glob.PatternError Bool :=
  if reachable then matchComponent caseSensitive element name else .ok false

/-- Let a component account for one more name, wherever the names before can be accounted for. -/
def matchEach (element : Bytes) : List Bool → List Bytes → Except Glob.PatternError (List Bool)
  | reachable :: rest, name :: names => do
    let matched ← matchNext caseSensitive element reachable name
    let others ← matchEach element rest names
    pure (matched :: others)
  | _, _ => .ok []

/-- Bring what is reachable up to date with one more component. -/
def sweep (components : List Bytes) (reachable : List Bool) (element : Bytes) :
    Except Glob.PatternError (List Bool) :=
  if element = recursive then .ok (spread reachable)
  else do
    let matched ← matchEach caseSensitive element reachable components
    pure (false :: matched)

/-- What is reachable before any component. -/
def unswept (components : List Bytes) : List Bool :=
  true :: List.replicate components.length false

/-- Match a sequence of pattern components against a sequence of names. -/
def matchComponents (pattern components : List Bytes) : Except Glob.PatternError Bool := do
  let reachable ← pattern.foldlM (sweep caseSensitive components) (unswept components)
  pure (reachable.getD components.length false)

/-- Why a path is not matched against a pattern. -/
inductive MatchError
  | emptyPattern
  | patternError (error : Glob.PatternError)
  deriving DecidableEq

/-- Whether a path matches a pattern. An absolute pattern accounts for the whole path, a relative
one for its end. -/
def matchPath (pattern path : Bytes) : Except MatchError Bool := do
  if pattern = [] then throw .emptyPattern
  (validatePattern pattern).mapError MatchError.patternError
  let absolute := pattern.head? = some slash
  if absolute ∧ path.head? ≠ some slash then pure false
  else
    let components := splitComponents pattern
    let wanted := if absolute then components else recursive :: components
    (matchComponents caseSensitive wanted (splitComponents path)).mapError MatchError.patternError

end Sweep

/-! ## What the sweep computes -/

/-- Whether a component matches a name, however case is taken. -/
def fitsCase (caseSensitive : Bool) (component name : Bytes) : Bool :=
  matchComponent caseSensitive component name = .ok true

/-- What is reachable after some components: the first names that they cover. -/
def swept (caseSensitive : Bool) (names pattern : List Bytes) : List Bool :=
  (List.range (names.length + 1)).map fun count =>
    decide (Covers isRecursive (fitsCase caseSensitive) pattern (names.take count))

section Swept

variable {caseSensitive : Bool}

/-- A value of the spread says whether anything was reachable up to there. -/
theorem getElem?_spreadFrom (seen : Bool) (reachable : List Bool) (index : ℕ) :
    (spreadFrom seen reachable)[index]? =
      if index < reachable.length then some (seen || (reachable.take (index + 1)).any id)
      else none := by
  induction reachable generalizing seen index with
  | nil => simp [spreadFrom]
  | cons value rest ih =>
    cases index with
    | zero => simp [spreadFrom]
    | succ index => simp [spreadFrom, ih, Bool.or_assoc]

/-- One more name is accounted for where the component fits it. -/
theorem matchEach_ok {element : Bytes} {reachable : List Bool} {names : List Bytes}
    {matched : List Bool} (h : matchEach caseSensitive element reachable names = .ok matched) :
    matched = List.zipWith (fun reachable name => reachable && fitsCase caseSensitive element name)
      reachable names := by
  induction reachable generalizing names matched with
  | nil => exact (Except.ok.inj h).symm
  | cons first rest ih =>
    cases names with
    | nil => exact (Except.ok.inj h).symm
    | cons name names =>
      unfold matchEach at h
      cases hfirst : matchNext caseSensitive element first name with
      | error error =>
        rw [hfirst] at h
        cases h
      | ok value =>
        rw [hfirst] at h
        cases hrest : matchEach caseSensitive element rest names with
        | error error =>
          rw [hrest] at h
          cases h
        | ok others =>
          rw [hrest] at h
          obtain rfl := Except.ok.inj h
          rw [List.zipWith_cons_cons, ih hrest]
          congr 1
          unfold matchNext at hfirst
          cases first with
          | false => exact (Except.ok.inj hfirst).symm
          | true =>
            rw [if_pos rfl] at hfirst
            cases value <;> simp [fitsCase, hfirst]

/-- A sweep is refused only where the component is refused for a name. -/
theorem matchEach_error {element : Bytes} {reachable : List Bool} {names : List Bytes}
    {error : Glob.PatternError} (h : matchEach caseSensitive element reachable names = .error error) :
    ∃ name ∈ names, matchComponent caseSensitive element name = .error error := by
  induction reachable generalizing names with
  | nil => cases h
  | cons first rest ih =>
    cases names with
    | nil => cases h
    | cons name names =>
      unfold matchEach at h
      cases hfirst : matchNext caseSensitive element first name with
      | error error' =>
        rw [hfirst] at h
        obtain rfl := Except.error.inj h
        unfold matchNext at hfirst
        cases first with
        | false => cases hfirst
        | true => exact ⟨name, List.mem_cons_self, hfirst⟩
      | ok value =>
        rw [hfirst] at h
        cases hrest : matchEach caseSensitive element rest names with
        | error error' =>
          rw [hrest] at h
          obtain rfl := Except.error.inj h
          obtain ⟨other, hmem, hother⟩ := ih hrest
          exact ⟨other, List.mem_cons_of_mem _ hmem, hother⟩
        | ok others =>
          rw [hrest] at h
          cases h

/-- How many first names the components cover is read off what is reachable. -/
theorem getElem?_swept (names pattern : List Bytes) (index : ℕ) :
    (swept caseSensitive names pattern)[index]? =
      if index ≤ names.length then
        some (decide (Covers isRecursive (fitsCase caseSensitive) pattern (names.take index)))
      else none := by
  unfold swept
  rw [List.getElem?_map]
  split_ifs with hindex
  · rw [List.getElem?_range (Nat.lt_succ_of_le hindex), Option.map_some]
  · rw [List.getElem?_eq_none (by simp; omega), Option.map_none]

/-- As many values as there are first names. -/
theorem length_swept (names pattern : List Bytes) :
    (swept caseSensitive names pattern).length = names.length + 1 := by
  simp [swept]

/-- What is reachable is determined by what it says of each number of first names. -/
theorem eq_swept {names pattern : List Bytes} {reachable : List Bool}
    (hlength : reachable.length = names.length + 1)
    (h : ∀ index value, reachable[index]? = some value →
      (value = true ↔
        Covers isRecursive (fitsCase caseSensitive) pattern (names.take index))) :
    reachable = swept caseSensitive names pattern := by
  refine List.ext_getElem? fun index => ?_
  rw [getElem?_swept]
  split_ifs with hindex
  · cases hvalue : reachable[index]? with
    | none =>
      have := List.getElem?_eq_none_iff.mp hvalue
      omega
    | some value =>
      refine congrArg some ?_
      rw [Bool.eq_iff_iff, h index value hvalue, decide_eq_true_iff]
  · exact List.getElem?_eq_none (by omega)

/-- Before any component, no names are covered but none. -/
theorem unswept_eq (names : List Bytes) : unswept names = swept caseSensitive names [] := by
  refine eq_swept (by simp [unswept]) fun index value hvalue => ?_
  have hcovers : ∀ {names : List Bytes},
      Covers isRecursive (fitsCase caseSensitive) [] names ↔ names = [] := by
    intro names
    constructor
    · rintro ⟨⟩
      rfl
    · rintro rfl
      exact .nil
  unfold unswept at hvalue
  cases index with
  | zero =>
    obtain rfl : true = value := Option.some.inj hvalue
    simp [hcovers]
  | succ index =>
    rw [List.getElem?_cons_succ, List.getElem?_replicate] at hvalue
    split_ifs at hvalue with hindex
    obtain rfl := Option.some.inj hvalue
    cases names with
    | nil => simp at hindex
    | cons name names => simp [hcovers]

/-- A `**` more makes everything behind what was reachable reachable. -/
theorem spread_swept (names pattern : List Bytes) :
    spread (swept caseSensitive names pattern) =
      swept caseSensitive names (pattern ++ [recursive]) := by
  have hrecursive : isRecursive recursive = true := by simp [isRecursive]
  have hlength : ∀ (seen : Bool) (reachable : List Bool),
      (spreadFrom seen reachable).length = reachable.length := by
    intro seen reachable
    induction reachable generalizing seen with
    | nil => rfl
    | cons value rest ih => simp [spreadFrom, ih]
  refine eq_swept (by rw [spread, hlength, length_swept]) fun index value hvalue => ?_
  unfold spread at hvalue
  rw [getElem?_spreadFrom, length_swept] at hvalue
  split_ifs at hvalue with hindex
  obtain rfl := Option.some.inj hvalue
  rw [covers_concat_many hrecursive, Bool.false_or, List.any_eq_true]
  constructor
  · rintro ⟨value, hmem, rfl⟩
    obtain ⟨count, hcount⟩ := List.mem_iff_getElem?.mp hmem
    rw [List.getElem?_take] at hcount
    split_ifs at hcount with hle
    rw [getElem?_swept, if_pos (by omega)] at hcount
    refine ⟨count, by simp only [List.length_take]; omega, ?_⟩
    rw [List.take_take, min_eq_left (by omega)]
    exact of_decide_eq_true (Option.some.inj hcount)
  · rintro ⟨count, hcount, hcovers⟩
    rw [List.length_take] at hcount
    rw [List.take_take, min_eq_left (by omega)] at hcovers
    refine ⟨true, List.mem_iff_getElem?.mpr ⟨count, ?_⟩, rfl⟩
    rw [List.getElem?_take, if_pos (by omega), getElem?_swept, if_pos (by omega),
      decide_eq_true hcovers]

/-- Another component makes what is behind a name that it fits reachable. -/
theorem matchEach_swept {names pattern : List Bytes} {element : Bytes} {matched : List Bool}
    (helement : isRecursive element = false)
    (h : matchEach caseSensitive element (swept caseSensitive names pattern) names =
      .ok matched) :
    false :: matched = swept caseSensitive names (pattern ++ [element]) := by
  rw [matchEach_ok h]
  refine eq_swept (by simp [length_swept]) fun index value hvalue => ?_
  rw [covers_concat_one helement]
  cases index with
  | zero =>
    obtain rfl : false = value := Option.some.inj hvalue
    simp
  | succ index =>
    rw [List.getElem?_cons_succ, List.getElem?_zipWith, getElem?_swept] at hvalue
    cases hname : names[index]? with
    | none =>
      rw [hname] at hvalue
      split_ifs at hvalue
    | some name =>
      have hlt := (List.getElem?_eq_some_iff.mp hname).1
      rw [hname, if_pos hlt.le] at hvalue
      obtain rfl := Option.some.inj hvalue
      have htake : names.take (index + 1) = names.take index ++ [name] := by
        rw [List.take_add_one, hname]
        rfl
      rw [Bool.and_eq_true, decide_eq_true_iff, htake]
      constructor
      · rintro ⟨hcovers, hfit⟩
        exact ⟨_, _, rfl, hcovers, hfit⟩
      · rintro ⟨init, last, heq, hcovers, hfit⟩
        obtain ⟨rfl, hlast⟩ := List.append_inj' heq rfl
        rw [List.singleton_inj.mp hlast]
        exact ⟨hcovers, hfit⟩

/-- One more component brings what is reachable up to date. -/
theorem sweep_swept {names pattern : List Bytes} {element : Bytes} {reachable : List Bool}
    (h : sweep caseSensitive names (swept caseSensitive names pattern) element = .ok reachable) :
    reachable = swept caseSensitive names (pattern ++ [element]) := by
  unfold sweep at h
  split_ifs at h with helement
  · obtain rfl := Except.ok.inj h
    rw [helement, spread_swept]
  · cases hmatched : matchEach caseSensitive element (swept caseSensitive names pattern) names with
    | error error =>
      rw [hmatched] at h
      cases h
    | ok matched =>
      rw [hmatched] at h
      obtain rfl := Except.ok.inj h
      exact matchEach_swept (by simpa [isRecursive] using helement) hmatched

/-- A sweep over components ends with what they cover, or with a component that is refused. -/
theorem sweeps (names : List Bytes) {reachable : List Bool} (pattern done : List Bytes)
    (hreachable : reachable = swept caseSensitive names done) :
    match pattern.foldlM (sweep caseSensitive names) reachable with
    | .ok reachable' => reachable' = swept caseSensitive names (done ++ pattern)
    | .error error => ∃ element ∈ pattern, ∃ name ∈ names,
        matchComponent caseSensitive element name = .error error := by
  subst hreachable
  induction pattern generalizing done with
  | nil => exact congrArg _ (List.append_nil _).symm
  | cons element pattern ih =>
    rw [List.foldlM_cons]
    cases hsweep : sweep caseSensitive names (swept caseSensitive names done) element with
    | error error =>
      unfold sweep at hsweep
      split_ifs at hsweep
      cases hmatched : matchEach caseSensitive element (swept caseSensitive names done) names with
      | ok matched =>
        rw [hmatched] at hsweep
        cases hsweep
      | error error' =>
        rw [hmatched] at hsweep
        obtain rfl := Except.error.inj hsweep
        obtain ⟨name, hmem, hname⟩ := matchEach_error hmatched
        exact ⟨element, List.mem_cons_self, name, hmem, hname⟩
    | ok reachable =>
      have hrest := ih (done ++ [element])
      rw [← sweep_swept hsweep, List.append_assoc] at hrest
      change match pattern.foldlM (sweep caseSensitive names) reachable with
        | .ok reachable' => reachable' = swept caseSensitive names (done ++ element :: pattern)
        | .error error => ∃ other ∈ element :: pattern, ∃ name ∈ names,
            matchComponent caseSensitive other name = .error error
      cases hfold : pattern.foldlM (sweep caseSensitive names) reachable with
      | ok reachable' =>
        rw [hfold] at hrest
        exact hrest
      | error error =>
        rw [hfold] at hrest
        obtain ⟨other, hmem, hname⟩ := hrest
        exact ⟨other, List.mem_cons_of_mem _ hmem, hname⟩

end Swept

/-- The sweep says whether the components cover the names, each `**` any number of them and every
other component one that it matches. It is refused only where a component is. -/
theorem matchComponents_covers (caseSensitive : Bool) (pattern components : List Bytes) :
    match matchComponents caseSensitive pattern components with
    | .ok matched =>
      matched = true ↔ Covers isRecursive (fitsCase caseSensitive) pattern components
    | .error error => ∃ element ∈ pattern, ∃ name ∈ components,
        matchComponent caseSensitive element name = .error error := by
  have hunswept : unswept components = swept caseSensitive components [] := unswept_eq components
  have hsweeps := sweeps components pattern [] hunswept
  unfold matchComponents
  cases hfold : pattern.foldlM (sweep caseSensitive components) (unswept components) with
  | error error =>
    rw [hfold] at hsweeps
    exact hsweeps
  | ok reachable =>
    rw [hfold] at hsweeps
    dsimp only at hsweeps
    subst hsweeps
    change List.getD _ _ _ = true ↔ _
    rw [List.getD_eq_getElem?_getD, List.nil_append, getElem?_swept, if_pos le_rfl,
      Option.getD_some, List.take_length, decide_eq_true_iff]

end GantrySftp
