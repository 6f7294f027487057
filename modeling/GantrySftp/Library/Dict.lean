import Mathlib.Data.List.Nodup
import Mathlib.Data.List.Basic

/-!
# Dictionaries in insertion order

A dictionary is a list of entries with distinct keys. Setting a present key keeps its place,
setting an absent one appends it, and popping removes it. Sequences of such updates act on each
key separately, so applying a prefix of a sequence twice changes nothing a lookup can see.
-/

namespace Library

variable {κ ν : Type} [DecidableEq κ]

/-- Entries with distinct keys, in insertion order. -/
@[ext] structure Dict (κ ν : Type) where
  entries : List (κ × ν)
  nodup : (entries.map Prod.fst).Nodup

/-- Replace the value of a key in place, or append the key. -/
def setEntry (key : κ) (value : ν) : List (κ × ν) → List (κ × ν)
  | [] => [(key, value)]
  | entry :: rest =>
    if entry.1 = key then (key, value) :: rest else entry :: setEntry key value rest

/-- The value of a key in a list of entries. -/
def getEntry (key : κ) : List (κ × ν) → Option ν
  | [] => none
  | entry :: rest => if entry.1 = key then some entry.2 else getEntry key rest

/-- Setting a key adds no other. -/
theorem mem_keys_setEntry {key other : κ} {value : ν} {entries : List (κ × ν)} :
    other ∈ (setEntry key value entries).map Prod.fst ↔
      other = key ∨ other ∈ entries.map Prod.fst := by
  induction entries with
  | nil => simp [setEntry]
  | cons entry rest ih =>
    unfold setEntry
    split_ifs with hkey
    · simp [← hkey]
    · rw [List.map_cons, List.mem_cons, ih, List.map_cons, List.mem_cons]
      tauto

/-- Setting a key adds no other entry. -/
theorem mem_setEntry {key : κ} {value : ν} {item : κ × ν} {entries : List (κ × ν)}
    (h : item ∈ setEntry key value entries) : item = (key, value) ∨ item ∈ entries := by
  induction entries with
  | nil => exact Or.inl (List.mem_singleton.mp h)
  | cons entry rest ih =>
    unfold setEntry at h
    by_cases hkey : entry.1 = key
    · rw [if_pos hkey] at h
      exact (List.mem_cons.mp h).imp_right (List.mem_cons_of_mem _)
    · rw [if_neg hkey] at h
      obtain rfl | hmem := List.mem_cons.mp h
      · exact Or.inr List.mem_cons_self
      · exact (ih hmem).imp_right (List.mem_cons_of_mem _)

/-- Setting a key keeps the keys distinct. -/
theorem nodup_setEntry (key : κ) (value : ν) {entries : List (κ × ν)}
    (hnodup : (entries.map Prod.fst).Nodup) :
    ((setEntry key value entries).map Prod.fst).Nodup := by
  induction entries with
  | nil => simp [setEntry]
  | cons entry rest ih =>
    rw [List.map_cons, List.nodup_cons] at hnodup
    unfold setEntry
    split_ifs with hkey
    · rw [List.map_cons, List.nodup_cons]
      exact ⟨hkey ▸ hnodup.1, hnodup.2⟩
    · rw [List.map_cons, List.nodup_cons, mem_keys_setEntry]
      exact ⟨not_or.mpr ⟨hkey, hnodup.1⟩, ih hnodup.2⟩

/-- Looking a key up after setting one. -/
theorem getEntry_setEntry (key other : κ) (value : ν) (entries : List (κ × ν)) :
    getEntry other (setEntry key value entries) =
      if key = other then some value else getEntry other entries := by
  induction entries with
  | nil => rfl
  | cons entry rest ih =>
    unfold setEntry
    by_cases hkey : entry.1 = key
    · subst hkey
      simp only [if_pos, getEntry]
      split_ifs <;> rfl
    · simp only [if_neg hkey, getEntry, ih]
      split_ifs with h1 h2
      · exact absurd (h1.trans h2.symm) hkey
      all_goals rfl

/-- Looking a key up after filtering one out. -/
theorem getEntry_filter (key other : κ) (entries : List (κ × ν)) :
    getEntry other (entries.filter fun entry => entry.1 ≠ key) =
      if key = other then none else getEntry other entries := by
  induction entries with
  | nil => simp [getEntry]
  | cons entry rest ih =>
    by_cases hkey : entry.1 = key
    · simp only [List.filter_cons, hkey, ne_eq, not_true_eq_false, decide_false,
        Bool.false_eq_true, if_false, ih, getEntry]
      split_ifs <;> rfl
    · simp only [List.filter_cons, hkey, ne_eq, not_false_eq_true, decide_true, if_true, getEntry,
        ih]
      split_ifs with h1 h2
      · exact absurd (h1.trans h2.symm) hkey
      all_goals rfl

/-- A key is among the entries when it has a value. -/
theorem mem_keys_iff_getEntry {key : κ} {entries : List (κ × ν)} :
    key ∈ entries.map Prod.fst ↔ (getEntry key entries).isSome = true := by
  induction entries with
  | nil => simp [getEntry]
  | cons entry rest ih =>
    unfold getEntry
    by_cases hkey : entry.1 = key
    · simp [hkey]
    · simp only [List.map_cons, List.mem_cons, if_neg hkey, ← ih, or_iff_right_iff_imp]
      exact fun heq => absurd heq.symm hkey

/-- Setting an absent key adds one entry. -/
theorem length_setEntry {key : κ} {entries : List (κ × ν)} (value : ν)
    (h : getEntry key entries = none) :
    (setEntry key value entries).length = entries.length + 1 := by
  induction entries with
  | nil => rfl
  | cons entry rest ih =>
    unfold getEntry at h
    unfold setEntry
    split_ifs at h ⊢
    simp [ih h]

/-- Filtering a present key out of entries with distinct keys removes one entry. -/
theorem length_filter_add_one {key : κ} {value : ν} {entries : List (κ × ν)}
    (hnodup : (entries.map Prod.fst).Nodup) (h : getEntry key entries = some value) :
    (entries.filter fun entry => entry.1 ≠ key).length + 1 = entries.length := by
  induction entries with
  | nil => cases h
  | cons entry rest ih =>
    rw [List.map_cons, List.nodup_cons] at hnodup
    unfold getEntry at h
    by_cases hkey : entry.1 = key
    · have hall : rest.filter (fun entry => entry.1 ≠ key) = rest := by
        apply List.filter_eq_self.mpr
        intro other hmem
        have hother : other.1 ≠ key := by
          rintro rfl
          exact hnodup.1 (hkey ▸ List.mem_map_of_mem hmem)
        simp [hother]
      rw [List.filter_cons_of_neg (by simp [hkey]), hall, List.length_cons]
    · rw [if_neg hkey] at h
      rw [List.filter_cons_of_pos (by simp [hkey]), List.length_cons, List.length_cons,
        ih hnodup.2 h]

/-- The value of a key is one it is entered with. -/
theorem mem_of_getEntry {key : κ} {value : ν} {entries : List (κ × ν)}
    (h : getEntry key entries = some value) : (key, value) ∈ entries := by
  induction entries with
  | nil => cases h
  | cons entry rest ih =>
    unfold getEntry at h
    split_ifs at h with hkey
    · cases h
      subst hkey
      exact List.mem_cons_self
    · exact List.mem_cons_of_mem _ (ih h)

/-- With distinct keys, the value of a key is the one it is entered with. -/
theorem getEntry_eq_some_iff {key : κ} {value : ν} {entries : List (κ × ν)}
    (hnodup : (entries.map Prod.fst).Nodup) :
    getEntry key entries = some value ↔ (key, value) ∈ entries := by
  induction entries with
  | nil => simp [getEntry]
  | cons entry rest ih =>
    rw [List.map_cons, List.nodup_cons] at hnodup
    unfold getEntry
    rw [List.mem_cons]
    by_cases hkey : entry.1 = key
    · have habsent : (key, value) ∉ rest := fun hmem =>
        hnodup.1 (hkey ▸ List.mem_map_of_mem hmem)
      rw [if_pos hkey, Option.some.injEq, or_iff_left habsent, Prod.ext_iff]
      exact ⟨fun h => ⟨hkey.symm, h.symm⟩, fun h => h.2.symm⟩
    · have hother : (key, value) ≠ entry := fun h => hkey (h ▸ rfl)
      rw [if_neg hkey, ih hnodup.2, or_iff_right hother]

/-- Lookups do not depend on the order of the entries. -/
theorem getEntry_perm {entries entries' : List (κ × ν)} (h : entries.Perm entries')
    (hnodup : (entries.map Prod.fst).Nodup) (key : κ) :
    getEntry key entries = getEntry key entries' := by
  have hnodup' : (entries'.map Prod.fst).Nodup := (h.map Prod.fst).nodup_iff.mp hnodup
  apply Option.ext
  intro value
  rw [getEntry_eq_some_iff hnodup, getEntry_eq_some_iff hnodup', h.mem_iff]

/-- Setting an absent key appends it. -/
theorem setEntry_absent {key : κ} {entries : List (κ × ν)} (value : ν)
    (h : key ∉ entries.map Prod.fst) : setEntry key value entries = entries ++ [(key, value)] := by
  induction entries with
  | nil => rfl
  | cons entry rest ih =>
    rw [List.map_cons, List.mem_cons, not_or] at h
    rw [setEntry, if_neg (Ne.symm h.1), ih h.2, List.cons_append]

namespace Dict

/-- No entries. -/
def empty : Dict κ ν where
  entries := []
  nodup := List.nodup_nil

/-- The value of a key. -/
def get (dict : Dict κ ν) (key : κ) : Option ν := getEntry key dict.entries

/-- Set the value of a key. -/
def set (dict : Dict κ ν) (key : κ) (value : ν) : Dict κ ν where
  entries := setEntry key value dict.entries
  nodup := nodup_setEntry key value dict.nodup

/-- Remove a key, if it is there. -/
def pop (dict : Dict κ ν) (key : κ) : Dict κ ν where
  entries := dict.entries.filter fun entry => entry.1 ≠ key
  nodup := dict.nodup.sublist (List.filter_sublist.map _)

/-- The values, in insertion order. -/
def values (dict : Dict κ ν) : List ν := dict.entries.map Prod.snd

/-- The values are those of the keys. -/
theorem mem_values_iff {dict : Dict κ ν} {value : ν} :
    value ∈ dict.values ↔ ∃ key, dict.get key = some value := by
  unfold values get
  rw [List.mem_map]
  constructor
  · rintro ⟨⟨key, _⟩, hmem, rfl⟩
    exact ⟨key, (getEntry_eq_some_iff dict.nodup).mpr hmem⟩
  · rintro ⟨key, hget⟩
    exact ⟨_, (getEntry_eq_some_iff dict.nodup).mp hget, rfl⟩

@[simp] theorem get_empty (key : κ) : (empty : Dict κ ν).get key = none := rfl

@[simp] theorem get_set (dict : Dict κ ν) (key other : κ) (value : ν) :
    (dict.set key value).get other = if key = other then some value else dict.get other :=
  getEntry_setEntry key other value dict.entries

@[simp] theorem get_pop (dict : Dict κ ν) (key other : κ) :
    (dict.pop key).get other = if key = other then none else dict.get other :=
  getEntry_filter key other dict.entries

/-- Popping keys one after another removes them all. -/
theorem get_foldl_pop (keys : List κ) (dict : Dict κ ν) (other : κ) :
    (keys.foldl pop dict).get other = if other ∈ keys then none else dict.get other := by
  induction keys generalizing dict with
  | nil => simp
  | cons key keys ih =>
    rw [List.foldl_cons, ih, get_pop]
    by_cases hkey : key = other
    · simp [hkey]
    · simp [hkey, Ne.symm hkey]

/-- Setting an absent key adds one entry. -/
theorem length_set {dict : Dict κ ν} {key : κ} (value : ν) (h : dict.get key = none) :
    (dict.set key value).entries.length = dict.entries.length + 1 :=
  length_setEntry value h

/-- Popping a present key removes one entry. -/
theorem length_pop {dict : Dict κ ν} {key : κ} {value : ν} (h : dict.get key = some value) :
    (dict.pop key).entries.length + 1 = dict.entries.length :=
  length_filter_add_one dict.nodup h

end Dict

/-- A change to a dictionary: a key set to a value, or removed. -/
structure Update (κ ν : Type) where
  key : κ
  value : Option ν

/-- Make one change. -/
def Dict.update (dict : Dict κ ν) (change : Update κ ν) : Dict κ ν :=
  match change.value with
  | some value => dict.set change.key value
  | none => dict.pop change.key

/-- Make changes in order. -/
def Dict.updateAll (dict : Dict κ ν) (changes : List (Update κ ν)) : Dict κ ν :=
  changes.foldl Dict.update dict

/-- Changes are made front to back. -/
theorem Dict.updateAll_append (dict : Dict κ ν) (front back : List (Update κ ν)) :
    dict.updateAll (front ++ back) = (dict.updateAll front).updateAll back :=
  List.foldl_append

/-- A change decides the value of its key and no other. -/
@[simp] theorem Dict.get_update (dict : Dict κ ν) (change : Update κ ν) (key : κ) :
    (dict.update change).get key = if change.key = key then change.value else dict.get key := by
  unfold Dict.update
  cases change.value with
  | none => exact Dict.get_pop dict change.key key
  | some value => exact Dict.get_set dict change.key key value

/-- Setting the entries of a list with distinct keys, none of them present, appends them. -/
theorem Dict.updateAll_entries {dict : Dict κ ν} {entries : List (κ × ν)}
    (hnodup : ((dict.entries ++ entries).map Prod.fst).Nodup) :
    (dict.updateAll (entries.map fun entry => { key := entry.1, value := some entry.2 })).entries =
      dict.entries ++ entries := by
  induction entries generalizing dict with
  | nil => exact (List.append_nil _).symm
  | cons entry rest ih =>
    have habsent : entry.1 ∉ dict.entries.map Prod.fst := by
      rw [List.map_append, List.map_cons] at hnodup
      exact fun hmem => (List.nodup_append.mp hnodup).2.2 _ hmem _ List.mem_cons_self rfl
    have hset : (dict.set entry.1 entry.2).entries = dict.entries ++ [entry] :=
      setEntry_absent entry.2 habsent
    have hrest := @ih (dict.set entry.1 entry.2) (by
      rwa [hset, List.append_assoc, List.singleton_append])
    rw [hset, List.append_assoc, List.singleton_append] at hrest
    exact hrest

/-- A dictionary is what setting its entries one after the other makes. -/
theorem Dict.updateAll_self (dict : Dict κ ν) :
    (Dict.empty : Dict κ ν).updateAll
      (dict.entries.map fun entry => { key := entry.1, value := some entry.2 }) = dict := by
  have hentries := @Dict.updateAll_entries _ _ _ (Dict.empty : Dict κ ν) dict.entries dict.nodup
  cases dict
  exact Dict.ext hentries

/-- The last change to a key, if any of the changes is to it. -/
def lastChange (key : κ) : List (Update κ ν) → Option (Option ν)
  | [] => none
  | change :: rest =>
    match lastChange key rest with
    | some value => some value
    | none => if change.key = key then some change.value else none

/-- A lookup after changes sees the last change to its key, or the dictionary before them. -/
theorem Dict.get_updateAll (dict : Dict κ ν) (changes : List (Update κ ν)) (key : κ) :
    (dict.updateAll changes).get key = (lastChange key changes).getD (dict.get key) := by
  induction changes generalizing dict with
  | nil => rfl
  | cons change rest ih =>
    have hstep : dict.updateAll (change :: rest) = (dict.update change).updateAll rest := rfl
    rw [hstep, ih, lastChange, Dict.get_update]
    cases lastChange key rest with
    | some value => rfl
    | none => split_ifs <;> rfl

/-- A change to a key leaves a last change to it. -/
theorem lastChange_ne_none {change : Update κ ν} {changes : List (Update κ ν)}
    (h : change ∈ changes) : lastChange change.key changes ≠ none := by
  induction changes with
  | nil => cases h
  | cons first rest ih =>
    unfold lastChange
    obtain rfl | hmem := List.mem_cons.mp h
    · rw [if_pos rfl]
      cases lastChange change.key rest <;> exact Option.some_ne_none _
    · obtain ⟨value, hvalue⟩ := Option.ne_none_iff_exists'.mp (ih hmem)
      rw [hvalue]
      exact Option.some_ne_none _

/-- Changes made to dictionaries that agree on a key leave them agreeing on it. -/
theorem Dict.get_updateAll_congr {dict dict' : Dict κ ν} {key : κ}
    (h : dict.get key = dict'.get key) (changes : List (Update κ ν)) :
    (dict.updateAll changes).get key = (dict'.updateAll changes).get key := by
  rw [Dict.get_updateAll, Dict.get_updateAll, h]

/-- A later change hides an earlier one. -/
theorem lastChange_append (key : κ) (front back : List (Update κ ν)) :
    lastChange key (front ++ back) = (lastChange key back).or (lastChange key front) := by
  induction front with
  | nil => simp [lastChange]
  | cons change rest ih =>
    rw [List.cons_append, lastChange, ih, lastChange]
    cases lastChange key back with
    | some value => rfl
    | none => rfl

/-- Changes already made may be made again as the start of a longer sequence. -/
theorem Dict.get_updateAll_again (dict : Dict κ ν) (front back : List (Update κ ν)) (key : κ) :
    ((dict.updateAll front).updateAll (front ++ back)).get key =
      (dict.updateAll (front ++ back)).get key := by
  rw [get_updateAll, get_updateAll, get_updateAll dict, lastChange_append]
  cases lastChange key back with
  | some value => rfl
  | none => cases lastChange key front <;> rfl

end Library
