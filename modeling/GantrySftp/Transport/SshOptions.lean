import GantrySftp.Library.Dict
import GantrySftp.Library.Getopt
import Mathlib.Data.List.Induction

/-!
# The options of an ssh command

`ssh` matches the names of its options without regard to the case of ASCII letters. A caller's
options are laid over the defaults so that each name keeps one entry, the last that was given for
it. Names are matched for that by the lower case of Python, which knows more letters than ASCII.
-/

namespace GantrySftp.Transport

open Library

/-! ## Lower case -/

/-- An ASCII letter in lower case, and every other character as it is. -/
def asciiLowerOf (point : ℕ) : ℕ := if 65 ≤ point ∧ point ≤ 90 then point + 32 else point

/-- A text with its ASCII letters in lower case. -/
def asciiLower (text : Text) : Text := text.map asciiLowerOf

/-- What a Python interpreter knows of characters: the lower case of each, and whether a capital
sigma between two texts ends a word. For ASCII letters the one is as in ASCII, and the other does
not depend on their case. -/
structure CharacterData where
  lowerOf : ℕ → Text
  endsWord : Text → Text → Bool
  lowerOf_ascii : ∀ point, point < 128 → lowerOf point = [asciiLowerOf point]
  endsWord_ascii : ∀ before after,
    endsWord (asciiLower before) (asciiLower after) = endsWord before after

/-- The capital sigma. -/
def capitalSigma : ℕ := 0x3A3

namespace CharacterData

variable (data : CharacterData)

/-- A text in lower case, behind the one before it. A capital sigma has two lower cases. -/
def lowerBehind (before : Text) : Text → Text
  | [] => []
  | point :: after =>
    (if point = capitalSigma then [if data.endsWord before after then 0x3C2 else 0x3C3]
      else data.lowerOf point) ++ lowerBehind (before ++ [point]) after

/-- A text in lower case. -/
def lower (text : Text) : Text := data.lowerBehind [] text

end CharacterData

/-- The ASCII lower case of a character has no other. -/
theorem asciiLowerOf_idem (point : ℕ) : asciiLowerOf (asciiLowerOf point) = asciiLowerOf point := by
  unfold asciiLowerOf
  split_ifs <;> omega

/-- Lower case does not depend on the case of ASCII letters. -/
theorem CharacterData.lowerBehind_asciiLower (data : CharacterData) (before text : Text) :
    data.lowerBehind (asciiLower before) (asciiLower text) = data.lowerBehind before text := by
  induction text generalizing before with
  | nil => rfl
  | cons point after ih =>
    have hrest := ih (before ++ [point])
    have hsigma : asciiLowerOf point = capitalSigma ↔ point = capitalSigma := by
      unfold asciiLowerOf capitalSigma
      split_ifs <;> omega
    have hlower : data.lowerOf (asciiLowerOf point) = data.lowerOf point := by
      by_cases hascii : point < 128
      · have hlow : asciiLowerOf point < 128 := by
          unfold asciiLowerOf
          split_ifs <;> omega
        rw [data.lowerOf_ascii _ hlow, data.lowerOf_ascii _ hascii, asciiLowerOf_idem]
      · rw [asciiLowerOf, if_neg (by omega)]
    have hbefore : asciiLower (before ++ [point]) = asciiLower before ++ [asciiLowerOf point] :=
      List.map_append
    rw [hbefore] at hrest
    change (if asciiLowerOf point = capitalSigma then
      [if data.endsWord (asciiLower before) (asciiLower after) then 0x3C2 else 0x3C3]
        else data.lowerOf (asciiLowerOf point)) ++
      data.lowerBehind (asciiLower before ++ [asciiLowerOf point]) (asciiLower after) = _
    rw [hrest, data.endsWord_ascii, hlower]
    simp only [hsigma, CharacterData.lowerBehind]

/-- Texts that are the same up to the case of ASCII letters have one lower case. -/
theorem CharacterData.lower_congr (data : CharacterData) {left right : Text}
    (h : asciiLower left = asciiLower right) : data.lower left = data.lower right := by
  unfold CharacterData.lower
  rw [← data.lowerBehind_asciiLower [] left, ← data.lowerBehind_asciiLower [] right, h]

/-- The lower case of a text of ASCII characters is that of ASCII. -/
theorem CharacterData.lowerBehind_of_ascii (data : CharacterData) (before : Text) {text : Text}
    (h : ∀ point ∈ text, point < 128) : data.lowerBehind before text = asciiLower text := by
  induction text generalizing before with
  | nil => rfl
  | cons point after ih =>
    have hpoint : point < 128 := h point List.mem_cons_self
    have hsigma : point ≠ capitalSigma := by
      unfold capitalSigma
      omega
    rw [CharacterData.lowerBehind, if_neg hsigma, data.lowerOf_ascii _ hpoint,
      ih _ fun other hmem => h other (List.mem_cons_of_mem _ hmem)]
    rfl

/-! ## Layers of options -/

/-- Options by their names. -/
abbrev Options := Dict Text Text

/-- Options applied unless the caller overrides them by name. -/
def defaultSshOptions : Options where
  entries := [(.of "BatchMode", .of "yes"), (.of "StrictHostKeyChecking", .of "yes"),
    (.of "PermitLocalCommand", .of "no"), (.of "ClearAllForwardings", .of "yes"),
    (.of "ForwardX11", .of "no"), (.of "ForwardAgent", .of "no"), (.of "ControlMaster", .of "no")]
  nodup := by decide

section Layers

variable (data : CharacterData)

/-- The names that are held, by their lower case. -/
def heldNames (options : Options) : Dict Text Text :=
  options.entries.foldl (fun held entry => held.set (data.lower entry.1) entry.1) .empty

/-- Lay one option over those merged so far. -/
def foldOption (layers : Options × Dict Text Text) (entry : Text × Text) :
    Options × Dict Text Text :=
  let merged := match layers.2.get (data.lower entry.1) with
    | none => layers.1
    | some previous => layers.1.pop previous
  (merged.set entry.1 entry.2, layers.2.set (data.lower entry.1) entry.1)

/-- Layer options over others, matching names the way `ssh` does. -/
def foldOptions (base overrides : Options) : Options :=
  (overrides.entries.foldl (foldOption data) (base, heldNames data base)).1

/-- Read an option, ignoring how the caller spelled it. -/
def valueOf (options : Options) (keyword : Text) : Option Text :=
  (options.entries.find? fun entry => data.lower entry.1 = data.lower keyword).map Prod.snd

end Layers

/-! ## What layering keeps -/

/-- The last of the entries whose name satisfies a condition. -/
def lastNamed (named : Text → Bool) (entries : List (Text × Text)) : Option (Text × Text) :=
  entries.reverse.find? fun entry => named entry.1

/-- The last entry of more entries is the new one if it is named so, and the last before otherwise. -/
theorem lastNamed_concat (named : Text → Bool) (entries : List (Text × Text))
    (entry : Text × Text) :
    lastNamed named (entries ++ [entry]) =
      if named entry.1 then some entry else lastNamed named entries := by
  unfold lastNamed
  rw [List.reverse_append, List.reverse_singleton, List.singleton_append, List.find?_cons]
  cases named entry.1 <;> rfl

/-- The last entry of a name is the last of the later entries, or of the earlier ones. -/
theorem lastNamed_append (named : Text → Bool) (earlier later : List (Text × Text)) :
    lastNamed named (earlier ++ later) =
      (lastNamed named later).or (lastNamed named earlier) := by
  unfold lastNamed
  rw [List.reverse_append, List.find?_append]

/-- The last entry of a name is the last of a narrower condition that it satisfies too. -/
theorem lastNamed_of_narrower {wide narrow : Text → Bool} {entries : List (Text × Text)}
    {entry : Text × Text} (h : ∀ name, narrow name = true → wide name = true)
    (hlast : lastNamed wide entries = some entry) (hnarrow : narrow entry.1 = true) :
    lastNamed narrow entries = some entry := by
  obtain ⟨-, front, back, hsplit, hfront⟩ := List.find?_eq_some_iff_append.mp hlast
  refine List.find?_eq_some_iff_append.mpr ⟨hnarrow, front, back, hsplit, fun other hmem => ?_⟩
  have hwide := hfront other hmem
  have hother := h other.1
  cases hname : narrow other.1 <;> simp_all

/-- Where the names of entries are different, the last entry of a name is the only one. -/
theorem lastNamed_eq_some_iff {canon : Text → Text} {entries : List (Text × Text)}
    (h : (entries.map fun entry => canon entry.1).Nodup) (name value : Text) :
    lastNamed (canon · = canon name) entries = some (name, value) ↔ (name, value) ∈ entries := by
  constructor
  · exact fun hlast => List.mem_reverse.mp (List.mem_of_find?_eq_some hlast)
  · intro hmem
    cases hlast : lastNamed (canon · = canon name) entries with
    | none => simpa using List.find?_eq_none.mp hlast _ (List.mem_reverse.mpr hmem)
    | some entry =>
      have hnamed : canon entry.1 = canon name := by simpa using List.find?_some hlast
      have hentry : entry ∈ entries := List.mem_reverse.mp (List.mem_of_find?_eq_some hlast)
      rw [List.inj_on_of_nodup_map h hentry hmem hnamed]

/-- What layers hold that were laid of entries: each name that is the last spelling of its lower
case, with its value. -/
structure Layered (data : CharacterData) (entries : List (Text × Text))
    (layers : Options × Dict Text Text) : Prop where
  merged : ∀ name value, layers.1.get name = some value ↔
    lastNamed (data.lower · = data.lower name) entries = some (name, value)
  held : ∀ folded, layers.2.get folded =
    (lastNamed (data.lower · = folded) entries).map Prod.fst

variable {data : CharacterData}

/-- The names that are held are the last of each lower case. -/
theorem get_heldNames (entries : List (Text × Text)) (folded : Text) :
    (entries.foldl (fun held entry => held.set (data.lower entry.1) entry.1)
        (Dict.empty : Dict Text Text)).get folded =
      (lastNamed (data.lower · = folded) entries).map Prod.fst := by
  induction entries using List.reverseRecOn with
  | nil => rfl
  | append_singleton entries entry ih =>
    rw [List.foldl_append, List.foldl_cons, List.foldl_nil, Dict.get_set, lastNamed_concat, ih]
    by_cases hname : data.lower entry.1 = folded <;> simp [hname]

/-- Options whose names differ are layered. -/
theorem layered_base {base : Options}
    (h : (base.entries.map fun entry => data.lower entry.1).Nodup) :
    Layered data base.entries (base, heldNames data base) where
  merged := fun name value =>
    (getEntry_eq_some_iff base.nodup).trans (lastNamed_eq_some_iff h name value).symm
  held := get_heldNames base.entries

/-- The last entry of a name has that name. -/
theorem named_of_lastNamed {named : Text → Bool} {entries : List (Text × Text)}
    {entry : Text × Text} (h : lastNamed named entries = some entry) : named entry.1 = true :=
  List.find?_some (p := fun entry : Text × Text => named entry.1) h

/-- What is left of the options once the one that a new one takes the place of is gone: the others
as they are, and none of its name. -/
theorem Layered.get_popped {entries : List (Text × Text)} {layers : Options × Dict Text Text}
    (h : Layered data entries layers) (name other : Text) :
    (match layers.2.get (data.lower name) with
      | none => layers.1
      | some previous => layers.1.pop previous).get other =
      if data.lower name = data.lower other then none else layers.1.get other := by
  have hheld := h.held (data.lower name)
  cases hlast : lastNamed (data.lower · = data.lower name) entries with
  | none =>
    rw [hlast, Option.map_none] at hheld
    rw [hheld]
    split_ifs with hsame
    · apply Option.eq_none_iff_forall_ne_some.mpr
      intro value hvalue
      rw [h.merged, ← hsame, hlast] at hvalue
      cases hvalue
    · rfl
  | some previous =>
    have hprevious : data.lower previous.1 = data.lower name := by
      simpa using named_of_lastNamed hlast
    rw [hlast, Option.map_some] at hheld
    rw [hheld]
    dsimp only
    rw [Dict.get_pop]
    by_cases hsame : data.lower name = data.lower other
    · rw [if_pos hsame]
      split_ifs with hother
      · rfl
      · apply Option.eq_none_iff_forall_ne_some.mpr
        intro value hvalue
        rw [h.merged, ← hsame, hlast] at hvalue
        exact hother (congrArg Prod.fst (Option.some.inj hvalue))
    · rw [if_neg hsame, if_neg]
      rintro rfl
      exact hsame hprevious.symm

/-- Laying one option over layers leaves layers. -/
theorem Layered.foldOption {entries : List (Text × Text)} {layers : Options × Dict Text Text}
    (h : Layered data entries layers) (entry : Text × Text) :
    Layered data (entries ++ [entry]) (foldOption data layers entry) where
  merged := by
    intro name value
    unfold Transport.foldOption
    dsimp only
    rw [Dict.get_set, h.get_popped, lastNamed_concat]
    by_cases hname : entry.1 = name
    · subst hname
      simp [Prod.ext_iff]
    · by_cases hlower : data.lower entry.1 = data.lower name
      · have hother : some entry ≠ some (name, value) := fun heq =>
          hname (congrArg Prod.fst (Option.some.inj heq))
        simp [hname, hlower, hother]
      · simp [hname, hlower, h.merged]
  held := by
    intro folded
    unfold Transport.foldOption
    rw [Dict.get_set, h.held, lastNamed_concat]
    by_cases hname : data.lower entry.1 = folded <;> simp [hname]

/-- Options laid over others hold, of all their entries, the last of each lower case. -/
theorem get_foldOptions {base overrides : Options}
    (h : (base.entries.map fun entry => data.lower entry.1).Nodup) (name value : Text) :
    (foldOptions data base overrides).get name = some value ↔
      lastNamed (data.lower · = data.lower name) (base.entries ++ overrides.entries) =
        some (name, value) := by
  have hall : ∀ entries : List (Text × Text), Layered data (base.entries ++ entries)
      (entries.foldl (foldOption data) (base, heldNames data base)) := by
    intro entries
    induction entries using List.reverseRecOn with
    | nil =>
      rw [List.append_nil]
      exact layered_base h
    | append_singleton entries entry ih =>
      rw [List.foldl_append, ← List.append_assoc]
      exact ih.foldOption entry
  exact (hall overrides.entries).merged name value

end GantrySftp.Transport
