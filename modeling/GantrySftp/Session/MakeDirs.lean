import Mathlib.Data.List.DropRight
import GantrySftp.Session.ConversationSteps

/-!
# Making a directory and its ancestors

`makedirs` asks for the directory first, and only if that is refused for its parent, whose name is
the path up to its last separator without the separators it ends in. Below it stands a server that
holds a tree of directories and plain files: a path names the places its components lead through,
and a directory is made where a missing place is entered from a directory.
-/

namespace GantrySftp

open Library Program

/-! ## The level above a path -/

/-- A path up to its last separator, without the separators it ends in. -/
def parentLevel (path : Bytes) : Bytes := (splitParent path).1.rdropWhile (· = slash)

/-- The level above is a beginning of the path. -/
theorem isPrefix_parentLevel (path : Bytes) : parentLevel path <+: path :=
  (List.rdropWhile_prefix _ _).trans (List.take_prefix _ _)

/-- The level above is shorter, unless it is the path itself. -/
theorem parentLevel_length_lt {path : Bytes} (h : parentLevel path ≠ path) :
    (parentLevel path).length < path.length :=
  (isPrefix_parentLevel path).length_le.lt_of_ne fun heq =>
    h ((isPrefix_parentLevel path).eq_of_length heq)

/-- The parent is the path without its last bytes other than separators, and the name is these. -/
theorem splitParent_eq (path : Bytes) :
    splitParent path = (path.rdropWhile (· ≠ slash), path.rtakeWhile (· ≠ slash)) := by
  have happend := List.rdropWhile_append_rtakeWhile (p := (· ≠ slash)) (l := path)
  have hlength := congrArg List.length happend
  rw [List.length_append] at hlength
  have htake : path.take (path.length - (path.rtakeWhile (· ≠ slash)).length) =
      path.rdropWhile (· ≠ slash) := by
    have hfront : (path.rdropWhile (· ≠ slash)).length =
        path.length - (path.rtakeWhile (· ≠ slash)).length := by omega
    rw [← hfront]
    exact (List.prefix_iff_eq_take.mp (List.rdropWhile_prefix _ _)).symm
  change (path.take (path.length - (path.rtakeWhile (· ≠ slash)).length), _) = _
  rw [htake]
  rfl

/-- A path is its parent and the name behind it. -/
theorem splitParent_append (path : Bytes) :
    (splitParent path).1 ++ (splitParent path).2 = path := by
  rw [splitParent_eq]
  exact List.rdropWhile_append_rtakeWhile

/-- There is no separator in the name. -/
theorem slash_notMem_name (path : Bytes) : slash ∉ (splitParent path).2 := by
  rw [splitParent_eq]
  intro hmem
  simpa using List.mem_rtakeWhile_imp hmem

/-- The parent is empty or ends in a separator. -/
theorem parent_cases (path : Bytes) :
    (splitParent path).1 = [] ∨ ∃ front, (splitParent path).1 = front ++ [slash] := by
  by_cases hnil : (splitParent path).1 = []
  · exact Or.inl hnil
  · right
    have hlast : (splitParent path).1.getLast hnil = slash := by
      simp only [splitParent_eq] at hnil ⊢
      simpa using List.rdropWhile_last_not _ path hnil
    exact ⟨_, by rw [← hlast, List.dropLast_append_getLast]⟩

/-- Only an empty path is the level above itself. -/
theorem eq_nil_of_parentLevel {path : Bytes} (h : parentLevel path = path) : path = [] := by
  have hparent : (splitParent path).1 = path :=
    (List.take_prefix _ _).eq_of_length_le (by
      have hle := (List.rdropWhile_prefix (· = slash) (splitParent path).1).length_le
      rwa [show (splitParent path).1.rdropWhile (· = slash) = path from h] at hle)
  rcases parent_cases path with hnil | ⟨front, hfront⟩
  · exact hparent.symm.trans hnil
  · have hdropped : (front ++ [slash]).rdropWhile (· = slash) = front ++ [slash] := by
      rw [← hfront, hparent]
      unfold parentLevel at h
      rwa [hparent] at h
    rw [List.rdropWhile_concat_pos _ _ _ (by simp)] at hdropped
    have hle := (List.rdropWhile_prefix (· = slash) front).length_le
    rw [hdropped, List.length_append] at hle
    simp at hle

/-- Separators at the end add no components. -/
theorem splitComponents_rdropWhile (path : Bytes) :
    splitComponents (path.rdropWhile (· = slash)) = splitComponents path := by
  induction path using List.reverseRecOn with
  | nil => rfl
  | append_singleton front byte ih =>
    by_cases hbyte : byte = slash
    · rw [hbyte, List.rdropWhile_concat_pos _ _ _ (by simp), ih, splitComponents_slash]
      simp [splitComponents]
    · rw [List.rdropWhile_concat_neg _ _ _ (by simpa using hbyte)]

/-- The components of a path are those of the level above, and its name where it has one. -/
theorem splitComponents_level (path : Bytes) : splitComponents path =
    splitComponents (parentLevel path) ++
      if (splitParent path).2 = [] then [] else [(splitParent path).2] := by
  have hname : splitComponents (splitParent path).2 =
      if (splitParent path).2 = [] then [] else [(splitParent path).2] := by
    split_ifs with hnil
    · rw [hnil]
      rfl
    · exact splitComponents_segment ⟨hnil, slash_notMem_name path⟩
  unfold parentLevel
  rw [splitComponents_rdropWhile, ← hname]
  nth_rewrite 1 [← splitParent_append path]
  rcases parent_cases path with hnil | ⟨front, hfront⟩
  · rw [hnil]
    rfl
  · rw [hfront, List.append_assoc, List.singleton_append, splitComponents_slash,
      splitComponents_slash]
    simp [splitComponents]

namespace Talk

/-! ## The code -/

/-- Make a directory, and if that is refused its missing ancestors first. An ancestor that is
there will always do. -/
def mkdirParents (line : Line) (path : Bytes) (existOk : Bool) : Talk Unit :=
  tryCatch (mkdir line path existOk) fun failure =>
    if failure.isServerError then
      if _ : parentLevel path = [] ∨ parentLevel path = path then throw failure
      else do
        mkdirParents line (parentLevel path) true
        mkdir line path existOk
    else throw failure
  termination_by path.length
  decreasing_by exact parentLevel_length_lt (not_or.mp ‹_›).2

/-- Look at what is where a directory was refused. A server that refuses that too is left alone. -/
def noteWhatIsInTheWay (line : Line) : Failure → Talk Unit
  | .serverError _ _ (some path) =>
    tryCatch (do let _ ← lstat line path; pure ()) fun failure =>
      if failure.isServerError then pure () else throw failure
  | _ => pure ()

/-- Make a directory and any missing ancestors of it. -/
def makedirs (line : Line) (path : Bytes) (existOk : Bool) : Talk Unit :=
  tryCatch (mkdirParents line path existOk) fun failure =>
    if failure.isServerError then do
      noteWhatIsInTheWay line failure
      throw failure
    else throw failure

/-! ## What paths name -/

/-- How paths lead through places: from the root, or from where relative paths start, each component
one place further. An empty path may stand for the start, or for nothing. -/
structure Naming (κ : Type) where
  root : κ
  start : κ
  enter : κ → Bytes → κ
  takesEmpty : Bool

namespace Naming

variable {κ : Type} (naming : Naming κ)

/-- Where a path begins. -/
def origin (path : Bytes) : κ :=
  if path.head? = some slash then naming.root else naming.start

/-- The places a path leads through, the one it names last. -/
def trail (path : Bytes) : List κ :=
  (splitComponents path).scanl naming.enter (naming.origin path)

/-- The place a path names. -/
def place (path : Bytes) : κ :=
  (splitComponents path).foldl naming.enter (naming.origin path)

/-- The places above the one a path names. -/
def ancestors (path : Bytes) : List κ := (naming.trail path).dropLast

/-- A path that names a place at all. -/
def Names (path : Bytes) : Prop := path ≠ [] ∨ naming.takesEmpty = true

instance (path : Bytes) : Decidable (naming.Names path) :=
  inferInstanceAs (Decidable (_ ∨ _))

/-- A path leads through its ancestors to its place. -/
theorem trail_eq (path : Bytes) :
    naming.trail path = naming.ancestors path ++ [naming.place path] := by
  have hlast := List.getLast_scanl (f := naming.enter) (b := naming.origin path)
    (l := splitComponents path) List.scanl_ne_nil
  unfold ancestors place
  rw [← hlast]
  exact (List.dropLast_append_getLast _).symm

/-- A path begins where the level above it does. -/
theorem origin_level {path : Bytes} (h : parentLevel path ≠ []) :
    naming.origin (parentLevel path) = naming.origin path := by
  obtain ⟨behind, hbehind⟩ := isPrefix_parentLevel path
  have hhead : path.head? = (parentLevel path).head? := by
    conv_lhs => rw [← hbehind]
    exact List.head?_append_of_ne_nil _ h
  unfold origin
  rw [hhead]

/-- A path leads at most one place further than the level above it. -/
theorem trail_level {path : Bytes} (h : parentLevel path ≠ []) :
    naming.trail path = naming.trail (parentLevel path) ++
      if (splitParent path).2 = [] then [] else [naming.place path] := by
  have hsplit := splitComponents_level path
  unfold trail place
  rw [naming.origin_level h, hsplit, List.scanl_append]
  split_ifs <;> simp

/-- All above a path lies on the way to the level above it. -/
theorem mem_trail_level {path : Bytes} (h : parentLevel path ≠ []) {place : κ}
    (hmem : place ∈ naming.ancestors path) : place ∈ naming.trail (parentLevel path) := by
  unfold ancestors at hmem
  rw [naming.trail_level h] at hmem
  split_ifs at hmem with hname
  · rw [List.append_nil] at hmem
    exact List.mem_of_mem_dropLast hmem
  · rwa [List.dropLast_concat] at hmem

/-- What lies on the way to the level above a path lies on the way to the path. -/
theorem trail_level_subset {path : Bytes} (h : parentLevel path ≠ []) :
    naming.trail (parentLevel path) ⊆ naming.trail path := by
  rw [naming.trail_level h]
  exact List.subset_append_left _ _

/-- Where there is no level above, nothing is above a path but where it begins. -/
theorem eq_origin_of_mem {path : Bytes} (h : parentLevel path = []) {place : κ}
    (hmem : place ∈ naming.ancestors path) : place = naming.origin path := by
  have hsplit := splitComponents_level path
  rw [h] at hsplit
  unfold ancestors trail at hmem
  rw [hsplit] at hmem
  split_ifs at hmem
  · simp [splitComponents] at hmem
  · simpa [splitComponents] using hmem

end Naming

/-! ## A server that holds a tree -/

/-- What a place is. -/
inductive Occupant
  | directory | file
  deriving DecidableEq

/-- The kind a place is reported with. -/
def Occupant.kind : Occupant → EntryKind
  | directory => .directory
  | file => .file

/-- A tree of directories and plain files. Where paths begin there are directories. -/
structure DirTree {κ : Type} (naming : Naming κ) where
  occupant : κ → Option Occupant
  root : occupant naming.root = some .directory
  start : occupant naming.start = some .directory

namespace DirTree

variable {κ : Type} [DecidableEq κ] {naming : Naming κ} (tree : DirTree naming)

/-- The places above the one a path names are directories. -/
def Leads (path : Bytes) : Prop :=
  naming.Names path ∧ ∀ place ∈ naming.ancestors path, tree.occupant place = some .directory

instance (path : Bytes) : Decidable (tree.Leads path) := inferInstanceAs (Decidable (_ ∧ _))

/-- What a path leads to. -/
def look (path : Bytes) : Option Occupant :=
  if tree.Leads path then tree.occupant (naming.place path) else none

/-- A path whose place is missing and may be made a directory. -/
def Makeable (may : κ → Bool) (path : Bytes) : Prop :=
  tree.Leads path ∧ tree.occupant (naming.place path) = none ∧ may (naming.place path) = true

instance (may : κ → Bool) (path : Bytes) : Decidable (tree.Makeable may path) :=
  inferInstanceAs (Decidable (_ ∧ _))

/-- A path names nothing, or a place it leads through is a file or missing and not to be made. -/
def Blocked (may : κ → Bool) (path : Bytes) : Prop :=
  ¬ naming.Names path ∨ ∃ place ∈ naming.trail path,
    tree.occupant place = some .file ∨ tree.occupant place = none ∧ may place = false

/-- The tree with one more directory. -/
def made (path : Bytes) : DirTree naming where
  occupant := Function.update tree.occupant (naming.place path) (some .directory)
  root := by
    by_cases h : naming.root = naming.place path
    · rw [h, Function.update_self]
    · rw [Function.update_of_ne h, tree.root]
  start := by
    by_cases h : naming.start = naming.place path
    · rw [h, Function.update_self]
    · rw [Function.update_of_ne h, tree.start]

/-- The tree after a step of the session: a directory answered with OK was made. -/
def heard : Deed → DirTree naming
  | .asked (.mkdir path) (.ok (.status .ok _)) => tree.made path
  | _ => tree

/-- The tree after the steps of a session. -/
def after (deeds : List Deed) : DirTree naming := deeds.foldl heard tree

end DirTree

/-- An answer that refuses what was asked. -/
def Refuses (answer : Answer) : Prop :=
  ∃ code message, code ≠ .ok ∧ code ≠ .eof ∧ answer = .ok (.status code message)

/-- After `before` the server holds a tree, whose missing places it makes directories where `may`
says so. It says what a path leads to, and refuses what it cannot do. -/
structure Serves {κ : Type} [DecidableEq κ] {naming : Naming κ} (may : κ → Bool) (line : Line)
    (before : List Deed) (tree : DirTree naming) : Prop where
  make : ∀ sent path, (tree.after sent).Makeable may path →
    ∃ message, line.answer (before ++ sent) (.mkdir path) = .ok (.status .ok message)
  refuse : ∀ sent path, ¬ (tree.after sent).Makeable may path →
    Refuses (line.answer (before ++ sent) (.mkdir path))
  found : ∀ sent path occupant, (tree.after sent).look path = some occupant →
    ∃ attrs, entryKind attrs = occupant.kind ∧
      line.answer (before ++ sent) (.lstat path) = .ok (.attrs attrs)
  missing : ∀ sent path, (tree.after sent).look path = none →
    Refuses (line.answer (before ++ sent) (.lstat path))

end Talk

end GantrySftp
