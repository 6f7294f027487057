import GantrySftp.Session.Put

/-!
# Remote names

A listing hands back names and attributes that the server chose. Paths are built by joining one
name at a time with a slash; a name that is empty, relative, or holds a slash or a NUL byte is no
path component. What an entry is follows from its mode bits, and is unknown without them.
-/

namespace GantrySftp

open Library

/-- Join a remote directory path and a single name. -/
def joinRemote (parent name : Bytes) : Bytes :=
  if parent = [] ∨ parent.getLast? = some slash then parent ++ name
  else parent ++ [slash] ++ name

/-- The names of a directory itself and of its parent. -/
def dotNames : List Bytes := [".".toUTF8.toList, "..".toUTF8.toList]

/-- Why a name cannot be one remote path component, if it cannot. -/
def remoteComponentReason (name : Bytes) : Option String :=
  if name = [] then some "an empty name"
  else if name ∈ dotNames then some "a relative directory entry"
  else if slash ∈ name then some "a path separator"
  else if 0 ∈ name then some "a NUL byte"
  else none

/-- A name that can be one remote path component. -/
def IsComponent (name : Bytes) : Prop := remoteComponentReason name = none

instance : DecidablePred IsComponent :=
  fun name => inferInstanceAs (Decidable (remoteComponentReason name = none))

/-- A component is a name without separators that is neither empty nor relative. -/
theorem isComponent_iff {name : Bytes} :
    IsComponent name ↔ name ≠ [] ∧ name ∉ dotNames ∧ slash ∉ name ∧ 0 ∉ name := by
  unfold IsComponent remoteComponentReason
  split_ifs <;> simp_all

/-- The non-empty components of a path. -/
def splitComponents (path : Bytes) : List Bytes := (path.splitOn slash).filter (· ≠ [])

/-! ## Entries -/

/-- What a directory entry is, including that the server did not say. -/
inductive EntryKind
  | file | directory | symlink | other | unknown
  deriving DecidableEq

/-- The bits of a mode that say what a file is. -/
def fileTypeMask : ℕ := 0o170000

/-- Classify an entry from its mode bits. -/
def entryKind (attrs : Attrs) : EntryKind :=
  match attrs.permissions with
  | none => .unknown
  | some mode =>
    let type := mode.toNat &&& fileTypeMask
    if type = 0o040000 then .directory
    else if type = 0o120000 then .symlink
    else if type = 0o100000 then .file
    else .other

/-- One entry of a listing, with the attributes the server volunteered. -/
structure DirEntry where
  filename : Bytes
  attrs : Attrs
  deriving DecidableEq

/-- What an entry is by its own attributes. -/
def DirEntry.kind (entry : DirEntry) : EntryKind := entryKind entry.attrs

/-- Why a walk passed over an entry. -/
inductive SkipReason
  | symlink | unknownKind | kindRefused | vanished | notAFile | tooDeep
  | destinationCollision | destinationRefusedTheName
  deriving DecidableEq

/-- One entry that a walk passed over, and why. -/
structure Skipped where
  path : Bytes
  entry : DirEntry
  reason : SkipReason
  deriving DecidableEq

/-- Why a walk passes over an entry of this kind. -/
def skipReason : EntryKind → SkipReason
  | .symlink => .symlink
  | .unknown => .unknownKind
  | _ => .notAFile

/-- One directory, as a walk reports it: the names it was reached by, the entries the walk will
descend into, the regular files, and everything else. -/
structure WalkEntry where
  path : Bytes
  relative : List Bytes
  directories : List DirEntry
  files : List DirEntry
  skipped : List Skipped
  deriving DecidableEq

/-- One entry that a pattern matched. -/
structure GlobMatch where
  path : Bytes
  entry : DirEntry
  deriving DecidableEq

/-! ## Paths of components -/

/-- A path followed by names, joined one at a time. -/
def joinAll (root : Bytes) (names : List Bytes) : Bytes := names.foldl joinRemote root

/-- What stands before a path stays there when a name is joined. -/
theorem joinRemote_append (front : Bytes) {path : Bytes} (h : path ≠ []) (name : Bytes) :
    joinRemote (front ++ path) name = front ++ joinRemote path name := by
  unfold joinRemote
  rw [List.getLast?_append_of_ne_nil front h]
  split_ifs with hfront hpath hpath
  · exact List.append_assoc _ _ _
  · exact absurd (Or.imp_left (fun hnil => (List.append_eq_nil_iff.mp hnil).2) hfront) hpath
  · exact absurd (hpath.resolve_left h) fun hlast => hfront (Or.inr hlast)
  · simp

/-- A path begins with the one that a name is joined to. -/
theorem isPrefix_joinRemote (parent name : Bytes) : parent <+: joinRemote parent name := by
  unfold joinRemote
  split_ifs
  · exact List.prefix_append _ _
  · rw [List.append_assoc]
    exact List.prefix_append _ _

/-- No names. -/
@[simp] theorem joinAll_nil (root : Bytes) : joinAll root [] = root := rfl

/-- A first name. -/
@[simp] theorem joinAll_cons (root name : Bytes) (names : List Bytes) :
    joinAll root (name :: names) = joinAll (joinRemote root name) names := rfl

/-- Names behind names. -/
theorem joinAll_append (root : Bytes) (front back : List Bytes) :
    joinAll root (front ++ back) = joinAll (joinAll root front) back := List.foldl_append

/-- A last name. -/
theorem joinAll_concat (root name : Bytes) (names : List Bytes) :
    joinAll root (names ++ [name]) = joinRemote (joinAll root names) name := joinAll_append _ _ _

/-- A path begins with its root. -/
theorem isPrefix_joinAll (root : Bytes) (names : List Bytes) : root <+: joinAll root names := by
  induction names generalizing root with
  | nil => exact List.prefix_rfl
  | cons name names ih => exact (isPrefix_joinRemote root name).trans (ih _)

/-- Only an empty root is below nothing. -/
theorem joinAll_ne_nil {root : Bytes} (h : root ≠ []) (names : List Bytes) :
    joinAll root names ≠ [] :=
  fun hnil => h (List.prefix_nil.mp (hnil ▸ isPrefix_joinAll root names))

/-! ## Splitting what was joined -/

/-- What stands between separators. -/
def IsSegment (name : Bytes) : Prop := name ≠ [] ∧ slash ∉ name

/-- A component stands between separators. -/
theorem IsComponent.segment {name : Bytes} (h : IsComponent name) : IsSegment name :=
  ⟨(isComponent_iff.mp h).1, (isComponent_iff.mp h).2.2.1⟩

/-- A segment is its only component. -/
theorem splitComponents_segment {name : Bytes} (h : IsSegment name) :
    splitComponents name = [name] := by
  unfold splitComponents
  rw [List.splitOn_eq_singleton h.2]
  simp [h.1]

/-- The components on both sides of a separator. -/
theorem splitComponents_slash (front back : Bytes) :
    splitComponents (front ++ slash :: back) = splitComponents front ++ splitComponents back := by
  unfold splitComponents
  rw [List.splitOn_append_cons_self, List.filter_append]

/-- Joining a segment adds it behind the others. -/
theorem splitComponents_join (parent : Bytes) {name : Bytes} (h : IsSegment name) :
    splitComponents (joinRemote parent name) = splitComponents parent ++ [name] := by
  unfold joinRemote
  split_ifs with hparent
  · obtain rfl | hlast := hparent
    · rw [List.nil_append, splitComponents_segment h]
      rfl
    · obtain ⟨front, rfl⟩ := List.getLast?_eq_some_iff.mp hlast
      rw [List.append_assoc, List.singleton_append, splitComponents_slash,
        splitComponents_slash, splitComponents_segment h]
      simp [splitComponents]
  · rw [List.append_assoc, List.singleton_append, splitComponents_slash,
      splitComponents_segment h]

/-- Joining segments adds them behind the others. -/
theorem splitComponents_joinAll (root : Bytes) {names : List Bytes}
    (h : ∀ name ∈ names, IsSegment name) :
    splitComponents (joinAll root names) = splitComponents root ++ names := by
  induction names generalizing root with
  | nil => simp
  | cons name names ih =>
    rw [joinAll_cons, ih _ fun other hmem => h other (List.mem_cons_of_mem _ hmem),
      splitComponents_join root (h name List.mem_cons_self)]
    simp

/-- Components stand between separators, and have no bytes that the path has not. -/
theorem segment_of_mem {path name : Bytes} (h : name ∈ splitComponents path) :
    IsSegment name ∧ name ⊆ path := by
  have hsplit : ∀ part ∈ path.splitOn slash, slash ∉ part ∧ part ⊆ path := by
    clear h
    induction path with
    | nil => simp
    | cons byte path ih =>
      rw [List.splitOn_cons_eq_if_modifyHead]
      split_ifs with hbyte
      · rw [List.forall_mem_cons]
        refine ⟨by simp, fun part hmem => ?_⟩
        exact ⟨(ih part hmem).1, List.subset_cons_of_subset _ (ih part hmem).2⟩
      · cases hparts : path.splitOn slash with
        | nil => simp
        | cons first parts =>
          rw [hparts, List.forall_mem_cons] at ih
          rw [List.modifyHead_cons, List.forall_mem_cons]
          refine ⟨⟨?_, List.cons_subset_cons _ ih.1.2⟩, fun part hmem => ?_⟩
          · rw [List.mem_cons, not_or]
            exact ⟨fun heq => hbyte (beq_iff_eq.mpr heq.symm), ih.1.1⟩
          · exact ⟨(ih.2 part hmem).1, List.subset_cons_of_subset _ (ih.2 part hmem).2⟩
  obtain ⟨hmem, hne⟩ := List.mem_filter.mp h
  exact ⟨⟨of_decide_eq_true hne, (hsplit name hmem).1⟩, (hsplit name hmem).2⟩

/-- What is joined last comes last. -/
theorem joinRemote_append_right (parent name rest : Bytes) :
    joinRemote parent (name ++ rest) = joinRemote parent name ++ rest := by
  unfold joinRemote
  split_ifs <;> simp

/-- A path does not end in a separator behind a segment. -/
theorem joinRemote_segment (parent : Bytes) {name : Bytes} (h : IsSegment name) :
    joinRemote parent name ≠ [] ∧ (joinRemote parent name).getLast? ≠ some slash := by
  have hlast : name.getLast? ≠ some slash := fun hslash => h.2 (List.mem_of_getLast? hslash)
  unfold joinRemote
  split_ifs
  · exact ⟨by simp [h.1], by rwa [List.getLast?_append_of_ne_nil _ h.1]⟩
  · exact ⟨by simp, by rwa [List.getLast?_append_of_ne_nil _ h.1]⟩

/-- Joining segments one at a time joins them at once. -/
theorem joinAll_intercalate (root : Bytes) {names : List Bytes} (hne : names ≠ [])
    (h : ∀ name ∈ names, IsSegment name) :
    joinAll root names = joinRemote root (List.intercalate [slash] names) := by
  induction names generalizing root with
  | nil => exact absurd rfl hne
  | cons name names ih =>
    cases names with
    | nil => simp
    | cons next names =>
      obtain ⟨hnil, hlast⟩ := joinRemote_segment root (h name List.mem_cons_self)
      rw [joinAll_cons, ih _ (List.cons_ne_nil _ _)
        fun other hmem => h other (List.mem_cons_of_mem _ hmem), joinRemote,
        if_neg (not_or.mpr ⟨hnil, hlast⟩), List.intercalate_cons_cons, List.append_assoc,
        List.append_assoc, joinRemote_append_right]

/-- The path of names below the root. -/
theorem joinAll_root {names : List Bytes} (h : ∀ name ∈ names, IsSegment name) :
    joinAll [slash] names = slash :: List.intercalate [slash] names := by
  by_cases hne : names = []
  · rw [hne]
    rfl
  · rw [joinAll_intercalate _ hne h, joinRemote, if_pos (Or.inr (by rfl))]
    rfl

/-- Where a path starts from: the root of the server, or its default directory. -/
def rootOf (path : Bytes) : Bytes := if path.head? = some slash then [slash] else []

/-- Where a path starts has no components. -/
theorem splitComponents_rootOf (path : Bytes) : splitComponents (rootOf path) = [] := by
  unfold rootOf
  split_ifs <;> rfl

/-- The path of names from where another path starts. -/
theorem joinAll_rootOf (path : Bytes) {names : List Bytes} (h : ∀ name ∈ names, IsSegment name) :
    joinAll (rootOf path) names =
      if path.head? = some slash then slash :: List.intercalate [slash] names
      else List.intercalate [slash] names := by
  unfold rootOf
  split_ifs
  · exact joinAll_root h
  · by_cases hne : names = []
    · rw [hne]
      rfl
    · rw [joinAll_intercalate _ hne h, joinRemote, if_pos (Or.inl rfl), List.nil_append]

/-- What can be the name of an entry: a segment that is not relative. -/
def IsName (name : Bytes) : Prop := IsSegment name ∧ name ∉ dotNames

/-- A component can be the name of an entry. -/
theorem IsComponent.isName {name : Bytes} (h : IsComponent name) : IsName name :=
  ⟨h.segment, (isComponent_iff.mp h).2.1⟩

/-- The names of components stand between separators. -/
theorem segments_of_components {names : List Bytes} (h : ∀ name ∈ names, IsComponent name) :
    ∀ name ∈ names, IsSegment name := fun name hmem => (h name hmem).segment

/-- Different names of components are joined to different paths. -/
theorem joinAll_injective {root : Bytes} {names names' : List Bytes}
    (h : ∀ name ∈ names, IsComponent name) (h' : ∀ name ∈ names', IsComponent name)
    (heq : joinAll root names = joinAll root names') : names = names' := by
  have hsplit := congrArg splitComponents heq
  rw [splitComponents_joinAll root (segments_of_components h),
    splitComponents_joinAll root (segments_of_components h')] at hsplit
  exact List.append_cancel_left hsplit

/-- A path inside a tree: its root followed by components only. -/
def Inside (root path : Bytes) : Prop :=
  ∃ names, (∀ name ∈ names, IsComponent name) ∧ path = joinAll root names

/-- The root is inside its tree. -/
theorem Inside.root (root : Bytes) : Inside root root := ⟨[], by simp, rfl⟩

/-- A component below a path inside a tree is inside it. -/
theorem Inside.join {root path name : Bytes} (h : Inside root path) (hname : IsComponent name) :
    Inside root (joinRemote path name) := by
  obtain ⟨names, hnames, rfl⟩ := h
  refine ⟨names ++ [name], fun other hmem => ?_, (joinAll_concat _ _ _).symm⟩
  obtain hold | hnew := List.mem_append.mp hmem
  · exact hnames other hold
  · rw [List.mem_singleton.mp hnew]
    exact hname

/-- A path inside a tree inside another. -/
theorem Inside.trans {root middle path : Bytes} (hmiddle : Inside root middle)
    (h : Inside middle path) : Inside root path := by
  obtain ⟨front, hfront, rfl⟩ := hmiddle
  obtain ⟨back, hback, rfl⟩ := h
  refine ⟨front ++ back, fun name hmem => ?_, (joinAll_append _ _ _).symm⟩
  exact (List.mem_append.mp hmem).elim (hfront name) (hback name)

/-- The names below the root are the last components of a path inside its tree. -/
theorem Inside.components {root path : Bytes} (h : Inside root path) :
    ∃ names, (∀ name ∈ names, IsComponent name) ∧
      splitComponents path = splitComponents root ++ names := by
  obtain ⟨names, hnames, rfl⟩ := h
  exact ⟨names, hnames, splitComponents_joinAll root (segments_of_components hnames)⟩

end GantrySftp
