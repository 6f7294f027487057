import GantrySftp.Library.Wildcards
import GantrySftp.Session.GlobAccepted
import GantrySftp.Session.RemoteTree

/-!
# What a pattern matches

A pattern means the entries below its base whose names its components cover, a `**` covering any
number of directories. On a tree that is served faithfully every entry is yielded once for each
way its names are covered: with several `**` that can be more than once.
-/

namespace GantrySftp

open Library Program Wildcards

/-! ## Trees and their base -/

/-- A remote tree at the base of a pattern: the base's own attributes, and the directory that it
is, or that it leads to. -/
structure RemoteTree where
  attrs : Option Attrs
  node : Option Node
  proper : ∀ top ∈ node, top.All Node.Proper

/-- The tree has an entry under some names below its base, or at it. -/
def RemoteTree.Holds (tree : RemoteTree) (names : List Bytes) (attrs : Attrs) : Prop :=
  if names = [] then tree.attrs = some attrs
  else ∃ top ∈ tree.node, ∃ below, top.find names = some below ∧ below.label = attrs

/-- A server that answers every request about a tree at a base from that tree, with the default
directory rooted. Below an empty base the default directory may be spelled out. -/
structure TreeServer.Serves (server : TreeServer) (base : Bytes) (tree : RemoteTree) : Prop where
  rooted : ∀ sent, ∃ root, server.realpath sent here = .ok root ∧ root.head? = some slash
  lstat : ∀ sent, ∀ attrs ∈ tree.attrs, server.lstat sent base = .ok attrs
  missing : tree.attrs = none → ∀ sent, ∃ failure, server.lstat sent base = .error failure ∧
    failure.isNoSuchFile = true
  lists : ∀ top ∈ tree.node, server.Lists (orHere base) top
  spelled : ∀ top ∈ tree.node, base = [] → ∀ names below, top.find names = some below →
    isDirectoryAttrs below.label = true → names ≠ [] →
      ∀ sent, server.opendir sent (joinAll [] names) = server.opendir sent (joinAll here names)
  closed : tree.node = none → ∀ sent, ∃ failure,
    server.opendir sent (orHere base) = .error failure ∧ failure.isNoSuchFile = true

/-! ## Components -/

/-- Whether a component crosses directory levels. -/
def isRecursive (component : Bytes) : Bool := component = recursive

/-- A component without magic does not cross levels. -/
theorem isRecursive_of_literal {component : Bytes} (h : hasMagic component = false) :
    isRecursive component = false := by
  refine decide_eq_false ?_
  rintro rfl
  exact absurd (h.symm.trans hasMagic_recursive) Bool.false_ne_true

/-- Whether a component matches a name. -/
def fits (component name : Bytes) : Bool := matchComponent true component name = .ok true

/-- The components that are meant: a `**` at the end stands before a `*`. -/
def expand : List Bytes → List Bytes
  | [] => []
  | [last] => if isRecursive last then [last, everything] else [last]
  | head :: rest => head :: expand rest

/-- In how many ways components cover names. -/
abbrev coverings (components names : List Bytes) : ℕ := ways isRecursive fits components names

/-- Another component behind a first one. -/
theorem expand_cons {rest : List Bytes} (head : Bytes) (h : rest ≠ []) :
    expand (head :: rest) = head :: expand rest := by
  cases rest with
  | nil => exact absurd rfl h
  | cons next rest => rfl

/-- The component that stands for everything is a star. -/
theorem everything_eq : everything = [Glob.star] := by decide +kernel

/-- The component that stands for everything crosses no level. -/
theorem isRecursive_everything : isRecursive everything = false := by decide +kernel

/-- The last component covers a name. -/
theorem coverings_expand_nil {components : List Bytes} (h : components ≠ []) :
    coverings (expand components) [] = 0 := by
  induction components with
  | nil => exact absurd rfl h
  | cons head rest ih =>
    cases rest with
    | nil =>
      unfold expand
      cases hhead : isRecursive head with
      | true => simp [coverings, ways_cons_nil, hhead, isRecursive_everything]
      | false => simp [coverings, ways_cons_nil, hhead]
    | cons next rest =>
      rw [expand_cons head (List.cons_ne_nil _ _), coverings, ways_cons_nil]
      split_ifs
      · exact ih (List.cons_ne_nil _ _)
      · rfl

/-! ## What is found -/

/-- An entry that was found, by its names below a directory. -/
abbrev Found := List Bytes × DirEntry

/-- What was found below a directory, seen from further up. -/
def Found.under (front : List Bytes) (found : Found) : Found := (front ++ found.1, found.2)

/-- What is found in any directory of a tree. -/
def foundBelow (each : Node → List Found) (node : Node) : List Found :=
  (Node.directories node).flatMap fun reached => (each reached.2).map (Found.under reached.1)

section Finding

variable (directoriesOnly : Bool)

/-- What a component finds in a directory, and what is found below that. -/
def foundLevel (head : Bytes) (deeper : Option (Node → List Found)) (node : Node) : List Found :=
  node.children.flatMap fun child =>
    if fits head child.1 then
      match deeper with
      | some descend =>
        if isDirectoryAttrs child.2.label then
          (descend child.2).map (Found.under [child.1])
        else []
      | none =>
        if directoriesOnly && !isDirectoryAttrs child.2.label then []
        else [([child.1], { filename := child.1, attrs := child.2.label })]
    else []

/-- What components find below a directory. -/
def found : (components : List Bytes) → Node → List Found
  | [], _ => []
  | head :: rest, node =>
    if head = recursive then
      foundBelow
        (match rest with
          | [] => foundLevel directoriesOnly everything none
          | _ :: _ => found rest)
        node
    else
      foundLevel directoriesOnly head
        (match rest with
          | [] => none
          | _ :: _ => some (found rest))
        node

end Finding

/-! ## How often an entry is found -/

/-- How often an entry under some names is found. -/
def times (names : List Bytes) (entries : List Found) : ℕ := (entries.map Prod.fst).count names

/-- What is found in one list and in another. -/
theorem times_append (names : List Bytes) (front back : List Found) :
    times names (front ++ back) = times names front + times names back := by
  simp [times]

/-- What is found somewhere in lists. -/
theorem times_flatMap {α : Type} (names : List Bytes) (items : List α) (each : α → List Found) :
    times names (items.flatMap each) = (items.map fun item => times names (each item)).sum := by
  induction items with
  | nil => rfl
  | cons item items ih =>
    rw [List.flatMap_cons, times_append, ih, List.map_cons, List.sum_cons]

/-- What was found below a child is found under its name. -/
theorem times_under_cons (name first : Bytes) (names : List Bytes) (entries : List Found) :
    times (first :: names) (entries.map (Found.under [name])) =
      if name = first then times names entries else 0 := by
  have hmap : (entries.map (Found.under [name])).map Prod.fst =
      (entries.map Prod.fst).map (List.cons name) := by
    rw [List.map_map, List.map_map]
    rfl
  unfold times
  rw [hmap]
  split_ifs with hname
  · subst hname
    exact List.count_map_of_injective _ _ List.cons_injective _
  · refine List.count_eq_zero.mpr fun hmem => ?_
    obtain ⟨other, -, heq⟩ := List.mem_map.mp hmem
    exact hname (List.cons.inj heq).1

/-- What was found below a child is not the directory itself. -/
theorem times_under_nil (name : Bytes) (entries : List Found) :
    times [] (entries.map (Found.under [name])) = 0 := by
  refine List.count_eq_zero.mpr fun hmem => ?_
  obtain ⟨one, hone, heq⟩ := List.mem_map.mp hmem
  obtain ⟨other, -, rfl⟩ := List.mem_map.mp hone
  cases heq

/-- What is found in any directory is found in the root, or in a directory below a child. -/
theorem foundBelow_eq (each : Node → List Found) (node : Node) :
    foundBelow each node = each node ++ (Node.subdirectories node).flatMap fun child =>
      (foundBelow each child.2).map (Found.under [child.1]) := by
  have hroot : (each node).map (Found.under []) = each node := List.map_id _
  unfold foundBelow
  rw [Node.directories_eq, List.flatMap_cons, hroot, List.flatMap_assoc]
  congr 2
  funext child
  rw [List.flatMap_map, List.map_flatMap]
  congr 1
  funext below
  rw [List.map_map]
  rfl

section Counting

variable {directoriesOnly : Bool} {node : Node}

/-- Whether some names lead to an entry of the kind asked for, as a number. -/
def present (directoriesOnly : Bool) (node : Node) (names : List Bytes) : ℕ :=
  match node.find names with
  | some below => if directoriesOnly && !isDirectoryAttrs below.label then 0 else 1
  | none => 0

/-- Names that lead through a child. -/
theorem present_cons (name : Bytes) (names : List Bytes) :
    present directoriesOnly node (name :: names) =
      ((node.child name).map fun below => present directoriesOnly below names).getD 0 := by
  unfold present
  rw [Trie.find_cons]
  cases node.child name <;> rfl

/-- Names lead nowhere below what is no directory. -/
theorem present_of_empty (h : node.children = []) {names : List Bytes} (hne : names ≠ []) :
    present directoriesOnly node names = 0 := by
  cases names with
  | nil => exact absurd rfl hne
  | cons name names =>
    rw [present_cons, Trie.child, h]
    rfl

/-- A sum over the subdirectories has a term for the one under a name, if it is there. -/
theorem sum_subdirectories (hproper : node.Proper) (name : Bytes) (value : Node → ℕ) :
    ((Node.subdirectories node).map fun child =>
        if child.1 = name then value child.2 else 0).sum =
      ((node.child name).map fun below =>
        if isDirectoryAttrs below.label then value below else 0).getD 0 := by
  rw [← Trie.sum_children hproper.distinct]
  unfold Node.subdirectories
  induction node.children with
  | nil => rfl
  | cons child children ih =>
    rw [List.map_cons, List.sum_cons, ← ih]
    cases hdirectory : isDirectoryAttrs child.2.label <;> simp [hdirectory]

/-- What is found only below directories is found at most where the components that are left
cover the names. -/
theorem times_child (hproper : node.Proper) (name : Bytes) {names : List Bytes}
    (value : Node → ℕ) (left : List Bytes → ℕ) (hleft : left [] = 0)
    (hvalue : ∀ child ∈ node.children, value child.2 =
      present directoriesOnly child.2 names * left names) :
    ((Node.subdirectories node).map fun child =>
        if child.1 = name then value child.2 else 0).sum =
      present directoriesOnly node (name :: names) * left names := by
  rw [sum_subdirectories hproper, present_cons]
  cases hchild : node.child name with
  | none => simp
  | some below =>
    have hmem := Trie.mem_of_child hchild
    simp only [Option.map_some, Option.getD_some]
    split_ifs with hdirectory
    · exact hvalue _ hmem
    · have hempty := hproper.empty _ hmem (Bool.not_eq_true _ ▸ hdirectory)
      by_cases hnames : names = []
      · rw [hnames, hleft, mul_zero]
      · rw [present_of_empty hempty hnames, zero_mul]

/-- A component at the end finds each entry it fits once. -/
theorem times_foundLevel_none (hproper : node.Proper) {head : Bytes}
    (hhead : isRecursive head = false) (names : List Bytes) :
    times names (foundLevel directoriesOnly head none node) =
      present directoriesOnly node names * coverings [head] names := by
  have hone : ∀ child : Bytes × Node, times names
      (if fits head child.1 then
        if directoriesOnly && !isDirectoryAttrs child.2.label then []
        else [([child.1], DirEntry.mk child.1 child.2.label)]
      else []) =
        if [child.1] = names then if fits head child.1 then present directoriesOnly child.2 []
          else 0 else 0 := by
    intro child
    have hpresent : present directoriesOnly child.2 [] =
        if directoriesOnly && !isDirectoryAttrs child.2.label then 0 else 1 := rfl
    rw [hpresent]
    by_cases hnames : [child.1] = names
    · subst hnames
      rw [if_pos rfl]
      split_ifs <;> simp [times]
    · split_ifs <;> simp [times, hnames]
  unfold foundLevel
  rw [times_flatMap]
  simp only [hone]
  cases names with
  | nil => simp [coverings, ways_cons_nil, hhead]
  | cons name names =>
    rw [coverings, ways_one hhead]
    cases names with
    | nil =>
      rw [present_cons, ways_nil_nil]
      have hsum := Trie.sum_children hproper.distinct name fun below =>
        if fits head name then present directoriesOnly below [] else 0
      have hsame : ∀ child : Bytes × Node,
          (if [child.1] = [name] then if fits head child.1 then
            present directoriesOnly child.2 [] else 0 else 0) =
          if child.1 = name then if fits head name then
            present directoriesOnly child.2 [] else 0 else 0 := by
        intro child
        by_cases hname : child.1 = name
        · rw [hname]
          simp
        · simp [hname]
      simp only [hsame, hsum]
      cases node.child name <;> split_ifs <;> simp
    | cons next names => simp

/-- A component that is not the last finds nothing below what is no directory. -/
theorem foundLevel_some (head : Bytes) (deeper : Node → List Found) (node : Node) :
    foundLevel directoriesOnly head (some deeper) node =
      (Node.subdirectories node).flatMap fun child =>
        if fits head child.1 then (deeper child.2).map (Found.under [child.1]) else [] := by
  unfold foundLevel Node.subdirectories
  induction node.children with
  | nil => rfl
  | cons child children ih =>
    rw [List.flatMap_cons, ih]
    cases hdirectory : isDirectoryAttrs child.2.label <;> simp [hdirectory]

/-- A component that is not the last finds what is found below the directories that it fits. -/
theorem times_foundLevel_some (hproper : node.Proper) {head : Bytes} {rest : List Bytes}
    (hhead : isRecursive head = false) (hrest : coverings rest [] = 0) {deeper : Node → List Found}
    (hdeeper : ∀ child ∈ node.children, ∀ names, times names (deeper child.2) =
      present directoriesOnly child.2 names * coverings rest names)
    (names : List Bytes) :
    times names (foundLevel directoriesOnly head (some deeper) node) =
      present directoriesOnly node names * coverings (head :: rest) names := by
  rw [foundLevel_some, times_flatMap]
  cases names with
  | nil =>
    have hone : ∀ child : Bytes × Node, times []
        (if fits head child.1 then (deeper child.2).map (Found.under [child.1]) else []) = 0 := by
      intro child
      split_ifs
      · exact times_under_nil _ _
      · rfl
    simp [hone, coverings, ways_cons_nil, hhead]
  | cons name names =>
    have hone : ∀ child : Bytes × Node, times (name :: names)
        (if fits head child.1 then (deeper child.2).map (Found.under [child.1]) else []) =
          if child.1 = name then if fits head name then times names (deeper child.2) else 0
          else 0 := by
      intro child
      by_cases hname : child.1 = name
      · rw [if_pos hname, ← hname]
        split_ifs
        · rw [times_under_cons, if_pos rfl]
        · rfl
      · rw [if_neg hname]
        split_ifs
        · rw [times_under_cons, if_neg hname]
        · rfl
    simp only [hone]
    have hsum := times_child hproper name
      (fun below => if fits head name then times names (deeper below) else 0)
      (fun names => if fits head name then coverings rest names else 0)
      (by simp [hrest]) fun child hmem => by
        by_cases hfit : fits head name = true
        · simp only [if_pos hfit]
          exact hdeeper child hmem names
        · simp [hfit]
    have hways : coverings (head :: rest) (name :: names) =
        if fits head name then coverings rest names else 0 := ways_one hhead
    rw [hsum, hways]

/-- A `**` finds what is found in any directory, once for each directory. -/
theorem times_foundBelow (hproper : node.All Node.Proper) {head : Bytes} {rest : List Bytes}
    (hhead : isRecursive head = true) (hrest : coverings rest [] = 0) {each : Node → List Found}
    (heach : ∀ below : Node, below.All Node.Proper → ∀ names, times names (each below) =
      present directoriesOnly below names * coverings rest names)
    (names : List Bytes) :
    times names (foundBelow each node) =
      present directoriesOnly node names * coverings (head :: rest) names := by
  have hleft : coverings (head :: rest) [] = 0 := by
    rw [coverings, ways_cons_nil, if_pos hhead]
    exact hrest
  induction names generalizing node with
  | nil =>
    rw [foundBelow_eq, times_append, heach node hproper, hrest, hleft, times_flatMap]
    simp [times_under_nil]
  | cons name names ih =>
    rw [foundBelow_eq, times_append, heach node hproper, times_flatMap]
    simp only [times_under_cons]
    have hsum := times_child hproper.here name (fun below => times names (foundBelow each below))
      (coverings (head :: rest)) hleft fun child hmem => ih (hproper.of_child hmem)
    have hways : coverings (head :: rest) (name :: names) =
        coverings rest (name :: names) + coverings (head :: rest) names := ways_many hhead
    rw [hsum, hways, mul_add]

/-- Every entry is found once for each way the components cover its names. -/
theorem times_found (hproper : node.All Node.Proper) {components : List Bytes}
    (hne : components ≠ []) (names : List Bytes) :
    times names (found directoriesOnly components node) =
      present directoriesOnly node names * coverings (expand components) names := by
  induction components generalizing node names with
  | nil => exact absurd rfl hne
  | cons head rest ih =>
    unfold found
    by_cases hhead : head = recursive
    · have hrecursive : isRecursive head = true := decide_eq_true hhead
      rw [if_pos hhead]
      cases rest with
      | nil =>
        have hexpand : expand [head] = [head, everything] := by rw [expand, if_pos hrecursive]
        rw [hexpand]
        refine times_foundBelow hproper hrecursive ?_ (fun below hbelow names => ?_) names
        · simp [coverings, ways_cons_nil, isRecursive_everything]
        · exact times_foundLevel_none hbelow.here isRecursive_everything names
      | cons next rest =>
        rw [expand_cons head (List.cons_ne_nil _ _)]
        exact times_foundBelow hproper hrecursive (coverings_expand_nil (List.cons_ne_nil _ _))
          (fun below hbelow names => ih hbelow (List.cons_ne_nil _ _) names) names
    · have hrecursive : isRecursive head = false := decide_eq_false hhead
      rw [if_neg hhead]
      cases rest with
      | nil =>
        have hexpand : expand [head] = [head] := by simp [expand, hrecursive]
        rw [hexpand]
        exact times_foundLevel_none hproper.here hrecursive names
      | cons next rest =>
        rw [expand_cons head (List.cons_ne_nil _ _)]
        exact times_foundLevel_some hproper.here hrecursive
          (coverings_expand_nil (List.cons_ne_nil _ _))
          (fun child hmem names => ih (hproper.of_child hmem) (List.cons_ne_nil _ _) names) names

end Counting

/-! ## What is yielded -/

section Yielding

variable {σ : Type} {server : TreeServer} {base : Bytes} {tree : RemoteTree}

/-- The match for an entry that was found. -/
def Found.match_ (base : Bytes) (front : List Bytes) (found : Found) : GlobMatch where
  path := joinAll base (front ++ found.1)
  entry := found.2

/-- The match for an entry found below a child. -/
theorem Found.match_under (base : Bytes) (front names : List Bytes) (entries : List Found) :
    (entries.map (Found.under names)).map (Found.match_ base front) =
      entries.map (Found.match_ base (front ++ names)) := by
  rw [List.map_map]
  congr 1
  funext found
  simp [Found.match_, Found.under]

/-- An entry whose kind was reported is a directory or not. -/
theorem gives_isDirectory {entry : DirEntry} (h : entry.kind ≠ .unknown) (path : Bytes) :
    Gives (isDirectory server path entry : Traversal σ _) (isDirectoryAttrs entry.attrs) [] := by
  refine (gives_settleKind h path).then ?_
  unfold isDirectoryAttrs
  unfold DirEntry.kind at h ⊢
  cases hkind : entryKind entry.attrs <;> first | exact .pure _ | exact absurd hkind h

/-- Yielding a match. -/
theorem gives_yield (path : Bytes) (entry : DirEntry) :
    Gives (yield_ path entry : Traversal σ _) () [{ path := path, entry := entry }] :=
  fun _ h => ⟨_, rfl, h, rfl⟩

/-- A choice made on a value that is known. -/
theorem Gives.ite {α : Type} {condition : Bool} {yes no : Traversal σ α} {value : α}
    {found found' : List GlobMatch} (hyes : condition = true → Gives yes value found)
    (hno : condition = false → Gives no value found') :
    Gives (if condition then yes else no) value (if condition then found else found') := by
  cases condition with
  | false => exact hno rfl
  | true => exact hyes rfl

/-- A directory that the tree holds at some names below its base. -/
structure RemoteTree.DirectoryAt (tree : RemoteTree) (names : List Bytes) (node : Node) : Prop where
  found : ∃ top ∈ tree.node, top.find names = some node
  directory : names = [] ∨ isDirectoryAttrs node.label = true

/-- A directory that the tree holds is a proper tree. -/
theorem RemoteTree.DirectoryAt.proper {names : List Bytes} {node : Node}
    (h : tree.DirectoryAt names node) : node.All Node.Proper := by
  obtain ⟨top, htop, hfind⟩ := h.found
  exact (tree.proper top htop).find hfind

/-- The names on the way to anything in a proper tree are components. -/
theorem components_of_find {top node : Node} (htop : top.All Node.Proper) {names : List Bytes}
    (hfind : top.find names = some node) : ∀ name ∈ names, IsComponent name := by
  induction names generalizing top with
  | nil => simp
  | cons first names ih =>
    obtain ⟨middle, hchild, hrest⟩ := Option.bind_eq_some_iff.mp hfind
    have hmem := Trie.mem_of_child hchild
    intro name hname
    obtain rfl | hlater := List.mem_cons.mp hname
    · exact htop.here.component _ hmem
    · exact ih (htop.of_child hmem) hrest name hlater

/-- The names of a directory that the tree holds are components. -/
theorem RemoteTree.DirectoryAt.components {names : List Bytes} {node : Node}
    (h : tree.DirectoryAt names node) : ∀ name ∈ names, IsComponent name := by
  obtain ⟨top, htop, hfind⟩ := h.found
  exact components_of_find (tree.proper top htop) hfind

/-- A subdirectory of a directory that the tree holds. -/
theorem RemoteTree.DirectoryAt.child {names : List Bytes} {node : Node}
    (h : tree.DirectoryAt names node) {child : Bytes × Node} (hmem : child ∈ node.children)
    (hdirectory : isDirectoryAttrs child.2.label = true) :
    tree.DirectoryAt (names ++ [child.1]) child.2 := by
  obtain ⟨top, htop, hfind⟩ := h.found
  refine ⟨⟨top, htop, ?_⟩, Or.inr hdirectory⟩
  rw [Trie.find_append, hfind]
  simp [Trie.child_of_mem h.proper.here.distinct hmem]

/-- A directory below a directory that the tree holds. -/
theorem RemoteTree.DirectoryAt.below {names back : List Bytes} {node below : Node}
    (h : tree.DirectoryAt names node) (hfind : node.find back = some below)
    (hdirectory : back = [] ∨ isDirectoryAttrs below.label = true) :
    tree.DirectoryAt (names ++ back) below := by
  obtain ⟨top, htop, hnode⟩ := h.found
  refine ⟨⟨top, htop, by rw [Trie.find_append, hnode]; exact hfind⟩, ?_⟩
  obtain rfl | hlabel := hdirectory
  · obtain rfl : node = below := Option.some.inj hfind
    simpa using h.directory
  · exact Or.inr hlabel

/-- Below its base, a path is spelled from the default directory or without it. -/
theorem joinAll_orHere {names back : List Bytes} (hnames : ∀ name ∈ names, IsComponent name) :
    joinAll (orHere (joinAll base names)) back =
      if base = [] ∧ names = [] then joinAll here back else joinAll base (names ++ back) := by
  unfold orHere
  split_ifs with hnil hempty hempty
  · rfl
  · have hbase : base = [] := Inside.eq_nil ⟨names, hnames, hnil.symm⟩
    subst hbase
    have hsplit := splitComponents_joinAll [] (segments_of_components hnames)
    rw [hnil] at hsplit
    exact absurd ⟨rfl, hsplit.symm⟩ hempty
  · obtain ⟨rfl, rfl⟩ := hempty
    exact absurd rfl hnil
  · rw [joinAll_append]

/-- The directories below one that the tree holds are listed however it is spelled. -/
theorem TreeServer.Serves.lists_below (h : server.Serves base tree) {names : List Bytes}
    {node : Node} (hnode : tree.DirectoryAt names node) :
    server.Lists (orHere (joinAll base names)) node := by
  obtain ⟨top, htop, hfind⟩ := hnode.found
  intro back below hbelow hdirectory sent
  have hall := hnode.below hbelow hdirectory
  have htotal : top.find (names ++ back) = some below := by
    rw [Trie.find_append, hfind]
    exact hbelow
  have hlisted := h.lists top htop (names ++ back) below htotal hall.directory sent
  rw [joinAll_orHere hnode.components]
  split_ifs with hempty
  · obtain ⟨rfl, rfl⟩ := hempty
    exact hlisted
  · by_cases hbase : base = []
    · subst hbase
      have hne : names ++ back ≠ [] := fun hnil => hempty ⟨rfl, (List.append_eq_nil_iff.mp hnil).1⟩
      rw [h.spelled top htop rfl (names ++ back) below htotal (hall.directory.resolve_left hne) hne]
      exact hlisted
    · rw [orHere, if_neg hbase] at hlisted
      exact hlisted

variable {directoriesOnly : Bool}

/-- A component that is accepted matches a name or does not. -/
theorem gives_matches {component : Bytes} (h : validatePattern component = .ok ()) (name : Bytes) :
    Gives (matches_ true component name : Traversal σ _) (fits component name) [] := by
  obtain ⟨matched, hmatched⟩ := matchComponent_of_accepted true h name
  unfold matches_ fits
  rw [hmatched]
  cases matched <;> exact .pure _

/-- Matching a component against the entries of a directory that the tree holds. -/
theorem gives_matchLevel (hserves : server.Serves base tree) {names : List Bytes} {node : Node}
    (hnode : tree.DirectoryAt names node) {head : Bytes} (hhead : validatePattern head = .ok ())
    {deeper : Option (Bytes → Traversal σ Unit)} {entries : Bytes × Node → List Found}
    (hentry : ∀ child ∈ node.children,
      Gives (matchEntry server directoriesOnly deeper (joinAll base (names ++ [child.1]))
        { filename := child.1, attrs := child.2.label }) ()
        ((entries child).map (Found.match_ base names))) :
    Gives (matchLevel server true directoriesOnly head deeper (joinAll base names)) ()
      ((node.children.flatMap fun child => if fits head child.1 then entries child else []).map
        (Found.match_ base names)) := by
  have hproper := hnode.proper.here
  have hlisted := hserves.lists_below hnode [] node rfl (Or.inl rfl)
  have hloop : Gives ((Node.entries node).foldlM (fun (_ : Unit) entry =>
      matchListed server true directoriesOnly head deeper (joinAll base names) entry) ()) ()
      ((node.children.flatMap fun child => if fits head child.1 then entries child else []).map
        (Found.match_ base names)) := by
    unfold Node.entries
    rw [List.foldlM_map, List.map_flatMap]
    refine .foldlM_unit fun child hmem => ?_
    have hname := hproper.component child hmem
    unfold matchListed checkListedName
    rw [show remoteComponentReason child.1 = none from hname]
    refine (Gives.pure child.1).then ((gives_matches hhead child.1).then ?_)
    rw [apply_ite (List.map (Found.match_ base names))]
    refine .ite (fun _ => ?_) fun _ => .pure ()
    rw [← joinAll_concat]
    exact hentry child hmem
  refine Gives.last (gives_scandir hlisted hloop) ?_
  exact .pure ()

/-- Dealing with an entry that the last component fits. -/
theorem gives_matchEntry_none {names : List Bytes} {child : Bytes × Node}
    (hreported : (DirEntry.mk child.1 child.2.label).kind ≠ .unknown) :
    Gives (matchEntry server directoriesOnly none (joinAll base (names ++ [child.1]))
        { filename := child.1, attrs := child.2.label } : Traversal σ _) ()
      ((if directoriesOnly && !isDirectoryAttrs child.2.label then []
        else [([child.1], DirEntry.mk child.1 child.2.label)]).map (Found.match_ base names)) := by
  unfold matchEntry
  cases directoriesOnly with
  | false => exact gives_yield _ _
  | true =>
    refine (gives_isDirectory hreported _).then ?_
    dsimp only
    cases isDirectoryAttrs child.2.label with
    | false => exact .pure ()
    | true => exact gives_yield _ _

/-- Dealing with an entry that a component fits, and others follow. -/
theorem gives_matchEntry_some {names : List Bytes} {child : Bytes × Node}
    (hreported : (DirEntry.mk child.1 child.2.label).kind ≠ .unknown) {descend : Bytes → Traversal σ Unit}
    {deeper : Node → List Found}
    (hdescend : isDirectoryAttrs child.2.label = true →
      Gives (descend (joinAll base (names ++ [child.1]))) ()
        ((deeper child.2).map (Found.match_ base (names ++ [child.1])))) :
    Gives (matchEntry server directoriesOnly (some descend) (joinAll base (names ++ [child.1]))
        { filename := child.1, attrs := child.2.label }) ()
      ((if isDirectoryAttrs child.2.label then (deeper child.2).map (Found.under [child.1])
        else []).map (Found.match_ base names)) := by
  unfold matchEntry
  refine (gives_isDirectory hreported _).then ?_
  dsimp only
  cases hdirectory : isDirectoryAttrs child.2.label with
  | false => exact .pure ()
  | true =>
    rw [if_pos rfl, if_pos rfl, Found.match_under]
    exact hdescend hdirectory

/-- What a walk for a pattern reached, as the pattern spells it. -/
theorem reached_eq {names back : List Bytes} (hnames : ∀ name ∈ names, IsComponent name)
    (hback : ∀ name ∈ back, IsComponent name) :
    (if joinAll base names = [] then stripDotPrefix (joinAll (orHere (joinAll base names)) back)
      else joinAll (orHere (joinAll base names)) back) = joinAll base (names ++ back) := by
  rw [joinAll_orHere hnames]
  by_cases hempty : base = [] ∧ names = []
  · obtain ⟨rfl, rfl⟩ := hempty
    exact stripDotPrefix_joinAll hback
  · have hne : joinAll base names ≠ [] := by
      intro hnil
      obtain rfl : base = [] := Inside.eq_nil ⟨names, hnames, hnil.symm⟩
      have hsplit := splitComponents_joinAll [] (segments_of_components hnames)
      rw [hnil] at hsplit
      exact hempty ⟨rfl, hsplit.symm⟩
    rw [if_neg hne, if_neg hempty]

/-- As many turns as any walk below a directory takes. -/
theorem directories_length_le {top node : Node} (htop : top.All Node.Proper) {names : List Bytes}
    (hfind : top.find names = some node)
    (hdirectory : names = [] ∨ isDirectoryAttrs node.label = true) :
    (Node.directories node).length ≤ (Node.directories top).length := by
  induction names generalizing top with
  | nil => exact (Option.some.inj hfind ▸ le_rfl)
  | cons name names ih =>
    obtain ⟨middle, hchild, hrest⟩ := Option.bind_eq_some_iff.mp hfind
    have hmem := Trie.mem_of_child hchild
    have hlabel := hdirectory.resolve_left (List.cons_ne_nil _ _)
    have hmiddle : isDirectoryAttrs middle.label = true := by
      by_contra hleaf
      have hempty := htop.here.empty _ hmem (Bool.not_eq_true _ ▸ hleaf)
      cases names with
      | nil =>
        obtain rfl : middle = node := Option.some.inj hrest
        exact hleaf hlabel
      | cons next names =>
        rw [Trie.find_cons, Trie.child, hempty] at hrest
        cases hrest
    have hle : (Node.directories node).length ≤ (Node.directories middle).length :=
      ih (htop.of_child hmem) hrest (Or.inr hlabel)
    have hsub : (name, middle) ∈ Node.subdirectories top := List.mem_filter.mpr ⟨hmem, hmiddle⟩
    have hsum : (Node.directories middle).length ≤
        ((Node.subdirectories top).map fun child => (Node.directories child.2).length).sum :=
      List.single_le_sum (by simp) _ (List.mem_map_of_mem hsub)
    rw [Node.directories_eq top, List.length_cons, List.length_flatMap]
    simp only [List.length_map]
    omega

/-- Matching components below a directory that the tree holds. -/
theorem gives_matchIn (hserves : server.Serves base tree) {turns : ℕ}
    (hturns : ∀ top ∈ tree.node, (Node.directories top).length ≤ turns)
    {components : List Bytes} (haccepted : ∀ component ∈ components, validatePattern component = .ok ())
    {names : List Bytes} {node : Node} (hnode : tree.DirectoryAt names node) :
    Gives (matchIn server turns none true directoriesOnly components (joinAll base names) :
        Traversal σ _) ()
      ((found directoriesOnly components node).map (Found.match_ base names)) := by
  induction components generalizing names node with
  | nil => exact .pure ()
  | cons head rest ih =>
    have hrest : ∀ component ∈ rest, validatePattern component = .ok () :=
      fun component hmem => haccepted component (List.mem_cons_of_mem _ hmem)
    have hvalid := haccepted head List.mem_cons_self
    have hproper := hnode.proper
    unfold matchIn found
    by_cases hhead : head = recursive
    · rw [if_pos hhead, if_pos hhead]
      obtain ⟨top, htop, hfind⟩ := hnode.found
      have hbound := (directories_length_le (tree.proper top htop) hfind hnode.directory).trans
        (hturns top htop)
      unfold foundBelow
      rw [List.map_flatMap]
      refine gives_walk (hserves.lists_below hnode) hproper hserves.rooted
        (fun back below => (((match rest with
          | [] => foundLevel directoriesOnly everything none
          | _ :: _ => found directoriesOnly rest) below).map (Found.under back)).map
            (Found.match_ base names))
        (fun back below hbelow hdirectory => ?_) hbound
      have hat := hnode.below hbelow hdirectory
      obtain ⟨hpath, -, -⟩ := Node.visited_fields (joinAll (orHere (joinAll base names)) back) back
        below
      rw [hpath, reached_eq hnode.components (components_of_find hproper hbelow),
        Found.match_under]
      cases rest with
      | nil =>
        unfold foundLevel
        refine gives_matchLevel hserves hat (by decide +kernel) fun child hmem => ?_
        exact gives_matchEntry_none (hat.proper.here.reported child hmem)
      | cons next rest => exact ih hrest hat
    · rw [if_neg hhead, if_neg hhead]
      cases rest with
      | nil =>
        unfold foundLevel
        refine gives_matchLevel hserves hnode hvalid fun child hmem => ?_
        exact gives_matchEntry_none (hproper.here.reported child hmem)
      | cons next rest =>
        unfold foundLevel
        refine gives_matchLevel hserves hnode hvalid fun child hmem => ?_
        exact gives_matchEntry_some (hproper.here.reported child hmem)
          fun hdirectory => ih hrest (hnode.child hmem hdirectory)

end Yielding

end GantrySftp
