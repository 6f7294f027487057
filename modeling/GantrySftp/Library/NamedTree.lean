import Mathlib

/-!
# Finite trees with named children

A tree holds a label and children under names. A child is found by the names on the way to it;
where no node has two children of one name, every way leads to one node at most. Some nodes may
not be entered: the nodes that can be reached without entering them are listed in preorder.
-/

namespace Library

/-- A finite tree whose nodes are labelled and whose children are named. -/
inductive Trie (ν α : Type)
  | node (label : α) (children : List (ν × Trie ν α))

namespace Trie

variable {ν α : Type}

/-- The label at the root. -/
def label : Trie ν α → α
  | node label _ => label

/-- The children of the root, with their names. -/
def children : Trie ν α → List (ν × Trie ν α)
  | node _ children => children

/-- Children are smaller. -/
theorem sizeOf_lt_of_mem {tree : Trie ν α} {child : ν × Trie ν α} (h : child ∈ tree.children) :
    sizeOf child.2 < sizeOf tree := by
  obtain ⟨label, children⟩ := tree
  have hmem : sizeOf child < sizeOf children := List.sizeOf_lt_of_mem h
  obtain ⟨name, below⟩ := child
  simp only [Prod.mk.sizeOf_spec, node.sizeOf_spec] at hmem ⊢
  omega

/-- Induction from the children to their parent. -/
theorem induction {motive : Trie ν α → Prop}
    (step : ∀ tree, (∀ child ∈ tree.children, motive child.2) → motive tree)
    (tree : Trie ν α) : motive tree := by
  induction hsize : sizeOf tree using Nat.strongRecOn generalizing tree with
  | ind size ih =>
    exact step tree fun child hmem => ih _ (hsize ▸ sizeOf_lt_of_mem hmem) child.2 rfl

/-! ## What is under some names -/

section Finding

variable [DecidableEq ν]

/-- The child under a name. -/
def child (tree : Trie ν α) (name : ν) : Option (Trie ν α) := tree.children.lookup name

/-- What is under some names. -/
def find : Trie ν α → List ν → Option (Trie ν α)
  | tree, [] => some tree
  | tree, name :: names => (tree.child name).bind fun below => below.find names

/-- Under no names is the tree itself. -/
@[simp] theorem find_nil (tree : Trie ν α) : tree.find [] = some tree := rfl

/-- A first name leads to a child. -/
@[simp] theorem find_cons (tree : Trie ν α) (name : ν) (names : List ν) :
    tree.find (name :: names) = (tree.child name).bind fun below => below.find names := rfl

/-- Names behind names. -/
theorem find_append (tree : Trie ν α) (front back : List ν) :
    tree.find (front ++ back) = (tree.find front).bind fun below => below.find back := by
  induction front generalizing tree with
  | nil => rfl
  | cons name front ih =>
    rw [List.cons_append, find_cons, find_cons, Option.bind_assoc]
    congr 1
    funext below
    exact ih below

/-- What is found under a name is a child. -/
theorem mem_of_child {tree below : Trie ν α} {name : ν} (h : tree.child name = some below) :
    (name, below) ∈ tree.children := by
  obtain ⟨front, back, heq, -⟩ := List.lookup_eq_some_iff.mp h
  rw [heq]
  exact List.mem_append_right _ List.mem_cons_self

/-- Without two children of one name, a child is what is found under its name. -/
theorem child_of_mem {tree : Trie ν α} (hnodup : (tree.children.map Prod.fst).Nodup)
    {named : ν × Trie ν α} (h : named ∈ tree.children) : tree.child named.1 = some named.2 := by
  unfold child
  generalize tree.children = children at hnodup h
  induction children with
  | nil => cases h
  | cons first rest ih =>
    rw [List.map_cons, List.nodup_cons] at hnodup
    obtain rfl | hrest := List.mem_cons.mp h
    · exact List.lookup_cons_self
    · have hne : named.1 ≠ first.1 := fun heq =>
        hnodup.1 (heq ▸ List.mem_map_of_mem hrest)
      rw [List.lookup_cons, beq_false_of_ne hne]
      exact ih hnodup.2 hrest

/-- Without two children of one name, a sum over the children under it has one term at most. -/
theorem sum_children {tree : Trie ν α} (hnodup : (tree.children.map Prod.fst).Nodup) (name : ν)
    (value : Trie ν α → ℕ) :
    (tree.children.map fun named => if named.1 = name then value named.2 else 0).sum =
      ((tree.child name).map value).getD 0 := by
  unfold child
  generalize tree.children = children at hnodup
  induction children with
  | nil => rfl
  | cons first rest ih =>
    rw [List.map_cons, List.nodup_cons] at hnodup
    rw [List.map_cons, List.sum_cons, ih hnodup.2, List.lookup_cons]
    by_cases hname : first.1 = name
    · subst hname
      have hnone : rest.lookup first.1 = none := by
        refine List.lookup_eq_none_iff.mpr fun other hother => bne_iff_ne.mpr fun heq => ?_
        exact hnodup.1 (heq ▸ List.mem_map_of_mem hother)
      simp [hnone]
    · rw [if_neg hname, beq_false_of_ne (Ne.symm hname), zero_add]

end Finding

/-! ## What holds of every node -/

/-- A property of every node of a tree. -/
inductive All (property : Trie ν α → Prop) : Trie ν α → Prop
  | mk {tree : Trie ν α} (here : property tree)
      (below : ∀ child ∈ tree.children, All property child.2) : All property tree

/-- A property of every node is one of the root. -/
theorem All.here {property : Trie ν α → Prop} {tree : Trie ν α} (h : All property tree) :
    property tree := by
  cases h with
  | mk here below => exact here

/-- A property of every node is one of every node below. -/
theorem All.of_child {property : Trie ν α → Prop} {tree : Trie ν α} (h : All property tree)
    {child : ν × Trie ν α} (hmem : child ∈ tree.children) : All property child.2 := by
  cases h with
  | mk here below => exact below child hmem

/-- A property of every node is one of what is found. -/
theorem All.find [DecidableEq ν] {property : Trie ν α → Prop} {tree below : Trie ν α}
    {names : List ν} (h : All property tree) (hfind : tree.find names = some below) :
    All property below := by
  induction names generalizing tree with
  | nil => exact Option.some.inj hfind ▸ h
  | cons name names ih =>
    obtain ⟨middle, hchild, hrest⟩ := Option.bind_eq_some_iff.mp hfind
    exact ih (h.of_child (mem_of_child hchild)) hrest

/-! ## Nodes in preorder -/

section Preorder

variable (enter : α → Bool)

/-- The nodes that are reached by entering children, with the names on the way, each before
those below it. -/
def reached : Trie ν α → List (List ν × Trie ν α)
  | node label children =>
    ([], node label children) :: (children.flatMap fun child =>
      if enter child.2.label then
        (reached child.2).map fun below => (child.1 :: below.1, below.2)
      else [])
termination_by tree => sizeOf tree
decreasing_by exact @sizeOf_lt_of_mem _ _ (node label children) _ ‹_›

/-- The root is reached first, then what its children reach. -/
theorem reached_eq (tree : Trie ν α) :
    tree.reached enter = ([], tree) :: (tree.children.flatMap fun child =>
      if enter child.2.label then
        (child.2.reached enter).map fun below => (child.1 :: below.1, below.2)
      else []) := by
  obtain ⟨label, children⟩ := tree
  rw [reached]
  rfl

/-- A node with one more name on the way to it. -/
def under (name : ν) (one : List ν × Trie ν α) : List ν × Trie ν α := (name :: one.1, one.2)

/-- The children that are entered. -/
def entered (tree : Trie ν α) : List (ν × Trie ν α) :=
  tree.children.filter fun child => enter child.2.label

/-- The nodes reached are the root and those reached from the children that are entered. -/
theorem reached_entered (tree : Trie ν α) :
    tree.reached enter = ([], tree) :: (tree.entered enter).flatMap fun child =>
      (child.2.reached enter).map (under child.1) := by
  rw [reached_eq, entered]
  congr 1
  induction tree.children with
  | nil => rfl
  | cons child children ih =>
    rw [List.flatMap_cons, ih]
    cases hentered : enter child.2.label <;> simp [hentered, under]

end Preorder

end Trie

end Library
