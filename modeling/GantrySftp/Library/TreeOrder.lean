import Mathlib.Data.List.Nodup
import Mathlib.Data.List.Perm.Basic
import GantrySftp.Library.NamedTree

/-!
# Leaving a tree from below

A tree is entered at some of its nodes, and the nodes entered are listed in preorder. Read
backwards, with the children that were not entered listed before their parent, the list has every
node of the tree once, and none before a node below it.
-/

namespace Library

namespace Trie

variable {ν α : Type}

/-- All nodes of a tree, with the names on the way. -/
def all (tree : Trie ν α) : List (List ν × Trie ν α) := tree.reached fun _ => true

/-- The nodes of a tree are its root and those of its children. -/
theorem all_eq (tree : Trie ν α) :
    tree.all = ([], tree) :: tree.children.flatMap fun child => child.2.all.map (under child.1) := by
  unfold all
  rw [reached_eq]
  simp only [if_true]
  rfl

/-- The root is a node. -/
theorem root_mem_all (tree : Trie ν α) : ([], tree) ∈ tree.all := by
  rw [all_eq]
  exact List.mem_cons_self

/-- A child's nodes are nodes. -/
theorem mem_all_of_child {tree : Trie ν α} {child one : _} (hchild : child ∈ tree.children)
    (h : one ∈ child.2.all) : under child.1 one ∈ tree.all := by
  rw [all_eq]
  exact List.mem_cons_of_mem _ (List.mem_flatMap.mpr ⟨child, hchild, List.mem_map_of_mem h⟩)

/-- The nodes of a node are nodes. -/
theorem mem_all_trans {tree : Trie ν α} {one below : List ν × Trie ν α} (h : one ∈ tree.all)
    (hbelow : below ∈ one.2.all) : (one.1 ++ below.1, below.2) ∈ tree.all := by
  induction tree using induction generalizing one with
  | step tree ih =>
    rw [all_eq, List.mem_cons] at h
    rcases h with rfl | h
    · exact hbelow
    · obtain ⟨child, hchild, hone⟩ := List.mem_flatMap.mp h
      obtain ⟨inner, hinner, rfl⟩ := List.mem_map.mp hone
      exact mem_all_of_child hchild (ih child hchild hinner hbelow)

/-- A property of every node is one of each. -/
theorem All.of_mem_all {property : Trie ν α → Prop} {tree : Trie ν α} (h : All property tree)
    {one : List ν × Trie ν α} (hone : one ∈ tree.all) : All property one.2 := by
  induction tree using induction generalizing one with
  | step tree ih =>
    rw [all_eq, List.mem_cons] at hone
    rcases hone with rfl | hone
    · exact h
    · obtain ⟨child, hchild, hone⟩ := List.mem_flatMap.mp hone
      obtain ⟨inner, hinner, rfl⟩ := List.mem_map.mp hone
      have hbelow := ih child hchild (h.of_child hchild) hinner
      exact hbelow

/-- What is entered is part of the tree, and but for the root it may be entered. -/
theorem mem_all_of_reached {enter : α → Bool} {tree : Trie ν α} (hroot : enter tree.label = true)
    {one : List ν × Trie ν α} (h : one ∈ tree.reached enter) :
    one ∈ tree.all ∧ enter one.2.label = true := by
  induction tree using induction generalizing one with
  | step tree ih =>
    rw [reached_entered, List.mem_cons] at h
    rcases h with rfl | h
    · exact ⟨root_mem_all tree, hroot⟩
    · obtain ⟨child, hentered, hone⟩ := List.mem_flatMap.mp h
      obtain ⟨inner, hinner, rfl⟩ := List.mem_map.mp hone
      obtain ⟨hchild, henter⟩ := List.mem_filter.mp hentered
      have hbelow := ih child hchild henter hinner
      exact ⟨mem_all_of_child hchild hbelow.1, hbelow.2⟩

section Leaving

variable (enter : α → Bool)

variable (leaves : Trie ν α → List (ν × Trie ν α))

/-- The children that are not entered, in whatever order, and then their parent. -/
def closing (one : List ν × Trie ν α) : List (List ν × Trie ν α) :=
  (leaves one.2).map (fun child => (one.1 ++ [child.1], child.2)) ++ [one]

/-- The nodes of a tree in an order in which they can be taken away. -/
def leaving (tree : Trie ν α) : List (List ν × Trie ν α) :=
  (tree.reached enter).reverse.flatMap (closing leaves)

/-- One more name on the way to a parent and its children. -/
theorem closing_under (name : ν) (one : List ν × Trie ν α) :
    closing leaves (under name one) = (closing leaves one).map (under name) := by
  unfold closing
  rw [List.map_append, List.map_map]
  rfl

/-- What is entered is left first, the last child before the others; then the other children, and
the root last. -/
theorem leaving_eq (tree : Trie ν α) : tree.leaving enter leaves =
    ((tree.entered enter).reverse.flatMap fun child =>
        (child.2.leaving enter leaves).map (under child.1)) ++
      (leaves tree).map (fun child => ([child.1], child.2)) ++ [([], tree)] := by
  have hchild : ∀ child : ν × Trie ν α,
      (((child.2.reached enter).map (under child.1)).reverse).flatMap (closing leaves) =
        (child.2.leaving enter leaves).map (under child.1) := by
    intro child
    unfold leaving
    rw [← List.map_reverse, List.flatMap_map, List.map_flatMap]
    simp only [closing_under]
  unfold leaving
  rw [reached_entered, List.reverse_cons, List.flatMap_append, List.reverse_flatMap,
    List.flatMap_assoc]
  simp only [Function.comp_apply, hchild, List.append_assoc]
  rw [List.flatMap_cons, List.flatMap_nil, List.append_nil]
  rfl

/-- Which children are not entered, and that there is nothing in them. -/
structure Sealed (tree : Trie ν α) : Prop where
  distinct : (tree.children.map Prod.fst).Nodup
  leaves : (leaves tree).Perm (tree.children.filter fun child => !enter child.2.label)
  empty : ∀ child ∈ tree.children, enter child.2.label = false → child.2.children = []

variable {enter leaves}

/-- Leaving a tree takes every node once. -/
theorem leaving_perm {tree : Trie ν α} (h : tree.All (Sealed enter leaves)) :
    (tree.leaving enter leaves).Perm tree.all := by
  induction tree using induction with
  | step tree ih =>
    have hentered : ((tree.entered enter).reverse.flatMap fun child =>
        (child.2.leaving enter leaves).map (under child.1)).Perm
        ((tree.entered enter).flatMap fun child => child.2.all.map (under child.1)) := by
      refine ((tree.entered enter).reverse_perm.flatMap_right _).trans ?_
      refine List.Perm.flatMap_left _ fun child hmem => ?_
      have hchild := List.mem_of_mem_filter hmem
      exact (ih child hchild (h.of_child hchild)).map _
    have hleaves : ((leaves tree).map fun child => ([child.1], child.2)).Perm
        ((tree.children.filter fun child => !enter child.2.label).flatMap fun child =>
          child.2.all.map (under child.1)) := by
      refine (h.here.leaves.map _).trans (.of_eq ?_)
      rw [List.map_eq_flatMap]
      refine List.flatMap_congr fun child hmem => ?_
      obtain ⟨hchild, hclosed⟩ := List.mem_filter.mp hmem
      rw [all_eq, h.here.empty child hchild (by simpa using hclosed)]
      rfl
    rw [leaving_eq, all_eq]
    refine (List.perm_append_comm).trans ?_
    refine List.Perm.cons _ ?_
    refine (hentered.append hleaves).trans ?_
    rw [← List.flatMap_append]
    exact (List.filter_append_perm _ _).flatMap_right _

/-- Children have different names. -/
theorem Sealed.pairwise {tree : Trie ν α} (h : Sealed enter leaves tree) :
    tree.children.Pairwise fun child other => child.1 ≠ other.1 :=
  List.pairwise_map.mp h.distinct

/-- A child that was not entered is one, and was not entered. -/
theorem Sealed.mem_leaves {tree : Trie ν α} (h : Sealed enter leaves tree) {child : ν × Trie ν α} :
    child ∈ leaves tree ↔ child ∈ tree.children ∧ enter child.2.label = false := by
  rw [h.leaves.mem_iff, List.mem_filter, Bool.not_eq_true']

/-- A child that was entered has another name than one that was not. -/
theorem Sealed.name_ne {tree : Trie ν α} (h : Sealed enter leaves tree) {child other : ν × Trie ν α}
    (hchild : child ∈ tree.entered enter) (hother : other ∈ leaves tree) : child.1 ≠ other.1 := by
  intro hname
  obtain ⟨hchild, hentered⟩ := List.mem_filter.mp hchild
  obtain ⟨hother, hclosed⟩ := h.mem_leaves.mp hother
  obtain rfl := List.inj_on_of_nodup_map h.distinct hchild hother hname
  rw [hentered] at hclosed
  cases hclosed

/-- Leaving a tree takes no node before one below it. -/
theorem leaving_pairwise {tree : Trie ν α} (h : tree.All (Sealed enter leaves)) :
    (tree.leaving enter leaves).Pairwise fun one other => ¬ one.1 <+: other.1 := by
  induction tree using induction with
  | step tree ih =>
    have hhere := h.here
    have hentered : (tree.entered enter).reverse.Pairwise fun child other => child.1 ≠ other.1 :=
      List.pairwise_reverse.mpr ((hhere.pairwise.filter _).imp Ne.symm)
    have hleaves : (leaves tree).Pairwise fun child other => child.1 ≠ other.1 :=
      (hhere.leaves.pairwise_iff fun hne => Ne.symm hne).mpr (hhere.pairwise.filter _)
    rw [leaving_eq, List.pairwise_append, List.pairwise_append, List.pairwise_flatMap]
    refine ⟨⟨⟨fun child hmem => ?_, hentered.imp fun hne => ?_⟩, ?_, ?_⟩,
      List.pairwise_singleton _ _, ?_⟩
    · have hchild := List.mem_of_mem_filter (List.mem_reverse.mp hmem)
      refine List.pairwise_map.mpr ((ih child hchild (h.of_child hchild)).imp fun hnot => ?_)
      exact fun hprefix => hnot (List.cons_prefix_cons.mp hprefix).2
    · intro one hone other hother hprefix
      obtain ⟨inner, -, rfl⟩ := List.mem_map.mp hone
      obtain ⟨inner', -, rfl⟩ := List.mem_map.mp hother
      exact hne (List.cons_prefix_cons.mp hprefix).1
    · refine List.pairwise_map.mpr (hleaves.imp fun hne hprefix => ?_)
      exact hne (List.cons_prefix_cons.mp hprefix).1
    · intro one hone other hother hprefix
      obtain ⟨child, hchild, hone⟩ := List.mem_flatMap.mp hone
      obtain ⟨inner, -, rfl⟩ := List.mem_map.mp hone
      obtain ⟨leaf, hleaf, rfl⟩ := List.mem_map.mp hother
      exact hhere.name_ne (List.mem_reverse.mp hchild) hleaf (List.cons_prefix_cons.mp hprefix).1
    · intro one hone other hother hprefix
      obtain rfl := List.mem_singleton.mp hother
      have hnil : one.1 = [] := List.prefix_nil.mp hprefix
      rcases List.mem_append.mp hone with hone | hone
      · obtain ⟨child, -, hone⟩ := List.mem_flatMap.mp hone
        obtain ⟨inner, -, rfl⟩ := List.mem_map.mp hone
        cases hnil
      · obtain ⟨leaf, -, rfl⟩ := List.mem_map.mp hone
        cases hnil

/-- What lies behind the names of a node is below it. -/
theorem mem_all_of_append {tree : Trie ν α} (h : tree.All (Sealed enter leaves))
    {one : List ν × Trie ν α} (hone : one ∈ tree.all) {behind : List ν} {other : Trie ν α}
    (hother : (one.1 ++ behind, other) ∈ tree.all) : (behind, other) ∈ one.2.all := by
  induction tree using induction generalizing one with
  | step tree ih =>
    rw [all_eq, List.mem_cons] at hone hother
    rcases hone with rfl | hone
    · rw [all_eq, List.mem_cons]
      exact hother
    · obtain ⟨child, hchild, hone⟩ := List.mem_flatMap.mp hone
      obtain ⟨inner, hinner, rfl⟩ := List.mem_map.mp hone
      rcases hother with hnil | hother
      · cases (Prod.mk.inj hnil).1
      · obtain ⟨child', hchild', hother⟩ := List.mem_flatMap.mp hother
        obtain ⟨inner', hinner', heq⟩ := List.mem_map.mp hother
        obtain ⟨hnames, rfl⟩ := Prod.mk.inj heq
        obtain ⟨hname, hrest⟩ := List.cons_eq_cons.mp hnames
        obtain rfl := List.inj_on_of_nodup_map h.here.distinct hchild' hchild hname
        have hnode : (inner.1 ++ behind, inner'.2) ∈ child'.2.all := by
          rw [← show inner'.1 = inner.1 ++ behind from hrest]
          exact hinner'
        have hbelow := ih child' hchild (h.of_child hchild) hinner hnode
        exact hbelow

/-- No two nodes have the same names. -/
theorem nodup_all {tree : Trie ν α} (h : tree.All (Sealed enter leaves)) :
    (tree.all.map Prod.fst).Nodup := by
  rw [← ((leaving_perm h).map Prod.fst).nodup_iff]
  refine List.pairwise_map.mpr ((leaving_pairwise h).imp fun hnot heq => ?_)
  exact hnot (heq ▸ List.prefix_rfl)

/-- A node is taken only after every node below it. -/
theorem mem_of_leaving_eq {tree : Trie ν α} (h : tree.All (Sealed enter leaves))
    {front back : List (List ν × Trie ν α)} {one below : List ν × Trie ν α}
    (hsplit : tree.leaving enter leaves = front ++ one :: back) (hbelow : below ∈ tree.all)
    (hunder : one.1 <+: below.1) (hne : one.1 ≠ below.1) : below ∈ front := by
  have hmem := (leaving_perm h).mem_iff.mpr hbelow
  have hpairwise := leaving_pairwise h
  rw [hsplit] at hmem hpairwise
  rcases List.mem_append.mp hmem with hfront | hrest
  · exact hfront
  · rcases List.mem_cons.mp hrest with rfl | hback
    · exact absurd rfl hne
    · have hafter := (List.pairwise_cons.mp (List.pairwise_append.mp hpairwise).2.1).1 below hback
      exact absurd hunder hafter

end Leaving

end Trie

end Library
