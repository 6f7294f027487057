import GantrySftp.Session.DoomedTree

/-!
# Removing a tree from below

Once a tree was walked its entries are removed in the order opposite to the walk, the files and
whatever else a directory held before the directory. Each removal can be carried out when its turn
comes, and after the last one nothing of the tree is there.
-/

namespace GantrySftp

open Library Program Trie

/-- The request that removes a node. -/
def removal (root : Bytes) (one : List Bytes × Doomed) : TreeRequest :=
  if one.2.label.directory then .rmdir (pathOf root one) else .remove (pathOf root one)

/-- A removal is about the path of what it removes. -/
@[simp] theorem removal_path (root : Bytes) (one : List Bytes × Doomed) :
    (removal root one).path = pathOf root one := by
  unfold removal
  split_ifs <;> rfl

/-- What is removed for one directory that was walked. -/
def WalkEntry.removals (visited : WalkEntry) : List TreeRequest :=
  visited.files.map (fun child => .remove (joinRemote visited.path child.filename)) ++
    visited.skipped.map (fun skipped => .remove skipped.path) ++ [.rmdir visited.path]

/-- The nodes of a tree in the order they are removed in. -/
def Doomed.order (node : Doomed) : List (List Bytes × Doomed) :=
  node.leaving EntryFacts.directory leaves

section Order

variable {root : Bytes} {node : Doomed}

/-- What is removed for one directory of the tree are its leaves and itself. -/
theorem removals_visitedAt (hproper : node.All Doomed.Proper) {one : List Bytes × Doomed}
    (hone : one ∈ node.all) (hdirectory : one.2.label.directory = true) :
    (visitedAt root one).removals = (closing Doomed.leaves one).map (removal root) := by
  obtain ⟨hpath, -, -, hfiles, hskipped⟩ := Doomed.visited_fields (pathOf root one) one.1 one.2
  have hclosed := ((Doomed.sealed hproper).of_mem_all hone).here
  have hleaf : ∀ child ∈ Doomed.leaves one.2,
      removal root (one.1 ++ [child.1], child.2) = .remove (joinRemote (pathOf root one) child.1) := by
    intro child hmem
    unfold removal
    rw [if_neg (by simp [(hclosed.mem_leaves.mp hmem).2])]
    exact congrArg TreeRequest.remove (joinAll_concat root child.1 one.1)
  have hself : removal root one = .rmdir (pathOf root one) := if_pos hdirectory
  have hleaves : (Doomed.leaves one.2).map (fun child => removal root (one.1 ++ [child.1], child.2)) =
      (Doomed.leaves one.2).map fun child => .remove (joinRemote (pathOf root one) child.1) :=
    List.map_congr_left hleaf
  have hothers : (visitedAt root one).skipped.map (fun skipped => TreeRequest.remove skipped.path) =
      (Doomed.others one.2).map fun child => .remove (joinRemote (pathOf root one) child.1) := by
    have hmapped := congrArg (List.map TreeRequest.remove) hskipped
    rw [List.map_map, List.map_map] at hmapped
    exact hmapped
  unfold WalkEntry.removals closing
  rw [hothers]
  unfold visitedAt
  rw [hpath, hfiles, List.map_append, List.map_map, List.map_map, List.map_singleton, hself]
  congr 1
  refine Eq.trans ?_ hleaves.symm
  unfold Doomed.leaves
  rw [List.map_append]
  rfl

/-- What is removed for all directories that were walked, the last first, are the nodes of the
tree, each after those below it. -/
theorem removals_walked (hproper : node.All Doomed.Proper) (hroot : node.label.directory = true) :
    ((Doomed.directories node).map (visitedAt root)).reverse.flatMap WalkEntry.removals =
      (Doomed.order node).map (removal root) := by
  unfold Doomed.order leaving
  rw [← List.map_reverse, List.flatMap_map, List.map_flatMap]
  refine List.flatMap_congr fun one hmem => ?_
  obtain ⟨hone, hdirectory⟩ := mem_all_of_reached hroot (List.mem_reverse.mp hmem)
  exact removals_visitedAt hproper hone hdirectory

/-- The names of a node are components. -/
theorem components_of_mem_all (hproper : node.All Doomed.Proper) {one : List Bytes × Doomed}
    (hone : one ∈ node.all) : ∀ name ∈ one.1, IsComponent name := by
  induction node using induction generalizing one with
  | step node ih =>
    rw [all_eq, List.mem_cons] at hone
    rcases hone with rfl | hone
    · exact fun _ hname => absurd hname List.not_mem_nil
    · obtain ⟨child, hchild, hone⟩ := List.mem_flatMap.mp hone
      obtain ⟨inner, hinner, rfl⟩ := List.mem_map.mp hone
      refine List.forall_mem_cons.mpr ⟨hproper.here.component child hchild, ?_⟩
      exact ih child hchild (hproper.of_child hchild) hinner

/-- Nodes of a proper tree have paths of their own. -/
theorem pathOf_injective (hproper : node.All Doomed.Proper) {one other : List Bytes × Doomed}
    (hone : one ∈ node.all) (hother : other ∈ node.all) (h : pathOf root one = pathOf root other) :
    one = other := by
  have hnames := joinAll_injective (components_of_mem_all hproper hone)
    (components_of_mem_all hproper hother) h
  exact List.inj_on_of_nodup_map (nodup_all (Doomed.sealed hproper)) hone hother hnames

/-- The nodes that are removed are those of the tree, each once. -/
theorem order_perm (hproper : node.All Doomed.Proper) : (Doomed.order node).Perm node.all :=
  leaving_perm (Doomed.sealed hproper)

/-- A removal carried out adds its path to what is gone. -/
def Works (root : Bytes) (node : Doomed) : List Bytes → List TreeRequest → Prop
  | _, [] => True
  | gone, request :: requests =>
    Applies root node gone request ∧ Works root node (request.path :: gone) requests

/-- In the order they are removed in, nodes can be removed. -/
theorem works_order (hproper : node.All Doomed.Proper)
    {done rest : List (List Bytes × Doomed)} (hsplit : Doomed.order node = done ++ rest) :
    Works root node (done.map (pathOf root)).reverse (rest.map (removal root)) := by
  induction rest generalizing done with
  | nil => trivial
  | cons one rest ih =>
    have hmem : one ∈ node.all :=
      (order_perm hproper).mem_iff.mp (hsplit ▸ List.mem_append_right _ List.mem_cons_self)
    have hdone : ∀ other ∈ done, other ∈ node.all := fun other hother =>
      (order_perm hproper).mem_iff.mp (hsplit ▸ List.mem_append_left _ hother)
    have hfresh : pathOf root one ∉ (done.map (pathOf root)).reverse := by
      intro hgone
      obtain ⟨other, hother, hpath⟩ := List.mem_map.mp (List.mem_reverse.mp hgone)
      obtain rfl := pathOf_injective hproper (hdone other hother) hmem hpath
      have hpairwise := leaving_pairwise (Doomed.sealed hproper)
      unfold Doomed.order at hsplit
      rw [hsplit] at hpairwise
      exact (List.pairwise_append.mp hpairwise).2.2 other hother other List.mem_cons_self
        List.prefix_rfl
    have hnext : Doomed.order node = done ++ [one] ++ rest := by
      rw [hsplit, List.append_assoc]
      rfl
    have hrest := ih hnext
    rw [List.map_append, List.reverse_append, List.map_singleton] at hrest
    refine ⟨?_, by rw [removal_path]; exact hrest⟩
    unfold removal
    split_ifs with hdirectory
    · refine ⟨hfresh, one, hmem, hdirectory, rfl, fun child hchild => ?_⟩
      have hbelow : (one.1 ++ [child.1], child.2) ∈ done := by
        refine mem_of_leaving_eq (Doomed.sealed hproper) hsplit
          (mem_all_trans hmem (mem_all_of_child hchild (root_mem_all child.2)))
          (List.prefix_append _ _) ?_
        simp
      exact List.mem_reverse.mpr (List.mem_map_of_mem hbelow)
    · exact ⟨hfresh, one, hmem, by simpa using hdirectory, rfl⟩

end Order

/-! ## Carrying removals out -/

section Removing

variable {σ : Type} {server : TreeServer} {root : Bytes} {node : Doomed}
  {before : List TreeRequest}

/-- Carry out a removal. -/
def carryOut (server : TreeServer) : TreeRequest → Traversal σ Unit
  | .remove path => removeFile server path
  | .rmdir path => removeDirectory server path
  | _ => pure ()

/-- Loops one behind the other for each item are one loop. -/
theorem forM_flatMap {α β : Type} (items : List α) (each : α → List β) (act : β → Traversal σ Unit) :
    (items.flatMap each).forM act = items.forM fun item => (each item).forM act := by
  induction items with
  | nil => rfl
  | cons item items ih =>
    change ((each item ++ items.flatMap each).forM act) =
      ((each item).forM act >>= fun _ => items.forM fun item => (each item).forM act)
    rw [← ih]
    exact List.forM_append

/-- Removing what one directory held, and it, carries out its removals. -/
theorem removeVisited_eq (visited : WalkEntry) :
    (removeVisited server visited : Traversal σ Unit) =
      visited.removals.forM (carryOut server) := by
  have happend : ∀ first second : List TreeRequest, (first ++ second).forM (carryOut server) =
      (first.forM (carryOut server) >>= fun _ => second.forM (carryOut server) : Traversal σ _) :=
    fun _ _ => List.forM_append
  have hfiles : ((visited.files.map fun child =>
      TreeRequest.remove (joinRemote visited.path child.filename)).forM (carryOut server) :
        Traversal σ _) = visited.files.forM fun child =>
          removeFile server (joinRemote visited.path child.filename) := List.forM_map
  have hskipped : ((visited.skipped.map fun skipped =>
      TreeRequest.remove skipped.path).forM (carryOut server) : Traversal σ _) =
        visited.skipped.forM fun skipped => removeFile server skipped.path := List.forM_map
  have hself : (([.rmdir visited.path] : List TreeRequest).forM (carryOut server) :
      Traversal σ _) = removeDirectory server visited.path := by
    change (removeDirectory server visited.path >>= fun _ => pure ()) = _
    exact bind_pure _
  unfold WalkEntry.removals removeVisited
  rw [happend, happend, hfiles, hskipped, hself, bind_assoc]

/-- A request makes what it removes gone, if it can be carried out. -/
theorem goneAfter_concat (sent : List TreeRequest) {request : TreeRequest}
    (h : Applies root node (goneAfter root node sent) request) :
    goneAfter root node (sent ++ [request]) = request.path :: goneAfter root node sent := by
  unfold goneAfter at h ⊢
  rw [List.foldl_append, List.foldl_cons, List.foldl_nil, if_pos h]

/-- A removal that can be carried out is. -/
theorem exec_carryOut (hkeeps : server.Keeps root node before) {visit : Visit σ}
    {sent : List TreeRequest} (hsent : visit.sent = before ++ sent) {request : TreeRequest}
    (h : Applies root node (goneAfter root node sent) request) :
    (carryOut server request).exec visit =
      (.ok (), { visit with sent := visit.sent ++ [request] }) := by
  cases request with
  | remove path =>
    have hanswer := hkeeps.removes sent path h
    rw [← hsent] at hanswer
    simp [carryOut, removeFile, exec_bind, ask, hanswer, orRaise]
  | rmdir path =>
    have hanswer := hkeeps.rmdirs sent path h
    rw [← hsent] at hanswer
    simp [carryOut, removeDirectory, exec_bind, ask, hanswer, orRaise]
  | _ => cases h

/-- Removals that can be carried out in turn are. -/
theorem exec_removals (hkeeps : server.Keeps root node before) {requests : List TreeRequest}
    {visit : Visit σ} {sent : List TreeRequest} (hsent : visit.sent = before ++ sent)
    (h : Works root node (goneAfter root node sent) requests) :
    (requests.forM (carryOut server)).exec visit =
        (.ok (), { visit with sent := visit.sent ++ requests }) ∧
      goneAfter root node (sent ++ requests) =
        (requests.map TreeRequest.path).reverse ++ goneAfter root node sent := by
  induction requests generalizing visit sent with
  | nil => simp [exec_pure]
  | cons request requests ih =>
    obtain ⟨happlies, hrest⟩ := h
    rw [← goneAfter_concat sent happlies] at hrest
    have hnext : visit.sent ++ [request] = before ++ (sent ++ [request]) := by
      rw [hsent, List.append_assoc]
    have hlater : ((requests.forM (carryOut server)).exec
          { visit with sent := visit.sent ++ [request] } =
        (.ok (), { visit with sent := visit.sent ++ [request] ++ requests })) ∧
        goneAfter root node (sent ++ [request] ++ requests) =
          (requests.map TreeRequest.path).reverse ++ goneAfter root node (sent ++ [request]) :=
      ih hnext hrest
    obtain ⟨hexec, hgone⟩ := hlater
    rw [List.append_assoc, List.singleton_append, goneAfter_concat sent happlies] at hgone
    rw [List.append_assoc, List.singleton_append] at hexec
    refine ⟨?_, ?_⟩
    · change (carryOut server request >>= fun _ => requests.forM (carryOut server)).exec visit = _
      rw [exec_bind, exec_carryOut hkeeps hsent happlies]
      exact hexec
    · rw [hgone, List.map_cons, List.reverse_cons, List.append_assoc, List.singleton_append]

/-- Whether a request removes something other than a directory. -/
def TreeRequest.isRemove : TreeRequest → Bool
  | .remove _ => true
  | _ => false

/-- Whether a request removes a directory. -/
def TreeRequest.isRmdir : TreeRequest → Bool
  | .rmdir _ => true
  | _ => false

/-- What removing a tree should come to. Every entry that is no directory is asked to be removed
once, and every directory once, after all that is in it. Nothing else is, only directories are
listed, and nothing below an entry that is no directory is. In the end nothing of the tree is
there, and the counts returned are those of the requests. -/
structure RemovedExactly (root : Bytes) (node : Doomed) (asked : List TreeRequest)
    (result : Except TraversalError Removed) : Prop where
  removes : ∀ path, asked.count (.remove path) =
    if ∃ one ∈ node.all, one.2.label.directory = false ∧ path = pathOf root one then 1 else 0
  rmdirs : ∀ path, asked.count (.rmdir path) =
    if ∃ one ∈ node.all, one.2.label.directory = true ∧ path = pathOf root one then 1 else 0
  inside_first : ∀ one ∈ node.all, ∀ front back, asked = front ++ .rmdir (pathOf root one) :: back →
    ∀ below ∈ node.all, one.1 <+: below.1 → one.1 ≠ below.1 → removal root below ∈ front
  lists : ∀ path, .opendir path ∈ asked →
    ∃ one ∈ node.all, one.2.label.directory = true ∧ path = pathOf root one
  spared : ∀ one ∈ node.all, one.2.label.directory = false → ∀ behind ≠ [],
    (∀ name ∈ behind, IsSegment name) → ∀ request ∈ asked,
      request = .opendir (joinAll root (one.1 ++ behind)) ∨
        request = .remove (joinAll root (one.1 ++ behind)) ∨
        request = .rmdir (joinAll root (one.1 ++ behind)) → False
  gone : ∀ one ∈ node.all, pathOf root one ∈ goneAfter root node asked
  counted : result = .ok (asked.countP TreeRequest.isRemove, asked.countP TreeRequest.isRmdir)

/-- Looking at a tree removes nothing. -/
theorem not_mem_looks {looks : List TreeRequest} (h : ∀ request ∈ looks, Looks root node request)
    (path : Bytes) : .remove path ∉ looks ∧ .rmdir path ∉ looks :=
  ⟨fun hmem => h _ hmem, fun hmem => h _ hmem⟩

/-- Different nodes are removed by different requests. -/
theorem nodup_removals (hproper : node.All Doomed.Proper) :
    ((Doomed.order node).map (removal root)).Nodup := by
  have hperm := order_perm hproper
  refine List.Nodup.map_on (fun one hone other hother heq => ?_)
    (hperm.nodup_iff.mpr (List.Nodup.of_map _ (nodup_all (Doomed.sealed hproper))))
  have hpath : pathOf root one = pathOf root other := by
    rw [← removal_path root one, ← removal_path root other, heq]
  exact pathOf_injective hproper (hperm.mem_iff.mp hone) (hperm.mem_iff.mp hother) hpath

/-- Which requests remove nodes of the tree. -/
theorem mem_removals_iff (hproper : node.All Doomed.Proper) (request : TreeRequest) :
    request ∈ (Doomed.order node).map (removal root) ↔
      ∃ one ∈ node.all, request = removal root one := by
  rw [List.mem_map]
  refine exists_congr fun one => ?_
  rw [(order_perm hproper).mem_iff, eq_comm]

/-- The removals of a tree that were asked for behind looking at it are all there are. -/
theorem count_asked (hproper : node.All Doomed.Proper) {looks : List TreeRequest}
    {request : TreeRequest} (h : request ∉ looks) :
    (looks ++ (Doomed.order node).map (removal root)).count request =
      if ∃ one ∈ node.all, request = removal root one then 1 else 0 := by
  rw [List.count_append, List.count_eq_zero.mpr h, Nat.zero_add, (nodup_removals hproper).count]
  exact if_congr (mem_removals_iff hproper request) rfl rfl

/-- What removes a path other than a directory's. -/
theorem remove_eq_removal_iff {path : Bytes} {one : List Bytes × Doomed} :
    .remove path = removal root one ↔ one.2.label.directory = false ∧ path = pathOf root one := by
  unfold removal
  cases one.2.label.directory <;> simp

/-- What removes a directory's path. -/
theorem rmdir_eq_removal_iff {path : Bytes} {one : List Bytes × Doomed} :
    .rmdir path = removal root one ↔ one.2.label.directory = true ∧ path = pathOf root one := by
  unfold removal
  cases one.2.label.directory <;> simp

/-- Nothing of the tree is below an entry that is no directory. -/
theorem pathOf_ne_below (hproper : node.All Doomed.Proper) {one other : List Bytes × Doomed}
    (hone : one ∈ node.all) (hleaf : one.2.label.directory = false) (hother : other ∈ node.all)
    {behind : List Bytes} (hne : behind ≠ []) (hbehind : ∀ name ∈ behind, IsSegment name) :
    joinAll root (one.1 ++ behind) ≠ pathOf root other := by
  intro heq
  have hnames : one.1 ++ behind = other.1 := by
    have hsplit := congrArg splitComponents heq
    unfold pathOf at hsplit
    rw [splitComponents_joinAll root, splitComponents_joinAll root
      (segments_of_components (components_of_mem_all hproper hother))] at hsplit
    · exact List.append_cancel_left hsplit
    · rw [List.forall_mem_append]
      exact ⟨segments_of_components (components_of_mem_all hproper hone), hbehind⟩
  have hbelow : (behind, other.2) ∈ one.2.all := by
    refine mem_all_of_append (Doomed.sealed hproper) hone ?_
    rw [hnames]
    exact hother
  rw [all_eq, (hproper.of_mem_all hone).here.empty hleaf] at hbelow
  exact hne (Prod.mk.inj (List.mem_singleton.mp hbelow)).1

/-- How many requests remove files and directories, for the directories that were walked. -/
theorem countP_removals (entries : List WalkEntry) :
    (entries.reverse.flatMap WalkEntry.removals).countP TreeRequest.isRemove =
        (entries.map fun visited => visited.files.length + visited.skipped.length).sum ∧
      (entries.reverse.flatMap WalkEntry.removals).countP TreeRequest.isRmdir = entries.length := by
  have hone : ∀ visited : WalkEntry,
      visited.removals.countP TreeRequest.isRemove =
          visited.files.length + visited.skipped.length ∧
        visited.removals.countP TreeRequest.isRmdir = 1 := by
    intro visited
    simp [WalkEntry.removals, List.countP_append, List.countP_map, Function.comp_def,
      TreeRequest.isRemove, TreeRequest.isRmdir]
  induction entries with
  | nil => exact ⟨rfl, rfl⟩
  | cons visited entries ih =>
    rw [List.reverse_cons, List.flatMap_append, List.countP_append, List.countP_append, ih.1, ih.2,
      List.flatMap_singleton, (hone visited).1, (hone visited).2, List.map_cons, List.sum_cons,
      List.length_cons]
    exact ⟨Nat.add_comm _ _, rfl⟩

/-- In the order they are removed in, a directory comes after all that is in it. -/
theorem removal_mem_front (hproper : node.All Doomed.Proper) {one below : List Bytes × Doomed}
    (hone : one ∈ node.all) (hbelow : below ∈ node.all) (hunder : one.1 <+: below.1)
    (hne : one.1 ≠ below.1) {front back : List TreeRequest}
    (hsplit : (Doomed.order node).map (removal root) = front ++ .rmdir (pathOf root one) :: back) :
    removal root below ∈ front := by
  obtain ⟨done, rest, horder, hfront, hrest⟩ := List.map_eq_append_iff.mp hsplit
  obtain ⟨other, rest, rfl, hother, -⟩ := List.map_eq_cons_iff.mp hrest
  have hmem : other ∈ node.all := (order_perm hproper).mem_iff.mp
    (horder ▸ List.mem_append_right _ List.mem_cons_self)
  obtain rfl := pathOf_injective hproper hone hmem (rmdir_eq_removal_iff.mp hother.symm).2
  rw [← hfront]
  exact List.mem_map_of_mem
    (mem_of_leaving_eq (Doomed.sealed hproper) horder hbelow hunder hne)

/-- What was asked for to walk a tree and remove it is what it should come to. -/
theorem removedExactly (hproper : node.All Doomed.Proper) (hroot : node.label.directory = true)
    {looks : List TreeRequest} (hlooks : ∀ request ∈ looks, Looks root node request)
    (hgone : goneAfter root node (looks ++ (Doomed.order node).map (removal root)) =
      (((Doomed.order node).map (removal root)).map TreeRequest.path).reverse) :
    RemovedExactly root node (looks ++ (Doomed.order node).map (removal root))
      (.ok ((((Doomed.directories node).map (visitedAt root)).map fun visited =>
        visited.files.length + visited.skipped.length).sum,
          ((Doomed.directories node).map (visitedAt root)).length)) where
  removes := fun path => by
    rw [count_asked hproper (not_mem_looks hlooks path).1]
    simp only [remove_eq_removal_iff]
  rmdirs := fun path => by
    rw [count_asked hproper (not_mem_looks hlooks path).2]
    simp only [rmdir_eq_removal_iff]
  inside_first := by
    intro one hone front back hsplit below hbelow hunder hne
    rcases List.append_eq_append_iff.mp hsplit with ⟨middle, rfl, hrest⟩ | ⟨middle, hfront, hrest⟩
    · exact List.mem_append_right _ (removal_mem_front hproper hone hbelow hunder hne hrest)
    · cases middle with
      | nil =>
        have hfirst : (Doomed.order node).map (removal root) =
            [] ++ .rmdir (pathOf root one) :: back := hrest.symm
        exact absurd (removal_mem_front hproper hone hbelow hunder hne hfirst) List.not_mem_nil
      | cons request middle =>
        obtain ⟨rfl, -⟩ := List.cons_eq_cons.mp hrest
        exact ((not_mem_looks hlooks (pathOf root one)).2
          (hfront ▸ List.mem_append_right _ List.mem_cons_self)).elim
  lists := by
    intro path hmem
    rcases List.mem_append.mp hmem with hlook | hremoval
    · exact hlooks _ hlook
    · obtain ⟨one, -, heq⟩ := (mem_removals_iff hproper _).mp hremoval
      unfold removal at heq
      split_ifs at heq
  spared := by
    intro one hone hleaf behind hne hbehind request hmem hrequest
    have hpath : request.path = joinAll root (one.1 ++ behind) := by
      rcases hrequest with rfl | rfl | rfl <;> rfl
    rcases List.mem_append.mp hmem with hlook | hremoval
    · have hlooks' := hlooks request hlook
      rcases hrequest with rfl | rfl | rfl
      · obtain ⟨other, hother, -, heq⟩ := hlooks'
        exact pathOf_ne_below hproper hone hleaf hother hne hbehind heq
      · exact hlooks'
      · exact hlooks'
    · obtain ⟨other, hother, rfl⟩ := (mem_removals_iff hproper _).mp hremoval
      rw [removal_path] at hpath
      exact pathOf_ne_below hproper hone hleaf hother hne hbehind hpath.symm
  gone := by
    intro one hone
    rw [hgone, List.mem_reverse, List.map_map]
    refine List.mem_map.mpr ⟨one, (order_perm hproper).mem_iff.mpr hone, ?_⟩
    exact removal_path root one
  counted := by
    have hmutes : looks.countP TreeRequest.isRemove = 0 ∧ looks.countP TreeRequest.isRmdir = 0 := by
      rw [List.countP_eq_zero, List.countP_eq_zero]
      constructor <;>
      · intro request hmem hmutes
        have hlook := hlooks request hmem
        cases request <;> first | exact hlook | cases hmutes
    obtain ⟨hfiles, hdirectories⟩ :=
      countP_removals ((Doomed.directories node).map (visitedAt root))
    rw [removals_walked hproper hroot] at hfiles hdirectories
    rw [List.countP_append, List.countP_append, hmutes.1, hmutes.2, hfiles, hdirectories,
      Nat.zero_add, Nat.zero_add]

end Removing

/-! ## A server that keeps a tree -/

/-- A refusal that says nothing. -/
def refusal : Failure := .serverError .failure [] none

/-- A server that keeps a tree below a path, and refuses whatever else it is asked. -/
def TreeServer.keeping (root : Bytes) (node : Doomed) : TreeServer where
  realpath := fun _ _ => .ok [slash]
  opendir := fun sent path =>
    match node.all.find? fun one => pathOf root one = path with
    | none => .error refusal
    | some one =>
      .ok {
        entries := (one.2.children.filter fun child =>
          joinAll root (one.1 ++ [child.1]) ∉ goneAfter root node sent).map Doomed.entry
        ending := .ok () }
  lstat := fun _ path =>
    match node.all.find? fun one => pathOf root one = path with
    | none => .error refusal
    | some one => one.2.label.described
  remove := fun sent path =>
    if Applies root node (goneAfter root node sent) (.remove path) then .ok ()
    else .error refusal
  rmdir := fun sent path =>
    if Applies root node (goneAfter root node sent) (.rmdir path) then .ok ()
    else .error refusal

/-- A node is found by its path. -/
theorem find_pathOf {root : Bytes} {node : Doomed} (hproper : node.All Doomed.Proper)
    {one : List Bytes × Doomed} (hone : one ∈ node.all) :
    (node.all.find? fun other => pathOf root other = pathOf root one) = some one := by
  cases hfind : node.all.find? fun other => pathOf root other = pathOf root one with
  | none => simpa using List.find?_eq_none.mp hfind one hone
  | some other =>
    have hpath : pathOf root other = pathOf root one := by simpa using List.find?_some hfind
    rw [pathOf_injective hproper (List.mem_of_find?_eq_some hfind) hone hpath]

/-- Such a server keeps its tree. -/
theorem TreeServer.keeping_keeps (root : Bytes) {node : Doomed} (hproper : node.All Doomed.Proper) :
    (TreeServer.keeping root node).Keeps root node [] where
  rooted := fun _ _ => ⟨[slash], rfl, rfl⟩
  lists := by
    intro sent one hone _ _
    refine ⟨_, by simp only [keeping, find_pathOf hproper hone]; rfl, rfl, ?_⟩
    refine List.filter_eq_self.mpr fun entry hmem => decide_eq_true ?_
    obtain ⟨child, hchild, rfl⟩ := List.mem_map.mp hmem
    have hcomponent := (hproper.of_mem_all hone).here.component child (List.mem_of_mem_filter hchild)
    exact (isComponent_iff.mp hcomponent).2.1
  describes := by
    intro sent one hone _
    simp only [keeping, find_pathOf hproper hone]
  removes := fun _ _ h => if_pos h
  rmdirs := fun _ _ h => if_pos h

/-- A file, as its directory lists it. -/
def listedAs (permissions : ℤ) : Doomed :=
  .node ⟨false, { permissions := some permissions }, .error refusal⟩ []

/-- An entry of which the server says nothing. -/
def undescribed : Doomed := .node ⟨false, {}, .error refusal⟩ []

/-- A directory that is one only when asked about. -/
def describedDirectory : Doomed :=
  .node ⟨true, {}, .ok { permissions := some 0o40755 }⟩ [("u".toUTF8.toList, undescribed)]

/-- A directory with a file, a link, and a directory that is one only when asked about. -/
def mixedTree : Doomed :=
  .node ⟨true, {}, .error refusal⟩ [("f".toUTF8.toList, listedAs 0o100644),
    ("l".toUTF8.toList, listedAs 0o120777), ("d".toUTF8.toList, describedDirectory)]

/-- An entry that is no directory may be listed as anything else. -/
theorem faithful_of_listed {permissions : Option ℤ}
    (h : entryKind { permissions := permissions } ≠ .directory) :
    (⟨false, { permissions := permissions }, .error refusal⟩ : EntryFacts).Faithful where
  listed := fun _ => iff_of_false h nofun
  described := nofun
  revealed := nofun
  refused := by
    rintro _ ⟨⟩
    rfl

/-- The tree is proper. -/
theorem mixedTree_proper : mixedTree.All Doomed.Proper := by
  have hleaf : ∀ facts, (Trie.node facts [] : Doomed).All Doomed.Proper := fun facts =>
    .mk ⟨List.nodup_nil, fun _ h => absurd h List.not_mem_nil,
      fun _ h => absurd h List.not_mem_nil, fun _ => rfl⟩ fun _ h => absurd h List.not_mem_nil
  have hdirectory : describedDirectory.All Doomed.Proper := by
    refine .mk ⟨by decide, ?_, ?_, fun h => Bool.noConfusion h⟩ ?_
    · exact List.forall_mem_singleton.mpr (by decide +kernel)
    · exact List.forall_mem_singleton.mpr (faithful_of_listed (by decide))
    · exact List.forall_mem_singleton.mpr (hleaf _)
  refine .mk ⟨by decide +kernel, ?_, ?_, fun h => Bool.noConfusion h⟩ ?_
  · simp only [mixedTree, children, List.forall_mem_cons]
    exact ⟨by decide +kernel, by decide +kernel, by decide +kernel, fun _ h => absurd h List.not_mem_nil⟩
  · simp only [mixedTree, children, List.forall_mem_cons]
    refine ⟨faithful_of_listed (by decide), faithful_of_listed (by decide), ?_,
      fun _ h => absurd h List.not_mem_nil⟩
    refine ⟨fun h => absurd rfl h, ?_, fun _ => Or.inr ⟨_, rfl, by decide⟩, ?_⟩
    · rintro _ ⟨⟩ -
      exact iff_of_true (by decide) rfl
    · rintro _ ⟨⟩
  · simp only [mixedTree, children, List.forall_mem_cons]
    exact ⟨hleaf _, hleaf _, hdirectory, fun _ h => absurd h List.not_mem_nil⟩

section Whole

variable {σ : Type} {server : TreeServer} {root : Bytes} {node : Doomed}

/-- Removing a tree that is kept faithfully asks for each of its entries once, children first, and
returns the counts. -/
theorem rmtree_removes {visit : Visit σ} (hkeeps : server.Keeps root node visit.sent)
    (hproper : node.All Doomed.Proper) (hroot : node.label.directory = true)
    (hvisit : visit.Rooted) {turns : ℕ} (hturns : (Doomed.directories node).length ≤ turns) :
    ∃ asked, ((rmtree server turns root).exec visit).2.sent = visit.sent ++ asked ∧
      RemovedExactly root node asked ((rmtree server turns root).exec visit).1 := by
  have hlooking : Looking root node visit.sent visit :=
    ⟨hvisit, [], (List.append_nil _).symm, fun _ h => absurd h List.not_mem_nil⟩
  have hwalk := finds_walk hkeeps hproper hroot hturns visit hlooking
  unfold rmtree
  rw [exec_bind]
  generalize (walk server turns none _ [] root : Traversal σ _).exec visit = outcome at hwalk
  obtain ⟨_ | entries, walked⟩ := outcome
  · exact hwalk.elim
  obtain ⟨rfl, -, looks, hsent, hlooks⟩ := hwalk
  have hforM : ((((Doomed.directories node).map (visitedAt root)).reverse.forM
      (removeVisited server) : Traversal σ Unit)) =
      ((Doomed.order node).map (removal root)).forM (carryOut server) := by
    rw [← removals_walked hproper hroot, forM_flatMap]
    congr 1
    funext visited
    exact removeVisited_eq visited
  have hworks : Works root node [] ((Doomed.order node).map (removal root)) :=
    works_order hproper (List.nil_append _).symm
  have hnone := goneAfter_looks root node hlooks
  rw [← hnone] at hworks
  obtain ⟨hexec, hgone⟩ := exec_removals hkeeps hsent hworks
  rw [hnone, List.append_nil] at hgone
  dsimp only
  rw [hforM, exec_bind, hexec]
  refine ⟨looks ++ (Doomed.order node).map (removal root), ?_,
    removedExactly hproper hroot hlooks hgone⟩
  change walked.sent ++ _ = _
  rw [hsent, List.append_assoc]

end Whole

/-- Such a tree is removed. -/
theorem rmtree_mixedTree :
    let removed := (rmtree (.keeping "/t".toUTF8.toList mixedTree) 2 "/t".toUTF8.toList :
      Traversal Unit _).exec (.fresh none ())
    ∃ asked, removed.2.sent = [] ++ asked ∧
      RemovedExactly "/t".toUTF8.toList mixedTree asked removed.1 :=
  rmtree_removes (TreeServer.keeping_keeps _ mixedTree_proper) mixedTree_proper rfl
    (by rintro _ ⟨⟩) (by decide +kernel)

end GantrySftp
