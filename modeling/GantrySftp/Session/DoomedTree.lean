import GantrySftp.Library.TreeOrder
import GantrySftp.Session.RemoteTree

/-!
# Trees that are to be removed

The server keeps a finite tree. Of an entry it says the kind in the listing, or when asked, or not
at all where the entry is no directory, and it removes what it is asked to once nothing is in it.
A walk over the tree reports its directories in preorder, and only looks.
-/

namespace GantrySftp

open Library Program Trie

/-! ## Trees whose entries may not say what they are -/

/-- An entry: whether it is a directory, the attributes it is listed with, and what is answered
when it is asked about. -/
structure EntryFacts where
  directory : Bool
  listed : Attrs
  described : Except Failure Attrs

namespace EntryFacts

/-- What an entry is said to be is what it is, a directory is said to be one, and only the server
refuses to say. -/
structure Faithful (entry : EntryFacts) : Prop where
  listed : entryKind entry.listed ≠ .unknown →
    (entryKind entry.listed = .directory ↔ entry.directory = true)
  described : ∀ attrs, entry.described = .ok attrs → entryKind attrs ≠ .unknown →
    (entryKind attrs = .directory ↔ entry.directory = true)
  revealed : entry.directory = true → entryKind entry.listed = .directory ∨
    ∃ attrs, entry.described = .ok attrs ∧ entryKind attrs = .directory
  refused : ∀ failure, entry.described = .error failure → failure.isServerError = true

/-- What a walk makes of an entry. -/
def settled (entry : EntryFacts) : Except SkipReason EntryKind :=
  if entryKind entry.listed = .unknown then
    match entry.described with
    | .ok attrs => .ok (entryKind attrs)
    | .error failure => .error (if failure.isNoSuchFile then .vanished else .kindRefused)
  else .ok (entryKind entry.listed)

/-- A walk takes exactly the directories for directories. -/
theorem Faithful.settled_iff {entry : EntryFacts} (h : entry.Faithful) :
    entry.settled = .ok .directory ↔ entry.directory = true := by
  unfold settled
  by_cases hlisted : entryKind entry.listed = .unknown
  · have hrevealed := h.revealed
    rw [hlisted] at hrevealed
    rw [if_pos hlisted]
    cases hdescribed : entry.described with
    | error failure =>
      simp only [hdescribed] at hrevealed
      simpa using hrevealed
    | ok attrs =>
      simp only [hdescribed] at hrevealed
      rw [Except.ok.injEq]
      by_cases hattrs : entryKind attrs = .unknown
      · simpa [hattrs] using hrevealed
      · exact h.described attrs hdescribed hattrs
  · rw [if_neg hlisted, Except.ok.injEq]
    exact h.listed hlisted

end EntryFacts

/-- A remote tree, with what the server says of its entries. -/
abbrev Doomed := Trie Bytes EntryFacts

namespace Doomed

/-- What is so of every node of a tree: names are distinct components, what is said of the entries
is so, and only directories hold anything. -/
structure Proper (node : Doomed) : Prop where
  distinct : (node.children.map Prod.fst).Nodup
  component : ∀ child ∈ node.children, IsComponent child.1
  faithful : ∀ child ∈ node.children, child.2.label.Faithful
  empty : node.label.directory = false → node.children = []

/-- A child, as its directory lists it. -/
def entry (child : Bytes × Doomed) : DirEntry :=
  { filename := child.1, attrs := child.2.label.listed }

/-- The children that a walk takes for files. -/
def files (node : Doomed) : List (Bytes × Doomed) :=
  node.children.filter fun child => child.2.label.settled = .ok .file

/-- The children that a walk takes neither for files nor for directories. -/
def others (node : Doomed) : List (Bytes × Doomed) :=
  node.children.filter fun child =>
    child.2.label.settled ≠ .ok .file ∧ child.2.label.settled ≠ .ok .directory

/-- The children that are removed with their directory, in this order. -/
def leaves (node : Doomed) : List (Bytes × Doomed) := files node ++ others node

/-- The leaves of a proper tree are its children that are no directories, and nothing is in
them. -/
theorem sealed {node : Doomed} (h : node.All Proper) :
    node.All (Sealed EntryFacts.directory leaves) := by
  induction node using induction with
  | step node ih =>
    refine .mk ⟨h.here.distinct, ?_, ?_⟩ fun child hmem => ih child hmem (h.of_child hmem)
    · have hsplit := List.filter_append_perm (fun child : Bytes × Doomed =>
        decide (child.2.label.settled = .ok .file))
        (node.children.filter fun child => !child.2.label.directory)
      refine List.Perm.trans (.of_eq ?_) hsplit
      unfold leaves files others
      rw [List.filter_filter, List.filter_filter]
      congr 1
      all_goals
        refine List.filter_congr fun child hmem => ?_
        have hiff := (h.here.faithful child hmem).settled_iff
        cases hdirectory : child.2.label.directory <;> simp_all
    · exact fun child hmem hclosed => (h.of_child hmem).here.empty hclosed

end Doomed

/-! ## A server that keeps a tree less what was removed -/

section Keeping

variable (root : Bytes) (node : Doomed)

/-- The path of a node. -/
def pathOf (one : List Bytes × Doomed) : Bytes := joinAll root one.1

/-- A removal that can be carried out after some paths are gone: of an entry that is there, and is
no directory, or an empty one. -/
def Applies (gone : List Bytes) : TreeRequest → Prop
  | .remove path => path ∉ gone ∧
    ∃ one ∈ node.all, one.2.label.directory = false ∧ path = pathOf root one
  | .rmdir path => path ∉ gone ∧
    ∃ one ∈ node.all, one.2.label.directory = true ∧ path = pathOf root one ∧
      ∀ child ∈ one.2.children, joinAll root (one.1 ++ [child.1]) ∈ gone
  | _ => False

instance (gone : List Bytes) : DecidablePred (Applies root node gone) := fun request => by
  cases request <;> unfold Applies <;> infer_instance

/-- The paths that are gone after some requests. -/
def goneAfter (sent : List TreeRequest) : List Bytes :=
  sent.foldl (fun gone request =>
    if Applies root node gone request then request.path :: gone else gone) []

/-- After `before` the server keeps a tree, less what was removed since. Below a relative root its
default directory is rooted. -/
structure TreeServer.Keeps (server : TreeServer) (before : List TreeRequest) : Prop where
  rooted : root.head? ≠ some slash → ∀ sent, ∃ base,
    server.realpath (before ++ sent) here = .ok base ∧ base.head? = some slash
  lists : ∀ sent, ∀ one ∈ node.all, one.2.label.directory = true →
    pathOf root one ∉ goneAfter root node sent →
      ∃ listing, server.opendir (before ++ sent) (pathOf root one) = .ok listing ∧
        listing.ending = .ok () ∧
        listing.entries.filter (fun entry => entry.filename ∉ dotNames) =
          (one.2.children.filter fun child =>
            joinAll root (one.1 ++ [child.1]) ∉ goneAfter root node sent).map Doomed.entry
  describes : ∀ sent, ∀ one ∈ node.all, pathOf root one ∉ goneAfter root node sent →
    server.lstat (before ++ sent) (pathOf root one) = one.2.label.described
  removes : ∀ sent path, Applies root node (goneAfter root node sent) (.remove path) →
    server.remove (before ++ sent) path = .ok ()
  rmdirs : ∀ sent path, Applies root node (goneAfter root node sent) (.rmdir path) →
    server.rmdir (before ++ sent) path = .ok ()

/-- A request that only looks at the tree: of entries, only directories are opened. -/
def Looks : TreeRequest → Prop
  | .realpath _ => True
  | .opendir path => ∃ one ∈ node.all, one.2.label.directory = true ∧ path = pathOf root one
  | .lstat path => ∃ one ∈ node.all, path = pathOf root one
  | _ => False

/-- Looking at a tree leaves all of it there. -/
theorem goneAfter_looks {sent : List TreeRequest} (h : ∀ request ∈ sent, Looks root node request) :
    goneAfter root node sent = [] := by
  unfold goneAfter
  induction sent with
  | nil => rfl
  | cons request sent ih =>
    rw [List.forall_mem_cons] at h
    have hnot : ¬ Applies root node [] request := by
      cases request with
      | remove path => exact fun _ => h.1
      | rmdir path => exact fun _ => h.1
      | _ => exact id
    rw [List.foldl_cons, if_neg hnot]
    exact ih h.2

/-- The traversal has only looked at the tree since `before`. -/
def Looking {σ : Type} (before : List TreeRequest) (visit : Visit σ) : Prop :=
  visit.Rooted ∧ ∃ looks, visit.sent = before ++ looks ∧ ∀ request ∈ looks, Looks root node request

end Keeping

/-! ## Walking the tree -/

section Walking

variable {σ : Type} {server : TreeServer} {root : Bytes} {node : Doomed}
  {before : List TreeRequest}

/-- Started while only looking, a traversal returns a value and has only looked. -/
abbrev Finds {α : Type} (root : Bytes) (node : Doomed) (before : List TreeRequest)
    (program : Traversal σ α) (value : α) : Prop :=
  Meets (Looking root node before) program
    (fun result visit => result = value ∧ Looking root node before visit) fun _ _ => False

/-- A request that looks at the tree is one more. -/
theorem Looking.asked {visit : Visit σ} (h : Looking root node before visit)
    {request : TreeRequest} (hlooks : Looks root node request) :
    Looking root node before { visit with sent := visit.sent ++ [request] } := by
  obtain ⟨hrooted, looks, hsent, hall⟩ := h
  refine ⟨hrooted, looks ++ [request], ?_, ?_⟩
  · change visit.sent ++ [request] = _
    rw [hsent, List.append_assoc]
  · rw [List.forall_mem_append, List.forall_mem_singleton]
    exact ⟨hall, hlooks⟩

/-- A request that looks at the tree, and what is done with its answer. -/
theorem finds_ask {α β : Type} {request : TreeRequest}
    {answer : List TreeRequest → Except Failure β} {next : Except Failure β → Traversal σ α}
    {value : α} (hlooks : Looks root node request)
    (h : ∀ looks, (∀ request ∈ looks, Looks root node request) →
      Finds root node before (next (answer (before ++ looks))) value) :
    Finds root node before (ask request answer >>= next) value := by
  intro visit hvisit
  obtain ⟨looks, hsent, hall⟩ := hvisit.2
  rw [exec_bind]
  change Ends _ _ ((next (answer visit.sent)).exec _)
  rw [hsent]
  refine h looks hall _ ?_
  rw [← hsent]
  exact hvisit.asked hlooks

/-- What a program finds can be used behind it. -/
theorem Finds.bind {α β : Type} {first : Traversal σ β} {next : β → Traversal σ α} {middle : β}
    {value : α} (hfirst : Finds root node before first middle)
    (hnext : Finds root node before (next middle) value) :
    Finds root node before (first >>= next) value := by
  refine Meets.bind hfirst fun found => ?_
  rintro visit ⟨rfl, hvisit⟩
  exact hnext visit hvisit

/-- Returning at once. -/
theorem finds_pure {α : Type} (value : α) :
    Finds root node before (pure value : Traversal σ α) value := fun _ h => ⟨rfl, h⟩

/-- What an entry is, is settled as the server says. -/
theorem finds_settleForWalk (hkeeps : server.Keeps root node before) {one : List Bytes × Doomed}
    (hone : one ∈ node.all) {entry : DirEntry} (hentry : entry.attrs = one.2.label.listed)
    (hfaithful : one.2.label.Faithful) :
    Finds root node before (settleForWalk server (pathOf root one) entry : Traversal σ _)
      one.2.label.settled := by
  have hkind : entry.kind = entryKind one.2.label.listed := by rw [DirEntry.kind, hentry]
  by_cases hlisted : entryKind one.2.label.listed = .unknown
  · intro visit hvisit
    obtain ⟨looks, hsent, hall⟩ := hvisit.2
    have hanswer : server.lstat visit.sent (pathOf root one) = one.2.label.described := by
      rw [hsent]
      refine hkeeps.describes looks one hone ?_
      rw [goneAfter_looks root node hall]
      exact List.not_mem_nil
    have hlooking := hvisit.asked (show Looks root node (.lstat (pathOf root one)) from ⟨one, hone, rfl⟩)
    unfold settleForWalk settleKind attrsOrAbsent EntryFacts.settled
    rw [exec_tryCatch]
    cases hdescribed : one.2.label.described with
    | ok attrs =>
      simpa [exec_bind, hkind, hlisted, ask, hanswer, hdescribed, Ends] using hlooking
    | error failure =>
      have hserver := hfaithful.refused failure hdescribed
      by_cases hmissing : failure.isNoSuchFile = true
      · simpa [exec_bind, hkind, hlisted, ask, hanswer, hdescribed, hmissing, Ends] using hlooking
      · simpa [exec_bind, hkind, hlisted, ask, hanswer, hdescribed, hmissing, hserver, raise, Ends]
          using hlooking
  · have hsettled : one.2.label.settled = .ok entry.kind := by
      unfold EntryFacts.settled
      rw [if_neg hlisted, hkind]
    intro visit hvisit
    unfold settleForWalk settleKind
    rw [hsettled, exec_tryCatch, if_neg (by rwa [hkind])]
    exact ⟨rfl, hvisit⟩

/-- Where a settled child is sorted to. -/
theorem WalkEntry.sort_settled (visited : WalkEntry) (child : DirEntry)
    (settled : Except SkipReason EntryKind) :
    (visited.sort false child settled).path = visited.path ∧
      (visited.sort false child settled).relative = visited.relative ∧
      (visited.sort false child settled).directories =
        visited.directories ++ (if settled = .ok .directory then [child] else []) ∧
      (visited.sort false child settled).files =
        visited.files ++ (if settled = .ok .file then [child] else []) ∧
      (visited.sort false child settled).skipped.map Skipped.path =
        visited.skipped.map Skipped.path ++
          if settled ≠ .ok .file ∧ settled ≠ .ok .directory then
            [joinRemote visited.path child.filename]
          else [] := by
  cases settled with
  | error reason => simp [WalkEntry.sort, WalkEntry.skip]
  | ok kind => cases kind <;> simp [WalkEntry.sort, WalkEntry.skip]

/-- What a walk reports of a directory. -/
def Doomed.visited (path : Bytes) (relative : List Bytes) (node : Doomed) : WalkEntry :=
  node.children.foldl (fun visited child =>
    visited.sort false (entry child) child.2.label.settled) (.unread path relative)

/-- What a walk reports of a directory: its path and names, the children it takes for directories
and for files, and the paths of the others. -/
theorem Doomed.visited_fields (path : Bytes) (relative : List Bytes) (node : Doomed) :
    (visited path relative node).path = path ∧
      (visited path relative node).relative = relative ∧
      (visited path relative node).directories =
        (node.children.filter fun child => child.2.label.settled = .ok .directory).map entry ∧
      (visited path relative node).files = (files node).map entry ∧
      (visited path relative node).skipped.map Skipped.path =
        (others node).map fun child => joinRemote path child.1 := by
  have hfold : ∀ (children : List (Bytes × Doomed)) (start : WalkEntry),
      let sorted := children.foldl (fun visited child =>
        visited.sort false (entry child) child.2.label.settled) start
      sorted.path = start.path ∧ sorted.relative = start.relative ∧
        sorted.directories = start.directories ++
          (children.filter fun child => child.2.label.settled = .ok .directory).map entry ∧
        sorted.files = start.files ++
          (children.filter fun child => child.2.label.settled = .ok .file).map entry ∧
        sorted.skipped.map Skipped.path = start.skipped.map Skipped.path ++
          (children.filter fun child => child.2.label.settled ≠ .ok .file ∧
            child.2.label.settled ≠ .ok .directory).map fun child =>
              joinRemote start.path child.1 := by
    intro children
    induction children with
    | nil => simp
    | cons child children ih =>
      intro start
      obtain ⟨hpath, hrelative, hdirectories, hfiles, hskipped⟩ :=
        start.sort_settled (entry child) child.2.label.settled
      obtain ⟨hpath', hrelative', hdirectories', hfiles', hskipped'⟩ :=
        ih (start.sort false (entry child) child.2.label.settled)
      refine ⟨hpath'.trans hpath, hrelative'.trans hrelative, ?_, ?_, ?_⟩
      · rw [List.foldl_cons, hdirectories', hdirectories, List.filter_cons]
        split_ifs <;> simp_all
      · rw [List.foldl_cons, hfiles', hfiles, List.filter_cons]
        split_ifs <;> simp_all
      · rw [List.foldl_cons, hskipped', hskipped, hpath, List.filter_cons]
        simp only [decide_eq_true_eq]
        split_ifs <;> simp [entry]
  exact hfold node.children (.unread path relative)

/-- A loop that carries a value of which something stays so. -/
theorem Finds.foldlM {α β : Type} {items : List β} {each : α → β → Traversal σ α}
    {step : α → β → α} (kept : α → Prop)
    (h : ∀ value, kept value → ∀ item ∈ items,
      Finds root node before (each value item) (step value item) ∧ kept (step value item))
    {start : α} (hstart : kept start) :
    Finds root node before (items.foldlM each start) (items.foldl step start) := by
  induction items generalizing start with
  | nil => exact finds_pure start
  | cons item items ih =>
    obtain ⟨hfirst, hkept⟩ := h start hstart item List.mem_cons_self
    rw [List.foldlM_cons, List.foldl_cons]
    exact hfirst.bind
      (ih (fun value hvalue other hmem => h value hvalue other (List.mem_cons_of_mem _ hmem)) hkept)

/-- The root is absolute, or the server's default directory is rooted. -/
theorem finds_requireRooted (hkeeps : server.Keeps root node before) (feature : String) :
    Finds root node before (requireRooted server root feature : Traversal σ _) () := by
  unfold requireRooted
  split_ifs with habsolute
  · exact finds_pure ()
  · intro visit hvisit
    cases hroot : visit.root with
    | some base =>
      have hslash := hvisit.1 base hroot
      simpa [defaultRoot, exec_bind, hroot, hslash, Ends] using hvisit
    | none =>
      obtain ⟨looks, hsent, hall⟩ := hvisit.2
      obtain ⟨base, hanswer, hslash⟩ := hkeeps.rooted habsolute looks
      have hasked := (hvisit.asked (show Looks root node (.realpath here) from trivial)).2
      have hlooking : Looking root node before
          { visit with sent := visit.sent ++ [.realpath here], root := some base } := by
        refine ⟨?_, hasked⟩
        rintro _ ⟨⟩
        exact hslash
      rw [← hsent] at hanswer
      simpa [defaultRoot, exec_bind, hroot, ask, hanswer, orRaise, hslash, Ends] using hlooking

/-- Listing one directory of the tree. -/
theorem finds_walkOne (hkeeps : server.Keeps root node before) (hproper : node.All Doomed.Proper)
    {one : List Bytes × Doomed} (hone : one ∈ node.all)
    (hdirectory : one.2.label.directory = true) :
    Finds root node before (walkOne server (pathOf root one) one.1 none : Traversal σ _)
      (Doomed.visited (pathOf root one) one.1 one.2) := by
  have hhere := (hproper.of_mem_all hone).here
  have hchildren : Finds root node before
      ((one.2.children.map Doomed.entry).foldlM
        (walkChild server (atLimit none one.1)) (.unread (pathOf root one) one.1) : Traversal σ _)
      (Doomed.visited (pathOf root one) one.1 one.2) := by
    rw [List.foldlM_map]
    refine Finds.foldlM (fun visited => visited.path = pathOf root one) ?_ rfl
    intro visited hpath child hmem
    refine ⟨?_, (visited.sort_settled _ _).1.trans hpath⟩
    have hchild : (one.1 ++ [child.1], child.2) ∈ node.all :=
      mem_all_trans hone (mem_all_of_child hmem (root_mem_all child.2))
    have hsettles : Finds root node before
        (settleForWalk server (pathOf root (one.1 ++ [child.1], child.2)) (Doomed.entry child) :
          Traversal σ _) child.2.label.settled :=
      finds_settleForWalk hkeeps hchild rfl (hhere.faithful child hmem)
    have hjoined : joinRemote visited.path child.1 = pathOf root (one.1 ++ [child.1], child.2) := by
      rw [hpath]
      exact (joinAll_concat root child.1 one.1).symm
    unfold walkChild
    change Finds root node before (settleForWalk server (joinRemote visited.path child.1) _ >>= _) _
    rw [hjoined]
    exact hsettles.bind (finds_pure _)
  unfold walkOne scandir
  rw [bind_assoc]
  refine finds_ask ⟨one, hone, hdirectory, rfl⟩ fun looks hall => ?_
  have hgone := goneAfter_looks root node hall
  obtain ⟨listing, hanswer, hending, hentries⟩ := hkeeps.lists looks one hone hdirectory
    (by rw [hgone]; exact List.not_mem_nil)
  have hlisted : listing.entries.filter (fun entry => entry.filename ∉ dotNames) =
      one.2.children.map Doomed.entry := by
    rw [hentries, hgone]
    simp
  rw [hanswer]
  dsimp only
  rw [hlisted, hending, bind_assoc]
  exact hchildren.bind ((finds_pure (_, _)).bind ((finds_pure ()).bind (finds_pure _)))

/-- The directories below one that a walk visited. -/
theorem Doomed.visited_below {one : List Bytes × Doomed} (h : one.2.Proper) :
    (Doomed.visited (pathOf root one) one.1 one.2).below =
      (one.2.entered EntryFacts.directory).map fun child =>
        (joinAll root (one.1 ++ [child.1]), one.1 ++ [child.1]) := by
  obtain ⟨hpath, hrelative, hdirectories, -, -⟩ := visited_fields (pathOf root one) one.1 one.2
  have hentered : one.2.entered EntryFacts.directory =
      one.2.children.filter fun child => child.2.label.settled = .ok .directory := by
    refine List.filter_congr fun child hmem => ?_
    rw [Bool.eq_iff_iff, decide_eq_true_iff]
    exact (h.faithful child hmem).settled_iff.symm
  unfold WalkEntry.below
  rw [hpath, hrelative, hdirectories, hentered, List.map_map]
  simp only [joinAll_concat]
  rfl

/-- The directories of a tree, in the order a walk visits them. -/
def Doomed.directories (node : Doomed) : List (List Bytes × Doomed) :=
  node.reached EntryFacts.directory

/-- What a walk reports of a directory of the tree. -/
def visitedAt (root : Bytes) (one : List Bytes × Doomed) : WalkEntry :=
  Doomed.visited (pathOf root one) one.1 one.2

/-- The directories of a tree are its root and those below its children. -/
theorem Doomed.directories_eq (node : Doomed) : directories node =
    ([], node) :: (node.entered EntryFacts.directory).flatMap fun child =>
      (directories child.2).map (under child.1) := reached_entered EntryFacts.directory node

/-- What a walk reports from a pending directory on. -/
def Doomed.reportsBelow (root : Bytes) (one : List Bytes × Doomed) : List WalkEntry :=
  (directories one.2).map fun below => visitedAt root (one.1 ++ below.1, below.2)

/-- A directory is reported first, and then what is below its children. -/
theorem Doomed.reportsBelow_eq (one : List Bytes × Doomed) : reportsBelow root one =
    visitedAt root one :: ((one.2.entered EntryFacts.directory).map fun child =>
      (one.1 ++ [child.1], child.2)).flatMap (reportsBelow root) := by
  unfold reportsBelow
  rw [directories_eq, List.map_cons, List.append_nil, List.map_flatMap, List.flatMap_map]
  congr 1
  refine List.flatMap_congr fun child _ => ?_
  rw [List.map_map]
  refine List.map_congr_left fun below _ => ?_
  change visitedAt root (one.1 ++ child.1 :: below.1, below.2) = _
  rw [List.append_cons]

/-- Visiting pending directories, given a turn for each directory below them. -/
theorem finds_walkPending (hkeeps : server.Keeps root node before)
    (hproper : node.All Doomed.Proper) {turns : ℕ} {pending : List (List Bytes × Doomed)}
    (hpending : ∀ one ∈ pending, one ∈ node.all ∧ one.2.label.directory = true)
    (hturns : (pending.map fun one => (Doomed.directories one.2).length).sum ≤ turns)
    (entries : List WalkEntry) :
    Finds root node before
      (walkPending server none (fun entries visited => pure (entries ++ [visited])) turns entries
        (pending.map fun one => (pathOf root one, one.1)) : Traversal σ _)
      (entries ++ pending.flatMap (Doomed.reportsBelow root)) := by
  induction turns generalizing pending entries with
  | zero =>
    cases pending with
    | nil =>
      rw [List.flatMap_nil, List.append_nil]
      exact finds_pure entries
    | cons one pending =>
      rw [List.map_cons, List.sum_cons, Doomed.directories_eq, List.length_cons] at hturns
      omega
  | succ turns ih =>
    cases pending with
    | nil =>
      rw [List.flatMap_nil, List.append_nil]
      exact finds_pure entries
    | cons one pending =>
      obtain ⟨hone, hdirectory⟩ := hpending one List.mem_cons_self
      have hhere := (hproper.of_mem_all hone).here
      -- the children that are directories come before what was pending
      let children : List (List Bytes × Doomed) :=
        (one.2.entered EntryFacts.directory).map fun child => (one.1 ++ [child.1], child.2)
      have hready : ∀ other ∈ children ++ pending,
          other ∈ node.all ∧ other.2.label.directory = true := by
        intro other hmem
        rcases List.mem_append.mp hmem with hchild | hold
        · obtain ⟨child, hentered, rfl⟩ := List.mem_map.mp hchild
          obtain ⟨hchild, hentered⟩ := List.mem_filter.mp hentered
          exact ⟨mem_all_trans hone (mem_all_of_child hchild (root_mem_all child.2)), hentered⟩
        · exact hpending other (List.mem_cons_of_mem _ hold)
      have hleft : ((children ++ pending).map fun other =>
          (Doomed.directories other.2).length).sum ≤ turns := by
        rw [List.map_cons, List.sum_cons, Doomed.directories_eq, List.length_cons,
          List.length_flatMap] at hturns
        simp only [List.length_map] at hturns
        rw [List.map_append, List.sum_append, List.map_map]
        simp only [Function.comp_def]
        omega
      have hrest := ih hready hleft (entries ++ [visitedAt root one])
      have hbelow : (visitedAt root one).below ++
          pending.map (fun other => (pathOf root other, other.1)) =
          (children ++ pending).map fun other => (pathOf root other, other.1) := by
        unfold visitedAt
        rw [Doomed.visited_below hhere, List.map_append, List.map_map]
        rfl
      rw [List.flatMap_cons, Doomed.reportsBelow_eq, List.cons_append, ← List.flatMap_append,
        List.append_cons]
      refine (finds_walkOne hkeeps hproper hone hdirectory).bind ?_
      refine Finds.bind (fun visit hvisit => ⟨rfl, hvisit⟩ : Finds root node before
        (report (visitedAt root one) : Traversal σ _) ()) ?_
      refine (finds_pure _).bind ?_
      rw [← hbelow] at hrest
      exact hrest

/-- Walking the tree, given a turn for each directory, reports its directories in preorder. -/
theorem finds_walk (hkeeps : server.Keeps root node before) (hproper : node.All Doomed.Proper)
    (hroot : node.label.directory = true) {turns : ℕ}
    (hturns : (Doomed.directories node).length ≤ turns) :
    Finds root node before
      (walk server turns none (fun entries visited => pure (entries ++ [visited])) [] root :
        Traversal σ _) ((Doomed.directories node).map (visitedAt root)) := by
  have hone : ∀ one ∈ [(([] : List Bytes), node)], one ∈ node.all ∧ one.2.label.directory = true :=
    List.forall_mem_singleton.mpr ⟨root_mem_all node, hroot⟩
  have hpending : Finds root node before (walkPending server none
      (fun entries visited => pure (entries ++ [visited])) turns [] [(root, [])] : Traversal σ _) _ :=
    finds_walkPending hkeeps hproper hone (by simpa using hturns) []
  rw [List.flatMap_singleton] at hpending
  unfold walk
  exact (finds_requireRooted hkeeps _).bind hpending

end Walking

end GantrySftp
