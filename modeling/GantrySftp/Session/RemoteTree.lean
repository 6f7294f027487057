import GantrySftp.Library.NamedTree
import GantrySftp.Session.RemoteContainment

/-!
# Walking a tree that is served faithfully

A faithful server answers every request about a tree from the same finite tree, and says of every
entry what it is. A walk then visits the directories of the tree in preorder, each once, and ends.
-/

namespace GantrySftp

open Library Program

/-- A remote tree: the attributes of every entry, and what is in the directories. -/
abbrev Node := Trie Bytes Attrs

/-- Whether attributes are those of a directory. -/
def isDirectoryAttrs (attrs : Attrs) : Bool := entryKind attrs = .directory

namespace Node

/-- The entries of a directory. -/
def entries (node : Node) : List DirEntry :=
  node.children.map fun child => { filename := child.1, attrs := child.2.label }

/-- The directories of a tree, with the names they are reached by, in preorder. -/
def directories (node : Node) : List (List Bytes × Node) := node.reached isDirectoryAttrs

/-- The children that are directories. -/
def subdirectories (node : Node) : List (Bytes × Node) :=
  node.children.filter fun child => isDirectoryAttrs child.2.label

/-- The directories of a tree are its root and those below its children. -/
theorem directories_eq (node : Node) :
    directories node = ([], node) :: (subdirectories node).flatMap fun child =>
      (directories child.2).map fun below => (child.1 :: below.1, below.2) :=
  Trie.reached_entered isDirectoryAttrs node

/-- What is so of every node of a tree: names are distinct components, every kind is reported, and
only directories hold anything. -/
structure Proper (node : Node) : Prop where
  distinct : (node.children.map Prod.fst).Nodup
  component : ∀ child ∈ node.children, IsComponent child.1
  reported : ∀ child ∈ node.children, entryKind child.2.label ≠ .unknown
  empty : ∀ child ∈ node.children, isDirectoryAttrs child.2.label = false → child.2.children = []

end Node

/-- A server lists a tree from a root on: every directory is opened, and its entries read, with
those of the directory itself and its parent or without. -/
def TreeServer.Lists (server : TreeServer) (root : Bytes) (node : Node) : Prop :=
  ∀ names below, node.find names = some below →
    (names = [] ∨ isDirectoryAttrs below.label = true) →
      ∀ sent, ∃ listing, server.opendir sent (joinAll root names) = .ok listing ∧
        listing.ending = .ok () ∧
        listing.entries.filter (fun entry => entry.filename ∉ dotNames) = Node.entries below

/-! ## What a traversal returns and yields -/

section Rules

variable {σ α β : Type}

/-- The default directory is not known yet, or known to be rooted. -/
def Visit.Rooted (visit : Visit σ) : Prop := ∀ root ∈ visit.root, root.head? = some slash

/-- A traversal that returns a value, having yielded some matches. -/
def Gives (program : Traversal σ α) (value : α) (found : List GlobMatch) : Prop :=
  ∀ visit : Visit σ, visit.Rooted → ∃ visit', program.exec visit = (.ok value, visit') ∧
    visit'.Rooted ∧ visit'.matched = visit.matched ++ found

/-- A traversal that returns at once yields nothing. -/
theorem Gives.pure (value : α) : Gives (pure value : Traversal σ α) value [] :=
  fun visit h => ⟨visit, rfl, h, (List.append_nil _).symm⟩

/-- Two traversals in sequence yield the matches of both. -/
theorem Gives.bind {first : Traversal σ β} {next : β → Traversal σ α} {middle : β} {value : α}
    {found found' : List GlobMatch} (hfirst : Gives first middle found)
    (hnext : Gives (next middle) value found') :
    Gives (first >>= next) value (found ++ found') := by
  intro visit hvisit
  obtain ⟨between, hexec, hbetween, hmatched⟩ := hfirst visit hvisit
  obtain ⟨visit', hexec', hvisit', hmatched'⟩ := hnext between hbetween
  refine ⟨visit', exec_bind_ok.mpr ⟨middle, between, hexec, hexec'⟩, hvisit', ?_⟩
  rw [hmatched', hmatched, List.append_assoc]

/-- A traversal that yields nothing, and another behind it. -/
theorem Gives.then {first : Traversal σ β} {next : β → Traversal σ α} {middle : β} {value : α}
    {found : List GlobMatch} (hfirst : Gives first middle []) (hnext : Gives (next middle) value found) :
    Gives (first >>= next) value found := hfirst.bind hnext

/-- A traversal, and another behind it that yields nothing. -/
theorem Gives.last {first : Traversal σ β} {next : β → Traversal σ α} {middle : β} {value : α}
    {found : List GlobMatch} (hfirst : Gives first middle found) (hnext : Gives (next middle) value []) :
    Gives (first >>= next) value found := by
  have h := hfirst.bind hnext
  rwa [List.append_nil] at h

/-- A traversal that does not raise has no use of its handler. -/
theorem Gives.tryCatch {program : Traversal σ α} {handler : TraversalError → Traversal σ α}
    {value : α} {found : List GlobMatch} (h : Gives program value found) :
    Gives (tryCatch program handler) value found := by
  intro visit hvisit
  obtain ⟨visit', hexec, hrest⟩ := h visit hvisit
  exact ⟨visit', exec_tryCatch_ok.mpr (Or.inl hexec), hrest⟩

/-- A loop that carries a value and yields nothing. -/
theorem Gives.foldlM {items : List β} {each : α → β → Traversal σ α} {step : α → β → α}
    (h : ∀ value, ∀ item ∈ items, Gives (each value item) (step value item) []) (init : α) :
    Gives (items.foldlM each init) (items.foldl step init) [] := by
  induction items generalizing init with
  | nil => exact .pure init
  | cons item items ih =>
    rw [List.foldlM_cons, List.foldl_cons]
    exact (h init item List.mem_cons_self).then
      (ih (fun value other hmem => h value other (List.mem_cons_of_mem _ hmem)) _)

/-- A loop that yields. -/
theorem Gives.foldlM_unit {items : List β} {each : Unit → β → Traversal σ Unit}
    {found : β → List GlobMatch} (h : ∀ item ∈ items, Gives (each () item) () (found item)) :
    Gives (items.foldlM each ()) () (items.flatMap found) := by
  induction items with
  | nil => exact .pure ()
  | cons item items ih =>
    rw [List.foldlM_cons, List.flatMap_cons]
    exact (h item List.mem_cons_self).bind
      (ih fun other hmem => h other (List.mem_cons_of_mem _ hmem))

/-- Sending a request of which something holds whatever came before. -/
theorem gives_ask_then {request : TreeRequest} {answer : List TreeRequest → Except Failure β}
    {next : Except Failure β → Traversal σ α} {value : α} {found : List GlobMatch}
    (h : ∀ sent, Gives (next (answer sent)) value found) :
    Gives (ask request answer >>= next) value found := by
  intro visit hvisit
  obtain ⟨visit', hexec, hrest⟩ :=
    h visit.sent { visit with sent := visit.sent ++ [request] } hvisit
  exact ⟨visit', exec_bind_ok.mpr ⟨_, _, rfl, hexec⟩, hrest⟩

end Rules

/-! ## Walking -/

section Walking

variable {σ : Type} {server : TreeServer}

/-- An entry whose kind was reported is settled without a request. -/
theorem gives_settleKind {entry : DirEntry} (h : entry.kind ≠ .unknown) (path : Bytes) :
    Gives (settleKind server path entry : Traversal σ _) (some entry.kind) [] := by
  unfold settleKind
  rw [if_neg h]
  exact .pure _

/-- An entry whose kind was reported is settled for a walk. -/
theorem gives_settleForWalk {entry : DirEntry} (h : entry.kind ≠ .unknown) (path : Bytes) :
    Gives (settleForWalk server path entry : Traversal σ _) (.ok entry.kind) [] :=
  Gives.tryCatch ((gives_settleKind h path).then (.pure (Except.ok entry.kind)))

/-- Reading a directory whose entries are dealt with one by one. -/
theorem gives_scandir {β : Type} {directory : Bytes} {each : β → DirEntry → Traversal σ β}
    {init value : β} {entries : List DirEntry} {found : List GlobMatch}
    (h : ∀ sent, ∃ listing, server.opendir sent directory = .ok listing ∧
      listing.ending = .ok () ∧
      listing.entries.filter (fun entry => entry.filename ∉ dotNames) = entries)
    (heach : Gives (entries.foldlM each init) value found) :
    Gives (scandir server directory each init) (value, .ok ()) found := by
  refine gives_ask_then fun sent => ?_
  obtain ⟨listing, hlisting, hending, hentries⟩ := h sent
  rw [hlisting]
  dsimp only
  rw [hentries, hending]
  exact heach.last (.pure _)

/-- What a walk reports of a directory. -/
def Node.visited (path : Bytes) (relative : List Bytes) (node : Node) : WalkEntry :=
  (Node.entries node).foldl (fun visited child => visited.sort false child (.ok child.kind))
    (.unread path relative)

/-- Sorting a child keeps the path and the names, and adds it to the directories if it is one. -/
theorem WalkEntry.sort_fields (visited : WalkEntry) (child : DirEntry) :
    (visited.sort false child (.ok child.kind)).path = visited.path ∧
      (visited.sort false child (.ok child.kind)).relative = visited.relative ∧
      (visited.sort false child (.ok child.kind)).directories =
        visited.directories ++ [child].filter fun child => isDirectoryAttrs child.attrs := by
  unfold DirEntry.kind isDirectoryAttrs
  cases hkind : entryKind child.attrs <;> simp [WalkEntry.sort, WalkEntry.skip, hkind]

/-- What a walk reports of a directory: its path, its names, and its directories among the rest. -/
theorem Node.visited_fields (path : Bytes) (relative : List Bytes) (node : Node) :
    (visited path relative node).path = path ∧
      (visited path relative node).relative = relative ∧
      (visited path relative node).directories =
        (Node.entries node).filter fun child => isDirectoryAttrs child.attrs := by
  have hfold : ∀ (children : List DirEntry) (visited : WalkEntry),
      let sorted := children.foldl
        (fun visited child => visited.sort false child (.ok child.kind)) visited
      sorted.path = visited.path ∧ sorted.relative = visited.relative ∧
        sorted.directories =
          visited.directories ++ children.filter fun child => isDirectoryAttrs child.attrs := by
    intro children
    induction children with
    | nil => simp
    | cons child children ih =>
      intro visited
      obtain ⟨hpath, hrelative, hdirectories⟩ := visited.sort_fields child
      obtain ⟨hpath', hrelative', hdirectories'⟩ :=
        ih (visited.sort false child (.ok child.kind))
      refine ⟨hpath'.trans hpath, hrelative'.trans hrelative, ?_⟩
      rw [List.foldl_cons, hdirectories', hdirectories, List.append_assoc, ← List.filter_append]
      rfl
  exact hfold _ _

/-- Listing one directory of a tree that is served. -/
theorem gives_walkOne {root : Bytes} {node below : Node} (hlists : server.Lists root node)
    (hproper : node.All Node.Proper) {names : List Bytes} (hfind : node.find names = some below)
    (hdirectory : names = [] ∨ isDirectoryAttrs below.label = true) :
    Gives (walkOne server (joinAll root names) names none : Traversal σ _)
      (Node.visited (joinAll root names) names below) [] := by
  have hbelow := (hproper.find hfind).here
  refine (gives_scandir (hlists names below hfind hdirectory)
    (.foldlM (fun visited child hmem => ?_) _)).then ((Gives.pure ()).then (.pure _))
  obtain ⟨named, hnamed, rfl⟩ := List.mem_map.mp hmem
  have hkind : DirEntry.kind { filename := named.1, attrs := named.2.label } ≠ .unknown :=
    hbelow.reported named hnamed
  exact (gives_settleForWalk hkind _).then (.pure _)

/-- The directories below one that a walk visited. -/
theorem Node.visited_below (root : Bytes) (names : List Bytes) (node : Node) :
    (Node.visited (joinAll root names) names node).below =
      (subdirectories node).map fun child =>
        (joinAll root (names ++ [child.1]), names ++ [child.1]) := by
  obtain ⟨hpath, hrelative, hdirectories⟩ := visited_fields (joinAll root names) names node
  unfold WalkEntry.below
  rw [hpath, hrelative, hdirectories, Node.entries, List.filter_map, List.map_map]
  simp only [joinAll_concat]
  rfl

/-- Reporting a directory yields nothing. -/
theorem gives_report (visited : WalkEntry) : Gives (report visited : Traversal σ _) () [] :=
  fun visit h => ⟨{ visit with walked := visit.walked ++ [visited] }, rfl, h,
    (List.append_nil _).symm⟩

/-- Visiting pending directories, given a turn for each directory below them. -/
theorem gives_walkPending {root : Bytes} {node : Node} (hlists : server.Lists root node)
    (hproper : node.All Node.Proper) {each : Unit → WalkEntry → Traversal σ Unit}
    {found : List Bytes → Node → List GlobMatch}
    (heach : ∀ names below, node.find names = some below →
      (names = [] ∨ isDirectoryAttrs below.label = true) →
      Gives (each () (Node.visited (joinAll root names) names below)) () (found names below))
    {turns : ℕ} {pending : List (List Bytes × Node)}
    (hpending : ∀ one ∈ pending, node.find one.1 = some one.2 ∧
      (one.1 = [] ∨ isDirectoryAttrs one.2.label = true))
    (hturns : (pending.map fun one => (Node.directories one.2).length).sum ≤ turns) :
    Gives (walkPending server none each turns ()
        (pending.map fun one => (joinAll root one.1, one.1))) ()
      (pending.flatMap fun one => (Node.directories one.2).flatMap fun below =>
        found (one.1 ++ below.1) below.2) := by
  induction turns generalizing pending with
  | zero =>
    cases pending with
    | nil => exact .pure ()
    | cons one pending =>
      rw [List.map_cons, List.sum_cons, Node.directories_eq, List.length_cons] at hturns
      omega
  | succ turns ih =>
    cases pending with
    | nil => exact .pure ()
    | cons one pending =>
      obtain ⟨names, below⟩ := one
      obtain ⟨hfind, hdirectory⟩ := hpending _ List.mem_cons_self
      dsimp only at hfind hdirectory
      have hbelow := (hproper.find hfind).here
      -- the children that are directories come before what was pending
      let children := (Node.subdirectories below).map fun child => (names ++ [child.1], child.2)
      have hready : ∀ one ∈ children ++ pending, node.find one.1 = some one.2 ∧
          (one.1 = [] ∨ isDirectoryAttrs one.2.label = true) := by
        intro one hmem
        obtain hchild | hold := List.mem_append.mp hmem
        · obtain ⟨child, hsub, rfl⟩ := List.mem_map.mp hchild
          obtain ⟨hchild, hdir⟩ := List.mem_filter.mp hsub
          refine ⟨?_, Or.inr hdir⟩
          rw [Trie.find_append, hfind]
          simp [Trie.child_of_mem hbelow.distinct hchild]
        · exact hpending one (List.mem_cons_of_mem _ hold)
      have hleft : ((children ++ pending).map fun one => (Node.directories one.2).length).sum ≤
          turns := by
        rw [List.map_cons, List.sum_cons, Node.directories_eq, List.length_cons,
          List.length_flatMap] at hturns
        rw [List.map_append, List.sum_append, List.map_map]
        simp only [List.length_map] at hturns
        simp only [Function.comp_def]
        omega
      have hmatches : (Node.directories below).flatMap (fun one => found (names ++ one.1) one.2) ++
          (pending.flatMap fun one => (Node.directories one.2).flatMap fun below =>
            found (one.1 ++ below.1) below.2) =
          found names below ++ ((children ++ pending).flatMap fun one =>
            (Node.directories one.2).flatMap fun below => found (one.1 ++ below.1) below.2) := by
        rw [Node.directories_eq, List.flatMap_cons, List.append_nil, List.append_assoc,
          List.flatMap_append, List.flatMap_assoc, List.flatMap_map]
        simp only [List.flatMap_map, List.append_assoc, List.singleton_append]
      refine Gives.then (gives_walkOne hlists hproper hfind hdirectory) ?_
      refine (gives_report _).then ?_
      rw [List.flatMap_cons, hmatches]
      refine (heach names below hfind hdirectory).bind ?_
      have hrest := ih hready hleft
      rw [Node.visited_below]
      rw [List.map_append, List.map_map] at hrest
      exact hrest

/-- A path is from the root, or the server's default directory is rooted. -/
theorem gives_requireRooted (hrooted : ∀ sent, ∃ root, server.realpath sent here = .ok root ∧
    root.head? = some slash) (path : Bytes) (feature : String) :
    Gives (requireRooted server path feature : Traversal σ _) () [] := by
  unfold requireRooted
  split
  · exact .pure ()
  · intro visit hvisit
    cases hroot : visit.root with
    | some root =>
      refine ⟨visit, ?_, hvisit, (List.append_nil _).symm⟩
      simp [defaultRoot, exec_bind, hroot, hvisit root hroot]
    | none =>
      obtain ⟨root, hanswer, hslash⟩ := hrooted visit.sent
      refine ⟨{ visit with sent := visit.sent ++ [.realpath here], root := some root }, ?_, ?_,
        (List.append_nil _).symm⟩
      · simp [defaultRoot, exec_bind, hroot, ask, hanswer, orRaise, hslash]
      · rintro _ ⟨⟩
        exact hslash

/-- Walking a tree that is served, given a turn for each directory. -/
theorem gives_walk {root : Bytes} {node : Node} (hlists : server.Lists root node)
    (hproper : node.All Node.Proper) (hrooted : ∀ sent, ∃ root, server.realpath sent here = .ok root ∧
      root.head? = some slash)
    {each : Unit → WalkEntry → Traversal σ Unit} (found : List Bytes → Node → List GlobMatch)
    (heach : ∀ names below, node.find names = some below →
      (names = [] ∨ isDirectoryAttrs below.label = true) →
      Gives (each () (Node.visited (joinAll root names) names below)) () (found names below))
    {turns : ℕ} (hturns : (Node.directories node).length ≤ turns) :
    Gives (walk server turns none each () root) ()
      ((Node.directories node).flatMap fun below => found below.1 below.2) := by
  have hone : ∀ one ∈ [(([] : List Bytes), node)], node.find one.1 = some one.2 ∧
      (one.1 = [] ∨ isDirectoryAttrs one.2.label = true) := by simp
  have hpending := gives_walkPending hlists hproper heach hone
    (by simpa using hturns : ([([], node)].map fun one : List Bytes × Node =>
      (Node.directories one.2).length).sum ≤ turns)
  refine (gives_requireRooted hrooted _ _).then ?_
  simpa using hpending

end Walking

end GantrySftp
