import GantrySftp.Session.GlobMeaning

/-!
# Patterns against their meaning

Matching a pattern on a tree that is served faithfully yields exactly what the pattern means, each
entry once, as long as no entry is covered in two ways and a `**` does not start from something
that is no directory.
-/

namespace GantrySftp

open Library Program Wildcards

/-! ## A server that holds a tree -/

/-- A server that answers every request about a path below its root from one tree, in which no
link leads to a directory. -/
structure TreeServer.Holds (server : TreeServer) (top : Node) : Prop where
  rooted : ∀ sent, server.realpath sent here = .ok [slash]
  lstat : ∀ names below, (∀ name ∈ names, IsName name) → top.find names = some below →
    ∀ sent, server.lstat sent (joinAll [slash] names) = .ok below.label
  missing : ∀ names, (∀ name ∈ names, IsName name) → top.find names = none →
    ∀ sent, ∃ failure, server.lstat sent (joinAll [slash] names) = .error failure ∧
      failure.isNoSuchFile = true
  lists : server.Lists [slash] top
  closed : ∀ names, (∀ name ∈ names, IsName name) → names ≠ [] →
    (∀ below, top.find names = some below → isDirectoryAttrs below.label = false) →
    ∀ sent, ∃ failure, server.opendir sent (joinAll [slash] names) = .error failure ∧
      failure.isNoSuchFile = true

/-- What a path leads to, and is, as the base of a pattern. -/
def RemoteTree.at_ (top : Node) (hproper : top.All Node.Proper) (names : List Bytes) :
    RemoteTree where
  attrs := (top.find names).map Trie.label
  node := (top.find names).filter fun below => names = [] || isDirectoryAttrs below.label
  proper := by
    intro below hbelow
    exact hproper.find (Option.mem_filter_iff.mp hbelow).1

/-- A server that holds a tree serves what every path in it leads to. -/
theorem TreeServer.Holds.serves {server : TreeServer} {top : Node} (h : server.Holds top)
    (hproper : top.All Node.Proper) {names : List Bytes}
    (hnames : ∀ name ∈ names, IsName name) :
    server.Serves (joinAll [slash] names) (.at_ top hproper names) := by
  have hne : joinAll [slash] names ≠ [] := joinAll_ne_nil (List.cons_ne_nil _ _) names
  have hhere : orHere (joinAll [slash] names) = joinAll [slash] names := if_neg hne
  refine ⟨fun sent => ⟨[slash], h.rooted sent, rfl⟩, fun sent attrs hattrs => ?_, fun hattrs sent => ?_,
    fun below hbelow => ?_, fun _ _ hnil => absurd hnil hne, fun hnode sent => ?_⟩
  · obtain ⟨below, hfind, rfl⟩ := Option.map_eq_some_iff.mp hattrs
    exact h.lstat names below hnames hfind sent
  · exact h.missing names hnames (Option.map_eq_none_iff.mp hattrs) sent
  · obtain ⟨hfind, hdirectory⟩ := Option.mem_filter_iff.mp hbelow
    intro back last hlast hlabel sent
    rw [hhere, ← joinAll_append]
    refine h.lists (names ++ back) last ?_ ?_ sent
    · rw [Trie.find_append, hfind]
      exact hlast
    · obtain rfl | hlabel := hlabel
      · obtain rfl : below = last := Option.some.inj hlast
        simpa using hdirectory
      · exact Or.inr hlabel
  · rw [hhere]
    have hnone := Option.filter_eq_none_iff.mp hnode
    refine h.closed names hnames ?_ (fun below hfind => ?_) sent
    · rintro rfl
      simpa using hnone top rfl
    · have hfalse := hnone below hfind
      simp only [Bool.or_eq_true, not_or, Bool.not_eq_true] at hfalse
      exact hfalse.2

/-- The refusal of a path that is not there. -/
def absent : Failure := .serverError .noSuchFile [] none

/-- A server that holds a tree: what it answers about a path follows from the path's names. -/
def TreeServer.holding (top : Node) : TreeServer where
  realpath := fun _ _ => .ok [slash]
  opendir := fun _ path =>
    match top.find (splitComponents path) with
    | none => .error absent
    | some below =>
      if splitComponents path = [] ∨ isDirectoryAttrs below.label then
        .ok { entries := Node.entries below, ending := .ok () }
      else .error absent
  lstat := fun _ path =>
    match top.find (splitComponents path) with
    | none => .error absent
    | some below => .ok below.label
  remove := fun _ _ => .ok ()
  rmdir := fun _ _ => .ok ()

/-- The names below the root of a path that was joined. -/
theorem splitComponents_root {names : List Bytes} (h : ∀ name ∈ names, IsSegment name) :
    splitComponents (joinAll [slash] names) = names := by
  have hroot : splitComponents [slash] = [] := by decide
  rw [splitComponents_joinAll _ h, hroot, List.nil_append]

/-- The server that holds a tree holds it. -/
theorem TreeServer.holding_holds {top : Node} (hproper : top.All Node.Proper) :
    (TreeServer.holding top).Holds top := by
  refine ⟨fun _ => rfl, fun names below hnames hfind sent => ?_, fun names hnames hfind sent => ?_,
    fun names below hfind hdirectory sent => ?_, fun names hnames hne hleaf sent => ?_⟩
  · simp [holding, splitComponents_root (fun name hmem => (hnames name hmem).1), hfind]
  · simp [holding, splitComponents_root (fun name hmem => (hnames name hmem).1), hfind, absent, Failure.isNoSuchFile]
  · refine ⟨{ entries := Node.entries below, ending := .ok () }, ?_, rfl, ?_⟩
    · simp [holding, splitComponents_root (segments_of_components (components_of_find hproper hfind)), hfind, hdirectory]
    · refine List.filter_eq_self.mpr fun entry hmem => decide_eq_true ?_
      obtain ⟨child, hchild, rfl⟩ := List.mem_map.mp hmem
      exact (isComponent_iff.mp ((hproper.find hfind).here.component child hchild)).2.1
  · refine ⟨absent, ?_, rfl⟩
    unfold holding
    dsimp only
    rw [splitComponents_root fun name hmem => (hnames name hmem).1]
    cases hfind : top.find names with
    | none => rfl
    | some below =>
      dsimp only
      rw [if_neg (by simp [hne, hleaf below hfind])]

/-! ## The meaning of a pattern -/

/-- A path that a pattern means: its names below the base are those of an entry, of a directory
where only directories are asked for, and the components cover them. -/
def Meant (base : Bytes) (tree : RemoteTree) (components : List Bytes) (directoriesOnly : Bool)
    (path : Bytes) : Prop :=
  ∃ names attrs, path = joinAll base names ∧ tree.Holds names attrs ∧
    (directoriesOnly = true → isDirectoryAttrs attrs = true) ∧
      Covers isRecursive fits (expand components) names

/-- No entry of the kind asked for is covered in two ways. -/
def OneWay (tree : RemoteTree) (components : List Bytes) (directoriesOnly : Bool) : Prop :=
  ∀ names attrs, tree.Holds names attrs → (directoriesOnly = true → isDirectoryAttrs attrs = true) →
    coverings (expand components) names ≤ 1

/-- A match returned, and yielded every path that is meant once, and no other. -/
structure GlobExact {σ : Type} (base : Bytes) (tree : RemoteTree) (components : List Bytes)
    (directoriesOnly : Bool) (ended : Except TraversalError Unit × Visit σ) : Prop where
  returned : ended.1 = .ok ()
  once : (ended.2.matched.map GlobMatch.path).Nodup
  exact_ : ∀ path, path ∈ ended.2.matched.map GlobMatch.path ↔
    Meant base tree components directoriesOnly path

section Exact

variable {σ : Type} {server : TreeServer} {base : Bytes} {tree : RemoteTree}
  {components : List Bytes} {directoriesOnly : Bool}

/-- An entry of the kind asked for is present exactly where the tree holds one. -/
theorem present_pos_iff {top : Node} (htop : tree.node = some top) {names : List Bytes}
    (hne : names ≠ []) :
    0 < present directoriesOnly top names ↔
      ∃ attrs, tree.Holds names attrs ∧ (directoriesOnly = true → isDirectoryAttrs attrs = true) := by
  unfold present RemoteTree.Holds
  simp only [if_neg hne, htop, Option.mem_def, Option.some.injEq, exists_eq_left']
  cases hfind : top.find names with
  | none => simp
  | some below =>
    cases directoriesOnly <;> cases hlabel : isDirectoryAttrs below.label <;> simp [hlabel]

/-- An entry is present once. -/
theorem present_le_one (top : Node) (names : List Bytes) :
    present directoriesOnly top names ≤ 1 := by
  unfold present
  cases top.find names with
  | none => exact Nat.zero_le 1
  | some below =>
    dsimp only
    split_ifs <;> omega

/-- The names of what is found are components. -/
theorem components_of_found {top : Node} (hproper : top.All Node.Proper)
    (hne : components ≠ []) {names : List Bytes}
    (hmem : names ∈ (found directoriesOnly components top).map Prod.fst) :
    ∀ name ∈ names, IsComponent name := by
  have hpos : 0 < times names (found directoriesOnly components top) := List.count_pos_iff.mpr hmem
  rw [times_found hproper hne] at hpos
  have hpresent := Nat.pos_of_ne_zero (left_ne_zero_of_mul hpos.ne')
  unfold present at hpresent
  cases hfind : top.find names with
  | none =>
    rw [hfind] at hpresent
    cases hpresent
  | some below => exact components_of_find hproper hfind

/-- The paths of what components find below a directory. -/
theorem paths_found (top : Node) :
    ((found directoriesOnly components top).map (Found.match_ base [])).map GlobMatch.path =
      ((found directoriesOnly components top).map Prod.fst).map (joinAll base) := by
  rw [List.map_map, List.map_map]
  rfl

/-- What components find below a directory is what they mean. -/
theorem mem_found_iff {top : Node} (htop : tree.node = some top) (hne : components ≠ [])
    (path : Bytes) :
    path ∈ ((found directoriesOnly components top).map (Found.match_ base [])).map
        GlobMatch.path ↔
      Meant base tree components directoriesOnly path := by
  have htimes : ∀ names, ((found directoriesOnly components top).map Prod.fst).count names =
      present directoriesOnly top names * coverings (expand components) names :=
    times_found (tree.proper top htop) hne
  rw [paths_found, List.mem_map]
  constructor
  · rintro ⟨names, hmem, rfl⟩
    have hpos := List.count_pos_iff.mpr hmem
    rw [htimes] at hpos
    have hways := right_ne_zero_of_mul hpos.ne'
    have hnames : names ≠ [] := by
      rintro rfl
      exact hways (coverings_expand_nil hne)
    obtain ⟨attrs, hholds, hkind⟩ := (present_pos_iff htop hnames).mp
      (Nat.pos_of_ne_zero (left_ne_zero_of_mul hpos.ne'))
    exact ⟨names, attrs, rfl, hholds, hkind, ways_pos_iff.mp (Nat.pos_of_ne_zero hways)⟩
  · rintro ⟨names, attrs, rfl, hholds, hkind, hcovered⟩
    have hways := ways_pos_iff.mpr hcovered
    have hnames : names ≠ [] := by
      rintro rfl
      exact hways.ne' (coverings_expand_nil hne)
    refine ⟨names, List.count_pos_iff.mp ?_, rfl⟩
    rw [htimes]
    exact Nat.mul_pos ((present_pos_iff htop hnames).mpr ⟨attrs, hholds, hkind⟩) hways

/-- Components find nothing twice below a directory when no entry is covered in two ways, and only
then. -/
theorem nodup_found_iff {top : Node} (htop : tree.node = some top) (hne : components ≠ []) :
    (((found directoriesOnly components top).map (Found.match_ base [])).map
        GlobMatch.path).Nodup ↔ OneWay tree components directoriesOnly := by
  have hproper := tree.proper top htop
  have htimes : ∀ names, ((found directoriesOnly components top).map Prod.fst).count names =
      present directoriesOnly top names * coverings (expand components) names :=
    times_found hproper hne
  rw [paths_found]
  constructor
  · intro hnodup names attrs hholds hkind
    by_cases hnames : names = []
    · rw [hnames, coverings_expand_nil hne]
      exact Nat.zero_le 1
    · have hcount := List.nodup_iff_count_le_one.mp (List.Nodup.of_map _ hnodup) names
      have hpresent : present directoriesOnly top names = 1 :=
        le_antisymm (present_le_one top names)
          ((present_pos_iff htop hnames).mpr ⟨attrs, hholds, hkind⟩)
      rwa [htimes, hpresent, one_mul] at hcount
  · intro hone
    refine List.Nodup.map_on (fun names hnames names' hnames' heq => ?_)
      (List.nodup_iff_count_le_one.mpr fun names => ?_)
    · exact joinAll_injective (components_of_found hproper hne hnames)
        (components_of_found hproper hne hnames') heq
    · rw [htimes]
      by_cases hnames : names = []
      · rw [hnames, coverings_expand_nil hne, mul_zero]
        exact Nat.zero_le 1
      obtain hzero | hpos := Nat.eq_zero_or_pos (present directoriesOnly top names)
      · rw [hzero, zero_mul]
        exact Nat.zero_le 1
      · obtain ⟨attrs, hholds, hkind⟩ := (present_pos_iff htop hnames).mp hpos
        calc present directoriesOnly top names * coverings (expand components) names
            ≤ 1 * 1 := Nat.mul_le_mul (present_le_one top names) (hone names attrs hholds hkind)
          _ = 1 := one_mul 1

/-- A tree without a directory at its base holds nothing below it. -/
theorem names_of_none (hnode : tree.node = none) {names : List Bytes} {attrs : Attrs}
    (h : tree.Holds names attrs) : names = [] := by
  by_contra hnames
  unfold RemoteTree.Holds at h
  rw [if_neg hnames, hnode] at h
  obtain ⟨top, htop, -⟩ := h
  cases htop

/-- Nothing is meant below what is no directory. -/
theorem not_meant_of_none (hnode : tree.node = none) (hne : components ≠ []) (path : Bytes) :
    ¬ Meant base tree components directoriesOnly path := by
  rintro ⟨names, attrs, rfl, hholds, hkind, hcovered⟩
  obtain rfl := names_of_none hnode hholds
  exact (ways_pos_iff.mpr hcovered).ne' (coverings_expand_nil hne)

/-- No entry below what is no directory is covered in two ways. -/
theorem oneWay_of_none (hnode : tree.node = none) (hne : components ≠ []) :
    OneWay tree components directoriesOnly := by
  intro names attrs hholds _
  rw [names_of_none hnode hholds, coverings_expand_nil hne]
  exact Nat.zero_le 1

/-- With one `**` at most, no entry is covered in two ways. -/
theorem oneWay_of_single (h : ((expand components).filter isRecursive).length ≤ 1) :
    OneWay tree components directoriesOnly := fun _ _ _ _ => ways_le_one h

/-- A walk from what is no directory raises, though for no pattern, and yields nothing. -/
theorem walk_absent (hserves : server.Serves base tree) (hnode : tree.node = none) (turns : ℕ)
    (each : Unit → WalkEntry → Traversal σ Unit) {visit : Visit σ} (hvisit : visit.Rooted) :
    let ended := (walk server turns none each () (orHere base)).exec visit
    ended.1 ≠ .ok () ∧ (∀ error, ended.1 ≠ .error (.patternError error)) ∧
      ended.2.matched = visit.matched := by
  obtain ⟨between, hrooted, -, hmatched⟩ :=
    gives_requireRooted hserves.rooted (orHere base) "walking a tree" visit hvisit
  rw [List.append_nil] at hmatched
  dsimp only
  unfold walk
  rw [exec_bind, hrooted, ← hmatched]
  cases turns with
  | zero => simp [walkPending]
  | succ turns =>
    obtain ⟨failure, hfailure, -⟩ := hserves.closed hnode between.sent
    simp [walkPending, walkOne, scandir, ask, exec_bind, hfailure, orRaise, raise]

/-- A component that crosses no level finds nothing in what is no directory. -/
theorem gives_matchLevel_absent (hserves : server.Serves base tree) (hnode : tree.node = none)
    (head : Bytes) (deeper : Option (Bytes → Traversal σ Unit)) :
    Gives (matchLevel server true directoriesOnly head deeper base) () [] := by
  intro visit hvisit
  obtain ⟨failure, hfailure, hmissing⟩ := hserves.closed hnode visit.sent
  refine ⟨{ visit with sent := visit.sent ++ [.opendir (orHere base)] }, ?_, hvisit,
    (List.append_nil _).symm⟩
  simp [matchLevel, scandir, ask, exec_bind, hfailure, hmissing]

/-- Components of which the first crosses no level find nothing below what is no directory. -/
theorem gives_matchIn_absent (hserves : server.Serves base tree) (hnode : tree.node = none)
    {head : Bytes} (hhead : head ≠ recursive) (rest : List Bytes) (turns : ℕ) :
    Gives (matchIn server turns none true directoriesOnly (head :: rest) base :
        Traversal σ Unit) () [] := by
  unfold matchIn
  rw [if_neg hhead]
  cases rest with
  | nil => exact gives_matchLevel_absent hserves hnode head none
  | cons _ _ => exact gives_matchLevel_absent hserves hnode head (some _)

/-- No names are covered by no components. -/
theorem covers_nil_iff {names : List Bytes} : Covers isRecursive fits (expand []) names ↔ names = [] := by
  constructor
  · intro h
    cases h
    rfl
  · rintro rfl
    exact .nil

/-- A pattern without magic means the entry at its base, if it is of the kind asked for. -/
theorem meant_nil_iff {path : Bytes} : Meant base tree [] directoriesOnly path ↔
    path = base ∧ ∃ attrs ∈ tree.attrs, directoriesOnly = true → isDirectoryAttrs attrs = true := by
  constructor
  · rintro ⟨names, attrs, rfl, hholds, hkind, hcovered⟩
    obtain rfl := covers_nil_iff.mp hcovered
    exact ⟨rfl, attrs, hholds, hkind⟩
  · rintro ⟨rfl, attrs, hholds, hkind⟩
    exact ⟨[], attrs, rfl, hholds, hkind, .nil⟩

/-- A pattern without magic finds the entry at its base, if it is of the kind asked for. -/
theorem globExact_literal (hserves : server.Serves base tree) {visit : Visit σ}
    (hmatched : visit.matched = []) :
    GlobExact base tree [] directoriesOnly ((literal server directoriesOnly base).exec visit) := by
  cases hattrs : tree.attrs with
  | none =>
    obtain ⟨failure, hfailure, hmissing⟩ := hserves.missing hattrs visit.sent
    have hexec : (literal server directoriesOnly base).exec visit =
        (.ok (), { visit with sent := visit.sent ++ [.lstat base] }) := by
      simp [literal, attrsOrAbsent, ask, exec_bind, hfailure, hmissing]
    rw [hexec]
    refine ⟨rfl, by simp [hmatched], fun path => ?_⟩
    simp [hmatched, meant_nil_iff, hattrs]
  | some attrs =>
    have hanswer := hserves.lstat visit.sent attrs hattrs
    by_cases hkept : directoriesOnly = true ∧ entryKind attrs ≠ .directory
    · have hexec : (literal server directoriesOnly base).exec visit =
          (.ok (), { visit with sent := visit.sent ++ [.lstat base] }) := by
        simp [literal, attrsOrAbsent, ask, exec_bind, hanswer, hkept]
      rw [hexec]
      refine ⟨rfl, by simp [hmatched], fun path => ?_⟩
      simp [hmatched, meant_nil_iff, hattrs, hkept.1, isDirectoryAttrs, hkept.2]
    · have hexec : (literal server directoriesOnly base).exec visit =
          (.ok (), { visit with
            sent := visit.sent ++ [.lstat base]
            matched := [GlobMatch.mk base (.mk (splitParent base).2 attrs)] }) := by
        simp [literal, attrsOrAbsent, ask, exec_bind, hanswer, hkept, yield_, hmatched]
      rw [hexec]
      refine ⟨rfl, by simp, fun path => ?_⟩
      have hkind : directoriesOnly = true → isDirectoryAttrs attrs = true := by
        intro honly
        by_contra hleaf
        exact hkept ⟨honly, fun hdirectory => hleaf (decide_eq_true hdirectory)⟩
      simpa [meant_nil_iff, hattrs] using fun _ : path = base => hkind

/-- Matching a pattern that is accepted as a whole resolves its base, or matches components below
it. -/
theorem glob_exec (hrooted : ∀ sent, ∃ root, server.realpath sent here = .ok root ∧
    root.head? = some slash) {pattern : Bytes} {held : σ}
    (hsplit : splitPattern pattern true = (base, components, directoriesOnly))
    (hvalid : validatePattern pattern = .ok ()) (turns : ℕ) :
    ∃ visit : Visit σ, visit.Rooted ∧ visit.matched = [] ∧
      (glob server turns none true pattern).exec (.fresh none held) =
        (match components with
          | [] => literal server directoriesOnly base
          | _ :: _ => matchIn server turns none true directoriesOnly components base).exec
            visit := by
  obtain ⟨visit, hrooted, hvisit, hmatched⟩ :=
    gives_requireRooted hrooted pattern "globbing" (.fresh none held)
      (by simp [Visit.Rooted, Visit.fresh])
  refine ⟨visit, hvisit, by simpa [Visit.fresh] using hmatched, ?_⟩
  unfold glob
  cases components with
  | nil => simp only [hvalid, hsplit, exec_bind, hrooted]
  | cons component components => simp only [hvalid, hsplit, exec_bind, hrooted]

/-- However matching ends, it has yielded the paths that are meant and no others, and is not refused.
It returns and yields none of them twice if a `**` does not start from what is no directory and no
entry is covered in two ways, and only then. -/
theorem glob_ended {pattern : Bytes} (held : σ) (hserves : server.Serves base tree)
    (hsplit : splitPattern pattern true = (base, components, directoriesOnly))
    (haccepted : ∀ component ∈ components, validatePattern component = .ok ())
    (hvalid : validatePattern pattern = .ok ()) {turns : ℕ}
    (hturns : ∀ top ∈ tree.node, (Node.directories top).length ≤ turns) :
    let ended := (glob server turns none true pattern).exec (.fresh none held)
    (∀ path, path ∈ ended.2.matched.map GlobMatch.path ↔
        Meant base tree components directoriesOnly path) ∧
      (ended.1 = .ok () ∧ (ended.2.matched.map GlobMatch.path).Nodup ↔
        (components.head? = some recursive → tree.node ≠ none) ∧
          OneWay tree components directoriesOnly) ∧
      ∀ error, ended.1 ≠ .error (.patternError error) := by
  obtain ⟨visit, hvisit, hmatched, hexec⟩ := glob_exec hserves.rooted hsplit hvalid turns
  rw [hexec]
  cases components with
  | nil =>
    have hexact : GlobExact base tree [] directoriesOnly
        ((literal server directoriesOnly base).exec visit) := globExact_literal hserves hmatched
    refine ⟨hexact.exact_, iff_of_true ⟨hexact.returned, hexact.once⟩ ⟨by simp, ?_⟩,
      fun error h => ?_⟩
    · exact oneWay_of_single (by simp [expand])
    · cases hexact.returned.symm.trans h
  | cons head rest =>
    have hne : head :: rest ≠ [] := List.cons_ne_nil _ _
    dsimp only
    cases hnode : tree.node with
    | some top =>
      have hat : tree.DirectoryAt [] top := ⟨⟨top, hnode, rfl⟩, Or.inl rfl⟩
      obtain ⟨visit', hended, -, hfound⟩ :=
        gives_matchIn hserves hturns haccepted hat visit hvisit
      rw [hmatched, List.nil_append] at hfound
      rw [joinAll_nil] at hended
      rw [hended, hfound]
      refine ⟨mem_found_iff hnode hne, ?_, fun _ h => by cases h⟩
      rw [nodup_found_iff hnode hne]
      simp
    | none =>
      have hnothing : ∀ path, ¬ Meant base tree (head :: rest) directoriesOnly path :=
        not_meant_of_none hnode hne
      by_cases hhead : head = recursive
      · unfold matchIn
        rw [if_pos hhead]
        obtain ⟨hraised, hrefused, hyielded⟩ := walk_absent hserves hnode turns _ hvisit
        rw [hyielded, hmatched]
        refine ⟨fun path => iff_of_false List.not_mem_nil (hnothing path), ?_, hrefused⟩
        exact iff_of_false (fun h => hraised h.1) fun h => h.1 (congrArg some hhead) rfl
      · obtain ⟨visit', hended, -, hfound⟩ :=
          gives_matchIn_absent hserves hnode hhead rest turns visit hvisit
        rw [hmatched, List.append_nil] at hfound
        rw [hended, hfound]
        refine ⟨fun path => iff_of_false List.not_mem_nil (hnothing path), ?_, fun _ h => by cases h⟩
        exact iff_of_true ⟨rfl, List.nodup_nil⟩
          ⟨fun h => absurd (Option.some.inj h) hhead, oneWay_of_none hnode hne⟩

/-- Matching a pattern yields exactly what it means, on a tree that is served faithfully, if and
only if the pattern is accepted as a whole, a `**` at its first magic component starts from a
directory, and no entry is covered in two ways. -/
theorem glob_exact_iff (server : TreeServer) (tree : RemoteTree) (pattern : Bytes) (held : σ)
    (hserves : server.Serves (splitPattern pattern true).1 tree)
    (haccepted : ∀ component ∈ (splitPattern pattern true).2.1, validatePattern component = .ok ()) :
    let split := splitPattern pattern true
    ∃ enough, ∀ turns, enough ≤ turns →
      (GlobExact split.1 tree split.2.1 split.2.2
          ((glob server turns none true pattern).exec (.fresh none held)) ↔
        validatePattern pattern = .ok () ∧
          (split.2.1.head? = some recursive → tree.node ≠ none) ∧
            OneWay tree split.2.1 split.2.2) := by
  refine ⟨(tree.node.map fun top => (Node.directories top).length).getD 0, fun turns hturns => ?_⟩
  have hbound : ∀ top ∈ tree.node, (Node.directories top).length ≤ turns := by
    intro top htop
    simpa [show tree.node = some top from htop] using hturns
  cases hvalid : validatePattern pattern with
  | error error =>
    refine iff_of_false (fun h => ?_) fun h => nomatch h.1
    have hraised := h.returned
    simp [glob, hvalid] at hraised
  | ok _ =>
    obtain ⟨hmeant, hended, -⟩ := glob_ended held hserves rfl haccepted hvalid hbound
    constructor
    · exact fun h => ⟨rfl, hended.mp ⟨h.returned, h.once⟩⟩
    · intro h
      obtain ⟨hreturned, honce⟩ := hended.mpr h.2
      exact ⟨hreturned, honce, hmeant⟩

end Exact

/-! ## A small tree -/

/-- The attributes of a directory. -/
def directoryAttrs : Attrs := { permissions := some 0o040755 }

/-- The attributes of a regular file. -/
def fileAttrs : Attrs := { permissions := some 0o100644 }

/-- A tree with one file in one directory. -/
def smallTree : Node :=
  .node directoryAttrs
    [("d".toUTF8.toList, .node directoryAttrs [("f".toUTF8.toList, .node fileAttrs [])])]

/-- The small tree is proper. -/
theorem smallTree_proper : smallTree.All Node.Proper := by
  have hfile : (Trie.node fileAttrs [] : Node).All Node.Proper :=
    .mk ⟨by simp [Trie.children], by simp [Trie.children], by simp [Trie.children],
      by simp [Trie.children]⟩ (by simp [Trie.children])
  have hone : ∀ (name : Bytes) (below : Node), IsComponent name → below.All Node.Proper →
      entryKind below.label ≠ .unknown →
      (isDirectoryAttrs below.label = false → below.children = []) →
      (Trie.node directoryAttrs [(name, below)] : Node).All Node.Proper := by
    intro name below hname hbelow hkind hleaf
    refine .mk ⟨?_, ?_, ?_, ?_⟩ ?_ <;> simp [Trie.children, hname, hkind]
    · exact hleaf
    · exact hbelow
  refine hone _ _ (by decide +kernel) (hone _ _ (by decide +kernel) hfile (by decide) ?_)
    (by decide) (by decide)
  exact fun _ => rfl

/-- A server that holds the small tree serves it from the root. -/
theorem smallTree_serves {base : Bytes} (h : base = [slash]) :
    (TreeServer.holding smallTree).Serves base (.at_ smallTree smallTree_proper []) := by
  subst h
  exact (TreeServer.holding_holds smallTree_proper).serves smallTree_proper
    (List.forall_mem_nil _)

/-- Matching `/**/f` on the small tree yields its file once, and nothing else. -/
theorem glob_exact_iff_small :
    let split := splitPattern "/**/f".toUTF8.toList true
    let tree := RemoteTree.at_ smallTree smallTree_proper []
    ∃ enough, ∀ turns, enough ≤ turns →
      GlobExact split.1 tree split.2.1 split.2.2
        ((glob (.holding smallTree) turns none true "/**/f".toUTF8.toList).exec
          (.fresh none ())) := by
  obtain ⟨enough, hiff⟩ := glob_exact_iff (.holding smallTree)
    (.at_ smallTree smallTree_proper []) "/**/f".toUTF8.toList ()
    (smallTree_serves (by decide +kernel)) (by decide +kernel)
  refine ⟨enough, fun turns hturns => (hiff turns hturns).mpr ⟨by decide +kernel, fun _ => ?_, ?_⟩⟩
  · exact Option.some_ne_none smallTree
  · exact oneWay_of_single (by decide +kernel)

/-- Below a directory that the small tree does not have, `**` raises in every number of turns. -/
theorem glob_nope (turns : ℕ) :
    ((glob (.holding smallTree) (turns + 1) none true "/nope/**".toUTF8.toList).exec
      (.fresh none ())).1 = .error (.failure absent) := by
  have hvalid : validatePattern "/nope/**".toUTF8.toList = .ok () := by decide +kernel
  have hsplit : splitPattern "/nope/**".toUTF8.toList true =
      ("/nope".toUTF8.toList, [recursive], false) := by decide +kernel
  have hdefault : ∀ sent, ∃ root, (TreeServer.holding smallTree).realpath sent here = .ok root ∧
      root.head? = some slash := fun _ => ⟨[slash], rfl, rfl⟩
  obtain ⟨visit, hvisit, -, hexec⟩ :
      ∃ visit : Visit Unit, visit.Rooted ∧ visit.matched = [] ∧
        (glob (.holding smallTree) (turns + 1) none true "/nope/**".toUTF8.toList).exec
          (.fresh none ()) =
            (matchIn (.holding smallTree) (turns + 1) none true false [recursive]
              "/nope".toUTF8.toList).exec visit :=
    glob_exec hdefault hsplit hvalid (turns + 1)
  obtain ⟨between, hrooted, -, -⟩ := gives_requireRooted hdefault
    (orHere "/nope".toUTF8.toList) "walking a tree" visit hvisit
  have hanswer : ∀ sent, (TreeServer.holding smallTree).opendir sent
      (orHere "/nope".toUTF8.toList) = .error absent := by
    have hfind : smallTree.find (splitComponents (orHere "/nope".toUTF8.toList)) = none := by
      decide +kernel
    intro sent
    simp only [TreeServer.holding, hfind]
  rw [hexec, matchIn, if_pos rfl, walk, exec_bind, hrooted]
  generalize orHere "/nope".toUTF8.toList = base at hanswer
  simp [walkPending, walkOne, scandir, ask, exec_bind, hanswer, orRaise, raise]

/-- Matching `/nope/**` on the small tree raises that the directory is not there, where nothing is
meant; and matching `/**/**/f` yields the file of the tree twice. -/
theorem glob_not_exact :
    (¬ ∀ (server : TreeServer) (tree : RemoteTree) (pattern : Bytes),
      let split := splitPattern pattern true
      server.Serves split.1 tree → (∀ component ∈ split.2.1, validatePattern component = .ok ()) →
        validatePattern pattern = .ok () → ∃ turns, GlobExact split.1 tree split.2.1 split.2.2
          ((glob server turns none true pattern).exec (.fresh none ()))) ∧
    ¬ ∀ (server : TreeServer) (tree : RemoteTree) (pattern : Bytes) (turns : ℕ),
      let split := splitPattern pattern true
      let ended := (glob server turns none true pattern).exec (.fresh none ())
      server.Serves split.1 tree → (∀ component ∈ split.2.1, validatePattern component = .ok ()) →
        validatePattern pattern = .ok () → ended.1 = .ok () →
          GlobExact split.1 tree split.2.1 split.2.2 ended := by
  have hserves : ∀ {base : Bytes}, base = joinAll [slash] ["nope".toUTF8.toList] →
      (TreeServer.holding smallTree).Serves base
        (.at_ smallTree smallTree_proper ["nope".toUTF8.toList]) := by
    rintro base rfl
    refine (TreeServer.holding_holds smallTree_proper).serves smallTree_proper fun name hmem => ?_
    obtain rfl := List.mem_singleton.mp hmem
    exact ⟨⟨by decide +kernel, by decide +kernel⟩, by decide +kernel⟩
  constructor
  · intro h
    obtain ⟨turns, hexact⟩ := h (.holding smallTree)
      (.at_ smallTree smallTree_proper ["nope".toUTF8.toList]) "/nope/**".toUTF8.toList
      (hserves (by decide +kernel)) (by decide +kernel) (by decide +kernel)
    have hreturned := hexact.returned
    cases turns with
    | zero => exact absurd hreturned (by decide +kernel)
    | succ turns => cases (glob_nope turns).symm.trans hreturned
  · intro h
    have hexact := h (.holding smallTree) _ "/**/**/f".toUTF8.toList 4
      (smallTree_serves (by decide +kernel)) (by decide +kernel) (by decide +kernel)
      (by decide +kernel)
    exact absurd hexact.once (by decide +kernel)

end GantrySftp
