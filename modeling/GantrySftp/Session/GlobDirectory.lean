import GantrySftp.Session.LiteralPrefix

/-!
# Patterns below a directory

A relative pattern is joined to the directory it is asked for in, and the text is split as one
pattern. The directory is then taken as it is exactly where nothing in its own names reads as
magic. An empty pattern leaves the directory alone to be matched, and yields it.
-/

namespace GantrySftp

open Library Program Wildcards Glob

/-! ## Texts that are joined -/

/-- The components of a text joined to another. -/
theorem splitComponents_joinRemote (directory pattern : Bytes) :
    splitComponents (joinRemote directory pattern) =
      splitComponents directory ++ splitComponents pattern := by
  unfold joinRemote
  split_ifs with hdirectory
  · obtain rfl | hlast := hdirectory
    · rfl
    · obtain ⟨front, rfl⟩ := List.getLast?_eq_some_iff.mp hlast
      rw [List.append_assoc, List.singleton_append, splitComponents_slash, splitComponents_slash]
      simp [splitComponents]
  · rw [List.append_assoc, List.singleton_append, splitComponents_slash]

/-- A text joined to another starts where that does. -/
theorem rootOf_joinRemote (directory : Bytes) {pattern : Bytes}
    (hrelative : pattern.head? ≠ some slash) :
    rootOf (joinRemote directory pattern) = rootOf directory := by
  unfold rootOf joinRemote
  cases directory with
  | nil => simp [hrelative]
  | cons byte rest => split_ifs <;> simp_all

/-- A byte of a path that is no separator is in one of its components. -/
theorem mem_component_of_mem {path : Bytes} {byte : UInt8} (hne : byte ≠ slash) (h : byte ∈ path) :
    ∃ component ∈ splitComponents path, byte ∈ component := by
  induction hlength : path.length using Nat.strong_induction_on generalizing path with
  | _ length ih =>
    subst hlength
    by_cases hslash : slash ∈ path
    · obtain ⟨front, back, rfl⟩ := List.append_of_mem hslash
      rw [splitComponents_slash]
      simp only [List.length_append, List.length_cons] at ih
      obtain hfront | hback := List.mem_append.mp h
      · obtain ⟨component, hmem, hbyte⟩ := ih _ (by omega) hfront rfl
        exact ⟨component, List.mem_append_left _ hmem, hbyte⟩
      · have hback := (List.mem_cons.mp hback).resolve_left hne
        obtain ⟨component, hmem, hbyte⟩ := ih _ (by omega) hback rfl
        exact ⟨component, List.mem_append_right _ hmem, hbyte⟩
    · rw [splitComponents_segment ⟨List.ne_nil_of_mem h, hslash⟩]
      exact ⟨path, List.mem_singleton_self path, h⟩

/-- A text joined to another ends as it did. -/
theorem trailing_joinRemote (directory : Bytes) {pattern : Bytes} (hne : pattern ≠ [])
    (hrelative : pattern.head? ≠ some slash) :
    decide ((joinRemote directory pattern).getLast? = some slash ∧
        joinRemote directory pattern ≠ [slash]) =
      decide (pattern.getLast? = some slash ∧ pattern ≠ [slash]) := by
  have hlast : (joinRemote directory pattern).getLast? = pattern.getLast? := by
    unfold joinRemote
    split_ifs <;> rw [List.getLast?_append_of_ne_nil _ hne]
  have hpattern : pattern ≠ [slash] := fun heq => hrelative (by rw [heq]; rfl)
  have hjoined : joinRemote directory pattern ≠ [slash] := by
    intro heq
    have hparts := congrArg splitComponents heq
    rw [splitComponents_joinRemote] at hparts
    obtain ⟨byte, rest, rfl⟩ := List.exists_cons_of_ne_nil hne
    obtain ⟨component, hmem, -⟩ := mem_component_of_mem
      (fun hslash => hrelative (congrArg some hslash)) (List.mem_cons_self (a := byte) (l := rest))
    have hnone : splitComponents [slash] = [] := by decide
    rw [hnone] at hparts
    rw [(List.append_eq_nil_iff.mp hparts).2] at hmem
    cases hmem
  rw [hlast]
  simp [hpattern, hjoined]

/-- A pattern behind a directory without brackets is accepted where it is alone. -/
theorem Accepted.behind {directory pattern : Bytes} (hopen : openClass ∉ directory)
    (h : Accepted pattern) : Accepted (joinRemote directory pattern) := by
  have hslash : ∀ {front : Bytes}, openClass ∉ front → Accepted (front ++ slash :: pattern) := by
    intro front hfront
    induction front using unescaped.induct with
    | case1 => exact h.cons (by decide) fun heq => absurd heq (by decide)
    | case2 value =>
      by_cases hvalue : value = escape
      · rw [hvalue]
        exact h.cons_escape slash
      · refine Accepted.cons ?_ (fun heq => hfront (heq ▸ List.mem_cons_self))
          fun heq => absurd heq hvalue
        exact h.cons (by decide) fun heq => absurd heq (by decide)
    | case3 next rest ih => exact (ih (by simp_all)).cons_escape next
    | case4 value next rest hvalue ih =>
      exact (ih fun hmem => hfront (List.mem_cons_of_mem _ hmem)).cons
        (fun heq => hfront (heq ▸ List.mem_cons_self)) fun heq => absurd heq hvalue
  unfold joinRemote
  split_ifs with hdirectory
  · obtain rfl | hlast := hdirectory
    · exact h
    · obtain ⟨front, rfl⟩ := List.getLast?_eq_some_iff.mp hlast
      rw [List.append_assoc]
      exact hslash fun hmem => hopen (List.mem_append_left _ hmem)
  · rw [List.append_assoc]
    exact hslash hopen

/-- The components of a pattern in front of the first with magic, and the others. -/
theorem exists_front (components : List Bytes) : ∃ front back, components = front ++ back ∧
    (∀ component ∈ front, hasMagic component = false) ∧
      ∀ next ∈ back.head?, hasMagic next = true := by
  refine ⟨components.takeWhile (!hasMagic ·), components.dropWhile (!hasMagic ·),
    List.takeWhile_append_dropWhile.symm, fun component hmem => ?_, fun next hnext => ?_⟩
  · simpa using List.all_eq_true.mp List.all_takeWhile component hmem
  · have hhead := List.head?_dropWhile_not (!hasMagic ·) components
    rw [hnext] at hhead
    simpa using hhead

/-! ## What is asked for -/

/-- A path in a directory: at it or below it, however the default directory is spelled. -/
def Beneath (directory path : Bytes) : Prop :=
  ∃ names, (∀ name ∈ names, IsName name) ∧
    (path = joinAll directory names ∨ path = joinAll (orHere directory) names)

/-- What is near a path in a directory is in the directory. -/
theorem Beneath.near {directory path : Bytes} {names : List Bytes}
    (hnames : ∀ name ∈ names, IsName name) (h : Near (joinAll directory names) path) :
    Beneath directory path := by
  have hboth : ∀ below : List Bytes, (∀ name ∈ below, IsComponent name) →
      ∀ name ∈ names ++ below, IsName name := by
    intro below hbelow name hmem
    obtain hmem | hmem := List.mem_append.mp hmem
    · exact hnames name hmem
    · exact (hbelow name hmem).isName
  obtain ⟨below, hbelow, rfl⟩ | ⟨below, hbelow, rfl⟩ := h
  · exact ⟨names ++ below, hboth below hbelow, Or.inl (joinAll_append _ _ _).symm⟩
  · by_cases hnil : joinAll directory names = []
    · obtain rfl : directory = [] := not_not.mp fun hne => joinAll_ne_nil hne names hnil
      have hsplit := splitComponents_joinAll [] fun name hmem => (hnames name hmem).1
      rw [hnil] at hsplit
      obtain rfl : names = [] := hsplit.symm
      exact ⟨below, hboth below hbelow, Or.inr rfl⟩
    · rw [orHere, if_neg hnil]
      exact ⟨names ++ below, hboth below hbelow, Or.inl (joinAll_append _ _ _).symm⟩

/-- The names that a pattern can start from below its directory. -/
def startNames (pattern : Bytes) : List Bytes := splitComponents (splitPattern pattern true).1

/-- Matching a pattern below a directory was not refused, yielded exactly what the pattern means
there, which is below the directory, and listed nothing outside. -/
structure StaysBelow {σ : Type} (directory pattern : Bytes) (top : Node)
    (hproper : top.All Node.Proper) (ended : Except TraversalError Unit × Visit σ) : Prop where
  accepted : ∀ error, ended.1 ≠ .error (.patternError error)
  exact_ : ∀ path, path ∈ ended.2.matched.map GlobMatch.path ↔
    Meant (joinAll (plain directory) (startNames pattern)) (.at_ top hproper (startNames pattern))
      (splitPattern pattern true).2.1 (splitPattern pattern true).2.2 path
  strictly : ∀ path ∈ ended.2.matched.map GlobMatch.path, ∃ names, names ≠ [] ∧
    (∀ name ∈ names, IsName name) ∧ path = joinAll (plain directory) names
  inside : ∀ path, .opendir path ∈ ended.2.sent → Beneath (plain directory) path

/-- On every server that holds a tree at a directory, matching a pattern below the directory stays
there. -/
def DirectoryTaken {σ : Type} (held : σ) (directory pattern : Bytes) : Prop :=
  ∀ (server : TreeServer) (top : Node) (hproper : top.All Node.Proper),
    server.HoldsAt directory top hproper → server.ListsComponents →
      ∃ enough, ∀ turns, enough ≤ turns →
        StaysBelow directory pattern top hproper
          ((glob server turns none true (joinRemote directory pattern)).exec (.fresh none held))

section Below

variable {σ : Type} {directory pattern : Bytes} {front back : List Bytes}

/-- The names a pattern starts from are its components in front of the first with magic. -/
theorem splitPattern_relative (hrelative : pattern.head? ≠ some slash)
    (hparts : splitComponents pattern = front ++ back)
    (hfront : ∀ component ∈ front, hasMagic component = false)
    (hback : ∀ next ∈ back.head?, hasMagic next = true) :
    startNames pattern = front ∧ (splitPattern pattern true).2 =
      (back, decide (pattern.getLast? = some slash ∧ pattern ≠ [slash])) := by
  have hsegments : ∀ component ∈ front, IsSegment component := fun component hmem =>
    (segment_of_mem (hparts ▸ List.mem_append_left _ hmem)).1
  have hsplit := splitPattern_front hparts hfront hback
  unfold startNames
  rw [hsplit]
  refine ⟨?_, rfl⟩
  dsimp only
  rw [splitComponents_joinAll _ hsegments, rootOf, if_neg hrelative]
  rfl

/-- Below a directory whose names have no magic, a pattern starts from its own names there. -/
theorem splitPattern_below (hrelative : pattern.head? ≠ some slash) (hne : pattern ≠ [])
    (hplain : ∀ name ∈ splitComponents directory, hasMagic name = false) :
    splitPattern (joinRemote directory pattern) true =
      (joinAll (plain directory) (startNames pattern), (splitPattern pattern true).2.1,
        (splitPattern pattern true).2.2) := by
  obtain ⟨front, back, hparts, hfront, hback⟩ := exists_front (splitComponents pattern)
  obtain ⟨hnames, hrest⟩ := splitPattern_relative hrelative hparts hfront hback
  have hjoined : splitComponents (joinRemote directory pattern) =
      (splitComponents directory ++ front) ++ back := by
    rw [splitComponents_joinRemote, hparts, List.append_assoc]
  have hall : ∀ component ∈ splitComponents directory ++ front, hasMagic component = false := by
    intro component hmem
    obtain hmem | hmem := List.mem_append.mp hmem
    · exact hplain component hmem
    · exact hfront component hmem
  rw [splitPattern_front hjoined hall hback, rootOf_joinRemote directory hrelative,
    trailing_joinRemote directory hne hrelative, hnames, hrest, plain, joinAll_append]

/-- The names a pattern starts from can be those of entries. -/
theorem startNames_isName (hrelative : pattern.head? ≠ some slash)
    (hdots : ∀ component ∈ splitComponents pattern, component ∉ dotNames) :
    ∀ name ∈ startNames pattern, IsName name := by
  obtain ⟨front, back, hparts, hfront, hback⟩ := exists_front (splitComponents pattern)
  rw [(splitPattern_relative hrelative hparts hfront hback).1]
  intro name hmem
  have hpart : name ∈ splitComponents pattern := hparts ▸ List.mem_append_left _ hmem
  exact ⟨(segment_of_mem hpart).1, hdots name hpart⟩

/-- What a pattern that is not empty means below a directory has names there. -/
theorem exists_names_of_meant (hrelative : pattern.head? ≠ some slash) (hne : pattern ≠ [])
    (hdots : ∀ component ∈ splitComponents pattern, component ∉ dotNames) {tree : RemoteTree}
    {path : Bytes} (h : Meant (joinAll (plain directory) (startNames pattern)) tree
      (splitPattern pattern true).2.1 (splitPattern pattern true).2.2 path) :
    ∃ names, names ≠ [] ∧ (∀ name ∈ names, IsName name) ∧
      path = joinAll (plain directory) names := by
  obtain ⟨names, attrs, rfl, hholds, -, hcovers⟩ := h
  refine ⟨startNames pattern ++ names, ?_, ?_, (joinAll_append _ _ _).symm⟩
  · rw [Ne, List.append_eq_nil_iff]
    rintro ⟨hstart, rfl⟩
    obtain ⟨front, back, hparts, hfront, hback⟩ := exists_front (splitComponents pattern)
    obtain ⟨hnames, hrest⟩ := splitPattern_relative hrelative hparts hfront hback
    rw [hrest] at hcovers
    obtain rfl : back = [] := by
      by_contra hback
      exact (ways_pos_iff.mpr hcovers).ne' (coverings_expand_nil hback)
    rw [← hnames, hstart, List.append_nil] at hparts
    -- a byte that is no separator is in a component
    obtain ⟨byte, rest, rfl⟩ := List.exists_cons_of_ne_nil hne
    obtain ⟨component, hmem, -⟩ := mem_component_of_mem
      (fun hslash => hrelative (congrArg some hslash)) (List.mem_cons_self (a := byte) (l := rest))
    rw [hparts] at hmem
    cases hmem
  · intro name hmem
    obtain hmem | hmem := List.mem_append.mp hmem
    · exact startNames_isName hrelative hdots name hmem
    · exact (components_of_held hholds name hmem).isName

/-- A directory without brackets in its names has none. -/
theorem open_not_mem (hplain : ∀ name ∈ splitComponents directory, hasMagic name = false) :
    openClass ∉ directory := by
  intro hmem
  obtain ⟨component, hcomponent, hbyte⟩ := mem_component_of_mem (by decide) hmem
  exact (bytes_of_hasMagic (hplain component hcomponent) openClass hbyte).2.2 rfl

/-- A directory without magic is taken as it is. -/
theorem directoryTaken_of_plain (held : σ) (hrelative : pattern.head? ≠ some slash)
    (hne : pattern ≠ []) (hdots : ∀ component ∈ splitComponents pattern, component ∉ dotNames)
    (hvalid : validatePattern pattern = .ok ())
    (haccepted : ∀ component ∈ (splitPattern pattern true).2.1, validatePattern component = .ok ())
    (hplain : ∀ name ∈ splitComponents directory, hasMagic name = false) :
    DirectoryTaken held directory pattern := by
  intro server top hproper hholds hlists
  have hnames := startNames_isName hrelative hdots
  have hsplit := splitPattern_below hrelative hne hplain
  have hjoined : validatePattern (joinRemote directory pattern) = .ok () :=
    accepted_iff.mp (Accepted.behind (open_not_mem hplain) (accepted_iff.mpr hvalid))
  refine ⟨(Node.directories top).length, fun turns hturns => ?_⟩
  have hbound : ∀ below ∈ (RemoteTree.at_ top hproper (startNames pattern)).node,
      (Node.directories below).length ≤ turns := by
    intro below hbelow
    obtain ⟨hfound, hkind⟩ := Option.mem_filter_iff.mp hbelow
    exact (directories_length_le hproper hfound (by simpa using hkind)).trans hturns
  obtain ⟨hmeant, -, hrefused⟩ :=
    glob_ended held (hholds _ hnames) hsplit haccepted hjoined hbound
  refine ⟨hrefused, hmeant, fun path hmem => ?_, fun path hmem => ?_⟩
  · exact exists_names_of_meant hrelative hne hdots ((hmeant path).mp hmem)
  have hconfined : ((glob server turns none true (joinRemote directory pattern)).exec
      (.fresh none held)).2.Confined (Near (joinAll (plain directory) (startNames pattern)))
        (joinAll (plain directory) (startNames pattern)) :=
    (confines_glob hsplit fun _ => hlists).exec none held
  obtain hhere | hnear := hconfined.sent _ hmem
  · cases hhere
  · exact .near hnames hnear

/-! ## A directory with magic -/

/-- A server that holds one empty directory, and nothing else. -/
def TreeServer.emptyAt (directory : Bytes) : TreeServer where
  realpath := fun _ _ => .ok [slash]
  opendir := fun _ path =>
    if path = directory then .ok { entries := [], ending := .ok () } else .error absent
  lstat := fun _ path => if path = directory then .ok directoryAttrs else .error absent
  remove := fun _ _ => .ok ()
  rmdir := fun _ _ => .ok ()

/-- The server that holds an empty directory resolves `.` to an absolute path. -/
theorem emptyAt_rooted (directory : Bytes) (sent : List TreeRequest) : ∃ root,
    (TreeServer.emptyAt directory).realpath sent here = .ok root ∧ root.head? = some slash :=
  ⟨[slash], rfl, rfl⟩

/-- The server that holds an empty directory lists no names. -/
theorem emptyAt_lists (directory : Bytes) : (TreeServer.emptyAt directory).ListsComponents := by
  intro sent path listing hlisting entry hentry
  unfold TreeServer.emptyAt at hlisting
  dsimp only at hlisting
  split_ifs at hlisting
  obtain rfl := Except.ok.inj hlisting
  cases hentry

/-- A tree without entries. -/
def emptyTree : Node := .node directoryAttrs []

/-- A tree without entries is proper. -/
theorem emptyTree_proper : emptyTree.All Node.Proper :=
  .mk ⟨by simp [emptyTree, Trie.children], by simp [emptyTree, Trie.children],
    by simp [emptyTree, Trie.children], by simp [emptyTree, Trie.children]⟩
    (by simp [emptyTree, Trie.children])

/-- Nothing is found in a tree without entries. -/
theorem emptyTree_find {names : List Bytes} (h : names ≠ []) : emptyTree.find names = none := by
  obtain ⟨name, names, rfl⟩ := List.exists_cons_of_ne_nil h
  simp [emptyTree, Trie.child, Trie.children]

/-- The server that holds an empty directory holds it. -/
theorem emptyAt_holds (hne : plain directory ≠ []) :
    (TreeServer.emptyAt (plain directory)).HoldsAt directory emptyTree emptyTree_proper := by
  intro names hnames
  have hpath : joinAll (plain directory) names ≠ [] := joinAll_ne_nil hne names
  have hhere : orHere (joinAll (plain directory) names) = joinAll (plain directory) names :=
    if_neg hpath
  by_cases hnil : names = []
  · subst hnil
    refine ⟨emptyAt_rooted _, fun sent attrs hattrs => ?_,
      fun h => absurd h (Option.some_ne_none _), ?_, fun _ _ heq => absurd heq hne,
      fun h => absurd h (Option.some_ne_none _)⟩
    · obtain rfl := Option.some.inj hattrs
      exact if_pos rfl
    · intro top htop below last hlast hdirectory sent
      obtain rfl : emptyTree = top := by simpa [RemoteTree.at_] using htop
      by_cases hbelow : below = []
      · subst hbelow
        obtain rfl := Option.some.inj hlast
        rw [hhere]
        exact ⟨_, if_pos rfl, rfl, rfl⟩
      · rw [emptyTree_find hbelow] at hlast
        cases hlast
  · have hother : joinAll (plain directory) names ≠ plain directory := by
      intro heq
      have hsplit := congrArg splitComponents heq
      rw [splitComponents_joinAll _ fun name hmem => (hnames name hmem).1] at hsplit
      exact hnil (List.append_right_eq_self.mp hsplit)
    have hnone : (RemoteTree.at_ emptyTree emptyTree_proper names).attrs = none ∧
        (RemoteTree.at_ emptyTree emptyTree_proper names).node = none := by
      simp [RemoteTree.at_, emptyTree_find hnil]
    refine ⟨fun sent => ⟨[slash], rfl, rfl⟩, ?_, fun _ sent => ⟨absent, if_neg hother, rfl⟩, ?_,
      fun _ _ heq => absurd heq hpath, fun _ sent => ?_⟩
    · rw [hnone.1]
      intro sent attrs hattrs
      cases hattrs
    · rw [hnone.2]
      intro top htop
      cases htop
    · rw [hhere]
      exact ⟨absent, if_neg hother, rfl⟩

/-- A server that holds an empty directory where a path leads. -/
theorem exists_emptyAt (directory : Bytes) : ∃ server : TreeServer,
    server.HoldsAt directory emptyTree emptyTree_proper ∧ server.ListsComponents := by
  by_cases hne : plain directory = []
  · refine ⟨(TreeServer.holding emptyTree).resolving, ?_, ?_⟩
    · have hholds := (TreeServer.holding_holds emptyTree_proper).resolving emptyTree_proper []
      unfold TreeServer.HoldsAt at hholds ⊢
      rwa [show plain (rootOf []) = plain directory from hne.symm] at hholds
    · intro sent path listing hlisting entry hentry
      simp only [TreeServer.resolving, TreeServer.holding] at hlisting
      by_cases hnames : splitComponents (fromRoot path) = []
      · rw [hnames] at hlisting
        obtain rfl := Except.ok.inj hlisting
        cases hentry
      · rw [emptyTree_find hnames] at hlisting
        cases hlisting
  · exact ⟨.emptyAt (plain directory), emptyAt_holds hne, emptyAt_lists (plain directory)⟩

/-- An empty pattern below a directory without magic yields the directory, if it is one. -/
theorem mem_glob_empty (held : σ) {server : TreeServer} {top : Node} (hproper : top.All Node.Proper)
    (hplain : ∀ name ∈ splitComponents directory, hasMagic name = false)
    (hholds : server.HoldsAt directory top hproper) (hlabel : isDirectoryAttrs top.label = true)
    {turns : ℕ} (hturns : (Node.directories top).length ≤ turns) (path : Bytes) :
    path ∈ ((glob server turns none true (joinRemote directory [])).exec
      (.fresh none held)).2.matched.map GlobMatch.path ↔ path = plain directory := by
  have hrelative : ([] : Bytes).head? ≠ some slash := nofun
  have hparts : splitComponents (joinRemote directory []) = splitComponents directory ++ [] :=
    splitComponents_joinRemote directory []
  have hsplit := splitPattern_front hparts hplain (by simp)
  rw [rootOf_joinRemote directory hrelative] at hsplit
  have hvalid : validatePattern (joinRemote directory []) = .ok () :=
    accepted_iff.mp (Accepted.behind (open_not_mem hplain) accepted_nil)
  have hserves := hholds [] (List.forall_mem_nil _)
  rw [joinAll_nil] at hserves
  have hbound : ∀ below ∈ (RemoteTree.at_ top hproper []).node,
      (Node.directories below).length ≤ turns := by
    intro below hbelow
    obtain rfl : top = below := by simpa [RemoteTree.at_] using hbelow
    exact hturns
  rw [(glob_ended held hserves hsplit (List.forall_mem_nil _) hvalid hbound).1 path]
  apply Iff.intro
  · rintro ⟨names, attrs, rfl, -, -, hcovers⟩
    obtain rfl := covers_nil_iff.mp hcovers
    rfl
  · rintro rfl
    exact ⟨[], top.label, rfl, rfl, fun _ => hlabel, covers_nil_iff.mpr rfl⟩

/-- An empty pattern is not matched below a directory. -/
theorem not_directoryTaken_empty (held : σ)
    (hplain : ∀ name ∈ splitComponents directory, hasMagic name = false) :
    ¬DirectoryTaken held directory [] := by
  intro htaken
  obtain ⟨server, hholds, hlists⟩ := exists_emptyAt directory
  obtain ⟨enough, hbelow⟩ := htaken server emptyTree emptyTree_proper hholds hlists
  have hstays := hbelow (max enough (Node.directories emptyTree).length) (le_max_left _ _)
  obtain ⟨names, hne, hnames, hpath⟩ := hstays.strictly _ ((mem_glob_empty held emptyTree_proper
    hplain hholds (by decide) (le_max_right _ _) (plain directory)).mpr rfl)
  have hsplit := congrArg splitComponents hpath
  rw [splitComponents_joinAll _ fun name hmem => (hnames name hmem).1] at hsplit
  exact hne (List.append_right_eq_self.mp hsplit.symm)

/-- On such a server, matching components at any other path lists that path. -/
theorem opendir_of_matchIn {path : Bytes} (hother : orHere path ≠ directory)
    {head : Bytes} {rest : List Bytes} {turns : ℕ} (hturns : 0 < turns) {directoriesOnly : Bool}
    (visit : Visit σ) (hvisit : visit.Rooted) :
    .opendir (orHere path) ∈ ((matchIn (.emptyAt directory) turns none true directoriesOnly
      (head :: rest) path).exec visit).2.sent := by
  have hanswer : ∀ sent, (TreeServer.emptyAt directory).opendir sent (orHere path) =
      .error absent := fun sent => if_neg hother
  have hlevel : ∀ deeper : Option (Bytes → Traversal σ Unit),
      .opendir (orHere path) ∈ ((matchLevel (.emptyAt directory) true directoriesOnly head deeper
        path).exec visit).2.sent := by
    intro deeper
    simp [matchLevel, scandir, ask, exec_bind, hanswer, absent, Failure.isNoSuchFile]
  unfold matchIn
  by_cases hhead : head = recursive
  · rw [if_pos hhead]
    obtain ⟨between, hrooted, -, -⟩ := gives_requireRooted (emptyAt_rooted directory)
      (orHere path) "walking a tree" visit hvisit
    obtain ⟨turns, rfl⟩ := Nat.exists_eq_succ_of_ne_zero hturns.ne'
    unfold walk
    rw [exec_bind, hrooted]
    simp [walkPending, walkOne, scandir, ask, exec_bind, hanswer, orRaise, raise]
  · rw [if_neg hhead]
    cases rest with
    | nil => exact hlevel none
    | cons next rest => exact hlevel (some _)

/-- The path of some names in front of one with magic is not in the directory. -/
theorem front_not_beneath {name : Bytes} (hparts : splitComponents directory = front ++ name :: back)
    (hmagic : hasMagic name = true) (names : List Bytes) (hnames : ∀ part ∈ names, IsSegment part) :
    orHere (joinAll (rootOf directory) front) ≠ joinAll (plain directory) names := by
  intro heq
  have hsegments : ∀ part ∈ splitComponents directory, IsSegment part := fun part hpart =>
    (segment_of_mem hpart).1
  have hall : splitComponents (joinAll (plain directory) names) =
      front ++ name :: back ++ names := by
    rw [splitComponents_joinAll _ hnames, plain, splitComponents_joinAll _ hsegments,
      splitComponents_rootOf, hparts,
      List.nil_append]
  rw [← heq] at hall
  unfold orHere at hall
  split_ifs at hall with hnil
  · -- a name that spells the default directory has no magic
    have hhere : splitComponents here = [here] := by
      rw [here_eq]
      decide
    rw [hhere] at hall
    have hmem : name ∈ [here] := hall ▸ (by simp)
    rw [List.mem_singleton.mp hmem, here_eq, hasMagic, Glob.magicBytes_eq] at hmagic
    exact absurd hmagic (by decide)
  · rw [splitComponents_joinAll _ fun part hpart =>
      hsegments part (hparts ▸ List.mem_append_left _ hpart), splitComponents_rootOf] at hall
    have hlength := congrArg List.length hall
    simp only [List.nil_append, List.length_append, List.length_cons] at hlength
    omega

/-- A directory with magic is not taken as it is. -/
theorem not_directoryTaken (held : σ) (hrelative : pattern.head? ≠ some slash)
    {name : Bytes} (hmem : name ∈ splitComponents directory) (hmagic : hasMagic name = true) :
    ¬DirectoryTaken held directory pattern := by
  intro htaken
  have hsegments : ∀ part ∈ splitComponents directory, IsSegment part := fun part hpart =>
    (segment_of_mem hpart).1
  have hne : plain directory ≠ [] := by
    intro hnil
    have hsplit := splitComponents_joinAll (rootOf directory) hsegments
    rw [show joinAll (rootOf directory) _ = [] from hnil] at hsplit
    obtain ⟨-, hnone⟩ := List.append_eq_nil_iff.mp hsplit.symm
    rw [hnone] at hmem
    cases hmem
  have hlists := emptyAt_lists (plain directory)
  obtain ⟨enough, hbelow⟩ := htaken (.emptyAt (plain directory)) emptyTree emptyTree_proper
    (emptyAt_holds hne) hlists
  obtain ⟨haccepted, -, -, hinside⟩ := hbelow (max enough 1) (le_max_left _ _)
  obtain ⟨front, back, hparts, hfront, hback⟩ := exists_front (splitComponents directory)
  cases back with
  | nil =>
    rw [List.append_nil] at hparts
    rw [hfront name (hparts ▸ hmem)] at hmagic
    cases hmagic
  | cons first back =>
    have hfirst := hback first rfl
    have hjoined : splitComponents (joinRemote directory pattern) =
        front ++ first :: (back ++ splitComponents pattern) := by
      rw [splitComponents_joinRemote, hparts, List.append_assoc]
      rfl
    have hsplit := splitPattern_front hjoined hfront (by simpa using hfirst)
    rw [rootOf_joinRemote directory hrelative] at hsplit
    cases hvalid : validatePattern (joinRemote directory pattern) with
    | error error =>
      refine haccepted error ?_
      simp [glob, hvalid]
    | ok _ =>
      obtain ⟨visit, hvisit, -, hexec⟩ :=
        glob_exec (emptyAt_rooted (plain directory)) hsplit hvalid (max enough 1)
      have hapart := front_not_beneath hparts hfirst
      rw [hexec] at hinside
      obtain ⟨names, hnames, hpath⟩ := hinside _ (opendir_of_matchIn
        (hapart [] (List.forall_mem_nil _)) (Nat.lt_of_lt_of_le Nat.one_pos (le_max_right enough 1))
        visit hvisit)
      rw [show orHere (plain directory) = plain directory from if_neg hne, or_self] at hpath
      exact hapart names (fun part hpart => (hnames part hpart).1) hpath

end Below

/-- Matching a relative pattern below a directory stays there on every server exactly when the
pattern is not empty and none of the directory's own names has magic. -/
theorem directoryTaken_iff {σ : Type} (held : σ) (directory : Bytes) {pattern : Bytes}
    (hrelative : pattern.head? ≠ some slash)
    (hdots : ∀ component ∈ splitComponents pattern, component ∉ dotNames)
    (hvalid : validatePattern pattern = .ok ())
    (haccepted : ∀ component ∈ (splitPattern pattern true).2.1,
      validatePattern component = .ok ()) :
    DirectoryTaken held directory pattern ↔
      pattern ≠ [] ∧ ∀ name ∈ splitComponents directory, hasMagic name = false := by
  apply Iff.intro
  · intro htaken
    have hplain : ∀ name ∈ splitComponents directory, hasMagic name = false := by
      intro name hmem
      by_contra hmagic
      exact not_directoryTaken held hrelative hmem ((Bool.not_eq_false _).mp hmagic) htaken
    refine ⟨?_, hplain⟩
    rintro rfl
    exact not_directoryTaken_empty held hplain htaken
  · rintro ⟨hne, hplain⟩
    exact directoryTaken_of_plain held hrelative hne hdots hvalid haccepted hplain

/-- A directory with a plain name is taken as it is. -/
theorem directoryTaken_iff_csv :
    DirectoryTaken () "/in".toUTF8.toList "*.csv".toUTF8.toList :=
  (directoryTaken_iff () _ (by decide +kernel) (by decide +kernel) (by decide +kernel)
    (by decide +kernel)).mpr ⟨by decide +kernel, by decide +kernel⟩

/-- Two directories of a file each, the name of one of which matches that of the other. -/
def twoDirectories : Node :=
  .node directoryAttrs
    [("a*b".toUTF8.toList, .node directoryAttrs [("x".toUTF8.toList, .node fileAttrs [])]),
      ("aXb".toUTF8.toList, .node directoryAttrs [("x".toUTF8.toList, .node fileAttrs [])])]

/-- A pattern below the one directory lists the root, and yields a file in the other. -/
theorem matched_outside :
    (((glob (.holding twoDirectories) 5 none true
        (joinRemote "/a*b".toUTF8.toList "x".toUTF8.toList)).exec
          (.fresh none ())).2.matched.map GlobMatch.path =
        ["/a*b/x".toUTF8.toList, "/aXb/x".toUTF8.toList]) ∧
      .opendir [slash] ∈ ((glob (.holding twoDirectories) 5 none true
        (joinRemote "/a*b".toUTF8.toList "x".toUTF8.toList)).exec (.fresh none ())).2.sent ∧
      ¬Beneath "/a*b".toUTF8.toList "/aXb/x".toUTF8.toList := by
  refine ⟨by decide +kernel, by decide +kernel, ?_⟩
  rintro ⟨names, hnames, hpath⟩
  have hhere : orHere "/a*b".toUTF8.toList = "/a*b".toUTF8.toList := by decide +kernel
  rw [hhere, or_self] at hpath
  have hsplit := congrArg splitComponents hpath
  rw [splitComponents_joinAll _ fun name hmem => (hnames name hmem).1] at hsplit
  have hleft : splitComponents "/aXb/x".toUTF8.toList =
      ["aXb".toUTF8.toList, "x".toUTF8.toList] := by decide +kernel
  have hright : splitComponents "/a*b".toUTF8.toList = ["a*b".toUTF8.toList] := by decide +kernel
  rw [hleft, hright] at hsplit
  exact absurd (List.cons.inj hsplit).1 (by decide +kernel)

end GantrySftp
