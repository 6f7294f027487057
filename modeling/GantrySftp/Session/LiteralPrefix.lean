import GantrySftp.Session.GlobLocality
import GantrySftp.Session.MatchAgrees

/-!
# Components that are looked up

A component without magic is looked up where only such components stand in front of it, and is
matched against a listing where a wildcard does. Looked up, it names the entry of the same bytes;
matched, the entry whose name it spells, so that a backslash in front of a byte tells the two apart.
-/

namespace GantrySftp

open Library Program Wildcards Glob

/-- A component without brackets is accepted. -/
theorem accepted_of_bytes {component : Bytes} (h : openClass ∉ component) :
    Accepted component := by
  induction component using unescaped.induct with
  | case1 => exact accepted_nil
  | case2 value =>
    exact accepted_nil.cons (fun heq => h (heq ▸ List.mem_cons_self)) fun _ => rfl
  | case3 next rest ih => exact (ih (by simp_all)).cons_escape next
  | case4 value next rest hvalue ih =>
    exact (ih fun hmem => h (List.mem_cons_of_mem _ hmem)).cons
      (fun heq => h (heq ▸ List.mem_cons_self)) fun heq => absurd heq hvalue

/-- What crosses levels has magic. -/
theorem hasMagic_or_recursive (component : Bytes) :
    (hasMagic component || decide (component = recursive)) = hasMagic component := by
  by_cases heq : component = recursive
  · rw [heq, hasMagic_recursive, Bool.true_or]
  · simp [heq]

/-- A pattern starts from the path of the components in front of the first with magic. -/
theorem splitPattern_front {pattern : Bytes} {front back : List Bytes}
    (hparts : splitComponents pattern = front ++ back)
    (hfront : ∀ component ∈ front, hasMagic component = false)
    (hback : ∀ next ∈ back.head?, hasMagic next = true) :
    splitPattern pattern true =
      (joinAll (rootOf pattern) front, back,
        decide (pattern.getLast? = some slash ∧ pattern ≠ [slash])) := by
  have hsegments : ∀ component ∈ front, IsSegment component := fun component hmem =>
    (segment_of_mem (hparts ▸ List.mem_append_left _ hmem)).1
  have hindex : ((front ++ back).findIdx? hasMagic).getD (front ++ back).length =
      front.length := by
    rw [List.findIdx?_append, List.findIdx?_eq_none_iff.mpr hfront]
    cases back with
    | nil => simp
    | cons next back =>
      rw [List.findIdx?_cons, if_pos (hback next rfl)]
      simp
  unfold splitPattern
  simp only [hasMagic_or_recursive, hparts, hindex, joinAll_rootOf pattern hsegments]
  simp

/-! ## Servers that hold a tree at a directory -/

/-- A path without separators that separate nothing. -/
def plain (path : Bytes) : Bytes := joinAll (rootOf path) (splitComponents path)

/-- A server that holds a tree at a directory: whatever names a pattern starts from there, it
answers from the tree. -/
def TreeServer.HoldsAt (server : TreeServer) (directory : Bytes) (top : Node)
    (hproper : top.All Node.Proper) : Prop :=
  ∀ names, (∀ name ∈ names, IsName name) →
    server.Serves (joinAll (plain directory) names) (.at_ top hproper names)

/-- Where a path starts has no separators too many. -/
@[simp] theorem plain_rootOf (path : Bytes) : plain (rootOf path) = rootOf path := by
  have hagain : rootOf (rootOf path) = rootOf path := by
    unfold rootOf
    split_ifs <;> simp_all
  rw [plain, splitComponents_rootOf, hagain, joinAll_nil]

/-- What a server holds a tree at, where a path starts, it serves below any names. -/
theorem TreeServer.HoldsAt.serves {server : TreeServer} {path : Bytes} {top : Node}
    {hproper : top.All Node.Proper} (h : server.HoldsAt (rootOf path) top hproper)
    {names : List Bytes} (hnames : ∀ name ∈ names, IsName name) :
    server.Serves (joinAll (rootOf path) names) (.at_ top hproper names) := by
  have hserves := h names hnames
  rwa [plain_rootOf] at hserves

/-- The path below the root that a path spells, a relative one from the root. -/
def fromRoot (path : Bytes) : Bytes :=
  joinAll [slash] ((splitComponents path).filter (· ≠ here))

/-- A server that answers for a path what another does for the path that it spells below the
root, so that the root is the default directory. -/
def TreeServer.resolving (server : TreeServer) : TreeServer where
  realpath := server.realpath
  opendir := fun sent path => server.opendir sent (fromRoot path)
  lstat := fun sent path => server.lstat sent (fromRoot path)
  remove := server.remove
  rmdir := server.rmdir

/-- Names are below the root however that is spelled. -/
theorem fromRoot_joinAll {root : Bytes} (hroot : ∀ part ∈ splitComponents root, part = here)
    {names : List Bytes} (hnames : ∀ name ∈ names, IsName name) :
    fromRoot (joinAll root names) = joinAll [slash] names := by
  have hhere : (splitComponents root).filter (· ≠ here) = [] :=
    List.filter_eq_nil_iff.mpr fun part hmem => by simp [hroot part hmem]
  have hall : names.filter (· ≠ here) = names := by
    refine List.filter_eq_self.mpr fun name hmem => decide_eq_true ?_
    rintro rfl
    exact (hnames _ hmem).2 List.mem_cons_self
  rw [fromRoot, splitComponents_joinAll _ fun name hmem => (hnames name hmem).1,
    List.filter_append, hhere, hall, List.nil_append]

/-- A server that resolves paths holds its tree where any pattern starts. -/
theorem TreeServer.Holds.resolving {server : TreeServer} {top : Node} (h : server.Holds top)
    (hproper : top.All Node.Proper) (path : Bytes) :
    server.resolving.HoldsAt (rootOf path) top hproper := by
  intro names hnames
  rw [plain_rootOf]
  have hroot : ∀ part ∈ splitComponents (rootOf path), part = here := by
    rw [splitComponents_rootOf]
    exact List.forall_mem_nil _
  have hbase := fromRoot_joinAll hroot hnames
  have hserves := h.serves hproper hnames
  -- whatever is asked for below the base, the path spelled is below the same names
  have hbelow : ∀ {below : List Bytes}, (∀ name ∈ below, IsName name) →
      fromRoot (joinAll (orHere (joinAll (rootOf path) names)) below) =
        joinAll [slash] (names ++ below) := by
    intro below hnext
    have hboth : ∀ name ∈ names ++ below, IsName name := by
      intro name hmem
      exact (List.mem_append.mp hmem).elim (hnames name) (hnext name)
    by_cases hnil : joinAll (rootOf path) names = []
    · have hempty : names = [] := by
        have hsplit := splitComponents_joinAll (rootOf path) fun name hmem => (hnames name hmem).1
        rw [hnil, splitComponents_rootOf] at hsplit
        exact hsplit.symm
      rw [orHere, if_pos hnil, hempty, List.nil_append]
      exact fromRoot_joinAll (by rw [here_eq]; decide) hnext
    · rw [orHere, if_neg hnil, ← joinAll_append]
      exact fromRoot_joinAll hroot hboth
  have hhere : fromRoot (orHere (joinAll (rootOf path) names)) = joinAll [slash] names := by
    simpa using hbelow (List.forall_mem_nil _)
  have hslash : orHere (joinAll [slash] names) = joinAll [slash] names :=
    if_neg (joinAll_ne_nil (List.cons_ne_nil _ _) names)
  refine ⟨hserves.rooted, fun sent attrs hattrs => ?_, fun hattrs sent => ?_,
    fun below hmem => ?_, ?_, fun hnode sent => ?_⟩
  · exact (congrArg (server.lstat sent) hbase).trans (hserves.lstat sent attrs hattrs)
  · obtain ⟨failure, hfailure, hmissing⟩ := hserves.missing hattrs sent
    exact ⟨failure, (congrArg (server.lstat sent) hbase).trans hfailure, hmissing⟩
  · intro back last hlast hdirectory sent
    obtain ⟨listing, hlisting, hended⟩ := hserves.lists below hmem back last hlast hdirectory sent
    rw [hslash, ← joinAll_append] at hlisting
    have hback := components_of_find ((RemoteTree.at_ top hproper names).proper below hmem) hlast
    exact ⟨listing, (congrArg (server.opendir sent)
      (hbelow fun name hname => (hback name hname).isName)).trans hlisting, hended⟩
  · intro below hmem hnil back last hlast _ _ sent
    have hback := components_of_find ((RemoteTree.at_ top hproper names).proper below hmem) hlast
    have hisname : ∀ name ∈ back, IsName name := fun name hname => (hback name hname).isName
    refine congrArg (server.opendir sent) ?_
    rw [fromRoot_joinAll (List.forall_mem_nil _) hisname,
      fromRoot_joinAll (by rw [here_eq]; decide) hisname]
  · obtain ⟨failure, hfailure, hmissing⟩ := hserves.closed hnode sent
    rw [hslash] at hfailure
    exact ⟨failure, (congrArg (server.opendir sent) hhere).trans hfailure, hmissing⟩

section Looked

variable {σ : Type} {server : TreeServer} {top node : Node} {names rest : List Bytes}
  {root component : Bytes} {directoriesOnly : Bool}

/-- Whatever is meant below some names is in the tree. -/
theorem exists_of_meant (hproper : top.All Node.Proper) {front back : List Bytes} {path : Bytes}
    (h : Meant (joinAll root front) (.at_ top hproper front) back directoriesOnly path) :
    ∃ names below, top.find names = some below ∧ path = joinAll root names := by
  obtain ⟨names', attrs, rfl, hholds, -, -⟩ := h
  obtain ⟨below, hfind, -⟩ := find_of_holds_at hproper hholds
  exact ⟨front ++ names', below, hfind, (joinAll_append _ _ _).symm⟩

/-- A component that crosses no level covers a first name that it fits. -/
theorem covers_expand_cons (hone : isRecursive component = false) {names : List Bytes} :
    Covers isRecursive fits (expand (component :: rest)) names ↔
      ∃ name below, names = name :: below ∧ fits component name = true ∧
        Covers isRecursive fits (expand rest) below := by
  have hexpand : expand (component :: rest) = [component] ++ expand rest := by
    cases rest with
    | nil => simp [expand, hone]
    | cons next rest => exact expand_cons component (List.cons_ne_nil _ _)
  rw [hexpand, covers_append]
  simp only [covers_one_iff hone]
  apply Iff.intro
  · rintro ⟨_, below, rfl, ⟨name, rfl, hfit⟩, hbelow⟩
    exact ⟨name, below, rfl, hfit, hbelow⟩
  · rintro ⟨name, below, rfl, hfit, hbelow⟩
    exact ⟨[name], below, rfl, ⟨name, rfl, hfit⟩, hbelow⟩

/-- Looked up, a component means what it means matched, where it fits its own name only. -/
theorem meant_component_iff (hproper : top.All Node.Proper)
    (hnames : ∀ name ∈ names, IsSegment name) (hcomponent : IsSegment component)
    (hone : isRecursive component = false)
    (hself : ∀ name, IsComponent name → (fits component name = true ↔ name = component))
    (path : Bytes) :
    Meant (joinAll root (names ++ [component])) (.at_ top hproper (names ++ [component])) rest
        directoriesOnly path ↔
      Meant (joinAll root names) (.at_ top hproper names) (component :: rest) directoriesOnly
        path := by
  have hsegments : ∀ name ∈ names ++ [component], IsSegment name := by
    simp only [List.mem_append, List.mem_singleton]
    rintro name (hmem | rfl)
    · exact hnames name hmem
    · exact hcomponent
  have hexisting : ∀ {found : List Bytes} {below : Node}, top.find found = some below →
      path = joinAll root found →
      (Meant (joinAll root (names ++ [component])) (.at_ top hproper (names ++ [component]))
          rest directoriesOnly path ↔
        Meant (joinAll root names) (.at_ top hproper names) (component :: rest)
          directoriesOnly path) := by
    rintro found below hfind rfl
    rw [meant_at_iff hproper hsegments hfind, meant_at_iff hproper hnames hfind]
    apply and_congr_right
    intro _
    simp only [covers_expand_cons hone]
    apply Iff.intro
    · rintro ⟨back, rfl, hcovers⟩
      have hmem : component ∈ names ++ [component] ++ back := by simp
      exact ⟨component :: back, by simp, component, back, rfl,
        (hself _ (components_of_find hproper hfind _ hmem)).mpr rfl, hcovers⟩
    · rintro ⟨_, rfl, name, back, rfl, hfit, hcovers⟩
      have hmem : name ∈ names ++ name :: back := by simp
      obtain rfl := (hself _ (components_of_find hproper hfind _ hmem)).mp hfit
      exact ⟨back, by simp, hcovers⟩
  apply Iff.intro
  · intro h
    obtain ⟨found, below, hfind, hpath⟩ := exists_of_meant hproper h
    exact (hexisting hfind hpath).mp h
  · intro h
    obtain ⟨found, below, hfind, hpath⟩ := exists_of_meant hproper h
    exact (hexisting hfind hpath).mpr h

/-- Matching components from a directory that is there yields what they mean. -/
theorem mem_matchIn (held : σ) (hproper : top.All Node.Proper)
    (hholds : ∀ names, (∀ name ∈ names, IsName name) →
      server.Serves (joinAll root names) (.at_ top hproper names))
    (hfind : top.find names = some node)
    (hdirectory : names = [] ∨ isDirectoryAttrs node.label = true) {components : List Bytes}
    (hne : components ≠ []) (haccepted : ∀ part ∈ components, validatePattern part = .ok ())
    {turns : ℕ} (hturns : (Node.directories top).length ≤ turns) (path : Bytes) :
    path ∈ ((matchIn server turns none true directoriesOnly components (joinAll root names)).exec
        (.fresh none held)).2.matched.map GlobMatch.path ↔
      Meant (joinAll root names) (.at_ top hproper names) components directoriesOnly path := by
  have hnode : (RemoteTree.at_ top hproper names).node = some node := by
    refine Option.mem_filter_iff.mpr ⟨hfind, ?_⟩
    simpa using hdirectory
  have hat : (RemoteTree.at_ top hproper names).DirectoryAt [] node :=
    ⟨⟨node, hnode, rfl⟩, Or.inl rfl⟩
  have hbound : ∀ below ∈ (RemoteTree.at_ top hproper names).node,
      (Node.directories below).length ≤ turns := by
    intro below hbelow
    obtain rfl := Option.some.inj (hnode.symm.trans hbelow)
    exact (directories_length_le hproper hfind hdirectory).trans hturns
  have hserves := hholds names fun name hmem =>
    (components_of_find hproper hfind name hmem).isName
  obtain ⟨visit, hended, -, hfound⟩ :=
    gives_matchIn hserves hbound haccepted hat (.fresh none held) (by simp [Visit.Rooted, Visit.fresh])
  rw [joinAll_nil] at hended
  rw [hended, hfound]
  exact mem_found_iff hnode hne path

/-- Matching a pattern yields what its components mean from the path of the first without magic. -/
theorem mem_glob_front (held : σ) (hproper : top.All Node.Proper) {pattern : Bytes}
    (hholds : server.HoldsAt (rootOf pattern) top hproper) {front back : List Bytes}
    (hparts : splitComponents pattern = front ++ back) (hnames : ∀ name ∈ front, IsName name)
    (hfront : ∀ name ∈ front, hasMagic name = false)
    (hback : ∀ next ∈ back.head?, hasMagic next = true) (hvalid : validatePattern pattern = .ok ())
    (haccepted : ∀ part ∈ back, validatePattern part = .ok ()) {turns : ℕ}
    (hturns : (Node.directories top).length ≤ turns) (path : Bytes) :
    path ∈ ((glob server turns none true pattern).exec
        (.fresh none held)).2.matched.map GlobMatch.path ↔
      Meant (joinAll (rootOf pattern) front) (.at_ top hproper front) back
        (decide (pattern.getLast? = some slash ∧ pattern ≠ [slash])) path := by
  have hsplit := splitPattern_front hparts hfront hback
  have hserves := hholds.serves hnames
  have hbound : ∀ below ∈ (RemoteTree.at_ top hproper front).node,
      (Node.directories below).length ≤ turns := by
    intro below hbelow
    obtain ⟨hfound, hkind⟩ := Option.mem_filter_iff.mp hbelow
    exact (directories_length_le hproper hfound (by simpa using hkind)).trans hturns
  exact (glob_ended held hserves hsplit haccepted hvalid hbound).1 path

end Looked

/-- A tree of one file. -/
def oneFile (name : Bytes) : Node := .node directoryAttrs [(name, .node fileAttrs [])]

/-- A tree of one file is proper where its name can be that of an entry. -/
theorem oneFile_proper {name : Bytes} (h : IsComponent name) : (oneFile name).All Node.Proper := by
  have hfile : (Trie.node fileAttrs [] : Node).All Node.Proper :=
    .mk ⟨by simp [Trie.children], by simp [Trie.children], by simp [Trie.children],
      by simp [Trie.children]⟩ (by simp [Trie.children])
  refine .mk ⟨?_, ?_, ?_, ?_⟩ ?_ <;> simp [oneFile, Trie.children, Trie.label]
  · exact h
  · decide
  · exact hfile

/-- In a tree of one file, the file is found. -/
theorem oneFile_find (name : Bytes) :
    (oneFile name).find [name] = some (.node fileAttrs []) := by
  simp [oneFile, Trie.child, Trie.children]

section OneFile

variable {σ : Type} {component name : Bytes}

/-- Where an absolute pattern starts, or a relative one. -/
def startOf (absolute : Bool) : Bytes := rootOf (if absolute then [slash] else [])

/-- A pattern of one component starts where it is told to. -/
theorem rootOf_startOf (absolute : Bool) (h : IsSegment component) :
    rootOf (startOf absolute ++ component) = startOf absolute := by
  obtain ⟨byte, rest, rfl⟩ := List.exists_cons_of_ne_nil h.1
  have hbyte : byte ≠ slash := fun heq => h.2 (heq ▸ List.mem_cons_self)
  cases absolute <;> simp [startOf, rootOf, hbyte]

/-- A pattern of one component. -/
theorem splitComponents_startOf (absolute : Bool) (h : IsSegment component) :
    splitComponents (startOf absolute ++ component) = [component] := by
  cases absolute with
  | false => exact splitComponents_segment h
  | true =>
    have hsplit := splitComponents_slash [] component
    rw [splitComponents_segment h] at hsplit
    exact hsplit

/-- A pattern of one component asks for no directories. -/
theorem startOf_trailing (absolute : Bool) (h : IsSegment component) :
    decide ((startOf absolute ++ component).getLast? = some slash ∧
      startOf absolute ++ component ≠ [slash]) = false := by
  apply decide_eq_false
  rintro ⟨heq, -⟩
  rw [List.getLast?_append_of_ne_nil _ h.1] at heq
  exact h.2 (List.mem_of_getLast? heq)

variable (held : σ) (absolute : Bool) (hcomponent : IsName component)
  (hmagic : hasMagic component = false) (hname : IsComponent name) {turns : ℕ}
  (hturns : (Node.directories (oneFile name)).length ≤ turns)
include hcomponent hmagic hname hturns

/-- Looked up in a tree of one file, a component names the file of its own name. -/
theorem mem_glob_oneFile (hvalid : validatePattern (startOf absolute ++ component) = .ok ()) :
    joinAll (startOf absolute) [name] ∈
        ((glob (TreeServer.holding (oneFile name)).resolving turns none true
          (startOf absolute ++ component)).exec (.fresh none held)).2.matched.map GlobMatch.path ↔
      name = component := by
  have hproper := oneFile_proper hname
  have hroot := rootOf_startOf absolute hcomponent.1
  have hparts : splitComponents (startOf absolute ++ component) = [component] ++ [] :=
    splitComponents_startOf absolute hcomponent.1
  rw [mem_glob_front held hproper ((TreeServer.holding_holds hproper).resolving hproper _) hparts
      (by simpa using hcomponent) (by simpa using hmagic) (by simp) hvalid (by simp) hturns,
    startOf_trailing absolute hcomponent.1, hroot,
    meant_at_iff hproper (by simpa using hcomponent.1) (oneFile_find name)]
  simp only [Bool.false_eq_true, false_implies, true_and, covers_nil_iff]
  apply Iff.intro
  · rintro ⟨rest, heq, rfl⟩
    exact (List.cons.inj heq).1
  · rintro rfl
    exact ⟨[], rfl, rfl⟩

omit hcomponent in
/-- Matched in a tree of one file, a component names the file that it fits. -/
theorem mem_matchIn_oneFile (hvalid : validatePattern component = .ok ()) :
    joinAll (startOf absolute) [name] ∈
        ((matchIn (TreeServer.holding (oneFile name)).resolving turns none true false [component]
          (joinAll (startOf absolute) [])).exec
            (.fresh none held)).2.matched.map GlobMatch.path ↔
      fits component name = true := by
  have hproper := oneFile_proper hname
  have hone : isRecursive component = false := isRecursive_of_literal hmagic
  have hholds := (TreeServer.holding_holds hproper).resolving hproper
    (if absolute then [slash] else [])
  have hserves : ∀ names, (∀ name ∈ names, IsName name) →
      (TreeServer.holding (oneFile name)).resolving.Serves (joinAll (startOf absolute) names)
        (.at_ (oneFile name) hproper names) := fun names hnames => hholds.serves hnames
  rw [mem_matchIn held hproper hserves rfl (Or.inl rfl) (List.cons_ne_nil _ _)
      (by simpa using hvalid) hturns,
    meant_at_iff hproper (List.forall_mem_nil _) (oneFile_find name)]
  simp only [Bool.false_eq_true, false_implies, true_and, covers_expand_cons hone, covers_nil_iff]
  apply Iff.intro
  · rintro ⟨_, heq, other, _, rfl, hfit, rfl⟩
    obtain rfl := (List.cons.inj heq).1
    exact hfit
  · intro hfit
    exact ⟨[name], rfl, name, [], rfl, hfit, rfl⟩

end OneFile

/-- On every tree, a component of an absolute pattern, or of a relative one, that is looked up, at
the end of the pattern or in front of a component with magic, finds what it would find matched
against the listing of its directory. -/
def FoundAsMatched {σ : Type} (held : σ) (absolute : Bool) (component : Bytes) : Prop :=
  ∀ (server : TreeServer) (top node : Node) (hproper : top.All Node.Proper) (pattern : Bytes)
    (names rest : List Bytes),
    (pattern.head? = some slash ↔ absolute = true) →
    server.HoldsAt (rootOf pattern) top hproper →
    top.find names = some node → (names = [] ∨ isDirectoryAttrs node.label = true) →
    (∀ name ∈ names, hasMagic name = false) →
    splitComponents pattern = names ++ component :: rest →
    (∀ next ∈ rest.head?, hasMagic next = true) → validatePattern pattern = .ok () →
    (∀ part ∈ rest, validatePattern part = .ok ()) →
    ∃ enough, ∀ turns, enough ≤ turns → ∀ path,
      (path ∈ ((glob server turns none true pattern).exec
          (.fresh none held)).2.matched.map GlobMatch.path ↔
        path ∈ ((matchIn server turns none true (splitPattern pattern true).2.2
          (component :: rest) (joinAll (rootOf pattern) names)).exec
            (.fresh none held)).2.matched.map GlobMatch.path)

/-- A component is found as it is matched, in absolute and in relative patterns, exactly when no
byte stands behind a backslash in it, or it holds a byte that no entry has in its name. -/
theorem foundAsMatched_iff {σ : Type} (held : σ) (absolute : Bool) {component : Bytes}
    (hname : IsName component) (hmagic : hasMagic component = false) :
    FoundAsMatched held absolute component ↔
      escape ∉ component.dropLast ∨ 0 ∈ component := by
  have hbytes := bytes_of_hasMagic hmagic
  have hone : isRecursive component = false := isRecursive_of_literal hmagic
  have haccepted : validatePattern component = .ok () :=
    accepted_iff.mp (accepted_of_bytes fun hmem => (hbytes _ hmem).2.2 rfl)
  rw [← fits_self_iff hmagic hname]
  apply Iff.intro
  · -- a tree of one file shows the difference
    intro hsame name hcomponent
    have hproper := oneFile_proper hcomponent
    have hroot := rootOf_startOf absolute hname.1
    have hparts := splitComponents_startOf absolute hname.1
    have hvalid : validatePattern (startOf absolute ++ component) = .ok () := by
      cases absolute with
      | false => exact haccepted
      | true => exact accepted_iff.mp (Accepted.cons (accepted_iff.mpr haccepted) (by decide) nofun)
    have hstart : (startOf absolute ++ component).head? = some slash ↔ absolute = true := by
      obtain ⟨byte, rest, rfl⟩ := List.exists_cons_of_ne_nil hname.1.1
      have hbyte : byte ≠ slash := fun heq => hname.1.2 (heq ▸ List.mem_cons_self)
      cases absolute <;> simp [startOf, rootOf, hbyte]
    obtain ⟨enough, hagree⟩ := hsame (TreeServer.holding (oneFile name)).resolving (oneFile name)
      (oneFile name) hproper (startOf absolute ++ component) [] [] hstart
      ((TreeServer.holding_holds hproper).resolving hproper _) rfl (Or.inl rfl) (by simp) hparts
      (by simp) hvalid (by simp)
    have hpath := hagree (max enough (Node.directories (oneFile name)).length) (le_max_left _ _)
      (joinAll (startOf absolute) [name])
    have hsplit := splitPattern_front (show _ = [component] ++ [] from hparts)
      (by simpa using hmagic) (by simp)
    rw [hsplit, startOf_trailing absolute hname.1, hroot,
      mem_glob_oneFile held absolute hname hmagic hcomponent (le_max_right _ _) hvalid,
      mem_matchIn_oneFile held absolute hmagic hcomponent (le_max_right _ _) haccepted] at hpath
    exact hpath.symm
  · intro hself server top node hproper pattern names rest _ hholds hfind hdirectory hnames hparts
      hrest hvalid hvalidrest
    refine ⟨(Node.directories top).length, fun turns hturns path => ?_⟩
    have hcomponents := components_of_find hproper hfind
    have hfront : ∀ name ∈ names ++ [component], IsName name ∧ hasMagic name = false := by
      simp only [List.mem_append, List.mem_singleton]
      rintro name (hmem | rfl)
      · exact ⟨(hcomponents name hmem).isName, hnames name hmem⟩
      · exact ⟨hname, hmagic⟩
    have hparts' : splitComponents pattern = (names ++ [component]) ++ rest := by
      rw [hparts, List.append_assoc]
      rfl
    have hsplit := splitPattern_front hparts' (fun name hmem => (hfront name hmem).2) hrest
    rw [mem_glob_front held hproper hholds hparts' (fun name hmem => (hfront name hmem).1)
      (fun name hmem => (hfront name hmem).2) hrest hvalid hvalidrest hturns,
      hsplit, mem_matchIn held hproper (fun _ => hholds.serves) hfind hdirectory (List.cons_ne_nil _ _)
        (List.forall_mem_cons.mpr ⟨haccepted, hvalidrest⟩) hturns]
    exact meant_component_iff hproper (segments_of_components hcomponents) hname.1 hone hself path

/-- A file name without backslashes is found as it is matched, in absolute and in relative
patterns. -/
theorem foundAsMatched_iff_file :
    FoundAsMatched () true "report.csv".toUTF8.toList ∧
      FoundAsMatched () false "report.csv".toUTF8.toList := by
  have hiff := fun absolute => foundAsMatched_iff () absolute
    (⟨⟨by decide +kernel, by decide +kernel⟩, by decide +kernel⟩ :
      IsName "report.csv".toUTF8.toList) (by decide +kernel)
  exact ⟨(hiff true).mpr (Or.inl (by decide +kernel)), (hiff false).mpr (Or.inl (by decide +kernel))⟩

/-- A backslash between two letters is looked up as it stands, and matched as the letters. -/
theorem escaped_found_otherwise :
    (TreeServer.holding (oneFile [0x61, escape, 0x62])).Holds (oneFile [0x61, escape, 0x62]) ∧
      hasMagic [0x61, escape, 0x62] = false ∧
      matchComponent true [0x61, escape, 0x62] [0x61, escape, 0x62] = .ok false ∧
      ((glob (.holding (oneFile [0x61, escape, 0x62])) 2 none true
          [slash, 0x61, escape, 0x62]).exec (.fresh none ())).2.matched.map GlobMatch.path =
        [[slash, 0x61, escape, 0x62]] ∧
      ((matchIn (.holding (oneFile [0x61, escape, 0x62])) 2 none true false
          [[0x61, escape, 0x62]] [slash]).exec (.fresh none ())).2.matched = [] :=
  ⟨TreeServer.holding_holds (oneFile_proper (by decide +kernel)), by decide +kernel,
    by decide +kernel, by decide +kernel, by decide +kernel⟩

end GantrySftp
