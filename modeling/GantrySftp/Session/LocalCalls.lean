import GantrySftp.Session.LocalPaths

/-!
# What local system calls do

A call that made or opened something did so at the place its path resolves to, and no call makes
a link, so that every path resolves to the same place from then on. A local path that was checked
is the destination with safe names behind it, and resolves to inside of the destination.
-/

namespace GantrySftp

open Library

namespace Platform

variable {platform : Platform} {disk disk' : LocalDisk} {path : LocalPath} {place : List Bytes}
  {follow : Bool}

/-! ## Places -/

/-- A located path. -/
theorem locate_eq_ok : platform.locate disk follow path = .ok place ↔
    disk.locateFrom follow platform.linkLimit [] path = .ok place := by
  unfold locate
  cases disk.locateFrom follow platform.linkLimit [] path with
  | ok found =>
    constructor
    · intro h
      cases h
      rfl
    · intro h
      cases h
      rfl
  | error error =>
    constructor
    · intro h
      cases h
    · intro h
      cases h

/-- A path is located where it was. -/
theorem locate_extends (h : disk.Extends disk')
    (hlocate : platform.locate disk follow path = .ok place) :
    platform.locate disk' follow path = .ok place :=
  locate_eq_ok.mpr (h.locateFrom (locate_eq_ok.mp hlocate))

/-- A path resolves to the same place. -/
theorem resolvesTo_extends (h : disk.Extends disk') (path : LocalPath) :
    platform.resolvesTo disk' path = platform.resolvesTo disk path := h.resolveFrom _ _ _

/-- A path resolves to the same path. -/
theorem resolve_extends (h : disk.Extends disk') (path : LocalPath) :
    platform.resolve disk' path = platform.resolve disk path := by
  unfold resolve
  rw [resolvesTo_extends h]

/-- A path that is located at something other than a link resolves to its place. -/
theorem resolvesTo_of_locate (hlocate : platform.locate disk follow path = .ok place)
    (hlink : (disk.kind place).any NodeKind.isLink = false) :
    platform.resolvesTo disk path = some place :=
  LinkedTree.resolveFrom_of_locateFrom (locate_eq_ok.mp hlocate) hlink

/-- A path that resolves within the links that are followed resolves to names alone. -/
theorem resolve_eq (h : platform.resolvesTo disk path = some place) :
    platform.resolve disk path = place.map .down := by
  unfold resolve
  rw [h]

/-- The node that a path names. -/
theorem identity_eq_ok {node : ℕ} : platform.identity disk path = .ok node ↔
    ∃ place, platform.locate disk false path = .ok place ∧ disk.node place = some node := by
  unfold identity
  cases hlocate : platform.locate disk false path with
  | error error =>
    constructor
    · intro h
      cases h
    · rintro ⟨_, h, -⟩
      cases h
  | ok found =>
    simp only [bind, Except.bind]
    cases hnode : disk.node found with
    | none =>
      constructor
      · intro h
        cases h
      · rintro ⟨_, h, hfound⟩
        cases h
        rw [hnode] at hfound
        cases hfound
    | some other =>
      constructor
      · intro h
        cases h
        exact ⟨found, rfl, hnode⟩
      · rintro ⟨_, h, hfound⟩
        cases h
        rw [hnode] at hfound
        cases hfound
        rfl

/-- A path names the node that it named. -/
theorem identity_extends {node : ℕ} (h : disk.Extends disk')
    (hnode : platform.identity disk path = .ok node) : platform.identity disk' path = .ok node := by
  obtain ⟨place, hlocate, hplace⟩ := identity_eq_ok.mp hnode
  exact identity_eq_ok.mpr ⟨place, locate_extends h hlocate, h.node place node hplace⟩

/-- A node that a path names is in use. -/
theorem identity_lt {node : ℕ} (h : platform.identity disk path = .ok node) : node < disk.next := by
  obtain ⟨place, -, hplace⟩ := identity_eq_ok.mp h
  exact disk.node_lt hplace

/-! ## Calls -/

/-- What comes of opening a file for writing. -/
structure Opened (platform : Platform) (disk : LocalDisk) (follow : Bool) (path : LocalPath)
    (place : List Bytes) (node : ℕ) (disk' : LocalDisk) : Prop where
  kept : disk.Extends disk'
  located : platform.locate disk follow path = .ok place
  resolved : platform.resolvesTo disk path = some place
  named : disk'.node place = some node
  file : disk'.kinds node = .file
  either : disk.node place = some node ∧ disk' = disk ∨
    disk.node place = none ∧ node = disk.next ∧ disk' = disk.add place .file

/-- Opening a file for writing opens what is there, or makes it where nothing is. -/
theorem opened_of_openCall {node : ℕ}
    (h : platform.openCall disk follow path = .ok (place, node, disk')) :
    Opened platform disk follow path place node disk' := by
  unfold openCall at h
  cases hlocate : platform.locate disk follow path with
  | error error =>
    rw [hlocate] at h
    cases h
  | ok found =>
    rw [hlocate] at h
    cases hrefusal : platform.checkRefusal found with
    | error error =>
      simp only [hrefusal, bind, Except.bind] at h
      cases h
    | ok _ =>
      simp only [hrefusal, bind, Except.bind] at h
      cases hnode : disk.node found with
      | none =>
        simp only [hnode] at h
        have hkind : disk.kind found = none := by
          rw [LinkedTree.kind, hnode]
          rfl
        cases h
        refine ⟨LinkedTree.extends_add hnode rfl, hlocate, ?_, LinkedTree.node_add .., ?_,
          Or.inr ⟨hnode, rfl, rfl⟩⟩
        · exact resolvesTo_of_locate hlocate (by rw [hkind]; rfl)
        · simp [LinkedTree.add]
      | some other =>
        simp only [hnode] at h
        cases hkind : disk.kinds other with
        | directory =>
          rw [hkind] at h
          cases h
        | link target =>
          rw [hkind] at h
          cases h
        | file =>
          rw [hkind] at h
          cases h
          refine ⟨.refl disk, hlocate, ?_, hnode, hkind, Or.inl ⟨hnode, rfl⟩⟩
          refine resolvesTo_of_locate hlocate ?_
          rw [LinkedTree.kind, hnode, Option.map_some, hkind]
          rfl

/-- The path of an opened file names its node. -/
theorem Opened.identity {node : ℕ} (h : Opened platform disk false path place node disk') :
    platform.identity disk' path = .ok node :=
  identity_eq_ok.mpr ⟨place, locate_extends h.kept h.located, h.named⟩

/-- A file that a path names is where the path leads, with links at the end followed or not. -/
theorem node_of_locate {node : ℕ} (hlocate : platform.locate disk follow path = .ok place)
    (hnode : platform.identity disk path = .ok node) (hfile : disk.kinds node = .file) :
    disk.node place = some node := by
  obtain ⟨found, hfound, hnamed⟩ := identity_eq_ok.mp hnode
  have hlink : (disk.kind found).any NodeKind.isLink = false := by
    rw [LinkedTree.kind, hnamed, Option.map_some, hfile]
    rfl
  have hplace : place = found := by
    cases follow with
    | false => exact Except.ok.inj (hlocate.symm.trans hfound)
    | true =>
      have hfollow := locate_eq_ok.mpr
        (LinkedTree.locateFrom_follow (locate_eq_ok.mp hfound) hlink)
      exact Except.ok.inj (hlocate.symm.trans hfollow)
  rwa [hplace]

/-- A file that a path names is opened as itself, with links at the end followed or not. -/
theorem Opened.same {node other : ℕ} (h : Opened platform disk follow path place node disk')
    (hnode : platform.identity disk path = .ok other) (hfile : disk.kinds other = .file) :
    node = other ∧ disk' = disk := by
  have hfound := node_of_locate h.located hnode hfile
  rcases h.either with ⟨hsome, hsame⟩ | ⟨hnone, -, -⟩
  · rw [hfound] at hsome
    cases hsome
    exact ⟨rfl, hsame⟩
  · rw [hfound] at hnone
    cases hnone

/-- What comes of making a directory. -/
structure Made (platform : Platform) (disk : LocalDisk) (path : LocalPath) (place : List Bytes)
    (disk' : LocalDisk) : Prop where
  kept : disk.Extends disk'
  located : platform.locate disk false path = .ok place
  resolved : platform.resolvesTo disk path = some place
  absent : disk.node place = none
  added : disk' = disk.add place .directory

/-- Making a directory makes it where nothing is. -/
theorem made_of_mkdirCall (h : platform.mkdirCall disk path = .ok (place, disk')) :
    Made platform disk path place disk' := by
  unfold mkdirCall at h
  cases hlocate : platform.locate disk false path with
  | error error =>
    rw [hlocate] at h
    cases h
  | ok found =>
    simp only [hlocate, bind, Except.bind] at h
    cases hnode : disk.node found with
    | some node =>
      rw [hnode] at h
      cases h
    | none =>
      rw [hnode] at h
      cases hrefusal : platform.checkRefusal found with
      | error error =>
        simp only [hrefusal] at h
        cases h
      | ok _ =>
        simp only [hrefusal] at h
        cases h
        refine ⟨LinkedTree.extends_add hnode rfl, hlocate, ?_, hnode, rfl⟩
        refine resolvesTo_of_locate hlocate ?_
        rw [LinkedTree.kind, hnode]
        rfl

/-- A directory cannot be made where a path leads to one. -/
theorem mkdirCall_of_isDir (h : platform.isDir disk path = true) :
    platform.mkdirCall disk path = .error .fileExists := by
  unfold isDir at h
  cases hlocate : platform.locate disk true path with
  | error error =>
    rw [hlocate] at h
    cases h
  | ok place =>
    rw [hlocate] at h
    obtain ⟨kind, hkind, -⟩ := (Option.any_eq_true _ _).mp h
    obtain ⟨place', hlocate', hplace'⟩ := LinkedTree.locateFrom_unfollowed
      (locate_eq_ok.mp hlocate) (by rw [hkind]; rfl)
    unfold mkdirCall
    simp only [locate_eq_ok.mpr hlocate', bind, Except.bind]
    cases hnode : disk.node place' with
    | some node => rfl
    | none =>
      rw [LinkedTree.kind, hnode] at hplace'
      cases hplace'

/-- What comes of opening what is there to change its metadata. -/
structure Reopened (platform : Platform) (disk : LocalDisk) (follow : Bool) (path : LocalPath)
    (place : List Bytes) (node : ℕ) : Prop where
  located : platform.locate disk follow path = .ok place
  resolved : platform.resolvesTo disk path = some place
  named : disk.node place = some node

/-- Opening what is there to change its metadata opens it where its path leads. -/
theorem reopened_of_reopenCall {node : ℕ}
    (h : platform.reopenCall disk follow path = .ok (place, node)) :
    Reopened platform disk follow path place node := by
  unfold reopenCall at h
  cases hlocate : platform.locate disk follow path with
  | error error =>
    rw [hlocate] at h
    cases h
  | ok found =>
    rw [hlocate] at h
    cases hrefusal : platform.checkRefusal found with
    | error error =>
      simp only [hrefusal, bind, Except.bind] at h
      cases h
    | ok _ =>
      simp only [hrefusal, bind, Except.bind] at h
      cases hnode : disk.node found with
      | none =>
        rw [hnode] at h
        cases h
      | some other =>
        simp only [hnode] at h
        have hkind : disk.kind found = some (disk.kinds other) := by
          rw [LinkedTree.kind, hnode, Option.map_some]
        cases hother : disk.kinds other with
        | link _ =>
          rw [hother] at h
          cases h
        | directory =>
          rw [hother] at h hkind
          cases h
          exact ⟨hlocate, resolvesTo_of_locate hlocate (by rw [hkind]; rfl), hnode⟩
        | file =>
          rw [hother] at h hkind
          cases h
          exact ⟨hlocate, resolvesTo_of_locate hlocate (by rw [hkind]; rfl), hnode⟩

/-- A file that a path names is opened as itself, to change its metadata. -/
theorem Reopened.same {node other : ℕ} (h : Reopened platform disk follow path place node)
    (hnode : platform.identity disk path = .ok other) (hfile : disk.kinds other = .file) :
    node = other :=
  Option.some.inj (h.named.symm.trans (node_of_locate h.located hnode hfile))

/-- What was opened to be stamped is at the place its path resolves to. -/
theorem resolvesTo_of_stampCall (h : platform.stampCall disk path = .ok place) :
    platform.resolvesTo disk path = some place := by
  unfold stampCall at h
  cases hreopen : platform.reopenCall disk false path with
  | error error =>
    rw [hreopen] at h
    cases h
  | ok found =>
    rw [hreopen] at h
    cases h
    exact (reopened_of_reopenCall hreopen).resolved

/-! ## Checked paths -/

/-- A path that a download may work on: safe names behind the destination, inside of which the
path resolves. -/
def Allowed (platform : Platform) (disk : LocalDisk) (destination path : LocalPath) : Prop :=
  ∃ names : List Bytes, path = destination ++ names.map .down ∧
    (∀ name ∈ names, platform.unsafeReason name = none) ∧
    platform.resolve disk destination <+: platform.resolve disk path

/-- An error that says a path is unsafe. -/
def IsUnsafe (error : LocalError) : Prop :=
  ∃ name reason destination, error = .unsafePath name reason destination

variable {destination : LocalPath}

/-- The same paths are allowed in both. -/
theorem allowed_extends (h : disk.Extends disk') :
    Allowed platform disk' destination path ↔ Allowed platform disk destination path := by
  unfold Allowed
  rw [resolve_extends h, resolve_extends h]

/-- The names behind a path are known from the path. -/
theorem names_unique {front : LocalPath} {names names' : List Bytes}
    (h : front ++ names.map PathStep.down = front ++ names'.map .down) : names = names' := by
  refine List.map_injective_iff.mpr ?_ (List.append_cancel_left h)
  intro name name' heq
  cases heq
  rfl

variable (platform disk)

/-- Joining a name gives the path with it, or says that it is unsafe. -/
theorem localChild_cases (parent : LocalPath) (name : Bytes) :
    (platform.unsafeReason name = none ∧
      platform.localChild parent name = .ok (parent ++ [.down name])) ∨
    (platform.unsafeReason name ≠ none ∧
      ∃ error, IsUnsafe error ∧ platform.localChild parent name = .error error) := by
  unfold localChild checkComponent
  cases hname : platform.unsafeReason name with
  | none => exact Or.inl ⟨rfl, rfl⟩
  | some reason => exact Or.inr ⟨by simp, _, ⟨name, reason, none, rfl⟩, rfl⟩

/-- A contained path is returned, and any other is said to be unsafe. -/
theorem checkContained_cases (root candidate : LocalPath) :
    (platform.resolve disk root <+: platform.resolve disk candidate ∧
      platform.checkContained disk root candidate = .ok candidate) ∨
    (¬ platform.resolve disk root <+: platform.resolve disk candidate ∧
      ∃ error, IsUnsafe error ∧ platform.checkContained disk root candidate = .error error) := by
  unfold checkContained
  by_cases h : platform.resolve disk root <+: platform.resolve disk candidate
  · exact Or.inl ⟨h, if_pos (List.isPrefixOf_iff_prefix.mpr h)⟩
  · refine Or.inr ⟨h, _, ⟨_, _, _, rfl⟩, if_neg ?_⟩
    rwa [List.isPrefixOf_iff_prefix]

/-- Joining names one by one gives the path with all of them, or says that one is unsafe. -/
theorem foldlM_localChild_cases (names : List Bytes) (parent : LocalPath) :
    ((∀ name ∈ names, platform.unsafeReason name = none) ∧
      names.foldlM platform.localChild parent = .ok (parent ++ names.map .down)) ∨
    ((∃ name ∈ names, platform.unsafeReason name ≠ none) ∧
      ∃ error, IsUnsafe error ∧ names.foldlM platform.localChild parent = .error error) := by
  induction names generalizing parent with
  | nil =>
    refine Or.inl ⟨fun _ h => absurd h List.not_mem_nil, ?_⟩
    rw [List.map_nil, List.append_nil]
    rfl
  | cons name names ih =>
    rw [List.foldlM_cons]
    rcases localChild_cases platform parent name with
      ⟨hname, heq⟩ | ⟨hname, error, hunsafe, heq⟩
    · rw [heq]
      rcases ih (parent ++ [.down name]) with ⟨hnames, hrest⟩ | ⟨⟨other, hmem, hother⟩, hrest⟩
      · refine Or.inl ⟨List.forall_mem_cons.mpr ⟨hname, hnames⟩, ?_⟩
        change names.foldlM platform.localChild (parent ++ [.down name]) = _
        rw [hrest, List.append_assoc]
        rfl
      · exact Or.inr ⟨⟨other, List.mem_cons_of_mem _ hmem, hother⟩, hrest⟩
    · rw [heq]
      exact Or.inr ⟨⟨name, List.mem_cons_self, hname⟩, error, hunsafe, rfl⟩

/-- The local directory of a walked position is what it is allowed to be, or said to be
unsafe. -/
theorem localDirectory_cases (destination : LocalPath) (relative : List Bytes) :
    (Allowed platform disk destination (destination ++ relative.map .down) ∧
      platform.localDirectory disk destination relative =
        .ok (destination ++ relative.map .down)) ∨
    (¬ Allowed platform disk destination (destination ++ relative.map .down) ∧
      ∃ error, IsUnsafe error ∧
        platform.localDirectory disk destination relative = .error error) := by
  unfold localDirectory
  rcases foldlM_localChild_cases platform relative destination with
    ⟨hnames, heq⟩ | ⟨⟨name, hmem, hname⟩, error, hunsafe, heq⟩
  · rw [heq]
    rcases checkContained_cases platform disk destination
      (destination ++ relative.map .down) with ⟨hinside, hcheck⟩ | ⟨houtside, error, hunsafe, hcheck⟩
    · exact Or.inl ⟨⟨relative, rfl, hnames, hinside⟩, hcheck⟩
    · exact Or.inr ⟨fun h => houtside h.choose_spec.2.2, error, hunsafe, hcheck⟩
  · rw [heq]
    refine Or.inr ⟨fun h => ?_, error, hunsafe, rfl⟩
    obtain ⟨names, hpath, hnames, -⟩ := h
    rw [← names_unique hpath] at hnames
    exact hname (hnames name hmem)

end Platform

end GantrySftp
