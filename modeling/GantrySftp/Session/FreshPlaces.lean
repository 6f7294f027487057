import GantrySftp.Session.DownloadClaims
import GantrySftp.Session.TreeContainment
import GantrySftp.Session.WalkPositions

/-!
# Downloading into an empty destination

Where nothing was before, on a file system that refuses nothing and keeps all names apart, every
directory of a walk and every file of it comes to a place of its own: each call succeeds, and the
node that it makes is one that nothing holds. So nothing collides, and workers can open every file
that they are handed.
-/

namespace GantrySftp

open Library Program Platform

/-- A platform that refuses nothing, and keeps all names of a disk apart. -/
structure KeepsNames (platform : Platform) (disk : LocalDisk) : Prop where
  accepts : ∀ place, platform.refusal place = none
  apart : Function.Injective disk.fold

/-- A destination that is there, with nothing in it. -/
structure IsEmptyAt (platform : Platform) (disk : LocalDisk) (destination : LocalPath)
    (place : List Bytes) : Prop where
  located : platform.locate disk true destination = .ok place
  directory : disk.isDirectory place = true
  empty : ∀ names, names ≠ [] → disk.node (place ++ names) = none

section Calls

variable {platform : Platform} {disk : LocalDisk} {path : LocalPath} {parent : List Bytes}
  {name : Bytes}

/-- A place that names differ from is one that places differ from. -/
theorem node_add_of_apart (h : KeepsNames platform disk) {place other : List Bytes}
    (kind : NodeKind Bytes) (hne : other ≠ place) :
    (disk.add place kind).node other = disk.node other :=
  LinkedTree.node_add_of_ne kind fun heq => hne (List.map_injective_iff.mpr h.apart heq)

/-- A name in a directory with nothing there is located in it. -/
theorem locate_absent {follow : Bool} (hlocate : platform.locate disk true path = .ok parent)
    (hparent : disk.isDirectory parent = true) (hnone : disk.node (parent ++ [name]) = none) :
    platform.locate disk follow (path ++ [.down name]) = .ok (parent ++ [name]) := by
  refine locate_eq_ok.mpr (LinkedTree.locateFrom_down (locate_eq_ok.mp hlocate) hparent ?_)
  rw [LinkedTree.kind, hnone]
  rfl

/-- Nothing is refused. -/
theorem checkRefusal_ok (h : KeepsNames platform disk) (place : List Bytes) :
    platform.checkRefusal place = .ok () := by
  unfold checkRefusal
  rw [h.accepts]

/-- A directory can be made where nothing is. -/
theorem mkdirCall_absent (h : KeepsNames platform disk)
    (hlocate : platform.locate disk true path = .ok parent)
    (hparent : disk.isDirectory parent = true) (hnone : disk.node (parent ++ [name]) = none) :
    platform.mkdirCall disk (path ++ [.down name]) =
      .ok (parent ++ [name], disk.add (parent ++ [name]) .directory) := by
  unfold mkdirCall
  simp only [locate_absent hlocate hparent hnone, bind, Except.bind, hnone, checkRefusal_ok h]

/-- A file can be opened where nothing is. -/
theorem openCall_absent (h : KeepsNames platform disk) {follow : Bool}
    (hlocate : platform.locate disk true path = .ok parent)
    (hparent : disk.isDirectory parent = true) (hnone : disk.node (parent ++ [name]) = none) :
    platform.openCall disk follow (path ++ [.down name]) =
      .ok (parent ++ [name], disk.next, disk.add (parent ++ [name]) .file) := by
  unfold openCall
  simp only [locate_absent hlocate hparent hnone, bind, Except.bind, hnone, checkRefusal_ok h]

/-- A file that a path names can be opened. -/
theorem openCall_file (h : KeepsNames platform disk) {node : ℕ}
    (hnode : platform.identity disk path = .ok node) (hfile : disk.kinds node = .file) :
    ∃ place, platform.openCall disk false path = .ok (place, node, disk) := by
  obtain ⟨place, hlocate, hplace⟩ := identity_eq_ok.mp hnode
  refine ⟨place, ?_⟩
  unfold openCall
  simp only [hlocate, bind, Except.bind, hplace, checkRefusal_ok h, hfile]

/-- So is one that a path names, to change its metadata. -/
theorem reopenCall_file (h : KeepsNames platform disk) {node : ℕ}
    (hnode : platform.identity disk path = .ok node) (hfile : disk.kinds node = .file) :
    ∃ place, platform.reopenCall disk false path = .ok (place, node) := by
  obtain ⟨place, hlocate, hplace⟩ := identity_eq_ok.mp hnode
  refine ⟨place, ?_⟩
  unfold reopenCall
  simp only [hlocate, bind, Except.bind, hplace, checkRefusal_ok h, hfile]

/-- A directory that was made where nothing was is there. -/
theorem isDirectory_add (place : List Bytes) : (disk.add place .directory).isDirectory place = true := by
  rw [LinkedTree.isDirectory, LinkedTree.kind_add]
  rfl

/-- The path to a directory that was made leads to it, and so does what it resolves to. -/
theorem located_made (hlocate : platform.locate disk true path = .ok parent)
    (hparent : disk.isDirectory parent = true) (hnone : disk.node (parent ++ [name]) = none) :
    platform.locate (disk.add (parent ++ [name]) .directory) true (path ++ [.down name]) =
        .ok (parent ++ [name]) ∧
      platform.identity (disk.add (parent ++ [name]) .directory)
        (platform.resolve (disk.add (parent ++ [name]) .directory) (path ++ [.down name])) =
          .ok disk.next := by
  have hextends : disk.Extends (disk.add (parent ++ [name]) .directory) :=
    LinkedTree.extends_add hnone rfl
  have hlink : ((disk.add (parent ++ [name]) .directory).kind (parent ++ [name])).any
      NodeKind.isLink = false := by
    rw [LinkedTree.kind_add]
    rfl
  have hmade : platform.locate (disk.add (parent ++ [name]) .directory) true
      (path ++ [.down name]) = .ok (parent ++ [name]) :=
    locate_eq_ok.mpr (LinkedTree.locateFrom_down (locate_eq_ok.mp (locate_extends hextends hlocate))
      (hextends.isDirectory hparent) hlink)
  refine ⟨hmade, identity_eq_ok.mpr ⟨parent ++ [name], ?_, LinkedTree.node_add ..⟩⟩
  rw [resolve_eq (resolvesTo_of_locate hmade hlink)]
  exact locate_eq_ok.mpr (LinkedTree.locateFrom_rooted
    (LinkedTree.rooted_of_locateFrom (locate_eq_ok.mp hmade) LinkedTree.rooted_nil) hlink)

/-- A directory cannot be made in one that is not there. -/
theorem mkdirCall_missing {names : List Bytes} (hlocate : platform.locate disk true path = .ok parent)
    (hparent : disk.isDirectory parent = true) (hnone : disk.node (parent ++ [name]) = none)
    (hnames : names ≠ []) :
    platform.mkdirCall disk (path ++ .down name :: names.map PathStep.down) =
      .error (.lookup .missing) := by
  have hmissing : platform.locate disk false (path ++ .down name :: names.map .down) =
      .error (.lookup .missing) := by
    have hmore : names.map PathStep.down ≠ [] := fun heq => hnames (List.map_eq_nil_iff.mp heq)
    rw [locate, LinkedTree.locateFrom_missing (locate_eq_ok.mp hlocate) hparent hnone hmore]
    rfl
  unfold mkdirCall
  rw [hmissing]
  rfl

end Calls

/-- Names are kept apart on a disk with more on it. -/
theorem KeepsNames.extend {platform : Platform} {disk disk' : LocalDisk}
    (h : KeepsNames platform disk) (hdisk : disk.Extends disk') : KeepsNames platform disk' :=
  ⟨h.accepts, hdisk.fold ▸ h.apart⟩

section Availability

/-- A destination that is there with nothing in it, or that is not there but can be made: a
directory is, and nothing of the names that the destination has behind it. -/
def IsAvailable (platform : Platform) (disk : LocalDisk) (destination : LocalPath)
    (place : List Bytes) : Prop :=
  ∃ (front : LocalPath) (base names : List Bytes),
    destination = front ++ names.map .down ∧ place = base ++ names ∧
      platform.locate disk true front = .ok base ∧ disk.isDirectory base = true ∧
      ∀ below, below ≠ [] → names.take 1 <+: below → disk.node (base ++ below) = none

/-- A step that makes directories at most. -/
structure OnlyMakes (state state' : DownloadState) : Prop where
  settles : SettlesNothing state state'
  directories : state'.directories = state.directories
  schedule : state'.schedule = state.schedule

variable {platform : Platform} {path : LocalPath} {state : DownloadState}

/-- A path that is located at a directory leads to one. -/
theorem isDir_of_located {disk : LocalDisk} {place : List Bytes}
    (hlocate : platform.locate disk true path = .ok place)
    (hdirectory : disk.isDirectory place = true) : platform.isDir disk path = true := by
  unfold isDir
  rw [hlocate]
  exact hdirectory

/-- A directory is made where nothing is. -/
theorem exec_ensureDirectory_absent {parent : List Bytes} {name : Bytes}
    (hkeeps : KeepsNames platform state.disk)
    (hlocate : platform.locate state.disk true path = .ok parent)
    (hparent : state.disk.isDirectory parent = true)
    (hnone : state.disk.node (parent ++ [name]) = none) :
    (ensureDirectory platform (path ++ [PathStep.down name])).exec state =
      (.ok (), { state with disk := state.disk.add (parent ++ [name]) .directory }.record
        (.made (path ++ [PathStep.down name]) (parent ++ [name]))) := by
  unfold ensureDirectory
  simp only [exec_of, mkdirCall_absent hkeeps hlocate hparent hnone]

/-- One more directory is made where nothing was. -/
theorem OnlyMakes.made {state' : DownloadState} (h : OnlyMakes state state') {parent : List Bytes}
    {name : Bytes} (hnone : state'.disk.node (parent ++ [name]) = none) :
    OnlyMakes state ({ state' with disk := state'.disk.add (parent ++ [name]) .directory }.record
      (.made path (parent ++ [name]))) :=
  ⟨h.settles.trans (.record (LinkedTree.extends_add hnone rfl) rfl), h.directories, h.schedule⟩

/-- A directory that was made where nothing was is there, and empty. -/
theorem isEmptyAt_made {disk : LocalDisk} {parent : List Bytes} {name : Bytes}
    (hkeeps : KeepsNames platform disk) (hlocate : platform.locate disk true path = .ok parent)
    (hparent : disk.isDirectory parent = true)
    (hnone : ∀ below, disk.node (parent ++ name :: below) = none) :
    KeepsNames platform (disk.add (parent ++ [name]) .directory) ∧
      IsEmptyAt platform (disk.add (parent ++ [name]) .directory) (path ++ [.down name])
        (parent ++ [name]) := by
  refine ⟨hkeeps.extend (LinkedTree.extends_add (hnone []) rfl),
    (located_made hlocate hparent (hnone [])).1, isDirectory_add _, fun names hne => ?_⟩
  have hother : parent ++ [name] ++ names ≠ parent ++ [name] := fun heq =>
    hne (List.append_right_eq_self.mp heq)
  rw [node_add_of_apart hkeeps _ hother, List.append_assoc]
  exact hnone names

/-- A destination that is available is there, and empty, once it was made with all that it is
in. -/
theorem exec_ensureParents_available {front : LocalPath} {base names : List Bytes}
    (hkeeps : KeepsNames platform state.disk)
    (hlocate : platform.locate state.disk true front = .ok base)
    (hbase : state.disk.isDirectory base = true)
    (hnone : ∀ below, below ≠ [] → names.take 1 <+: below →
      state.disk.node (base ++ below) = none) :
    ∃ state', (ensureParents platform (front ++ names.map PathStep.down).reverse).exec state =
        (.ok (), state') ∧
      OnlyMakes state state' ∧ KeepsNames platform state'.disk ∧
      IsEmptyAt platform state'.disk (front ++ names.map .down) (base ++ names) := by
  induction names using List.reverseRecOn with
  | nil =>
    simp only [List.map_nil, List.append_nil]
    refine ⟨state, exec_ensureParents _ ?_, ⟨.refl state, rfl, rfl⟩, hkeeps, hlocate, hbase, fun below hne =>
      hnone below hne List.nil_prefix⟩
    rw [List.reverse_reverse]
    exact isDir_of_located hlocate hbase
  | append_singleton init name ih =>
    have hsplit : front ++ (init ++ [name]).map PathStep.down =
        front ++ init.map .down ++ [.down name] := by
      rw [List.map_append, List.append_assoc]
      rfl
    rw [hsplit, ← List.append_assoc, List.reverse_append, List.reverse_singleton,
      List.singleton_append, ensureParents, List.reverse_cons, List.reverse_reverse]
    simp only [exec_bind, exec_get]
    cases init with
    | nil =>
      have habsent : ∀ below, state.disk.node (base ++ name :: below) = none := fun below =>
        hnone _ (List.cons_ne_nil _ _) (List.prefix_append [name] below)
      have hlacks : lacksParent platform state.disk (front ++ [.down name]) = false := by
        unfold lacksParent
        rw [mkdirCall_absent hkeeps hlocate hbase (habsent [])]
      rw [List.map_nil, List.append_nil, List.append_nil, hlacks, doIf_false, exec_pure]
      simp only [exec_ensureDirectory_absent hkeeps hlocate hbase (habsent [])]
      exact ⟨_, rfl, OnlyMakes.made ⟨.refl state, rfl, rfl⟩ (habsent []),
        isEmptyAt_made hkeeps hlocate hbase habsent⟩
    | cons first init =>
      have hfirst : state.disk.node (base ++ [first]) = none :=
        hnone _ (List.cons_ne_nil _ _) List.prefix_rfl
      have hlacks : lacksParent platform state.disk
          (front ++ (first :: init).map .down ++ [.down name]) = true := by
        have hmissing : platform.mkdirCall state.disk
            (front ++ (first :: init ++ [name]).map PathStep.down) = .error (.lookup .missing) :=
          mkdirCall_missing hlocate hbase hfirst
            (List.append_ne_nil_of_right_ne_nil init (List.cons_ne_nil name []))
        rw [← hsplit]
        unfold lacksParent
        rw [hmissing]
      obtain ⟨state', hexec, hmakes, hkeeps', hempty⟩ := ih hnone
      have habsent : ∀ below, state'.disk.node (base ++ first :: init ++ name :: below) = none :=
        fun below => hempty.empty _ (List.cons_ne_nil _ _)
      rw [hlacks, doIf_true, hexec]
      simp only [exec_ensureDirectory_absent hkeeps' hempty.located hempty.directory (habsent [])]
      exact ⟨_, rfl, hmakes.made (habsent []), isEmptyAt_made hkeeps' hempty.located hempty.directory habsent⟩

/-- A destination that is available is there, and empty, once it was made. -/
theorem exec_makeDestination {destination : LocalPath} {place : List Bytes}
    (hkeeps : KeepsNames platform state.disk)
    (havailable : IsAvailable platform state.disk destination place) :
    ∃ state', (makeDestination platform false destination).exec state = (.ok (), state') ∧
      OnlyMakes state state' ∧ KeepsNames platform state'.disk ∧ IsEmptyAt platform state'.disk destination place := by
  obtain ⟨front, base, names, rfl, rfl, hlocate, hbase, hnone⟩ := havailable
  obtain ⟨state', hexec, hmade⟩ := exec_ensureParents_available hkeeps hlocate hbase hnone
  refine ⟨state', ?_, hmade⟩
  rw [makeDestination, Bool.not_false, doIf_true, exec_raising, hexec]
  rfl

end Availability

section Filling

variable (platform : Platform) (base : LocalDisk) (destination : LocalPath) (place : List Bytes)

/-- A download that fills an empty destination: the local directories of the visited ones are
there, nothing else is but what was settled, and nothing collided. -/
structure Fills (visited : List WalkEntry) (positions : List (List Bytes))
    (pending : List SettledDownload) (state : DownloadState) : Prop where
  apart : KeepsApart platform destination visited pending state
  names : KeepsNames platform state.disk
  kept : base.Extends state.disk
  root : platform.locate state.disk true destination = .ok place ∧
    state.disk.isDirectory place = true
  located : ∀ entry ∈ visited, platform.locate state.disk true
      (destination ++ entry.relative.map .down) = .ok (place ++ entry.relative) ∧
    state.disk.isDirectory (place ++ entry.relative) = true
  known : ∀ names node, names ≠ [] → state.disk.node (place ++ names) = some node →
    names ∈ positions
  clean : state.collisions = []

variable {platform base destination place} {visited : List WalkEntry}
  {positions : List (List Bytes)} {pending : List SettledDownload} {state state' : DownloadState}

/-- The next node is one that nothing holds. -/
theorem KeepsApart.unclaimed (h : KeepsApart platform destination visited pending state)
    {claims : Dict ℕ Bytes} (hledger : state.ledger = .destination claims) :
    claims.get state.disk.next = none := by
  obtain ⟨claims', hledger', -, hholds⟩ := h.ledger
  obtain rfl : claims = claims' := by
    rw [hledger] at hledger'
    cases hledger'
    rfl
  cases hget : claims.get state.disk.next with
  | none => rfl
  | some remote =>
    rcases hholds _ remote hget with ⟨item, -, -, hnode⟩ | ⟨entry, -, -, hnode⟩
    · exact absurd (identity_lt hnode) (lt_irrefl _)
    · exact absurd (identity_lt hnode) (lt_irrefl _)

/-- Nothing is at a position that was not settled. -/
theorem Fills.absent (h : Fills platform base destination place visited positions pending state)
    {names : List Bytes} (hnames : names ≠ []) (hnew : names ∉ positions) :
    state.disk.node (place ++ names) = none := by
  cases hnode : state.disk.node (place ++ names) with
  | none => rfl
  | some node => exact absurd (h.known names node hnames hnode) hnew

/-- Something new at a new position is all that is new. -/
theorem Fills.known_add
    (h : Fills platform base destination place visited positions pending state)
    {names : List Bytes} {kind : NodeKind Bytes} :
    ∀ other node, other ≠ [] → (state.disk.add (place ++ names) kind).node (place ++ other) =
      some node → other ∈ positions ++ [names] := by
  intro other node hother hnode
  by_cases heq : other = names
  · exact List.mem_append_right _ (List.mem_singleton.mpr heq)
  · rw [node_add_of_apart h.names kind fun hsame => heq (List.append_cancel_left hsame)] at hnode
    exact List.mem_append_left _ (h.known other node hother hnode)

/-- A step that settles nothing and adds nothing to the disk. -/
theorem Fills.quiet (h : Fills platform base destination place visited positions pending state)
    (hstep : SettlesNothing state state') (hdisk : state'.disk = state.disk) :
    Fills platform base destination place visited positions pending state' where
  apart := h.apart.settle hstep
  names := hdisk ▸ h.names
  kept := hdisk ▸ h.kept
  root := hdisk ▸ h.root
  located := hdisk ▸ h.located
  known := hdisk ▸ h.known
  clean := hstep.collisions.trans h.clean

variable (options : TreeOptions)

/-- The state after the local directory of a visited one was made and claimed. -/
def madeDirectory (destination : LocalPath) (place : List Bytes) (entry : WalkEntry)
    (claims : Dict ℕ Bytes) (state : DownloadState) : DownloadState :=
  { { state with disk := state.disk.add (place ++ entry.relative) .directory }.record
      (.made (destination ++ entry.relative.map PathStep.down) (place ++ entry.relative)) with
    directories := state.directories + 1
    ledger := .destination (claims.set state.disk.next entry.path) }

/-- The destination is still filled once a directory was made and claimed. -/
theorem Fills.madeDirectory
    (h : Fills platform base destination place visited positions [] state)
    {claims : Dict ℕ Bytes} (hledger : state.ledger = .destination claims) {entry : WalkEntry}
    (hroot : entry.relative ≠ []) (hnew : entry.relative ∉ positions)
    (hmade : platform.locate (state.disk.add (place ++ entry.relative) .directory) true
      (destination ++ entry.relative.map .down) = .ok (place ++ entry.relative))
    (hidentity : platform.identity (state.disk.add (place ++ entry.relative) .directory)
      (platform.resolve (state.disk.add (place ++ entry.relative) .directory)
        (destination ++ entry.relative.map .down)) = .ok state.disk.next) :
    Fills platform base destination place (visited ++ [entry]) (positions ++ [entry.relative]) []
      (madeDirectory destination place entry claims state) := by
  have hextends : state.disk.Extends (state.disk.add (place ++ entry.relative) .directory) :=
    LinkedTree.extends_add (h.absent hroot hnew) rfl
  have hstep : SettlesNothing state
      { { state with disk := state.disk.add (place ++ entry.relative) .directory }.record
          (.made (destination ++ entry.relative.map PathStep.down) (place ++ entry.relative)) with
        directories := state.directories + 1 } :=
    ⟨hextends, rfl, rfl, rfl, rfl, rfl, _, rfl, List.forall_mem_singleton.mpr rfl⟩
  have hvisit := (h.apart.settle hstep).visit entry
  refine ⟨?_, h.names.extend hextends, h.kept.trans hextends, ?_, ?_, h.known_add, h.clean⟩
  · refine hvisit.claimDirectory hledger (h.apart.unclaimed hledger) (Or.inr ⟨entry, ?_, rfl, ?_⟩)
    · exact List.mem_append_right _ (List.mem_singleton_self _)
    · exact hidentity
  · exact ⟨locate_extends hextends h.root.1, hextends.isDirectory h.root.2⟩
  · refine List.forall_mem_append.mpr ⟨fun other hother => ?_, List.forall_mem_singleton.mpr ?_⟩
    · obtain ⟨hlocate, hdirectory⟩ := h.located other hother
      exact ⟨locate_extends hextends hlocate, hextends.isDirectory hdirectory⟩
    · exact ⟨hmade, isDirectory_add _⟩

/-- The local directory of a visited one is made where nothing is, and claimed. -/
theorem exec_makeDirectory (hreal : options.dryRun = false)
    (h : Fills platform base destination place visited positions [] state)
    {claims : Dict ℕ Bytes} (hledger : state.ledger = .destination claims)
    {entry parent : WalkEntry} {name : Bytes} (hparent : parent ∈ visited)
    (hentry : entry.relative = parent.relative ++ [name]) (hnew : entry.relative ∉ positions) :
    (makeDirectory platform options (destination ++ entry.relative.map .down) entry).exec state =
        (.ok (), madeDirectory destination place entry claims state) ∧
      Fills platform base destination place (visited ++ [entry]) (positions ++ [entry.relative]) []
        (madeDirectory destination place entry claims state) := by
  obtain ⟨hlocate, hdirectory⟩ := h.located parent hparent
  have hsplit : destination ++ entry.relative.map PathStep.down =
      destination ++ parent.relative.map .down ++ [.down name] := by
    rw [hentry, List.map_append, List.append_assoc]
    rfl
  have hplace : place ++ entry.relative = place ++ parent.relative ++ [name] := by
    rw [hentry, List.append_assoc]
  have hroot : entry.relative ≠ [] := by
    rw [hentry]
    exact List.append_ne_nil_of_right_ne_nil _ (List.cons_ne_nil _ _)
  have hnone : state.disk.node (place ++ parent.relative ++ [name]) = none := by
    rw [← hplace]
    exact h.absent hroot hnew
  obtain ⟨hmade, hidentity⟩ := located_made hlocate hdirectory hnone
  have hunclaimed := h.apart.unclaimed hledger
  rw [← hsplit, ← hplace] at hmade hidentity
  refine ⟨?_, h.madeDirectory hledger hroot hnew hmade hidentity⟩
  have hensure := exec_ensureDirectory_absent h.names hlocate hdirectory hnone
  rw [← hsplit, ← hplace] at hensure
  unfold makeDirectory
  rw [hreal, Bool.not_false, doIf_true, exec_bind, hensure]
  simp only [exec_bind, exec_modify]
  unfold claimDirectory
  simp only [exec_bind, exec_get]
  unfold collidesWith claim
  simp only [exec_of, DownloadState.record, hledger, hidentity, hunclaimed]
  rfl

/-- The destination itself is a visited directory. -/
theorem Fills.visitRoot
    (h : Fills platform base destination place visited positions [] state) {entry : WalkEntry}
    (hroot : entry.relative = []) :
    Fills platform base destination place (visited ++ [entry]) (positions ++ [entry.relative]) []
      state := by
  refine ⟨h.apart.visit entry, h.names, h.kept, h.root, ?_, ?_, h.clean⟩
  · refine List.forall_mem_append.mpr ⟨h.located, List.forall_mem_singleton.mpr ?_⟩
    rw [hroot, List.map_nil, List.append_nil, List.append_nil]
    exact h.root
  · exact fun names node hnames hnode => List.mem_append_left _ (h.known names node hnames hnode)

/-- The state after a file was made empty and claimed. -/
def claimedFile (file : List Bytes) (item : SettledDownload) (claims : Dict ℕ Bytes)
    (state : DownloadState) : DownloadState :=
  { { state with disk := state.disk.add file .file }.record (.touched item.target file) with
    ledger := .destination (claims.set state.disk.next item.remote) }

/-- A file is made empty where nothing is, and claimed. -/
theorem exec_claimFile
    (h : Fills platform base destination place visited positions [] state)
    {claims : Dict ℕ Bytes} (hledger : state.ledger = .destination claims) {entry : WalkEntry}
    (hentry : entry ∈ visited) {name : Bytes} (hnew : entry.relative ++ [name] ∉ positions)
    (remote : Bytes) :
    let target := destination ++ entry.relative.map .down ++ [.down name]
    let file := place ++ (entry.relative ++ [name])
    (claimLocalDestination platform false ⟨remote, target⟩).exec state =
        (.ok none, claimedFile file ⟨remote, target⟩ claims state) ∧
      Fills platform base destination place visited (positions ++ [entry.relative ++ [name]])
        [⟨remote, target⟩] (claimedFile file ⟨remote, target⟩ claims state) := by
  intro target file
  obtain ⟨hlocate, hdirectory⟩ := h.located entry hentry
  have hplace : file = place ++ entry.relative ++ [name] := (List.append_assoc ..).symm
  have hnone : state.disk.node (place ++ entry.relative ++ [name]) = none := by
    rw [List.append_assoc]
    exact h.absent (by simp) hnew
  have hopen : platform.openCall state.disk false target =
      .ok (file, state.disk.next, state.disk.add file .file) := by
    rw [hplace]
    exact openCall_absent h.names hlocate hdirectory hnone
  have hopened := opened_of_openCall hopen
  have hunclaimed := h.apart.unclaimed hledger
  have hextends : state.disk.Extends (state.disk.add file .file) := hopened.kept
  have hstep : SettlesNothing state
      ({ state with disk := state.disk.add file .file }.record (.touched target file)) :=
    .record hextends rfl
  refine ⟨?_, ?_, h.names.extend hextends, h.kept.trans hextends, ?_, ?_, h.known_add, h.clean⟩
  · unfold claimLocalDestination
    rw [Bool.not_false, doIf_true, exec_bind]
    unfold touchDestination collidesWith claim
    simp only [exec_of, hopen, exec_bind, DownloadState.record, hledger, hopened.identity,
      hunclaimed]
    rfl
  · exact (h.apart.settle hstep).claimFile hledger hunclaimed hopened.identity hopened.file
  · exact ⟨locate_extends hextends h.root.1, hextends.isDirectory h.root.2⟩
  · intro other hother
    obtain ⟨hlocate, hdirectory⟩ := h.located other hother
    exact ⟨locate_extends hextends hlocate, hextends.isDirectory hdirectory⟩

end Filling

end GantrySftp
