import GantrySftp.Session.DownloadWorkers

/-!
# Local files claimed for remote ones

A download asks the file system which node a path names once something is there, and claims the
node for a remote path unless it was claimed before. A claimed file is opened as itself from then
on, so that no worker writes to the file of another, whatever names the file system takes for one
and however the workers are scheduled.
-/

namespace GantrySftp

open Library Program Platform

/-- The item that was transferred. -/
def LocalEffect.transferredItem : LocalEffect → Option SettledDownload
  | .transferred item _ => some item
  | _ => none

/-- The item and the node of what a worker opens, writes, or changes the metadata of. -/
def LocalEffect.written : LocalEffect → Option (SettledDownload × ℕ)
  | .opened item _ node | .wrote item node | .marked item _ node => some (item, node)
  | _ => none

/-- How much was transferred. -/
def LocalEffect.transferredCount : LocalEffect → Option ℕ
  | .transferred _ count => some count
  | _ => none

/-- Something done without a worker. -/
def LocalEffect.isSettling : LocalEffect → Bool
  | .opened _ _ _ | .wrote _ _ | .marked _ _ _ | .transferred _ _ => false
  | _ => true

/-- The files that were claimed: those handed to the workers, and those about to be. -/
def DownloadState.claimed (pending : List SettledDownload) (state : DownloadState) :
    List SettledDownload := state.transfers.map Transfer.item ++ pending

/-- The items that were transferred. -/
def DownloadState.transferred (state : DownloadState) : List SettledDownload :=
  state.effects.filterMap LocalEffect.transferredItem

section Claims

variable (platform : Platform) (destination : LocalPath)

/-- A remote path holds a node: its file was claimed, or it is a visited directory and the node is
its local one. -/
def HoldsNode (visited : List WalkEntry) (claimed : List SettledDownload) (disk : LocalDisk)
    (node : ℕ) (remote : Bytes) : Prop :=
  (∃ item ∈ claimed, item.remote = remote ∧ platform.identity disk item.target = .ok node) ∨
    ∃ entry ∈ visited, entry.path = remote ∧ platform.identity disk
      (platform.resolve disk (destination ++ entry.relative.map .down)) = .ok node

/-- A collision names what holds the node that its path names, as it is or resolved. -/
def PathCollision.Names (visited : List WalkEntry) (claimed : List SettledDownload)
    (disk : LocalDisk) (collision : PathCollision) : Prop :=
  ∃ node, HoldsNode platform destination visited claimed disk node collision.first ∧
    (platform.identity disk collision.path = .ok node ∨
      platform.identity disk (platform.resolve disk collision.path) = .ok node)

/-- What a worker did, it did to the file that its item was settled on. -/
def LocalEffect.IsOwn (claimed : List SettledDownload) (disk : LocalDisk) : LocalEffect → Prop
  | .opened item _ node | .wrote item node | .marked item _ node =>
    item ∈ claimed ∧ platform.identity disk item.target = .ok node
  | .transferred item _ => item ∈ claimed
  | _ => True

/-- A download that claims by node, and keeps the files that it claimed apart. -/
structure KeepsApart (visited : List WalkEntry) (pending : List SettledDownload)
    (state : DownloadState) : Prop where
  ledger : ∃ claims : Dict ℕ Bytes, state.ledger = .destination claims ∧
    (∀ item ∈ state.claimed pending, ∃ node, platform.identity state.disk item.target = .ok node ∧
      state.disk.kinds node = .file ∧ claims.get node = some item.remote) ∧
    ∀ node remote, claims.get node = some remote →
      HoldsNode platform destination visited (state.claimed pending) state.disk node remote
  apart : (state.claimed pending).Pairwise fun item other =>
    platform.identity state.disk item.target ≠ platform.identity state.disk other.target
  collisions : ∀ collision ∈ state.collisions,
    collision.Names platform destination visited (state.claimed pending) state.disk
  writing : ∀ transfer ∈ state.transfers, ∀ node, transfer.stage = .writing node →
    platform.identity state.disk transfer.item.target = .ok node
  own : ∀ effect ∈ state.effects, effect.IsOwn platform (state.claimed pending) state.disk
  transferred : (state.effects.filterMap LocalEffect.transferredItem).Perm
    ((state.transfers.filter (·.stage.isDone)).map Transfer.item)
  counts : state.moved = state.effects.filterMap LocalEffect.transferredCount

/-- A download that ended early has kept files apart. -/
abbrev EndsApart {ε : Type} : ε → DownloadState → Prop :=
  fun _ state => ∃ visited pending, KeepsApart platform destination visited pending state

variable {platform destination} {visited : List WalkEntry} {claimed : List SettledDownload}
  {pending : List SettledDownload} {disk disk' : LocalDisk} {state state' : DownloadState}

/-- A remote path goes on holding a node. -/
theorem HoldsNode.extend {visited' : List WalkEntry} {claimed' : List SettledDownload}
    {node : ℕ} {remote : Bytes}
    (h : HoldsNode platform destination visited claimed disk node remote)
    (hdisk : disk.Extends disk') (hvisited : visited ⊆ visited') (hclaimed : claimed ⊆ claimed') :
    HoldsNode platform destination visited' claimed' disk' node remote := by
  rcases h with ⟨item, hitem, hremote, hnode⟩ | ⟨entry, hentry, hpath, hnode⟩
  · exact Or.inl ⟨item, hclaimed hitem, hremote, identity_extends hdisk hnode⟩
  · refine Or.inr ⟨entry, hvisited hentry, hpath, ?_⟩
    rw [resolve_extends hdisk]
    exact identity_extends hdisk hnode

/-- A collision goes on naming what holds its node. -/
theorem PathCollision.Names.extend {visited' : List WalkEntry} {claimed' : List SettledDownload}
    {collision : PathCollision} (h : collision.Names platform destination visited claimed disk)
    (hdisk : disk.Extends disk') (hvisited : visited ⊆ visited') (hclaimed : claimed ⊆ claimed') :
    collision.Names platform destination visited' claimed' disk' := by
  obtain ⟨node, hholds, hnode⟩ := h
  refine ⟨node, hholds.extend hdisk hvisited hclaimed, ?_⟩
  rw [resolve_extends hdisk]
  exact hnode.imp (identity_extends hdisk) (identity_extends hdisk)

/-- What a worker did to its own file was done to its own file still. -/
theorem LocalEffect.IsOwn.extend {claimed' : List SettledDownload} {effect : LocalEffect}
    (h : effect.IsOwn platform claimed disk) (hdisk : disk.Extends disk')
    (hclaimed : claimed ⊆ claimed') : effect.IsOwn platform claimed' disk' := by
  cases effect with
  | opened item place node => exact ⟨hclaimed h.1, identity_extends hdisk h.2⟩
  | wrote item node => exact ⟨hclaimed h.1, identity_extends hdisk h.2⟩
  | marked item mark node => exact ⟨hclaimed h.1, identity_extends hdisk h.2⟩
  | transferred item count => exact hclaimed h
  | _ => trivial

/-- What was done without a worker is no worker's. -/
theorem LocalEffect.isOwn_of_isSettling {effect : LocalEffect} (h : effect.isSettling = true) :
    effect.IsOwn platform claimed disk := by
  cases effect with
  | opened _ _ _ => cases h
  | wrote _ _ => cases h
  | marked _ _ _ => cases h
  | transferred _ _ => cases h
  | _ => trivial

/-- Nor was anything transferred by it. -/
theorem LocalEffect.transferred_of_isSettling {effect : LocalEffect} (h : effect.isSettling = true) :
    effect.transferredItem = none ∧ effect.transferredCount = none := by
  cases effect with
  | transferred _ _ => cases h
  | _ => exact ⟨rfl, rfl⟩

/-! ## What settling does -/

/-- A step that changes nothing that was settled: it makes local files or directories at most. -/
structure SettlesNothing (state state' : DownloadState) : Prop where
  disk : state.disk.Extends state'.disk
  ledger : state'.ledger = state.ledger
  transfers : state'.transfers = state.transfers
  collisions : state'.collisions = state.collisions
  moved : state'.moved = state.moved
  skipped : state'.skipped = state.skipped
  effects : ∃ added, state'.effects = state.effects ++ added ∧
    ∀ effect ∈ added, effect.isSettling = true

namespace SettlesNothing

/-- A step that changes neither the disk nor the trace. -/
theorem quiet (hdisk : state'.disk = state.disk) (hledger : state'.ledger = state.ledger)
    (htransfers : state'.transfers = state.transfers)
    (hcollisions : state'.collisions = state.collisions) (hmoved : state'.moved = state.moved)
    (hskipped : state'.skipped = state.skipped) (heffects : state'.effects = state.effects) :
    SettlesNothing state state' where
  disk := hdisk ▸ .refl _
  ledger := hledger
  transfers := htransfers
  collisions := hcollisions
  moved := hmoved
  skipped := hskipped
  effects := ⟨[], heffects.trans (List.append_nil _).symm, fun _ h => absurd h List.not_mem_nil⟩

/-- Doing nothing. -/
theorem refl (state : DownloadState) : SettlesNothing state state :=
  .quiet rfl rfl rfl rfl rfl rfl rfl

/-- Something was done, on a disk with more on it. -/
theorem record (hdisk : state.disk.Extends disk') {effect : LocalEffect}
    (heffect : effect.isSettling = true) :
    SettlesNothing state ({ state with disk := disk' }.record effect) where
  disk := hdisk
  ledger := rfl
  transfers := rfl
  collisions := rfl
  moved := rfl
  skipped := rfl
  effects := ⟨[effect], rfl, List.forall_mem_singleton.mpr heffect⟩

/-- One step after the other. -/
theorem trans {state'' : DownloadState} (h : SettlesNothing state state')
    (h' : SettlesNothing state' state'') : SettlesNothing state state'' := by
  obtain ⟨added, heffects, hadded⟩ := h.effects
  obtain ⟨added', heffects', hadded'⟩ := h'.effects
  exact {
    disk := h.disk.trans h'.disk
    ledger := h'.ledger.trans h.ledger
    transfers := h'.transfers.trans h.transfers
    collisions := h'.collisions.trans h.collisions
    moved := h'.moved.trans h.moved
    skipped := h'.skipped.trans h.skipped
    effects := ⟨added ++ added', by rw [heffects', heffects, List.append_assoc],
      List.forall_mem_append.mpr ⟨hadded, hadded'⟩⟩ }

/-- What was claimed is what was claimed before. -/
theorem claimed_eq (h : SettlesNothing state state') (pending : List SettledDownload) :
    state'.claimed pending = state.claimed pending := by
  unfold DownloadState.claimed
  rw [h.transfers]

end SettlesNothing

/-- Files are kept apart by a step that settles nothing. -/
theorem KeepsApart.settle (h : KeepsApart platform destination visited pending state)
    (hstep : SettlesNothing state state') :
    KeepsApart platform destination visited pending state' := by
  obtain ⟨claims, hledger, hitems, hholds⟩ := h.ledger
  have hclaimed := hstep.claimed_eq pending
  obtain ⟨added, heffects, hadded⟩ := hstep.effects
  have hnone : added.filterMap LocalEffect.transferredItem = [] :=
    List.filterMap_eq_nil_iff.mpr fun effect hmem =>
      (LocalEffect.transferred_of_isSettling (hadded effect hmem)).1
  have hnone' : added.filterMap LocalEffect.transferredCount = [] :=
    List.filterMap_eq_nil_iff.mpr fun effect hmem =>
      (LocalEffect.transferred_of_isSettling (hadded effect hmem)).2
  refine ⟨⟨claims, hstep.ledger.trans hledger, ?_, ?_⟩, ?_, ?_, ?_, ?_, ?_, ?_⟩
  · intro item hmem
    rw [hclaimed] at hmem
    obtain ⟨node, hnode, hfile, hget⟩ := hitems item hmem
    refine ⟨node, identity_extends hstep.disk hnode, ?_, hget⟩
    rw [hstep.disk.kinds node (identity_lt hnode)]
    exact hfile
  · intro node remote hget
    rw [hclaimed]
    exact (hholds node remote hget).extend hstep.disk (List.Subset.refl _) (List.Subset.refl _)
  · rw [hclaimed]
    refine h.apart.imp_of_mem fun {item other} hitem hother hne => ?_
    obtain ⟨node, hnode, -, -⟩ := hitems item hitem
    obtain ⟨node', hnode', -, -⟩ := hitems other hother
    rw [hnode, hnode'] at hne
    rw [identity_extends hstep.disk hnode, identity_extends hstep.disk hnode']
    exact hne
  · intro collision hmem
    rw [hstep.collisions] at hmem
    rw [hclaimed]
    exact (h.collisions collision hmem).extend hstep.disk (List.Subset.refl _)
      (List.Subset.refl _)
  · intro transfer hmem node hstage
    rw [hstep.transfers] at hmem
    exact identity_extends hstep.disk (h.writing transfer hmem node hstage)
  · intro effect hmem
    rw [heffects] at hmem
    rcases List.mem_append.mp hmem with hold | hnew
    · rw [hclaimed]
      exact (h.own effect hold).extend hstep.disk (List.Subset.refl _)
    · exact LocalEffect.isOwn_of_isSettling (hadded effect hnew)
  · rw [heffects, List.filterMap_append, hnone, List.append_nil, hstep.transfers]
    exact h.transferred
  · rw [heffects, List.filterMap_append, hnone', List.append_nil, hstep.moved]
    exact h.counts

/-! ## What workers do -/

/-- The transfers around one that comes to another stage. -/
theorem transfers_staging {index : ℕ} {transfer : Transfer} (transfer' : Transfer)
    (hindex : state.transfers[index]? = some transfer) :
    ∃ front back, state.transfers = front ++ transfer :: back ∧
      (state.staging index transfer').transfers = front ++ transfer' :: back := by
  obtain ⟨hlt, rfl⟩ := List.getElem?_eq_some_iff.mp hindex
  obtain ⟨front, back, heq, -, hset⟩ : ∃ front back,
      state.transfers = front ++ state.transfers[index] :: back ∧ front.length = index ∧
        state.transfers.set index transfer' = front ++ transfer' :: back := List.exists_of_set hlt
  exact ⟨front, back, heq, hset⟩

/-- Coming to another stage keeps what was claimed. -/
theorem claimed_staging {index : ℕ} {item : SettledDownload} {stage stage' : TransferStage}
    (hindex : state.transfers[index]? = some ⟨item, stage⟩) :
    (state.staging index ⟨item, stage'⟩).claimed pending = state.claimed pending := by
  obtain ⟨front, back, heq, hset⟩ := transfers_staging ⟨item, stage'⟩ hindex
  unfold DownloadState.claimed
  rw [heq, hset]
  simp

/-- The file of a transfer was claimed. -/
theorem mem_claimed {index : ℕ} {transfer : Transfer}
    (hindex : state.transfers[index]? = some transfer) :
    transfer.item ∈ state.claimed pending :=
  List.mem_append_left _ (List.mem_map_of_mem (List.mem_of_getElem? hindex))

namespace KeepsApart

/-- A claimed file is a file that its path names. -/
theorem file (h : KeepsApart platform destination visited pending state) {item : SettledDownload}
    (hitem : item ∈ state.claimed pending) :
    ∃ node, platform.identity state.disk item.target = .ok node ∧
      state.disk.kinds node = .file := by
  obtain ⟨claims, -, hitems, -⟩ := h.ledger
  obtain ⟨node, hnode, hfile, -⟩ := hitems item hitem
  exact ⟨node, hnode, hfile⟩

/-- Two claimed files with one node are one file. -/
theorem unique (h : KeepsApart platform destination visited pending state)
    {item other : SettledDownload} (hitem : item ∈ state.claimed pending)
    (hother : other ∈ state.claimed pending) {node : ℕ}
    (hnode : platform.identity state.disk item.target = .ok node)
    (hnode' : platform.identity state.disk other.target = .ok node) : item = other := by
  by_contra hne
  have hsymm : Std.Symm fun item other : SettledDownload =>
      platform.identity state.disk item.target ≠ platform.identity state.disk other.target :=
    ⟨fun _ _ => Ne.symm⟩
  exact h.apart.forall hitem hother hne (hnode.trans hnode'.symm)

/-- A transfer comes to a stage at which nothing is done yet. -/
theorem staging (h : KeepsApart platform destination visited pending state) {index : ℕ}
    {item : SettledDownload} {stage stage' : TransferStage}
    (hindex : state.transfers[index]? = some ⟨item, stage⟩) (hdone : stage.isDone = false)
    (hdone' : stage'.isDone = false)
    (hwriting : ∀ node, stage' = .writing node →
      platform.identity state.disk item.target = .ok node) :
    KeepsApart platform destination visited pending (state.staging index ⟨item, stage'⟩) := by
  obtain ⟨front, back, heq, hset⟩ := transfers_staging ⟨item, stage'⟩ hindex
  have hclaimed : (state.staging index ⟨item, stage'⟩).claimed pending = state.claimed pending :=
    claimed_staging hindex
  refine ⟨?_, ?_, ?_, ?_, ?_, ?_, h.counts⟩
  · rw [hclaimed]
    exact h.ledger
  · rw [hclaimed]
    exact h.apart
  · rw [hclaimed]
    exact h.collisions
  · intro transfer hmem node hstage
    rcases List.mem_or_eq_of_mem_set hmem with hold | rfl
    · exact h.writing transfer hold node hstage
    · exact hwriting node hstage
  · rw [hclaimed]
    exact h.own
  · have htransferred := h.transferred
    rw [heq, List.filter_append, List.filter_cons_of_neg (by rw [hdone]; exact Bool.false_ne_true)]
      at htransferred
    rw [hset, List.filter_append, List.filter_cons_of_neg (by rw [hdone']; exact Bool.false_ne_true)]
    exact htransferred

/-- A worker does something to the file that it opened. -/
theorem record (h : KeepsApart platform destination visited pending state) {effect : LocalEffect}
    (hown : effect.IsOwn platform (state.claimed pending) state.disk)
    (hitem : effect.transferredItem = none) (hcount : effect.transferredCount = none) :
    KeepsApart platform destination visited pending (state.record effect) := by
  refine ⟨h.ledger, h.apart, h.collisions, h.writing, ?_, ?_, ?_⟩
  · exact List.forall_mem_append.mpr ⟨h.own, List.forall_mem_singleton.mpr hown⟩
  · change ((state.effects ++ [effect]).filterMap _).Perm _
    rw [List.filterMap_append, List.filterMap_cons_none hitem, List.filterMap_nil, List.append_nil]
    exact h.transferred
  · change _ = (state.effects ++ [effect]).filterMap _
    rw [List.filterMap_append, List.filterMap_cons_none hcount, List.filterMap_nil, List.append_nil]
    exact h.counts

/-- A worker is done with its file. -/
theorem finish (h : KeepsApart platform destination visited pending state) {index : ℕ}
    {item : SettledDownload} {stage : TransferStage} (count : ℕ)
    (hindex : state.transfers[index]? = some ⟨item, stage⟩) (hdone : stage.isDone = false) :
    KeepsApart platform destination visited pending
      { (state.record (.transferred item count)).staging index ⟨item, .done count⟩
        with moved := state.moved ++ [count] } := by
  obtain ⟨front, back, heq, hset⟩ := transfers_staging ⟨item, .done count⟩ hindex
  have hclaimed : DownloadState.claimed pending
      { (state.record (.transferred item count)).staging index ⟨item, .done count⟩
        with moved := state.moved ++ [count] } = state.claimed pending := by
    change (state.staging index ⟨item, .done count⟩).claimed pending = _
    exact claimed_staging hindex
  refine ⟨?_, ?_, ?_, ?_, ?_, ?_, ?_⟩
  · rw [hclaimed]
    exact h.ledger
  · rw [hclaimed]
    exact h.apart
  · rw [hclaimed]
    exact h.collisions
  · intro transfer hmem node hstage
    rcases List.mem_or_eq_of_mem_set hmem with hold | rfl
    · exact h.writing transfer hold node hstage
    · cases hstage
  · rw [hclaimed]
    exact List.forall_mem_append.mpr
      ⟨h.own, List.forall_mem_singleton.mpr (mem_claimed hindex)⟩
  · have htransferred := h.transferred
    change ((state.effects ++ [LocalEffect.transferred item count]).filterMap _).Perm
      (((state.staging index ⟨item, .done count⟩).transfers.filter _).map _)
    rw [heq, List.filter_append, List.filter_cons_of_neg (by rw [hdone]; exact Bool.false_ne_true)]
      at htransferred
    rw [hset, List.filter_append, List.filter_cons_of_pos (by rfl), List.filterMap_append,
      List.map_append, List.map_cons]
    rw [List.map_append] at htransferred
    refine (htransferred.append_right _).trans ?_
    rw [List.append_assoc]
    exact (List.perm_append_singleton item _).append_left _
  · change state.moved ++ [count] = (state.effects ++ [LocalEffect.transferred item count]).filterMap _
    rw [List.filterMap_append, ← h.counts]
    rfl

/-- The steps of workers keep files apart. -/
theorem step {options : TreeOptions} {follow : Bool}
    (hstep : WorkerStep platform options follow state state')
    (h : KeepsApart platform destination visited pending state) :
    KeepsApart platform destination visited pending state' := by
  cases hstep with
  | same => exact h
  | scheduled schedule => exact h.settle (.quiet rfl rfl rfl rfl rfl rfl rfl)
  | takes hindex => exact h.staging hindex rfl rfl fun node heq => by cases heq
  | @opens index item place node disk' hindex hopen =>
    have hmem : item ∈ state.claimed pending := mem_claimed hindex
    obtain ⟨node', hnode, hfile⟩ := h.file hmem
    obtain ⟨rfl, hdisk⟩ := (opened_of_openCall hopen).same hnode hfile
    subst hdisk
    have hown : (LocalEffect.opened item place node).IsOwn platform (state.claimed pending)
        state.disk := ⟨hmem, hnode⟩
    have hrecord := h.record hown rfl rfl
    exact hrecord.staging hindex rfl rfl fun node' heq => by
      cases heq
      exact hnode
  | @writes index item node hindex =>
    exact h.record ⟨mem_claimed hindex, h.writing _ (List.mem_of_getElem? hindex) node rfl⟩ rfl rfl
  | @marks index item stage effect hindex hmark =>
    have hmem : item ∈ state.claimed pending := mem_claimed hindex
    obtain ⟨node, ⟨rfl, mark, rfl⟩ | ⟨place, hopen, heffect⟩⟩ := hmark
    · exact h.record ⟨hmem, h.writing _ (List.mem_of_getElem? hindex) node rfl⟩ rfl rfl
    · obtain ⟨node', hnode, hfile⟩ := h.file hmem
      obtain rfl := (reopened_of_reopenCall hopen).same hnode hfile
      obtain rfl | ⟨mark, rfl⟩ := heffect
      · exact h.record ⟨hmem, hnode⟩ rfl rfl
      · exact h.record ⟨hmem, hnode⟩ rfl rfl
  | finishes hindex hdone _ => exact h.finish _ hindex hdone

end KeepsApart

/-! ## Claiming -/

/-- A path names nothing that was claimed. -/
def IsFree (platform : Platform) (path : LocalPath) (state : DownloadState) : Prop :=
  ∀ claims, state.ledger = .destination claims →
    ∀ node, platform.identity state.disk path = .ok node → claims.get node = none

/-- A path names what a remote path holds. -/
def IsHeld (platform : Platform) (destination : LocalPath) (visited : List WalkEntry)
    (pending : List SettledDownload) (path : LocalPath) (remote : Bytes) (state : DownloadState) :
    Prop :=
  ∃ node, platform.identity state.disk path = .ok node ∧
    HoldsNode platform destination visited (state.claimed pending) state.disk node remote

/-- Whether anything holds what a path names, with whatever else is known of the state. -/
theorem meets_collidesWith (path : LocalPath) (also : DownloadState → Prop) :
    Meets (fun state => KeepsApart platform destination visited pending state ∧ also state)
      (collidesWith platform path)
      (fun first state => (KeepsApart platform destination visited pending state ∧ also state) ∧
        first.elim (IsFree platform path state)
          (IsHeld platform destination visited pending path · state))
      fun _ => KeepsApart platform destination visited pending := by
  refine Meets.of fun state h => ?_
  obtain ⟨claims, hledger, -, hholds⟩ := h.1.ledger
  simp only [hledger]
  cases hidentity : platform.identity state.disk path with
  | error error =>
    have hfree : IsFree platform path state := fun claims' _ node heq => by
      rw [hidentity] at heq
      cases heq
    split
    · cases ‹Except.error error = Except.ok _›
    · exact ⟨h, hfree⟩
    · exact h.1
  | ok node =>
    cases hget : claims.get node with
    | none =>
      have hfree : IsFree platform path state := fun claims' hledger' node' heq => by
        rw [hledger] at hledger'
        cases hledger'
        rw [hidentity] at heq
        cases heq
        exact hget
      exact ⟨h, by rw [hget]; exact hfree⟩
    | some remote =>
      have hheld : IsHeld platform destination visited pending path remote state :=
        ⟨node, hidentity, hholds node remote hget⟩
      exact ⟨h, by rw [hget]; exact hheld⟩

namespace KeepsApart

/-- A visited directory may hold nodes. -/
theorem visit (h : KeepsApart platform destination visited pending state) (entry : WalkEntry) :
    KeepsApart platform destination (visited ++ [entry]) pending state := by
  have hsub : visited ⊆ visited ++ [entry] := List.subset_append_left _ _
  obtain ⟨claims, hledger, hitems, hholds⟩ := h.ledger
  exact { h with
    ledger := ⟨claims, hledger, hitems, fun node remote hget =>
      (hholds node remote hget).extend (.refl _) hsub (List.Subset.refl _)⟩
    collisions := fun collision hmem =>
      (h.collisions collision hmem).extend (.refl _) hsub (List.Subset.refl _) }

/-- A collision that names what holds its node is reported. -/
theorem collide (h : KeepsApart platform destination visited pending state)
    {collision : PathCollision}
    (hcollision : collision.Names platform destination visited (state.claimed pending)
      state.disk) :
    KeepsApart platform destination visited pending
      { state with collisions := state.collisions ++ [collision] } :=
  { h with
    collisions := List.forall_mem_append.mpr
      ⟨h.collisions, List.forall_mem_singleton.mpr hcollision⟩ }

/-- A node that was not claimed is claimed for a visited directory. -/
theorem claimDirectory (h : KeepsApart platform destination visited pending state)
    {claims : Dict ℕ Bytes} (hledger : state.ledger = .destination claims) {node : ℕ}
    (hfree : claims.get node = none) {remote : Bytes}
    (hholds : HoldsNode platform destination visited (state.claimed pending) state.disk node
      remote) :
    KeepsApart platform destination visited pending
      { state with ledger := .destination (claims.set node remote) } := by
  obtain ⟨claims', hledger', hitems, hheld⟩ := h.ledger
  obtain rfl : claims = claims' := by
    rw [hledger] at hledger'
    cases hledger'
    rfl
  refine { h with ledger := ⟨claims.set node remote, rfl, fun item hmem => ?_, ?_⟩ }
  · obtain ⟨other, hother, hfile, hget⟩ := hitems item hmem
    refine ⟨other, hother, hfile, ?_⟩
    rw [Dict.get_set, if_neg]
    · exact hget
    · rintro rfl
      rw [hfree] at hget
      cases hget
  · intro other remote' hget
    rw [Dict.get_set] at hget
    split_ifs at hget with heq
    · cases hget
      exact heq ▸ hholds
    · exact hheld other remote' hget

/-- A node that was not claimed is claimed for a file. -/
theorem claimFile (h : KeepsApart platform destination visited [] state)
    {claims : Dict ℕ Bytes} (hledger : state.ledger = .destination claims) {node : ℕ}
    (hfree : claims.get node = none) {item : SettledDownload}
    (hnode : platform.identity state.disk item.target = .ok node)
    (hfile : state.disk.kinds node = .file) :
    KeepsApart platform destination visited [item]
      { state with ledger := .destination (claims.set node item.remote) } := by
  have hclaimed : state.claimed [item] = state.claimed [] ++ [item] := by
    simp [DownloadState.claimed]
  have hsub : state.claimed [] ⊆ state.claimed [item] := by
    rw [hclaimed]
    exact List.subset_append_left _ _
  have hmem : item ∈ state.claimed [item] := by
    rw [hclaimed]
    exact List.mem_append_right _ (List.mem_singleton_self _)
  obtain ⟨claims', hledger', hitems, hheld⟩ := h.ledger
  obtain rfl : claims = claims' := by
    rw [hledger] at hledger'
    cases hledger'
    rfl
  refine ⟨⟨claims.set node item.remote, rfl, ?_, ?_⟩, ?_, ?_, h.writing, ?_, h.transferred,
    h.counts⟩
  · change ∀ other ∈ state.claimed [item], _
    rw [hclaimed]
    refine List.forall_mem_append.mpr ⟨fun other hother => ?_, List.forall_mem_singleton.mpr
      ⟨node, hnode, hfile, by rw [Dict.get_set, if_pos rfl]⟩⟩
    obtain ⟨node', hnode', hfile', hget⟩ := hitems other hother
    refine ⟨node', hnode', hfile', ?_⟩
    rw [Dict.get_set, if_neg]
    · exact hget
    · rintro rfl
      rw [hfree] at hget
      cases hget
  · intro other remote' hget
    rw [Dict.get_set] at hget
    split_ifs at hget with heq
    · cases hget
      exact Or.inl ⟨item, hmem, rfl, heq ▸ hnode⟩
    · exact (hheld other remote' hget).extend (.refl _) (List.Subset.refl _) hsub
  · change (state.claimed [item]).Pairwise _
    rw [hclaimed]
    refine List.pairwise_append.mpr ⟨h.apart, List.pairwise_singleton _ _, ?_⟩
    intro other hother new hnew heq
    cases List.mem_singleton.mp hnew
    obtain ⟨node', hnode', -, hget⟩ := hitems other hother
    rw [hnode', hnode] at heq
    cases heq
    rw [hfree] at hget
    cases hget
  · intro collision hcollision
    exact (h.collisions collision hcollision).extend (.refl _) (List.Subset.refl _) hsub
  · intro effect heffect
    exact (h.own effect heffect).extend (.refl _) hsub

end KeepsApart

/-- Claiming a file that nothing holds. -/
theorem meets_claim_file {item : SettledDownload} :
    Meets (fun state => KeepsApart platform destination visited [] state ∧
        IsFree platform item.target state ∧ ∃ node,
          platform.identity state.disk item.target = .ok node ∧ state.disk.kinds node = .file)
      (claim platform item.target item.remote)
      (fun _ => KeepsApart platform destination visited [item])
      fun _ => KeepsApart platform destination visited [] := by
  refine Meets.of fun state hstate => ?_
  obtain ⟨h, hfree, node, hnode, hfile⟩ := hstate
  obtain ⟨claims, hledger, -⟩ := h.ledger
  simp only [hledger, hnode]
  exact h.claimFile hledger (hfree claims hledger node hnode) hnode hfile

/-- Making a file empty makes it a file that its path names. -/
theorem meets_touchDestination (path : LocalPath) :
    Meets (KeepsApart platform destination visited pending) (touchDestination platform path)
      (fun _ state => KeepsApart platform destination visited pending state ∧ ∃ node,
        platform.identity state.disk path = .ok node ∧ state.disk.kinds node = .file)
      fun _ => KeepsApart platform destination visited pending := by
  refine Meets.of fun state h => ?_
  split
  · rename_i place node disk' hopen
    have hopened := opened_of_openCall hopen
    exact ⟨h.settle (.record hopened.kept rfl), node, hopened.identity, hopened.file⟩
  · exact h

/-- Claiming a file on its own node claims it, or says what holds the node. -/
theorem meets_claimLocalDestination (item : SettledDownload) :
    Meets (KeepsApart platform destination visited [])
      (claimLocalDestination platform false item)
      (fun collision state => collision.elim (KeepsApart platform destination visited [item] state)
        fun collision => KeepsApart platform destination visited [] state ∧
          collision.remote = item.remote ∧
          collision.Names platform destination visited (state.claimed []) state.disk)
      fun _ => KeepsApart platform destination visited [] := by
  unfold claimLocalDestination
  refine (meets_touchDestination item.target).bind fun _ => ?_
  refine (meets_collidesWith item.target fun state => ∃ node,
    platform.identity state.disk item.target = .ok node ∧ state.disk.kinds node = .file).bind ?_
  intro first
  cases first with
  | none =>
    refine (meets_claim_file.strengthen fun state h => ?_).bind fun _ => Meets.pure fun _ => id
    obtain ⟨⟨h, hfile⟩, hfree⟩ := h
    exact ⟨h, hfree, hfile⟩
  | some first =>
    refine Meets.pure fun state h => ?_
    obtain ⟨⟨h, -⟩, node, hnode, hholds⟩ := h
    exact ⟨h, rfl, node, hholds, Or.inl hnode⟩

/-- Claiming the local directory of a visited one claims it, or reports what holds it. -/
theorem meets_claimDirectory (entry : WalkEntry) :
    Meets (KeepsApart platform destination visited [])
      (claimDirectory platform (destination ++ entry.relative.map .down) entry)
      (fun _ => KeepsApart platform destination (visited ++ [entry]) [])
      fun _ => KeepsApart platform destination (visited ++ [entry]) [] := by
  unfold claimDirectory
  refine Meets.get fun state h => ?_
  have hvisit := h.visit entry
  refine ((meets_collidesWith _ fun other => other = state).strengthen
    fun other heq => ⟨heq ▸ hvisit, heq⟩).bind fun first => ?_
  cases first with
  | none =>
    refine Meets.of fun other hother => ?_
    obtain ⟨⟨hkept, rfl⟩, hfree⟩ := hother
    obtain ⟨claims, hledger, -⟩ := hkept.ledger
    simp only [hledger]
    cases hidentity : platform.identity other.disk
      (platform.resolve other.disk (destination ++ entry.relative.map .down)) with
    | error error => exact hvisit
    | ok node =>
      refine hvisit.claimDirectory hledger (hfree claims hledger node hidentity) (Or.inr ?_)
      exact ⟨entry, List.mem_append_right _ (List.mem_singleton_self _), rfl, hidentity⟩
  | some first =>
    refine Meets.of fun other hother => ?_
    obtain ⟨⟨-, rfl⟩, node, hnode, hholds⟩ := hother
    exact hvisit.collide ⟨node, hholds, Or.inr hnode⟩

/-! ## Accounts -/

/-- A step that keeps what is accounted for. -/
def SameAccount (state state' : DownloadState) : Prop :=
  state'.transfers = state.transfers ∧ state'.skipped = state.skipped ∧
    state'.collisions = state.collisions

/-- A step that settles nothing keeps what is accounted for. -/
theorem SettlesNothing.sameAccount (h : SettlesNothing state state') : SameAccount state state' :=
  ⟨h.transfers, h.skipped, h.collisions⟩

/-- Claiming a file keeps the account of a download. -/
theorem does_claimLocalDestination (item : SettledDownload) :
    Does SameAccount (claimLocalDestination platform false item) := by
  have htouch : Does SameAccount (touchDestination platform item.target) := by
    refine Does.of fun state => ?_
    split
    · exact ⟨rfl, rfl, rfl⟩
    · exact ⟨rfl, rfl, rfl⟩
  have hasked : Does SameAccount (collidesWith platform item.target) := by
    refine Does.of fun state => ?_
    split
    · exact ⟨rfl, rfl, rfl⟩
    · split
      · exact ⟨rfl, rfl, rfl⟩
      · exact ⟨rfl, rfl, rfl⟩
      · exact ⟨rfl, rfl, rfl⟩
  have hclaim : Does SameAccount (claim platform item.target item.remote) := by
    refine Does.of fun state => ?_
    split
    · exact ⟨rfl, rfl, rfl⟩
    · split
      · exact ⟨rfl, rfl, rfl⟩
      · exact ⟨rfl, rfl, rfl⟩
  refine htouch.bind fun _ => hasked.bind fun first => ?_
  cases first with
  | none => exact hclaim.bind fun _ => .pure _
  | some first => exact .pure _

/-- A worker keeps what was claimed and what was reported. -/
theorem WorkerStep.account {options : TreeOptions} {follow : Bool}
    (hstep : WorkerStep platform options follow state state') (pending : List SettledDownload) :
    state'.claimed pending = state.claimed pending ∧ state'.skipped = state.skipped ∧
      state'.collisions = state.collisions := by
  cases hstep with
  | same => exact ⟨rfl, rfl, rfl⟩
  | scheduled schedule => exact ⟨rfl, rfl, rfl⟩
  | takes hindex => exact ⟨claimed_staging hindex, rfl, rfl⟩
  | opens hindex _ => exact ⟨claimed_staging hindex, rfl, rfl⟩
  | writes hindex => exact ⟨rfl, rfl, rfl⟩
  | marks hindex _ => exact ⟨rfl, rfl, rfl⟩
  | finishes hindex _ _ => exact ⟨claimed_staging hindex, rfl, rfl⟩

/-- Handing out a file makes its transfer one of those that wait. -/
theorem claimed_handing (item : SettledDownload) :
    DownloadState.claimed []
      { state with transfers := state.transfers ++ [⟨item, .waiting⟩] } = state.claimed [item] := by
  simp [DownloadState.claimed]

/-- Handing out a file that was claimed. -/
theorem KeepsApart.handing {item : SettledDownload}
    (h : KeepsApart platform destination visited [item] state) :
    KeepsApart platform destination visited []
      { state with transfers := state.transfers ++ [⟨item, .waiting⟩] } := by
  have hclaimed : DownloadState.claimed []
      { state with transfers := state.transfers ++ [⟨item, .waiting⟩] } = state.claimed [item] :=
    claimed_handing item
  refine ⟨?_, ?_, ?_, ?_, ?_, ?_, h.counts⟩
  · rw [hclaimed]
    exact h.ledger
  · rw [hclaimed]
    exact h.apart
  · rw [hclaimed]
    exact h.collisions
  · refine List.forall_mem_append.mpr ⟨h.writing, List.forall_mem_singleton.mpr ?_⟩
    exact fun node heq => by cases heq
  · rw [hclaimed]
    exact h.own
  · have hwaiting : [Transfer.mk item .waiting].filter (·.stage.isDone) = [] := rfl
    rw [List.filter_append, hwaiting, List.append_nil]
    exact h.transferred

/-! ## Starts and ends -/

/-- A download that has done nothing keeps files apart. -/
theorem keepsApart_fresh (disk : LocalDisk) (schedule : List (List WorkerAct)) :
    KeepsApart platform destination [] [] (.fresh disk (.destination .empty) schedule) where
  ledger := ⟨.empty, rfl, fun item hmem => absurd hmem List.not_mem_nil,
    fun node remote hget => by cases hget⟩
  apart := .nil
  collisions := fun collision hmem => absurd hmem List.not_mem_nil
  writing := fun transfer hmem => absurd hmem List.not_mem_nil
  own := fun effect hmem => absurd hmem List.not_mem_nil
  transferred := .refl _
  counts := rfl

/-- What a download does locally, with its errors raised. -/
theorem apart_raising {α : Type} {program : LocalProgram α} {before : DownloadState → Prop}
    {after : α → DownloadState → Prop}
    (h : Meets before program after (EndsApart platform destination)) :
    Meets before (program.raising LocalError.raised) after (EndsApart platform destination) :=
  Meets.raising h

/-- What the workers do keeps files apart when the download ended early. -/
theorem apart_of_workers {options : TreeOptions} {follow : Bool} {program : DownloadProgram Unit}
    (h : Does (WorkerStep platform options follow) program) (error : TraversalError) :
    Meets (EndsApart platform destination error) program
      (fun _ => EndsApart platform destination error) (EndsApart platform destination) :=
  h.keeps fun _ _ hstep hends => by
    obtain ⟨visited, pending, happart⟩ := hends
    exact ⟨visited, pending, happart.step hstep⟩

/-- Making a directory settles nothing. -/
theorem does_ensureDirectory (path : LocalPath) :
    Does SettlesNothing (ensureDirectory platform path) := by
  refine Does.of fun state => ?_
  split
  · exact .record (made_of_mkdirCall ‹_›).kept rfl
  · exact .refl state
  · split
    · exact .refl state
    · exact .refl state

/-- Nor does making those that it is in. -/
theorem does_ensureParents (steps : List (PathStep Bytes)) :
    Does SettlesNothing (ensureParents platform steps) := by
  induction steps with
  | nil => exact does_ensureDirectory []
  | cons step parents ih =>
    exact Does.get.bind fun _ => (Does.doIf ih).bind fun _ => does_ensureDirectory _

/-- The effects that say what was transferred say how much. -/
theorem length_transferred (effects : List LocalEffect) :
    (effects.filterMap LocalEffect.transferredCount).length =
      (effects.filterMap LocalEffect.transferredItem).length := by
  induction effects with
  | nil => rfl
  | cons effect effects ih =>
    cases effect with
    | transferred item count => exact congrArg (· + 1) ih
    | _ => exact ih

/-- No local file is opened, written or changed for two remote ones. -/
theorem KeepsApart.written (h : KeepsApart platform destination visited pending state)
    {item other : SettledDownload} {node : ℕ}
    (hitem : (item, node) ∈ state.effects.filterMap LocalEffect.written)
    (hother : (other, node) ∈ state.effects.filterMap LocalEffect.written) : item = other := by
  have hown : ∀ {item : SettledDownload},
      (item, node) ∈ state.effects.filterMap LocalEffect.written →
        item ∈ state.claimed pending ∧ platform.identity state.disk item.target = .ok node := by
    intro item hmem
    obtain ⟨effect, heffect, hwritten⟩ := List.mem_filterMap.mp hmem
    have howned := h.own effect heffect
    cases effect with
    | opened item' place node' =>
      cases hwritten
      exact howned
    | wrote item' node' =>
      cases hwritten
      exact howned
    | marked item' mark node' =>
      cases hwritten
      exact howned
    | _ => cases hwritten
  obtain ⟨hmem, hnode⟩ := hown hitem
  obtain ⟨hmem', hnode'⟩ := hown hother
  exact h.unique hmem hmem' hnode hnode'

/-- Once every transfer is over, what was transferred is what was claimed. -/
theorem KeepsApart.finished (h : KeepsApart platform destination visited [] state)
    (hdone : ∀ transfer ∈ state.transfers, transfer.stage.isDone = true) :
    state.transferred.Perm (state.claimed []) := by
  have htransferred := h.transferred
  rw [List.filter_eq_self.mpr hdone] at htransferred
  unfold DownloadState.claimed
  rw [List.append_nil]
  exact htransferred

/-- No file was claimed twice. -/
theorem KeepsApart.nodup (h : KeepsApart platform destination visited pending state) :
    (state.claimed pending).Nodup := h.apart.imp fun hne heq => hne (by rw [heq])

end Claims

end GantrySftp
