import GantrySftp.Session.TreeClaims
import GantrySftp.Session.TreeContainment

/-!
# Downloading a list

A list of remote paths comes to one local directory, each file under the last component of its
path. A list with two paths of one name is refused before anything is transferred; what the file
system takes for one name all the same is claimed once, and reported. The results are in the
order of the list, whatever the order the transfers end in.
-/

namespace GantrySftp

open Library Program Platform

/-! ## Names -/

/-- The last component of a path, which is empty behind a separator. -/
def basename (path : Bytes) : Bytes := (path.reverse.takeWhile (· ≠ slash)).reverse

/-- Two paths that come to one name. -/
structure DuplicateName where
  source : Bytes
  first : Bytes
  name : Bytes
  deriving DecidableEq

/-- Refuse names, each with the path that it is from, once one was claimed before. -/
def refuseDuplicates (claimed : Dict Bytes Bytes) :
    List (Bytes × Bytes) → Except DuplicateName Unit
  | [] => .ok ()
  | (name, source) :: derived =>
    match claimed.get name with
    | some first => .error ⟨source, first, name⟩
    | none => refuseDuplicates (claimed.set name source) derived

/-- What a download of a list raises. -/
inductive ListError
  | download (error : DownloadError)
  | duplicate (error : DuplicateName)
  deriving DecidableEq

section Calls

variable (platform : Platform)

/-- Name the local file of a remote path. -/
def settleDownload (disk : LocalDisk) (destination : LocalPath) (remote : Bytes) :
    Except LocalError SettledDownload := do
  let target ← platform.checkContained disk destination
    (← platform.localChild destination (basename remote))
  pure ⟨remote, target⟩

/-- Name the local file of each remote path, and refuse a list with two of one name. -/
def settleDownloads (disk : LocalDisk) (destination : LocalPath) (remotes : List Bytes) :
    Except ListError (List SettledDownload) := do
  let settled ← (remotes.mapM (settleDownload platform disk destination)).mapError
    fun error => .download (.raised error.raised)
  (refuseDuplicates .empty (settled.map fun item => (basename item.remote, item.remote))).mapError
    .duplicate
  pure settled

/-- What a caller of `get_many` chooses, less the destination. -/
structure ListOptions where
  preserveTimes : Bool := false
  mode : Option Mode := none
  resume : Bool := false
  deriving DecidableEq

/-- What a caller of `get_many` chooses, as one of `get_tree` would. -/
def ListOptions.toTree (options : ListOptions) : TreeOptions where
  preserveTimes := options.preserveTimes
  mode := options.mode
  resume := options.resume

/-- Claim the file of a list, and hand it out or report what holds it. -/
def produceItem (options : ListOptions) (item : SettledDownload) : DownloadProgram Unit := do
  match ← (claimLocalDestination platform false item).raising LocalError.raised with
  | none => hand platform options.toTree true item
  | some collision => modify fun state =>
      { state with collisions := state.collisions ++ [collision] }

/-- What was transferred, with how much. -/
def DownloadState.finished (state : DownloadState) : List (SettledDownload × ℕ) :=
  state.effects.filterMap fun effect =>
    match effect with
    | .transferred item count => some (item, count)
    | _ => none

/-- What was transferred of each item of a list, in the order of the list. -/
def listResults (items : List SettledDownload) (state : DownloadState) : List ℕ :=
  ((state.finished.map fun one => (items.idxOf one.1, one.2)).mergeSort
    fun one other => one.1 ≤ other.1).map Prod.snd

/-- Download a list of remote paths into a local directory. -/
def getMany (options : ListOptions) (remotes : List Bytes) (destination : LocalPath) :
    Program DownloadState ListError (List ℕ) := do
  (requireLocalIo platform "get_many()").raising .download
  (ensureParents platform destination.reverse).raising fun error => .download (.raised error.raised)
  let items ← .of fun state => (settleDownloads platform state.disk destination remotes, state)
  (forEachBounded platform options.toTree true
    (items.forM (produceItem platform options))).raising fun error => .download (.raised error)
  let state ← MonadState.get
  let results := listResults items state
  if state.collisions = [] then pure results
  else throw (.download (.collided state.collisions destination results.length results.sum))

end Calls

/-! ## Refusals -/

/-- Names that were claimed neither before nor as one more. -/
theorem claimed_of_set {claimed : Dict Bytes Bytes} {name source : Bytes} {names : List Bytes}
    (h : ∀ other ∈ names, (claimed.set name source).get other = none) :
    ∀ other ∈ names, name ≠ other ∧ claimed.get other = none := by
  intro other hmem
  have hother := h other hmem
  rw [Dict.get_set] at hother
  split_ifs at hother with heq
  exact ⟨heq, hother⟩

/-- A list of names is accepted when they differ from one another and from those claimed. -/
theorem refuseDuplicates_ok {claimed : Dict Bytes Bytes} {derived : List (Bytes × Bytes)}
    (h : refuseDuplicates claimed derived = .ok ()) :
    (derived.map Prod.fst).Nodup ∧ ∀ name ∈ derived.map Prod.fst, claimed.get name = none := by
  induction derived generalizing claimed with
  | nil => exact ⟨.nil, fun name hmem => absurd hmem List.not_mem_nil⟩
  | cons entry derived ih =>
    obtain ⟨name, source⟩ := entry
    rw [refuseDuplicates] at h
    cases hget : claimed.get name with
    | some first =>
      rw [hget] at h
      cases h
    | none =>
      rw [hget] at h
      obtain ⟨hnodup, hnone⟩ := ih h
      have hkept := claimed_of_set hnone
      refine ⟨List.nodup_cons.mpr ⟨fun hmem => (hkept name hmem).1 rfl, hnodup⟩, ?_⟩
      exact List.forall_mem_cons.mpr ⟨hget, fun other hmem => (hkept other hmem).2⟩

/-- A list of names is refused for the first that was claimed before. -/
theorem refuseDuplicates_error {claimed : Dict Bytes Bytes} {derived : List (Bytes × Bytes)}
    {duplicate : DuplicateName} (h : refuseDuplicates claimed derived = .error duplicate) :
    ∃ front back, derived = front ++ (duplicate.name, duplicate.source) :: back ∧
      ((front.map Prod.fst).Nodup ∧ ∀ name ∈ front.map Prod.fst, claimed.get name = none) ∧
      (claimed.get duplicate.name = some duplicate.first ∨
        (duplicate.name, duplicate.first) ∈ front) := by
  induction derived generalizing claimed with
  | nil => cases h
  | cons entry derived ih =>
    obtain ⟨name, source⟩ := entry
    rw [refuseDuplicates] at h
    cases hget : claimed.get name with
    | some first =>
      rw [hget] at h
      cases h
      exact ⟨[], derived, rfl, ⟨.nil, fun name hmem => absurd hmem List.not_mem_nil⟩, Or.inl hget⟩
    | none =>
      rw [hget] at h
      obtain ⟨front, back, rfl, ⟨hnodup, hnone⟩, hfirst⟩ := ih h
      have hkept := claimed_of_set hnone
      refine ⟨(name, source) :: front, back, rfl, ⟨?_, ?_⟩, ?_⟩
      · exact List.nodup_cons.mpr ⟨fun hmem => (hkept name hmem).1 rfl, hnodup⟩
      · exact List.forall_mem_cons.mpr ⟨hget, fun other hmem => (hkept other hmem).2⟩
      · rw [Dict.get_set] at hfirst
        rcases hfirst with hfirst | hmem
        · split_ifs at hfirst with heq
          · cases hfirst
            exact Or.inr (heq ▸ List.mem_cons_self)
          · exact Or.inl hfirst
        · exact Or.inr (List.mem_cons_of_mem _ hmem)

/-! ## Settling -/

/-- The first two paths of a list that come to one name. -/
def DuplicateName.IsFirst (remotes : List Bytes) (duplicate : DuplicateName) : Prop :=
  ∃ front back, remotes = front ++ duplicate.source :: back ∧ (front.map basename).Nodup ∧
    duplicate.first ∈ front ∧ basename duplicate.source = duplicate.name ∧
    basename duplicate.first = duplicate.name

section Settling

variable {platform : Platform} {disk : LocalDisk} {destination : LocalPath}

/-- A settled item is for its remote path, and its target is allowed. -/
theorem settleDownload_ok {remote : Bytes} {item : SettledDownload}
    (h : settleDownload platform disk destination remote = .ok item) :
    item.remote = remote ∧ Allowed platform disk destination item.target := by
  unfold settleDownload at h
  rcases localChild_cases platform destination (basename remote) with
    ⟨hname, heq⟩ | ⟨-, error, -, heq⟩
  · rw [heq] at h
    change (platform.checkContained disk destination (destination ++ [.down (basename remote)]) >>=
      fun target => pure ⟨remote, target⟩) = Except.ok item at h
    rcases checkContained_cases platform disk destination
      (destination ++ [.down (basename remote)]) with ⟨hinside, hcheck⟩ | ⟨-, error, -, hcheck⟩
    · rw [hcheck] at h
      cases h
      exact ⟨rfl, [basename remote], rfl, List.forall_mem_singleton.mpr hname, hinside⟩
    · rw [hcheck] at h
      cases h
  · rw [heq] at h
    cases h

/-- Settled items are for their remote paths, in order, and their targets are allowed. -/
theorem mapM_settleDownload_ok {remotes : List Bytes} {items : List SettledDownload}
    (h : remotes.mapM (settleDownload platform disk destination) = .ok items) :
    items.map SettledDownload.remote = remotes ∧
      ∀ item ∈ items, Allowed platform disk destination item.target := by
  induction remotes generalizing items with
  | nil =>
    rw [List.mapM_nil] at h
    cases h
    exact ⟨rfl, fun item hmem => absurd hmem List.not_mem_nil⟩
  | cons remote remotes ih =>
    rw [List.mapM_cons] at h
    cases hone : settleDownload platform disk destination remote with
    | error error =>
      rw [hone] at h
      cases h
    | ok item =>
      rw [hone] at h
      cases hrest : remotes.mapM (settleDownload platform disk destination) with
      | error error =>
        rw [hrest] at h
        cases h
      | ok rest =>
        rw [hrest] at h
        cases h
        obtain ⟨hremote, hallowed⟩ := settleDownload_ok hone
        obtain ⟨hremotes, hall⟩ := ih hrest
        rw [List.map_cons, hremote, hremotes]
        exact ⟨rfl, List.forall_mem_cons.mpr ⟨hallowed, hall⟩⟩

/-- A list is accepted with items for its paths, whose names differ; or it is refused for the
first two of its paths that come to one name, or for a name that cannot be a local one. -/
theorem settleDownloads_cases (platform : Platform) (disk : LocalDisk) (destination : LocalPath)
    (remotes : List Bytes) :
    (∃ items, settleDownloads platform disk destination remotes = .ok items ∧
      items.map SettledDownload.remote = remotes ∧ (remotes.map basename).Nodup ∧
      ∀ item ∈ items, Allowed platform disk destination item.target) ∨
    (∃ duplicate, settleDownloads platform disk destination remotes =
      .error (.duplicate duplicate) ∧ duplicate.IsFirst remotes) ∨
    ∃ error, settleDownloads platform disk destination remotes =
      .error (.download (.raised error)) := by
  unfold settleDownloads
  cases hsettled : remotes.mapM (settleDownload platform disk destination) with
  | error error => exact Or.inr (Or.inr ⟨_, rfl⟩)
  | ok items =>
    obtain ⟨hremotes, hallowed⟩ := mapM_settleDownload_ok hsettled
    have hderived : items.map (fun item => (basename item.remote, item.remote)) =
        remotes.map fun remote => (basename remote, remote) := by
      rw [← hremotes, List.map_map]
      rfl
    simp only [Except.mapError, bind, Except.bind, hderived]
    cases hrefused : refuseDuplicates .empty
        (remotes.map fun remote => (basename remote, remote)) with
    | ok _ =>
      obtain ⟨hnodup, -⟩ := refuseDuplicates_ok hrefused
      rw [List.map_map] at hnodup
      exact Or.inl ⟨items, rfl, hremotes, hnodup, hallowed⟩
    | error duplicate =>
      refine Or.inr (Or.inl ⟨duplicate, rfl, ?_⟩)
      obtain ⟨front, back, hsplit, ⟨hnodup, -⟩, hfirst⟩ := refuseDuplicates_error hrefused
      obtain ⟨front', rest, rfl, rfl, hrest⟩ := List.map_eq_append_iff.mp hsplit
      obtain ⟨source, back', rfl, hsource, -⟩ := List.map_eq_cons_iff.mp hrest
      obtain ⟨hname, rfl⟩ := Prod.mk.inj hsource
      rw [List.map_map] at hnodup
      rcases hfirst with hfirst | hfirst
      · cases hfirst
      · obtain ⟨first, hmem, heq⟩ := List.mem_map.mp hfirst
        obtain ⟨hname', rfl⟩ := Prod.mk.inj heq
        exact ⟨front', back', rfl, hnodup, hmem, hname, hname'⟩

end Settling

/-! ## Runs -/

section Accounts

variable (platform : Platform)

/-- A download that claimed or reported each of these items, in the order that they came in. -/
structure ListAccount (items pending : List SettledDownload) (state : DownloadState) : Prop where
  order : (state.claimed pending).Sublist items
  files : ((state.claimed pending).map SettledDownload.remote ++
    state.collisions.map PathCollision.remote).Perm (items.map SettledDownload.remote)

/-- A download of a list that keeps files apart and accounts for them. -/
def Lists (items pending : List SettledDownload) (state : DownloadState) : Prop :=
  KeepsApart platform [] [] pending state ∧ ListAccount items pending state

variable {platform} {items pending : List SettledDownload} {state state' : DownloadState}

/-- A worker keeps everything. -/
theorem Lists.step {options : TreeOptions} {follow : Bool}
    (hstep : WorkerStep platform options follow state state')
    (h : Lists platform items pending state) : Lists platform items pending state' := by
  obtain ⟨hclaimed, -, hcollisions⟩ := hstep.account pending
  refine ⟨h.1.step hstep, ?_, ?_⟩
  · rw [hclaimed]
    exact h.2.order
  · rw [hclaimed, hcollisions]
    exact h.2.files

/-- A file was claimed. -/
theorem ListAccount.claim (h : ListAccount items [] state) (item : SettledDownload) :
    ListAccount (items ++ [item]) [item] state := by
  have hclaimed : state.claimed [item] = state.claimed [] ++ [item] := by
    simp [DownloadState.claimed]
  refine ⟨?_, ?_⟩
  · rw [hclaimed]
    exact h.order.append (.refl _)
  · rw [hclaimed, List.map_append, List.append_assoc, List.map_append]
    refine (List.perm_append_comm.append_left _).trans ?_
    rw [← List.append_assoc]
    exact h.files.append_right _

/-- A collision was reported. -/
theorem ListAccount.collide (h : ListAccount items [] state) {item : SettledDownload}
    {collision : PathCollision} (hremote : collision.remote = item.remote) :
    ListAccount (items ++ [item]) []
      { state with collisions := state.collisions ++ [collision] } := by
  refine ⟨h.order.trans (List.sublist_append_left _ _), ?_⟩
  rw [List.map_append, List.map_append, ← List.append_assoc, List.map_singleton, hremote]
  exact h.files.append_right _

/-- What the workers do keeps everything. -/
theorem lists_of_workers {options : TreeOptions} {follow : Bool} {program : DownloadProgram Unit}
    (h : Does (WorkerStep platform options follow) program) :
    Meets (Lists platform items pending) program (fun _ => Lists platform items pending)
      (EndsApart platform []) :=
  (h.keeps fun _ _ hstep hlists => hlists.step hstep).weaken (fun _ => id) (fun _ _ => id)
    fun _ _ hlists => ⟨[], pending, hlists.1⟩

/-- Claiming a file of a list and handing it out, or reporting what holds it. -/
theorem lists_produceItem (options : ListOptions) (item : SettledDownload) :
    Meets (Lists platform items []) (produceItem platform options item)
      (fun _ => Lists platform (items ++ [item]) []) (EndsApart platform []) := by
  have hsame : Meets (ListAccount items []) (claimLocalDestination platform false item)
      (fun _ => ListAccount items []) fun _ => ListAccount items [] := by
    refine (does_claimLocalDestination item).keeps fun state state' hsame h => ?_
    obtain ⟨htransfers, -, hcollisions⟩ := hsame
    refine ⟨?_, ?_⟩
    · unfold DownloadState.claimed
      rw [htransfers]
      exact h.order
    · unfold DownloadState.claimed
      rw [htransfers, hcollisions]
      exact h.files
  have hclaim : Meets (Lists platform items [])
      ((claimLocalDestination platform false item).raising LocalError.raised)
      (fun collision state => ListAccount items [] state ∧
        collision.elim (KeepsApart platform [] [] [item] state) fun collision =>
          KeepsApart platform [] [] [] state ∧ collision.remote = item.remote ∧
            collision.Names platform [] [] (state.claimed []) state.disk)
      (EndsApart platform []) :=
    apart_raising (((hsame.strengthen fun _ => And.right).both
      ((meets_claimLocalDestination item).strengthen fun _ => And.left)).weaken (fun _ => id)
        (fun _ _ => id) fun _ _ h => ⟨[], [], h.2⟩)
  refine hclaim.bind fun collision => ?_
  cases collision with
  | none =>
    refine Meets.bind (Meets.of fun state h => ?_) fun _ => lists_of_workers does_letWorkers
    refine ⟨h.2.handing, ?_, ?_⟩
    · rw [claimed_handing]
      exact (h.1.claim item).order
    · rw [claimed_handing]
      exact (h.1.claim item).files
  | some collision =>
    refine Meets.of fun state h => ?_
    obtain ⟨haccount, happart, hremote, hnames⟩ := h
    exact ⟨happart.collide hnames, haccount.collide hremote⟩

/-- Downloading a list accounts for everything in it. -/
theorem lists_forEachBounded (options : ListOptions) (items : List SettledDownload) :
    Meets (Lists platform [] [])
      (forEachBounded platform options.toTree true
        (items.forM (produceItem platform options)))
      (fun _ state => Lists platform items [] state ∧
        ∀ transfer ∈ state.transfers, transfer.stage.isDone = true)
      (EndsApart platform []) := by
  refine Meets.tryCatch ((Meets.forM_items (fun front => Lists platform front [])
    fun _ item _ _ => lists_produceItem options item).bind fun _ => ?_) fun error => ?_
  · exact (meets_finishWorkers fun _ _ => Lists.step).weaken (fun _ => id) (fun _ _ => id)
      fun _ _ h => ⟨[], [], h.1⟩
  · exact Meets.bind (apart_of_workers does_windDown error) fun _ => Meets.throw fun _ => id

end Accounts

/-! ## Results -/

/-- Values found for items in any order come into the order of the items when they are sorted by
where their items are. -/
theorem sorted_by_index {α β : Type} [DecidableEq α] {items : List α} (hnodup : items.Nodup)
    {finished : List (α × β)} (hperm : (finished.map Prod.fst).Perm items) :
    List.Forall₂ (fun item value => (item, value) ∈ finished) items
      (((finished.map fun one => (items.idxOf one.1, one.2)).mergeSort
        fun one other => one.1 ≤ other.1).map Prod.snd) := by
  let indexed := finished.map fun one => (items.idxOf one.1, one.2)
  let sorted := indexed.mergeSort fun one other => decide (one.1 ≤ other.1)
  change List.Forall₂ _ items (sorted.map Prod.snd)
  have hsorted : sorted.Perm indexed := List.mergeSort_perm _ _
  have hindices : items.map (items.idxOf ·) = List.range items.length := by
    refine List.ext_getElem (by simp) fun i hi hi' => ?_
    rw [List.getElem_map, hnodup.idxOf_getElem, List.getElem_range]
  have horder : sorted.map Prod.fst = List.range items.length := by
    refine List.Perm.eq_of_pairwise (fun a b _ _ hab hba => Nat.le_antisymm hab hba) ?_
      List.pairwise_le_range ?_
    · have hpairwise : sorted.Pairwise fun one other => decide (one.1 ≤ other.1) = true :=
        List.pairwise_mergeSort (fun a b c hab hbc => by simp at *; omega)
          (fun a b => by simp; omega) indexed
      exact List.pairwise_map.mpr (hpairwise.imp of_decide_eq_true)
    · have hmap : indexed.map Prod.fst = (finished.map Prod.fst).map (items.idxOf ·) := by
        simp [indexed]
      rw [← hindices]
      refine (hsorted.map Prod.fst).trans ?_
      rw [hmap]
      exact hperm.map _
  have hlength : sorted.length = items.length := by simpa using congrArg List.length horder
  refine List.forall₂_iff_get.mpr ⟨by simp [hlength], fun i hi hi' => ?_⟩
  have hlt : i < sorted.length := hlength ▸ hi
  have hindex : sorted[i].1 = i := by
    have h := List.getElem_of_eq horder (by simpa using hlt : i < (sorted.map Prod.fst).length)
    rwa [List.getElem_map, List.getElem_range] at h
  obtain ⟨one, hone, heq⟩ := List.mem_map.mp (hsorted.subset (List.getElem_mem hlt))
  have hplace : items.idxOf one.1 = i := by rw [← hindex, ← heq]
  have hitem : items[i] = one.1 := by
    subst hplace
    exact List.getElem_idxOf hi
  simp only [List.get_eq_getElem, List.getElem_map, ← heq, hitem]
  exact hone

/-- The results of a list whose files were all transferred are what was transferred of each of them,
in order. -/
theorem listResults_order {items : List SettledDownload} {state : DownloadState}
    (hnodup : items.Nodup) (hperm : state.transferred.Perm items) :
    List.Forall₂ (fun item count => LocalEffect.transferred item count ∈ state.effects) items
      (listResults items state) := by
  have hfinished : state.finished.map Prod.fst = state.transferred := by
    unfold DownloadState.finished DownloadState.transferred
    rw [List.map_filterMap]
    refine List.filterMap_congr fun effect _ => ?_
    cases effect with
    | transferred item count => rfl
    | _ => rfl
  refine (sorted_by_index hnodup (hfinished ▸ hperm)).imp fun item count hmem => ?_
  obtain ⟨effect, heffect, heq⟩ := List.mem_filterMap.mp hmem
  cases effect with
  | transferred item' count' =>
    cases heq
    exact heffect
  | _ => cases heq

/-! ## Outcomes -/

/-- What a download of a list that came to its end accounts for: every file of the list was
transferred once, or reported with what holds its local file. -/
structure ListSettled (platform : Platform) (remotes : List Bytes) (state : DownloadState) :
    Prop where
  distinct : (remotes.map basename).Nodup
  once : state.transferred.Nodup
  files : (state.transferred.map SettledDownload.remote ++
    state.collisions.map PathCollision.remote).Perm remotes
  named : ∀ collision ∈ state.collisions,
    collision.Names platform [] [] state.transferred state.disk

/-- How a download of a list ends, and what it did. -/
def ListOutcome (platform : Platform) (remotes : List Bytes) (state : DownloadState) :
    Except ListError (List ℕ) → Prop
  | .ok results => ListSettled platform remotes state ∧ state.collisions = [] ∧
      List.Forall₂ (fun remote count => ∃ item : SettledDownload, item.remote = remote ∧
        LocalEffect.transferred item count ∈ state.effects) remotes results
  | .error (.duplicate duplicate) =>
      state.effects.filterMap LocalEffect.written = [] ∧ duplicate.IsFirst remotes
  | .error (.download (.collided collisions _ files transferred)) =>
      ListSettled platform remotes state ∧ collisions = state.collisions ∧ collisions ≠ [] ∧
        files = state.transferred.length ∧ transferred = state.moved.sum
  | .error (.download _) => True

section Outcomes

variable {platform : Platform} {items : List SettledDownload} {state : DownloadState}

/-- A download of a list whose workers are done accounts for all of it. -/
theorem Lists.settled (h : Lists platform items [] state)
    (hdone : ∀ transfer ∈ state.transfers, transfer.stage.isDone = true)
    (hdistinct : ((items.map SettledDownload.remote).map basename).Nodup) :
    ListSettled platform (items.map SettledDownload.remote) state := by
  have hperm := h.1.finished hdone
  refine ⟨hdistinct, hperm.nodup_iff.mpr h.1.nodup, ?_, fun collision hmem => ?_⟩
  · exact ((hperm.map _).append_right _).trans h.2.files
  · exact (h.1.collisions collision hmem).extend (.refl _) (List.Subset.refl _) hperm.symm.subset

/-- Without a collision, everything in the list was transferred. -/
theorem Lists.all (h : Lists platform items [] state)
    (hdone : ∀ transfer ∈ state.transfers, transfer.stage.isDone = true)
    (hnone : state.collisions = []) : state.transferred.Perm items := by
  have hfiles := h.2.files
  rw [hnone, List.map_nil, List.append_nil] at hfiles
  have hlength : (state.claimed []).length = items.length := by
    simpa using hfiles.length_eq
  rw [← h.2.order.eq_of_length hlength]
  exact h.1.finished hdone

/-- The results of a list are what was transferred, all in all. -/
theorem sum_listResults (items : List SettledDownload)
    (h : KeepsApart platform [] [] [] state) :
    (listResults items state).length = state.transferred.length ∧
      (listResults items state).sum = state.moved.sum := by
  have hmoved : state.moved = state.finished.map Prod.snd := by
    rw [h.counts]
    unfold DownloadState.finished
    rw [List.map_filterMap]
    refine List.filterMap_congr fun effect _ => ?_
    cases effect with
    | transferred item count => rfl
    | _ => rfl
  have hperm : (listResults items state).Perm state.moved := by
    rw [hmoved]
    unfold listResults
    refine ((List.mergeSort_perm _ _).map Prod.snd).trans ?_
    rw [List.map_map]
    exact .refl _
  refine ⟨?_, hperm.sum_eq⟩
  rw [hperm.length_eq, h.counts]
  exact length_transferred _

/-- A download of a list that has settled nothing yet. -/
def ListUnsettled (platform : Platform) (state : DownloadState) : Prop :=
  Lists platform [] [] state ∧ ∀ effect ∈ state.effects, effect.isSettling = true

/-- A step that settles nothing keeps it so. -/
theorem ListUnsettled.settle {state' : DownloadState} (h : ListUnsettled platform state)
    (hstep : SettlesNothing state state') : ListUnsettled platform state' := by
  obtain ⟨⟨happart, haccount⟩, hsettling⟩ := h
  obtain ⟨added, heffects, hadded⟩ := hstep.effects
  refine ⟨⟨happart.settle hstep, ?_, ?_⟩, ?_⟩
  · rw [hstep.claimed_eq]
    exact haccount.order
  · rw [hstep.claimed_eq, hstep.collisions]
    exact haccount.files
  · rw [heffects]
    exact List.forall_mem_append.mpr ⟨hsettling, hadded⟩

/-- Nothing was written before anything was settled. -/
theorem ListUnsettled.written (h : ListUnsettled platform state) :
    state.effects.filterMap LocalEffect.written = [] :=
  List.filterMap_eq_nil_iff.mpr fun effect hmem => by
    have hsettling := h.2 effect hmem
    cases effect with
    | opened _ _ _ => cases hsettling
    | wrote _ _ => cases hsettling
    | marked _ _ _ => cases hsettling
    | _ => rfl

/-- A download of a list ends as it should. -/
theorem meets_getMany (options : ListOptions) (remotes : List Bytes) (destination : LocalPath) :
    Meets (ListUnsettled platform) (getMany platform options remotes destination)
      (fun results state => EndsApart platform [] () state ∧
        ListOutcome platform remotes state (.ok results))
      fun error state => EndsApart platform [] () state ∧
        ListOutcome platform remotes state (.error error) := by
  have hrefused : ∀ {error state}, ListUnsettled platform state →
      EndsApart platform [] () state ∧
        ListOutcome platform remotes state (.error (.download (.raised error))) :=
    fun h => ⟨⟨[], [], h.1.1⟩, trivial⟩
  have hlocal : Meets (ListUnsettled platform) (requireLocalIo platform "get_many()")
      (fun _ => ListUnsettled platform) fun error state => EndsApart platform [] () state ∧
        ListOutcome platform remotes state (.error (.download error)) := by
    refine Meets.ite (fun _ => ?_) fun _ => ?_
    · exact Meets.throw fun _ h => ⟨⟨[], [], h.1.1⟩, trivial⟩
    · exact Meets.pure fun _ h => h
  have hparents : Meets (ListUnsettled platform) (ensureParents platform destination.reverse)
      (fun _ => ListUnsettled platform) fun error state => EndsApart platform [] () state ∧
        ListOutcome platform remotes state (.error (.download (.raised error.raised))) :=
    ((does_ensureParents _).keeps fun _ _ hstep h => ListUnsettled.settle h hstep).weaken
      (fun _ => id) (fun _ _ => id) fun _ _ h => hrefused h
  have hsettled : Meets (ListUnsettled platform)
      (.of fun state => (settleDownloads platform state.disk destination remotes, state))
      (fun items state => ListUnsettled platform state ∧
        items.map SettledDownload.remote = remotes ∧ (remotes.map basename).Nodup)
      fun error state => EndsApart platform [] () state ∧
        ListOutcome platform remotes state (.error error) := by
    refine Meets.of fun state h => ?_
    rcases settleDownloads_cases platform state.disk destination remotes with
      ⟨items, heq, hremotes, hnodup, -⟩ | ⟨duplicate, heq, hfirst⟩ | ⟨error, heq⟩
    · rw [heq]
      exact ⟨h, hremotes, hnodup⟩
    · rw [heq]
      exact ⟨⟨[], [], h.1.1⟩, h.written, hfirst⟩
    · rw [heq]
      exact hrefused h
  unfold getMany
  refine (Meets.raising hlocal).bind fun _ => (Meets.raising hparents).bind fun _ => ?_
  refine hsettled.bind fun items => Meets.assume fun state h => ?_
  obtain ⟨hunsettled, rfl, hnodup⟩ := h
  have hrun : Meets (· = state)
      (forEachBounded platform options.toTree true
        (items.forM (produceItem platform options)))
      (fun _ state => Lists platform items [] state ∧
        ∀ transfer ∈ state.transfers, transfer.stage.isDone = true)
      fun error state => EndsApart platform [] () state ∧
        ListOutcome platform (items.map SettledDownload.remote) state
          (.error (.download (.raised error))) :=
    (lists_forEachBounded options items).weaken (fun _ heq => heq ▸ hunsettled.1) (fun _ _ => id)
      fun _ _ hends => ⟨hends, trivial⟩
  refine (Meets.raising hrun).bind fun _ => Meets.get fun state' h => ?_
  obtain ⟨hlists, hdone⟩ := h
  have hends := hlists.settled hdone hnodup
  refine Meets.ite (fun hnone => Meets.pure fun _ heq => ?_) fun hsome => Meets.throw fun _ heq => ?_
  · subst heq
    refine ⟨⟨[], [], hlists.1⟩, hends, hnone, ?_⟩
    have hall := hlists.all hdone hnone
    refine List.forall₂_map_left_iff.mpr ((listResults_order ?_ hall).imp fun item count hmem => ?_)
    · exact hall.nodup_iff.mp hends.once
    · exact ⟨item, rfl, hmem⟩
  · subst heq
    obtain ⟨hlength, hsum⟩ := sum_listResults items hlists.1
    exact ⟨⟨[], [], hlists.1⟩, hends, rfl, hsome, hlength, hsum⟩

end Outcomes

/-- Whatever the list, the destination and what its file system takes for one name, and however
the workers are scheduled: `get_many` never opens or writes one local file for two remote ones.
It refuses a list in which two paths come to one name before anything is written, for the first
such two. Where it comes to its end, every file of the list was transferred once, with the
results in the order of the list, or it raises every collision, each with the remote path that
holds the local file. -/
theorem getMany_keeps_files_apart (platform : Platform) (options : ListOptions) (remotes : List Bytes)
    (destination : LocalPath) (disk : LocalDisk) (schedule : List (List WorkerAct)) :
    let run := (getMany platform options remotes destination).exec
      (.fresh disk (.destination .empty) schedule)
    (∀ item other node, (item, node) ∈ run.2.effects.filterMap LocalEffect.written →
      (other, node) ∈ run.2.effects.filterMap LocalEffect.written → item = other) ∧
    ListOutcome platform remotes run.2 run.1 := by
  have hfresh : ListUnsettled platform (.fresh disk (.destination .empty) schedule) :=
    ⟨⟨keepsApart_fresh disk schedule, .refl _, .refl _⟩, fun _ h => absurd h List.not_mem_nil⟩
  have hends := meets_getMany options remotes destination _ hfresh
  intro run
  have hrun : run = (getMany platform options remotes destination).exec
      (.fresh disk (.destination .empty) schedule) := rfl
  rw [← hrun] at hends
  generalize run = outcome at hends ⊢
  obtain ⟨error | results, state⟩ := outcome
  · obtain ⟨⟨visited, pending, happart⟩, houtcome⟩ := hends
    exact ⟨fun _ _ _ => happart.written, houtcome⟩
  · obtain ⟨⟨visited, pending, happart⟩, houtcome⟩ := hends
    exact ⟨fun _ _ _ => happart.written, houtcome⟩

/-! ## Containment -/

section Containment

variable {platform : Platform} {disk : LocalDisk} {destination : LocalPath}

/-- Claiming the file of an allowed item and handing it out stays inside. -/
theorem stays_produceItem (options : ListOptions) {item : SettledDownload}
    (hitem : Allowed platform disk destination item.target) :
    Meets (StaysInside platform disk destination False []) (produceItem platform options item)
      (fun _ => StaysInside platform disk destination False [])
      (EndsInside platform disk destination) := by
  refine (stays_raising (stays_claimLocalDestination false hitem)).bind fun collision => ?_
  cases collision with
  | none => exact stays_hand options.toTree hitem
  | some collision => exact Meets.of fun state h => h.same rfl rfl rfl rfl rfl

/-- Downloading allowed items stays inside. -/
theorem stays_forEachBounded (options : ListOptions) {items : List SettledDownload}
    (hitems : ∀ item ∈ items, Allowed platform disk destination item.target) :
    Meets (StaysInside platform disk destination False [])
      (forEachBounded platform options.toTree true
        (items.forM (produceItem platform options)))
      (fun _ => StaysInside platform disk destination False [])
      (EndsInside platform disk destination) := by
  refine Meets.tryCatch ((Meets.forM fun item hmem =>
    stays_produceItem options (hitems item hmem)).bind fun _ => ?_) fun error => ?_
  · exact stays_of_letting options.toTree does_finishWorkers
  · refine Meets.assume fun state h => ?_
    obtain ⟨visited, hstays⟩ := h
    refine Meets.bind ((stays_windDown options.toTree).weaken
      (fun _ heq => heq ▸ hstays) (fun _ _ => id) fun _ _ => False.elim) fun _ => ?_
    exact Meets.throw fun _ hdone => ⟨visited, hdone⟩

/-- A download that did everything inside the destination, however it ended. -/
abbrev DidInside (platform : Platform) (disk : LocalDisk) (destination : LocalPath) {α : Type} :
    α → DownloadState → Prop :=
  fun _ state => ∃ excused visited, StaysInside platform disk destination excused visited state

/-- What was done inside was done there, whatever an error is raised as. -/
theorem didInside_raising {ε ε' α : Type} {translate : ε → ε'} {program : Program DownloadState ε α}
    {before : DownloadState → Prop} {after : α → DownloadState → Prop}
    (h : Meets before program after (DidInside platform disk destination)) :
    Meets before (program.raising translate) after (DidInside platform disk destination) :=
  Meets.raising h

/-- Downloading a list stays inside. -/
theorem stays_getMany (options : ListOptions) (remotes : List Bytes) (schedule : List (List WorkerAct)) :
    Meets (· = .fresh disk (.destination .empty) schedule)
      (getMany platform options remotes destination) (DidInside platform disk destination)
      (DidInside platform disk destination) := by
  have hfresh : StaysInside platform disk destination False []
      (.fresh disk (.destination .empty) schedule) := .fresh _ _
  have hlocal : Meets (· = .fresh disk (.destination .empty) schedule)
      (requireLocalIo platform "get_many()")
      (fun _ => (· = .fresh disk (.destination .empty) schedule))
      (DidInside platform disk destination) := by
    refine Meets.ite (fun _ => ?_) fun _ => Meets.pure fun _ => id
    exact Meets.throw fun _ heq => ⟨False, [], heq ▸ hfresh⟩
  have hparents : Meets (· = .fresh disk (.destination .empty) schedule)
      (ensureParents platform destination.reverse)
      (fun _ => StaysInside platform disk destination False [])
      (DidInside platform disk destination) :=
    (stays_ensureDestination schedule _).weaken (fun _ => id) (fun _ _ => id)
      fun _ _ hfailed => ⟨_, _, hfailed⟩
  have hsettled : Meets (StaysInside platform disk destination False [])
      (.of fun state => (settleDownloads platform state.disk destination remotes, state))
      (fun items state => StaysInside platform disk destination False [] state ∧
        ∀ item ∈ items, Allowed platform disk destination item.target)
      (DidInside platform disk destination) := by
    refine Meets.of fun state h => ?_
    rcases settleDownloads_cases platform state.disk destination remotes with
      ⟨items, heq, -, -, hallowed⟩ | ⟨duplicate, heq, -⟩ | ⟨error, heq⟩
    · rw [heq]
      exact ⟨h, fun item hmem => (allowed_extends h.kept).mp (hallowed item hmem)⟩
    · rw [heq]
      exact ⟨False, [], h⟩
    · rw [heq]
      exact ⟨False, [], h⟩
  unfold getMany
  refine (didInside_raising hlocal).bind fun _ => (didInside_raising hparents).bind fun _ => ?_
  refine hsettled.bind fun items => Meets.assume fun state h => ?_
  have hrun : Meets (· = state)
      (forEachBounded platform options.toTree true
        (items.forM (produceItem platform options)))
      (fun _ => StaysInside platform disk destination False [])
      (DidInside platform disk destination) :=
    (stays_forEachBounded options h.2).weaken (fun _ heq => heq ▸ h.1) (fun _ _ => id)
      fun _ _ hends => ⟨_, hends⟩
  refine (didInside_raising hrun).bind fun _ => Meets.get fun state' h => ?_
  refine Meets.ite (fun _ => ?_) fun _ => ?_
  · exact Meets.pure fun _ heq => ⟨False, [], heq ▸ h⟩
  · exact Meets.throw fun _ heq => ⟨False, [], heq ▸ h⟩

/-- Everything that `get_many` does locally, it does to an allowed path and at the place that the
path resolves to, but for the directories on the way to a destination that was not there. -/
theorem getMany_stays_inside (platform : Platform) (options : ListOptions) (remotes : List Bytes)
    (destination : LocalPath) (disk : LocalDisk) (schedule : List (List WorkerAct)) :
    ∀ effect ∈ ((getMany platform options remotes destination).exec
        (.fresh disk (.destination .empty) schedule)).2.effects,
      effect.Within platform disk destination ∨ effect.OnTheWay platform disk destination := by
  have hends : Ends (DidInside platform disk destination) (DidInside platform disk destination)
      ((getMany platform options remotes destination).exec
        (.fresh disk (.destination .empty) schedule)) := stays_getMany options remotes schedule _ rfl
  generalize (getMany platform options remotes destination).exec
    (.fresh disk (.destination .empty) schedule) = outcome at hends ⊢
  obtain ⟨error | results, state⟩ := outcome
  · obtain ⟨excused, visited, hstays⟩ := hends
    exact hstays.effects
  · obtain ⟨excused, visited, hstays⟩ := hends
    exact hstays.effects

/-- A run that downloads two files of three, and reports the last, which is the first under
another name. Each that is transferred is given a mode, and its times. -/
def threeRun : Except ListError (List ℕ) × DownloadState :=
  (getMany plainPlatform { preserveTimes := true, mode := some (.exactly 0o644) }
    [[slash, 0x61], [slash, 0x62], [slash, 0x41]] []).exec (.fresh foldingDisk (.destination .empty)
      [[.takes 0], [.opens 0, .takes 1, .opens 1, .writes 1], [.writes 0,
        .finishes 1 (fun _ => .ok 2) true, .finishes 0 (fun _ => .ok 3) true]])

theorem getMany_stays_inside_one :
    threeRun.2.finished =
        [(⟨[slash, 0x62], [.down [0x62]]⟩, 2), (⟨[slash, 0x61], [.down [0x61]]⟩, 3)] ∧
      .opened ⟨[slash, 0x61], [.down [0x61]]⟩ [[0x61]] 1 ∈ threeRun.2.effects ∧
      .marked ⟨[slash, 0x61], [.down [0x61]]⟩ .times 1 ∈ threeRun.2.effects ∧
      ∀ effect ∈ threeRun.2.effects,
        effect.Within plainPlatform foldingDisk [] ∨ effect.OnTheWay plainPlatform foldingDisk [] :=
  ⟨by decide +kernel, by decide +kernel, by decide +kernel,
    getMany_stays_inside plainPlatform _ _ [] foldingDisk _⟩

end Containment

end GantrySftp
