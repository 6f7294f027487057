import GantrySftp.Session.DownloadWorkers

/-!
# A recursive download stays in its destination

Every path that a download works on was checked: safe names behind the destination, resolving to
inside of it. Calls act where their paths resolve to, and no call makes a link, so that checking
a path once is enough. A directory is stamped after the walk, by a path that was joined when its
parent was visited and checked when it was visited itself, as every directory of a walk that ends
is.
-/

namespace GantrySftp

open Library Program Platform

section Containment

variable (platform : Platform) (disk : LocalDisk) (destination : LocalPath)

/-- What was done locally was done inside the destination. -/
def LocalEffect.Within : LocalEffect → Prop
  | .considered _ => True
  | .made path place | .touched path place | .stamped path place | .chmodded path place =>
    Allowed platform disk destination path ∧ platform.resolvesTo disk path = some place
  | .opened item place _ =>
    Allowed platform disk destination item.target ∧
      platform.resolvesTo disk item.target = some place
  | .wrote item _ | .marked item _ _ | .transferred item _ =>
    Allowed platform disk destination item.target

/-- A directory that was made for the destination to be in, or to be, where it was not there. -/
def LocalEffect.OnTheWay (effect : LocalEffect) : Prop :=
  platform.isDir disk destination = false ∧
    ∃ path place, effect = .made path place ∧ path <+: destination

/-- A download that stayed in its destination. Every path it considered was allowed, unless
`excused`; of the visited directories, each was considered, and those found in them are the ones
to be stamped. -/
structure StaysInside (excused : Prop) (visited : List WalkEntry) (state : DownloadState) : Prop
    where
  kept : disk.Extends state.disk
  effects : ∀ effect ∈ state.effects,
    effect.Within platform disk destination ∨ effect.OnTheWay platform disk destination
  targets : ∀ transfer ∈ state.transfers, Allowed platform disk destination transfer.item.target
  allowed : (∀ path, .considered path ∈ state.effects → Allowed platform disk destination path) ∨
    excused
  visits : ∀ entry ∈ visited, .considered (destination ++ entry.relative.map .down) ∈ state.effects
  stamps : ∀ path ∈ state.directoryTimes.map Prod.fst ++ state.directoryModes.map Prod.fst,
    ∃ entry ∈ visited, ∃ child ∈ entry.directories,
      path = destination ++ (entry.relative ++ [child.filename]).map .down

variable {platform disk destination} {excused : Prop} {visited : List WalkEntry}
  {state : DownloadState}

namespace StaysInside

/-- A download that has done nothing. -/
theorem fresh (ledger : Ledger) (schedule : List (List WorkerAct)) :
    StaysInside platform disk destination False [] (.fresh disk ledger schedule) where
  kept := .refl disk
  effects := fun _ h => absurd h List.not_mem_nil
  targets := fun _ h => absurd h List.not_mem_nil
  allowed := Or.inl fun _ h => absurd h List.not_mem_nil
  visits := fun _ h => absurd h List.not_mem_nil
  stamps := fun _ h => absurd h List.not_mem_nil

/-- An excuse may be added. -/
theorem excuse (h : StaysInside platform disk destination excused visited state)
    {excused' : Prop} (himp : excused → excused') :
    StaysInside platform disk destination excused' visited state :=
  { h with allowed := h.allowed.imp_right himp }

/-- A state that differs in nothing that matters here. -/
theorem same (h : StaysInside platform disk destination excused visited state)
    {state' : DownloadState} (hdisk : state'.disk = state.disk)
    (heffects : state'.effects = state.effects) (htransfers : state'.transfers = state.transfers)
    (htimes : state'.directoryTimes = state.directoryTimes)
    (hmodes : state'.directoryModes = state.directoryModes) :
    StaysInside platform disk destination excused visited state' where
  kept := hdisk ▸ h.kept
  effects := heffects ▸ h.effects
  targets := htransfers ▸ h.targets
  allowed := heffects ▸ h.allowed
  visits := heffects ▸ h.visits
  stamps := by
    rw [htimes, hmodes]
    exact h.stamps

/-- Something more was done inside the destination, on a disk with more on it. -/
theorem record (h : StaysInside platform disk destination excused visited state)
    {disk' : LocalDisk} {effect : LocalEffect} (hdisk : state.disk.Extends disk')
    (heffect : effect.Within platform disk destination ∨
      effect.OnTheWay platform disk destination)
    (hconsidered : ∀ path, effect ≠ .considered path) :
    StaysInside platform disk destination excused visited
      ({ state with disk := disk' }.record effect) where
  kept := h.kept.trans hdisk
  effects := List.forall_mem_append.mpr ⟨h.effects, List.forall_mem_singleton.mpr heffect⟩
  targets := h.targets
  allowed := by
    refine h.allowed.imp_left fun hall path hmem => ?_
    rcases List.mem_append.mp hmem with hold | hnew
    · exact hall path hold
    · exact absurd (List.mem_singleton.mp hnew).symm (hconsidered path)
  visits := fun entry hmem => List.mem_append_left _ (h.visits entry hmem)
  stamps := h.stamps

/-- A transfer comes to another stage. -/
theorem staging (h : StaysInside platform disk destination excused visited state) (index : ℕ)
    (transfer : Transfer)
    (htransfer : Allowed platform disk destination transfer.item.target) :
    StaysInside platform disk destination excused visited (state.staging index transfer) :=
  { h with
    targets := by
      intro other hmem
      rcases List.mem_or_eq_of_mem_set hmem with hold | rfl
      · exact h.targets other hold
      · exact htransfer }

/-- The target of a transfer is allowed. -/
theorem target (h : StaysInside platform disk destination excused visited state) {index : ℕ}
    {transfer : Transfer} (hindex : state.transfers[index]? = some transfer) :
    Allowed platform disk destination transfer.item.target :=
  h.targets transfer (List.mem_of_getElem? hindex)

/-- Steps of workers stay inside. -/
theorem step {options : TreeOptions} {follow : Bool} {state' : DownloadState}
    (hstep : WorkerStep platform options follow state state')
    (h : StaysInside platform disk destination excused visited state) :
    StaysInside platform disk destination excused visited state' := by
  cases hstep with
  | same => exact h
  | scheduled schedule => exact h.same rfl rfl rfl rfl rfl
  | @takes index item hstage =>
    have htarget : Allowed platform disk destination item.target := h.target hstage
    exact h.staging _ _ htarget
  | @opens index item place node disk' hstage hopen =>
    have hopened := opened_of_openCall hopen
    have hresolved := hopened.resolved
    rw [resolvesTo_extends h.kept] at hresolved
    have hwithin : (LocalEffect.opened item place node).Within platform disk destination :=
      ⟨h.target hstage, hresolved⟩
    have hrecord := h.record hopened.kept (Or.inl hwithin) fun path heq => by cases heq
    exact hrecord.staging _ _ hwithin.1
  | @writes index item node hstage =>
    have hwithin : (LocalEffect.wrote item node).Within platform disk destination :=
      h.target hstage
    exact h.record (.refl _) (Or.inl hwithin) fun path heq => by cases heq
  | @marks index item stage effect hstage hmark =>
    have htarget : Allowed platform disk destination item.target := h.target hstage
    obtain ⟨node, ⟨-, mark, rfl⟩ | ⟨place, hopen, heffect⟩⟩ := hmark
    · exact h.record (.refl _) (Or.inl htarget) fun path heq => by cases heq
    · have hresolved := (reopened_of_reopenCall hopen).resolved
      rw [resolvesTo_extends h.kept] at hresolved
      obtain rfl | ⟨mark, rfl⟩ := heffect
      · exact h.record (.refl _) (Or.inl ⟨htarget, hresolved⟩) fun path heq => by cases heq
      · exact h.record (.refl _) (Or.inl htarget) fun path heq => by cases heq
  | @finishes index item stage count hstage _ _ =>
    have hwithin : (LocalEffect.transferred item count).Within platform disk destination :=
      h.target hstage
    have hrecord := h.record (.refl _) (Or.inl hwithin) fun path heq => by cases heq
    exact (hrecord.staging index ⟨item, .done count⟩ hwithin).same rfl rfl rfl rfl rfl

end StaysInside

/-! ## Settling -/

/-- States that are the same in what matters for staying inside. -/
def Alike (state state' : DownloadState) : Prop :=
  state'.disk = state.disk ∧ state'.effects = state.effects ∧
    state'.transfers = state.transfers ∧ state'.directoryTimes = state.directoryTimes ∧
    state'.directoryModes = state.directoryModes

/-- A program that changes nothing that matters stays inside. -/
theorem stays_of_alike {ε α : Type} {program : Program DownloadState ε α}
    (h : Does Alike program) :
    Meets (StaysInside platform disk destination excused visited) program
      (fun _ => StaysInside platform disk destination excused visited)
      fun _ => StaysInside platform disk destination excused visited :=
  h.keeps fun _ _ halike hinside => hinside.same halike.1 halike.2.1 halike.2.2.1 halike.2.2.2.1
    halike.2.2.2.2

/-- What is raised excuses, if it says that a path is unsafe. -/
abbrev Fails (platform : Platform) (disk : LocalDisk) (destination : LocalPath)
    (visited : List WalkEntry) : LocalError → DownloadState → Prop :=
  fun error => StaysInside platform disk destination (IsUnsafe error) visited

/-- Making a directory stays inside, where one may be made. -/
theorem stays_ensureDirectory {path : LocalPath}
    (hpath : ∀ place, platform.resolvesTo disk path = some place →
      (LocalEffect.made path place).Within platform disk destination ∨
        (LocalEffect.made path place).OnTheWay platform disk destination) :
    Meets (StaysInside platform disk destination False visited) (ensureDirectory platform path)
      (fun _ => StaysInside platform disk destination False visited)
      (Fails platform disk destination visited) := by
  refine Meets.of fun state h => ?_
  split
  · rename_i place disk' hmkdir
    have hmade := made_of_mkdirCall hmkdir
    have hresolved := hmade.resolved
    rw [resolvesTo_extends h.kept] at hresolved
    exact h.record hmade.kept (hpath place hresolved) fun path heq => by cases heq
  · exact h.excuse False.elim
  · split
    · exact h
    · exact h.excuse False.elim

/-- Asking who holds a file changes nothing. -/
theorem does_collidesWith (path : LocalPath) : Does Alike (collidesWith platform path) := by
  refine Does.of fun state => ?_
  have hsame : Alike state state := ⟨rfl, rfl, rfl, rfl, rfl⟩
  split
  · exact hsame
  · split
    · exact hsame
    · exact hsame
    · exact hsame

/-- Claiming a file changes nothing but the ledger. -/
theorem does_claim (path : LocalPath) (remote : Bytes) : Does Alike (claim platform path remote) := by
  refine Does.of fun state => ?_
  split
  · exact ⟨rfl, rfl, rfl, rfl, rfl⟩
  · split
    · exact ⟨rfl, rfl, rfl, rfl, rfl⟩
    · exact ⟨rfl, rfl, rfl, rfl, rfl⟩

/-- Claiming a directory changes nothing but the ledger and the collisions. -/
theorem does_claimDirectory (path : LocalPath) (entry : WalkEntry) :
    Does Alike (claimDirectory platform path entry) := by
  refine Does.get.bind fun state => (does_collidesWith _).bind fun first => ?_
  cases first with
  | none => exact does_claim _ _
  | some first => exact Does.modify fun _ => ⟨rfl, rfl, rfl, rfl, rfl⟩

/-- A quiet program stays inside, and needs no excuse. -/
theorem stays_of_quiet {α : Type} {program : LocalProgram α} (h : Does Alike program) :
    Meets (StaysInside platform disk destination False visited) program
      (fun _ => StaysInside platform disk destination False visited)
      (Fails platform disk destination visited) :=
  (stays_of_alike h).weaken (fun _ => id) (fun _ _ => id) fun _ _ hinside =>
    hinside.excuse False.elim

/-- Joining a name to an allowed path gives one to be checked, or fails. -/
theorem stays_localChild {path : LocalPath} {name : Bytes} :
    Meets (StaysInside platform disk destination False visited)
      (orRefuse (platform.localChild path name))
      (fun path' state => StaysInside platform disk destination False visited state ∧
        path' = path ++ [.down name] ∧ platform.unsafeReason name = none)
      (Fails platform disk destination visited) := by
  refine Meets.of fun state h => ?_
  rcases localChild_cases platform path name with
    ⟨hname, heq⟩ | ⟨-, error, hunsafe, heq⟩
  · rw [heq]
    exact ⟨h, rfl, hname⟩
  · rw [heq]
    exact h.excuse fun _ => hunsafe

/-- Collecting the times of a directory in a visited one. -/
theorem stays_collectTimes {entry : WalkEntry} (hentry : entry ∈ visited) {child : DirEntry}
    (hchild : child ∈ entry.directories) :
    Meets (StaysInside platform disk destination False visited)
      (collectTimes platform (destination ++ entry.relative.map .down) child)
      (fun _ => StaysInside platform disk destination False visited)
      (Fails platform disk destination visited) := by
  unfold collectTimes
  cases child.attrs.times with
  | none => exact Meets.pure fun _ => id
  | some times =>
    refine stays_localChild.bind fun path => Meets.of fun state h => ?_
    obtain ⟨h, rfl, -⟩ := h
    refine { h with stamps := fun path hpath => ?_ }
    simp only [List.map_append, List.map_cons, List.map_nil, List.append_assoc] at hpath
    rcases List.mem_append.mp hpath with hold | hnew
    · exact h.stamps path (List.mem_append_left _ hold)
    · rcases List.mem_append.mp hnew with hone | hold
      · refine ⟨entry, hentry, child, hchild, ?_⟩
        rw [List.mem_singleton.mp hone, List.map_append]
        rfl
      · exact h.stamps path (List.mem_append_right _ hold)

/-- Collecting the mode of a directory in a visited one. -/
theorem stays_collectModes {entry : WalkEntry} (hentry : entry ∈ visited) {child : DirEntry}
    (hchild : child ∈ entry.directories) :
    Meets (StaysInside platform disk destination False visited)
      (collectModes platform (destination ++ entry.relative.map .down) child)
      (fun _ => StaysInside platform disk destination False visited)
      (Fails platform disk destination visited) := by
  unfold collectModes
  cases child.attrs.permissions with
  | none => exact Meets.pure fun _ => id
  | some permissions =>
    refine stays_localChild.bind fun path => Meets.of fun state h => ?_
    obtain ⟨h, rfl, -⟩ := h
    refine { h with stamps := fun path hpath => ?_ }
    simp only [List.map_append, List.map_cons, List.map_nil, ← List.append_assoc] at hpath
    rcases List.mem_append.mp hpath with hold | hnew
    · exact h.stamps path hold
    · refine ⟨entry, hentry, child, hchild, ?_⟩
      rw [List.mem_singleton.mp hnew, List.map_append, List.append_assoc]
      rfl

variable (options : TreeOptions)

/-- Settling an allowed directory stays inside. -/
theorem stays_settleDirectory {entry : WalkEntry} (hentry : entry ∈ visited)
    (hpath : Allowed platform disk destination (destination ++ entry.relative.map .down)) :
    Meets (StaysInside platform disk destination False visited)
      (settleDirectory platform options (destination ++ entry.relative.map .down) entry)
      (fun _ => StaysInside platform disk destination False visited)
      (Fails platform disk destination visited) := by
  have hmake : Meets (StaysInside platform disk destination False visited)
      (makeDirectory platform options (destination ++ entry.relative.map .down) entry)
      (fun _ => StaysInside platform disk destination False visited)
      (Fails platform disk destination visited) := by
    unfold makeDirectory
    refine Meets.bind (Meets.doIf fun _ => ?_) fun _ => ?_
    · exact stays_ensureDirectory fun place hplace => Or.inl ⟨hpath, hplace⟩
    · exact stays_of_quiet ((Does.modify fun _ => ⟨rfl, rfl, rfl, rfl, rfl⟩).bind fun _ =>
        does_claimDirectory _ entry)
  unfold settleDirectory
  refine Meets.bind (Meets.doIf fun _ => hmake) fun _ => ?_
  refine Meets.bind (Meets.doIf fun _ => Meets.forM fun child hchild =>
    stays_collectTimes hentry hchild) fun _ => ?_
  refine Meets.bind (Meets.doIf fun _ => Meets.forM fun child hchild =>
    stays_collectModes hentry hchild) fun _ => ?_
  exact stays_of_quiet (Does.modify fun _ => ⟨rfl, rfl, rfl, rfl, rfl⟩)

/-- Considering a path stays inside, if it turns out to be allowed or there is an excuse. -/
theorem StaysInside.considering (h : StaysInside platform disk destination excused visited state)
    {path : LocalPath} {excused' : Prop} (himp : excused → excused')
    (hpath : Allowed platform disk destination path ∨ excused') :
    StaysInside platform disk destination excused' visited
      (state.record (.considered path)) where
  kept := h.kept
  effects := List.forall_mem_append.mpr
    ⟨h.effects, List.forall_mem_singleton.mpr (Or.inl trivial)⟩
  targets := h.targets
  allowed := by
    rcases hpath with hpath | hexcused
    · refine (h.allowed.imp_right himp).imp_left fun hall other hmem => ?_
      rcases List.mem_append.mp hmem with hold | hnew
      · exact hall other hold
      · cases List.mem_singleton.mp hnew
        exact hpath
    · exact Or.inr hexcused
  visits := fun entry hmem => List.mem_append_left _ (h.visits entry hmem)
  stamps := h.stamps

/-- A visited directory was considered. -/
theorem StaysInside.visiting {entry : WalkEntry}
    (h : StaysInside platform disk destination excused visited state)
    (hentry : .considered (destination ++ entry.relative.map .down) ∈ state.effects) :
    StaysInside platform disk destination excused (visited ++ [entry]) state :=
  { h with
    visits := List.forall_mem_append.mpr ⟨h.visits, List.forall_mem_singleton.mpr hentry⟩
    stamps := by
      intro path hpath
      obtain ⟨other, hmem, hother⟩ := h.stamps path hpath
      exact ⟨other, List.mem_append_left _ hmem, hother⟩ }

/-- Entering a visited directory stays inside, and comes to an allowed path. -/
theorem stays_enterDirectory (entry : WalkEntry) :
    Meets (StaysInside platform disk destination False visited)
      (enterDirectory platform options destination entry)
      (fun path state =>
        StaysInside platform disk destination False (visited ++ [entry]) state ∧
          path = destination ++ entry.relative.map .down ∧
          Allowed platform disk destination path)
      (Fails platform disk destination (visited ++ [entry])) := by
  intro state h
  have hchecked := localDirectory_cases platform state.disk destination entry.relative
  rw [allowed_extends h.kept] at hchecked
  rw [exec_enterDirectory]
  have hmem : .considered (destination ++ entry.relative.map .down) ∈
      (state.record (.considered (destination ++ entry.relative.map .down))).effects :=
    List.mem_append_right _ (List.mem_singleton_self _)
  rcases hchecked with ⟨hallowed, heq⟩ | ⟨-, error, hunsafe, heq⟩
  · simp only [heq]
    have hentered := (h.considering id (Or.inl hallowed)).visiting hmem
    refine (Meets.bind (stays_settleDirectory options (by simp) hallowed) fun _ => ?_) _ hentered
    exact Meets.pure fun _ hsettled => ⟨hsettled, rfl, hallowed⟩
  · simp only [heq]
    exact (h.considering False.elim (Or.inr hunsafe)).visiting hmem

/-! ## Files -/

/-- Making a file empty stays inside, where the path is allowed. -/
theorem stays_touchDestination {path : LocalPath}
    (hpath : Allowed platform disk destination path) :
    Meets (StaysInside platform disk destination False visited) (touchDestination platform path)
      (fun _ => StaysInside platform disk destination False visited)
      (Fails platform disk destination visited) := by
  refine Meets.of fun state h => ?_
  split
  · rename_i place node disk' hopen
    have hopened := opened_of_openCall hopen
    have hresolved := hopened.resolved
    rw [resolvesTo_extends h.kept] at hresolved
    have hwithin : (LocalEffect.touched path place).Within platform disk destination :=
      ⟨hpath, hresolved⟩
    exact h.record hopened.kept (Or.inl hwithin) fun path heq => by cases heq
  · exact h.excuse False.elim

/-- Claiming a file stays inside, where its target is allowed. -/
theorem stays_claimLocalDestination (dryRun : Bool) {item : SettledDownload}
    (hitem : Allowed platform disk destination item.target) :
    Meets (StaysInside platform disk destination False visited)
      (claimLocalDestination platform dryRun item)
      (fun _ => StaysInside platform disk destination False visited)
      (Fails platform disk destination visited) := by
  unfold claimLocalDestination
  refine Meets.bind (Meets.doIf fun _ => stays_touchDestination hitem) fun _ => ?_
  refine stays_of_quiet ((does_collidesWith _).bind fun first => ?_)
  cases first with
  | some first => exact Does.pure _
  | none => exact (does_claim _ _).bind fun _ => Does.pure _

/-- Settling where a file goes stays inside, and comes to an allowed target. -/
theorem stays_claimDownload {path : LocalPath} (hpath : Allowed platform disk destination path)
    (entry : WalkEntry) (child : DirEntry) :
    Meets (StaysInside platform disk destination False visited)
      (claimDownload platform options destination path entry child)
      (fun settled state => StaysInside platform disk destination False visited state ∧
        Allowed platform disk destination settled.1.target)
      (Fails platform disk destination visited) := by
  intro state h
  rw [exec_claimDownload]
  rcases localChild_cases platform path child.filename with
    ⟨hname, heq⟩ | ⟨-, error, hunsafe, heq⟩
  · have hjoined : (Except.ok (path ++ [.down child.filename]) >>=
        platform.checkContained state.disk destination) =
          platform.checkContained state.disk destination (path ++ [.down child.filename]) := rfl
    rw [heq, hjoined]
    rcases checkContained_cases platform state.disk destination
      (path ++ [.down child.filename]) with ⟨hinside, hcheck⟩ | ⟨-, error, hunsafe, hcheck⟩
    · simp only [hcheck]
      have hallowed : Allowed platform disk destination (path ++ [.down child.filename]) := by
        obtain ⟨names, hnames, hsafe, -⟩ := hpath
        rw [resolve_extends h.kept, resolve_extends h.kept] at hinside
        refine ⟨names ++ [child.filename], by rw [hnames]; simp, fun name hmem => ?_, hinside⟩
        rcases List.mem_append.mp hmem with hold | hnew
        · exact hsafe name hold
        · rw [List.mem_singleton.mp hnew]
          exact hname
      refine (Meets.bind (stays_claimLocalDestination options.dryRun hallowed) fun _ => ?_) _
        (h.considering id (Or.inl hallowed))
      exact Meets.pure fun _ hclaimed => ⟨hclaimed, hallowed⟩
    · simp only [hcheck]
      exact h.considering False.elim (Or.inr hunsafe)
  · rw [heq]
    exact h.considering False.elim (Or.inr hunsafe)

/-- Settling a file stays inside, and what is handed out has an allowed target. -/
theorem stays_settleFile {path : LocalPath} (hpath : Allowed platform disk destination path)
    (entry : WalkEntry) (child : DirEntry) :
    Meets (StaysInside platform disk destination False visited)
      (settleFile platform options destination path entry child)
      (fun settled state => StaysInside platform disk destination False visited state ∧
        ∀ item ∈ settled, Allowed platform disk destination item.target)
      (Fails platform disk destination visited) := by
  have hskip : ∀ reason, Does Alike (skipFile entry child reason) := fun reason =>
    Does.modify fun _ => ⟨rfl, rfl, rfl, rfl, rfl⟩
  have hcollide : ∀ collision, Does Alike (collide collision) := fun collision =>
    Does.modify fun _ => ⟨rfl, rfl, rfl, rfl, rfl⟩
  have hplanned : Does Alike (notePlanned child) := Does.modify fun state => by
    split
    · exact ⟨rfl, rfl, rfl, rfl, rfl⟩
    · exact ⟨rfl, rfl, rfl, rfl, rfl⟩
  unfold settleFile
  refine Meets.bind (Meets.doIf fun _ => stays_of_quiet hplanned) fun _ => ?_
  have hclaim : Meets (StaysInside platform disk destination False visited)
      (claimDownload platform options destination path entry child >>= fun settled =>
        pure (some settled))
      (fun settled state => StaysInside platform disk destination False visited state ∧
        ∀ claimed ∈ settled, Allowed platform disk destination claimed.1.target)
      (Fails platform disk destination visited) := by
    refine (stays_claimDownload options hpath entry child).bind fun settled => ?_
    refine Meets.pure fun _ hsettled => ⟨hsettled.1, fun claimed hmem => ?_⟩
    cases hmem
    exact hsettled.2
  refine Meets.bind (Meets.tryCatch hclaim fun error => ?_) fun settled => ?_
  · cases error with
    | unsafePath name reason destination' => exact Meets.throw fun _ => id
    | os error =>
      have hnot : IsUnsafe (.os error) → False := by
        rintro ⟨_, _, _, heq⟩
        cases heq
      refine Meets.ite (fun _ => ?_) fun _ => Meets.throw fun _ => id
      refine Meets.bind ((stays_of_quiet (hskip _)).strengthen fun _ hfailed =>
        hfailed.excuse hnot) fun _ => Meets.pure fun _ hskipped => ⟨hskipped, ?_⟩
      exact fun claimed hmem => by cases hmem
  · cases settled with
    | none => exact Meets.pure fun _ hsettled => ⟨hsettled.1, fun item hmem => by cases hmem⟩
    | some claimed =>
      obtain ⟨item, collision⟩ := claimed
      cases collision with
      | none =>
        refine Meets.pure fun _ hsettled => ⟨hsettled.1, fun item' hmem => ?_⟩
        cases hmem
        exact hsettled.2 _ rfl
      | some collision =>
        refine ((stays_of_quiet (hcollide collision)).strengthen fun _ h => h.1).bind fun _ => ?_
        refine Meets.bind (Meets.doIf fun _ => stays_of_quiet (hskip _)) fun _ => ?_
        exact Meets.pure fun _ hsettled => ⟨hsettled, fun item' hmem => by cases hmem⟩

/-! ## Runs -/

/-- An error that says a path is unsafe. -/
def RaisesUnsafe (error : TraversalError) : Prop :=
  ∃ directory name reason, error = .unsafePath directory name reason

/-- A local error that says a path is unsafe is raised as one. -/
theorem raisesUnsafe_raised {error : LocalError} (h : IsUnsafe error) : RaisesUnsafe error.raised := by
  obtain ⟨name, reason, destination, rfl⟩ := h
  exact ⟨_, name, reason, rfl⟩

/-- What is raised excuses, if it says that a path is unsafe, whatever was visited. -/
abbrev EndsInside (platform : Platform) (disk : LocalDisk) (destination : LocalPath) :
    TraversalError → DownloadState → Prop :=
  fun error state => ∃ visited, StaysInside platform disk destination (RaisesUnsafe error) visited
    state

/-- What a download does locally, with its errors raised. -/
theorem stays_raising {α : Type} {program : LocalProgram α} {visited' : List WalkEntry}
    {after : α → DownloadState → Prop}
    (h : Meets (StaysInside platform disk destination False visited) program after
      (Fails platform disk destination visited')) :
    Meets (StaysInside platform disk destination False visited)
      (program.raising LocalError.raised) after (EndsInside platform disk destination) :=
  Meets.raising (h.weaken (fun _ => id) (fun _ _ => id) fun _ _ hfailed =>
    ⟨visited', hfailed.excuse raisesUnsafe_raised⟩)

/-- What the workers do stays inside. -/
theorem stays_of_workers {follow : Bool} {program : DownloadProgram Unit}
    (h : Does (WorkerStep platform options follow) program) :
    Meets (StaysInside platform disk destination excused visited) program
      (fun _ => StaysInside platform disk destination excused visited)
      fun _ => StaysInside platform disk destination excused visited :=
  h.keeps fun _ _ hstep hinside => hinside.step hstep

/-- What the workers do needs no excuse. -/
theorem stays_of_letting {follow : Bool} {program : DownloadProgram Unit}
    (h : Does (WorkerStep platform options follow) program) :
    Meets (StaysInside platform disk destination False visited) program
      (fun _ => StaysInside platform disk destination False visited)
      (EndsInside platform disk destination) :=
  (stays_of_workers options h).weaken (fun _ => id) (fun _ _ => id) fun _ _ hinside =>
    ⟨visited, hinside.excuse False.elim⟩

/-- What the workers do after a failure stays inside, and raises nothing. -/
theorem stays_windDown {follow : Bool} :
    Meets (StaysInside platform disk destination excused visited)
      (windDown platform options follow)
      (fun _ => StaysInside platform disk destination excused visited) fun _ _ => False :=
  ((stays_of_workers options does_windDown).both
    (windDown_returns.strengthen fun _ _ => trivial)).weaken (fun _ => id) (fun _ _ h => h.1)
      fun _ _ h => h.2

/-- Handing out a file with an allowed target stays inside. -/
theorem stays_hand {item : SettledDownload} {follow : Bool}
    (hitem : Allowed platform disk destination item.target) :
    Meets (StaysInside platform disk destination False visited) (hand platform options follow item)
      (fun _ => StaysInside platform disk destination False visited)
      (EndsInside platform disk destination) := by
  refine Meets.doIf fun _ => Meets.bind (Meets.of fun state h => ?_) fun _ =>
    stays_of_letting options does_letWorkers
  exact { h with
    targets := List.forall_mem_append.mpr ⟨h.targets, List.forall_mem_singleton.mpr hitem⟩ }

/-- Settling everything in a visited directory stays inside. -/
theorem stays_settleVisited (entry : WalkEntry) :
    Meets (StaysInside platform disk destination False visited)
      (settleVisited platform options destination entry)
      (fun _ => StaysInside platform disk destination False (visited ++ [entry]))
      (EndsInside platform disk destination) := by
  refine (stays_of_letting options does_letWorkers).bind fun _ => ?_
  refine (stays_raising (stays_enterDirectory options entry)).bind fun path => ?_
  refine Meets.assume fun state h => ?_
  obtain ⟨h, rfl, hallowed⟩ := h
  refine Meets.strengthen (Meets.forM fun child _ => ?_) fun state' heq => heq ▸ h
  refine (stays_raising (stays_settleFile options hallowed entry child)).bind fun settled => ?_
  refine Meets.assume fun state hsettled => ?_
  refine Meets.strengthen ?_ fun state' heq => heq ▸ hsettled.1
  cases settled with
  | none => exact Meets.pure fun _ => id
  | some item => exact stays_hand options (hsettled.2 item rfl)

/-- Delivering visited directories stays inside. -/
theorem stays_deliver (entries : List WalkEntry) (ending : Except TraversalError Unit) :
    Meets (StaysInside platform disk destination False [])
      (deliver (settleVisited platform options destination) entries ending)
      (fun _ state => StaysInside platform disk destination False entries state ∧ ending = .ok ())
      (EndsInside platform disk destination) := by
  refine Meets.bind (Meets.forM_items (StaysInside platform disk destination False)
    fun front item back hitems => ?_) fun _ => ?_
  · exact stays_settleVisited options item
  · cases ending with
    | ok _ => exact Meets.pure fun _ h => ⟨h, rfl⟩
    | error error => exact Meets.throw fun _ h => ⟨entries, h.excuse False.elim⟩

/-- Every directory found in a visited one was visited. -/
def ClosedUnder (entries : List WalkEntry) : Prop :=
  ∀ entry ∈ entries, ∀ child ∈ entry.directories,
    ∃ below ∈ entries, below.relative = entry.relative ++ [child.filename]

/-- A walk that went through every pending directory is closed. -/
theorem closedUnder_of_walks {pending : List (Bytes × List Bytes)} {entries : List WalkEntry}
    (h : Walks (fun directory relative entry => entry.Listed directory relative) pending entries
      []) : ClosedUnder entries := by
  intro entry hentry child hchild
  have hbelow : (joinRemote entry.path child.filename, entry.relative ++ [child.filename]) ∈
      entry.below := List.mem_map_of_mem hchild
  rcases h.closed hentry hbelow with ⟨below, hmem, hlisted⟩ | hrest
  · exact ⟨below, hmem, hlisted.relative⟩
  · cases hrest

variable (server : TreeServer) (turns : ℕ) (root : Bytes)

/-- Walking a remote tree and settling everything in it stays inside. -/
theorem stays_walkHolding :
    Meets (fun visit => StaysInside platform disk destination False [] visit.held)
      (walkHolding server turns options.maxDepth (settleVisited platform options destination) root)
      (fun _ visit => ∃ entries,
        StaysInside platform disk destination False entries visit.held ∧ ClosedUnder entries)
      (fun error visit => EndsInside platform disk destination error visit.held) := by
  intro visit h
  obtain ⟨entries, rest, hwalks, hdelivered, hrest⟩ := delivered_listed
    (settleVisited platform options destination) server turns options.maxDepth root visit
  have hends := hdelivered.ends (stays_deliver options entries _ visit.held h)
  refine hends.weaken (fun _ visit' hstays => ?_) fun _ _ => id
  obtain ⟨hstays, hok⟩ := hstays
  obtain rfl := hrest hok
  exact ⟨entries, hstays, closedUnder_of_walks hwalks⟩

/-- Transferring a tree stays inside. -/
theorem stays_transferTree :
    Meets (fun visit => StaysInside platform disk destination False [] visit.held)
      (transferTree server turns platform options destination root)
      (fun _ visit => ∃ entries,
        StaysInside platform disk destination False entries visit.held ∧ ClosedUnder entries)
      (fun error visit => EndsInside platform disk destination error visit.held) := by
  refine Meets.tryCatch ((stays_walkHolding options server turns root).bind fun _ => ?_)
    fun error => ?_
  · refine Meets.assume fun visit h => ?_
    obtain ⟨entries, hstays, hclosed⟩ := h
    refine (meets_onHeld (stays_of_letting options does_finishWorkers)).weaken
      (fun visit' heq => heq ▸ hstays) (fun _ _ hfinished => ⟨entries, hfinished, hclosed⟩)
      fun _ _ => id
  · refine Meets.assume fun visit h => ?_
    obtain ⟨entries, hstays⟩ := h
    refine Meets.bind ((meets_onHeld (stays_windDown options)).weaken
      (fun visit' heq => heq ▸ hstays) (fun _ _ => id) fun _ _ => False.elim) fun _ => ?_
    exact Meets.throw fun _ hdone => ⟨entries, hdone⟩

/-- Stamping a directory stays inside, where the path is allowed. -/
theorem stays_applyQuietly {effect : LocalPath → List Bytes → LocalEffect} {path : LocalPath}
    (heffect : ∀ place, platform.resolvesTo disk path = some place →
      (effect path place).Within platform disk destination)
    (hconsidered : ∀ place other, effect path place ≠ .considered other) :
    Meets (StaysInside platform disk destination False visited)
      (applyQuietly platform effect path)
      (fun _ => StaysInside platform disk destination False visited)
      (EndsInside platform disk destination) := by
  intro state h
  unfold applyQuietly
  rw [exec_modify]
  cases hstamp : platform.stampCall state.disk path with
  | error error => exact h
  | ok place =>
    have hresolved := resolvesTo_of_stampCall hstamp
    rw [resolvesTo_extends h.kept] at hresolved
    exact h.record (.refl _) (Or.inl (heffect place hresolved)) (hconsidered place)

/-- The paths to be stamped are allowed once every visited directory was considered. -/
theorem StaysInside.allowed_stamps (h : StaysInside platform disk destination False visited state)
    (hclosed : ClosedUnder visited) {path : LocalPath}
    (hpath : path ∈ state.directoryTimes.map Prod.fst ++ state.directoryModes.map Prod.fst) :
    Allowed platform disk destination path := by
  obtain ⟨entry, hentry, child, hchild, rfl⟩ := h.stamps path hpath
  obtain ⟨below, hbelow, hrelative⟩ := hclosed entry hentry child hchild
  have hconsidered := h.visits below hbelow
  rw [hrelative] at hconsidered
  exact h.allowed.resolve_right id _ hconsidered

/-- Stamping the directories stays inside. -/
theorem stays_applyMetadata (hclosed : ClosedUnder visited) :
    Meets (StaysInside platform disk destination False visited) (applyMetadata platform)
      (fun _ => StaysInside platform disk destination False visited)
      (EndsInside platform disk destination) := by
  refine Meets.get fun state h => Meets.bind ((Meets.forM fun entry hentry => ?_).strengthen
    fun _ heq => heq ▸ h) fun _ => Meets.get fun state h => (Meets.forM fun entry hentry =>
      ?_).strengthen fun _ heq => heq ▸ h
  · have hallowed := h.allowed_stamps hclosed
      (List.mem_append_left _ (List.mem_map_of_mem hentry))
    exact stays_applyQuietly (fun place hplace => ⟨hallowed, hplace⟩) fun _ _ heq => by cases heq
  · have hallowed := h.allowed_stamps hclosed
      (List.mem_append_right _ (List.mem_map_of_mem hentry))
    exact stays_applyQuietly (fun place hplace => ⟨hallowed, hplace⟩) fun _ _ heq => by cases heq

/-- Making the destination makes what is on the way to it, where it was not there. -/
theorem stays_ensureParents (hdestination : platform.isDir disk destination = false)
    (steps : List (PathStep Bytes)) (hsteps : steps.reverse <+: destination) :
    Meets (StaysInside platform disk destination False visited) (ensureParents platform steps)
      (fun _ => StaysInside platform disk destination False visited)
      (Fails platform disk destination visited) := by
  have hensure : ∀ path, path <+: destination →
      Meets (StaysInside platform disk destination False visited) (ensureDirectory platform path)
        (fun _ => StaysInside platform disk destination False visited)
        (Fails platform disk destination visited) := fun path hpath =>
    stays_ensureDirectory fun place _ => Or.inr ⟨hdestination, path, place, rfl, hpath⟩
  induction steps with
  | nil => exact hensure [] List.nil_prefix
  | cons step parents ih =>
    have hparents : parents.reverse <+: destination := by
      refine List.IsPrefix.trans ?_ hsteps
      rw [List.reverse_cons]
      exact List.prefix_append _ _
    refine Meets.get fun state h => Meets.strengthen ?_ fun state' heq => heq ▸ h
    exact Meets.bind (Meets.doIf fun _ => ih hparents) fun _ => hensure _ hsteps

/-- Making a destination that is there changes nothing. -/
theorem exec_ensureParents (steps : List (PathStep Bytes))
    (h : platform.isDir state.disk steps.reverse = true) :
    (ensureParents platform steps).exec state = (.ok (), state) := by
  have hmkdir := mkdirCall_of_isDir h
  have hensure : (ensureDirectory platform steps.reverse).exec state = (.ok (), state) := by
    unfold ensureDirectory
    simp [hmkdir, h]
  cases steps with
  | nil => exact hensure
  | cons step parents =>
    have hparent : lacksParent platform state.disk (step :: parents).reverse = false := by
      unfold lacksParent
      rw [hmkdir]
    unfold ensureParents
    rw [exec_bind]
    change (doIf (lacksParent platform state.disk (step :: parents).reverse) _ >>= _).exec state = _
    rw [hparent]
    exact hensure

/-- Making the destination stays inside, or on the way to it. -/
theorem stays_ensureDestination (schedule : List (List WorkerAct)) (ledger : Ledger) :
    Meets (· = .fresh disk ledger schedule) (ensureParents platform destination.reverse)
      (fun _ => StaysInside platform disk destination False [])
      (Fails platform disk destination []) := by
  have hfresh : StaysInside platform disk destination False [] (.fresh disk ledger schedule) :=
    .fresh ledger schedule
  cases hdestination : platform.isDir disk destination with
  | false =>
    exact (stays_ensureParents hdestination destination.reverse
      (by rw [List.reverse_reverse])).strengthen fun state heq => heq ▸ hfresh
  | true =>
    intro state heq
    have hdisk : state.disk = disk := heq ▸ rfl
    rw [exec_ensureParents destination.reverse (by rw [List.reverse_reverse, hdisk, hdestination])]
    exact heq ▸ hfresh

/-- Making the destination stays inside, or on the way to it, where it is asked for. -/
theorem stays_makeDestination (schedule : List (List WorkerAct)) (ledger : Ledger) :
    Meets (· = .fresh disk ledger schedule)
      (makeDestination platform options.dryRun destination)
      (fun _ => StaysInside platform disk destination False [])
      (EndsInside platform disk destination) := by
  unfold makeDestination
  cases options.dryRun with
  | true => exact Meets.pure fun _ heq => heq ▸ .fresh ledger schedule
  | false =>
    exact Meets.raising ((stays_ensureDestination schedule ledger).weaken (fun _ => id)
      (fun _ _ => id) fun _ _ hfailed => ⟨[], hfailed.excuse raisesUnsafe_raised⟩)

/-- Whatever a server lists, and however the workers are scheduled: everything that `get_tree`
does locally, it does to an allowed path and at the place that the path resolves to, but for the
directories on the way to a destination that was not there; and where it considers a path that is
not allowed, it raises an error that says so. -/
theorem getTree_stays_inside (known : Option Bytes) (schedule : List (List WorkerAct)) :
    let run := (getTree server turns platform options root destination).exec
      (startTree options known disk schedule)
    (∀ effect ∈ run.2.held.effects,
      effect.Within platform disk destination ∨ effect.OnTheWay platform disk destination) ∧
    ∀ path, .considered path ∈ run.2.held.effects → ¬ Allowed platform disk destination path →
      ∃ directory name reason, run.1 = .error (.raised (.unsafePath directory name reason)) := by
  have hdownload : Meets (· = startTree options known disk schedule)
      (downloadTree server turns platform options destination root)
      (fun _ visit => ∃ entries, StaysInside platform disk destination False entries visit.held)
      fun error visit => EndsInside platform disk destination error visit.held := by
    have hmake : Meets
        (fun visit : Visit DownloadState => visit.held = .fresh disk
          (if options.dryRun then .folded .empty else .destination .empty) schedule)
        (onHeld (makeDestination platform options.dryRun destination))
        (fun _ visit => StaysInside platform disk destination False [] visit.held)
        fun error visit => EndsInside platform disk destination error visit.held :=
      meets_onHeld (stays_makeDestination options schedule _)
    refine (hmake.strengthen fun visit heq => by rw [heq]; rfl).bind fun _ => ?_
    refine (stays_transferTree options server turns root).bind fun _ => ?_
    refine Meets.assume fun visit h => ?_
    obtain ⟨entries, hstays, hclosed⟩ := h
    refine (Meets.doIf fun _ => meets_onHeld (stays_applyMetadata hclosed)).weaken
      (fun visit' heq => heq ▸ hstays) (fun _ _ hdone => ⟨entries, hdone⟩) fun _ _ => id
  have hends := hdownload _ rfl
  intro run
  have hrun : run = (getTree server turns platform options root destination).exec
      (startTree options known disk schedule) := rfl
  unfold getTree requireLocalIo at hrun
  rw [exec_bind] at hrun
  cases hwindows : platform.windows with
  | true =>
    simp only [hwindows, if_true, exec_throw] at hrun
    rw [hrun]
    exact ⟨fun _ hmem => absurd hmem List.not_mem_nil, fun _ hmem => absurd hmem List.not_mem_nil⟩
  | false =>
    simp only [hwindows, Bool.false_eq_true, if_false, exec_pure, exec_bind, exec_raising] at hrun
    generalize (downloadTree server turns platform options destination root).exec
      (startTree options known disk schedule) = outcome at hends hrun
    obtain ⟨error | _, visit⟩ := outcome
    · obtain ⟨entries, hstays⟩ := hends
      have hheld : run = (.error (.raised error), visit) := hrun
      rw [hheld]
      refine ⟨hstays.effects, fun path hmem hnot => ?_⟩
      rcases hstays.allowed with hall | ⟨directory, name, reason, rfl⟩
      · exact absurd (hall path hmem) hnot
      · exact ⟨directory, name, reason, rfl⟩
    · obtain ⟨entries, hstays⟩ := hends
      have hheld : run.2 = visit := by
        rw [hrun]
        change ((ite _ _ _ : Program (Visit DownloadState) DownloadError TreeReport).exec visit).2 = _
        split_ifs
        · rfl
        · rfl
        · rfl
      rw [hheld]
      refine ⟨hstays.effects, fun path hmem hnot => ?_⟩
      exact absurd (hstays.allowed.resolve_right id path hmem) hnot

end Containment

end GantrySftp
