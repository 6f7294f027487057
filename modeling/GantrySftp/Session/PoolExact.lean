import GantrySftp.Session.Pool
import Mathlib.Algebra.Order.BigOperators.Group.List
import Mathlib.Algebra.Order.Group.Nat

/-!
# A bounded pool loses and repeats nothing

Every item stands at one place at a time: it is being sent, held or handled by a worker, or it is
finished. What a worker holds when it ends other than at the end of the stream is accounted for by
the worker, so a pool that returns has nothing left. A failure ends the hand-over at once, and from
there on every step brings the call nearer to raising.
-/

namespace GantrySftp

open Library

namespace Pool

variable {α ε : Type} {concurrency : ℕ} {pool next : Pool α ε} {event : PoolEvent α ε}

/-! ## What every step preserves -/

/-- What the producer yielded and no worker took: the item being sent, or the one that was being
sent when the task left its loop. -/
def Unsent : Host α ε → List (PoolItem α) → Prop
  | .sending item, unsent => unsent = [item]
  | .producing, unsent | .draining true, unsent | .returned, unsent => unsent = []
  | _, unsent => unsent.length ≤ 1

/-- No item is handed over any more. -/
def Settled (concurrency : ℕ) (pool : Pool α ε) : Prop :=
  if concurrency = 1 then pool.host.isLeaving = true else pool.cancelled = true

/-- What holds of a pool of one: nothing is sent to its worker, which has ended when the producer
came to its end. -/
structure Alone (pool : Pool α ε) : Prop where
  unsent : ∀ item, pool.host ≠ .sending item
  unheld : ∀ item, .holding item ∉ pool.workers
  clean : pool.host = .draining true → pool.workers = [.ended]

/-- What holds of a pool between any two steps: every item is yielded, taken, started and finished
once at most, in this order, and a pool that returned has lost none. -/
structure Sound (concurrency : ℕ) (pool : Pool α ε) : Prop where
  size : pool.workers.length = concurrency
  numbered : pool.yielded.map PoolItem.place = List.range pool.yielded.length
  ahead : ∃ unsent, pool.yielded = pool.taken ++ unsent ∧ Unsent pool.host unsent
  waiting : pool.taken.Perm (pool.started ++ pool.workers.flatMap Worker.unstarted)
  unfinished : pool.started.Perm (pool.finished ++ pool.workers.flatMap Worker.unfinished)
  failed : pool.errors ≠ [] → Settled concurrency pool
  busy : pool.host.isLeaving = false → concurrency = 1 ∨ pool.cancelled = false →
    ∀ worker ∈ pool.workers, worker.isDone = false
  alone : concurrency = 1 → Alone pool
  returned : pool.host = .returned → pool.errors = [] ∧ ∀ worker ∈ pool.workers, worker = .ended
  flat : concurrency ≠ 1 → ∀ tree, pool.host = .raised (.error tree) → ∃ error, tree = .leaf error

/-- A fresh pool. -/
theorem sound_fresh (concurrency : ℕ) : Sound concurrency (fresh concurrency : Pool α ε) := by
  have hworkers : ∀ worker ∈ List.replicate concurrency (Worker.receiving : Worker α),
      worker = .receiving := fun worker hmem => List.eq_of_mem_replicate hmem
  have hnone (hold : Worker α → List (PoolItem α)) (h : hold .receiving = []) :
      (List.replicate concurrency Worker.receiving).flatMap hold = [] := by
    rw [List.flatMap_eq_nil_iff]
    intro worker hmem
    rw [hworkers worker hmem, h]
  constructor
  · exact List.length_replicate
  · rfl
  · exact ⟨[], rfl, rfl⟩
  · simp [fresh, hnone Worker.unstarted rfl]
  · simp [fresh, hnone Worker.unfinished rfl]
  · exact fun h => absurd rfl h
  · intro _ _ worker hmem
    rw [hworkers worker hmem]
    rfl
  · intro _
    exact ⟨nofun, fun item hmem => (nomatch hworkers _ hmem), nofun⟩
  · exact fun h => by cases h
  · exact fun _ _ h => by cases h

/-- Where a worker has not ended, the task has not returned. -/
theorem Sound.not_returned (h : Sound concurrency pool) {index : ℕ} {worker : Worker α}
    (hworker : pool.workers[index]? = some worker) (hne : worker ≠ .ended) :
    pool.host ≠ .returned :=
  fun hhost => hne ((h.returned hhost).2 worker (List.mem_of_getElem? hworker))

/-- A call returns only when nothing failed. -/
theorem outcome_returned {closing failure : Option (PoolFailure ε)} :
    (outcome closing failure : Host α ε) = .returned ↔ closing = none ∧ failure = none := by
  cases closing <;> cases failure <;> simp [outcome]

/-- A call raises what failed. -/
theorem outcome_raised {closing failure : Option (PoolFailure ε)} {raised : PoolFailure ε}
    (h : (outcome closing failure : Host α ε) = .raised raised) :
    closing = some raised ∨ failure = some raised := by
  cases closing with
  | some closing => exact Or.inl (congrArg some (Host.raised.inj h))
  | none =>
    cases failure with
    | some failure => exact Or.inr (congrArg some (Host.raised.inj h))
    | none => cases h

/-- A call that ends is over. -/
theorem isOver_outcome (closing failure : Option (PoolFailure ε)) :
    (outcome closing failure : Host α ε).isOver = true ∧
      (outcome closing failure : Host α ε).isLeaving = true ∧
      (outcome closing failure : Host α ε).budget = 0 := by
  cases closing <;> cases failure <;> exact ⟨rfl, rfl, rfl⟩

/-- A call that ends does nothing else. -/
theorem outcome_ne {closing failure : Option (PoolFailure ε)} {host : Host α ε}
    (h : host.isOver = false) : outcome closing failure ≠ host := by
  rintro rfl
  rw [(isOver_outcome closing failure).1] at h
  cases h

/-- Nothing leaves the task group only when nothing was recorded and every worker came to the end
of the stream. -/
theorem groupFailure_eq_none {clean noticed : Bool} (h : pool.groupFailure clean noticed = none) :
    clean = true ∧ pool.errors = [] ∧ ∀ worker ∈ pool.workers, worker = .ended := by
  unfold groupFailure at h
  split at h
  · cases h
  · rename_i herrors
    split_ifs at h with hclean
    rw [Bool.and_eq_true, Bool.and_eq_true, List.all_eq_true] at hclean
    refine ⟨hclean.1.1, herrors, fun worker hmem => ?_⟩
    have hended := hclean.1.2 worker hmem
    cases worker <;> simp_all [Worker.isEnded]

/-- Nothing leaves the loop only when nothing was raised and the producer came to its end. -/
theorem loopFailure_eq_none {clean : Bool} (h : pool.loopFailure clean = none) :
    clean = true ∧ pool.errors = [] := by
  unfold loopFailure at h
  split at h
  · cases h
  · rename_i herrors
    split_ifs at h with hclean
    exact ⟨hclean, herrors⟩

/-- A task that leaves has at most the item it was sending unsent, and none when it returns. -/
theorem unsent_outcome {clean : Bool} {unsent : List (PoolItem α)}
    {closing failure : Option (PoolFailure ε)} (hfailure : failure = none → clean = true)
    (h : Unsent (.draining clean : Host α ε) unsent) :
    Unsent (outcome closing failure : Host α ε) unsent := by
  have hshort : unsent.length ≤ 1 := by
    cases clean with
    | true => simp [show unsent = [] from h]
    | false => exact h
  cases closing with
  | some closing => exact hshort
  | none =>
    cases failure with
    | some failure => exact hshort
    | none =>
      rw [hfailure rfl] at h
      exact h

/-- The next item is named by the place after all others. -/
theorem numbered_nextItem (h : pool.yielded.map PoolItem.place = List.range pool.yielded.length)
    (value : α) : (pool.yielded ++ [pool.nextItem value]).map PoolItem.place =
      List.range (pool.yielded ++ [pool.nextItem value]).length := by
  rw [List.map_append, h, List.length_append, List.length_singleton, List.range_succ]
  rfl

/-- A task in its loop has at most the item it is sending unsent. -/
theorem unsent_length {unsent : List (PoolItem α)} {host : Host α ε} (h : Unsent host unsent) :
    unsent.length ≤ 1 := by
  cases host with
  | producing | returned => simp [show unsent = [] from h]
  | sending item => simp [show unsent = [item] from h]
  | draining clean =>
    cases clean with
    | true => simp [show unsent = [] from h]
    | false => exact h
  | raised failure => exact h

/-- A flattened failure is no group. -/
theorem leaf_of_flatten {failure : Option (PoolFailure ε)} {tree : ErrorTree ε}
    (h : failure.map PoolFailure.flatten = some (.error tree)) : ∃ error, tree = .leaf error := by
  obtain ⟨raised, -, heq⟩ := Option.map_eq_some_iff.mp h
  cases raised with
  | cancelled => cases heq
  | error group =>
    obtain ⟨error, -, hflat⟩ := group.flatten_eq
    have htree : group.flatten = tree := PoolFailure.error.inj heq
    exact ⟨error, htree.symm.trans hflat⟩

/-- No item is handed over any more by a pool with several workers that is cancelled. -/
theorem settled_of_cancelled (hseveral : concurrency ≠ 1) (h : pool.cancelled = true) :
    Settled concurrency pool := by
  unfold Settled
  rwa [if_neg hseveral]

/-- A pool with several workers that failed is cancelled. -/
theorem Sound.cancelled (h : Sound concurrency pool) (hseveral : concurrency ≠ 1)
    (herrors : pool.errors ≠ []) : pool.cancelled = true := by
  have hsettled := h.failed herrors
  unfold Settled at hsettled
  rwa [if_neg hseveral] at hsettled

/-- What a worker that moves held is held on where it holds the same. -/
theorem perm_kept {whole past : List (PoolItem α)} {workers : List (Worker α)} {index : ℕ}
    {old new : Worker α} {hold : Worker α → List (PoolItem α)}
    (h : whole.Perm (past ++ workers.flatMap hold)) (hworker : workers[index]? = some old)
    (hsame : hold new = hold old) :
    whole.Perm (past ++ (workers.set index new).flatMap hold) := by
  have hmoved := perm_flatMap_set hworker hold new
  rw [hsame] at hmoved
  exact h.trans (((List.perm_append_left_iff _).mp hmoved).symm.append_left past)

/-- A pool with several workers that is sound stays sound. -/
theorem Sound.moves (h : Sound concurrency pool) (hseveral : concurrency ≠ 1)
    (hmoves : Moves pool next) : Sound concurrency next := by
  cases hmoves with
  | yields value hhost =>
    obtain ⟨unsent, hyielded, hunsent⟩ := h.ahead
    rw [hhost] at hunsent
    obtain rfl : unsent = [] := hunsent
    rw [List.append_nil] at hyielded
    exact { h with
      numbered := numbered_nextItem h.numbered value
      ahead := ⟨[pool.nextItem value], congrArg (· ++ _) hyielded, rfl⟩
      failed := fun herrors => settled_of_cancelled hseveral (h.cancelled hseveral herrors)
      busy := fun _ => h.busy (by rw [hhost]; rfl)
      alone := fun hone => absurd hone hseveral
      returned := nofun
      flat := fun _ => nofun }
  | exhausts hhost =>
    obtain ⟨unsent, hyielded, hunsent⟩ := h.ahead
    rw [hhost] at hunsent
    exact { h with
      ahead := ⟨unsent, hyielded, hunsent⟩
      failed := fun herrors => settled_of_cancelled hseveral (h.cancelled hseveral herrors)
      busy := nofun
      alone := fun hone => absurd hone hseveral
      returned := nofun
      flat := fun _ => nofun }
  | interrupted hhost hcancelled =>
    obtain ⟨unsent, hyielded, hunsent⟩ := h.ahead
    exact { h with
      ahead := ⟨unsent, hyielded, unsent_length hunsent⟩
      failed := fun _ => settled_of_cancelled hseveral hcancelled
      busy := nofun
      alone := fun hone => absurd hone hseveral
      returned := nofun
      flat := fun _ => nofun }
  | fails error hhost =>
    obtain ⟨unsent, hyielded, hunsent⟩ := h.ahead
    exact { h with
      ahead := ⟨unsent, hyielded, unsent_length hunsent⟩
      failed := fun _ => settled_of_cancelled hseveral rfl
      busy := nofun
      alone := fun hone => absurd hone hseveral
      returned := nofun
      flat := fun _ => nofun }
  | @handsOver index item hhost hworker hcancelled =>
    obtain ⟨unsent, hyielded, hunsent⟩ := h.ahead
    rw [hhost] at hunsent
    obtain rfl : unsent = [item] := hunsent
    exact { h with
      size := (List.length_set).trans h.size
      ahead := ⟨[], by rw [List.append_nil]; exact hyielded, rfl⟩
      waiting := perm_take h.waiting (perm_flatMap_set hworker Worker.unstarted (.holding item))
      unfinished := perm_kept h.unfinished hworker rfl
      failed := fun herrors => settled_of_cancelled hseveral (h.cancelled hseveral herrors)
      busy := fun _ hfree => forall_mem_set (h.busy (by rw [hhost]; rfl) hfree) index rfl
      alone := fun hone => absurd hone hseveral
      returned := nofun
      flat := fun _ => nofun }
  | @starts index item hworker =>
    exact { h with
      size := (List.length_set).trans h.size
      waiting := perm_pass h.waiting (perm_flatMap_set hworker Worker.unstarted (.handling item))
      unfinished := perm_take h.unfinished
        (perm_flatMap_set hworker Worker.unfinished (.handling item))
      failed := fun herrors => settled_of_cancelled hseveral (h.cancelled hseveral herrors)
      busy := fun hloop hfree => forall_mem_set (h.busy hloop hfree) index rfl
      alone := fun hone => absurd hone hseveral
      returned := fun hover => absurd hover (h.not_returned hworker (by simp)) }
  | @finishes index item hworker =>
    exact { h with
      size := (List.length_set).trans h.size
      waiting := perm_kept h.waiting hworker rfl
      unfinished := perm_pass h.unfinished
        (perm_flatMap_set hworker Worker.unfinished .receiving)
      failed := fun herrors => settled_of_cancelled hseveral (h.cancelled hseveral herrors)
      busy := fun hloop hfree => forall_mem_set (h.busy hloop hfree) index rfl
      alone := fun hone => absurd hone hseveral
      returned := fun hover => absurd hover (h.not_returned hworker (by simp)) }
  | @breaks index item error hworker =>
    exact { h with
      size := (List.length_set).trans h.size
      waiting := perm_kept h.waiting hworker rfl
      unfinished := perm_kept h.unfinished hworker rfl
      failed := fun _ => settled_of_cancelled hseveral rfl
      busy := fun _ hfree => absurd hfree (by simp [hseveral, failing])
      alone := fun hone => absurd hone hseveral
      returned := fun hover => absurd hover (h.not_returned hworker (by simp)) }
  | @quits index old new hworker hbudget hunstarted hunfinished hallowed =>
    have hne : old ≠ .ended := fun hended => by simp [hended, Worker.budget] at hbudget
    exact { h with
      size := (List.length_set).trans h.size
      waiting := perm_kept h.waiting hworker hunstarted
      unfinished := perm_kept h.unfinished hworker hunfinished
      failed := fun herrors => settled_of_cancelled hseveral (h.cancelled hseveral herrors)
      busy := fun hloop hfree => by simp_all [withWorker]
      alone := fun hone => absurd hone hseveral
      returned := fun hover => absurd hover (h.not_returned hworker hne) }
  | cancelledOutside hhost hcancelled =>
    exact { h with
      failed := fun _ => settled_of_cancelled hseveral rfl
      busy := fun _ hfree => absurd hfree (by simp [hseveral])
      alone := fun hone => absurd hone hseveral }
  | @leaves clean noticed closing hhost =>
    obtain ⟨unsent, hyielded, hunsent⟩ := h.ahead
    rw [hhost] at hunsent
    exact { h with
      ahead := ⟨unsent, hyielded, unsent_outcome
        (fun hnone => (groupFailure_eq_none (Option.map_eq_none_iff.mp hnone)).1) hunsent⟩
      failed := fun herrors => settled_of_cancelled hseveral (h.cancelled hseveral herrors)
      busy := fun hloop => by rw [(isOver_outcome _ _).2.1] at hloop; cases hloop
      alone := fun hone => absurd hone hseveral
      returned := fun hover => (groupFailure_eq_none
        (Option.map_eq_none_iff.mp (outcome_returned.mp hover).2)).2
      flat := fun _ _ hraised => (outcome_raised hraised).elim leaf_of_flatten leaf_of_flatten }

/-- A pool of one in its loop has not failed. -/
theorem Sound.no_errors (h : Sound 1 pool) (hhost : pool.host = .producing) : pool.errors = [] := by
  by_contra herrors
  have hleaving : pool.host.isLeaving = true := h.failed herrors
  rw [hhost] at hleaving
  cases hleaving

/-- A pool of one whose worker is not done is in its loop or has left it by a failure. -/
theorem Sound.not_clean (h : Sound 1 pool) {worker : Worker α} (hworkers : pool.workers = [worker])
    (hne : worker ≠ .ended) : pool.host ≠ .draining true ∧ pool.host ≠ .returned := by
  constructor
  · intro hhost
    have hended := (h.alone rfl).clean hhost
    rw [hworkers] at hended
    exact hne (List.singleton_inj.mp hended)
  · intro hhost
    exact hne ((h.returned hhost).2 worker (by rw [hworkers]; exact List.mem_singleton_self _))

/-- A pool of one that leaves its loop otherwise than at the end of the producer is sound. -/
theorem Sound.leaveLoop (h : Sound 1 pool) {old new : Worker α} (errors : List (ErrorTree ε))
    (hworkers : pool.workers = [old]) (hunstarted : new.unstarted = old.unstarted)
    (hunfinished : new.unfinished = old.unfinished) (hunheld : ∀ item, new ≠ .holding item) :
    Sound 1 { pool with host := .draining false, workers := [new], errors := errors } := by
  obtain ⟨unsent, hyielded, hunsent⟩ := h.ahead
  have hwaiting := h.waiting
  have hstarted := h.unfinished
  rw [hworkers, List.flatMap_singleton] at hwaiting hstarted
  exact {
    size := rfl
    numbered := h.numbered
    ahead := ⟨unsent, hyielded, unsent_length hunsent⟩
    waiting := by rwa [List.flatMap_singleton, hunstarted]
    unfinished := by rwa [List.flatMap_singleton, hunfinished]
    failed := fun _ => rfl
    busy := nofun
    alone := fun _ =>
      ⟨nofun, fun item hmem => hunheld item (List.mem_singleton.mp hmem).symm, nofun⟩
    returned := nofun
    flat := fun hone => absurd rfl hone }

/-- A pool of one that is sound stays sound. -/
theorem Sound.movesAlone (h : Sound 1 pool) (hmoves : MovesAlone pool next) : Sound 1 next := by
  have hwaiting := h.waiting
  have hunfinished := h.unfinished
  cases hmoves with
  | yields value hhost hworkers =>
    obtain ⟨unsent, hyielded, hunsent⟩ := h.ahead
    rw [hhost] at hunsent
    obtain rfl : unsent = [] := hunsent
    rw [List.append_nil] at hyielded
    simp only [hworkers, List.flatMap_singleton, Worker.unstarted, Worker.unfinished,
      List.append_nil] at hwaiting hunfinished
    exact {
      size := rfl
      numbered := numbered_nextItem h.numbered value
      ahead := ⟨[], by rw [List.append_nil, hyielded], by rw [hhost]; rfl⟩
      waiting := by simpa [Worker.unstarted] using hwaiting.append_right _
      unfinished := by simpa [Worker.unfinished] using hunfinished.append_right _
      failed := fun herrors => absurd (h.no_errors hhost) herrors
      busy := fun _ _ => by simp [Worker.isDone]
      alone := fun _ => ⟨(h.alone rfl).unsent, by simp, fun hclean => by
        rw [hhost] at hclean
        cases hclean⟩
      returned := fun hover => by rw [hhost] at hover; cases hover
      flat := fun hone => absurd rfl hone }
  | exhausts hhost hworkers =>
    obtain ⟨unsent, hyielded, hunsent⟩ := h.ahead
    rw [hhost] at hunsent
    rw [hworkers] at hwaiting hunfinished
    exact {
      size := rfl
      numbered := h.numbered
      ahead := ⟨unsent, hyielded, hunsent⟩
      waiting := hwaiting
      unfinished := hunfinished
      failed := fun _ => rfl
      busy := nofun
      alone := fun _ => ⟨nofun, by simp, fun _ => rfl⟩
      returned := nofun
      flat := fun hone => absurd rfl hone }
  | fails error hhost hworkers => exact h.leaveLoop _ hworkers rfl rfl (by simp)
  | interrupted hhost hworkers => exact h.leaveLoop _ hworkers rfl rfl (by simp)
  | finishes hworkers =>
    rw [hworkers] at hwaiting hunfinished
    obtain ⟨hclean, hreturned⟩ := h.not_clean hworkers (by simp)
    exact { h with
      size := rfl
      waiting := hwaiting
      unfinished := by simpa [Worker.unfinished] using hunfinished
      busy := fun _ _ => by simp [Worker.isDone]
      alone := fun _ => ⟨(h.alone rfl).unsent, by simp, fun hhost => absurd hhost hclean⟩
      returned := fun hover => absurd hover hreturned }
  | breaks error hworkers => exact h.leaveLoop _ hworkers rfl rfl (by simp)
  | stops hworkers => exact h.leaveLoop _ hworkers rfl rfl (by simp)
  | cancelledOutside hhost hcancelled =>
    exact { h with
      busy := fun hloop _ => h.busy hloop (Or.inl rfl)
      alone := fun hone => { h.alone hone with } }
  | @leaves clean closing hhost =>
    obtain ⟨unsent, hyielded, hunsent⟩ := h.ahead
    rw [hhost] at hunsent
    exact { h with
      ahead := ⟨unsent, hyielded, unsent_outcome
        (fun hnone => (loopFailure_eq_none hnone).1) hunsent⟩
      failed := fun _ => (isOver_outcome _ _).2.1
      busy := fun hloop => by rw [(isOver_outcome _ _).2.1] at hloop; cases hloop
      alone := fun _ => ⟨fun _ => outcome_ne rfl, (h.alone rfl).unheld, fun hclean =>
        absurd hclean (outcome_ne rfl)⟩
      returned := fun hover => by
        obtain ⟨hclean, herrors⟩ := loopFailure_eq_none (outcome_returned.mp hover).2
        refine ⟨herrors, ?_⟩
        rw [hclean] at hhost
        rw [(h.alone rfl).clean hhost]
        simp
      flat := fun hone => absurd rfl hone }

/-- A pool that is sound stays sound. -/
theorem Sound.step (h : Sound concurrency pool) (hstep : step concurrency pool event = some next) :
    Sound concurrency next := by
  unfold Pool.step at hstep
  split_ifs at hstep with hone
  · subst hone
    exact h.movesAlone (movesAlone_of_sequentialStep hstep)
  · exact h.moves hone (moves_of_concurrentStep hstep)

/-! ## After a failure -/

/-- How many steps a pool has before it at most, once no item is handed over any more. -/
def budget (pool : Pool α ε) : ℕ :=
  pool.host.budget + (pool.workers.map Worker.budget).sum + if pool.cancelled then 0 else 1

/-- A worker that moves costs a pool what its moves costs it. -/
theorem budget_withWorker {index : ℕ} {old : Worker α}
    (hworker : pool.workers[index]? = some old) (new : Worker α) :
    old.budget + (pool.withWorker index new).budget = new.budget + pool.budget := by
  have hsum := sum_map_set hworker Worker.budget new
  unfold budget withWorker
  dsimp only
  omega

/-- A pool whose task is nearer to its end has fewer steps before it. -/
theorem budget_lt_of_host (hworkers : next.workers = pool.workers)
    (hcancelled : next.cancelled = pool.cancelled)
    (hless : next.host.budget < pool.host.budget) : next.budget < pool.budget := by
  unfold budget
  rw [hworkers, hcancelled]
  omega

/-- A task that leaves its loop is nearer to its end. -/
theorem budget_lt_of_loop {host : Host α ε} (h : host.isLeaving = false) : 1 < host.budget := by
  cases host <;> simp_all [Host.isLeaving, Host.budget]

/-- A cancelled pool with several workers hands over nothing, and each of its moves is one of
so many. -/
theorem Moves.settled (hmoves : Moves pool next) (h : pool.cancelled = true) :
    next.cancelled = true ∧ next.taken = pool.taken ∧ next.budget < pool.budget := by
  cases hmoves with
  | yields value hhost =>
    exact ⟨h, rfl, budget_lt_of_host rfl rfl (by simp [hhost, Host.budget])⟩
  | exhausts hhost =>
    exact ⟨h, rfl, budget_lt_of_host rfl rfl (by simp [hhost, Host.budget])⟩
  | interrupted hhost hcancelled =>
    exact ⟨h, rfl, budget_lt_of_host rfl rfl (budget_lt_of_loop hhost)⟩
  | fails error hhost =>
    exact ⟨rfl, rfl, budget_lt_of_host rfl h.symm (budget_lt_of_loop hhost)⟩
  | handsOver hhost hworker hcancelled =>
    rw [h] at hcancelled
    cases hcancelled
  | @starts index item hworker =>
    refine ⟨h, rfl, ?_⟩
    have hbudget := budget_withWorker hworker (.handling item)
    change (pool.withWorker index (.handling item)).budget < _
    simp only [Worker.budget] at hbudget
    omega
  | @finishes index item hworker =>
    refine ⟨h, rfl, ?_⟩
    have hbudget := budget_withWorker hworker .receiving
    change (pool.withWorker index .receiving).budget < _
    simp only [Worker.budget] at hbudget
    omega
  | @breaks index item error hworker =>
    refine ⟨rfl, rfl, ?_⟩
    have hbudget := budget_withWorker hworker (.broken item)
    have hsame : ((pool.withWorker index (.broken item)).failing error).budget =
        (pool.withWorker index (.broken item)).budget := by
      simp [budget, failing, withWorker, h]
    simp only [Worker.budget] at hbudget
    omega
  | @quits index old new hworker hless hunstarted hunfinished hallowed =>
    refine ⟨h, rfl, ?_⟩
    have hbudget := budget_withWorker hworker new
    omega
  | cancelledOutside hhost hcancelled =>
    rw [h] at hcancelled
    cases hcancelled
  | leaves noticed closing hhost =>
    refine ⟨h, rfl, budget_lt_of_host rfl rfl ?_⟩
    rw [(isOver_outcome _ _).2.2, hhost]
    exact Nat.one_pos

/-- A pool of one that has left its loop starts nothing, and each of its moves is one of so
many. -/
theorem MovesAlone.settled (hmoves : MovesAlone pool next) (h : pool.host.isLeaving = true) :
    next.host.isLeaving = true ∧ next.taken = pool.taken ∧ next.budget < pool.budget := by
  cases hmoves with
  | yields value hhost | exhausts hhost | fails error hhost | interrupted hhost =>
    rw [hhost] at h
    cases h
  | finishes hworkers => exact ⟨h, rfl, by simp [budget, hworkers, Worker.budget]⟩
  | breaks error hworkers | stops hworkers =>
    refine ⟨rfl, rfl, ?_⟩
    have hhost : (Host.draining false : Host α ε).budget = 1 := rfl
    simp only [budget, hworkers, List.map_singleton, List.sum_singleton, hhost, Worker.budget]
    omega
  | cancelledOutside hhost hcancelled => exact ⟨h, rfl, by simp [budget, hcancelled]⟩
  | leaves closing hhost =>
    refine ⟨(isOver_outcome _ _).2.1, rfl, budget_lt_of_host rfl rfl ?_⟩
    rw [(isOver_outcome _ _).2.2, hhost]
    exact Nat.one_pos

/-- Once no item is handed over any more, none ever is, and only so many steps are left. -/
theorem Settled.step (h : Settled concurrency pool)
    (hstep : Pool.step concurrency pool event = some next) :
    Settled concurrency next ∧ next.taken = pool.taken ∧ next.budget < pool.budget := by
  unfold Pool.step at hstep
  unfold Settled at h ⊢
  split_ifs at hstep h ⊢ with hone
  · exact (movesAlone_of_sequentialStep hstep).settled h
  · exact (moves_of_concurrentStep hstep).settled h

/-- A pool has only so many steps before it, for its size. -/
theorem budget_le (pool : Pool α ε) : pool.budget ≤ 3 * pool.workers.length + 4 := by
  have hworkers : (pool.workers.map Worker.budget).sum ≤ 3 * pool.workers.length := by
    have hle := List.sum_le_card_nsmul (pool.workers.map Worker.budget) 3 (by
      intro cost hmem
      obtain ⟨worker, -, rfl⟩ := List.mem_map.mp hmem
      cases worker <;> simp [Worker.budget])
    rwa [List.length_map, Nat.nsmul_eq_mul, Nat.mul_comm] at hle
  have hhost : pool.host.budget ≤ 3 := by
    cases pool.host <;> simp [Host.budget]
  unfold budget
  split_ifs <;> omega

/-! ## A pool is never stuck -/

/-- A worker that is not done can go on when it has an item or the stream has ended. -/
theorem exists_worker_step {index : ℕ} {worker : Worker α}
    (hworker : pool.workers[index]? = some worker) (hbusy : worker.isDone = false)
    (hreceiving : worker = .receiving → pool.host.isLeaving = true) :
    ∃ event, (concurrentStep pool event).isSome = true := by
  cases worker with
  | receiving => exact ⟨.streamEnds index, by simp [concurrentStep, hworker, hreceiving rfl]⟩
  | holding item => exact ⟨.starts index, by simp [concurrentStep, hworker]⟩
  | handling item => exact ⟨.finishes index, by simp [concurrentStep, hworker]⟩
  | ended | stopped | dropped _ | broken _ => cases hbusy

/-- A pool with several workers has a step to do until its call is over. -/
theorem Sound.exists_concurrentStep (h : Sound concurrency pool) (hpositive : 0 < concurrency)
    (hover : pool.host.isOver = false) : ∃ event, (concurrentStep pool event).isSome = true := by
  cases hhost : pool.host with
  | producing => exact ⟨.exhausts, by simp [concurrentStep, hhost]⟩
  | sending item =>
    cases hcancelled : pool.cancelled with
    | true => exact ⟨.sendCancelled, by simp [concurrentStep, hhost, hcancelled]⟩
    | false =>
      obtain ⟨worker, hfirst⟩ : ∃ worker, pool.workers[0]? = some worker :=
        ⟨_, List.getElem?_eq_getElem (h.size ▸ hpositive)⟩
      by_cases hreceiving : worker = .receiving
      · subst hreceiving
        exact ⟨.handsOver 0, by simp [concurrentStep, hhost, hfirst, hcancelled]⟩
      · have hbusy := h.busy (by rw [hhost]; rfl) (Or.inr hcancelled) worker
          (List.mem_of_getElem? hfirst)
        exact exists_worker_step hfirst hbusy fun heq => absurd heq hreceiving
  | draining clean =>
    cases hdone : pool.workers.all Worker.isDone with
    | true => exact ⟨.leaves false none, by simp [concurrentStep, hhost, hdone]⟩
    | false =>
      obtain ⟨worker, hmem, hbusy⟩ := List.all_eq_false.mp hdone
      obtain ⟨index, hworker⟩ := List.mem_iff_getElem?.mp hmem
      exact exists_worker_step hworker (Bool.eq_false_iff.mpr hbusy) fun _ => by rw [hhost]; rfl
  | returned | raised _ =>
    rw [hhost] at hover
    cases hover

/-- A pool of one has a step to do until its call is over. -/
theorem Sound.exists_sequentialStep (h : Sound 1 pool) (hover : pool.host.isOver = false) :
    ∃ event, (sequentialStep pool event).isSome = true := by
  cases hhost : pool.host with
  | producing =>
    obtain ⟨worker, hworkers⟩ := List.length_eq_one_iff.mp h.size
    have hbusy := h.busy (by rw [hhost]; rfl) (Or.inl rfl) worker (by simp [hworkers])
    have hunheld := (h.alone rfl).unheld
    rw [hworkers] at hunheld
    cases worker with
    | receiving => exact ⟨.exhausts, by simp [sequentialStep, hhost, hworkers]⟩
    | holding item => exact absurd (List.mem_singleton_self _) (hunheld item)
    | handling item => exact ⟨.finishes 0, by simp [sequentialStep, hworkers]⟩
    | ended | stopped | dropped _ | broken _ => cases hbusy
  | sending item => exact absurd hhost ((h.alone rfl).unsent item)
  | draining clean => exact ⟨.leaves false none, by simp [sequentialStep, hhost]⟩
  | returned | raised _ =>
    rw [hhost] at hover
    cases hover

/-- A pool has a step to do until its call is over. -/
theorem Sound.exists_step (h : Sound concurrency pool) (hpositive : 0 < concurrency)
    (hover : pool.host.isOver = false) :
    ∃ event, (Pool.step concurrency pool event).isSome = true := by
  unfold Pool.step
  split_ifs with hone
  · subst hone
    exact h.exists_sequentialStep hover
  · exact h.exists_concurrentStep hpositive hover

/-! ## Runs -/

/-- The producer or a handler raises. -/
inductive IsFailure : PoolEvent α ε → Prop
  | producer (error : ErrorTree ε) : IsFailure (.producerRaises error)
  | handler (index : ℕ) (error : ErrorTree ε) : IsFailure (.handlerRaises index error)

/-- A pool that any steps lead to. -/
def Reached (concurrency : ℕ) (pool : Pool α ε) : Prop :=
  ∃ events, runSteps (Pool.step concurrency) (fresh concurrency) events = some pool

/-- Whatever steps lead to is sound. -/
theorem Reached.sound (h : Reached concurrency pool) : Sound concurrency pool := by
  obtain ⟨events, hrun⟩ := h
  exact runSteps_preserves (fun _ _ _ hsound hstep => hsound.step hstep)
    (sound_fresh concurrency) hrun

/-- A failure is recorded, and takes no item. -/
theorem failure_recorded (hfailure : IsFailure event)
    (hstep : Pool.step concurrency pool event = some next) :
    next.errors ≠ [] ∧ next.taken = pool.taken := by
  unfold Pool.step at hstep
  split_ifs at hstep with hone
  · cases hfailure with
    | producer error =>
      simp only [sequentialStep] at hstep
      split at hstep <;> cases hstep
      exact ⟨by simp, rfl⟩
    | handler index error =>
      simp only [sequentialStep] at hstep
      split at hstep <;> cases hstep
      exact ⟨by simp, rfl⟩
  · cases hfailure with
    | producer error =>
      simp only [concurrentStep] at hstep
      split at hstep <;> cases hstep
      exact ⟨by simp [failing], rfl⟩
    | handler index error =>
      simp only [concurrentStep] at hstep
      split at hstep <;> cases hstep
      exact ⟨by simp [failing], rfl⟩

/-- What was recorded stays recorded. -/
theorem errors_ne_nil_of_step (h : pool.errors ≠ [])
    (hstep : Pool.step concurrency pool event = some next) : next.errors ≠ [] := by
  unfold Pool.step at hstep
  split_ifs at hstep with hone
  · cases movesAlone_of_sequentialStep hstep with
    | fails error | breaks error => simp
    | yields | exhausts | interrupted | finishes | stops | cancelledOutside | leaves => exact h
  · cases moves_of_concurrentStep hstep with
    | fails error | breaks error => simp [failing]
    | yields | exhausts | interrupted | handsOver | starts | finishes | quits | cancelledOutside
    | leaves => exact h

/-- A pool that returned has handled everything that was yielded. -/
theorem Sound.handled (h : Sound concurrency pool) (hreturned : pool.host = .returned) :
    pool.started.Perm pool.yielded ∧ pool.finished.Perm pool.yielded := by
  obtain ⟨-, hended⟩ := h.returned hreturned
  obtain ⟨unsent, hyielded, hunsent⟩ := h.ahead
  rw [hreturned] at hunsent
  obtain rfl : unsent = [] := hunsent
  have hnone (hold : Worker α → List (PoolItem α)) (hheld : hold .ended = []) :
      pool.workers.flatMap hold = [] := by
    rw [List.flatMap_eq_nil_iff]
    intro worker hmem
    rw [hended worker hmem, hheld]
  have hwaiting := h.waiting
  have hunfinished := h.unfinished
  rw [hnone Worker.unstarted rfl, List.append_nil] at hwaiting
  rw [hnone Worker.unfinished rfl, List.append_nil] at hunfinished
  rw [List.append_nil] at hyielded
  rw [hyielded]
  exact ⟨hwaiting.symm, (hwaiting.trans hunfinished).symm⟩

/-- A failed pool after any number of further steps. -/
structure Failed (concurrency : ℕ) (taken : List (PoolItem α)) (pool : Pool α ε) : Prop where
  sound : Sound concurrency pool
  recorded : pool.errors ≠ []
  kept : pool.taken = taken

/-- A failed pool stays failed, and every step brings it nearer to its end. -/
theorem Failed.step {taken : List (PoolItem α)} (h : Failed concurrency taken pool)
    (hstep : Pool.step concurrency pool event = some next) :
    Failed concurrency taken next ∧ next.budget < pool.budget := by
  obtain ⟨-, htaken, hbudget⟩ := (h.sound.failed h.recorded).step hstep
  exact ⟨⟨h.sound.step hstep, errors_ne_nil_of_step h.recorded hstep, htaken.trans h.kept⟩,
    hbudget⟩

/-- A failed pool has not returned, has started only what was taken, and has raised once it has no
step to do. -/
theorem Failed.raises {taken : List (PoolItem α)} (h : Failed concurrency taken pool)
    (hpositive : 0 < concurrency) :
    pool.host ≠ .returned ∧ pool.started.Subperm taken ∧
      ((∀ event, Pool.step concurrency pool event = none) →
        ∃ failure, pool.host = .raised failure) := by
  have hreturned : pool.host ≠ .returned := fun hhost => h.recorded (h.sound.returned hhost).1
  refine ⟨hreturned, ?_, ?_⟩
  · rw [← h.kept]
    exact (List.sublist_append_left _ _).subperm.trans h.sound.waiting.symm.subperm
  · intro hstuck
    cases hhost : pool.host with
    | raised failure => exact ⟨failure, rfl⟩
    | returned => exact absurd hhost hreturned
    | producing | sending _ | draining _ =>
      obtain ⟨event, hstep⟩ := h.sound.exists_step hpositive (by rw [hhost]; rfl)
      rw [hstuck event] at hstep
      cases hstep

/-- A pool loses and repeats nothing. Every item has its own place. Where the call returned, every
item that was yielded was started once and finished once. No more handlers run than the pool was
given, and no more than one item is ahead of the items that workers took. Where the producer or a
handler raises, only so many steps are left, the call never returns, nothing is started that was
not taken at that moment, and the call has raised once there is no step to do, a plain exception if
there were several workers; until then there is one. -/
theorem pool_exact {size : ℤ} {start pool : Pool α ε} {events : List (PoolEvent α ε)}
    (hstart : forEachBounded size = .ok start)
    (hrun : runSteps (Pool.step size.toNat) start events = some pool) :
    pool.yielded.map PoolItem.place = List.range pool.yielded.length ∧
    (pool.host = .returned →
      pool.started.Perm pool.yielded ∧ pool.finished.Perm pool.yielded) ∧
    pool.running ≤ size ∧
    pool.taken <+: pool.yielded ∧ pool.yielded.length ≤ pool.taken.length + 1 ∧
    (pool.host.isOver = false → ∃ event, (Pool.step size.toNat pool event).isSome = true) ∧
    ∀ event failed, IsFailure event → Pool.step size.toNat pool event = some failed →
      ∀ later last, runSteps (Pool.step size.toNat) failed later = some last →
        later.length ≤ 3 * size + 4 ∧ last.host ≠ .returned ∧
        last.started.Subperm pool.taken ∧
        ((∀ event, Pool.step size.toNat last event = none) →
          ∃ failure, last.host = .raised failure) ∧
        ∀ tree, size ≠ 1 → last.host = .raised (.error tree) → ∃ error, tree = .leaf error := by
  unfold forEachBounded at hstart
  split_ifs at hstart with hsmall
  obtain rfl := Except.ok.inj hstart
  have hpositive : 0 < size.toNat := by omega
  have hsound : Sound size.toNat pool := Reached.sound ⟨events, hrun⟩
  obtain ⟨unsent, hyielded, hunsent⟩ := hsound.ahead
  refine ⟨hsound.numbered, hsound.handled, ?_, ⟨unsent, hyielded.symm⟩, ?_,
    hsound.exists_step hpositive, ?_⟩
  · have hle : pool.running ≤ pool.workers.length := List.countP_le_length
    rw [hsound.size] at hle
    omega
  · rw [hyielded, List.length_append]
    exact Nat.add_le_add_left (unsent_length hunsent) _
  · intro event failed hfailure hstep later last hlater
    obtain ⟨hrecorded, htaken⟩ := failure_recorded hfailure hstep
    have hfailed : Failed size.toNat pool.taken failed := ⟨hsound.step hstep, hrecorded, htaken⟩
    have hlast := runSteps_preserves (fun _ _ _ h hnext => (h.step hnext).1) hfailed hlater
    have hlength := length_le_of_runSteps (fun _ _ _ h hnext => h.step hnext) hfailed hlater
    have hbudget := failed.budget_le
    rw [hfailed.sound.size] at hbudget
    obtain ⟨hreturned, hstarted, hraised⟩ := hlast.raises hpositive
    refine ⟨by omega, hreturned, hstarted, hraised, ?_⟩
    intro tree hseveral hhost
    exact hlast.sound.flat (by omega) tree hhost

/-- Two items, the second of which is finished first. -/
def twoItems : List (PoolEvent ℕ ℕ) :=
  [.yields 10, .handsOver 0, .starts 0, .yields 20, .handsOver 1, .starts 1, .finishes 1,
    .exhausts, .streamEnds 1, .finishes 0, .streamEnds 0, .leaves false none]

/-- An item that is being handled while another one is sent. -/
def oneHandled : List (PoolEvent ℕ ℕ) := [.yields 10, .handsOver 0, .starts 0, .yields 20]

/-- A pool of two that returns has finished both items, and one whose handler raises an exception
raises it without starting the other. -/
theorem pool_exact_two :
    (∃ pool, runSteps (Pool.step 2) (fresh 2) twoItems = some pool ∧ pool.host = .returned ∧
      pool.yielded = [⟨0, 10⟩, ⟨1, 20⟩] ∧ pool.finished.Perm pool.yielded) ∧
    ∃ pool failed last, runSteps (Pool.step 2) (fresh 2) oneHandled = some pool ∧
      Pool.step 2 pool (.handlerRaises 0 (.leaf 7)) = some failed ∧
      runSteps (Pool.step 2) failed [.sendCancelled, .receiveCancelled 1, .leaves false none] =
        some last ∧
      last.host = .raised (.error (.leaf 7)) ∧ last.started.Subperm pool.taken := by
  constructor
  · refine ⟨_, rfl, rfl, rfl, ?_⟩
    exact ((pool_exact (show forEachBounded 2 = .ok (fresh 2) from rfl)
      (show runSteps (Pool.step (2 : ℤ).toNat) (fresh 2) twoItems = some _ from rfl)).2.1 rfl).2
  · refine ⟨_, _, _, rfl, rfl, rfl, rfl, ?_⟩
    exact ((pool_exact (show forEachBounded 2 = .ok (fresh 2) from rfl)
      (show runSteps (Pool.step (2 : ℤ).toNat) (fresh 2) oneHandled = some _ from rfl)).2.2.2.2.2.2
        _ _ (.handler 0 (.leaf 7)) rfl
        [.sendCancelled, .receiveCancelled 1, .leaves false none] _ rfl).2.2.1

end Pool

end GantrySftp
