import GantrySftp.Library.Machine
import Mathlib.Data.Int.Notation

/-!
# A bounded pool over a lazy producer

The task that runs the producer hands each item to one of the workers over a stream without a
buffer, so it cannot go on before a worker takes the item. A failure, of a handler or of the
producer, cancels the scope of the task group in the same step: from there on no item is handed
over, since sending and receiving are checkpoints, and the task raises when every worker is done.
A pool of one runs the items in the task itself, without a stream or a group. What a producer, a
handler and the scheduler do are the inputs of the machine, in any order that is possible.
Exceptions that say a task was cancelled are no failures, and are raised only in cancelled scopes.
-/

namespace GantrySftp

open Library

/-! ## Groups of errors -/

/-- An exception: a plain one, or a group of at least one other. -/
inductive ErrorTree (ε : Type)
  | leaf (error : ε)
  | group (first : ErrorTree ε) (rest : List (ErrorTree ε))

namespace ErrorTree

variable {ε : Type}

mutual

/-- Every exception inside possibly nested groups that is no group, in order. -/
def leaves : ErrorTree ε → List ε
  | leaf error => [error]
  | group first rest => leaves first ++ leavesAll rest

/-- The plain exceptions inside several. -/
def leavesAll : List (ErrorTree ε) → List ε
  | [] => []
  | tree :: trees => leaves tree ++ leavesAll trees

end

/-- Reduce a group to the first plain exception in it. -/
def flatten : ErrorTree ε → ErrorTree ε
  | leaf error => leaf error
  | group first rest =>
    match leaves (group first rest) with
    | [] => group first rest
    | error :: _ => leaf error

/-- There is a plain exception in every exception. -/
theorem leaves_ne_nil : (tree : ErrorTree ε) → tree.leaves ≠ []
  | leaf error => List.cons_ne_nil _ _
  | group first rest => by
    rw [leaves]
    exact List.append_ne_nil_of_left_ne_nil (leaves_ne_nil first) _

/-- An exception is reduced to the first plain one in it. -/
theorem flatten_eq (tree : ErrorTree ε) :
    ∃ error, tree.leaves.head? = some error ∧ tree.flatten = leaf error := by
  cases tree with
  | leaf error => exact ⟨error, rfl, rfl⟩
  | group first rest =>
    cases hleaves : leaves (group first rest) with
    | nil => exact absurd hleaves (leaves_ne_nil _)
    | cons error errors =>
      refine ⟨error, rfl, ?_⟩
      simp only [flatten, hleaves]

end ErrorTree

/-- How a call fails: it was cancelled from outside, or an exception left it. -/
inductive PoolFailure (ε : Type)
  | cancelled
  | error (tree : ErrorTree ε)

/-- The failure with its group reduced. -/
def PoolFailure.flatten {ε : Type} : PoolFailure ε → PoolFailure ε
  | cancelled => cancelled
  | error tree => error tree.flatten

/-! ## The machine -/

/-- What the producer yielded, named by its place among everything that was yielded. -/
structure PoolItem (α : Type) where
  place : ℕ
  value : α
  deriving DecidableEq

/-- What a worker does, or how it ended. -/
inductive Worker (α : Type)
  | receiving
  | holding (item : PoolItem α)
  | handling (item : PoolItem α)
  | ended
  | stopped
  | dropped (item : PoolItem α)
  | broken (item : PoolItem α)
  deriving DecidableEq

namespace Worker

variable {α : Type}

/-- The item a worker took and never started. -/
def unstarted : Worker α → List (PoolItem α)
  | holding item | dropped item => [item]
  | _ => []

/-- The item a worker started and has not finished. -/
def unfinished : Worker α → List (PoolItem α)
  | handling item | broken item => [item]
  | _ => []

/-- Whether a worker runs its handler. -/
def isHandling : Worker α → Bool
  | handling _ => true
  | _ => false

/-- Whether a worker's task is over. -/
def isDone : Worker α → Bool
  | ended | stopped | dropped _ | broken _ => true
  | _ => false

/-- Whether a worker came to the end of the stream. -/
def isEnded : Worker α → Bool
  | ended => true
  | _ => false

/-- How many steps a cancelled worker has before it. -/
def budget : Worker α → ℕ
  | holding _ => 3
  | handling _ => 2
  | receiving => 1
  | _ => 0

end Worker

/-- What the task that called the pool does, or how the call ended. A task that drains has left
the loop over the producer, and did so cleanly when the producer came to its end. -/
inductive Host (α ε : Type)
  | producing
  | sending (item : PoolItem α)
  | draining (clean : Bool)
  | returned
  | raised (failure : PoolFailure ε)

namespace Host

variable {α ε : Type}

/-- Whether the task has left the loop over the producer. -/
def isLeaving : Host α ε → Bool
  | producing | sending _ => false
  | _ => true

/-- Whether the call is over. -/
def isOver : Host α ε → Bool
  | returned | raised _ => true
  | _ => false

/-- How many steps a cancelled task has before it. -/
def budget : Host α ε → ℕ
  | producing => 3
  | sending _ => 2
  | draining _ => 1
  | _ => 0

end Host

/-- A pool at one moment, with everything that was yielded, taken by a worker, started and
finished until then, and the exceptions that the task group has recorded. -/
structure Pool (α ε : Type) where
  host : Host α ε
  workers : List (Worker α)
  cancelled : Bool
  errors : List (ErrorTree ε)
  yielded : List (PoolItem α)
  taken : List (PoolItem α)
  started : List (PoolItem α)
  finished : List (PoolItem α)

/-- What happens next: to the producer and the task that runs it, to the stream, or to the worker
at a place. -/
inductive PoolEvent (α ε : Type)
  | yields (value : α)
  | exhausts
  | producerRaises (error : ErrorTree ε)
  | producerCancelled
  | handsOver (index : ℕ)
  | sendCancelled
  | sendBroken (error : ErrorTree ε)
  | starts (index : ℕ)
  | finishes (index : ℕ)
  | handlerRaises (index : ℕ) (error : ErrorTree ε)
  | handlerCancelled (index : ℕ)
  | receiveCancelled (index : ℕ)
  | streamEnds (index : ℕ)
  | cancelledOutside
  | leaves (noticed : Bool) (closing : Option (PoolFailure ε))

namespace Pool

variable {α ε : Type}

/-- How many handlers run. -/
def running (pool : Pool α ε) : ℕ := pool.workers.countP Worker.isHandling

/-- The pool with another worker at a place. -/
def withWorker (pool : Pool α ε) (index : ℕ) (worker : Worker α) : Pool α ε :=
  { pool with workers := pool.workers.set index worker }

/-- The pool after its scope is cancelled by an exception. -/
def failing (pool : Pool α ε) (error : ErrorTree ε) : Pool α ε :=
  { pool with cancelled := true, errors := pool.errors ++ [error] }

/-- The item that the producer yields next. -/
def nextItem (pool : Pool α ε) (value : α) : PoolItem α := ⟨pool.yielded.length, value⟩

/-- What leaves the task group: everything it recorded as one group, or the cancellation of the
task from outside. -/
def groupFailure (pool : Pool α ε) (clean noticed : Bool) : Option (PoolFailure ε) :=
  match pool.errors with
  | first :: rest => some (.error (.group first rest))
  | [] => if clean && pool.workers.all Worker.isEnded && !noticed then none else some .cancelled

/-- What leaves the loop of a pool of one: the exception itself, or the cancellation of the
task. -/
def loopFailure (pool : Pool α ε) (clean : Bool) : Option (PoolFailure ε) :=
  match pool.errors with
  | error :: _ => some (.error error)
  | [] => if clean then none else some .cancelled

/-- How the call ends, when closing a producer that was not exhausted may fail as well. -/
def outcome : Option (PoolFailure ε) → Option (PoolFailure ε) → Host α ε
  | some closing, _ => .raised closing
  | none, some failure => .raised failure
  | none, none => .returned

/-- The machine of a pool with several workers. -/
def concurrentStep (pool : Pool α ε) : PoolEvent α ε → Option (Pool α ε)
  | .yields value =>
    match pool.host with
    | .producing =>
      let item := pool.nextItem value
      some { pool with host := .sending item, yielded := pool.yielded ++ [item] }
    | _ => none
  | .exhausts =>
    match pool.host with
    | .producing => some { pool with host := .draining true }
    | _ => none
  | .producerRaises error =>
    match pool.host with
    | .producing => some { pool.failing error with host := .draining false }
    | _ => none
  | .producerCancelled =>
    match pool.host, pool.cancelled with
    | .producing, true => some { pool with host := .draining false }
    | _, _ => none
  | .handsOver index =>
    match pool.host, pool.workers[index]?, pool.cancelled with
    | .sending item, some .receiving, false =>
      some { pool.withWorker index (.holding item) with
        host := .producing
        taken := pool.taken ++ [item] }
    | _, _, _ => none
  | .sendCancelled =>
    match pool.host, pool.cancelled with
    | .sending _, true => some { pool with host := .draining false }
    | _, _ => none
  | .sendBroken error =>
    match pool.host, pool.workers.all Worker.isDone with
    | .sending _, true => some { pool.failing error with host := .draining false }
    | _, _ => none
  | .starts index =>
    match pool.workers[index]? with
    | some (.holding item) =>
      some { pool.withWorker index (.handling item) with started := pool.started ++ [item] }
    | _ => none
  | .finishes index =>
    match pool.workers[index]? with
    | some (.handling item) =>
      some { pool.withWorker index .receiving with finished := pool.finished ++ [item] }
    | _ => none
  | .handlerRaises index error =>
    match pool.workers[index]? with
    | some (.handling item) => some ((pool.withWorker index (.broken item)).failing error)
    | _ => none
  | .handlerCancelled index =>
    match pool.workers[index]?, pool.cancelled with
    | some (.handling item), true => some (pool.withWorker index (.broken item))
    | _, _ => none
  | .receiveCancelled index =>
    match pool.workers[index]?, pool.cancelled with
    | some .receiving, true => some (pool.withWorker index .stopped)
    | some (.holding item), true => some (pool.withWorker index (.dropped item))
    | _, _ => none
  | .streamEnds index =>
    match pool.workers[index]?, pool.host.isLeaving with
    | some .receiving, true => some (pool.withWorker index .ended)
    | _, _ => none
  | .cancelledOutside =>
    match pool.host.isOver, pool.cancelled with
    | false, false => some { pool with cancelled := true }
    | _, _ => none
  | .leaves noticed closing =>
    match pool.host, pool.workers.all Worker.isDone with
    | .draining clean, true =>
      if noticed && !pool.cancelled || closing.isSome && clean then none
      else
        some { pool with
          host := outcome (closing.map PoolFailure.flatten)
            ((pool.groupFailure clean noticed).map PoolFailure.flatten) }
    | _, _ => none

/-- The machine of a pool of one, whose only worker is the task itself. -/
def sequentialStep (pool : Pool α ε) : PoolEvent α ε → Option (Pool α ε)
  | .yields value =>
    match pool.host, pool.workers with
    | .producing, [.receiving] =>
      let item := pool.nextItem value
      some { pool with
        workers := [.handling item]
        yielded := pool.yielded ++ [item]
        taken := pool.taken ++ [item]
        started := pool.started ++ [item] }
    | _, _ => none
  | .exhausts =>
    match pool.host, pool.workers with
    | .producing, [.receiving] => some { pool with host := .draining true, workers := [.ended] }
    | _, _ => none
  | .producerRaises error =>
    match pool.host, pool.workers with
    | .producing, [.receiving] =>
      some { pool with
        host := .draining false
        workers := [.ended]
        errors := pool.errors ++ [error] }
    | _, _ => none
  | .producerCancelled =>
    match pool.host, pool.workers, pool.cancelled with
    | .producing, [.receiving], true =>
      some { pool with host := .draining false, workers := [.stopped] }
    | _, _, _ => none
  | .finishes _ =>
    match pool.workers with
    | [.handling item] =>
      some { pool with workers := [.receiving], finished := pool.finished ++ [item] }
    | _ => none
  | .handlerRaises _ error =>
    match pool.workers with
    | [.handling item] =>
      some { pool with
        host := .draining false
        workers := [.broken item]
        errors := pool.errors ++ [error] }
    | _ => none
  | .handlerCancelled _ =>
    match pool.workers, pool.cancelled with
    | [.handling item], true =>
      some { pool with host := .draining false, workers := [.broken item] }
    | _, _ => none
  | .cancelledOutside =>
    match pool.host.isOver, pool.cancelled with
    | false, false => some { pool with cancelled := true }
    | _, _ => none
  | .leaves _ closing =>
    match pool.host with
    | .draining clean =>
      if closing.isSome && clean then none
      else some { pool with host := outcome closing (pool.loopFailure clean) }
    | _ => none
  | _ => none

/-- One step of a pool, whose size decides how it runs. -/
def step (concurrency : ℕ) (pool : Pool α ε) (event : PoolEvent α ε) : Option (Pool α ε) :=
  if concurrency = 1 then sequentialStep pool event else concurrentStep pool event

/-- A pool before its first step. -/
def fresh (concurrency : ℕ) : Pool α ε where
  host := .producing
  workers := List.replicate concurrency .receiving
  cancelled := false
  errors := []
  yielded := []
  taken := []
  started := []
  finished := []

/-- Start a pool, or the message of the refusal to. -/
def forEachBounded (concurrency : ℤ) : Except String (Pool α ε) :=
  if concurrency < 1 then .error s!"concurrency must be at least 1, got {concurrency}"
  else .ok (fresh concurrency.toNat)

/-! ## What a step can do -/

variable {concurrency : ℕ} {pool next : Pool α ε} {event : PoolEvent α ε}

/-- Every way in which a pool with several workers moves. -/
inductive Moves (pool : Pool α ε) : Pool α ε → Prop
  | yields (value : α) (hhost : pool.host = .producing) :
    Moves pool { pool with
      host := .sending (pool.nextItem value)
      yielded := pool.yielded ++ [pool.nextItem value] }
  | exhausts (hhost : pool.host = .producing) : Moves pool { pool with host := .draining true }
  | interrupted (hhost : pool.host.isLeaving = false) (hcancelled : pool.cancelled = true) :
    Moves pool { pool with host := .draining false }
  | fails (error : ErrorTree ε) (hhost : pool.host.isLeaving = false) :
    Moves pool { pool.failing error with host := .draining false }
  | handsOver {index : ℕ} {item : PoolItem α} (hhost : pool.host = .sending item)
      (hworker : pool.workers[index]? = some .receiving) (hcancelled : pool.cancelled = false) :
    Moves pool { pool.withWorker index (.holding item) with
      host := .producing
      taken := pool.taken ++ [item] }
  | starts {index : ℕ} {item : PoolItem α} (hworker : pool.workers[index]? = some (.holding item)) :
    Moves pool { pool.withWorker index (.handling item) with started := pool.started ++ [item] }
  | finishes {index : ℕ} {item : PoolItem α}
      (hworker : pool.workers[index]? = some (.handling item)) :
    Moves pool { pool.withWorker index .receiving with finished := pool.finished ++ [item] }
  | breaks {index : ℕ} {item : PoolItem α} (error : ErrorTree ε)
      (hworker : pool.workers[index]? = some (.handling item)) :
    Moves pool ((pool.withWorker index (.broken item)).failing error)
  | quits {index : ℕ} {old new : Worker α} (hworker : pool.workers[index]? = some old)
      (hbudget : new.budget < old.budget) (hunstarted : new.unstarted = old.unstarted)
      (hunfinished : new.unfinished = old.unfinished)
      (hallowed : pool.cancelled = true ∨ pool.host.isLeaving = true) :
    Moves pool (pool.withWorker index new)
  | cancelledOutside (hhost : pool.host.isOver = false) (hcancelled : pool.cancelled = false) :
    Moves pool { pool with cancelled := true }
  | leaves {clean : Bool} (noticed : Bool) (closing : Option (PoolFailure ε))
      (hhost : pool.host = .draining clean) :
    Moves pool { pool with
      host := outcome (closing.map PoolFailure.flatten)
        ((pool.groupFailure clean noticed).map PoolFailure.flatten) }

/-- A step of a pool with several workers is one of its moves. -/
theorem moves_of_concurrentStep (h : concurrentStep pool event = some next) : Moves pool next := by
  cases event with
  | yields value =>
    simp only [concurrentStep] at h
    split at h <;> cases h
    exact .yields value ‹_›
  | exhausts =>
    simp only [concurrentStep] at h
    split at h <;> cases h
    exact .exhausts ‹_›
  | producerRaises error =>
    simp only [concurrentStep] at h
    split at h <;> cases h
    exact .fails error (by simp_all [Host.isLeaving])
  | producerCancelled =>
    simp only [concurrentStep] at h
    split at h <;> cases h
    exact .interrupted (by simp_all [Host.isLeaving]) ‹_›
  | handsOver index =>
    simp only [concurrentStep] at h
    split at h <;> cases h
    exact .handsOver ‹_› ‹_› ‹_›
  | sendCancelled =>
    simp only [concurrentStep] at h
    split at h <;> cases h
    exact .interrupted (by simp_all [Host.isLeaving]) ‹_›
  | sendBroken error =>
    simp only [concurrentStep] at h
    split at h <;> cases h
    exact .fails error (by simp_all [Host.isLeaving])
  | starts index =>
    simp only [concurrentStep] at h
    split at h <;> cases h
    exact .starts ‹_›
  | finishes index =>
    simp only [concurrentStep] at h
    split at h <;> cases h
    exact .finishes ‹_›
  | handlerRaises index error =>
    simp only [concurrentStep] at h
    split at h <;> cases h
    exact .breaks error ‹_›
  | handlerCancelled index =>
    simp only [concurrentStep] at h
    split at h
    · rename_i item hworker hcancelled
      cases h
      exact .quits hworker (by simp [Worker.budget]) rfl rfl (Or.inl hcancelled)
    · cases h
  | receiveCancelled index =>
    simp only [concurrentStep] at h
    split at h
    · rename_i hworker hcancelled
      cases h
      exact .quits hworker (by simp [Worker.budget]) rfl rfl (Or.inl hcancelled)
    · rename_i item hworker hcancelled
      cases h
      exact .quits hworker (by simp [Worker.budget]) rfl rfl (Or.inl hcancelled)
    · cases h
  | streamEnds index =>
    simp only [concurrentStep] at h
    split at h
    · rename_i hworker hleaving
      cases h
      exact .quits hworker (by simp [Worker.budget]) rfl rfl (Or.inr hleaving)
    · cases h
  | cancelledOutside =>
    simp only [concurrentStep] at h
    split at h <;> cases h
    exact .cancelledOutside ‹_› ‹_›
  | leaves noticed closing =>
    simp only [concurrentStep] at h
    split at h
    · split_ifs at h with hrefused
      cases h
      exact .leaves noticed closing ‹_›
    · cases h

/-- Every way in which a pool of one moves. -/
inductive MovesAlone (pool : Pool α ε) : Pool α ε → Prop
  | yields (value : α) (hhost : pool.host = .producing) (hworkers : pool.workers = [.receiving]) :
    MovesAlone pool { pool with
      workers := [.handling (pool.nextItem value)]
      yielded := pool.yielded ++ [pool.nextItem value]
      taken := pool.taken ++ [pool.nextItem value]
      started := pool.started ++ [pool.nextItem value] }
  | exhausts (hhost : pool.host = .producing) (hworkers : pool.workers = [.receiving]) :
    MovesAlone pool { pool with host := .draining true, workers := [.ended] }
  | fails (error : ErrorTree ε) (hhost : pool.host = .producing)
      (hworkers : pool.workers = [.receiving]) :
    MovesAlone pool { pool with
      host := .draining false
      workers := [.ended]
      errors := pool.errors ++ [error] }
  | interrupted (hhost : pool.host = .producing) (hworkers : pool.workers = [.receiving]) :
    MovesAlone pool { pool with host := .draining false, workers := [.stopped] }
  | finishes {item : PoolItem α} (hworkers : pool.workers = [.handling item]) :
    MovesAlone pool { pool with
      workers := [.receiving]
      finished := pool.finished ++ [item] }
  | breaks {item : PoolItem α} (error : ErrorTree ε) (hworkers : pool.workers = [.handling item]) :
    MovesAlone pool { pool with
      host := .draining false
      workers := [.broken item]
      errors := pool.errors ++ [error] }
  | stops {item : PoolItem α} (hworkers : pool.workers = [.handling item]) :
    MovesAlone pool { pool with host := .draining false, workers := [.broken item] }
  | cancelledOutside (hhost : pool.host.isOver = false) (hcancelled : pool.cancelled = false) :
    MovesAlone pool { pool with cancelled := true }
  | leaves {clean : Bool} (closing : Option (PoolFailure ε)) (hhost : pool.host = .draining clean) :
    MovesAlone pool { pool with host := outcome closing (pool.loopFailure clean) }

/-- A step of a pool of one is one of its moves. -/
theorem movesAlone_of_sequentialStep (h : sequentialStep pool event = some next) :
    MovesAlone pool next := by
  cases event with
  | yields value =>
    simp only [sequentialStep] at h
    split at h <;> cases h
    exact .yields value ‹_› ‹_›
  | exhausts =>
    simp only [sequentialStep] at h
    split at h <;> cases h
    exact .exhausts ‹_› ‹_›
  | producerRaises error =>
    simp only [sequentialStep] at h
    split at h <;> cases h
    exact .fails error ‹_› ‹_›
  | producerCancelled =>
    simp only [sequentialStep] at h
    split at h <;> cases h
    exact .interrupted ‹_› ‹_›
  | finishes index =>
    simp only [sequentialStep] at h
    split at h <;> cases h
    exact .finishes ‹_›
  | handlerRaises index error =>
    simp only [sequentialStep] at h
    split at h <;> cases h
    exact .breaks error ‹_›
  | handlerCancelled index =>
    simp only [sequentialStep] at h
    split at h <;> cases h
    exact .stops ‹_›
  | cancelledOutside =>
    simp only [sequentialStep] at h
    split at h <;> cases h
    exact .cancelledOutside ‹_› ‹_›
  | leaves noticed closing =>
    simp only [sequentialStep] at h
    split at h
    · split_ifs at h with hrefused
      cases h
      exact .leaves closing ‹_›
    · cases h
  | handsOver _ | sendCancelled | sendBroken _ | starts _ | receiveCancelled _ | streamEnds _ =>
    cases h

end Pool

end GantrySftp
