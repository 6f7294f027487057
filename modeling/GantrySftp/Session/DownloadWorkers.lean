import GantrySftp.Session.LocalCalls
import GantrySftp.Session.TreeDownload

/-!
# What the workers of a download do

Whatever the schedule of a download says, its workers change the state by few steps only: one takes
a transfer, opens its file, writes to it, or is done with it. What each of these steps preserves
is preserved while the task lets the workers, while it waits for them, and while they wind down.
-/

namespace GantrySftp

open Library Program Relation

section Steps

variable (platform : Platform) (options : TreeOptions) (follow : Bool)

/-- What is done to the metadata of a file at a stage of its transfer: it is changed where it is
written, or what its path leads to is opened for that. -/
def Marking (disk : LocalDisk) (item : SettledDownload) (stage : TransferStage)
    (effect : LocalEffect) : Prop :=
  ∃ node, (stage = .writing node ∧ ∃ mark, effect = .marked item mark node) ∨
    ∃ place, platform.reopenCall disk follow item.target = .ok (place, node) ∧
      (effect = .opened item place node ∨ ∃ mark, effect = .marked item mark node)

/-- A step of a worker, or the next part of the schedule. -/
inductive WorkerStep (state : DownloadState) : DownloadState → Prop
  | same : WorkerStep state state
  | scheduled (schedule : List (List WorkerAct)) :
      WorkerStep state { state with schedule := schedule }
  | takes {index : ℕ} {item : SettledDownload}
      (hstage : state.transfers[index]? = some ⟨item, .waiting⟩) :
      WorkerStep state (state.staging index ⟨item, .taken⟩)
  | opens {index : ℕ} {item : SettledDownload} {place : List Bytes} {node : ℕ} {disk : LocalDisk}
      (hstage : state.transfers[index]? = some ⟨item, .taken⟩)
      (hopen : platform.openCall state.disk follow item.target = .ok (place, node, disk)) :
      WorkerStep state
        (({ state with disk := disk }.record (.opened item place node)).staging index
          ⟨item, .writing node⟩)
  | writes {index : ℕ} {item : SettledDownload} {node : ℕ}
      (hstage : state.transfers[index]? = some ⟨item, .writing node⟩) :
      WorkerStep state (state.record (.wrote item node))
  | marks {index : ℕ} {item : SettledDownload} {stage : TransferStage} {effect : LocalEffect}
      (hstage : state.transfers[index]? = some ⟨item, stage⟩)
      (hmark : Marking platform follow state.disk item stage effect) :
      WorkerStep state (state.record effect)
  | finishes {index : ℕ} {item : SettledDownload} {stage : TransferStage} {count : ℕ}
      (hstage : state.transfers[index]? = some ⟨item, stage⟩) (hdone : stage.isDone = false)
      (hresumed : stage = .taken → options.resume = true) :
      WorkerStep state (state.finishing index item count)

variable {platform options follow}

/-- Changing the metadata of a file is steps. -/
theorem steps_records {state : DownloadState} {index : ℕ} {item : SettledDownload}
    {stage : TransferStage} (hstage : state.transfers[index]? = some ⟨item, stage⟩)
    {effects : List LocalEffect}
    (hmarks : ∀ effect ∈ effects, Marking platform follow state.disk item stage effect) :
    ReflTransGen (WorkerStep platform options follow) state (state.records effects) := by
  induction effects using List.reverseRecOn with
  | nil => exact .trans (by rw [DownloadState.records, List.append_nil]) .refl
  | append_singleton effects effect ih =>
    obtain ⟨hall, hlast⟩ := List.forall_mem_append.mp hmarks
    refine (ih hall).tail ?_
    have hstep : WorkerStep platform options follow (state.records effects)
        ((state.records effects).record effect) :=
      .marks hstage (List.forall_mem_singleton.mp hlast)
    rwa [DownloadState.record, DownloadState.records, List.append_assoc] at hstep

/-- What is changed of a file that is open is done to it. -/
theorem marking_writing (disk : LocalDisk) (item : SettledDownload) (node : ℕ) (marks : List Mark) :
    ∀ effect ∈ marks.map fun mark => LocalEffect.marked item mark node,
      Marking platform follow disk item (.writing node) effect := by
  intro effect hmem
  obtain ⟨mark, -, rfl⟩ := List.mem_map.mp hmem
  exact ⟨node, Or.inl ⟨rfl, mark, rfl⟩⟩

/-- What is changed of a file that is opened anew is done to what its path leads to. -/
theorem marking_anew {disk : LocalDisk} {item : SettledDownload} {stage : TransferStage}
    {place : List Bytes} {node : ℕ}
    (hopen : platform.reopenCall disk follow item.target = .ok (place, node)) (marks : List Mark) :
    ∀ effect ∈ marks.flatMap fun mark =>
        [LocalEffect.opened item place node, .marked item mark node],
      Marking platform follow disk item stage effect := by
  intro effect hmem
  obtain ⟨mark, -, hone⟩ := List.mem_flatMap.mp hmem
  refine ⟨node, Or.inr ⟨place, hopen, ?_⟩⟩
  rcases List.mem_pair.mp hone with rfl | rfl
  · exact Or.inl rfl
  · exact Or.inr ⟨mark, rfl⟩

/-- An act of a worker is a step. -/
theorem does_act (next : WorkerAct) :
    Does (WorkerStep platform options follow) (act platform options follow next) := by
  cases next with
  | takes index =>
    refine Does.of fun state => ?_
    split
    · exact .takes ‹_›
    · exact .same
  | opens index =>
    refine Does.of fun state => ?_
    split
    · split
      · exact .opens ‹_› ‹_›
      · exact .same
    · exact .same
  | writes index =>
    refine Does.of fun state => ?_
    split
    · exact .writes ‹_›
    · exact .same
  | finishes index served timed =>
    intro state
    rw [act, exec_of]
    split
    · rename_i item node hindex
      split
      · exact .refl
      · refine (steps_records hindex (marking_writing _ _ _ (options.marks timed))).tail ?_
        exact WorkerStep.finishes hindex rfl fun htaken => nomatch htaken
    · rename_i item hindex
      split
      · exact .refl
      · split_ifs with hresume
        · exact .refl
        · exact .single (.finishes hindex rfl fun _ => (Bool.not_eq_false _).mp hresume)
        · split
          · exact .refl
          · refine (steps_records hindex (marking_anew ‹_› (options.marks timed))).tail ?_
            exact .finishes hindex rfl fun _ => (Bool.not_eq_false _).mp hresume
    · exact .refl

/-- Several acts are steps. -/
theorem does_acts (batch : List WorkerAct) :
    Does (WorkerStep platform options follow) (batch.forM (act platform options follow)) :=
  Does.forM fun next _ => does_act next

/-- What the workers do while they are let is steps. -/
theorem does_letWorkers :
    Does (WorkerStep platform options follow) (letWorkers platform options follow) := by
  refine Does.get.bind fun state => ?_
  cases hschedule : state.schedule with
  | nil => exact .pure _
  | cons batch schedule =>
    exact (Does.modify fun _ => .scheduled schedule).bind fun _ => does_acts batch

/-- What the workers do until they are done is steps. -/
theorem does_finishWorkers :
    Does (WorkerStep platform options follow) (finishWorkers platform options follow) := by
  refine Does.get.bind fun state => (does_acts _).bind fun _ => ?_
  refine (Does.modify fun _ => .scheduled []).bind fun _ => Does.get.bind fun state' => ?_
  split
  · exact .pure _
  · exact .throw _

/-- What the workers do after a failure is steps. -/
theorem does_windDown :
    Does (WorkerStep platform options follow) (windDown platform options follow) := by
  refine Does.get.bind fun state => ?_
  cases hschedule : state.schedule with
  | nil => exact .pure _
  | cons batch schedule =>
    exact Does.forM fun next _ => (does_act next).tryCatch fun _ => .pure _

/-- The workers do not raise after a failure. -/
theorem windDown_returns :
    Meets (fun _ => True) (windDown platform options follow) (fun _ _ => True)
      fun _ _ => False := by
  refine Meets.get fun state _ => Meets.strengthen ?_ fun _ _ => trivial
  cases hschedule : state.schedule with
  | nil => exact Meets.pure fun _ => id
  | cons batch schedule =>
    refine Meets.forM fun next _ => Meets.tryCatch (Meets.top _ _) fun error => ?_
    exact Meets.pure fun _ => id

/-- Once the task has waited for the workers, every transfer is over. -/
theorem meets_finishWorkers {kept : DownloadState → Prop}
    (hstep : ∀ state state', WorkerStep platform options follow state state' → kept state →
      kept state') :
    Meets kept (finishWorkers platform options follow)
      (fun _ state => kept state ∧ ∀ transfer ∈ state.transfers, transfer.stage.isDone = true)
      fun _ => kept := by
  refine Meets.get fun state h => ?_
  refine Meets.bind ((Does.keeps (does_acts _) hstep).strengthen fun _ heq => heq ▸ h) fun _ => ?_
  refine Meets.bind (Does.keeps (Does.modify fun _ => .scheduled []) hstep) fun _ => ?_
  refine Meets.get fun state' h' => Meets.ite (fun hall => ?_) fun _ => ?_
  · exact Meets.pure fun _ heq => heq ▸ ⟨h', List.all_eq_true.mp hall⟩
  · exact Meets.throw fun _ heq => heq ▸ h'

end Steps

end GantrySftp
