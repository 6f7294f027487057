import GantrySftp.Library.Transcript
import GantrySftp.Session.DownloadWindow
import GantrySftp.Session.Upload

/-!
# The two tasks of an upload

One task reads the source and sends WRITEs, the other takes the replies. They share the window, the
table of WRITEs that wait for an acknowledgement, and the event that ends the upload, which is set
by whichever of them is last. A task is suspended while it reads, while it waits for the window,
and while it sends, and the other may go on meanwhile.
-/

namespace GantrySftp

open Library

/-- Where an uploaded payload comes from, and the absolute offset of its first byte: zero for an
open file, and for a buffer where the caller wants it written. -/
structure Source where
  content : Bytes
  base : ℕ

/-- The bytes of a source from an absolute offset on. -/
def Source.rest (source : Source) (offset : ℕ) : Bytes :=
  source.content.drop (offset - source.base)

/-- Up to `length` bytes at an absolute offset. -/
def Source.readAt (source : Source) (offset length : ℕ) : Bytes :=
  (source.rest offset).take length

/-- A WRITE that waits for its acknowledgement. -/
structure UploadChunk where
  offset : ℕ
  length : ℕ

/-- Where the sending task is suspended. -/
inductive SendPoint
  | reading
  | acquiring (payload : Bytes)
  | sending (payload : Bytes)
  | waiting

/-- One file's worth of pipelined writes, and where its two tasks are. -/
structure UploadTasks where
  source : Source
  stop : ℕ
  writeLength : ℕ
  offset : ℕ
  point : SendPoint
  permits : ℕ
  outstanding : List (ℕ × UploadChunk)
  acknowledged : ℕ
  allSent : Bool
  finished : Bool
  receiving : Bool
  result : Option (Except Failure ℕ)

namespace UploadTasks

/-- Finish once everything has been sent and every WRITE acknowledged. -/
def settle (tasks : UploadTasks) : UploadTasks :=
  if tasks.allSent ∧ tasks.outstanding.isEmpty then { tasks with finished := true } else tasks

/-- The sending task has sent everything there is. -/
def stopSending (tasks : UploadTasks) : UploadTasks :=
  { tasks with allSent := true, point := .waiting }.settle

/-- The sending task reads on, up to the end of the span. -/
def sendNext (tasks : UploadTasks) : UploadTasks :=
  if tasks.offset < tasks.stop then { tasks with point := .reading } else tasks.stopSending

/-- An upload about to begin. A span without bytes needs no task. -/
def init (source : Source) (schedule : Schedule) (start stop : ℕ) : UploadTasks where
  source := source
  stop := stop
  writeLength := schedule.requestLength
  offset := start
  point := .reading
  permits := schedule.depth
  outstanding := []
  acknowledged := 0
  allSent := false
  finished := false
  receiving := true
  result := if stop ≤ start then some (.ok 0) else none

/-- Either task failed, which cancels the other. -/
def fail (tasks : UploadTasks) (failure : Failure) : UploadTasks :=
  { tasks with result := some (.error failure) }

/-- What happens to the tasks. A read returns at most so many of the bytes asked for; the window
lets the sender in and the codec hands out an id that is not in flight; sending returns; a reply is
taken; a task fails on its own account; and the upload returns. -/
inductive Event
  | read (count : ℕ)
  | acquire (requestId : ℕ)
  | sent
  | reply (requestId : ℕ) (reply : Reply)
  | fail (failure : Failure)
  | finish

/-- What an upload did: sent a WRITE, found the source at its end, or took a reply. -/
inductive Entry
  | sent (requestId : ℕ) (write : Placed)
  | exhausted (offset : ℕ)
  | answered (requestId : ℕ) (reply : Reply)

/-- A read returned. An empty one ends the sending. -/
def read (tasks : UploadTasks) (count : ℕ) : List Entry × UploadTasks :=
  match tasks.point with
  | .reading =>
    let length := min tasks.writeLength (tasks.stop - tasks.offset)
    let payload := (tasks.source.readAt tasks.offset length).take count
    if payload.isEmpty then ([.exhausted tasks.offset], tasks.stopSending)
    else ([], { tasks with point := .acquiring payload })
  | _ => ([], tasks)

/-- The window let the sender in. The WRITE is recorded before it is sent. -/
def acquire (tasks : UploadTasks) (requestId : ℕ) : List Entry × UploadTasks :=
  match tasks.point with
  | .acquiring payload =>
    if 0 < tasks.permits ∧ requestId ∉ tasks.outstanding.map Prod.fst then
      ([.sent requestId (tasks.offset, payload)],
        { tasks with
          permits := tasks.permits - 1
          outstanding := tasks.outstanding ++ [(requestId, ⟨tasks.offset, payload.length⟩)]
          point := .sending payload })
    else ([], tasks)
  | _ => ([], tasks)

/-- Sending returned. -/
def sent (tasks : UploadTasks) : UploadTasks :=
  match tasks.point with
  | .sending payload => { tasks with offset := tasks.offset + payload.length }.sendNext
  | _ => tasks

/-- Handle one reply. The receiving task goes on until the upload is finished. -/
def acknowledge (tasks : UploadTasks) (requestId : ℕ) (reply : Reply) : UploadTasks :=
  match popRequest requestId tasks.outstanding with
  | none => tasks.fail (.protocolError (.notOurs requestId))
  | some (chunk, outstanding) =>
    let popped := { tasks with outstanding := outstanding }
    match reply with
    | .status .ok _ =>
      let settled := { popped with
        acknowledged := popped.acknowledged + chunk.length
        permits := popped.permits + 1 }.settle
      { settled with receiving := !settled.finished }
    | .status code message =>
      popped.fail (.transferError (.writeRefused code message) popped.acknowledged
        (some chunk.offset))
    | _ => popped.fail (.protocolError (.unexpectedReply reply))

/-- The upload returns once it is finished. -/
def finish (tasks : UploadTasks) : UploadTasks :=
  match tasks.point with
  | .waiting =>
    if tasks.finished then { tasks with result := some (.ok tasks.acknowledged) } else tasks
  | _ => tasks

/-- One event. Nothing happens once the upload has returned or raised. -/
def step (tasks : UploadTasks) (event : Event) : List Entry × UploadTasks :=
  if tasks.result.isSome then ([], tasks)
  else
    match event with
    | .read count => tasks.read count
    | .acquire requestId => tasks.acquire requestId
    | .sent => ([], tasks.sent)
    | .reply requestId reply =>
      if tasks.receiving then ([.answered requestId reply], tasks.acknowledge requestId reply)
      else ([], tasks)
    | .fail failure => ([], tasks.fail failure)
    | .finish => ([], tasks.finish)

/-- What an upload did, and its tasks after events. -/
def run (tasks : UploadTasks) (events : List Event) : List Entry × UploadTasks :=
  transcript step tasks events

/-! ## What an upload did -/

/-- The WRITE an entry sent. -/
def Entry.write : Entry → Option Placed
  | sent _ write => some write
  | _ => none

/-- The WRITEs that were sent, in order. -/
def writes (history : List Entry) : List Placed := history.filterMap Entry.write

/-- The WRITEs that were sent, with one more entry. -/
@[simp] theorem writes_concat (history : List Entry) (entry : Entry) :
    writes (history ++ [entry]) = writes history ++ entry.write.toList := by
  simp only [writes, List.filterMap_append]
  cases hentry : entry.write <;> simp [hentry]

/-- Whether an entry acknowledges a WRITE. -/
def Entry.isOk : Entry → Bool
  | answered _ (.status .ok _) => true
  | _ => false

/-- The bytes of WRITEs. -/
def total (writes : List Placed) : ℕ := (writes.map fun write => write.2.length).sum

/-- WRITEs of slices of a source that begin where the one before ended, none of them empty, and
none of them past an end. -/
def Consecutive (source : Source) (stop : ℕ) : ℕ → List Placed → Prop
  | _, [] => True
  | next, write :: writes =>
    write.1 = next ∧ write.2 ≠ [] ∧ write.2 <+: source.rest next ∧
      next + write.2.length ≤ stop ∧ Consecutive source stop (next + write.2.length) writes

/-- An id is answered with OK before it is sent again. -/
def AnsweredOk (requestId : ℕ) (history : List Entry) : Prop :=
  ∃ front message back, history = front ++ .answered requestId (.status .ok message) :: back ∧
    ∀ write, .sent requestId write ∉ front

/-! ## Consecutive WRITEs -/

/-- The bytes of WRITEs and one more. -/
@[simp] theorem total_concat (writes : List Placed) (write : Placed) :
    total (writes ++ [write]) = total writes + write.2.length := by
  simp [total]

/-- A payload that can be sent next. -/
def Fits (source : Source) (stop offset : ℕ) (payload : Bytes) : Prop :=
  payload ≠ [] ∧ payload <+: source.rest offset ∧ offset + payload.length ≤ stop

/-- One more WRITE where the last ended. -/
theorem Consecutive.concat {source : Source} {stop next : ℕ} {writes : List Placed}
    (h : Consecutive source stop next writes) {payload : Bytes}
    (hfits : Fits source stop (next + total writes) payload) :
    Consecutive source stop next (writes ++ [(next + total writes, payload)]) := by
  induction writes generalizing next with
  | nil =>
    obtain ⟨hsome, hslice, hinside⟩ := hfits
    exact ⟨rfl, hsome, hslice, hinside, trivial⟩
  | cons write writes ih =>
    obtain ⟨hnext, hsome, hslice, hinside, hrest⟩ := h
    have htotal : next + total (write :: writes) =
        next + write.2.length + total writes := by
      simp [total, Nat.add_assoc]
    rw [htotal] at hfits ⊢
    exact ⟨hnext, hsome, hslice, hinside, ih hrest hfits⟩

/-! ## The sending task -/

/-- How far the source has been sent. -/
def reached (tasks : UploadTasks) : ℕ :=
  match tasks.point with
  | .sending payload => tasks.offset + payload.length
  | _ => tasks.offset

/-- How the sending task and what it sent agree. -/
structure Sends (source : Source) (start stop : ℕ) (history : List Entry) (tasks : UploadTasks) :
    Prop where
  source_eq : tasks.source = source
  stop_eq : tasks.stop = stop
  consecutive : Consecutive source stop start (writes history)
  sent : start + total (writes history) = tasks.reached
  bounded : tasks.reached ≤ max start stop
  pending : ∀ payload, tasks.point = .acquiring payload → Fits source stop tasks.offset payload
  reading : tasks.result = none → tasks.point = .reading → tasks.offset < stop
  ended : tasks.allSent = true → tasks.point = .waiting ∧
    (stop ≤ tasks.offset ∨ ∃ offset < stop, .exhausted offset ∈ history)

section Sending

variable {source : Source} {start stop : ℕ} {history : List Entry} {tasks : UploadTasks}

/-- An upload about to begin has sent nothing. -/
theorem sends_init (source : Source) (schedule : Schedule) (start stop : ℕ) :
    Sends source start stop [] (init source schedule start stop) where
  source_eq := rfl
  stop_eq := rfl
  consecutive := trivial
  sent := rfl
  bounded := le_max_left _ _
  pending := by simp [init]
  reading := by simp [init]
  ended := by simp [init]

/-- Tasks whose sender is where it was, and which said nothing about sending. -/
theorem Sends.congr (h : Sends source start stop history tasks) {said : List Entry}
    {tasks' : UploadTasks} (hsaid : writes said = []) (hsource : tasks'.source = tasks.source)
    (hstop : tasks'.stop = tasks.stop) (hoffset : tasks'.offset = tasks.offset)
    (hpoint : tasks'.point = tasks.point) (hsent : tasks'.allSent = tasks.allSent)
    (hresult : tasks'.result = none → tasks.result = none) :
    Sends source start stop (history ++ said) tasks' := by
  have hwrites : writes (history ++ said) = writes history := by
    simpa [writes] using hsaid
  have hreached : tasks'.reached = tasks.reached := by
    rw [reached, reached, hpoint, hoffset]
  constructor
  · rw [hsource, h.source_eq]
  · rw [hstop, h.stop_eq]
  · rw [hwrites]
    exact h.consecutive
  · rw [hwrites, hreached]
    exact h.sent
  · rw [hreached]
    exact h.bounded
  · rw [hpoint, hoffset]
    exact h.pending
  · rw [hpoint, hoffset]
    exact fun hnone => h.reading (hresult hnone)
  · rw [hsent, hpoint, hoffset]
    intro hall
    obtain ⟨hwaiting, hend⟩ := h.ended hall
    refine ⟨hwaiting, hend.imp_right ?_⟩
    rintro ⟨offset, hlow, hmem⟩
    exact ⟨offset, hlow, List.mem_append_left _ hmem⟩

/-- What settling leaves alone. -/
theorem settle_frame (tasks : UploadTasks) :
    tasks.settle = { tasks with finished := tasks.settle.finished } := by
  unfold settle
  split_ifs <;> rfl

/-- The sender stops where there is nothing more to send. -/
theorem Sends.stopSending (h : Sends source start stop history tasks) {said : List Entry}
    (hsaid : writes said = []) (hreached : tasks.reached = tasks.offset)
    (hend : stop ≤ tasks.offset ∨ ∃ offset < stop, .exhausted offset ∈ history ++ said) :
    Sends source start stop (history ++ said) tasks.stopSending := by
  have hwrites : writes (history ++ said) = writes history := by
    simpa [writes] using hsaid
  unfold UploadTasks.stopSending
  rw [settle_frame]
  constructor
  · exact h.source_eq
  · exact h.stop_eq
  · rw [hwrites]
    exact h.consecutive
  · rw [hwrites, h.sent, hreached]
    rfl
  · rw [← hreached]
    exact h.bounded
  · simp
  · simp
  · exact fun _ => ⟨rfl, hend⟩

/-- A read finds a payload that can be sent, or the end of the source. -/
theorem Sends.read (h : Sends source start stop history tasks) (hnone : tasks.result = none)
    (count : ℕ) :
    Sends source start stop (history ++ (tasks.read count).1) (tasks.read count).2 := by
  unfold UploadTasks.read
  split
  · next hpoint =>
    have hlow := h.reading hnone hpoint
    have hreached : tasks.reached = tasks.offset := by simp [reached, hpoint]
    dsimp only
    split_ifs with hempty
    · exact h.stopSending rfl hreached (Or.inr ⟨tasks.offset, hlow, by simp⟩)
    · constructor
      · exact h.source_eq
      · exact h.stop_eq
      · simpa [writes] using h.consecutive
      · have hsent := h.sent
        rw [hreached] at hsent
        simpa [writes, reached] using hsent
      · have hbounded := h.bounded
        rw [hreached] at hbounded
        exact hbounded
      · rintro payload ⟨⟩
        refine ⟨by simpa using hempty, ?_, ?_⟩
        · rw [h.source_eq, Source.readAt]
          exact (List.take_prefix _ _).trans (List.take_prefix _ _)
        · have hstop := h.stop_eq
          simp only [List.length_take, Source.readAt]
          omega
      · simp
      · intro hall
        have hwaiting := (h.ended hall).1
        rw [hpoint] at hwaiting
        cases hwaiting
  · simpa using h

/-- The WRITE that is sent begins where the last ended. -/
theorem Sends.acquire (h : Sends source start stop history tasks) (requestId : ℕ) :
    Sends source start stop (history ++ (tasks.acquire requestId).1)
      (tasks.acquire requestId).2 := by
  unfold UploadTasks.acquire
  split
  · next payload hpoint =>
    have hfits := h.pending payload hpoint
    have hsent := h.sent
    simp only [reached, hpoint] at hsent
    split_ifs
    · have hwrites : writes (history ++ [.sent requestId (tasks.offset, payload)]) =
          writes history ++ [(tasks.offset, payload)] := by
        simp [writes, Entry.write]
      constructor
      · exact h.source_eq
      · exact h.stop_eq
      · rw [hwrites, ← hsent]
        rw [← hsent] at hfits
        exact h.consecutive.concat hfits
      · rw [hwrites, total_concat, ← Nat.add_assoc, hsent]
        rfl
      · exact hfits.2.2.trans (le_max_right _ _)
      · simp
      · simp
      · intro hall
        have hwaiting := (h.ended hall).1
        rw [hpoint] at hwaiting
        cases hwaiting
    · simpa using h
  · simpa using h

/-- Sending returned, and the sender reads on or stops at the end of the span. -/
theorem Sends.returned (h : Sends source start stop history tasks) :
    Sends source start stop (history ++ []) tasks.sent := by
  unfold UploadTasks.sent
  split
  · next payload hpoint =>
    have hreached : tasks.reached = tasks.offset + payload.length := by simp [reached, hpoint]
    have hsent := h.sent
    have hbounded := h.bounded
    have hstop := h.stop_eq
    rw [hreached] at hsent hbounded
    have hnot : tasks.allSent ≠ true := by
      intro hall
      have hwaiting := (h.ended hall).1
      rw [hpoint] at hwaiting
      cases hwaiting
    have hmoved : Sends source start stop history
        { tasks with offset := tasks.offset + payload.length, point := .waiting } :=
      { source_eq := h.source_eq
        stop_eq := hstop
        consecutive := h.consecutive
        sent := hsent
        bounded := hbounded
        pending := by simp
        reading := by simp
        ended := fun hall => absurd hall hnot }
    unfold sendNext
    split_ifs with hlow
    · rw [List.append_nil]
      constructor
      · exact h.source_eq
      · exact hstop
      · exact h.consecutive
      · exact hsent
      · exact hbounded
      · simp
      · exact fun _ _ => hlow.trans_eq hstop
      · exact fun hall => absurd hall hnot
    · exact hmoved.stopSending rfl rfl (Or.inl (by dsimp only at hlow ⊢; omega))
  · simpa using h

end Sending

/-! ## The receiving task -/

/-- Answers stay. -/
theorem AnsweredOk.append {requestId : ℕ} {history : List Entry} (h : AnsweredOk requestId history)
    (said : List Entry) : AnsweredOk requestId (history ++ said) := by
  obtain ⟨front, message, back, rfl, hnone⟩ := h
  exact ⟨front, message, back ++ said, by simp, hnone⟩

/-- Every WRITE was answered with OK before its id was sent again, but for the last ones under
these ids. -/
def Answered (requestIds : List ℕ) (history : List Entry) : Prop :=
  ∀ front requestId write back, history = front ++ .sent requestId write :: back →
    AnsweredOk requestId back ∨ requestId ∈ requestIds ∧ ∀ later, .sent requestId later ∉ back

/-- One more entry, of what it says about the WRITEs before it and about itself. -/
theorem answered_concat {requestIds : List ℕ} {history : List Entry} {entry : Entry}
    (hold : ∀ front requestId write back, history = front ++ .sent requestId write :: back →
      AnsweredOk requestId (back ++ [entry]) ∨
        requestId ∈ requestIds ∧ ∀ later, .sent requestId later ∉ back ++ [entry])
    (hnew : ∀ requestId write, entry = .sent requestId write → requestId ∈ requestIds) :
    Answered requestIds (history ++ [entry]) := by
  intro front requestId write back hsplit
  cases back using List.reverseRecOn with
  | nil =>
    obtain ⟨-, hlast⟩ := List.append_inj' hsplit rfl
    exact Or.inr ⟨hnew requestId write (List.cons.inj hlast).1, by simp⟩
  | append_singleton back last =>
    rw [← List.cons_append, ← List.append_assoc] at hsplit
    obtain ⟨hfront, hlast⟩ := List.append_inj' hsplit rfl
    rw [← (List.cons.inj hlast).1]
    exact hold front requestId write back hfront

/-- A WRITE is sent under an id that no other waits under. -/
theorem Answered.sent {requestIds : List ℕ} {history : List Entry} (h : Answered requestIds history)
    {requestId : ℕ} (hfree : requestId ∉ requestIds) (write : Placed) :
    Answered (requestIds ++ [requestId]) (history ++ [.sent requestId write]) := by
  apply answered_concat
  · intro front other found back hsplit
    obtain hdone | ⟨hmem, hnone⟩ := h front other found back hsplit
    · exact Or.inl (hdone.append _)
    · have hother : other ≠ requestId := fun heq => hfree (heq ▸ hmem)
      refine Or.inr ⟨List.mem_append_left _ hmem, fun later => ?_⟩
      simp [hnone later, hother]
  · rintro other found heq
    simp [(Entry.sent.inj heq).1]

/-- A WRITE is answered with OK. -/
theorem Answered.ok {requestIds rest : List ℕ} {history : List Entry}
    (h : Answered requestIds history) {requestId : ℕ} (hperm : requestIds.Perm (requestId :: rest))
    (message : Bytes) :
    Answered rest (history ++ [.answered requestId (.status .ok message)]) := by
  apply answered_concat
  · intro front other found back hsplit
    obtain hdone | ⟨hmem, hnone⟩ := h front other found back hsplit
    · exact Or.inl (hdone.append _)
    · obtain rfl | hrest := List.mem_cons.mp (hperm.mem_iff.mp hmem)
      · exact Or.inl ⟨back, message, [], rfl, hnone⟩
      · exact Or.inr ⟨hrest, by simpa using hnone⟩
  · rintro other found ⟨⟩

/-- The end of the source answers no WRITE. -/
theorem Answered.exhausted {requestIds : List ℕ} {history : List Entry}
    (h : Answered requestIds history) (offset : ℕ) :
    Answered requestIds (history ++ [.exhausted offset]) := by
  apply answered_concat
  · intro front other found back hsplit
    exact (h front other found back hsplit).imp (·.append _) fun hwaiting =>
      ⟨hwaiting.1, by simpa using hwaiting.2⟩
  · rintro other found ⟨⟩

/-- The upload raised. -/
def Failed (tasks : UploadTasks) : Prop := ∃ failure, tasks.result = some (.error failure)

/-- How the table of WRITEs that wait, the window and the replies agree. -/
structure Settles (depth : ℕ) (history : List Entry) (tasks : UploadTasks) : Prop where
  permits : (writes history).length + tasks.permits ≤ history.countP Entry.isOk + depth
  room : tasks.outstanding.length + tasks.permits ≤ depth
  distinct : (tasks.outstanding.map Prod.fst).Nodup
  answered : ¬ tasks.Failed → Answered (tasks.outstanding.map Prod.fst) history
  lengths : ¬ tasks.Failed → tasks.acknowledged +
    (tasks.outstanding.map fun entry => entry.2.length).sum = total (writes history)
  finished : ¬ tasks.Failed →
    (tasks.finished = true ↔ tasks.allSent = true ∧ tasks.outstanding = [])
  refused : ∀ requestId reply, .answered requestId reply ∈ history →
    (∀ message, reply ≠ .status .ok message) → tasks.Failed

section Settling

variable {depth : ℕ} {history : List Entry} {tasks : UploadTasks}

/-- An upload about to begin has nothing to settle. -/
theorem settles_init (source : Source) (schedule : Schedule) (start stop : ℕ) :
    Settles schedule.depth [] (init source schedule start stop) where
  permits := by simp [writes, init]
  room := by simp [init]
  distinct := by simp [init]
  answered := by simp [Answered]
  lengths := by simp [init, writes, total]
  finished := by simp [init]
  refused := by simp

/-- Settling finishes an upload exactly when everything was sent and every WRITE acknowledged. -/
theorem settle_finished {tasks : UploadTasks}
    (h : tasks.finished = true → tasks.allSent = true ∧ tasks.outstanding = []) :
    tasks.settle.finished = true ↔ tasks.allSent = true ∧ tasks.outstanding = [] := by
  unfold settle
  split_ifs with hdone
  · simpa using hdone
  · simp only [List.isEmpty_iff] at hdone
    exact ⟨h, fun hall => absurd hall hdone⟩

/-- Tasks with the same table, window and count. -/
theorem Settles.congr (h : Settles depth history tasks) {tasks' : UploadTasks}
    (hpermits : tasks'.permits = tasks.permits) (houtstanding : tasks'.outstanding = tasks.outstanding)
    (hacknowledged : tasks'.acknowledged = tasks.acknowledged)
    (hfailed : tasks.Failed → tasks'.Failed)
    (hfinished : ¬ tasks'.Failed → (tasks'.finished = true ↔
      tasks'.allSent = true ∧ tasks'.outstanding = [])) : Settles depth history tasks' where
  permits := by rw [hpermits]; exact h.permits
  room := by rw [hpermits, houtstanding]; exact h.room
  distinct := by rw [houtstanding]; exact h.distinct
  answered := by rw [houtstanding]; exact fun hnot => h.answered fun hold => hnot (hfailed hold)
  lengths := by
    rw [houtstanding, hacknowledged]
    exact fun hnot => h.lengths fun hold => hnot (hfailed hold)
  finished := hfinished
  refused := fun requestId reply hmem hrefused => hfailed (h.refused requestId reply hmem hrefused)

/-- The source ended. -/
theorem Settles.exhausted (h : Settles depth history tasks) (offset : ℕ) :
    Settles depth (history ++ [.exhausted offset]) tasks where
  permits := by simpa [Entry.write, Entry.isOk] using h.permits
  room := h.room
  distinct := h.distinct
  answered := fun hnot => (h.answered hnot).exhausted offset
  lengths := fun hnot => by simpa [Entry.write] using h.lengths hnot
  finished := h.finished
  refused := fun requestId reply hmem => h.refused requestId reply (by simpa using hmem)

/-- Everything was sent. -/
theorem Settles.stopSending (h : Settles depth history tasks) :
    Settles depth history tasks.stopSending := by
  unfold UploadTasks.stopSending
  rw [settle_frame]
  refine h.congr rfl rfl rfl id fun hnot => ?_
  exact settle_finished fun hfinished => ⟨rfl, ((h.finished hnot).mp hfinished).2⟩

/-- Reading keeps the table. -/
theorem Settles.read (h : Settles depth history tasks) (count : ℕ) :
    Settles depth (history ++ (tasks.read count).1) (tasks.read count).2 := by
  unfold UploadTasks.read
  split
  · dsimp only
    split_ifs
    · exact (h.exhausted _).stopSending
    · rw [List.append_nil]
      exact h.congr rfl rfl rfl id h.finished
  · simpa using h

/-- A WRITE that is sent takes a place in the window. -/
theorem Settles.acquire (h : Settles depth history tasks) (hsent : tasks.point ≠ .waiting →
    tasks.allSent ≠ true) (requestId : ℕ) :
    Settles depth (history ++ (tasks.acquire requestId).1) (tasks.acquire requestId).2 := by
  unfold UploadTasks.acquire
  split
  · next payload hpoint =>
    split_ifs with hroom
    · obtain ⟨hpermit, hfree⟩ := hroom
      have hnot : tasks.allSent ≠ true := hsent (by simp [hpoint])
      constructor
      · have hpermits := h.permits
        simp only [writes_concat, Entry.write, Option.toList_some, List.length_append,
          List.length_singleton, List.countP_append]
        omega
      · have hplaces := h.room
        simp only [List.length_append, List.length_singleton]
        omega
      · rw [List.map_append]
        apply List.nodup_append.mpr
        refine ⟨h.distinct, List.nodup_singleton _, fun other hmem last hlast heq => ?_⟩
        rw [heq, List.mem_singleton.mp hlast] at hmem
        exact hfree hmem
      · intro hfailed
        rw [List.map_append]
        exact (h.answered hfailed).sent hfree _
      · intro hfailed
        have hlengths := h.lengths hfailed
        simp [Entry.write, ← hlengths, Nat.add_assoc]
      · intro hfailed
        have hfinished := h.finished hfailed
        simp [hnot] at hfinished ⊢
        exact hfinished
      · exact fun other reply hmem => h.refused other reply (by simpa using hmem)
    · simpa using h
  · simpa using h

/-- Sending that returned keeps the table. -/
theorem Settles.returned (h : Settles depth history tasks) :
    Settles depth (history ++ []) tasks.sent := by
  rw [List.append_nil]
  unfold UploadTasks.sent
  split
  · unfold sendNext
    split_ifs
    · exact h.congr rfl rfl rfl id h.finished
    · apply Settles.stopSending
      exact h.congr rfl rfl rfl id h.finished
  · exact h

/-- A failure keeps the window. -/
theorem Settles.fail (h : Settles depth history tasks) {entry : Entry} (hentry : entry.write = none)
    {tasks' : UploadTasks} (hfailed : tasks'.Failed) (hpermits : tasks'.permits = tasks.permits)
    (hlength : tasks'.outstanding.length ≤ tasks.outstanding.length)
    (hdistinct : (tasks'.outstanding.map Prod.fst).Nodup) :
    Settles depth (history ++ [entry]) tasks' where
  permits := by
    have hold := h.permits
    simp only [writes_concat, hentry, Option.toList_none, List.append_nil, List.countP_append]
    omega
  room := by
    have hold := h.room
    omega
  distinct := hdistinct
  answered := fun hnot => absurd hfailed hnot
  lengths := fun hnot => absurd hfailed hnot
  finished := fun hnot => absurd hfailed hnot
  refused := fun _ _ _ _ => hfailed

/-- A reply that is taken frees a place in the window, or the upload fails. -/
theorem Settles.acknowledge (h : Settles depth history tasks) (requestId : ℕ) (reply : Reply) :
    Settles depth (history ++ [.answered requestId reply]) (tasks.acknowledge requestId reply) := by
  unfold UploadTasks.acknowledge
  cases hpop : popRequest requestId tasks.outstanding with
  | none => exact h.fail rfl ⟨_, rfl⟩ rfl le_rfl h.distinct
  | some found =>
    obtain ⟨chunk, outstanding⟩ := found
    have hperm := Downloader.popRequest_perm hpop
    have hids : (tasks.outstanding.map Prod.fst).Perm (requestId :: outstanding.map Prod.fst) :=
      hperm.map Prod.fst
    have hdistinct := (List.nodup_cons.mp (hids.nodup_iff.mp h.distinct)).2
    have hlength := hperm.length_eq
    rw [List.length_cons] at hlength
    dsimp only
    split
    · next message =>
      rw [settle_frame]
      constructor
      · have hold := h.permits
        simp only [writes_concat, Entry.write, Option.toList_none, List.append_nil,
          List.countP_append, List.countP_singleton, Entry.isOk]
        simp only [if_true]
        omega
      · have hold := h.room
        dsimp only
        omega
      · exact hdistinct
      · exact fun hnot => (h.answered hnot).ok hids message
      · intro hnot
        have hold := h.lengths hnot
        rw [(hperm.map fun entry => entry.2.length).sum_eq, List.map_cons, List.sum_cons] at hold
        simp only [writes_concat, Entry.write, Option.toList_none, List.append_nil]
        dsimp only at hold ⊢
        omega
      · intro hnot
        apply settle_finished
        intro hfinished
        have hempty := ((h.finished hnot).mp hfinished).2
        simp [hempty] at hlength
      · intro other found hmem hrefused
        obtain hold | hnew := List.mem_append.mp hmem
        · exact h.refused other found hold hrefused
        · obtain ⟨-, rfl⟩ := Entry.answered.inj (List.mem_singleton.mp hnew)
          exact absurd rfl (hrefused message)
    · exact h.fail rfl ⟨_, rfl⟩ rfl (by dsimp only [UploadTasks.fail]; omega) hdistinct
    · exact h.fail rfl ⟨_, rfl⟩ rfl (by dsimp only [UploadTasks.fail]; omega) hdistinct

end Settling

/-! ## Both tasks -/

/-- What holds at every point of an upload. An upload that returned had everything acknowledged, and
all of the span sent unless the source ended before it. -/
structure Exact (source : Source) (depth start stop : ℕ) (history : List Entry)
    (tasks : UploadTasks) : Prop where
  sends : Sends source start stop history tasks
  settles : Settles depth history tasks
  returned : ∀ count, tasks.result = some (.ok count) →
    Answered [] history ∧ count = total (writes history) ∧
      (count = stop - start ∨ ∃ offset < stop, .exhausted offset ∈ history)

section Both

variable {source : Source} {depth start stop : ℕ} {history : List Entry} {tasks : UploadTasks}

/-- An upload about to begin. -/
theorem exact_init (source : Source) (schedule : Schedule) (start stop : ℕ) :
    Exact source schedule.depth start stop [] (init source schedule start stop) where
  sends := sends_init source schedule start stop
  settles := settles_init source schedule start stop
  returned := by
    intro count hcount
    simp only [init] at hcount
    split_ifs at hcount with hempty
    obtain rfl := Except.ok.inj (Option.some.inj hcount)
    exact ⟨by simp [Answered], rfl, Or.inl (by omega)⟩

/-- Both tasks after an event that returns nothing. -/
theorem Exact.of_running {said : List Entry} {tasks' : UploadTasks}
    (hsends : Sends source start stop (history ++ said) tasks')
    (hsettles : Settles depth (history ++ said) tasks')
    (hrunning : ∀ count, tasks'.result ≠ some (.ok count)) :
    Exact source depth start stop (history ++ said) tasks' where
  sends := hsends
  settles := hsettles
  returned := fun count hcount => absurd hcount (hrunning count)

/-- An upload that is finished returns what was acknowledged. -/
theorem Exact.finish (h : Exact source depth start stop history tasks)
    (hnone : tasks.result = none) :
    Exact source depth start stop (history ++ []) tasks.finish := by
  have hidle : Exact source depth start stop (history ++ []) tasks := by simpa using h
  unfold UploadTasks.finish
  split
  · next hpoint =>
    split_ifs with hfinished
    · have hnot : ¬ tasks.Failed := by
        rintro ⟨failure, hfailed⟩
        rw [hnone] at hfailed
        cases hfailed
      obtain ⟨hall, hempty⟩ := (hidle.settles.finished hnot).mp hfinished
      obtain ⟨-, hend⟩ := hidle.sends.ended hall
      have hlengths := hidle.settles.lengths hnot
      have hanswered := hidle.settles.answered hnot
      have hsent := hidle.sends.sent
      have hbounded := hidle.sends.bounded
      simp only [reached, hpoint] at hsent hbounded
      rw [hempty] at hlengths hanswered
      constructor
      · exact h.sends.congr rfl rfl rfl rfl rfl rfl fun _ => hnone
      · exact hidle.settles.congr rfl rfl rfl (fun hfailed => absurd hfailed hnot) fun _ =>
          hidle.settles.finished hnot
      · intro count hcount
        obtain rfl := Except.ok.inj (Option.some.inj hcount)
        refine ⟨hanswered, by simpa using hlengths, hend.imp_left fun hpast => ?_⟩
        simp only [List.map_nil, List.sum_nil] at hlengths
        omega
    · exact hidle
  · exact hidle

/-- What taking a reply leaves alone. -/
theorem acknowledge_frame (tasks : UploadTasks) (requestId : ℕ) (reply : Reply) :
    (tasks.acknowledge requestId reply).source = tasks.source ∧
      (tasks.acknowledge requestId reply).stop = tasks.stop ∧
      (tasks.acknowledge requestId reply).offset = tasks.offset ∧
      (tasks.acknowledge requestId reply).point = tasks.point ∧
      (tasks.acknowledge requestId reply).allSent = tasks.allSent := by
  unfold UploadTasks.acknowledge
  split
  · exact ⟨rfl, rfl, rfl, rfl, rfl⟩
  · dsimp only
    split
    · rw [settle_frame]
      exact ⟨rfl, rfl, rfl, rfl, rfl⟩
    · exact ⟨rfl, rfl, rfl, rfl, rfl⟩
    · exact ⟨rfl, rfl, rfl, rfl, rfl⟩

/-- What stopping the sender leaves alone. -/
theorem stopSending_result (tasks : UploadTasks) : tasks.stopSending.result = tasks.result := by
  unfold stopSending
  rw [settle_frame]

/-- No event but the last returns. -/
theorem result_ne_ok (hnone : tasks.result = none) (count : ℕ) :
    (∀ limit, (tasks.read limit).2.result ≠ some (.ok count)) ∧
      (∀ requestId, (tasks.acquire requestId).2.result ≠ some (.ok count)) ∧
      tasks.sent.result ≠ some (.ok count) ∧
      ∀ requestId reply, (tasks.acknowledge requestId reply).result ≠ some (.ok count) := by
  refine ⟨fun limit => ?_, fun requestId => ?_, ?_, fun requestId reply => ?_⟩
  · unfold UploadTasks.read
    split
    · dsimp only
      split_ifs
      · simp [stopSending_result, hnone]
      · simp [hnone]
    · simp [hnone]
  · unfold UploadTasks.acquire
    split
    · split_ifs <;> simp [hnone]
    · simp [hnone]
  · unfold UploadTasks.sent
    split
    · unfold sendNext
      split_ifs
      · simp [hnone]
      · simp [stopSending_result, hnone]
    · simp [hnone]
  · unfold UploadTasks.acknowledge
    split
    · simp [UploadTasks.fail]
    · dsimp only
      split
      · rw [settle_frame]
        simp [hnone]
      · simp [UploadTasks.fail]
      · simp [UploadTasks.fail]

/-- Every event keeps what holds. -/
theorem Exact.step (h : Exact source depth start stop history tasks) (event : Event) :
    Exact source depth start stop (history ++ (tasks.step event).1) (tasks.step event).2 := by
  have hidle : Exact source depth start stop (history ++ []) tasks := by simpa using h
  have hwaiting : tasks.point ≠ .waiting → tasks.allSent ≠ true := fun hpoint hall =>
    hpoint (h.sends.ended hall).1
  unfold UploadTasks.step
  by_cases hresult : tasks.result.isSome
  · rw [if_pos hresult]
    exact hidle
  · rw [if_neg hresult]
    have hnone : tasks.result = none := by simpa using hresult
    cases event with
    | read count =>
      exact .of_running (h.sends.read hnone count) (h.settles.read count) fun _ =>
        (result_ne_ok hnone _).1 count
    | acquire requestId =>
      exact .of_running (h.sends.acquire requestId) (h.settles.acquire hwaiting requestId)
        fun _ => (result_ne_ok hnone _).2.1 requestId
    | sent =>
      exact .of_running h.sends.returned h.settles.returned fun _ => (result_ne_ok hnone _).2.2.1
    | reply requestId reply =>
      dsimp only
      split_ifs
      · refine .of_running ?_ (h.settles.acknowledge requestId reply) fun _ =>
          (result_ne_ok hnone _).2.2.2 requestId reply
        obtain ⟨hsource, hstop, hoffset, hpoint, hsent⟩ := acknowledge_frame tasks requestId reply
        exact h.sends.congr rfl hsource hstop hoffset hpoint hsent fun _ => hnone
      · exact hidle
    | fail failure =>
      refine .of_running ?_ ?_ fun _ => by simp [UploadTasks.fail]
      · exact h.sends.congr rfl rfl rfl rfl rfl rfl fun _ => hnone
      · exact hidle.settles.congr rfl rfl rfl (fun _ => ⟨failure, rfl⟩) fun hnot =>
          absurd ⟨failure, rfl⟩ hnot
    | finish => exact h.finish hnone

end Both

/-! ## Runs -/

/-- What holds at every point of an upload, after any events. -/
theorem exact_run (source : Source) (schedule : Schedule) (start stop : ℕ)
    (events : List Event) :
    Exact source schedule.depth start stop
      ((init source schedule start stop).run events).1
      ((init source schedule start stop).run events).2 :=
  transcript_invariant (Exact source schedule.depth start stop)
    (exact_init source schedule start stop)
    (fun _ _ event h (_ : True) => h.step event) (throughout_of_forall fun _ _ => trivial)

/-- An upload sends exactly the source and returns only when all of it is acknowledged: whatever
its two tasks do in whatever order, its WRITEs are consecutive slices of the source that stay
inside the span; no more of them wait than the window admits; it returns only when each was
answered with OK, with the bytes they carried, which are those of the span unless the source ended
before; it is finished exactly when everything was sent and nothing waits; and any other answer
makes it raise. -/
theorem run_exact (source : Source) (schedule : Schedule) (start stop : ℕ)
    (events : List Event) :
    let history := ((init source schedule start stop).run events).1
    let tasks := ((init source schedule start stop).run events).2
    Consecutive source stop start (writes history) ∧
      (tasks.outstanding.length ≤ schedule.depth ∧
        (writes history).length ≤ history.countP Entry.isOk + schedule.depth) ∧
      (∀ count, tasks.result = some (.ok count) →
        (∀ front requestId write back, history = front ++ .sent requestId write :: back →
          AnsweredOk requestId back) ∧
        count = total (writes history) ∧
        (count = stop - start ∨ ∃ offset < stop, .exhausted offset ∈ history)) ∧
      (tasks.result = none →
        (tasks.finished = true ↔ tasks.allSent = true ∧ tasks.outstanding = [])) ∧
      ∀ requestId reply, .answered requestId reply ∈ history →
        (∀ message, reply ≠ .status .ok message) →
          ∃ failure, tasks.result = some (.error failure) := by
  intro history tasks
  have hexact : Exact source schedule.depth start stop history tasks :=
    exact_run source schedule start stop events
  have hpermits := hexact.settles.permits
  have hroom := hexact.settles.room
  refine ⟨hexact.sends.consecutive, ⟨by omega, by omega⟩, ?_, ?_, hexact.settles.refused⟩
  · intro count hcount
    obtain ⟨hanswered, htotal, hend⟩ := hexact.returned count hcount
    refine ⟨fun front requestId write back hsplit => ?_, htotal, hend⟩
    exact (hanswered front requestId write back hsplit).resolve_right (by simp)
  · intro hnone
    apply hexact.settles.finished
    rintro ⟨failure, hfailed⟩
    rw [hnone] at hfailed
    cases hfailed

end UploadTasks

end GantrySftp
