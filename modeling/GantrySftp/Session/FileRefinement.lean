import GantrySftp.Library.Transcript
import GantrySftp.Session.RemoteFile

/-!
# A remote file is a file in memory

Seen from outside, an open remote file and what it holds are a file in memory: forgetting the
handle, each call on one does what the same call does on the other, as long as a faithful server
answers. By induction over the calls they stay the same file.
-/

namespace GantrySftp

open Library

/-! ## What a server does, and what is seen -/

/-- A remote file as a file in memory. -/
def Remote.memory (remote : Remote) : MemoryFile := ⟨remote.content, remote.file.position⟩

/-- What is seen of a value: of attributes, the size. -/
def Returned.value : Returned → Option FileValue
  | .position cursor => some (.position cursor)
  | .bytes data => some (.bytes data)
  | .filled count buffer => some (.filled count buffer)
  | .written count => some (.written count)
  | .attrs found => found.size.map fun size => .size size.toNat
  | .unit => some .unit

/-- What is seen of a call: its value unless it raised, and the cursor. -/
def seen (said : Except FileFailure Returned × ℕ) : Option FileValue × ℕ :=
  (said.1.toOption.bind Returned.value, said.2)

/-- A buffer of so many bytes, unless no buffer can have them. -/
def bufferOf (length : ℤ) : Bytes :=
  if length < RemoteFile.maxBufferLength then List.replicate length.toNat 0 else []

/-- The buffer that a call has its READs fill. -/
def Remote.buffer (remote : Remote) : FileCall → Bytes
  | .read (some length) => bufferOf length
  | .read none => bufferOf (remote.content.length - remote.file.position)
  | .readinto buffer => buffer
  | _ => []

/-- A server that holds the content answers the READs of a range, however short and in whatever
order, and does not stop before the range read does. -/
structure RangeServed (content buffer : Bytes) (offset : ℕ) (schedule : Schedule)
    (replies : List (ℕ × Reply)) : Prop where
  served : Downloader.ServedFrom content
    (.init (rangeSpan buffer offset) schedule (BufferSink.mk offset buffer)) replies
  enough : ((rangeSpan buffer offset).limit content - offset + 2) * (schedule.depth + 1) ≤
    replies.length

/-- A server that reports sizes and that no one else writes to answers a call: an FSTAT with the
size, an FSETSTAT with OK, every READ from what it holds, and every WRITE by storing it. -/
structure Honest (pipeline : Pipeline) (handle : Bytes) (remote : Remote)
    (turn : FileCall × Answers) : Prop where
  attrs : ∃ attrs, turn.2.attrs = .ok attrs ∧ attrs.size = some (remote.content.length : ℤ)
  resized : turn.2.resized = .ok ()
  reads : remote.buffer turn.1 ≠ [] →
    RangeServed remote.content (remote.buffer turn.1) remote.file.position
      (pipeline.reading handle) turn.2.replies
  writes : ∀ data, turn.1 = .write data → data ≠ [] →
    UploadTasks.ServedThroughout data remote.file.position (pipeline.writing handle) turn.2.tasks ∧
      turn.2.stored.Perm (UploadTasks.writes (writeRangeFrom data remote.file.position
        (pipeline.writing handle) turn.2.tasks turn.2.ending).1)

/-- The position after a call is one that fits an offset. -/
def KeepsPosition (remote : Remote) (turn : FileCall × Answers) : Prop :=
  (remote.memory.step turn.1).2.position < 2 ^ 63

instance (remote : Remote) (turn : FileCall × Answers) : Decidable (KeepsPosition remote turn) :=
  inferInstanceAs (Decidable (_ < _))

/-- The length of a call is that of a buffer, its size fits an attribute, and one DATA at most comes
without a byte. -/
structure Within (turn : FileCall × Answers) : Prop where
  length : ∀ length, turn.1 = .read (some length) → length < RemoteFile.maxBufferLength
  buffer : ∀ buffer, turn.1 = .readinto buffer → buffer.length < 2 ^ 63
  size : ∀ size, turn.1 = .truncate (some size) → size < 256 ^ 8
  empties : turn.2.replies.countP isEmptyReply ≤ 1

/-! ## The parts of a call -/

namespace RemoteFile

section Parts

variable {pipeline : Pipeline} {answers : Answers} {remote : Remote} {handle : Bytes}

/-- An open file has its handle. -/
theorem exec_openHandle (h : remote.file.handle = some handle) :
    openHandle.exec remote = (.ok handle, remote) := by
  simp [openHandle, h]

/-- Telling the cursor changes nothing. -/
@[simp] theorem exec_tell : tell.exec remote = (.ok remote.file.position, remote) := rfl

/-- Moving the cursor changes the cursor. -/
@[simp] theorem exec_moveTo (position : ℕ) :
    (moveTo position).exec remote =
      (.ok (), { remote with file := { remote.file with position := position } }) := rfl

/-- A ValueError changes nothing. -/
@[simp] theorem exec_valueError {α : Type} (message : String) :
    (valueError message : OnRemote α).exec remote =
      (.error (.raised (.valueError message)), remote) := rfl

/-- Attributes are those that came back. -/
theorem exec_fstat {attrs : Attrs} (h : answers.attrs = .ok attrs) :
    (fstat answers).exec remote = (.ok attrs, remote) := by
  simp [fstat, h, Except.mapError]

/-- A seek leads where it does in memory, or raises. -/
theorem exec_seekTarget {attrs : Attrs} (hattrs : answers.attrs = .ok attrs)
    (hsize : attrs.size = some (remote.content.length : ℤ)) (offset whence : ℤ) :
    (∃ target, remote.memory.seekTarget offset whence = some target ∧
        (seekTarget answers offset whence).exec remote = (.ok target, remote)) ∨
      remote.memory.seekTarget offset whence = none ∧
        ∃ message, (seekTarget answers offset whence).exec remote =
          (.error (.raised (.valueError message)), remote) := by
  unfold seekTarget MemoryFile.seekTarget
  by_cases hset : whence = 0
  · rw [if_pos hset, if_pos hset]
    exact Or.inl ⟨offset, rfl, rfl⟩
  · rw [if_neg hset, if_neg hset]
    by_cases hcur : whence = 1
    · rw [if_pos hcur, if_pos hcur]
      exact Or.inl ⟨_, rfl, rfl⟩
    · rw [if_neg hcur, if_neg hcur]
      by_cases hend : whence = 2
      · rw [if_pos hend, if_pos hend]
        refine Or.inl ⟨_, rfl, ?_⟩
        rw [Program.exec_bind, exec_fstat hattrs]
        simp only [hsize]
        rfl
      · rw [if_neg hend, if_neg hend]
        exact Or.inr ⟨rfl, _, rfl⟩

/-- The length to read is the one given, or that of the rest. -/
theorem exec_lengthToRead {attrs : Attrs} (hattrs : answers.attrs = .ok attrs)
    (hsize : attrs.size = some (remote.content.length : ℤ)) (length : Option ℤ) :
    (lengthToRead answers length).exec remote =
      (.ok (length.getD (max 0 (remote.content.length - remote.file.position))), remote) := by
  cases length with
  | some length => rfl
  | none =>
    unfold lengthToRead
    rw [Program.exec_bind, exec_fstat hattrs]
    simp only [Program.exec_bind, exec_tell, hsize]
    rfl

/-- A range read that is served reads ahead into the buffer. -/
theorem exec_readintoAt (hdepth : 1 ≤ pipeline.depth) {buffer : Bytes} {offset : ℕ}
    (hids : pipeline.depth < 256 ^ 4 ∨ buffer.length < 256 ^ 4)
    (hfits : offset + buffer.length ≤ 256 ^ 8)
    (hserved : buffer ≠ [] → RangeServed remote.content buffer offset (pipeline.reading handle)
      answers.replies) (hempties : answers.replies.countP isEmptyReply ≤ 1) :
    (readintoAt pipeline answers handle buffer offset).exec remote =
      (.ok ((((remote.content.drop offset).take buffer.length).length),
        (remote.content.drop offset).take buffer.length ++
          buffer.drop ((remote.content.drop offset).take buffer.length).length), remote) := by
  have hlengths := negotiatedLength_bounds
    (pipeline.limits.effectiveMaxPacketLength - readRequestOverhead handle.length)
    pipeline.limits.maxReadLength
  by_cases hempty : buffer = []
  · subst hempty
    unfold readintoAt
    rw [Program.exec_of, readRangeInto_nil hdepth hlengths.1]
    rfl
  · obtain ⟨hreplies, henough⟩ := hserved hempty
    have hanswered : AnsweredThroughout remote.content (rangeSpan buffer offset)
        (pipeline.reading handle) (BufferSink.mk offset buffer) answers.replies :=
      { depth_pos := hdepth
        requestLength_pos := hlengths.1
        start_le := by
          rintro stop ⟨⟩
          exact Nat.le_add_right _ _
        fits :=
          { length := Or.inl (hlengths.2.trans_lt (by decide))
            offset := Or.inr ⟨_, rfl, hfits⟩
            requestId := hids.imp_right fun hshort =>
              ⟨_, rfl, by rwa [show (rangeSpan buffer offset).start = offset from rfl,
                Nat.add_sub_cancel_left]⟩ }
        served := hreplies
        empties := hempties
        enough := henough }
    obtain ⟨hok, hview⟩ := readRangeInto_answered hanswered answers.ending
    have hcount : (rangeSpan buffer offset).limit remote.content - offset =
        ((remote.content.drop offset).take buffer.length).length := by
      have hlimit : (rangeSpan buffer offset).limit remote.content =
          min remote.content.length (offset + buffer.length) := rfl
      rw [hlimit, List.length_take, List.length_drop]
      omega
    unfold readintoAt
    rw [Program.exec_of]
    simp only [hok, hview, hcount]
    rfl

/-- A read of a length reads ahead. -/
theorem exec_readAt (hdepth : 1 ≤ pipeline.depth) {length : ℤ} {offset : ℕ}
    (hids : pipeline.depth < 256 ^ 4 ∨ length < 256 ^ 4) (hlow : 0 ≤ length)
    (hhigh : length < maxBufferLength) (hfits : offset + length.toNat ≤ 256 ^ 8)
    (hserved : bufferOf length ≠ [] → RangeServed remote.content (bufferOf length) offset
      (pipeline.reading handle) answers.replies)
    (hempties : answers.replies.countP isEmptyReply ≤ 1) :
    (readAt pipeline answers handle offset length).exec remote =
      (.ok ((remote.content.drop offset).take length.toNat), remote) := by
  unfold readAt
  rw [if_neg (by omega)]
  by_cases hzero : length = 0
  · subst hzero
    rw [if_pos rfl]
    simp
  · have hbuffer : bufferOf length = List.replicate length.toNat 0 := if_pos hhigh
    rw [if_neg hzero, if_neg (by omega), Program.exec_bind]
    rw [hbuffer] at hserved
    have hlength : (List.replicate length.toNat (0 : UInt8)).length = length.toNat :=
      List.length_replicate
    rw [exec_readintoAt hdepth (by omega) (by omega) hserved hempties]
    simp only [List.length_replicate, Program.exec_pure]
    rw [List.take_left' rfl]

/-- A write that is served writes at the offset. -/
theorem exec_writeAt (hdepth : 1 ≤ pipeline.depth) {data : Bytes} {offset : ℕ}
    (h : data ≠ [] → UploadTasks.ServedThroughout data offset (pipeline.writing handle)
        answers.tasks ∧
      answers.stored.Perm (UploadTasks.writes (writeRangeFrom data offset
        (pipeline.writing handle) answers.tasks answers.ending).1)) :
    (writeAt pipeline answers handle offset data).exec remote =
      (.ok data.length, { remote with content := pwrite remote.content offset data }) := by
  unfold writeAt
  by_cases hempty : data = []
  · subst hempty
    rw [if_pos rfl]
    rfl
  · obtain ⟨hserved, hstored⟩ := h hempty
    have hlengths := negotiatedLength_bounds
      (pipeline.limits.effectiveMaxPacketLength - writeRequestOverhead handle.length)
      pipeline.limits.maxWriteLength
    have hpace : 0 < (pipeline.writing handle).depth := hdepth
    obtain ⟨hok, hslices, hcovered⟩ := writeRangeFrom_served hpace hlengths.1 hempty hserved
      answers.ending
    rw [if_neg hempty, Program.exec_of]
    dsimp only
    rw [pwriteAll_eq_pwrite (fun write hmem => hslices write (hstored.mem_iff.mp hmem))]
    · rw [hok]
      rfl
    · intro i
      rw [← hcovered i]
      simp only [Covered, hstored.mem_iff]

end Parts

end RemoteFile

/-! ## One call -/

/-- A remote file that became another file in memory. -/
def Remote.become (remote : Remote) (memory : MemoryFile) : Remote :=
  ⟨{ remote.file with position := memory.position }, memory.content⟩

/-- What a call does that does what a call in memory does: it raises a ValueError where that is
refused, and else returns what that returns. -/
def FollowsMemory (remote : Remote) (call : FileCall) (outcome : Except FileFailure Returned × Remote) :
    Prop :=
  (remote.memory.Refused call ∧
    ∃ message, outcome = (.error (.raised (.valueError message)), remote)) ∨
  (¬ remote.memory.Refused call ∧
    ∃ returned, returned.value = some (remote.memory.perform call).1 ∧
      outcome = (.ok returned, remote.become (remote.memory.perform call).2))

namespace RemoteFile

section Calls

variable {pipeline : Pipeline} {answers : Answers} {remote : Remote} {handle : Bytes}
  (hhandle : remote.file.handle = some handle)

include hhandle

/-- Seeking. -/
theorem seek_follows {attrs : Attrs} (hattrs : answers.attrs = .ok attrs)
    (hsize : attrs.size = some (remote.content.length : ℤ)) (offset whence : ℤ) :
    FollowsMemory remote (.seek offset whence)
      ((call pipeline answers (.seek offset whence)).exec remote) := by
  unfold call seek
  simp only [Program.exec_bind, exec_openHandle hhandle]
  obtain ⟨target, hmemory, htarget⟩ | ⟨hmemory, message, htarget⟩ :=
    exec_seekTarget hattrs hsize offset whence
  · simp only [htarget]
    by_cases hlow : target < 0
    · rw [if_pos hlow]
      refine Or.inl ⟨?_, _, rfl⟩
      intro other hother
      rw [hmemory] at hother
      exact Option.some.inj hother ▸ hlow
    · rw [if_neg hlow]
      refine Or.inr ⟨fun hrefused => hlow (hrefused target hmemory), .position target.toNat, ?_, ?_⟩
      · simp [Returned.value, MemoryFile.perform, hmemory]
      · simp only [Program.exec_bind, exec_moveTo, Program.exec_pure, MemoryFile.perform, hmemory]
        rfl
  · simp only [htarget]
    refine Or.inl ⟨?_, _, rfl⟩
    intro other hother
    rw [hmemory] at hother
    cases hother

/-- Reading a length, once it is known. -/
theorem read_of_length {length : Option ℤ} {wanted : ℤ}
    (hlength : (lengthToRead answers length).exec remote = (.ok wanted, remote))
    (hread : (readAt pipeline answers handle remote.file.position wanted).exec remote =
      (.ok (remote.memory.ahead wanted.toNat), remote))
    (hahead : remote.memory.ahead wanted.toNat =
      remote.memory.ahead (length.elim remote.memory.content.length Int.toNat))
    (hallowed : ¬ remote.memory.Refused (.read length)) :
    FollowsMemory remote (.read length) ((call pipeline answers (.read length)).exec remote) := by
  refine Or.inr ⟨hallowed, .bytes (remote.memory.ahead wanted.toNat), ?_, ?_⟩
  · simp [Returned.value, MemoryFile.perform, hahead]
  · unfold call read
    simp only [Program.exec_bind, exec_openHandle hhandle, hlength, exec_tell, hread, exec_moveTo,
      Program.exec_pure, MemoryFile.perform, ← hahead]
    rfl

variable (hdepth : 1 ≤ pipeline.depth) (hids : pipeline.depth < 256 ^ 4)

include hdepth hids

/-- Reading. -/
theorem read_follows {length : Option ℤ}
    (hhonest : Honest pipeline handle remote (.read length, answers))
    (hkeeps : KeepsPosition remote (.read length, answers))
    (hwithin : Within (.read length, answers)) (hposition : remote.file.position < 2 ^ 63) :
    FollowsMemory remote (.read length) ((call pipeline answers (.read length)).exec remote) := by
  obtain ⟨attrs, hattrs, hsize⟩ := hhonest.attrs
  have hlength := exec_lengthToRead hattrs hsize length
  cases length with
  | some length =>
    have hhigh : length < maxBufferLength := hwithin.length length rfl
    by_cases hlow : length < 0
    · refine Or.inl ⟨hlow, s!"length must not be negative, got {length}", ?_⟩
      unfold call read
      simp only [Program.exec_bind, exec_openHandle hhandle, hlength, exec_tell, Option.getD_some,
        readAt, if_pos hlow, exec_valueError]
    · have hfits : remote.file.position + length.toNat ≤ 256 ^ 8 := by
        unfold maxBufferLength at hhigh
        omega
      exact read_of_length hhandle hlength
        (exec_readAt hdepth (Or.inl hids) (by simpa using hlow) hhigh hfits hhonest.reads
          hwithin.empties)
        rfl hlow
  | none =>
    have hallowed : ¬ remote.memory.Refused (.read none) := fun hrefused => hrefused
    have hmoved : remote.file.position +
        (remote.content.length - remote.file.position) < 2 ^ 63 := by
      unfold KeepsPosition at hkeeps
      rw [MemoryFile.step_of_not_refused _ hallowed] at hkeeps
      have hrest : (remote.memory.ahead remote.memory.content.length).length =
          remote.content.length - remote.file.position := by
        rw [MemoryFile.length_ahead]
        exact min_eq_right (Nat.sub_le _ _)
      simp only [MemoryFile.perform, Option.elim_none, hrest] at hkeeps
      exact hkeeps
    have hwanted : (max 0 ((remote.content.length : ℤ) - remote.file.position)).toNat =
        remote.content.length - remote.file.position := by omega
    have hbuffer : bufferOf (max 0 ((remote.content.length : ℤ) - remote.file.position)) =
        bufferOf (remote.content.length - remote.file.position) := by
      unfold bufferOf maxBufferLength
      rw [if_pos (by omega), if_pos (by omega)]
      congr 1
      omega
    apply read_of_length hhandle hlength
    · apply exec_readAt hdepth (Or.inl hids) (le_max_left _ _)
      · unfold maxBufferLength
        omega
      · omega
      · rw [hbuffer]
        exact hhonest.reads
      · exact hwithin.empties
    · rw [Option.getD_none, hwanted]
      exact remote.memory.ahead_rest
    · exact hallowed

/-- Reading into a buffer. -/
theorem readinto_follows {buffer : Bytes}
    (hhonest : Honest pipeline handle remote (.readinto buffer, answers))
    (hwithin : Within (.readinto buffer, answers)) (hposition : remote.file.position < 2 ^ 63) :
    FollowsMemory remote (.readinto buffer) ((call pipeline answers (.readinto buffer)).exec remote) := by
  have hbuffer := hwithin.buffer buffer rfl
  have hserved : buffer ≠ [] → RangeServed remote.content buffer remote.file.position
      (pipeline.reading handle) answers.replies := hhonest.reads
  refine Or.inr ⟨fun hrefused => hrefused, .filled (remote.memory.ahead buffer.length).length
    (remote.memory.ahead buffer.length ++
      buffer.drop (remote.memory.ahead buffer.length).length), rfl, ?_⟩
  unfold call readinto
  simp only [Program.exec_bind, exec_openHandle hhandle, exec_tell]
  rw [exec_readintoAt hdepth (Or.inl hids) (by omega) hserved hwithin.empties]
  rfl

omit hids in
/-- Writing. -/
theorem write_follows {data : Bytes}
    (hhonest : Honest pipeline handle remote (.write data, answers)) :
    FollowsMemory remote (.write data) ((call pipeline answers (.write data)).exec remote) := by
  refine Or.inr ⟨fun hrefused => hrefused, .written data.length, rfl, ?_⟩
  unfold call write
  simp only [Program.exec_bind, exec_openHandle hhandle, exec_tell]
  rw [exec_writeAt hdepth (hhonest.writes data rfl)]
  rfl

omit hdepth hids

/-- Setting the length. -/
theorem truncate_follows {size : Option ℤ} (hresized : answers.resized = .ok ())
    (hsize : ∀ given ∈ size, given < 256 ^ 8) (hposition : remote.file.position < 2 ^ 63) :
    FollowsMemory remote (.truncate size) ((call pipeline answers (.truncate size)).exec remote) := by
  unfold call truncate ftruncate
  simp only [Program.exec_bind, exec_openHandle hhandle, exec_tell]
  cases size with
  | some size =>
    have hfits := hsize size rfl
    by_cases hlow : size < 0
    · refine Or.inl ⟨hlow, s!"size must not be negative, got {size}", ?_⟩
      rw [Option.getD_some, if_pos hlow, exec_valueError]
    · refine Or.inr ⟨hlow, .unit, rfl, ?_⟩
      rw [Option.getD_some, if_neg hlow, if_neg (by omega), Program.exec_of, hresized]
      rfl
  | none =>
    refine Or.inr ⟨fun hrefused => hrefused, .unit, rfl, ?_⟩
    rw [Option.getD_none, if_neg (by omega), if_neg (by omega), Program.exec_of, hresized]
    rfl

/-- Asking for attributes. -/
theorem stat_follows {attrs : Attrs} (hattrs : answers.attrs = .ok attrs)
    (hsize : attrs.size = some (remote.content.length : ℤ)) :
    FollowsMemory remote .stat ((call pipeline answers .stat).exec remote) := by
  refine Or.inr ⟨fun hrefused => hrefused, .attrs attrs, ?_, ?_⟩
  · simp [Returned.value, hsize, MemoryFile.perform, Remote.memory]
  · unfold call stat
    simp only [Program.exec_bind, exec_openHandle hhandle, exec_fstat hattrs]
    rfl

end Calls

end RemoteFile

section Turns

variable {pipeline : Pipeline} {remote : Remote} {handle : Bytes} {turn : FileCall × Answers}

/-- Each call that a faithful server answers does what the same call in memory does. -/
theorem call_follows (hhandle : remote.file.handle = some handle) (hdepth : 1 ≤ pipeline.depth)
    (hids : pipeline.depth < 256 ^ 4) (hhonest : Honest pipeline handle remote turn)
    (hkeeps : KeepsPosition remote turn) (hwithin : Within turn)
    (hposition : remote.file.position < 2 ^ 63) :
    FollowsMemory remote turn.1 ((RemoteFile.call pipeline turn.2 turn.1).exec remote) := by
  obtain ⟨call, answers⟩ := turn
  obtain ⟨attrs, hattrs, hsize⟩ := hhonest.attrs
  cases call with
  | tell => exact Or.inr ⟨fun hrefused => hrefused, .position remote.file.position, rfl, rfl⟩
  | seek offset whence => exact RemoteFile.seek_follows hhandle hattrs hsize offset whence
  | read length =>
    exact RemoteFile.read_follows hhandle hdepth hids hhonest hkeeps hwithin hposition
  | readinto buffer =>
    exact RemoteFile.readinto_follows hhandle hdepth hids hhonest hwithin hposition
  | write data => exact RemoteFile.write_follows hhandle hdepth hhonest
  | truncate size =>
    apply RemoteFile.truncate_follows hhandle hhonest.resized _ hposition
    rintro given rfl
    exact hwithin.size given rfl
  | stat => exact RemoteFile.stat_follows hhandle hattrs hsize

/-- What is seen of a call that follows is what is seen in memory, and the files stay the same. -/
theorem FollowsMemory.seen_turn {call : FileCall} {answers : Answers}
    (h : FollowsMemory remote call ((RemoteFile.call pipeline answers call).exec remote)) :
    (remote.turn pipeline (call, answers)).1.map seen = (remote.memory.turn call).1 ∧
      (remote.turn pipeline (call, answers)).2 = remote.become (remote.memory.turn call).2 := by
  unfold Remote.turn MemoryFile.turn
  obtain ⟨hrefused, message, heq⟩ | ⟨hallowed, returned, hvalue, heq⟩ := h
  · rw [heq, MemoryFile.step_of_refused _ hrefused]
    exact ⟨rfl, rfl⟩
  · rw [heq, MemoryFile.step_of_not_refused _ hallowed]
    refine ⟨?_, rfl⟩
    simp [seen, Except.toOption, hvalue, Remote.become]

end Turns

/-! ## Whole runs -/

/-- What is seen of calls on a remote file that was just opened is what is seen of them on a file in
memory, and in the end they are the same. -/
def Refines (pipeline : Pipeline) (handle content : Bytes) (turns : List (FileCall × Answers)) :
    Prop :=
  let remote := transcript (Remote.turn pipeline) (.opened handle content) turns
  let memory := transcript MemoryFile.turn ⟨content, 0⟩ (turns.map Prod.fst)
  remote.1.map seen = memory.1 ∧ remote.2.memory = memory.2

/-- Calls that a faithful server answers, which keep the position one that fits. -/
def Faithfully (pipeline : Pipeline) (handle content : Bytes)
    (turns : List (FileCall × Answers)) : Prop :=
  Throughout (Remote.turn pipeline)
    (fun remote turn => Honest pipeline handle remote turn ∧ KeepsPosition remote turn)
    (.opened handle content) turns

section Runs

variable {pipeline : Pipeline} {handle content : Bytes} {turns : List (FileCall × Answers)}

/-- After calls that are within bounds the remote file is the file in memory. -/
theorem refines_run (hdepth : 1 ≤ pipeline.depth) (hids : pipeline.depth < 256 ^ 4)
    (hfaithful : Faithfully pipeline handle content turns) (hwithin : ∀ turn ∈ turns, Within turn) :
    let remote := transcript (Remote.turn pipeline) (.opened handle content) turns
    let memory := transcript MemoryFile.turn ⟨content, 0⟩ (turns.map Prod.fst)
    remote.1.map seen = memory.1 ∧ remote.2 = ⟨⟨some handle, true, memory.2.position⟩,
      memory.2.content⟩ ∧ memory.2.position < 2 ^ 63 := by
  induction turns using List.reverseRecOn with
  | nil => exact ⟨rfl, rfl, Nat.two_pow_pos 63⟩
  | append_singleton turns turn ih =>
    obtain ⟨hturns, hhonest, hkeeps⟩ := throughout_concat.mp hfaithful
    obtain ⟨hsaid, hremote, hposition⟩ := ih hturns fun other hmem =>
      hwithin other (List.mem_append_left _ hmem)
    simp only [List.map_append, List.map_singleton, transcript_concat]
    generalize transcript (Remote.turn pipeline) (.opened handle content) turns = remote at *
    generalize transcript MemoryFile.turn ⟨content, 0⟩ (turns.map Prod.fst) = memory at *
    have hfollows := call_follows (by rw [hremote]) hdepth hids hhonest hkeeps
      (hwithin turn (by simp)) (by rw [hremote]; exact hposition)
    have hmemory : remote.2.memory = memory.2 := by rw [hremote]; rfl
    obtain ⟨hlast, hnext⟩ := hfollows.seen_turn
    rw [KeepsPosition, hmemory] at hkeeps
    rw [hmemory] at hlast hnext
    refine ⟨by rw [hsaid, hlast], ?_, hkeeps⟩
    rw [hnext, hremote]
    rfl

/-- A remote file refines a file in memory: with a window that makes progress and leaves a request
id free, after any calls within bounds that a faithful server answers, every value and the cursor
after every call are those of the file in memory, and so is the content. A refused call raises a
ValueError and changes nothing. In memory nothing is read at or past the end, writing past the end
fills the gap with zeros, and setting the size leaves the position. -/
theorem remote_file_refines (hdepth : 1 ≤ pipeline.depth) (hids : pipeline.depth < 256 ^ 4)
    (hfaithful : Faithfully pipeline handle content turns) (hwithin : ∀ turn ∈ turns, Within turn) :
    Refines pipeline handle content turns ∧
      (∀ front turn back, turns = front ++ turn :: back →
        let remote := (transcript (Remote.turn pipeline) (.opened handle content) front).2
        remote.memory.Refused turn.1 → ∃ message, remote.turn pipeline turn =
          ([(.error (.raised (.valueError message)), remote.file.position)], remote)) ∧
      ∀ memory : MemoryFile,
        (∀ length, memory.content.length ≤ memory.position → memory.ahead length = []) ∧
        (∀ data, data ≠ [] → ∀ i, memory.content.length ≤ i → i < memory.position →
          (memory.perform (.write data)).2.content[i]? = some 0) ∧
        ∀ size, (memory.step (.truncate size)).2.position = memory.position := by
  refine ⟨?_, ?_, fun memory => ⟨fun length => memory.ahead_eq_nil, ?_, memory.truncate_position⟩⟩
  · obtain ⟨hsaid, hremote, -⟩ := refines_run hdepth hids hfaithful hwithin
    refine ⟨hsaid, ?_⟩
    rw [hremote]
    rfl
  · rintro front turn back rfl
    intro remote hrefused
    have hfront : Faithfully pipeline handle content (front ++ [turn]) := by
      apply throughout_of_append
      rw [List.append_assoc]
      exact hfaithful
    obtain ⟨hbefore, hhonest, hkeeps⟩ := throughout_concat.mp hfront
    obtain ⟨-, hremote, hposition⟩ := refines_run hdepth hids hbefore fun other hmem =>
      hwithin other (List.mem_append_left _ hmem)
    have hfollows := call_follows (by rw [hremote]) hdepth hids hhonest hkeeps
      (hwithin turn (by simp)) (by rw [hremote]; exact hposition)
    obtain ⟨-, message, hraised⟩ | ⟨hallowed, -⟩ := hfollows
    · refine ⟨message, ?_⟩
      unfold Remote.turn
      rw [hraised]
    · exact absurd hrefused hallowed
  · exact fun data hdata i => memory.write_gap hdata

end Runs

/-- Answers of a server that reports a size and has nothing to read or store. -/
def quiet (size : ℕ) : Answers where
  attrs := .ok { size := some size }
  resized := .ok ()
  replies := []
  tasks := []
  stored := []
  ending := .connectionLost

/-- Write a byte two bytes past the end of a file of one, and read the file back. -/
def writeAndReadBack : List (FileCall × Answers) :=
  [(.seek 2 2, quiet 1),
    (.write [5], { quiet 1 with
      tasks := [.read 1, .acquire 1, .sent, .reply 1 (.status .ok []), .finish]
      stored := [(3, [5])] }),
    (.seek (-4) 1, quiet 4),
    (.read none, { quiet 4 with
      replies := (1, .data [7, 0, 0, 5]) :: List.replicate 11 (0, .status .eof []) })]

/-- A seek needs to hear of no more than the size. -/
theorem honest_seek {pipeline : Pipeline} {handle : Bytes} {remote : Remote} {offset whence : ℤ} :
    Honest pipeline handle remote (.seek offset whence, quiet remote.content.length) where
  attrs := ⟨_, rfl, rfl⟩
  resized := rfl
  reads := fun hsome => absurd rfl hsome
  writes := by rintro data ⟨⟩


/-- A faithful server gives these answers. -/
theorem faithfully_writeAndReadBack : Faithfully ⟨.unknown, 1⟩ [0] [7] writeAndReadBack := by
  refine ⟨⟨?_, ?_⟩, ⟨?_, ?_⟩, ⟨?_, ?_⟩, ⟨?_, ?_⟩, trivial⟩
  · exact honest_seek
  · decide
  · refine ⟨⟨_, rfl, rfl⟩, rfl, fun hsome => absurd rfl hsome, ?_⟩
    rintro data ⟨⟩ -
    refine ⟨⟨?_, ?_⟩, ?_⟩
    · refine ⟨⟨rfl, rfl, ?_⟩, ⟨rfl, ?_⟩, ⟨rfl, ?_⟩, ⟨rfl, ?_⟩, ⟨rfl, ?_⟩, trivial⟩
      · decide
      · exact ⟨⟨_, rfl⟩, by decide, by decide⟩
      · exact ⟨_, rfl⟩
      · exact ⟨rfl, by decide, _, rfl⟩
      · exact ⟨rfl, rfl⟩
    · rintro event ⟨hnone, -⟩
      cases hnone
    · exact .rfl
  · decide
  · exact honest_seek
  · decide
  · refine ⟨⟨_, rfl, rfl⟩, rfl, fun _ => ⟨?_, by decide⟩, by rintro data ⟨⟩⟩
    intro filled hfill _
    obtain rfl := congrArg Prod.fst hfill
    refine ⟨⟨_, _, rfl, ⟨[7, 0, 0, 5], rfl, by decide⟩⟩, ?_⟩
    intro state' hstate
    obtain rfl := Except.ok.inj hstate
    intro filled hfill hsome
    obtain rfl := congrArg Prod.fst hfill
    exact absurd rfl hsome
  · decide

/-- A byte written past the end, and the file read back. -/
theorem remote_file_refines_gap : Refines ⟨.unknown, 1⟩ [0] [7] writeAndReadBack := by
  refine (remote_file_refines (by decide) (by decide) faithfully_writeAndReadBack ?_).1
  intro turn hmem
  simp only [writeAndReadBack, List.mem_cons, List.not_mem_nil, or_false] at hmem
  obtain rfl | rfl | rfl | rfl := hmem
  all_goals exact ⟨by rintro length ⟨⟩, by rintro buffer ⟨⟩, by rintro size ⟨⟩, by decide⟩

/-- A window of one byte READs that is to cover a whole region cannot be filled, where the region has
as many bytes as there are request ids, or bytes behind the last offset of a READ. -/
theorem fill_refused {σ : Type} (room : ℕ) {state : Downloader σ} {stop : ℕ}
    (hbacklog : state.backlog = []) (heof : state.eofAt = none) (hstop : state.span.stop = some stop)
    (hlength : state.schedule.requestLength = 1)
    (hroom : state.outstanding.length + room = state.schedule.depth)
    (hcovers : stop ≤ state.nextOffset + room) (hfree : state.outstanding.length < 256 ^ 4)
    (hbeyond : state.nextOffset + 256 ^ 4 ≤ stop + state.outstanding.length ∨
      256 ^ 8 < stop ∧ state.nextOffset < stop) :
    ∃ failed failure, Downloader.fill room state = (failed, some failure) := by
  induction room generalizing state with
  | zero => omega
  | succ room ih =>
    have hnext : state.nextOffset < stop := by omega
    have hmore : state.moreToIssue = true := by
      simp [Downloader.moreToIssue, hbacklog, heof, hstop, hnext]
    have hfresh : state.freshLength = 1 := by
      unfold Downloader.freshLength
      rw [hstop, hlength]
      exact min_eq_left (by omega)
    have hrange : state.nextRange =
        (⟨state.nextOffset, 1⟩, { state with nextOffset := state.nextOffset + 1 }) := by
      unfold Downloader.nextRange
      rw [hbacklog, hfresh]
    unfold Downloader.fill
    rw [if_pos ⟨by omega, hmore⟩]
    cases hsend : state.sendFailure with
    | some failure => exact ⟨_, _, rfl⟩
    | none =>
      have hsent : state.outstanding.length < 256 ^ 4 - 1 ∧ state.nextOffset < 256 ^ 8 := by
        unfold Downloader.sendFailure at hsend
        rw [hrange] at hsend
        dsimp only at hsend
        by_contra hfails
        split_ifs at hsend
        omega
      have hissue : state.issue = { state with
          nextOffset := state.nextOffset + 1
          nextId := state.nextId + 1
          outstanding := state.outstanding ++ [(state.nextId, ⟨state.nextOffset, 1⟩)] } := by
        unfold Downloader.issue
        rw [hrange]
      rw [hissue]
      dsimp only
      apply ih
      · exact hbacklog
      · exact heof
      · exact hstop
      · exact hlength
      · simp only [List.length_append, List.length_singleton]
        omega
      · dsimp only
        omega
      · simp only [List.length_append, List.length_singleton]
        omega
      · simp only [List.length_append, List.length_singleton]
        omega

/-- A call that raises is not seen to return what the call in memory returns. -/
theorem not_refines_of_raised {pipeline : Pipeline} {handle content : Bytes}
    {turn : FileCall × Answers} {failure : FileFailure} {remote : Remote}
    (hallowed : ¬ (MemoryFile.mk content 0).Refused turn.1)
    (hraised : (RemoteFile.call pipeline turn.2 turn.1).exec (.opened handle content) =
      (.error failure, remote)) : ¬ Refines pipeline handle content [turn] := by
  rintro ⟨hsaid, -⟩
  have hmemory : (transcript MemoryFile.turn ⟨content, 0⟩ ([turn].map Prod.fst)).1 =
      [(some ((MemoryFile.mk content 0).perform turn.1).1,
        ((MemoryFile.mk content 0).perform turn.1).2.position)] := by
    change [] ++ ((MemoryFile.mk content 0).turn turn.1).1 = _
    rw [MemoryFile.turn, MemoryFile.step_of_not_refused _ hallowed]
    rfl
  have hremote : ((transcript (Remote.turn pipeline) (.opened handle content) [turn]).1.map seen) =
      [(none, remote.file.position)] := by
    change List.map seen ([] ++ ((Remote.opened handle content).turn pipeline turn).1) = _
    rw [Remote.turn, hraised]
    rfl
  rw [hmemory, hremote] at hsaid
  cases (Prod.mk.inj (List.cons.inj hsaid).1).1

/-- Answers of a server that is asked for one range, and gives these replies. -/
def replying (size : ℕ) (replies : List (ℕ × Reply)) : Answers :=
  { quiet size with replies := replies }

/-- A session of one byte READs, with as many in flight as there are request ids. -/
def widePipeline : Pipeline := ⟨{ ServerLimits.unknown with maxReadLength := some 1 }, 256 ^ 4⟩

/-- The window of a read of that many bytes cannot be filled. -/
theorem fillWindow_wide {buffer : Bytes} (hbuffer : buffer.length = 256 ^ 4) :
    ∃ failed failure, (Downloader.init (rangeSpan buffer 0) (widePipeline.reading [0])
      (BufferSink.mk 0 buffer)).fillWindow = (failed, some failure) := by
  have hstop : (rangeSpan buffer 0).stop = some (256 ^ 4) := by
    simp [rangeSpan, hbuffer]
  have hlength : (widePipeline.reading [0]).requestLength = 1 := by decide
  exact fill_refused _ rfl rfl hstop hlength (Nat.zero_add _) (Nat.le_add_left _ _)
    (Nat.pow_pos (by decide)) (Or.inl (by simp [Downloader.init, rangeSpan]))

/-- The buffer of a read has the length that is read. -/
theorem length_bufferOf {wanted : ℤ} (hhigh : wanted < RemoteFile.maxBufferLength) :
    (bufferOf wanted).length = wanted.toNat := by
  rw [bufferOf, if_pos hhigh, List.length_replicate]

/-- A window that cannot be filled is served by any replies. -/
theorem servedFrom_of_refused {σ : Type} [Sink σ] {content : Bytes} {state failed : Downloader σ}
    {failure : Failure} (h : state.fillWindow = (failed, some failure))
    (replies : List (ℕ × Reply)) : Downloader.ServedFrom content state replies := by
  cases replies with
  | nil => trivial
  | cons reply rest =>
    intro filled hfill
    rw [h] at hfill
    cases (Prod.mk.inj hfill).2

/-- A read at an offset raises what its range read raises. -/
theorem readAt_of_raised {pipeline : Pipeline} {answers : Answers} {handle : Bytes} {offset : ℕ}
    {remote : Remote} {wanted : ℤ} {failed : Downloader BufferSink} {failure : Failure}
    (hlow : 0 < wanted) (hhigh : wanted < RemoteFile.maxBufferLength)
    (hdone : readRangeInto (bufferOf wanted) offset (pipeline.reading handle) answers.replies
      answers.ending = (failed, .error failure)) :
    (RemoteFile.readAt pipeline answers handle offset wanted).exec remote =
      (.error (.raised failure), remote) := by
  have hbuffer : bufferOf wanted = List.replicate wanted.toNat 0 := if_pos hhigh
  have hraised : (RemoteFile.readintoAt pipeline answers handle (List.replicate wanted.toNat 0)
      offset).exec remote = (.error (.raised failure), remote) := by
    unfold RemoteFile.readintoAt
    rw [Program.exec_of, ← hbuffer, hdone]
    rfl
  unfold RemoteFile.readAt
  rw [if_neg (by omega), if_neg (by omega), if_neg (by omega), Program.exec_bind, hraised]

/-- A read raises what its range read raises. -/
theorem raised_of_readRangeInto {pipeline : Pipeline} {answers : Answers} {handle content : Bytes}
    {wanted : ℤ} {failed : Downloader BufferSink} {failure : Failure} (hlow : 0 < wanted)
    (hhigh : wanted < RemoteFile.maxBufferLength)
    (hdone : readRangeInto (bufferOf wanted) 0 (pipeline.reading handle) answers.replies
      answers.ending = (failed, .error failure)) :
    (RemoteFile.call pipeline answers (.read (some wanted))).exec (.opened handle content) =
      (.error (.raised failure), .opened handle content) := by
  have hread : (RemoteFile.readAt pipeline answers handle 0 wanted).exec (.opened handle content) =
      (.error (.raised failure), .opened handle content) := readAt_of_raised hlow hhigh hdone
  have hhandle : (Remote.opened handle content).file.handle = some handle := rfl
  have hposition : (Remote.opened handle content).file.position = 0 := rfl
  unfold RemoteFile.call RemoteFile.read
  simp only [Program.exec_bind, RemoteFile.exec_openHandle hhandle, RemoteFile.lengthToRead,
    Program.exec_pure, RemoteFile.exec_tell, hposition, hread]

/-- A read of as many bytes as there are request ids, with a window as wide, is refused. -/
theorem not_refines_wide {wanted : ℤ} (hwanted : wanted = 256 ^ 4) {content : Bytes}
    (hcontent : content.length = 256 ^ 4) {replies : List (ℕ × Reply)}
    (henough : (256 ^ 4 + 2) * (256 ^ 4 + 1) ≤ replies.length) :
    Faithfully widePipeline [0] content
        [(.read (some wanted), replying content.length replies)] ∧
      ¬ Refines widePipeline [0] content
        [(.read (some wanted), replying content.length replies)] := by
  have hlength : (bufferOf wanted).length = 256 ^ 4 := by
    rw [length_bufferOf (by unfold RemoteFile.maxBufferLength; omega)]
    omega
  obtain ⟨failed, failure, hfill⟩ := fillWindow_wide hlength
  have hallowed : ¬ (MemoryFile.mk content 0).Refused (.read (some wanted)) := by
    change ¬ wanted < 0
    omega
  refine ⟨⟨⟨?_, ?_⟩, trivial⟩, ?_⟩
  · refine ⟨⟨_, rfl, rfl⟩, rfl, fun _ => ⟨servedFrom_of_refused hfill replies, ?_⟩,
      by rintro data ⟨⟩⟩
    have hlimit : (rangeSpan (bufferOf wanted) 0).limit content = 256 ^ 4 := by
      change min content.length (0 + (bufferOf wanted).length) = 256 ^ 4
      rw [hcontent, hlength, Nat.zero_add, min_self]
    change ((rangeSpan (bufferOf wanted) 0).limit content - 0 + 2) * (256 ^ 4 + 1) ≤ _
    rwa [hlimit, Nat.sub_zero]
  · change ((MemoryFile.mk content 0).step (.read (some wanted))).2.position < 2 ^ 63
    rw [MemoryFile.step_of_not_refused _ hallowed]
    change 0 + ((MemoryFile.mk content 0).ahead wanted.toNat).length < 2 ^ 63
    rw [MemoryFile.length_ahead, hcontent]
    omega
  · have hsome : bufferOf wanted ≠ [] := by
      intro hnil
      rw [hnil] at hlength
      cases hlength
    have hdone : readRangeInto (bufferOf wanted) 0 (widePipeline.reading [0]) replies
        .connectionLost = (failed, .error failure) := by
      unfold readRangeInto
      rw [if_neg (by decide), if_neg (by decide), if_neg hsome]
      exact Downloader.run_of_refused hfill
    apply not_refines_of_raised hallowed
    apply raised_of_readRangeInto _ _ hdone
    · omega
    · unfold RemoteFile.maxBufferLength
      omega

/-- Not every run that a faithful server answers refines a file in memory: a length that no buffer
has, a size that no attribute has, a window without a place, one as wide as there are request ids,
and a second DATA without a byte are each refused. -/
theorem not_refines :
    (Faithfully ⟨.unknown, 1⟩ [0] [] [(.read (some (2 ^ 63)), quiet 0)] ∧
      ¬ Refines ⟨.unknown, 1⟩ [0] [] [(.read (some (2 ^ 63)), quiet 0)]) ∧
    (Faithfully ⟨.unknown, 1⟩ [0] [] [(.truncate (some (256 ^ 8)), quiet 0)] ∧
      ¬ Refines ⟨.unknown, 1⟩ [0] [] [(.truncate (some (256 ^ 8)), quiet 0)]) ∧
    (Faithfully ⟨.unknown, 0⟩ [0] [7]
        [(.read (some 1), replying 1 (List.replicate 3 (1, .data [7])))] ∧
      ¬ Refines ⟨.unknown, 0⟩ [0] [7]
        [(.read (some 1), replying 1 (List.replicate 3 (1, .data [7])))]) ∧
    (∃ content replies,
      Faithfully widePipeline [0] content
        [(.read (some (256 ^ 4)), replying content.length replies)] ∧
      ¬ Refines widePipeline [0] content
        [(.read (some (256 ^ 4)), replying content.length replies)]) ∧
    (Faithfully ⟨.unknown, 1⟩ [0] [7] [(.read (some 1), replying 1
        ([(1, .data []), (2, .data [])] ++ List.replicate 4 (0, .status .eof [])))] ∧
      ¬ Refines ⟨.unknown, 1⟩ [0] [7] [(.read (some 1), replying 1
        ([(1, .data []), (2, .data [])] ++ List.replicate 4 (0, .status .eof [])))]) := by
  refine ⟨⟨⟨⟨?_, ?_⟩, trivial⟩, ?_⟩, ⟨⟨⟨?_, ?_⟩, trivial⟩, ?_⟩, ⟨⟨⟨?_, ?_⟩, trivial⟩, ?_⟩,
    ?_, ⟨⟨?_, ?_⟩, trivial⟩, ?_⟩
  · exact ⟨⟨_, rfl, rfl⟩, rfl, fun hsome => absurd rfl hsome, by rintro data ⟨⟩⟩
  · unfold KeepsPosition
    simp [MemoryFile.step, MemoryFile.Refused, MemoryFile.perform, MemoryFile.ahead,
      Remote.memory, Remote.opened]
  · exact not_refines_of_raised (by decide) rfl
  · exact ⟨⟨_, rfl, rfl⟩, rfl, fun hsome => absurd rfl hsome, by rintro data ⟨⟩⟩
  · exact (Nat.two_pow_pos 63)
  · exact not_refines_of_raised (by decide) rfl
  · refine ⟨⟨_, rfl, rfl⟩, rfl, fun _ => ⟨?_, by decide⟩, by rintro data ⟨⟩⟩
    intro filled hfill hsome
    obtain rfl := congrArg Prod.fst hfill
    exact absurd rfl hsome
  · decide
  · exact not_refines_of_raised (by decide) rfl
  · exact ⟨List.replicate (256 ^ 4) 0,
      List.replicate ((256 ^ 4 + 2) * (256 ^ 4 + 1)) (0, .status .eof []),
      not_refines_wide rfl List.length_replicate List.length_replicate.ge⟩
  · refine ⟨⟨_, rfl, rfl⟩, rfl, fun _ => ⟨?_, by decide⟩, by rintro data ⟨⟩⟩
    intro filled hfill _
    obtain rfl := congrArg Prod.fst hfill
    refine ⟨⟨_, _, rfl, ⟨[], rfl, by decide⟩⟩, ?_⟩
    intro first hfirst
    obtain rfl := Except.ok.inj hfirst
    intro filled hfill _
    obtain rfl := congrArg Prod.fst hfill
    refine ⟨⟨_, _, rfl, ⟨[], rfl, by decide⟩⟩, ?_⟩
    intro second hsecond
    cases hsecond
  · decide
  · exact not_refines_of_raised (by decide) rfl
end GantrySftp
