import GantrySftp.Fsspec.ByteRanges
import GantrySftp.Session.World

/-!
# Writing through the fsspec file object

The base class collects what is written and hands it on in blocks. The file object opens its path
before the first block, in the same way whichever mode it has, and writes each block behind those
before it. What the path holds afterwards is what was written and nothing else, so a mode that is
to keep what was there does not.
-/

namespace GantrySftp

open Library Program

/-! ## Opening a remote file -/

namespace Fsspec

/-- How the file object opens a destination in write mode. -/
def writeFlags : OpenFlag := OpenFlag.truncate

/-- What a path that a file object is for holds once it was opened, or how the server refused. -/
def openRemote (flags : OpenFlag) (path : Bytes) (remote : Option Bytes) : Except Failure Bytes :=
  let files : Files := fun file => if file = path then remote else none
  match Server.plain.perform files (.open_ path flags { permissions := some 0o600 }) with
  | .error code => .error (.serverError code [] (some path))
  | .ok (files, _) => .ok ((files path).getD [])

/-- However a path is opened for writing, it is left empty. -/
theorem openRemote_writeFlags (path : Bytes) (remote : Option Bytes) :
    openRemote writeFlags path remote = .ok [] := by
  have hcreates : writeFlags.creates = true := by decide
  have hexcludes : writeFlags.excludes = false := by decide
  have htruncates : writeFlags.truncates = true := by decide
  cases remote <;>
    simp [openRemote, Server.perform, Server.plain, hcreates, hexcludes, htruncates]

/-! ## Uploading -/

/-- Open the destination for writing, truncating whatever was there. The handle is the one that the
server gives out. -/
def initiateUpload (handle : Bytes) : OnStored Unit := .of fun state =>
  match openRemote writeFlags state.file.path state.remote with
  | .error failure => (.error (translated state.file.path (.raised failure)), state)
  | .ok content =>
    (.ok (), ⟨{ state.file with handle := some handle, written := 0 }, some content⟩)

/-- Add to how much was written. -/
def wrote (count : ℕ) : OnStored Unit := .of fun state =>
  (.ok (), { state with file := { state.file with written := state.file.written + count } })

/-- Write the buffered block at the offset it belongs at. -/
def uploadChunk (pipeline : Pipeline) (answers : Answers) (buffer : Bytes) (final : Bool) :
    OnStored Bool := do
  let state ← MonadState.get
  match state.file.handle with
  | none => pure (!final)
  | some handle =>
    if buffer = [] then pure (!final)
    else do
      let written ← onContent
        (RemoteFile.writeAt pipeline answers handle state.file.written buffer)
      wrote written
      pure (!final)

/-- Write blocks one after another; the last of them is the final one. -/
def uploadAll (pipeline : Pipeline) : List (Bytes × Answers) → OnStored Unit
  | [] => pure ()
  | (buffer, answers) :: blocks => do
    let _ ← uploadChunk pipeline answers buffer blocks.isEmpty
    uploadAll pipeline blocks

/-- Release the handle. What the CLOSE of it brings is ignored. -/
def release : OnStored Unit := .of fun state =>
  (.ok (), { state with file := { state.file with handle := none } })

/-! ## What the base class does -/

/-- A call on a file object that writes. -/
inductive WriteCall
  | write (data : Bytes)
  | flush

/-- The bytes that calls write. -/
def writtenBy : List WriteCall → Bytes
  | [] => []
  | .write data :: calls => data ++ writtenBy calls
  | .flush :: calls => writtenBy calls

/-- How the base class buffers: the blocks that it hands on by the time the file is closed are the
bytes that were written, one after another. -/
structure Buffering where
  blocks : List WriteCall → List Bytes
  consecutive : ∀ calls, (blocks calls).flatten = writtenBy calls

/-- Write blocks through a file object, and close it. -/
def writeAndClose (pipeline : Pipeline) (handle : Bytes) (blocks : List (Bytes × Answers)) :
    OnStored Unit :=
  ensuring (do
    initiateUpload handle
    uploadAll pipeline blocks) release

/-- A server stores blocks that are written one after another from an offset on. -/
def StoresFrom (pipeline : Pipeline) (handle : Bytes) : ℕ → List (Bytes × Answers) → Prop
  | _, [] => True
  | offset, (buffer, answers) :: blocks =>
    (buffer ≠ [] →
      UploadTasks.ServedThroughout buffer offset (pipeline.writing handle) answers.tasks ∧
        answers.stored.Perm (UploadTasks.writes (writeRangeFrom buffer offset
          (pipeline.writing handle) answers.tasks answers.ending).1)) ∧
      StoresFrom pipeline handle (offset + buffer.length) blocks

/-! ## What a path holds afterwards -/

/-- What a mode says of the outcome of a write: a file that is written holds what was written, one
that is appended to what it held and then that, and one that is to be new is refused, and left as it
is, if there is one. -/
def Documented (mode : FileMode) (previous : Option Bytes) (written : Bytes)
    (outcome : Except AdapterFailure Unit × Stored) : Prop :=
  match mode, previous with
  | .rb, _ => True
  | .wb, _ => outcome.1 = .ok () ∧ outcome.2.remote = some written
  | .ab, _ => outcome.1 = .ok () ∧ outcome.2.remote = some (previous.getD [] ++ written)
  | .xb, none => outcome.1 = .ok () ∧ outcome.2.remote = some written
  | .xb, some content =>
    (∃ failure, outcome.1 = .error failure) ∧ outcome.2.remote = some content

/-- The modes that mean no more than truncating does: to write, to append to nothing, and to create
what does not exist. -/
def Truncates : FileMode → Option Bytes → Prop
  | .rb, _ | .wb, _ => True
  | .ab, previous => previous.getD [] = []
  | .xb, previous => previous = none

variable {pipeline : Pipeline} {handle : Bytes}

/-- A block that is stored is appended. -/
theorem exec_uploadChunk (hdepth : 1 ≤ pipeline.depth) {path : Bytes} {mode : FileMode}
    {answers : Answers} {buffer content : Bytes} {blocks : List (Bytes × Answers)}
    (hstores : StoresFrom pipeline handle content.length ((buffer, answers) :: blocks))
    (final : Bool) :
    (uploadChunk pipeline answers buffer final).exec
        ⟨⟨path, mode, some handle, content.length⟩, some content⟩ =
      (.ok (!final),
        ⟨⟨path, mode, some handle, (content ++ buffer).length⟩, some (content ++ buffer)⟩) := by
  unfold uploadChunk
  rw [exec_bind, exec_get]
  dsimp only
  by_cases hempty : buffer = []
  · rw [if_pos hempty, hempty, List.append_nil, exec_pure]
  · have hwrite : (RemoteFile.writeAt pipeline answers handle content.length buffer).exec
        ⟨.unopened, content⟩ = (.ok buffer.length, ⟨.unopened, content ++ buffer⟩) := by
      rw [RemoteFile.exec_writeAt hdepth hstores.1, pwrite_at_end]
    rw [if_neg hempty, exec_bind, onContent, exec_of, Option.getD_some, hwrite, List.length_append]
    rfl

/-- Blocks that are stored are appended, one after another. -/
theorem exec_uploadAll (hdepth : 1 ≤ pipeline.depth) (path : Bytes) (mode : FileMode)
    {blocks : List (Bytes × Answers)} {content : Bytes}
    (hstores : StoresFrom pipeline handle content.length blocks) :
    (uploadAll pipeline blocks).exec
        ⟨⟨path, mode, some handle, content.length⟩, some content⟩ =
      (.ok (), ⟨⟨path, mode, some handle, (content ++ (blocks.map Prod.fst).flatten).length⟩,
        some (content ++ (blocks.map Prod.fst).flatten)⟩) := by
  induction blocks generalizing content with
  | nil =>
    rw [List.map_nil, List.flatten_nil, List.append_nil]
    rfl
  | cons block blocks ih =>
    obtain ⟨buffer, answers⟩ := block
    have hrest : StoresFrom pipeline handle (content ++ buffer).length blocks := by
      rw [List.length_append]
      exact hstores.2
    unfold uploadAll
    rw [exec_bind, exec_uploadChunk hdepth hstores]
    dsimp only
    rw [ih hrest, List.map_cons, List.flatten_cons, List.append_assoc]

/-- Whatever its path held, a file that is written through a file object and closed holds the
blocks. -/
theorem exec_writeAndClose (hdepth : 1 ≤ pipeline.depth) {blocks : List (Bytes × Answers)}
    (hstores : StoresFrom pipeline handle 0 blocks) (state : Stored) :
    ((writeAndClose pipeline handle blocks).exec state).1 = .ok () ∧
      ((writeAndClose pipeline handle blocks).exec state).2.remote =
        some (blocks.map Prod.fst).flatten := by
  have hinitiate : (initiateUpload handle).exec state =
      (.ok (), ⟨⟨state.file.path, state.file.mode, some handle, 0⟩, some []⟩) := by
    unfold initiateUpload
    rw [exec_of, openRemote_writeFlags]
  have hnone : StoresFrom pipeline handle ([] : Bytes).length blocks := hstores
  have hall := exec_uploadAll hdepth state.file.path state.file.mode hnone
  rw [List.length_nil] at hall
  unfold writeAndClose
  rw [exec_ensuring, exec_bind, hinitiate]
  dsimp only
  rw [hall]
  exact ⟨rfl, rfl⟩

/-- What a path holds after a file object wrote to it is what the mode says exactly when the mode
means no more than truncating does: to write, to append to what is empty or does not exist, or to
create what does not exist. -/
theorem upload_documented_iff (buffering : Buffering) (hdepth : 1 ≤ pipeline.depth)
    (calls : List WriteCall) {blocks : List (Bytes × Answers)}
    (hblocks : blocks.map Prod.fst = buffering.blocks calls)
    (hstores : StoresFrom pipeline handle 0 blocks) (state : Stored) :
    Documented state.file.mode state.remote (writtenBy calls)
        ((writeAndClose pipeline handle blocks).exec state) ↔
      Truncates state.file.mode state.remote := by
  obtain ⟨hok, hremote⟩ := exec_writeAndClose hdepth hstores state
  rw [hblocks, buffering.consecutive] at hremote
  generalize (writeAndClose pipeline handle blocks).exec state = outcome at hok hremote ⊢
  unfold Documented Truncates
  cases hmode : state.file.mode with
  | rb => exact Iff.rfl
  | wb => exact iff_of_true ⟨hok, hremote⟩ trivial
  | ab =>
    dsimp only
    rw [hok, hremote, eq_self, true_and, Option.some_inj, List.self_eq_append_left]
  | xb =>
    cases state.remote with
    | none => exact iff_of_true ⟨hok, hremote⟩ rfl
    | some content =>
      refine iff_of_false ?_ (Option.some_ne_none content)
      rintro ⟨⟨failure, hfailed⟩, -⟩
      rw [hok] at hfailed
      cases hfailed

/-- A base class that hands on everything in one block. -/
def Buffering.whole : Buffering where
  blocks := fun calls => [writtenBy calls]
  consecutive := fun calls => by rw [List.flatten_cons, List.flatten_nil, List.append_nil]

/-- One byte, and what becomes of its WRITE. -/
def oneByte : List (Bytes × Answers) :=
  [([5], { quiet 0 with
    tasks := [.read 1, .acquire 1, .sent, .reply 1 (.status .ok []), .finish]
    stored := [(0, [5])] })]

/-- A server that stores the byte. -/
theorem storesFrom_oneByte : StoresFrom ⟨.unknown, 1⟩ [0] 0 oneByte := by
  refine ⟨fun _ => ⟨⟨?_, ?_⟩, .rfl⟩, trivial⟩
  · refine ⟨⟨rfl, rfl, ?_⟩, ⟨rfl, ?_⟩, ⟨rfl, ?_⟩, ⟨rfl, ?_⟩, ⟨rfl, ?_⟩, trivial⟩
    · decide
    · exact ⟨⟨_, rfl⟩, by decide, by decide⟩
    · exact ⟨_, rfl⟩
    · exact ⟨rfl, by decide, _, rfl⟩
    · exact ⟨rfl, rfl⟩
  · rintro event ⟨hnone, -⟩
    cases hnone

/-- A file object for a path that holds one byte. -/
def existing (mode : FileMode) : Stored := ⟨⟨[0x66], mode, none, 0⟩, some [1]⟩

/-- Writing a byte over another leaves the byte written. -/
theorem upload_documented_iff_byte :
    Documented .wb (some [1]) [5]
      ((writeAndClose ⟨.unknown, 1⟩ [0] oneByte).exec (existing .wb)) :=
  (upload_documented_iff .whole (by decide) [.write [5]] rfl storesFrom_oneByte
    (existing .wb)).mpr trivial

/-- Appending a byte to a file, or creating one that exists, leaves the byte alone. -/
theorem existing_truncated :
    ¬ Documented .ab (some [1]) [5]
        ((writeAndClose ⟨.unknown, 1⟩ [0] oneByte).exec (existing .ab)) ∧
      ¬ Documented .xb (some [1]) [5]
        ((writeAndClose ⟨.unknown, 1⟩ [0] oneByte).exec (existing .xb)) := by
  constructor
  · obtain ⟨-, hremote⟩ := exec_writeAndClose (by decide) storesFrom_oneByte (existing .ab)
    rintro ⟨-, happended⟩
    rw [hremote] at happended
    cases Option.some.inj happended
  · obtain ⟨hok, -⟩ := exec_writeAndClose (by decide) storesFrom_oneByte (existing .xb)
    rintro ⟨⟨failure, hfailed⟩, -⟩
    rw [hok] at hfailed
    cases hfailed

end Fsspec

end GantrySftp
