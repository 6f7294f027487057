import GantrySftp.Library.SparseFile

/-!
# A file in memory

A byte string with one position. Reading stops at the end, writing past the end fills the gap with
zeros, and resizing leaves the position where it was. A call that would put the position before
the start, and one of a negative length or size, is refused.
-/

namespace Library

/-- A file held in memory, and the position in it. -/
structure MemoryFile where
  content : Bytes
  position : ℕ
  deriving DecidableEq

/-- A call on a file with a position. Where a length is left out it is that of the rest, and where
a size is left out it is the position. -/
inductive FileCall
  | tell
  | seek (offset whence : ℤ)
  | read (length : Option ℤ)
  | readinto (buffer : Bytes)
  | write (data : Bytes)
  | truncate (size : Option ℤ)
  | stat

/-- What a call returns. -/
inductive FileValue
  | position (position : ℕ)
  | bytes (bytes : Bytes)
  | filled (count : ℕ) (buffer : Bytes)
  | written (count : ℕ)
  | size (size : ℕ)
  | unit
  deriving DecidableEq

/-- Cut a content to a size, or fill it up with zeros. -/
def resize (content : Bytes) (size : ℕ) : Bytes :=
  content.take size ++ List.replicate (size - content.length) 0

/-- A content has the size it was given. -/
@[simp] theorem length_resize (content : Bytes) (size : ℕ) :
    (resize content size).length = size := by
  simp only [resize, List.length_append, List.length_take, List.length_replicate]
  omega

namespace MemoryFile

variable (file : MemoryFile)

/-- Up to so many bytes from the position on. -/
def ahead (length : ℕ) : Bytes := (file.content.drop file.position).take length

/-- Where a seek leads: from the start, the position or the end. -/
def seekTarget (offset whence : ℤ) : Option ℤ :=
  if whence = 0 then some offset
  else if whence = 1 then some (file.position + offset)
  else if whence = 2 then some (file.content.length + offset)
  else none

/-- The calls that are refused: to seek before the start, or from nowhere, and to take a negative
length or size. -/
def Refused : FileCall → Prop
  | .seek offset whence => ∀ target ∈ file.seekTarget offset whence, target < 0
  | .read (some length) => length < 0
  | .truncate (some size) => size < 0
  | _ => False

instance : (call : FileCall) → Decidable (file.Refused call)
  | .seek offset whence =>
    inferInstanceAs (Decidable (∀ target ∈ file.seekTarget offset whence, target < 0))
  | .read (some length) => inferInstanceAs (Decidable (length < 0))
  | .truncate (some size) => inferInstanceAs (Decidable (size < 0))
  | .read none | .truncate none | .tell | .readinto _ | .write _ | .stat =>
    inferInstanceAs (Decidable False)

/-- What a call that is not refused returns, and the file after it. -/
def perform : FileCall → FileValue × MemoryFile
  | .tell => (.position file.position, file)
  | .seek offset whence =>
    let target := ((file.seekTarget offset whence).getD 0).toNat
    (.position target, { file with position := target })
  | .read length =>
    let bytes := file.ahead (length.elim file.content.length Int.toNat)
    (.bytes bytes, { file with position := file.position + bytes.length })
  | .readinto buffer =>
    let bytes := file.ahead buffer.length
    (.filled bytes.length (bytes ++ buffer.drop bytes.length),
      { file with position := file.position + bytes.length })
  | .write data =>
    (.written data.length, ⟨pwrite file.content file.position data, file.position + data.length⟩)
  | .truncate size =>
    (.unit, { file with content := resize file.content (size.elim file.position Int.toNat) })
  | .stat => (.size file.content.length, file)

/-- One call: what it returns unless it is refused, and the file after it. -/
def step (call : FileCall) : Option FileValue × MemoryFile :=
  if file.Refused call then (none, file)
  else ((file.perform call).1, (file.perform call).2)

/-- A refused call returns nothing and changes nothing. -/
theorem step_of_refused {call : FileCall} (h : file.Refused call) :
    file.step call = (none, file) := if_pos h

/-- A call that is not refused is performed. -/
theorem step_of_not_refused {call : FileCall} (h : ¬ file.Refused call) :
    file.step call = (some (file.perform call).1, (file.perform call).2) := if_neg h

/-- One call, and where the position is after it. -/
def turn (call : FileCall) : List (Option FileValue × ℕ) × MemoryFile :=
  ([((file.step call).1, (file.step call).2.position)], (file.step call).2)

/-- Reading ahead reads no more than asked for, and nothing past the end. -/
theorem length_ahead (length : ℕ) :
    (file.ahead length).length = min length (file.content.length - file.position) := by
  rw [ahead, List.length_take, List.length_drop]

/-- Reading as much as there is reads the rest. -/
theorem ahead_rest : file.ahead (file.content.length - file.position) =
    file.ahead file.content.length := by
  have hle : (file.content.drop file.position).length ≤ file.content.length :=
    List.drop_sublist _ _ |>.length_le
  rw [ahead, ahead, List.take_of_length_le (by rw [List.length_drop]), List.take_of_length_le hle]

/-- Nothing is read at or past the end. -/
theorem ahead_eq_nil {length : ℕ} (h : file.content.length ≤ file.position) :
    file.ahead length = [] := by
  rw [ahead, List.drop_eq_nil_of_le h, List.take_nil]

/-- Writing past the end fills the gap with zeros. -/
theorem write_gap {data : Bytes} (hdata : data ≠ []) {i : ℕ} (hend : file.content.length ≤ i)
    (hgap : i < file.position) : (file.perform (.write data)).2.content[i]? = some 0 := by
  have hinside : i < (pwrite file.content file.position data).length := by
    rw [length_pwrite, if_neg hdata]
    exact lt_max_of_lt_right (hgap.trans_le (Nat.le_add_right _ _))
  have hbyte := getD_pwrite file.content file.position data i
  rw [if_neg fun hcovers => absurd hcovers.1 (by simpa using hgap),
    List.getD_eq_default _ _ hend, List.getD_eq_getElem _ _ hinside] at hbyte
  change (pwrite file.content file.position data)[i]? = some 0
  rw [List.getElem?_eq_getElem hinside, hbyte]

/-- Setting the size leaves the position where it was. -/
theorem truncate_position (size : Option ℤ) :
    (file.step (.truncate size)).2.position = file.position := by
  unfold step
  split_ifs <;> rfl

end MemoryFile

end Library
