import GantrySftp.Codec.Wire
import GantrySftp.Library.Splitting

/-!
# Splitting the stream into frames

The stream is a 32-bit length followed by that many bytes of frame body, in whatever pieces the
transport read it. The splitter keeps what it has not parsed in a buffer that is never changed
while a frame cut from it is held. However the stream was cut and whatever is held, the frames
are those of one parse of the whole stream.
-/

namespace GantrySftp

open Library

/-- The width of a frame's length prefix. -/
def lengthPrefixSize : ℕ := 4

/-- The ceiling on a single frame when none is given. -/
def defaultMaxFrameLength : ℕ := 4 * 1024 * 1024

/-- The size of a consumed prefix at which the buffer is compacted. -/
def compactThreshold : ℕ := 64 * 1024

/-- A frame splitter: the buffer, and where in it the first byte not yet parsed is. -/
structure FrameSplitter where
  buf : Bytes
  start : ℕ
  maxFrameLength : ℕ
  start_le : start ≤ buf.length
  maxFrameLength_pos : 1 ≤ maxFrameLength

/-- Bytes fed at once, and whether a frame cut from the buffer is still held then. -/
structure Chunk where
  data : Bytes
  held : Bool

/-- A refusal of a frame length, which no frame context goes with. -/
def framingError (message : String) : ProtocolError := { message := message }

/-- The refusal of a frame without a body. -/
def zeroLength : ProtocolError :=
  framingError "frame declares zero length; every frame has a type byte"

/-- The refusal of a frame above the ceiling. -/
def aboveCeiling (length maxFrameLength : ℕ) : ProtocolError :=
  framingError (s!"frame declares length {length}, above the {maxFrameLength}-byte " ++
    "ceiling; refusing to buffer it")

namespace FrameSplitter

/-- A splitter that was fed nothing. -/
def empty (maxFrameLength : ℕ) (h : 1 ≤ maxFrameLength) : FrameSplitter where
  buf := []
  start := 0
  maxFrameLength := maxFrameLength
  start_le := le_rfl
  maxFrameLength_pos := h

/-- Bytes held that do not yet form a complete frame. -/
def buffered (splitter : FrameSplitter) : ℕ := splitter.buf.length - splitter.start

/-- Drop consumed bytes, if enough have accumulated. A buffer with a frame held cannot be
resized. -/
def reclaim (splitter : FrameSplitter) (held : Bool) : Option FrameSplitter :=
  if splitter.start = 0 then some splitter
  else if compactThreshold ≤ splitter.start ∨ splitter.start = splitter.buf.length then
    if held then none
    else some { splitter with
      buf := splitter.buf.drop splitter.start
      start := 0
      start_le := Nat.zero_le _ }
  else some splitter

/-- Append to the buffer in place. A buffer with a frame held cannot grow. -/
def extend (splitter : FrameSplitter) (data : Bytes) (held : Bool) : Option FrameSplitter :=
  if held ∧ data ≠ [] then none
  else some { splitter with
    buf := splitter.buf ++ data
    start_le := splitter.start_le.trans (by simp) }

/-- Take bytes into the buffer, or into a fresh one with what was not parsed when a frame is
held. -/
def absorb (splitter : FrameSplitter) (chunk : Chunk) : FrameSplitter :=
  match splitter.reclaim chunk.held >>= fun reclaimed => reclaimed.extend chunk.data chunk.held with
  | some extended => extended
  | none =>
    { splitter with
      buf := splitter.buf.drop splitter.start ++ chunk.data
      start := 0
      start_le := Nat.zero_le _ }

/-- Pull one complete frame from the buffer, if there is one. -/
def nextFrame (splitter : FrameSplitter) :
    Except ProtocolError (Option (Bytes × FrameSplitter)) :=
  let available := splitter.buf.length - splitter.start
  if hshort : available < lengthPrefixSize then .ok none
  else
    let header := splitter.start
    let length := fromBigEndian ((splitter.buf.drop header).take lengthPrefixSize)
    if length = 0 then .error zeroLength
    else if splitter.maxFrameLength < length then
      .error (aboveCeiling length splitter.maxFrameLength)
    else if hincomplete : available - lengthPrefixSize < length then .ok none
    else
      let body := header + lengthPrefixSize
      .ok (some ((splitter.buf.drop body).take length,
        { splitter with
          start := body + length
          start_le := by have := splitter.start_le; omega }))

/-- Pulling a frame leaves less to parse. -/
theorem nextFrame_buffered_lt {splitter after : FrameSplitter} {frame : Bytes}
    (h : splitter.nextFrame = .ok (some (frame, after))) : after.buffered < splitter.buffered := by
  unfold nextFrame at h
  dsimp only at h
  split_ifs at h with hshort hzero hceiling hincomplete
  · cases h
  · cases h
  · obtain ⟨-, rfl⟩ := Prod.mk.inj (Option.some.inj (Except.ok.inj h))
    simp only [buffered, lengthPrefixSize] at hshort hincomplete ⊢
    omega

/-- Pull complete frames until there is none, or one is refused. The frames pulled before a
refusal are lost with it. -/
def nextFrames (splitter : FrameSplitter) : Except ProtocolError (List Bytes) × FrameSplitter :=
  match h : splitter.nextFrame with
  | .error error => (.error error, splitter)
  | .ok none => (.ok [], splitter)
  | .ok (some (frame, after)) =>
    have := nextFrame_buffered_lt h
    ((frame :: ·) <$> after.nextFrames.1, after.nextFrames.2)
termination_by splitter.buffered

/-- Add received bytes and return every complete frame body they finished. -/
def feed (splitter : FrameSplitter) (chunk : Chunk) :
    Except ProtocolError (List Bytes) × FrameSplitter :=
  (splitter.absorb chunk).nextFrames

/-- Feed chunks one after another until one is refused: what each feed returned, and the
splitter at the end or the refusal. -/
def feedAll (splitter : FrameSplitter) : List Chunk →
    List (List Bytes) × Except ProtocolError FrameSplitter
  | [] => ([], .ok splitter)
  | chunk :: chunks =>
    match splitter.feed chunk with
    | (.error error, _) => ([], .error error)
    | (.ok frames, after) => (frames :: (after.feedAll chunks).1, (after.feedAll chunks).2)

end FrameSplitter

/-! ## One parse of the whole stream -/

/-- The frame at the front of a stream. -/
def cutFrame (maxFrameLength : ℕ) (stream : Bytes) : Cut UInt8 Bytes ProtocolError :=
  if stream.length < lengthPrefixSize then .more
  else
    let length := fromBigEndian (stream.take lengthPrefixSize)
    if length = 0 then .bad zeroLength
    else if maxFrameLength < length then .bad (aboveCeiling length maxFrameLength)
    else if stream.length - lengthPrefixSize < length then .more
    else .item ((stream.drop lengthPrefixSize).take length) (stream.drop (lengthPrefixSize + length))

/-- A frame cut off a stream leaves less of it, and is cut off whatever follows. -/
theorem cutFrame_item {maxFrameLength : ℕ} {stream frame rest : Bytes}
    (h : cutFrame maxFrameLength stream = .item frame rest) :
    stream.length = lengthPrefixSize + frame.length + rest.length ∧
      ∀ later, cutFrame maxFrameLength (stream ++ later) = .item frame (rest ++ later) := by
  unfold cutFrame at h ⊢
  dsimp only at h ⊢
  split_ifs at h with hshort hzero hceiling hincomplete
  obtain ⟨rfl, rfl⟩ := Cut.item.inj h
  refine ⟨?_, fun later => ?_⟩
  · simp only [List.length_take, List.length_drop]
    omega
  · rw [List.take_append_of_le_length (by omega), if_neg (by simp; omega), if_neg hzero,
      if_neg hceiling, if_neg (by simp; omega), List.drop_append_of_le_length (by omega),
      List.take_append_of_le_length (by simp; omega), List.drop_append_of_le_length (by omega)]

/-- A length refused at the front of a stream is refused whatever follows. -/
theorem cutFrame_bad {maxFrameLength : ℕ} {stream : Bytes} {error : ProtocolError}
    (h : cutFrame maxFrameLength stream = .bad error) :
    lengthPrefixSize ≤ stream.length ∧
      ∀ later, cutFrame maxFrameLength (stream ++ later) = .bad error := by
  unfold cutFrame at h ⊢
  dsimp only at h ⊢
  split_ifs at h with hshort hzero hceiling hincomplete
  · refine ⟨by omega, fun later => ?_⟩
    rw [List.take_append_of_le_length (by omega), if_neg (by simp; omega), if_pos hzero, h]
  · refine ⟨by omega, fun later => ?_⟩
    rw [List.take_append_of_le_length (by omega), if_neg (by simp; omega), if_neg hzero,
      if_pos hceiling, h]

/-- An incomplete frame is shorter than the longest one there is. -/
theorem length_lt_of_cutFrame_more {maxFrameLength : ℕ} {stream : Bytes}
    (h : cutFrame maxFrameLength stream = .more) :
    stream.length < lengthPrefixSize + maxFrameLength := by
  unfold cutFrame at h
  dsimp only at h
  split_ifs at h with hshort hzero hceiling hincomplete <;> omega

/-- Frames are cut off a stream one after another. -/
def frameCutter (maxFrameLength : ℕ) : Cutter UInt8 Bytes ProtocolError where
  cut := cutFrame maxFrameLength
  shorter h := by
    have hlength := (cutFrame_item h).1
    simp only [lengthPrefixSize] at hlength
    omega
  item_append later h := (cutFrame_item h).2 later
  bad_append later h := (cutFrame_bad h).2 later

/-- The frames of a whole stream, and what is left of it. -/
def frames (maxFrameLength : ℕ) (stream : Bytes) :
    List Bytes × Except (ProtocolError × Bytes) Bytes :=
  (frameCutter maxFrameLength).parse stream

/-- Where the first length prefix that is refused ends in a stream. -/
def refusedPrefixEnd (maxFrameLength : ℕ) (stream : Bytes) : Option ℕ :=
  match (frames maxFrameLength stream).2 with
  | .ok _ => none
  | .error _ =>
    some (((frames maxFrameLength stream).1.map fun frame => lengthPrefixSize + frame.length).sum +
      lengthPrefixSize)

/-- The bytes of chunks in the order they are fed. -/
def fed (chunks : List Chunk) : Bytes := (chunks.map Chunk.data).flatten

/-- Every byte of a stream is in one of its frames with their prefixes, or left over. -/
theorem length_frames (maxFrameLength : ℕ) (stream : Bytes) :
    stream.length =
      ((frames maxFrameLength stream).1.map fun frame => lengthPrefixSize + frame.length).sum +
        match (frames maxFrameLength stream).2 with
        | .ok rest => rest.length
        | .error (_, rest) => rest.length := by
  unfold frames
  induction stream using (frameCutter maxFrameLength).parse_induction with
  | more stream hcut => simp [Cutter.parse_more hcut]
  | bad stream error hcut => simp [Cutter.parse_bad hcut]
  | item stream frame rest hcut ih =>
    have hlength := (cutFrame_item hcut).1
    simp only [Cutter.parse_item hcut, List.map_cons, List.sum_cons]
    omega

/-- A refused prefix lies inside the stream it was refused in. -/
theorem refusedPrefixEnd_le {maxFrameLength finish : ℕ} {stream : Bytes}
    (h : refusedPrefixEnd maxFrameLength stream = some finish) : finish ≤ stream.length := by
  have hlength := length_frames maxFrameLength stream
  unfold refusedPrefixEnd at h
  cases hparse : (frames maxFrameLength stream).2 with
  | ok rest =>
    rw [hparse] at h
    cases h
  | error refusal =>
    have hleading := (cutFrame_bad (Cutter.cut_of_parse_error hparse)).1
    simp only [hparse, Option.some.injEq] at h hlength
    omega

/-- A stream with a refused prefix keeps it, whatever follows. -/
theorem refusedPrefixEnd_append {maxFrameLength finish : ℕ} {stream : Bytes} (later : Bytes)
    (h : refusedPrefixEnd maxFrameLength stream = some finish) :
    refusedPrefixEnd maxFrameLength (stream ++ later) = some finish := by
  unfold refusedPrefixEnd frames at *
  cases hparse : ((frameCutter maxFrameLength).parse stream).2 with
  | ok rest =>
    rw [hparse] at h
    cases h
  | error refusal =>
    rw [hparse] at h
    rw [Cutter.parse_append_of_error later hparse]
    exact h

/-- What completes an incomplete frame, or has its length refused, ends past what was there. -/
theorem length_lt_of_cutFrame_append {maxFrameLength : ℕ} {stream : Bytes} (later : Bytes)
    (hmore : cutFrame maxFrameLength stream = .more) :
    (∀ error, cutFrame maxFrameLength (stream ++ later) = .bad error →
      stream.length < lengthPrefixSize) ∧
    ∀ frame rest, cutFrame maxFrameLength (stream ++ later) = .item frame rest →
      stream.length < lengthPrefixSize + frame.length := by
  by_cases hshort : stream.length < lengthPrefixSize
  · exact ⟨fun _ _ => hshort, fun _ _ _ => by omega⟩
  · unfold cutFrame at hmore ⊢
    rw [List.take_append_of_le_length (by omega)]
    dsimp only at hmore ⊢
    split_ifs at hmore ⊢ with hzero hceiling hincomplete hlong hincomplete'
    all_goals simp only [Cut.item.injEq, IsEmpty.forall_iff, implies_true, true_and]
    · intro frame rest ⟨hframe, _⟩
      rw [← hframe, List.length_take, List.length_drop]
      omega

/-- A refused prefix that a stream does not have yet ends past the stream. -/
theorem length_lt_refusedPrefixEnd {maxFrameLength finish : ℕ} {stream rest later : Bytes}
    (hparse : (frames maxFrameLength stream).2 = .ok rest)
    (h : refusedPrefixEnd maxFrameLength (stream ++ later) = some finish) :
    stream.length < finish := by
  have hlength := length_frames maxFrameLength stream
  obtain ⟨hbad, hitem⟩ := length_lt_of_cutFrame_append later
    (Cutter.cut_of_parse_ok hparse)
  unfold refusedPrefixEnd at h
  rw [frames, Cutter.parse_append_of_ok later hparse, ← frames] at h
  cases hcut : cutFrame maxFrameLength (rest ++ later) with
  | more =>
    rw [Cutter.parse_more hcut] at h
    cases h
  | bad error =>
    have hrest := hbad error hcut
    rw [Cutter.parse_bad hcut] at h
    simp only [hparse, List.append_nil, Option.some.injEq] at h hlength
    omega
  | item frame rest' =>
    have hrest := hitem frame rest' hcut
    rw [Cutter.parse_item hcut] at h
    dsimp only at h
    split at h
    · cases h
    · simp only [hparse, List.map_append, List.map_cons, List.sum_append, List.sum_cons,
        Option.some.injEq] at h hlength
      omega

/-! ## The splitter parses the stream -/

namespace FrameSplitter

/-- The bytes the splitter has not parsed. -/
def unparsed (splitter : FrameSplitter) : Bytes := splitter.buf.drop splitter.start

/-- Bytes not parsed are counted by `buffered`. -/
@[simp] theorem length_unparsed (splitter : FrameSplitter) :
    splitter.unparsed.length = splitter.buffered := List.length_drop

/-- Reclaiming drops parsed bytes only. -/
theorem unparsed_reclaim {splitter reclaimed : FrameSplitter} {held : Bool}
    (h : splitter.reclaim held = some reclaimed) :
    reclaimed.unparsed = splitter.unparsed ∧
      reclaimed.maxFrameLength = splitter.maxFrameLength := by
  unfold reclaim at h
  split_ifs at h
  all_goals
    obtain rfl := Option.some.inj h
    simp [unparsed]

/-- Appending in place adds to the end of what is not parsed. -/
theorem unparsed_extend {splitter extended : FrameSplitter} {data : Bytes} {held : Bool}
    (h : splitter.extend data held = some extended) :
    extended.unparsed = splitter.unparsed ++ data ∧
      extended.maxFrameLength = splitter.maxFrameLength := by
  unfold extend at h
  split_ifs at h
  obtain rfl := Option.some.inj h
  simp [unparsed, List.drop_append_of_le_length splitter.start_le]

/-- However the bytes are taken in, they are added to the end of what is not parsed. -/
theorem unparsed_absorb (splitter : FrameSplitter) (chunk : Chunk) :
    (splitter.absorb chunk).unparsed = splitter.unparsed ++ chunk.data ∧
      (splitter.absorb chunk).maxFrameLength = splitter.maxFrameLength := by
  unfold absorb
  split
  · next extended hextended =>
    obtain ⟨reclaimed, hreclaim, hextend⟩ := Option.bind_eq_some_iff.mp hextended
    obtain ⟨hunparsed, hmax⟩ := unparsed_reclaim hreclaim
    obtain ⟨hunparsed', hmax'⟩ := unparsed_extend hextend
    exact ⟨by rw [hunparsed', hunparsed], by rw [hmax', hmax]⟩
  · simp [unparsed]

/-- The splitter has this ceiling and these bytes are what it has not parsed. -/
structure Holds (splitter : FrameSplitter) (maxFrameLength : ℕ) (stream : Bytes) : Prop where
  maxFrameLength_eq : splitter.maxFrameLength = maxFrameLength
  unparsed_eq : splitter.unparsed = stream

/-- Pulling a frame is cutting it off what is not parsed. -/
theorem Holds.nextFrame {splitter : FrameSplitter} {maxFrameLength : ℕ} {stream : Bytes}
    (h : splitter.Holds maxFrameLength stream) :
    match (frameCutter maxFrameLength).cut stream with
    | .more => splitter.nextFrame = .ok none
    | .bad error => splitter.nextFrame = .error error
    | .item frame rest =>
      ∃ after, splitter.nextFrame = .ok (some (frame, after)) ∧
        after.Holds maxFrameLength rest := by
  obtain ⟨rfl, rfl⟩ := h
  unfold frameCutter cutFrame FrameSplitter.nextFrame unparsed
  simp only [List.length_drop, List.drop_drop]
  split_ifs with hshort hzero hceiling hincomplete
  · rfl
  · rfl
  · rfl
  · rfl
  · exact ⟨_, rfl, rfl, by simp [unparsed, Nat.add_assoc]⟩

/-- Pulling frames ends when none is complete. -/
theorem nextFrames_none {splitter : FrameSplitter} (h : splitter.nextFrame = .ok none) :
    splitter.nextFrames = (.ok [], splitter) := by
  rw [nextFrames]
  split <;> simp_all

/-- Pulling frames ends when one is refused. -/
theorem nextFrames_error {splitter : FrameSplitter} {error : ProtocolError}
    (h : splitter.nextFrame = .error error) : splitter.nextFrames = (.error error, splitter) := by
  rw [nextFrames]
  split <;> simp_all

/-- Pulling frames goes on after a complete one. -/
theorem nextFrames_some {splitter after : FrameSplitter} {frame : Bytes}
    (h : splitter.nextFrame = .ok (some (frame, after))) :
    splitter.nextFrames = ((frame :: ·) <$> after.nextFrames.1, after.nextFrames.2) := by
  rw [nextFrames]
  split <;> simp_all

/-- Pulling frames until there is none parses what was not parsed. -/
theorem Holds.nextFrames {splitter : FrameSplitter} {maxFrameLength : ℕ} {stream : Bytes}
    (h : splitter.Holds maxFrameLength stream) :
    match (frames maxFrameLength stream).2 with
    | .ok rest =>
      splitter.nextFrames.1 = .ok (frames maxFrameLength stream).1 ∧
        splitter.nextFrames.2.Holds maxFrameLength rest
    | .error (error, rest) =>
      splitter.nextFrames.1 = .error error ∧ splitter.nextFrames.2.Holds maxFrameLength rest := by
  unfold frames
  induction stream using (frameCutter maxFrameLength).parse_induction generalizing splitter with
  | more stream hcut =>
    have hnext := h.nextFrame
    rw [hcut] at hnext
    rw [Cutter.parse_more hcut, nextFrames_none hnext]
    exact ⟨rfl, h⟩
  | bad stream error hcut =>
    have hnext := h.nextFrame
    rw [hcut] at hnext
    rw [Cutter.parse_bad hcut, nextFrames_error hnext]
    exact ⟨rfl, h⟩
  | item stream frame rest hcut ih =>
    have hnext := h.nextFrame
    rw [hcut] at hnext
    obtain ⟨after, hnext, hafter⟩ := hnext
    have hrest := ih hafter
    rw [Cutter.parse_item hcut, nextFrames_some hnext]
    dsimp only
    split
    · next last hparse =>
      rw [hparse] at hrest
      exact ⟨by rw [hrest.1]; rfl, hrest.2⟩
    · next error last hparse =>
      rw [hparse] at hrest
      exact ⟨by rw [hrest.1]; rfl, hrest.2⟩

/-- Feeding a chunk parses what was not parsed with the chunk after it. -/
theorem Holds.feed {splitter : FrameSplitter} {maxFrameLength : ℕ} {stream : Bytes}
    (h : splitter.Holds maxFrameLength stream) (chunk : Chunk) :
    match (frames maxFrameLength (stream ++ chunk.data)).2 with
    | .ok rest =>
      (splitter.feed chunk).1 = .ok (frames maxFrameLength (stream ++ chunk.data)).1 ∧
        (splitter.feed chunk).2.Holds maxFrameLength rest
    | .error (error, rest) =>
      (splitter.feed chunk).1 = .error error ∧
        (splitter.feed chunk).2.Holds maxFrameLength rest := by
  obtain ⟨hunparsed, hmax⟩ := splitter.unparsed_absorb chunk
  have habsorb : (splitter.absorb chunk).Holds maxFrameLength (stream ++ chunk.data) :=
    ⟨hmax.trans h.maxFrameLength_eq, by rw [hunparsed, h.unparsed_eq]⟩
  exact habsorb.nextFrames

/-! ## Whole streams -/

/-- The bytes of one more chunk come first. -/
@[simp] theorem fed_cons (chunk : Chunk) (chunks : List Chunk) :
    fed (chunk :: chunks) = chunk.data ++ fed chunks := rfl

/-- A splitter that was fed nothing holds nothing. -/
theorem empty_holds (maxFrameLength : ℕ) (h : 1 ≤ maxFrameLength) :
    (empty maxFrameLength h).Holds maxFrameLength [] := ⟨rfl, rfl⟩

/-- A feed that returns frames is followed by the others. -/
theorem feedAll_cons_ok {splitter : FrameSplitter} {chunk : Chunk} {returned : List Bytes}
    (h : (splitter.feed chunk).1 = .ok returned) (chunks : List Chunk) :
    splitter.feedAll (chunk :: chunks) =
      (returned :: ((splitter.feed chunk).2.feedAll chunks).1,
        ((splitter.feed chunk).2.feedAll chunks).2) := by
  rw [feedAll]
  split <;> simp_all

/-- A refused feed is the last. -/
theorem feedAll_cons_error {splitter : FrameSplitter} {chunk : Chunk} {error : ProtocolError}
    (h : (splitter.feed chunk).1 = .error error) (chunks : List Chunk) :
    splitter.feedAll (chunk :: chunks) = ([], .error error) := by
  rw [feedAll]
  split <;> simp_all

/-- With an incomplete frame and nothing more fed there are no frames. -/
theorem frames_of_more {maxFrameLength : ℕ} {stream : Bytes}
    (h : (frameCutter maxFrameLength).cut stream = .more) :
    frames maxFrameLength (stream ++ fed []) = ([], .ok stream) := by
  simp only [fed, List.map_nil, List.flatten_nil, List.append_nil]
  exact Cutter.parse_more h

/-- Feeding a stream without a refused prefix returns its frames. -/
theorem Holds.feedAll_of_ok {splitter : FrameSplitter} {maxFrameLength : ℕ}
    {stream rest : Bytes} {chunks : List Chunk} (h : splitter.Holds maxFrameLength stream)
    (hmore : (frameCutter maxFrameLength).cut stream = .more)
    (hparse : (frames maxFrameLength (stream ++ fed chunks)).2 = .ok rest) :
    (splitter.feedAll chunks).1.flatten = (frames maxFrameLength (stream ++ fed chunks)).1 ∧
      ∃ after, (splitter.feedAll chunks).2 = .ok after ∧ after.Holds maxFrameLength rest := by
  induction chunks generalizing splitter stream with
  | nil =>
    rw [frames_of_more hmore] at hparse ⊢
    exact ⟨rfl, splitter, rfl, Except.ok.inj hparse ▸ h⟩
  | cons chunk chunks ih =>
    rw [fed_cons, ← List.append_assoc] at hparse ⊢
    have hfeed := h.feed chunk
    cases hfirst : (frames maxFrameLength (stream ++ chunk.data)).2 with
    | error refusal =>
      rw [frames, Cutter.parse_append_of_error _ hfirst] at hparse
      cases hparse
    | ok middle =>
      rw [hfirst] at hfeed
      obtain ⟨hreturned, hholds⟩ := hfeed
      have happend : frames maxFrameLength (stream ++ chunk.data ++ fed chunks) = _ :=
        Cutter.parse_append_of_ok (fed chunks) hfirst
      rw [happend] at hparse ⊢
      obtain ⟨hframes, after, hafter, hlast⟩ := ih hholds (Cutter.cut_of_parse_ok hfirst) hparse
      rw [feedAll_cons_ok hreturned]
      exact ⟨by rw [List.flatten_cons, hframes]; rfl, after, hafter, hlast⟩

/-- Feeding a stream with a refused prefix is refused at the chunk that completes the prefix. -/
theorem Holds.feedAll_of_error {splitter : FrameSplitter} {maxFrameLength : ℕ}
    {stream rest : Bytes} {error : ProtocolError} {chunks : List Chunk}
    (h : splitter.Holds maxFrameLength stream)
    (hmore : (frameCutter maxFrameLength).cut stream = .more)
    (hparse : (frames maxFrameLength (stream ++ fed chunks)).2 = .error (error, rest)) :
    ∃ before chunk after, chunks = before ++ chunk :: after ∧
      (∃ middle, (frames maxFrameLength (stream ++ fed before)).2 = .ok middle) ∧
      (∃ middle, (frames maxFrameLength (stream ++ fed before ++ chunk.data)).2 =
        .error (error, middle)) ∧
      (splitter.feedAll chunks).1.length = before.length ∧
      (splitter.feedAll chunks).1.flatten = (frames maxFrameLength (stream ++ fed before)).1 ∧
      (splitter.feedAll chunks).2 = .error error := by
  induction chunks generalizing splitter stream with
  | nil =>
    rw [frames_of_more hmore] at hparse
    cases hparse
  | cons chunk chunks ih =>
    rw [fed_cons, ← List.append_assoc] at hparse
    have hfeed := h.feed chunk
    cases hfirst : (frames maxFrameLength (stream ++ chunk.data)).2 with
    | error refusal =>
      obtain ⟨error', middle⟩ := refusal
      have happend : frames maxFrameLength (stream ++ chunk.data ++ fed chunks) = _ :=
        Cutter.parse_append_of_error (fed chunks) hfirst
      rw [happend] at hparse
      obtain ⟨rfl, -⟩ := Prod.mk.inj (Except.error.inj hparse)
      rw [hfirst] at hfeed
      refine ⟨[], chunk, chunks, rfl, ⟨stream, ?_⟩, ⟨middle, ?_⟩, ?_⟩
      · rw [frames_of_more hmore]
      · simpa [fed] using hfirst
      · rw [feedAll_cons_error hfeed.1, frames_of_more hmore]
        exact ⟨rfl, rfl, rfl⟩
    | ok middle =>
      rw [hfirst] at hfeed
      obtain ⟨hreturned, hholds⟩ := hfeed
      have happend := fun later => show frames maxFrameLength (stream ++ chunk.data ++ later) = _
        from Cutter.parse_append_of_ok later hfirst
      rw [happend] at hparse
      obtain ⟨before, refused, after, rfl, ⟨last, hlast⟩, ⟨last', hlast'⟩, hlength, hframes,
        hresult⟩ := ih hholds (Cutter.cut_of_parse_ok hfirst) hparse
      refine ⟨chunk :: before, refused, after, rfl, ⟨last, ?_⟩, ⟨last', ?_⟩, ?_⟩
      · rw [fed_cons, ← List.append_assoc, happend]
        exact hlast
      · rw [fed_cons, ← List.append_assoc, List.append_assoc _ (fed before), happend,
          ← List.append_assoc]
        exact hlast'
      · rw [feedAll_cons_ok hreturned, fed_cons, ← List.append_assoc, happend]
        exact ⟨by simp [hlength], by rw [List.flatten_cons, hframes]; rfl, hresult⟩

/-- What is left of a stream without a refused prefix is shorter than the longest frame. -/
theorem Holds.buffered_lt {splitter : FrameSplitter} {maxFrameLength : ℕ} {stream rest : Bytes}
    (h : splitter.Holds maxFrameLength rest)
    (hparse : (frames maxFrameLength stream).2 = .ok rest) :
    splitter.buffered < lengthPrefixSize + maxFrameLength := by
  rw [← length_unparsed, h.unparsed_eq]
  exact length_lt_of_cutFrame_more (Cutter.cut_of_parse_ok hparse)

/-- Frame splitting does not depend on how the stream was cut, nor on which frames are held: the
frames returned are those of one parse of the stream, a refusal comes from the feed that
completes the first refused length prefix, and less than one frame is left over before it. -/
theorem feedAll_eq_frames (maxFrameLength : ℕ) (h : 1 ≤ maxFrameLength) (chunks : List Chunk) :
    (match refusedPrefixEnd maxFrameLength (fed chunks) with
      | none =>
        ((empty maxFrameLength h).feedAll chunks).1.flatten =
            (frames maxFrameLength (fed chunks)).1 ∧
          ∃ splitter, ((empty maxFrameLength h).feedAll chunks).2 = .ok splitter
      | some finish =>
        ∃ before chunk after error, chunks = before ++ chunk :: after ∧
          (fed before).length < finish ∧ finish ≤ (fed before ++ chunk.data).length ∧
          ((empty maxFrameLength h).feedAll chunks).1.length = before.length ∧
          ((empty maxFrameLength h).feedAll chunks).1.flatten =
            (frames maxFrameLength (fed before)).1 ∧
          ((empty maxFrameLength h).feedAll chunks).2 = .error error) ∧
    ∀ before splitter, before <+: chunks →
      ((empty maxFrameLength h).feedAll before).2 = .ok splitter →
      splitter.buffered < lengthPrefixSize + maxFrameLength := by
  have hempty := empty_holds maxFrameLength h
  have hmore : (frameCutter maxFrameLength).cut [] = .more := rfl
  refine ⟨?_, fun before splitter _ hok => ?_⟩
  · cases hparse : (frames maxFrameLength (fed chunks)).2 with
    | ok rest =>
      have hnone : refusedPrefixEnd maxFrameLength (fed chunks) = none := by
        simp [refusedPrefixEnd, hparse]
      obtain ⟨hframes, splitter, hok, -⟩ := hempty.feedAll_of_ok hmore hparse
      rw [hnone]
      exact ⟨hframes, splitter, hok⟩
    | error refusal =>
      obtain ⟨error, rest⟩ := refusal
      obtain ⟨before, chunk, after, rfl, ⟨middle, hbefore⟩, ⟨last, hchunk⟩, hlength, hframes,
        hresult⟩ := hempty.feedAll_of_error hmore hparse
      rw [List.nil_append] at hbefore hchunk hframes
      obtain ⟨finish, hfinish⟩ : ∃ finish,
          refusedPrefixEnd maxFrameLength (fed before ++ chunk.data) = some finish := by
        simp [refusedPrefixEnd, hchunk]
      have hwhole : refusedPrefixEnd maxFrameLength (fed (before ++ chunk :: after)) =
          some finish := by
        have hfed : fed (before ++ chunk :: after) = fed before ++ chunk.data ++ fed after := by
          simp [fed]
        rw [hfed]
        exact refusedPrefixEnd_append _ hfinish
      rw [hwhole]
      exact ⟨before, chunk, after, error, rfl, length_lt_refusedPrefixEnd hbefore hfinish,
        refusedPrefixEnd_le hfinish, hlength, hframes, hresult⟩
  · cases hparse : (frames maxFrameLength (fed before)).2 with
    | ok rest =>
      obtain ⟨-, splitter', hok', hholds⟩ := hempty.feedAll_of_ok hmore hparse
      rw [hok] at hok'
      obtain rfl := Except.ok.inj hok'
      exact hholds.buffered_lt hparse
    | error refusal =>
      obtain ⟨before', chunk, after, -, -, -, -, -, hresult⟩ :=
        hempty.feedAll_of_error hmore hparse
      rw [hok] at hresult
      cases hresult

/-- A frame cut inside its length prefix and inside its body, the first pieces held. -/
def sampleChunks : List Chunk := [⟨[0, 0, 0], false⟩, ⟨[2, 7], true⟩, ⟨[8], true⟩]

/-- The pieces of one frame give that frame. -/
theorem feedAll_eq_frames_sampleChunks :
    ((empty 4 (by decide)).feedAll sampleChunks).1.flatten = [[7, 8]] ∧
      ∃ splitter, ((empty 4 (by decide)).feedAll sampleChunks).2 = .ok splitter := by
  have hparse : frames 4 (fed sampleChunks) = ([[7, 8]], .ok []) := by
    have hitem : (frameCutter 4).cut (fed sampleChunks) = .item [7, 8] [] := by
      simp [frameCutter, cutFrame, fed, sampleChunks, lengthPrefixSize, fromBigEndian]
    have hmore : (frameCutter 4).cut [] = .more := rfl
    rw [frames, Cutter.parse_item hitem, Cutter.parse_more hmore]
  have hfeed := (feedAll_eq_frames 4 (by decide) sampleChunks).1
  rw [refusedPrefixEnd, hparse] at hfeed
  exact hfeed

end FrameSplitter

end GantrySftp
