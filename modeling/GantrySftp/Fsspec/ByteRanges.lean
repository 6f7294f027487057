import GantrySftp.Session.FileRefinement

/-!
# Byte ranges of a remote file

The fsspec adapter reads a range that is given like the bounds of a Python slice: each bound may be
left out, or be measured back from the end. The bounds are resolved against the size that the
server reports, and what they enclose is read through a handle. What comes back is the slice of the
content, unless the range is one that no buffer has room for or that READs cannot name.
-/

namespace GantrySftp.Fsspec

open Library Program

/-! ## Slices -/

/-- The index that a bound of a Python slice stands for. -/
def sliceIndex (length : ℕ) (bound : ℤ) : ℕ :=
  if bound < 0 then (bound + length).toNat else min bound.toNat length

/-- A Python slice of a list. -/
def pythonSlice {α : Type} (content : List α) (start stop : Option ℤ) : List α :=
  (content.take (stop.elim content.length (sliceIndex content.length))).drop
    (start.elim 0 (sliceIndex content.length))

/-! ## Bounds -/

/-- Whether either bound is negative, and so is measured from the end of the file. -/
def measuresBack (start stop : Option ℤ) : Bool :=
  start.any (· < 0) || stop.any (· < 0)

/-- One slice bound as an absolute offset, clamped to the start of the file. -/
def absolute (bound : ℤ) (size : Option ℤ) : ℤ :=
  if 0 ≤ bound then bound else max 0 (size.getD 0 + bound)

/-- Length to ask for when the server would not say how big a file is. -/
def unbounded : ℤ := 2 ^ 40

/-- The absolute offset that bounds begin at, and the length from there. -/
def bounds (size : Option ℤ) (start stop : Option ℤ) : ℤ × ℤ :=
  let first := start.elim 0 (absolute · size)
  let last := match stop with
    | some stop => absolute stop size
    | none => size.getD (first + unbounded)
  (first, max 0 (last - first))

/-- Turn a range that is given like a slice into an absolute offset and a length. -/
def range (attrs : Attrs) (start stop : Option ℤ) : Except Failure (ℤ × ℤ) :=
  if attrs.size = none ∧ measuresBack start stop then
    .error (.capabilityError "a negative byte range" [])
  else .ok (bounds attrs.size start stop)

/-! ## Reading -/

/-- What the adapter raises: the errors that callers of fsspec catch, or an error of the library. -/
inductive AdapterFailure
  | fileNotFoundError (path : Bytes)
  | permissionError (path : Bytes)
  | raised (failure : FileFailure)
  deriving DecidableEq

/-- An error of the library as the one that callers of fsspec catch. -/
def translated (path : Bytes) : FileFailure → AdapterFailure
  | .raised (.serverError .noSuchFile _ _) => .fileNotFoundError path
  | .raised (.serverError .permissionDenied _ _) => .permissionError path
  | failure => .raised failure

/-- A program whose errors are translated. -/
def translating {σ α : Type} (path : Bytes) (program : Program σ FileFailure α) :
    Program σ AdapterFailure α :=
  .of fun state => ((program.exec state).1.mapError (translated path), (program.exec state).2)

section CatFile

variable (pipeline : Pipeline) (answers : Answers)

/-- Read a byte range, with what comes back for the OPEN and the CLOSE. -/
def catFile (path : Bytes) (opened : Except Failure Bytes) (closed : Except Failure Unit)
    (start stop : Option ℤ) : Program Remote AdapterFailure Bytes :=
  translating path do
    let handle ← .of fun remote => (opened.mapError .raised, remote)
    ensuring (do
      let attrs ← RemoteFile.fstat answers
      let (first, length) ← .of fun remote => ((range attrs start stop).mapError .raised, remote)
      if length ≤ 0 then pure []
      else RemoteFile.readAt pipeline answers handle first.toNat length)
      (.of fun remote => (closed.mapError .raised, remote))

end CatFile

/-- What a file is opened for. -/
inductive FileMode
  | rb
  | wb
  | ab
  | xb
  deriving DecidableEq

/-- A file object: its path and mode, its handle once it has one, and how much it wrote. -/
structure FileObject where
  path : Bytes
  mode : FileMode
  handle : Option Bytes
  written : ℕ

/-- A file object, and what its path holds on the server. -/
structure Stored where
  file : FileObject
  remote : Option Bytes

/-- Programs on a file object. -/
abbrev OnStored := Program Stored AdapterFailure

/-- What a session does with the handle of a file object. -/
def onContent {α : Type} (program : OnRemote α) : OnStored α := .of fun state =>
  let done := program.exec ⟨.unopened, state.remote.getD []⟩
  (done.1.mapError (translated state.file.path),
    { state with remote := state.remote.map fun _ => done.2.content })

/-- The read handle, opened once and kept. -/
def readHandle (opened : Except Failure Bytes) : OnStored Bytes := .of fun state =>
  match state.file.handle with
  | some handle => (.ok handle, state)
  | none =>
    match opened with
    | .ok handle => (.ok handle, { state with file := { state.file with handle := some handle } })
    | .error failure => (.error (translated state.file.path (.raised failure)), state)

/-- Read from an offset up to another. -/
def fetchRange (pipeline : Pipeline) (answers : Answers) (opened : Except Failure Bytes)
    (start stop : ℕ) : OnStored Bytes :=
  if stop ≤ start then pure []
  else do
    let handle ← readHandle opened
    onContent (RemoteFile.readAt pipeline answers handle start ((stop : ℤ) - start))

/-! ## The range that bounds enclose -/

/-- A bound resolved is an offset. -/
theorem absolute_nonneg (bound : ℤ) (size : Option ℤ) : 0 ≤ absolute bound size := by
  unfold absolute
  split_ifs with hbound
  · exact hbound
  · exact le_max_left _ _

/-- The index of a bound is the bound resolved, within the content. -/
theorem sliceIndex_eq (length : ℕ) (bound : ℤ) :
    sliceIndex length bound = min (absolute bound (some (length : ℤ))).toNat length := by
  unfold sliceIndex absolute
  rw [Option.getD_some]
  split_ifs <;> omega

/-- What lies between two indices is what a length encloses that reaches from the one to the
other, whichever way they are cut to the content. -/
theorem drop_take_eq {α : Type} (content : List α) (first last : ℕ) :
    (content.take (min last content.length)).drop (min first content.length) =
      (content.drop first).take (last - first) := by
  apply List.ext_getElem?
  intro i
  rw [List.getElem?_drop, List.getElem?_take, List.getElem?_take, List.getElem?_drop]
  by_cases hinside : first + i < content.length
  · rw [min_eq_left (by omega)]
    congr 1
    rw [lt_min_iff, eq_iff_iff]
    omega
  · rw [List.getElem?_eq_none (by omega), ite_self]
    split_ifs
    · rw [List.getElem?_eq_none (by omega)]
    · rfl

/-- The bounds of a content of a length, which a bound that is left out is the start or the end
of. -/
theorem bounds_some (length : ℕ) (start stop : Option ℤ) :
    bounds (some (length : ℤ)) start stop = (start.elim 0 (absolute · (some (length : ℤ))),
      max 0 (stop.elim (length : ℤ) (absolute · (some (length : ℤ))) -
        start.elim 0 (absolute · (some (length : ℤ))))) := by
  cases stop <;> rfl

/-- The bounds enclose what the slice has. -/
theorem pythonSlice_eq {α : Type} (content : List α) (start stop : Option ℤ) :
    pythonSlice content start stop =
      (content.drop (bounds (some (content.length : ℤ)) start stop).1.toNat).take
        (bounds (some (content.length : ℤ)) start stop).2.toNat := by
  have hfirst : start.elim 0 (sliceIndex content.length) =
      min (start.elim 0 (absolute · (some (content.length : ℤ)))).toNat content.length := by
    cases start with
    | none => exact (Nat.zero_min _).symm
    | some start => exact sliceIndex_eq _ _
  have hlast : stop.elim content.length (sliceIndex content.length) =
      min (stop.elim (content.length : ℤ) (absolute · (some (content.length : ℤ)))).toNat
        content.length := by
    cases stop with
    | none => exact (min_self _).symm
    | some stop => exact sliceIndex_eq _ _
  have hnonneg : 0 ≤ start.elim 0 (absolute · (some (content.length : ℤ))) := by
    cases start with
    | none => exact le_rfl
    | some start => exact absolute_nonneg _ _
  rw [bounds_some, pythonSlice, hfirst, hlast, drop_take_eq]
  congr 1
  dsimp only
  omega

/-! ## Sessions and servers -/

/-- A server that holds a content answers for one range of it: an FSTAT with the size, and every
READ from what it holds, however short and in whatever order, with one DATA at most that comes
without a byte. -/
structure RangeAnswered (pipeline : Pipeline) (handle content : Bytes) (first : ℕ) (length : ℤ)
    (answers : Answers) : Prop where
  attrs : ∃ attrs, answers.attrs = .ok attrs ∧ attrs.size = some (content.length : ℤ)
  reads : bufferOf length ≠ [] → RangeServed content (bufferOf length) first
    (pipeline.reading handle) answers.replies
  empties : answers.replies.countP isEmptyReply ≤ 1

/-- A length that is read in full by every session: it is so short that no window has more READs
for it than there are request ids, and it ends where offsets do. -/
def Fits (first : ℕ) (length : ℤ) : Prop :=
  length ≤ 0 ∨ length < 256 ^ 4 ∧ first + length.toNat ≤ 256 ^ 8

instance (first : ℕ) (length : ℤ) : Decidable (Fits first length) :=
  inferInstanceAs (Decidable (_ ∨ _))

/-- Reading a range gives what the content has of it. -/
def ReadsExactly (pipeline : Pipeline) (handle content : Bytes) (first : ℕ) (length : ℤ) : Prop :=
  ∀ answers remote, remote.content = content →
    RangeAnswered pipeline handle content first length answers →
      (RemoteFile.readAt pipeline answers handle first length).exec remote =
        (.ok ((content.drop first).take length.toNat), remote)

variable {handle content : Bytes} {first : ℕ} {length : ℤ}

/-- With a window narrower than there are request ids, every buffer that ends where offsets do is
read exactly; and so is a short one with any window. -/
theorem readsExactly {pipeline : Pipeline} (hdepth : 1 ≤ pipeline.depth) (hlow : 0 ≤ length)
    (hids : pipeline.depth < 256 ^ 4 ∨ length < 256 ^ 4)
    (hhigh : length < RemoteFile.maxBufferLength)
    (hfits : first + length.toNat ≤ 256 ^ 8) :
    ReadsExactly pipeline handle content first length := by
  rintro answers remote rfl hanswered
  exact RemoteFile.exec_readAt hdepth hids hlow hhigh hfits hanswered.reads hanswered.empties

/-- A session of one byte READs, with a window as wide as a range is long. -/
def bytewise (length : ℤ) : Pipeline :=
  ⟨{ ServerLimits.unknown with maxReadLength := some 1 }, length.toNat⟩

/-- A read that does not fit is not exact with one byte READs and a window as wide as the range. -/
theorem not_readsExactly (handle content : Bytes) (h : ¬ Fits first length) :
    ¬ ReadsExactly (bytewise length) handle content first length := by
  intro hexact
  obtain ⟨hpos, hbeyond⟩ := not_or.mp h
  have hrequest : ((bytewise length).reading handle).requestLength = 1 := by
    simp only [Pipeline.reading, Pipeline.sizesFor, negotiateTransferSizes, bytewise,
      negotiatedLength, minimumUsefulLength]
    omega
  by_cases hhigh : RemoteFile.maxBufferLength ≤ length
  · have hread := hexact (quiet content.length) (.opened handle content) rfl
      ⟨⟨_, rfl, rfl⟩, fun hsome => absurd (if_neg (not_lt.mpr hhigh)) hsome, Nat.zero_le _⟩
    unfold RemoteFile.readAt at hread
    rw [if_neg (by omega), if_neg (by omega), if_pos hhigh] at hread
    cases (Prod.mk.inj hread).1
  · have hlength := length_bufferOf (not_le.mp hhigh)
    obtain ⟨failed, failure, hfill⟩ : ∃ failed failure,
        (Downloader.init (rangeSpan (bufferOf length) first) ((bytewise length).reading handle)
          (BufferSink.mk first (bufferOf length))).fillWindow = (failed, some failure) := by
      have hstop : (rangeSpan (bufferOf length) first).stop = some (first + length.toNat) := by
        rw [← hlength]
        rfl
      refine fill_refused ((bytewise length).reading handle).depth rfl rfl hstop hrequest
        (Nat.zero_add _) (Nat.le_refl (first + length.toNat)) (Nat.pow_pos (by decide)) ?_
      simp only [Downloader.init, rangeSpan, List.length_nil]
      omega
    have hsome : bufferOf length ≠ [] := by
      intro hnil
      rw [hnil, List.length_nil] at hlength
      omega
    obtain ⟨replies, hmany, hempties⟩ : ∃ replies : List (ℕ × Reply),
        (content.length + 2) * (length.toNat + 1) ≤ replies.length ∧
          replies.countP isEmptyReply ≤ 1 :=
      ⟨List.replicate ((content.length + 2) * (length.toNat + 1)) (0, .status .eof []),
        List.length_replicate.ge, by simp [List.countP_replicate, isEmptyReply]⟩
    have henough : ((rangeSpan (bufferOf length) first).limit content - first + 2) *
        (((bytewise length).reading handle).depth + 1) ≤ replies.length := by
      refine le_trans (Nat.mul_le_mul_right _ ?_) hmany
      have hlimit : (rangeSpan (bufferOf length) first).limit content ≤ content.length :=
        min_le_left _ _
      omega
    have hdone : readRangeInto (bufferOf length) first ((bytewise length).reading handle)
        (replying content.length replies).replies (replying content.length replies).ending =
          (failed, .error failure) := by
      have hdepth : ((bytewise length).reading handle).depth = length.toNat := rfl
      unfold readRangeInto
      rw [if_neg (by omega), if_neg (by omega), if_neg hsome]
      exact Downloader.run_of_refused hfill
    have hread := hexact (replying content.length replies) (.opened handle content) rfl
      ⟨⟨_, rfl, rfl⟩, fun _ => ⟨servedFrom_of_refused hfill _, henough⟩, hempties⟩
    rw [readAt_of_raised (by omega) (not_le.mp hhigh) hdone] at hread
    cases (Prod.mk.inj hread).1

/-- Reading nothing is exact. -/
theorem readsExactly_zero (pipeline : Pipeline) (handle content : Bytes) (first : ℕ) :
    ReadsExactly pipeline handle content first 0 :=
  fun _ _ _ _ => rfl

/-- Reads are exact in every session exactly where they fit. -/
theorem readsExactly_iff (hlow : 0 ≤ length) :
    (∀ pipeline handle, 1 ≤ pipeline.depth →
      ReadsExactly pipeline handle content first length) ↔ Fits first length := by
  constructor
  · intro hexact
    by_contra hfits
    refine not_readsExactly [] content hfits (hexact (bytewise length) [] ?_)
    have hpos := (not_or.mp hfits).1
    change 1 ≤ length.toNat
    omega
  · intro hfits pipeline handle hdepth
    obtain hnone | ⟨hshort, hend⟩ := hfits
    · obtain rfl : length = 0 := by omega
      exact readsExactly_zero _ _ _ _
    · apply readsExactly hdepth hlow (Or.inr hshort)
      · unfold RemoteFile.maxBufferLength
        omega
      · exact hend

/-! ## The slice law -/

/-- Reading a file by the bounds of a slice returns the slice of its content. -/
def CatsSlice (pipeline : Pipeline) (handle content : Bytes) (start stop : Option ℤ) : Prop :=
  ∀ path answers remote, remote.content = content →
    RangeAnswered pipeline handle content (bounds (some (content.length : ℤ)) start stop).1.toNat
      (bounds (some (content.length : ℤ)) start stop).2 answers →
    (catFile pipeline answers path (.ok handle) (.ok ()) start stop).exec remote =
      (.ok (pythonSlice content start stop), remote)

/-- Fetching a range through a file object returns the slice of the content. -/
def FetchesSlice (pipeline : Pipeline) (handle content : Bytes) (start stop : ℕ) : Prop :=
  ∀ state opened answers, state.remote = some content →
    state.file.handle = some handle ∨ state.file.handle = none ∧ opened = .ok handle →
      RangeAnswered pipeline handle content start ((stop : ℤ) - start) answers →
        ((fetchRange pipeline answers opened start stop).exec state).1 =
          .ok (pythonSlice content (some start) (some stop))

/-- Bounds enclose a length. -/
theorem bounds_nonneg (size start stop : Option ℤ) : 0 ≤ (bounds size start stop).2 :=
  le_max_left _ _

/-- Reading by bounds reads what they enclose. -/
theorem exec_catFile {pipeline : Pipeline} {answers : Answers} {attrs : Attrs} {remote : Remote}
    (hattrs : answers.attrs = .ok attrs) (hsize : attrs.size = some (content.length : ℤ))
    (path : Bytes) (start stop : Option ℤ) :
    (catFile pipeline answers path (.ok handle) (.ok ()) start stop).exec remote =
      (translating path (RemoteFile.readAt pipeline answers handle
        (bounds (some (content.length : ℤ)) start stop).1.toNat
        (bounds (some (content.length : ℤ)) start stop).2)).exec remote := by
  have hrange : range attrs start stop = .ok (bounds (some (content.length : ℤ)) start stop) := by
    unfold range
    rw [hsize, if_neg (fun h => by cases h.1)]
  have hnonneg := bounds_nonneg (some (content.length : ℤ)) start stop
  unfold catFile translating
  rw [exec_of, exec_of]
  simp only [exec_bind, exec_of, exec_ensuring, RemoteFile.exec_fstat hattrs, hrange,
    Except.mapError]
  by_cases hzero : (bounds (some (content.length : ℤ)) start stop).2 ≤ 0
  · rw [if_pos hzero, le_antisymm hzero hnonneg]
    rfl
  · rw [if_neg hzero]

/-- Reading by bounds gives the slice exactly where the read that they enclose is exact. -/
theorem catsSlice_of_readsExactly {pipeline : Pipeline} {start stop : Option ℤ}
    (h : ReadsExactly pipeline handle content
      (bounds (some (content.length : ℤ)) start stop).1.toNat
      (bounds (some (content.length : ℤ)) start stop).2) :
    CatsSlice pipeline handle content start stop := by
  rintro path answers remote hremote hanswered
  obtain ⟨attrs, hattrs, hsize⟩ := hanswered.attrs
  rw [exec_catFile hattrs hsize, pythonSlice_eq, translating, exec_of,
    h answers remote hremote hanswered]
  rfl

/-- Where reading by bounds gives the slice, the read that they enclose is exact. -/
theorem CatsSlice.readsExactly {pipeline : Pipeline} {start stop : Option ℤ}
    (h : CatsSlice pipeline handle content start stop) :
    ReadsExactly pipeline handle content
      (bounds (some (content.length : ℤ)) start stop).1.toNat
      (bounds (some (content.length : ℤ)) start stop).2 := by
  intro answers remote hremote hanswered
  obtain ⟨attrs, hattrs, hsize⟩ := hanswered.attrs
  have hread := h [] answers remote hremote hanswered
  rw [exec_catFile hattrs hsize, pythonSlice_eq, translating, exec_of] at hread
  generalize (RemoteFile.readAt pipeline answers handle _ _).exec remote = done at hread ⊢
  obtain ⟨failure | value, state⟩ := done
  · cases (Prod.mk.inj hread).1
  · obtain ⟨hvalue, rfl⟩ := Prod.mk.inj hread
    rw [Except.ok.inj hvalue]

/-- Offsets that are given absolutely enclose what lies between them. -/
theorem bounds_offsets (length start stop : ℕ) :
    bounds (some (length : ℤ)) (some (start : ℤ)) (some (stop : ℤ)) =
      ((start : ℤ), max 0 ((stop : ℤ) - start)) := by
  unfold bounds absolute
  simp

/-- The slice between two offsets is what lies between them. -/
theorem pythonSlice_offsets {α : Type} (content : List α) (start stop : ℕ) :
    pythonSlice content (some (start : ℤ)) (some (stop : ℤ)) =
      (content.drop start).take (stop - start) := by
  rw [pythonSlice_eq, bounds_offsets]
  congr 1
  dsimp only
  omega

/-- Fetching a range that is not empty opens the file unless it is open, and reads the range. -/
theorem exec_fetchRange {pipeline : Pipeline} {answers : Answers} {state : Stored}
    {opened : Except Failure Bytes} {start stop : ℕ} (hsome : start < stop)
    (hcontent : state.remote = some content)
    (hopened : state.file.handle = some handle ∨
      state.file.handle = none ∧ opened = .ok handle) :
    ((fetchRange pipeline answers opened start stop).exec state).1 =
      ((RemoteFile.readAt pipeline answers handle start ((stop : ℤ) - start)).exec
        ⟨.unopened, content⟩).1.mapError (translated state.file.path) := by
  have hhandle : (readHandle opened).exec state =
      (.ok handle, { state with file := { state.file with handle := some handle } }) := by
    unfold readHandle
    rw [exec_of]
    obtain hopen | ⟨hclosed, rfl⟩ := hopened
    · rw [hopen]
      dsimp only
      rw [← hopen]
    · rw [hclosed]
  unfold fetchRange
  rw [if_neg (by omega), exec_bind, hhandle]
  dsimp only [onContent, exec_of]
  rw [hcontent, Option.getD_some]

/-- What a read returns depends on what comes back alone, and it changes nothing. -/
theorem exec_readAt_eq (pipeline : Pipeline) (answers : Answers) (handle : Bytes) (offset : ℕ)
    (length : ℤ) (remote other : Remote) :
    (RemoteFile.readAt pipeline answers handle offset length).exec remote =
      (((RemoteFile.readAt pipeline answers handle offset length).exec other).1, remote) := by
  unfold RemoteFile.readAt
  split_ifs
  · rfl
  · rfl
  · rfl
  · simp only [exec_bind, RemoteFile.readintoAt, exec_of]
    generalize (readRangeInto _ _ _ _ _).2 = outcome
    cases outcome <;> rfl

/-- A fetch gives the slice exactly where its read is exact. -/
theorem fetchesSlice_iff {pipeline : Pipeline} {start stop : ℕ} :
    FetchesSlice pipeline handle content start stop ↔
      stop ≤ start ∨ ReadsExactly pipeline handle content start ((stop : ℤ) - start) := by
  by_cases hnone : stop ≤ start
  · refine iff_of_true (fun state opened answers _ _ _ => ?_) (Or.inl hnone)
    rw [fetchRange, if_pos hnone, pythonSlice_offsets, Nat.sub_eq_zero_of_le hnone]
    rfl
  · have hlength : ((stop : ℤ) - start).toNat = stop - start := by omega
    rw [or_iff_right hnone]
    constructor
    · rintro h answers remote hremote hanswered
      have hfetched := h ⟨⟨[], .rb, some handle, 0⟩, some content⟩ (.ok handle) answers rfl
        (Or.inl rfl) hanswered
      rw [exec_fetchRange (not_le.mp hnone) rfl (Or.inl rfl), pythonSlice_offsets] at hfetched
      rw [exec_readAt_eq _ _ _ _ _ remote ⟨.unopened, content⟩, hlength]
      generalize ((RemoteFile.readAt pipeline answers handle start _).exec _).1 = read at hfetched ⊢
      cases read with
      | error failure => cases hfetched
      | ok value => rw [Except.ok.inj hfetched]
    · intro h state opened answers hcontent hopened hanswered
      rw [exec_fetchRange (not_le.mp hnone) hcontent hopened, h answers ⟨.unopened, content⟩ rfl
        hanswered, pythonSlice_offsets, hlength]
      rfl

/-- The slice law: whatever the size of the READs and the width of the window, and however the
server answers, a range comes back as the slice of the content exactly when it is empty, or so
short that no window has as many READs for it as there are request ids and so placed that it ends
where offsets do. With a window narrower than that, every length that a buffer can have will do. -/
theorem ranges_obey_slice_law (content : Bytes) (start stop : Option ℤ) (first last : ℕ) :
    ((∀ pipeline handle, 1 ≤ pipeline.depth → CatsSlice pipeline handle content start stop) ↔
        Fits (bounds (some (content.length : ℤ)) start stop).1.toNat
          (bounds (some (content.length : ℤ)) start stop).2) ∧
      ((∀ pipeline handle, 1 ≤ pipeline.depth → FetchesSlice pipeline handle content first last) ↔
        Fits first ((last : ℤ) - first)) ∧
      ∀ pipeline handle, 1 ≤ pipeline.depth → pipeline.depth < 256 ^ 4 →
        ((bounds (some (content.length : ℤ)) start stop).2 < RemoteFile.maxBufferLength →
          (bounds (some (content.length : ℤ)) start stop).1.toNat +
            (bounds (some (content.length : ℤ)) start stop).2.toNat ≤ 256 ^ 8 →
          CatsSlice pipeline handle content start stop) ∧
        ((last : ℤ) - first < RemoteFile.maxBufferLength → last ≤ 256 ^ 8 →
          FetchesSlice pipeline handle content first last) := by
  refine ⟨⟨fun h => ?_, fun h pipeline handle hdepth => ?_⟩,
    ⟨fun h => ?_, fun h pipeline handle hdepth => ?_⟩, fun pipeline handle hdepth hids =>
      ⟨fun hhigh hfits => ?_, fun hhigh hfits => ?_⟩⟩
  · exact (readsExactly_iff (bounds_nonneg _ _ _)).mp fun pipeline handle hdepth =>
      (h pipeline handle hdepth).readsExactly
  · exact catsSlice_of_readsExactly
      ((readsExactly_iff (bounds_nonneg _ _ _)).mpr h pipeline handle hdepth)
  · by_cases hnone : last ≤ first
    · exact Or.inl (by omega)
    · exact (readsExactly_iff (by omega)).mp fun pipeline handle hdepth =>
        (fetchesSlice_iff.mp (h pipeline handle hdepth)).resolve_left hnone
  · by_cases hnone : last ≤ first
    · exact fetchesSlice_iff.mpr (Or.inl hnone)
    · exact fetchesSlice_iff.mpr (Or.inr ((readsExactly_iff (by omega)).mpr h pipeline handle hdepth))
  · exact catsSlice_of_readsExactly
      (readsExactly hdepth (bounds_nonneg _ _ _) (Or.inl hids) hhigh hfits)
  · by_cases hnone : last ≤ first
    · exact fetchesSlice_iff.mpr (Or.inl hnone)
    · exact fetchesSlice_iff.mpr (Or.inr (readsExactly hdepth (by omega) (Or.inl hids) hhigh
        (by omega)))

/-- The last byte of a file of three, and its bytes from the second up to a fourth. -/
theorem ranges_obey_slice_law_three :
    CatsSlice ⟨.unknown, 64⟩ [0] [7, 8, 9] (some (-1)) none ∧
      FetchesSlice ⟨.unknown, 64⟩ [0] [7, 8, 9] 1 4 := by
  obtain ⟨-, -, hnarrow⟩ := ranges_obey_slice_law [7, 8, 9] (some (-1)) none 1 4
  obtain ⟨hcat, hfetch⟩ := hnarrow ⟨.unknown, 64⟩ [0] (by decide) (by decide)
  exact ⟨hcat (by decide) (by decide), hfetch (by decide) (by decide)⟩

/-- A range that ends far behind a file of one byte is refused: no buffer is that long. -/
theorem long_range_refused :
    ¬ CatsSlice ⟨.unknown, 64⟩ [0] [7] (some 0) (some (2 ^ 63)) := by
  intro hcats
  have hread := hcats.readsExactly (quiet 1) (.opened [0] [7]) rfl
    ⟨⟨_, rfl, rfl⟩, fun hsome => absurd rfl hsome, Nat.zero_le _⟩
  cases (Prod.mk.inj hread).1

end GantrySftp.Fsspec
