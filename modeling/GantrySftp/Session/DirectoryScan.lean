import GantrySftp.Codec.Packets
import GantrySftp.Library.Program
import GantrySftp.Session.RemoteNames
import GantrySftp.Session.Server

/-!
# Scanning a directory

A directory is listed in batches, one for each READDIR, until a STATUS of EOF or a NAME without
names. A scan hands out the entries one by one, asks for the next batch when one runs out, and
closes its handle when it is left. However it is iterated, the entries handed out are those that
were listed, in their order, and nothing is asked for after the end or after the scan was left.
-/

namespace GantrySftp

open Library Program

/-! ## One READDIR -/

/-- What comes back for a READDIR. -/
inductive ReadDirAnswer
  | name (entries : List NameEntry)
  | status (code : StatusCode) (message : Bytes)
  | lost (interruption : Interruption)

/-- Read one batch of entries, or nothing at the end of the directory. -/
def readdir : ReadDirAnswer → Except Failure (Option (List NameEntry))
  | .name [] => .ok none
  | .name (entry :: entries) => .ok (some (entry :: entries))
  | .status .eof _ => .ok none
  | .status code message => .error (unexpected (.status code message) none)
  | .lost interruption => .error interruption.failure

/-- Whether an answer is that the directory has ended. -/
def ReadDirAnswer.marksEnd : ReadDirAnswer → Bool
  | .name [] => true
  | .status .eof _ => true
  | _ => false

/-- What a scan sends. -/
inductive ScanRequest
  | opendir
  | readdir (handle : Bytes) (answer : ReadDirAnswer)
  | close (handle : Bytes)

namespace ScanRequest

/-- Whether a request asks for a batch. -/
def asks : ScanRequest → Bool
  | readdir _ _ => true
  | _ => false

/-- Whether nothing may be asked for after a request: it closes the handle, or was answered with
the end of the directory. -/
def ends : ScanRequest → Bool
  | opendir => false
  | readdir _ answer => answer.marksEnd
  | close _ => true

/-- The handle that a request closes. -/
def closed? : ScanRequest → Option Bytes
  | close handle => some handle
  | _ => none

end ScanRequest

/-! ## The scan -/

/-- One resumable listing: its handle while it is open, the batch in hand and how much of it was
handed out. -/
structure DirectoryScan where
  handle : Option Bytes
  entered : Bool
  batch : List NameEntry
  index : ℕ
  exhausted : Bool

/-- A scan, the batches that the server has not sent yet and what it answers after them, and what
was sent to it. -/
structure Scanning where
  scan : DirectoryScan
  pending : List (List NameEntry)
  ending : ReadDirAnswer
  sent : List ScanRequest

/-- What a call on a scan raises. -/
inductive Halt
  | stop
  | raised (failure : Failure)

/-- Whether an entry is another than the two dot names. -/
def NameEntry.isPlain (entry : NameEntry) : Bool := entry.filename ∉ dotNames

namespace DirectoryScan

/-- The first entry to hand out of a rest of a batch, and the index behind it. -/
def nextPlain : List NameEntry → ℕ → Option NameEntry × ℕ
  | [], index => (none, index)
  | entry :: entries, index =>
    if entry.isPlain then (some entry, index + 1) else nextPlain entries (index + 1)

/-- The next entry of the batch in hand, or nothing once it is used up. -/
def nextBuffered : Program Scanning Halt (Option NameEntry) := .of fun state =>
  let next := nextPlain (state.scan.batch.drop state.scan.index) state.scan.index
  (.ok next.1, { state with scan := { state.scan with index := next.2 } })

/-- Send a READDIR, and take the answer. -/
def ask (state : Scanning) (handle : Bytes) : ReadDirAnswer × Scanning :=
  match state.pending with
  | [] => (state.ending, { state with sent := state.sent ++ [.readdir handle state.ending] })
  | batch :: pending =>
    (.name batch,
      { state with pending := pending, sent := state.sent ++ [.readdir handle (.name batch)] })

/-- Fetch the next batch. -/
def fill : Program Scanning Halt Unit := .of fun state =>
  match state.scan.handle with
  | none =>
    (.error (.raised (.stateError "this scandir() is closed; its `async with` block has ended")),
      state)
  | some handle =>
    if state.scan.exhausted then (.error .stop, state)
    else
      let asked := (ask state handle).2
      match readdir (ask state handle).1 with
      | .error failure => (.error (.raised failure), asked)
      | .ok none => (.error .stop, { asked with scan := { asked.scan with exhausted := true } })
      | .ok (some batch) =>
        (.ok (), { asked with scan := { asked.scan with batch := batch, index := 0 } })

/-- The next entry, within so many batches. -/
def anextWithin : ℕ → Program Scanning Halt NameEntry
  | 0 => throw (.raised .killed)
  | turns + 1 => do
    match ← nextBuffered with
    | some entry => pure entry
    | none => do
      fill
      anextWithin turns

/-- The next entry. -/
def anext : Program Scanning Halt NameEntry := do
  let state ← MonadState.get
  anextWithin (state.pending.length + 1)

/-- Open the directory, once. -/
def aenter (opened : Except Failure Bytes) : Program Scanning Halt Unit := .of fun state =>
  if state.scan.entered then
    (.error (.raised (.stateError "this scandir() has already been used; call scandir() again")),
      state)
  else
    let asked := { state with
      scan := { state.scan with entered := true }
      sent := state.sent ++ [.opendir] }
    match opened with
    | .error failure => (.error (.raised failure), asked)
    | .ok handle => (.ok (), { asked with scan := { asked.scan with handle := some handle } })

/-- Begin to iterate. -/
def aiter : Program Scanning Halt Unit := .of fun state =>
  match state.scan.handle with
  | none =>
    (.error (.raised (.stateError "scandir() must be entered with `async with` before iterating")),
      state)
  | some _ => (.ok (), state)

/-- What is raised for the answer to a CLOSE on the way out of a block: nothing short of a
cancellation where the block failed. -/
def closeOutcome (failed : Bool) : Except Failure Unit → Except Halt Unit
  | .ok _ => .ok ()
  | .error failure =>
    if failed && failure.isException then .ok () else .error (.raised failure)

/-- Close the handle, whichever way the block ended. -/
def aexit (failed : Bool) (closed : Except Failure Unit) : Program Scanning Halt Unit :=
  .of fun state =>
    let left := { state with scan := { state.scan with handle := none, batch := [], index := 0 } }
    match state.scan.handle with
    | none => (.ok (), left)
    | some handle => (closeOutcome failed closed, { left with sent := state.sent ++ [.close handle] })

end DirectoryScan

/-! ## Iterating -/

/-- A call on a scan, with the answer to the OPENDIR or the CLOSE that it sends. -/
inductive ScanCall
  | enter (opened : Except Failure Bytes)
  | iter
  | next
  | leave (failed : Bool) (closed : Except Failure Unit)

/-- What a call returns. -/
inductive ScanValue
  | scan
  | entry (entry : NameEntry)
  | nothing

open DirectoryScan in
/-- Make one call. -/
def ScanCall.perform : ScanCall → Program Scanning Halt ScanValue
  | enter opened => do
    aenter opened
    pure .scan
  | iter => do
    aiter
    pure .scan
  | next => do
    let entry ← anext
    pure (.entry entry)
  | leave failed closed => do
    aexit failed closed
    pure .nothing

/-- What calls one after another return or raise, and what they leave. -/
def iterate : List ScanCall → Scanning → List (Except Halt ScanValue) × Scanning
  | [], state => ([], state)
  | call :: calls, state =>
    let ended := call.perform.exec state
    let later := iterate calls ended.2
    (ended.1 :: later.1, later.2)

/-- The entry that a call handed out. -/
def yieldedBy : Except Halt ScanValue → Option NameEntry
  | .ok (.entry entry) => some entry
  | _ => none

/-- A directory as a server lists it: batches that are not empty, and an answer that is no batch. -/
structure Directory where
  batches : List (List NameEntry)
  ending : ReadDirAnswer
  nonempty : ∀ batch ∈ batches, batch ≠ []
  ends : ∀ entries, ending = .name entries → entries = []

/-- The entries of a directory other than the dot names, in the order sent. -/
def Directory.entries (directory : Directory) : List NameEntry :=
  directory.batches.flatten.filter NameEntry.isPlain

/-- A scan that was not entered yet. -/
def Directory.scanning (directory : Directory) : Scanning where
  scan := { handle := none, entered := false, batch := [], index := 0, exhausted := false }
  pending := directory.batches
  ending := directory.ending
  sent := []

/-! ## What holds throughout -/

namespace DirectoryScan

/-- The entries to come: those left of the batch in hand, and those not sent yet. -/
def upcoming (state : Scanning) : List NameEntry :=
  (state.scan.batch.drop state.scan.index ++ state.pending.flatten).filter NameEntry.isPlain

/-- No batch is asked for after the end of the directory was answered, or the handle closed. -/
def Orderly (sent : List ScanRequest) : Prop :=
  sent.Pairwise fun earlier later => later.asks = true → earlier.ends = false

/-- What holds of a scan that handed out these entries of a directory. -/
structure Kept (directory : Directory) (yields : List NameEntry) (state : Scanning) : Prop where
  ending_eq : state.ending = directory.ending
  pending : state.pending <:+ directory.batches
  yielded : yields <+: directory.entries
  fresh : state.scan.entered = false → state.scan.handle = none ∧ state.sent = [] ∧
    yields ++ upcoming state = directory.entries
  ahead : state.scan.handle ≠ none → yields ++ upcoming state = directory.entries
  idle : state.scan.handle = none → state.scan.batch = []
  done : state.scan.exhausted = true → yields = directory.entries
  marked : ∀ request ∈ state.sent, request.ends = true →
    state.scan.exhausted = true ∨ state.scan.handle = none
  ordered : Orderly state.sent

variable {directory : Directory} {yields : List NameEntry}

/-- A scan that was not entered yet. -/
theorem kept_scanning (directory : Directory) : Kept directory [] directory.scanning where
  ending_eq := rfl
  pending := List.suffix_rfl
  yielded := List.nil_prefix
  fresh := fun _ => ⟨rfl, rfl, by simp [upcoming, Directory.scanning, Directory.entries]⟩
  ahead := fun h => absurd rfl h
  idle := fun _ => rfl
  done := fun h => by cases h
  marked := fun _ hmem => by cases hmem
  ordered := List.Pairwise.nil

/-- The next entry of a rest of a batch is the first that is plain, and behind it come the others. -/
theorem nextPlain_cases (entries : List NameEntry) (index : ℕ) :
    ((nextPlain entries index).1 = none ∧ entries.filter NameEntry.isPlain = [] ∧
      (nextPlain entries index).2 = index + entries.length) ∨
    ∃ front entry back, entries = front ++ entry :: back ∧
      nextPlain entries index = (some entry, index + front.length + 1) ∧
      entries.filter NameEntry.isPlain = entry :: back.filter NameEntry.isPlain := by
  induction entries generalizing index with
  | nil => exact Or.inl ⟨rfl, rfl, rfl⟩
  | cons head entries ih =>
    by_cases hplain : head.isPlain = true
    · exact Or.inr ⟨[], head, entries, rfl, by simp [nextPlain, hplain], by simp [hplain]⟩
    · obtain ⟨hnone, hfilter, hindex⟩ | ⟨front, entry, back, rfl, hnext, hfilter⟩ := ih (index + 1)
      · refine Or.inl ⟨by simp [nextPlain, hplain, hnone], by simp [hplain, hfilter], ?_⟩
        simp only [nextPlain, hplain, Bool.false_eq_true, if_false, hindex, List.length_cons]
        omega
      · refine Or.inr ⟨head :: front, entry, back, rfl, ?_, by simp [hplain, hfilter]⟩
        simp only [nextPlain, hplain, Bool.false_eq_true, if_false, hnext, List.length_cons]
        congr 1
        omega

/-- What holds where a call of a scan raised: the end was raised only after every entry. -/
def Raised (directory : Directory) (yields : List NameEntry) (halt : Halt) (state : Scanning) :
    Prop :=
  Kept directory yields state ∧ (halt = .stop → yields = directory.entries) ∧
    halt ≠ .raised .killed

/-- Looking for an entry in the batch in hand hands one out, or uses the batch up. -/
theorem meets_nextBuffered (size : ℕ) :
    Meets (fun state => Kept directory yields state ∧ state.pending.length = size) nextBuffered
      (fun found state => state.pending.length = size ∧
        match found with
        | some entry => Kept directory (yields ++ [entry]) state
        | none => Kept directory yields state ∧ state.scan.batch.drop state.scan.index = [])
      (fun _ _ => False) := by
  refine .of fun state ⟨hkept, hsize⟩ => ⟨hsize, ?_⟩
  obtain ⟨hnone, hfilter, hindex⟩ | ⟨front, entry, back, hrest, hnext, hfilter⟩ :=
    nextPlain_cases (state.scan.batch.drop state.scan.index) state.scan.index
  · simp only [hnone, hindex]
    have hused : state.scan.batch.drop
        (state.scan.index + (state.scan.batch.drop state.scan.index).length) = [] := by
      rw [List.drop_eq_nil_iff, List.length_drop]
      omega
    have hsame : upcoming { state with scan := { state.scan with
        index := state.scan.index + (state.scan.batch.drop state.scan.index).length } } =
        upcoming state := by
      simp only [upcoming, hused, List.filter_append, hfilter, List.filter_nil]
    refine ⟨⟨hkept.ending_eq, hkept.pending, hkept.yielded, ?_, ?_, hkept.idle, hkept.done,
      hkept.marked, hkept.ordered⟩, hused⟩
    · rw [hsame]
      exact hkept.fresh
    · rw [hsame]
      exact hkept.ahead
  · simp only [hnext]
    have hbehind : state.scan.batch.drop (state.scan.index + front.length + 1) = back := by
      rw [Nat.add_assoc, ← List.drop_drop, hrest]
      simp
    have hopen : state.scan.handle ≠ none := by
      intro hclosed
      rw [hkept.idle hclosed, List.drop_nil] at hrest
      exact absurd hrest.symm (by simp)
    have hahead : yields ++ entry :: upcoming { state with scan := { state.scan with
        index := state.scan.index + front.length + 1 } } = directory.entries := by
      rw [← hkept.ahead hopen]
      simp [upcoming, hbehind, hfilter]
    refine ⟨hkept.ending_eq, hkept.pending, ⟨_, by simpa using hahead⟩, fun hentered => ?_,
      fun _ => by simpa using hahead, hkept.idle, fun hdone => ?_, hkept.marked, hkept.ordered⟩
    · exact absurd (hkept.fresh hentered).1 hopen
    · rw [hkept.done hdone] at hahead
      simp at hahead

/-- A request sent before the end of the directory was answered, and while the handle is open. -/
theorem Orderly.append {sent : List ScanRequest} (h : Orderly sent)
    (hends : ∀ earlier ∈ sent, earlier.ends = false) (request : ScanRequest) :
    Orderly (sent ++ [request]) := by
  unfold Orderly at h ⊢
  rw [List.pairwise_append]
  refine ⟨h, List.pairwise_singleton _ _, fun earlier hearlier later _ _ => hends earlier hearlier⟩

/-- Every READDIR is answered with a batch that is not empty, or with what ends the listing. -/
theorem Kept.ask_cases {state : Scanning} (h : Kept directory yields state) (handle : Bytes) :
    (∃ entry entries pending, state.pending = (entry :: entries) :: pending ∧
      ask state handle = (.name (entry :: entries),
        { state with pending := pending
                     sent := state.sent ++ [.readdir handle (.name (entry :: entries))] })) ∨
    state.pending = [] ∧ ask state handle = (directory.ending,
      { state with sent := state.sent ++ [.readdir handle directory.ending] }) := by
  unfold ask
  cases hpending : state.pending with
  | nil => exact Or.inr ⟨rfl, by rw [h.ending_eq]⟩
  | cons batch pending =>
    have hmem : batch ∈ directory.batches :=
      h.pending.subset (hpending ▸ List.mem_cons_self)
    obtain ⟨entry, entries, rfl⟩ := List.exists_cons_of_ne_nil (directory.nonempty batch hmem)
    exact Or.inl ⟨entry, entries, pending, rfl, rfl⟩

/-- What ends a listing is the end of the directory, or a refusal. -/
theorem readdir_ending (directory : Directory) :
    (readdir directory.ending = .ok none ∧ directory.ending.marksEnd = true) ∨
    ∃ failure, readdir directory.ending = .error failure ∧ failure ≠ .killed ∧
      directory.ending.marksEnd = false := by
  have hends := directory.ends
  generalize directory.ending = ending at hends ⊢
  cases ending with
  | name entries =>
    obtain rfl := hends entries rfl
    exact Or.inl ⟨rfl, rfl⟩
  | status code message =>
    by_cases hcode : code = .eof
    · subst hcode
      exact Or.inl ⟨rfl, rfl⟩
    · refine Or.inr ⟨unexpected (.status code message) none, ?_, ?_, ?_⟩
      · cases code <;> first | rfl | exact absurd rfl hcode
      · unfold unexpected raiseForStatus
        dsimp only
        split_ifs <;> exact nofun
      · cases code <;> first | rfl | exact absurd rfl hcode
  | lost interruption =>
    exact Or.inr ⟨interruption.failure, rfl, by cases interruption <;> exact nofun, rfl⟩

/-- Fetching a batch takes one from those to come, or raises what ends the listing. -/
theorem meets_fill (size : ℕ) :
    Meets (fun state => state.pending.length = size ∧ Kept directory yields state ∧
        state.scan.batch.drop state.scan.index = []) fill
      (fun _ state => state.pending.length + 1 = size ∧ Kept directory yields state)
      (Raised directory yields) := by
  refine .of fun state ⟨hsize, hkept, hused⟩ => ?_
  cases hhandle : state.scan.handle with
  | none => exact ⟨hkept, nofun, nofun⟩
  | some handle =>
    dsimp only
    have hopen : state.scan.handle ≠ none := by simp [hhandle]
    have hahead := hkept.ahead hopen
    have hentered : state.scan.entered ≠ false := fun h => hopen (hkept.fresh h).1
    cases hexhausted : state.scan.exhausted with
    | true => exact ⟨hkept, fun _ => hkept.done hexhausted, nofun⟩
    | false =>
      have hends : ∀ earlier ∈ state.sent, earlier.ends = false := by
        intro earlier hmem
        by_contra hends
        obtain hdone | hclosed := hkept.marked earlier hmem (by simpa using hends)
        · simp [hexhausted] at hdone
        · exact hopen hclosed
      obtain ⟨entry, entries, pending, hpending, hask⟩ | ⟨hpending, hask⟩ := hkept.ask_cases handle
      · rw [hask]
        have hupcoming : yields ++ (entry :: entries ++ pending.flatten).filter NameEntry.isPlain =
            directory.entries := by
          rw [← hahead, upcoming, hused, hpending]
          rfl
        refine ⟨by simpa [hpending] using hsize, hkept.ending_eq, ?_, hkept.yielded,
          fun h => absurd h hentered, fun _ => hupcoming, fun h => absurd h hopen,
          fun h => absurd h (by simp [hexhausted]), ?_, hkept.ordered.append hends _⟩
        · exact (List.suffix_cons _ _).trans (hpending ▸ hkept.pending)
        · intro request hmem hrequest
          obtain hold | hnew := List.mem_append.mp hmem
          · rw [hends request hold] at hrequest
            cases hrequest
          · rw [List.mem_singleton.mp hnew] at hrequest
            cases hrequest
      · rw [hask]
        have hall : yields = directory.entries := by
          rw [← hahead, upcoming, hused, hpending]
          simp
        have hupcoming : ∀ scan : DirectoryScan, scan.batch = state.scan.batch →
            scan.index = state.scan.index → yields ++ ((scan.batch.drop scan.index ++
              state.pending.flatten).filter NameEntry.isPlain) = directory.entries := by
          intro scan hbatch hindex
          rw [hbatch, hindex]
          exact hahead
        obtain ⟨hread, hmarks⟩ | ⟨failure, hread, hfailure, hmarks⟩ := readdir_ending directory
        · rw [hread]
          refine ⟨⟨hkept.ending_eq, hkept.pending, hkept.yielded, fun h => absurd h hentered,
            fun _ => hupcoming _ rfl rfl, fun h => absurd h hopen, fun _ => hall,
            fun _ _ _ => Or.inl rfl, hkept.ordered.append hends _⟩, fun _ => hall, nofun⟩
        · rw [hread]
          refine ⟨⟨hkept.ending_eq, hkept.pending, hkept.yielded, fun h => absurd h hentered,
            fun _ => hupcoming _ rfl rfl, fun h => absurd h hopen,
            fun h => absurd h (by simp [hexhausted]), ?_, hkept.ordered.append hends _⟩, nofun, ?_⟩
          · intro request hmem hrequest
            obtain hold | hnew := List.mem_append.mp hmem
            · rw [hends request hold] at hrequest
              cases hrequest
            · rw [List.mem_singleton.mp hnew] at hrequest
              rw [show ScanRequest.ends (.readdir handle directory.ending) =
                directory.ending.marksEnd from rfl, hmarks] at hrequest
              cases hrequest
          · intro hkilled
            exact hfailure (Halt.raised.inj hkilled)

/-- The next entry is the first of those to come, within as many batches as are to come. -/
theorem meets_anextWithin (turns : ℕ) :
    Meets (fun state => Kept directory yields state ∧ state.pending.length < turns)
      (anextWithin turns) (fun entry => Kept directory (yields ++ [entry]))
      (Raised directory yields) := by
  induction turns with
  | zero => exact fun state h => absurd h.2 (Nat.not_lt_zero _)
  | succ turns ih =>
    refine .assume fun state ⟨hkept, hsize⟩ => ?_
    have hbuffered : Meets (· = state) nextBuffered _ (Raised directory yields) :=
      (meets_nextBuffered state.pending.length).weaken
        (by rintro _ rfl; exact ⟨hkept, rfl⟩) (fun _ _ => id) fun _ _ => False.elim
    refine hbuffered.bind fun found => ?_
    cases found with
    | some entry => exact .pure fun _ h => h.2
    | none =>
      refine ((meets_fill state.pending.length).strengthen fun _ h => ⟨h.1, h.2.1, h.2.2⟩).bind
        fun _ => ih.strengthen fun later h => ⟨h.2, ?_⟩
      have hless := h.1
      omega

/-- The next entry is the first of those to come. -/
theorem meets_anext : Meets (Kept directory yields) anext
    (fun entry => Kept directory (yields ++ [entry])) (Raised directory yields) := by
  refine .get fun state hkept => (meets_anextWithin _).strengthen ?_
  rintro _ rfl
  exact ⟨hkept, Nat.lt_succ_self _⟩

/-- What holds where a call raised: the end was raised only after every entry. -/
def Ended (directory : Directory) (yields : List NameEntry) (halt : Halt) (state : Scanning) :
    Prop :=
  Kept directory yields state ∧ (halt = .stop → yields = directory.entries)

/-- Opening the directory hands out nothing. -/
theorem meets_aenter (opened : Except Failure Bytes) :
    Meets (Kept directory yields) (aenter opened) (fun _ => Kept directory yields)
      (Ended directory yields) := by
  refine .of fun state hkept => ?_
  cases hentered : state.scan.entered with
  | true => exact ⟨hkept, nofun⟩
  | false =>
    obtain ⟨hhandle, hsent, hahead⟩ := hkept.fresh hentered
    have hordered : Orderly (state.sent ++ [.opendir]) := hkept.ordered.append (by simp [hsent]) _
    have hmarked : ∀ request ∈ state.sent ++ [.opendir], request.ends = true → False := by
      rw [hsent, List.nil_append]
      intro request hmem hends
      rw [List.mem_singleton.mp hmem] at hends
      cases hends
    cases opened with
    | error failure =>
      exact ⟨⟨hkept.ending_eq, hkept.pending, hkept.yielded, nofun, fun h => absurd hhandle h,
        hkept.idle, hkept.done, fun request hmem hends => (hmarked request hmem hends).elim,
        hordered⟩, nofun⟩
    | ok handle =>
      exact ⟨hkept.ending_eq, hkept.pending, hkept.yielded, nofun, fun _ => hahead, nofun,
        hkept.done, fun request hmem hends => (hmarked request hmem hends).elim, hordered⟩

/-- Beginning to iterate changes nothing. -/
theorem meets_aiter : Meets (Kept directory yields) aiter (fun _ => Kept directory yields)
    (Ended directory yields) := by
  refine .of fun state hkept => ?_
  cases state.scan.handle with
  | none => exact ⟨hkept, nofun⟩
  | some handle => exact hkept

/-- Closing the handle hands out nothing. -/
theorem meets_aexit (failed : Bool) (closed : Except Failure Unit) :
    Meets (Kept directory yields) (aexit failed closed) (fun _ => Kept directory yields)
      (Ended directory yields) := by
  refine .of fun state hkept => ?_
  have hfresh : state.scan.entered = false → state.scan.handle = none ∧ state.sent = [] ∧
      yields ++ state.pending.flatten.filter NameEntry.isPlain = directory.entries := by
    intro hentered
    obtain ⟨hhandle, hsent, hahead⟩ := hkept.fresh hentered
    rw [upcoming, hkept.idle hhandle, List.drop_nil, List.nil_append] at hahead
    exact ⟨hhandle, hsent, hahead⟩
  cases hhandle : state.scan.handle with
  | none =>
    exact ⟨hkept.ending_eq, hkept.pending, hkept.yielded, fun h => ⟨rfl, (hfresh h).2⟩,
      fun h => absurd rfl h, fun _ => rfl, hkept.done, fun _ _ _ => Or.inr rfl, hkept.ordered⟩
  | some handle =>
    have hclosed : ∀ result : Except Halt Unit, result ≠ .error .stop →
        Ends (fun _ => Kept directory yields) (Ended directory yields) (result, { state with
          scan := { state.scan with handle := none, batch := [], index := 0 }
          sent := state.sent ++ [.close handle] }) := by
      intro result hresult
      have hleft : Kept directory yields { state with
          scan := { state.scan with handle := none, batch := [], index := 0 }
          sent := state.sent ++ [.close handle] } := by
        refine ⟨hkept.ending_eq, hkept.pending, hkept.yielded, fun h => ?_, fun h => absurd rfl h,
          fun _ => rfl, hkept.done, fun _ _ _ => Or.inr rfl, ?_⟩
        · rw [hhandle] at hfresh
          cases (hfresh h).1
        · unfold Orderly
          rw [List.pairwise_append]
          refine ⟨hkept.ordered, List.pairwise_singleton _ _, fun _ _ later hmem hasks => ?_⟩
          rw [List.mem_singleton.mp hmem] at hasks
          cases hasks
      cases result with
      | ok _ => exact hleft
      | error halt => exact ⟨hleft, fun hstop => absurd (congrArg Except.error hstop) hresult⟩
    apply hclosed
    unfold closeOutcome
    cases closed with
    | ok _ => exact nofun
    | error failure =>
      dsimp only
      split_ifs <;> exact nofun

/-- A call hands out the next entry, or none. -/
theorem meets_perform (call : ScanCall) : Meets (Kept directory yields) call.perform
    (fun value => Kept directory (yields ++ (yieldedBy (.ok value)).toList))
    (Ended directory yields) := by
  cases call with
  | enter opened =>
    exact (meets_aenter opened).bind fun _ => .pure fun _ h => by simpa [yieldedBy] using h
  | iter => exact meets_aiter.bind fun _ => .pure fun _ h => by simpa [yieldedBy] using h
  | next =>
    refine (meets_anext.weaken (fun _ => id) (fun _ _ => id) fun _ _ h => ⟨h.1, h.2.1⟩).bind
      fun entry => .pure fun _ h => h
  | leave failed closed =>
    exact (meets_aexit failed closed).bind fun _ => .pure fun _ h => by simpa [yieldedBy] using h

/-- Calls hand out entries one after another, and the end is raised only after every entry. -/
theorem kept_iterate (calls : List ScanCall) {state : Scanning}
    (h : Kept directory yields state) :
    Kept directory (yields ++ (iterate calls state).1.filterMap yieldedBy) (iterate calls state).2 ∧
      (.error .stop ∈ (iterate calls state).1 →
        yields ++ (iterate calls state).1.filterMap yieldedBy = directory.entries) := by
  induction calls generalizing yields state with
  | nil => exact ⟨by simpa [iterate] using h, by simp [iterate]⟩
  | cons call calls ih =>
    have hcall := meets_perform call state h
    unfold iterate
    dsimp only
    generalize call.perform.exec state = ended at hcall ⊢
    obtain ⟨halt | value, between⟩ := ended
    · obtain ⟨hkept, hstop⟩ := hcall
      obtain ⟨hlater, hall⟩ := ih hkept
      refine ⟨hlater, fun hmem => ?_⟩
      obtain hhere | hrest := List.mem_cons.mp hmem
      · -- nothing can come after every entry
        have hyields := hstop (Except.error.inj hhere).symm
        obtain ⟨more, hmore⟩ := hlater.yielded
        rw [hyields, List.append_assoc, List.append_right_eq_self, List.append_eq_nil_iff] at hmore
        rw [List.filterMap_cons_none (by rfl), hmore.1, List.append_nil, hyields]
      · exact hall hrest
    · have hlater := ih hcall
      have hyields : yields ++ (.ok value :: (iterate calls between).1).filterMap yieldedBy =
          yields ++ (yieldedBy (.ok value)).toList ++
            (iterate calls between).1.filterMap yieldedBy := by
        rw [List.filterMap_cons, List.append_assoc]
        cases yieldedBy (.ok value) <;> rfl
      dsimp only
      rw [hyields]
      refine ⟨hlater.1, fun hmem => hlater.2 ?_⟩
      obtain hhere | hrest := List.mem_cons.mp hmem
      · cases hhere
      · exact hrest

/-! ## The one CLOSE -/

/-- A step that asks for batches, and for none once the handle is gone. -/
def Asks (state state' : Scanning) : Prop :=
  state'.scan.handle = state.scan.handle ∧ state'.scan.entered = state.scan.entered ∧
    ∃ requests, state'.sent = state.sent ++ requests ∧
      requests.filterMap ScanRequest.closed? = [] ∧ (state.scan.handle = none → requests = [])

/-- Asking for nothing. -/
theorem asks_none {state state' : Scanning} (hhandle : state'.scan.handle = state.scan.handle)
    (hentered : state'.scan.entered = state.scan.entered) (hsent : state'.sent = state.sent) :
    Asks state state' :=
  ⟨hhandle, hentered, [], by rw [hsent, List.append_nil], rfl, fun _ => rfl⟩

/-- Fetching a batch asks for it. -/
theorem does_fill : Does Asks fill := by
  refine .of fun state => ?_
  cases hhandle : state.scan.handle with
  | none => exact asks_none rfl rfl rfl
  | some handle =>
    dsimp only
    split_ifs
    · exact asks_none rfl rfl rfl
    · have hasked : (ask state handle).2.scan = state.scan ∧
          (ask state handle).2.sent =
            state.sent ++ [.readdir handle (ask state handle).1] := by
        unfold ask
        cases state.pending <;> exact ⟨rfl, rfl⟩
      have hasks : ∀ scan : DirectoryScan, scan.handle = state.scan.handle →
          scan.entered = state.scan.entered →
          Asks state { (ask state handle).2 with scan := scan } := fun scan hsame hentered =>
        ⟨hsame, hentered, _, hasked.2, rfl, fun hnone => by rw [hhandle] at hnone; cases hnone⟩
      have hscan := hasked.1
      cases readdir (ask state handle).1 with
      | error failure => exact hasks _ (by rw [hscan]) (by rw [hscan])
      | ok batch =>
        cases batch with
        | none => exact hasks _ (by rw [hscan]) (by rw [hscan])
        | some batch => exact hasks _ (by rw [hscan]) (by rw [hscan])

/-- The next entry is looked for by asking for batches. -/
theorem does_anext : Does Asks anext := by
  refine .bind .get fun state => ?_
  generalize state.pending.length + 1 = turns
  induction turns with
  | zero => exact .throw _
  | succ turns ih =>
    refine .bind (.of fun state => asks_none rfl rfl rfl) fun found => ?_
    cases found with
    | some entry => exact .pure _
    | none => exact .bind does_fill fun _ => ih

/-- A scan that was entered with a handle: it holds the handle and closed none, or holds none and
closed that one last of all. -/
def Handled (handle : Bytes) (left : Bool) (state : Scanning) : Prop :=
  state.scan.entered = true ∧
    if left then state.scan.handle = none ∧ ∃ asked, state.sent = asked ++ [.close handle] ∧
      asked.filterMap ScanRequest.closed? = []
    else state.scan.handle = some handle ∧ state.sent.filterMap ScanRequest.closed? = []

/-- Asking for batches closes nothing. -/
theorem Handled.asks {handle : Bytes} {left : Bool} {state state' : Scanning}
    (hasks : Asks state state') (h : Handled handle left state) : Handled handle left state' := by
  obtain ⟨hhandle, hentered, requests, hsent, hrequests, hnone⟩ := hasks
  obtain ⟨hin, hstate⟩ := h
  refine ⟨hentered.trans hin, ?_⟩
  cases left with
  | true =>
    obtain ⟨hgone, asked, hasked, hclosed⟩ := hstate
    refine ⟨hhandle.trans hgone, asked, ?_, hclosed⟩
    rw [hsent, hnone hgone, List.append_nil, hasked]
  | false =>
    obtain ⟨hheld, hclosed⟩ := hstate
    refine ⟨hhandle.trans hheld, ?_⟩
    rw [hsent, List.filterMap_append, hclosed, hrequests, List.append_nil]

/-- Whether a call enters the scan. -/
def enters : ScanCall → Bool
  | .enter _ => true
  | _ => false

/-- Whether a call leaves the scan. -/
def leaves : ScanCall → Bool
  | .leave _ _ => true
  | _ => false

/-- A call that does not enter the scan leaves it as entered as it was. -/
theorem does_perform {call : ScanCall} (hcall : enters call = false) :
    Does (fun state state' => state'.scan.entered = state.scan.entered) call.perform := by
  cases call with
  | enter opened => cases hcall
  | iter =>
    refine .bind (.of fun state => ?_) fun _ => .pure _
    cases state.scan.handle <;> rfl
  | next => exact .bind (does_anext.mono fun _ _ h => h.2.1) fun _ => .pure _
  | leave failed closed =>
    refine .bind (.of fun state => ?_) fun _ => .pure _
    dsimp only
    cases state.scan.handle <;> rfl

/-- Calls none of which enters the scan leave it unentered. -/
theorem unentered_iterate {calls : List ScanCall} (hcalls : ∀ call ∈ calls, enters call = false)
    {state : Scanning} (h : state.scan.entered = false) :
    (iterate calls state).2.scan.entered = false := by
  induction calls generalizing state with
  | nil => exact h
  | cons call calls ih =>
    apply ih fun other hmem => hcalls other (List.mem_cons_of_mem _ hmem)
    exact (does_perform (hcalls call List.mem_cons_self)).preserves
      (fun _ _ hsame hbefore => hsame.trans hbefore) h

/-- A scan that was entered with a handle closes it at the first call that leaves it. -/
theorem meets_handled (handle : Bytes) (left : Bool) (call : ScanCall) :
    Meets (Handled handle left) call.perform (fun _ => Handled handle (left || leaves call))
      (fun _ => Handled handle (left || leaves call)) := by
  cases call with
  | enter opened =>
    rw [show leaves (.enter opened) = false from rfl, Bool.or_false]
    refine .bind (.of fun state h => ?_) fun _ => .pure fun _ => id
    rw [if_pos h.1]
    exact h
  | iter =>
    rw [show leaves .iter = false from rfl, Bool.or_false]
    refine .bind (.of fun state h => ?_) fun _ => .pure fun _ => id
    cases state.scan.handle <;> exact h
  | next =>
    rw [show leaves .next = false from rfl, Bool.or_false]
    refine .bind (fun state h => ?_) fun _ => .pure fun _ => id
    have hasked : Handled handle left (anext.exec state).2 :=
      does_anext.preserves (fun _ _ => Handled.asks) h
    generalize anext.exec state = ended at hasked ⊢
    obtain ⟨_ | _, state'⟩ := ended <;> exact hasked
  | leave failed closed =>
    rw [show leaves (.leave failed closed) = true from rfl, Bool.or_true]
    refine .bind (.of fun state ⟨hentered, h⟩ => ?_) fun _ => .pure fun _ => id
    dsimp only
    cases left with
    | true =>
      rw [h.1]
      exact ⟨hentered, rfl, h.2⟩
    | false =>
      rw [h.1]
      dsimp only
      generalize closeOutcome failed closed = outcome
      cases outcome <;> exact ⟨hentered, rfl, state.sent, rfl, h.2⟩

/-- A scan that was entered with a handle closed it, once, if it was left. -/
theorem handled_iterate (handle : Bytes) (calls : List ScanCall) {left : Bool} {state : Scanning}
    (h : Handled handle left state) :
    Handled handle (left || calls.any leaves) (iterate calls state).2 := by
  induction calls generalizing left state with
  | nil => simpa [iterate] using h
  | cons call calls ih =>
    have hcall : Handled handle (left || leaves call) (call.perform.exec state).2 := by
      have hended := meets_handled handle left call state h
      generalize call.perform.exec state = ended at hended ⊢
      obtain ⟨_ | _, state'⟩ := ended <;> exact hended
    rw [List.any_cons, ← Bool.or_assoc]
    exact ih hcall

/-- What calls leave is what the later of them leave after the earlier ones. -/
theorem iterate_append (earlier later : List ScanCall) (state : Scanning) :
    (iterate (earlier ++ later) state).2 = (iterate later (iterate earlier state).2).2 := by
  induction earlier generalizing state with
  | nil => rfl
  | cons call earlier ih => exact ih _

/-- Entering a scan for the first time opens the directory, and takes the handle. -/
theorem handled_enter {state : Scanning} (hkept : Kept directory yields state)
    (hentered : state.scan.entered = false) (handle : Bytes) :
    Handled handle false ((ScanCall.enter (.ok handle)).perform.exec state).2 := by
  obtain ⟨-, hsent, -⟩ := hkept.fresh hentered
  have henter : (aenter (.ok handle)).exec state = (.ok (), { state with
      scan := { state.scan with entered := true, handle := some handle }
      sent := state.sent ++ [.opendir] }) :=
    if_neg (by simp [hentered])
  rw [ScanCall.perform, exec_bind]
  rw [henter]
  exact ⟨rfl, rfl, by rw [hsent]; rfl⟩

end DirectoryScan

open DirectoryScan in
/-- However a scan of a directory is iterated, what it hands out are the first of the directory's
entries other than the dot names, each once and in the order sent; all of them where the end was
raised. No READDIR is sent after the end was answered or the handle closed. A scan that was
entered and left closes its handle once, after everything else it sent. -/
theorem scan_exact (directory : Directory) (calls : List ScanCall) :
    (iterate calls directory.scanning).1.filterMap yieldedBy <+: directory.entries ∧
      (.error .stop ∈ (iterate calls directory.scanning).1 →
        (iterate calls directory.scanning).1.filterMap yieldedBy = directory.entries) ∧
      Orderly (iterate calls directory.scanning).2.sent ∧
      ∀ before handle after, calls = before ++ .enter (.ok handle) :: after →
        (∀ call ∈ before, enters call = false) → after.any leaves = true →
          ∃ asked, (iterate calls directory.scanning).2.sent = asked ++ [.close handle] ∧
            asked.filterMap ScanRequest.closed? = [] := by
  obtain ⟨hkept, hall⟩ := kept_iterate calls (kept_scanning directory)
  rw [List.nil_append] at hkept hall
  refine ⟨hkept.yielded, hall, hkept.ordered, ?_⟩
  rintro before handle after rfl hbefore hafter
  have hunentered : (iterate before directory.scanning).2.scan.entered = false :=
    unentered_iterate hbefore rfl
  have hfirst := (kept_iterate before (kept_scanning directory)).1
  have hleft := handled_iterate handle after (handled_enter hfirst hunentered handle)
  rw [hafter, Bool.or_true] at hleft
  rw [iterate_append]
  exact hleft.2.2

/-- A name entry without attributes. -/
def named (filename : Bytes) : NameEntry := { filename, longname := [], attrs := {} }

/-- Three batches, one of them of a dot name only. -/
def threeBatches : Directory where
  batches := [[named [46], named [97]], [named [46, 46]], [named [98]]]
  ending := .status .eof []
  nonempty := by simp
  ends := fun _ h => by cases h

open DirectoryScan in
/-- Three batches iterated past the end, and left. -/
theorem scan_exact_three :
    (iterate [.enter (.ok [1]), .iter, .next, .next, .next, .next, .leave false (.ok ())]
        threeBatches.scanning).1.filterMap yieldedBy = [named [97], named [98]] ∧
      ∃ asked, (iterate [.enter (.ok [1]), .iter, .next, .next, .next, .next, .leave false (.ok ())]
          threeBatches.scanning).2.sent = asked ++ [.close [1]] ∧
        asked.filterMap ScanRequest.closed? = [] := by
  obtain ⟨-, hall, -, hclosed⟩ := scan_exact threeBatches
    [.enter (.ok [1]), .iter, .next, .next, .next, .next, .leave false (.ok ())]
  have hdots : dotNames = [[46], [46, 46]] := by decide +kernel
  have hraised : (iterate [.enter (.ok [1]), .iter, .next, .next, .next, .next,
      .leave false (.ok ())] threeBatches.scanning).1 = [.ok .scan, .ok .scan,
      .ok (.entry (named [97])), .ok (.entry (named [98])), .error .stop, .error .stop,
      .ok .nothing] := by
    simp [iterate, ScanCall.perform, aenter, aiter, anext, anextWithin, aexit, nextBuffered,
      DirectoryScan.fill, DirectoryScan.ask, exec_bind, nextPlain, NameEntry.isPlain, hdots,
      threeBatches, named, readdir, Directory.scanning, closeOutcome, -bind_pure_comp]
  refine ⟨(hall ?_).trans ?_, hclosed [] [1] _ rfl nofun rfl⟩
  · rw [hraised]
    simp
  · simp [Directory.entries, threeBatches, NameEntry.isPlain, hdots, named]

end GantrySftp
