import GantrySftp.Session.Journal

/-!
# The incremental fold against a fold from scratch

A lookup that resumes from a remembered offset answers what folding the current file from its
first byte answers, as long as the remembered fold is of a prefix of that file. Appends keep
that: whole records, torn tails and their completions alike, whatever the bytes. A file renamed
over the path keeps it when its identity is not the remembered one, and can break it when a
freed inode number comes back.
-/

namespace GantrySftp

open Library

/-! ## Folding lines as a sequence of changes -/

/-- The changes lines make, up to the first that raises. -/
def changesOf : List Text → List (Update Text JournalEntry)
  | [] => []
  | text :: rest =>
    match lineUpdate text with
    | .error _ => []
    | .ok none => changesOf rest
    | .ok (some change) => change :: changesOf rest

/-- The first thing lines raise. -/
def raisedBy : List Text → Option JournalError
  | [] => none
  | text :: rest =>
    match lineUpdate text with
    | .error error => some error
    | .ok _ => raisedBy rest

/-- Folding lines makes their changes and raises what they raise. -/
theorem applyAll_eq (entries : Entries) (lines : List Text) :
    applyAll entries lines = (entries.updateAll (changesOf lines), raisedBy lines) := by
  induction lines generalizing entries with
  | nil => rfl
  | cons text rest ih =>
    unfold applyAll changesOf raisedBy
    cases lineUpdate text with
    | error error => rfl
    | ok change =>
      cases change with
      | none => exact ih entries
      | some change => exact ih (entries.update change)

/-- More lines only add changes, and none once a line raises. -/
theorem changesOf_append (front back : List Text) :
    changesOf (front ++ back) =
      changesOf front ++ (if raisedBy front = none then changesOf back else []) := by
  induction front with
  | nil => rfl
  | cons text rest ih =>
    rw [List.cons_append, changesOf, changesOf, raisedBy]
    cases lineUpdate text with
    | error error => rfl
    | ok change =>
      cases change with
      | none => exact ih
      | some change => exact congrArg (change :: ·) ih

/-- The first thing raised is raised by the front, or else by the back. -/
theorem raisedBy_append (front back : List Text) :
    raisedBy (front ++ back) = (raisedBy front).or (raisedBy back) := by
  induction front with
  | nil => simp [raisedBy]
  | cons text rest ih =>
    rw [List.cons_append, raisedBy, raisedBy]
    cases lineUpdate text with
    | error error => rfl
    | ok change => exact ih

/-! ## What the remembered fold must be -/

/-- The fold of some bytes: the changes of their lines made to an empty state. -/
def foldedLines (bytes : Bytes) : Entries :=
  Dict.empty.updateAll (changesOf (decodedLines bytes))

/-- The fold goes on behind complete lines that raise nothing. -/
theorem foldedLines_append {front : Bytes} (hfront : Terminated front)
    (hquiet : raisedBy (decodedLines front) = none) (back : Bytes) :
    foldedLines (front ++ back) =
      (foldedLines front).updateAll (changesOf (decodedLines back)) := by
  rw [foldedLines, decodedLines_append hfront, changesOf_append, if_pos hquiet,
    Dict.updateAll_append, foldedLines]

/-- The state holds the fold of `front`, and possibly the first changes of the complete lines of
`chunk`, left there by a lookup that raised on a later one. -/
structure Positioned (folded : Folded) (file : LogFile) (front chunk : Bytes) : Prop where
  content : file.content = front ++ chunk
  terminated : Terminated front
  offset : folded.offset = front.length
  quiet : raisedBy (decodedLines front) = none
  entries : ∃ made, made <+: changesOf (decodedLines (splitTail chunk).1) ∧
    ∀ key, folded.entries.get key = ((foldedLines front).updateAll made).get key

/-- A remembered fold that cannot mislead a lookup in this file: nothing is remembered, or
another file is, or a prefix of this one is. -/
def Faithful (folded : Folded) (file : LogFile) : Prop :=
  folded.offset = 0 ∨ (file.device, file.inode) ≠ (folded.device, folded.inode) ∨
    ∃ front chunk, Positioned folded file front chunk

/-- A fold started over is positioned at the first byte. -/
theorem positioned_restart (file : LogFile) :
    Positioned (.restart file.device file.inode) file [] file.content where
  content := rfl
  terminated := Or.inl rfl
  offset := rfl
  quiet := rfl
  entries := ⟨[], List.nil_prefix, fun _ => rfl⟩

/-- Reading the tail leaves the fold positioned in this file, where the tail begins. -/
theorem readTail_positioned {folded : Folded} {file : LogFile} (h : Faithful folded file) :
    ∃ state chunk front, readTail folded file = (state, chunk) ∧
      Positioned state file front chunk := by
  unfold readTail
  split_ifs with hdescribes
  · simp only [Folded.describes, Bool.and_eq_true, decide_eq_true_eq] at hdescribes
    obtain ⟨⟨⟨⟨hdevice, hinode⟩, hpositive⟩, -⟩, -⟩ := hdescribes
    obtain hzero | hother | ⟨front, chunk, hpositioned⟩ := h
    · omega
    · exact absurd (Prod.ext hdevice hinode) hother
    · have htail : (file.content.drop (folded.offset - 1)).tail = chunk := by
        rw [List.tail_drop, Nat.sub_add_cancel hpositive, hpositioned.content,
          hpositioned.offset, List.drop_left]
      exact ⟨folded, chunk, front, by rw [htail], hpositioned⟩
  · exact ⟨_, _, [], rfl, positioned_restart file⟩

/-! ## What a lookup answers -/

/-- The lines of a chunk: its complete lines, and those of its unterminated tail. -/
def linesOf (chunk : Bytes) : List Text :=
  decodedLines (splitTail chunk).1 ++ decodedLines (splitTail chunk).2

/-- What folding lines into a state and filtering one target's entry answers. -/
def answerFrom (entries : Entries) (lines : List Text) (target : Bytes)
    (source : SourceIdentity) : Except JournalError (Option Bytes) :=
  match raisedBy lines with
  | some error => .error error
  | none => .ok (offered ((entries.updateAll (changesOf lines)).get (decodeName target)) source)

/-- What folding the current file from byte zero and filtering the target's entry answers. -/
def scratchLookup (file : Option LogFile) (target : Bytes) (source : SourceIdentity) :
    Except JournalError (Option Bytes) := do
  let entries ← fold file
  pure (offered (entries.get (decodeName target)) source)

/-- What an unterminated tail says about a target is what folding it into the whole state
says. -/
theorem tailSays_eq (entries : Entries) (key tail : Text) :
    tailSays (entries.get key) key tail =
      match raisedBy (splitLines tail) with
      | some error => .error error
      | none => .ok ((entries.updateAll (changesOf (splitLines tail))).get key) := by
  have hscratch : (scratchOf key (entries.get key)).get key = entries.get key := by
    cases entries.get key with
    | none => rfl
    | some entry => rw [scratchOf, Dict.get_set, if_pos rfl]
  rw [tailSays, applyAll_eq]
  cases raisedBy (splitLines tail) with
  | some error => rfl
  | none => exact congrArg Except.ok (Dict.get_updateAll_congr hscratch _)

/-- The state a fold of the appended lines leaves, and what it hands back. -/
theorem foldTail_eq (folded : Folded) (file : LogFile) {state : Folded} {chunk : Bytes}
    (hread : readTail folded file = (state, chunk)) :
    foldTail folded (some file) =
      match raisedBy (decodedLines (splitTail chunk).1) with
      | some error =>
        ({ state with
            entries := state.entries.updateAll (changesOf (decodedLines (splitTail chunk).1)) },
          .error error)
      | none =>
        ({ state with
            entries := state.entries.updateAll (changesOf (decodedLines (splitTail chunk).1))
            offset := state.offset + (splitTail chunk).1.length },
          .ok (decodeUtf8 replaceError (splitTail chunk).2)) := by
  cases hraised : raisedBy (decodedLines (splitTail chunk).1) with
  | some error => simp only [foldTail, hread, applyAll_eq, hraised]
  | none => simp only [foldTail, hread, applyAll_eq, hraised]

/-- A lookup folds the lines after the remembered offset into the remembered entries. -/
theorem stagedFor_answer (folded : Folded) (file : LogFile) (target : Bytes)
    (source : SourceIdentity) {state : Folded} {chunk : Bytes}
    (hread : readTail folded file = (state, chunk)) :
    (stagedFor (some file) target source folded).2 =
      answerFrom state.entries (linesOf chunk) target source := by
  have hfold := foldTail_eq folded file hread
  rw [stagedFor, hfold, answerFrom, linesOf, raisedBy_append, changesOf_append]
  cases hcomplete : raisedBy (decodedLines (splitTail chunk).1) with
  | some error => rfl
  | none =>
    rw [if_pos rfl, Option.none_or, Dict.updateAll_append]
    dsimp only
    split_ifs with hempty
    · have hlines : decodedLines (splitTail chunk).2 = [] := by
        rw [decodedLines, List.isEmpty_iff.mp hempty]
        rfl
      rw [hlines]
      rfl
    · rw [tailSays_eq, ← decodedLines]
      cases raisedBy (decodedLines (splitTail chunk).2) with
      | some error => rfl
      | none => rfl

/-- Folding the whole file folds all of its lines into an empty state. -/
theorem fold_eq (file : LogFile) :
    fold (some file) =
      match raisedBy (linesOf file.content) with
      | some error => .error error
      | none => .ok (Dict.empty.updateAll (changesOf (linesOf file.content))) := by
  have hread : readTail .fresh file = (.restart file.device file.inode, file.content) := by
    rw [readTail, if_neg]
    simp [Folded.describes, Folded.fresh]
  rw [fold, foldTail_eq .fresh file hread, linesOf, raisedBy_append, changesOf_append]
  cases hcomplete : raisedBy (decodedLines (splitTail file.content).1) with
  | some error => rfl
  | none =>
    rw [if_pos rfl, Option.none_or, Dict.updateAll_append]
    dsimp only
    rw [applyAll_eq, ← decodedLines]
    cases raisedBy (decodedLines (splitTail file.content).2) with
    | some error => rfl
    | none => rfl

/-- The reference lookup folds all lines of the file into an empty state. -/
theorem scratchLookup_answer (file : LogFile) (target : Bytes) (source : SourceIdentity) :
    scratchLookup (some file) target source =
      answerFrom Dict.empty (linesOf file.content) target source := by
  rw [scratchLookup, fold_eq, answerFrom]
  cases raisedBy (linesOf file.content) with
  | some error => rfl
  | none => rfl

/-- The lines of a file are those of a terminated front and those of the chunk after it. -/
theorem linesOf_append {front : Bytes} (hfront : Terminated front) (chunk : Bytes) :
    linesOf (front ++ chunk) = decodedLines front ++ linesOf chunk := by
  unfold linesOf
  rw [splitTail_terminated hfront, decodedLines_append hfront, List.append_assoc]

/-- Folding on from a positioned state answers what folding the whole file does. -/
theorem answerFrom_positioned {folded : Folded} {file : LogFile} {front chunk : Bytes}
    (h : Positioned folded file front chunk) (target : Bytes) (source : SourceIdentity) :
    answerFrom folded.entries (linesOf chunk) target source =
      answerFrom Dict.empty (linesOf file.content) target source := by
  obtain ⟨made, hmade, hentries⟩ := h.entries
  have hlines : raisedBy (linesOf file.content) = raisedBy (linesOf chunk) := by
    rw [h.content, linesOf_append h.terminated, raisedBy_append, h.quiet, Option.none_or]
  have hchanges : changesOf (linesOf file.content) =
      changesOf (decodedLines front) ++ changesOf (linesOf chunk) := by
    rw [h.content, linesOf_append h.terminated, changesOf_append, if_pos h.quiet]
  obtain ⟨rest, hrest⟩ : made <+: changesOf (linesOf chunk) := by
    rw [linesOf, changesOf_append]
    exact hmade.trans (List.prefix_append _ _)
  have hget : (folded.entries.updateAll (changesOf (linesOf chunk))).get (decodeName target) =
      ((Dict.empty : Entries).updateAll (changesOf (linesOf file.content))).get
        (decodeName target) := by
    rw [Dict.get_updateAll_congr (hentries _), ← hrest, Dict.get_updateAll_again, hrest, hchanges,
      Dict.updateAll_append]
    rfl
  unfold answerFrom
  rw [hlines, hget]

/-- A lookup through a faithful fold answers what folding the current file from byte zero
does. -/
theorem stagedFor_eq_scratch {folded : Folded} {file : LogFile} (h : Faithful folded file)
    (target : Bytes) (source : SourceIdentity) :
    (stagedFor (some file) target source folded).2 = scratchLookup (some file) target source := by
  obtain ⟨state, chunk, front, hread, hpositioned⟩ := readTail_positioned h
  rw [stagedFor_answer folded file target source hread, scratchLookup_answer,
    answerFrom_positioned hpositioned]

/-! ## What keeps the remembered fold faithful -/

/-- Folding the complete lines moves the position behind them. -/
theorem Positioned.advance {state : Folded} {file : LogFile} {front chunk : Bytes}
    (h : Positioned state file front chunk)
    (hquiet : raisedBy (decodedLines (splitTail chunk).1) = none) :
    Positioned
      { state with
        entries := state.entries.updateAll (changesOf (decodedLines (splitTail chunk).1))
        offset := state.offset + (splitTail chunk).1.length }
      file (front ++ (splitTail chunk).1) (splitTail chunk).2 where
  content := by rw [List.append_assoc, splitTail_append, h.content]
  terminated := h.terminated.append (terminated_splitTail chunk)
  offset := by rw [List.length_append, h.offset]
  quiet := by rw [decodedLines_append h.terminated, raisedBy_append, h.quiet, hquiet]; rfl
  entries := by
    obtain ⟨made, ⟨rest, hrest⟩, hentries⟩ := h.entries
    refine ⟨[], List.nil_prefix, fun key => ?_⟩
    rw [Dict.get_updateAll_congr (hentries key), ← hrest, Dict.get_updateAll_again, hrest,
      foldedLines_append h.terminated h.quiet]
    rfl

/-- A lookup that raises leaves the position, with the changes it had made. -/
theorem Positioned.interrupted {state : Folded} {file : LogFile} {front chunk : Bytes}
    (h : Positioned state file front chunk) :
    Positioned
      { state with
        entries := state.entries.updateAll (changesOf (decodedLines (splitTail chunk).1)) }
      file front chunk where
  content := h.content
  terminated := h.terminated
  offset := h.offset
  quiet := h.quiet
  entries := by
    obtain ⟨made, ⟨rest, hrest⟩, hentries⟩ := h.entries
    refine ⟨_, List.prefix_refl _, fun key => ?_⟩
    rw [Dict.get_updateAll_congr (hentries key), ← hrest, Dict.get_updateAll_again]

/-- A lookup leaves the state the fold of the tail leaves. -/
theorem stagedFor_fst (folded : Folded) (file : Option LogFile) (target : Bytes)
    (source : SourceIdentity) :
    (stagedFor file target source folded).1 = (foldTail folded file).1 := by
  unfold stagedFor
  obtain ⟨state, result⟩ := foldTail folded file
  cases result with
  | error error => rfl
  | ok tail =>
    dsimp only
    split_ifs
    · rfl
    · cases tailSays (state.entries.get (decodeName target)) (decodeName target) tail <;> rfl

/-- A lookup leaves a faithful fold faithful, also when it raises half way. -/
theorem faithful_stagedFor {folded : Folded} {file : LogFile} (h : Faithful folded file)
    (target : Bytes) (source : SourceIdentity) :
    Faithful (stagedFor (some file) target source folded).1 file := by
  obtain ⟨state, chunk, front, hread, hpositioned⟩ := readTail_positioned h
  rw [stagedFor_fst, foldTail_eq folded file hread]
  cases hcomplete : raisedBy (decodedLines (splitTail chunk).1) with
  | some error => exact Or.inr (Or.inr ⟨_, _, hpositioned.interrupted⟩)
  | none => exact Or.inr (Or.inr ⟨_, _, hpositioned.advance hcomplete⟩)

/-- Appending bytes to the file leaves a faithful fold faithful, whatever they are. -/
theorem faithful_append {folded : Folded} {file : LogFile} (h : Faithful folded file)
    (bytes : Bytes) : Faithful folded { file with content := file.content ++ bytes } := by
  obtain hzero | hother | ⟨front, chunk, hpositioned⟩ := h
  · exact Or.inl hzero
  · exact Or.inr (Or.inl hother)
  · refine Or.inr (Or.inr ⟨front, chunk ++ bytes, ?_⟩)
    obtain ⟨made, hmade, hentries⟩ := hpositioned.entries
    refine ⟨?_, hpositioned.terminated, hpositioned.offset, hpositioned.quiet, made, ?_, hentries⟩
    · rw [hpositioned.content, List.append_assoc]
    · rw [splitTail_append_more, decodedLines_append (terminated_splitTail chunk),
        changesOf_append]
      exact hmade.trans (List.prefix_append _ _)

/-! ## Runs -/

/-- The journal's file, and what one `UploadJournal` remembers of it. -/
structure LogWorld where
  file : Option LogFile
  folded : Folded

/-- One thing that happens to the file or the journal. An append creates a missing file, under
the identity given; a compaction renames a new file over the path. -/
inductive LogEvent
  | append (bytes : Bytes) (device inode : ℤ)
  | compact (device inode : ℤ)
  | lookup (target : Bytes) (source : SourceIdentity)

/-- Make one event happen. A compaction whose fold raises changes nothing. -/
def LogWorld.step (world : LogWorld) : LogEvent → LogWorld
  | .append bytes device inode =>
    match world.file with
    | none => { world with file := some { device := device, inode := inode, content := bytes } }
    | some file => { world with file := some { file with content := file.content ++ bytes } }
  | .compact device inode =>
    match compact world.file device inode with
    | .error _ => world
    | .ok file => { world with file := some file }
  | .lookup target source =>
    { world with folded := (stagedFor world.file target source world.folded).1 }

/-- Make events happen in order. -/
def LogWorld.run (world : LogWorld) (events : List LogEvent) : LogWorld :=
  events.foldl LogWorld.step world

/-- A journal opened on a file nobody has looked at through it yet. -/
def LogWorld.opened (file : Option LogFile) : LogWorld where
  file := file
  folded := .fresh

/-- The file a compaction renames over the path is not the one the fold remembers. -/
def RenamesFresh (world : LogWorld) : LogEvent → Prop
  | .compact device inode => (device, inode) ≠ (world.folded.device, world.folded.inode)
  | _ => True

/-- Every compaction of a run renames a file over the path that the fold then remembered is
not of. -/
def FreshRun : LogWorld → List LogEvent → Prop
  | _, [] => True
  | world, event :: rest => RenamesFresh world event ∧ FreshRun (world.step event) rest

instance (world : LogWorld) : (event : LogEvent) → Decidable (RenamesFresh world event)
  | .compact _ _ => inferInstanceAs (Decidable (_ ≠ _))
  | .append _ _ _ => isTrue trivial
  | .lookup _ _ => isTrue trivial

instance decidableFreshRun : (world : LogWorld) → (events : List LogEvent) →
    Decidable (FreshRun world events)
  | _, [] => isTrue trivial
  | world, event :: rest =>
    have := decidableFreshRun (world.step event) rest
    inferInstanceAs (Decidable (RenamesFresh world event ∧ FreshRun (world.step event) rest))

/-- The remembered fold cannot mislead a lookup in the file as it is. -/
def LogWorld.Invariant (world : LogWorld) : Prop :=
  match world.file with
  | none => world.folded.offset = 0
  | some file => Faithful world.folded file

/-- One event keeps the invariant when its compaction is fresh. -/
theorem LogWorld.step_invariant {world : LogWorld} {event : LogEvent} (h : world.Invariant)
    (hfresh : RenamesFresh world event) : (world.step event).Invariant := by
  obtain ⟨file, folded⟩ := world
  cases event with
  | append bytes device inode =>
    cases file with
    | none => exact Or.inl h
    | some file => exact faithful_append h bytes
  | compact device inode =>
    unfold LogWorld.step compact
    cases hfold : fold file with
    | error error => exact h
    | ok surviving => exact Or.inr (Or.inl hfresh)
  | lookup target source =>
    cases file with
    | none =>
      have hfst : (stagedFor none target source folded).1 = .restart (-1) (-1) := by
        rw [stagedFor_fst]
        rfl
      change (stagedFor none target source folded).1.offset = 0
      rw [hfst]
      rfl
    | some file => exact faithful_stagedFor h target source

/-- A run keeps the invariant when all of its compactions are fresh. -/
theorem LogWorld.run_invariant {world : LogWorld} {events : List LogEvent} (h : world.Invariant)
    (hfresh : FreshRun world events) : (world.run events).Invariant := by
  induction events generalizing world with
  | nil => exact h
  | cons event rest ih => exact ih (step_invariant h hfresh.1) hfresh.2

/-- An opened journal remembers nothing. -/
theorem LogWorld.opened_invariant (file : Option LogFile) : (opened file).Invariant := by
  cases file with
  | none => rfl
  | some file => exact Or.inl rfl

/-- The incremental fold agrees with a fold from scratch: in every run of appends, compactions
and lookups whose compactions never bring back the identity the fold remembers, a lookup answers
what folding the current file from byte zero and filtering the target's entry answers. -/
theorem stagedFor_eq_scratchLookup (file : Option LogFile) (events : List LogEvent)
    (hfresh : FreshRun (.opened file) events) (target : Bytes) (source : SourceIdentity) :
    let world := (LogWorld.opened file).run events
    (stagedFor world.file target source world.folded).2 =
      scratchLookup world.file target source := by
  intro world
  have hinvariant : world.Invariant :=
    LogWorld.run_invariant (LogWorld.opened_invariant file) hfresh
  obtain ⟨current, folded⟩ := world
  cases current with
  | none => rfl
  | some current => exact stagedFor_eq_scratch hinvariant target source

/-- An upload of an empty source staged at `s` for a target. -/
def sampleEntry (target : Bytes) : JournalEntry := entryOf [115] target ⟨[120], 0, 0⟩

/-- A torn record, its completion and a compaction between lookups. -/
def tornRun : List LogEvent :=
  [.append ((stagedLine (sampleEntry [97])).take 40) 1 5, .lookup [97] ⟨[120], 0, 0⟩,
    .append ((stagedLine (sampleEntry [97])).drop 40) 1 5, .lookup [97] ⟨[120], 0, 0⟩,
    .compact 1 6]

/-- The lookup after that run answers from the compacted file. -/
theorem stagedFor_eq_scratchLookup_tornRun :
    let world := (LogWorld.opened none).run tornRun
    (stagedFor world.file [97] ⟨[120], 0, 0⟩ world.folded).2 =
      scratchLookup world.file [97] ⟨[120], 0, 0⟩ :=
  stagedFor_eq_scratchLookup none tornRun (by decide +kernel) [97] ⟨[120], 0, 0⟩

/-- The file a compaction renames over the path is not the one it replaces. -/
def RenamesAnother (world : LogWorld) : LogEvent → Prop
  | .compact device inode => ∀ file ∈ world.file, (device, inode) ≠ (file.device, file.inode)
  | _ => True

/-- Every compaction of a run renames another file over the path. -/
def RenamingRun : LogWorld → List LogEvent → Prop
  | _, [] => True
  | world, event :: rest => RenamesAnother world event ∧ RenamingRun (world.step event) rest

instance (world : LogWorld) : (event : LogEvent) → Decidable (RenamesAnother world event)
  | .compact device inode =>
    inferInstanceAs (Decidable (∀ file ∈ world.file, (device, inode) ≠ (file.device, file.inode)))
  | .append _ _ _ => isTrue trivial
  | .lookup _ _ => isTrue trivial

instance decidableRenamingRun : (world : LogWorld) → (events : List LogEvent) →
    Decidable (RenamingRun world events)
  | _, [] => isTrue trivial
  | world, event :: rest =>
    have := decidableRenamingRun (world.step event) rest
    inferInstanceAs (Decidable (RenamesAnother world event ∧ RenamingRun (world.step event) rest))

/-- An append of whole records. -/
def AppendsRecord : LogEvent → Prop
  | .append bytes _ _ =>
    (∃ entry, bytes = stagedLine entry) ∨ ∃ target, bytes = publishedLine target
  | _ => True

/-- The inode that the fold remembers is freed by one compaction and used by the next, and a
record of the same length is appended. -/
def reusedInodeRun : List LogEvent :=
  [.append (stagedLine (sampleEntry [97])) 1 5, .lookup [97] ⟨[120], 0, 0⟩, .compact 1 6,
    .append (publishedLine [97]) 1 6, .compact 1 5, .append (stagedLine (sampleEntry [98])) 1 5]

/-- With every compaction renaming a file other than the one it replaces, a lookup can still
answer from a fold of another file: identity, length and the byte before the offset all fit. -/
theorem not_forall_stagedFor_eq_scratchLookup :
    ¬ ∀ events, RenamingRun (.opened none) events → (∀ event ∈ events, AppendsRecord event) →
      ∀ target source,
        let world := (LogWorld.opened none).run events
        (stagedFor world.file target source world.folded).2 =
          scratchLookup world.file target source := by
  intro h
  have hrenaming : RenamingRun (.opened none) reusedInodeRun := by decide +kernel
  have hrecords : ∀ event ∈ reusedInodeRun, AppendsRecord event := by
    intro event hmem
    simp only [reusedInodeRun, List.mem_cons, List.not_mem_nil, or_false] at hmem
    obtain rfl | rfl | rfl | rfl | rfl | rfl := hmem
    · exact Or.inl ⟨_, rfl⟩
    · trivial
    · trivial
    · exact Or.inr ⟨_, rfl⟩
    · trivial
    · exact Or.inl ⟨_, rfl⟩
  have hstale : (stagedFor ((LogWorld.opened none).run reusedInodeRun).file [97] ⟨[120], 0, 0⟩
      ((LogWorld.opened none).run reusedInodeRun).folded).2 = .ok (some [115]) := by
    decide +kernel
  have hscratch : scratchLookup ((LogWorld.opened none).run reusedInodeRun).file [97]
      ⟨[120], 0, 0⟩ = .ok none := by
    decide +kernel
  have hequal := (hstale.symm.trans (h reusedInodeRun hrenaming hrecords [97] ⟨[120], 0, 0⟩)).trans
    hscratch
  cases hequal

end GantrySftp
