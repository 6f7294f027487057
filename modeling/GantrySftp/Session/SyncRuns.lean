import GantrySftp.Library.Machine
import GantrySftp.Session.LogAppends
import GantrySftp.Session.LogCompaction
import GantrySftp.Session.SyncCompare

/-!
# Mirrors one after the other

A mirror reads its manifest, lists each directory, compares each file with what is recorded of it,
sends what may have changed and records what was sent. Files are edited in between, appends to the
manifest fall short, and a mirror may be stopped at any moment and another one started. What a
mirror skips is what it found at the destination, as long as nothing is edited while it is sent.
-/

namespace GantrySftp

open Library

/-! ## The state of a mirror -/

/-- A local file: what it holds, and what `stat` says of it. -/
structure LocalCopy (α : Type) where
  content : α
  facts : LocalFacts

/-- A remote file: what it holds, and the size and the time that are reported for it. -/
structure RemoteCopy (α : Type) where
  content : α
  size : ℤ
  mtime : ℤ

/-- How far a file that is to be sent has come. -/
inductive SendStage
  | waiting | reading | sent
  | landed (attrs : Attrs)
  deriving DecidableEq

/-- What the server said of a file that landed. -/
def SendStage.attrs : SendStage → Option Attrs
  | .landed attrs => some attrs
  | _ => none

/-- The server said something of a file that landed, and of no other. -/
theorem SendStage.attrs_eq_some_iff {stage : SendStage} {attrs : Attrs} :
    stage.attrs = some attrs ↔ stage = .landed attrs := by
  cases stage <;> simp [SendStage.attrs]

/-- A file that is to be sent. -/
structure SyncSend where
  target : Bytes
  verdict : Comparison
  stage : SendStage

/-- What was decided about one file, and what it came to. -/
structure SyncOutcome where
  remotePath : Bytes
  decision : SyncDecision
  reason : SyncReason
  transferred : ℕ := 0

/-- A mirror under way: what it knows as recorded, the directory it looks at with its listing, what
is to be sent, and what was decided. What the files held when they were listed is remembered
beside it, and which files were considered. -/
structure SyncRun (α : Type) where
  recorded : ManifestEntries
  directory : Bytes := []
  present : Dict Bytes Attrs := .empty
  sends : List SyncSend := []
  outcomes : List SyncOutcome := []
  listed : Bytes → Option α := fun _ => none
  considered : List Bytes := []

/-- The files of both sides by remote path, the manifest, and the mirror under way. -/
structure SyncWorld (α : Type) where
  here : Bytes → Option (LocalCopy α)
  there : Bytes → Option (RemoteCopy α)
  manifest : Option Bytes
  run : Option (SyncRun α)

/-- What happens to a mirror, and around it. -/
inductive SyncEvent (α : Type)
  | editsLocal (target : Bytes) (copy : Option (LocalCopy α))
  | editsRemote (target : Bytes) (copy : Option (RemoteCopy α))
  | starts
  | lists (directory : Bytes) (listing : List DirEntry)
  | considers (name : Bytes)
  | begins (index : ℕ)
  | sends (index : ℕ) (size mtime : ℤ) (transferred : ℕ)
  | stats (index : ℕ) (attrs : Attrs)
  | records (index accepted : ℕ)
  | saves
  | stops

variable {α : Type}

/-! ## Its steps -/

/-- A listing by name; of entries with one name, the last. -/
def listingByName (listing : List DirEntry) : Dict Bytes Attrs :=
  Dict.empty.updateAll (listing.map fun entry => { key := entry.filename, value := some entry.attrs })

namespace SyncRun

/-- The path a file of the directory is sent to. -/
def target (run : SyncRun α) (name : Bytes) : Bytes := joinRemote run.directory name

/-- What the comparison of one file comes to. -/
def compare (run : SyncRun α) (name : Bytes) (copy : LocalCopy α) : Comparison :=
  compareForSync (localDirEntry name copy.facts).attrs (run.present.get name)
    (run.recorded.get (decodeName (run.target name)))

/-- A file is to be sent, or its outcome is known. -/
def decide (run : SyncRun α) (target : Bytes) (verdict : Comparison) : SyncRun α :=
  let run := { run with considered := run.considered ++ [target] }
  if verdict.transfers then
    { run with sends := run.sends ++ [⟨target, verdict, .waiting⟩] }
  else
    { run with outcomes := run.outcomes ++ [⟨target, verdict.decision, verdict.reason, 0⟩] }

/-- A file that is to be sent comes to another stage. -/
def moveTo (run : SyncRun α) (index : ℕ) (send : SyncSend) (stage : SendStage) : SyncRun α :=
  { run with sends := run.sends.set index { send with stage := stage } }

/-- A file has been sent. -/
def afterSending (run : SyncRun α) (index : ℕ) (send : SyncSend) (transferred : ℕ) : SyncRun α :=
  { run.moveTo index send .sent with
    outcomes := run.outcomes ++
      [⟨send.target, send.verdict.decision, send.verdict.reason, transferred⟩] }

end SyncRun

namespace SyncWorld

/-- Start a mirror on the manifest, which is created if it is missing. -/
def start (world : SyncWorld α) : Option (SyncWorld α) := do
  guard world.run.isNone
  let manifest := world.manifest.getD []
  let recorded ← (foldManifest (some manifest)).toOption
  some { world with manifest := some manifest, run := some { recorded := recorded } }

/-- Look at a directory. -/
def list (world : SyncWorld α) (directory : Bytes) (listing : List DirEntry) :
    Option (SyncWorld α) := do
  let run ← world.run
  some { world with
    run := some { run with
      directory := directory
      present := listingByName listing
      listed := fun target => (world.there target).map RemoteCopy.content } }

/-- Compare a file of the directory. -/
def consider (world : SyncWorld α) (name : Bytes) : Option (SyncWorld α) := do
  let run ← world.run
  let copy ← world.here (run.target name)
  some { world with run := some (run.decide (run.target name) (run.compare name copy)) }

/-- Take a file that is to be sent from one stage to another. -/
def advance (world : SyncWorld α) (index : ℕ) (stage next : SendStage) : Option (SyncWorld α) := do
  let run ← world.run
  let send ← run.sends[index]?
  guard (send.stage = stage)
  some { world with run := some (run.moveTo index send next) }

/-- Have a file that was being read at the destination, under a size and a time of the server's. -/
def send (world : SyncWorld α) (index : ℕ) (size mtime : ℤ) (transferred : ℕ) :
    Option (SyncWorld α) := do
  let run ← world.run
  let send ← run.sends[index]?
  guard (send.stage = .reading)
  let copy ← world.here send.target
  some { world with
    there := Function.update world.there send.target (some ⟨copy.content, size, mtime⟩)
    run := some (run.afterSending index send transferred) }

/-- Append an entry to the manifest, of which so many bytes are accepted, and remember it. -/
def note (world : SyncWorld α) (run : SyncRun α) (target : Bytes) (entry : ManifestEntry)
    (accepted : ℕ) : SyncWorld α :=
  { world with
    manifest := some (world.manifest.getD [] ++
      (manifestLine (decodeName target) entry).take accepted)
    run := some { run with recorded := recordEntry run.recorded target entry } }

/-- Record a file that was sent, if the server said enough of what landed. -/
def record (world : SyncWorld α) (index accepted : ℕ) : Option (SyncWorld α) := do
  let run ← world.run
  let send ← run.sends[index]?
  let landed ← send.stage.attrs
  let copy ← world.here send.target
  let run := { run with sends := run.sends.eraseIdx index }
  some ((manifestEntryFor copy.facts landed).elim { world with run := some run } fun entry =>
    world.note run send.target entry accepted)

/-- Rewrite the manifest, where everything was sent: the pool that sends the files has returned, and
it does so only once each of them was handled (`Pool.pool_exact`). -/
def save (world : SyncWorld α) : Option (SyncWorld α) := do
  let run ← world.run
  guard run.sends.isEmpty
  some { world with manifest := some (manifestPayload run.recorded), run := none }

/-- What happens next. A mirror that fails or is killed is gone. -/
def step (world : SyncWorld α) : SyncEvent α → Option (SyncWorld α)
  | .editsLocal target copy => some { world with here := Function.update world.here target copy }
  | .editsRemote target copy =>
    some { world with there := Function.update world.there target copy }
  | .starts => world.start
  | .lists directory listing => world.list directory listing
  | .considers name => world.consider name
  | .begins index => world.advance index .waiting .reading
  | .sends index size mtime transferred => world.send index size mtime transferred
  | .stats index attrs => world.advance index .sent (.landed attrs)
  | .records index accepted => world.record index accepted
  | .saves => world.save
  | .stops => some { world with run := none }

end SyncWorld

/-! ## What a mirror relies on -/

section

variable (localAt remoteAt : Bytes → ℤ → ℤ → α)

/-- An entry is right where what it says of both sides stands for one content. -/
def ManifestEntry.IsRight (key : Text) (entry : ManifestEntry) : Prop :=
  ∀ target, decodeName target = key →
    localAt target entry.localSize entry.localMtime =
      remoteAt target entry.remoteSize entry.remoteMtime

/-- The size and the time that are reported for a path are those of its file. -/
def SyncWorld.Reports (world : SyncWorld α) (target : Bytes) (attrs : Attrs) : Prop :=
  ∀ size mtime, attrs.Stamped size mtime →
    ∃ copy, world.there target = some copy ∧ copy.size = size ∧ copy.mtime = mtime

/-- A size and a time always stand for one content on either side, the server reports them as they
are, and nothing is edited here while it is read, sent and recorded, nor there once it is sent. An
append accepts a byte at least. -/
def SyncWorld.Fair (world : SyncWorld α) : SyncEvent α → Prop
  | .editsLocal target copy =>
    (∀ new ∈ copy, new.content = localAt target new.facts.size new.facts.times.mtime) ∧
      ∀ run ∈ world.run, ∀ send ∈ run.sends, send.target = target → send.stage = .waiting
  | .editsRemote target copy =>
    (∀ new ∈ copy, new.content = remoteAt target new.size new.mtime) ∧
      ∀ run ∈ world.run, ∀ send ∈ run.sends, send.target = target →
        send.stage = .waiting ∨ send.stage = .reading
  | .lists directory listing =>
    ∀ entry ∈ listing, world.Reports (joinRemote directory entry.filename) entry.attrs
  | .sends index size mtime _ =>
    ∀ run ∈ world.run, ∀ send ∈ run.sends[index]?, ∀ copy ∈ world.here send.target,
      copy.content = remoteAt send.target size mtime
  | .stats index attrs =>
    ∀ run ∈ world.run, ∀ send ∈ run.sends[index]?, world.Reports send.target attrs
  | .records index accepted =>
    0 < accepted ∧
      ∀ run ∈ world.run, ∀ send ∈ run.sends[index]?, ∀ copy ∈ world.here send.target,
        ∀ landed ∈ send.stage.attrs, ∀ entry ∈ manifestEntryFor copy.facts landed, entry.Fits
  | _ => True

/-- A file that is to be sent is, once it is there, what it is here. -/
def SyncSend.Sound (world : SyncWorld α) (send : SyncSend) : Prop :=
  match send.stage with
  | .waiting | .reading => True
  | .sent =>
    ∃ copy landed, world.here send.target = some copy ∧ world.there send.target = some landed ∧
      copy.content = landed.content
  | .landed attrs =>
    ∀ size mtime, attrs.Stamped size mtime →
      ∃ copy, world.here send.target = some copy ∧ copy.content = remoteAt send.target size mtime

/-- A mirror knows nothing wrong. -/
structure SyncRun.Sound (world : SyncWorld α) (run : SyncRun α) : Prop where
  recorded : ∀ key entry, run.recorded.get key = some entry →
    Spellable key ∧ entry.Fits ∧ entry.IsRight localAt remoteAt key
  listed : ∀ name attrs, run.present.get name = some attrs → ∀ size mtime,
    attrs.Stamped size mtime →
      run.listed (run.target name) = some (remoteAt (run.target name) size mtime)
  sends : ∀ send ∈ run.sends, send.Sound remoteAt world

/-- A manifest to which only right entries were appended. -/
def RightManifest (manifest : Option Bytes) : Prop :=
  ∃ appends, (∀ append ∈ appends, 0 < append.accepted ∧
      append.record.entry.IsRight localAt remoteAt append.record.target) ∧
    manifest.getD [] = manifestLog.content appends

/-- The files are what their sizes and times stand for, the manifest and a mirror under way know
nothing wrong. -/
structure SyncWorld.Sound (world : SyncWorld α) : Prop where
  here : ∀ target copy, world.here target = some copy →
    copy.content = localAt target copy.facts.size copy.facts.times.mtime
  there : ∀ target copy, world.there target = some copy →
    copy.content = remoteAt target copy.size copy.mtime
  manifest : RightManifest localAt remoteAt world.manifest
  run : ∀ run, world.run = some run → run.Sound localAt remoteAt world

end

/-! ## What it keeps -/

variable {localAt remoteAt : Bytes → ℤ → ℤ → α} {world next : SyncWorld α}

/-- A file that is to be sent stays what it is where both sides do. -/
theorem SyncSend.Sound.congr {send : SyncSend} (h : send.Sound remoteAt world)
    (hhere : next.here send.target = world.here send.target)
    (hthere : next.there send.target = world.there send.target) : send.Sound remoteAt next := by
  unfold SyncSend.Sound at h ⊢
  rwa [hhere, hthere]

/-- A mirror stays sound where the files do. -/
theorem SyncRun.Sound.congr {run : SyncRun α} (h : run.Sound localAt remoteAt world)
    (hhere : next.here = world.here) (hthere : next.there = world.there) :
    run.Sound localAt remoteAt next :=
  ⟨h.recorded, h.listed, fun send hmem => (h.sends send hmem).congr (by rw [hhere]) (by rw [hthere])⟩

/-- Folding what appends leave makes the changes they state. -/
theorem foldManifest_content {appends : List (Library.Appended ManifestRecord)}
    (hpositive : ∀ append ∈ appends, 0 < append.accepted) :
    foldManifest (some (manifestLog.content appends)) =
      .ok (Dict.empty.updateAll (manifestLog.stated .clean appends)) := by
  obtain ⟨hchanges, hraised⟩ := RecordLog.changes_content .clean hpositive
  have hcontent : bytesOf ([] : List Text).flatten ++ manifestLog.content appends =
      manifestLog.content appends := rfl
  have hread : manifestLog.read = foldLine := rfl
  rw [hcontent, hread] at hchanges hraised
  rw [foldManifest_eq, hraised, hchanges]

/-- Entries can be rewritten where each of them that is found can. -/
theorem ManifestEntries.fits_iff {entries : ManifestEntries} :
    entries.Fits ↔ ∀ key entry, entries.get key = some entry → Spellable key ∧ entry.Fits := by
  constructor
  · intro h key entry hget
    exact h (key, entry) ((getEntry_eq_some_iff entries.nodup).mp hget)
  · rintro h ⟨key, entry⟩ hmem
    exact h key entry ((getEntry_eq_some_iff entries.nodup).mpr hmem)

/-- A rewritten manifest is the lines of records of its entries. -/
theorem exists_payload_records {entries : ManifestEntries} (h : entries.Fits) :
    ∃ records : List ManifestRecord,
      manifestPayload entries = records.flatMap manifestLog.line ∧
        ∀ record ∈ records, entries.get record.target = some record.entry := by
  have hperm := List.perm_insertionSort
    (fun left right : Text × ManifestEntry => left.1 ≤ right.1) entries.entries
  obtain ⟨records, hlines, hchanges⟩ := exists_sent_records
    fun item hmem => h item (hperm.mem_iff.mp hmem)
  refine ⟨records, hlines, fun record hrecord => ?_⟩
  have hchange : record.change ∈ records.map ManifestRecord.change := List.mem_map_of_mem hrecord
  rw [hchanges] at hchange
  obtain ⟨item, hitem, hsame⟩ := List.mem_map.mp hchange
  injection hsame with hkey hvalue
  injection hvalue with hentry
  rw [← hkey, ← hentry]
  exact (getEntry_eq_some_iff entries.nodup).mpr (hperm.mem_iff.mp hitem)

/-- Entries that records can state, all of them right, are rewritten as right appends. -/
theorem rightManifest_manifestPayload {entries : ManifestEntries}
    (h : ∀ key entry, entries.get key = some entry →
      Spellable key ∧ entry.Fits ∧ entry.IsRight localAt remoteAt key) :
    RightManifest localAt remoteAt (some (manifestPayload entries)) := by
  obtain ⟨records, hlines, hget⟩ := exists_payload_records <| ManifestEntries.fits_iff.mpr
    fun key entry hfound => ⟨(h key entry hfound).1, (h key entry hfound).2.1⟩
  refine ⟨records.map fun record => ⟨record, (manifestLog.line record).length⟩, ?_, ?_⟩
  · intro append hmem
    obtain ⟨record, hrecord, rfl⟩ := List.mem_map.mp hmem
    refine ⟨?_, (h _ _ (hget record hrecord)).2.2⟩
    simp [RecordLog.line, bytesOf]
  · rw [Option.getD_some, hlines]
    simp [RecordLog.content, RecordLog.bytes, List.flatMap_map]

/-- A right manifest folds to entries that are right. -/
theorem RightManifest.fold {manifest : Option Bytes} (h : RightManifest localAt remoteAt manifest)
    {recorded : ManifestEntries}
    (hfold : foldManifest (some (manifest.getD [])) = .ok recorded) (key : Text)
    (entry : ManifestEntry) (hget : recorded.get key = some entry) :
    Spellable key ∧ entry.Fits ∧ entry.IsRight localAt remoteAt key := by
  obtain ⟨appends, hright, hcontent⟩ := h
  rw [hcontent, foldManifest_content fun append hmem => (hright append hmem).1] at hfold
  cases hfold
  obtain ⟨append, hmem, hchange⟩ := RecordLog.mem_stated_clean (Dict.mem_of_get_updateAll hget)
  obtain ⟨⟨target, sent, hspellable, hfits⟩, accepted⟩ := append
  cases hchange
  exact ⟨hspellable, hfits, (hright _ hmem).2⟩

/-! ## Steps -/

/-- What holds of all files holds of them after one is replaced by a file it holds of. -/
theorem holds_update {β : Type} {files : Bytes → Option β} {Holds : Bytes → β → Prop}
    (h : ∀ target copy, files target = some copy → Holds target copy) {target : Bytes}
    {replaced : Option β} (hreplaced : ∀ copy ∈ replaced, Holds target copy) (other : Bytes)
    (copy : β) (hcopy : Function.update files target replaced other = some copy) :
    Holds other copy := by
  by_cases hother : other = target
  · subst hother
    rw [Function.update_self] at hcopy
    exact hreplaced copy hcopy
  · rw [Function.update_of_ne hother] at hcopy
    exact h other copy hcopy

/-- An edit here keeps everything. -/
theorem SyncWorld.Sound.editLocal (h : world.Sound localAt remoteAt) {target : Bytes}
    {copy : Option (LocalCopy α)} (hfair : world.Fair localAt remoteAt (.editsLocal target copy)) :
    { world with here := Function.update world.here target copy }.Sound localAt remoteAt where
  here := holds_update h.here hfair.1
  there := h.there
  manifest := h.manifest
  run run hrun := by
    refine ⟨(h.run run hrun).recorded, (h.run run hrun).listed, fun send hmem => ?_⟩
    by_cases htarget : send.target = target
    · have hwaiting := hfair.2 run hrun send hmem htarget
      simp only [SyncSend.Sound, hwaiting]
    · exact ((h.run run hrun).sends send hmem).congr (Function.update_of_ne htarget _ _) rfl

/-- An edit there keeps everything. -/
theorem SyncWorld.Sound.editRemote (h : world.Sound localAt remoteAt) {target : Bytes}
    {copy : Option (RemoteCopy α)}
    (hfair : world.Fair localAt remoteAt (.editsRemote target copy)) :
    { world with there := Function.update world.there target copy }.Sound localAt remoteAt where
  here := h.here
  there := holds_update h.there hfair.1
  manifest := h.manifest
  run run hrun := by
    refine ⟨(h.run run hrun).recorded, (h.run run hrun).listed, fun send hmem => ?_⟩
    by_cases htarget : send.target = target
    · obtain hstage | hstage := hfair.2 run hrun send hmem htarget
      · simp only [SyncSend.Sound, hstage]
      · simp only [SyncSend.Sound, hstage]
    · exact ((h.run run hrun).sends send hmem).congr rfl (Function.update_of_ne htarget _ _)

/-- A mirror under way that is sound is all that changes. -/
theorem SyncWorld.Sound.withRun (h : world.Sound localAt remoteAt) {run : SyncRun α}
    (hrun : run.Sound localAt remoteAt world) :
    { world with run := some run }.Sound localAt remoteAt where
  here := h.here
  there := h.there
  manifest := h.manifest
  run other hother := by
    obtain rfl := Option.some.inj hother
    exact hrun.congr rfl rfl

/-- A mirror that starts knows what its manifest says. -/
theorem SyncWorld.Sound.start (h : world.Sound localAt remoteAt) (hstep : world.start = some next) :
    next.Sound localAt remoteAt := by
  simp only [SyncWorld.start, bind, Option.bind_eq_some_iff, Option.some.injEq] at hstep
  obtain ⟨_, -, recorded, hfold, rfl⟩ := hstep
  have hrecorded : foldManifest (some (world.manifest.getD [])) = .ok recorded := by
    cases hraised : foldManifest (some (world.manifest.getD [])) with
    | error error =>
      rw [hraised] at hfold
      cases hfold
    | ok found =>
      rw [hraised] at hfold
      exact congrArg Except.ok (Option.some.inj hfold)
  refine ⟨h.here, h.there, h.manifest, fun run hrun => ?_⟩
  obtain rfl := Option.some.inj hrun
  exact ⟨fun key entry => h.manifest.fold hrecorded key entry, fun _ _ hpresent => (by cases hpresent),
    fun _ hmem => absurd hmem List.not_mem_nil⟩

/-- A listing reports what the files are. -/
theorem SyncWorld.Sound.list (h : world.Sound localAt remoteAt) {directory : Bytes}
    {listing : List DirEntry} (hfair : world.Fair localAt remoteAt (.lists directory listing))
    (hstep : world.list directory listing = some next) : next.Sound localAt remoteAt := by
  simp only [SyncWorld.list, bind, Option.bind_eq_some_iff, Option.some.injEq] at hstep
  obtain ⟨run, hrun, rfl⟩ := hstep
  refine h.withRun ⟨(h.run run hrun).recorded, fun name attrs hpresent size mtime hstamped => ?_,
    (h.run run hrun).sends⟩
  obtain ⟨entry, hentry, hsame⟩ := List.mem_map.mp (Dict.mem_of_get_updateAll hpresent)
  have hname : entry.filename = name := congrArg Update.key hsame
  have hattrs : entry.attrs = attrs := Option.some.inj (congrArg Update.value hsame)
  subst hname hattrs
  obtain ⟨copy, hcopy, rfl, rfl⟩ := hfair entry hentry size mtime hstamped
  change (world.there (joinRemote directory entry.filename)).map RemoteCopy.content = some _
  rw [hcopy]
  exact congrArg some (h.there _ _ hcopy)

/-- A file that waits to be sent has nothing to be right about. -/
theorem SyncWorld.Sound.consider (h : world.Sound localAt remoteAt) {name : Bytes}
    (hstep : world.consider name = some next) : next.Sound localAt remoteAt := by
  simp only [SyncWorld.consider, bind, Option.bind_eq_some_iff, Option.some.injEq] at hstep
  obtain ⟨run, hrun, copy, -, rfl⟩ := hstep
  have hsound := h.run run hrun
  refine h.withRun ?_
  unfold SyncRun.decide
  split_ifs
  · refine ⟨hsound.recorded, hsound.listed, fun send hmem => ?_⟩
    obtain hmem | hmem := List.mem_append.mp hmem
    · exact hsound.sends send hmem
    · obtain rfl := List.mem_singleton.mp hmem
      trivial
  · exact ⟨hsound.recorded, hsound.listed, hsound.sends⟩

/-- A file comes to a stage where it is what the stage says. -/
theorem SyncRun.Sound.moveTo {run : SyncRun α} (h : run.Sound localAt remoteAt world) (index : ℕ)
    {send : SyncSend} {stage : SendStage}
    (hstage : { send with stage := stage }.Sound remoteAt world) :
    (run.moveTo index send stage).Sound localAt remoteAt world :=
  ⟨h.recorded, h.listed, forall_mem_set h.sends index hstage⟩

/-- A file is taken to another stage. -/
theorem SyncWorld.Sound.advance (h : world.Sound localAt remoteAt) {index : ℕ}
    {stage after : SendStage}
    (hafter : ∀ run ∈ world.run, ∀ send ∈ run.sends[index]?, send.stage = stage →
      send.Sound remoteAt world → { send with stage := after }.Sound remoteAt world)
    (hstep : world.advance index stage after = some next) : next.Sound localAt remoteAt := by
  simp only [SyncWorld.advance, bind, Option.bind_eq_some_iff, Option.some.injEq] at hstep
  obtain ⟨run, hrun, send, hsend, _, hguard, rfl⟩ := hstep
  have hstage : send.stage = stage := (Option.guard_eq_some' _).mp hguard
  have hsound := h.run run hrun
  have hmoved := hafter run hrun send hsend hstage (hsound.sends send (List.mem_of_getElem? hsend))
  exact h.withRun (hsound.moveTo index hmoved)

/-- What a file was read as is what is there once it is sent. -/
theorem SyncWorld.Sound.send (h : world.Sound localAt remoteAt) {index : ℕ} {size mtime : ℤ}
    {transferred : ℕ}
    (hfair : world.Fair localAt remoteAt (.sends index size mtime transferred))
    (hstep : world.send index size mtime transferred = some next) :
    next.Sound localAt remoteAt := by
  simp only [SyncWorld.send, bind, Option.bind_eq_some_iff, Option.some.injEq] at hstep
  obtain ⟨run, hrun, send, hsend, -, -, copy, hcopy, rfl⟩ := hstep
  have hsound := h.run run hrun
  have hcontent := hfair run hrun send hsend copy hcopy
  refine ⟨h.here, holds_update h.there fun landed hlanded => ?_, h.manifest, fun other hother => ?_⟩
  · obtain rfl := Option.some.inj hlanded
    exact hcontent
  · obtain rfl := Option.some.inj hother
    refine ⟨hsound.recorded, hsound.listed, forall_mem_set (fun pending hmem => ?_) index ?_⟩
    · have hpending := hsound.sends pending hmem
      by_cases htarget : pending.target = send.target
      · unfold SyncSend.Sound at hpending ⊢
        rw [htarget] at hpending ⊢
        -- another transfer to the same path leaves the same content there
        cases hstage : pending.stage with
        | waiting => trivial
        | reading => trivial
        | sent => exact ⟨copy, ⟨copy.content, size, mtime⟩, hcopy, Function.update_self _ _ _, rfl⟩
        | landed attrs =>
          rw [hstage] at hpending
          exact hpending
      · exact hpending.congr rfl (Function.update_of_ne htarget _ _)
    · exact ⟨copy, ⟨copy.content, size, mtime⟩, hcopy, Function.update_self _ _ _, rfl⟩

/-- What is recorded of a file that landed is right. -/
theorem isRight_manifestEntryFor (h : world.Sound localAt remoteAt) {send : SyncSend}
    {copy : LocalCopy α} {landed : Attrs} {entry : ManifestEntry}
    (hsend : send.Sound remoteAt world) (hlanded : send.stage = .landed landed)
    (hcopy : world.here send.target = some copy)
    (hentry : manifestEntryFor copy.facts landed = some entry) :
    entry.IsRight localAt remoteAt (decodeName send.target) := by
  intro target htarget
  obtain rfl := StateFile.decodeName_injective htarget
  obtain ⟨hsize, hmtime, hstamped⟩ := manifestEntryFor_eq_some_iff.mp hentry
  unfold SyncSend.Sound at hsend
  rw [hlanded] at hsend
  obtain ⟨copy', hcopy', hcontent⟩ := hsend _ _ hstamped
  obtain rfl := Option.some.inj (hcopy.symm.trans hcopy')
  rw [hsize, hmtime, ← hcontent]
  exact (h.here _ _ hcopy).symm

/-- A right entry is noted, however much of its line is accepted. -/
theorem SyncWorld.Sound.note (h : world.Sound localAt remoteAt) {run : SyncRun α}
    (hrun : run.Sound localAt remoteAt world) {target : Bytes} {entry : ManifestEntry}
    (hfits : entry.Fits) (hright : entry.IsRight localAt remoteAt (decodeName target))
    {accepted : ℕ} (haccepted : 0 < accepted) :
    (world.note run target entry accepted).Sound localAt remoteAt := by
  refine ⟨h.here, h.there, ?_, fun other hother => ?_⟩
  · obtain ⟨appends, happends, hcontent⟩ := h.manifest
    refine ⟨appends ++ [⟨⟨decodeName target, entry, spellable_decodeUtf8 target, hfits⟩, accepted⟩],
      fun append hmem => ?_, ?_⟩
    · obtain hmem | hmem := List.mem_append.mp hmem
      · exact happends append hmem
      · obtain rfl := List.mem_singleton.mp hmem
        exact ⟨haccepted, hright⟩
    · change world.manifest.getD [] ++ _ = _
      rw [hcontent]
      simp [RecordLog.content, RecordLog.bytes, manifestLog_line]
  · obtain rfl := Option.some.inj hother
    refine ⟨fun key other hget => ?_, hrun.listed, hrun.sends⟩
    have hset : (run.recorded.set (decodeName target) entry).get key = some other := hget
    rw [Dict.get_set] at hset
    split_ifs at hset with hkey
    · obtain rfl := Option.some.inj hset
      subst hkey
      exact ⟨spellable_decodeUtf8 target, hfits, hright⟩
    · exact hrun.recorded key other hset

/-- A file that was sent is recorded as it is. -/
theorem SyncWorld.Sound.record (h : world.Sound localAt remoteAt) {index accepted : ℕ}
    (hfair : world.Fair localAt remoteAt (.records index accepted))
    (hstep : world.record index accepted = some next) : next.Sound localAt remoteAt := by
  simp only [SyncWorld.record, bind, Option.bind_eq_some_iff, Option.some.injEq] at hstep
  obtain ⟨run, hrun, send, hsend, landed, hlanded, copy, hcopy, rfl⟩ := hstep
  have hsound := h.run run hrun
  have hkept : { run with sends := run.sends.eraseIdx index }.Sound localAt remoteAt world :=
    ⟨hsound.recorded, hsound.listed, fun other hmem =>
      hsound.sends other (List.mem_of_mem_eraseIdx hmem)⟩
  have hstage : send.stage = .landed landed := SendStage.attrs_eq_some_iff.mp hlanded
  cases hentry : manifestEntryFor copy.facts landed with
  | none => exact h.withRun hkept
  | some entry =>
    have hfits := hfair.2 run hrun send hsend copy hcopy landed hlanded entry hentry
    exact h.note hkept hfits (isRight_manifestEntryFor h
      (hsound.sends send (List.mem_of_getElem? hsend)) hstage hcopy hentry) hfair.1

/-- What a mirror knows is what its manifest says afterwards. -/
theorem SyncWorld.Sound.save (h : world.Sound localAt remoteAt) (hstep : world.save = some next) :
    next.Sound localAt remoteAt := by
  simp only [SyncWorld.save, bind, Option.bind_eq_some_iff, Option.some.injEq] at hstep
  obtain ⟨run, hrun, -, -, rfl⟩ := hstep
  exact ⟨h.here, h.there, rightManifest_manifestPayload (h.run run hrun).recorded,
    fun _ hgone => (by cases hgone)⟩

/-- Every fair step keeps everything. -/
theorem SyncWorld.Sound.step (h : world.Sound localAt remoteAt) {event : SyncEvent α}
    (hfair : world.Fair localAt remoteAt event) (hstep : world.step event = some next) :
    next.Sound localAt remoteAt := by
  cases event with
  | editsLocal target copy => exact Option.some.inj hstep ▸ h.editLocal hfair
  | editsRemote target copy => exact Option.some.inj hstep ▸ h.editRemote hfair
  | starts => exact h.start hstep
  | lists directory listing => exact h.list hfair hstep
  | considers name => exact h.consider hstep
  | begins index =>
    have hadvance : world.advance index .waiting .reading = some next := hstep
    refine h.advance ?_ hadvance
    intro run _ send _ _ _
    trivial
  | sends index size mtime transferred => exact h.send hfair hstep
  | stats index attrs =>
    have hadvance : world.advance index .sent (.landed attrs) = some next := hstep
    refine h.advance ?_ hadvance
    intro run hrun send hsend hstage hsound size mtime hstamped
    unfold SyncSend.Sound at hsound
    rw [hstage] at hsound
    obtain ⟨copy, landed, hcopy, hlanded, hcontent⟩ := hsound
    obtain ⟨reported, hreported, rfl, rfl⟩ := hfair run hrun send hsend size mtime hstamped
    obtain rfl := Option.some.inj (hlanded.symm.trans hreported)
    exact ⟨copy, hcopy, hcontent.trans (h.there _ _ hlanded)⟩
  | records index accepted => exact h.record hfair hstep
  | saves => exact h.save hstep
  | stops =>
    rw [← Option.some.inj hstep]
    exact ⟨h.here, h.there, h.manifest, fun _ hgone => (by cases hgone)⟩

/-! ## Runs -/

/-- What a sound mirror skips is at the destination what it is here. -/
theorem SyncRun.Sound.skipped {run : SyncRun α} (h : run.Sound localAt remoteAt world)
    (hworld : world.Sound localAt remoteAt) {name : Bytes} {copy : LocalCopy α}
    (hcopy : world.here (run.target name) = some copy)
    (hskipped : (run.compare name copy).decision = .skipped) :
    run.listed (run.target name) = some copy.content := by
  obtain ⟨entry, attrs, hentry, hattrs, hhere, hthere⟩ := compareForSync_skipped_iff.mp hskipped
  obtain ⟨hsize, hmtime⟩ := localDirEntry_stamped_iff.mp hhere
  have hright := (h.recorded _ _ hentry).2.2 _ rfl
  rw [h.listed name attrs hattrs _ _ hthere, ← hright, ← hsize, ← hmtime]
  exact congrArg some (hworld.here _ _ hcopy).symm

/-- What mirrors skip is at the destination: over any runs on one manifest, finished, stopped or
killed at any moment and their appends cut short, and over any edits of either side, a file that a
mirror skips held there, when its directory was listed, what it holds here when it is compared. A
size and a time stand for one content, and nothing is edited while it is sent and recorded. -/
theorem mirror_skips_what_is_there {start world : SyncWorld α} {events : List (SyncEvent α)}
    (hstart : start.Sound localAt remoteAt)
    (hsteps : AllowedSteps SyncWorld.step (SyncWorld.Fair localAt remoteAt) start events world)
    {run : SyncRun α}
    (hrun : world.run = some run) {name : Bytes} {copy : LocalCopy α}
    (hcopy : world.here (run.target name) = some copy)
    (hskipped : (run.compare name copy).decision = .skipped) :
    run.listed (run.target name) = some copy.content := by
  have hworld : world.Sound localAt remoteAt :=
    hsteps.preserves (fun _ _ _ hsound hfair hstep => hsound.step hfair hstep) hstart
  exact (hworld.run run hrun).skipped hworld hcopy hskipped

/-- A local file whose content stands for its time. -/
def sampleCopy : LocalCopy ℤ := ⟨10, 3, ⟨10, 10⟩, 0o100644⟩

/-- What the server reports of the file once it was sent. -/
def sampleReport : Attrs := { size := some 3, times := some ⟨20, 20⟩ }

/-- The record of the file. -/
def sampleSent : ManifestRecord where
  target := decodeName [slash, 0x61]
  entry := ⟨3, 10, 3, 20⟩
  spellable := spellable_decodeUtf8 _
  fits := ⟨by decide +kernel, by decide +kernel, by decide +kernel, by decide +kernel⟩

/-- Where nothing is, and nothing was sent. -/
def blankWorld : SyncWorld ℤ where
  here _ := none
  there _ := none
  manifest := none
  run := none

/-- Two files of one directory, and another one at the destination. -/
def editedWorld : SyncWorld ℤ where
  here := Function.update (Function.update blankWorld.here [slash, 0x61] (some sampleCopy))
    [slash, 0x62] (some sampleCopy)
  there := Function.update blankWorld.there [slash, 0x63] (some ⟨7, 1, 17⟩)
  manifest := none
  run := none

/-- A first mirror, which sends the one file. -/
def firstRun (stage : SendStage) (outcomes : List SyncOutcome) : SyncRun ℤ where
  recorded := Dict.empty.updateAll []
  directory := [slash]
  present := listingByName []
  sends := [⟨[slash, 0x61], ⟨.transfer, .noRecord⟩, stage⟩]
  outcomes := outcomes
  listed target := (editedWorld.there target).map RemoteCopy.content
  considered := [[slash, 0x61]]

/-- The file was sent and recorded. -/
def sentWorld : SyncWorld ℤ :=
  { editedWorld with
    there := Function.update editedWorld.there [slash, 0x61] (some ⟨10, 3, 20⟩)
    manifest := some (manifestLine (decodeName [slash, 0x61]) ⟨3, 10, 3, 20⟩) }

/-- Another mirror, which has listed the directory of the file. -/
def sentRun : SyncRun ℤ where
  recorded := Dict.empty.updateAll [sampleSent.change]
  directory := [slash]
  present := listingByName [⟨[0x61], sampleReport⟩]
  listed target := (sentWorld.there target).map RemoteCopy.content

/-- The manifest folds to what is recorded of the file. -/
theorem foldManifest_sentWorld : foldManifest (some (sentWorld.manifest.getD [])) =
    .ok (Dict.empty.updateAll [sampleSent.change]) := by
  have hrecords := foldManifest_records [sampleSent]
  rwa [List.flatMap_singleton, manifestLog_line] at hrecords

/-- A mirror that starts then knows it. -/
theorem start_sentWorld : sentWorld.step .starts =
    some { sentWorld with run := some { recorded := Dict.empty.updateAll [sampleSent.change] } } := by
  simp only [SyncWorld.step, SyncWorld.start, foldManifest_sentWorld]
  rfl

/-- A mirror that starts before knows nothing. -/
theorem start_editedWorld : editedWorld.step .starts =
    some { editedWorld with
      manifest := some [], run := some { recorded := Dict.empty.updateAll [] } } := by
  have hfold : foldManifest (some (editedWorld.manifest.getD [])) =
      .ok (Dict.empty.updateAll []) := foldManifest_records []
  simp only [SyncWorld.step, SyncWorld.start, hfold]
  rfl

/-- Two files are edited, one of them is sent and recorded, and the mirror is killed. -/
def firstEvents : List (SyncEvent ℤ) :=
  [.editsLocal [slash, 0x61] (some sampleCopy), .editsLocal [slash, 0x62] (some sampleCopy),
    .editsRemote [slash, 0x63] (some ⟨7, 1, 17⟩), .starts, .lists [slash] [], .considers [0x61],
    .begins 0, .sends 0 3 20 3, .stats 0 sampleReport,
    .records 0 (manifestLine (decodeName [slash, 0x61]) ⟨3, 10, 3, 20⟩).length, .stops]

/-- A size and a time stand for one content in them. -/
abbrev sampleFair (world : SyncWorld ℤ) (event : SyncEvent ℤ) : Prop :=
  SyncWorld.Fair (fun _ _ mtime => mtime) (fun _ _ mtime => mtime - 10) world event

/-- What the server reports of the file is so once it was sent. -/
theorem reports_sample {world : SyncWorld ℤ} (h : world.there [slash, 0x61] = some ⟨10, 3, 20⟩) :
    world.Reports [slash, 0x61] sampleReport := by
  rintro size mtime ⟨hsize, times, htimes, hmtime⟩
  cases hsize
  cases htimes
  cases hmtime
  exact ⟨⟨10, 3, 20⟩, h, rfl, rfl⟩

/-- The first mirror leads to where the file was sent. -/
theorem steps_sentWorld :
    AllowedSteps SyncWorld.step sampleFair blankWorld firstEvents sentWorld := by
  have hcopy : ∀ {world : SyncWorld ℤ}, world.run = none → ∀ target,
      sampleFair world (.editsLocal target (some sampleCopy)) := by
    intro world hrun target
    refine ⟨fun new hnew => ?_, fun run hgone => by cases hrun.symm.trans hgone⟩
    obtain rfl := Option.some.inj hnew
    rfl
  have hremote : ∀ {world : SyncWorld ℤ}, world.run = none →
      sampleFair world (.editsRemote [slash, 0x63] (some ⟨7, 1, 17⟩)) := by
    intro world hrun
    refine ⟨fun new hnew => ?_, fun run hgone => by cases hrun.symm.trans hgone⟩
    obtain rfl := Option.some.inj hnew
    rfl
  have hsends : sampleFair { editedWorld with
      manifest := some [], run := some (firstRun .reading []) } (.sends 0 3 20 3) := by
    intro run hrun send hsend copy hcopy
    obtain rfl := Option.some.inj hrun
    obtain rfl := Option.some.inj hsend
    obtain rfl := Option.some.inj hcopy
    rfl
  have hstats : sampleFair { sentWorld with
      manifest := some [], run := some (firstRun .sent [⟨[slash, 0x61], .transfer, .noRecord, 3⟩]) }
      (.stats 0 sampleReport) := by
    intro run hrun send hsend
    obtain rfl := Option.some.inj hrun
    obtain rfl := Option.some.inj hsend
    exact reports_sample rfl
  have hrecords : sampleFair { sentWorld with
      manifest := some []
      run := some (firstRun (.landed sampleReport) [⟨[slash, 0x61], .transfer, .noRecord, 3⟩]) }
      (.records 0 (manifestLine (decodeName [slash, 0x61]) ⟨3, 10, 3, 20⟩).length) := by
    refine ⟨by simp [manifestLine], ?_⟩
    intro run hrun send hsend copy hcopy landed hlanded entry hentry
    obtain rfl := Option.some.inj hrun
    obtain rfl := Option.some.inj hsend
    obtain rfl := Option.some.inj hcopy
    obtain rfl := Option.some.inj hlanded
    obtain rfl := Option.some.inj hentry
    exact sampleSent.fits
  have hlast : sentWorld = { sentWorld with
      manifest := some ([] ++ (manifestLine (decodeName [slash, 0x61]) ⟨3, 10, 3, 20⟩).take
        (manifestLine (decodeName [slash, 0x61]) ⟨3, 10, 3, 20⟩).length) } := by
    rw [List.take_length, List.nil_append]
    rfl
  rw [hlast]
  refine .cons (hcopy rfl _) rfl (.cons (hcopy rfl _) rfl (.cons (hremote rfl) rfl ?_))
  refine .cons trivial start_editedWorld (.cons (List.forall_mem_nil _) rfl ?_)
  refine .cons trivial rfl (.cons trivial rfl (.cons hsends rfl (.cons hstats rfl ?_)))
  exact .cons hrecords rfl (.cons trivial rfl (.nil _))

/-- Another mirror skips the file, which holds there what it holds here. -/
theorem mirror_skips_what_is_there_sent :
    (sentRun.compare [0x61] sampleCopy).decision = .skipped ∧
      sentRun.listed [slash, 0x61] = some 10 := by
  have hskipped : (sentRun.compare [0x61] sampleCopy).decision = .skipped := by decide +kernel
  have hsound : blankWorld.Sound (fun _ _ mtime => mtime) fun _ _ mtime => mtime - 10 :=
    ⟨nofun, nofun, ⟨[], List.forall_mem_nil _, by simp [RecordLog.content, blankWorld]⟩, nofun⟩
  have hlists : sampleFair
      { sentWorld with run := some { recorded := Dict.empty.updateAll [sampleSent.change] } }
      (.lists [slash] [⟨[0x61], sampleReport⟩]) := by
    have hthere : sentWorld.there [slash, 0x61] = some ⟨10, 3, 20⟩ := rfl
    intro entry hentry
    rw [List.mem_singleton.mp hentry]
    exact reports_sample hthere
  have hsteps : AllowedSteps SyncWorld.step sampleFair blankWorld
      (firstEvents ++ [.starts, .lists [slash] [⟨[0x61], sampleReport⟩]])
      { sentWorld with run := some sentRun } :=
    steps_sentWorld.append (.cons trivial start_sentWorld (.cons hlists rfl (.nil _)))
  have hcopy : { sentWorld with run := some sentRun }.here (sentRun.target [0x61]) =
      some sampleCopy := rfl
  exact ⟨hskipped, mirror_skips_what_is_there hsound hsteps rfl hcopy hskipped⟩

end GantrySftp
