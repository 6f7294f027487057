import GantrySftp.Session.SyncRuns

/-!
# What mirrors remember

A mirror keeps what it records in memory, appends it to the manifest, and rewrites the manifest at
its end. The next one reads it back. Where every append is accepted whole, what one mirror knows of
a file is what every later one knows, whether the first finished or was killed, until the file is
recorded again.
-/

namespace GantrySftp

open Library

variable {α : Type} {world next : SyncWorld α}

/-- What the manifest says of a file. -/
def SyncWorld.known (world : SyncWorld α) (key : Text) : Option ManifestEntry :=
  (foldManifest (some (world.manifest.getD []))).toOption.bind fun folded => folded.get key

/-- An entry that is recorded can be read back, and its whole line is accepted. -/
def SyncWorld.Accepts (world : SyncWorld α) : SyncEvent α → Prop
  | .records index accepted =>
    ∀ run ∈ world.run, ∀ send ∈ run.sends[index]?, ∀ copy ∈ world.here send.target,
      ∀ landed ∈ send.stage.attrs, ∀ entry ∈ manifestEntryFor copy.facts landed,
        entry.Fits ∧ (manifestLine (decodeName send.target) entry).length ≤ accepted
  | _ => True

/-- A file is not recorded. -/
def SyncWorld.Spares (world : SyncWorld α) (target : Bytes) : SyncEvent α → Prop
  | .records index _ =>
    ∀ run ∈ world.run, ∀ send ∈ run.sends[index]?, send.target ≠ target
  | _ => True

/-- The manifest is complete lines of entries that can be rewritten, and a mirror under way knows
what it says. -/
structure SyncWorld.Remembers (world : SyncWorld α) : Prop where
  terminated : Terminated (world.manifest.getD [])
  readable : ∃ folded : ManifestEntries,
    foldManifest (some (world.manifest.getD [])) = .ok folded ∧ folded.Fits
  run : ∀ run, world.run = some run → ∀ key, run.recorded.get key = world.known key

/-- What the manifest says is what it folds to. -/
theorem SyncWorld.known_of_fold {folded : ManifestEntries}
    (h : foldManifest (some (world.manifest.getD [])) = .ok folded) (key : Text) :
    world.known key = folded.get key := by
  rw [SyncWorld.known, h]
  rfl

namespace SyncWorld.Remembers

/-- What a mirror knows can be rewritten. -/
theorem fits (h : world.Remembers) {run : SyncRun α} (hrun : world.run = some run) :
    run.recorded.Fits := by
  obtain ⟨folded, hfold, hfits⟩ := h.readable
  refine ManifestEntries.fits_iff.mpr fun key entry hget => ?_
  rw [h.run run hrun, known_of_fold hfold] at hget
  exact ManifestEntries.fits_iff.mp hfits key entry hget

/-- Where the manifest stays, and so does what a mirror knows, everything stays. -/
theorem quiet (h : world.Remembers) (hmanifest : next.manifest = world.manifest)
    (hrun : ∀ run, next.run = some run →
      ∃ before, world.run = some before ∧ run.recorded = before.recorded) :
    next.Remembers ∧ ∀ key, next.known key = world.known key := by
  have hknown : ∀ key, next.known key = world.known key := fun key => by
    rw [known, known, hmanifest]
  refine ⟨⟨hmanifest ▸ h.terminated, hmanifest ▸ h.readable, fun run hnext key => ?_⟩, hknown⟩
  obtain ⟨before, hbefore, hsame⟩ := hrun run hnext
  rw [hsame, h.run before hbefore, hknown]

/-- A mirror that starts knows what the manifest says. -/
theorem start (h : world.Remembers) (hstep : world.start = some next) :
    next.Remembers ∧ ∀ key, next.known key = world.known key := by
  obtain ⟨folded, hfold, hfits⟩ := h.readable
  simp only [SyncWorld.start, bind, Option.bind_eq_some_iff, Option.some.injEq] at hstep
  obtain ⟨_, -, recorded, hrecorded, rfl⟩ := hstep
  rw [hfold] at hrecorded
  obtain rfl := Option.some.inj hrecorded
  refine ⟨⟨h.terminated, ⟨folded, hfold, hfits⟩, fun run hrun key => ?_⟩, fun _ => rfl⟩
  obtain rfl := Option.some.inj hrun
  exact (known_of_fold hfold key).symm

/-- A file that is to be sent comes to another stage. -/
theorem advance (h : world.Remembers) {index : ℕ} {stage after : SendStage}
    (hstep : world.advance index stage after = some next) :
    next.Remembers ∧ ∀ key, next.known key = world.known key := by
  simp only [SyncWorld.advance, bind, Option.bind_eq_some_iff, Option.some.injEq] at hstep
  obtain ⟨before, hbefore, send, -, -, -, rfl⟩ := hstep
  exact h.quiet rfl fun run hrun => ⟨before, hbefore, Option.some.inj hrun ▸ rfl⟩

/-- An entry whose whole line is accepted is what the manifest says of its file. -/
theorem note (h : world.Remembers) {run : SyncRun α} {target : Bytes} {entry : ManifestEntry}
    {accepted : ℕ} (hrun : ∀ key, run.recorded.get key = world.known key) (hfits : entry.Fits)
    (haccepted : (manifestLine (decodeName target) entry).length ≤ accepted) :
    (world.note run target entry accepted).Remembers ∧
      ∀ key, key ≠ decodeName target →
        (world.note run target entry accepted).known key = world.known key := by
  obtain ⟨folded, hfold, hreadable⟩ := h.readable
  have hcontent : (world.note run target entry accepted).manifest.getD [] =
      appendManifest (some (world.manifest.getD [])) target entry := by
    change world.manifest.getD [] ++ _ = world.manifest.getD [] ++ _
    rw [List.take_of_length_le haccepted]
  have hnoted : foldManifest (some ((world.note run target entry accepted).manifest.getD [])) =
      .ok (recordEntry folded target entry) := by
    have hterminated : ∀ content ∈ some (world.manifest.getD []), Terminated content :=
      fun content hmem => Option.some.inj hmem ▸ h.terminated
    have happend := foldManifest_appendManifest hterminated target hfits
    rw [hcontent, happend, hfold]
    rfl
  have hknown : ∀ key, (world.note run target entry accepted).known key =
      if decodeName target = key then some entry else world.known key := fun key => by
    rw [known_of_fold hnoted, known_of_fold hfold, recordEntry, Dict.get_set]
  refine ⟨⟨?_, ⟨_, hnoted, ?_⟩, fun other hother key => ?_⟩, fun key hkey => ?_⟩
  · rw [hcontent]
    have hline := manifestLog.terminated_lines
      [⟨decodeName target, entry, spellable_decodeUtf8 target, hfits⟩]
    rw [List.flatMap_singleton, manifestLog_line] at hline
    exact h.terminated.append hline
  · refine ManifestEntries.fits_iff.mpr fun key other hget => ?_
    rw [recordEntry, Dict.get_set] at hget
    split_ifs at hget with hkey
    · obtain rfl := Option.some.inj hget
      exact ⟨hkey ▸ spellable_decodeUtf8 target, hfits⟩
    · exact ManifestEntries.fits_iff.mp hreadable key other hget
  · obtain rfl := Option.some.inj hother
    change (run.recorded.set (decodeName target) entry).get key = _
    rw [Dict.get_set, hknown, hrun]
  · rw [hknown, if_neg (Ne.symm hkey)]

/-- Recording a file changes what the manifest says of that file alone. -/
theorem record (h : world.Remembers) {index accepted : ℕ}
    (haccepts : world.Accepts (.records index accepted))
    (hstep : world.record index accepted = some next) :
    next.Remembers ∧ ∀ target, world.Spares target (.records index accepted) →
      next.known (decodeName target) = world.known (decodeName target) := by
  simp only [SyncWorld.record, bind, Option.bind_eq_some_iff, Option.some.injEq] at hstep
  obtain ⟨run, hrun, send, hsend, landed, hlanded, copy, hcopy, hnext⟩ := hstep
  cases hentry : manifestEntryFor copy.facts landed with
  | none =>
    have hquiet : next.Remembers ∧ ∀ key, next.known key = world.known key := by
      rw [hentry] at hnext
      subst hnext
      exact h.quiet rfl fun other hother => ⟨run, hrun, Option.some.inj hother ▸ rfl⟩
    exact ⟨hquiet.1, fun target _ => hquiet.2 _⟩
  | some entry =>
    obtain ⟨hfits, haccepted⟩ := haccepts run hrun send hsend copy hcopy landed hlanded entry hentry
    rw [hentry] at hnext
    subst hnext
    have hsame : ∀ key, { run with sends := run.sends.eraseIdx index }.recorded.get key =
        world.known key := h.run run hrun
    obtain ⟨hnoted, hknown⟩ := h.note hsame hfits haccepted
    refine ⟨hnoted, fun target hspares => hknown _ fun htarget => ?_⟩
    exact hspares run hrun send hsend (StateFile.decodeName_injective htarget).symm

/-- A manifest that is rewritten says what the mirror knows. -/
theorem save (h : world.Remembers) (hstep : world.save = some next) :
    next.Remembers ∧ ∀ key, next.known key = world.known key := by
  simp only [SyncWorld.save, bind, Option.bind_eq_some_iff, Option.some.injEq] at hstep
  obtain ⟨run, hrun, -, -, rfl⟩ := hstep
  have hfits := h.fits hrun
  obtain ⟨folded, hfold, hget⟩ := foldManifest_manifestPayload hfits
  refine ⟨⟨?_, ⟨folded, hfold, ?_⟩, fun _ hgone => (by cases hgone)⟩, fun key => ?_⟩
  · obtain ⟨records, hlines, -⟩ := exists_payload_records hfits
    change Terminated (manifestPayload run.recorded)
    rw [hlines]
    exact manifestLog.terminated_lines records
  · refine ManifestEntries.fits_iff.mpr fun key entry hfound => ?_
    rw [hget] at hfound
    exact ManifestEntries.fits_iff.mp hfits key entry hfound
  · have hknown : { world with manifest := some (manifestPayload run.recorded), run := none }.known
        key = folded.get key := by
      change (foldManifest (some (manifestPayload run.recorded))).toOption.bind _ = _
      rw [hfold]
      rfl
    rw [hknown, hget, h.run run hrun]

/-- Every step keeps what the manifest says of a file that it does not record. -/
theorem step (h : world.Remembers) {event : SyncEvent α} (haccepts : world.Accepts event)
    (hstep : world.step event = some next) :
    next.Remembers ∧ ∀ target, world.Spares target event →
      next.known (decodeName target) = world.known (decodeName target) := by
  -- all but a record leave what is said of every file
  have hall : (next.Remembers ∧ ∀ key, next.known key = world.known key) →
      next.Remembers ∧ ∀ target, world.Spares target event →
        next.known (decodeName target) = world.known (decodeName target) :=
    fun hkept => ⟨hkept.1, fun target _ => hkept.2 _⟩
  cases event with
  | editsLocal target copy =>
    obtain rfl := Option.some.inj hstep
    exact hall (h.quiet rfl fun run hrun => ⟨run, hrun, rfl⟩)
  | editsRemote target copy =>
    obtain rfl := Option.some.inj hstep
    exact hall (h.quiet rfl fun run hrun => ⟨run, hrun, rfl⟩)
  | starts => exact hall (h.start hstep)
  | lists directory listing =>
    simp only [SyncWorld.step, SyncWorld.list, bind, Option.bind_eq_some_iff, Option.some.injEq]
      at hstep
    obtain ⟨before, hbefore, rfl⟩ := hstep
    exact hall (h.quiet rfl fun run hrun => ⟨before, hbefore, Option.some.inj hrun ▸ rfl⟩)
  | considers name =>
    simp only [SyncWorld.step, SyncWorld.consider, bind, Option.bind_eq_some_iff,
      Option.some.injEq] at hstep
    obtain ⟨before, hbefore, copy, -, rfl⟩ := hstep
    refine hall (h.quiet rfl fun run hrun => ⟨before, hbefore, ?_⟩)
    obtain rfl := Option.some.inj hrun
    unfold SyncRun.decide
    split_ifs <;> rfl
  | begins index => exact hall (h.advance hstep)
  | sends index size mtime transferred =>
    simp only [SyncWorld.step, SyncWorld.send, bind, Option.bind_eq_some_iff, Option.some.injEq]
      at hstep
    obtain ⟨before, hbefore, send, -, -, -, copy, -, rfl⟩ := hstep
    exact hall (h.quiet rfl fun run hrun => ⟨before, hbefore, Option.some.inj hrun ▸ rfl⟩)
  | stats index attrs => exact hall (h.advance hstep)
  | records index accepted => exact h.record haccepts hstep
  | saves => exact hall (h.save hstep)
  | stops =>
    obtain rfl := Option.some.inj hstep
    exact hall (h.quiet rfl fun run hrun => (by cases hrun))

end SyncWorld.Remembers

end GantrySftp
