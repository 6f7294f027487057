import GantrySftp.Session.Performed

/-!
# What an upload's result rests on

How the file was published, whether it was flushed, whether its times were carried across and
whether its content was compared: each thing the result says was performed was asked for during
the upload, and the answer passed.
-/

namespace GantrySftp

open Library Program

namespace Talk

variable {line : Line} {before after : Conversation}

/-- The requests that a mechanism of publishing rests on. -/
def PublishedBy (done : Demand → Prop) (staged target : Bytes) : PublishMechanism → Prop
  | .posixRename => done (.posixRename staged target)
  | .rename => done (.rename staged target)
  | .removeRename => done (.remove target) ∧ done (.rename staged target)
  | .inPlace => True

/-- Whether what an upload reports can rest on a request. -/
def Demand.Reported : Demand → Prop
  | posixRename _ _ => True
  | rename _ _ => True
  | remove _ => True
  | fsync _ => True
  | fsetstat _ _ => True
  | _ => False

/-- More requests carry more. -/
theorem PublishedBy.mono {done done' : Demand → Prop} {staged target : Bytes}
    {mechanism : PublishMechanism} (h : PublishedBy done staged target mechanism)
    (hdone : ∀ demand, demand.Reported → done demand → done' demand) :
    PublishedBy done' staged target mechanism := by
  cases mechanism with
  | posixRename => exact hdone _ trivial h
  | rename => exact hdone _ trivial h
  | removeRename => exact ⟨hdone _ trivial h.1, hdone _ trivial h.2⟩
  | inPlace => trivial

/-- More requests carry more. -/
theorem FilledBy.mono {done done' : Demand → Prop} {handle : Handle} {durability : Durability}
    {times : TimePreservation} (h : FilledBy done handle durability times)
    (hdone : ∀ demand, demand.Reported → done demand → done' demand) :
    FilledBy done' handle durability times where
  flushed := fun hfsync => hdone _ trivial (h.flushed hfsync)
  timed := fun hpreserved =>
    (h.timed hpreserved).elim fun times htimes => ⟨times, hdone _ trivial htimes⟩

/-- A handle was opened. -/
def Opened (earlier later : Conversation) (handle : Handle) : Prop :=
  ∃ path pflags attrs, Since earlier later (.asked (.open_ path pflags attrs) (.ok (.handle handle)))

/-- The local file was empty at a moment. -/
def WasEmpty (line : Line) (earlier later : Conversation) : Prop :=
  ∃ deeds, earlier.deeds <+: deeds ∧ deeds <+: later.deeds ∧ line.localSize deeds = 0

/-- What the checks of an upload report rests on. -/
structure CheckedBy (line : Line) (earlier later : Conversation) (verify : Verify)
    (check : ContentCheck) : Prop where
  reported : verify = .hash → check = .hashed ∨ check = .unavailable
  asked : check = .hashed → extensionCheckFile ∉ earlier.unsupported ∧
    (WasEmpty line earlier later ∨ Computed earlier later)

/-- What the result of an upload rests on. -/
structure RestsOn (line : Line) (earlier later : Conversation) (upload : Upload) (target : Bytes)
    (result : UploadResult) : Prop where
  published : ∃ staged, (result.mechanism = .inPlace ∨ result.stagedAt = some staged) ∧
    PublishedBy (Answered Passes earlier later) staged target result.mechanism
  filled : ∃ handle, Opened earlier later handle ∧
    FilledBy (Answered Passes earlier later) handle result.durability result.times
  flushed : result.durability = .fsynced ∨ result.durability = notFlushed upload
  checked : CheckedBy line earlier later upload.verify result.contentCheck
  resumed : result.resumeCheck = .matched → upload.verify ≠ .reread →
    extensionCheckFile ∉ earlier.unsupported ∧ Computed earlier later

/-! ## Moments of a session -/

/-- One moment of a session leads to another. -/
def Leads (line : Line) (earlier later : Conversation) : Prop :=
  Relation.ReflTransGen (Step line) earlier later

/-- A moment leads to itself. -/
theorem Leads.refl (conversation : Conversation) : Leads line conversation conversation :=
  Relation.ReflTransGen.refl

/-- A moment leads wherever those that it leads to do. -/
theorem Leads.trans {between : Conversation} (h : Leads line before between)
    (hrest : Leads line between after) : Leads line before after :=
  Relation.ReflTransGen.trans h hrest

/-- A program leads from where it starts to where it ends. -/
theorem Leads.of_exec {α : Type} {program : Talk α} (h : Does (Step line) program)
    {result : Except Failure α} (hexec : program.exec before = (result, after)) :
    Leads line before after := by
  have hleads := h before
  rw [hexec] at hleads
  exact hleads

/-- Everything done stays done. -/
theorem Leads.follows (h : Leads line before after) : Follows before after := by
  induction h with
  | refl => exact List.prefix_refl _
  | tail _ hstep ih => exact ih.step hstep

/-- What was learned stays learned. -/
theorem Leads.learned (h : Leads line before after) {extension : Bytes}
    (hlearned : extension ∈ before.unsupported) : extension ∈ after.unsupported := by
  induction h with
  | refl => exact hlearned
  | tail _ hstep ih => exact hstep.learned ih

section Widening

variable {first last : Conversation} (hbefore : Leads line first before)
  (hafter : Leads line after last)
include hbefore hafter

/-- What filling a file reports rests on no less from further away. -/
theorem FilledBy.widen {handle : Handle} {durability : Durability} {times : TimePreservation}
    (h : FilledBy (Answered Passes before after) handle durability times) :
    FilledBy (Answered Passes first last) handle durability times :=
  h.mono fun _ _ hdone => hdone.widen hbefore.follows hafter.follows

/-- What publishing a file reports rests on no less from further away. -/
theorem PublishedBy.widen {staged target : Bytes} {mechanism : PublishMechanism}
    (h : PublishedBy (Answered Passes before after) staged target mechanism) :
    PublishedBy (Answered Passes first last) staged target mechanism :=
  h.mono fun _ _ hdone => hdone.widen hbefore.follows hafter.follows

/-- What a content check reports rests on no less from further away. -/
theorem CheckedBy.widen {verify : Verify} {check : ContentCheck}
    (h : CheckedBy line before after verify check) : CheckedBy line first last verify check where
  reported := h.reported
  asked := by
    intro hhashed
    obtain ⟨hknown, hevidence⟩ := h.asked hhashed
    refine ⟨fun hlearned => hknown (hbefore.learned hlearned), ?_⟩
    rcases hevidence with ⟨deeds, hfrom, hto, hempty⟩ | hcomputed
    · exact Or.inl ⟨deeds, hbefore.follows.trans hfrom, hto.trans hafter.follows, hempty⟩
    · exact Or.inr (hcomputed.widen hbefore.follows hafter.follows)

end Widening

/-! ## Parts of an upload -/

/-- Returning a value changes nothing. -/
theorem pure_ok {α : Type} {value value' : α}
    (h : (pure value : Talk α).exec before = (.ok value', after)) :
    value = value' ∧ after = before := by
  obtain ⟨hvalue, rfl⟩ := Prod.mk.inj h
  exact ⟨Except.ok.inj hvalue, rfl⟩

/-- A reply was received to what was asked. -/
theorem ask_ok {demand : Demand} {reply : Reply}
    (h : (ask line demand).exec before = (.ok reply, after)) :
    Since before after (.asked demand (.ok reply)) := by
  obtain ⟨hanswer, rfl⟩ := Prod.mk.inj h
  have hsince : Since before (before.heard line demand)
      (.asked demand (line.answer before.deeds demand)) := since_heard before demand
  generalize line.answer before.deeds demand = answer at hanswer hsince
  cases answer with
  | error interruption => cases hanswer
  | ok received =>
    obtain rfl : received = reply := Except.ok.inj hanswer
    exact hsince

/-- Opening a file returns the handle it was answered with. -/
theorem openFile_ok {path : Bytes} {pflags : OpenFlag} {mode : Option ℤ} {handle : Handle}
    (h : (openFile line path pflags mode).exec before = (.ok handle, after)) :
    Opened before after handle := by
  obtain ⟨reply, between, hask, hreply⟩ := exec_bind_ok.mp h
  cases reply with
  | handle opened =>
    obtain ⟨rfl, rfl⟩ := pure_ok hreply
    exact ⟨path, pflags, openAttrs mode, ask_ok hask⟩
  | _ => cases hreply

/-- Nothing opened is lost by looking from further away. -/
theorem Opened.widen {earlier later first last : Conversation} {handle : Handle}
    (h : Opened earlier later handle) (hbefore : Follows first earlier)
    (hafter : Follows later last) : Opened first last handle := by
  obtain ⟨path, pflags, attrs, hsince⟩ := h
  exact ⟨path, pflags, attrs, hsince.widen hbefore hafter⟩

/-- Opening a file returns the handle it was answered with, at whichever try. -/
theorem openPatiently_ok {path : Bytes} {pflags : OpenFlag} {mode : Option ℤ} {handle : Handle}
    (h : (openPatiently line path pflags mode).exec before = (.ok handle, after)) :
    Opened before after handle := by
  unfold openPatiently at h
  generalize transientAttempts - 1 = retries at h
  induction retries generalizing before with
  | zero => exact openFile_ok h
  | succ retries ih =>
    rcases exec_tryCatch_ok.mp h with hok | ⟨failure, between, hfirst, hcatch⟩
    · exact openFile_ok hok
    · split_ifs at hcatch
      · exact (ih hcatch).widen (Follows.of_exec (does_openFile path pflags mode) hfirst)
          (List.prefix_refl _)
      · cases hcatch

/-- A rename that is let fail passed when it returned. -/
theorem renamed_ok {staged target : Bytes}
    (h : (renamed line staged target).exec before = (.ok (.ok ()), after)) :
    Answered Passes before after (.rename staged target) := by
  rcases exec_tryCatch_ok.mp h with hok | ⟨_, _, -, hcatch⟩
  · obtain ⟨_, hrename, -⟩ := exec_map_ok hok
    exact expectStatus_ok hrename
  · cases (pure_ok hcatch).1

/-- The target is removed when its REMOVE passed. -/
theorem removeTarget_ok {target : Bytes}
    (h : (removeTarget line target).exec before = (.ok (), after)) :
    Answered Passes before after (.remove target) := by
  rcases exec_tryCatch_ok.mp h with hok | ⟨_, _, -, hcatch⟩
  · exact expectStatus_ok hok
  · split_ifs at hcatch
    all_goals cases hcatch

/-- The staging file is in the removed target's place when its RENAME passed. -/
theorem renameOntoRemoved_ok {staged target : Bytes}
    (h : (renameOntoRemoved line staged target).exec before = (.ok (), after)) :
    Answered Passes before after (.rename staged target) := by
  rcases exec_tryCatch_ok.mp h with hok | ⟨_, _, -, hcatch⟩
  · exact expectStatus_ok hok
  · cases hcatch

/-- After a rename that failed, publishing is by removing the target. -/
theorem afterRenameFailure_ok {staged target : Bytes} {requireAtomic : Bool} {failure : Failure}
    {mechanism : PublishMechanism}
    (h : (afterRenameFailure line staged target requireAtomic failure).exec before =
      (.ok mechanism, after)) :
    mechanism = .removeRename ∧ Answered Passes before after (.remove target) ∧
      Answered Passes before after (.rename staged target) := by
  unfold afterRenameFailure at h
  by_cases hserver : failure.isServerError = true
  · rw [if_pos hserver] at h
    obtain ⟨present, looked, hpresent, h⟩ := exec_bind_ok.mp h
    have hlooked := Follows.of_exec (does_confirmedPresent target) hpresent
    cases present with
    | false => cases h
    | true =>
      change (replaceTarget line staged target requireAtomic).exec looked = _ at h
      cases requireAtomic with
      | true => cases h
      | false =>
        obtain ⟨_, removed, hremove, h⟩ := exec_bind_ok.mp h
        obtain ⟨_, placed, hrename, h⟩ := exec_bind_ok.mp h
        obtain ⟨rfl, rfl⟩ := pure_ok h
        have hremoved := Follows.of_exec (does_removeTarget target) hremove
        have hplaced := Follows.of_exec (does_renameOntoRemoved staged target) hrename
        exact ⟨rfl, (removeTarget_ok hremove).widen hlooked hplaced,
          (renameOntoRemoved_ok hrename).widen (hlooked.trans hremoved) (List.prefix_refl _)⟩
  · rw [if_neg hserver] at h
    cases h

/-- Publishing reports the mechanism whose requests passed. -/
theorem publish_ok {staged target : Bytes} {requireAtomic : Bool} {mechanism : PublishMechanism}
    (h : (publish line staged target requireAtomic).exec before = (.ok mechanism, after)) :
    PublishedBy (Answered Passes before after) staged target mechanism := by
  obtain ⟨performed, tried, hposix, hrest⟩ := exec_bind_ok.mp h
  have htried := Follows.of_exec (does_posixRenameIfSupported staged target) hposix
  cases performed with
  | true =>
    obtain ⟨rfl, rfl⟩ := pure_ok hrest
    exact posixRenameIfSupported_ok hposix
  | false =>
    obtain ⟨outcome, moved, hrename, hrest⟩ := exec_bind_ok.mp hrest
    have hmoved := htried.trans (Follows.of_exec (does_renamed staged target) hrename)
    cases outcome with
    | ok _ =>
      obtain ⟨rfl, rfl⟩ := pure_ok hrest
      exact (renamed_ok hrename).widen htried (List.prefix_refl _)
    | error failure =>
      obtain ⟨rfl, hremoved, hplaced⟩ := afterRenameFailure_ok hrest
      exact ⟨hremoved.widen hmoved (List.prefix_refl _),
        hplaced.widen hmoved (List.prefix_refl _)⟩

/-- What the checks of a filled file report. -/
theorem checkFilled_ok {upload : Upload} {path : Bytes} {checks : SizeCheck × ContentCheck}
    (h : (checkFilled line upload path).exec before = (.ok checks, after)) :
    CheckedBy line before after upload.verify checks.2 := by
  obtain ⟨expected, measured, hmeasure, h⟩ := exec_bind_ok.mp h
  obtain ⟨sizeCheck, confirmed, hconfirm, h⟩ := exec_bind_ok.mp h
  obtain ⟨contentCheck, verified, hverify, h⟩ := exec_bind_ok.mp h
  obtain ⟨rfl, rfl⟩ := pure_ok h
  have hmeasured : Leads line before measured := Leads.of_exec (does_work _) hmeasure
  have hconfirmed := hmeasured.trans (Leads.of_exec (does_confirmSize path _) hconfirm)
  have hverified := Follows.of_exec (does_verifyContent path _ _) hverify
  obtain ⟨hreported, hasked⟩ := verifyContent_ok hverify
  refine ⟨hreported, fun hhashed => ?_⟩
  obtain ⟨hknown, hevidence⟩ := hasked hhashed
  refine ⟨fun hlearned => hknown (hconfirmed.learned hlearned), ?_⟩
  rcases hevidence with hempty | hcomputed
  · refine Or.inl ⟨before.deeds, List.prefix_refl _, hconfirmed.follows.trans hverified, ?_⟩
    obtain ⟨hlength, -⟩ := Prod.mk.inj hmeasure
    exact (Except.ok.inj hlength).trans hempty
  · exact Or.inr (hcomputed.widen hconfirmed.follows (List.prefix_refl _))

/-! ## Uploads -/

/-- What filling and checking a file in place reports. -/
theorem putInPlace_ok {upload : Upload} {target : Bytes} {result : UploadResult}
    (h : (putInPlace line upload target).exec before = (.ok result, after)) :
    RestsOn line before after upload target result := by
  obtain ⟨start, found, hoffset, h⟩ := exec_bind_ok.mp h
  obtain ⟨resumeCheck, gated, hgate, h⟩ := exec_bind_ok.mp h
  obtain ⟨handle, opened, hopen, h⟩ := exec_bind_ok.mp h
  obtain ⟨_, moded, hmode, h⟩ := exec_bind_ok.mp h
  obtain ⟨filled, closed, hfill, h⟩ := exec_bind_ok.mp h
  obtain ⟨checks, checked, hcheck, h⟩ := exec_bind_ok.mp h
  obtain ⟨rfl, hafter⟩ := pure_ok h
  subst hafter
  have hfound : Leads line before found := Leads.of_exec (does_uploadResumeOffset _ _) hoffset
  have hgated : Leads line found gated := Leads.of_exec (does_gateResume _ _ _) hgate
  have hopened : Leads line gated opened := Leads.of_exec (does_openPatiently _ _ _) hopen
  have hmoded : Leads line opened moded := Leads.of_exec (does_setMode _ _ _) hmode
  have hclosed : Leads line moded closed := Leads.of_exec (does_fillAndClose _ _ _) hfill
  have hchecked : Leads line closed after := Leads.of_exec (does_checkFilled _ _) hcheck
  have hready := hfound.trans (hgated.trans hopened)
  obtain ⟨hfilled, hflushed⟩ := fillAndClose_ok hfill
  refine ⟨⟨target, Or.inl rfl, trivial⟩, ⟨handle, ?_, ?_⟩, hflushed, ?_, fun hmatched hverify => ?_⟩
  · exact (openPatiently_ok hopen).widen (hfound.trans hgated).follows
      (hmoded.trans (hclosed.trans hchecked)).follows
  · exact hfilled.widen (hready.trans hmoded) hchecked
  · exact (checkFilled_ok hcheck).widen (hready.trans (hmoded.trans hclosed)) (.refl _)
  · obtain rfl : resumeCheck = .matched := hmatched
    obtain ⟨hknown, hcomputed⟩ := gateResume_ok hgate hverify
    refine ⟨fun hlearned => hknown (hfound.learned hlearned), ?_⟩
    exact hcomputed.widen hfound.follows
      (hopened.trans (hmoded.trans (hclosed.trans hchecked))).follows

/-- What filling, checking and publishing a staging file reports. -/
theorem fillAndPublish_ok {upload : Upload} {target staged : Bytes} {requireAtomic : Bool}
    {handle : Handle} {resumeCheck : ResumeCheck} {result : UploadResult}
    (h : (fillAndPublish line upload target staged requireAtomic handle resumeCheck).exec before =
      (.ok result, after)) :
    result.stagedAt = some staged ∧ result.resumeCheck = resumeCheck ∧
      PublishedBy (Answered Passes before after) staged target result.mechanism ∧
      FilledBy (Answered Passes before after) handle result.durability result.times ∧
      (result.durability = .fsynced ∨ result.durability = notFlushed upload) ∧
      CheckedBy line before after upload.verify result.contentCheck := by
  obtain ⟨_, probed, hprobe, h⟩ := exec_bind_ok.mp h
  obtain ⟨filled, closed, hfill, h⟩ := exec_bind_ok.mp h
  obtain ⟨checks, checked, hcheck, h⟩ := exec_bind_ok.mp h
  obtain ⟨mechanism, published, hpublish, h⟩ := exec_bind_ok.mp h
  obtain ⟨rfl, hafter⟩ := pure_ok h
  subst hafter
  have hprobed : Leads line before probed := Leads.of_exec (does_requireFlush _ _) hprobe
  have hclosed : Leads line probed closed := Leads.of_exec (does_fillAndClose _ _ _) hfill
  have hchecked : Leads line closed checked := Leads.of_exec (does_checkFilled _ _) hcheck
  have hpublished : Leads line checked after := Leads.of_exec (does_publish _ _ _) hpublish
  obtain ⟨hfilled, hflushed⟩ := fillAndClose_ok hfill
  refine ⟨rfl, rfl, ?_, ?_, hflushed, ?_⟩
  · exact (publish_ok hpublish).widen (hprobed.trans (hclosed.trans hchecked)) (.refl _)
  · exact hfilled.widen hprobed (hchecked.trans hpublished)
  · exact (checkFilled_ok hcheck).widen (hprobed.trans hclosed) hpublished

/-- Cleaning up after a failed upload returns nothing. -/
theorem cleanUp_not_ok {journal : Bool} {staged : Bytes} {failure : Failure}
    {result : UploadResult} :
    (cleanUp line journal staged failure).exec before ≠ (.ok result, after) := by
  intro h
  unfold cleanUp at h
  split at h
  · cases h
  · obtain ⟨_, _, -, h⟩ := exec_bind_ok.mp h
    obtain ⟨_, _, -, h⟩ := exec_bind_ok.mp h
    cases h

/-- What an atomic upload reports. -/
theorem putAtomically_ok {upload : Upload} {target staged : Bytes}
    {requireAtomic journal : Bool} {result : UploadResult}
    (h : (putAtomically line upload target staged requireAtomic journal).exec before =
      (.ok result, after)) : RestsOn line before after upload target result := by
  obtain ⟨_, allowed, hallow, h⟩ := exec_bind_ok.mp h
  obtain ⟨_, recorded, hrecord, h⟩ := exec_bind_ok.mp h
  obtain ⟨start, found, hoffset, h⟩ := exec_bind_ok.mp h
  obtain ⟨resumeCheck, gated, hgate, h⟩ := exec_bind_ok.mp h
  obtain ⟨handle, opened, hopen, h⟩ := exec_bind_ok.mp h
  obtain ⟨result', published, hpublish, h⟩ := exec_bind_ok.mp h
  obtain ⟨_, struck, hstrike, h⟩ := exec_bind_ok.mp h
  obtain ⟨rfl, hafter⟩ := pure_ok h
  subst hafter
  have hallowed : Leads line before allowed := Leads.of_exec (does_requirePublishable _ _) hallow
  have hrecorded : Leads line allowed recorded := Leads.of_exec (does_record _) hrecord
  have hfound : Leads line recorded found := Leads.of_exec (does_uploadResumeOffset _ _) hoffset
  have hgated : Leads line found gated := Leads.of_exec (does_gateResume _ _ _) hgate
  have hopened : Leads line gated opened := Leads.of_exec (does_openPatiently _ _ _) hopen
  have hstruck : Leads line published after := Leads.of_exec (does_record _) hstrike
  have hstart := hallowed.trans (hrecorded.trans hfound)
  have hready := hstart.trans (hgated.trans hopened)
  rcases exec_tryCatch_ok.mp hpublish with hok | ⟨failure, _, -, hcatch⟩
  · have hdone : Leads line opened published :=
      Leads.of_exec (does_fillAndPublish _ _ _ _ _ _) hok
    obtain ⟨hstaged, hresume, hpublished, hfilled, hflushed, hchecked⟩ := fillAndPublish_ok hok
    refine ⟨⟨staged, Or.inr hstaged, hpublished.widen hready hstruck⟩, ⟨handle, ?_, ?_⟩, hflushed,
      hchecked.widen hready hstruck, fun hmatched hverify => ?_⟩
    · exact (openPatiently_ok hopen).widen (hstart.trans hgated).follows
        (hdone.trans hstruck).follows
    · exact hfilled.widen hready hstruck
    · obtain rfl : resumeCheck = .matched := hresume.symm.trans hmatched
      obtain ⟨hknown, hcomputed⟩ := gateResume_ok hgate hverify
      refine ⟨fun hlearned => hknown (hstart.learned hlearned), ?_⟩
      exact hcomputed.widen hstart.follows (hopened.trans (hdone.trans hstruck)).follows
  · exact absurd hcatch cleanUp_not_ok

/-- What an upload reports rests on no less from further away. -/
theorem RestsOn.widen {upload : Upload} {target : Bytes} {result : UploadResult}
    {first : Conversation} (h : RestsOn line before after upload target result)
    (hbefore : Leads line first before) : RestsOn line first after upload target result where
  published :=
    h.published.elim fun staged hstaged => ⟨staged, hstaged.1, hstaged.2.widen hbefore (.refl _)⟩
  filled :=
    h.filled.elim fun handle hhandle => ⟨handle,
      hhandle.1.widen hbefore.follows (List.prefix_refl _), hhandle.2.widen hbefore (.refl _)⟩
  flushed := h.flushed
  checked := h.checked.widen hbefore (.refl _)
  resumed := fun hmatched hverify =>
    ⟨fun hlearned => (h.resumed hmatched hverify).1 (hbefore.learned hlearned),
      (h.resumed hmatched hverify).2.widen hbefore.follows (List.prefix_refl _)⟩

/-- What a put reports. -/
theorem put_ok {localStat : LocalStat} {target token : Bytes} {options : PutOptions}
    {result : UploadResult}
    (h : (put line localStat target token options).exec before = (.ok result, after)) :
    ∃ mode, RestsOn line before after (uploadOf localStat options mode) target result := by
  obtain ⟨_, checked, hflags, h⟩ := exec_bind_ok.mp h
  obtain ⟨refused, asked, hrefuses, h⟩ := exec_bind_ok.mp h
  have hchecked : Leads line before checked := Leads.of_exec (does_orRaise _) hflags
  have hasked : Leads line checked asked := Leads.of_exec (does_refuses _) hrefuses
  by_cases hrequired : options.publish.requireFsync = true ∧ refused = true
  · rw [if_pos hrequired] at h
    cases h
  · rw [if_neg hrequired] at h
    obtain ⟨mode, settled, hmode, h⟩ := exec_bind_ok.mp h
    have hsettled : Leads line asked settled := Leads.of_exec (does_uploadMode _) hmode
    have hstart := hchecked.trans (hasked.trans hsettled)
    refine ⟨mode, ?_⟩
    unfold publishUpload at h
    by_cases hatomic : options.publish.atomic = true
    · rw [if_pos hatomic] at h
      obtain ⟨_, rooted, hroot, h⟩ := exec_bind_ok.mp h
      obtain ⟨staged, chosen, hchoose, h⟩ := exec_bind_ok.mp h
      have hrooted : Leads line settled rooted := Leads.of_exec (does_requireStaging _ _) hroot
      have hchosen : Leads line rooted chosen := Leads.of_exec (does_chooseStaged _ _ _) hchoose
      exact (putAtomically_ok h).widen (hstart.trans (hrooted.trans hchosen))
    · rw [if_neg hatomic] at h
      exact (putInPlace_ok h).widen hstart

end Talk

end GantrySftp
