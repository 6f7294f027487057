import GantrySftp.Session.Learned

/-!
# What a session's reports rest on

An operation that returns, or says that something was performed, sent the request that does it,
and the server's answer passed the check. For an upload this is followed through the filling, the
checks and the publishing, to what its result says.
-/

namespace GantrySftp

open Library Program

namespace Talk

variable {line : Line} {before after : Conversation}

/-- The codes that the status check lets through. -/
def Passes (code : StatusCode) : Prop := code = .ok ∨ code = .eof

/-- A request was answered with a STATUS of one of these codes. -/
def Answered (codes : StatusCode → Prop) (earlier later : Conversation) (demand : Demand) : Prop :=
  ∃ code message, codes code ∧ Since earlier later (.asked demand (.ok (.status code message)))

/-- Digests were computed on request. -/
def Computed (earlier later : Conversation) : Prop :=
  ∃ handle algorithms start length blockSize algorithm digests, Since earlier later
    (.asked (.checkFile handle algorithms start length blockSize) (.ok (.digests algorithm digests)))

/-- Nothing answered is lost by looking from further away. -/
theorem Answered.widen {codes : StatusCode → Prop} {earlier later first last : Conversation}
    {demand : Demand} (h : Answered codes earlier later demand) (hbefore : Follows first earlier)
    (hafter : Follows later last) : Answered codes first last demand := by
  obtain ⟨code, message, hcode, hsince⟩ := h
  exact ⟨code, message, hcode, hsince.widen hbefore hafter⟩

/-- Nothing computed is lost by looking from further away. -/
theorem Computed.widen {earlier later first last : Conversation} (h : Computed earlier later)
    (hbefore : Follows first earlier) (hafter : Follows later last) : Computed first last := by
  obtain ⟨handle, algorithms, start, length, blockSize, algorithm, digests, hsince⟩ := h
  exact ⟨handle, algorithms, start, length, blockSize, algorithm, digests,
    hsince.widen hbefore hafter⟩

/-! ## Single requests -/

/-- A status check returns only for the codes that it lets through. -/
theorem statusOutcome_ok {path : Option Bytes} {answer : Answer}
    (h : statusOutcome path answer = .ok ()) :
    ∃ code message, Passes code ∧ answer = .ok (.status code message) := by
  cases answer with
  | error interruption => cases h
  | ok reply =>
    cases reply with
    | status code message =>
      refine ⟨code, message, ?_, rfl⟩
      change raiseForStatus code message path = _ at h
      unfold raiseForStatus at h
      split_ifs at h with hcode
      exact hcode
    | _ => cases h

/-- A program that returned left everything done in place. -/
theorem Follows.of_exec {α : Type} {program : Talk α} (h : Does (Step line) program)
    {result : Except Failure α} (hexec : program.exec before = (result, after)) :
    Follows before after := by
  have hfollows := does_follows h before
  rw [hexec] at hfollows
  exact hfollows

/-- An operation that ends in a STATUS check returns only when the answer passed. -/
theorem expectStatus_ok {demand : Demand} {path : Option Bytes}
    (h : (expectStatus line demand path).exec before = (.ok (), after)) :
    Answered Passes before after demand := by
  rw [exec_expectStatus] at h
  obtain ⟨houtcome, rfl⟩ := Prod.mk.inj h
  obtain ⟨code, message, hcode, hanswer⟩ := statusOutcome_ok houtcome
  exact ⟨code, message, hcode, hanswer ▸ since_heard before demand⟩

/-- An extension is reported as performed only when it was asked for and the answer passed. -/
theorem attemptExtension_ok {extension : Bytes} {demand : Demand} {path : Option Bytes}
    (h : (attemptExtension line extension (expectStatus line demand path)).exec before =
      (.ok true, after)) : Answered Passes before after demand := by
  by_cases hknown : extension ∈ before.unsupported
  · rw [exec_attemptExtension_of_mem hknown] at h
    cases h
  · rw [exec_attemptExtension hknown] at h
    obtain ⟨houtcome, rfl⟩ := Prod.mk.inj h
    have hstatus : statusOutcome path (line.answer before.deeds demand) = .ok () := by
      generalize statusOutcome path (line.answer before.deeds demand) = outcome at houtcome
      cases outcome with
      | ok _ => rfl
      | error failure =>
        unfold attemptOutcome at houtcome
        dsimp only at houtcome
        split_ifs at houtcome
        all_goals cases houtcome
    obtain ⟨code, message, hcode, hanswer⟩ := statusOutcome_ok hstatus
    refine ⟨code, message, hcode, [.asked demand (line.answer before.deeds demand)], ?_, ?_⟩
    · exact before.tried_deeds line extension demand
    · simp [hanswer]

/-- What an attempt reports is not changed by putting up with a refusal. -/
theorem orUnsupported_ok {attempt : Talk Bool}
    (h : (orUnsupported attempt).exec before = (.ok true, after)) :
    attempt.exec before = (.ok true, after) := by
  rcases exec_tryCatch_ok.mp h with hok | ⟨failure, between, -, hcatch⟩
  · exact hok
  · split_ifs at hcatch <;> cases hcatch

/-- A flush is reported only when it was asked for and the answer passed. -/
theorem fsyncIfSupported_ok {handle : Handle}
    (h : (fsyncIfSupported line handle).exec before = (.ok true, after)) :
    Answered Passes before after (.fsync handle) := attemptExtension_ok (orUnsupported_ok h)

/-- A rename in one step is reported only when it was asked for and the answer passed. -/
theorem posixRenameIfSupported_ok {oldPath newPath : Bytes}
    (h : (posixRenameIfSupported line oldPath newPath).exec before = (.ok true, after)) :
    Answered Passes before after (.posixRename oldPath newPath) :=
  attemptExtension_ok (orUnsupported_ok h)

/-- Digests are returned only when they were asked for and computed. -/
theorem checkFile_ok {handle : Handle} {algorithms : Bytes} {startOffset length blockSize : ℕ}
    {digests : Bytes × List Bytes}
    (h : (checkFile line handle algorithms startOffset length blockSize).exec before =
      (.ok digests, after)) :
    extensionCheckFile ∉ before.unsupported ∧ Computed before after := by
  by_cases hknown : extensionCheckFile ∈ before.unsupported
  · rw [exec_checkFile_of_mem hknown] at h
    cases h
  · rw [exec_checkFile hknown] at h
    obtain ⟨houtcome, rfl⟩ := Prod.mk.inj h
    refine ⟨hknown, handle, algorithms, startOffset, length, blockSize, ?_⟩
    unfold digestsOutcome at houtcome
    split at houtcome
    · cases houtcome
    · next algorithm theirs hanswer =>
      refine ⟨algorithm, theirs, [.asked _ (line.answer before.deeds _)],
        before.tried_deeds line _ _, ?_⟩
      simp [hanswer]
    · cases houtcome

/-- Attributes are changed without following only when that was asked for and the answer
passed. -/
theorem setOneAttribute_ok {path : Bytes} {attrs : Attrs} {operation : String}
    (h : (setOneAttribute line path attrs false operation).exec before = (.ok (), after)) :
    Answered Passes before after (.lsetstat path attrs) := by
  unfold setOneAttribute at h
  rw [if_neg (by simp)] at h
  obtain ⟨performed, between, hattempt, hrest⟩ := exec_bind_ok.mp h
  cases performed with
  | true =>
    obtain ⟨-, rfl⟩ := Prod.mk.inj hrest
    exact attemptExtension_ok hattempt
  | false => cases hrest

/-- A program that puts up with some failures returned what it says, or a substitute. -/
theorem excuse_ok {α : Type} {program : Talk α} {excused : Failure → Prop}
    [DecidablePred excused] {substitute value : α}
    (h : (tryCatch program fun failure =>
      if excused failure then pure substitute else throw failure).exec before =
        (.ok value, after)) :
    program.exec before = (.ok value, after) ∨ value = substitute := by
  rcases exec_tryCatch_ok.mp h with hok | ⟨failure, between, -, hcatch⟩
  · exact Or.inl hok
  · split_ifs at hcatch
    · exact Or.inr (Except.ok.inj (Prod.mk.inj hcatch).1).symm
    · cases hcatch

/-- A program whose value was put in another form returned. -/
theorem exec_map_ok {α β : Type} {program : Talk α} {form : α → β} {value : β}
    (h : (form <$> program).exec before = (.ok value, after)) :
    ∃ original, program.exec before = (.ok original, after) ∧ form original = value := by
  rw [map_eq_pure_bind] at h
  obtain ⟨original, between, hok, hpure⟩ := exec_bind_ok.mp h
  obtain ⟨hvalue, rfl⟩ := Prod.mk.inj hpure
  exact ⟨original, hok, Except.ok.inj hvalue⟩

/-- A program whose cleanup returned too returned the value. -/
theorem finally_ok {α : Type} {program : Talk α} {cleanup : Talk Unit} {value : α}
    (h : (finally_ program cleanup).exec before = (.ok value, after)) :
    ∃ between, program.exec before = (.ok value, between) ∧
      cleanup.exec between = (.ok (), after) := by
  obtain ⟨value', between, htry, hrest⟩ := exec_bind_ok.mp h
  obtain ⟨_, between', hcleanup, hpure⟩ := exec_bind_ok.mp hrest
  obtain ⟨hvalue, rfl⟩ := Prod.mk.inj hpure
  obtain rfl := Except.ok.inj hvalue
  rcases exec_tryCatch_ok.mp htry with hok | ⟨failure, between'', -, hcatch⟩
  · exact ⟨between, hok, hcleanup⟩
  · obtain ⟨_, _, -, hthrow⟩ := exec_bind_ok.mp hcatch
    cases hthrow

/-! ## Checks -/

/-- A comparison of digests is reported only when they were computed, or nothing was to be
compared. -/
theorem hashesAgree_ok {path : Bytes} {start length : ℕ} {agreed : Bool}
    (h : (hashesAgree line path start length).exec before = (.ok (some agreed), after)) :
    extensionCheckFile ∉ before.unsupported ∧ (length = 0 ∨ Computed before after) := by
  obtain ⟨refused, between, hrefuses, hrest⟩ := exec_bind_ok.mp h
  obtain ⟨hrefused, rfl⟩ := Prod.mk.inj hrefuses
  obtain rfl := Except.ok.inj hrefused
  split_ifs at hrest with hknown hlength
  · cases hrest
  · refine ⟨?_, Or.inl hlength⟩
    simpa using hknown
  · refine ⟨by simpa using hknown, Or.inr ?_⟩
    obtain ⟨handle, opened, hopen, hrest⟩ := exec_bind_ok.mp hrest
    obtain ⟨answer, asked, hfinally, hrest⟩ := exec_bind_ok.mp hrest
    obtain ⟨closing, hask, hclose⟩ := finally_ok hfinally
    have hopened := Follows.of_exec (does_openPatiently path _ _) hopen
    have hclosed := Follows.of_exec (does_closeQuietly handle) hclose
    cases answer with
    | none => cases hrest
    | some digests =>
      have hworked := Follows.of_exec (does_work _ : Does (Step line) _) hrest
      rcases excuse_ok hask with hok | hnone
      · obtain ⟨_, hcheck, -⟩ := exec_map_ok hok
        exact (checkFile_ok hcheck).2.widen hopened (hclosed.trans hworked)
      · cases hnone

/-- A resumed prefix is reported as matching only when digests were computed, or it was read
back. -/
theorem gateResume_ok {path : Bytes} {adopted : ℕ} {verify : Verify}
    (h : (gateResume line path adopted verify).exec before = (.ok .matched, after))
    (hverify : verify ≠ .reread) :
    extensionCheckFile ∉ before.unsupported ∧ Computed before after := by
  unfold gateResume at h
  split_ifs at h with hadopted
  · cases h
  · obtain ⟨agreed, between, hagrees, hrest⟩ := exec_bind_ok.mp h
    have hagrees : (hashesAgree line path 0 adopted).exec before = (.ok agreed, between) := by
      cases verify with
      | reread => exact absurd rfl hverify
      | size => exact hagrees
      | hash => exact hagrees
    split at hrest
    · cases hrest
    · cases hrest
    · obtain ⟨-, rfl⟩ := Prod.mk.inj hrest
      obtain ⟨hknown, hempty | hcomputed⟩ := hashesAgree_ok hagrees
      · exact absurd hempty hadopted
      · exact ⟨hknown, hcomputed⟩

/-- What a content check reports by digests. -/
theorem verifyContent_ok {path : Bytes} {expected : ℕ} {verify : Verify} {check : ContentCheck}
    (h : (verifyContent line path expected verify).exec before = (.ok check, after)) :
    (verify = .hash → check = .hashed ∨ check = .unavailable) ∧
      (check = .hashed →
        extensionCheckFile ∉ before.unsupported ∧ (expected = 0 ∨ Computed before after)) := by
  cases verify with
  | size =>
    obtain ⟨hcheck, -⟩ := Prod.mk.inj h
    obtain rfl := Except.ok.inj hcheck
    simp
  | hash =>
    obtain ⟨agreed, between, hagrees, hrest⟩ := exec_bind_ok.mp h
    split at hrest
    · obtain ⟨hcheck, -⟩ := Prod.mk.inj hrest
      obtain rfl := Except.ok.inj hcheck
      simp
    · cases hrest
    · obtain ⟨hcheck, rfl⟩ := Prod.mk.inj hrest
      obtain rfl := Except.ok.inj hcheck
      exact ⟨fun _ => Or.inl rfl, fun _ => hashesAgree_ok hagrees⟩
  | reread =>
    obtain ⟨agreed, between, -, hrest⟩ := exec_bind_ok.mp h
    split_ifs at hrest
    · obtain ⟨hcheck, -⟩ := Prod.mk.inj hrest
      obtain rfl := Except.ok.inj hcheck
      simp
    · cases hrest

/-! ## Filling -/

/-- The requests that what filling a file reports rests on. -/
structure FilledBy (done : Demand → Prop) (handle : Handle) (durability : Durability)
    (times : TimePreservation) : Prop where
  flushed : durability = .fsynced → done (.fsync handle)
  timed : times = .preserved → ∃ times, done (.fsetstat handle { times := some times })

/-- What a flush that was not performed is reported as. -/
def notFlushed (upload : Upload) : Durability := if upload.fsync then .unavailable else .skipped

/-- A file is reported as flushed only when the server was asked and the answer passed. -/
theorem flush_ok {upload : Upload} {handle : Handle} {durability : Durability}
    (h : (flush line upload handle).exec before = (.ok durability, after)) :
    (durability = .fsynced → Answered Passes before after (.fsync handle)) ∧
      (durability = .fsynced ∨ durability = notFlushed upload) := by
  unfold flush at h
  unfold notFlushed
  by_cases hfsync : upload.fsync = true
  · rw [if_pos hfsync] at h
    obtain ⟨flushed, between, htry, hrest⟩ := exec_bind_ok.mp h
    split at hrest
    · obtain ⟨hdurability, -⟩ := Prod.mk.inj hrest
      obtain rfl := Except.ok.inj hdurability
      simp [hfsync]
    · obtain ⟨hdurability, rfl⟩ := Prod.mk.inj hrest
      obtain rfl := Except.ok.inj hdurability
      refine ⟨fun _ => ?_, Or.inl rfl⟩
      rcases excuse_ok htry with hok | hnone
      · obtain ⟨performed, hperformed, hsome⟩ := exec_map_ok hok
        obtain rfl := Option.some.inj hsome
        exact fsyncIfSupported_ok hperformed
      · cases hnone
    · split_ifs at hrest
      · cases hrest
      · obtain ⟨hdurability, -⟩ := Prod.mk.inj hrest
        obtain rfl := Except.ok.inj hdurability
        simp [hfsync]
  · rw [if_neg hfsync] at h
    obtain ⟨hdurability, -⟩ := Prod.mk.inj h
    obtain rfl := Except.ok.inj hdurability
    simp [hfsync]

/-- Times are reported as carried across only when the server was asked and the answer passed. -/
theorem setTimes_ok {upload : Upload} {handle : Handle}
    (h : (setTimes line upload handle).exec before = (.ok .preserved, after)) :
    ∃ times, Answered Passes before after (.fsetstat handle { times := some times }) := by
  unfold setTimes at h
  split_ifs at h
  · obtain ⟨times, between, hwork, hrest⟩ := exec_bind_ok.mp h
    have hworked := Follows.of_exec (does_work _ : Does (Step line) _) hwork
    refine ⟨times, ?_⟩
    rcases excuse_ok hrest with hok | hunavailable
    · obtain ⟨_, between', hfutime, hpure⟩ := exec_bind_ok.mp hok
      obtain ⟨-, rfl⟩ := Prod.mk.inj hpure
      exact (expectStatus_ok hfutime).widen hworked (List.prefix_refl _)
    · cases hunavailable
  · cases h

/-- What filling a file reports. -/
theorem fill_ok {upload : Upload} {handle : Handle} {path : Bytes} {filled : Filled}
    (h : (fill line upload handle path).exec before = (.ok filled, after)) :
    FilledBy (Answered Passes before after) handle filled.2.1 filled.2.2 ∧
      (filled.2.1 = .fsynced ∨ filled.2.1 = notFlushed upload) := by
  obtain ⟨transferred, sent, htransfer, h⟩ := exec_bind_ok.mp h
  obtain ⟨_, moded, hmode, h⟩ := exec_bind_ok.mp h
  obtain ⟨times, timed, htimes, h⟩ := exec_bind_ok.mp h
  obtain ⟨durability, flushed, hflush, hpure⟩ := exec_bind_ok.mp h
  obtain ⟨hfilled, rfl⟩ := Prod.mk.inj hpure
  obtain rfl := Except.ok.inj hfilled
  have hsent := Follows.of_exec (does_work _ : Does (Step line) _) htransfer
  have hmoded := hsent.trans (Follows.of_exec (does_setMode handle path _) hmode)
  have htimed := Follows.of_exec (does_setTimes upload handle) htimes
  have hflushed := Follows.of_exec (does_flush upload handle) hflush
  obtain ⟨hfsynced, hreport⟩ := flush_ok hflush
  refine ⟨⟨fun hfsync => ?_, fun hpreserved => ?_⟩, hreport⟩
  · exact (hfsynced hfsync).widen (hmoded.trans htimed) (List.prefix_refl _)
  · obtain rfl : times = .preserved := hpreserved
    obtain ⟨carried, hcarried⟩ := setTimes_ok htimes
    exact ⟨carried, hcarried.widen hmoded hflushed⟩

/-- What filling a file and closing it reports. -/
theorem fillAndClose_ok {upload : Upload} {handle : Handle} {path : Bytes} {filled : Filled}
    (h : (fillAndClose line upload handle path).exec before = (.ok filled, after)) :
    FilledBy (Answered Passes before after) handle filled.2.1 filled.2.2 ∧
      (filled.2.1 = .fsynced ∨ filled.2.1 = notFlushed upload) := by
  obtain ⟨filled', between, htry, h⟩ := exec_bind_ok.mp h
  obtain ⟨_, closed, hclose, hpure⟩ := exec_bind_ok.mp h
  obtain ⟨hfilled, rfl⟩ := Prod.mk.inj hpure
  obtain rfl := Except.ok.inj hfilled
  have hclosed := Follows.of_exec (does_expectStatus rfl none : Does (Step line) _) hclose
  rcases exec_tryCatch_ok.mp htry with hok | ⟨failure, _, -, hcatch⟩
  · obtain ⟨⟨hflushed, htimed⟩, hreport⟩ := fill_ok hok
    refine ⟨⟨fun hfsync => ?_, fun hpreserved => ?_⟩, hreport⟩
    · exact (hflushed hfsync).widen (List.prefix_refl _) hclosed
    · obtain ⟨times, htimes⟩ := htimed hpreserved
      exact ⟨times, htimes.widen (List.prefix_refl _) hclosed⟩
  · obtain ⟨_, _, -, hthrow⟩ := exec_bind_ok.mp hcatch
    cases hthrow

end Talk

end GantrySftp
