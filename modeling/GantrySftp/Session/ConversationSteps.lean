import GantrySftp.Session.ConversationPut

/-!
# What a session does against any replies

A session moves by four kinds of steps: work on this side, taking note of the default directory,
a request that is for no extension, and an attempt at an extension that is not known to be
missing, which learns what its answer says. Every operation, however it ends, does nothing else.
-/

namespace GantrySftp

open Library Program

namespace Talk

variable (line : Line)

/-- Whether an answer says that the server does not know what was asked. -/
def Answer.saysUnsupported : Answer → Bool
  | .ok (.status .opUnsupported _) => true
  | _ => false

/-- An extension was tried, and is remembered as unknown if a server that does not advertise it
said so. -/
def Conversation.tried (conversation : Conversation) (extension : Bytes) (demand : Demand) :
    Conversation :=
  if (line.answer conversation.deeds demand).saysUnsupported ∧ ¬ line.supports extension then
    (conversation.heard line demand).learn extension
  else conversation.heard line demand

/-- Trying an extension is asking for it. -/
@[simp] theorem Conversation.tried_deeds (conversation : Conversation) (extension : Bytes)
    (demand : Demand) : (conversation.tried line extension demand).deeds =
      conversation.deeds ++ [.asked demand (line.answer conversation.deeds demand)] := by
  unfold tried
  split_ifs <;> rfl

/-- One step of a session. -/
inductive Step : Conversation → Conversation → Prop
  | worked (conversation : Conversation) : Step conversation conversation.worked
  | rooted (conversation : Conversation) (root : Option Bytes) :
    Step conversation { conversation with root := root }
  | asked (conversation : Conversation) (demand : Demand) (h : demand.extension = none) :
    Step conversation (conversation.heard line demand)
  | tried (conversation : Conversation) (demand : Demand) (extension : Bytes)
    (h : demand.extension = some extension) (hnew : extension ∉ conversation.unsupported) :
    Step conversation (conversation.tried line extension demand)

/-! ## What single requests return -/

/-- What a checked STATUS returns or raises. -/
def statusOutcome (path : Option Bytes) : Answer → Except Failure Unit
  | .error interruption => .error interruption.failure
  | .ok (.status code message) => raiseForStatus code message path
  | .ok reply => .error (unexpected reply none)

variable {line} {α β : Type}

/-- Sending a request is one step. -/
@[simp] theorem exec_ask (demand : Demand) (conversation : Conversation) :
    (ask line demand).exec conversation =
      ((line.answer conversation.deeds demand).mapError Interruption.failure,
        conversation.heard line demand) := rfl

/-- Work on this side is one step. -/
@[simp] theorem exec_work (outcome : List Deed → Except Failure α) (conversation : Conversation) :
    (work outcome).exec conversation =
      (outcome conversation.deeds, conversation.worked) := rfl

/-- Raising what a check raised changes nothing. -/
@[simp] theorem exec_orRaise (result : Except Failure α) (conversation : Conversation) :
    (orRaise result).exec conversation = (result, conversation) := by
  cases result <;> rfl

/-- An operation that ends in a STATUS check is one request. -/
theorem exec_expectStatus (demand : Demand) (path : Option Bytes) (conversation : Conversation) :
    (expectStatus line demand path).exec conversation =
      (statusOutcome path (line.answer conversation.deeds demand),
        conversation.heard line demand) := by
  unfold expectStatus
  rw [exec_bind, exec_ask]
  cases line.answer conversation.deeds demand with
  | error interruption => rfl
  | ok reply =>
    cases reply with
    | status code message => exact exec_orRaise _ _
    | _ => rfl

/-- Asking what was learned changes nothing. -/
@[simp] theorem exec_refuses (extension : Bytes) (conversation : Conversation) :
    (refuses extension).exec conversation =
      (.ok (conversation.unsupported.contains extension), conversation) := rfl

/-- Only a STATUS that says so raises an `UnsupportedError`. -/
theorem saysUnsupported_iff (path : Option Bytes) (answer : Answer) :
    answer.saysUnsupported = true ↔
      ∃ failure, statusOutcome path answer = .error failure ∧ failure.isUnsupported = true := by
  cases answer with
  | error interruption => cases interruption <;> simp [Answer.saysUnsupported, statusOutcome,
      Interruption.failure, Failure.isUnsupported]
  | ok reply =>
    cases reply with
    | status code message =>
      cases code <;> simp [Answer.saysUnsupported, statusOutcome, raiseForStatus,
        Failure.isUnsupported]
    | _ => simp [Answer.saysUnsupported, statusOutcome, unexpected, Failure.isUnsupported]

/-- What an attempt at an extension returns or raises. -/
def attemptOutcome (line : Line) (extension : Bytes) :
    Except Failure Unit → Except Failure Bool
  | .ok _ => .ok true
  | .error failure =>
    if failure.isServerError ∧ ¬ line.supports extension then .ok false else .error failure

/-- An extension known to be missing is not asked for. -/
theorem exec_attemptExtension_of_mem {extension : Bytes} {conversation : Conversation}
    (h : extension ∈ conversation.unsupported) (attempt : Talk Unit) :
    (attemptExtension line extension attempt).exec conversation = (.ok false, conversation) := by
  unfold attemptExtension
  rw [exec_bind, exec_refuses]
  simp [h]

/-- Any other extension is tried with one request. -/
theorem exec_attemptExtension {extension : Bytes} {conversation : Conversation}
    (h : extension ∉ conversation.unsupported) (demand : Demand) (path : Option Bytes) :
    (attemptExtension line extension (expectStatus line demand path)).exec conversation =
      (attemptOutcome line extension
          (statusOutcome path (line.answer conversation.deeds demand)),
        conversation.tried line extension demand) := by
  have hclaim := saysUnsupported_iff path (line.answer conversation.deeds demand)
  unfold attemptExtension Conversation.tried
  rw [exec_bind, exec_refuses]
  simp only [List.contains_eq_mem, h, decide_false, Bool.false_eq_true, if_false]
  rw [exec_tryCatch, exec_bind, exec_expectStatus]
  generalize statusOutcome path (line.answer conversation.deeds demand) = outcome at hclaim ⊢
  cases outcome with
  | ok _ =>
    have hnot : (line.answer conversation.deeds demand).saysUnsupported ≠ true := by
      rw [Ne, hclaim]
      rintro ⟨failure, hfailure, -⟩
      cases hfailure
    simp [hnot, attemptOutcome]
  | error failure =>
    have hiff : (line.answer conversation.deeds demand).saysUnsupported = true ↔
        failure.isUnsupported = true := by
      rw [hclaim]
      constructor
      · rintro ⟨_, ⟨⟩, hfailure⟩
        exact hfailure
      · exact fun hfailure => ⟨failure, rfl, hfailure⟩
    simp only [hiff, refusedExtension, attemptOutcome]
    by_cases hserver : failure.isServerError = true ∧ ¬ line.supports extension = true
    · by_cases hfailure : failure.isUnsupported = true
      · simp only [hserver, hfailure, if_true]
        rfl
      · simp [hserver, hfailure]
    · rw [if_neg hserver, if_neg hserver, if_neg]
      · rfl
      · exact fun hboth => hserver
          ⟨failure.isServerError_of_isUnsupported hboth.1, hboth.2⟩

/-! ## How programs move -/

/-- Sending a request that is for no extension. -/
theorem does_ask {demand : Demand} (h : demand.extension = none) :
    Does (Step line) (ask line demand) := .of fun conversation => .asked conversation demand h

/-- Work on this side. -/
theorem does_work (outcome : List Deed → Except Failure α) : Does (Step line) (work outcome) :=
  .of fun conversation => .worked conversation

/-- Raising what a check raised. -/
theorem does_orRaise (result : Except Failure α) : Does (Step line) (orRaise result) := by
  cases result with
  | ok value => exact .pure value
  | error failure => exact .throw failure

/-- A program's value put in another form. -/
theorem does_map {program : Talk α} (h : Does (Step line) program) (form : α → β) :
    Does (Step line) (form <$> program) := by
  rw [map_eq_pure_bind]
  exact .bind h fun _ => .pure _

/-- A choice between programs. -/
theorem does_ite {condition : Prop} [Decidable condition] {yes no : Talk α}
    (hyes : Does (Step line) yes) (hno : Does (Step line) no) :
    Does (Step line) (if condition then yes else no) := by
  split_ifs
  · exact hyes
  · exact hno

/-- A program whose failures of some kind are put up with. -/
theorem does_excuse {program : Talk α} {excused : Failure → Prop} [DecidablePred excused]
    {value : α} (h : Does (Step line) program) :
    Does (Step line) (tryCatch program fun failure =>
      if excused failure then pure value else throw failure) :=
  .tryCatch h fun _ => does_ite (.pure _) (.throw _)

/-- Cleaning up. -/
theorem does_finally {program : Talk α} {cleanup : Talk Unit} (hprogram : Does (Step line) program)
    (hcleanup : Does (Step line) cleanup) : Does (Step line) (finally_ program cleanup) :=
  .bind (.tryCatch hprogram fun _ => .bind hcleanup fun _ => .throw _) fun _ =>
    .bind hcleanup fun _ => .pure _

/-- Asking what was learned. -/
theorem does_refuses (extension : Bytes) : Does (Step line) (refuses extension) :=
  .bind .get fun _ => .pure _

/-- An operation that ends in a STATUS check. -/
theorem does_expectStatus {demand : Demand} (h : demand.extension = none) (path : Option Bytes) :
    Does (Step line) (expectStatus line demand path) := by
  intro conversation
  rw [exec_expectStatus]
  exact .single (.asked conversation demand h)

/-- An operation answered with attributes. -/
theorem does_expectAttrs {demand : Demand} (h : demand.extension = none) (path : Bytes) :
    Does (Step line) (expectAttrs line demand path) := by
  refine .bind (does_ask h) fun reply => ?_
  cases reply with
  | attrs attrs => exact .pure _
  | _ => exact .throw _

/-- Asking for attributes. -/
theorem does_stat (path : Bytes) : Does (Step line) (stat line path) := does_expectAttrs rfl path

/-- Asking for attributes without following. -/
theorem does_lstat (path : Bytes) : Does (Step line) (lstat line path) := does_expectAttrs rfl path

/-- Asking for the canonical form of a path. -/
theorem does_realpath (path : Bytes) : Does (Step line) (realpath line path) := by
  refine .bind (does_ask rfl) fun reply => ?_
  split
  · exact .pure _
  · exact .throw _
  · exact .throw _

/-- Trying again. -/
theorem does_withTransientRetry {attempt : Talk α} (h : Does (Step line) attempt) (retries : ℕ) :
    Does (Step line) (withTransientRetry line attempt retries) := by
  induction retries with
  | zero => exact h
  | succ retries ih => exact .tryCatch h fun _ => does_ite ih (.throw _)

/-- Opening a file. -/
theorem does_openFile (path : Bytes) (pflags : OpenFlag) (mode : Option ℤ) :
    Does (Step line) (openFile line path pflags mode) := by
  refine .bind (does_ask rfl) fun reply => ?_
  cases reply with
  | handle handle => exact .pure _
  | _ => exact .throw _

/-- Opening a file, trying again. -/
theorem does_openPatiently (path : Bytes) (pflags : OpenFlag) (mode : Option ℤ) :
    Does (Step line) (openPatiently line path pflags mode) :=
  does_withTransientRetry (does_openFile path pflags mode) _

/-- Closing, whatever comes of it. -/
theorem does_closeQuietly (handle : Handle) : Does (Step line) (closeQuietly line handle) :=
  does_excuse (does_expectStatus rfl none)

/-- Trying an extension. -/
theorem does_attemptExtension {extension : Bytes} {demand : Demand}
    (h : demand.extension = some extension) (path : Option Bytes) :
    Does (Step line) (attemptExtension line extension (expectStatus line demand path)) := by
  intro conversation
  by_cases hknown : extension ∈ conversation.unsupported
  · rw [exec_attemptExtension_of_mem hknown]
  · rw [exec_attemptExtension hknown]
    exact .single (.tried conversation demand extension h hknown)

/-- Flushing if the server will. -/
theorem does_fsyncIfSupported (handle : Handle) : Does (Step line) (fsyncIfSupported line handle) :=
  does_excuse (does_attemptExtension rfl none)

/-- Renaming over a file if the server will. -/
theorem does_posixRenameIfSupported (oldPath newPath : Bytes) :
    Does (Step line) (posixRenameIfSupported line oldPath newPath) :=
  does_excuse (does_attemptExtension rfl (some newPath))

/-- Setting attributes of a path. -/
theorem does_setOneAttribute (path : Bytes) (attrs : Attrs) (followSymlinks : Bool)
    (operation : String) :
    Does (Step line) (setOneAttribute line path attrs followSymlinks operation) := by
  refine does_ite (does_expectStatus rfl (some path)) ?_
  refine .bind (does_attemptExtension rfl (some path)) fun performed => ?_
  exact does_ite (.pure _) (.throw _)

/-- What a `check-file` request returns or raises. -/
def digestsOutcome (line : Line) : Answer → Except Failure (Bytes × List Bytes)
  | .error interruption => .error interruption.failure
  | .ok (.digests algorithm digests) =>
    if line.hashlib.contains algorithm then .ok (algorithm, digests)
    else .error (.protocolError (.unexpectedReply (.digests algorithm digests)))
  | .ok reply => .error (unexpected reply none)

/-- A `check-file` request that is known to be pointless is not sent. -/
theorem exec_checkFile_of_mem {conversation : Conversation}
    (h : extensionCheckFile ∈ conversation.unsupported) (handle : Handle) (algorithms : Bytes)
    (startOffset length blockSize : ℕ) :
    (checkFile line handle algorithms startOffset length blockSize).exec conversation =
      (.error (.serverError .opUnsupported [] none), conversation) := by
  unfold checkFile
  rw [exec_bind, exec_refuses]
  simp [h]

/-- Any other is one attempt. -/
theorem exec_checkFile {conversation : Conversation}
    (h : extensionCheckFile ∉ conversation.unsupported) (handle : Handle) (algorithms : Bytes)
    (startOffset length blockSize : ℕ) :
    (checkFile line handle algorithms startOffset length blockSize).exec conversation =
      (digestsOutcome line (line.answer conversation.deeds
          (.checkFile handle algorithms startOffset length blockSize)),
        conversation.tried line extensionCheckFile
          (.checkFile handle algorithms startOffset length blockSize)) := by
  unfold checkFile Conversation.tried
  rw [exec_bind, exec_refuses]
  simp only [List.contains_eq_mem, h, decide_false, Bool.false_eq_true, if_false]
  rw [exec_bind, exec_ask]
  generalize (Demand.checkFile handle algorithms startOffset length blockSize) = demand
  cases line.answer conversation.deeds demand with
  | error interruption => rfl
  | ok reply =>
    cases reply with
    | status code message =>
      cases code with
      | opUnsupported =>
        change Program.exec (learnCheckFile line >>= _) _ = _
        unfold learnCheckFile
        cases line.supports extensionCheckFile <;> rfl
      | _ => rfl
    | digests algorithm digests =>
      change Program.exec (checkFileReply line _) _ = _
      unfold checkFileReply digestsOutcome
      dsimp only
      split_ifs <;> first | rfl | simp_all [Answer.saysUnsupported]
    | _ => rfl

/-- Asking for digests. -/
theorem does_checkFile (handle : Handle) (algorithms : Bytes)
    (startOffset length blockSize : ℕ) :
    Does (Step line) (checkFile line handle algorithms startOffset length blockSize) := by
  intro conversation
  by_cases hknown : extensionCheckFile ∈ conversation.unsupported
  · rw [exec_checkFile_of_mem hknown]
  · rw [exec_checkFile hknown]
    exact .single (.tried conversation _ extensionCheckFile rfl hknown)

/-! ## Uploads -/

/-- Asking for digests, unless the server does not compute them. -/
theorem does_askDigests (handle : Handle) (start length : ℕ) :
    Does (Step line) (askDigests line handle start length) :=
  does_excuse (does_map (does_checkFile handle _ start length _) some)

/-- Comparing digests. -/
theorem does_hashesAgree (path : Bytes) (start length : ℕ) :
    Does (Step line) (hashesAgree line path start length) := by
  refine .bind (does_refuses _) fun refused => does_ite (.pure _) (does_ite (.pure _) ?_)
  refine .bind (does_openPatiently path _ _) fun handle => ?_
  refine .bind (does_finally (does_askDigests handle start length) (does_closeQuietly handle))
    fun answer => ?_
  cases answer with
  | none => exact .pure _
  | some _ => exact does_work _

/-- Reading back and comparing. -/
theorem does_rereadAgrees (path : Bytes) (length : ℕ) :
    Does (Step line) (rereadAgrees line path length) :=
  does_ite (.pure _) (.bind (does_openPatiently path _ _) fun handle =>
    does_finally (does_work _) (does_closeQuietly handle))

/-- Gating the prefix a resume adopts. -/
theorem does_gateResume (path : Bytes) (adopted : ℕ) (verify : Verify) :
    Does (Step line) (gateResume line path adopted verify) := by
  refine does_ite (.pure _) (.bind ?_ fun agreed => ?_)
  · cases verify with
    | reread => exact does_map (does_rereadAgrees path adopted) some
    | size => exact does_hashesAgree path 0 adopted
    | hash => exact does_hashesAgree path 0 adopted
  · split
    · exact .pure _
    · exact .throw _
    · exact .pure _

/-- Checking the whole content. -/
theorem does_verifyContent (path : Bytes) (expected : ℕ) (verify : Verify) :
    Does (Step line) (verifyContent line path expected verify) := by
  cases verify with
  | size => exact .pure _
  | hash =>
    refine .bind (does_hashesAgree path 0 expected) fun agreed => ?_
    split
    · exact .pure _
    · exact .throw _
    · exact .pure _
  | reread =>
    exact .bind (does_rereadAgrees path expected) fun agreed => does_ite (.pure _) (.throw _)

/-- Comparing lengths. -/
theorem does_confirmSize (path : Bytes) (expected : ℕ) :
    Does (Step line) (confirmSize line path expected) := by
  refine .bind (does_excuse (does_map (does_stat path) Attrs.sizeNat)) fun size => ?_
  cases size with
  | none => exact .pure _
  | some size => exact does_ite (.throw _) (.pure _)

/-- Checking a file that was filled. -/
theorem does_checkFilled (upload : Upload) (path : Bytes) :
    Does (Step line) (checkFilled line upload path) :=
  .bind (does_work _) fun expected => .bind (does_confirmSize path expected) fun _ =>
    .bind (does_verifyContent path expected upload.verify) fun _ => .pure _

/-- Finding where an upload starts. -/
theorem does_uploadResumeOffset (upload : Upload) (path : Bytes) :
    Does (Step line) (uploadResumeOffset line upload path) := by
  refine does_ite (.bind (does_work _) fun localSize => ?_) (.pure _)
  refine .bind (does_excuse (does_map (does_stat path) some)) fun attrs => ?_
  cases attrs with
  | none => exact .pure _
  | some attrs => exact does_orRaise _

/-- Setting permissions. -/
theorem does_setMode (handle : Handle) (path : Bytes) (mode : Option ℤ) :
    Does (Step line) (setMode line handle path mode) := by
  cases mode with
  | none => exact .pure _
  | some mode => exact does_expectStatus rfl _

/-- Carrying times across. -/
theorem does_setTimes (upload : Upload) (handle : Handle) :
    Does (Step line) (setTimes line upload handle) :=
  does_ite (.bind (does_work _) fun _ =>
    does_excuse (.bind (does_expectStatus rfl none) fun _ => .pure _)) (.pure _)

/-- Flushing. -/
theorem does_flush (upload : Upload) (handle : Handle) :
    Does (Step line) (flush line upload handle) := by
  refine does_ite (.bind ?_ fun flushed => ?_) (.pure _)
  · exact does_excuse (does_map (does_fsyncIfSupported handle) some)
  · split
    · exact .pure _
    · exact .pure _
    · exact does_ite (.throw _) (.pure _)

/-- Filling a file. -/
theorem does_fill (upload : Upload) (handle : Handle) (path : Bytes) :
    Does (Step line) (fill line upload handle path) :=
  .bind (does_work _) fun _ => .bind (does_setMode handle path upload.mode) fun _ =>
    .bind (does_setTimes upload handle) fun _ => .bind (does_flush upload handle) fun _ => .pure _

/-- Filling a file and closing it. -/
theorem does_fillAndClose (upload : Upload) (handle : Handle) (path : Bytes) :
    Does (Step line) (fillAndClose line upload handle path) :=
  .bind (.tryCatch (does_fill upload handle path) fun _ =>
    .bind (does_closeQuietly handle) fun _ => .throw _) fun _ =>
      .bind (does_expectStatus rfl none) fun _ => .pure _

/-- Uploading in place. -/
theorem does_putInPlace (upload : Upload) (target : Bytes) :
    Does (Step line) (putInPlace line upload target) :=
  .bind (does_uploadResumeOffset upload target) fun start =>
    .bind (does_gateResume target start upload.verify) fun _ =>
      .bind (does_openPatiently target _ _) fun handle =>
        .bind (does_setMode handle target _) fun _ =>
          .bind (does_fillAndClose upload handle target) fun _ =>
            .bind (does_checkFilled upload target) fun _ => .pure _

/-- Confirming that a path is there. -/
theorem does_confirmedPresent (path : Bytes) : Does (Step line) (confirmedPresent line path) :=
  does_excuse (.bind (does_lstat path) fun _ => .pure _)

/-- Renaming, whatever comes of it. -/
theorem does_renamed (staged target : Bytes) : Does (Step line) (renamed line staged target) :=
  .tryCatch (does_map (does_expectStatus rfl _) _) fun _ => .pure _

/-- Removing the target. -/
theorem does_removeTarget (target : Bytes) : Does (Step line) (removeTarget line target) :=
  .tryCatch (does_expectStatus rfl _) fun _ => does_ite (.throw _) (.throw _)

/-- Renaming onto the removed target. -/
theorem does_renameOntoRemoved (staged target : Bytes) :
    Does (Step line) (renameOntoRemoved line staged target) :=
  .tryCatch (does_expectStatus rfl _) fun _ => .throw _

/-- Publishing after a rename that failed. -/
theorem does_afterRenameFailure (staged target : Bytes) (requireAtomic : Bool)
    (failure : Failure) :
    Does (Step line) (afterRenameFailure line staged target requireAtomic failure) := by
  refine does_ite (.bind (does_confirmedPresent target) fun _ => ?_) (.throw _)
  refine does_ite (does_ite (.throw _) ?_) (.throw _)
  exact .bind (does_removeTarget target) fun _ =>
    .bind (does_renameOntoRemoved staged target) fun _ => .pure _

/-- Publishing. -/
theorem does_publish (staged target : Bytes) (requireAtomic : Bool) :
    Does (Step line) (publish line staged target requireAtomic) := by
  refine .bind (does_posixRenameIfSupported staged target) fun performed =>
    does_ite (.pure _) (.bind (does_renamed staged target) fun outcome => ?_)
  cases outcome with
  | ok _ => exact .pure _
  | error failure => exact does_afterRenameFailure staged target requireAtomic failure

/-- Making a record. -/
theorem does_record (journal : Bool) : Does (Step line) (record line journal) :=
  does_ite (does_work _) (.pure _)

/-- Finding out whether the server flushes. -/
theorem does_requireFlush (upload : Upload) (handle : Handle) :
    Does (Step line) (requireFlush line upload handle) := by
  refine does_ite (does_ite (.pure _) ?_) (.pure _)
  exact .bind (does_fsyncIfSupported handle) fun _ => does_ite (.pure _) (.throw _)

/-- Filling, checking and publishing a staging file. -/
theorem does_fillAndPublish (upload : Upload) (target staged : Bytes) (requireAtomic : Bool)
    (handle : Handle) (resumeCheck : ResumeCheck) :
    Does (Step line)
      (fillAndPublish line upload target staged requireAtomic handle resumeCheck) := by
  refine .bind (does_requireFlush upload handle) fun _ => ?_
  exact .bind (does_fillAndClose upload handle staged) fun _ =>
    .bind (does_checkFilled upload staged) fun _ =>
      .bind (does_publish staged target requireAtomic) fun _ => .pure _

/-- Cleaning up after a failed upload. -/
theorem does_cleanUp (journal : Bool) (staged : Bytes) (failure : Failure) :
    Does (Step line) (cleanUp line journal staged failure) := by
  unfold cleanUp
  split
  · exact .throw _
  · exact .bind (does_excuse (does_expectStatus rfl _)) fun _ =>
      .bind (does_record journal) fun _ => .throw _

/-- Refusing what could not be published. -/
theorem does_requirePublishable (target : Bytes) (requireAtomic : Bool) :
    Does (Step line) (requirePublishable line target requireAtomic) := by
  refine does_ite ?_ (.pure _)
  exact .bind (does_confirmedPresent target) fun _ => does_ite (.throw _) (.pure _)

/-- Uploading atomically. -/
theorem does_putAtomically (upload : Upload) (target staged : Bytes)
    (requireAtomic journal : Bool) :
    Does (Step line) (putAtomically line upload target staged requireAtomic journal) := by
  refine .bind (does_requirePublishable target requireAtomic) fun _ =>
    .bind (does_record journal) fun _ => ?_
  exact .bind (does_uploadResumeOffset upload staged) fun start =>
    .bind (does_gateResume staged start upload.verify) fun _ =>
      .bind (does_openPatiently staged _ _) fun handle =>
        .bind (.tryCatch (does_fillAndPublish upload target staged requireAtomic handle _)
          fun failure => does_cleanUp journal staged failure) fun _ =>
            .bind (does_record journal) fun _ => .pure _

/-- Asking for the default directory. -/
theorem does_defaultDirectory : Does (Step line) (defaultDirectory line) := by
  refine .bind .get fun conversation => ?_
  cases conversation.root with
  | some root => exact .pure _
  | none =>
    exact .bind (does_realpath _) fun root =>
      .bind (.modify fun conversation => .rooted conversation (some root)) fun _ => .pure _

/-- Choosing a staging path. -/
theorem does_chooseStaged (target token : Bytes) (options : PutOptions) :
    Does (Step line) (chooseStaged line target token options) := by
  refine .bind (does_ite (does_work _) (.pure _)) fun continuing => ?_
  cases continuing with
  | some staged => exact .pure _
  | none => exact does_orRaise _

/-- Checking that a staging path can be built. -/
theorem does_requireStaging (target : Bytes) (options : PutOptions) :
    Does (Step line) (requireStaging line target options) := by
  refine does_ite (does_ite (.pure _) ?_) (.pure _)
  exact .bind does_defaultDirectory fun _ => does_ite (.pure _) (.throw _)

/-- Uploading in place or atomically. -/
theorem does_publishUpload (upload : Upload) (target token : Bytes) (options : PutOptions) :
    Does (Step line) (publishUpload line upload target token options) := by
  refine does_ite (.bind (does_requireStaging target options) fun _ => ?_)
    (does_putInPlace upload target)
  exact .bind (does_chooseStaged target token options) fun _ =>
    does_putAtomically upload target _ _ _

/-- Settling permission bits. -/
theorem does_uploadMode (mode : Option Mode) : Does (Step line) (uploadMode line mode) := by
  unfold uploadMode
  split
  · exact .pure _
  · exact .pure _
  · exact does_map (does_work _) some

/-- Uploading a file. -/
theorem does_put (localStat : LocalStat) (target token : Bytes) (options : PutOptions) :
    Does (Step line) (put line localStat target token options) := by
  refine .bind (does_orRaise _) fun _ => .bind (does_refuses _) fun _ => does_ite (.throw _) ?_
  exact .bind (does_uploadMode _) fun _ => does_publishUpload _ target token options

end Talk

end GantrySftp
