import GantrySftp.Session.PutReports

/-!
# Extensions over a whole session

Flushes, renames in one step, requests for digests, attribute changes that follow no link and
uploads, in any order, against any server. The extensions a session holds for unknown are those
that the server does not advertise and answered OP_UNSUPPORTED for; it does not ask for them again
and reports them as not available.
-/

namespace GantrySftp

open Library Program

namespace Talk

variable {line : Line}

/-- A call of one of the operations that try an extension. -/
inductive Call
  | fsyncIfSupported (handle : Handle)
  | posixRenameIfSupported (oldPath newPath : Bytes)
  | checkFile (handle : Handle) (algorithms : Bytes) (startOffset length blockSize : ℕ)
  | chmod (path : Bytes) (mode : ℤ)
  | chown (path : Bytes) (owner : Owner)
  | utime (path : Bytes) (times : Times)
  | put (localStat : LocalStat) (target token : Bytes) (options : PutOptions)

/-- What a call returns. -/
inductive Outcome
  | said (performed : Bool)
  | digests (answer : Bytes × List Bytes)
  | changed
  | uploaded (result : UploadResult)

/-- Make a call. Attributes are changed without following a link. -/
def Call.run (line : Line) : Call → Talk Outcome
  | fsyncIfSupported handle => Outcome.said <$> Talk.fsyncIfSupported line handle
  | posixRenameIfSupported oldPath newPath =>
    Outcome.said <$> Talk.posixRenameIfSupported line oldPath newPath
  | checkFile handle algorithms startOffset length blockSize =>
    Outcome.digests <$> Talk.checkFile line handle algorithms startOffset length blockSize
  | chmod path mode => (fun _ => .changed) <$> Talk.chmod line path mode false
  | chown path owner => (fun _ => .changed) <$> Talk.chown line path owner false
  | utime path times => (fun _ => .changed) <$> Talk.utime line path times false
  | put localStat target token options =>
    Outcome.uploaded <$> Talk.put line localStat target token options

/-- A new session after calls, whatever came of each. -/
def afterCalls (line : Line) (calls : List Call) : Conversation :=
  calls.foldl (fun conversation call => ((call.run line).exec conversation).2) .fresh

/-! ## What calls report -/

/-- What an upload's result says was performed by an extension. -/
def saysUploaded (options : PutOptions) (extension : Bytes) (result : UploadResult) : Prop :=
  (extension = extensionPosixRename ∧ result.mechanism = .posixRename) ∨
    (extension = extensionFsync ∧ result.durability = .fsynced) ∨
    (extension = extensionCheckFile ∧
      (result.contentCheck = .hashed ∨
        (result.resumeCheck = .matched ∧ options.verify ≠ .reread)))

/-- What a call returned says that an extension was performed. -/
def Call.saysPerformed (extension : Bytes) : Call → Outcome → Prop
  | fsyncIfSupported _, .said performed => extension = extensionFsync ∧ performed = true
  | posixRenameIfSupported _ _, .said performed =>
    extension = extensionPosixRename ∧ performed = true
  | checkFile _ _ _ _ _, .digests _ => extension = extensionCheckFile
  | chmod _ _, .changed => extension = extensionLsetstat
  | chown _ _, .changed => extension = extensionLsetstat
  | utime _ _, .changed => extension = extensionLsetstat
  | put _ _ _ options, .uploaded result => saysUploaded options extension result
  | _, _ => False

/-- What an upload's result says where an extension is not available. -/
structure UploadedWithout (extension : Bytes) (options : PutOptions) (result : UploadResult) :
    Prop where
  renamed : extension = extensionPosixRename → result.mechanism ≠ .posixRename
  flushed : extension = extensionFsync → options.publish.requireFsync = false ∧
    result.durability = if options.publish.fsync then .unavailable else .skipped
  compared : extension = extensionCheckFile →
    (options.verify = .hash → result.contentCheck = .unavailable) ∧
      (options.verify ≠ .reread → result.resumeCheck ≠ .matched)

/-- What a call returns or raises says that an extension is not available, if it needs it. -/
def Call.SaysUnavailable (extension : Bytes) (result : Except Failure Outcome) : Call → Prop
  | fsyncIfSupported _ => extension = extensionFsync → result = .ok (.said false)
  | posixRenameIfSupported _ _ => extension = extensionPosixRename → result = .ok (.said false)
  | checkFile _ _ _ _ _ =>
    extension = extensionCheckFile → result = .error (.serverError .opUnsupported [] none)
  | chmod _ _ => extension = extensionLsetstat → result = .error (notWithoutFollowing "chmod")
  | chown _ _ => extension = extensionLsetstat → result = .error (notWithoutFollowing "chown")
  | utime _ _ => extension = extensionLsetstat → result = .error (notWithoutFollowing "utime")
  | put _ _ _ options =>
    ∀ uploaded, result = .ok (.uploaded uploaded) → UploadedWithout extension options uploaded

/-- A reply that is no refusal of what was asked. -/
def Demand.Honoured : Demand → Reply → Prop
  | checkFile _ _ _ _ _, .digests _ _ => True
  | checkFile _ _ _ _ _, _ => False
  | _, .status code _ => Passes code
  | _, _ => False

/-- An extension was asked for, and not refused. -/
def Honoured (earlier later : Conversation) (extension : Bytes) : Prop :=
  ∃ demand reply, demand.extension = some extension ∧ demand.Honoured reply ∧
    Since earlier later (.asked demand (.ok reply))

/-- An extension was asked for, and answered with OP_UNSUPPORTED. -/
def DeclinedSince (earlier later : Conversation) (extension : Bytes) : Prop :=
  ∃ demand answer, demand.extension = some extension ∧ answer.saysUnsupported = true ∧
    Since earlier later (.asked demand answer)

/-! ## What calls keep -/

/-- Every call moves by steps. -/
theorem does_run (call : Call) : Does (Step line) (call.run line) := by
  cases call with
  | fsyncIfSupported handle => exact does_map (does_fsyncIfSupported handle) _
  | posixRenameIfSupported oldPath newPath =>
    exact does_map (does_posixRenameIfSupported oldPath newPath) _
  | checkFile handle algorithms startOffset length blockSize =>
    exact does_map (does_checkFile handle algorithms startOffset length blockSize) _
  | chmod path mode => exact does_map (does_setOneAttribute path _ false _) _
  | chown path owner => exact does_map (does_setOneAttribute path _ false _) _
  | utime path times => exact does_map (does_setOneAttribute path _ false _) _
  | put localStat target token options => exact does_map (does_put localStat target token options) _

/-- What a session has learned is exact after any calls. -/
theorem exact_afterCalls (calls : List Call) : Exact line (afterCalls line calls) := by
  unfold afterCalls
  induction calls using List.reverseRecOn with
  | nil => exact exact_fresh
  | append_singleton calls call ih =>
    rw [List.foldl_append]
    exact does_exact (does_run call) ih

/-- What the server declined is heeded after any calls. -/
theorem heeded_afterCalls (calls : List Call) : Heeded line (afterCalls line calls) := by
  induction calls using List.reverseRecOn with
  | nil => exact heeded_fresh
  | append_singleton calls call ih =>
    have hlast : afterCalls line (calls ++ [call]) =
        ((call.run line).exec (afterCalls line calls)).2 := by
      unfold afterCalls
      rw [List.foldl_append]
      rfl
    rw [hlast]
    exact does_heeded (does_run call) (exact_afterCalls calls) ih

/-- What is learned since an exact moment was declined since. -/
theorem Exact.declinedSince {earlier later : Conversation} {extension : Bytes}
    (hearlier : Exact line earlier) (hlater : Exact line later) (hfollows : Follows earlier later)
    (h : extension ∈ later.unsupported) :
    extension ∈ earlier.unsupported ∨
      extension ∉ line.advertised ∧ DeclinedSince earlier later extension := by
  obtain ⟨hunknown, demand, answer, hmem, hfor, hclaim⟩ := (hlater extension).mp h
  obtain ⟨done, heq⟩ := hfollows
  rw [← heq] at hmem
  rcases List.mem_append.mp hmem with hmem | hmem
  · exact Or.inl ((hearlier extension).mpr ⟨hunknown, demand, answer, hmem, hfor, hclaim⟩)
  · exact Or.inr ⟨hunknown, demand, answer, hfor, hclaim, done, heq.symm, hmem⟩

/-! ## Extensions that are not available -/

/-- An operation that puts up with a missing extension reports it. -/
theorem exec_orUnsupported_of_mem {extension : Bytes} {conversation : Conversation}
    (h : extension ∈ conversation.unsupported) (attempt : Talk Unit) :
    (orUnsupported (attemptExtension line extension attempt)).exec conversation =
      (.ok false, conversation) := by
  unfold orUnsupported
  rw [exec_tryCatch, exec_attemptExtension_of_mem h]

/-- Attributes cannot be changed without following once that extension is known to be missing. -/
theorem exec_setOneAttribute_of_mem {conversation : Conversation}
    (h : extensionLsetstat ∈ conversation.unsupported) (path : Bytes) (attrs : Attrs)
    (operation : String) :
    (setOneAttribute line path attrs false operation).exec conversation =
      (.error (notWithoutFollowing operation), conversation) := by
  unfold setOneAttribute
  rw [if_neg (by simp), exec_bind, exec_attemptExtension_of_mem h]
  rfl

/-- What a program with its value put in another form returns or raises. -/
theorem exec_map {α β : Type} (form : α → β) (program : Talk α) (conversation : Conversation) :
    (form <$> program).exec conversation =
      ((program.exec conversation).1.map form, (program.exec conversation).2) := by
  rw [map_eq_pure_bind, exec_bind]
  generalize program.exec conversation = outcome
  obtain ⟨error | value, after⟩ := outcome <;> rfl

/-- A put that requires a flush is refused where that is known to be missing. -/
theorem put_requires {conversation after : Conversation} {localStat : LocalStat}
    {target token : Bytes} {options : PutOptions} {result : UploadResult}
    (hknown : extensionFsync ∈ conversation.unsupported)
    (h : (put line localStat target token options).exec conversation = (.ok result, after)) :
    options.publish.requireFsync = false := by
  obtain ⟨_, checked, hflags, h⟩ := exec_bind_ok.mp h
  rw [exec_orRaise] at hflags
  obtain ⟨-, rfl⟩ := Prod.mk.inj hflags
  obtain ⟨refused, asked, hrefuses, h⟩ := exec_bind_ok.mp h
  obtain ⟨hrefused, rfl⟩ := Prod.mk.inj hrefuses
  obtain rfl := Except.ok.inj hrefused
  by_cases hrequired : options.publish.requireFsync = true
  · rw [if_pos ⟨hrequired, by simpa using hknown⟩] at h
    cases h
  · simpa using hrequired

/-- What passed was asked for since, so its extension was not kept quiet. -/
theorem Answered.not_quiet {codes : StatusCode → Prop} {earlier later : Conversation}
    {demand : Demand} {extension : Bytes} (h : Answered codes earlier later demand)
    (hfor : demand.extension = some extension) : ¬ Quiet extension earlier later := by
  obtain ⟨code, message, -, hsince⟩ := h
  exact fun hquiet => Quiet.not_since hquiet (show Deed.isFor extension (.asked demand _) from hfor)
    hsince

/-- An upload's result says so where an extension is not available. -/
theorem uploadedWithout {conversation after : Conversation} {localStat : LocalStat}
    {target token : Bytes} {options : PutOptions} {result : UploadResult} {extension : Bytes}
    (hknown : extension ∈ conversation.unsupported)
    (h : (put line localStat target token options).exec conversation = (.ok result, after)) :
    UploadedWithout extension options result := by
  obtain ⟨mode, hrests⟩ := put_ok h
  have hquiet := does_quiet (does_put localStat target token options : Does (Step line) _) hknown
  rw [h] at hquiet
  refine ⟨?_, ?_, ?_⟩
  · rintro rfl hmechanism
    obtain ⟨staged, -, hpublished⟩ := hrests.published
    rw [hmechanism] at hpublished
    exact hpublished.not_quiet rfl hquiet
  · rintro rfl
    refine ⟨put_requires hknown h, hrests.flushed.resolve_left fun hfsynced => ?_⟩
    obtain ⟨handle, -, hfilled⟩ := hrests.filled
    exact (hfilled.flushed hfsynced).not_quiet rfl hquiet
  · rintro rfl
    refine ⟨fun hhash => ?_, fun hverify hmatched => ?_⟩
    · refine (hrests.checked.reported hhash).resolve_left fun hhashed => ?_
      exact (hrests.checked.asked hhashed).1 hknown
    · exact (hrests.resumed hmatched hverify).1 hknown

/-- Every call says so where an extension it needs is not available. -/
theorem saysUnavailable {conversation : Conversation} {extension : Bytes}
    (h : extension ∈ conversation.unsupported) (call : Call) :
    call.SaysUnavailable extension ((call.run line).exec conversation).1 := by
  cases call with
  | fsyncIfSupported handle =>
    rintro rfl
    rw [Call.run, exec_map, fsyncIfSupported, exec_orUnsupported_of_mem h]
    rfl
  | posixRenameIfSupported oldPath newPath =>
    rintro rfl
    rw [Call.run, exec_map, posixRenameIfSupported, exec_orUnsupported_of_mem h]
    rfl
  | checkFile handle algorithms startOffset length blockSize =>
    rintro rfl
    rw [Call.run, exec_map, exec_checkFile_of_mem h]
    rfl
  | chmod path mode =>
    rintro rfl
    rw [Call.run, exec_map, chmod, exec_setOneAttribute_of_mem h]
    rfl
  | chown path owner =>
    rintro rfl
    rw [Call.run, exec_map, chown, exec_setOneAttribute_of_mem h]
    rfl
  | utime path times =>
    rintro rfl
    rw [Call.run, exec_map, utime, exec_setOneAttribute_of_mem h]
    rfl
  | put localStat target token options =>
    intro uploaded huploaded
    obtain ⟨result, hput, hresult⟩ := exec_map_ok (Prod.ext huploaded rfl)
    cases hresult
    exact uploadedWithout h hput

/-! ## Extensions that were performed -/

/-- What passed was honoured. -/
theorem Answered.honoured {earlier later : Conversation} {demand : Demand} {extension : Bytes}
    (h : Answered Passes earlier later demand) (hfor : demand.extension = some extension)
    (hhonoured : ∀ code message, Passes code → demand.Honoured (.status code message)) :
    Honoured earlier later extension := by
  obtain ⟨code, message, hcode, hsince⟩ := h
  exact ⟨demand, _, hfor, hhonoured code message hcode, hsince⟩

/-- What was computed was honoured. -/
theorem Computed.honoured {earlier later : Conversation} (h : Computed earlier later) :
    Honoured earlier later extensionCheckFile := by
  obtain ⟨handle, algorithms, start, length, blockSize, algorithm, digests, hsince⟩ := h
  exact ⟨.checkFile handle algorithms start length blockSize, .digests algorithm digests, rfl,
    trivial, hsince⟩

/-- What an upload's result says was performed was honoured, or there was nothing to compare. -/
theorem honoured_of_saysUploaded {conversation after : Conversation} {upload : Upload}
    {target : Bytes} {options : PutOptions} {result : UploadResult} {extension : Bytes}
    (h : RestsOn line conversation after upload target result)
    (hverify : upload.verify = options.verify)
    (hclaim : saysUploaded options extension result) :
    Honoured conversation after extension ∨
      extension = extensionCheckFile ∧ WasEmpty line conversation after := by
  rcases hclaim with ⟨rfl, hmechanism⟩ | ⟨rfl, hfsynced⟩ | ⟨rfl, hhashed | ⟨hmatched, hreread⟩⟩
  · obtain ⟨staged, -, hpublished⟩ := h.published
    rw [hmechanism] at hpublished
    exact Or.inl (hpublished.honoured rfl fun _ _ => id)
  · obtain ⟨handle, -, hfilled⟩ := h.filled
    exact Or.inl ((hfilled.flushed hfsynced).honoured rfl fun _ _ => id)
  · rcases (h.checked.asked hhashed).2 with hempty | hcomputed
    · exact Or.inr ⟨rfl, hempty⟩
    · exact Or.inl hcomputed.honoured
  · exact Or.inl (h.resumed hmatched (hverify ▸ hreread)).2.honoured

/-- Whether a call is an upload. -/
def Call.isPut : Call → Prop
  | put _ _ _ _ => True
  | _ => False

/-- What a call says was performed was honoured, or there was nothing to compare. -/
theorem honoured_of_saysPerformed {conversation after : Conversation} {call : Call}
    {outcome : Outcome} {extension : Bytes}
    (h : (call.run line).exec conversation = (.ok outcome, after))
    (hclaim : call.saysPerformed extension outcome) :
    Honoured conversation after extension ∨
      call.isPut ∧ extension = extensionCheckFile ∧ WasEmpty line conversation after := by
  cases call with
  | fsyncIfSupported handle =>
    obtain ⟨performed, hexec, rfl⟩ := exec_map_ok h
    obtain ⟨rfl, rfl⟩ := hclaim
    exact Or.inl ((fsyncIfSupported_ok hexec).honoured rfl fun _ _ => id)
  | posixRenameIfSupported oldPath newPath =>
    obtain ⟨performed, hexec, rfl⟩ := exec_map_ok h
    obtain ⟨rfl, rfl⟩ := hclaim
    exact Or.inl ((posixRenameIfSupported_ok hexec).honoured rfl fun _ _ => id)
  | checkFile handle algorithms startOffset length blockSize =>
    obtain ⟨digests, hexec, rfl⟩ := exec_map_ok h
    obtain rfl : extension = extensionCheckFile := hclaim
    exact Or.inl (checkFile_ok hexec).2.honoured
  | chmod path mode =>
    obtain ⟨_, hexec, rfl⟩ := exec_map_ok h
    obtain rfl : extension = extensionLsetstat := hclaim
    exact Or.inl ((setOneAttribute_ok hexec).honoured rfl fun _ _ => id)
  | chown path owner =>
    obtain ⟨_, hexec, rfl⟩ := exec_map_ok h
    obtain rfl : extension = extensionLsetstat := hclaim
    exact Or.inl ((setOneAttribute_ok hexec).honoured rfl fun _ _ => id)
  | utime path times =>
    obtain ⟨_, hexec, rfl⟩ := exec_map_ok h
    obtain rfl : extension = extensionLsetstat := hclaim
    exact Or.inl ((setOneAttribute_ok hexec).honoured rfl fun _ _ => id)
  | put localStat target token options =>
    obtain ⟨result, hexec, rfl⟩ := exec_map_ok h
    obtain ⟨mode, hrests⟩ := put_ok hexec
    exact (honoured_of_saysUploaded hrests rfl hclaim).imp_right fun hempty => ⟨trivial, hempty⟩

/-! ## The whole session -/

/-- After any calls, against any server: what is held for unknown is what the server does not
advertise and answered OP_UNSUPPORTED for. One more call asks for none of it and says that it is
not available, learns only what was declined during it, asks for nothing of that from then on, and
says that an extension was performed only when that was asked for and not refused; an upload also
reports digests as matching where the local file was empty and there was nothing to ask for. -/
theorem learned_exactly (line : Line) (calls : List Call) (call : Call) :
    let now := afterCalls line calls
    let result := (call.run line).exec now
    (∀ extension, extension ∈ now.unsupported ↔
      extension ∉ line.advertised ∧ Declined now.deeds extension) ∧
    (∀ extension ∈ now.unsupported, extension ∈ result.2.unsupported ∧
      Quiet extension now result.2 ∧ call.SaysUnavailable extension result.1) ∧
    (∀ extension ∈ result.2.unsupported, extension ∈ now.unsupported ∨
      extension ∉ line.advertised ∧ DeclinedSince now result.2 extension) ∧
    Heeded line result.2 ∧
    (∀ extension outcome, result.1 = .ok outcome → call.saysPerformed extension outcome →
      Honoured now result.2 extension ∨
        call.isPut ∧ extension = extensionCheckFile ∧ WasEmpty line now result.2) := by
  intro now result
  have hexact : Exact line now := exact_afterCalls calls
  have hdoes : Does (Step line) (call.run line) := does_run call
  refine ⟨hexact, fun extension hknown => ?_, fun extension hlearned => ?_,
    does_heeded hdoes hexact (heeded_afterCalls calls), ?_⟩
  · exact ⟨does_learned hdoes hknown, does_quiet hdoes hknown, saysUnavailable hknown call⟩
  · exact hexact.declinedSince (does_exact hdoes hexact) (does_follows hdoes now) hlearned
  · exact fun extension outcome hok hclaim => honoured_of_saysPerformed (Prod.ext hok rfl) hclaim

end Talk

end GantrySftp
