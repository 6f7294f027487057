import GantrySftp.Session.Verify

/-!
# What operations do

Every operation is made of a few kinds of steps: one request, one local call, one thing learned,
one range read back. What those steps do, each operation built from them does, however it ends.
Requests that only read are singled out, since gates and checks send no others.
-/

namespace GantrySftp

open Library Program

/-- Whether performing a request leaves every file alone. -/
def Request.reads : Request → Bool
  | .open_ _ pflags _ => !pflags.creates && !pflags.truncates
  | .remove _ | .rename _ _ | .posixRename _ _ => false
  | _ => true

/-- A request that only reads leaves every file alone. -/
theorem Server.after_reads {server : Server} {files : Files} {request : Request}
    (h : request.reads = true) : server.after files request = files := by
  unfold after perform
  cases request with
  | open_ path pflags attrs =>
    simp only [Request.reads, Bool.and_eq_true, Bool.not_eq_true'] at h
    dsimp only
    cases files (server.resolve path) with
    | none => simp [h.1]
    | some content => simp [OpenFlag.excludes, h.1, h.2]
  | stat path =>
    dsimp only
    cases files (server.resolve path) <;> rfl
  | lstat path =>
    dsimp only
    cases files (server.resolve path) <;> rfl
  | checkFile handle algorithms startOffset length blockSize =>
    dsimp only
    cases files handle.file <;> rfl
  | remove _ => cases h
  | rename _ _ => cases h
  | posixRename _ _ => cases h
  | close _ => rfl
  | fsync _ => rfl
  | fsetstat _ _ => rfl
  | realpath _ => rfl

/-- Serving leaves the files as they were or as performing the request leaves them. -/
theorem Server.serve_files (server : Server) (files : Files) (request : Request) (fate : Fate) :
    (server.serve files request fate).1 = files ∨
      (server.serve files request fate).1 = server.after files request := by
  cases fate with
  | answer terse =>
    refine Or.inr ?_
    unfold serve after
    cases server.perform files request <;> rfl
  | refuse refusal => exact Or.inl rfl
  | garble performed =>
    cases performed
    · exact Or.inl rfl
    · exact Or.inr rfl
  | lose performed interruption =>
    cases performed
    · exact Or.inl rfl
    · exact Or.inr rfl

/-- Attributes are reported only of a file that is there, and its length only truthfully. -/
theorem Server.serve_stat {server : Server} {files : Files} {path : Bytes} {fate : Fate}
    {attrs : Attrs} (h : (server.serve files (.stat path) fate).2 = .ok (.attrs attrs)) :
    ∃ content, files (server.resolve path) = some content ∧
      ∀ size ∈ attrs.size, size = content.length := by
  cases fate with
  | answer terse =>
    unfold serve perform at h
    dsimp only at h
    cases hfile : files (server.resolve path) with
    | none =>
      rw [hfile] at h
      cases h
    | some content =>
      rw [hfile] at h
      refine ⟨content, rfl, ?_⟩
      cases terse
      · obtain rfl := Reply.attrs.inj (Except.ok.inj h)
        rintro _ ⟨⟩
        rfl
      · obtain rfl := Reply.attrs.inj (Except.ok.inj h)
        rintro _ ⟨⟩
  | refuse refusal => cases h
  | garble performed => cases h
  | lose performed interruption => cases h

/-- A request that was answered was served, in one turn. -/
theorem request_ok {connection : Connection} {req : Request} {world world' : World}
    {reply : Reply} (h : (request connection req).exec world = (.ok reply, world')) :
    ∃ others fate script, world.script = .exchange others fate :: script ∧
      { world with script := script }.serve connection.server req others fate =
        (.ok reply, world') := by
  unfold request at h
  rw [exec_of] at h
  split at h
  · next others fate script hscript => exact ⟨others, fate, script, hscript, h⟩
  · cases h

/-- The last moment of a served request holds the files it left. -/
theorem World.serve_moment (world : World) (server : Server) (req : Request)
    (others : List Change) (fate : Fate) :
    ∃ moment ∈ (world.serve server req others fate).2.trace,
      moment.event = .exchanged req (world.serve server req others fate).1 ∧
        moment.files = (world.serve server req others fate).2.files := by
  refine ⟨_, List.mem_append_right _ (List.mem_singleton_self _), rfl, rfl⟩

/-- Attributes that were reported are those of a file that is there, at some moment. -/
theorem stat_ok {connection : Connection} {path : Bytes} {world world' : World} {attrs : Attrs}
    (h : (stat connection path).exec world = (.ok attrs, world')) :
    ∃ moment ∈ world'.trace, ∃ content,
      moment.files (connection.server.resolve path) = some content ∧
        ∀ size ∈ attrs.size, size = content.length := by
  obtain ⟨reply, between, hrequest, hreply⟩ := exec_bind_ok.mp h
  obtain ⟨others, fate, script, -, hserve⟩ := request_ok hrequest
  cases reply with
  | attrs found =>
    obtain ⟨hfound, rfl⟩ := Prod.mk.inj hreply
    obtain rfl := Except.ok.inj hfound
    obtain ⟨moment, hmem, -, hfiles⟩ := World.serve_moment { world with script := script }
      connection.server (.stat path) others fate
    obtain ⟨content, hcontent, hsize⟩ := Server.serve_stat (congrArg Prod.fst hserve)
    refine ⟨moment, ?_, content, ?_, hsize⟩
    · rw [hserve] at hmem
      exact hmem
    · have hsame := Server.serve_files connection.server
        (world.files.changed others) (.stat path) fate
      rw [Server.after_reads rfl, or_self] at hsame
      rw [hfiles]
      exact (congrFun hsame _).trans hcontent
  | status code message => cases hreply
  | handle _ => cases hreply
  | data _ => cases hreply
  | name _ => cases hreply
  | digests _ _ => cases hreply

/-- Steps that a session takes while it only reads. -/
structure ReadingSteps (connection : Connection) (step : World → World → Prop) : Prop where
  request : ∀ req : Request, req.reads = true → Does step (request connection req)
  system : Does step systemCall
  learn : ∀ extension, Does step (learnUnsupported extension)
  reread : ∀ start length, Does step (rereadRange connection start length)

/-- Steps that include those a session takes while it only reads. -/
theorem ReadingSteps.mono {connection : Connection} {step step' : World → World → Prop}
    (h : ReadingSteps connection step)
    (hstep : ∀ world world', step world world' → step' world world') :
    ReadingSteps connection step' where
  request := fun req hreads => (h.request req hreads).mono hstep
  system := h.system.mono hstep
  learn := fun extension => (h.learn extension).mono hstep
  reread := fun start length => (h.reread start length).mono hstep

section Operations

variable {connection : Connection} {step : World → World → Prop} {α : Type}

/-- Raising what a check raised. -/
theorem does_orThrow (result : Except Failure α) : Does step (orThrow result) := by
  cases result with
  | ok value => exact .pure value
  | error failure => exact .throw failure

/-- Cleaning up. -/
theorem does_finally {program : Session α} {cleanup : Session Unit} (hprogram : Does step program)
    (hcleanup : Does step cleanup) : Does step (finally_ program cleanup) :=
  .bind (.tryCatch hprogram fun _ => .bind hcleanup fun _ => .throw _) fun _ =>
    .bind hcleanup fun _ => .pure _

/-- An operation answered with a STATUS does what its request does. -/
theorem does_expectStatus {req : Request} (h : Does step (request connection req))
    (path : Option Bytes) : Does step (expectStatus connection req path) := by
  refine .bind h fun reply => ?_
  cases reply with
  | status code message => exact does_orThrow _
  | handle _ => exact .throw _
  | data _ => exact .throw _
  | attrs _ => exact .throw _
  | name _ => exact .throw _
  | digests _ _ => exact .throw _

/-- An operation answered with attributes does what its request does. -/
theorem does_expectAttrs {req : Request} (h : Does step (request connection req))
    (path : Bytes) : Does step (expectAttrs connection req path) := by
  refine .bind h fun reply => ?_
  cases reply with
  | attrs attrs => exact .pure _
  | status _ _ => exact .throw _
  | handle _ => exact .throw _
  | data _ => exact .throw _
  | name _ => exact .throw _
  | digests _ _ => exact .throw _

/-- Opening a file does what its request does. -/
theorem does_openFile {path : Bytes} {pflags : OpenFlag} {mode : Option ℤ}
    (h : ∀ attrs, Does step (request connection (.open_ path pflags attrs))) :
    Does step (openFile connection path pflags mode) := by
  refine .bind (h _) fun reply => ?_
  cases reply with
  | handle handle => exact .pure _
  | status _ _ => exact .throw _
  | attrs _ => exact .throw _
  | data _ => exact .throw _
  | name _ => exact .throw _
  | digests _ _ => exact .throw _

/-- Trying again does nothing new. -/
theorem does_withTransientRetry {profile : ServerProfile} {attempt : Session α}
    (h : Does step attempt) (retries : ℕ) :
    Does step (withTransientRetry profile attempt retries) := by
  induction retries with
  | zero => exact h
  | succ retries ih =>
    refine .tryCatch h fun failure => ?_
    split_ifs
    · exact ih
    · exact .throw _

/-- Asking what was learned. -/
theorem does_refuses (extension : Extension) : Does step (refuses extension) :=
  .bind .get fun _ => .pure _

/-- Trying an extension does what the attempt does, and may learn. -/
theorem does_attemptExtension {extension : Extension} {attempt : Session Unit}
    (h : Does step attempt) (hlearn : Does step (learnUnsupported extension)) :
    Does step (attemptExtension connection extension attempt) := by
  refine .bind (does_refuses _) fun refused => ?_
  split_ifs
  · exact .pure _
  · refine .tryCatch (.bind h fun _ => .pure _) fun failure => ?_
    unfold refusedExtension
    split_ifs
    · exact .bind hlearn fun _ => .pure _
    · exact .pure _
    · exact .throw _

/-- An attempt whose refusal as unknown counts as not performed. -/
theorem does_orUnsupported {attempt : Session Bool} (h : Does step attempt) :
    Does step (orUnsupported attempt) := by
  refine .tryCatch h fun failure => ?_
  split_ifs
  · exact .pure _
  · exact .throw _

namespace ReadingSteps

variable (h : ReadingSteps connection step)
include h

/-- Asking for attributes. -/
theorem stat (path : Bytes) : Does step (stat connection path) :=
  does_expectAttrs (h.request _ rfl) path

/-- Asking for attributes without following. -/
theorem lstat (path : Bytes) : Does step (lstat connection path) :=
  does_expectAttrs (h.request _ rfl) path

/-- Opening for reading. -/
theorem openForRead (path : Bytes) : Does step (openForRead connection path) :=
  does_withTransientRetry (does_openFile fun _ => h.request _ rfl) _

/-- Closing. -/
theorem close (handle : Handle) : Does step (close connection handle) :=
  does_expectStatus (h.request _ rfl) none

/-- Closing, whatever comes of it. -/
theorem closeQuietly (handle : Handle) : Does step (closeQuietly connection handle) := by
  refine .tryCatch (h.close handle) fun failure => ?_
  split_ifs
  · exact .pure _
  · exact .throw _

/-- Asking for digests. -/
theorem checkFile (handle : Handle) (start length blockSize : ℕ) :
    Does step (checkFile connection handle start length blockSize) := by
  refine .bind (does_refuses _) fun refused => ?_
  split_ifs
  · exact .throw _
  · refine .bind (h.request _ rfl) fun reply => ?_
    unfold checkFileReply
    split
    · split_ifs
      · exact .pure _
      · exact .throw _
    · refine .bind ?_ fun _ => .throw _
      unfold learnCheckFile
      split_ifs
      · exact .pure _
      · exact h.learn _
    · exact .throw _

/-- Comparing digests. -/
theorem hashesAgree (path : Bytes) (start length : ℕ) :
    Does step (hashesAgree connection path start length) := by
  refine .bind (does_refuses _) fun refused => ?_
  split_ifs
  · exact .pure _
  · exact .pure _
  · refine .bind (h.openForRead path) fun handle => ?_
    refine .bind (does_finally (.tryCatch ?_ fun failure => ?_) (h.closeQuietly handle)) fun answer =>
      ?_
    · exact .bind (h.checkFile handle start length checkFileBlockSize) fun _ => .pure _
    · split_ifs
      · exact .pure _
      · exact .throw _
    · cases answer with
      | none => exact .pure _
      | some answer =>
        refine .bind (.bind .get fun world => ?_) fun _ => .pure _
        cases world.localFile with
        | none => exact .throw _
        | some content => exact .pure _

/-- Reading back and comparing. -/
theorem rereadAgrees (path : Bytes) (start length : ℕ) :
    Does step (rereadAgrees connection path start length) := by
  unfold GantrySftp.rereadAgrees
  split_ifs
  · exact .pure _
  · refine .bind (h.openForRead path) fun handle => ?_
    refine does_finally (.bind (h.reread start length) fun scratch => .bind .get fun world => ?_)
      (h.closeQuietly handle)
    cases world.localFile with
    | none => exact .throw _
    | some content => exact .pure _

/-- Gating what a resume adopts. -/
theorem gateResume (path : Bytes) (adopted : ℕ) (verify : Verify) :
    Does step (gateResume connection path adopted verify) := by
  unfold GantrySftp.gateResume
  split_ifs
  · exact .pure _
  · refine .bind ?_ fun agreed => ?_
    · cases verify with
      | size => exact h.hashesAgree path 0 adopted
      | hash => exact h.hashesAgree path 0 adopted
      | reread => exact .bind (h.rereadAgrees path 0 adopted) fun _ => .pure _
    · cases agreed with
      | none => exact .pure _
      | some agreed =>
        cases agreed
        · exact .throw _
        · exact .pure _

/-- Checking the whole content. -/
theorem verifyContent (path : Bytes) (expected : ℕ) (verify : Verify) :
    Does step (verifyContent connection path expected verify) := by
  cases verify with
  | size => exact .pure _
  | hash =>
    refine .bind (h.hashesAgree path 0 expected) fun agreed => ?_
    cases agreed with
    | none => exact .pure _
    | some agreed =>
      cases agreed
      · exact .throw _
      · exact .pure _
  | reread =>
    refine .bind (h.rereadAgrees path 0 expected) fun agreed => ?_
    cases agreed
    · exact .throw _
    · exact .pure _

end ReadingSteps

end Operations

end GantrySftp
