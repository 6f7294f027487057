import GantrySftp.Session.KeptCopies

/-!
# Whole runs of `put`

A `put` that gets as far as the file it writes has by then only read and, when it is atomic, picked
a staging path from its journal or from its target. From there on it is an upload of the publishing
protocol. An atomic one exposes nothing partial as long as the path it picked is another file than
the target.
-/

namespace GantrySftp

open Library Program Relation

/-! ## What comes before -/

/-- Something that neither matters to the server's files nor changes the journal, what is known of
it, or the local file. -/
structure Prepares (connection : Connection) (world world' : World) : Prop where
  idle : Idle connection world world'
  journal : world'.journal = world.journal
  folded : world'.folded = world.folded
  localFile : world'.localFile = world.localFile

/-- A request that only reads. -/
theorem prepares_request (connection : Connection) {req : Request} (hreads : req.reads = true) :
    Does (Prepares connection) (request connection req) := by
  intro world
  have hfolded : ((request connection req).exec world).2.folded = world.folded := by
    unfold request
    rw [exec_of]
    split <;> rfl
  obtain ⟨others, hserved⟩ | hkilled := exec_request connection req world
  · exact .single ⟨.served hreads hserved, hserved.journal, hfolded, hserved.localFile⟩
  · rw [hkilled]
    exact .single ⟨idle_kill connection world, rfl, rfl, rfl⟩

/-- Refusing a relative path on a server whose default directory is not rooted. -/
theorem prepares_requireRootedPaths (connection : Connection) (path : Bytes) (feature : String) :
    Does (Prepares connection) (requireRootedPaths connection path feature) := by
  unfold requireRootedPaths
  split_ifs
  · exact .pure _
  · refine .bind (.bind .get fun world => ?_) fun root => ?_
    · cases world.root with
      | some root => exact .pure _
      | none =>
        refine .bind (.bind (prepares_request connection rfl) fun reply => ?_) fun root =>
          .bind (.modify fun world => ⟨.own world.unsupported world.folded (some root)
            List.suffix_rfl, rfl, rfl, rfl⟩) fun _ => .pure _
        cases reply with
        | name filenames =>
          obtain _ | ⟨filename, _ | ⟨other, rest⟩⟩ := filenames
          · exact .throw _
          · exact .pure _
          · exact .throw _
        | handle _ => exact .throw _
        | data _ => exact .throw _
        | attrs _ => exact .throw _
        | status _ _ => exact .throw _
        | digests _ _ => exact .throw _
    · split_ifs
      · exact .pure _
      · exact .throw _

/-- What everything before the staging file amounts to. -/
theorem Prepares.of_steps {connection : Connection} {world world' : World}
    (h : ReflTransGen (Prepares connection) world world') :
    ReflTransGen (Idle connection) world world' ∧ world'.journal = world.journal ∧
      world'.folded = world.folded ∧ world'.localFile = world.localFile := by
  induction h with
  | refl => exact ⟨.refl, rfl, rfl, rfl⟩
  | tail _ hlast ih =>
    obtain ⟨hidle, hjournal, hfolded, hlocal⟩ := ih
    exact ⟨hidle.tail hlast.idle, hlast.journal.trans hjournal, hlast.folded.trans hfolded,
      hlast.localFile.trans hlocal⟩

/-! ## The staging path -/

/-- The permission bits an upload ends up with, where the local file is there. -/
def modeBits (localStat : LocalStat) : Option Mode → Option ℤ
  | none => none
  | some (.exactly bits) => some bits
  | some .preserve => some (maskedMode localStat.mode)

/-- The staging path an upload picks: the one its journal offers, or one built from its target. -/
def stagingChoice (options : PutOptions) (target token : Bytes) (source : SourceIdentity)
    (journal : Option LogFile) (folded : Folded) : Except Failure Bytes :=
  if options.publish.journal ∧ options.resume ∧ options.publish.stagingName = none then
    match (stagedFor journal target source folded).2 with
    | .error error => .error error.failure
    | .ok (some staged) => .ok staged
    | .ok none => stagedPath target token options.publish.stagingName
  else stagedPath target token options.publish.stagingName

/-- One `put`: the session it runs on, what was asked of it, and what it finds. -/
structure PutCall where
  connection : Connection
  localStat : LocalStat
  target : Bytes
  token : Bytes
  options : PutOptions
  found : World

namespace PutCall

variable (call : PutCall)

/-- Run a `put`. -/
def run : Except Failure UploadResult × World :=
  (put call.connection call.localStat call.target call.token call.options).exec call.found

/-- The identity of the local file. -/
def source : SourceIdentity := sourceIdentity call.localStat call.found.localFile

/-- The staging path an atomic `put` picks. -/
def choice : Except Failure Bytes :=
  stagingChoice call.options call.target call.token call.source call.found.journal call.found.folded

/-- Everything about the upload that is not about publishing it. -/
def upload : Upload :=
  uploadOf call.localStat call.options (modeBits call.localStat call.options.mode)

/-- A run of a `put` stops having only read, or is an atomic upload or one in place. -/
inductive Begins : Except Failure UploadResult × World → Prop
  | stopped {failure : Failure} {world : World}
      (h : ReflTransGen (Idle call.connection) call.found world) : Begins (.error failure, world)
  | staged {staged : Bytes} {world : World} (hatomic : call.options.publish.atomic = true)
      (hchoice : call.choice = .ok staged)
      (h : ReflTransGen (Idle call.connection) call.found world) :
      Begins ((putAtomically call.connection call.upload call.target staged
        call.options.publish.requireAtomic call.options.publish.journal call.source).exec world)
  | inPlace {world : World} (hatomic : call.options.publish.atomic = false)
      (h : ReflTransGen (Idle call.connection) call.found world) :
      Begins ((putInPlace call.connection call.upload call.target).exec world)

variable {call}

/-- What comes before may stop a run. -/
theorem Begins.bind {α : Type} {first : Session α} {next : α → Session UploadResult}
    (hfirst : Does (Prepares call.connection) first)
    (hnext : ∀ value world world', first.exec world = (.ok value, world') →
      ReflTransGen (Prepares call.connection) call.found world' →
      call.Begins ((next value).exec world'))
    {world : World} (hworld : ReflTransGen (Prepares call.connection) call.found world) :
    call.Begins ((first >>= next).exec world) := by
  have hsteps := hworld.trans (hfirst world)
  rw [exec_bind]
  cases hexec : first.exec world with
  | mk result world' =>
    rw [hexec] at hsteps
    cases result with
    | error failure => exact .stopped (Prepares.of_steps hsteps).1
    | ok value => exact hnext value world world' hexec hsteps

/-- Settling the permission bits. -/
theorem prepares_uploadMode (connection : Connection) (localStat : LocalStat) (mode : Option Mode) :
    Does (Prepares connection) (uploadMode localStat mode) := by
  obtain _ | bits | _ := mode
  · exact .pure _
  · exact .pure _
  · refine .bind .get fun world => ?_
    split_ifs
    · exact .pure _
    · exact .throw _

/-- The permission bits that are settled on. -/
theorem uploadMode_ok {localStat : LocalStat} {mode : Option Mode} {bits : Option ℤ}
    {world world' : World} (h : (uploadMode localStat mode).exec world = (.ok bits, world')) :
    bits = modeBits localStat mode := by
  obtain _ | mode | _ := mode
  · exact (Except.ok.inj (Prod.mk.inj h).1).symm
  · exact (Except.ok.inj (Prod.mk.inj h).1).symm
  · unfold uploadMode at h
    rw [exec_bind, exec_get] at h
    dsimp only at h
    split_ifs at h
    · exact (Except.ok.inj (Prod.mk.inj h).1).symm
    · cases h

/-- A run that builds its staging path from its target. -/
theorem begins_built {world : World} (hatomic : call.options.publish.atomic = true)
    (hchoice : call.choice =
      stagedPath call.target call.token call.options.publish.stagingName)
    (hworld : ReflTransGen (Idle call.connection) call.found world) :
    call.Begins
      ((orThrow (stagedPath call.target call.token call.options.publish.stagingName) >>= fun staged =>
        putAtomically call.connection call.upload call.target staged
          call.options.publish.requireAtomic call.options.publish.journal call.source).exec
        world) := by
  rw [exec_bind]
  cases hbuilt : stagedPath call.target call.token call.options.publish.stagingName with
  | error failure => exact .stopped hworld
  | ok staged => exact .staged hatomic (hchoice.trans hbuilt) hworld

/-- A run that has a rooted path picks a staging path. -/
theorem begins_chosen {world : World} (hatomic : call.options.publish.atomic = true)
    (hworld : ReflTransGen (Prepares call.connection) call.found world) :
    call.Begins
      ((do
        let source := sourceIdentity call.localStat (← MonadState.get).localFile
        let continuing ← resumeTarget call.options call.target source
        let staged ← match continuing with
          | some staged => pure staged
          | none => orThrow (stagedPath call.target call.token call.options.publish.stagingName)
        putAtomically call.connection call.upload call.target staged
          call.options.publish.requireAtomic call.options.publish.journal source :
        Session UploadResult).exec world) := by
  obtain ⟨hidle, hjournal, hfolded, hlocal⟩ := Prepares.of_steps hworld
  rw [exec_bind, exec_get]
  dsimp only
  have hsource : sourceIdentity call.localStat world.localFile = call.source :=
    congrArg (sourceIdentity call.localStat) hlocal
  rw [hsource, exec_bind]
  unfold resumeTarget
  by_cases hasks : call.options.publish.journal ∧ call.options.resume ∧
      call.options.publish.stagingName = none
  · rw [if_pos hasks]
    unfold journalStagedFor
    rw [exec_of]
    have hlooked : ∀ folded,
        ReflTransGen (Idle call.connection) call.found { world with folded := folded } :=
      fun folded => hidle.tail (.own world.unsupported folded world.root List.suffix_rfl)
    have hchoice : call.choice = _ := if_pos hasks
    rw [← hjournal, ← hfolded] at hchoice
    generalize stagedFor world.journal call.target call.source world.folded = found
      at hchoice ⊢
    obtain ⟨folded, error | offer⟩ := found
    · exact .stopped (hlooked folded)
    · cases offer with
      | none => exact begins_built hatomic hchoice (hlooked folded)
      | some staged => exact .staged hatomic hchoice (hlooked folded)
  · rw [if_neg hasks, exec_pure]
    exact begins_built hatomic (if_neg hasks) hidle

/-- A run that has its permission bits is published or written in place. -/
theorem begins_published {world : World}
    (hworld : ReflTransGen (Prepares call.connection) call.found world) :
    call.Begins ((publishUpload call.connection call.upload call.target call.token
      call.options).exec world) := by
  unfold publishUpload
  by_cases hatomic : call.options.publish.atomic = true
  · rw [if_pos hatomic]
    dsimp only
    split_ifs
    · exact .bind (prepares_requireRootedPaths call.connection call.target _)
        (fun _ _ _ _ hworld' => begins_chosen hatomic hworld') hworld
    · exact begins_chosen hatomic hworld
  · rw [if_neg hatomic]
    exact .inPlace (by simpa using hatomic) (Prepares.of_steps hworld).1

/-- Every run of a `put` begins so. -/
theorem begins (call : PutCall) : call.Begins call.run := by
  unfold run put
  refine .bind (does_orThrow _) (fun _ _ _ _ hchecked => ?_) .refl
  refine .bind (does_refuses .fsync) (fun _ _ _ _ hrefused => ?_) hchecked
  split_ifs
  · exact .stopped (Prepares.of_steps hrefused).1
  · refine .bind (prepares_uploadMode call.connection call.localStat call.options.mode)
      (fun mode _ _ hmode hsettled => ?_) hrefused
    obtain rfl := uploadMode_ok hmode
    exact begins_published hsettled

end PutCall

/-! ## The upload it makes -/

/-- The flags a file is opened with in place. -/
def inPlaceFlags (resume : Bool) : OpenFlag := if resume then .resume else .truncate

/-- An upload in place. It stages in its target and has no use for a journal. -/
def Job.inPlace (connection : Connection) (upload : Upload) (target : Bytes)
    (source : SourceIdentity) : Job where
  connection := connection
  upload := upload
  target := target
  staged := target
  pflags := inPlaceFlags upload.resume
  journal := false
  source := source

/-- The flags of a file that is written in place. -/
theorem Job.flags_of_inPlace {job : Job} (h : job.pflags = inPlaceFlags job.upload.resume) :
    job.Flags where
  fresh := fun hresume => by
    rw [h, hresume]
    exact Or.inl (by decide)
  resumed := fun hresume => by
    rw [h, hresume]
    decide

/-- Uploading in place takes the steps of the publishing protocol until its file is filled. -/
theorem follows_putInPlace (connection : Connection) (upload : Upload) (target : Bytes)
    (source : SourceIdentity) :
    Follows (Step (Job.inPlace connection upload target source)) .ready
      (putInPlace connection upload target) (fun _ phase => phase = .filled)
      fun _ _ => True := by
  let job := Job.inPlace connection upload target source
  have hfrom : Follows (Step job) .recorded (putInPlace connection upload target)
      (fun _ phase => phase = .filled) fun _ _ => True := by
    refine .bind (@follows_uploadResumeOffset job) fun start phase hphase => ?_
    subst hphase
    refine .bind ((follows_of_idle ((readingSteps_idle _).gateResume _ _ _) _).weaken
      (fun _ _ => id) fun _ _ _ => trivial) fun resumeCheck phase hphase => ?_
    subst hphase
    refine .bind ((@follows_openForUpload job start (createBits upload.mode)).weaken
      (fun _ _ => id) fun _ _ _ => trivial) fun handle phase hphase => ?_
    subst hphase
    refine .bind ((follows_of_idle (idle_setMode _ _ _ _) _).weaken (fun _ _ => id)
      fun _ _ _ => trivial) fun _ phase hphase => ?_
    subst hphase
    refine .bind ((@follows_fillAndClose job handle start).weaken (fun _ _ => id)
      fun _ _ _ => trivial) fun filled phase hphase => ?_
    subst hphase
    refine .bind ((follows_of_idle (idle_checkFilled _ _ _) _).weaken (fun _ _ => id)
      fun _ _ _ => trivial) fun checks phase hphase => ?_
    subst hphase
    exact .pure rfl
  exact hfrom.advance fun _ => .unrecorded rfl

namespace PutCall

variable (call : PutCall)

/-- The upload of the publishing protocol that a `put` makes. Where no staging path can be picked
nothing is ever staged. -/
def job : Job :=
  if call.options.publish.atomic then
    .atomic call.connection call.upload call.target
      (match call.choice with
        | .ok staged => staged
        | .error _ => call.target)
      call.options.publish.journal call.source
  else .inPlace call.connection call.upload call.target call.source

/-- The upload runs on the session of the `put`. -/
@[simp] theorem job_connection : call.job.connection = call.connection := by
  unfold job
  split_ifs <;> rfl

/-- The upload has the target of the `put`. -/
@[simp] theorem job_target : call.job.target = call.target := by
  unfold job
  split_ifs <;> rfl

/-- The upload resumes when the `put` does. -/
@[simp] theorem job_resume : call.job.upload.resume = call.options.resume := by
  unfold job
  split_ifs <;> rfl

/-- The file the target of the upload names. -/
theorem job_targetFile : call.job.targetFile = call.connection.server.resolve call.target := by
  rw [Job.targetFile, job_connection, job_target]

/-- The phase in which a `put` returns. -/
def last : Phase := if call.options.publish.atomic then .done else .filled

/-- Every run of a `put` takes the steps of the publishing protocol, to their end if it returns. -/
theorem steps : ∃ phase,
    Allows (fun _ phase => phase = call.last) (fun _ _ => True) call.run.1 phase ∧
      ReflTransGen (Step call.job) (.ready, call.found) (phase, call.run.2) := by
  have hready : ∀ world, ReflTransGen (Idle call.connection) call.found world →
      ReflTransGen (Step call.job) (.ready, call.found) (.ready, world) := fun world h =>
    h.lift (Prod.mk Phase.ready) fun _ _ hidle => .idle .ready (call.job_connection.symm ▸ hidle)
  have hbegins := call.begins
  generalize call.run = outcome at hbegins ⊢
  cases hbegins with
  | stopped h => exact ⟨.ready, trivial, hready _ h⟩
  | @staged staged world hatomic hchoice h =>
    have hjob : call.job = .atomic call.connection call.upload call.target staged
        call.options.publish.journal call.source := by
      unfold job
      rw [if_pos hatomic, hchoice]
    have hsteps := hready world h
    rw [last, if_pos hatomic]
    rw [hjob] at hsteps ⊢
    obtain ⟨phase, hallowed, hrest⟩ := @follows_putAtomically (.atomic call.connection call.upload
      call.target staged call.options.publish.journal call.source) rfl
      call.options.publish.requireAtomic world
    exact ⟨phase, hallowed, hsteps.trans hrest⟩
  | @inPlace world hatomic h =>
    have hnot : ¬ call.options.publish.atomic = true := by simp [hatomic]
    have hjob : call.job = .inPlace call.connection call.upload call.target call.source :=
      if_neg hnot
    have hsteps := hready world h
    rw [last, if_neg hnot]
    rw [hjob] at hsteps ⊢
    obtain ⟨phase, hallowed, hrest⟩ :=
      follows_putInPlace call.connection call.upload call.target call.source world
    exact ⟨phase, hallowed, hsteps.trans hrest⟩

/-- The flags a `put` opens its file with. -/
theorem flags : call.job.Flags := by
  unfold job
  split_ifs
  · exact Job.flags_of_staging rfl
  · exact Job.flags_of_inPlace rfl

/-- An atomic `put` that picks no staging path only reads. -/
theorem reads_or_picks (hatomic : call.options.publish.atomic = true) :
    (∃ failure, call.run.1 = .error failure) ∧
        ReflTransGen (Idle call.connection) call.found call.run.2 ∨
      ∃ staged, call.choice = .ok staged ∧ call.job = .atomic call.connection call.upload
        call.target staged call.options.publish.journal call.source := by
  have hbegins := call.begins
  generalize call.run = outcome at hbegins ⊢
  cases hbegins with
  | stopped h => exact Or.inl ⟨⟨_, rfl⟩, h⟩
  | staged _ hchoice _ =>
    refine Or.inr ⟨_, hchoice, ?_⟩
    unfold job
    rw [if_pos hatomic, hchoice]
  | inPlace hinPlace _ => exact absurd (hatomic.symm.trans hinPlace) (by decide)

end PutCall

/-! ## Nothing partial -/

/-- A run that exposed nothing partial at the target and did not lose it by failing: at every
moment the target is as it was, or the complete new file, or gone after a REMOVE of it was sent;
and where none was sent, it ends as it was or as the complete new file. -/
structure Job.NeverPartial (job : Job) (initial ended : World) : Prop where
  always : ∀ past moment later, ended.trace = initial.trace ++ past ++ moment :: later →
    job.Stands (initial.files job.stagedFile) (initial.localFile.getD [])
      (initial.files job.targetFile) (past ++ [moment]) moment.files
  unsent : ∀ run, ended.trace = initial.trace ++ run → ¬ job.Sent run →
    ended.files job.targetFile = initial.files job.targetFile ∨
      job.IsNew (initial.files job.stagedFile) (initial.localFile.getD [])
        (ended.files job.targetFile)

namespace Job.Guards

variable {job : Job} {initial world : World} {state : Phase × World}

/-- Guarded runs expose nothing partial. -/
theorem neverPartial (h : job.Guards initial (initial.files job.targetFile) state) :
    job.NeverPartial initial state.2 := by
  obtain ⟨run, htrace, hsafe, hkeeps⟩ := h.run
  refine ⟨fun past moment later hsplit => ?_, fun rest hrest hsent => ?_⟩
  · rw [htrace, List.append_assoc] at hsplit
    obtain rfl := List.append_cancel_left hsplit
    exact (hsafe past moment ⟨later, by simp⟩).1
  · obtain rfl := List.append_cancel_left (htrace.symm.trans hrest)
    obtain htarget | hnew | ⟨-, -, hremoved⟩ := hkeeps.safe.1
    · exact Or.inl htarget
    · exact Or.inr hnew
    · exact absurd hremoved hsent

/-- A run that only reads. -/
theorem of_idle (halone : job.Alone initial)
    (h : ReflTransGen (Idle job.connection) initial world) :
    job.Guards initial (initial.files job.targetFile) (.ready, world) := by
  induction h with
  | refl => exact refl job initial
  | tail _ hlast ih =>
    have hleaves := ih.leaves.step halone _ _ (.idle .ready hlast)
    exact ih.idle (halone.suffix ih.leaves.continues.script) hleaves hlast

end Job.Guards

/-- An atomic `put` whose staging path names another file than its target, or one that must create
a file that is there, exposes nothing partial. -/
theorem put_neverPartial {call : PutCall} (hatomic : call.options.publish.atomic = true)
    (hseparate : ∀ staged, call.choice = .ok staged →
      call.connection.server.resolve staged ≠ call.connection.server.resolve call.target ∨
        call.options.resume = false ∧
          (call.found.files (call.connection.server.resolve call.target)).isSome)
    (halone : call.job.Alone call.found)
    (htruthful : Truthful call.connection.server call.run.2.trace) :
    call.job.NeverPartial call.found call.run.2 := by
  obtain ⟨-, hidle⟩ | ⟨staged, hchoice, hjob⟩ := call.reads_or_picks hatomic
  · exact (Job.Guards.of_idle halone (call.job_connection.symm ▸ hidle)).neverPartial
  · obtain ⟨phase, -, hsteps⟩ := call.steps
    have hflags := call.flags
    rw [hjob] at hsteps hflags halone ⊢
    obtain hdiffers | ⟨hresume, hthere⟩ := hseparate staged hchoice
    · exact (Job.Guards.of_steps halone hdiffers hflags hsteps htruthful).neverPartial
    · by_cases hsame : call.connection.server.resolve staged =
          call.connection.server.resolve call.target
      · obtain ⟨content, hcontent⟩ := Option.isSome_iff_exists.mp hthere
        have hexcludes : (stagingFlags call.options.resume).excludes = true := by
          rw [hresume]
          decide
        have hguards := Job.Guards.of_blocked halone hsame hexcludes hcontent hsteps
        rw [← hcontent] at hguards
        exact hguards.neverPartial
      · exact (Job.Guards.of_steps halone hsame hflags hsteps htruthful).neverPartial

/-- A `put` of three bytes to the file named by the bytes 47 and 116, resumed at a staging file of
this name beside it that holds the first byte. The connection is lost after the second. -/
def cutTransfer (name : UInt8) : PutCall where
  connection := .plain 1
  localStat := ⟨[108], ⟨0, 0⟩, 0⟩
  target := [47, 116]
  token := []
  options := { publish := { fsync := false, stagingName := some [name] }, resume := true }
  found := .starting (Function.update (fun _ => none) [47, name] (some [1])) (some [1, 2, 3])
    [.exchange [] (.answer false), .exchange [] (.answer false),
      .exchange [] (.refuse .unknown), .exchange [] (.answer false),
      .exchange [] (.answer false), .upload [.send, .perform 1, .reply 1 (.status .ok [])] .timeout,
      .exchange [] (.answer false), .exchange [] (.answer false)]

/-- A transfer that is cut short beside its target. -/
theorem put_neverPartial_beside :
    (cutTransfer 115).job.NeverPartial (cutTransfer 115).found (cutTransfer 115).run.2 := by
  have hchoice : (cutTransfer 115).choice = .ok [47, 115] := by decide +kernel
  refine put_neverPartial rfl (fun staged hstaged => Or.inl ?_) (by decide +kernel)
    (truthful_of_tells (by decide +kernel))
  obtain rfl := Except.ok.inj (hchoice.symm.trans hstaged)
  decide

/-- A staging name that is the target's own exposes a partial file when the upload resumes. -/
theorem not_forall_neverPartial :
    ¬ ∀ call : PutCall, call.options.publish.atomic = true →
      checkPublishFlags call.options = .ok () → call.job.Alone call.found →
      Truthful call.connection.server call.run.2.trace →
      call.job.NeverPartial call.found call.run.2 := by
  intro h
  have hwhole := h (cutTransfer 116) rfl (by decide) (by decide +kernel)
    (truthful_of_tells (by decide +kernel))
  obtain ⟨moment, hmem, hexposed⟩ : ∃ moment ∈ (cutTransfer 116).run.2.trace,
      moment.files [47, 116] = some [1, 2] := by decide +kernel
  obtain ⟨past, later, hsplit⟩ := List.append_of_mem hmem
  obtain hsame | hnew | ⟨hgone, -, -⟩ := hwhole.always past moment later hsplit
  · exact absurd (hexposed.symm.trans hsame) (by decide)
  · have hlength := hnew.length_eq
    rw [Option.some.inj (hnew.content.symm.trans hexposed)] at hlength
    exact absurd hlength (by decide)
  · exact absurd (hexposed.symm.trans hgone) (by decide)

end GantrySftp
