import GantrySftp.Codec.Packets
import GantrySftp.Session.PutReports

/-!
# What a status check lets through

An operation that ends in a STATUS check sends one request and returns only when the answer is a
STATUS of OK or of EOF. A STATUS of EOF says nothing was done, and counts as success all the same;
every other reply, whatever its code or type, raises.
-/

namespace GantrySftp

open Library Program

namespace Talk

variable {line : Line} {conversation : Conversation}

/-- An operation that changes something on the server and ends in a STATUS check. -/
inductive Mutation
  | rename (oldPath newPath : Bytes)
  | remove (path : Bytes)
  | mkdir (path : Bytes) (existOk : Bool)
  | rmdir (path : Bytes)
  | symlink (target linkPath : Bytes)
  | chmod (path : Bytes) (mode : ℤ) (followSymlinks : Bool)
  | chown (path : Bytes) (owner : Owner) (followSymlinks : Bool)
  | utime (path : Bytes) (times : Times) (followSymlinks : Bool)
  | truncate (path : Bytes) (size : ℤ)
  | ftruncate (handle : Handle) (size : ℤ)
  | fchmod (handle : Handle) (mode : ℤ) (path : Option Bytes)
  | futime (handle : Handle) (times : Times)
  | close (handle : Handle)
  | posixRename (oldPath newPath : Bytes)
  | fsync (handle : Handle)
  | posixRenameIfSupported (oldPath newPath : Bytes)
  | fsyncIfSupported (handle : Handle)

/-- An operation that says nothing when it returns says that it was performed. -/
def performed (operation : Talk Unit) : Talk Bool := (fun _ => true) <$> operation

/-- Perform an operation, saying whether it was. -/
def Mutation.perform (line : Line) : Mutation → Talk Bool
  | rename oldPath newPath => performed (Talk.rename line oldPath newPath)
  | remove path => performed (Talk.remove line path)
  | mkdir path existOk => performed (Talk.mkdir line path existOk)
  | rmdir path => performed (Talk.rmdir line path)
  | symlink target linkPath => performed (Talk.symlink line target linkPath)
  | chmod path mode followSymlinks => performed (Talk.chmod line path mode followSymlinks)
  | chown path owner followSymlinks => performed (Talk.chown line path owner followSymlinks)
  | utime path times followSymlinks => performed (Talk.utime line path times followSymlinks)
  | truncate path size => performed (Talk.truncate line path size)
  | ftruncate handle size => performed (Talk.ftruncate line handle size)
  | fchmod handle mode path => performed (Talk.fchmod line handle mode path)
  | futime handle times => performed (Talk.futime line handle times)
  | close handle => performed (Talk.close line handle)
  | posixRename oldPath newPath => performed (Talk.posixRename line oldPath newPath)
  | fsync handle => performed (Talk.fsync line handle)
  | posixRenameIfSupported oldPath newPath => Talk.posixRenameIfSupported line oldPath newPath
  | fsyncIfSupported handle => Talk.fsyncIfSupported line handle

/-- The request that sets attributes of a path. -/
def attributeDemand (path : Bytes) (attrs : Attrs) (followSymlinks : Bool) : Demand :=
  if followSymlinks then .setstat path attrs else .lsetstat path attrs

/-- The request that does an operation's work. -/
def Mutation.demand : Mutation → Demand
  | rename oldPath newPath => .rename oldPath newPath
  | remove path => .remove path
  | mkdir path _ => .mkdir path
  | rmdir path => .rmdir path
  | symlink target linkPath => .symlink target linkPath
  | chmod path mode followSymlinks => attributeDemand path (modeAttrs mode) followSymlinks
  | chown path owner followSymlinks => attributeDemand path { owner := some owner } followSymlinks
  | utime path times followSymlinks => attributeDemand path { times := some times } followSymlinks
  | truncate path size => .setstat path { size := some size }
  | ftruncate handle size => .fsetstat handle { size := some size }
  | fchmod handle mode _ => .fsetstat handle (modeAttrs mode)
  | futime handle times => .fsetstat handle { times := some times }
  | close handle => .close handle
  | posixRename oldPath newPath => .posixRename oldPath newPath
  | fsync handle => .fsync handle
  | posixRenameIfSupported oldPath newPath => .posixRename oldPath newPath
  | fsyncIfSupported handle => .fsync handle

/-- Whether an operation sends its request. One with a fallback does not send it once the
extension is known to be missing, and a negative length is refused on this side. -/
def Mutation.Sends (conversation : Conversation) : Mutation → Prop
  | chmod _ _ followSymlinks =>
    followSymlinks = true ∨ extensionLsetstat ∉ conversation.unsupported
  | chown _ _ followSymlinks =>
    followSymlinks = true ∨ extensionLsetstat ∉ conversation.unsupported
  | utime _ _ followSymlinks =>
    followSymlinks = true ∨ extensionLsetstat ∉ conversation.unsupported
  | ftruncate _ size => 0 ≤ size
  | posixRenameIfSupported _ _ => extensionPosixRename ∉ conversation.unsupported
  | fsyncIfSupported _ => extensionFsync ∉ conversation.unsupported
  | _ => True

/-- The next request is answered with a STATUS of a code. -/
def AnsweredNow (line : Line) (conversation : Conversation) (code : StatusCode)
    (demand : Demand) : Prop :=
  ∃ message, line.answer conversation.deeds demand = .ok (.status code message)

/-- Making a directory is refused, and asking for it then says that one is there. -/
def AlreadyThere (line : Line) (conversation : Conversation) (path : Bytes) : Prop :=
  ∃ code message attrs, ¬ Passes code ∧
    line.answer conversation.deeds (.mkdir path) = .ok (.status code message) ∧
    line.answer (conversation.heard line (.mkdir path)).deeds (.lstat path) = .ok (.attrs attrs) ∧
    entryKind attrs = .directory

/-- A directory that is there is what was asked for. -/
def Mutation.Excused (line : Line) (conversation : Conversation) : Mutation → Prop
  | mkdir path existOk => existOk = true ∧ AlreadyThere line conversation path
  | _ => False

/-! ## When operations return -/

/-- A status check returns exactly for the codes that it lets through. -/
theorem statusOutcome_ok_iff (path : Option Bytes) {answer : Answer} :
    statusOutcome path answer = .ok () ↔
      ∃ code message, Passes code ∧ answer = .ok (.status code message) := by
  constructor
  · exact statusOutcome_ok
  · rintro ⟨code, message, hcode, rfl⟩
    exact if_pos hcode

/-- The next request is answered with a STATUS that passes. -/
def PassesNow (line : Line) (conversation : Conversation) (demand : Demand) : Prop :=
  ∃ code message, Passes code ∧
    line.answer conversation.deeds demand = .ok (.status code message)

/-- What passes is answered with OK or with EOF. -/
theorem passesNow_iff {demand : Demand} : PassesNow line conversation demand ↔
    AnsweredNow line conversation .ok demand ∨ AnsweredNow line conversation .eof demand := by
  constructor
  · rintro ⟨code, message, rfl | rfl, hanswer⟩
    · exact Or.inl ⟨message, hanswer⟩
    · exact Or.inr ⟨message, hanswer⟩
  · rintro (⟨message, hanswer⟩ | ⟨message, hanswer⟩)
    · exact ⟨.ok, message, Or.inl rfl, hanswer⟩
    · exact ⟨.eof, message, Or.inr rfl, hanswer⟩

/-- An operation that says nothing is performed when it returns. -/
theorem performed_iff {operation : Talk Unit} :
    ((performed operation).exec conversation).1 = .ok true ↔
      (operation.exec conversation).1 = .ok () := by
  unfold performed
  rw [map_eq_pure_bind, exec_bind]
  generalize operation.exec conversation = outcome
  obtain ⟨error | value, after⟩ := outcome
  · simp
  · simp

/-- An operation that is one request is performed when the answer passes. -/
theorem performed_expectStatus_iff {demand : Demand} {path : Option Bytes} :
    ((performed (expectStatus line demand path)).exec conversation).1 = .ok true ↔
      PassesNow line conversation demand := by
  rw [performed_iff, exec_expectStatus]
  exact statusOutcome_ok_iff path

/-- An attempt says that it was performed when it was made and the answer passes. -/
theorem attempt_iff {extension : Bytes} {demand : Demand} (path : Option Bytes) :
    ((attemptExtension line extension (expectStatus line demand path)).exec conversation).1 =
        .ok true ↔
      extension ∉ conversation.unsupported ∧ PassesNow line conversation demand := by
  by_cases hknown : extension ∈ conversation.unsupported
  · rw [exec_attemptExtension_of_mem hknown]
    simp [hknown]
  · rw [exec_attemptExtension hknown]
    unfold PassesNow
    rw [← statusOutcome_ok_iff path]
    generalize statusOutcome path (line.answer conversation.deeds demand) = outcome
    cases outcome with
    | ok _ => simp [hknown, attemptOutcome]
    | error failure =>
      unfold attemptOutcome
      dsimp only
      split_ifs <;> simp

/-- Putting up with a refusal does not make an attempt performed. -/
theorem orUnsupported_iff {attempt : Talk Bool} :
    ((orUnsupported attempt).exec conversation).1 = .ok true ↔
      (attempt.exec conversation).1 = .ok true := by
  unfold orUnsupported
  rw [exec_tryCatch]
  generalize attempt.exec conversation = outcome
  obtain ⟨failure | value, after⟩ := outcome
  · dsimp only
    split_ifs <;> simp
  · rfl

/-- Attributes of a path are set when the request is sent and the answer passes. -/
theorem performed_setOneAttribute_iff {path : Bytes} {attrs : Attrs} {followSymlinks : Bool}
    {operation : String} :
    ((performed (setOneAttribute line path attrs followSymlinks operation)).exec
        conversation).1 = .ok true ↔
      (followSymlinks = true ∨ extensionLsetstat ∉ conversation.unsupported) ∧
        PassesNow line conversation (attributeDemand path attrs followSymlinks) := by
  unfold setOneAttribute attributeDemand
  cases followSymlinks with
  | true => simp [performed_expectStatus_iff]
  | false =>
    simp only [Bool.false_eq_true, if_false, false_or]
    rw [performed_iff, ← attempt_iff (some path), exec_bind]
    generalize Program.exec (attemptExtension line _ _) conversation = outcome
    obtain ⟨failure | performed, after⟩ := outcome
    · simp
    · cases performed <;> simp

/-- A path is found to be a directory when its attributes are answered and say so. -/
theorem isDirectory_iff {path : Bytes} :
    ((isDirectory line path).exec conversation).1 = .ok true ↔
      ∃ attrs, line.answer conversation.deeds (.lstat path) = .ok (.attrs attrs) ∧
        entryKind attrs = .directory := by
  unfold isDirectory lstat expectAttrs
  rw [exec_tryCatch, exec_bind, exec_bind, exec_ask]
  cases line.answer conversation.deeds (.lstat path) with
  | error interruption =>
    dsimp only [Except.mapError]
    split_ifs <;> simp
  | ok reply =>
    cases reply with
    | attrs attrs => simp [Except.mapError]
    | _ =>
      dsimp only [Except.mapError, exec_throw]
      split_ifs <;> simp

/-- A refusal to make a directory is put up with when it is there. -/
theorem mkdirRefused_iff {path : Bytes} {existOk : Bool} {failure : Failure} :
    ((mkdirRefused line path existOk failure).exec conversation).1 = .ok () ↔
      (failure.isServerError = true ∧ existOk = true) ∧
        ∃ attrs, line.answer conversation.deeds (.lstat path) = .ok (.attrs attrs) ∧
          entryKind attrs = .directory := by
  unfold mkdirRefused
  by_cases hasked : failure.isServerError = true ∧ existOk = true
  · rw [if_pos hasked, ← isDirectory_iff, exec_bind]
    generalize (isDirectory line path).exec conversation = outcome
    obtain ⟨error | found, after⟩ := outcome
    · simp
    · cases found <;> simp [hasked]
  · rw [if_neg hasked]
    simp [hasked]

/-- A directory is made when the answer passes, or was there where that will do. -/
theorem mkdir_iff {path : Bytes} {existOk : Bool} :
    ((mkdir line path existOk).exec conversation).1 = .ok () ↔
      PassesNow line conversation (.mkdir path) ∨
        existOk = true ∧ AlreadyThere line conversation path := by
  unfold mkdir PassesNow AlreadyThere
  rw [exec_tryCatch, exec_expectStatus]
  generalize hanswer : line.answer conversation.deeds (.mkdir path) = answer
  cases answer with
  | error interruption =>
    have hnot : interruption.failure.isServerError = false := by cases interruption <;> rfl
    simp [statusOutcome, mkdirRefused_iff, hnot]
  | ok reply =>
    cases reply with
    | status code message =>
      by_cases hcode : Passes code
      · have hok : statusOutcome (some path) (.ok (.status code message)) = .ok () := if_pos hcode
        rw [hok]
        simp [hcode]
      · have hraised : statusOutcome (some path) (.ok (.status code message)) =
            .error (.serverError code message (some path)) := if_neg hcode
        rw [hraised]
        simp only [mkdirRefused_iff, Failure.isServerError, true_and]
        constructor
        · rintro ⟨hexist, attrs, hlstat, hkind⟩
          exact Or.inr ⟨hexist, code, message, attrs, hcode, rfl, hlstat, hkind⟩
        · rintro (⟨code', message', hcode', heq⟩ | ⟨hexist, _, _, attrs, _, _, hlstat, hkind⟩)
          · cases heq
            exact absurd hcode' hcode
          · exact ⟨hexist, attrs, hlstat, hkind⟩
    | _ => simp [statusOutcome, mkdirRefused_iff, unexpected, Failure.isServerError]

/-- An operation is performed exactly when its request is sent and the answer passes, or what it
asks for is there already and that will do. -/
theorem perform_iff (operation : Mutation) :
    ((operation.perform line).exec conversation).1 = .ok true ↔
      (operation.Sends conversation ∧ PassesNow line conversation operation.demand) ∨
        operation.Excused line conversation := by
  cases operation with
  | mkdir path existOk =>
    rw [Mutation.perform, performed_iff, mkdir_iff]
    simp [Mutation.Sends, Mutation.Excused, Mutation.demand]
  | chmod path mode followSymlinks =>
    rw [Mutation.perform, chmod, performed_setOneAttribute_iff]
    simp [Mutation.Sends, Mutation.Excused, Mutation.demand]
  | chown path owner followSymlinks =>
    rw [Mutation.perform, chown, performed_setOneAttribute_iff]
    simp [Mutation.Sends, Mutation.Excused, Mutation.demand]
  | utime path times followSymlinks =>
    rw [Mutation.perform, utime, performed_setOneAttribute_iff]
    simp [Mutation.Sends, Mutation.Excused, Mutation.demand]
  | ftruncate handle size =>
    rw [Mutation.perform, ftruncate]
    by_cases hsize : size < 0
    · rw [if_pos hsize, performed_iff]
      simp [Mutation.Sends, Mutation.Excused, hsize]
    · rw [if_neg hsize, performed_expectStatus_iff]
      simp [Mutation.Sends, Mutation.Excused, Mutation.demand, not_lt.mp hsize]
  | posixRenameIfSupported oldPath newPath =>
    rw [Mutation.perform, posixRenameIfSupported, orUnsupported_iff]
    simp [posixRename, attempt_iff, Mutation.Sends, Mutation.Excused, Mutation.demand]
  | fsyncIfSupported handle =>
    rw [Mutation.perform, fsyncIfSupported, orUnsupported_iff]
    simp [fsync, attempt_iff, Mutation.Sends, Mutation.Excused, Mutation.demand]
  | _ =>
    refine performed_expectStatus_iff.trans ?_
    simp [Mutation.Sends, Mutation.Excused, Mutation.demand]

/-! ## Success without OK -/

/-- No request that an upload's report can rest on was answered with EOF. -/
def NoEof (earlier later : Conversation) : Prop :=
  ∀ demand message, demand.Reported →
    ¬ Since earlier later (.asked demand (.ok (.status .eof message)))

/-- What passed was answered with OK, where nothing was answered with EOF. -/
theorem Answered.withOk {earlier later : Conversation} {demand : Demand}
    (h : Answered Passes earlier later demand) (hnone : NoEof earlier later)
    (hreported : demand.Reported) : Answered (· = .ok) earlier later demand := by
  obtain ⟨code, message, rfl | rfl, hsince⟩ := h
  · exact ⟨.ok, message, rfl, hsince⟩
  · exact absurd hsince (hnone demand message hreported)

/-- No request has two answers. -/
theorem not_ok_and_eof {demand : Demand} (hok : AnsweredNow line conversation .ok demand) :
    ¬ AnsweredNow line conversation .eof demand := by
  obtain ⟨message, hok⟩ := hok
  rintro ⟨message', heof⟩
  rw [hok] at heof
  cases heof

/-- A refusal that is put up with was no EOF. -/
theorem not_excused_and_eof {operation : Mutation}
    (hexcused : operation.Excused line conversation) :
    ¬ AnsweredNow line conversation .eof operation.demand := by
  cases operation with
  | mkdir path existOk =>
    obtain ⟨-, code, message, attrs, hcode, hanswer, -⟩ := hexcused
    rintro ⟨message', heof⟩
    rw [Mutation.demand, hanswer] at heof
    cases heof
    exact hcode (Or.inr rfl)
  | _ => exact hexcused.elim

/-- Only the number for OK reads as OK, and only that for EOF as EOF. -/
theorem statusCodeOf_iff (rawCode : ℤ) :
    ((statusCodeOf rawCode).1 = .ok ↔ rawCode = 0) ∧
      ((statusCodeOf rawCode).1 = .eof ↔ rawCode = 1) := by
  unfold statusCodeOf
  cases hcode : StatusCode.ofValue rawCode with
  | none =>
    have hzero : rawCode ≠ 0 := by
      rintro rfl
      cases hcode
    have hone : rawCode ≠ 1 := by
      rintro rfl
      cases hcode
    simp [hzero, hone]
  | some code =>
    have hfound := List.find?_some hcode
    obtain rfl : (code.value : ℤ) = rawCode := by simpa using hfound
    cases code <;> simp [StatusCode.value]

/-- A session whose server's answers depend on the request only, with an empty local file. -/
def Line.answering (answer : Demand → Answer) : Line where
  advertised := []
  profile := { informativeMessages := false, transientMessages := [] }
  answer := fun _ => answer
  hashlib := []
  localSize := fun _ => 0
  localMode := fun _ => .error .osError
  localTimes := fun _ => .ok ⟨0, 0⟩
  transfer := fun _ => .ok 0
  compared := fun _ => .ok none
  reread := fun _ => .ok true
  journal := fun _ => .ok ()
  continuing := fun _ => .ok none

/-- A server that answers every request with EOF. -/
def Line.ended : Line := .answering fun _ => .ok (.status .eof [])

/-- Where every request is answered with EOF, removing a file and publishing by a rename in one
step are both reported as done. -/
theorem reported_at_eof :
    Line.ended.answer [] (.remove []) = .ok (.status .eof []) ∧
      (((Mutation.remove []).perform .ended).exec .fresh).1 = .ok true ∧
      ((publish .ended [1] [0] false).exec .fresh).1 = .ok .posixRename :=
  ⟨rfl, rfl, rfl⟩

/-- Each operation says that it was performed only when the answer was OK, or when what it asks
for is there already and that will do, exactly where its request is not answered with EOF. Where
no request that an upload's report can rest on is answered with EOF, the upload reports how the
file was published, that it was flushed and that its times were carried across only when the
requests that do so, through the handle that was opened, were answered with OK. Of all numbers
only one reads as OK, and only one as EOF. -/
theorem success_iff_no_eof (line : Line) (conversation : Conversation) :
    (∀ operation : Mutation,
      (((operation.perform line).exec conversation).1 = .ok true →
        AnsweredNow line conversation .ok operation.demand ∨
          operation.Excused line conversation) ↔
      ¬ (operation.Sends conversation ∧
        AnsweredNow line conversation .eof operation.demand)) ∧
    (∀ localStat target token options result after,
      (put line localStat target token options).exec conversation = (.ok result, after) →
      NoEof conversation after →
        (∃ staged, (result.mechanism = .inPlace ∨ result.stagedAt = some staged) ∧
          PublishedBy (Answered (· = .ok) conversation after) staged target result.mechanism) ∧
        ∃ handle, Opened conversation after handle ∧
          FilledBy (Answered (· = .ok) conversation after) handle result.durability
            result.times) ∧
    ∀ rawCode, ((statusCodeOf rawCode).1 = .ok ↔ rawCode = 0) ∧
      ((statusCodeOf rawCode).1 = .eof ↔ rawCode = 1) := by
  refine ⟨fun operation => ?_, ?_, statusCodeOf_iff⟩
  · rw [perform_iff, passesNow_iff]
    constructor
    · rintro himplied ⟨hsends, heof⟩
      rcases himplied (Or.inl ⟨hsends, Or.inr heof⟩) with hok | hexcused
      · exact not_ok_and_eof hok heof
      · exact not_excused_and_eof hexcused heof
    · rintro hnot (⟨hsends, hok | heof⟩ | hexcused)
      · exact Or.inl hok
      · exact absurd ⟨hsends, heof⟩ hnot
      · exact Or.inr hexcused
  · intro localStat target token options result after hput hnone
    obtain ⟨mode, hrests⟩ := put_ok hput
    have hok : ∀ demand : Demand, demand.Reported → Answered Passes conversation after demand →
        Answered (· = .ok) conversation after demand :=
      fun demand hreported hpassed => hpassed.withOk hnone hreported
    obtain ⟨staged, hstaged, hpublished⟩ := hrests.published
    obtain ⟨handle, hopened, hfilled⟩ := hrests.filled
    exact ⟨⟨staged, hstaged, hpublished.mono hok⟩, handle, hopened, hfilled.mono hok⟩

/-- A server that opens files, reports no attributes, and answers everything else with OK. -/
def Line.willing : Line := .answering fun demand =>
  match demand with
  | .open_ path _ _ => .ok (.handle ⟨path⟩)
  | .stat _ => .ok (.attrs emptyAttrs)
  | _ => .ok (.status .ok [])

/-- An upload in place that carries times across and leaves flushing out. -/
def inPlaceWithTimes : PutOptions where
  publish := { atomic := false, fsync := false }
  preserveTimes := true

/-- Such an upload to a willing server. -/
def uploadedInPlace : Except Failure UploadResult × Conversation :=
  (put .willing ⟨[], ⟨0, 0⟩, 0⟩ [1] [] inPlaceWithTimes).exec .fresh

/-- It reports that the times were carried across, and the request that does so was answered with
OK. -/
theorem success_iff_no_eof_willing :
    ∃ result, uploadedInPlace.1 = .ok result ∧ result.times = .preserved ∧
      ∃ handle times, Answered (· = .ok) .fresh uploadedInPlace.2
        (.fsetstat handle { times := some times }) := by
  have hdeeds : uploadedInPlace.2.deeds =
      [.asked (.open_ [1] .truncate emptyAttrs) (.ok (.handle ⟨[1]⟩)), .worked, .worked,
        .asked (.fsetstat ⟨[1]⟩ { times := some ⟨0, 0⟩ }) (.ok (.status .ok [])),
        .asked (.close ⟨[1]⟩) (.ok (.status .ok [])), .worked,
        .asked (.stat [1]) (.ok (.attrs emptyAttrs))] := rfl
  have hnone : NoEof .fresh uploadedInPlace.2 := by
    rintro demand message - ⟨done, heq, hmem⟩
    obtain rfl : uploadedInPlace.2.deeds = done := heq
    simp [hdeeds] at hmem
  obtain ⟨-, hput, -⟩ := success_iff_no_eof .willing .fresh
  obtain ⟨-, handle, -, hfilled⟩ :=
    hput ⟨[], ⟨0, 0⟩, 0⟩ [1] [] inPlaceWithTimes _ uploadedInPlace.2 rfl hnone
  exact ⟨_, rfl, rfl, handle, hfilled.timed rfl⟩

end Talk

end GantrySftp
