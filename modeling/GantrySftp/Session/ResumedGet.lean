import GantrySftp.Session.DownloadWindow
import GantrySftp.Session.Get
import GantrySftp.Session.Steps

/-!
# Resumed downloads

What a local file holds after any number of downloads is what it held when it was last emptied,
with the payloads that arrived since written at their own offsets. A resumed download takes the
length of that file as the offset to go on from, and leaves everything below alone. It completes
the remote file exactly when nothing is missing below the end of what was left behind.
-/

namespace GantrySftp

open Library Program Relation

/-! ## What a local file is made of -/

/-- The bytes a local file held when it was last emptied or first looked at, and what was
written into it since. -/
structure Account where
  kept : Bytes
  arrived : List Placed

namespace Account

/-- A file nothing was written into yet. -/
def opened (localFile : Option Bytes) : Account where
  kept := localFile.getD []
  arrived := []

/-- The account after an event. -/
def after (account : Account) : Event → Account
  | .opened true => { kept := [], arrived := [] }
  | .downloaded answered => { account with arrived := account.arrived ++ landed answered }
  | _ => account

/-- The account after the events of a trace. -/
def replay (account : Account) (trace : List Moment) : Account :=
  trace.foldl (fun account moment => account.after moment.event) account

/-- The file an account describes. -/
def content (account : Account) : Bytes := pwriteAll account.kept account.arrived

/-- Replaying one trace after another. -/
theorem replay_append (account : Account) (front back : List Moment) :
    account.replay (front ++ back) = (account.replay front).replay back :=
  List.foldl_append

end Account

/-- Whether an event leaves the local file alone. -/
def Event.quiet : Event → Bool
  | .opened _ | .downloaded _ => false
  | _ => true

/-- Quiet events leave an account alone. -/
theorem Account.replay_quiet (account : Account) {trace : List Moment}
    (h : ∀ moment ∈ trace, moment.event.quiet = true) : account.replay trace = account := by
  induction trace with
  | nil => rfl
  | cons moment rest ih =>
    have hsame : account.after moment.event = account := by
      have hquiet := h moment List.mem_cons_self
      cases hevent : moment.event with
      | opened truncated =>
        rw [hevent] at hquiet
        cases hquiet
      | downloaded answered =>
        rw [hevent] at hquiet
        cases hquiet
      | others => rfl
      | exchanged request answer => rfl
      | wrote handle offset payload => rfl
      | appended record => rfl
      | compacted => rfl
    change (account.after moment.event).replay rest = account
    rw [hsame]
    exact ih fun other hmem => h other (List.mem_cons_of_mem _ hmem)

/-- A step that leaves the local file alone and only adds quiet events to the trace. -/
def Quiet (world world' : World) : Prop :=
  world'.localFile = world.localFile ∧
    ∃ moments, world'.trace = world.trace ++ moments ∧
      ∀ moment ∈ moments, moment.event.quiet = true

/-- A step that leaves the local file as the events it adds to the trace describe. -/
def Accounted (world world' : World) : Prop :=
  (world.localFile.isSome → world'.localFile.isSome) ∧
    ∃ moments, world'.trace = world.trace ++ moments ∧
      ∀ account : Account, account.content = world.localFile.getD [] →
        (account.replay moments).content = world'.localFile.getD []

/-- Nothing happening is quiet. -/
theorem Quiet.refl (world : World) : Quiet world world :=
  ⟨rfl, [], (List.append_nil _).symm, by simp⟩

/-- Quiet steps one after another. -/
theorem Quiet.trans {first second third : World} (h : Quiet first second)
    (h' : Quiet second third) : Quiet first third := by
  obtain ⟨hlocal, moments, htrace, hquiet⟩ := h
  obtain ⟨hlocal', moments', htrace', hquiet'⟩ := h'
  refine ⟨hlocal'.trans hlocal, moments ++ moments', ?_, ?_⟩
  · rw [htrace', htrace, List.append_assoc]
  · intro moment hmem
    exact (List.mem_append.mp hmem).elim (hquiet moment) (hquiet' moment)

/-- Quiet steps are accounted for. -/
theorem Quiet.accounted {world world' : World} (h : Quiet world world') :
    Accounted world world' := by
  obtain ⟨hlocal, moments, htrace, hquiet⟩ := h
  refine ⟨fun hsome => hlocal ▸ hsome, moments, htrace, fun account haccount => ?_⟩
  rw [account.replay_quiet hquiet, hlocal, haccount]

/-- Accounted steps one after another. -/
theorem Accounted.trans {first second third : World} (h : Accounted first second)
    (h' : Accounted second third) : Accounted first third := by
  obtain ⟨hsome, moments, htrace, haccount⟩ := h
  obtain ⟨hsome', moments', htrace', haccount'⟩ := h'
  refine ⟨fun hfirst => hsome' (hsome hfirst), moments ++ moments', ?_, ?_⟩
  · rw [htrace', htrace, List.append_assoc]
  · intro account hcontent
    rw [account.replay_append]
    exact haccount' _ (haccount account hcontent)

/-- Steps that a session takes while it only reads are quiet. -/
theorem readingSteps_quiet (connection : Connection) : ReadingSteps connection Quiet where
  request := by
    intro req _
    refine .of fun world => ?_
    split
    · exact ⟨rfl, _, (List.append_assoc _ _ _), by simp [Event.quiet]⟩
    · exact .refl world
  system := by
    refine .of fun world => ?_
    split
    · exact .refl world
    · exact .refl world
  learn := fun _ => .modify fun world => .refl world
  reread := by
    intro start length
    refine .of fun world => ?_
    split
    · exact .refl world
    · exact .refl world

/-- Opening the local file is accounted for. -/
theorem accounted_opened (world : World) (startOffset : ℕ) :
    Accounted world ({ world with
      localFile := some (if startOffset = 0 then [] else world.localFile.getD []) }.record
        (.opened (startOffset = 0))) := by
  refine ⟨fun _ => rfl, _, rfl, fun account haccount => ?_⟩
  by_cases hstart : startOffset = 0
  · simp [hstart, World.record, Account.replay, Account.after, Account.content, pwriteAll]
  · simpa [hstart, World.record, Account.replay, Account.after] using haccount

/-- Filling the local file is accounted for. -/
theorem does_downloadLocal (connection : Connection) (size depth : Option ℕ) (startOffset : ℕ) :
    Does Accounted (downloadLocal connection size depth startOffset) := by
  refine .of fun world => ?_
  split
  · next replies ending script hscript =>
    refine ⟨fun _ => rfl, _, rfl, fun account haccount => ?_⟩
    simp only [World.record, Account.replay, List.foldl_cons, List.foldl_nil, Account.after,
      Account.content, Option.getD_some, downloadHandle_sink, foldl_descriptorSink]
    rw [pwriteAll_append, ← haccount]
    rfl
  · exact (Quiet.refl world).accounted

section Downloads

/-- Reading is accounted for. -/
theorem readingSteps_accounted (connection : Connection) :
    ReadingSteps connection Accounted :=
  (readingSteps_quiet connection).mono fun _ _ => Quiet.accounted

/-- A local system call is quiet. -/
theorem does_systemCall : Does Quiet systemCall := by
  refine .of fun world => ?_
  split
  · exact .refl world
  · exact .refl world

/-- Changing the permissions and times is quiet. -/
theorem does_stampLocal (mode : Option ℤ) (times : Option Times) :
    Does Quiet (stampLocal mode times) := by
  have hasked : ∀ asked, Does Quiet (systemCallIf asked) := by
    intro asked
    cases asked
    · exact .pure _
    · exact does_systemCall
  exact .bind (hasked _) fun _ => hasked _

/-- Changing the permissions and times by path is quiet. -/
theorem does_stampPath (mode : Option ℤ) (times : Option Times) :
    Does Quiet (stampPath mode times) := by
  unfold stampPath
  split_ifs
  · refine .bind .get fun world => ?_
    split_ifs
    · exact does_stampLocal _ _
    · exact .throw _
  · exact .pure _

/-- Finishing a resume of a whole file is quiet. -/
theorem does_alreadyComplete (options : GetOptions) (attrs : Attrs) (adopted : ℕ)
    (mode : Option ℤ) (resumeCheck : ResumeCheck) :
    Does Quiet (alreadyComplete options attrs adopted mode resumeCheck) :=
  .bind (does_stampPath _ _) fun _ => .pure _

variable (connection : Connection)

/-- Asking for the attributes while opening is quiet. -/
theorem does_statAndOpen (path : Bytes) : Does Quiet (statAndOpen connection path) := by
  have h := readingSteps_quiet connection
  refine .bind (.tryCatch (.bind (h.stat path) fun _ => .pure _) fun _ => .pure _) fun described =>
    .bind (.tryCatch (.bind (h.openForRead path) fun _ => .pure _) fun _ => .pure _) fun opened => ?_
  cases described with
  | ok attrs =>
    cases opened with
    | ok handle => exact .pure _
    | error failure => exact .throw _
  | error failure =>
    cases opened with
    | ok handle => exact .bind (h.closeQuietly handle) fun _ => .throw _
    | error _ => exact .throw _

/-- Opening the local file and filling it is accounted for. -/
theorem does_downloadInto (size depth : Option ℕ) (startOffset : ℕ) (times : Option Times)
    (mode : Option ℤ) :
    Does Accounted (downloadInto connection size depth startOffset times mode) := by
  refine .bind (.bind (readingSteps_accounted connection).system fun _ => ?_) fun _ => ?_
  · exact .modify fun world => accounted_opened world startOffset
  · refine .bind (does_downloadLocal connection size depth startOffset) fun transferred =>
      .bind ?_ fun _ => .pure _
    exact (does_stampLocal mode times).mono fun _ _ => Quiet.accounted

/-- Transferring and checking is accounted for. -/
theorem does_transferFrom (path : Bytes) (options : GetOptions) (attrs : Attrs)
    (opened : Option Handle) (start : ℕ) (mode : Option ℤ) (resumeCheck : ResumeCheck) :
    Does Accounted
      (transferFrom connection path options attrs opened start mode resumeCheck) := by
  have h := readingSteps_accounted connection
  refine .bind ?_ fun handle => .bind (.tryCatch ?_ fun failure => ?_) fun transferred =>
    .bind (h.close handle) fun _ => .bind (does_orThrow _) fun sizeCheck =>
      .bind (h.verifyContent path _ _) fun contentCheck => .pure _
  · cases opened with
    | some handle => exact .pure _
    | none => exact h.openForRead path
  · exact does_downloadInto connection _ _ _ _ _
  · exact .bind (h.closeQuietly handle) fun _ => .throw _

/-- A download accounts for the local file, however it ends. -/
theorem does_get (path : Bytes) (options : GetOptions) :
    Does Accounted (get connection path options) := by
  have h := readingSteps_accounted connection
  unfold GantrySftp.get
  split_ifs
  · refine .bind (h.stat path) fun attrs => .bind (does_orThrow _) fun mode =>
      .bind .get fun world => .bind (does_orThrow _) fun start =>
        .bind (h.gateResume path start _) fun resumeCheck => ?_
    split_ifs
    · exact (does_alreadyComplete _ _ _ _ _).mono fun _ _ => Quiet.accounted
    · exact does_transferFrom connection _ _ _ _ _ _ _
  · refine .bind ((does_statAndOpen connection path).mono fun _ _ => Quiet.accounted)
      fun described => .bind (does_orThrow _) fun mode =>
        .bind (h.gateResume path 0 _) fun resumeCheck => ?_
    exact does_transferFrom connection _ _ _ _ _ _ _

end Downloads

/-! ## Truthful servers -/

/-- READs answered truthfully of this content. -/
def Event.Truthful (content : Bytes) : Event → Prop
  | .downloaded answered => ∀ reply ∈ answered, TruthfulRead content reply
  | _ => True

instance (content : Bytes) : DecidablePred (Event.Truthful content)
  | .downloaded answered =>
    inferInstanceAs (Decidable (∀ reply ∈ answered, TruthfulRead content reply))
  | .others | .exchanged _ _ | .wrote _ _ _ | .opened _ | .appended _ | .compacted =>
    isTrue trivial

/-- A server that holds this content at a path throughout, and answers READs truthfully. -/
def Serves (server : Server) (path content : Bytes) (trace : List Moment) : Prop :=
  ∀ moment ∈ trace, moment.files (server.resolve path) = some content ∧
    moment.event.Truthful content

instance (server : Server) (path content : Bytes) (trace : List Moment) :
    Decidable (Serves server path content trace) :=
  inferInstanceAs (Decidable (∀ moment ∈ trace, _ ∧ _))

/-- A part of a trace. -/
theorem Serves.of_append {server : Server} {path content : Bytes} {front back : List Moment}
    (h : Serves server path content (front ++ back)) : Serves server path content front :=
  fun moment hmem => h moment (List.mem_append_left _ hmem)

/-- What a program that does quiet steps left. -/
theorem quiet_of_does {α : Type} {program : Session α} (h : Does Quiet program)
    {world world' : World} {result : Except Failure α}
    (hexec : program.exec world = (result, world')) : Quiet world world' := by
  have hsteps := h world
  rw [hexec] at hsteps
  dsimp only at hsteps
  generalize world' = last at hsteps
  induction hsteps with
  | refl => exact .refl _
  | tail _ hlast ih => exact ih.trans hlast

/-- What a program that does accounted steps left. -/
theorem accounted_of_does {α : Type} {program : Session α} (h : Does Accounted program)
    (world : World) : Accounted world (program.exec world).2 := by
  have hsteps := h world
  generalize (program.exec world).2 = last at hsteps
  induction hsteps with
  | refl => exact (Quiet.refl _).accounted
  | tail _ hlast ih => exact ih.trans hlast

/-- A trace the server served throughout was served up to any point. -/
theorem Serves.of_accounted {server : Server} {path content : Bytes} {world world' : World}
    (h : Serves server path content world'.trace) (haccounted : Accounted world world') :
    Serves server path content world.trace := by
  obtain ⟨-, moments, htrace, -⟩ := haccounted
  rw [htrace] at h
  exact h.of_append

/-- A trace the server served throughout was served up to any point, quiet or not. -/
theorem Serves.of_quiet {server : Server} {path content : Bytes} {world world' : World}
    (h : Serves server path content world'.trace) (hquiet : Quiet world world') :
    Serves server path content world.trace := h.of_accounted hquiet.accounted

/-! ## What a resumed download leaves -/

/-- Behind what a file had, exactly the rest of the content was written. -/
def Completes (left content : Bytes) (localFile : Option Bytes) : Prop :=
  left.length ≤ content.length ∧ ∃ writes, (∀ write ∈ writes, Slice content write) ∧
    (∀ i, Covered writes i ↔ left.length ≤ i ∧ i < content.length) ∧
      localFile = some (pwriteAll left writes)

/-- A file completed so is the content exactly when it was a prefix of it. -/
theorem Completes.eq_iff {left content : Bytes} {localFile : Option Bytes}
    (h : Completes left content localFile) : localFile = some content ↔ left <+: content := by
  obtain ⟨hlength, writes, hslices, hcovered, rfl⟩ := h
  rw [Option.some_inj]
  exact pwriteAll_eq_iff hslices hlength hcovered

section Resumed

variable {connection : Connection} {path content left : Bytes} {world world' : World}

/-- Filling the local file from its end on completes it. -/
theorem downloadInto_ok {size depth : Option ℕ} {times : Option Times} {mode : Option ℤ}
    {transferred : ℕ}
    (h : (downloadInto connection size depth left.length times mode).exec world =
      (.ok transferred, world'))
    (hleft : world.localFile = some left) (hsize : ∀ stop ∈ size, stop = content.length)
    (hlength : left.length ≤ content.length)
    (hserves : Serves connection.server path content world'.trace) :
    Completes left content world'.localFile := by
  obtain ⟨_, opened, hopen, h⟩ := exec_bind_ok.mp h
  obtain ⟨count, filled, hfill, h⟩ := exec_bind_ok.mp h
  obtain ⟨_, stamped, hstamp, h⟩ := exec_bind_ok.mp h
  obtain ⟨-, rfl⟩ := Prod.mk.inj h
  obtain ⟨_, between, hcall, hopen⟩ := exec_bind_ok.mp hopen
  have hbetween := quiet_of_does does_systemCall hcall
  have hopened : opened.localFile = some left := by
    obtain ⟨-, rfl⟩ := Prod.mk.inj hopen
    change some (if left.length = 0 then [] else between.localFile.getD []) = _
    rw [hbetween.1, hleft]
    split_ifs with hempty
    · rw [List.length_eq_zero_iff.mp hempty]
    · rfl
  have hstamped := quiet_of_does (does_stampLocal mode times) hstamp
  have hfilled := hserves.of_quiet hstamped
  unfold downloadLocal at hfill
  rw [exec_of] at hfill
  split at hfill
  · next replies ending script hscript =>
    obtain ⟨hcount, rfl⟩ := Prod.mk.inj hfill
    have htruthful := (hfilled _ (List.mem_append_right _ (List.mem_singleton_self _))).2
    refine ⟨hlength, _, Downloader.slice_of_truthful htruthful,
      downloadHandle_covered hcount htruthful hsize, ?_⟩
    rw [hstamped.1]
    simp only [World.record, downloadHandle_sink, foldl_descriptorSink]
    rw [hopened]
    rfl
  · cases hfill

/-- Raising what a check raised returns only what the check returned. -/
theorem orThrow_ok {α : Type} {result : Except Failure α} {value : α}
    (h : (orThrow result).exec world = (.ok value, world')) :
    result = .ok value ∧ world' = world := by
  cases result with
  | ok found =>
    obtain ⟨hfound, rfl⟩ := Prod.mk.inj h
    exact ⟨hfound, rfl⟩
  | error failure => cases h

/-- A resume goes on from the length of the local file, which the remote file reaches. -/
theorem downloadResumeOffset_ok {localFile : Option Bytes} {size : Option ℕ} {start : ℕ}
    (h : downloadResumeOffset localFile size = .ok start) :
    start = localSize localFile ∧ ∃ stop, size = some stop ∧ localSize localFile ≤ stop := by
  unfold downloadResumeOffset at h
  cases size with
  | none => cases h
  | some stop =>
    dsimp only at h
    split_ifs at h with hlong
    exact ⟨(Except.ok.inj h).symm, stop, rfl, not_lt.mp hlong⟩

/-- Transferring from the end of the local file on completes it. -/
theorem transferFrom_ok {options : GetOptions} {attrs : Attrs} {mode : Option ℤ}
    {resumeCheck : ResumeCheck} {result : DownloadResult}
    (h : (transferFrom connection path options attrs none left.length mode resumeCheck).exec
      world = (.ok result, world'))
    (hleft : world.localFile = some left) (hsize : ∀ stop ∈ attrs.sizeNat, stop = content.length)
    (hlength : left.length ≤ content.length)
    (hserves : Serves connection.server path content world'.trace) :
    Completes left content world'.localFile := by
  have hreads := readingSteps_quiet connection
  obtain ⟨handle, opened, hopen, h⟩ := exec_bind_ok.mp h
  obtain ⟨transferred, filled, hfill, h⟩ := exec_bind_ok.mp h
  obtain ⟨_, closed, hclose, h⟩ := exec_bind_ok.mp h
  obtain ⟨sizeCheck, compared, hcompare, h⟩ := exec_bind_ok.mp h
  obtain ⟨contentCheck, verified, hverify, h⟩ := exec_bind_ok.mp h
  obtain ⟨-, rfl⟩ := Prod.mk.inj h
  obtain ⟨-, rfl⟩ := orThrow_ok hcompare
  have hopened : Quiet world opened := quiet_of_does (hreads.openForRead path) hopen
  have hclosed := quiet_of_does (hreads.close handle) hclose
  have hverified := quiet_of_does (hreads.verifyContent path _ _) hverify
  obtain hfill | ⟨failure, between, -, hraised⟩ := exec_tryCatch_ok.mp hfill
  · have hlocal := downloadInto_ok hfill (hopened.1.trans hleft) hsize hlength
      ((hserves.of_quiet hverified).of_quiet hclosed)
    rw [hverified.1, hclosed.1]
    exact hlocal
  · obtain ⟨_, _, -, hthrow⟩ := exec_bind_ok.mp hraised
    cases hthrow

/-- A size that was reported is the length of the content the server holds throughout. -/
theorem sizeNat_of_serves {attrs : Attrs}
    (h : (stat connection path).exec world = (.ok attrs, world'))
    (hserves : Serves connection.server path content world'.trace) :
    ∀ size ∈ attrs.sizeNat, size = content.length := by
  obtain ⟨moment, hmem, found, hfound, hsize⟩ := stat_ok h
  obtain rfl := Option.some.inj (((hserves moment hmem).1).symm.trans hfound)
  intro size hsome
  obtain ⟨reported, hreported, rfl⟩ := Option.map_eq_some_iff.mp hsome
  rw [hsize reported hreported, Int.toNat_natCast]

/-- A resumed download that returns has completed the local file it found. -/
theorem resumed_get_ok {options : GetOptions} {result : DownloadResult}
    (hresume : options.resume = true)
    (h : (get connection path options).exec world = (.ok result, world'))
    (hleft : world.localFile = some left)
    (hserves : Serves connection.server path content world'.trace) :
    Completes left content world'.localFile := by
  have hreads := readingSteps_quiet connection
  unfold GantrySftp.get at h
  rw [if_pos hresume] at h
  obtain ⟨attrs, described, hstat, hmoding⟩ := exec_bind_ok.mp h
  obtain ⟨mode, moded, hmode, hlooking⟩ := exec_bind_ok.mp hmoding
  obtain ⟨found, looked, hlook, hstarting⟩ := exec_bind_ok.mp hlooking
  obtain ⟨start, started, hstart, hgating⟩ := exec_bind_ok.mp hstarting
  obtain ⟨resumeCheck, gated, hgate, hfinishing⟩ := exec_bind_ok.mp hgating
  obtain ⟨-, rfl⟩ := orThrow_ok hmode
  obtain ⟨hfound, rfl⟩ := Prod.mk.inj hlook
  obtain rfl := Except.ok.inj hfound
  obtain ⟨hoffset, rfl⟩ := orThrow_ok hstart
  have hdescribed := quiet_of_does (hreads.stat path) hstat
  have hgated := quiet_of_does (hreads.gateResume path start _) hgate
  have hlocal : gated.localFile = some left := by rw [hgated.1, hdescribed.1, hleft]
  have hrest : Accounted gated world' := by
    have hsteps : Does Accounted (if attrs.sizeNat = some start then
        alreadyComplete options attrs start mode resumeCheck
        else transferFrom connection path options attrs none start mode resumeCheck) := by
      split_ifs
      · exact (does_alreadyComplete _ _ _ _ _).mono fun _ _ => Quiet.accounted
      · exact does_transferFrom connection _ _ _ _ _ _ _
    have := accounted_of_does hsteps gated
    rw [hfinishing] at this
    exact this
  have hsize := sizeNat_of_serves hstat ((hserves.of_accounted hrest).of_quiet hgated)
  obtain ⟨rfl, stop, hstop, hlength⟩ := downloadResumeOffset_ok hoffset
  have hlocalSize : localSize started.localFile = left.length := by
    rw [hdescribed.1, hleft]
    rfl
  obtain rfl := hsize stop hstop
  rw [hlocalSize] at hfinishing hlength
  split_ifs at hfinishing with hwhole
  · have hsame : content.length = left.length :=
      Option.some.inj (hstop.symm.trans hwhole)
    have hdone := quiet_of_does (does_alreadyComplete _ _ _ _ _) hfinishing
    refine ⟨hlength, [], by simp, fun i => ⟨?_, fun hi => by omega⟩, hdone.1.trans hlocal⟩
    rintro ⟨write, hmem, -⟩
    cases hmem
  · exact transferFrom_ok hfinishing hlocal hsize hlength hserves

end Resumed

/-! ## Downloads one after another -/

/-- One download: the session it runs on, what was asked of it, and what it finds, of which the
local file is the one the download before it left. -/
structure Attempt where
  connection : Connection
  options : GetOptions
  found : World

namespace Attempt

/-- The state an attempt starts from. -/
def world (attempt : Attempt) (localFile : Option Bytes) : World :=
  { attempt.found with localFile := localFile, trace := [] }

/-- Run an attempt. -/
def run (attempt : Attempt) (path : Bytes) (localFile : Option Bytes) :
    Except Failure DownloadResult × World :=
  (get attempt.connection path attempt.options).exec (attempt.world localFile)

end Attempt

section Attempts

variable (path : Bytes)

/-- The local file that downloads one after another leave behind. -/
def leftBehind : Option Bytes → List Attempt → Option Bytes
  | localFile, [] => localFile
  | localFile, attempt :: rest => leftBehind (attempt.run path localFile).2.localFile rest

/-- Everything that happened in downloads one after another. -/
def history : Option Bytes → List Attempt → List Moment
  | _, [] => []
  | localFile, attempt :: rest =>
    let world := (attempt.run path localFile).2
    world.trace ++ history world.localFile rest

/-- Every download was served this content at the path, all the time. -/
def ServedThroughout (content : Bytes) : Option Bytes → List Attempt → Prop
  | _, [] => True
  | localFile, attempt :: rest =>
    let world := (attempt.run path localFile).2
    Serves attempt.connection.server path content world.trace ∧
      ServedThroughout content world.localFile rest

variable {path} {content : Bytes}

/-- Downloads followed by others. -/
theorem servedThroughout_append {localFile : Option Bytes} {front back : List Attempt} :
    ServedThroughout path content localFile (front ++ back) ↔
      ServedThroughout path content localFile front ∧
        ServedThroughout path content (leftBehind path localFile front) back := by
  induction front generalizing localFile with
  | nil => exact (and_iff_right trivial).symm
  | cons attempt rest ih => exact (and_congr_right fun _ => ih).trans and_assoc.symm

/-- What happened accounts for the file left behind. -/
theorem content_replay_history {account : Account} {localFile : Option Bytes}
    (attempts : List Attempt) (h : account.content = localFile.getD []) :
    (account.replay (history path localFile attempts)).content =
      (leftBehind path localFile attempts).getD [] := by
  induction attempts generalizing account localFile with
  | nil => exact h
  | cons attempt rest ih =>
    obtain ⟨-, moments, htrace, haccount⟩ :=
      accounted_of_does (does_get attempt.connection path attempt.options)
        (attempt.world localFile)
    change (account.replay ((attempt.run path localFile).2.trace ++ _)).content = _
    rw [account.replay_append]
    refine ih ?_
    rw [show (attempt.run path localFile).2.trace = moments from htrace]
    exact haccount account h

/-- Whatever arrived is a slice of the content. -/
theorem slices_replay {account : Account} {trace : List Moment}
    (htruthful : ∀ moment ∈ trace, moment.event.Truthful content)
    (h : ∀ write ∈ account.arrived, Slice content write) :
    ∀ write ∈ (account.replay trace).arrived, Slice content write := by
  induction trace generalizing account with
  | nil => exact h
  | cons moment rest ih =>
    refine ih (fun other hmem => htruthful other (List.mem_cons_of_mem _ hmem)) ?_
    have hevent := htruthful moment List.mem_cons_self
    change ∀ write ∈ (account.after moment.event).arrived, Slice content write
    generalize moment.event = event at hevent ⊢
    cases event with
    | opened truncated =>
      cases truncated
      · exact h
      · exact fun write hmem => nomatch hmem
    | downloaded answered =>
      intro write hmem
      obtain hbefore | hnow := List.mem_append.mp hmem
      · exact h write hbefore
      · exact Downloader.slice_of_truthful hevent write hnow
    | others => exact h
    | exchanged request answer => exact h
    | wrote handle offset payload => exact h
    | appended record => exact h
    | compacted => exact h

/-- Every READ of downloads that were served throughout was answered truthfully. -/
theorem truthful_history {localFile : Option Bytes} {attempts : List Attempt}
    (h : ServedThroughout path content localFile attempts) :
    ∀ moment ∈ history path localFile attempts, moment.event.Truthful content := by
  induction attempts generalizing localFile with
  | nil => simp [history]
  | cons attempt rest ih =>
    intro moment hmem
    obtain hnow | hlater := List.mem_append.mp hmem
    · exact (h.1 moment hnow).2
    · exact ih h.2 moment hlater

/-- After any downloads, a resumed one that returns has made the local file the remote one
exactly when nothing was missing in what they had left: every byte below the last one that was
there or had arrived had arrived too, or had been right all along. -/
theorem resumed_get_eq_iff {initial : Option Bytes} {left : Bytes} {attempts : List Attempt}
    {resumed : Attempt} {result : DownloadResult}
    (hserved : ServedThroughout path content initial (attempts ++ [resumed]))
    (hleft : leftBehind path initial attempts = some left)
    (hresume : resumed.options.resume = true)
    (hreturns : (resumed.run path (some left)).1 = .ok result) :
    (resumed.run path (some left)).2.localFile = some content ↔
      Gapless content ((Account.opened initial).replay (history path initial attempts)).kept
        ((Account.opened initial).replay (history path initial attempts)).arrived := by
  obtain ⟨hbefore, hlast⟩ := servedThroughout_append.mp hserved
  rw [hleft] at hlast
  have hcompletes : Completes left content (resumed.run path (some left)).2.localFile :=
    resumed_get_ok hresume (Prod.ext hreturns rfl) rfl hlast.1
  have hmade : pwriteAll ((Account.opened initial).replay (history path initial attempts)).kept
      ((Account.opened initial).replay (history path initial attempts)).arrived = left := by
    have hcontent : ((Account.opened initial).replay (history path initial attempts)).content =
        (leftBehind path initial attempts).getD [] := content_replay_history attempts rfl
    rwa [hleft] at hcontent
  have hslices : ∀ write ∈ ((Account.opened initial).replay
      (history path initial attempts)).arrived, Slice content write :=
    slices_replay (truthful_history hbefore) (by simp [Account.opened])
  have hkept := (length_le_pwriteAll _ _).trans ((congrArg List.length hmade).trans_le hcompletes.1)
  rw [hcompletes.eq_iff, ← pwriteAll_prefix_iff hslices hkept, hmade]

end Attempts

/-- A download of the file named by the byte 7, which holds the bytes 1 and 2. -/
def pairAttempt (depth : ℕ) (resume : Bool) (script : List Turn) : Attempt where
  connection := .plain depth
  options := { resume := resume }
  found := .starting (Function.update (fun _ => none) [7] (some [1, 2])) none script

/-- The first download of the pair is cut short once these replies have come. -/
def cutShort (depth : ℕ) (replies : List (ℕ × Reply)) : Attempt :=
  pairAttempt depth false
    [.exchange [] (.answer false), .exchange [] (.answer false), .system none,
      .download replies .timeout, .exchange [] (.answer false)]

/-- The second download of the pair finds a server without `check-file`. -/
def goneOn (rest : List Turn) : Attempt :=
  pairAttempt 1 true
    ([.exchange [] (.answer false), .exchange [] (.answer false),
      .exchange [] (.refuse .unknown), .exchange [] (.answer false)] ++ rest)

/-- A download cut short behind its first byte, with one READ in flight, is completed. -/
theorem resumed_get_eq_iff_pair :
    let second := goneOn [.exchange [] (.answer false), .system none,
      .download [(1, .data [2])] .timeout, .exchange [] (.answer false)]
    let account := (Account.opened none).replay (history [7] none [cutShort 1 [(1, .data [1])]])
    (second.run [7] (some [1])).2.localFile = some [1, 2] ∧
      Gapless [1, 2] account.kept account.arrived := by
  intro second account
  have hwhole : (second.run [7] (some [1])).2.localFile = some [1, 2] := by decide +kernel
  have hleft : leftBehind [7] none [cutShort 1 [(1, .data [1])]] = some [1] := by decide +kernel
  have hreturns : (second.run [7] (some [1])).1 =
      .ok ⟨1, .matched, .skipped, .skipped, .unavailable, 1, none⟩ := by decide +kernel
  have hserved : ServedThroughout [7] [1, 2] none ([cutShort 1 [(1, .data [1])]] ++ [second]) :=
    ⟨by decide +kernel, by decide +kernel, trivial⟩
  exact ⟨hwhole, (resumed_get_eq_iff hserved hleft rfl hreturns).mp hwhole⟩

/-- With two READs in flight the second can be answered first. The download is then cut short
with a hole at its start, and one that resumes it finds the length right and returns. -/
theorem not_forall_resumed_get_eq :
    ¬ ∀ (path content left : Bytes) (first resumed : Attempt) (failure : Failure)
      (result : DownloadResult),
      ServedThroughout path content none [first, resumed] →
      first.options.resume = false → resumed.options.resume = true →
      1 ≤ first.connection.depth → 1 ≤ first.connection.readLength →
      (first.run path none).1 = .error failure →
      (first.run path none).2.localFile = some left →
      (resumed.run path (some left)).1 = .ok result →
        (resumed.run path (some left)).2.localFile = some content := by
  intro h
  have hwrong := h [7] [1, 2] [0, 2] (cutShort 2 [(2, .data [2])]) (goneOn []) .transferTimeout
    ⟨0, .matched, .skipped, .skipped, .unavailable, 2, none⟩
    ⟨by decide +kernel, by decide +kernel, trivial⟩ rfl rfl (by decide) (by decide)
    (by decide +kernel) (by decide +kernel) (by decide +kernel)
  exact absurd hwrong (by decide +kernel)

end GantrySftp
