import GantrySftp.Session.LogCompaction
import GantrySftp.Session.Publishing

/-!
# Sweeping up staging files

What killed processes left staged is swept up from the journal: the staging file of each entry in
flight is removed and its record struck off, and at last the journal is compacted. A sweep follows
a protocol of phases. However it ends, it asks for nothing to be removed but what its journal
names, strikes nothing off before the server said that its staging file is gone, and leaves to the
next sweep exactly what it has not struck off.
-/

namespace GantrySftp

open Library Program Relation

variable (connection : Connection)

/-- Everything a journal has in flight. -/
def inFlight : Session Entries := do
  orThrow ((fold (← MonadState.get).journal).mapError JournalError.failure)

/-- Rewrite the journal with what is still in flight. -/
def compactJournal : Session Unit := .of fun world =>
  match world.script with
  | .compact fate :: script =>
    let world := { world with script := script }
    match fold world.journal with
    | .error error => (.error error.failure, world)
    | .ok surviving => world.replace (compacted surviving) fate
  | _ => (.error .killed, world.kill)

/-- Remove a staging file, which may be gone already. Returns it if it was there. -/
def removeStaged (staged : Bytes) : Session (List Bytes) :=
  tryCatch (do remove connection staged; pure [staged]) fun failure =>
    if failure.isNoSuchFile then pure [] else throw failure

/-- Remove staging files and strike them off the journal. Returns those that were there. -/
def discardEntries : List JournalEntry → Session (List Bytes)
  | [] => pure []
  | entry :: rest => do
    let removed ← removeStaged connection entry.staged
    appendRecord (publishedLine entry.target)
    let others ← discardEntries rest
    pure (removed ++ others)

/-- Remove every staging file a journal still has in flight. -/
def discardStaged : Session (List Bytes) := do
  let entries ← inFlight
  let removed ← discardEntries connection entries.values
  compactJournal
  pure removed

/-! ## Phases and steps -/

/-- How far a sweep has come: the staging files it has removed, and the entries it has not come to.
In `gone` the record of an entry whose staging file is gone is still to be struck off. -/
inductive SweepPhase
  | sweeping (removed : List Bytes) (rest : List JournalEntry)
  | gone (removed : List Bytes) (entry : JournalEntry) (rest : List JournalEntry)
  | stopped (entry : JournalEntry) (rest : List JournalEntry)
  | swept (removed : List Bytes)

namespace SweepPhase

/-- After the REMOVE of an entry's staging file. -/
def afterRemoval (removed : List Bytes) (entry : JournalEntry) (rest : List JournalEntry) :
    Except Failure Reply → SweepPhase
  | .ok (.status code _) =>
    if code = .ok ∨ code = .eof then gone (removed ++ [entry.staged]) entry rest
    else if code = .noSuchFile then gone removed entry rest
    else stopped entry rest
  | _ => stopped entry rest

/-- The entries whose records are still there. -/
def recorded : SweepPhase → List JournalEntry
  | sweeping _ rest => rest
  | gone _ entry rest => entry :: rest
  | stopped entry rest => entry :: rest
  | swept _ => []

end SweepPhase

/-- The journal was replaced by what is in flight in it, or by a part of that. -/
structure Rewritten (world : World) (fate : AppendFate) (world' : World) : Prop where
  script : world.script = .compact (.replaces fate) :: world'.script
  files : world'.files = world.files
  journal : ∃ surviving, fold world.journal = .ok surviving ∧
    world'.journal = some ⟨fate.device, fate.inode, fate.written (compacted surviving)⟩
  trace : world'.trace = world.trace ++ [⟨.compacted, world.files, world'.journal⟩]

/-- One step of a sweep. -/
inductive SweepStep (server : Server) : SweepPhase × World → SweepPhase × World → Prop
  | idle (phase : SweepPhase) {world : World} {script : List Turn} (h : script <:+ world.script) :
      SweepStep server (phase, world) (phase, { world with script := script })
  | removed {removed : List Bytes} {entry : JournalEntry} {rest : List JournalEntry}
      {world world' : World} {others : List Change} {answer : Except Failure Reply}
      (h : Served server (.remove entry.staged) world others answer world') :
      SweepStep server (.sweeping removed (entry :: rest), world)
        (.afterRemoval removed entry rest answer, world')
  | struck {removed : List Bytes} {entry : JournalEntry} {rest : List JournalEntry}
      {world world' : World} {fate : AppendFate}
      (h : Appended (publishedLine entry.target) world fate world') :
      SweepStep server (.gone removed entry rest, world) (.sweeping removed rest, world')
  | compacted {removed : List Bytes} {world world' : World} {fate : AppendFate}
      (h : Rewritten world fate world') :
      SweepStep server (.sweeping removed [], world) (.swept removed, world')

/-! ## Steps of the operations -/

section Operations

variable {connection}

/-- What killed the process happened in the phase it was in. -/
theorem sweepStep_kill (server : Server) (phase : SweepPhase) (world : World) :
    SweepStep server (phase, world) (phase, world.kill) :=
  .idle phase List.nil_suffix

/-- Removing a staging file, when nothing raised that it is missing, leaves an entry to be struck
off. -/
theorem follows_remove (removed : List Bytes) (entry : JournalEntry) (rest : List JournalEntry) :
    Follows (SweepStep connection.server) (.sweeping removed (entry :: rest))
      (remove connection entry.staged)
      (fun _ phase => phase = .gone (removed ++ [entry.staged]) entry rest)
      fun failure phase => failure.isNoSuchFile = true → phase = .gone removed entry rest := by
  have hrequest := @follows_request SweepPhase connection (.remove entry.staged)
    (SweepStep connection.server) (.sweeping removed (entry :: rest))
    (SweepPhase.afterRemoval removed entry rest) (fun _ _ _ _ => .removed)
    (sweepStep_kill connection.server _)
  refine .bind (hrequest.weaken (fun _ _ => id) fun failure phase hfailed hmissing => ?_)
    fun reply phase hphase => ?_
  · have hrefusal := failure.isServerError_of_isNoSuchFile hmissing
    rw [hfailed.1] at hrefusal
    cases hrefusal
  · subst hphase
    cases reply with
    | status code message =>
      by_cases hpasses : code = .ok ∨ code = .eof
      · dsimp only
        rw [raiseForStatus, if_pos hpasses]
        exact .pure (if_pos hpasses)
      · dsimp only
        rw [raiseForStatus, if_neg hpasses]
        refine .throw fun hmissing => ?_
        obtain rfl : code = .noSuchFile := by
          cases code with
          | noSuchFile => rfl
          | _ => cases hmissing
        rfl
    | handle _ => exact .throw fun hmissing => (by cases hmissing)
    | data _ => exact .throw fun hmissing => (by cases hmissing)
    | attrs _ => exact .throw fun hmissing => (by cases hmissing)
    | name _ => exact .throw fun hmissing => (by cases hmissing)
    | digests _ _ => exact .throw fun hmissing => (by cases hmissing)

/-- Removing a staging file that may be gone already leaves an entry to be struck off. -/
theorem follows_removeStaged (removed : List Bytes) (entry : JournalEntry)
    (rest : List JournalEntry) :
    Follows (SweepStep connection.server) (.sweeping removed (entry :: rest))
      (removeStaged connection entry.staged)
      (fun names phase => phase = .gone (removed ++ names) entry rest) fun _ _ => True := by
  unfold removeStaged
  refine .tryCatch (.bind (follows_remove removed entry rest) fun _ phase hphase => .pure hphase)
    fun failure phase hphase => ?_
  split_ifs with hmissing
  · refine .pure ?_
    rw [hphase hmissing, List.append_nil]
  · exact .throw trivial

/-- Sweeping up the entries that are left. -/
theorem follows_discardEntries (rest : List JournalEntry) (removed : List Bytes) :
    Follows (SweepStep connection.server) (.sweeping removed rest)
      (discardEntries connection rest)
      (fun names phase => phase = .sweeping (removed ++ names) []) fun _ _ => True := by
  induction rest generalizing removed with
  | nil => exact .pure (by rw [List.append_nil])
  | cons entry rest ih =>
    refine .bind (follows_removeStaged removed entry rest) fun names phase hphase => ?_
    subst hphase
    refine .bind (follows_appendRecord (fun _ _ _ => .struck) (sweepStep_kill connection.server _))
      fun _ phase hphase => ?_
    subst hphase
    refine .bind (ih (removed ++ names)) fun others phase hphase => .pure ?_
    rw [hphase, List.append_assoc]

/-- Compacting the journal ends a sweep. -/
theorem follows_compactJournal (removed : List Bytes) :
    Follows (SweepStep connection.server) (.sweeping removed []) compactJournal
      (fun _ phase => phase = .swept removed) fun _ _ => True := by
  refine .of fun world => ?_
  split
  · next fate script hscript =>
    have hidle : SweepStep connection.server (.sweeping removed [], world)
        (.sweeping removed [], { world with script := script }) :=
      .idle _ ⟨[_], hscript.symm⟩
    dsimp only
    cases hfold : fold world.journal with
    | error error => exact ⟨_, trivial, hidle⟩
    | ok surviving =>
      cases fate with
      | raises interruption => exact ⟨_, trivial, hidle⟩
      | replaces fate =>
        refine ⟨.swept removed, ?_, .compacted ⟨hscript, rfl, ⟨surviving, hfold, rfl⟩, rfl⟩⟩
        change Allows (fun _ phase => phase = SweepPhase.swept removed) (fun _ _ => True)
          fate.outcome _
        unfold AppendFate.outcome
        cases fate.raised with
        | none => rfl
        | some interruption => trivial
  · exact ⟨_, trivial, sweepStep_kill connection.server _ world⟩

/-- A sweep follows the protocol from everything its journal has in flight. -/
theorem steps_discardStaged {world : World} {entries : Entries}
    (hfold : fold world.journal = .ok entries) :
    ∃ phase, Allows (fun removed phase => phase = .swept removed) (fun _ _ => True)
        ((discardStaged connection).exec world).1 phase ∧
      ReflTransGen (SweepStep connection.server) (.sweeping [] entries.values, world)
        (phase, ((discardStaged connection).exec world).2) := by
  have hfollows : Follows (SweepStep connection.server) (.sweeping [] entries.values)
      (do
        let removed ← discardEntries connection entries.values
        compactJournal
        pure removed)
      (fun removed phase => phase = .swept removed) fun _ _ => True := by
    refine .bind (follows_discardEntries entries.values []) fun names phase hphase => ?_
    subst hphase
    exact .bind (follows_compactJournal names) fun _ phase hphase => .pure hphase
  have hentries : inFlight.exec world = (.ok entries, world) := by
    rw [inFlight, exec_bind, exec_get]
    dsimp only
    rw [hfold]
    rfl
  unfold discardStaged
  rw [exec_bind, hentries]
  exact hfollows world

end Operations

/-! ## The order of a sweep -/

/-- The REMOVE of a path was answered with one of these codes. -/
def RemovalAnswered (codes : List StatusCode) (path : Bytes) (moments : List Moment) : Prop :=
  ∃ moment ∈ moments, ∃ code ∈ codes, ∃ message,
    moment.event = .exchanged (.remove path) (.ok (.status code message))

/-- The server answered that a path was removed. -/
def WasRemoved : Bytes → List Moment → Prop := RemovalAnswered [.ok, .eof]

/-- The server answered that a path was removed, or that it was not there. -/
def WasCleared : Bytes → List Moment → Prop := RemovalAnswered [.ok, .eof, .noSuchFile]

/-- What was answered stays so. -/
theorem RemovalAnswered.append {codes : List StatusCode} {path : Bytes} {moments : List Moment}
    (h : RemovalAnswered codes path moments) (more : List Moment) :
    RemovalAnswered codes path (moments ++ more) := by
  obtain ⟨moment, hmem, hanswered⟩ := h
  exact ⟨moment, List.mem_append_left more hmem, hanswered⟩

/-- What was removed is gone. -/
theorem WasRemoved.cleared {path : Bytes} {moments : List Moment} (h : WasRemoved path moments) :
    WasCleared path moments := by
  obtain ⟨moment, hmem, code, hcode, hevent⟩ := h
  have hcodes : code ∈ [StatusCode.ok, .eof] ++ [.noSuchFile] := List.mem_append_left _ hcode
  exact ⟨moment, hmem, code, hcodes, hevent⟩

/-- What a sweep of these entries may do after what it did: ask for the staging file of an entry to
be removed, strike an entry off whose staging file is gone, and compact the journal when all are. -/
inductive SweepEvent (entries : List JournalEntry) (past : List Moment) : Event → Prop
  | others : SweepEvent entries past .others
  | removal {entry : JournalEntry} (hmem : entry ∈ entries) (answer : Except Failure Reply) :
      SweepEvent entries past (.exchanged (.remove entry.staged) answer)
  | strike {entry : JournalEntry} {record : Bytes} (hmem : entry ∈ entries)
      (hcleared : WasCleared entry.staged past) (hrecord : record <+: publishedLine entry.target) :
      SweepEvent entries past (.appended record)
  | compaction (hcleared : ∀ entry ∈ entries, WasCleared entry.staged past) :
      SweepEvent entries past .compacted

/-- Every moment is one that a sweep may come to after those before it. -/
def InSweepOrder (entries : List JournalEntry) (moments : List Moment) : Prop :=
  ∀ past moment, past ++ [moment] <+: moments → SweepEvent entries past moment.event

/-- One more moment that a sweep may come to. -/
theorem InSweepOrder.concat {entries : List JournalEntry} {moments : List Moment} {moment : Moment}
    (h : InSweepOrder entries moments) (hmoment : SweepEvent entries moments moment.event) :
    InSweepOrder entries (moments ++ [moment]) := by
  intro past last hprefix
  obtain heq | hearlier := List.prefix_concat_iff.mp hprefix
  · obtain ⟨rfl, hlast⟩ := List.append_inj' heq rfl
    obtain rfl := List.singleton_inj.mp hlast
    exact hmoment
  · exact h past last hearlier

namespace SweepPhase

/-- The staging files removed so far, as far as the sweep still knows. -/
def removed : SweepPhase → List Bytes
  | sweeping removed _ => removed
  | gone removed _ _ => removed
  | stopped _ _ => []
  | swept removed => removed

/-- The entries whose staging files are gone, when these were struck off. -/
def cleared (struck : List JournalEntry) : SweepPhase → List JournalEntry
  | gone _ entry _ => struck ++ [entry]
  | _ => struck

end SweepPhase

/-- What a sweep of these entries has done by the time it comes to a phase. -/
structure Sweeping (entries : List JournalEntry) (initial : World) (moments : List Moment)
    (state : SweepPhase × World) : Prop where
  trace : state.2.trace = initial.trace ++ moments
  ordered : InSweepOrder entries moments
  entries : ∃ struck, entries = struck ++ state.1.recorded ∧
    (∀ entry ∈ state.1.cleared struck, WasCleared entry.staged moments) ∧
    state.1.removed.Sublist ((state.1.cleared struck).map JournalEntry.staged)
  removed : ∀ path ∈ state.1.removed, WasRemoved path moments

/-- What the REMOVE of an entry's staging file comes to. -/
theorem afterRemoval_cases (removed : List Bytes) (entry : JournalEntry)
    (rest : List JournalEntry) (answer : Except Failure Reply) :
    (∃ code ∈ [StatusCode.ok, .eof], ∃ message, answer = .ok (.status code message) ∧
        SweepPhase.afterRemoval removed entry rest answer =
          .gone (removed ++ [entry.staged]) entry rest) ∨
      (∃ message, answer = .ok (.status .noSuchFile message) ∧
        SweepPhase.afterRemoval removed entry rest answer = .gone removed entry rest) ∨
      SweepPhase.afterRemoval removed entry rest answer = .stopped entry rest := by
  unfold SweepPhase.afterRemoval
  split
  · next code message =>
    split_ifs with hpasses hmissing
    · exact Or.inl ⟨code, by simpa using hpasses, message, rfl, rfl⟩
    · exact Or.inr (Or.inl ⟨message, by rw [hmissing], rfl⟩)
    · exact Or.inr (Or.inr rfl)
  · exact Or.inr (Or.inr rfl)

namespace Sweeping

variable {server : Server} {entries : List JournalEntry} {initial : World} {moments : List Moment}

/-- An entry whose record is still there is one of the sweep's. -/
theorem mem_of_recorded {state : SweepPhase × World} (h : Sweeping entries initial moments state)
    {entry : JournalEntry} (hmem : entry ∈ state.1.recorded) : entry ∈ entries := by
  obtain ⟨struck, hentries, -⟩ := h.entries
  rw [hentries]
  exact List.mem_append_right struck hmem

/-- A sweep that begins has done nothing. -/
theorem begin (entries : List JournalEntry) (initial : World) :
    Sweeping entries initial [] (.sweeping [] entries, initial) where
  trace := (List.append_nil _).symm
  ordered := fun past moment hprefix => by simp at hprefix
  entries := ⟨[], rfl, fun _ hmem => absurd hmem List.not_mem_nil, List.Sublist.slnil⟩
  removed := fun _ hmem => absurd hmem List.not_mem_nil

/-- A REMOVE that was answered, or not. -/
theorem served {removed : List Bytes} {entry : JournalEntry} {rest : List JournalEntry}
    {world world' : World} {others : List Change} {answer : Except Failure Reply}
    (h : Sweeping entries initial moments (.sweeping removed (entry :: rest), world))
    (hserved : Served server (.remove entry.staged) world others answer world') :
    Sweeping entries initial
      (moments ++ [⟨.others, world.files.changed others, world.journal⟩] ++
        [⟨.exchanged (.remove entry.staged) answer, world'.files, world.journal⟩])
      (.afterRemoval removed entry rest answer, world') := by
  have hmem : entry ∈ entries := h.mem_of_recorded List.mem_cons_self
  obtain ⟨htrace, hordered, ⟨struck, hentries, hcleared, hsublist⟩, hremoved⟩ := h
  have hlast : ∀ {codes : List StatusCode} {code : StatusCode} {message : Bytes}, code ∈ codes →
      answer = .ok (.status code message) → RemovalAnswered codes entry.staged
        (moments ++ [⟨.others, world.files.changed others, world.journal⟩] ++
          [⟨.exchanged (.remove entry.staged) answer, world'.files, world.journal⟩]) := by
    rintro codes code message hcode rfl
    exact ⟨_, List.mem_append_right _ List.mem_cons_self, code, hcode, message, rfl⟩
  have hmore : ∀ {codes : List StatusCode} {path : Bytes}, RemovalAnswered codes path moments →
      RemovalAnswered codes path
        (moments ++ [⟨.others, world.files.changed others, world.journal⟩] ++
          [⟨.exchanged (.remove entry.staged) answer, world'.files, world.journal⟩]) :=
    fun hearlier => (hearlier.append _).append _
  generalize hmoments : moments ++ [⟨.others, world.files.changed others, world.journal⟩] ++
    [⟨.exchanged (.remove entry.staged) answer, world'.files, world.journal⟩] = moments' at *
  have htrace' : world'.trace = initial.trace ++ moments' := by
    rw [hserved.trace, ← hmoments, htrace]
    simp
  have hordered' : InSweepOrder entries moments' := by
    rw [← hmoments]
    exact (hordered.concat .others).concat (.removal hmem answer)
  have hgone : WasCleared entry.staged moments' → ∀ other ∈ struck ++ [entry],
      WasCleared other.staged moments' := by
    intro hanswered other hother
    obtain hother | hother := List.mem_append.mp hother
    · exact hmore (hcleared other hother)
    · rwa [List.mem_singleton.mp hother]
  obtain ⟨code, hcode, message, hanswer, hphase⟩ | ⟨message, hanswer, hphase⟩ | hphase :=
    afterRemoval_cases removed entry rest answer
  · have hpath : WasRemoved entry.staged moments' := hlast hcode hanswer
    rw [hphase]
    refine ⟨htrace', hordered', ⟨struck, hentries, hgone hpath.cleared, ?_⟩, fun path hmem => ?_⟩
    · change (removed ++ [entry.staged]).Sublist ((struck ++ [entry]).map JournalEntry.staged)
      rw [List.map_append]
      exact hsublist.append (List.Sublist.refl [entry.staged])
    · obtain hmem | hmem := List.mem_append.mp hmem
      · exact hmore (hremoved path hmem)
      · rwa [List.mem_singleton.mp hmem]
  · rw [hphase]
    have hcodes : StatusCode.noSuchFile ∈ [StatusCode.ok, .eof, .noSuchFile] := by decide
    refine ⟨htrace', hordered', ⟨struck, hentries, hgone (hlast hcodes hanswer), ?_⟩,
      fun path hmem => hmore (hremoved path hmem)⟩
    change removed.Sublist ((struck ++ [entry]).map JournalEntry.staged)
    rw [List.map_append]
    exact hsublist.trans (List.sublist_append_left _ _)
  · rw [hphase]
    exact ⟨htrace', hordered', ⟨struck, hentries, fun other hother => hmore (hcleared other hother),
      List.nil_sublist _⟩, fun path hmem => absurd hmem List.not_mem_nil⟩

/-- What is written of a record is a part of it. -/
theorem written_part (fate : AppendFate) (record : Bytes) : fate.written record <+: record := by
  unfold AppendFate.written
  cases fate.kept with
  | none => exact List.prefix_rfl
  | some kept => exact List.take_prefix kept record

/-- One step of a sweep. -/
theorem step {before after : SweepPhase × World} (h : Sweeping entries initial moments before)
    (hstep : SweepStep server before after) :
    ∃ more, Sweeping entries initial (moments ++ more) after := by
  cases hstep with
  | idle phase hscript =>
    refine ⟨[], ?_⟩
    rw [List.append_nil]
    exact ⟨h.trace, h.ordered, h.entries, h.removed⟩
  | @removed removed entry rest world world' others answer hserved =>
    refine ⟨[⟨.others, world.files.changed others, world.journal⟩] ++
      [⟨.exchanged (.remove entry.staged) answer, world'.files, world.journal⟩], ?_⟩
    rw [← List.append_assoc]
    exact h.served hserved
  | @struck removed entry rest world world' fate happended =>
    have hmem : entry ∈ entries := h.mem_of_recorded List.mem_cons_self
    obtain ⟨htrace, hordered, ⟨struck, hentries, hcleared, hsublist⟩, hremoved⟩ := h
    have hgone := hcleared entry (List.mem_append_right struck List.mem_cons_self)
    refine ⟨[⟨.appended (fate.written (publishedLine entry.target)), world.files, world'.journal⟩],
      ?_, hordered.concat (.strike hmem hgone (written_part fate _)),
      ⟨struck ++ [entry], ?_, fun other hother => (hcleared other hother).append _, hsublist⟩,
      fun path hpath => (hremoved path hpath).append _⟩
    · rw [happended.trace, htrace, List.append_assoc]
    · rw [hentries, List.append_assoc]
      rfl
  | @compacted removed world world' fate hrewritten =>
    obtain ⟨htrace, hordered, ⟨struck, hentries, hcleared, hsublist⟩, hremoved⟩ := h
    have hall : entries = struck := hentries.trans (List.append_nil struck)
    refine ⟨[⟨.compacted, world.files, world'.journal⟩], ?_,
      hordered.concat (.compaction fun entry hmem => hcleared entry (hall ▸ hmem)),
      ⟨struck, hentries, fun other hother => (hcleared other hother).append _, hsublist⟩,
      fun path hpath => (hremoved path hpath).append _⟩
    rw [hrewritten.trace, htrace, List.append_assoc]

/-- The steps of a sweep. -/
theorem steps {state : SweepPhase × World}
    (h : ReflTransGen (SweepStep server) (.sweeping [] entries, initial) state) :
    ∃ moments, Sweeping entries initial moments state := by
  induction h with
  | refl => exact ⟨[], begin entries initial⟩
  | tail _ hstep ih =>
    obtain ⟨moments, hsweeping⟩ := ih
    obtain ⟨more, hafter⟩ := hsweeping.step hstep
    exact ⟨moments ++ more, hafter⟩

end Sweeping

/-- However a sweep ends, it did things in order; and when it returns, the staging file of every
entry is gone, and those returned were removed, in the order of the entries. -/
theorem discardStaged_inOrder (connection : Connection) {world : World} {entries : Entries}
    (hfold : fold world.journal = .ok entries) :
    ∃ moments, ((discardStaged connection).exec world).2.trace = world.trace ++ moments ∧
      InSweepOrder entries.values moments ∧
      ∀ removed, ((discardStaged connection).exec world).1 = .ok removed →
        (∀ entry ∈ entries.values, WasCleared entry.staged moments) ∧
        removed.Sublist (entries.values.map JournalEntry.staged) ∧
        ∀ path ∈ removed, WasRemoved path moments := by
  obtain ⟨phase, hallowed, hsteps⟩ := @steps_discardStaged connection world entries hfold
  obtain ⟨moments, hsweeping⟩ := Sweeping.steps hsteps
  refine ⟨moments, hsweeping.trace, hsweeping.ordered, fun removed hreturned => ?_⟩
  rw [hreturned] at hallowed
  obtain rfl : phase = .swept removed := hallowed
  obtain ⟨struck, hentries, hcleared, hsublist⟩ := hsweeping.entries
  have hall : entries.values = struck := hentries.trans (List.append_nil struck)
  rw [hall]
  exact ⟨hcleared, hsublist, hsweeping.removed⟩

/-! ## What a sweep leaves -/

/-- One step of a sweep leaves a file alone that no entry is staged in. -/
theorem SweepStep.frame {server : Server} {file : Bytes} {before after : SweepPhase × World}
    (h : SweepStep server before after) (halone : Undisturbed [file] before.2.script)
    (hfile : ∀ entry ∈ before.1.recorded, server.resolve entry.staged ≠ file) :
    after.2.files file = before.2.files file := by
  cases h with
  | idle phase hscript => rfl
  | removed hserved =>
    refine hserved.frame halone List.mem_cons_self fun hmem => ?_
    exact hfile _ List.mem_cons_self (List.mem_singleton.mp hmem).symm
  | struck happended => exact congrFun happended.files file
  | compacted hrewritten => exact congrFun hrewritten.files file

/-- One step of a sweep uses up turns of the script, and leaves only entries that were left. -/
theorem SweepStep.suffix {server : Server} {before after : SweepPhase × World}
    (h : SweepStep server before after) : after.2.script <:+ before.2.script ∧
      after.1.recorded <:+ before.1.recorded := by
  cases h with
  | idle phase hscript => exact ⟨hscript, List.suffix_rfl⟩
  | @removed removed entry rest world world' others answer hserved =>
    refine ⟨hserved.script_suffix, ?_⟩
    obtain ⟨_, -, _, -, hphase⟩ | ⟨_, -, hphase⟩ | hphase :=
      afterRemoval_cases removed entry rest answer <;>
    · dsimp only
      rw [hphase]
      exact List.suffix_rfl
  | struck happended => exact ⟨⟨[_], happended.script.symm⟩, ⟨[_], rfl⟩⟩
  | compacted hrewritten => exact ⟨⟨[_], hrewritten.script.symm⟩, List.suffix_rfl⟩

/-- A sweep leaves a file alone that no entry of its journal is staged in. -/
theorem discardStaged_frame (connection : Connection) {world : World} {entries : Entries}
    {file : Bytes} (hfold : fold world.journal = .ok entries)
    (halone : Undisturbed [file] world.script)
    (hfile : ∀ entry ∈ entries.values, connection.server.resolve entry.staged ≠ file) :
    ((discardStaged connection).exec world).2.files file = world.files file := by
  obtain ⟨phase, -, hsteps⟩ := @steps_discardStaged connection world entries hfold
  have hkept : ∀ state, ReflTransGen (SweepStep connection.server)
      (.sweeping [] entries.values, world) state → state.2.script <:+ world.script ∧
        state.1.recorded <:+ entries.values ∧ state.2.files file = world.files file := by
    intro state hsteps
    induction hsteps with
    | refl => exact ⟨List.suffix_rfl, List.suffix_rfl, rfl⟩
    | tail _ hstep ih =>
      obtain ⟨hscript, hrecorded, hfiles⟩ := ih
      refine ⟨hstep.suffix.1.trans hscript, hstep.suffix.2.trans hrecorded, ?_⟩
      rw [hstep.frame (halone.suffix hscript)
        fun entry hmem => hfile entry (hrecorded.subset hmem), hfiles]
  exact (hkept _ hsteps).2.2

/-- The bytes of a journal that may be missing. -/
def journalContent (journal : Option LogFile) : Bytes := journal.elim [] LogFile.content

/-- A journal that is missing folds as an empty one does. -/
theorem fold_journalContent (journal : Option LogFile) (device inode : ℤ) :
    fold journal = fold (some ⟨device, inode, journalContent journal⟩) := by
  cases journal with
  | none =>
    rw [fold_changes]
    rfl
  | some file => rw [fold_changes, fold_changes, journalContent, Option.elim_some]

/-- Striking a target off a journal of complete lines removes what is in flight for it. -/
theorem fold_struck {journal journal' : Option LogFile} {entries : Entries} {target : Bytes}
    (hlines : Terminated (journalContent journal)) (hfold : fold journal = .ok entries)
    (hcontent : journalContent journal' = journalContent journal ++ publishedLine target) :
    fold journal' = .ok (entries.pop (decodeName target)) ∧
      Terminated (journalContent journal') := by
  have hline : journalLog.line (.published target) = publishedLine target := rfl
  have hterminated : Terminated (publishedLine target) := by
    have hone := journalLog.terminated_lines [.published target]
    rwa [List.flatMap_singleton, hline] at hone
  obtain ⟨hchanges, hraised⟩ := journalLog.changes_lines [.published target] []
  rw [List.append_nil, List.flatMap_singleton, hline] at hchanges hraised
  refine ⟨?_, hcontent ▸ hlines.append hterminated⟩
  rw [fold_journalContent journal 0 0, fold_changes] at hfold
  rw [fold_journalContent journal' 0 0, fold_changes, hcontent]
  dsimp only at hfold ⊢
  rw [decodedLines_append hlines, LineReader.raised_append, LineReader.changes_append, hraised,
    hchanges]
  cases hquiet : journalLog.read.raised (decodedLines (journalContent journal)) with
  | some error =>
    rw [hquiet] at hfold
    cases hfold
  | none =>
    rw [hquiet] at hfold
    rw [if_pos rfl, Dict.updateAll_append, ← Except.ok.inj hfold]
    rfl

/-- The entries that are left when these were struck off. -/
def Entries.without (entries : Entries) (struck : List JournalEntry) : Entries :=
  struck.foldl (fun left entry => left.pop (decodeName entry.target)) entries

/-- Nothing is left when all the entries that records stated were struck off. -/
theorem Entries.Kept.without_values {entries : Entries} (h : entries.Kept) :
    entries.without entries.values = Dict.empty := by
  have hget : ∀ key, (entries.without entries.values).get key = none := by
    intro key
    have hpops : entries.without entries.values =
        (entries.values.map fun entry => decodeName entry.target).foldl Dict.pop entries := by
      rw [List.foldl_map]
      rfl
    rw [hpops, Dict.get_foldl_pop]
    split_ifs with hmem
    · rfl
    · by_contra hsome
      obtain ⟨entry, hentry⟩ := Option.ne_none_iff_exists'.mp hsome
      refine hmem (List.mem_map.mpr ⟨entry, Dict.mem_values_iff.mpr ⟨key, hentry⟩, ?_⟩)
      exact (h _ (mem_of_getEntry hentry)).1.symm
  refine Dict.ext (List.eq_nil_iff_forall_not_mem.mpr fun item hmem => ?_)
  have hitem := (getEntry_eq_some_iff (entries.without entries.values).nodup).mpr hmem
  exact Option.some_ne_none _ (hitem.symm.trans (hget item.1))

/-- A turn in which a record is written whole. -/
def Turn.WritesWhole : Turn → Prop
  | .append fate => fate.kept = none
  | _ => True

/-- A journal of complete lines from which these entries of a sweep were struck off. -/
structure Leaves (entries : Entries) (initial : World) (state : SweepPhase × World) : Prop where
  script : state.2.script <:+ initial.script
  journal : Terminated (journalContent state.2.journal) ∧
    ∃ struck, entries.values = struck ++ state.1.recorded ∧
      fold state.2.journal = .ok (entries.without struck)

/-- One step of a sweep whose records are written whole. -/
theorem Leaves.step {server : Server} {entries : Entries} {initial : World}
    {before after : SweepPhase × World} (h : Leaves entries initial before)
    (hkept : entries.Kept) (hwhole : ∀ turn ∈ initial.script, turn.WritesWhole)
    (hstep : SweepStep server before after) : Leaves entries initial after := by
  have hsuffix := hstep.suffix
  obtain ⟨hscript, hlines, struck, hentries, hfold⟩ := h
  refine ⟨hsuffix.1.trans hscript, ?_⟩
  cases hstep with
  | idle phase hidle => exact ⟨hlines, struck, hentries, hfold⟩
  | @removed removed entry rest world world' others answer hserved =>
    dsimp only at hlines hfold ⊢
    rw [hserved.journal]
    refine ⟨hlines, struck, ?_, hfold⟩
    obtain ⟨_, -, _, -, hphase⟩ | ⟨_, -, hphase⟩ | hphase :=
      afterRemoval_cases removed entry rest answer <;>
    · rw [hphase]
      exact hentries
  | @struck removed entry rest world world' fate happended =>
    obtain ⟨file, hfile, hcontent⟩ := happended.journal
    have hkeeps : fate.kept = none :=
      hwhole (.append fate) (hscript.subset (happended.script ▸ List.mem_cons_self))
    have hwritten : journalContent world'.journal =
        journalContent world.journal ++ publishedLine entry.target := by
      rw [hfile]
      change file.content = _
      rw [hcontent, AppendFate.written, hkeeps]
      rfl
    obtain ⟨hstruck, hterminated⟩ := fold_struck hlines hfold hwritten
    refine ⟨hterminated, struck ++ [entry], ?_, ?_⟩
    · rw [hentries, List.append_assoc]
      rfl
    · dsimp only
      rw [hstruck, Entries.without, Entries.without, List.foldl_append]
      rfl
  | @compacted removed world world' fate hrewritten =>
    obtain ⟨surviving, hsurviving, hjournal⟩ := hrewritten.journal
    have hall : entries.values = struck := hentries.trans (List.append_nil struck)
    obtain rfl : surviving = Dict.empty := by
      rw [← hkept.without_values, hall]
      exact Except.ok.inj (hsurviving.symm.trans hfold)
    have hempty : world'.journal = some ⟨fate.device, fate.inode, []⟩ := by
      rw [hjournal, AppendFate.written]
      cases fate.kept with
      | none => rfl
      | some kept => exact congrArg _ (congrArg _ List.take_nil)
    refine ⟨?_, struck, hentries, ?_⟩
    · dsimp only
      rw [hempty]
      exact Or.inl rfl
    · dsimp only
      rw [hempty, ← hall, hkept.without_values]
      exact fold_journalContent none _ _ |>.symm

/-- However a sweep of a journal of complete lines ends, when its records are written whole, it has
struck off the first of the entries, and leaves the others in flight; none when it returns. -/
theorem discardStaged_leaves (connection : Connection) {world : World} {entries : Entries}
    (hfold : fold world.journal = .ok entries) (hkept : entries.Kept)
    (hlines : Terminated (journalContent world.journal))
    (hwhole : ∀ turn ∈ world.script, turn.WritesWhole) :
    ∃ struck rest, entries.values = struck ++ rest ∧
      fold ((discardStaged connection).exec world).2.journal = .ok (entries.without struck) ∧
      ∀ removed, ((discardStaged connection).exec world).1 = .ok removed → rest = [] ∧
        fold ((discardStaged connection).exec world).2.journal = .ok Dict.empty := by
  obtain ⟨phase, hallowed, hsteps⟩ := @steps_discardStaged connection world entries hfold
  have hleaves : Leaves entries world (phase, ((discardStaged connection).exec world).2) := by
    generalize (phase, ((discardStaged connection).exec world).2) = state at hsteps
    induction hsteps with
    | refl => exact ⟨List.suffix_rfl, hlines, [], rfl, hfold⟩
    | tail _ hstep ih => exact ih.step hkept hwhole hstep
  obtain ⟨-, struck, hentries, hstruck⟩ := hleaves.journal
  refine ⟨struck, phase.recorded, hentries, hstruck, fun removed hreturned => ?_⟩
  rw [hreturned] at hallowed
  obtain rfl : phase = .swept removed := hallowed
  have hall : entries.values = struck := hentries.trans (List.append_nil struck)
  rw [hstruck, ← hall, hkept.without_values]
  exact ⟨rfl, rfl⟩

/-- A server with a staging file that a killed upload left, and the journal that names it. -/
def strandedUpload : World :=
  { World.starting (Function.update (fun _ => none) [115] (some [1])) none
      [.exchange [] (.answer false), .append ⟨0, 0, none, none⟩,
        .compact (.replaces ⟨0, 1, none, none⟩)] with
    journal := some ⟨0, 0, stagedLine (sampleEntry [97])⟩ }

example :
    let ended := (discardStaged (.plain 1)).exec strandedUpload
    ended.1 = .ok [[115]] ∧ ended.2.files [115] = none ∧
      ended.2.journal.map LogFile.content = some [] := by
  decide +kernel

end GantrySftp
