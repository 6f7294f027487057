import GantrySftp.Library.Protocol
import GantrySftp.Session.Steps

/-!
# Exchanges

One request and what became of it: which files it may have changed, what its answer says about
whether it was performed, and what it leaves of the state. A STATUS of OK says that it was, any
other STATUS that it was not, and everything else says nothing.
-/

namespace GantrySftp

open Library Program Relation

/-! ## What a request may change -/

/-- The files that performing a request may change. -/
def Request.touches (server : Server) : Request → List Bytes
  | .open_ path _ _ | .remove path => [server.resolve path]
  | .rename oldpath newpath | .posixRename oldpath newpath =>
    [server.resolve oldpath, server.resolve newpath]
  | _ => []

/-- Performing a request leaves every other file alone. -/
theorem Server.perform_frame {server : Server} {files files' : Files} {req : Request}
    {reply : Reply} {file : Bytes} (hfile : file ∉ req.touches server)
    (h : server.perform files req = .ok (files', reply)) : files' file = files file := by
  cases req with
  | stat path | lstat path =>
    unfold perform at h
    dsimp only at h
    cases hfound : files (server.resolve path) with
    | none =>
      rw [hfound] at h
      cases h
    | some content =>
      rw [hfound] at h
      rw [← (Prod.mk.inj (Except.ok.inj h)).1]
  | open_ path pflags attrs =>
    have hne : file ≠ server.resolve path := fun heq => hfile (heq ▸ List.mem_singleton_self _)
    unfold perform at h
    dsimp only at h
    split at h
    · split_ifs at h
      rw [← (Prod.mk.inj (Except.ok.inj h)).1, Files.put_of_ne hne]
    · split_ifs at h
      · rw [← (Prod.mk.inj (Except.ok.inj h)).1, Files.put_of_ne hne]
      · rw [← (Prod.mk.inj (Except.ok.inj h)).1]
  | remove path =>
    have hne : file ≠ server.resolve path := fun heq => hfile (heq ▸ List.mem_singleton_self _)
    unfold perform at h
    dsimp only at h
    split at h
    · cases h
    · rw [← (Prod.mk.inj (Except.ok.inj h)).1, Files.put_of_ne hne]
  | rename oldpath newpath | posixRename oldpath newpath =>
    have hold : file ≠ server.resolve oldpath := fun heq => hfile (heq ▸ List.mem_cons_self)
    have hnew : file ≠ server.resolve newpath := fun heq =>
      hfile (heq ▸ List.mem_cons_of_mem _ List.mem_cons_self)
    unfold perform at h
    dsimp only at h
    split at h
    · cases h
    · rw [← (Prod.mk.inj (Except.ok.inj h)).1, Files.move_of_ne hold hnew]
  | checkFile handle algorithms startOffset length blockSize =>
    unfold perform at h
    dsimp only at h
    split at h
    · cases h
    · rw [← (Prod.mk.inj (Except.ok.inj h)).1]
  | close _ | fsync _ | fsetstat _ _ | realpath _ =>
    rw [← (Prod.mk.inj (Except.ok.inj h)).1]

/-- A request that cannot be performed is refused with another code than OK. -/
theorem Server.perform_error {server : Server} {files : Files} {req : Request} {code : StatusCode}
    (h : server.perform files req = .error code) : code ≠ .ok := by
  rintro rfl
  unfold perform at h
  cases req <;> dsimp only at h <;> repeat' split at h
  all_goals cases h

/-- A file after a request, performed or not, that does not touch it. -/
theorem Server.after_frame {server : Server} {files : Files} {req : Request} {file : Bytes}
    (hfile : file ∉ req.touches server) : server.after files req file = files file := by
  unfold after
  cases hperform : server.perform files req with
  | ok done => exact perform_frame hfile hperform
  | error code => rfl

/-! ## What an answer says -/

/-- An answer that says nothing about whether its request was performed. -/
def Unclear : Except Failure Reply → Prop
  | .error failure => failure.isServerError = false
  | .ok (.data _) => True
  | _ => False

/-- A reply as a server gives it, possibly with the attributes left out. -/
def Reply.given (reply : Reply) (terse : Bool) : Reply :=
  if terse then reply.withoutAttrs else reply

/-- A STATUS is given as it is. -/
theorem Reply.eq_of_given_status {reply : Reply} {terse : Bool} {code : StatusCode}
    {message : Bytes} (h : reply.given terse = .status code message) :
    reply = .status code message := by
  cases terse
  · exact h
  · cases reply with
    | attrs attrs => cases h
    | status _ _ => exact h
    | handle _ => exact h
    | data _ => exact h
    | name _ => exact h
    | digests _ _ => exact h

/-- A handle is given as it is. -/
theorem Reply.eq_of_given_handle {reply : Reply} {terse : Bool} {handle : Handle}
    (h : reply.given terse = .handle handle) : reply = .handle handle := by
  cases terse
  · exact h
  · cases reply with
    | attrs attrs => cases h
    | status _ _ => exact h
    | handle _ => exact h
    | data _ => exact h
    | name _ => exact h
    | digests _ _ => exact h

/-- A request that is performed is not answered with another STATUS than OK. -/
theorem Server.perform_status {server : Server} {files files' : Files} {req : Request}
    {code : StatusCode} {message : Bytes}
    (h : server.perform files req = .ok (files', .status code message)) : code = .ok := by
  unfold perform at h
  cases req <;> dsimp only at h <;> repeat' split at h
  all_goals cases h
  all_goals rfl

/-- A request was performed and answered, refused, or answered unclearly. -/
theorem Server.serve_cases (server : Server) (files : Files) (req : Request) (fate : Fate) :
    (∃ reply terse, server.perform files req = .ok ((server.serve files req fate).1, reply) ∧
      (server.serve files req fate).2 = .ok (reply.given terse)) ∨
    (∃ code message, code ≠ .ok ∧ (server.serve files req fate).1 = files ∧
      (server.serve files req fate).2 = .ok (.status code message)) ∨
    Unclear (server.serve files req fate).2 ∧ ((server.serve files req fate).1 = files ∨
      (server.serve files req fate).1 = server.after files req) := by
  have hfiles := server.serve_files files req fate
  cases fate with
  | answer terse =>
    unfold serve
    cases hperform : server.perform files req with
    | ok done => exact Or.inl ⟨done.2, terse, rfl, rfl⟩
    | error code => exact Or.inr (Or.inl ⟨code, [], perform_error hperform, rfl, rfl⟩)
  | refuse refusal =>
    exact Or.inr (Or.inl ⟨refusal.code, refusal.message, refusal.refused, rfl, rfl⟩)
  | garble performed => exact Or.inr (Or.inr ⟨trivial, hfiles⟩)
  | lose performed interruption =>
    refine Or.inr (Or.inr ⟨?_, hfiles⟩)
    cases interruption <;> rfl

/-! ## One exchange -/

/-- A request was served after others changed files: it took a turn, was performed or not as its
answer says, and left the rest of the state alone. -/
structure Served (server : Server) (req : Request) (world : World) (others : List Change)
    (answer : Except Failure Reply) (world' : World) : Prop where
  script : ∃ fate, world.script = .exchange others fate :: world'.script
  localFile : world'.localFile = world.localFile
  journal : world'.journal = world.journal
  trace : world'.trace = world.trace ++
    [⟨.others, world.files.changed others, world.journal⟩,
      ⟨.exchanged req answer, world'.files, world.journal⟩]
  outcome :
    (∃ reply terse, server.perform (world.files.changed others) req =
      .ok (world'.files, reply) ∧ answer = .ok (reply.given terse)) ∨
    (∃ code message, code ≠ .ok ∧ world'.files = world.files.changed others ∧
      answer = .ok (.status code message)) ∨
    Unclear answer ∧ (world'.files = world.files.changed others ∨
      world'.files = server.after (world.files.changed others) req)

/-- A request is served, or the process was killed. -/
theorem exec_request (connection : Connection) (req : Request) (world : World) :
    (∃ others, Served connection.server req world others
      ((request connection req).exec world).1 ((request connection req).exec world).2) ∨
    (request connection req).exec world = (.error .killed, world.kill) := by
  unfold request
  rw [exec_of]
  split
  · next others fate script hscript =>
    refine Or.inl ⟨others, ⟨fate, hscript⟩, rfl, rfl, List.append_assoc _ _ _, ?_⟩
    exact connection.server.serve_cases (world.files.changed others) req fate
  · exact Or.inr rfl

namespace Served

variable {server : Server} {req : Request} {world world' : World} {others : List Change}
  {answer : Except Failure Reply}

/-- A request that was not answered raised no refusal. -/
theorem unanswered (h : Served server req world others answer world') {failure : Failure}
    (hanswer : answer = .error failure) : failure.isServerError = false := by
  obtain ⟨reply, terse, -, hgiven⟩ | ⟨_, _, -, -, hrefused⟩ | ⟨hunclear, -⟩ := h.outcome
  · rw [hgiven] at hanswer
    cases hanswer
  · rw [hrefused] at hanswer
    cases hanswer
  · rw [hanswer] at hunclear
    exact hunclear

/-- What is left of the script. -/
theorem script_suffix (h : Served server req world others answer world') :
    world'.script <:+ world.script := by
  obtain ⟨fate, hscript⟩ := h.script
  exact ⟨[.exchange others fate], hscript.symm⟩

/-- The files afterwards are those before it, or those after performing it. -/
theorem files (h : Served server req world others answer world') :
    world'.files = world.files.changed others ∨
      world'.files = server.after (world.files.changed others) req := by
  obtain ⟨reply, terse, hperform, -⟩ | ⟨code, message, -, hfiles, -⟩ | ⟨-, hfiles⟩ := h.outcome
  · refine Or.inr ?_
    unfold Server.after
    rw [hperform]
  · exact Or.inl hfiles
  · exact hfiles

/-- What a request that was performed says in a STATUS is OK. -/
theorem performed (h : Served server req world others answer world') {message : Bytes}
    (hanswer : answer = .ok (.status .ok message)) :
    server.perform (world.files.changed others) req =
      .ok (world'.files, .status .ok message) := by
  obtain ⟨reply, terse, hperform, hgiven⟩ | ⟨code, found, hcode, -, hrefused⟩ | ⟨hunclear, -⟩ :=
    h.outcome
  · rw [hgiven] at hanswer
    rw [hperform, Reply.eq_of_given_status (Except.ok.inj hanswer)]
  · rw [hrefused] at hanswer
    cases hanswer
    exact absurd rfl hcode
  · rw [hanswer] at hunclear
    exact hunclear.elim

/-- A request answered with another STATUS than OK was not performed. -/
theorem refused (h : Served server req world others answer world') {code : StatusCode}
    {message : Bytes} (hanswer : answer = .ok (.status code message)) (hcode : code ≠ .ok) :
    world'.files = world.files.changed others := by
  obtain ⟨reply, terse, hperform, hgiven⟩ | ⟨_, _, -, hfiles, -⟩ | ⟨hunclear, -⟩ := h.outcome
  · rw [hgiven] at hanswer
    rw [Reply.eq_of_given_status (Except.ok.inj hanswer)] at hperform
    exact absurd (Server.perform_status hperform) hcode
  · exact hfiles
  · rw [hanswer] at hunclear
    exact hunclear.elim

/-- A file was opened when a handle was given. -/
theorem opened (h : Served server req world others answer world') {handle : Handle}
    (hanswer : answer = .ok (.handle handle)) :
    server.perform (world.files.changed others) req = .ok (world'.files, .handle handle) := by
  obtain ⟨reply, terse, hperform, hgiven⟩ | ⟨_, _, -, -, hrefused⟩ | ⟨hunclear, -⟩ := h.outcome
  · rw [hgiven] at hanswer
    rw [hperform, Reply.eq_of_given_handle (Except.ok.inj hanswer)]
  · rw [hrefused] at hanswer
    cases hanswer
  · rw [hanswer] at hunclear
    exact hunclear.elim

end Served

/-! ## Others -/

/-- A turn in which other parties leave these files alone. -/
def Turn.Spares (names : List Bytes) : Turn → Prop
  | .exchange others _ => ∀ change ∈ others, change.file ∉ names
  | _ => True

instance (names : List Bytes) : DecidablePred (Turn.Spares names)
  | .exchange others _ => inferInstanceAs (Decidable (∀ change ∈ others, change.file ∉ names))
  | .system _ | .append _ | .compact _ | .download _ _ | .reread _ _ | .upload _ _ =>
    isTrue trivial

/-- Other parties leave these files alone for the whole script. -/
def Undisturbed (names : List Bytes) (script : List Turn) : Prop :=
  ∀ turn ∈ script, turn.Spares names

instance (names : List Bytes) (script : List Turn) : Decidable (Undisturbed names script) :=
  inferInstanceAs (Decidable (∀ turn ∈ script, turn.Spares names))

/-- What is left of a script is as undisturbed as the whole. -/
theorem Undisturbed.suffix {names : List Bytes} {script rest : List Turn}
    (h : Undisturbed names script) (hrest : rest <:+ script) : Undisturbed names rest :=
  fun turn hmem => h turn (hrest.subset hmem)

/-- A file that changes spare stays as it is. -/
theorem Files.changed_of_spared {changes : List Change} {file : Bytes} (files : Files)
    (h : ∀ change ∈ changes, change.file ≠ file) : files.changed changes file = files file := by
  induction changes generalizing files with
  | nil => rfl
  | cons change rest ih =>
    change (files.put change.file change.content).changed rest file = _
    rw [ih _ fun other hmem => h other (List.mem_cons_of_mem _ hmem),
      put_of_ne (Ne.symm (h change List.mem_cons_self))]

namespace Served

variable {server : Server} {req : Request} {world world' : World} {others : List Change}
  {answer : Except Failure Reply} {names : List Bytes} {file : Bytes}

/-- Before an undisturbed request was served the file was as it had been. -/
theorem changed (h : Served server req world others answer world')
    (hscript : Undisturbed names world.script) (hfile : file ∈ names) :
    world.files.changed others file = world.files file := by
  obtain ⟨fate, hturn⟩ := h.script
  have hspares : ∀ change ∈ others, change.file ∉ names :=
    hscript (.exchange others fate) (hturn ▸ List.mem_cons_self)
  exact Files.changed_of_spared _ fun change hmem heq => hspares change hmem (heq ▸ hfile)

/-- An undisturbed request leaves a file alone that it does not touch. -/
theorem frame (h : Served server req world others answer world')
    (hscript : Undisturbed names world.script) (hfile : file ∈ names)
    (htouches : file ∉ req.touches server) : world'.files file = world.files file := by
  rw [← h.changed hscript hfile]
  obtain hfiles | hfiles := h.files
  · rw [hfiles]
  · rw [hfiles, Server.after_frame htouches]

end Served

/-! ## Within a phase -/

/-- What a session does between the requests that matter: it sends one that only reads, uses up
a part of the script, or learns something. -/
inductive Idle (connection : Connection) (world : World) : World → Prop
  | served {req : Request} {others : List Change} {answer : Except Failure Reply}
      {world' : World} (hreads : req.reads = true)
      (hserved : Served connection.server req world others answer world') :
      Idle connection world world'
  | own {script : List Turn} (unsupported : List Extension) (folded : Folded)
      (root : Option Bytes) (hscript : script <:+ world.script) :
      Idle connection world
        { world with
          script := script
          unsupported := unsupported
          folded := folded
          root := root }

/-- A killed process does nothing. -/
theorem idle_kill (connection : Connection) (world : World) :
    Idle connection world world.kill :=
  .own world.unsupported world.folded world.root List.nil_suffix

/-- Taking a turn off the script does nothing. -/
theorem idle_turn (connection : Connection) {world : World} {turn : Turn} {script : List Turn}
    (h : world.script = turn :: script) :
    Idle connection world { world with script := script } :=
  .own world.unsupported world.folded world.root ⟨[turn], h.symm⟩

/-- A session that only reads does nothing that matters. -/
theorem readingSteps_idle (connection : Connection) :
    ReadingSteps connection (Idle connection) where
  request := by
    intro req hreads world
    obtain ⟨others, hserved⟩ | hkilled := exec_request connection req world
    · exact .single (.served hreads hserved)
    · rw [hkilled]
      exact .single (idle_kill connection world)
  system := by
    refine .of fun world => ?_
    split
    · next raised script hscript => exact idle_turn connection hscript
    · exact idle_kill connection world
  learn := fun extension => .modify fun world =>
    .own (extension :: world.unsupported) world.folded world.root List.suffix_rfl
  reread := by
    intro start length
    refine .of fun world => ?_
    split
    · next replies ending script hscript => exact idle_turn connection hscript
    · exact idle_kill connection world

/-! ## What a STATUS is taken for -/

/-- What a client takes an answer for: EOF passes like OK. -/
inductive Verdict
  | passed | refused | unclear
  deriving DecidableEq

/-- What an answer that should be a STATUS is taken for. -/
def verdict : Except Failure Reply → Verdict
  | .ok (.status code _) => if code = .ok ∨ code = .eof then .passed else .refused
  | _ => .unclear

/-- The phases after a request whose failure was raised: the process was killed before it, or
the failure tells what the answer was taken for. -/
def Raised {π : Type} (before : π) (next : Verdict → π) (failure : Failure) (phase : π) : Prop :=
  if failure.isServerError then phase = next .refused
  else phase = next .unclear ∨ failure = .killed ∧ phase = before

section Following

variable {π : Type} {connection : Connection} {req : Request}
  {step : π × World → π × World → Prop} {before : π}

/-- A request takes one step of a protocol. -/
theorem follows_request {next : Except Failure Reply → π}
    (hserved : ∀ world others answer world',
      Served connection.server req world others answer world' →
        step (before, world) (next answer, world'))
    (hkilled : ∀ world : World, step (before, world) (before, world.kill)) :
    Follows step before (request connection req) (fun reply phase => phase = next (.ok reply))
      fun failure phase => failure.isServerError = false ∧
        (phase = next (.error failure) ∨ failure = .killed ∧ phase = before) := by
  intro world
  obtain ⟨others, h⟩ | h := exec_request connection req world
  · have hstep := hserved world others _ _ h
    generalize (request connection req).exec world = outcome at h hstep ⊢
    obtain ⟨failure | reply, world'⟩ := outcome
    · exact ⟨_, ⟨h.unanswered rfl, Or.inl rfl⟩, .single hstep⟩
    · exact ⟨_, rfl, .single hstep⟩
  · rw [h]
    exact ⟨before, ⟨rfl, Or.inr ⟨rfl, rfl⟩⟩, .single (hkilled world)⟩

variable {next : Verdict → π}

/-- Checking a STATUS raises what it is taken for. -/
theorem follows_raiseForStatus (code : StatusCode) (message : Bytes) (path : Option Bytes) :
    Follows step (next (verdict (.ok (.status code message))))
      (orThrow (raiseForStatus code message path) : Session Unit)
      (fun _ phase => phase = next .passed) (Raised before next) := by
  by_cases hpasses : code = .ok ∨ code = .eof
  · have hverdict : verdict (.ok (.status code message)) = .passed := if_pos hpasses
    rw [raiseForStatus, if_pos hpasses, hverdict]
    exact .pure rfl
  · have hverdict : verdict (.ok (.status code message)) = .refused := if_neg hpasses
    rw [raiseForStatus, if_neg hpasses, hverdict]
    exact .throw rfl

/-- An operation answered with a STATUS takes one step of a protocol. -/
theorem follows_expectStatus
    (hserved : ∀ world others answer world',
      Served connection.server req world others answer world' →
        step (before, world) (next (verdict answer), world'))
    (hkilled : ∀ world : World, step (before, world) (before, world.kill))
    (path : Option Bytes) :
    Follows step before (expectStatus connection req path)
      (fun _ phase => phase = next .passed) (Raised before next) := by
  have hrequest : Follows step before (request connection req)
      (fun reply phase => phase = next (verdict (.ok reply))) (Raised before next) := by
    have hsteps := @follows_request π connection req step before
      (fun answer => next (verdict answer)) hserved hkilled
    refine hsteps.weaken (fun _ _ => id) fun failure phase hfailed => ?_
    unfold Raised
    rw [hfailed.1]
    exact hfailed.2
  refine .bind hrequest fun reply phase hphase => ?_
  subst hphase
  cases reply with
  | status code message => exact follows_raiseForStatus code message path
  | handle _ => exact .throw (Or.inl rfl)
  | data _ => exact .throw (Or.inl rfl)
  | attrs _ => exact .throw (Or.inl rfl)
  | name _ => exact .throw (Or.inl rfl)
  | digests _ _ => exact .throw (Or.inl rfl)

end Following

end GantrySftp
