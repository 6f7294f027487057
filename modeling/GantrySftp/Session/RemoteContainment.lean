import GantrySftp.Session.Traversal

/-!
# Traversals stay in their tree

Every path that a traversal builds is one it was given with one listed name joined to it. As long
as the names are components, every request is about a path inside the tree, and so is every
path reported. A pattern checks the names that it matches; a walk checks none, and neither do
the operations that are made of one.
-/

namespace GantrySftp

open Library Program

/-- Every name a server lists is a component, but those of a directory itself and its parent. -/
def TreeServer.ListsComponents (server : TreeServer) : Prop :=
  ∀ sent directory listing, server.opendir sent directory = .ok listing →
    ∀ entry ∈ listing.entries, entry.filename ∈ dotNames ∨ IsComponent entry.filename

/-- A request about a path that may be reached, or for the default directory. -/
def TreeRequest.Within (reach : Bytes → Prop) (request : TreeRequest) : Prop :=
  request = .realpath here ∨ reach request.path

/-- A directory that may be reached, with everything passed over in it. -/
structure WalkEntry.Within (reach : Bytes → Prop) (visited : WalkEntry) : Prop where
  path : reach visited.path
  skipped : ∀ skipped ∈ visited.skipped, reach skipped.path

/-- A directory whose children have proper names. -/
structure WalkEntry.Proper (visited : WalkEntry) : Prop where
  directories : ∀ child ∈ visited.directories, IsComponent child.filename
  files : ∀ child ∈ visited.files, IsComponent child.filename

/-- Nothing was asked or reported of a path that may not be reached, and every match is inside
the tree of the base. -/
structure Visit.Confined {σ : Type} (reach : Bytes → Prop) (base : Bytes) (visit : Visit σ) :
    Prop where
  sent : ∀ request ∈ visit.sent, request.Within reach
  walked : ∀ visited ∈ visit.walked, visited.Within reach
  matched : ∀ found ∈ visit.matched, Inside base found.path

/-- Paths that may be reached with every component below them. -/
def Closed (reach : Bytes → Prop) : Prop :=
  ∀ path name, reach path → IsComponent name → reach (joinRemote path name)

/-- The paths inside a tree. -/
theorem closed_inside (root : Bytes) : Closed (Inside root) := fun _ _ => Inside.join

/-- Whatever may be reached, everything inside its tree may. -/
theorem Closed.inside {reach : Bytes → Prop} (h : Closed reach) {root path : Bytes}
    (hroot : reach root) (hpath : Inside root path) : reach path := by
  obtain ⟨names, hnames, rfl⟩ := hpath
  induction names generalizing root with
  | nil => exact hroot
  | cons name names ih =>
    exact ih (h root name hroot (hnames name List.mem_cons_self))
      fun other hmem => hnames other (List.mem_cons_of_mem _ hmem)

section Rules

variable {σ α β : Type} {reach : Bytes → Prop} {base : Bytes}

/-- A traversal that keeps to the paths it may reach, and what holds of the value it returns. -/
def Confines (reach : Bytes → Prop) (base : Bytes) (program : Traversal σ α)
    (after : α → Prop) : Prop :=
  Meets (Visit.Confined reach base) program (fun value visit => visit.Confined reach base ∧
    after value) fun _ => Visit.Confined reach base

/-- A traversal that returns at once. -/
theorem Confines.pure {value : α} {after : α → Prop} (h : after value) :
    Confines reach base (pure value : Traversal σ α) after :=
  Meets.pure fun _ hvisit => ⟨hvisit, h⟩

/-- A traversal that raises at once. -/
theorem Confines.throw {error : TraversalError} {after : α → Prop} :
    Confines reach base (throw error : Traversal σ α) after := Meets.throw fun _ => id

/-- Two traversals in sequence. -/
theorem Confines.bind {first : Traversal σ β} {next : β → Traversal σ α} {middle : β → Prop}
    {after : α → Prop} (hfirst : Confines reach base first middle)
    (hnext : ∀ value, middle value → Confines reach base (next value) after) :
    Confines reach base (first >>= next) after := by
  refine Meets.bind hfirst fun value => Meets.assume fun visit hvisit => ?_
  exact (hnext value hvisit.2).strengthen fun _ heq => heq ▸ hvisit.1

/-- A choice between traversals. -/
theorem Confines.ite {condition : Prop} [Decidable condition] {yes no : Traversal σ α}
    {after : α → Prop} (hyes : Confines reach base yes after)
    (hno : Confines reach base no after) :
    Confines reach base (if condition then yes else no) after :=
  Meets.ite (fun _ => hyes) fun _ => hno

/-- A traversal and the handler of what it raises. -/
theorem Confines.tryCatch {program : Traversal σ α} {handler : TraversalError → Traversal σ α}
    {after : α → Prop} (hprogram : Confines reach base program after)
    (hhandler : ∀ error, Confines reach base (handler error) after) :
    Confines reach base (tryCatch program handler) after :=
  Meets.tryCatch hprogram hhandler

/-- Two traversals in sequence, whatever the first returns. -/
theorem Confines.then {first : Traversal σ β} {next : β → Traversal σ α} {after : α → Prop}
    (hfirst : Confines reach base first fun _ => True)
    (hnext : ∀ value, Confines reach base (next value) after) :
    Confines reach base (first >>= next) after := hfirst.bind fun value _ => hnext value

/-- A loop over items. -/
theorem Confines.foldlM {items : List β} {each : α → β → Traversal σ α} {kept : α → Prop}
    (h : ∀ value, ∀ item ∈ items, kept value → Confines reach base (each value item) kept)
    {init : α} (hinit : kept init) : Confines reach base (items.foldlM each init) kept := by
  refine (Meets.foldlM (fun value item hmem => Meets.assume fun visit hvisit => ?_) init).strengthen
    fun _ hvisit => ⟨hvisit, hinit⟩
  exact (h value item hmem hvisit.2).strengthen fun _ heq => heq ▸ hvisit.1

/-- A loop that only acts. -/
theorem Confines.forM {items : List β} {each : β → Traversal σ PUnit}
    (h : ∀ item ∈ items, Confines reach base (each item) fun _ => True) :
    Confines reach base (items.forM each) fun _ => True :=
  (Meets.forM fun item hmem => (h item hmem).weaken (fun _ => id) (fun _ _ hvisit => hvisit.1)
    fun _ _ => id).weaken (fun _ => id) (fun _ _ hvisit => ⟨hvisit, trivial⟩) fun _ _ => id

/-- One request about a path that may be reached. -/
theorem confines_ask {request : TreeRequest} {answer : List TreeRequest → Except Failure α}
    (h : request.Within reach) :
    Confines reach base (ask request answer : Traversal σ _) fun outcome =>
      ∃ sent, outcome = answer sent := by
  refine Meets.of fun visit hvisit => ⟨⟨fun other hmem => ?_, hvisit.walked, hvisit.matched⟩, _, rfl⟩
  obtain hold | hnew := List.mem_append.mp hmem
  · exact hvisit.sent other hold
  · rw [List.mem_singleton.mp hnew]
    exact h

/-- Raising what was answered. -/
theorem confines_orRaise {outcome : Except Failure α} {after : α → Prop}
    (h : ∀ value, outcome = .ok value → after value) :
    Confines reach base (orRaise outcome : Traversal σ α) after := by
  cases outcome with
  | ok value => exact .pure (h value rfl)
  | error failure => exact .throw

/-- Raising what was answered, whatever that is. -/
theorem confines_orRaise_any {outcome : Except Failure α} :
    Confines reach base (orRaise outcome : Traversal σ α) fun _ => True :=
  confines_orRaise fun _ _ => trivial

end Rules

/-! ## Requests -/

section Requests

variable {σ : Type} {server : TreeServer} {reach : Bytes → Prop} {base : Bytes}

/-- Asking for the attributes of a path that may be reached. -/
theorem confines_attrsOrAbsent {path : Bytes} (h : reach path) :
    Confines reach base (attrsOrAbsent server path : Traversal σ _) fun _ => True := by
  refine (confines_ask (Or.inr h)).bind fun outcome _ => ?_
  cases outcome with
  | ok attrs => exact .pure trivial
  | error failure => exact .ite (.pure trivial) .throw

/-- Settling what an entry is, at a path that may be reached. -/
theorem confines_settleKind {path : Bytes} (h : reach path) (entry : DirEntry) :
    Confines reach base (settleKind server path entry : Traversal σ _) fun _ => True :=
  .ite ((confines_attrsOrAbsent h).then fun _ => .pure trivial) (.pure trivial)

/-- Settling what an entry is for a walk. -/
theorem confines_settleForWalk {path : Bytes} (h : reach path) (entry : DirEntry) :
    Confines reach base (settleForWalk server path entry : Traversal σ _) fun _ => True := by
  refine .tryCatch ((confines_settleKind h entry).bind fun kind _ => ?_) fun error => ?_
  · cases kind <;> exact .pure trivial
  · cases error with
    | failure failure => exact .ite (.pure trivial) .throw
    | _ => exact .throw

/-- Reading a directory that may be reached, when every entry that is read is dealt with. -/
theorem confines_scandir {β : Type} {directory : Bytes} {each : β → DirEntry → Traversal σ β}
    {init : β} (kept : β → Prop) (h : reach directory) (hinit : kept init)
    (heach : ∀ sent listing value, server.opendir sent directory = .ok listing →
      ∀ entry ∈ listing.entries, entry.filename ∉ dotNames → kept value →
        Confines reach base (each value entry) kept) :
    Confines reach base (scandir server directory each init) fun result => kept result.1 := by
  refine (confines_ask (Or.inr h)).bind fun outcome houtcome => ?_
  obtain ⟨sent, rfl⟩ := houtcome
  cases hlisting : server.opendir sent directory with
  | error failure => exact .pure hinit
  | ok listing =>
    refine Confines.bind (.foldlM (fun value entry hmem => ?_) hinit) fun _ => .pure
    obtain ⟨hentry, hdot⟩ := List.mem_filter.mp hmem
    exact heach sent listing value hlisting entry hentry (of_decide_eq_true hdot)

/-- Finding out where relative paths start asks for that only. -/
theorem confines_requireRooted (path : Bytes) (feature : String) :
    Confines reach base (requireRooted server path feature : Traversal σ _) fun _ => True := by
  refine .ite (.pure trivial) ?_
  refine Confines.then ?_ fun root => .ite (.pure trivial) .throw
  refine Meets.get fun visit hvisit => ?_
  cases visit.root with
  | some root => exact Meets.pure fun _ heq => heq ▸ ⟨hvisit, trivial⟩
  | none =>
    refine Meets.strengthen ?_ fun _ heq => heq ▸ hvisit
    refine (confines_ask (Or.inl rfl)).bind fun outcome _ => ?_
    refine confines_orRaise_any.then fun root => ?_
    refine Confines.then ?_ fun _ => .pure trivial
    exact Meets.of fun other hother => ⟨⟨hother.sent, hother.walked, hother.matched⟩, trivial⟩

end Requests

/-! ## Walking -/

section Walking

variable {σ : Type} {server : TreeServer} {reach inner : Bytes → Prop} {base : Bytes}

/-- What is known of a directory while its children are sorted. -/
structure WalkEntry.Sorting (inner : Bytes → Prop) (directory : Bytes) (visited : WalkEntry) :
    Prop where
  path : visited.path = directory
  within : visited.Within inner
  proper : visited.Proper

/-- Sorting a child with a proper name. -/
theorem WalkEntry.Sorting.sort {directory : Bytes} {visited : WalkEntry}
    (h : visited.Sorting inner directory) (hinner : Closed inner) {child : DirEntry}
    (hchild : IsComponent child.filename) (atLimit : Bool)
    (settled : Except SkipReason EntryKind) :
    (visited.sort atLimit child settled).Sorting inner directory := by
  have hnew : ∀ known : List DirEntry, (∀ other ∈ known, IsComponent other.filename) →
      ∀ other ∈ known ++ [child], IsComponent other.filename := by
    intro known hknown other hmem
    obtain hold | hlast := List.mem_append.mp hmem
    · exact hknown other hold
    · rw [List.mem_singleton.mp hlast]
      exact hchild
  have hskip : ∀ reason, (visited.skip child reason).Sorting inner directory := by
    refine fun reason => ⟨h.path, ⟨h.within.path, fun skipped hmem => ?_⟩, ⟨h.proper.1, h.proper.2⟩⟩
    obtain hold | hlast := List.mem_append.mp hmem
    · exact h.within.skipped skipped hold
    · rw [List.mem_singleton.mp hlast]
      exact hinner _ _ h.within.path hchild
  unfold WalkEntry.sort
  cases settled with
  | error reason => exact hskip reason
  | ok kind =>
    cases kind with
    | directory =>
      cases atLimit with
      | true => exact hskip .tooDeep
      | false => exact ⟨h.path, ⟨h.within.path, h.within.skipped⟩, ⟨hnew _ h.proper.1, h.proper.2⟩⟩
    | file => exact ⟨h.path, ⟨h.within.path, h.within.skipped⟩, ⟨h.proper.1, hnew _ h.proper.2⟩⟩
    | symlink => exact hskip _
    | other => exact hskip _
    | unknown => exact hskip _

/-- Listing one directory that may be reached, on a server that lists components. -/
theorem confines_walkOne (hserver : server.ListsComponents) (hinner : Closed inner)
    (hreach : ∀ path, inner path → reach path) {directory : Bytes} (h : inner directory) (relative : List Bytes) (maxDepth : Option ℕ) :
    Confines reach base (walkOne server directory relative maxDepth : Traversal σ _)
      (WalkEntry.Sorting inner directory) := by
  have hscan : Confines reach base
      (scandir server directory (walkChild server (atLimit maxDepth relative))
        (.unread directory relative) : Traversal σ _)
      fun result => WalkEntry.Sorting inner directory result.1 := by
    refine confines_scandir _ (hreach directory h) ?_ ?_
    · exact ⟨rfl, ⟨h, by simp [WalkEntry.unread]⟩, ⟨by simp [WalkEntry.unread],
        by simp [WalkEntry.unread]⟩⟩
    · intro sent listing visited hlisting entry hentry hdot hvisited
      have hname : IsComponent entry.filename :=
        (hserver sent directory listing hlisting entry hentry).resolve_left hdot
      have hpath : inner (joinRemote visited.path entry.filename) :=
        hinner _ _ hvisited.within.path hname
      exact (confines_settleForWalk (hreach _ hpath) entry).then fun settled =>
        .pure (hvisited.sort hinner hname _ settled)
  exact hscan.bind fun result hresult => confines_orRaise_any.then fun _ => .pure hresult

/-- Reporting a directory that may be reached. -/
theorem confines_report {visited : WalkEntry} (h : visited.Within inner)
    (hreach : ∀ path, inner path → reach path) :
    Confines reach base (report visited : Traversal σ _) fun _ => True := by
  refine Meets.of fun visit hvisit => ⟨⟨hvisit.sent, fun other hmem => ?_, hvisit.matched⟩, trivial⟩
  obtain hold | hlast := List.mem_append.mp hmem
  · exact hvisit.walked other hold
  · rw [List.mem_singleton.mp hlast]
    exact ⟨hreach _ h.path, fun skipped hskipped => hreach _ (h.skipped skipped hskipped)⟩

/-- The directories below one that may be reached may be reached. -/
theorem WalkEntry.Sorting.below {directory : Bytes} {visited : WalkEntry}
    (h : visited.Sorting inner directory) (hinner : Closed inner) :
    ∀ pending ∈ visited.below, inner pending.1 := by
  intro pending hmem
  obtain ⟨child, hchild, rfl⟩ := List.mem_map.mp hmem
  exact hinner _ _ h.within.path (h.proper.directories child hchild)

/-- Visiting pending directories that may be reached, when every directory that is visited is
dealt with. -/
theorem confines_walkPending {β : Type} (hserver : server.ListsComponents)
    (hinner : Closed inner) (hreach : ∀ path, inner path → reach path) {maxDepth : Option ℕ}
    {each : β → WalkEntry → Traversal σ β}
    {kept : β → Prop}
    (heach : ∀ value visited, kept value → visited.Within inner → visited.Proper →
      Confines reach base (each value visited) kept) (turns : ℕ) {init : β} (hinit : kept init)
    {pending : List (Bytes × List Bytes)} (hpending : ∀ one ∈ pending, inner one.1) :
    Confines reach base (walkPending server maxDepth each turns init pending) kept := by
  induction turns generalizing init pending with
  | zero =>
    cases pending with
    | nil => exact .pure hinit
    | cons first pending => exact .throw
  | succ turns ih =>
    cases pending with
    | nil => exact .pure hinit
    | cons first pending =>
      refine (confines_walkOne hserver hinner hreach (hpending first List.mem_cons_self) _ _).bind
        fun visited hvisited => ?_
      refine (confines_report hvisited.within hreach).bind fun _ _ => ?_
      refine (heach init visited hinit hvisited.within hvisited.proper).bind fun value hvalue => ?_
      refine ih hvalue fun one hmem => ?_
      obtain hbelow | hrest := List.mem_append.mp hmem
      · exact hvisited.below hinner one hbelow
      · exact hpending one (List.mem_cons_of_mem _ hrest)

/-- Walking a tree whose root may be reached. -/
theorem confines_walk {β : Type} (hserver : server.ListsComponents) (hinner : Closed inner)
    (hreach : ∀ path, inner path → reach path)
    {turns : ℕ} {maxDepth : Option ℕ} {each : β → WalkEntry → Traversal σ β} {kept : β → Prop}
    (heach : ∀ value visited, kept value → visited.Within inner → visited.Proper →
      Confines reach base (each value visited) kept) {init : β} (hinit : kept init) {root : Bytes}
    (hroot : inner root) : Confines reach base (walk server turns maxDepth each init root) kept :=
  (confines_requireRooted _ _).bind fun _ _ =>
    confines_walkPending hserver hinner hreach heach turns hinit (by simpa using hroot)

/-- Removing what a directory held. -/
theorem confines_removeVisited (hreach : Closed reach) {visited : WalkEntry}
    (hwithin : visited.Within reach) (hproper : visited.Proper) :
    Confines reach base (removeVisited server visited : Traversal σ _) fun _ => True := by
  have hremove : ∀ path, reach path → Confines reach base (removeFile server path : Traversal σ _)
      fun _ => True :=
    fun path h => (confines_ask (Or.inr h)).bind fun _ _ => confines_orRaise_any
  refine Confines.then (Confines.forM fun child hchild => ?_) fun _ => ?_
  · exact hremove _ (hreach _ _ hwithin.path (hproper.files child hchild))
  refine Confines.then (Confines.forM fun skipped hskipped => ?_) fun _ => ?_
  · exact hremove _ (hwithin.skipped skipped hskipped)
  exact (confines_ask (Or.inr hwithin.path)).bind fun _ _ => confines_orRaise_any

/-- Removing a tree whose root may be reached. -/
theorem confines_rmtree (hserver : server.ListsComponents) (hreach : Closed reach) (turns : ℕ)
    {root : Bytes} (hroot : reach root) :
    Confines reach base (rmtree server turns root : Traversal σ _) fun _ => True := by
  have hwalk : Confines reach base
      (walk server turns none (fun entries visited => pure (entries ++ [visited])) [] root :
        Traversal σ (List WalkEntry))
      fun entries => ∀ visited ∈ entries, visited.Within reach ∧ visited.Proper := by
    refine confines_walk hserver hreach (fun _ => id) (fun entries visited hentries hwithin hproper => ?_)
      (by simp) hroot
    refine .pure fun other hmem => ?_
    obtain hold | hlast := List.mem_append.mp hmem
    · exact hentries other hold
    · rw [List.mem_singleton.mp hlast]
      exact ⟨hwithin, hproper⟩
  refine hwalk.bind fun entries hentries => ?_
  refine Confines.then (Confines.forM fun visited hmem => ?_) fun _ => .pure trivial
  obtain ⟨hwithin, hproper⟩ := hentries visited (List.mem_reverse.mp hmem)
  exact confines_removeVisited hreach hwithin hproper

end Walking

/-! ## Matching -/

section Matching

variable {σ : Type} {server : TreeServer} {base : Bytes}

/-- The paths that a pattern with this base may ask about: those inside the tree of the base,
which for an empty base is that of the default directory. -/
def Near (base path : Bytes) : Prop := Inside base path ∨ Inside (orHere base) path

/-- What is near stays near with a component joined. -/
theorem closed_near (base : Bytes) : Closed (Near base) :=
  fun _ _ hpath hname => hpath.imp (fun h => h.join hname) fun h => h.join hname

/-- No path but an empty root is empty. -/
theorem Inside.eq_nil (h : Inside base []) : base = [] := by
  obtain ⟨names, -, hpath⟩ := h
  by_contra hne
  exact joinAll_ne_nil hne names hpath.symm

/-- The directory listed for a path inside the tree is near. -/
theorem near_orHere {directory : Bytes} (h : Inside base directory) :
    Near base (orHere directory) := by
  by_cases hnil : directory = []
  · subst hnil
    rw [h.eq_nil]
    exact Or.inr (Inside.root _)
  · refine Or.inl ?_
    rw [orHere, if_neg hnil]
    exact h

/-- The default directory's name is a period. -/
theorem here_eq : here = [Glob.dot] := by decide +kernel

/-- Below the default directory, paths are spelled from it. -/
theorem joinAll_here {names : List Bytes} (h : ∀ name ∈ names, IsComponent name)
    (hne : names ≠ []) : joinAll here names = here ++ [slash] ++ joinAll [] names := by
  induction names using List.reverseRecOn with
  | nil => exact absurd rfl hne
  | append_singleton names name ih =>
    rw [joinAll_concat, joinAll_concat]
    by_cases hnames : names = []
    · subst hnames
      simp [joinRemote, here_eq, Glob.dot, slash]
    · have hfront : ∀ other ∈ names, IsComponent other :=
        fun other hmem => h other (List.mem_append_left _ hmem)
      have hpath : joinAll [] names ≠ [] := by
        intro hnil
        have hsplit := splitComponents_joinAll [] (segments_of_components hfront)
        rw [hnil] at hsplit
        exact hnames hsplit.symm
      rw [ih hfront hnames, joinRemote_append _ hpath]

/-- Without the spelling of the default directory, a path below it is one of its names. -/
theorem stripDotPrefix_joinAll {names : List Bytes} (h : ∀ name ∈ names, IsComponent name) :
    stripDotPrefix (joinAll here names) = joinAll [] names := by
  by_cases hne : names = []
  · subst hne
    simp [stripDotPrefix]
  · rw [joinAll_here h hne]
    unfold stripDotPrefix
    have hlonger : here ++ [slash] ++ joinAll [] names ≠ here := by
      intro heq
      simpa [here] using congrArg List.length heq
    rw [if_neg hlonger, if_pos (List.isPrefixOf_iff_prefix.mpr (List.prefix_append _ _))]
    rw [here_eq]
    rfl

/-- What a walk reached for a pattern is inside the tree. -/
theorem inside_reached {directory path : Bytes} (h : Inside base directory)
    (hpath : Inside (orHere directory) path) :
    Inside base (if directory = [] then stripDotPrefix path else path) := by
  by_cases hnil : directory = []
  · rw [if_pos hnil]
    subst hnil
    obtain ⟨names, hnames, rfl⟩ := hpath
    rw [h.eq_nil]
    exact ⟨names, hnames, stripDotPrefix_joinAll hnames⟩
  · rw [if_neg hnil]
    rw [orHere, if_neg hnil] at hpath
    exact h.trans hpath

/-- Yielding a match inside the tree. -/
theorem confines_yield {path : Bytes} (h : Inside base path) (entry : DirEntry) :
    Confines (Near base) base (yield_ path entry : Traversal σ _) fun _ => True := by
  refine Meets.of fun visit hvisit => ⟨⟨hvisit.sent, hvisit.walked, fun found hmem => ?_⟩, trivial⟩
  obtain hold | hlast := List.mem_append.mp hmem
  · exact hvisit.matched found hold
  · rw [List.mem_singleton.mp hlast]
    exact h

/-- Asking whether an entry inside the tree is a directory. -/
theorem confines_isDirectory {path : Bytes} (h : Inside base path) (entry : DirEntry) :
    Confines (Near base) base (isDirectory server path entry : Traversal σ _) fun _ => True := by
  refine (confines_settleKind (Or.inl h) entry).then fun settled => ?_
  split
  · exact .throw
  · exact .pure trivial

variable {turns : ℕ} {maxDepth : Option ℕ} {caseSensitive directoriesOnly : Bool}

/-- Dealing with an entry whose name matches. -/
theorem confines_matchEntry {deeper : Option (Bytes → Traversal σ Unit)}
    (hdeeper : ∀ descend ∈ deeper, ∀ path, Inside base path →
      Confines (Near base) base (descend path) fun _ => True)
    {path : Bytes} (h : Inside base path) (entry : DirEntry) :
    Confines (Near base) base (matchEntry server directoriesOnly deeper path entry)
      fun _ => True := by
  unfold matchEntry
  cases deeper with
  | some descend =>
    exact (confines_isDirectory h entry).then fun _ => .ite (hdeeper descend rfl path h) (.pure trivial)
  | none =>
    exact .ite ((confines_isDirectory h entry).then fun _ =>
      .ite (confines_yield h entry) (.pure trivial)) (confines_yield h entry)

/-- Matching a directory's entries, whose names are checked. -/
theorem confines_matchLevel {head : Bytes} {deeper : Option (Bytes → Traversal σ Unit)}
    (hdeeper : ∀ descend ∈ deeper, ∀ path, Inside base path →
      Confines (Near base) base (descend path) fun _ => True)
    {directory : Bytes} (h : Inside base directory) :
    Confines (Near base) base
      (matchLevel server caseSensitive directoriesOnly head deeper directory) fun _ => True := by
  have hscan : Confines (Near base) base (scandir server (orHere directory)
      (fun (_ : Unit) entry =>
        matchListed server caseSensitive directoriesOnly head deeper directory entry) ())
      fun _ => True := by
    refine confines_scandir (fun _ => True) (near_orHere h) trivial fun sent listing _ _ entry _ _ _ => ?_
    unfold matchListed checkListedName
    cases hreason : remoteComponentReason entry.filename with
    | some reason => exact .throw
    | none =>
      have hmatches : Confines (Near base) base
          (matches_ caseSensitive head entry.filename : Traversal σ _) fun _ => True := by
        unfold matches_
        cases matchComponent caseSensitive head entry.filename with
        | ok matched => exact .pure trivial
        | error error => exact .throw
      exact hmatches.then fun _ =>
        .ite (confines_matchEntry hdeeper (h.join hreason) entry) (.pure trivial)
  refine hscan.then fun result => ?_
  obtain ⟨_, ending⟩ := result
  cases ending with
  | ok _ => exact .pure trivial
  | error failure => exact .ite (.pure trivial) .throw

/-- Matching components below a directory inside the tree. -/
theorem confines_matchIn {components : List Bytes}
    (hserver : recursive ∈ components → server.ListsComponents) {directory : Bytes}
    (h : Inside base directory) :
    Confines (Near base) base
      (matchIn server turns maxDepth caseSensitive directoriesOnly components directory :
        Traversal σ _) fun _ => True := by
  induction components generalizing directory with
  | nil => exact .pure trivial
  | cons head rest ih =>
    have hrest : ∀ path, Inside base path → Confines (Near base) base
        (matchIn server turns maxDepth caseSensitive directoriesOnly rest path : Traversal σ _)
        fun _ => True :=
      fun path hpath => ih (fun hmem => hserver (List.mem_cons_of_mem _ hmem)) hpath
    unfold matchIn
    by_cases hhead : head = recursive
    · rw [if_pos hhead]
      have hnear : ∀ path, Inside (orHere directory) path → Near base path :=
        fun path hpath => (closed_near base).inside (near_orHere h) hpath
      refine confines_walk (hserver (hhead ▸ List.mem_cons_self)) (closed_inside _) hnear
        (fun _ visited _ hvisited _ => ?_) trivial (Inside.root _)
      have hreached := inside_reached h hvisited.path
      cases rest with
      | nil => exact confines_matchLevel (by simp) hreached
      | cons next rest => exact hrest _ hreached
    · rw [if_neg hhead]
      cases rest with
      | nil => exact confines_matchLevel (by simp) h
      | cons next rest =>
        refine confines_matchLevel (fun descend hmem => ?_) h
        obtain rfl := Option.some.inj hmem
        exact hrest

/-- Matching a pattern. -/
theorem confines_glob {pattern base : Bytes} {components : List Bytes} {directories : Bool}
    (hsplit : splitPattern pattern caseSensitive = (base, components, directories))
    (hserver : recursive ∈ components → server.ListsComponents) :
    Confines (Near base) base
      (glob server turns maxDepth caseSensitive pattern : Traversal σ _) fun _ => True := by
  unfold glob
  cases validatePattern pattern with
  | error error => exact .throw
  | ok _ =>
    refine (confines_requireRooted _ _).then fun _ => ?_
    rw [hsplit]
    cases components with
    | cons head rest => exact confines_matchIn hserver (Inside.root _)
    | nil =>
      refine (confines_attrsOrAbsent (Or.inl (Inside.root _))).then fun attrs => ?_
      cases attrs with
      | none => exact .pure trivial
      | some attrs => exact .ite (.pure trivial) (confines_yield (Inside.root _) _)

end Matching

/-! ## Every traversal -/

/-- A traversal that keeps to the paths it may reach, run from the start. -/
theorem Confines.exec {σ α : Type} {reach : Bytes → Prop} {base : Bytes}
    {program : Traversal σ α} (h : Confines reach base program fun _ => True)
    (defaultRoot : Option Bytes) (held : σ) :
    (program.exec (.fresh defaultRoot held)).2.Confined reach base := by
  have hended := h (.fresh defaultRoot held) ⟨by simp [Visit.fresh], by simp [Visit.fresh],
    by simp [Visit.fresh]⟩
  generalize program.exec (.fresh defaultRoot held) = ended at hended ⊢
  obtain ⟨outcome, visit⟩ := ended
  cases outcome with
  | ok value => exact hended.1
  | error error => exact hended

/-- On a server that lists components, walking and removing a tree, and matching a pattern, keep
to the tree of their root or of the pattern's base. A pattern that does not cross directory
levels keeps to it on every server. -/
theorem traversals_confined {σ : Type} (server : TreeServer) (turns : ℕ) (maxDepth : Option ℕ)
    (caseSensitive : Bool) (defaultRoot : Option Bytes) (held : σ) (root pattern : Bytes) :
    let start := Visit.fresh defaultRoot held
    let split := splitPattern pattern caseSensitive
    (server.ListsComponents →
      ((walk server turns maxDepth (fun _ _ => pure ()) () root).exec start).2.Confined
          (Inside root) root ∧
        ((rmtree server turns root).exec start).2.Confined (Inside root) root) ∧
      ((recursive ∈ split.2.1 → server.ListsComponents) →
        ((glob server turns maxDepth caseSensitive pattern).exec start).2.Confined
          (Near split.1) split.1) := by
  refine ⟨fun hserver => ⟨?_, ?_⟩, fun hserver => ?_⟩
  · exact (confines_walk hserver (closed_inside root) (fun _ => id)
      (fun _ _ _ _ _ => .pure trivial) trivial (Inside.root root)).exec _ _
  · exact (confines_rmtree hserver (closed_inside root) turns (Inside.root root)).exec _ _
  · exact (confines_glob rfl hserver).exec _ _

/-- A server whose every directory lists one regular file, and that refuses nothing. -/
def TreeServer.listing (filename : Bytes) : TreeServer where
  realpath := fun _ _ => .ok [slash]
  opendir := fun _ _ => .ok
    { entries := [{ filename := filename, attrs := { permissions := some 0o100644 } }]
      ending := .ok () }
  lstat := fun _ _ => .ok emptyAttrs
  remove := fun _ _ => .ok ()
  rmdir := fun _ _ => .ok ()

/-- Removing a tree on a server that lists one file under a proper name. -/
theorem traversals_confined_listing :
    ((rmtree (.listing "a".toUTF8.toList) 3 "/t".toUTF8.toList).exec
      (.fresh none ())).2.Confined (Inside "/t".toUTF8.toList) "/t".toUTF8.toList := by
  refine ((traversals_confined (.listing "a".toUTF8.toList) 3 none true none ()
    "/t".toUTF8.toList "/t/*".toUTF8.toList).1 fun sent directory listing hlisting entry hentry =>
      Or.inr ?_).2
  obtain rfl := Except.ok.inj hlisting
  obtain rfl := List.mem_singleton.mp hentry
  decide +kernel

/-- A server that lists a file as `../victim` has a file outside the tree removed. -/
theorem rmtree_not_confined :
    ¬ ∀ (server : TreeServer) (turns : ℕ) (root : Bytes),
      ((rmtree server turns root).exec (.fresh none ())).2.Confined (Inside root) root := by
  intro h
  have hsent := (h (.listing "../victim".toUTF8.toList) 3 "/t".toUTF8.toList).sent
    (.remove "/t/../victim".toUTF8.toList) (by decide +kernel)
  obtain hroot | hinside := hsent
  · cases hroot
  obtain ⟨names, hnames, hsplit⟩ := hinside.components
  have hpath : splitComponents "/t/../victim".toUTF8.toList =
      splitComponents "/t".toUTF8.toList ++ ["..".toUTF8.toList, "victim".toUTF8.toList] := by
    decide +kernel
  rw [TreeRequest.path, hpath] at hsplit
  have hparent := hnames "..".toUTF8.toList (List.append_cancel_left hsplit ▸ List.mem_cons_self)
  exact absurd hparent (by decide +kernel)

end GantrySftp
