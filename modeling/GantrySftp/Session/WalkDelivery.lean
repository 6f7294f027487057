import GantrySftp.Library.Focus
import GantrySftp.Session.Traversal

/-!
# What a walk hands out

A walk finds the same directories whatever is done with them, as long as what is done neither
asks the server nor looks at the requests. Doing something at each directory of a walk is then
doing it for each directory that the walk alone would report, and ends as the walk does.
-/

namespace GantrySftp

open Library Program

section Held

variable {σ α β : Type}

/-- The traversal that works on what its caller keeps. -/
def onHeld (program : Program σ TraversalError α) : Traversal σ α :=
  program.focus Visit.held fun held visit => { visit with held := held }

/-- What holds of what the caller keeps. -/
theorem meets_onHeld {program : Program σ TraversalError α} {before : σ → Prop}
    {after : α → σ → Prop} {failed : TraversalError → σ → Prop}
    (h : Meets before program after failed) :
    Meets (fun visit => before visit.held) (onHeld program)
      (fun value visit => after value visit.held)
      fun error visit => failed error visit.held := by
  intro visit hvisit
  have hends := h visit.held hvisit
  rw [onHeld, exec_focus]
  generalize program.exec visit.held = outcome at hends ⊢
  obtain ⟨_ | _, _⟩ := outcome
  · exact hends
  · exact hends

/-- What holds of what the caller keeps, with what was reported so far. -/
theorem meets_onHeld_walked {program : Program σ TraversalError α}
    (before : List WalkEntry → σ → Prop) (after : List WalkEntry → α → σ → Prop)
    {failed : TraversalError → σ → Prop}
    (h : ∀ walked, Meets (before walked) program (after walked) failed) :
    Meets (fun visit => before visit.walked visit.held) (onHeld program)
      (fun value visit => after visit.walked value visit.held)
      fun error visit => failed error visit.held := by
  intro visit hvisit
  have hends := h visit.walked visit.held hvisit
  rw [onHeld, exec_focus]
  generalize program.exec visit.held = outcome at hends ⊢
  obtain ⟨_ | _, _⟩ := outcome
  · exact hends
  · exact hends

/-- A visit with something else reported, whose caller keeps something else. -/
def Visit.keeping (walked : List WalkEntry) (held : σ) (visit : Visit σ) : Visit σ :=
  { visit with walked := walked, held := held }

variable (server : TreeServer) (walked : List WalkEntry) (held : σ)

/-- A request looks neither at what was reported nor at what the caller keeps. -/
theorem ignores_ask (request : TreeRequest) (answer : List TreeRequest → Except Failure α) :
    Ignores (Visit.keeping walked held) (ask request answer : Traversal σ _) := fun _ => rfl

/-- Neither does raising what was answered. -/
theorem ignores_orRaise (outcome : Except Failure α) :
    Ignores (Visit.keeping walked held) (orRaise outcome : Traversal σ α) := by
  cases outcome with
  | ok value => exact .pure value
  | error failure => exact .throw _

/-- Neither does asking for attributes. -/
theorem ignores_attrsOrAbsent (path : Bytes) :
    Ignores (Visit.keeping walked held) (attrsOrAbsent server path : Traversal σ _) := by
  refine (ignores_ask walked held _ _).bind fun outcome => ?_
  cases outcome with
  | ok attrs => exact .pure _
  | error failure =>
    change Ignores _ (if failure.isNoSuchFile then pure none else raise failure)
    split
    · exact .pure _
    · exact .throw _

/-- Neither does settling what an entry is. -/
theorem ignores_settleForWalk (path : Bytes) (entry : DirEntry) :
    Ignores (Visit.keeping walked held) (settleForWalk server path entry : Traversal σ _) := by
  refine Ignores.tryCatch (Ignores.bind ?_ fun settled => ?_) fun error => ?_
  · unfold settleKind
    split
    · exact (ignores_attrsOrAbsent server walked held path).bind fun _ => .pure _
    · exact .pure _
  · cases settled with
    | none => exact .pure _
    | some kind => exact .pure _
  · cases error with
    | failure failure =>
      change Ignores _ (if failure.isServerError then pure _ else throw _)
      split
      · exact .pure _
      · exact .throw _
    | _ => exact .throw _

/-- Neither does a loop that does not. -/
theorem ignores_foldlM {items : List β} {each : α → β → Traversal σ α}
    (h : ∀ value item, Ignores (Visit.keeping walked held) (each value item)) (init : α) :
    Ignores (Visit.keeping walked held) (items.foldlM each init) := by
  induction items generalizing init with
  | nil => exact .pure init
  | cons item items ih =>
    rw [List.foldlM_cons]
    exact (h init item).bind ih

/-- Neither does listing a directory. -/
theorem ignores_walkOne (directory : Bytes) (relative : List Bytes) (maxDepth : Option ℕ) :
    Ignores (Visit.keeping walked held)
      (walkOne server directory relative maxDepth : Traversal σ _) := by
  refine Ignores.bind ?_ fun result => (ignores_orRaise walked held result.2).bind fun _ => .pure _
  refine (ignores_ask walked held _ _).bind fun outcome => ?_
  cases outcome with
  | error failure => exact .pure _
  | ok listing =>
    refine (ignores_foldlM walked held (fun visited child => ?_) _).bind fun _ => .pure _
    exact (ignores_settleForWalk server walked held _ child).bind fun _ => .pure _

/-- Neither does asking for the default directory. -/
theorem ignores_defaultRoot :
    Ignores (Visit.keeping walked held) (defaultRoot server : Traversal σ Bytes) := by
  refine Ignores.get (fun _ => rfl) fun visit => ?_
  cases visit.root with
  | some root => exact .pure root
  | none =>
    have hkeep : ∀ root, Ignores (Visit.keeping walked held)
        (modify fun visit => { visit with root := some root } : Traversal σ PUnit) :=
      fun _ => Ignores.modify fun _ => rfl
    refine (ignores_ask walked held _ _).bind fun outcome =>
      (ignores_orRaise walked held outcome).bind ?_
    exact fun root => (hkeep root).bind fun _ => .pure root

/-- Neither does refusing relative paths. -/
theorem ignores_requireRooted (path : Bytes) (feature : String) :
    Ignores (Visit.keeping walked held) (requireRooted server path feature : Traversal σ _) := by
  unfold requireRooted
  split
  · exact .pure _
  · refine (ignores_defaultRoot server walked held).bind fun root => ?_
    change Ignores _ (if root.head? = some slash then pure () else raise _)
    split
    · exact .pure _
    · exact .throw _

end Held

section Delivery

variable {σ : Type} (server : TreeServer) (turns : ℕ) (maxDepth : Option ℕ)
  (each : WalkEntry → Program σ TraversalError Unit)

/-- A walk that only reports what it finds. -/
def bareWalk (root : Bytes) : Traversal σ Unit :=
  walk server turns maxDepth (fun (_ : Unit) _ => pure ()) () root

/-- A walk that does something at each directory. -/
def walkHolding (root : Bytes) : Traversal σ Unit :=
  walk server turns maxDepth (fun (_ : Unit) visited => onHeld (each visited)) () root

/-- Something done for each of some directories, and an ending. -/
def deliver (entries : List WalkEntry) (ending : Except TraversalError Unit) :
    Program σ TraversalError Unit := do
  entries.forM each
  match ending with
  | .ok () => pure ()
  | .error error => throw error

/-- A visit that came about by doing something for each of some directories. -/
structure Delivered (visit : Visit σ) (entries : List WalkEntry)
    (bare run : Except TraversalError Unit × Visit σ) : Prop where
  walked : bare.2.walked = visit.walked ++ entries
  outcome : (run.1, run.2.held) = (deliver each entries bare.1).exec visit.held
  reported : ∃ front, front <+: entries ∧ run.2.walked = visit.walked ++ front
  whole : ((entries.forM each).exec visit.held).1 = .ok () → run.2.walked = bare.2.walked

variable {server turns maxDepth each}

/-- Nothing was delivered yet. -/
theorem Delivered.none {visit : Visit σ} {ending : Except TraversalError Unit}
    {bare run : Visit σ} (hbare : bare.walked = visit.walked) (hrun : run.walked = visit.walked)
    (hheld : run.held = visit.held) :
    Delivered each visit [] (ending, bare) (ending, run) where
  walked := hbare.trans (List.append_nil _).symm
  outcome := by
    rw [hheld]
    cases ending with
    | ok _ => rfl
    | error _ => rfl
  reported := ⟨[], List.prefix_rfl, hrun.trans (List.append_nil _).symm⟩
  whole := fun _ => hrun.trans hbare.symm

/-- A walk that ended reported everything that was delivered. -/
theorem Delivered.returned {visit : Visit σ} {entries : List WalkEntry}
    {bare run : Except TraversalError Unit × Visit σ} (h : Delivered each visit entries bare run)
    (hok : run.1 = .ok ()) : run.2.walked = visit.walked ++ entries := by
  have hdelivered : (deliver each entries bare.1).exec visit.held = (.ok (), run.2.held) := by
    rw [← h.outcome, hok]
  obtain ⟨_, _, heach, -⟩ := exec_bind_ok.mp hdelivered
  rw [h.whole (congrArg Prod.fst heach), h.walked]

/-- The next directory of a walk is listed, reported, and then what is to be done at it. -/
theorem exec_walkPending_cons {β : Type} (each : β → WalkEntry → Traversal σ β) (result : β)
    (directory : Bytes) (relative : List Bytes) (pending : List (Bytes × List Bytes))
    (visit : Visit σ) :
    (walkPending server maxDepth each (turns + 1) result ((directory, relative) :: pending)).exec
        visit =
      match (walkOne server directory relative maxDepth).exec visit with
      | (.error error, visit') => (.error error, visit')
      | (.ok visited, visit') =>
        (each result visited >>= fun result =>
          walkPending server maxDepth each turns result (visited.below ++ pending)).exec
          { visit' with walked := visit'.walked ++ [visited] } := by
  rw [walkPending, exec_bind]
  generalize (walkOne server directory relative maxDepth).exec visit = outcome
  obtain ⟨_ | _, _⟩ := outcome
  · rfl
  · rfl

/-- Listing a directory leaves what was reported and what the caller keeps. -/
theorem kept_walkOne (server : TreeServer) (directory : Bytes) (relative : List Bytes)
    (maxDepth : Option ℕ) (visit : Visit σ) :
    ((walkOne server directory relative maxDepth).exec visit).2.walked = visit.walked ∧
      ((walkOne server directory relative maxDepth).exec visit).2.held = visit.held := by
  have h := ignores_walkOne server visit.walked visit.held directory relative maxDepth visit
  have hsame : ((walkOne server directory relative maxDepth).exec visit).2 = _ :=
    congrArg Prod.snd h
  exact ⟨(congrArg Visit.walked hsame :), (congrArg Visit.held hsame :)⟩

/-- Delivering a directory and then others. -/
theorem exec_deliver_cons (visited : WalkEntry) (entries : List WalkEntry)
    (ending : Except TraversalError Unit) (held : σ) :
    (deliver each (visited :: entries) ending).exec held =
      match (each visited).exec held with
      | (.ok _, held') => (deliver each entries ending).exec held'
      | (.error error, held') => (.error error, held') := by
  unfold deliver
  rw [exec_bind, exec_forM_cons]
  generalize (each visited).exec held = outcome
  obtain ⟨_ | _, held'⟩ := outcome
  · rfl
  · exact (exec_bind _ _ _).symm

/-- A directory whose delivery fails is the last that is reported. -/
theorem Delivered.failed {visit visit' : Visit σ} {visited : WalkEntry}
    {entries : List WalkEntry} {bare run : Except TraversalError Unit × Visit σ}
    {error : TraversalError} {held' : σ} (h : Delivered each visit' entries bare run)
    (hwalked : visit'.walked = visit.walked ++ [visited])
    (heach : (each visited).exec visit.held = (.error error, held')) :
    Delivered each visit (visited :: entries) bare
      (.error error, { visit' with held := held' }) where
  walked := by
    rw [h.walked, hwalked]
    simp
  outcome := by rw [exec_deliver_cons, heach]
  reported := ⟨[visited], by simp, hwalked⟩
  whole := by
    rw [exec_forM_cons, heach]
    exact fun hok => by cases hok

/-- A directory that is delivered, and what is delivered after it. -/
theorem Delivered.cons {visit visit' : Visit σ} {visited : WalkEntry}
    {entries : List WalkEntry} {bare run : Except TraversalError Unit × Visit σ}
    (h : Delivered each visit' entries bare run)
    (hwalked : visit'.walked = visit.walked ++ [visited])
    (heach : (each visited).exec visit.held = (.ok (), visit'.held)) :
    Delivered each visit (visited :: entries) bare run where
  walked := by
    rw [h.walked, hwalked]
    simp
  outcome := by
    rw [exec_deliver_cons, heach]
    exact h.outcome
  reported := by
    obtain ⟨front, hfront, hrun⟩ := h.reported
    refine ⟨visited :: front, List.cons_prefix_cons.mpr ⟨rfl, hfront⟩, ?_⟩
    rw [hrun, hwalked]
    simp
  whole := by
    rw [exec_forM_cons, heach]
    exact h.whole

/-- A walk of pending directories delivers those that it reports. -/
theorem delivered_walkPending (pending : List (Bytes × List Bytes)) (visit : Visit σ) (held : σ) :
    ∃ entries, Delivered each visit entries
      ((walkPending server maxDepth (fun (_ : Unit) _ => pure ()) turns () pending).exec
        (visit.keeping visit.walked held))
      ((walkPending server maxDepth (fun (_ : Unit) visited => onHeld (each visited)) turns ()
        pending).exec visit) := by
  induction turns generalizing pending visit with
  | zero =>
    cases pending with
    | nil => exact ⟨[], .none rfl rfl rfl⟩
    | cons first pending => exact ⟨[], .none rfl rfl rfl⟩
  | succ turns ih =>
    cases pending with
    | nil => exact ⟨[], .none rfl rfl rfl⟩
    | cons first pending =>
      obtain ⟨directory, relative⟩ := first
      have hone := ignores_walkOne server visit.walked held directory relative maxDepth visit
      obtain ⟨hwalked, hheld⟩ := kept_walkOne server directory relative maxDepth visit
      rw [exec_walkPending_cons, exec_walkPending_cons, hone]
      generalize (walkOne server directory relative maxDepth).exec visit = outcome
        at hwalked hheld ⊢
      obtain ⟨error | visited, visit'⟩ := outcome
      · exact ⟨[], .none rfl hwalked hheld⟩
      · simp only at hwalked hheld
        cases heach : (each visited).exec visit.held with
        | mk result held' =>
          have hrun : (onHeld (each visited)).exec
              { visit' with walked := visit'.walked ++ [visited] } =
                (result, { visit' with walked := visit.walked ++ [visited], held := held' }) := by
            rw [onHeld, exec_focus, hheld, heach, hwalked]
          cases result with
          | error error =>
            obtain ⟨entries, h⟩ := ih (visited.below ++ pending)
              { visit' with walked := visit.walked ++ [visited] }
            refine ⟨visited :: entries, ?_⟩
            simp only [exec_bind, hrun, exec_pure]
            exact h.failed rfl heach
          | ok _ =>
            obtain ⟨entries, h⟩ := ih (visited.below ++ pending)
              { visit' with walked := visit.walked ++ [visited], held := held' }
            refine ⟨visited :: entries, ?_⟩
            simp only [exec_bind, hrun, exec_pure]
            exact h.cons rfl heach

/-- A walk delivers the directories that it alone would report. -/
theorem delivered_walk (root : Bytes) (visit : Visit σ) (held : σ) :
    ∃ entries, Delivered each visit entries
      ((bareWalk server turns maxDepth root).exec (visit.keeping visit.walked held))
      ((walkHolding server turns maxDepth each root).exec visit) := by
  have hsame := ignores_requireRooted server visit.walked held root "walking a tree" visit
  unfold bareWalk walkHolding walk
  rw [exec_bind, exec_bind, hsame]
  have hkept := ignores_requireRooted server visit.walked visit.held root "walking a tree" visit
  have hkept' : ((requireRooted server root "walking a tree").exec visit).2 = _ :=
    congrArg Prod.snd hkept
  have hwalked : _ = visit.walked := (congrArg Visit.walked hkept' :)
  have hheld : _ = visit.held := (congrArg Visit.held hkept' :)
  generalize (requireRooted server root "walking a tree").exec visit = outcome
    at hwalked hheld ⊢
  obtain ⟨error | _, visit'⟩ := outcome
  · exact ⟨[], .none rfl hwalked hheld⟩
  · simp only at hwalked hheld ⊢
    obtain ⟨entries, h⟩ : ∃ entries, Delivered each visit' entries
        ((walkPending server maxDepth (fun (_ : Unit) _ => pure ()) turns () [(root, [])]).exec
          (visit'.keeping visit'.walked held))
        ((walkPending server maxDepth (fun (_ : Unit) visited => onHeld (each visited)) turns ()
          [(root, [])]).exec visit') := delivered_walkPending [(root, [])] visit' held
    rw [hwalked] at h
    exact ⟨entries, hwalked ▸ h.walked, hheld ▸ h.outcome, hwalked ▸ h.reported, hheld ▸ h.whole⟩

end Delivery

/-! ## The order of a walk -/

/-- The directories that were visited of some pending ones and of those below them, in order, and
the ones still pending; every visited one is as listing it leaves it. -/
inductive Walks (listed : Bytes → List Bytes → WalkEntry → Prop) :
    List (Bytes × List Bytes) → List WalkEntry → List (Bytes × List Bytes) → Prop
  | stop (pending : List (Bytes × List Bytes)) : Walks listed pending [] pending
  | visit {directory : Bytes} {relative : List Bytes} {visited : WalkEntry}
      {pending rest : List (Bytes × List Bytes)} {entries : List WalkEntry}
      (hlisted : listed directory relative visited)
      (hlater : Walks listed (visited.below ++ pending) entries rest) :
      Walks listed ((directory, relative) :: pending) (visited :: entries) rest

section Order

variable {σ : Type} {server : TreeServer} {turns : ℕ} {maxDepth : Option ℕ}
  {listed : Bytes → List Bytes → WalkEntry → Prop}

/-- A walk that only reports visits pending directories in order, and all of them if it ends. -/
theorem walks_walkPending
    (hone : ∀ directory relative (visit visit' : Visit σ) visited,
      (walkOne server directory relative maxDepth).exec visit = (.ok visited, visit') →
        listed directory relative visited)
    (pending : List (Bytes × List Bytes)) (visit : Visit σ) :
    ∃ entries rest, Walks listed pending entries rest ∧
      ((walkPending server maxDepth (fun (_ : Unit) _ => pure ()) turns () pending).exec
        visit).2.walked = visit.walked ++ entries ∧
      (((walkPending server maxDepth (fun (_ : Unit) _ => pure ()) turns () pending).exec
        visit).1 = .ok () → rest = []) := by
  induction turns generalizing pending visit with
  | zero =>
    cases pending with
    | nil => exact ⟨[], [], .stop [], (List.append_nil _).symm, fun _ => rfl⟩
    | cons first pending =>
      exact ⟨[], first :: pending, .stop _, (List.append_nil _).symm, fun h => by cases h⟩
  | succ turns ih =>
    cases pending with
    | nil => exact ⟨[], [], .stop [], (List.append_nil _).symm, fun _ => rfl⟩
    | cons first pending =>
      obtain ⟨directory, relative⟩ := first
      obtain ⟨hwalked, -⟩ := kept_walkOne server directory relative maxDepth visit
      have hlisted := hone directory relative visit
      rw [exec_walkPending_cons]
      generalize (walkOne server directory relative maxDepth).exec visit = outcome
        at hwalked hlisted ⊢
      obtain ⟨error | visited, visit'⟩ := outcome
      · exact ⟨[], _, .stop _, hwalked.trans (List.append_nil _).symm, fun h => by cases h⟩
      · obtain ⟨entries, rest, hwalks, hreported, hrest⟩ := ih (visited.below ++ pending)
          { visit' with walked := visit'.walked ++ [visited] }
        refine ⟨visited :: entries, rest, .visit (hlisted visit' visited rfl) hwalks, ?_, hrest⟩
        simp only [exec_bind, exec_pure]
        rw [hreported, hwalked, List.append_assoc]
        rfl

/-- A walk that only reports visits what is below its root in order, and all of it if it ends. -/
theorem walks_bareWalk
    (hone : ∀ directory relative (visit visit' : Visit σ) visited,
      (walkOne server directory relative maxDepth).exec visit = (.ok visited, visit') →
        listed directory relative visited)
    (root : Bytes) (visit : Visit σ) :
    ∃ entries rest, Walks listed [(root, [])] entries rest ∧
      ((bareWalk server turns maxDepth root).exec visit).2.walked = visit.walked ++ entries ∧
      (((bareWalk server turns maxDepth root).exec visit).1 = .ok () → rest = []) := by
  have hsame := ignores_requireRooted server visit.walked visit.held root "walking a tree" visit
  have hsame' : ((requireRooted server root "walking a tree").exec visit).2 = _ :=
    congrArg Prod.snd hsame
  have hwalked : _ = visit.walked := (congrArg Visit.walked hsame' :)
  unfold bareWalk walk
  rw [exec_bind]
  generalize (requireRooted server root "walking a tree").exec visit = outcome at hwalked ⊢
  obtain ⟨error | _, visit'⟩ := outcome
  · exact ⟨[], _, .stop _, hwalked.trans (List.append_nil _).symm, fun h => by cases h⟩
  · obtain ⟨entries, rest, hwalks, hreported, hrest⟩ : ∃ entries rest,
        Walks listed [(root, [])] entries rest ∧
          ((walkPending server maxDepth (fun (_ : Unit) _ => pure ()) turns () [(root, [])]).exec
            visit').2.walked = visit'.walked ++ entries ∧
          (((walkPending server maxDepth (fun (_ : Unit) _ => pure ()) turns ()
            [(root, [])]).exec visit').1 = .ok () → rest = []) :=
      walks_walkPending hone [(root, [])] visit'
    exact ⟨entries, rest, hwalks, hreported.trans (congrArg (· ++ entries) hwalked), hrest⟩

/-- Everything that was pending at the start is visited or pending at the end. -/
theorem Walks.covers {pending rest : List (Bytes × List Bytes)} {entries : List WalkEntry}
    (h : Walks listed pending entries rest) {position : Bytes × List Bytes}
    (hposition : position ∈ pending) :
    (∃ visited ∈ entries, listed position.1 position.2 visited) ∨ position ∈ rest := by
  induction h with
  | stop pending => exact Or.inr hposition
  | visit hlisted _ ih =>
    rcases List.mem_cons.mp hposition with rfl | hlater
    · exact Or.inl ⟨_, List.mem_cons_self, hlisted⟩
    · rcases ih (List.mem_append_right _ hlater) with ⟨visited, hmem, hvisited⟩ | hrest
      · exact Or.inl ⟨visited, List.mem_cons_of_mem _ hmem, hvisited⟩
      · exact Or.inr hrest

/-- Every visited directory is as listing it leaves it. -/
theorem Walks.sound {pending rest : List (Bytes × List Bytes)} {entries : List WalkEntry}
    (h : Walks listed pending entries rest) {visited : WalkEntry} (hvisited : visited ∈ entries) :
    ∃ directory relative, listed directory relative visited := by
  induction h with
  | stop pending => cases hvisited
  | visit hlisted _ ih =>
    rcases List.mem_cons.mp hvisited with rfl | hmem
    · exact ⟨_, _, hlisted⟩
    · exact ih hmem

/-- Everything found below a visited directory is visited or pending at the end. -/
theorem Walks.closed {pending rest : List (Bytes × List Bytes)} {entries : List WalkEntry}
    (h : Walks listed pending entries rest) {visited : WalkEntry} (hvisited : visited ∈ entries)
    {position : Bytes × List Bytes} (hposition : position ∈ visited.below) :
    (∃ below ∈ entries, listed position.1 position.2 below) ∨ position ∈ rest := by
  induction h with
  | stop pending => cases hvisited
  | visit hlisted hlater ih =>
    rcases List.mem_cons.mp hvisited with rfl | hmem
    · rcases hlater.covers (List.mem_append_left _ hposition) with ⟨below, hmem, hbelow⟩ | hrest
      · exact Or.inl ⟨below, List.mem_cons_of_mem _ hmem, hbelow⟩
      · exact Or.inr hrest
    · rcases ih hmem with ⟨below, hmem, hbelow⟩ | hrest
      · exact Or.inl ⟨below, List.mem_cons_of_mem _ hmem, hbelow⟩
      · exact Or.inr hrest

end Order

/-! ## What listing a directory leaves -/

/-- Whether an entry was passed over by a download rather than by its walk. -/
def SkipReason.isDestination : SkipReason → Bool
  | .destinationCollision | .destinationRefusedTheName => true
  | _ => false

/-- A visited directory as listing one leaves it. -/
structure WalkEntry.Listed (directory : Bytes) (relative : List Bytes) (visited : WalkEntry) :
    Prop where
  path : visited.path = directory
  relative : visited.relative = relative
  reasons : ∀ skipped ∈ visited.skipped, skipped.reason.isDestination = false

namespace WalkEntry.Listed

variable {directory : Bytes} {relative : List Bytes} {visited : WalkEntry}

/-- Passing over a child for a reason of the walk. -/
theorem skip (h : visited.Listed directory relative) (child : DirEntry) {reason : SkipReason}
    (hreason : reason.isDestination = false) : (visited.skip child reason).Listed directory relative
    where
  path := h.path
  relative := h.relative
  reasons := by
    intro skipped hmem
    rcases List.mem_append.mp hmem with hold | hnew
    · exact h.reasons skipped hold
    · rw [List.mem_singleton.mp hnew]
      exact hreason

/-- Sorting a child. -/
theorem sort (h : visited.Listed directory relative) (atLimit : Bool) (child : DirEntry)
    {settled : Except SkipReason EntryKind}
    (hsettled : ∀ reason, settled = .error reason → reason.isDestination = false) :
    (visited.sort atLimit child settled).Listed directory relative := by
  cases settled with
  | error reason => exact h.skip child (hsettled reason rfl)
  | ok kind =>
    cases kind with
    | directory =>
      rw [WalkEntry.sort]
      split
      · exact h.skip child rfl
      · exact ⟨h.path, h.relative, h.reasons⟩
    | file => exact ⟨h.path, h.relative, h.reasons⟩
    | symlink => exact h.skip child rfl
    | other => exact h.skip child rfl
    | unknown => exact h.skip child rfl

end WalkEntry.Listed

/-- A child is passed over for a reason of the walk, if it is. -/
theorem reasons_settleForWalk {σ : Type} (server : TreeServer) (path : Bytes) (entry : DirEntry) :
    Meets (fun _ : Visit σ => True) (settleForWalk server path entry)
      (fun settled _ => ∀ reason, settled = .error reason → reason.isDestination = false)
      fun _ _ => True := by
  refine Meets.tryCatch ((Meets.top _ _).bind fun settled => ?_) fun error => ?_
  · cases settled with
    | none =>
      refine Meets.pure fun _ _ reason h => ?_
      cases h
      rfl
    | some kind => exact Meets.pure fun _ _ reason h => by cases h
  · cases error with
    | failure failure =>
      refine Meets.ite (fun _ => Meets.pure fun _ _ reason h => ?_) fun _ => Meets.throw fun _ => id
      cases h
      rfl
    | _ => exact Meets.throw fun _ => id

/-- Listing a directory leaves it listed. -/
theorem listed_walkOne {σ : Type} (server : TreeServer) (maxDepth : Option ℕ) (directory : Bytes)
    (relative : List Bytes) :
    Meets (fun _ : Visit σ => True) (walkOne server directory relative maxDepth)
      (fun visited _ => visited.Listed directory relative) fun _ _ => True := by
  have hunread : (WalkEntry.unread directory relative).Listed directory relative :=
    ⟨rfl, rfl, fun _ hmem => by cases hmem⟩
  have hchild : ∀ (limit : Bool) (visited : WalkEntry) (child : DirEntry),
      Meets (fun _ : Visit σ => visited.Listed directory relative)
        (walkChild server limit visited child)
        (fun visited _ => visited.Listed directory relative) fun _ _ => True := by
    intro limit visited child
    refine Meets.assume fun visit hvisited => ?_
    refine ((reasons_settleForWalk server _ child).strengthen fun _ _ => trivial).bind ?_
    exact fun settled => Meets.pure fun _ hsettled => hvisited.sort limit child hsettled
  unfold walkOne scandir
  refine ((Meets.top _ _).bind fun outcome => ?_ :
    Meets _ _ (fun result _ => result.1.Listed directory relative) _).bind fun result => ?_
  · cases outcome with
    | error failure => exact Meets.pure fun _ _ => hunread
    | ok listing =>
      refine ((Meets.foldlM (fun visited child _ => hchild _ visited child) _).strengthen
        fun _ _ => hunread).bind fun visited => Meets.pure fun _ => id
  · obtain ⟨visited, ending⟩ := result
    cases ending with
    | ok _ => exact Meets.pure fun _ => id
    | error failure => exact Meets.throw fun _ _ => trivial

section Listing

variable {σ : Type} {each : WalkEntry → Program σ TraversalError Unit}

/-- What delivering does, the walk that delivers does. -/
theorem Delivered.ends {visit : Visit σ} {entries : List WalkEntry}
    {bare run : Except TraversalError Unit × Visit σ} (h : Delivered each visit entries bare run)
    {after : Unit → σ → Prop} {failed : TraversalError → σ → Prop}
    (hends : Ends after failed ((deliver each entries bare.1).exec visit.held)) :
    Ends (fun value visit => after value visit.held) (fun error visit => failed error visit.held)
      run := by
  rw [← h.outcome] at hends
  obtain ⟨_ | _, _⟩ := run
  · exact hends
  · exact hends

/-- A walk delivers the directories that it alone would list, in order, and all of them if it
ends. -/
theorem delivered_listed (each : WalkEntry → Program σ TraversalError Unit) (server : TreeServer)
    (turns : ℕ) (maxDepth : Option ℕ) (root : Bytes) (visit : Visit σ) :
    ∃ entries rest, Walks (fun directory relative entry => entry.Listed directory relative)
        [(root, [])] entries rest ∧
      Delivered each visit entries
        ((bareWalk server turns maxDepth root).exec (visit.keeping visit.walked visit.held))
        ((walkHolding server turns maxDepth each root).exec visit) ∧
      (((bareWalk server turns maxDepth root).exec
        (visit.keeping visit.walked visit.held)).1 = .ok () → rest = []) := by
  have hone : ∀ directory relative (state state' : Visit σ) entry,
      (walkOne server directory relative maxDepth).exec state = (.ok entry, state') →
        entry.Listed directory relative := fun directory relative _ _ _ hexec =>
    (listed_walkOne server maxDepth directory relative).returned trivial hexec
  obtain ⟨entries, hdelivered⟩ : ∃ entries, Delivered each visit entries
      ((bareWalk server turns maxDepth root).exec (visit.keeping visit.walked visit.held))
      ((walkHolding server turns maxDepth each root).exec visit) :=
    delivered_walk root visit visit.held
  obtain ⟨entries', rest, hwalks, hwalked, hrest⟩ : ∃ entries rest,
      Walks (fun directory relative entry => entry.Listed directory relative) [(root, [])] entries
        rest ∧
      ((bareWalk server turns maxDepth root).exec
        (visit.keeping visit.walked visit.held)).2.walked = visit.walked ++ entries ∧
      (((bareWalk server turns maxDepth root).exec
        (visit.keeping visit.walked visit.held)).1 = .ok () → rest = []) :=
    walks_bareWalk hone root _
  obtain rfl : entries' = entries :=
    List.append_cancel_left (hwalked.symm.trans hdelivered.walked)
  exact ⟨entries', rest, hwalks, hdelivered, hrest⟩

end Listing

end GantrySftp
