import Mathlib

/-!
# A tree of names with links

A file system names its nodes by paths from the root, and takes some names for the same. A link
stands for another path. Resolving a path follows every link and asks for nothing else, so that
it has an answer for paths that lead nowhere; locating one is what a system call does, which
needs directories on the way. Where a path is located, it resolves to the same place.
-/

namespace Library

/-- One step along a path. -/
inductive PathStep (ν : Type)
  | up
  | down (name : ν)
  deriving DecidableEq

/-- Where a link leads: from the root, or from the directory that the link is in. -/
structure LinkTarget (ν : Type) where
  absolute : Bool
  steps : List (PathStep ν)
  deriving DecidableEq

/-- The directory that a target starts from. -/
def LinkTarget.start {ν : Type} (target : LinkTarget ν) (parent : List ν) : List ν :=
  if target.absolute then [] else parent

/-- What a node is. -/
inductive NodeKind (ν : Type)
  | directory
  | file
  | link (target : LinkTarget ν)
  deriving DecidableEq

namespace NodeKind

variable {ν : Type}

/-- Whether a node is a directory. -/
def isDirectory : NodeKind ν → Bool
  | directory => true
  | _ => false

/-- Whether a node is a link. -/
def isLink : NodeKind ν → Bool
  | link _ => true
  | _ => false

end NodeKind

/-- A map from places, by what the names along them are taken for, to nodes. Every node in use
is below the next one. -/
structure LinkedTree (ν : Type) where
  fold : ν → ν
  names : List ν → Option ℕ
  kinds : ℕ → NodeKind ν
  next : ℕ
  fresh : ∀ place node, names place = some node → node < next

/-- Why a path could not be located. -/
inductive LookupError
  | missing | notDirectory | tooManyLinks
  deriving DecidableEq

/-- How far steps lead: to their end, or to a link with steps left behind it. -/
inductive Passage (ν : Type)
  | arrived (place : List ν)
  | met (parent : List ν) (name : ν) (target : LinkTarget ν) (rest : List (PathStep ν))

namespace LinkedTree

variable {ν : Type} (tree : LinkedTree ν)

/-- The node at a place. -/
def node (place : List ν) : Option ℕ := tree.names (place.map tree.fold)

/-- What is at a place. -/
def kind (place : List ν) : Option (NodeKind ν) := (tree.node place).map tree.kinds

/-- Whether there is a directory at a place. -/
def isDirectory (place : List ν) : Bool := (tree.kind place).any NodeKind.isDirectory

/-- Every node in use is below the next one. -/
theorem node_lt {place : List ν} {node : ℕ} (h : tree.node place = some node) :
    node < tree.next := tree.fresh _ node h

/-- Follow steps up to the next link, whether or not anything is there. -/
def advance : List ν → List (PathStep ν) → Passage ν
  | place, [] => .arrived place
  | place, .up :: rest => advance place.dropLast rest
  | place, .down name :: rest =>
    match tree.kind (place ++ [name]) with
    | some (.link target) => .met place name target rest
    | _ => advance (place ++ [name]) rest

/-- Follow steps and links, whether or not anything is there; nothing after too many links. -/
def resolveFrom : ℕ → List ν → List (PathStep ν) → Option (List ν)
  | 0, place, steps =>
    match tree.advance place steps with
    | .arrived last => some last
    | .met _ _ _ _ => none
  | links + 1, place, steps =>
    match tree.advance place steps with
    | .arrived last => some last
    | .met parent _ target rest =>
      resolveFrom links (target.start parent) (target.steps ++ rest)

/-- Follow steps up to the next link, through directories only. The last step may lead to a
place where nothing is. -/
def enter : List ν → List (PathStep ν) → Except LookupError (Passage ν)
  | place, [] => .ok (.arrived place)
  | place, .up :: rest =>
    if tree.isDirectory place then enter place.dropLast rest else .error .notDirectory
  | place, .down name :: rest =>
    if tree.isDirectory place then
      match tree.kind (place ++ [name]) with
      | none => if rest.isEmpty then .ok (.arrived (place ++ [name])) else .error .missing
      | some (.link target) => .ok (.met place name target rest)
      | some _ => enter (place ++ [name]) rest
    else .error .notDirectory

/-- Follow steps and links through directories. A link at the end is followed where asked to. -/
def locateFrom (follow : Bool) : ℕ → List ν → List (PathStep ν) → Except LookupError (List ν)
  | 0, place, steps =>
    match tree.enter place steps with
    | .error error => .error error
    | .ok (.arrived last) => .ok last
    | .ok (.met parent name _ rest) =>
      if rest.isEmpty && !follow then .ok (parent ++ [name]) else .error .tooManyLinks
  | links + 1, place, steps =>
    match tree.enter place steps with
    | .error error => .error error
    | .ok (.arrived last) => .ok last
    | .ok (.met parent name target rest) =>
      if rest.isEmpty && !follow then .ok (parent ++ [name])
      else locateFrom follow links (target.start parent) (target.steps ++ rest)

/-! ## Resolving what was located -/

variable {tree}

/-- A step up was taken in a directory. -/
theorem enter_up {place : List ν} {rest : List (PathStep ν)} {passage : Passage ν}
    (h : tree.enter place (.up :: rest) = .ok passage) :
    tree.isDirectory place = true ∧ tree.enter place.dropLast rest = .ok passage := by
  rw [enter] at h
  split_ifs at h with hdirectory
  exact ⟨hdirectory, h⟩

/-- A step down was taken in a directory. -/
theorem enter_down {place : List ν} {name : ν} {rest : List (PathStep ν)} {passage : Passage ν}
    (h : tree.enter place (.down name :: rest) = .ok passage) :
    tree.isDirectory place = true ∧
      (match tree.kind (place ++ [name]) with
        | none =>
          if rest.isEmpty then Except.ok (Passage.arrived (place ++ [name]))
          else Except.error LookupError.missing
        | some (.link target) => Except.ok (Passage.met place name target rest)
        | some _ => tree.enter (place ++ [name]) rest) = .ok passage := by
  rw [enter] at h
  by_cases hdirectory : tree.isDirectory place = true
  · rw [if_pos hdirectory] at h
    exact ⟨hdirectory, h⟩
  · rw [if_neg hdirectory] at h
    cases h

/-- Steps that lead through directories lead as far when nothing is asked for. -/
theorem advance_of_enter {place : List ν} {steps : List (PathStep ν)} {passage : Passage ν}
    (h : tree.enter place steps = .ok passage) : tree.advance place steps = passage := by
  induction steps generalizing place with
  | nil =>
    cases h
    rfl
  | cons step rest ih =>
    cases step with
    | up => exact ih (enter_up h).2
    | down name =>
      replace h := (enter_down h).2
      rw [advance]
      cases hkind : tree.kind (place ++ [name]) with
      | none =>
        simp only [hkind] at h
        split_ifs at h with hlast
        cases h
        rw [List.isEmpty_iff.mp hlast]
        rfl
      | some kind =>
        cases kind with
        | link target =>
          simp only [hkind] at h
          cases h
          rfl
        | directory =>
          simp only [hkind] at h
          exact ih h
        | file =>
          simp only [hkind] at h
          exact ih h

/-- A link that steps lead to is at the place of its name. -/
theorem kind_of_advance {place parent : List ν} {steps rest : List (PathStep ν)} {name : ν}
    {target : LinkTarget ν} (h : tree.advance place steps = .met parent name target rest) :
    tree.kind (parent ++ [name]) = some (.link target) := by
  induction steps generalizing place with
  | nil => cases h
  | cons step rest' ih =>
    cases step with
    | up => exact ih h
    | down other =>
      rw [advance] at h
      cases hkind : tree.kind (place ++ [other]) with
      | none =>
        simp only [hkind] at h
        exact ih h
      | some kind =>
        cases kind with
        | link _ =>
          simp only [hkind] at h
          cases h
          exact hkind
        | directory =>
          simp only [hkind] at h
          exact ih h
        | file =>
          simp only [hkind] at h
          exact ih h

/-- A path that is located somewhere other than at a link resolves to that place. -/
theorem resolveFrom_of_locateFrom {follow : Bool} {links : ℕ} {place last : List ν}
    {steps : List (PathStep ν)} (h : tree.locateFrom follow links place steps = .ok last)
    (hlink : (tree.kind last).any NodeKind.isLink = false) :
    tree.resolveFrom links place steps = some last := by
  have hmet : ∀ parent name target rest, tree.enter place steps = .ok (.met parent name target rest) →
      last ≠ parent ++ [name] := by
    intro parent name target rest henter heq
    rw [heq, kind_of_advance (advance_of_enter henter)] at hlink
    cases hlink
  induction links generalizing place steps with
  | zero =>
    rw [locateFrom] at h
    rw [resolveFrom]
    cases henter : tree.enter place steps with
    | error error =>
      rw [henter] at h
      cases h
    | ok passage =>
      rw [advance_of_enter henter]
      rw [henter] at h
      cases passage with
      | arrived _ =>
        cases h
        rfl
      | met parent name target rest =>
        simp only at h
        split_ifs at h
        cases h
        exact absurd rfl (hmet parent name target rest henter)
  | succ links ih =>
    rw [locateFrom] at h
    rw [resolveFrom]
    cases henter : tree.enter place steps with
    | error error =>
      rw [henter] at h
      cases h
    | ok passage =>
      rw [advance_of_enter henter]
      rw [henter] at h
      cases passage with
      | arrived _ =>
        cases h
        rfl
      | met parent name target rest =>
        simp only at h
        split_ifs at h
        · cases h
          exact absurd rfl (hmet parent name target rest henter)
        · refine ih h fun parent' name' target' rest' henter' heq => ?_
          rw [heq, kind_of_advance (advance_of_enter henter')] at hlink
          cases hlink

/-! ## Following and going on -/

/-- A path that is located somewhere other than at a link is located there when links at the end
are followed. -/
theorem locateFrom_follow {links : ℕ} {place last : List ν} {steps : List (PathStep ν)}
    (h : tree.locateFrom false links place steps = .ok last)
    (hlink : (tree.kind last).any NodeKind.isLink = false) :
    tree.locateFrom true links place steps = .ok last := by
  have hmet : ∀ place steps parent name target rest,
      tree.enter place steps = .ok (.met parent name target rest) → last ≠ parent ++ [name] := by
    intro place steps parent name target rest henter heq
    rw [heq, kind_of_advance (advance_of_enter henter)] at hlink
    cases hlink
  induction links generalizing place steps with
  | zero =>
    rw [locateFrom] at h ⊢
    cases henter : tree.enter place steps with
    | error error =>
      rw [henter] at h
      cases h
    | ok passage =>
      rw [henter] at h
      cases passage with
      | arrived _ => exact h
      | met parent name target rest =>
        simp only at h
        split_ifs at h
        cases h
        exact absurd rfl (hmet _ _ parent name target rest henter)
  | succ links ih =>
    rw [locateFrom] at h ⊢
    cases henter : tree.enter place steps with
    | error error =>
      rw [henter] at h
      cases h
    | ok passage =>
      rw [henter] at h
      cases passage with
      | arrived _ => exact h
      | met parent name target rest =>
        simp only at h
        split_ifs at h
        · cases h
          exact absurd rfl (hmet _ _ parent name target rest henter)
        · simpa using ih h

/-- A path that is located at something with links at the end followed is located at something
when they are not. -/
theorem locateFrom_unfollowed {links : ℕ} {place last : List ν} {steps : List (PathStep ν)}
    (h : tree.locateFrom true links place steps = .ok last) (hlast : (tree.kind last).isSome) :
    ∃ last', tree.locateFrom false links place steps = .ok last' ∧ (tree.kind last').isSome := by
  induction links generalizing place steps with
  | zero =>
    rw [locateFrom] at h ⊢
    cases henter : tree.enter place steps with
    | error error =>
      rw [henter] at h
      cases h
    | ok passage =>
      rw [henter] at h
      cases passage with
      | arrived _ => exact ⟨last, h, hlast⟩
      | met parent name target rest => simp at h
  | succ links ih =>
    rw [locateFrom] at h ⊢
    cases henter : tree.enter place steps with
    | error error =>
      rw [henter] at h
      cases h
    | ok passage =>
      rw [henter] at h
      cases passage with
      | arrived _ => exact ⟨last, h, hlast⟩
      | met parent name target rest =>
        simp only [Bool.not_true, Bool.and_false, Bool.false_eq_true, if_false] at h
        simp only
        split_ifs with hrest
        · refine ⟨_, rfl, ?_⟩
          rw [kind_of_advance (advance_of_enter henter)]
          rfl
        · exact ih h

/-- Steps behind those that lead to a directory are taken from there. -/
theorem enter_append {place last : List ν} {steps more : List (PathStep ν)}
    (h : tree.enter place steps = .ok (.arrived last)) (hlast : tree.isDirectory last = true) :
    tree.enter place (steps ++ more) = tree.enter last more := by
  induction steps generalizing place with
  | nil =>
    cases h
    rfl
  | cons step rest ih =>
    cases step with
    | up =>
      obtain ⟨hdirectory, henter⟩ := enter_up h
      rw [List.cons_append, enter, if_pos hdirectory]
      exact ih henter
    | down name =>
      obtain ⟨hdirectory, henter⟩ := enter_down h
      rw [List.cons_append, enter, if_pos hdirectory]
      cases hkind : tree.kind (place ++ [name]) with
      | none =>
        simp only [hkind] at henter
        split_ifs at henter
        cases henter
        rw [isDirectory, hkind] at hlast
        cases hlast
      | some kind =>
        simp only [hkind] at henter
        cases kind with
        | link target => cases henter
        | directory => exact ih henter
        | file => exact ih henter

/-- Steps behind those that lead to a link are left behind it. -/
theorem enter_append_met {place parent : List ν} {name : ν} {target : LinkTarget ν}
    {steps rest more : List (PathStep ν)}
    (h : tree.enter place steps = .ok (.met parent name target rest)) :
    tree.enter place (steps ++ more) = .ok (.met parent name target (rest ++ more)) := by
  induction steps generalizing place with
  | nil => cases h
  | cons step rest' ih =>
    cases step with
    | up =>
      obtain ⟨hdirectory, henter⟩ := enter_up h
      rw [List.cons_append, enter, if_pos hdirectory]
      exact ih henter
    | down other =>
      obtain ⟨hdirectory, henter⟩ := enter_down h
      rw [List.cons_append, enter, if_pos hdirectory]
      cases hkind : tree.kind (place ++ [other]) with
      | none =>
        simp only [hkind] at henter
        split_ifs at henter
        cases henter
      | some kind =>
        simp only [hkind] at henter
        cases kind with
        | link target' =>
          cases henter
          rfl
        | directory => exact ih henter
        | file => exact ih henter

/-- Steps behind a path that leads to a directory come to what they come to from there, as long as
they meet no link. -/
theorem locateFrom_append {follow : Bool} {links : ℕ} {place last : List ν}
    {steps more : List (PathStep ν)} {outcome : Except LookupError (List ν)}
    (h : tree.locateFrom true links place steps = .ok last)
    (hlast : tree.isDirectory last = true) (hne : more ≠ [])
    (hmore : tree.enter last more = outcome.map .arrived) :
    tree.locateFrom follow links place (steps ++ more) = outcome := by
  have hnonempty : ∀ rest : List (PathStep ν), (rest ++ more).isEmpty = false := fun rest => by
    rw [List.isEmpty_eq_false_iff]
    exact List.append_ne_nil_of_right_ne_nil rest hne
  induction links generalizing place steps with
  | zero =>
    rw [locateFrom] at h ⊢
    cases henter : tree.enter place steps with
    | error error =>
      rw [henter] at h
      cases h
    | ok passage =>
      rw [henter] at h
      cases passage with
      | arrived _ =>
        cases h
        rw [enter_append henter hlast, hmore]
        cases outcome with
        | error _ => rfl
        | ok _ => rfl
      | met parent name target rest => simp at h
  | succ links ih =>
    rw [locateFrom] at h ⊢
    cases henter : tree.enter place steps with
    | error error =>
      rw [henter] at h
      cases h
    | ok passage =>
      rw [henter] at h
      cases passage with
      | arrived _ =>
        cases h
        rw [enter_append henter hlast, hmore]
        cases outcome with
        | error _ => rfl
        | ok _ => rfl
      | met parent name target rest =>
        simp only [Bool.not_true, Bool.and_false, Bool.false_eq_true, if_false] at h
        rw [enter_append_met henter]
        simp only [hnonempty, Bool.false_and, Bool.false_eq_true, if_false, ← List.append_assoc]
        exact ih h

/-- One more name behind a path that leads to a directory is located in that directory, unless it
is a link. -/
theorem locateFrom_down {follow : Bool} {links : ℕ} {place last : List ν} {name : ν}
    {steps : List (PathStep ν)} (h : tree.locateFrom true links place steps = .ok last)
    (hlast : tree.isDirectory last = true)
    (hlink : (tree.kind (last ++ [name])).any NodeKind.isLink = false) :
    tree.locateFrom follow links place (steps ++ [.down name]) = .ok (last ++ [name]) := by
  refine locateFrom_append h hlast (List.cons_ne_nil _ _) ?_
  rw [enter, if_pos hlast]
  cases hkind : tree.kind (last ++ [name]) with
  | none => rfl
  | some kind =>
    rw [hkind] at hlink
    cases kind with
    | link _ => cases hlink
    | directory => rfl
    | file => rfl

/-- More steps behind a name that is not in a directory lead nowhere. -/
theorem locateFrom_missing {follow : Bool} {links : ℕ} {place last : List ν} {name : ν}
    {steps more : List (PathStep ν)} (h : tree.locateFrom true links place steps = .ok last)
    (hlast : tree.isDirectory last = true) (hnone : tree.node (last ++ [name]) = none)
    (hmore : more ≠ []) :
    tree.locateFrom follow links place (steps ++ .down name :: more) = .error .missing := by
  refine locateFrom_append h hlast (List.cons_ne_nil _ _) ?_
  rw [enter, if_pos hlast, kind, hnone]
  simp [hmore, Except.map]

/-! ## Places below directories -/

/-- A place all of whose parents are directories. -/
def Rooted (tree : LinkedTree ν) (place : List ν) : Prop :=
  ∀ front name, front ++ [name] <+: place → tree.isDirectory front = true

/-- The root is below nothing. -/
theorem rooted_nil : tree.Rooted [] := fun front name h => by
  simpa using h.length_le

/-- A place in a directory. -/
theorem Rooted.down {place : List ν} (h : tree.Rooted place)
    (hdirectory : tree.isDirectory place = true) (name : ν) : tree.Rooted (place ++ [name]) := by
  intro front other hbegins
  rcases List.prefix_concat_iff.mp hbegins with heq | hshorter
  · rw [(List.append_inj_left' heq rfl)]
    exact hdirectory
  · exact h front other hshorter

/-- The directory that a place is in. -/
theorem Rooted.up {place : List ν} (h : tree.Rooted place) : tree.Rooted place.dropLast :=
  fun front name hbegins => h front name (hbegins.trans place.dropLast_prefix)

/-- Steps through directories lead to places below directories. -/
theorem rooted_of_enter {place : List ν} {steps : List (PathStep ν)} {passage : Passage ν}
    (h : tree.enter place steps = .ok passage) (hplace : tree.Rooted place) :
    (∀ last, passage = .arrived last → tree.Rooted last) ∧
      ∀ parent name target rest, passage = .met parent name target rest →
        tree.Rooted parent ∧ tree.isDirectory parent = true := by
  induction steps generalizing place with
  | nil =>
    cases h
    refine ⟨fun last heq => ?_, fun _ _ _ _ heq => by cases heq⟩
    cases heq
    exact hplace
  | cons step rest ih =>
    cases step with
    | up => exact ih (enter_up h).2 hplace.up
    | down name =>
      obtain ⟨hdirectory, h⟩ := enter_down h
      have hdown := hplace.down hdirectory name
      cases hkind : tree.kind (place ++ [name]) with
      | none =>
        simp only [hkind] at h
        split_ifs at h
        cases h
        refine ⟨fun last heq => ?_, fun _ _ _ _ heq => by cases heq⟩
        cases heq
        exact hdown
      | some kind =>
        cases kind with
        | link target =>
          simp only [hkind] at h
          cases h
          refine ⟨fun last heq => (by cases heq), fun _ _ _ _ heq => ?_⟩
          cases heq
          exact ⟨hplace, hdirectory⟩
        | directory =>
          simp only [hkind] at h
          exact ih h hdown
        | file =>
          simp only [hkind] at h
          exact ih h hdown

/-- A place that a path leads to from one below directories is below directories. -/
theorem rooted_of_locateFrom {follow : Bool} {links : ℕ} {place last : List ν}
    {steps : List (PathStep ν)} (h : tree.locateFrom follow links place steps = .ok last)
    (hplace : tree.Rooted place) : tree.Rooted last := by
  induction links generalizing place steps with
  | zero =>
    rw [locateFrom] at h
    cases henter : tree.enter place steps with
    | error error =>
      rw [henter] at h
      cases h
    | ok passage =>
      obtain ⟨harrived, hmet⟩ := rooted_of_enter henter hplace
      rw [henter] at h
      cases passage with
      | arrived _ =>
        cases h
        exact harrived _ rfl
      | met parent name target rest =>
        simp only at h
        split_ifs at h
        cases h
        obtain ⟨hparent, hdirectory⟩ := hmet _ _ _ _ rfl
        exact hparent.down hdirectory name
  | succ links ih =>
    rw [locateFrom] at h
    cases henter : tree.enter place steps with
    | error error =>
      rw [henter] at h
      cases h
    | ok passage =>
      obtain ⟨harrived, hmet⟩ := rooted_of_enter henter hplace
      rw [henter] at h
      cases passage with
      | arrived _ =>
        cases h
        exact harrived _ rfl
      | met parent name target rest =>
        obtain ⟨hparent, hdirectory⟩ := hmet _ _ _ _ rfl
        simp only at h
        split_ifs at h
        · cases h
          exact hparent.down hdirectory name
        · refine ih h ?_
          unfold LinkTarget.start
          split_ifs
          · exact rooted_nil
          · exact hparent

/-- The names along a place below directories lead to it, if it is no link. -/
theorem locateFrom_rooted {follow : Bool} {links : ℕ} {place : List ν} (h : tree.Rooted place)
    (hlink : (tree.kind place).any NodeKind.isLink = false) :
    tree.locateFrom follow links [] (place.map .down) = .ok place := by
  induction place using List.reverseRecOn generalizing follow with
  | nil =>
    cases links with
    | zero => rfl
    | succ links => rfl
  | append_singleton front name ih =>
    have hdirectory := h front name List.prefix_rfl
    have hfront : (tree.kind front).any NodeKind.isLink = false := by
      obtain ⟨kind, hkind, hkind'⟩ := (Option.any_eq_true _ _).mp hdirectory
      rw [hkind]
      cases kind with
      | directory => rfl
      | file => cases hkind'
      | link _ => cases hkind'
    rw [List.map_append]
    refine locateFrom_down (ih ?_ hfront) hdirectory hlink
    exact fun front' name' hbegins => h front' name' (hbegins.trans (List.prefix_append _ _))

/-! ## Adding nodes -/

/-- A tree with everything that another has and no other links. -/
structure Extends (tree tree' : LinkedTree ν) : Prop where
  fold : tree'.fold = tree.fold
  node : ∀ place node, tree.node place = some node → tree'.node place = some node
  kinds : ∀ node, node < tree.next → tree'.kinds node = tree.kinds node
  links : ∀ place target, tree'.kind place = some (.link target) →
    tree.kind place = some (.link target)
  next : tree.next ≤ tree'.next

namespace Extends

variable {tree' tree'' : LinkedTree ν}

/-- A tree extends itself. -/
theorem refl (tree : LinkedTree ν) : tree.Extends tree where
  fold := rfl
  node := fun _ _ => id
  kinds := fun _ _ => rfl
  links := fun _ _ => id
  next := le_rfl

/-- A tree that extends one that extends another. -/
theorem trans (h : tree.Extends tree') (h' : tree'.Extends tree'') : tree.Extends tree'' where
  fold := h'.fold.trans h.fold
  node := fun place node hnode => h'.node place node (h.node place node hnode)
  kinds := fun node hnode => (h'.kinds node (hnode.trans_le h.next)).trans (h.kinds node hnode)
  links := fun place target hkind => h.links place target (h'.links place target hkind)
  next := h.next.trans h'.next

/-- What is at a place stays what it is. -/
theorem kind (h : tree.Extends tree') {place : List ν} {kind : NodeKind ν}
    (hkind : tree.kind place = some kind) : tree'.kind place = some kind := by
  obtain ⟨node, hnode, rfl⟩ := Option.map_eq_some_iff.mp hkind
  rw [LinkedTree.kind, h.node place node hnode, Option.map_some,
    h.kinds node (tree.node_lt hnode)]

/-- A directory stays one. -/
theorem isDirectory (h : tree.Extends tree') {place : List ν}
    (hplace : tree.isDirectory place = true) : tree'.isDirectory place = true := by
  obtain ⟨kind, hkind, hdirectory⟩ := (Option.any_eq_true _ _).mp hplace
  exact (Option.any_eq_true _ _).mpr ⟨kind, h.kind hkind, hdirectory⟩

/-- Both have the same links. -/
theorem link_iff (h : tree.Extends tree') (place : List ν) (target : LinkTarget ν) :
    tree'.kind place = some (.link target) ↔ tree.kind place = some (.link target) :=
  ⟨h.links place target, h.kind⟩

/-- Steps lead as far in both. -/
theorem advance (h : tree.Extends tree') (place : List ν) (steps : List (PathStep ν)) :
    tree'.advance place steps = tree.advance place steps := by
  induction steps generalizing place with
  | nil => rfl
  | cons step rest ih =>
    cases step with
    | up => exact ih place.dropLast
    | down name =>
      rw [LinkedTree.advance, LinkedTree.advance]
      by_cases hlink : ∃ target, tree.kind (place ++ [name]) = some (.link target)
      · obtain ⟨target, hkind⟩ := hlink
        rw [hkind, (h.link_iff _ target).mpr hkind]
      · have hlink' : ¬ ∃ target, tree'.kind (place ++ [name]) = some (.link target) := by
          rintro ⟨target, hkind⟩
          exact hlink ⟨target, (h.link_iff _ target).mp hkind⟩
        rw [ih]
        split
        · exact absurd ⟨_, ‹_›⟩ hlink'
        · split
          · exact absurd ⟨_, ‹_›⟩ hlink
          · rfl

/-- Paths resolve to the same places in both. -/
theorem resolveFrom (h : tree.Extends tree') (links : ℕ) (place : List ν)
    (steps : List (PathStep ν)) :
    tree'.resolveFrom links place steps = tree.resolveFrom links place steps := by
  induction links generalizing place steps with
  | zero => rw [LinkedTree.resolveFrom, LinkedTree.resolveFrom, h.advance]
  | succ links ih =>
    rw [LinkedTree.resolveFrom, LinkedTree.resolveFrom, h.advance]
    split
    · rfl
    · exact ih _ _

/-- Steps that lead through directories lead as far still. -/
theorem enter (h : tree.Extends tree') {place : List ν} {steps : List (PathStep ν)}
    {passage : Passage ν} (henter : tree.enter place steps = .ok passage) :
    tree'.enter place steps = .ok passage := by
  induction steps generalizing place with
  | nil => exact henter
  | cons step rest ih =>
    cases step with
    | up =>
      obtain ⟨hdirectory, henter⟩ := enter_up henter
      rw [LinkedTree.enter, if_pos (h.isDirectory hdirectory)]
      exact ih henter
    | down name =>
      obtain ⟨hdirectory, henter⟩ := enter_down henter
      rw [LinkedTree.enter, if_pos (h.isDirectory hdirectory)]
      cases hkind : tree.kind (place ++ [name]) with
      | none =>
        simp only [hkind] at henter
        split_ifs at henter with hrest
        rw [List.isEmpty_iff.mp hrest]
        cases hkind' : tree'.kind (place ++ [name]) with
        | none => exact henter
        | some kind =>
          cases kind with
          | link target =>
            have hlink := h.links _ _ hkind'
            rw [hkind] at hlink
            cases hlink
          | directory => exact henter
          | file => exact henter
      | some kind =>
        rw [h.kind hkind]
        simp only [hkind] at henter
        cases kind with
        | link target => exact henter
        | directory => exact ih henter
        | file => exact ih henter

/-- A path is located where it was. -/
theorem locateFrom (h : tree.Extends tree') {follow : Bool} {links : ℕ} {place last : List ν}
    {steps : List (PathStep ν)} (hlocate : tree.locateFrom follow links place steps = .ok last) :
    tree'.locateFrom follow links place steps = .ok last := by
  induction links generalizing place steps with
  | zero =>
    rw [LinkedTree.locateFrom] at hlocate ⊢
    cases henter : tree.enter place steps with
    | error error =>
      rw [henter] at hlocate
      cases hlocate
    | ok passage =>
      rw [henter] at hlocate
      rw [h.enter henter]
      exact hlocate
  | succ links ih =>
    rw [LinkedTree.locateFrom] at hlocate ⊢
    cases henter : tree.enter place steps with
    | error error =>
      rw [henter] at hlocate
      cases hlocate
    | ok passage =>
      rw [henter] at hlocate
      rw [h.enter henter]
      cases passage with
      | arrived _ => exact hlocate
      | met parent name target rest =>
        simp only at hlocate ⊢
        split_ifs at hlocate ⊢
        · exact hlocate
        · exact ih hlocate

end Extends

section Adding

variable [DecidableEq ν]

/-- The tree with a new node at a place. -/
def add (tree : LinkedTree ν) (place : List ν) (kind : NodeKind ν) : LinkedTree ν where
  fold := tree.fold
  names := Function.update tree.names (place.map tree.fold) (some tree.next)
  kinds := Function.update tree.kinds tree.next kind
  next := tree.next + 1
  fresh := by
    intro other node h
    by_cases heq : other = place.map tree.fold
    · rw [heq, Function.update_self] at h
      cases h
      exact Nat.lt_succ_self _
    · rw [Function.update_of_ne heq] at h
      exact Nat.lt_succ_of_lt (tree.fresh other node h)

/-- The new node is at its place. -/
@[simp] theorem node_add (tree : LinkedTree ν) (place : List ν) (kind : NodeKind ν) :
    (tree.add place kind).node place = some tree.next := by
  simp [node, add]

/-- The new node is what it was made as. -/
@[simp] theorem kind_add (tree : LinkedTree ν) (place : List ν) (kind : NodeKind ν) :
    (tree.add place kind).kind place = some kind := by
  rw [LinkedTree.kind, node_add]
  simp [add]

/-- Nothing changes at a place that is not taken for the new one. -/
theorem node_add_of_ne {tree : LinkedTree ν} {place other : List ν} (kind : NodeKind ν)
    (h : other.map tree.fold ≠ place.map tree.fold) :
    (tree.add place kind).node other = tree.node other := by
  simp [node, add, h]

/-- A tree with a new node that is no link, where nothing was, extends the old one. -/
theorem extends_add {tree : LinkedTree ν} {place : List ν} {kind : NodeKind ν}
    (hplace : tree.node place = none) (hkind : kind.isLink = false) :
    tree.Extends (tree.add place kind) where
  fold := rfl
  node := by
    intro other node hnode
    rw [node_add_of_ne kind]
    · exact hnode
    · intro heq
      rw [LinkedTree.node, heq] at hnode
      rw [LinkedTree.node, hnode] at hplace
      cases hplace
  kinds := fun node hnode => Function.update_of_ne hnode.ne _ _
  links := by
    intro other target hlink
    by_cases heq : other.map tree.fold = place.map tree.fold
    · have hsame : (tree.add place kind).kind other = (tree.add place kind).kind place := by
        unfold LinkedTree.kind LinkedTree.node
        exact congrArg (fun key => (Option.map _ ((tree.add place kind).names key))) heq
      rw [hsame, kind_add] at hlink
      cases hlink
      cases hkind
    · obtain ⟨node, hnode, hnodeKind⟩ := Option.map_eq_some_iff.mp hlink
      rw [node_add_of_ne kind heq] at hnode
      rw [LinkedTree.kind, hnode, Option.map_some, ← hnodeKind]
      exact congrArg some (Function.update_of_ne (tree.node_lt hnode).ne _ _).symm
  next := Nat.le_succ _

end Adding

end LinkedTree

end Library
