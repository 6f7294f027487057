import GantrySftp.Session.RemoteNames

/-!
# The algebra of remote paths

A path is kept as its bytes and seen through its components, so doubled and trailing separators
change none of the answers. Joining and renaming take one validated name, the parent and the
ancestors are built from the components, and one path is below another when its components
continue those of the other. The laws between these hold for every spelling but one: a relative
path has `.` as its last ancestor, and is below it only if it begins with that component itself.
-/

namespace GantrySftp

open Library

/-! ## Paths seen through their components -/

/-- The path of wherever a relative path starts. -/
def dotPath : Bytes := [0x2E]

/-- Why an operation on paths has no answer. -/
inductive PathError
  | unsafePath (name : Bytes) (reason : String)
  | emptyName (path : Bytes)
  | notBelow (path target : Bytes)
  deriving DecidableEq

/-- Whether a path starts at the root of the server. -/
def isAbsolute (path : Bytes) : Bool := decide (path.head? = some slash)

/-- A name that may be one component of a path, or the refusal of it. -/
def checkComponent (name : Bytes) : Except PathError Bytes :=
  match remoteComponentReason name with
  | none => .ok name
  | some reason => .error (.unsafePath name reason)

/-- The components of a path, behind a separator when it is absolute. -/
def pathParts (path : Bytes) : List Bytes :=
  let components := splitComponents path
  if isAbsolute path then [slash] :: components else components

/-- The directory that holds a path. -/
def parentOf (path : Bytes) : Bytes :=
  let components := splitComponents path
  let absolute := isAbsolute path
  if components.length ≤ 1 then
    if absolute then [slash] else dotPath
  else
    let joined := List.intercalate [slash] components.dropLast
    if absolute then [slash] ++ joined else joined

/-- The last component of a path, or nothing. -/
def nameOf (path : Bytes) : Bytes := (splitComponents path).getLastD []

/-- A path with its last component replaced. -/
def withName (path name : Bytes) : Except PathError Bytes :=
  let components := splitComponents path
  if components = [] then .error (.emptyName path)
  else do
    let name ← checkComponent name
    let joined := List.intercalate [slash] (components.dropLast ++ [name])
    pure (if isAbsolute path then [slash] ++ joined else joined)

/-- The components of a path below another, if it is below it. -/
def relativeComponents (path other : Bytes) : Option (List Bytes) :=
  if isAbsolute path ≠ isAbsolute other then none
  else
    let ours := splitComponents path
    let theirs := splitComponents other
    if ours.take theirs.length ≠ theirs then none else some (ours.drop theirs.length)

/-- A path followed by validated components. -/
def joinpath (path : Bytes) (names : List Bytes) : Except PathError Bytes :=
  names.foldlM (fun joined name => joinRemote joined <$> checkComponent name) path

/-- A path expressed below another. -/
def relativeTo (path other : Bytes) : Except PathError Bytes :=
  match relativeComponents path other with
  | none => .error (.notBelow path other)
  | some rest => .ok (if rest ≠ [] then List.intercalate [slash] rest else dotPath)

/-- Whether a path can be expressed below another. -/
def isRelativeTo (path other : Bytes) : Bool := (relativeComponents path other).isSome

/-! ## Components of what is built -/

/-- The only relative path without components is empty. -/
theorem eq_nil_of_relative {path : Bytes} (habsolute : isAbsolute path = false)
    (h : splitComponents path = []) : path = [] := by
  by_contra hne
  by_cases hslash : slash ∈ path
  · obtain ⟨front, back, rfl, hfront⟩ := List.eq_append_cons_of_mem hslash
    cases front with
    | nil => simp [isAbsolute] at habsolute
    | cons byte front =>
      rw [splitComponents_slash, splitComponents_segment ⟨List.cons_ne_nil _ _, hfront⟩] at h
      cases h
  · rw [splitComponents_segment ⟨hne, hslash⟩] at h
    cases h

/-- A segment is relative. -/
theorem isAbsolute_segment {name : Bytes} (h : IsSegment name) : isAbsolute name = false := by
  apply decide_eq_false
  intro hhead
  exact h.2 (List.mem_of_head? hhead)

/-- A path with a segment behind it starts where it did. -/
theorem isAbsolute_joinRemote (path : Bytes) {name : Bytes} (h : IsSegment name) :
    isAbsolute (joinRemote path name) = isAbsolute path := by
  cases path with
  | nil => exact isAbsolute_segment h
  | cons byte rest =>
    unfold joinRemote isAbsolute
    split_ifs <;> rfl

/-- A path with segments behind it starts where it did. -/
theorem isAbsolute_joinAll (path : Bytes) {names : List Bytes}
    (h : ∀ name ∈ names, IsSegment name) : isAbsolute (joinAll path names) = isAbsolute path := by
  induction names generalizing path with
  | nil => rfl
  | cons name names ih =>
    rw [joinAll_cons, ih _ fun other hmem => h other (List.mem_cons_of_mem _ hmem),
      isAbsolute_joinRemote path (h name List.mem_cons_self)]

/-- Where a path starts is absolute when the path is. -/
theorem isAbsolute_rootOf (path : Bytes) : isAbsolute (rootOf path) = isAbsolute path := by
  unfold rootOf isAbsolute
  split_ifs with h <;> simp [h]

/-- Components joined at once are joined one at a time. -/
theorem joined_eq (path : Bytes) {names : List Bytes} (h : ∀ name ∈ names, IsSegment name) :
    (if isAbsolute path then [slash] ++ List.intercalate [slash] names
      else List.intercalate [slash] names) = joinAll (rootOf path) names := by
  rw [joinAll_rootOf path h]
  simp [isAbsolute]

/-- The components of components that are joined from where a path starts. -/
theorem splitComponents_joined (path : Bytes) {names : List Bytes}
    (h : ∀ name ∈ names, IsSegment name) :
    splitComponents (joinAll (rootOf path) names) = names := by
  rw [splitComponents_joinAll _ h, splitComponents_rootOf, List.nil_append]

/-- Components that are joined from where a path starts are absolute when the path is. -/
theorem isAbsolute_joined (path : Bytes) {names : List Bytes}
    (h : ∀ name ∈ names, IsSegment name) :
    isAbsolute (joinAll (rootOf path) names) = isAbsolute path := by
  rw [isAbsolute_joinAll _ h, isAbsolute_rootOf]

/-- What a path starts from and its components decide its parts. -/
theorem pathParts_congr {path path' : Bytes} (habsolute : isAbsolute path = isAbsolute path')
    (h : splitComponents path = splitComponents path') : pathParts path = pathParts path' := by
  unfold pathParts
  rw [habsolute, h]

/-! ## Parents -/

/-- The components that a path is held by stand between separators. -/
theorem segments_dropLast (path : Bytes) :
    ∀ name ∈ (splitComponents path).dropLast, IsSegment name :=
  fun _ hmem => (segment_of_mem (List.mem_of_mem_dropLast hmem)).1

/-- The parent of a path without further components. -/
theorem parentOf_top {path : Bytes} (h : (splitComponents path).length ≤ 1) :
    parentOf path = if isAbsolute path then [slash] else dotPath := by
  unfold parentOf
  simp only [if_pos h]

/-- The parent of a path with further components is joined from all but the last. -/
theorem parentOf_joined {path : Bytes} (h : ¬(splitComponents path).length ≤ 1) :
    parentOf path = joinAll (rootOf path) (splitComponents path).dropLast := by
  rw [← joined_eq path (segments_dropLast path)]
  unfold parentOf
  simp only [if_neg h]

/-- A path and its parent start at the same place. -/
theorem isAbsolute_parentOf (path : Bytes) : isAbsolute (parentOf path) = isAbsolute path := by
  by_cases h : (splitComponents path).length ≤ 1
  · rw [parentOf_top h]
    cases habsolute : isAbsolute path <;> rfl
  · rw [parentOf_joined h, isAbsolute_joined path (segments_dropLast path)]

/-- The parent of a path is held by all its components but the last, but for the parent that a
relative path of at most one component has. -/
theorem splitComponents_parentOf (path : Bytes) :
    splitComponents (parentOf path) =
      if (splitComponents path).length ≤ 1 ∧ isAbsolute path = false then [dotPath]
      else (splitComponents path).dropLast := by
  by_cases h : (splitComponents path).length ≤ 1
  · have hdrop : (splitComponents path).dropLast = [] :=
      List.length_eq_zero_iff.mp (by rw [List.length_dropLast]; omega)
    rw [parentOf_top h, hdrop]
    cases isAbsolute path with
    | true =>
      rw [if_pos rfl, if_neg (by simp)]
      rfl
    | false =>
      rw [if_neg Bool.false_ne_true, if_pos ⟨h, rfl⟩]
      rfl
  · rw [parentOf_joined h, splitComponents_joined path (segments_dropLast path),
      if_neg fun hboth => h hboth.1]

/-- The parts of a path below another are those of the other, whatever joined them. -/
theorem pathParts_parentOf {path below name : Bytes} (habsolute : isAbsolute below = isAbsolute path)
    (h : splitComponents below = splitComponents path ++ [name]) :
    pathParts (parentOf below) = if path = [] then [dotPath] else pathParts path := by
  have hlength : (splitComponents below).length = (splitComponents path).length + 1 := by
    rw [h, List.length_append, List.length_singleton]
  have hdrop : (splitComponents below).dropLast = splitComponents path := by
    rw [h, List.dropLast_concat]
  have hparent := splitComponents_parentOf below
  rw [hlength, hdrop, habsolute] at hparent
  split_ifs with hnil
  · subst hnil
    have hsplit : splitComponents (parentOf below) = [dotPath] := hparent
    have hrelative : isAbsolute (parentOf below) = false := by
      rw [isAbsolute_parentOf, habsolute]
      rfl
    simp [pathParts, hrelative, hsplit]
  · apply pathParts_congr
    · rw [isAbsolute_parentOf, habsolute]
    · rw [hparent, if_neg]
      rintro ⟨hshort, hrelative⟩
      exact hnil (eq_nil_of_relative hrelative (List.length_eq_zero_iff.mp (by omega)))

/-! ## Ancestors -/

/-- A path that is its own parent has reached the top. -/
theorem parentOf_eq_self {path : Bytes} (h : (splitComponents path).length ≤ 1) :
    parentOf (parentOf path) = parentOf path := by
  rw [parentOf_top h]
  cases isAbsolute path <;> rfl

/-- How far a path is from its last ancestor. -/
def height (path : Bytes) : ℕ :=
  if parentOf path = path then 0 else (splitComponents path).length + 1

/-- A parent is nearer to the last ancestor. -/
theorem height_parentOf_lt {path : Bytes} (h : parentOf path ≠ path) :
    height (parentOf path) < height path := by
  unfold height
  rw [if_neg h]
  split_ifs with htop
  · exact Nat.succ_pos _
  · have hlong : ¬(splitComponents path).length ≤ 1 := fun hshort => htop (parentOf_eq_self hshort)
    rw [splitComponents_parentOf, if_neg fun hboth => hlong hboth.1, List.length_dropLast]
    omega

/-- Every ancestor of a path, nearest first: the walk goes up until a path is its own parent. -/
def ancestors (path : Bytes) : List Bytes :=
  if parentOf path = path then [] else parentOf path :: ancestors (parentOf path)
termination_by height path
decreasing_by exact height_parentOf_lt ‹_›

/-- A path that is its own parent has no ancestors. -/
theorem ancestors_top {path : Bytes} (h : parentOf path = path) : ancestors path = [] := by
  rw [ancestors, if_pos h]

/-- The ancestors of any other path are its parent and the ancestors of that. -/
theorem ancestors_up {path : Bytes} (h : parentOf path ≠ path) :
    ancestors path = parentOf path :: ancestors (parentOf path) := by
  rw [ancestors, if_neg h]

/-- Each ancestor is the parent of the one before, and the last is its own. -/
theorem ancestors_climb (path : Bytes) :
    List.IsChain (fun below above => parentOf below = above) (path :: ancestors path) ∧
      ∀ top ∈ (path :: ancestors path).getLast?, parentOf top = top := by
  induction path using ancestors.induct with
  | case1 path h => simp [ancestors_top h, h]
  | case2 path h ih =>
    rw [ancestors_up h]
    refine ⟨List.IsChain.cons_cons rfl ih.1, ?_⟩
    rw [List.getLast?_cons_cons]
    exact ih.2

/-- There are no more ancestors than components, and one. -/
theorem length_ancestors_le (path : Bytes) :
    (ancestors path).length ≤ (splitComponents path).length + 1 := by
  have hheight (path : Bytes) : (ancestors path).length ≤ height path := by
    induction path using ancestors.induct with
    | case1 path h => simp [ancestors_top h]
    | case2 path h ih =>
      have hless := height_parentOf_lt h
      rw [ancestors_up h, List.length_cons]
      omega
  refine (hheight path).trans ?_
  unfold height
  split_ifs <;> omega

/-- An ancestor is held by the first components of a path, or is where relative paths start. -/
theorem ancestor_cases {path above : Bytes} (h : above ∈ ancestors path) :
    isAbsolute above = isAbsolute path ∧ (splitComponents above <+: splitComponents path ∨
      above = dotPath ∧ isAbsolute path = false) := by
  induction path using ancestors.induct with
  | case1 path htop =>
    rw [ancestors_top htop] at h
    cases h
  | case2 path hup ih =>
    rw [ancestors_up hup, List.mem_cons] at h
    have hparent : splitComponents (parentOf path) <+: splitComponents path ∨
        parentOf path = dotPath ∧ isAbsolute path = false := by
      rw [splitComponents_parentOf]
      split_ifs with hrelative
      · rw [parentOf_top hrelative.1, hrelative.2]
        exact Or.inr ⟨rfl, rfl⟩
      · exact Or.inl (List.dropLast_prefix _)
    obtain rfl | hmem := h
    · exact ⟨isAbsolute_parentOf path, hparent⟩
    · obtain ⟨habsolute, habove⟩ := ih hmem
      rw [isAbsolute_parentOf] at habsolute habove
      refine ⟨habsolute, ?_⟩
      obtain habove | hdot := habove
      · obtain hparent | hdot := hparent
        · exact Or.inl (habove.trans hparent)
        · rw [hdot.1, ancestors_top (by rfl)] at hmem
          cases hmem
      · exact Or.inr hdot

/-- Where relative paths start is an ancestor of every other relative path. -/
theorem dotPath_mem_ancestors {path : Bytes} (hrelative : isAbsolute path = false)
    (hne : path ≠ dotPath) : dotPath ∈ ancestors path := by
  induction path using ancestors.induct with
  | case1 path htop =>
    have hshort : (splitComponents path).length ≤ 1 := by
      by_contra hlong
      have hsplit := splitComponents_parentOf path
      rw [htop, if_neg fun hboth => hlong hboth.1] at hsplit
      have hlength := congrArg List.length hsplit
      rw [List.length_dropLast] at hlength
      omega
    rw [parentOf_top hshort, hrelative] at htop
    exact absurd htop.symm hne
  | case2 path hup ih =>
    rw [ancestors_up hup]
    by_cases hparent : parentOf path = dotPath
    · rw [hparent]
      exact List.mem_cons_self
    · exact List.mem_cons_of_mem _ (ih ((isAbsolute_parentOf path).trans hrelative) hparent)

/-! ## Paths below others -/

/-- A component that may be joined is returned as it is. -/
theorem checkComponent_eq_ok {name checked : Bytes} :
    checkComponent name = .ok checked ↔ IsComponent name ∧ checked = name := by
  unfold checkComponent IsComponent
  cases remoteComponentReason name <;> simp [eq_comm]

/-- A path is below another exactly when its components continue those of the other. -/
theorem relativeComponents_eq_some {path other : Bytes} {rest : List Bytes} :
    relativeComponents path other = some rest ↔ isAbsolute path = isAbsolute other ∧
      splitComponents path = splitComponents other ++ rest := by
  unfold relativeComponents
  dsimp only
  split_ifs with habsolute hcomponents
  · simp [habsolute]
  · refine iff_of_false (by simp) fun h => hcomponents ?_
    rw [h.2, List.take_left]
  · rw [not_not] at habsolute hcomponents
    rw [Option.some_inj]
    constructor
    · rintro rfl
      have hall := List.take_append_drop (splitComponents other).length (splitComponents path)
      rw [hcomponents] at hall
      exact ⟨habsolute, hall.symm⟩
    · rintro ⟨-, h⟩
      rw [h, List.drop_left]

/-- A path is below another exactly when they start at the same place and the components of the
other are its first. -/
theorem isRelativeTo_iff {path other : Bytes} :
    isRelativeTo path other = true ↔ isAbsolute path = isAbsolute other ∧
      splitComponents other <+: splitComponents path := by
  unfold isRelativeTo
  rw [Option.isSome_iff_exists]
  simp only [relativeComponents_eq_some, exists_and_left, List.IsPrefix, eq_comm]

/-- A path can be expressed below another exactly when it is below it. -/
theorem exists_relativeTo_iff {path other : Bytes} :
    (∃ rest, relativeTo path other = .ok rest) ↔ isRelativeTo path other = true := by
  unfold relativeTo isRelativeTo
  cases relativeComponents path other <;> simp

/-- The components of a path below another, joined onto the other one by one, give the path's
parts. -/
theorem pathParts_joinAll {path other : Bytes} {rest : List Bytes}
    (h : relativeComponents path other = some rest) :
    pathParts (joinAll other rest) = pathParts path := by
  obtain ⟨habsolute, hsplit⟩ := relativeComponents_eq_some.mp h
  have hsegments : ∀ name ∈ rest, IsSegment name := fun name hmem =>
    (segment_of_mem (hsplit ▸ List.mem_append_right _ hmem)).1
  apply pathParts_congr
  · rw [isAbsolute_joinAll other hsegments, habsolute]
  · rw [splitComponents_joinAll other hsegments, hsplit]

/-- Components that are accepted are joined one by one. -/
theorem joinpath_of_components (path : Bytes) {names : List Bytes}
    (h : ∀ name ∈ names, IsComponent name) : joinpath path names = .ok (joinAll path names) := by
  induction names generalizing path with
  | nil => rfl
  | cons name names ih =>
    have hname : checkComponent name = .ok name :=
      checkComponent_eq_ok.mpr ⟨h name List.mem_cons_self, rfl⟩
    change ((joinRemote path <$> checkComponent name) >>= fun joined => joinpath joined names) = _
    rw [hname]
    exact ih _ fun other hmem => h other (List.mem_cons_of_mem _ hmem)

/-- Components are joined only if each of them is accepted. -/
theorem components_of_joinpath {path joined : Bytes} {names : List Bytes}
    (h : joinpath path names = .ok joined) : ∀ name ∈ names, IsComponent name := by
  induction names generalizing path with
  | nil => simp
  | cons name names ih =>
    change ((joinRemote path <$> checkComponent name) >>= fun joined => joinpath joined names) = _
      at h
    cases hname : checkComponent name with
    | error error =>
      rw [hname] at h
      cases h
    | ok checked =>
      rw [hname] at h
      rw [List.forall_mem_cons]
      exact ⟨(checkComponent_eq_ok.mp hname).1, ih h⟩

/-- Joining validated components gives the path of the components, or nothing. -/
theorem joinpath_eq_ok {path joined : Bytes} {names : List Bytes} :
    joinpath path names = .ok joined ↔
      (∀ name ∈ names, IsComponent name) ∧ joined = joinAll path names := by
  constructor
  · intro h
    have hnames := components_of_joinpath h
    rw [joinpath_of_components path hnames] at h
    exact ⟨hnames, (Except.ok.inj h).symm⟩
  · rintro ⟨hnames, rfl⟩
    exact joinpath_of_components path hnames

/-- A path with a name has components. -/
theorem components_of_name {path : Bytes} (h : nameOf path ≠ []) : splitComponents path ≠ [] := by
  intro hnil
  rw [nameOf, hnil] at h
  exact h rfl

/-- Segments stay segments when the last is replaced by one. -/
theorem segments_renamed (path : Bytes) {name : Bytes} (h : IsSegment name) :
    ∀ other ∈ (splitComponents path).dropLast ++ [name], IsSegment other := by
  rw [List.forall_mem_append, List.forall_mem_singleton]
  exact ⟨segments_dropLast path, h⟩

/-- A path with its last component replaced has the others of its components before the name. -/
theorem withName_of_component {path name : Bytes} (hpath : nameOf path ≠ [])
    (hname : IsComponent name) :
    withName path name =
      .ok (joinAll (rootOf path) ((splitComponents path).dropLast ++ [name])) := by
  have hne := components_of_name hpath
  have hsegments := segments_renamed path hname.segment
  have hchecked : checkComponent name = .ok name := checkComponent_eq_ok.mpr ⟨hname, rfl⟩
  rw [← joined_eq path hsegments]
  simp only [withName, if_neg hne, hchecked]
  rfl

/-! ## The laws -/

/-- The laws between the operations on a path: joining a name and taking it off again, replacing
the name, climbing to the top, being below every ancestor, and being joined again from wherever it
is below. -/
structure Coherent (path : Bytes) : Prop where
  joined : ∀ name, checkComponent name = .ok name → ∃ below, joinpath path [name] = .ok below ∧
    nameOf below = name ∧
    pathParts (parentOf below) = if path = [] then [dotPath] else pathParts path
  renamed : nameOf path ≠ [] → ∀ name, checkComponent name = .ok name →
    ∃ renamed, withName path name = .ok renamed ∧ nameOf renamed = name ∧
      pathParts (parentOf renamed) = pathParts (parentOf path)
  climbed : List.IsChain (fun below above => parentOf below = above) (path :: ancestors path)
  topped : ∀ top ∈ (path :: ancestors path).getLast?, parentOf top = top
  ended : (ancestors path).length ≤ (splitComponents path).length + 1
  below : ∀ above ∈ ancestors path, isRelativeTo path above = true
  rejoined : ∀ other rest, relativeComponents path other = some rest →
    pathParts (joinAll other rest) = pathParts path ∧
    ∀ joined, joinpath other rest = .ok joined ↔
      (∀ name ∈ rest, IsComponent name) ∧ joined = joinAll other rest

/-- Joining a name and taking it off again. -/
theorem joinpath_law (path : Bytes) {name : Bytes} (h : IsComponent name) :
    ∃ below, joinpath path [name] = .ok below ∧ nameOf below = name ∧
      pathParts (parentOf below) = if path = [] then [dotPath] else pathParts path := by
  have hsplit := splitComponents_join path h.segment
  refine ⟨joinRemote path name, joinpath_of_components path (by simpa using h), ?_, ?_⟩
  · rw [nameOf, hsplit, List.getLastD_concat]
  · exact pathParts_parentOf (isAbsolute_joinRemote path h.segment) hsplit

/-- Replacing the name of a path. -/
theorem withName_law {path name : Bytes} (hpath : nameOf path ≠ []) (h : IsComponent name) :
    ∃ renamed, withName path name = .ok renamed ∧ nameOf renamed = name ∧
      pathParts (parentOf renamed) = pathParts (parentOf path) := by
  have hsegments := segments_renamed path h.segment
  have hsplit := splitComponents_joined path hsegments
  have hlength : (splitComponents path).dropLast.length + 1 = (splitComponents path).length := by
    have hpositive := List.length_pos_of_ne_nil (components_of_name hpath)
    rw [List.length_dropLast]
    omega
  refine ⟨_, withName_of_component hpath h, ?_, ?_⟩
  · rw [nameOf, hsplit, List.getLastD_concat]
  · apply pathParts_congr
    · rw [isAbsolute_parentOf, isAbsolute_parentOf, isAbsolute_joined path hsegments]
    · rw [splitComponents_parentOf, splitComponents_parentOf, hsplit, List.dropLast_concat,
        List.length_append, List.length_singleton, hlength, isAbsolute_joined path hsegments]

/-- A path is below all its ancestors exactly when it is absolute or begins with `.` itself. -/
theorem below_ancestors_iff (path : Bytes) :
    (∀ above ∈ ancestors path, isRelativeTo path above = true) ↔
      isAbsolute path = true ∨ (splitComponents path).head? = some dotPath := by
  have hdot : splitComponents dotPath = [dotPath] := rfl
  constructor
  · intro h
    cases habsolute : isAbsolute path with
    | true => exact Or.inl rfl
    | false =>
      refine Or.inr ?_
      by_cases hpath : path = dotPath
      · rw [hpath]
        rfl
      · obtain ⟨-, rest, hrest⟩ := isRelativeTo_iff.mp (h _ (dotPath_mem_ancestors habsolute hpath))
        rw [← hrest, hdot]
        rfl
  · intro h above habove
    obtain ⟨habsolute, hprefix | ⟨rfl, hrelative⟩⟩ := ancestor_cases habove
    · exact isRelativeTo_iff.mpr ⟨habsolute.symm, hprefix⟩
    · have hhead := h.resolve_left (by simp [hrelative])
      rw [isRelativeTo_iff, hdot]
      refine ⟨habsolute.symm, (splitComponents path).tail, ?_⟩
      exact (List.eq_cons_of_mem_head? hhead).symm

/-- The laws hold of exactly the paths that are absolute or begin with the component `.`: any
other relative path has `.` as its last ancestor, which it is not below. -/
theorem coherent_iff (path : Bytes) :
    Coherent path ↔ isAbsolute path = true ∨ (splitComponents path).head? = some dotPath := by
  constructor
  · intro h
    exact (below_ancestors_iff path).mp h.below
  · intro h
    constructor
    · intro name hname
      exact joinpath_law path (checkComponent_eq_ok.mp hname).1
    · intro hpath name hname
      exact withName_law hpath (checkComponent_eq_ok.mp hname).1
    · exact (ancestors_climb path).1
    · exact (ancestors_climb path).2
    · exact length_ancestors_le path
    · exact (below_ancestors_iff path).mpr h
    · intro other rest hrest
      exact ⟨pathParts_joinAll hrest, fun _ => joinpath_eq_ok⟩

/-- A relative path of one component has an ancestor that it is not below. -/
theorem not_coherent_relative :
    dotPath ∈ ancestors [97] ∧ isRelativeTo [97] dotPath = false ∧ ¬Coherent [97] := by
  have hmem : dotPath ∈ ancestors [97] := dotPath_mem_ancestors (by rfl) (by decide)
  have hbelow : isRelativeTo [97] dotPath = false := by rfl
  refine ⟨hmem, hbelow, fun h => ?_⟩
  rw [h.below _ hmem] at hbelow
  cases hbelow

end GantrySftp
