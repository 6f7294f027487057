import GantrySftp.Session.GlobLiterals
import GantrySftp.Session.PathMatch

/-!
# A path match against a glob

Matching a path and matching a pattern on a server share one dialect but for a `**` at the end. A
server's entries are matched against a `*` behind it, so that neither the directory the `**`
starts from nor a name with a leading period is yielded; the path match accepts both.
-/

namespace GantrySftp

open Library Program Wildcards Glob

/-! ## Literal components -/

/-- A component that is looked up rather than matched. -/
def IsLiteral (component : Bytes) : Prop := hasMagic component = false ∧ escape ∉ component

/-- A literal component fits its own name only. -/
theorem IsLiteral.fits_iff {component : Bytes} (h : IsLiteral component) (name : Bytes) :
    fits component name = true ↔ component = name := by
  have hescape : escape ∉ component.dropLast := fun hmem => h.2 (List.mem_of_mem_dropLast hmem)
  rw [fits_unescaped_iff h.1, (unescaped_eq_iff component).mpr hescape]
  exact eq_comm

/-- Names that are covered by literal components, and by others behind them. -/
theorem covers_literals {front back names : List Bytes}
    (h : ∀ component ∈ front, IsLiteral component) :
    Covers isRecursive fits (front ++ back) names ↔
      ∃ below, names = front ++ below ∧ Covers isRecursive fits back below := by
  induction front generalizing names with
  | nil => simp
  | cons component front ih =>
    have hliteral := h component List.mem_cons_self
    have hone : isRecursive component = false := isRecursive_of_literal hliteral.1
    have hrest := fun other hmem => h other (List.mem_cons_of_mem _ hmem)
    constructor
    · intro hcovers
      cases hcovers with
      | skip hmany => simp [hone] at hmany
      | more hmany => simp [hone] at hmany
      | one _ hfit hbelow =>
        obtain ⟨below, rfl, hback⟩ := (ih hrest).mp hbelow
        exact ⟨below, by rw [(hliteral.fits_iff _).mp hfit, List.cons_append], hback⟩
    · rintro ⟨below, rfl, hback⟩
      exact .one hone ((hliteral.fits_iff _).mpr rfl) ((ih hrest).mpr ⟨below, rfl, hback⟩)

/-! ## A `**` at the end -/

/-- A name that only a literal period matches the first byte of. -/
def isHidden (name : Bytes) : Bool := name.head? = some dot

/-- A match is given more turns than the name has bytes. -/
theorem length_lt_matchTurns (pattern name : Bytes) : name.length < matchTurns pattern name :=
  calc name.length
      < name.length + 2 := Nat.lt_add_of_pos_right (by decide)
    _ ≤ matchTurns pattern name := Nat.le_mul_of_pos_right _ (Nat.succ_pos _)

/-- With nothing left of the pattern behind a star, every name is matched. -/
theorem matchLoop_rest {turns : ℕ} {name : Bytes} (hturns : name.length ≤ turns) :
    matchLoop true turns (some ([], name)) [] name = .ok true := by
  induction name generalizing turns with
  | nil => rw [matchLoop]; rfl
  | cons byte name ih =>
    cases turns with
    | zero => simp at hturns
    | succ turns =>
      rw [matchLoop]
      change matchLoop true turns (some ([], name)) [] name = _
      exact ih (Nat.le_of_succ_le_succ hturns)

/-- What stands for everything fits all names but the hidden ones. -/
theorem fits_everything (name : Bytes) : fits everything name = !isHidden name := by
  have hmatch : matchHere true [star] name = .ok true := by
    unfold matchHere
    cases name with
    | nil => rw [matchLoop]; rfl
    | cons byte name =>
      have hlt := length_lt_matchTurns [star] (byte :: name)
      cases hturns : matchTurns [star] (byte :: name) with
      | zero => simp [hturns] at hlt
      | succ turns =>
        rw [matchLoop, if_pos (by rfl)]
        exact matchLoop_rest (by omega)
  have hdot : matchesLeadingDot [Glob.star] = false := by decide
  unfold fits matchComponent isHidden
  rw [everything_eq, hmatch, hdot]
  by_cases hhidden : name.head? = some dot <;> simp [hhidden]

/-- A `**` at the end of components stands before a `*`. -/
theorem expand_eq (components : List Bytes) :
    expand components =
      if components.getLast? = some recursive then components ++ [everything]
      else components := by
  induction components with
  | nil => rfl
  | cons head rest ih =>
    cases rest with
    | nil =>
      unfold expand isRecursive
      simp
    | cons next rest =>
      rw [expand_cons head (List.cons_ne_nil _ _), ih, List.getLast?_cons_cons]
      split_ifs <;> rfl

/-- What a `**` at the end covers and a server yields: something below the directory it starts
from, under a name that is not hidden. -/
def TrailingAgrees (components names : List Bytes) : Prop :=
  components.getLast? = some recursive → Covers isRecursive fits components names →
    names.getLast?.all (fun name => !isHidden name) ∧
      Covers isRecursive fits components names.dropLast

instance (components names : List Bytes) : Decidable (TrailingAgrees components names) :=
  inferInstanceAs (Decidable (_ → _ → _ ∧ _))

/-- Components cover the same names with and without what stands behind a `**` at their end, if
they agree there, and only then. -/
theorem covers_expand_iff {components names : List Bytes} (hne : names ≠ []) :
    (Covers isRecursive fits components names ↔
        Covers isRecursive fits (expand components) names) ↔
      TrailingAgrees components names := by
  rw [expand_eq]
  unfold TrailingAgrees
  split_ifs with hlast
  · obtain ⟨init, last, rfl⟩ : ∃ init last, names = init ++ [last] :=
      ⟨names.dropLast, names.getLast hne, (List.dropLast_append_getLast hne).symm⟩
    have hmore : Covers isRecursive fits components init →
        Covers isRecursive fits components (init ++ [last]) := by
      obtain ⟨front, rfl⟩ := List.getLast?_eq_some_iff.mp hlast
      have hrecursive : isRecursive recursive = true := by simp [isRecursive]
      rw [covers_concat_many hrecursive, covers_concat_many hrecursive]
      rintro ⟨count, hcount, hcovers⟩
      refine ⟨count, by simp; omega, ?_⟩
      rwa [List.take_append_of_le_length hcount]
    have hexpanded : Covers isRecursive fits (components ++ [everything]) (init ++ [last]) ↔
        Covers isRecursive fits components init ∧ isHidden last = false := by
      rw [covers_concat_one isRecursive_everything]
      constructor
      · rintro ⟨init', last', heq, hcovers, hfit⟩
        obtain ⟨rfl, hlast⟩ := List.append_inj' heq rfl
        rw [fits_everything, Bool.not_eq_true'] at hfit
        exact ⟨hcovers, List.singleton_inj.mp hlast ▸ hfit⟩
      · rintro ⟨hcovers, hshown⟩
        exact ⟨init, last, rfl, hcovers, by rw [fits_everything, hshown]; rfl⟩
    rw [hexpanded]
    simp only [hlast, List.getLast?_concat, Option.all_some, List.dropLast_concat,
      Bool.not_eq_true', true_implies]
    tauto
  · simp [hlast]

/-! ## Where a server starts from -/

/-- No element before the first of a kind is of that kind. -/
theorem not_of_mem_take {α : Type} (kind : α → Bool) {items : List α} {item : α}
    (h : item ∈ items.take ((items.findIdx? kind).getD items.length)) : kind item = false := by
  induction items with
  | nil => simp at h
  | cons first items ih =>
    rw [List.findIdx?_cons] at h
    cases hfirst : kind first with
    | true => simp [hfirst] at h
    | false =>
      have hindex : ((items.findIdx? kind).map (· + 1)).getD (first :: items).length =
          (items.findIdx? kind).getD items.length + 1 := by
        cases items.findIdx? kind <;> rfl
      rw [hfirst, if_neg (by simp), hindex, List.take_succ_cons, List.mem_cons] at h
      obtain rfl | hmem := h
      · exact hfirst
      · exact ih hmem

/-- An absolute pattern without a separator at its end starts from the path of its first literal
components, and is matched below by the others. -/
theorem splitPattern_absolute {pattern : Bytes} (habsolute : pattern.head? = some slash)
    (htrailing : pattern.getLast? ≠ some slash) (hescape : escape ∉ pattern) :
    ∃ front back, splitComponents pattern = front ++ back ∧
      splitPattern pattern true = (joinAll [slash] front, back, false) ∧
        ∀ component ∈ front, IsLiteral component := by
  let kind : Bytes → Bool := fun part => hasMagic part || part = recursive
  let index := ((splitComponents pattern).findIdx? kind).getD (splitComponents pattern).length
  have hfront : ∀ component ∈ (splitComponents pattern).take index,
      component ∈ splitComponents pattern := fun _ hmem => List.mem_of_mem_take hmem
  refine ⟨(splitComponents pattern).take index, (splitComponents pattern).drop index,
    (List.take_append_drop _ _).symm, ?_, fun component hmem => ⟨?_, fun hbyte => ?_⟩⟩
  · rw [joinAll_root fun component hmem => (segment_of_mem (hfront component hmem)).1]
    simp [splitPattern, habsolute, htrailing, index, kind]
  · exact (Bool.or_eq_false_iff.mp (not_of_mem_take kind hmem)).1
  · exact hescape ((segment_of_mem (hfront component hmem)).2 hbyte)

/-! ## What both answer -/

section Agreement

variable {σ : Type} {server : TreeServer} {top : Node} {root pattern : Bytes} {names : List Bytes}

/-- Something is below a directory only. -/
theorem isDirectory_of_find (hproper : top.All Node.Proper) {front back : List Bytes}
    {middle below : Node} (hfront : top.find front = some middle) (hfrontne : front ≠ [])
    (hback : middle.find back = some below) (hbackne : back ≠ []) :
    isDirectoryAttrs middle.label = true := by
  obtain ⟨init, last, rfl⟩ : ∃ init last, front = init ++ [last] :=
    ⟨front.dropLast, front.getLast hfrontne, (List.dropLast_append_getLast hfrontne).symm⟩
  rw [Trie.find_append] at hfront
  obtain ⟨parent, hparent, hlast⟩ := Option.bind_eq_some_iff.mp hfront
  obtain ⟨child, hchild, hsame⟩ := Option.bind_eq_some_iff.mp hlast
  obtain rfl : child = middle := Option.some.inj hsame
  by_contra hleaf
  have hempty := (hproper.find hparent).here.empty _ (Trie.mem_of_child hchild)
    (Bool.not_eq_true _ ▸ hleaf)
  cases back with
  | nil => exact hbackne rfl
  | cons name back =>
    rw [Trie.find_cons, Trie.child, hempty] at hback
    cases hback

/-- What is below the names that a pattern starts from is held there. -/
theorem holds_at (hproper : top.All Node.Proper) {front back : List Bytes} {below : Node}
    (hfind : top.find (front ++ back) = some below) :
    (RemoteTree.at_ top hproper front).Holds back below.label := by
  rw [Trie.find_append] at hfind
  obtain ⟨middle, hfront, hback⟩ := Option.bind_eq_some_iff.mp hfind
  unfold RemoteTree.Holds RemoteTree.at_
  split_ifs with hnil
  · subst hnil
    obtain rfl : middle = below := Option.some.inj hback
    exact congrArg (Option.map Trie.label) hfront
  · refine ⟨middle, Option.mem_filter_iff.mpr ⟨hfront, ?_⟩, below, hback, rfl⟩
    by_cases hfrontne : front = []
    · simp [hfrontne]
    · simp [isDirectory_of_find hproper hfront hfrontne hback hnil]

/-- Names that a tree holds something under are components. -/
theorem components_of_held {tree : RemoteTree} {names : List Bytes} {attrs : Attrs}
    (h : tree.Holds names attrs) : ∀ name ∈ names, IsComponent name := by
  unfold RemoteTree.Holds at h
  split_ifs at h with hnil
  · simp [hnil]
  · obtain ⟨top, htop, below, hfind, -⟩ := h
    exact components_of_find (tree.proper top htop) hfind

/-- What is held below some names is in the tree. -/
theorem find_of_holds_at (hproper : top.All Node.Proper) {front back : List Bytes} {attrs : Attrs}
    (h : (RemoteTree.at_ top hproper front).Holds back attrs) :
    ∃ below, top.find (front ++ back) = some below ∧ below.label = attrs := by
  unfold RemoteTree.Holds at h
  split_ifs at h with hnil
  · rw [hnil, List.append_nil]
    exact Option.map_eq_some_iff.mp h
  · obtain ⟨middle, hmiddle, below, hback, hlabel⟩ := h
    refine ⟨below, ?_, hlabel⟩
    rw [Trie.find_append, (Option.mem_filter_iff.mp hmiddle).1]
    exact hback

/-- An existing entry is meant below some names exactly where the components cover what its names
have behind those. -/
theorem meant_at_iff (hproper : top.All Node.Proper) {front back : List Bytes}
    {directoriesOnly : Bool} (hfront : ∀ component ∈ front, IsSegment component) {below : Node}
    (hfind : top.find names = some below) :
    Meant (joinAll root front) (.at_ top hproper front) back directoriesOnly
        (joinAll root names) ↔
      (directoriesOnly = true → isDirectoryAttrs below.label = true) ∧
        ∃ rest, names = front ++ rest ∧ Covers isRecursive fits (expand back) rest := by
  constructor
  · rintro ⟨names', attrs, hpath, hholds, hkind, hcovers⟩
    rw [← joinAll_append] at hpath
    have hsegments : ∀ name ∈ front ++ names', IsSegment name := by
      intro name hmem
      obtain hmem | hmem := List.mem_append.mp hmem
      · exact hfront name hmem
      · exact (components_of_held hholds name hmem).segment
    have hsplit := congrArg splitComponents hpath
    rw [splitComponents_joinAll root hsegments, splitComponents_joinAll root
      (segments_of_components (components_of_find hproper hfind))] at hsplit
    have hnames := List.append_cancel_left hsplit
    obtain ⟨below', hfind', rfl⟩ := find_of_holds_at hproper hholds
    rw [← hnames, hfind] at hfind'
    obtain rfl := Option.some.inj hfind'
    exact ⟨hkind, names', hnames, hcovers⟩
  · rintro ⟨hkind, names', rfl, hcovers⟩
    exact ⟨names', below.label, joinAll_append _ _ _, holds_at hproper hfind, hkind, hcovers⟩

/-- An existing entry is meant by a pattern exactly where its components, with what stands behind
a `**` at their end, cover the names of the entry. -/
theorem meant_iff (hproper : top.All Node.Proper) {front back : List Bytes}
    (hliteral : ∀ component ∈ front, IsLiteral component)
    (hfront : ∀ component ∈ front, IsSegment component) {below : Node}
    (hfind : top.find names = some below) :
    Meant (joinAll [slash] front) (.at_ top hproper front) back false (joinAll [slash] names) ↔
      Covers isRecursive fits (expand (front ++ back)) names := by
  have hexpand : expand (front ++ back) = front ++ expand back := by
    rw [expand_eq, expand_eq]
    cases back with
    | nil =>
      have hnone : front.getLast? ≠ some recursive := by
        intro hlast
        exact absurd ((hliteral _ (List.mem_of_getLast? hlast)).1.symm.trans hasMagic_recursive)
          Bool.false_ne_true
      simp [hnone]
    | cons head rest =>
      rw [List.getLast?_append_cons]
      split_ifs <;> simp
  rw [hexpand, covers_literals hliteral, meant_at_iff hproper hfront hfind]
  exact and_iff_right (by simp)

/-- A path match says whether the components of the pattern cover the names of the path. -/
theorem matchPath_absolute (habsolute : pattern.head? = some slash)
    (hvalid : validatePattern pattern = .ok ())
    (haccepted : ∀ component ∈ splitComponents pattern, validatePattern component = .ok ())
    (hnames : ∀ name ∈ names, IsSegment name) :
    matchPath true pattern (joinAll [slash] names) = .ok true ↔
      Covers isRecursive fits (splitComponents pattern) names := by
  have hroot : (joinAll [slash] names).head? = some slash := by
    rw [joinAll_root hnames]
    rfl
  have hne : pattern ≠ [] := by
    rintro rfl
    cases habsolute
  have hpath : matchPath true pattern (joinAll [slash] names) =
      (matchComponents true (splitComponents pattern) names).mapError MatchError.patternError := by
    unfold matchPath
    simp [hne, hvalid, habsolute, hroot, splitComponents_root hnames]
    rfl
  have hcovers := matchComponents_covers true (splitComponents pattern) names
  rw [hpath]
  cases hmatched : matchComponents true (splitComponents pattern) names with
  | ok matched =>
    rw [hmatched] at hcovers
    have hmeaning : matched = true ↔
        Covers isRecursive fits (splitComponents pattern) names := hcovers
    rw [← hmeaning]
    cases matched <;> simp [Except.mapError]
  | error error =>
    rw [hmatched] at hcovers
    obtain ⟨element, hmem, name, -, hrefused⟩ := hcovers
    obtain ⟨matched, hmatched⟩ := matchComponent_of_accepted true (haccepted element hmem) name
    rw [hmatched] at hrefused
    cases hrefused

/-- An existing entry is yielded exactly where the components, with what stands behind a `**` at
their end, cover its names. -/
theorem mem_glob_absolute (held : σ) (hholds : server.Holds top) (hproper : top.All Node.Proper)
    (habsolute : pattern.head? = some slash) (htrailing : pattern.getLast? ≠ some slash)
    (hescape : escape ∉ pattern) (hdots : ∀ component ∈ splitComponents pattern,
      component ∉ dotNames)
    (hvalid : validatePattern pattern = .ok ())
    (haccepted : ∀ component ∈ splitComponents pattern, validatePattern component = .ok ())
    {below : Node} (hfind : top.find names = some below) {turns : ℕ}
    (hturns : (Node.directories top).length ≤ turns) :
    joinAll [slash] names ∈ ((glob server turns none true pattern).exec
        (.fresh none held)).2.matched.map GlobMatch.path ↔
      Covers isRecursive fits (expand (splitComponents pattern)) names := by
  obtain ⟨front, back, hparts, hsplit, hliteral⟩ :=
    splitPattern_absolute habsolute htrailing hescape
  have hfront : ∀ component ∈ front, IsName component := by
    intro component hmem
    have hpart : component ∈ splitComponents pattern := hparts ▸ List.mem_append_left _ hmem
    exact ⟨(segment_of_mem hpart).1, hdots component hpart⟩
  have hbound : ∀ below ∈ (RemoteTree.at_ top hproper front).node,
      (Node.directories below).length ≤ turns := by
    intro below hbelow
    obtain ⟨hfound, hkind⟩ := Option.mem_filter_iff.mp hbelow
    exact (directories_length_le hproper hfound (by simpa using hkind)).trans hturns
  have hmem := (glob_ended held (hholds.serves hproper hfront) hsplit
    (fun component hmem => haccepted component (hparts ▸ List.mem_append_right _ hmem)) hvalid
      hbound).1 (joinAll [slash] names)
  rw [hmem, hparts]
  exact meant_iff hproper hliteral (fun component hmem => (hfront component hmem).1) hfind

end Agreement

/-- The sweep means what the components do, for all of them. And for an existing entry a path match
agrees with the server's yields if and only if they agree on a `**` at the end of the pattern. -/
theorem match_agrees_iff (caseSensitive : Bool) :
    (∀ pattern components : List Bytes,
      match matchComponents caseSensitive pattern components with
      | .ok matched =>
        matched = true ↔ Covers isRecursive (fitsCase caseSensitive) pattern components
      | .error error => ∃ element ∈ pattern, ∃ name ∈ components,
          matchComponent caseSensitive element name = .error error) ∧
    ∀ {σ : Type} (server : TreeServer) (top : Node) (pattern : Bytes) (names : List Bytes)
      (below : Node) (held : σ), server.Holds top → top.All Node.Proper →
      pattern.head? = some slash → pattern.getLast? ≠ some slash → escape ∉ pattern →
      (∀ component ∈ splitComponents pattern, component ∉ dotNames) →
      validatePattern pattern = .ok () →
      (∀ component ∈ splitComponents pattern, validatePattern component = .ok ()) →
      names ≠ [] → top.find names = some below →
        let path := joinAll [slash] names
        ∃ enough, ∀ turns, enough ≤ turns →
          ((matchPath true pattern path = .ok true ↔
              path ∈ ((glob server turns none true pattern).exec
                (.fresh none held)).2.matched.map GlobMatch.path) ↔
            TrailingAgrees (splitComponents pattern) names) := by
  refine ⟨matchComponents_covers caseSensitive, fun server top pattern names below held hholds hproper habsolute
    htrailing hescape hdots hvalid haccepted hne hfind => ?_⟩
  refine ⟨(Node.directories top).length, fun turns hturns => ?_⟩
  have hnames := segments_of_components (components_of_find hproper hfind)
  rw [matchPath_absolute habsolute hvalid haccepted hnames,
    mem_glob_absolute held hholds hproper habsolute htrailing hescape hdots hvalid haccepted hfind
      hturns]
  exact covers_expand_iff hne

/-- The file of the small tree matches `/d/**` where it is yielded. -/
theorem match_agrees_iff_small :
    let names := ["d".toUTF8.toList, "f".toUTF8.toList]
    let path := joinAll [slash] names
    ∃ enough, ∀ turns, enough ≤ turns →
      (matchPath true "/d/**".toUTF8.toList path = .ok true ↔
        path ∈ ((glob (.holding smallTree) turns none true "/d/**".toUTF8.toList).exec
          (.fresh none ())).2.matched.map GlobMatch.path) := by
  obtain ⟨enough, hiff⟩ := (match_agrees_iff true).2 (.holding smallTree) smallTree
    "/d/**".toUTF8.toList ["d".toUTF8.toList, "f".toUTF8.toList] (.node fileAttrs []) ()
    (TreeServer.holding_holds smallTree_proper) smallTree_proper (by decide +kernel)
    (by decide +kernel) (by decide +kernel) (by decide +kernel) (by decide +kernel)
    (by decide +kernel) (by decide +kernel) (by simp [smallTree, Trie.child, Trie.children])
  exact ⟨enough, fun turns hturns => (hiff turns hturns).mpr (by decide +kernel)⟩

/-- The directory of the small tree matches `/d/**`, and is not yielded. -/
theorem match_disagrees :
    ¬ ∀ (server : TreeServer) (top : Node) (pattern : Bytes) (names : List Bytes) (below : Node)
      (turns : ℕ),
      let path := joinAll [slash] names
      let ended := (glob server turns none true pattern).exec (.fresh none ())
      server.Holds top → top.All Node.Proper →
      pattern.head? = some slash → pattern.getLast? ≠ some slash → escape ∉ pattern →
      (∀ component ∈ splitComponents pattern, component ∉ dotNames) →
      validatePattern pattern = .ok () →
      (∀ component ∈ splitComponents pattern, validatePattern component = .ok ()) →
      names ≠ [] → top.find names = some below → ended.1 = .ok () →
        (matchPath true pattern path = .ok true ↔ path ∈ ended.2.matched.map GlobMatch.path) := by
  intro h
  have hagrees := h (.holding smallTree) smallTree "/d/**".toUTF8.toList ["d".toUTF8.toList]
    (.node directoryAttrs [("f".toUTF8.toList, .node fileAttrs [])]) 4
    (TreeServer.holding_holds smallTree_proper) smallTree_proper (by decide +kernel)
    (by decide +kernel) (by decide +kernel) (by decide +kernel) (by decide +kernel)
    (by decide +kernel) (by decide +kernel) (by simp [smallTree, Trie.child, Trie.children])
    (by decide +kernel)
  exact absurd hagrees (by decide +kernel)

end GantrySftp
