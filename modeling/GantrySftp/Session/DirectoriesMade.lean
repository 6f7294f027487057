import GantrySftp.Session.MakeDirs
import GantrySftp.Session.StatusChecks

/-!
# Where making directories succeeds

Each call of `mkdir` against a server that holds a tree ends in one of three ways, and the walk up
the path is made of such calls. A path that is not blocked has its directories made, ancestors
first. What can go wrong is the last call: without `existOk` it is refused where the same walk has
made the directory already, under another spelling.
-/

namespace GantrySftp

open Library Program

namespace Talk

variable {κ : Type} [DecidableEq κ] {naming : Naming κ} {may : κ → Bool} {line : Line}
  {before : List Deed} {tree now now' : DirTree naming} {path : Bytes} {existOk : Bool}
  {conversation : Conversation}

/-! ## Looking at a tree -/

omit [DecidableEq κ] in
/-- A path leads to a directory where all its places are directories. -/
theorem DirTree.look_eq_directory_iff : now.look path = some .directory ↔
    naming.Names path ∧ ∀ place ∈ naming.trail path, now.occupant place = some .directory := by
  unfold DirTree.look
  rw [naming.trail_eq, List.forall_mem_append, List.forall_mem_singleton, ← and_assoc]
  by_cases h : now.Leads path
  · rw [if_pos h]
    exact (and_iff_right h).symm
  · rw [if_neg h]
    exact ⟨nofun, fun hall => absurd hall.1 h⟩

/-- After making a directory its place is one, and the others are what they were. -/
theorem DirTree.occupant_made (place : κ) : (now.made path).occupant place =
    if place = naming.place path then some .directory else now.occupant place :=
  Function.update_apply _ _ _ _

/-- What leads somewhere still does when a directory is made. -/
theorem DirTree.Leads.look_made (h : now.Leads path) :
    (now.made path).look path = some .directory := by
  rw [DirTree.look_eq_directory_iff, naming.trail_eq, List.forall_mem_append,
    List.forall_mem_singleton]
  refine ⟨h.1, fun place hmem => ?_, ?_⟩
  · rw [DirTree.occupant_made, h.2 place hmem, ite_self]
  · rw [DirTree.occupant_made, if_pos rfl]

/-! ## One call -/

/-- At this point of a conversation the server that held `tree` holds the tree `now`. -/
def Holding (before : List Deed) (tree : DirTree naming) (conversation : Conversation)
    (now : DirTree naming) : Prop :=
  ∃ sent, conversation.deeds = before ++ sent ∧ now = tree.after sent

/-- How one call of `mkdir` ends, and the tree it leaves. -/
inductive MkdirEnds (may : κ → Bool) (now : DirTree naming) (path : Bytes) :
    Bool → Except Failure Unit → DirTree naming → Prop
  | made {existOk : Bool} (h : now.Makeable may path) :
    MkdirEnds may now path existOk (.ok ()) (now.made path)
  | there (h : now.look path = some .directory) : MkdirEnds may now path true (.ok ()) now
  | refused {existOk : Bool} {failure : Failure} (hnot : ¬ now.Makeable may path)
    (hthere : existOk = true → now.look path ≠ some .directory)
    (hfailure : failure.isServerError = true) :
    MkdirEnds may now path existOk (.error failure) now

/-- A request and its answer are one more step. -/
theorem Holding.heard (h : Holding before tree conversation now) (demand : Demand) :
    Holding before tree (conversation.heard line demand)
      (now.heard (.asked demand (line.answer conversation.deeds demand))) := by
  obtain ⟨sent, hdeeds, rfl⟩ := h
  refine ⟨sent ++ [.asked demand (line.answer conversation.deeds demand)], ?_, ?_⟩
  · rw [← List.append_assoc, ← hdeeds]
    rfl
  · unfold DirTree.after
    rw [List.foldl_append]
    rfl

/-- Looking changes nothing. -/
theorem Holding.looked (h : Holding before tree conversation now) (path : Bytes) :
    Holding before tree (conversation.heard line (.lstat path)) now := h.heard (.lstat path)

/-- Looking at a path says whether it is a directory. -/
theorem exec_isDirectory (hserves : Serves may line before tree)
    (h : Holding before tree conversation now) (path : Bytes) :
    (isDirectory line path).exec conversation =
      (.ok (decide (now.look path = some .directory)), conversation.heard line (.lstat path)) := by
  obtain ⟨sent, hdeeds, rfl⟩ := h
  unfold isDirectory lstat expectAttrs
  rw [exec_tryCatch, exec_bind, exec_bind, exec_ask, hdeeds]
  cases hlook : (tree.after sent).look path with
  | none =>
    obtain ⟨code, message, hok, heof, hanswer⟩ := hserves.missing sent path hlook
    simp [hanswer, Except.mapError, unexpected, raiseForStatus, hok, heof, Failure.isServerError]
  | some occupant =>
    obtain ⟨attrs, hattrs, hanswer⟩ := hserves.found sent path occupant hlook
    cases occupant <;> simp [hanswer, Except.mapError, hattrs, Occupant.kind]

/-- How a call of `mkdir` ends. -/
theorem exec_mkdir (hserves : Serves may line before tree)
    (h : Holding before tree conversation now) (path : Bytes) (existOk : Bool) : ∃ now',
    MkdirEnds may now path existOk ((mkdir line path existOk).exec conversation).1 now' ∧
      Holding before tree ((mkdir line path existOk).exec conversation).2 now' := by
  have hheard : Holding before tree (conversation.heard line (.mkdir path)) _ :=
    h.heard (.mkdir path)
  have hsent := h
  obtain ⟨sent, hdeeds, rfl⟩ := h
  unfold mkdir
  rw [exec_tryCatch, exec_expectStatus]
  by_cases hmakeable : (tree.after sent).Makeable may path
  · obtain ⟨message, hanswer⟩ := hserves.make sent path hmakeable
    rw [← hdeeds] at hanswer
    rw [hanswer] at hheard ⊢
    exact ⟨_, .made hmakeable, hheard⟩
  · obtain ⟨code, message, hok, heof, hanswer⟩ := hserves.refuse sent path hmakeable
    rw [← hdeeds] at hanswer
    have hsame : (tree.after sent).heard (.asked (.mkdir path) (.ok (.status code message))) =
        tree.after sent := by
      cases code <;> first | rfl | exact absurd rfl hok
    rw [hanswer, hsame] at hheard
    simp only [hanswer, statusOutcome, raiseForStatus, hok, heof, or_self, if_false, mkdirRefused,
      Failure.isServerError, true_and]
    cases existOk with
    | false => exact ⟨_, .refused hmakeable (fun h => Bool.noConfusion h) rfl, hheard⟩
    | true =>
      rw [if_pos rfl, exec_bind, exec_isDirectory hserves hheard path]
      by_cases hlook : (tree.after sent).look path = some .directory
      · simp only [hlook, decide_true, if_true, exec_pure]
        exact ⟨_, .there hlook, hheard.looked path⟩
      · simp only [hlook, decide_false, Bool.false_eq_true, if_false, exec_throw]
        exact ⟨_, .refused hmakeable (fun _ => hlook) rfl, hheard.looked path⟩

/-! ## The walk up a path -/

/-- How the walk up a path ends, and the tree it leaves. -/
inductive ParentsEnd (may : κ → Bool) : DirTree naming → Bytes → Bool → Except Failure Unit →
    DirTree naming → Prop
  | once {now now' : DirTree naming} {path : Bytes} {existOk : Bool}
    (h : MkdirEnds may now path existOk (.ok ()) now') :
    ParentsEnd may now path existOk (.ok ()) now'
  | top {now now' : DirTree naming} {path : Bytes} {existOk : Bool} {failure : Failure}
    (h : MkdirEnds may now path existOk (.error failure) now') (hnil : parentLevel path = []) :
    ParentsEnd may now path existOk (.error failure) now'
  | above {now now' last : DirTree naming} {path : Bytes} {existOk : Bool} {failure raised : Failure}
    (h : MkdirEnds may now path existOk (.error failure) now') (hnil : parentLevel path ≠ [])
    (habove : ParentsEnd may now' (parentLevel path) true (.error raised) last) :
    ParentsEnd may now path existOk (.error raised) last
  | again {now now' middle last : DirTree naming} {path : Bytes} {existOk : Bool}
    {failure : Failure} {result : Except Failure Unit}
    (h : MkdirEnds may now path existOk (.error failure) now') (hnil : parentLevel path ≠ [])
    (habove : ParentsEnd may now' (parentLevel path) true (.ok ()) middle)
    (hagain : MkdirEnds may middle path existOk result last) :
    ParentsEnd may now path existOk result last

/-- How the walk up a path ends. -/
theorem exec_mkdirParents (hserves : Serves may line before tree)
    (h : Holding before tree conversation now) (path : Bytes) (existOk : Bool) : ∃ now',
    ParentsEnd may now path existOk ((mkdirParents line path existOk).exec conversation).1 now' ∧
      Holding before tree ((mkdirParents line path existOk).exec conversation).2 now' := by
  induction hlength : path.length using Nat.strong_induction_on generalizing path existOk now
    conversation with
  | _ length ih =>
    subst hlength
    obtain ⟨now', hends, hnow'⟩ := exec_mkdir hserves h path existOk
    rw [mkdirParents, exec_tryCatch]
    generalize (mkdir line path existOk).exec conversation = outcome at hends hnow'
    obtain ⟨failure | _, conversation'⟩ := outcome
    · have hserver : failure.isServerError = true := by
        cases hends with
        | refused _ _ hfailure => exact hfailure
      simp only [hserver, if_true]
      by_cases hlevel : parentLevel path = [] ∨ parentLevel path = path
      · rw [dif_pos hlevel]
        have hnil : parentLevel path = [] := by
          rcases hlevel with hnil | hself
          · exact hnil
          · rw [hself, eq_nil_of_parentLevel hself]
        exact ⟨now', .top hends hnil, hnow'⟩
      · rw [dif_neg hlevel, exec_bind]
        rw [not_or] at hlevel
        obtain ⟨middle, habove, hmiddle⟩ :=
          ih _ (parentLevel_length_lt hlevel.2) hnow' (parentLevel path) true rfl
        generalize (mkdirParents line (parentLevel path) true).exec conversation' = outcome
          at habove hmiddle ⊢
        obtain ⟨raised | _, between⟩ := outcome
        · exact ⟨middle, .above hends hlevel.1 habove, hmiddle⟩
        · obtain ⟨last, hagain, hlast⟩ := exec_mkdir hserves hmiddle path existOk
          exact ⟨last, .again hends hlevel.1 habove hagain, hlast⟩
    · exact ⟨now', .once hends, hnow'⟩

/-! ## What is left afterwards -/

/-- The tree `now'` is `now` with directories at all places a path leads through. -/
def DirTree.Fills (now now' : DirTree naming) (path : Bytes) : Prop :=
  ∀ place, now'.occupant place =
    if place ∈ naming.trail path then some .directory else now.occupant place

section Trees

omit [DecidableEq κ]

/-- Where a path is not blocked, its places are directories or may be made so. -/
theorem DirTree.not_blocked_iff : ¬ now.Blocked may path ↔
    naming.Names path ∧ ∀ place ∈ naming.trail path, now.occupant place = some .directory ∨
      now.occupant place = none ∧ may place = true := by
  unfold DirTree.Blocked
  rw [not_or, not_not]
  refine and_congr_right fun _ => ?_
  push Not
  refine forall₂_congr fun place _ => ?_
  cases hplace : now.occupant place with
  | none => simp
  | some occupant => cases occupant <;> simp

/-- A path that is not blocked is not blocked at the level above it. -/
theorem DirTree.not_blocked_level (h : ¬ now.Blocked may path) (hnil : parentLevel path ≠ []) :
    ¬ now.Blocked may (parentLevel path) := by
  rw [not_blocked_iff] at h ⊢
  exact ⟨Or.inl hnil, fun place hmem => h.2 place (naming.trail_level_subset hnil hmem)⟩

/-- Where paths begin there are directories. -/
theorem DirTree.occupant_origin (path : Bytes) :
    now.occupant (naming.origin path) = some .directory := by
  unfold Naming.origin
  split_ifs
  · exact now.root
  · exact now.start

/-- Where there is no level above a path, nothing above it is missing. -/
theorem DirTree.leads_of_level_nil (h : ¬ now.Blocked may path) (hnil : parentLevel path = []) :
    now.Leads path := by
  refine ⟨(not_blocked_iff.mp h).1, fun place hmem => ?_⟩
  rw [naming.eq_origin_of_mem hnil hmem]
  exact now.occupant_origin path

/-- A path leads to its place where all above it are directories. -/
theorem DirTree.Leads.look_eq (h : now.Leads path) :
    now.look path = now.occupant (naming.place path) := if_pos h

/-- A path leads somewhere only where all above it are directories. -/
theorem DirTree.leads_of_look {occupant : Occupant} (h : now.look path = some occupant) :
    now.Leads path := by
  by_contra hleads
  unfold look at h
  rw [if_neg hleads] at h
  cases h

/-- A path that is not blocked and misses nothing above it leads to a directory, or one can be
made there. -/
theorem DirTree.Leads.directory_or_makeable (h : now.Leads path) (hblocked : ¬ now.Blocked may path) :
    now.look path = some .directory ∨ now.Makeable may path := by
  rw [h.look_eq]
  have hplace := (not_blocked_iff.mp hblocked).2 (naming.place path)
    (by rw [naming.trail_eq]; exact List.mem_concat_self)
  exact hplace.imp_right fun hmissing => ⟨h, hmissing⟩

end Trees

/-- After the level above a path was filled, nothing above the path is missing, and it is blocked
no more than before. -/
theorem DirTree.Fills.leads (h : now.Fills now' (parentLevel path)) (hnil : parentLevel path ≠ [])
    (hblocked : ¬ now.Blocked may path) : now'.Leads path ∧ ¬ now'.Blocked may path := by
  have hplaces := DirTree.not_blocked_iff.mp hblocked
  refine ⟨⟨hplaces.1, fun place hmem => ?_⟩, DirTree.not_blocked_iff.mpr ⟨hplaces.1, ?_⟩⟩
  · rw [h place, if_pos (naming.mem_trail_level hnil hmem)]
  · intro place hmem
    rw [h place]
    by_cases hlevel : place ∈ naming.trail (parentLevel path)
    · exact Or.inl (if_pos hlevel)
    · rw [if_neg hlevel]
      exact hplaces.2 place hmem

/-- Filling the level above a path first changes nothing in the end. -/
theorem DirTree.Fills.trans {middle : DirTree naming} (h : now.Fills middle (parentLevel path))
    (hnil : parentLevel path ≠ []) (hlast : middle.Fills now' path) : now.Fills now' path := by
  intro place
  rw [hlast place, h place]
  by_cases hmem : place ∈ naming.trail path
  · rw [if_pos hmem, if_pos hmem]
  · rw [if_neg hmem, if_neg hmem, if_neg fun hlevel => hmem (naming.trail_level_subset hnil hlevel)]

namespace MkdirEnds

variable {result : Except Failure Unit} {failure : Failure}

/-- A call that returns leaves a directory. -/
theorem look_eq_directory (h : MkdirEnds may now path existOk (.ok ()) now') :
    now'.look path = some .directory := by
  cases h with
  | made hmakeable => exact hmakeable.1.look_made
  | there hlook => exact hlook

/-- Nothing was missing above a path where a call returned. -/
theorem leads (h : MkdirEnds may now path existOk (.ok ()) now') : now.Leads path := by
  cases h with
  | made hmakeable => exact hmakeable.1
  | there hlook => exact DirTree.leads_of_look hlook

/-- A call raises only a `ServerError`, where no directory can be made, and changes nothing. -/
theorem of_error (h : MkdirEnds may now path existOk (.error failure) now') :
    now' = now ∧ failure.isServerError = true ∧ ¬ now.Makeable may path := by
  cases h with
  | refused hnot _ hfailure => exact ⟨rfl, hfailure, hnot⟩

/-- A call that puts up with what is there fills the places of a path that misses nothing above
it and is not blocked. -/
theorem fills (h : MkdirEnds may now path true result now') (hleads : now.Leads path)
    (hblocked : ¬ now.Blocked may path) : result = .ok () ∧ now.Fills now' path := by
  cases h with
  | made hmakeable =>
    refine ⟨rfl, fun place => ?_⟩
    rw [DirTree.occupant_made, naming.trail_eq]
    by_cases hplace : place = naming.place path
    · rw [if_pos hplace, if_pos (hplace ▸ List.mem_concat_self)]
    · rw [if_neg hplace]
      by_cases hmem : place ∈ naming.ancestors path
      · rw [if_pos (List.mem_append_left _ hmem), hleads.2 place hmem]
      · rw [if_neg]
        rw [List.mem_append, List.mem_singleton]
        exact not_or.mpr ⟨hmem, hplace⟩
  | there hlook =>
    refine ⟨rfl, fun place => ?_⟩
    by_cases hmem : place ∈ naming.trail path
    · rw [if_pos hmem, (DirTree.look_eq_directory_iff.mp hlook).2 place hmem]
    · rw [if_neg hmem]
  | refused hnot hthere _ =>
    rcases hleads.directory_or_makeable hblocked with hlook | hmakeable
    · exact absurd hlook (hthere rfl)
    · exact absurd hmakeable hnot

end MkdirEnds

namespace ParentsEnd

variable {result : Except Failure Unit} {failure : Failure}

/-- The walk up a path returns only with a directory there. -/
theorem look_eq_directory (h : ParentsEnd may now path existOk (.ok ()) now') :
    now'.look path = some .directory := by
  cases h with
  | once hends => exact hends.look_eq_directory
  | again _ _ _ hagain => exact hagain.look_eq_directory

/-- The walk up a path raises only a `ServerError`. -/
theorem isServerError (h : ParentsEnd may now path existOk result now')
    (hresult : result = .error failure) : failure.isServerError = true := by
  induction h with
  | once => cases hresult
  | top hends =>
    cases hresult
    exact hends.of_error.2.1
  | above _ _ _ ih => exact ih hresult
  | again _ _ _ hagain =>
    rw [hresult] at hagain
    exact hagain.of_error.2.1

/-- The walk up a path that puts up with what is there fills the path, unless it is blocked. -/
theorem fills (h : ParentsEnd may now path existOk result now') (hok : existOk = true)
    (hblocked : ¬ now.Blocked may path) : result = .ok () ∧ now.Fills now' path := by
  induction h with
  | once hends =>
    subst hok
    exact hends.fills hends.leads hblocked
  | top hends hnil =>
    subst hok
    exact hends.fills (DirTree.leads_of_level_nil hblocked hnil) hblocked
  | above hends hnil _ ih =>
    obtain ⟨rfl, -⟩ := hends.of_error
    cases (ih rfl (DirTree.not_blocked_level hblocked hnil)).1
  | again hends hnil _ hagain ih =>
    subst hok
    obtain ⟨rfl, -⟩ := hends.of_error
    have hlevel := (ih rfl (DirTree.not_blocked_level hblocked hnil)).2
    have hmiddle := hlevel.leads hnil hblocked
    have hlast := hagain.fills hmiddle.1 hmiddle.2
    exact ⟨hlast.1, hlevel.trans hnil hlast.2⟩

end ParentsEnd

/-! ## What the walk itself makes -/

/-- The place a path names is not there for want of something above it, and will be a directory
when that is made: it is one already, or the level above the path leads through it. -/
def DirTree.Overtakes (may : κ → Bool) (tree : DirTree naming) (path : Bytes) : Prop :=
  ¬ tree.Blocked may path ∧ ¬ tree.Leads path ∧
    (tree.occupant (naming.place path) = some .directory ∨
      naming.place path ∈ naming.trail (parentLevel path))

instance (may : κ → Bool) (path : Bytes) : Decidable (tree.Blocked may path) :=
  inferInstanceAs (Decidable (_ ∨ ∃ place ∈ _, _))

instance (may : κ → Bool) (path : Bytes) : Decidable (tree.Overtakes may path) :=
  inferInstanceAs (Decidable (_ ∧ _))

/-- What a call that makes directories comes to: it returns only with directories along the whole
path, and raises only if the path was there and that would not do, or it is blocked. -/
structure MadeRight (may : κ → Bool) (tree : DirTree naming) (path : Bytes) (existOk : Bool)
    (result : Except Failure Unit) (now : DirTree naming) : Prop where
  made : result = .ok () →
    naming.Names path ∧ ∀ place ∈ naming.trail path, now.occupant place = some .directory
  raised : ∀ failure, result = .error failure →
    (existOk = false ∧ tree.look path ≠ none) ∨ tree.Blocked may path

namespace ParentsEnd

variable {result : Except Failure Unit} {failure : Failure}

/-- The walk raises where it makes the directory itself and an existing one will not do. -/
theorem raises_of_overtakes (h : ParentsEnd may now path false result now')
    (hovertakes : now.Overtakes may path) : ∃ failure, result = .error failure := by
  obtain ⟨hblocked, hleads, hplace⟩ := hovertakes
  cases h with
  | once hends => exact absurd hends.leads hleads
  | top => exact ⟨_, rfl⟩
  | above => exact ⟨_, rfl⟩
  | again hends hnil habove hagain =>
    obtain ⟨rfl, -⟩ := hends.of_error
    have hfills := (habove.fills rfl (DirTree.not_blocked_level hblocked hnil)).2
    cases hagain with
    | refused => exact ⟨_, rfl⟩
    | made hmakeable =>
      have hmissing := hmakeable.2.1
      rw [hfills (naming.place path)] at hmissing
      split_ifs at hmissing with hmem
      rw [hplace.resolve_right hmem] at hmissing
      cases hmissing

/-- Otherwise the walk raises only if the path was there, or it is blocked. -/
theorem raised (h : ParentsEnd may now path existOk (.error failure) now')
    (hovertakes : existOk = false → ¬ now.Overtakes may path) :
    (existOk = false ∧ now.look path ≠ none) ∨ now.Blocked may path := by
  by_contra hnot
  obtain ⟨hlook, hblocked⟩ := not_or.mp hnot
  cases existOk with
  | true => cases (h.fills rfl hblocked).1
  | false =>
    have hmissing : now.look path ≠ some .directory := fun hdirectory =>
      hlook ⟨rfl, by rw [hdirectory]; exact Option.some_ne_none _⟩
    have hfirst : ¬ now.Makeable may path := by
      cases h with
      | top hends => exact hends.of_error.2.2
      | above hends => exact hends.of_error.2.2
      | again hends => exact hends.of_error.2.2
    by_cases hleads : now.Leads path
    · exact (hleads.directory_or_makeable hblocked).elim hmissing hfirst
    · cases h with
      | top _ hnil => exact hleads (DirTree.leads_of_level_nil hblocked hnil)
      | above hends hnil habove =>
        obtain ⟨rfl, -⟩ := hends.of_error
        cases (habove.fills rfl (DirTree.not_blocked_level hblocked hnil)).1
      | again hends hnil habove hagain =>
        obtain ⟨rfl, -⟩ := hends.of_error
        have hfills := (habove.fills rfl (DirTree.not_blocked_level hblocked hnil)).2
        obtain ⟨hmiddle, hunblocked⟩ := hfills.leads hnil hblocked
        have hdirectory := (hmiddle.directory_or_makeable hunblocked).resolve_right hagain.of_error.2.2
        rw [hmiddle.look_eq, hfills (naming.place path)] at hdirectory
        refine hovertakes rfl ⟨hblocked, hleads, ?_⟩
        split_ifs at hdirectory with hmem
        · exact Or.inr hmem
        · exact Or.inl hdirectory

/-- The walk comes to what it should unless it makes the directory itself and an existing one will
not do. -/
theorem madeRight_iff (h : ParentsEnd may now path existOk result now') :
    MadeRight may now path existOk result now' ↔
      ¬ (existOk = false ∧ now.Overtakes may path) := by
  constructor
  · rintro hright ⟨rfl, hovertakes⟩
    obtain ⟨failure, rfl⟩ := h.raises_of_overtakes hovertakes
    rcases hright.raised failure rfl with ⟨-, hlook⟩ | hblocked
    · exact hlook (if_neg hovertakes.2.1)
    · exact hovertakes.1 hblocked
  · intro hnot
    refine ⟨?_, ?_⟩
    · rintro rfl
      exact DirTree.look_eq_directory_iff.mp h.look_eq_directory
    · rintro failure rfl
      exact h.raised fun hfalse hovertakes => hnot ⟨hfalse, hovertakes⟩

end ParentsEnd

/-! ## Names without dots -/

/-- Places named by the components that lead to them from the root, where relative paths start
too. A component may stand for the place it is entered from or for the one above that. -/
def unixNaming : Naming (List Bytes) where
  root := []
  start := []
  enter := fun place component =>
    if component = ".".toUTF8.toList then place
    else if component = "..".toUTF8.toList then place.dropLast
    else place ++ [component]
  takesEmpty := false

/-- Components without dots lead each one place further. -/
theorem foldl_enter {components : List Bytes} (h : ∀ component ∈ components, component ∉ dotNames)
    (place : List Bytes) : components.foldl unixNaming.enter place = place ++ components := by
  induction components generalizing place with
  | nil => exact (List.append_nil _).symm
  | cons component components ih =>
    rw [List.forall_mem_cons] at h
    have henter : unixNaming.enter place component = place ++ [component] := by
      have hdots := h.1
      unfold dotNames at hdots
      rw [List.mem_cons, List.mem_singleton, not_or] at hdots
      change (if _ then _ else if _ then _ else _) = _
      rw [if_neg hdots.1, if_neg hdots.2]
    rw [List.foldl_cons, henter, ih h.2, List.append_assoc, List.singleton_append]

/-- Without dots a path leads through the beginnings of its components. -/
theorem mem_trail_unix {path : Bytes} (h : ∀ component ∈ splitComponents path, component ∉ dotNames)
    {place : List Bytes} :
    place ∈ unixNaming.trail path ↔ place <+: splitComponents path := by
  have horigin : unixNaming.origin path = [] := ite_self _
  unfold Naming.trail
  rw [horigin, List.mem_iff_getElem?]
  constructor
  · rintro ⟨index, hindex⟩
    rw [List.getElem?_scanl] at hindex
    split_ifs at hindex
    rw [foldl_enter fun component hmem => h component (List.mem_of_mem_take hmem)] at hindex
    rw [← Option.some_inj.mp hindex]
    exact List.take_prefix _ _
  · intro hprefix
    refine ⟨place.length, ?_⟩
    rw [List.getElem?_scanl, if_pos hprefix.length_le,
      foldl_enter fun component hmem => h component (List.mem_of_mem_take hmem),
      ← List.prefix_iff_eq_take.mp hprefix, List.nil_append]

/-- Without dots a path names the place of its components. -/
theorem place_unix {path : Bytes} (h : ∀ component ∈ splitComponents path, component ∉ dotNames) :
    unixNaming.place path = splitComponents path := by
  have horigin : unixNaming.origin path = [] := ite_self _
  unfold Naming.place
  rw [horigin, foldl_enter h, List.nil_append]

/-- Where every place is entered from a directory, all above one that is there are directories. -/
theorem occupant_of_append {tree : DirTree unixNaming}
    (hproper : ∀ place component, tree.occupant (place ++ [component]) ≠ none →
      tree.occupant place = some .directory)
    {behind : List Bytes} (hne : behind ≠ []) (front : List Bytes)
    (h : tree.occupant (front ++ behind) ≠ none) : tree.occupant front = some .directory := by
  induction behind generalizing front with
  | nil => exact absurd rfl hne
  | cons component behind ih =>
    cases behind with
    | nil => exact hproper front component h
    | cons next behind =>
      apply hproper front component
      rw [ih (List.cons_ne_nil _ _) (front ++ [component]) (by simpa using h)]
      exact Option.some_ne_none _

/-- Where every place is entered from a directory and a path has no dots, the walk makes the
directory itself exactly when something above it is missing and the path ends in a separator. -/
theorem overtakes_unix_iff {may : List Bytes → Bool} {tree : DirTree unixNaming}
    (hproper : ∀ place component, tree.occupant (place ++ [component]) ≠ none →
      tree.occupant place = some .directory)
    {path : Bytes} (hplain : ∀ component ∈ splitComponents path, component ∉ dotNames) :
    tree.Overtakes may path ↔
      ¬ tree.Blocked may path ∧ ¬ tree.Leads path ∧ (splitParent path).2 = [] := by
  have hsplit := splitComponents_level path
  have hlevel : ∀ component ∈ splitComponents (parentLevel path), component ∉ dotNames :=
    fun component hmem => hplain component (by rw [hsplit]; exact List.mem_append_left _ hmem)
  have hmem : unixNaming.place path ∈ unixNaming.trail (parentLevel path) ↔
      (splitParent path).2 = [] := by
    rw [mem_trail_unix hlevel, place_unix hplain, hsplit]
    split_ifs with hname
    · rw [List.append_nil]
      exact iff_of_true List.prefix_rfl hname
    · refine iff_of_false (fun hprefix => ?_) hname
      have hle := hprefix.length_le
      rw [List.length_append] at hle
      simp at hle
  unfold DirTree.Overtakes
  rw [hmem]
  refine and_congr_right fun hblocked => and_congr_right fun hleads => or_iff_right ?_
  intro hdirectory
  refine hleads ⟨(DirTree.not_blocked_iff.mp hblocked).1, fun place hplace => ?_⟩
  obtain ⟨behind, hbehind⟩ := (mem_trail_unix hplain).mp (List.mem_of_mem_dropLast hplace)
  rw [place_unix hplain, ← hbehind] at hdirectory
  by_cases hnil : behind = []
  · rwa [hnil, List.append_nil] at hdirectory
  · exact occupant_of_append hproper hnil place (by rw [hdirectory]; exact Option.some_ne_none _)

/-! ## The whole call -/

/-- Looking at what is in the way raises nothing and changes nothing. -/
theorem exec_noteWhatIsInTheWay (hserves : Serves may line before tree)
    (h : Holding before tree conversation now) (failure : Failure) :
    ((noteWhatIsInTheWay line failure).exec conversation).1 = .ok () ∧
      Holding before tree ((noteWhatIsInTheWay line failure).exec conversation).2 now := by
  unfold noteWhatIsInTheWay
  split
  · next path =>
    have hlooked : Holding before tree (conversation.heard line (.lstat path)) now :=
      h.looked path
    obtain ⟨sent, hdeeds, rfl⟩ := h
    unfold lstat expectAttrs
    rw [exec_tryCatch, exec_bind, exec_bind, exec_ask]
    cases hlook : (tree.after sent).look path with
    | none =>
      obtain ⟨code, message, hok, heof, hanswer⟩ := hserves.missing sent path hlook
      rw [← hdeeds] at hanswer
      rw [hanswer]
      simpa [Except.mapError, unexpected, raiseForStatus, hok, heof, Failure.isServerError]
        using hlooked
    | some occupant =>
      obtain ⟨attrs, -, hanswer⟩ := hserves.found sent path occupant hlook
      rw [← hdeeds] at hanswer
      rw [hanswer]
      simpa [Except.mapError] using hlooked
  · exact ⟨rfl, h⟩

/-- Making directories ends as the walk up the path does. -/
theorem exec_makedirs (hserves : Serves may line before tree)
    (h : Holding before tree conversation now) (path : Bytes) (existOk : Bool) : ∃ now',
    ParentsEnd may now path existOk ((makedirs line path existOk).exec conversation).1 now' ∧
      Holding before tree ((makedirs line path existOk).exec conversation).2 now' := by
  obtain ⟨now', hends, hnow'⟩ := exec_mkdirParents hserves h path existOk
  unfold makedirs
  rw [exec_tryCatch]
  generalize (mkdirParents line path existOk).exec conversation = outcome at hends hnow'
  obtain ⟨failure | _, conversation'⟩ := outcome
  · simp only [hends.isServerError rfl, if_true]
    obtain ⟨hnote, hholding⟩ := exec_noteWhatIsInTheWay hserves hnow' failure
    rw [exec_bind]
    generalize (noteWhatIsInTheWay line failure).exec conversation' = outcome at hnote hholding ⊢
    obtain ⟨_ | _, _⟩ := outcome
    · cases hnote
    · exact ⟨now', hends, hholding⟩
  · exact ⟨now', hends, hnow'⟩

/-- Against a server that holds a tree, from any conversation, making directories comes to what it
should exactly when an existing directory will do, or the walk does not make the directory itself
before it asks for it again. -/
theorem makedirs_iff (hserves : Serves may line conversation.deeds tree) (path : Bytes)
    (existOk : Bool) :
    (∃ sent, ((makedirs line path existOk).exec conversation).2.deeds = conversation.deeds ++ sent ∧
      MadeRight may tree path existOk ((makedirs line path existOk).exec conversation).1
        (tree.after sent)) ↔
      ¬ (existOk = false ∧ tree.Overtakes may path) := by
  have hstart : Holding conversation.deeds tree conversation tree :=
    ⟨[], (List.append_nil _).symm, rfl⟩
  obtain ⟨now', hends, sent, hsent, rfl⟩ := exec_makedirs hserves hstart path existOk
  rw [← hends.madeRight_iff]
  constructor
  · rintro ⟨sent', hsent', hright⟩
    obtain rfl : sent' = sent := List.append_cancel_left (hsent'.symm.trans hsent)
    exact hright
  · exact fun hright => ⟨sent, hsent, hright⟩

/-- A tree with nothing in it. -/
def emptyTree : DirTree unixNaming where
  occupant := fun place => if place = [] then some .directory else none
  root := rfl
  start := rfl

/-- Attributes that report a kind. -/
def Occupant.attrs : Occupant → Attrs
  | directory => { permissions := some 0o40755 }
  | file => { permissions := some 0o100644 }

/-- A session with a server that holds a tree. -/
def Line.holding (may : κ → Bool) (tree : DirTree naming) : Line :=
  { Line.answering fun _ => .ok (.status .opUnsupported []) with
    answer := fun sent demand =>
      match demand with
      | .mkdir path =>
        if (tree.after sent).Makeable may path then .ok (.status .ok [])
        else .ok (.status .failure [])
      | .lstat path =>
        match (tree.after sent).look path with
        | some occupant => .ok (.attrs occupant.attrs)
        | none => .ok (.status .noSuchFile [])
      | _ => .ok (.status .opUnsupported []) }

/-- Such a server holds its tree. -/
theorem Line.holding_serves (may : κ → Bool) (tree : DirTree naming) :
    Serves may (Line.holding may tree) [] tree where
  make := fun _ _ h => ⟨[], if_pos h⟩
  refuse := fun _ _ h => ⟨.failure, [], nofun, nofun, if_neg h⟩
  found := by
    intro sent path occupant h
    refine ⟨occupant.attrs, ?_, ?_⟩
    · cases occupant <;> decide
    · simp [holding, h]
  missing := fun sent path h => ⟨.noSuchFile, [], nofun, nofun, by simp [holding, h]⟩

/-- In an empty tree a path of two components can be made, and was not there before. Asked for with
a separator at its end it is refused all the same, because the walk makes it before it asks again. -/
theorem makedirs_trailing_separator :
    let path := "a/b/".toUTF8.toList
    let outcome :=
      (makedirs (Line.holding (fun _ => true) emptyTree) path false).exec .fresh
    emptyTree.look path = none ∧ ¬ emptyTree.Blocked (fun _ => true) path ∧
      outcome.1 = .error (.serverError .failure [] (some path)) ∧
      (emptyTree.after outcome.2.deeds).look path = some .directory ∧
      ¬ ∃ sent, outcome.2.deeds = [] ++ sent ∧
        MadeRight (fun _ => true) emptyTree path false outcome.1 (emptyTree.after sent) := by
  intro path outcome
  have hlook : emptyTree.look path = none := by decide +kernel
  have hblocked : ¬ emptyTree.Blocked (fun _ => true) path := by decide +kernel
  have hraised : outcome.1 = .error (.serverError .failure [] (some path)) := by decide +kernel
  refine ⟨hlook, hblocked, hraised, by decide +kernel, ?_⟩
  rintro ⟨sent, -, hright⟩
  rcases hright.raised _ hraised with ⟨-, hthere⟩ | hstopped
  · exact hthere hlook
  · exact hblocked hstopped

/-- The same path without the separator is made. -/
theorem makedirs_two_components :
    ∃ sent, ((makedirs (Line.holding (fun _ => true) emptyTree) "a/b".toUTF8.toList false).exec
        .fresh).2.deeds = Conversation.fresh.deeds ++ sent ∧
      MadeRight (fun _ => true) emptyTree "a/b".toUTF8.toList false
        ((makedirs (Line.holding (fun _ => true) emptyTree) "a/b".toUTF8.toList false).exec
          .fresh).1 (emptyTree.after sent) :=
  (makedirs_iff (Line.holding_serves (fun _ => true) emptyTree) "a/b".toUTF8.toList false).mpr
    (by decide +kernel)

end Talk

end GantrySftp
