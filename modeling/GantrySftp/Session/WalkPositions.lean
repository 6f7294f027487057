import GantrySftp.Session.WalkDelivery

/-!
# Where a walk comes

In a tree in which no directory lists a name twice, a walk comes to every position once: pending
directories are never below one another, and what it finds in one is below that one only. It comes
to a directory after the one that it is in.
-/

namespace GantrySftp

open Library Program

/-- Neither position is below the other. -/
def Apart (position other : List Bytes) : Prop := ¬ position <+: other ∧ ¬ other <+: position

/-- A directory that lists no name twice. -/
def WalkEntry.Distinct (entry : WalkEntry) : Prop :=
  ((entry.directories ++ entry.files).map DirEntry.filename).Nodup

/-- Where the files of a visited directory are. -/
def WalkEntry.filePositions (entry : WalkEntry) : List (List Bytes) :=
  entry.files.map fun child => entry.relative ++ [child.filename]

/-- Where a visited directory and its files are. -/
def WalkEntry.positions (entry : WalkEntry) : List (List Bytes) :=
  entry.relative :: entry.filePositions

section Positions

variable {position other : List Bytes} {name name' : Bytes}

/-- What is in a directory is not below what is apart from it. -/
theorem Apart.child (h : Apart position other) : Apart (position ++ [name]) other := by
  refine ⟨fun hprefix => h.1 ((List.prefix_append _ _).trans hprefix), fun hprefix => ?_⟩
  rcases List.prefix_concat_iff.mp hprefix with rfl | hshorter
  · exact h.1 (List.prefix_append _ _)
  · exact h.2 hshorter

/-- Two names in one directory are apart. -/
theorem apart_children (h : name ≠ name') : Apart (position ++ [name]) (position ++ [name']) := by
  have hnot : ∀ {name name' : Bytes}, name ≠ name' → ¬ position ++ [name] <+: position ++ [name'] := by
    intro name name' hne hprefix
    have hnames := (List.prefix_append_right_inj position).mp hprefix
    rcases List.prefix_concat_iff.mp (show [name] <+: [] ++ [name'] from hnames) with heq | hnil
    · exact hne (List.singleton_inj.mp heq)
    · cases List.prefix_nil.mp hnil
  exact ⟨hnot h, hnot h.symm⟩

/-- Positions below two that are apart differ. -/
theorem Apart.ne (h : Apart position other) {below below' : List Bytes}
    (hbelow : position <+: below) (hbelow' : other <+: below') : below ≠ below' := by
  rintro rfl
  rcases List.prefix_or_prefix_of_prefix hbelow hbelow' with hprefix | hprefix
  · exact h.1 hprefix
  · exact h.2 hprefix

end Positions

section Walking

variable {listed : Bytes → List Bytes → WalkEntry → Prop}
  {pending rest : List (Bytes × List Bytes)} {entries : List WalkEntry}

/-- The directories found in one stay apart from one another and from all that are pending. -/
theorem apart_below {visited : WalkEntry} (hdistinct : visited.Distinct)
    (hpending : (visited.relative :: pending.map Prod.snd).Pairwise Apart) :
    ((visited.below ++ pending).map Prod.snd).Pairwise Apart := by
  obtain ⟨hfirst, hlater⟩ := List.pairwise_cons.mp hpending
  have hbelow : visited.below.map Prod.snd =
      visited.directories.map fun child => visited.relative ++ [child.filename] := by
    unfold WalkEntry.below
    rw [List.map_map]
    rfl
  rw [List.map_append, List.pairwise_append, hbelow]
  refine ⟨List.pairwise_map.mpr ?_, hlater, ?_⟩
  · have hnames : (visited.directories.map DirEntry.filename).Nodup := by
      unfold WalkEntry.Distinct at hdistinct
      rw [List.map_append] at hdistinct
      exact hdistinct.of_append_left
    exact (List.pairwise_map.mp hnames).imp fun hne => apart_children hne
  · intro position hposition other hother
    obtain ⟨child, -, rfl⟩ := List.mem_map.mp hposition
    exact (hfirst other hother).child

/-- A directory and its files are at different positions. -/
theorem WalkEntry.Distinct.positions {visited : WalkEntry} (h : visited.Distinct) :
    visited.positions.Nodup := by
  refine List.nodup_cons.mpr ⟨fun hmem => ?_, ?_⟩
  · obtain ⟨child, -, heq⟩ := List.mem_map.mp hmem
    simpa using congrArg List.length heq
  · have hnames : (visited.files.map DirEntry.filename).Nodup := by
      unfold WalkEntry.Distinct at h
      rw [List.map_append] at h
      exact h.of_append_right
    refine List.Pairwise.map _ (fun _ _ hne heq => hne ?_) (List.pairwise_map.mp hnames)
    exact List.singleton_inj.mp (List.append_cancel_left heq)

/-- What is in a visited directory, or it itself, is no position below what comes later. -/
theorem ne_of_later {visited : WalkEntry} (hdistinct : visited.Distinct)
    (hpending : (visited.relative :: pending.map Prod.snd).Pairwise Apart) {start later : List Bytes}
    (hstart : start ∈ (visited.below ++ pending).map Prod.snd) (hlater : start <+: later)
    {position : List Bytes} (hposition : position ∈ visited.positions) : position ≠ later := by
  rw [List.map_append] at hstart
  rcases List.mem_append.mp hstart with hbelow | hother
  · obtain ⟨_, hmem, rfl⟩ := List.mem_map.mp hbelow
    obtain ⟨directory, hdirectory, rfl⟩ := List.mem_map.mp hmem
    rcases List.mem_cons.mp hposition with rfl | hfile
    · rintro rfl
      have hlength := hlater.length_le
      rw [List.length_append, List.length_singleton] at hlength
      omega
    · obtain ⟨child, hchild, rfl⟩ := List.mem_map.mp hfile
      have hne : child.filename ≠ directory.filename := by
        unfold WalkEntry.Distinct at hdistinct
        rw [List.map_append] at hdistinct
        intro heq
        exact List.disjoint_of_nodup_append hdistinct (List.mem_map_of_mem hdirectory)
          (heq ▸ List.mem_map_of_mem hchild)
      exact (apart_children hne).ne List.prefix_rfl hlater
  · have hapart : Apart visited.relative start := (List.pairwise_cons.mp hpending).1 start hother
    rcases List.mem_cons.mp hposition with rfl | hfile
    · exact hapart.ne List.prefix_rfl hlater
    · obtain ⟨child, -, rfl⟩ := List.mem_map.mp hfile
      exact hapart.child.ne List.prefix_rfl hlater

/-- A walk comes to every position once, and only to those below what was pending. -/
theorem Walks.positions (h : Walks listed pending entries rest)
    (hlisted : ∀ directory relative entry, listed directory relative entry →
      entry.relative = relative)
    (hdistinct : ∀ entry ∈ entries, entry.Distinct)
    (hpending : (pending.map Prod.snd).Pairwise Apart) :
    (entries.flatMap WalkEntry.positions).Nodup ∧
      ∀ position ∈ entries.flatMap WalkEntry.positions,
        ∃ start ∈ pending.map Prod.snd, start <+: position := by
  induction h with
  | stop pending => exact ⟨.nil, fun position hmem => absurd hmem List.not_mem_nil⟩
  | @visit directory relative visited pending rest entries hvisited _ ih =>
    obtain rfl := hlisted _ _ _ hvisited
    have hone := hdistinct visited List.mem_cons_self
    obtain ⟨hnodup, hstarts⟩ := ih
      (fun entry hmem => hdistinct entry (List.mem_cons_of_mem _ hmem)) (apart_below hone hpending)
    rw [List.flatMap_cons]
    refine ⟨List.nodup_append.mpr ⟨hone.positions, hnodup, fun position hposition later hlater => ?_⟩,
      List.forall_mem_append.mpr ⟨fun position hposition => ?_, fun position hposition => ?_⟩⟩
    · obtain ⟨start, hstart, hprefix⟩ := hstarts later hlater
      exact ne_of_later hone hpending hstart hprefix hposition
    · refine ⟨visited.relative, List.mem_cons_self, ?_⟩
      rcases List.mem_cons.mp hposition with rfl | hfile
      · exact List.prefix_rfl
      · obtain ⟨child, -, rfl⟩ := List.mem_map.mp hfile
        exact List.prefix_append _ _
    · obtain ⟨start, hstart, hprefix⟩ := hstarts position hposition
      rw [List.map_append] at hstart
      rcases List.mem_append.mp hstart with hbelow | hother
      · obtain ⟨_, hmem, rfl⟩ := List.mem_map.mp hbelow
        obtain ⟨child, -, rfl⟩ := List.mem_map.mp hmem
        exact ⟨visited.relative, List.mem_cons_self, (List.prefix_append _ _).trans hprefix⟩
      · exact ⟨start, List.mem_cons_of_mem _ hother, hprefix⟩

/-- A walk comes to a directory that was not pending at the start after the one that it is in. -/
theorem Walks.parent (h : Walks listed pending entries rest)
    (hlisted : ∀ directory relative entry, listed directory relative entry →
      entry.relative = relative)
    {front back : List WalkEntry} {entry : WalkEntry} (hentries : entries = front ++ entry :: back) :
    entry.relative ∈ pending.map Prod.snd ∨ ∃ parent ∈ front, ∃ child ∈ parent.directories,
      entry.relative = parent.relative ++ [child.filename] := by
  induction h generalizing front with
  | stop pending => cases front with
    | nil => cases hentries
    | cons _ _ => cases hentries
  | @visit directory relative visited pending rest entries hvisited _ ih =>
    obtain rfl := hlisted _ _ _ hvisited
    cases front with
    | nil =>
      cases hentries
      exact Or.inl List.mem_cons_self
    | cons first front =>
      cases hentries
      rcases ih rfl with hpending | ⟨parent, hparent, child, hchild, heq⟩
      · rw [List.map_append] at hpending
        rcases List.mem_append.mp hpending with hbelow | hother
        · obtain ⟨_, hmem, heq⟩ := List.mem_map.mp hbelow
          obtain ⟨child, hchild, rfl⟩ := List.mem_map.mp hmem
          exact Or.inr ⟨visited, List.mem_cons_self, child, hchild, heq.symm⟩
        · exact Or.inl (List.mem_cons_of_mem _ hother)
      · exact Or.inr ⟨parent, List.mem_cons_of_mem _ hparent, child, hchild, heq⟩

end Walking

end GantrySftp
