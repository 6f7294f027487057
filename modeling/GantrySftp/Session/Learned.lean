import GantrySftp.Session.ConversationSteps

/-!
# What a session has learned of its server

An extension is remembered as unknown exactly when the server does not advertise it and answered
a request for it with OP_UNSUPPORTED. It is never asked for again, and no later operation reports
it as performed.
-/

namespace GantrySftp

open Library Program Relation

namespace Talk

variable {line : Line} {earlier later latest : Conversation}

/-! ## What every step keeps -/

/-- One session comes after another: everything done stays done. -/
def Follows (earlier later : Conversation) : Prop := earlier.deeds <+: later.deeds

/-- What was done between two moments of a session. -/
def Since (earlier later : Conversation) (deed : Deed) : Prop :=
  ∃ done, later.deeds = earlier.deeds ++ done ∧ deed ∈ done

/-- A request for an extension was answered with OP_UNSUPPORTED. -/
def Declined (deeds : List Deed) (extension : Bytes) : Prop :=
  ∃ demand answer, Deed.asked demand answer ∈ deeds ∧ demand.extension = some extension ∧
    answer.saysUnsupported = true

/-- What a session has learned is what its record shows. -/
def Exact (line : Line) (conversation : Conversation) : Prop :=
  ∀ extension, extension ∈ conversation.unsupported ↔
    extension ∉ line.advertised ∧ Declined conversation.deeds extension

/-- Whether something done was a request for an extension. -/
def Deed.isFor (extension : Bytes) : Deed → Prop
  | .asked demand _ => demand.extension = some extension
  | .worked => False

/-- Nothing was asked for an extension between two moments of a session. -/
def Quiet (extension : Bytes) (earlier later : Conversation) : Prop :=
  ∃ done, later.deeds = earlier.deeds ++ done ∧ ∀ deed ∈ done, ¬ deed.isFor extension

/-- After an extension that the server does not advertise was declined, nothing in the record was
asked for it. -/
def Heeded (line : Line) (conversation : Conversation) : Prop :=
  ∀ extension before after, conversation.deeds = before ++ after →
    extension ∉ line.advertised → Declined before extension →
      ∀ deed ∈ after, ¬ deed.isFor extension

/-- Nothing was done yet. -/
theorem Quiet.refl (extension : Bytes) (conversation : Conversation) :
    Quiet extension conversation conversation := ⟨[], by simp⟩

/-- What a step does. -/
theorem Step.deeds_eq (h : Step line earlier later) :
    later.deeds = earlier.deeds ∨ ∃ deed, later.deeds = earlier.deeds ++ [deed] := by
  cases h with
  | worked => exact Or.inr ⟨_, rfl⟩
  | rooted => exact Or.inl rfl
  | asked => exact Or.inr ⟨_, rfl⟩
  | tried demand extension => exact Or.inr ⟨_, earlier.tried_deeds line extension demand⟩

/-- Everything done stays done, one step later. -/
theorem Follows.step (h : Follows earlier later) (hstep : Step line later latest) :
    Follows earlier latest := by
  rcases hstep.deeds_eq with heq | ⟨deed, heq⟩
  · rw [Follows, heq]
    exact h
  · rw [Follows, heq]
    exact h.trans (List.prefix_append _ _)

/-- What was learned stays learned, one step later. -/
theorem Step.learned (h : Step line earlier later) {extension : Bytes}
    (hlearned : extension ∈ earlier.unsupported) : extension ∈ later.unsupported := by
  cases h with
  | worked => exact hlearned
  | rooted => exact hlearned
  | asked => exact hlearned
  | tried =>
    unfold Conversation.tried
    split_ifs
    · exact List.mem_cons_of_mem _ hlearned
    · exact hlearned

/-- An extension known to be missing is not asked for, one step later. -/
theorem Quiet.step {extension : Bytes} (h : Quiet extension earlier later)
    (hlearned : extension ∈ later.unsupported) (hstep : Step line later latest) :
    Quiet extension earlier latest := by
  obtain ⟨done, heq, hdone⟩ := h
  have hone : ∀ deed, latest.deeds = later.deeds ++ [deed] → ¬ deed.isFor extension →
      Quiet extension earlier latest := by
    intro deed hlatest hnot
    refine ⟨done ++ [deed], by rw [hlatest, heq, List.append_assoc], ?_⟩
    intro other hother
    rcases List.mem_append.mp hother with hother | hother
    · exact hdone other hother
    · rw [List.mem_singleton.mp hother]
      exact hnot
  cases hstep with
  | worked => exact hone _ rfl id
  | rooted => exact ⟨done, heq, hdone⟩
  | asked demand hnone => exact hone _ rfl (by simp [Deed.isFor, hnone])
  | tried demand other hother hnew =>
    refine hone _ (later.tried_deeds line other demand) fun hsame => ?_
    obtain rfl := Option.some.inj (hother.symm.trans hsame)
    exact hnew hlearned

/-- A session that has just begun has learned what its record shows. -/
theorem exact_fresh : Exact line .fresh := by simp [Exact, Declined, Conversation.fresh]

/-- A record with one more entry shows that a request was declined if it did before, or if the
entry does. -/
theorem declined_concat {deeds : List Deed} {deed : Deed} {extension : Bytes} :
    Declined (deeds ++ [deed]) extension ↔ Declined deeds extension ∨
      ∃ demand answer, deed = .asked demand answer ∧ demand.extension = some extension ∧
        answer.saysUnsupported = true := by
  unfold Declined
  simp only [List.mem_append, List.mem_singleton]
  constructor
  · rintro ⟨demand, answer, hmem | heq, hdeclined⟩
    · exact Or.inl ⟨demand, answer, hmem, hdeclined⟩
    · exact Or.inr ⟨demand, answer, heq.symm, hdeclined⟩
  · rintro (⟨demand, answer, hmem, hdeclined⟩ | ⟨demand, answer, heq, hdeclined⟩)
    · exact ⟨demand, answer, Or.inl hmem, hdeclined⟩
    · exact ⟨demand, answer, Or.inr heq.symm, hdeclined⟩

/-- Every step keeps what was learned exact. -/
theorem Exact.step (h : Exact line earlier) (hstep : Step line earlier later) :
    Exact line later := by
  intro extension
  cases hstep with
  | worked => simp [Conversation.worked, declined_concat, h extension]
  | rooted => exact h extension
  | asked demand hnone => simp [Conversation.heard, declined_concat, h extension, hnone]
  | tried demand other hother hnew =>
    have hsupports : line.supports other = true ↔ other ∈ line.advertised := by
      simp [Line.supports]
    unfold Conversation.tried
    split_ifs with htold
    · rw [hsupports] at htold
      simp only [Conversation.learn, Conversation.heard, List.mem_cons, declined_concat,
        h extension]
      constructor
      · rintro (rfl | hlearned)
        · exact ⟨htold.2, Or.inr ⟨_, _, rfl, hother, htold.1⟩⟩
        · exact ⟨hlearned.1, Or.inl hlearned.2⟩
      · rintro ⟨hunknown, hdeclined | ⟨_, _, hasked, hsame, -⟩⟩
        · exact Or.inr ⟨hunknown, hdeclined⟩
        · cases hasked
          exact Or.inl (Option.some.inj (hsame.symm.trans hother))
    · rw [hsupports] at htold
      simp only [Conversation.heard, declined_concat, h extension]
      constructor
      · exact fun hlearned => ⟨hlearned.1, Or.inl hlearned.2⟩
      · rintro ⟨hunknown, hdeclined | ⟨_, _, hasked, hsame, hclaim⟩⟩
        · exact ⟨hunknown, hdeclined⟩
        · cases hasked
          obtain rfl := Option.some.inj (hsame.symm.trans hother)
          exact absurd ⟨hclaim, hunknown⟩ htold

/-- A record in which nothing was done yet heeds everything. -/
theorem heeded_fresh : Heeded line .fresh := by
  intro extension before after hsplit _ _ deed hmem
  obtain ⟨-, rfl⟩ := List.append_eq_nil_iff.mp hsplit.symm
  exact absurd hmem List.not_mem_nil

/-- A step asks for nothing that the server declined and does not advertise. -/
theorem Step.not_isFor (hstep : Step line earlier later) (hexact : Exact line earlier)
    {extension : Bytes} (hunknown : extension ∉ line.advertised)
    (hdeclined : Declined earlier.deeds extension) {deed : Deed}
    (hdeed : later.deeds = earlier.deeds ++ [deed]) : ¬ deed.isFor extension := by
  have hlearned := (hexact extension).mpr ⟨hunknown, hdeclined⟩
  have hlast : ∀ {other}, later.deeds = earlier.deeds ++ [other] → deed = other := fun hother =>
    List.singleton_inj.mp (List.append_cancel_left (hdeed.symm.trans hother))
  cases hstep with
  | worked =>
    obtain rfl := hlast rfl
    exact id
  | rooted =>
    have hlength := congrArg List.length hdeed
    simp at hlength
  | asked demand hnone =>
    obtain rfl := hlast rfl
    simp [Deed.isFor, hnone]
  | tried demand other hother hnew =>
    obtain rfl := hlast (earlier.tried_deeds line other demand)
    intro hsame
    obtain rfl := Option.some.inj (hother.symm.trans hsame)
    exact hnew hlearned

/-- Every step heeds what was declined. -/
theorem Heeded.step (h : Heeded line earlier) (hexact : Exact line earlier)
    (hstep : Step line earlier later) : Heeded line later := by
  intro extension before after hsplit hunknown hdeclined deed hmem
  obtain heq | ⟨last, hlast⟩ := hstep.deeds_eq
  · exact h extension before after (heq.symm.trans hsplit) hunknown hdeclined deed hmem
  · obtain rfl | ⟨front, back, rfl⟩ := List.eq_nil_or_concat after
    · exact absurd hmem List.not_mem_nil
    · rw [List.concat_eq_append] at hsplit hmem
      rw [hlast, ← List.append_assoc] at hsplit
      obtain ⟨hearlier, hback⟩ := List.append_inj' hsplit rfl
      obtain hmem | hmem := List.mem_append.mp hmem
      · exact h extension before front hearlier hunknown hdeclined deed hmem
      · obtain ⟨demand, answer, hasked, hclaim⟩ := hdeclined
        have hstill : Declined earlier.deeds extension :=
          ⟨demand, answer, hearlier ▸ List.mem_append_left _ hasked, hclaim⟩
        obtain rfl := List.mem_singleton.mp (hback ▸ hmem)
        exact hstep.not_isFor hexact hunknown hstill hlast

/-! ## What every operation keeps -/

section Operations

variable {α : Type} {program : Talk α} (h : Does (Step line) program)
include h

/-- Everything done stays done. -/
theorem does_follows (conversation : Conversation) :
    Follows conversation (program.exec conversation).2 :=
  h.preserves (fun _ _ hstep hfollows => Follows.step hfollows hstep) (List.prefix_refl _)

/-- What was learned stays learned. -/
theorem does_learned {conversation : Conversation} {extension : Bytes}
    (hlearned : extension ∈ conversation.unsupported) :
    extension ∈ (program.exec conversation).2.unsupported := by
  have hkeep : ∀ state state', Step line state state' → extension ∈ state.unsupported →
      extension ∈ state'.unsupported := fun _ _ hstep => hstep.learned
  exact h.preserves hkeep hlearned

/-- An extension known to be missing is not asked for. -/
theorem does_quiet {conversation : Conversation} {extension : Bytes}
    (hlearned : extension ∈ conversation.unsupported) :
    Quiet extension conversation (program.exec conversation).2 := by
  have hkeep : ∀ state state', Step line state state' →
      extension ∈ state.unsupported ∧ Quiet extension conversation state →
        extension ∈ state'.unsupported ∧ Quiet extension conversation state' :=
    fun _ _ hstep hstate => ⟨hstep.learned hstate.1, hstate.2.step hstate.1 hstep⟩
  exact (h.preserves hkeep ⟨hlearned, Quiet.refl extension conversation⟩).2

/-- What was learned stays exact. -/
theorem does_exact {conversation : Conversation} (hexact : Exact line conversation) :
    Exact line (program.exec conversation).2 :=
  h.preserves (fun _ _ hstep hstate => Exact.step hstate hstep) hexact

/-- What was declined stays heeded. -/
theorem does_heeded {conversation : Conversation} (hexact : Exact line conversation)
    (hheeded : Heeded line conversation) : Heeded line (program.exec conversation).2 := by
  have hkeep : ∀ state state', Step line state state' → Exact line state ∧ Heeded line state →
      Exact line state' ∧ Heeded line state' :=
    fun _ _ hstep hstate => ⟨hstate.1.step hstep, hstate.2.step hstate.1 hstep⟩
  exact (h.preserves hkeep ⟨hexact, hheeded⟩).2

end Operations

/-! ## What was done -/

/-- Nothing done is lost by looking from further away. -/
theorem Since.widen {first last : Conversation} {deed : Deed} (h : Since earlier later deed)
    (hbefore : Follows first earlier) (hafter : Follows later last) : Since first last deed := by
  obtain ⟨done, heq, hmem⟩ := h
  obtain ⟨before, hbefore⟩ := hbefore
  obtain ⟨after, hafter⟩ := hafter
  refine ⟨before ++ done ++ after, ?_, by simp [hmem]⟩
  rw [← hafter, heq, ← hbefore]
  simp

/-- A request that was just answered was asked since. -/
theorem since_heard (conversation : Conversation) (demand : Demand) :
    Since conversation (conversation.heard line demand)
      (.asked demand (line.answer conversation.deeds demand)) := ⟨_, rfl, by simp⟩

/-- What was asked for an extension was not kept quiet. -/
theorem Quiet.not_since {extension : Bytes} (h : Quiet extension earlier later) {deed : Deed}
    (hfor : deed.isFor extension) : ¬ Since earlier later deed := by
  rintro ⟨done, heq, hmem⟩
  obtain ⟨done', heq', hquiet⟩ := h
  obtain rfl := List.append_cancel_left (heq.symm.trans heq')
  exact hquiet deed hmem hfor

end Talk

end GantrySftp
