import GantrySftp.Session.ReadRange

/-!
# Downloading a file that does not change

A server that holds one content answers the READs of a download in any order and as short as it
likes. Each answer brings bytes that were missing, is the one DATA without any, tells of the end
of the file, or removes a range past it, so the download returns. What it wrote is then exactly
what the content has of its region. A READ has to fit its fields: its offset eight bytes, its
length four, and its request id one of those not in flight.
-/

namespace GantrySftp

open Library Relation

/-! ## What the server does, and what fits a READ -/

/-- Where a region ends in a content: at its own end or at the content's. -/
def Span.limit (span : Span) (content : Bytes) : ℕ :=
  match span.stop with
  | none => content.length
  | some stop => min content.length stop

/-- A position of a content is before the limit of a region when it is before both ends. -/
theorem Span.lt_limit_iff {span : Span} {content : Bytes} {i : ℕ} :
    i < span.limit content ↔ i < content.length ∧ ∀ stop ∈ span.stop, i < stop := by
  unfold limit
  cases span.stop with
  | none => simp
  | some stop => simp

/-- An answer to a READ from a server that holds a content: bytes it has from the offset on, no
more than asked for, or EOF where it has none. -/
def AnsweredFrom (content : Bytes) (range : Range) (reply : Reply) : Prop :=
  if range.offset < content.length then
    ∃ payload, reply = .data payload ∧ payload <+: (content.drop range.offset).take range.length
  else ∃ message, reply = .status .eof message

/-- Whether a reply is a DATA without a byte. -/
def isEmptyReply (reply : ℕ × Reply) : Bool := reply.2 = .data []

/-- The offset of the last READ that a window can send before it learns where the content
ends. -/
def lastOffset (content : Bytes) (start : ℕ) (schedule : Schedule) : ℕ :=
  start + ((content.length - start) / schedule.requestLength + (schedule.depth - 1)) *
    schedule.requestLength

/-- Every READ that a download of a region of a content can come to send fits its fields. -/
structure FitsRead (content : Bytes) (span : Span) (schedule : Schedule) : Prop where
  length : schedule.requestLength < 256 ^ 4 ∨ ∃ stop ∈ span.stop, stop - span.start < 256 ^ 4
  offset : content.length < 256 ^ 8 ∧ lastOffset content span.start schedule < 256 ^ 8 ∨
    ∃ stop ∈ span.stop, stop ≤ 256 ^ 8
  requestId : schedule.depth < 256 ^ 4 ∨ ∃ stop ∈ span.stop, stop - span.start < 256 ^ 4

namespace Downloader

variable {σ : Type}

/-! ## What such a server leaves of a window -/

/-- The ranges that are outstanding or queued again. -/
def unanswered (state : Downloader σ) : List Range := state.outstandingRanges ++ state.backlog

/-- Whether a range reaches past the end of a content. -/
def reachesPast (content : Bytes) (range : Range) : Bool :=
  content.length < range.offset + range.length

/-- How far a window got: over its whole region, or by requests of the full length, no more of
them past the content than are unanswered. -/
def Reaches (content : Bytes) (state : Downloader σ) : Prop :=
  (∃ stop ∈ state.span.stop, stop ≤ state.nextOffset) ∨
    ∃ count, state.nextOffset = state.span.start + count * state.schedule.requestLength ∧
      count ≤ (content.length - state.span.start) / state.schedule.requestLength +
        state.unanswered.countP (reachesPast content)

/-- What holds of a download while a server with this content answers it. -/
structure Steady (content : Bytes) (state : Downloader σ) : Prop where
  truthful : ∀ reply ∈ state.answered, TruthfulRead content reply
  length_le : ∀ range ∈ state.unanswered, range.length ≤ state.schedule.requestLength
  queued_le : ∀ range ∈ state.backlog, range.offset ≤ content.length
  room : state.unanswered.length ≤ state.schedule.depth
  reach : state.eofAt = none → Reaches content state

/-- A download about to begin. -/
theorem steady_init (content : Bytes) (span : Span) (schedule : Schedule) (sink : σ) :
    Steady content (init span schedule sink) where
  truthful := by intro reply hmem; cases hmem
  length_le := by intro range hmem; cases hmem
  queued_le := by intro range hmem; cases hmem
  room := Nat.zero_le _
  reach := fun _ => Or.inr ⟨0, by simp [init], Nat.zero_le _⟩

/-- Sending a READ of a queued range leaves the same ranges unanswered. -/
theorem unanswered_issue_queued {state : Downloader σ} {range : Range} {backlog : List Range}
    (hbacklog : state.backlog = range :: backlog) :
    state.issue.unanswered.Perm state.unanswered ∧ state.issue.backlog = backlog ∧
      state.issue.nextOffset = state.nextOffset := by
  unfold issue nextRange unanswered outstandingRanges
  rw [hbacklog]
  simp

/-- Sending a READ past the ones issued adds its range to those unanswered. -/
theorem unanswered_issue_fresh {state : Downloader σ} (hbacklog : state.backlog = []) :
    state.issue.unanswered = state.unanswered ++ [⟨state.nextOffset, state.freshLength⟩] ∧
      state.issue.backlog = [] ∧
      state.issue.nextOffset = state.nextOffset + state.freshLength := by
  unfold issue nextRange unanswered outstandingRanges
  simp [hbacklog]

/-- A range taken past the ones issued is as long as a request at most, and shorter only when it
is the last of its region. -/
theorem freshLength_cases (state : Downloader σ) :
    state.freshLength = state.schedule.requestLength ∨
      state.freshLength ≤ state.schedule.requestLength ∧
        ∃ stop ∈ state.span.stop, stop ≤ state.nextOffset + state.freshLength := by
  unfold freshLength
  cases state.span.stop with
  | none => exact Or.inl rfl
  | some stop =>
    obtain hfull | hshort := le_or_gt state.schedule.requestLength (stop - state.nextOffset)
    · exact Or.inl (min_eq_left hfull)
    · refine Or.inr ⟨min_le_left _ _, stop, rfl, ?_⟩
      simp only [min_eq_right hshort.le]
      omega

/-- Sending a READ past the ones issued keeps count of how far the window got. -/
theorem Reaches.issue_fresh {content : Bytes} {state : Downloader σ} (h : Reaches content state)
    (hlength : 0 < state.schedule.requestLength) (hbacklog : state.backlog = []) :
    Reaches content state.issue := by
  obtain ⟨hspan, hschedule, -⟩ := issue_frame state
  obtain ⟨hunanswered, -, hnext⟩ := unanswered_issue_fresh hbacklog
  unfold Reaches
  rw [hspan, hschedule, hunanswered, hnext, List.countP_append, List.countP_singleton]
  obtain hfull | ⟨-, hlast⟩ := freshLength_cases state
  · obtain ⟨stop, hstop, hall⟩ | ⟨count, hcount, hle⟩ := h
    · exact Or.inl ⟨stop, hstop, hall.trans (Nat.le_add_right _ _)⟩
    · refine Or.inr ⟨count + 1, by rw [hcount, hfull]; ring, ?_⟩
      split_ifs with hpast
      · omega
      · -- The range ends inside the content, so that many requests fit into it.
        have hinside : (count + 1) * state.schedule.requestLength ≤
            content.length - state.span.start := by
          rw [reachesPast, hfull, hcount] at hpast
          have hpast : ¬ content.length < state.span.start +
              count * state.schedule.requestLength + state.schedule.requestLength := by
            simpa using hpast
          rw [Nat.add_mul, Nat.one_mul]
          omega
        have hfits := (Nat.le_div_iff_mul_le hlength).mpr hinside
        omega
  · exact Or.inl hlast

/-- Sending a READ keeps what holds. -/
theorem Steady.issue {content : Bytes} {state : Downloader σ} (h : Steady content state)
    (hlength : 0 < state.schedule.requestLength)
    (hroom : state.outstanding.length < state.schedule.depth) : Steady content state.issue := by
  obtain ⟨hspan, hschedule, -, -, heof, hanswered⟩ := issue_frame state
  cases hbacklog : state.backlog with
  | nil =>
    obtain ⟨hunanswered, hempty, hnext⟩ := unanswered_issue_fresh hbacklog
    constructor
    · rw [hanswered]
      exact h.truthful
    · rw [hunanswered, hschedule]
      intro range hmem
      obtain hold | hnew := List.mem_append.mp hmem
      · exact h.length_le range hold
      · obtain rfl := List.mem_singleton.mp hnew
        obtain hfull | ⟨hle, -⟩ := freshLength_cases state
        · exact hfull.le
        · exact hle
    · rw [hempty]
      simp
    · rw [hunanswered, hschedule]
      simpa [unanswered, outstandingRanges, hbacklog] using Nat.succ_le_of_lt hroom
    · rw [heof]
      exact fun hnone => (h.reach hnone).issue_fresh hlength hbacklog
  | cons range backlog =>
    obtain ⟨hperm, hqueue, hnext⟩ := unanswered_issue_queued hbacklog
    constructor
    · rw [hanswered]
      exact h.truthful
    · rw [hschedule]
      exact fun range hmem => h.length_le range (hperm.mem_iff.mp hmem)
    · rw [hqueue]
      exact fun range hmem => h.queued_le range (hbacklog ▸ List.mem_cons_of_mem _ hmem)
    · rw [hschedule, hperm.length_eq]
      exact h.room
    · unfold Reaches
      rw [heof, hspan, hschedule, hnext, hperm.countP_eq]
      exact h.reach

/-! ## What one answer does -/

/-- An answer with bytes brings what the content has at the offset, no more than asked for. -/
theorem answeredFrom_data {content : Bytes} {range : Range} {payload : Bytes}
    (h : AnsweredFrom content range (.data payload)) :
    payload <+: content.drop range.offset ∧ payload.length ≤ range.length ∧
      range.offset + payload.length ≤ content.length := by
  unfold AnsweredFrom at h
  split_ifs at h with hinside
  · obtain ⟨bytes, hbytes, hslice⟩ := h
    obtain rfl := Reply.data.inj hbytes
    have hlength := hslice.length_le
    rw [List.length_take, List.length_drop] at hlength
    exact ⟨hslice.trans (List.take_prefix _ _), by omega, by omega⟩
  · obtain ⟨message, hmessage⟩ := h
    cases hmessage

/-- An EOF is an answer at or past the end. -/
theorem answeredFrom_eof {content : Bytes} {range : Range} {message : Bytes}
    (h : AnsweredFrom content range (.status .eof message)) : content.length ≤ range.offset := by
  unfold AnsweredFrom at h
  split_ifs at h with hinside
  · obtain ⟨bytes, hbytes, -⟩ := h
    cases hbytes
  · exact not_lt.mp hinside

/-- A shortfall is one range at most. -/
theorem length_shortfall_le (range : Range) (payload : Bytes) :
    (shortfall range payload).length ≤ 1 := by
  unfold shortfall
  split_ifs <;> simp

/-- A shortfall is a part of its range, and begins where the payload ended. -/
theorem mem_shortfall {range part : Range} {payload : Bytes} (h : part ∈ shortfall range payload) :
    part.offset = range.offset + payload.length ∧ part.length ≤ range.length := by
  unfold shortfall at h
  split_ifs at h
  · obtain rfl := List.mem_singleton.mp h
    exact ⟨rfl, Nat.sub_le _ _⟩
  · cases h

/-- What an answer with bytes leaves of a range that reaches past the content does too. -/
theorem countP_reachesPast_le {content : Bytes} {range : Range} {payload : Bytes}
    (h : range.offset + payload.length ≤ content.length) :
    [range].countP (reachesPast content) ≤
      (shortfall range payload).countP (reachesPast content) := by
  rw [List.countP_singleton]
  unfold shortfall reachesPast
  split_ifs with hpast hshort
  · have hpart : content.length < range.offset + payload.length + (range.length - payload.length) :=
      by simp only [decide_eq_true_eq] at hpast; omega
    simp [hpart]
  · simp only [decide_eq_true_eq] at hpast
    omega
  · exact Nat.zero_le _
  · exact Nat.zero_le _

/-- Sending a READ puts the next range among those outstanding. -/
theorem mem_issue_outstanding (state : Downloader σ) :
    (state.nextId, state.nextRange.1) ∈ state.issue.outstanding := by
  unfold issue nextRange
  cases state.backlog <;> simp

/-- The next range is queued, or begins at the next offset where no EOF was seen and the region
goes on. -/
theorem nextRange_cases {state : Downloader σ} (hmore : state.moreToIssue = true) :
    state.nextRange.1 ∈ state.backlog ∨
      state.nextRange.1.offset = state.nextOffset ∧ state.backlog = [] ∧ state.eofAt = none ∧
        ∀ stop ∈ state.span.stop, state.nextOffset < stop := by
  unfold moreToIssue at hmore
  unfold nextRange
  cases hbacklog : state.backlog with
  | cons range backlog => exact Or.inl List.mem_cons_self
  | nil =>
    rw [hbacklog] at hmore
    cases heof : state.eofAt with
    | some offset => simp [heof] at hmore
    | none =>
      refine Or.inr ⟨rfl, rfl, rfl, ?_⟩
      intro stop hstop
      simpa [heof, Option.mem_def.mp hstop] using hmore

/-- A window that has not learned of the end is within reach of it. -/
theorem Steady.nextOffset_le {content : Bytes} {state : Downloader σ} (h : Steady content state)
    (hroom : state.outstanding.length < state.schedule.depth) (hbacklog : state.backlog = [])
    (hnone : state.eofAt = none) (hbefore : ∀ stop ∈ state.span.stop, state.nextOffset < stop) :
    state.nextOffset ≤ lastOffset content state.span.start state.schedule := by
  obtain ⟨stop, hstop, hall⟩ | ⟨count, hcount, hle⟩ := h.reach hnone
  · have := hbefore stop hstop
    omega
  · have hpast : state.unanswered.countP (reachesPast content) ≤ state.outstanding.length := by
      apply List.countP_le_length.trans
      simp [unanswered, outstandingRanges, hbacklog]
    rw [hcount, lastOffset]
    apply Nat.add_le_add_left
    apply Nat.mul_le_mul_right
    omega

/-! ## What is still to come -/

/-- What is still to come: bytes, the DATA without any, and the first EOF. -/
def toGo (content : Bytes) (state : Downloader σ) : ℕ :=
  (state.span.limit content - state.span.start - state.written) +
    (!state.seenZeroLength).toNat + state.eofAt.isNone.toNat

/-- What every answer lowers: each step to go allows for a window of ranges past the end. -/
def potential (content : Bytes) (state : Downloader σ) : ℕ :=
  state.toGo content * (state.schedule.depth + 1) + state.unanswered.length

/-- Filling the window brings nothing. -/
theorem fill_toGo (content : Bytes) (room : ℕ) (state : Downloader σ) :
    (fill room state).1.toGo content = state.toGo content ∧
      (fill room state).1.eofAt = state.eofAt ∧
      (fill room state).1.seenZeroLength = state.seenZeroLength := by
  induction room generalizing state with
  | zero => exact ⟨rfl, rfl, rfl⟩
  | succ room ih =>
    unfold fill
    split_ifs with hmore
    · cases state.sendFailure with
      | some failure => exact ⟨rfl, rfl, rfl⟩
      | none =>
        obtain ⟨hspan, -, -, hwritten, heof, -⟩ := issue_frame state
        have hseen := (issue_ledger_frame state).2.1
        have hissue : state.issue.toGo content = state.toGo content := by
          unfold toGo
          rw [hspan, hwritten, heof, hseen]
        obtain ⟨htoGo', heof', hseen'⟩ := ih state.issue
        exact ⟨htoGo'.trans hissue, heof'.trans heof, hseen'.trans hseen⟩
    · exact ⟨rfl, rfl, rfl⟩

/-- Once the end is known, filling the window asks for queued ranges only. -/
theorem fill_unanswered (room : ℕ) {state : Downloader σ} (heof : state.eofAt ≠ none) :
    (fill room state).1.unanswered.length = state.unanswered.length := by
  induction room generalizing state with
  | zero => rfl
  | succ room ih =>
    unfold fill
    split_ifs with hmore
    · cases state.sendFailure with
      | some failure => rfl
      | none =>
        cases hbacklog : state.backlog with
        | nil =>
          obtain ⟨offset, hoffset⟩ := Option.ne_none_iff_exists'.mp heof
          simp [moreToIssue, hbacklog, hoffset] at hmore
        | cons range backlog =>
          rw [← (unanswered_issue_queued hbacklog).1.length_eq]
          apply ih
          rw [(issue_frame state).2.2.2.2.1]
          exact heof
    · rfl

/-- Filling the window as far as it goes brings nothing. -/
theorem fillWindow_toGo (content : Bytes) {state filled : Downloader σ} {refused : Option Failure}
    (hfill : state.fillWindow = (filled, refused)) :
    filled.toGo content = state.toGo content ∧ filled.eofAt = state.eofAt ∧
      filled.seenZeroLength = state.seenZeroLength := by
  have h := fill_toGo content (state.schedule.depth - state.outstanding.length) state
  rwa [show fill _ state = (filled, refused) from hfill] at h

/-- Once the end is known, filling the window as far as it goes asks for queued ranges only. -/
theorem fillWindow_unanswered {state filled : Downloader σ} {refused : Option Failure}
    (hfill : state.fillWindow = (filled, refused)) (heof : state.eofAt ≠ none) :
    filled.unanswered.length = state.unanswered.length := by
  have h := fill_unanswered (state.schedule.depth - state.outstanding.length) heof
  rwa [show fill _ state = (filled, refused) from hfill] at h

variable [Sink σ] {sink : σ}

/-- An answer is handled, unless it is the second without a byte. -/
theorem dispatch_of_answered {content : Bytes} {state : Downloader σ} {requestId : ℕ}
    {reply : Reply} {range : Range} {outstanding : List (ℕ × Range)}
    (hpop : popRequest requestId state.outstanding = some (range, outstanding))
    (hreply : AnsweredFrom content range reply)
    (hempty : reply = .data [] → state.seenZeroLength = false) :
    ∃ state', state.dispatch requestId reply = .ok state' := by
  by_cases hinside : range.offset < content.length
  · have hdata := hreply
    rw [AnsweredFrom, if_pos hinside] at hdata
    obtain ⟨payload, rfl, -⟩ := hdata
    have hfits := (answeredFrom_data hreply).2.1
    have hfirst : ¬ (payload = [] ∧ state.seenZeroLength = true) := by
      rintro ⟨rfl, hseen⟩
      rw [hempty rfl] at hseen
      cases hseen
    simp only [dispatch, hpop, handleData, if_neg (not_lt.mpr hfits), if_neg hfirst]
    exact ⟨_, rfl⟩
  · rw [AnsweredFrom, if_neg hinside] at hreply
    obtain ⟨message, rfl⟩ := hreply
    simp only [dispatch, hpop, handleStatus, if_true]
    exact ⟨_, rfl⟩

/-- Handling an answer keeps what holds. -/
theorem Steady.dispatch {content : Bytes} {state state' : Downloader σ} (h : Steady content state)
    {requestId : ℕ} {reply : Reply} {range : Range} {outstanding : List (ℕ × Range)}
    (hpop : popRequest requestId state.outstanding = some (range, outstanding))
    (hreply : AnsweredFrom content range reply)
    (hdispatch : state.dispatch requestId reply = .ok state') : Steady content state' := by
  obtain ⟨issued, others, hfound, hcases⟩ := dispatch_cases hdispatch
  obtain ⟨rfl, rfl⟩ := Prod.mk.inj (Option.some.inj (hpop.symm.trans hfound))
  have hperm := (popRequest_perm hpop).map Prod.snd
  have hbefore : state.unanswered.Perm (range :: (outstanding.map Prod.snd ++ state.backlog)) :=
    hperm.append_right _
  have hroom := h.room
  rw [hbefore.length_eq, List.length_cons, List.length_append] at hroom
  obtain ⟨payload, rfl, -, rfl⟩ | ⟨message, rfl, rfl⟩ := hcases
  · obtain ⟨hslice, hfits, hend⟩ := answeredFrom_data hreply
    have hshort := length_shortfall_le range payload
    constructor
    · intro answer hmem
      obtain hold | hnew := List.mem_append.mp hmem
      · exact h.truthful answer hold
      · obtain rfl := List.mem_singleton.mp hnew
        exact hslice
    · intro part hmem
      simp only [unanswered, outstandingRanges, List.mem_append] at hmem
      have hlengths : ∀ other ∈ range :: (outstanding.map Prod.snd ++ state.backlog),
          other.length ≤ state.schedule.requestLength :=
        fun other hother => h.length_le other (hbefore.mem_iff.mpr hother)
      obtain hout | hqueued | hpart := hmem
      · exact hlengths part (List.mem_cons_of_mem _ (List.mem_append_left _ hout))
      · exact hlengths part (List.mem_cons_of_mem _ (List.mem_append_right _ hqueued))
      · exact (mem_shortfall hpart).2.trans (hlengths range List.mem_cons_self)
    · intro part hmem
      obtain hqueued | hpart := List.mem_append.mp hmem
      · exact h.queued_le part hqueued
      · rw [(mem_shortfall hpart).1]
        exact hend
    · simp only [unanswered, outstandingRanges, List.length_append]
      omega
    · intro hnone
      have hcount := countP_reachesPast_le hend
      obtain hall | ⟨count, hcounted, hle⟩ := h.reach hnone
      · exact Or.inl hall
      · refine Or.inr ⟨count, hcounted, hle.trans ?_⟩
        rw [hbefore.countP_eq]
        simp only [unanswered, outstandingRanges, List.countP_cons, List.countP_append,
          List.countP_nil] at hcount ⊢
        omega
  · constructor
    · intro answer hmem
      obtain hold | hnew := List.mem_append.mp hmem
      · exact h.truthful answer hold
      · obtain rfl := List.mem_singleton.mp hnew
        exact answeredFrom_eof hreply
    · exact fun other hother =>
        h.length_le other (hbefore.mem_iff.mpr (List.mem_cons_of_mem _ hother))
    · exact h.queued_le
    · simp only [unanswered, outstandingRanges, List.length_append]
      omega
    · intro hnone
      cases hnone

/-! ## Every READ fits -/

/-- A READ that there is room for and something to ask with can be sent. -/
theorem Steady.sendFailure_eq_none {content : Bytes} {state : Downloader σ}
    (h : Steady content state) (hwindow : Window sink state)
    (hfits : FitsRead content state.span state.schedule)
    (hroom : state.outstanding.length < state.schedule.depth)
    (hmore : state.moreToIssue = true) : state.sendFailure = none := by
  obtain ⟨hspan, hschedule, -⟩ := issue_frame state
  have hsent := hwindow.issue hmore
  have hmem := mem_issue_outstanding state
  obtain ⟨hlow, hpos, hhigh⟩ := hsent.outstanding_inside hmem
  have hstop : ∀ stop ∈ state.span.stop,
      state.nextRange.1.offset + state.nextRange.1.length ≤ stop := by
    intro stop hstop
    have hinside := hsent.inside stop (hspan ▸ hstop)
    omega
  have hlong : state.nextRange.1.length ≤ state.schedule.requestLength := by
    rw [← hschedule]
    apply (h.issue hwindow.requestLength_pos hroom).length_le
    exact List.mem_append_left _ (List.mem_map_of_mem hmem)
  have hlength : state.nextRange.1.length < 256 ^ 4 := by
    obtain hshort | ⟨stop, hmem, hshort⟩ := hfits.length
    · omega
    · have := hstop stop hmem
      rw [hspan] at hlow
      omega
  have hoffset : state.nextRange.1.offset < 256 ^ 8 := by
    obtain ⟨hcontent, hlast⟩ | ⟨stop, hmem, hend⟩ := hfits.offset
    · obtain hqueued | ⟨hnext, hbacklog, hnone, hbefore⟩ := nextRange_cases hmore
      · exact (h.queued_le _ hqueued).trans_lt hcontent
      · rw [hnext]
        exact (h.nextOffset_le hroom hbacklog hnone hbefore).trans_lt hlast
    · have := hstop stop hmem
      omega
  have hrequestId : state.outstanding.length < 256 ^ 4 - 1 := by
    obtain hdepth | ⟨stop, hmem, hshort⟩ := hfits.requestId
    · omega
    · have hcount := issue_outstanding_length state
      have hsum := hsent.tiles.sum_length
      have hunwritten := hsent.length_le_sum
      have hinside := hsent.inside stop (hspan ▸ hmem)
      simp only [pieces, List.map_append, List.sum_append] at hsum
      simp only [unwritten, List.length_append, List.length_map] at hunwritten hsum
      rw [hspan] at hinside hsum hlow
      have := hstop stop hmem
      omega
  simp only [sendFailure]
  rw [if_neg (by omega), if_neg (by omega), if_neg (by omega)]

/-- Filling the window meets no READ that cannot be sent, and keeps what holds. -/
theorem Steady.fill {content : Bytes} {state : Downloader σ} (h : Steady content state)
    (hwindow : Window sink state) (hfits : FitsRead content state.span state.schedule)
    (room : ℕ) :
    (Downloader.fill room state).2 = none ∧ Steady content (Downloader.fill room state).1 := by
  induction room generalizing state with
  | zero => exact ⟨rfl, h⟩
  | succ room ih =>
    unfold Downloader.fill
    split_ifs with hmore
    · obtain ⟨hspan, hschedule, -⟩ := issue_frame state
      rw [h.sendFailure_eq_none hwindow hfits hmore.1 hmore.2]
      exact ih (h.issue hwindow.requestLength_pos hmore.1) (hwindow.issue hmore.2)
        (by rw [hspan, hschedule]; exact hfits)
    · exact ⟨rfl, h⟩

/-! ## What an answer brings -/

/-- What was written lies before the limit of the region. -/
theorem Steady.lt_limit_of_covered {content : Bytes} {state : Downloader σ}
    (h : Steady content state) (hwindow : Window sink state) {i : ℕ}
    (hcovered : Covered (landed state.answered) i) :
    state.span.start ≤ i ∧ i < state.span.limit content := by
  obtain ⟨hlow, hnext⟩ := hwindow.inside_of_covered hcovered
  refine ⟨hlow, Span.lt_limit_iff.mpr ⟨?_, fun stop hstop => ?_⟩⟩
  · exact lt_length_of_covered (slice_of_truthful h.truthful) hcovered
  · have hinside := hwindow.inside stop hstop
    omega

/-- No more is written than the content has of the region. -/
theorem Steady.written_le {content : Bytes} {state : Downloader σ} (h : Steady content state)
    (hwindow : Window sink state) :
    state.written ≤ state.span.limit content - state.span.start := by
  rw [hwindow.written_eq_sum, ← Nat.card_Ico]
  apply sum_length_le
  intro i
  simp only [Finset.mem_Ico]
  obtain hzero | hpos := Nat.eq_zero_or_pos (state.writtenRanges.countP (Piece.contains i))
  · omega
  · have hinside := h.lt_limit_of_covered hwindow (written_pos_iff.mp hpos)
    have honce := hwindow.once i
    rw [if_pos hinside]
    split_ifs at honce <;> omega

/-- A handled reply is the DATA without a byte, or changes nothing about it. -/
theorem dispatch_seen {state state' : Downloader σ} {requestId : ℕ} {reply : Reply}
    (h : state.dispatch requestId reply = .ok state') :
    state'.seenZeroLength = (state.seenZeroLength || decide (reply = .data [])) := by
  obtain ⟨issued, outstanding, -, ⟨payload, rfl, -, rfl⟩ | ⟨message, rfl, rfl⟩⟩ := dispatch_cases h
  · simp
  · simp

/-- An answer brings what was still to come, or takes a range past the end out. -/
theorem toGo_dispatch {content : Bytes} {state state' : Downloader σ}
    (hwritten : state'.written ≤ state'.span.limit content - state'.span.start)
    {requestId : ℕ} {reply : Reply} (hempty : reply = .data [] → state.seenZeroLength = false)
    (hdispatch : state.dispatch requestId reply = .ok state') :
    state'.toGo content < state.toGo content ∨
      state'.toGo content = state.toGo content ∧ state.eofAt ≠ none ∧
        state'.unanswered.length < state.unanswered.length := by
  obtain ⟨range, outstanding, hpop, hcases⟩ := dispatch_cases hdispatch
  have hlength : state.outstanding.length = outstanding.length + 1 := by
    simpa using (popRequest_perm hpop).length_eq
  obtain ⟨payload, rfl, -, rfl⟩ | ⟨message, rfl, rfl⟩ := hcases
  · left
    cases payload with
    | nil =>
      have hseen := hempty rfl
      simp [toGo, hseen]
    | cons byte payload =>
      simp only [List.length_cons] at hwritten
      simp [toGo]
      omega
  · cases heof : state.eofAt with
    | none =>
      left
      simp [toGo, heof]
    | some offset =>
      right
      refine ⟨by simp [toGo, heof], by simp, ?_⟩
      simp only [unanswered, outstandingRanges, List.length_append, List.length_map]
      omega

/-- Filling the window as far as it goes meets no READ that cannot be sent. -/
theorem Steady.fillWindow {content : Bytes} {state : Downloader σ} (h : Steady content state)
    (hwindow : Window sink state) (hfits : FitsRead content state.span state.schedule) :
    ∃ filled, state.fillWindow = (filled, none) ∧ Steady content filled := by
  obtain ⟨hsent, hfilled⟩ := h.fill hwindow hfits
    (state.schedule.depth - state.outstanding.length)
  exact ⟨_, Prod.ext rfl hsent, hfilled⟩

/-! ## Whole runs -/

/-- Replies from a server that holds a content, in the order they arrive: each answers a READ
that is outstanding when it comes. What comes after the download returned does not matter. -/
def ServedFrom (content : Bytes) : Downloader σ → List (ℕ × Reply) → Prop
  | _, [] => True
  | state, (requestId, reply) :: rest =>
    ∀ filled, state.fillWindow = (filled, none) → filled.outstanding ≠ [] →
      (∃ range outstanding, popRequest requestId filled.outstanding = some (range, outstanding) ∧
        AnsweredFrom content range reply) ∧
      ∀ state', filled.dispatch requestId reply = .ok state' → ServedFrom content state' rest

/-- An answer to one turn of a download lowers its potential. -/
theorem Steady.turn {content : Bytes} {state filled state' : Downloader σ}
    (hfill : state.fillWindow = (filled, none)) (h : Steady content filled)
    (hwindow : Window sink filled) {requestId : ℕ} {reply : Reply} {range : Range}
    {outstanding : List (ℕ × Range)}
    (hpop : popRequest requestId filled.outstanding = some (range, outstanding))
    (hreply : AnsweredFrom content range reply)
    (hempty : reply = .data [] → filled.seenZeroLength = false)
    (hdispatch : filled.dispatch requestId reply = .ok state') :
    state'.potential content < state.potential content := by
  have hsteady := h.dispatch hpop hreply hdispatch
  have hwritten := hsteady.written_le (hwindow.dispatch hdispatch)
  obtain ⟨htoGo, heof, -⟩ := fillWindow_toGo content hfill
  have hschedule := (moves_frame ((fillWindow_moves hfill).tail (.handle hdispatch))).2
  have hroom := hsteady.room
  unfold potential
  rw [hschedule] at hroom ⊢
  obtain hless | ⟨hsame, hended, hfewer⟩ := toGo_dispatch hwritten hempty hdispatch
  · rw [htoGo] at hless
    have hstep : (state'.toGo content + 1) * (state.schedule.depth + 1) ≤
        state.toGo content * (state.schedule.depth + 1) := Nat.mul_le_mul_right _ hless
    rw [Nat.add_mul, Nat.one_mul] at hstep
    omega
  · rw [heof] at hended
    have hkept := fillWindow_unanswered hfill hended
    rw [hsame, htoGo]
    omega

/-- With as many answers as its potential, a download returns what it wrote. -/
theorem Steady.run {content : Bytes} {state : Downloader σ} (h : Steady content state)
    (hwindow : Window sink state) (hfits : FitsRead content state.span state.schedule)
    {replies : List (ℕ × Reply)} (hserved : ServedFrom content state replies)
    (hempties : state.seenZeroLength.toNat + replies.countP isEmptyReply ≤ 1)
    (henough : state.potential content ≤ replies.length) (ending : Failure) :
    (state.run replies ending).2 = .ok (state.run replies ending).1.written ∧
      Steady content (state.run replies ending).1 := by
  induction replies generalizing state with
  | nil =>
    obtain ⟨filled, hfill, hfilled⟩ := h.fillWindow hwindow hfits
    -- Nothing is to come and nothing unanswered, and the end is known.
    have hzero : state.potential content = 0 := Nat.le_zero.mp henough
    have hdone : state.toGo content = 0 ∧ state.unanswered.length = 0 := by
      simpa [potential] using hzero
    have hended : state.eofAt ≠ none := by
      intro hnone
      simp [toGo, hnone] at hdone
    have hkept : filled.unanswered.length = 0 :=
      (fillWindow_unanswered hfill hended).trans hdone.2
    have hnone : filled.outstanding = [] := by
      have hnil : filled.unanswered = [] := List.eq_nil_of_length_eq_zero hkept
      simpa [unanswered, outstandingRanges] using (List.append_eq_nil_iff.mp hnil).1
    rw [run_of_none hfill hnone]
    exact ⟨rfl, hfilled⟩
  | cons reply rest ih =>
    obtain ⟨requestId, reply⟩ := reply
    obtain ⟨filled, hfill, hfilled⟩ := h.fillWindow hwindow hfits
    obtain ⟨-, -, hseen⟩ := fillWindow_toGo content hfill
    have hwindow' := hwindow.moves (fillWindow_moves hfill)
    by_cases hnone : filled.outstanding = []
    · rw [run_of_none hfill hnone]
      exact ⟨rfl, hfilled⟩
    · obtain ⟨⟨range, outstanding, hpop, hreply⟩, hrest⟩ := hserved _ hfill hnone
      have hempty : reply = .data [] → filled.seenZeroLength = false := by
        rintro rfl
        rw [List.countP_cons_of_pos (by simp [isEmptyReply])] at hempties
        rw [hseen]
        exact Bool.toNat_eq_zero.mp (by omega)
      obtain ⟨state', hdispatch⟩ := dispatch_of_answered hpop hreply hempty
      have hless := Steady.turn hfill hfilled hwindow' hpop hreply hempty hdispatch
      have hframe := moves_frame ((fillWindow_moves hfill).tail (.handle hdispatch))
      have hseen' := dispatch_seen hdispatch
      rw [run_of_ok hfill hnone hdispatch]
      apply ih (hfilled.dispatch hpop hreply hdispatch) (hwindow'.dispatch hdispatch)
      · rw [hframe.1, hframe.2]
        exact hfits
      · exact hrest _ hdispatch
      · rw [hseen']
        rw [List.countP_cons, ← hseen] at hempties
        by_cases hdata : reply = .data []
        · simp only [isEmptyReply, hdata, hempty hdata] at hempties ⊢
          simpa [Nat.add_comm] using hempties
        · simpa [isEmptyReply, hdata] using hempties
      · rw [List.length_cons] at henough
        omega

end Downloader

/-! ## Downloads and range reads -/

/-- A server that holds a content answers a whole download of a region: every READ fits its
fields, at most one DATA comes without a byte, and the answers do not stop before the download
does. -/
structure AnsweredThroughout {σ : Type} [Sink σ] (content : Bytes) (span : Span)
    (schedule : Schedule) (sink : σ) (replies : List (ℕ × Reply)) : Prop where
  depth_pos : 1 ≤ schedule.depth
  requestLength_pos : 1 ≤ schedule.requestLength
  start_le : ∀ stop ∈ span.stop, span.start ≤ stop
  fits : FitsRead content span schedule
  served : Downloader.ServedFrom content (.init span schedule sink) replies
  empties : replies.countP isEmptyReply ≤ 1
  enough : (span.limit content - span.start + 2) * (schedule.depth + 1) ≤ replies.length

/-- The writes of a download are what a content has of a region, each position once and at its
own offset, and nothing else. -/
structure WroteExactly {σ : Type} [Sink σ] (content : Bytes) (span : Span) (sink : σ)
    (state : Downloader σ) : Prop where
  sink_eq : state.sink = (landed state.answered).foldl
    (fun sink write => Sink.writeAt sink write.1 write.2) sink
  slices : ∀ write ∈ landed state.answered, Slice content write
  covered : ∀ i, Covered (landed state.answered) i ↔ span.start ≤ i ∧ i < span.limit content
  once : ∀ i, state.writtenRanges.countP (Piece.contains i) ≤ 1

section Exact

variable {σ : Type} [Sink σ] {content : Bytes} {span : Span} {schedule : Schedule} {sink : σ}
  {replies : List (ℕ × Reply)}

/-- A download that a server with the content answers throughout returns the length of what the
content has of the region, and wrote exactly that. -/
theorem AnsweredThroughout.run (h : AnsweredThroughout content span schedule sink replies)
    (ending : Failure) :
    let done := (Downloader.init span schedule sink).run replies ending
    done.2 = .ok (span.limit content - span.start) ∧ WroteExactly content span sink done.1 := by
  intro done
  have hwindow := Downloader.window_init span h.requestLength_pos sink
  have hpotential : (Downloader.init span schedule sink).potential content =
      (span.limit content - span.start + 2) * (schedule.depth + 1) := rfl
  obtain ⟨hok, hsteady⟩ := (Downloader.steady_init content span schedule sink).run hwindow h.fits
    h.served (by simpa [Downloader.init] using h.empties) (hpotential ▸ h.enough) ending
  have hmoves := Downloader.run_moves (.init span schedule sink) replies ending
  have hspan : done.1.span = span := (Downloader.moves_frame hmoves).1
  have hfinal : done.1.Window sink := hwindow.moves hmoves
  have hdepth : 0 < (Downloader.init span schedule sink).schedule.depth := h.depth_pos
  obtain ⟨hnone, hmore, -⟩ := Downloader.run_done hdepth hok
  have hcovered : ∀ i, Covered (landed done.1.answered) i ↔
      span.start ≤ i ∧ i < span.limit content := by
    intro i
    rw [hfinal.covered_iff hnone hmore hsteady.truthful i, Span.lt_limit_iff, hspan]
  have hcount : done.1.written = span.limit content - span.start := by
    apply le_antisymm
    · have hle := hsteady.written_le hfinal
      rwa [hspan] at hle
    · rw [hfinal.written_eq_sum, ← Nat.card_Ico]
      apply card_le_sum_length
      intro i hmem
      exact Downloader.written_pos_iff.mpr ((hcovered i).mpr (Finset.mem_Ico.mp hmem))
  refine ⟨hok.trans (congrArg Except.ok hcount), ?_⟩
  constructor
  · exact hfinal.sink_eq
  · exact Downloader.slice_of_truthful hsteady.truthful
  · exact hcovered
  · intro i
    apply (hfinal.once i).trans
    split_ifs <;> omega

end Exact

/-- Files of one length with the same byte at every position are the same. -/
theorem eq_of_getD {left right : Bytes} (hlength : left.length = right.length)
    (hbytes : ∀ i < left.length, left.getD i 0 = right.getD i 0) : left = right :=
  ((prefix_iff_getD left right).mpr ⟨hlength.le, hbytes⟩).eq_of_length hlength

/-- The front of a buffer that a range read filled is what the content has at the offset, and the
rest is as it was. -/
theorem view_of_wroteExactly {content view : Bytes} {offset : ℕ} {done : Downloader BufferSink}
    (hspan : done.span = rangeSpan view offset) (hwindow : done.Window (BufferSink.mk offset view))
    (hledger : done.Ledger)
    (h : WroteExactly content (rangeSpan view offset) (BufferSink.mk offset view) done) :
    done.sink.view = (content.drop offset).take view.length ++
      view.drop ((rangeSpan view offset).limit content - offset) := by
  have hlength := Downloader.length_view hspan hwindow hledger
  have hlimit : (rangeSpan view offset).limit content =
      min content.length (offset + view.length) := rfl
  have hfront : ((content.drop offset).take view.length).length =
      (rangeSpan view offset).limit content - offset := by
    rw [hlimit, List.length_take, List.length_drop]
    omega
  apply eq_of_getD
  · rw [List.length_append, hfront, List.length_drop, hlength, hlimit]
    omega
  · intro i hi
    by_cases hcovered : Covered (landed done.answered) (offset + i)
    · have hbefore := ((h.covered _).mp hcovered).2
      obtain ⟨issued, payload, hmem, -, hcovers, hbyte⟩ :=
        Downloader.received_of_covered hspan hwindow hledger hcovered
      have hslice := h.slices (issued.offset, payload) (List.mem_filterMap.mpr ⟨_, hmem, rfl⟩)
      rw [← hbyte, (hslice.getD hcovers).1, List.getD_append _ _ _ _ (by omega)]
      simp only [List.getD_eq_getElem?_getD]
      rw [List.getElem?_take_of_lt (by omega), List.getElem?_drop]
    · have hpast : (rangeSpan view offset).limit content ≤ offset + i := by
        by_contra hinside
        exact hcovered ((h.covered _).mpr ⟨Nat.le_add_right _ _, by omega⟩)
      rw [Downloader.unchanged_of_not_covered hspan hwindow hledger hcovered,
        List.getD_append_right _ _ _ _ (by omega), hfront]
      simp only [List.getD_eq_getElem?_getD, List.getElem?_drop]
      congr 2
      omega

/-- A read into no buffer sends nothing. -/
theorem readRangeInto_nil {schedule : Schedule} (hdepth : 1 ≤ schedule.depth)
    (hlength : 1 ≤ schedule.requestLength) (offset : ℕ) (replies : List (ℕ × Reply))
    (ending : Failure) :
    readRangeInto [] offset schedule replies ending =
      (.init (rangeSpan [] offset) schedule (BufferSink.mk offset []), .ok 0) := by
  unfold readRangeInto
  rw [if_neg (by omega), if_neg (by omega), if_pos rfl]
  rfl

/-- A range read that a server with the content answers throughout returns the length of what the
content has of the range, and puts that at the front of the buffer. -/
theorem readRangeInto_answered {content view : Bytes} {offset : ℕ} {schedule : Schedule}
    {replies : List (ℕ × Reply)}
    (h : AnsweredThroughout content (rangeSpan view offset) schedule (BufferSink.mk offset view)
      replies) (ending : Failure) :
    let done := readRangeInto view offset schedule replies ending
    done.2 = .ok ((rangeSpan view offset).limit content - offset) ∧
      done.1.sink.view = (content.drop offset).take view.length ++
        view.drop ((rangeSpan view offset).limit content - offset) := by
  have hdepth := h.depth_pos
  have hlength := h.requestLength_pos
  by_cases hempty : view = []
  · subst hempty
    have hlimit : (rangeSpan [] offset).limit content - offset = 0 := by
      simp [rangeSpan, Span.limit]
    rw [readRangeInto_nil hdepth hlength, hlimit]
    exact ⟨rfl, by simp [Downloader.init]⟩
  · have hrun : readRangeInto view offset schedule replies ending =
        (Downloader.init (rangeSpan view offset) schedule (BufferSink.mk offset view)).run
          replies ending := by
      unfold readRangeInto
      dsimp only
      rw [if_neg (by omega), if_neg (by omega), if_neg hempty]
      rfl
    obtain ⟨hok, hwrote⟩ := h.run ending
    rw [← hrun] at hok hwrote
    obtain ⟨hspan, hwindow, hledger, -⟩ := readRangeInto_done hok
    exact ⟨hok, view_of_wroteExactly hspan hwindow hledger hwrote⟩

/-- A pipelined download reproduces a content that does not change, into any sink and into a
buffer, in whatever order and however short the server answers. -/
theorem download_exact (content : Bytes) (ending : Failure) :
    (∀ {σ : Type} [Sink σ] (sink : σ) (span : Span) (schedule : Schedule)
      (replies : List (ℕ × Reply)), AnsweredThroughout content span schedule sink replies →
      let done := downloadHandle sink span.stop schedule span.start replies ending
      done.2 = .ok (span.limit content - span.start) ∧ WroteExactly content span sink done.1) ∧
    ∀ (view : Bytes) (offset : ℕ) (schedule : Schedule) (replies : List (ℕ × Reply)),
      AnsweredThroughout content (rangeSpan view offset) schedule (BufferSink.mk offset view)
        replies →
      let done := readRangeInto view offset schedule replies ending
      done.2 = .ok ((rangeSpan view offset).limit content - offset) ∧
        done.1.sink.view = (content.drop offset).take view.length ++
          view.drop ((rangeSpan view offset).limit content - offset) := by
  constructor
  · intro σ _ sink span schedule replies h
    have hdepth := h.depth_pos
    have hlength := h.requestLength_pos
    have hrun : downloadHandle sink span.stop schedule span.start replies ending =
        (Downloader.init span schedule sink).run replies ending := by
      unfold downloadHandle
      dsimp only
      rw [if_neg (by omega), if_neg (by omega)]
      obtain ⟨start, stop⟩ := span
      cases stop with
      | none => rfl
      | some stop => exact if_neg (not_lt.mpr (h.start_le stop rfl))
    rw [hrun]
    exact h.run ending
  · exact fun view offset schedule replies h => readRangeInto_answered h ending

/-- Answers to two READs of two bytes each of a file that holds one byte: EOF for the second, the
byte for the first, and EOF for what the byte left. -/
def oneByteAnswers : List (ℕ × Reply) :=
  [(2, .status .eof []), (1, .data [7]), (3, .status .eof [])] ++
    List.replicate 6 (0, .status .eof [])

/-- A server that holds one byte gives these answers. -/
theorem answeredThroughout_oneByte :
    AnsweredThroughout [7] ⟨0, none⟩ ⟨2, 2⟩ (DescriptorSink.mk []) oneByteAnswers where
  depth_pos := by decide
  requestLength_pos := by decide
  start_le := by intro stop hstop; cases hstop
  fits := ⟨Or.inl (by decide), Or.inl (by decide), Or.inl (by decide)⟩
  served := by
    intro filled hfill _
    obtain rfl := congrArg Prod.fst hfill
    refine ⟨⟨_, _, rfl, ⟨[], rfl⟩⟩, ?_⟩
    intro first hfirst
    obtain rfl := Except.ok.inj hfirst
    intro filled hfill _
    obtain rfl := congrArg Prod.fst hfill
    refine ⟨⟨_, _, rfl, ⟨[7], rfl, by decide⟩⟩, ?_⟩
    intro second hsecond
    obtain rfl := Except.ok.inj hsecond
    intro filled hfill _
    obtain rfl := congrArg Prod.fst hfill
    refine ⟨⟨_, _, rfl, ⟨[], rfl⟩⟩, ?_⟩
    intro third hthird
    obtain rfl := Except.ok.inj hthird
    intro filled hfill hsome
    obtain rfl := congrArg Prod.fst hfill
    exact absurd rfl hsome
  empties := by decide
  enough := by decide

/-- A download of one byte of an unknown size, in requests of two. -/
theorem download_exact_oneByte :
    (downloadHandle (DescriptorSink.mk []) none ⟨2, 2⟩ 0 oneByteAnswers .connectionLost).2 =
      .ok 1 :=
  ((download_exact [7] .connectionLost).1 (DescriptorSink.mk []) ⟨0, none⟩ ⟨2, 2⟩ oneByteAnswers
    answeredThroughout_oneByte).1

/-- A request longer than the length field of a READ can name is refused before anything is
sent. -/
theorem fillWindow_overlong :
    (Downloader.init ⟨0, none⟩ ⟨256 ^ 4, 1⟩ (DescriptorSink.mk [])).fillWindow =
      (.init ⟨0, none⟩ ⟨256 ^ 4, 1⟩ (DescriptorSink.mk []),
        some (.valueError s!"uint32 out of range: {256 ^ 4}")) := by
  simp [Downloader.fillWindow, Downloader.fill, Downloader.init, Downloader.moreToIssue,
    Downloader.sendFailure, Downloader.nextRange, Downloader.freshLength]

/-- Not every download that a server answers throughout returns: the length of a request has to
fit a READ. -/
theorem not_forall_download_returns :
    ¬ ∀ (content : Bytes) (span : Span) (schedule : Schedule) (replies : List (ℕ × Reply))
      (ending : Failure), 1 ≤ schedule.depth → 1 ≤ schedule.requestLength →
      (∀ stop ∈ span.stop, span.start ≤ stop) →
      Downloader.ServedFrom content (.init span schedule (DescriptorSink.mk [])) replies →
      replies.countP isEmptyReply ≤ 1 →
      (span.limit content - span.start + 2) * (schedule.depth + 1) ≤ replies.length →
      ∃ count, (downloadHandle (DescriptorSink.mk []) span.stop schedule span.start replies
        ending).2 = .ok count := by
  intro hall
  have hserved : Downloader.ServedFrom [] (.init ⟨0, none⟩ ⟨256 ^ 4, 1⟩ (DescriptorSink.mk []))
      (List.replicate 4 (1, .status .eof [])) := by
    intro filled hfill
    rw [fillWindow_overlong] at hfill
    cases (Prod.mk.inj hfill).2
  obtain ⟨count, hcount⟩ := hall [] ⟨0, none⟩ ⟨256 ^ 4, 1⟩ (List.replicate 4 (1, .status .eof []))
    .connectionLost (by decide) (by decide) (by intro stop hstop; cases hstop) hserved (by decide)
    (by decide)
  have hrefused : (downloadHandle (DescriptorSink.mk []) none ⟨256 ^ 4, 1⟩ 0
      (List.replicate 4 (1, .status .eof [])) .connectionLost).2 =
      .error (.valueError s!"uint32 out of range: {256 ^ 4}") :=
    congrArg Prod.snd (Downloader.run_of_refused fillWindow_overlong)
  rw [hrefused] at hcount
  cases hcount

end GantrySftp
