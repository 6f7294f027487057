import GantrySftp.Session.ReadRange
import GantrySftp.Session.Verify

/-!
# What a comparison passes

A range is compared block by block, and a block that both files end in is compared as far as they
go. What is read back lies in a scratch file that holds zeros where nothing arrived. So a pass
says that every byte of the range was compared only where one file is long enough, and that every
byte arrived only where no READ was answered with EOF.
-/

namespace GantrySftp

open Library Program

/-! ## Blocks -/

/-- Both contents hold every byte of a range, and the same. -/
def AgreeOn (left right : Bytes) (start length : ℕ) : Prop :=
  ∀ i, start ≤ i → i < start + length →
    i < left.length ∧ i < right.length ∧ left.getD i 0 = right.getD i 0

/-- Slices are equal when the contents are at every position of the range, past the end too. -/
theorem slice_eq_iff {left right : Bytes} {start length : ℕ} :
    (left.drop start).take length = (right.drop start).take length ↔
      ∀ i, start ≤ i → i < start + length → left[i]? = right[i]? := by
  rw [List.ext_getElem?_iff]
  simp only [List.getElem?_take, List.getElem?_drop]
  apply Iff.intro
  · intro h i hlow hhigh
    have hbyte := h (i - start)
    rwa [if_pos (by omega), if_pos (by omega), Nat.add_sub_cancel' hlow] at hbyte
  · intro h i
    split_ifs with hinside
    · exact h (start + i) (Nat.le_add_right _ _) (by omega)
    · rfl

/-- A range is the same in two contents, block by block, when they are at every position of it,
past the end too. -/
theorem rangesEqual_iff {left right : Bytes} {start length blockSize : ℕ} (h : 0 < blockSize) :
    rangesEqual left right start length blockSize = true ↔
      ∀ i, start ≤ i → i < start + length → left[i]? = right[i]? := by
  unfold rangesEqual blockOf blockBounds
  simp only [List.all_eq_true, decide_eq_true_eq, slice_eq_iff, List.mem_range']
  apply Iff.intro
  · intro hblocks i hlow hhigh
    have hdiv := Nat.div_add_mod (i - start) blockSize
    have hmod := Nat.mod_lt (i - start) h
    refine hblocks (start + blockSize * ((i - start) / blockSize)) ⟨_, ?_, rfl⟩ i (by omega) ?_
    · rw [Nat.div_lt_iff_lt_mul h]
      have hceil := Nat.lt_div_mul_add (a := length + blockSize - 1) h
      omega
    · rw [← Nat.add_min_add_left]
      exact lt_min (by omega) (by omega)
  · rintro hbytes _ ⟨k, hk, rfl⟩ i hlow hhigh
    apply hbytes i (by omega)
    omega

/-- Two contents that agree on a range are the same there. -/
theorem AgreeOn.rangesEqual {left right : Bytes} {start length blockSize : ℕ}
    (h : 0 < blockSize) (hagree : AgreeOn left right start length) :
    rangesEqual left right start length blockSize = true := by
  rw [rangesEqual_iff h]
  intro i hlow hhigh
  obtain ⟨hleft, hright, hbyte⟩ := hagree i hlow hhigh
  rw [List.getD_eq_getElem _ _ hleft, List.getD_eq_getElem _ _ hright] at hbyte
  rw [List.getElem?_eq_getElem hleft, List.getElem?_eq_getElem hright, hbyte]

/-- Two contents of which the left holds the whole range agree on it where they are the same. -/
theorem agreeOn_of_rangesEqual {left right : Bytes} {start length blockSize : ℕ}
    (h : 0 < blockSize) (hlong : ∀ i, start ≤ i → i < start + length → i < left.length)
    (hequal : rangesEqual left right start length blockSize = true) :
    AgreeOn left right start length := by
  intro i hlow hhigh
  have hleft := hlong i hlow hhigh
  have hbyte := (rangesEqual_iff h).mp hequal i hlow hhigh
  rw [List.getElem?_eq_getElem hleft] at hbyte
  obtain ⟨hright, hsame⟩ := List.getElem?_eq_some_iff.mp hbyte.symm
  refine ⟨hleft, hright, ?_⟩
  rw [List.getD_eq_getElem _ _ hleft, List.getD_eq_getElem _ _ hright, hsame]

/-- Comparing does not look at the order of the two contents. -/
theorem rangesEqual_comm (left right : Bytes) (start length blockSize : ℕ) :
    rangesEqual left right start length blockSize =
      rangesEqual right left start length blockSize := by
  unfold rangesEqual
  simp only [eq_comm]

/-- Two contents that agree on a range do so in either order. -/
theorem AgreeOn.symm {left right : Bytes} {start length : ℕ}
    (h : AgreeOn left right start length) : AgreeOn right left start length :=
  fun i hlow hhigh => ⟨(h i hlow hhigh).2.1, (h i hlow hhigh).1, (h i hlow hhigh).2.2.symm⟩

/-- A pass says that both contents hold the range and agree on it exactly when there is nothing
to compare, one of them reaches its end, or what they hold of it differs. -/
theorem rangesEqual_agree_iff {left right : Bytes} {start length blockSize : ℕ}
    (h : 0 < blockSize) :
    (rangesEqual left right start length blockSize = true ↔ AgreeOn left right start length) ↔
      length = 0 ∨ start + length ≤ left.length ∨ start + length ≤ right.length ∨
        left.drop start ≠ right.drop start := by
  apply Iff.intro
  · intro hexact
    by_contra hfail
    simp only [not_or, not_le, ne_eq, not_not] at hfail
    obtain ⟨hlength, hleft, -, hdrop⟩ := hfail
    have hequal : rangesEqual left right start length blockSize = true := by
      rw [rangesEqual_iff h]
      exact slice_eq_iff.mp (congrArg (List.take length) hdrop)
    have hlast := (hexact.mp hequal (start + length - 1) (by omega) (by omega)).1
    omega
  · rintro (rfl | hleft | hright | hdrop)
    · exact iff_of_true ((rangesEqual_iff h).mpr fun i hlow hhigh => absurd hlow (by omega))
        fun i hlow hhigh => absurd hlow (by omega)
    · exact ⟨agreeOn_of_rangesEqual h fun i _ hhigh => by omega, AgreeOn.rangesEqual h⟩
    · rw [rangesEqual_comm]
      exact ⟨fun hequal => (agreeOn_of_rangesEqual h (fun i _ hhigh => by omega) hequal).symm,
        fun hagree => hagree.symm.rangesEqual h⟩
    · refine ⟨fun hequal => ?_, AgreeOn.rangesEqual h⟩
      apply agreeOn_of_rangesEqual h _ hequal
      -- contents that both end before the range does would be the same to their ends
      by_contra hshort
      simp only [not_forall, not_lt] at hshort
      obtain ⟨i, hlow, hhigh, hend⟩ := hshort
      have hbytes := (rangesEqual_iff h).mp hequal
      have hright : right.length ≤ i := by
        rw [← List.getElem?_eq_none_iff, ← hbytes i hlow hhigh, List.getElem?_eq_none_iff]
        exact hend
      apply hdrop
      apply List.ext_getElem?
      intro j
      rw [List.getElem?_drop, List.getElem?_drop]
      obtain hinside | houtside := lt_or_ge (start + j) (start + length)
      · exact hbytes (start + j) (Nat.le_add_right _ _) hinside
      · rw [List.getElem?_eq_none (by omega), List.getElem?_eq_none (by omega)]

/-! ## What was read back -/

namespace Downloader

variable {σ : Type} [Sink σ] {sink : σ} {state : Downloader σ}

/-- No two bytes are received for one position. -/
theorem Window.received_unique (h : Window sink state) {position : ℕ} {byte byte' : UInt8}
    (hbyte : ReceivedAt state.answered position byte)
    (hbyte' : ReceivedAt state.answered position byte') : byte = byte' := by
  obtain ⟨issued, payload, hmem, -, hcovers, rfl⟩ := hbyte
  obtain ⟨issued', payload', hmem', -, hcovers', rfl⟩ := hbyte'
  have hcount : (landed state.answered).countP (Piece.contains position ∘ placedRange) ≤ 1 := by
    rw [← List.countP_map]
    apply (h.once position).trans
    split_ifs <;> omega
  have hwrites : (issued.offset, payload) = (issued'.offset, payload') :=
    eq_of_countP_le_one hcount (List.mem_filterMap.mpr ⟨_, hmem, rfl⟩)
      (List.mem_filterMap.mpr ⟨_, hmem', rfl⟩) (Piece.contains_iff.mpr hcovers)
      (Piece.contains_iff.mpr hcovers')
  obtain ⟨hoffset, hpayload⟩ := Prod.mk.inj hwrites
  rw [hoffset, hpayload]

end Downloader

/-- Every byte of a range was received, and only as a content has it. -/
def Verified (answered : List Answered) (content : Bytes) (start length : ℕ) : Prop :=
  ∀ i, start ≤ i → i < start + length → ∃ byte, content[i]? = some byte ∧
    ReceivedAt answered i byte ∧ ∀ other, ReceivedAt answered i other → other = byte

section Scratch

variable {start length : ℕ} {schedule : Schedule} {replies : List (ℕ × Reply)}
  {ending : Failure} {count : ℕ} {done : Downloader DescriptorSink}
  (hrun : downloadHandle (DescriptorSink.mk []) (some (start + length)) schedule start replies
    ending = (done, .ok count))
include hrun

/-- What holds when a range was read back into an empty scratch file. -/
theorem scratch_done : done.Window (DescriptorSink.mk []) ∧ done.Ledger ∧
    done.span = ⟨start, some (start + length)⟩ ∧ done.outstanding = [] ∧
    done.moreToIssue = false ∧ done.sink.content = pwriteAll [] (landed done.answered) := by
  obtain ⟨failure, heq⟩ | ⟨hdepth, hlength, -, heq⟩ := downloadHandle_cases (DescriptorSink.mk [])
    (some (start + length)) schedule start replies ending
  · rw [hrun] at heq
    cases (Prod.mk.inj heq).2
  · rw [hrun] at heq
    have hmoves := Downloader.run_moves
      (.init ⟨start, some (start + length)⟩ schedule (DescriptorSink.mk [])) replies ending
    have hinit := Downloader.window_init ⟨start, some (start + length)⟩ hlength
      (DescriptorSink.mk [])
    obtain ⟨hnone, hmore, -⟩ := Downloader.run_done hdepth (congrArg Prod.snd heq).symm
    rw [← heq] at hmoves hnone hmore
    have hwindow := hinit.moves hmoves
    refine ⟨hwindow, (Downloader.ledger_init _ _ _).moves hinit hmoves,
      (Downloader.moves_frame hmoves).1, hnone, hmore, ?_⟩
    rw [hwindow.sink_eq, foldl_descriptorSink]

/-- The byte that a scratch file holds where a write covers its position was received. -/
theorem received_of_scratch {i : ℕ} (h : Covered (landed done.answered) i) :
    i < done.sink.content.length ∧ ReceivedAt done.answered i (done.sink.content.getD i 0) := by
  obtain ⟨hwindow, hledger, -, -, -, hcontent⟩ := scratch_done hrun
  rw [hcontent]
  obtain ⟨write, hmem, hcovers, hbyte⟩ := getD_pwriteAll_of_covered h []
  obtain ⟨issued, hoffset, hreply⟩ := mem_landed hmem
  have hfits := hledger.within _ _ hreply
  refine ⟨(lt_length_pwriteAll _ _ _).mpr (Or.inr ⟨i, le_rfl, h⟩), issued, write.2, hreply, ?_, ?_, ?_⟩
  · rw [Piece.contains_iff]
    obtain ⟨hlow, hhigh⟩ := hcovers
    omega
  · rw [hoffset]
    exact hcovers
  · rw [hoffset, hbyte]

/-- What is the same in the scratch file was received whenever no READ was answered with EOF. -/
theorem verified_of_scratch (hdropped : dropped done.answered = []) {content : Bytes}
    {blockSize : ℕ} (hblock : 0 < blockSize)
    (hequal : rangesEqual done.sink.content content start length blockSize = true) :
    Verified done.answered content start length := by
  intro i hlow hhigh
  obtain ⟨hwindow, -, hspan, hnone, hmore, -⟩ := scratch_done hrun
  have hstop : start + length ∈ done.span.stop := by
    rw [hspan]
    rfl
  have hstart : done.span.start ≤ i := by
    rw [hspan]
    exact hlow
  have hcovered := hwindow.covered_of_done hnone hmore hdropped hstop hstart hhigh
  obtain ⟨hinside, hreceived⟩ := received_of_scratch hrun hcovered
  refine ⟨done.sink.content.getD i 0, ?_, hreceived,
    fun other hother => hwindow.received_unique hother hreceived⟩
  rw [← (rangesEqual_iff hblock).mp hequal i hlow hhigh, List.getElem?_eq_getElem hinside,
    List.getD_eq_getElem]

/-- Where a READ was answered with EOF, a byte of the range was never received. -/
theorem not_verified_of_dropped (hdropped : dropped done.answered ≠ []) (content : Bytes) :
    ¬ Verified done.answered content start length := by
  intro hverified
  obtain ⟨hwindow, -, hspan, -⟩ := scratch_done hrun
  obtain ⟨range, hmem⟩ := List.exists_mem_of_ne_nil _ hdropped
  have hunwritten : range ∈ done.unwritten := List.mem_append_left _ hmem
  obtain ⟨hlow, hhigh⟩ := hwindow.tiles.le_of_pos (List.mem_append_right _ hunwritten)
    (hwindow.length_pos range hunwritten)
  have hpos := hwindow.length_pos range hunwritten
  have hstop := hwindow.inside (start + length) (by rw [hspan]; rfl)
  rw [hspan] at hlow hstop
  obtain ⟨byte, -, hreceived, -⟩ := hverified range.offset hlow (by simp only at hstop; omega)
  exact hwindow.not_covered_of_dropped hmem hreceived.covered

end Scratch

/-! ## Reading back and comparing -/

/-- The world with another local file. -/
def World.withLocal (localFile : Option Bytes) (world : World) : World :=
  { world with localFile := localFile }

section Ignoring

variable (localFile : Option Bytes) (connection : Connection)

/-- A request does not look at the local file. -/
theorem ignores_request (req : Request) :
    Ignores (World.withLocal localFile) (request connection req) := by
  refine .of fun world => ?_
  cases hscript : world.script with
  | nil => simp [World.withLocal, hscript, World.kill]
  | cons turn script =>
    cases turn <;> simp [World.withLocal, hscript, World.kill]
    rfl

/-- Opening for reading does not look at the local file. -/
theorem ignores_openForRead (path : Bytes) :
    Ignores (World.withLocal localFile) (openForRead connection path) := by
  have hopen : Ignores (World.withLocal localFile) (openFile connection path .read none) := by
    refine .bind (ignores_request localFile connection _) fun reply => ?_
    cases reply with
    | handle handle => exact .pure _
    | status _ _ => exact .throw _
    | attrs _ => exact .throw _
    | data _ => exact .throw _
    | name _ => exact .throw _
    | digests _ _ => exact .throw _
  unfold openForRead
  generalize transientAttempts - 1 = retries
  induction retries with
  | zero => exact hopen
  | succ retries ih =>
    refine .tryCatch hopen fun failure => ?_
    split_ifs
    · exact ih
    · exact .throw _

/-- Closing does not look at the local file. -/
theorem ignores_closeQuietly (handle : Handle) :
    Ignores (World.withLocal localFile) (closeQuietly connection handle) := by
  refine .tryCatch (.bind (ignores_request localFile connection _) fun reply => ?_) fun failure => ?_
  · cases reply with
    | status code message =>
      dsimp only
      cases raiseForStatus code message none with
      | ok _ => exact .pure _
      | error failure => exact .throw _
    | handle _ => exact .throw _
    | attrs _ => exact .throw _
    | data _ => exact .throw _
    | name _ => exact .throw _
    | digests _ _ => exact .throw _
  · split_ifs
    · exact .pure _
    · exact .throw _

end Ignoring

/-- A range of a remote file is opened, read back and closed again without an error, and these
are the replies to its READs. -/
def ReadsBack (connection : Connection) (path : Bytes) (start length : ℕ) (world : World)
    (done : Downloader DescriptorSink) : Prop :=
  ∃ handle opened replies ending script count closed,
    (openForRead connection path).exec world = (.ok handle, opened) ∧
      opened.script = .reread replies ending :: script ∧
      downloadHandle (DescriptorSink.mk []) (some (start + length))
        ⟨connection.readLength, connection.depth⟩ start replies ending.failure =
          (done, .ok count) ∧
      (closeQuietly connection handle).exec { opened with script := script } = (.ok (), closed)

/-- A program with cleanup returned when both did. -/
theorem exec_finally_ok {α : Type} {program : Session α} {cleanup : Session Unit}
    {world world' : World} {value : α} :
    (finally_ program cleanup).exec world = (.ok value, world') ↔
      ∃ between, program.exec world = (.ok value, between) ∧
        cleanup.exec between = (.ok (), world') := by
  unfold finally_
  simp only [exec_bind_ok, exec_tryCatch_ok, exec_pure, Prod.mk.injEq, Except.ok.injEq]
  apply Iff.intro
  · rintro ⟨found, between, hprogram | ⟨failure, raised, -, _, _, -, hthrow⟩, _, _, hcleanup, rfl, rfl⟩
    · exact ⟨between, hprogram, hcleanup⟩
    · cases hthrow
  · rintro ⟨between, hprogram, hcleanup⟩
    exact ⟨value, between, Or.inl hprogram, (), world', hcleanup, rfl, rfl⟩

/-- A range that was read back was read by the next turn of the script. -/
theorem rereadRange_ok {connection : Connection} {start length : ℕ} {world world' : World}
    {scratch : Bytes} :
    (rereadRange connection start length).exec world = (.ok scratch, world') ↔
      ∃ replies ending script done count, world.script = .reread replies ending :: script ∧
        downloadHandle (DescriptorSink.mk []) (some (start + length))
          ⟨connection.readLength, connection.depth⟩ start replies ending.failure =
            (done, .ok count) ∧
        scratch = done.sink.content ∧ world' = { world with script := script } := by
  unfold rereadRange
  rw [exec_of]
  split
  · next replies ending script hscript =>
    generalize hrun : downloadHandle (DescriptorSink.mk []) (some (start + length))
      ⟨connection.readLength, connection.depth⟩ start replies ending.failure = ended
    obtain ⟨done, failure | count⟩ := ended
    · apply iff_of_false
      · rintro ⟨⟩
      · rintro ⟨replies', ending', script', done', count', hscript', hrun', -⟩
        rw [hscript] at hscript'
        cases hscript'
        rw [hrun] at hrun'
        cases hrun'
    · apply Iff.intro
      · rintro ⟨⟩
        exact ⟨replies, ending, script, done, count, hscript, hrun, rfl, rfl⟩
      · rintro ⟨replies', ending', script', done', count', hscript', hrun', rfl, rfl⟩
        rw [hscript] at hscript'
        cases hscript'
        rw [hrun] at hrun'
        cases hrun'
        rfl
  · next hother =>
    apply iff_of_false
    · rintro ⟨⟩
    · rintro ⟨replies, ending, script, -, -, hscript, -⟩
      exact hother replies ending script hscript

/-- A comparison with a local file passes when the range was read back and is the same in the
scratch file. -/
theorem rereadAgrees_true_iff {connection : Connection} {path : Bytes} {start length : ℕ}
    (hlength : length ≠ 0) (world : World) (content : Bytes) :
    ((rereadAgrees connection path start length).exec
        (world.withLocal (some content))).1 = .ok true ↔
      ∃ done, ReadsBack connection path start length world done ∧
        rangesEqual done.sink.content content start length checkFileBlockSize = true := by
  unfold rereadAgrees
  rw [if_neg hlength]
  apply Iff.intro
  · intro h
    obtain ⟨handle, between, hopen, hrest⟩ := exec_bind_ok.mp (Prod.ext h rfl)
    obtain ⟨finished, hprogram, hclose⟩ := exec_finally_ok.mp hrest
    obtain ⟨scratch, compared, hread, hcompare⟩ := exec_bind_ok.mp hprogram
    rw [ignores_openForRead (some content) connection path world] at hopen
    obtain ⟨hhandle, rfl⟩ := Prod.mk.inj hopen
    obtain ⟨replies, ending, script, done, count, hscript, hrun, rfl, rfl⟩ :=
      rereadRange_ok.mp hread
    obtain ⟨hequal, rfl⟩ := Prod.mk.inj hcompare
    have hclosed := ignores_closeQuietly (some content) connection handle
      { ((openForRead connection path).exec world).2 with script := script }
    have hreturned : ((closeQuietly connection handle).exec (World.withLocal (some content)
        { ((openForRead connection path).exec world).2 with script := script })).1 = .ok () :=
      congrArg Prod.fst hclose
    rw [hclosed] at hreturned
    exact ⟨done, ⟨handle, _, replies, ending, script, count, _, Prod.ext hhandle rfl, hscript, hrun,
      Prod.ext hreturned rfl⟩, Except.ok.inj hequal⟩
  · rintro ⟨done, ⟨handle, opened, replies, ending, script, count, closed, hopen, hscript, hrun,
      hclose⟩, hequal⟩
    have hopened := ignores_openForRead (some content) connection path world
    rw [hopen] at hopened
    have hclosed := ignores_closeQuietly (some content) connection handle
      { opened with script := script }
    rw [hclose] at hclosed
    have hread : (rereadRange connection start length).exec (opened.withLocal (some content)) =
        (.ok done.sink.content,
          World.withLocal (some content) { opened with script := script }) :=
      rereadRange_ok.mpr ⟨replies, ending, script, done, count, hscript, hrun, rfl, rfl⟩
    refine congrArg Prod.fst (?_ : _ = (Except.ok true, closed.withLocal (some content)))
    refine exec_bind_ok.mpr ⟨handle, _, hopened, exec_finally_ok.mpr
      ⟨_, exec_bind_ok.mpr ⟨_, _, hread, ?_⟩, hclosed⟩⟩
    exact Prod.ext (congrArg Except.ok hequal) rfl

/-- A read back happens in one way at most. -/
theorem ReadsBack.unique {connection : Connection} {path : Bytes} {start length : ℕ}
    {world : World} {done done' : Downloader DescriptorSink}
    (h : ReadsBack connection path start length world done)
    (h' : ReadsBack connection path start length world done') : done = done' := by
  obtain ⟨handle, opened, replies, ending, script, count, closed, hopen, hscript, hrun, -⟩ := h
  obtain ⟨handle', opened', replies', ending', script', count', closed', hopen', hscript', hrun',
    -⟩ := h'
  cases hopen.symm.trans hopen'
  cases hscript.symm.trans hscript'
  exact (Prod.mk.inj (hrun.symm.trans hrun')).1

/-- On every local file, a comparison with what is read back passes only when every byte of the
range was received as the local file has it. -/
def PassesOnlyVerified (connection : Connection) (path : Bytes) (start length : ℕ)
    (world : World) : Prop :=
  ∀ content, ((rereadAgrees connection path start length).exec
      (world.withLocal (some content))).1 = .ok true →
    length = 0 ∨ ∃ done, ReadsBack connection path start length world done ∧
      Verified done.answered content start length

/-- A comparison with what is read back passes only what was received exactly when there is
nothing to compare, or no READ of a read back that ends without an error is answered with EOF. -/
theorem passesOnlyVerified_iff (connection : Connection) (path : Bytes) (start length : ℕ)
    (world : World) :
    PassesOnlyVerified connection path start length world ↔
      length = 0 ∨ ∀ done, ReadsBack connection path start length world done →
        dropped done.answered = [] := by
  by_cases hlength : length = 0
  · exact iff_of_true (fun _ _ => Or.inl hlength) (Or.inl hlength)
  apply Iff.intro
  · refine fun hpasses => Or.inr fun done hback => ?_
    by_contra hdropped
    have hsame : rangesEqual done.sink.content done.sink.content start length
        checkFileBlockSize = true :=
      (rangesEqual_iff (by decide)).mpr fun _ _ _ => rfl
    obtain hnone | ⟨done', hback', hverified⟩ := hpasses done.sink.content
      ((rereadAgrees_true_iff hlength world _).mpr ⟨done, hback, hsame⟩)
    · exact hlength hnone
    · rw [← hback.unique hback'] at hverified
      obtain ⟨_, _, _, _, _, _, _, -, -, hrun, -⟩ := hback
      exact not_verified_of_dropped hrun hdropped _ hverified
  · intro hcondition content hpassed
    obtain ⟨done, hback, hequal⟩ := (rereadAgrees_true_iff hlength world content).mp hpassed
    have hdropped := hcondition.resolve_left hlength done hback
    refine Or.inr ⟨done, hback, ?_⟩
    obtain ⟨_, _, _, _, _, _, _, -, -, hrun, -⟩ := hback
    exact verified_of_scratch hrun hdropped (by decide) hequal

/-- Exactly when a pass of a comparison is one of verified bytes, for what is read back and for two
files. -/
theorem verified_passes_iff (connection : Connection) (path : Bytes) (start length : ℕ)
    (world : World) :
    (PassesOnlyVerified connection path start length world ↔
      length = 0 ∨ ∀ done, ReadsBack connection path start length world done →
        dropped done.answered = []) ∧
      ∀ (left right : Bytes) (blockSize : ℕ), 0 < blockSize →
        ((rangesEqual left right start length blockSize = true ↔
            AgreeOn left right start length) ↔
          length = 0 ∨ start + length ≤ left.length ∨ start + length ≤ right.length ∨
            left.drop start ≠ right.drop start) :=
  ⟨passesOnlyVerified_iff connection path start length world, fun _ _ _ => rangesEqual_agree_iff⟩

/-- The READs of two bytes of a file, the first answered with EOF and the second with its byte. -/
def holedReread : List Turn :=
  [.exchange [] (.answer false), .reread [(1, .status .eof []), (2, .data [7])] .timeout,
    .exchange [] (.answer false)]

/-- A server with one file, and the replies to the READs of it. -/
def holedWorld : World := .starting (fun _ => some [0, 7]) none holedReread

/-- A comparison of two bytes read back, and one of the two bytes of two files. -/
theorem verified_passes_iff_bytes :
    (PassesOnlyVerified (.plain 2) [0x66] 0 2 holedWorld ↔
      2 = 0 ∨ ∀ done, ReadsBack (.plain 2) [0x66] 0 2 holedWorld done →
        dropped done.answered = []) ∧
      ((rangesEqual [0, 7] [0, 7] 0 2 65536 = true ↔ AgreeOn [0, 7] [0, 7] 0 2) ↔
        2 = 0 ∨ 0 + 2 ≤ [(0 : UInt8), 7].length ∨ 0 + 2 ≤ [(0 : UInt8), 7].length ∨
          [(0 : UInt8), 7].drop 0 ≠ [0, 7].drop 0) :=
  ⟨(verified_passes_iff (.plain 2) [0x66] 0 2 holedWorld).1,
    (verified_passes_iff (.plain 2) [0x66] 0 2 holedWorld).2 [0, 7] [0, 7] 65536 (by decide)⟩

/-- A byte that was never received passes for the zero that the local file holds, and a byte that
neither of two empty files holds passes too. -/
theorem unread_passed :
    ¬ PassesOnlyVerified (.plain 2) [0x66] 0 2 holedWorld ∧
      rangesEqual [] [] 0 1 checkFileBlockSize = true ∧ ¬ AgreeOn [] [] 0 1 := by
  refine ⟨fun hpasses => ?_, by decide, fun hagree => ?_⟩
  · have hpassed : ((rereadAgrees (.plain 2) [0x66] 0 2).exec
        (holedWorld.withLocal (some [0, 7]))).1 = .ok true := by decide +kernel
    obtain hnone | ⟨done, ⟨_, opened, replies, ending, script, count, _, hopen, hscript, hrun, -⟩,
      hverified⟩ := hpasses [0, 7] hpassed
    · cases hnone
    · have hopened : ((openForRead (.plain 2) [0x66]).exec holedWorld).2.script =
          holedReread.tail := by decide +kernel
      rw [hopen, hscript] at hopened
      cases hopened
      have hhole : ¬ Covered (landed (downloadHandle (DescriptorSink.mk []) (some (0 + 2))
          ⟨(Connection.plain 2).readLength, (Connection.plain 2).depth⟩ 0
          [(1, .status .eof []), (2, .data [7])] Interruption.timeout.failure).1.answered) 0 := by
        decide +kernel
      rw [hrun] at hhole
      obtain ⟨byte, -, hreceived, -⟩ := hverified 0 le_rfl (by decide)
      exact hhole hreceived.covered
  · exact absurd (hagree 0 le_rfl (by decide)).1 (Nat.not_lt_zero 0)

end GantrySftp
