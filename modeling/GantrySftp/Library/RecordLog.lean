import GantrySftp.Library.JsonCuts
import GantrySftp.Library.LineLog

/-!
# Logs of records

A log to which records are appended, each a written object and a line feed. An append may stop
short of the whole line. What the lines of such a log say is decided by where the appends begin:
one that begins behind a torn line says nothing, and neither does one that is cut short, unless
only its line feed is missing and nothing was appended after it.
-/

namespace Library

/-- Records of a type, the objects written for them, and a reader that makes a change of each
and nothing of a text that is no document. -/
structure RecordLog (ρ ε κ ν : Type) where
  read : LineReader ε κ ν
  document : ρ → Text
  change : ρ → Update κ ν
  written : ∀ record, WrittenObject (document record)
  read_document : ∀ record, read (document record) = .ok (some (change record))
  read_malformed : ∀ text, loads text = .error .decodeError → read text = .ok none

/-- An append of a record, and how many bytes of its line were accepted. -/
structure Appended (ρ : Type) where
  record : ρ
  accepted : ℕ

/-! ## Printable lines -/

/-- No printable code point ends a line. -/
theorem Printable.isLineBreak {text : Text} (h : Printable text) :
    ∀ point ∈ text, isLineBreak point = false := by
  intro point hmem
  obtain ⟨hlow, hhigh⟩ := h point hmem
  simp [Library.isLineBreak]
  omega

/-- The bytes of a printable text. -/
def bytesOf (text : Text) : Bytes := text.map UInt8.ofNat

/-- A printable text is read back from its bytes. -/
theorem decodeUtf8_bytesOf (onError : Bytes → Text) {text : Text}
    (h : ∀ point ∈ text, point < 0x80) : decodeUtf8 onError (bytesOf text) = text := by
  have hvalue : ∀ point ∈ text, (UInt8.ofNat point).toNat = point := by
    intro point hmem
    have := h point hmem
    rw [UInt8.toNat_ofNat']
    omega
  have hascii : ∀ byte ∈ bytesOf text, byte.toNat < 0x80 := by
    intro byte hmem
    obtain ⟨point, hpoint, rfl⟩ := List.mem_map.mp hmem
    rw [hvalue point hpoint]
    exact h point hpoint
  rw [decodeUtf8_ascii onError hascii, bytesOf, List.map_map]
  exact (List.map_congr_left hvalue).trans (List.map_id text)

/-- A printable line in front of a file is its first line. -/
theorem decodedLines_line {text : Text} (h : Printable text) (rest : Bytes) :
    decodedLines (bytesOf (text ++ [0x0A]) ++ rest) = text :: decodedLines rest := by
  have hascii : ∀ point ∈ text ++ [0x0A], point < 0x80 := by
    intro point hmem
    obtain hmem | hmem := List.mem_append.mp hmem
    · have := h point hmem
      omega
    · obtain rfl := List.mem_singleton.mp hmem
      decide
  have hterminated : Terminated (bytesOf (text ++ [0x0A])) :=
    Or.inr ⟨bytesOf text, by simp [bytesOf]⟩
  rw [decodedLines_append hterminated, decodedLines, decodeUtf8_bytesOf replaceError hascii,
    splitLines_line h.isLineBreak, List.singleton_append]

/-- A printable text with no line feed is one line, if it is not empty. -/
theorem decodedLines_unterminated {text : Text} (h : Printable text) (hne : text ≠ []) :
    decodedLines (bytesOf text) = [text] := by
  have hascii : ∀ point ∈ text, point < 0x80 := by
    intro point hmem
    have := h point hmem
    omega
  rw [decodedLines, decodeUtf8_bytesOf replaceError hascii]
  exact splitLines_unterminated h.isLineBreak hne

/-- No byte of a printable text is a line feed. -/
theorem Printable.ne_lineFeed {text : Text} (h : Printable text) :
    ∀ byte ∈ bytesOf text, byte ≠ 0x0A := by
  rintro byte hmem rfl
  obtain ⟨point, hpoint, hbyte⟩ := List.mem_map.mp hmem
  obtain ⟨hlow, hhigh⟩ := h point hpoint
  have hvalue := congrArg UInt8.toNat hbyte
  rw [UInt8.toNat_ofNat'] at hvalue
  have hfeed : (0x0A : UInt8).toNat = 0x0A := rfl
  omega

/-- A written object is printable. -/
theorem WrittenObject.printable {text : Text} (h : WrittenObject text) : Printable text := by
  obtain ⟨members, -, -, rfl⟩ := h.written
  exact printable_dumps members

/-- A written object is not empty. -/
theorem WrittenObject.ne_nil {text : Text} (h : WrittenObject text) : text ≠ [] := by
  obtain ⟨letter, rest, rfl, -⟩ := h.letter
  exact List.cons_ne_nil _ _

/-- A piece of a written object is printable. -/
theorem DocumentPiece.printable {text : Text} (h : DocumentPiece text) : Printable text := by
  obtain ⟨object, more, hobject, rfl, -⟩ := h
  exact fun point hmem => hobject.printable point (List.mem_append_left more hmem)

/-- Pieces written one behind the other are printable. -/
theorem printable_flatten {pieces : List Text} (h : ∀ piece ∈ pieces, DocumentPiece piece) :
    Printable pieces.flatten := by
  intro point hmem
  obtain ⟨piece, hpiece, hpoint⟩ := List.mem_flatten.mp hmem
  exact (h piece hpiece).printable point hpoint

namespace RecordLog

variable {ρ ε κ ν : Type} (log : RecordLog ρ ε κ ν)

/-- The line of a record, as bytes. -/
def line (record : ρ) : Bytes := bytesOf (log.document record ++ [0x0A])

/-! ## Whole records -/

/-- A line is cut off the file in front of it. -/
theorem decodedLines_record (record : ρ) (rest : Bytes) :
    decodedLines (log.line record ++ rest) = log.document record :: decodedLines rest :=
  decodedLines_line (log.written record).printable rest

/-- The lines of records end with a line feed. -/
theorem terminated_lines (records : List ρ) : Terminated (records.flatMap log.line) := by
  induction records with
  | nil => exact Or.inl rfl
  | cons record rest ih =>
    have hline : Terminated (log.line record) :=
      Or.inr ⟨bytesOf (log.document record), by simp [line, bytesOf]⟩
    exact hline.append ih

/-- Records make their changes in order, before whatever follows them. -/
theorem changes_lines (records : List ρ) (rest : Bytes) :
    log.read.changes (decodedLines (records.flatMap log.line ++ rest)) =
        records.map log.change ++ log.read.changes (decodedLines rest) ∧
      log.read.raised (decodedLines (records.flatMap log.line ++ rest)) =
        log.read.raised (decodedLines rest) := by
  induction records with
  | nil => exact ⟨rfl, rfl⟩
  | cons record records ih =>
    rw [List.flatMap_cons, List.append_assoc, decodedLines_record]
    obtain ⟨hchanges, hraised⟩ := LineReader.stating (log.read_document record)
      (decodedLines (records.flatMap log.line ++ rest))
    rw [hchanges, hraised, ih.1, ih.2]
    exact ⟨rfl, rfl⟩

/-- A line cut anywhere says what its record does or nothing. -/
theorem changes_take_line (record : ρ) {count : ℕ} (hcount : count < (log.line record).length) :
    (log.read.changes (decodedLines ((log.line record).take count)) = [] ∨
      log.read.changes (decodedLines ((log.line record).take count)) = [log.change record]) ∧
      log.read.raised (decodedLines ((log.line record).take count)) = none := by
  have hlength : count ≤ (log.document record).length := by
    simp only [line, bytesOf, List.length_map, List.length_append, List.length_cons,
      List.length_nil] at hcount
    omega
  have hbytes : (log.line record).take count = bytesOf ((log.document record).take count) := by
    rw [line, bytesOf, ← List.map_take, List.take_append_of_le_length hlength, bytesOf]
  rw [hbytes]
  by_cases hzero : count = 0
  · rw [hzero]
    exact ⟨Or.inl rfl, rfl⟩
  have hne : (log.document record).take count ≠ [] := by
    rw [← List.length_pos_iff, List.length_take]
    omega
  have hprintable : Printable ((log.document record).take count) := fun point hmem =>
    (log.written record).printable point (List.mem_of_mem_take hmem)
  rw [decodedLines_unterminated hprintable hne]
  by_cases hwhole : count = (log.document record).length
  · rw [hwhole, List.take_length]
    obtain ⟨hchanges, hraised⟩ := LineReader.stating (log.read_document record) []
    exact ⟨Or.inr hchanges, hraised⟩
  · have hmore : (log.document record).drop count ≠ [] := by
      rw [← List.length_pos_iff, List.length_drop]
      omega
    have hloads := (log.written record).loads_cut (List.take_append_drop count _) hmore
    obtain ⟨hchanges, hraised⟩ := LineReader.silent (log.read_malformed _ hloads) []
    exact ⟨Or.inl hchanges, hraised⟩

/-- The first bytes of a log of records say what its first records do. -/
theorem changes_take (records : List ρ) (count : ℕ) :
    ∃ kept, log.read.changes (decodedLines ((records.flatMap log.line).take count)) =
        (records.take kept).map log.change ∧
      log.read.raised (decodedLines ((records.flatMap log.line).take count)) = none := by
  induction records generalizing count with
  | nil =>
    rw [List.flatMap_nil, List.take_nil]
    exact ⟨0, rfl, rfl⟩
  | cons record records ih =>
    rw [List.flatMap_cons, List.take_append]
    by_cases hcount : count < (log.line record).length
    · have hrest : (records.flatMap log.line).take (count - (log.line record).length) = [] := by
        rw [Nat.sub_eq_zero_of_le (Nat.le_of_lt hcount), List.take_zero]
      rw [hrest, List.append_nil]
      obtain ⟨hnone | hone, hraised⟩ := log.changes_take_line record hcount
      · exact ⟨0, hnone, hraised⟩
      · exact ⟨1, hone, hraised⟩
    · obtain ⟨kept, hchanges, hraised⟩ := ih (count - (log.line record).length)
      obtain ⟨hline, hquiet⟩ := log.changes_lines [record]
        ((records.flatMap log.line).take (count - (log.line record).length))
      rw [List.flatMap_singleton] at hline hquiet
      rw [List.take_of_length_le (Nat.le_of_not_lt hcount)]
      refine ⟨kept + 1, ?_, hquiet.trans hraised⟩
      rw [hline, hchanges, List.take_succ_cons]
      rfl

/-! ## Appends cut short -/

/-- What an append leaves in the file. -/
def bytes (append : Appended ρ) : Bytes := (log.line append.record).take append.accepted

/-- What appends leave in the file, one after the other. -/
def content (appends : List (Appended ρ)) : Bytes := appends.flatMap log.bytes

/-- An append whose whole line was accepted. -/
def Whole (append : Appended ρ) : Prop := (log.line append.record).length ≤ append.accepted

instance (append : Appended ρ) : Decidable (log.Whole append) := Nat.decLe _ _

/-- What is behind the last line feed: nothing, the whole object of a record, or pieces that are
no document. -/
inductive Tail (ρ : Type)
  | clean
  | whole (record : ρ)
  | torn

/-- What is behind the last line feed after an append that is cut short. -/
def Tail.cut : Tail ρ → Appended ρ → Tail ρ
  | .clean, append =>
    if append.accepted = (log.document append.record).length then .whole append.record else .torn
  | _, _ => .torn

/-- The changes that a line made of what is behind the last line feed and a whole record makes. -/
def Tail.completed : Tail ρ → ρ → List (Update κ ν)
  | .clean, record => [log.change record]
  | _, _ => []

/-- The changes that what is behind the last line feed makes as it is. -/
def Tail.unterminated : Tail ρ → List (Update κ ν)
  | .whole record => [log.change record]
  | _ => []

/-- The changes appends make to a log with this behind its last line feed. -/
def stated : Tail ρ → List (Appended ρ) → List (Update κ ν)
  | tail, [] => tail.unterminated log
  | tail, append :: rest =>
    if log.Whole append then tail.completed log append.record ++ stated .clean rest
    else stated (tail.cut log append) rest

/-- A document is a piece. -/
theorem piece_document (record : ρ) : DocumentPiece (log.document record) :=
  ⟨_, [], log.written record, List.append_nil _, (log.written record).ne_nil⟩

/-- What is behind the last line feed, piece by piece. -/
inductive Tail.Spelled : Tail ρ → List Text → Prop
  | clean : Spelled .clean []
  | whole (record : ρ) : Spelled (.whole record) [log.document record]
  | torn {record : ρ} {cut more : Text} (hcut : cut ++ more = log.document record)
      (hne : cut ≠ []) (hmore : more ≠ []) : Spelled .torn [cut]
  | glued {first second : Text} {pieces : List Text} (hfirst : DocumentPiece first)
      (hpieces : ∀ piece ∈ second :: pieces, DocumentPiece piece) : Spelled .torn (first :: second :: pieces)

variable {log}

/-- What is behind the last line feed is made of pieces. -/
theorem Tail.Spelled.piece {tail : Tail ρ} {pieces : List Text} (h : tail.Spelled log pieces) :
    ∀ piece ∈ pieces, DocumentPiece piece := by
  cases h with
  | clean => simp
  | whole record =>
    intro piece hmem
    obtain rfl := List.mem_singleton.mp hmem
    exact log.piece_document record
  | torn hcut hne hmore =>
    intro piece hmem
    obtain rfl := List.mem_singleton.mp hmem
    exact ⟨_, _, log.written _, hcut, hne⟩
  | glued hfirst hpieces => exact List.forall_mem_cons.mpr ⟨hfirst, hpieces⟩

/-- What is behind the last line feed is read as it is. -/
theorem Tail.Spelled.unterminated {tail : Tail ρ} {pieces : List Text}
    (h : tail.Spelled log pieces) :
    log.read.changes (decodedLines (bytesOf pieces.flatten)) = tail.unterminated log ∧
      log.read.raised (decodedLines (bytesOf pieces.flatten)) = none := by
  have hprintable := printable_flatten h.piece
  cases h with
  | clean => exact ⟨rfl, rfl⟩
  | whole record =>
    rw [List.flatten_singleton] at hprintable ⊢
    rw [decodedLines_unterminated hprintable (log.written record).ne_nil]
    exact LineReader.stating (log.read_document record) []
  | torn hcut hne hmore =>
    have hread := log.read_malformed _ ((log.written _).loads_cut hcut hmore)
    rw [List.flatten_singleton] at hprintable ⊢
    rw [decodedLines_unterminated hprintable hne]
    exact LineReader.silent hread []
  | glued hfirst hpieces =>
    have hread := log.read_malformed _ (loads_pieces hfirst (List.cons_ne_nil _ _) hpieces)
    obtain ⟨rest, rfl⟩ := hfirst.head
    rw [decodedLines_unterminated hprintable (List.cons_ne_nil _ _), List.flatten_cons]
    exact LineReader.silent hread []

/-- A whole record behind the last line feed is read only when nothing else is there. -/
theorem Tail.Spelled.completed {tail : Tail ρ} {pieces : List Text} (h : tail.Spelled log pieces)
    (record : ρ) (rest : List Text) :
    log.read.changes ((pieces.flatten ++ log.document record) :: rest) =
        tail.completed log record ++ log.read.changes rest ∧
      log.read.raised ((pieces.flatten ++ log.document record) :: rest) =
        log.read.raised rest := by
  have hglued : ∀ first others, pieces = first :: others →
      log.read (pieces.flatten ++ log.document record) = .ok none := by
    rintro first others rfl
    have hall := h.piece
    have hpieces : ∀ piece ∈ others ++ [log.document record], DocumentPiece piece := by
      intro piece hmem
      obtain hmem | hmem := List.mem_append.mp hmem
      · exact hall piece (List.mem_cons_of_mem _ hmem)
      · obtain rfl := List.mem_singleton.mp hmem
        exact log.piece_document record
    have hloads := loads_pieces (hall first List.mem_cons_self) (by simp) hpieces
    rw [List.flatten_append, List.flatten_singleton, ← List.append_assoc,
      ← List.flatten_cons] at hloads
    exact log.read_malformed _ hloads
  cases h with
  | clean =>
    exact LineReader.stating (log.read_document record) rest
  | whole other => exact LineReader.silent (hglued _ _ rfl) rest
  | torn hcut hne hmore => exact LineReader.silent (hglued _ _ rfl) rest
  | glued hfirst hpieces => exact LineReader.silent (hglued _ _ rfl) rest

/-- An append that is cut short leaves the front of the object. -/
theorem bytes_cut {append : Appended ρ} (h : ¬ log.Whole append) :
    log.bytes append = bytesOf ((log.document append.record).take append.accepted) ∧
      append.accepted ≤ (log.document append.record).length := by
  have hshort : append.accepted ≤ (log.document append.record).length := by
    simp only [Whole, line, bytesOf, List.length_map, List.length_append, List.length_cons,
      List.length_nil] at h
    omega
  refine ⟨?_, hshort⟩
  rw [bytes, line, bytesOf, ← List.map_take, List.take_append_of_le_length hshort, bytesOf]

/-- An append of the whole line leaves it. -/
theorem bytes_whole {append : Appended ρ} (h : log.Whole append) :
    log.bytes append = bytesOf (log.document append.record ++ [0x0A]) :=
  List.take_of_length_le h

/-- An append that is cut short adds a piece to what is behind the last line feed. -/
theorem Tail.Spelled.cut {tail : Tail ρ} {pieces : List Text} (h : tail.Spelled log pieces)
    {append : Appended ρ} (hpositive : 0 < append.accepted) (hshort : ¬ log.Whole append) :
    (tail.cut log append).Spelled log
      (pieces ++ [(log.document append.record).take append.accepted]) := by
  have hlength := (bytes_cut hshort).2
  have hne : (log.document append.record).take append.accepted ≠ [] := by
    rw [← List.length_pos_iff, List.length_take]
    omega
  have hpiece : DocumentPiece ((log.document append.record).take append.accepted) :=
    ⟨_, _, log.written _, List.take_append_drop _ _, hne⟩
  have hmore : ∀ first others, pieces = first :: others → Spelled log .torn
      (pieces ++ [(log.document append.record).take append.accepted]) := by
    rintro first others rfl
    have hall := h.piece
    cases others with
    | nil =>
      exact .glued (hall first List.mem_cons_self) fun piece hmem =>
        (List.mem_singleton.mp hmem) ▸ hpiece
    | cons second others =>
      refine .glued (hall first List.mem_cons_self) fun piece hmem => ?_
      change piece ∈ (second :: others) ++ [_] at hmem
      obtain hmem | hmem := List.mem_append.mp hmem
      · exact hall piece (List.mem_cons_of_mem _ hmem)
      · exact (List.mem_singleton.mp hmem) ▸ hpiece
  cases h with
  | clean =>
    rw [List.nil_append, Tail.cut]
    by_cases hwhole : append.accepted = (log.document append.record).length
    · rw [if_pos hwhole, hwhole, List.take_length]
      exact .whole append.record
    · rw [if_neg hwhole]
      refine .torn (List.take_append_drop append.accepted _) hne ?_
      rw [← List.length_pos_iff, List.length_drop]
      omega
  | whole record => exact hmore _ _ rfl
  | torn hcut hne hmore' => exact hmore _ _ rfl
  | glued hfirst hpieces => exact hmore _ _ rfl

/-- A whole record completes the line of what is behind the last line feed. -/
theorem Tail.Spelled.completed_bytes {tail : Tail ρ} {pieces : List Text}
    (h : tail.Spelled log pieces) {append : Appended ρ} (hwhole : log.Whole append) :
    Printable (pieces.flatten ++ log.document append.record) ∧
      bytesOf pieces.flatten ++ log.bytes append =
        bytesOf (pieces.flatten ++ log.document append.record ++ [0x0A]) := by
  constructor
  · intro point hmem
    obtain hmem | hmem := List.mem_append.mp hmem
    · exact printable_flatten h.piece point hmem
    · exact (log.written append.record).printable point hmem
  · simp [bytes_whole hwhole, bytesOf]

/-- An append that is cut short goes on with what is behind the last line feed. -/
theorem cut_bytes (pieces : List Text) {append : Appended ρ} (hshort : ¬ log.Whole append) :
    bytesOf pieces.flatten ++ log.bytes append =
      bytesOf (pieces ++ [(log.document append.record).take append.accepted]).flatten := by
  simp [(bytes_cut hshort).1, bytesOf]

/-- What a log says: the changes its appends make, and it raises nothing. -/
theorem changes_content {tail : Tail ρ} {pieces : List Text} (h : tail.Spelled log pieces)
    {appends : List (Appended ρ)} (hpositive : ∀ append ∈ appends, 0 < append.accepted) :
    log.read.changes (decodedLines (bytesOf pieces.flatten ++ log.content appends)) =
        stated log tail appends ∧
      log.read.raised (decodedLines (bytesOf pieces.flatten ++ log.content appends)) = none := by
  induction appends generalizing tail pieces with
  | nil =>
    rw [content, List.flatMap_nil, List.append_nil]
    exact h.unterminated
  | cons append rest ih =>
    have hrest : ∀ other ∈ rest, 0 < other.accepted :=
      fun other hmem => hpositive other (List.mem_cons_of_mem _ hmem)
    have hcontent : log.content (append :: rest) = log.bytes append ++ log.content rest := rfl
    rw [stated, hcontent, ← List.append_assoc]
    by_cases hwhole : log.Whole append
    · obtain ⟨hline, htext⟩ := h.completed_bytes hwhole
      obtain ⟨hchanges, hraised⟩ := h.completed append.record (decodedLines (log.content rest))
      obtain ⟨hlater, hquiet⟩ := ih .clean hrest
      rw [htext, decodedLines_line hline, hchanges, hraised, if_pos hwhole]
      exact ⟨congrArg _ hlater, hquiet⟩
    · rw [cut_bytes pieces hwhole, if_neg hwhole]
      exact ih (h.cut (hpositive append List.mem_cons_self) hwhole) hrest

/-- Only a whole object behind a line feed is left whole by an append that is cut short. -/
theorem Tail.of_cut_eq_whole {tail : Tail ρ} {append : Appended ρ} {record : ρ}
    (h : tail.cut log append = .whole record) : tail = .clean ∧ record = append.record := by
  unfold Tail.cut at h
  cases tail with
  | clean =>
    dsimp only at h
    by_cases hlength : append.accepted = (log.document append.record).length
    · rw [if_pos hlength] at h
      cases h
      exact ⟨rfl, rfl⟩
    · rw [if_neg hlength] at h
      cases h
  | whole other => cases h
  | torn => cases h

/-- What appends state, records state. -/
theorem exists_stated (tail : Tail ρ) (appends : List (Appended ρ)) :
    ∃ records : List ρ, stated log tail appends = records.map log.change := by
  induction appends generalizing tail with
  | nil =>
    cases tail with
    | clean => exact ⟨[], rfl⟩
    | whole record => exact ⟨[record], rfl⟩
    | torn => exact ⟨[], rfl⟩
  | cons append rest ih =>
    rw [stated]
    by_cases hwhole : log.Whole append
    · obtain ⟨records, hrecords⟩ := ih .clean
      rw [if_pos hwhole, hrecords]
      cases tail with
      | clean => exact ⟨append.record :: records, rfl⟩
      | whole record => exact ⟨records, rfl⟩
      | torn => exact ⟨records, rfl⟩
    · rw [if_neg hwhole]
      exact ih _

/-- What appends state is what one of their records states, or what was behind the last line feed. -/
theorem mem_stated {tail : Tail ρ} {appends : List (Appended ρ)} {change : Update κ ν}
    (h : change ∈ stated log tail appends) :
    (∃ append ∈ appends, change = log.change append.record) ∨
      ∃ record, tail = .whole record ∧ change = log.change record := by
  induction appends generalizing tail with
  | nil =>
    cases tail with
    | clean => cases h
    | whole record => exact Or.inr ⟨record, rfl, List.mem_singleton.mp h⟩
    | torn => cases h
  | cons append rest ih =>
    have hlater : (∃ next ∈ rest, change = log.change next.record) →
        ∃ next ∈ append :: rest, change = log.change next.record :=
      fun ⟨next, hmem, hchange⟩ => ⟨next, List.mem_cons_of_mem _ hmem, hchange⟩
    rw [stated] at h
    by_cases hwhole : log.Whole append
    · rw [if_pos hwhole] at h
      obtain hfirst | hrest := List.mem_append.mp h
      · cases tail with
        | clean => exact Or.inl ⟨append, List.mem_cons_self, List.mem_singleton.mp hfirst⟩
        | whole record => cases hfirst
        | torn => cases hfirst
      · exact Or.inl (hlater ((ih hrest).resolve_right nofun))
    · rw [if_neg hwhole] at h
      obtain hlast | ⟨record, hcut, hchange⟩ := ih h
      · exact Or.inl (hlater hlast)
      · obtain ⟨-, rfl⟩ := Tail.of_cut_eq_whole hcut
        exact Or.inl ⟨append, List.mem_cons_self, hchange⟩

/-- What appends to an empty log state is what one of their records states. -/
theorem mem_stated_clean {appends : List (Appended ρ)} {change : Update κ ν}
    (h : change ∈ stated log .clean appends) :
    ∃ append ∈ appends, change = log.change append.record :=
  (mem_stated h).resolve_right nofun

/-! ## What an append makes of a log -/

variable (log)

/-- What is behind the last line feed after appends. -/
def Tail.after : Tail ρ → List (Appended ρ) → Tail ρ
  | tail, [] => tail
  | tail, append :: rest =>
    if log.Whole append then Tail.after .clean rest else Tail.after (tail.cut log append) rest

/-- The changes of the complete lines that appends leave. -/
def committed : Tail ρ → List (Appended ρ) → List (Update κ ν)
  | _, [] => []
  | tail, append :: rest =>
    if log.Whole append then tail.completed log append.record ++ committed .clean rest
    else committed (tail.cut log append) rest

/-- Later appends go on from what is behind the last line feed. -/
theorem stated_append (tail : Tail ρ) (front back : List (Appended ρ)) :
    log.stated tail (front ++ back) =
      log.committed tail front ++ log.stated (tail.after log front) back := by
  induction front generalizing tail with
  | nil => rfl
  | cons append front ih =>
    rw [List.cons_append, stated, committed, Tail.after]
    by_cases hwhole : log.Whole append
    · rw [if_pos hwhole, if_pos hwhole, if_pos hwhole, ih, List.append_assoc]
    · rw [if_neg hwhole, if_neg hwhole, if_neg hwhole, ih]

/-- An append cut short leaves something behind the last line feed. -/
theorem Tail.cut_ne_clean (tail : Tail ρ) (append : Appended ρ) :
    tail.cut log append ≠ .clean := by
  unfold Tail.cut
  cases tail with
  | clean =>
    dsimp only
    by_cases hcut : append.accepted = (log.document append.record).length
    · rw [if_pos hcut]
      exact nofun
    · rw [if_neg hcut]
      exact nofun
  | whole record => exact nofun
  | torn => exact nofun

/-- The complete lines that appends leave, and the pieces behind them. -/
theorem exists_complete {tail : Tail ρ} {pieces : List Text} (h : tail.Spelled log pieces)
    {appends : List (Appended ρ)} (hpositive : ∀ append ∈ appends, 0 < append.accepted) :
    ∃ complete behind, (tail.after log appends).Spelled log behind ∧ Terminated complete ∧
      bytesOf pieces.flatten ++ log.content appends = complete ++ bytesOf behind.flatten ∧
      log.read.changes (decodedLines complete) = log.committed tail appends := by
  induction appends generalizing tail pieces with
  | nil => exact ⟨[], pieces, h, Or.inl rfl, List.append_nil _, rfl⟩
  | cons append rest ih =>
    have hrest : ∀ other ∈ rest, 0 < other.accepted :=
      fun other hmem => hpositive other (List.mem_cons_of_mem _ hmem)
    have hcontent : log.content (append :: rest) = log.bytes append ++ log.content rest := rfl
    rw [Tail.after, committed, hcontent, ← List.append_assoc]
    by_cases hwhole : log.Whole append
    · obtain ⟨complete, behind, hbehind, hterminated, hbytes, hchanges⟩ := ih .clean hrest
      obtain ⟨hline, htext⟩ := h.completed_bytes hwhole
      rw [if_pos hwhole, if_pos hwhole]
      refine ⟨bytesOf (pieces.flatten ++ log.document append.record ++ [0x0A]) ++ complete, behind,
        hbehind, ?_, ?_, ?_⟩
      · have hfirst : Terminated (bytesOf (pieces.flatten ++ log.document append.record ++ [0x0A])) :=
          Or.inr ⟨bytesOf (pieces.flatten ++ log.document append.record), by simp [bytesOf]⟩
        exact hfirst.append hterminated
      · have hlater : log.content rest = complete ++ bytesOf behind.flatten := hbytes
        rw [htext, hlater]
        exact (List.append_assoc _ _ _).symm
      · rw [decodedLines_line hline, (h.completed append.record _).1, hchanges]
    · rw [if_neg hwhole, if_neg hwhole, cut_bytes pieces hwhole]
      exact ih (h.cut (hpositive append List.mem_cons_self) hwhole) hrest

/-- A log ends with a line feed, or is empty, exactly when nothing is behind its last line
feed. -/
theorem terminated_content_iff {appends : List (Appended ρ)}
    (hpositive : ∀ append ∈ appends, 0 < append.accepted) :
    Terminated (log.content appends) ↔ Tail.after log .clean appends = .clean := by
  obtain ⟨complete, behind, hbehind, hterminated, hbytes, -⟩ :=
    log.exists_complete .clean hpositive
  have hcontent : log.content appends = complete ++ bytesOf behind.flatten := hbytes
  constructor
  · intro hwhole
    have htail := splitTail_unterminated (printable_flatten hbehind.piece).ne_lineFeed
    have hsplit := splitTail_terminated hwhole []
    have hsplit' := splitTail_terminated hterminated (bytesOf behind.flatten)
    rw [List.append_nil, hcontent, hsplit', htail] at hsplit
    have hnil : bytesOf behind.flatten = [] := (Prod.ext_iff.mp hsplit).2
    have hflat : behind.flatten = [] := List.map_eq_nil_iff.mp hnil
    cases htag : Tail.after log .clean appends with
    | clean => rfl
    | whole record =>
      rw [htag] at hbehind
      cases hbehind with
      | whole record => exact absurd hflat (by simpa using (log.written record).ne_nil)
    | torn =>
      rw [htag] at hbehind
      cases hbehind with
      | torn hcut hne hmore => exact absurd hflat (by simpa using hne)
      | glued hfirst hpieces =>
        obtain ⟨rest, rfl⟩ := hfirst.head
        cases hflat
  · intro htag
    rw [htag] at hbehind
    cases hbehind
    rw [hcontent]
    simpa [bytesOf] using hterminated

/-- The complete lines of a log make the changes its appends committed. -/
theorem changes_splitTail {appends : List (Appended ρ)}
    (hpositive : ∀ append ∈ appends, 0 < append.accepted) :
    log.read.changes (decodedLines (splitTail (log.content appends)).1) =
      log.committed .clean appends := by
  obtain ⟨complete, behind, hbehind, hterminated, hbytes, hchanges⟩ :=
    log.exists_complete .clean hpositive
  have hcontent : log.content appends = complete ++ bytesOf behind.flatten := hbytes
  have htail := splitTail_unterminated (printable_flatten hbehind.piece).ne_lineFeed
  rw [hcontent, splitTail_terminated hterminated, htail, List.append_nil]
  exact hchanges

section Durable

variable [DecidableEq κ] {log} {key : κ}

/-- An append of a record that changes another key. -/
def Elsewhere (log : RecordLog ρ ε κ ν) (key : κ) (append : Appended ρ) : Prop :=
  (log.change append.record).key ≠ key

/-- A change of another key leaves the last change of a key to the rest. -/
theorem lastChange_cons_ne {change : Update κ ν} (h : change.key ≠ key)
    (changes : List (Update κ ν)) : lastChange key (change :: changes) = lastChange key changes := by
  rw [lastChange, if_neg h]
  cases lastChange key changes <;> rfl

/-- Appends elsewhere to a log with nothing, or pieces that are no document, behind its last line
feed do not change a key. -/
theorem lastChange_stated {tail : Tail ρ}
    (htail : ∀ record, tail = .whole record → (log.change record).key ≠ key)
    {later : List (Appended ρ)} (h : ∀ append ∈ later, log.Elsewhere key append) :
    lastChange key (log.stated tail later) = none := by
  induction later generalizing tail with
  | nil =>
    cases tail with
    | clean => rfl
    | torn => rfl
    | whole record => exact lastChange_cons_ne (htail record rfl) []
  | cons append rest ih =>
    have happend := h append List.mem_cons_self
    have hrest : ∀ other ∈ rest, log.Elsewhere key other :=
      fun other hmem => h other (List.mem_cons_of_mem _ hmem)
    rw [stated]
    by_cases hwhole : log.Whole append
    · rw [if_pos hwhole]
      cases tail with
      | clean => exact (lastChange_cons_ne happend _).trans (ih nofun hrest)
      | whole record => exact ih nofun hrest
      | torn => exact ih nofun hrest
    · rw [if_neg hwhole]
      refine ih ?_ hrest
      intro record heq
      unfold Tail.cut at heq
      cases tail with
      | clean =>
        dsimp only at heq
        by_cases hcut : append.accepted = (log.document append.record).length
        · rw [if_pos hcut] at heq
          cases heq
          exact happend
        · rw [if_neg hcut] at heq
          cases heq
      | whole record => cases heq
      | torn => cases heq

/-- A change of a key that no later one changes is the last. -/
theorem lastChange_cons_eq {changes : List (Update κ ν)} (h : lastChange key changes = none)
    (value : Option ν) : lastChange key ({ key := key, value := value } :: changes) = some value := by
  rw [lastChange, h]
  exact if_pos rfl

/-- What is behind the last line feed is lost to an append there. -/
theorem lastChange_stated_cons {tail : Tail ρ} (htail : tail ≠ .clean) {append : Appended ρ}
    {later : List (Appended ρ)} (h : ∀ next ∈ later, log.Elsewhere key next) :
    lastChange key (log.stated tail (append :: later)) = none := by
  have hcompleted : tail.completed log append.record = [] := by
    cases tail with
    | clean => exact absurd rfl htail
    | whole record => rfl
    | torn => rfl
  have hcut : tail.cut log append = .torn := by
    cases tail with
    | clean => exact absurd rfl htail
    | whole record => rfl
    | torn => rfl
  rw [stated, hcompleted, hcut]
  by_cases hwhole : log.Whole append
  · rw [if_pos hwhole]
    exact lastChange_stated nofun h
  · rw [if_neg hwhole]
    exact lastChange_stated nofun h

/-- What an append and appends elsewhere make of a key: the append's value, or nothing. -/
theorem lastChange_append {value : ν} {append : Appended ρ}
    (hchange : log.change append.record = { key := key, value := some value }) (tail : Tail ρ)
    {later : List (Appended ρ)} (h : ∀ next ∈ later, log.Elsewhere key next) :
    lastChange key (log.stated tail (append :: later)) = none ∨
      lastChange key (log.stated tail (append :: later)) = some (some value) := by
  by_cases htail : tail = .clean
  · subst htail
    rw [stated]
    by_cases hwhole : log.Whole append
    · rw [if_pos hwhole, Tail.completed, hchange]
      exact Or.inr (lastChange_cons_eq (lastChange_stated nofun h) _)
    · rw [if_neg hwhole]
      cases later with
      | cons next later =>
        exact Or.inl (lastChange_stated_cons (Tail.cut_ne_clean log _ _)
          fun other hmem => h other (List.mem_cons_of_mem _ hmem))
      | nil =>
        rw [stated]
        cases hcut : Tail.cut log Tail.clean append with
        | clean => exact Or.inl rfl
        | torn => exact Or.inl rfl
        | whole record =>
          have hrecord : record = append.record := by
            unfold Tail.cut at hcut
            dsimp only at hcut
            by_cases hlength : append.accepted = (log.document append.record).length
            · rw [if_pos hlength] at hcut
              cases hcut
              rfl
            · rw [if_neg hlength] at hcut
              cases hcut
          rw [Tail.unterminated, hrecord, hchange]
          exact Or.inr (lastChange_cons_eq rfl _)
  · exact Or.inl (lastChange_stated_cons htail h)

/-- An append stays visible whatever is appended elsewhere, exactly when it began at the front of
a line and its whole line was accepted, or the complete lines before it had the same value. -/
theorem durable_iff {value : ν} (before : List (Appended ρ)) (append : Appended ρ)
    {other : Appended ρ} (hchange : log.change append.record = { key := key, value := some value })
    (hother : log.Elsewhere key other) (hpositive : 0 < other.accepted) :
    (∀ later, (∀ next ∈ later, 0 < next.accepted ∧ log.Elsewhere key next) →
      ((Dict.empty : Dict κ ν).updateAll
        (log.stated .clean (before ++ append :: later))).get key = some value) ↔
      (Tail.after log .clean before = .clean ∧ log.Whole append) ∨
        ((Dict.empty : Dict κ ν).updateAll (log.committed .clean before)).get key = some value := by
  simp only [stated_append, Dict.updateAll_append]
  generalize (Dict.empty : Dict κ ν).updateAll (log.committed .clean before) = dict
  generalize Tail.after log .clean before = tail
  constructor
  · intro h
    by_cases hdurable : tail = .clean ∧ log.Whole append
    · exact Or.inl hdurable
    · have hlost : lastChange key (log.stated tail [append, other]) = none := by
        have helsewhere : ∀ next ∈ [other], log.Elsewhere key next :=
          fun next hmem => (List.mem_singleton.mp hmem) ▸ hother
        by_cases htail : tail = .clean
        · have hshort : ¬ log.Whole append := fun hwhole => hdurable ⟨htail, hwhole⟩
          rw [stated, if_neg hshort]
          exact lastChange_stated_cons (Tail.cut_ne_clean log _ _) fun _ h =>
            absurd h List.not_mem_nil
        · exact lastChange_stated_cons htail helsewhere
      have hget := h [other] fun next hmem => (List.mem_singleton.mp hmem) ▸ ⟨hpositive, hother⟩
      rw [Dict.get_updateAll, hlost] at hget
      exact Or.inr hget
  · rintro (⟨rfl, hwhole⟩ | hsame) later hlater
    · have hlast : lastChange key (log.stated .clean later) = none := by
        refine lastChange_stated (fun record htail => ?_) fun next hmem => (hlater next hmem).2
        cases htail
      rw [Dict.get_updateAll, stated, if_pos hwhole, Tail.completed, hchange,
        List.singleton_append, lastChange_cons_eq hlast]
      rfl
    · rw [Dict.get_updateAll]
      obtain hnone | hvalue := lastChange_append hchange tail fun next hmem => (hlater next hmem).2
      · rw [hnone]
        exact hsame
      · rw [hvalue]
        rfl

end Durable

end RecordLog

end Library
