import GantrySftp.Library.Utf8

/-!
# Lines of a text

A text is split at every line boundary a text has, of which the line feed is one; a carriage
return and the line feed after it are a single boundary. Splitting is undone by nothing, but it
distributes over a cut made right after a line feed, and so does decoding and then splitting.
-/

namespace Library

/-- The code points that end a line: line feed, vertical tab, form feed, carriage return, the
file, group and record separators, next line, and the line and paragraph separators. -/
def isLineBreak (point : ℕ) : Bool :=
  (0x0A ≤ point && point ≤ 0x0D) || (0x1C ≤ point && point ≤ 0x1E) || point == 0x85 ||
    point == 0x2028 || point == 0x2029

/-- Split a text whose first line began with `current`. After a carriage return a line feed
belongs to the boundary already made. -/
def splitLinesFrom (afterReturn : Bool) (current : Text) : Text → List Text
  | [] => if current.isEmpty then [] else [current]
  | point :: rest =>
    if afterReturn && point == 0x0A then splitLinesFrom false current rest
    else if isLineBreak point then current :: splitLinesFrom (point == 0x0D) [] rest
    else splitLinesFrom false (current ++ [point]) rest

/-- The lines of a text, without their boundaries. -/
def splitLines (text : Text) : List Text := splitLinesFrom false [] text

/-- What follows a line feed is split as if it stood alone. A line feed that completes a
boundary must not find a line begun. -/
private theorem splitLinesFrom_lineFeed (back : Text) (front : Text) :
    ∀ afterReturn current, (afterReturn = true → current = []) →
      splitLinesFrom afterReturn current (front ++ 0x0A :: back) =
        splitLinesFrom afterReturn current (front ++ [0x0A]) ++ splitLines back := by
  induction front with
  | nil =>
    intro afterReturn current hcurrent
    cases afterReturn with
    | false => rfl
    | true =>
      rw [hcurrent rfl]
      rfl
  | cons point front ih =>
    intro afterReturn current hcurrent
    simp only [List.cons_append, splitLinesFrom]
    split_ifs with hpair hbreak
    · exact ih false current nofun
    · rw [ih _ [] fun _ => rfl, List.cons_append]
    · exact ih false _ nofun

/-- A text may be split after any line feed. -/
theorem splitLines_lineFeed (front back : Text) :
    splitLines (front ++ 0x0A :: back) = splitLines (front ++ [0x0A]) ++ splitLines back :=
  splitLinesFrom_lineFeed back front false [] nofun

/-- A text without line boundaries is a single line. -/
private theorem splitLinesFrom_line {text : Text} (htext : ∀ point ∈ text, isLineBreak point = false) :
    ∀ current, splitLinesFrom false current (text ++ [0x0A]) = [current ++ text] := by
  induction text with
  | nil =>
    intro current
    simp [splitLinesFrom, isLineBreak]
  | cons point text ih =>
    intro current
    have hpoint := htext point List.mem_cons_self
    have hrest := ih fun other hmem => htext other (List.mem_cons_of_mem _ hmem)
    simp [splitLinesFrom, hpoint, hrest]

/-- A terminated line without boundaries inside is a single line. -/
theorem splitLines_line {text : Text} (htext : ∀ point ∈ text, isLineBreak point = false) :
    splitLines (text ++ [0x0A]) = [text] :=
  splitLinesFrom_line htext []

/-- A text without line boundaries goes on with the line already begun. -/
private theorem splitLinesFrom_unterminated {text : Text}
    (htext : ∀ point ∈ text, isLineBreak point = false) :
    ∀ current, current ++ text ≠ [] → splitLinesFrom false current text = [current ++ text] := by
  induction text with
  | nil =>
    intro current hne
    rw [List.append_nil] at hne ⊢
    simp [splitLinesFrom, hne]
  | cons point text ih =>
    intro current hne
    have hpoint := htext point List.mem_cons_self
    have hrest := ih (fun other hmem => htext other (List.mem_cons_of_mem _ hmem))
      (current ++ [point]) (by simp)
    simp [splitLinesFrom, hpoint, hrest]

/-- A text without boundaries is a single line, if it is not empty. -/
theorem splitLines_unterminated {text : Text} (htext : ∀ point ∈ text, isLineBreak point = false)
    (hne : text ≠ []) : splitLines text = [text] :=
  splitLinesFrom_unterminated htext [] hne

/-- The lines of a text are made of what was begun and of the text. -/
private theorem mem_splitLinesFrom {text line : Text} {point : ℕ} (hpoint : point ∈ line) :
    ∀ afterReturn current, line ∈ splitLinesFrom afterReturn current text →
      point ∈ current ∨ point ∈ text := by
  induction text with
  | nil =>
    intro afterReturn current hmem
    unfold splitLinesFrom at hmem
    split_ifs at hmem
    · cases hmem
    · obtain rfl := List.mem_singleton.mp hmem
      exact Or.inl hpoint
  | cons first text ih =>
    intro afterReturn current hmem
    unfold splitLinesFrom at hmem
    split_ifs at hmem with hpair hbreak
    · exact (ih _ _ hmem).imp_right (List.mem_cons_of_mem _)
    · obtain rfl | hmem := List.mem_cons.mp hmem
      · exact Or.inl hpoint
      · exact Or.inr (List.mem_cons_of_mem _ ((ih _ _ hmem).resolve_left List.not_mem_nil))
    · obtain hcurrent | htext := ih _ _ hmem
      · obtain hcurrent | hfirst := List.mem_append.mp hcurrent
        · exact Or.inl hcurrent
        · exact Or.inr (List.mem_singleton.mp hfirst ▸ List.mem_cons_self)
      · exact Or.inr (List.mem_cons_of_mem _ htext)

/-- The lines of a byte string, undecodable sequences replaced. -/
def decodedLines (bytes : Bytes) : List Text := splitLines (decodeUtf8 replaceError bytes)

/-- The lines of a byte string are texts of scalar values. -/
theorem scalarText_of_mem_decodedLines {bytes : Bytes} {line : Text}
    (h : line ∈ decodedLines bytes) : ScalarText line := by
  intro point hpoint
  have hreplaced : ∀ undecodable, ScalarText (replaceError undecodable) := by
    intro undecodable other hmem
    obtain rfl := List.mem_singleton.mp hmem
    decide
  have hmem := (mem_splitLinesFrom hpoint _ _ h).resolve_left List.not_mem_nil
  exact scalarText_decodeUtf8 hreplaced bytes point hmem

/-- Nothing has no lines. -/
@[simp] theorem decodedLines_nil : decodedLines [] = [] := rfl

/-- A byte string that is empty or ends with a line feed. -/
def Terminated (bytes : Bytes) : Prop := bytes = [] ∨ ∃ front, bytes = front ++ [0x0A]

/-- The complete lines at the front of a byte string, and the unterminated tail after its last
line feed. -/
def splitTail : Bytes → Bytes × Bytes
  | [] => ([], [])
  | byte :: rest =>
    let split := splitTail rest
    if split.1.isEmpty ∧ byte ≠ 0x0A then ([], byte :: split.2) else (byte :: split.1, split.2)

/-- Splitting off the tail loses nothing. -/
theorem splitTail_append (bytes : Bytes) : (splitTail bytes).1 ++ (splitTail bytes).2 = bytes := by
  induction bytes with
  | nil => rfl
  | cons byte rest ih =>
    simp only [splitTail]
    split_ifs with h
    · rw [List.isEmpty_iff.mp h.1, List.nil_append] at ih
      rw [List.nil_append, ih]
    · rw [List.cons_append, ih]

/-- Two terminated byte strings make one. -/
theorem Terminated.append {front back : Bytes} (hfront : Terminated front)
    (hback : Terminated back) : Terminated (front ++ back) := by
  obtain rfl | ⟨lines, rfl⟩ := hback
  · rwa [List.append_nil]
  · exact Or.inr ⟨front ++ lines, (List.append_assoc _ _ _).symm⟩

/-- A byte in front of lines that are not empty leaves them terminated, and a line feed always
does. -/
private theorem Terminated.cons {byte : UInt8} {lines : Bytes} (h : Terminated lines)
    (hne : lines ≠ [] ∨ byte = 0x0A) : Terminated (byte :: lines) := by
  obtain rfl | ⟨front, rfl⟩ := h
  · obtain hne | rfl := hne
    · exact absurd rfl hne
    · exact Or.inr ⟨[], rfl⟩
  · exact Or.inr ⟨byte :: front, rfl⟩

/-- The part split off in front of the tail is made of complete lines. -/
theorem terminated_splitTail (bytes : Bytes) : Terminated (splitTail bytes).1 := by
  induction bytes with
  | nil => exact Or.inl rfl
  | cons byte rest ih =>
    simp only [splitTail]
    split_ifs with h
    · exact Or.inl rfl
    · refine ih.cons ?_
      rw [List.isEmpty_iff, not_and_or, not_not] at h
      exact h

/-- A byte string that begins with a complete line does not lose it to the tail. -/
private theorem splitTail_lineFeed (back : Bytes) :
    splitTail (0x0A :: back) = (0x0A :: (splitTail back).1, (splitTail back).2) := by
  rw [splitTail, if_neg (by simp)]

/-- Complete lines in front do not change where the tail begins. -/
theorem splitTail_terminated {front : Bytes} (hfront : Terminated front) (back : Bytes) :
    splitTail (front ++ back) = (front ++ (splitTail back).1, (splitTail back).2) := by
  obtain rfl | ⟨lines, rfl⟩ := hfront
  · rfl
  · induction lines with
    | nil => exact splitTail_lineFeed back
    | cons byte lines ih =>
      rw [List.cons_append, List.cons_append, splitTail, ih, if_neg (by simp), List.cons_append]

/-- A byte string without line feeds is all tail. -/
theorem splitTail_unterminated {bytes : Bytes} (h : ∀ byte ∈ bytes, byte ≠ 0x0A) :
    splitTail bytes = ([], bytes) := by
  induction bytes with
  | nil => rfl
  | cons byte rest ih =>
    rw [splitTail, ih fun other hmem => h other (List.mem_cons_of_mem _ hmem)]
    exact if_pos ⟨rfl, h byte List.mem_cons_self⟩

/-- Appending only adds complete lines after those already there. -/
theorem splitTail_append_more (bytes more : Bytes) :
    (splitTail (bytes ++ more)).1 =
      (splitTail bytes).1 ++ (splitTail ((splitTail bytes).2 ++ more)).1 := by
  have h := splitTail_terminated (terminated_splitTail bytes) ((splitTail bytes).2 ++ more)
  rw [← List.append_assoc, splitTail_append] at h
  rw [h]

/-- A byte string may be cut into lines after any terminated prefix. -/
theorem decodedLines_append {front : Bytes} (hfront : Terminated front) (back : Bytes) :
    decodedLines (front ++ back) = decodedLines front ++ decodedLines back := by
  obtain rfl | ⟨front, rfl⟩ := hfront
  · rfl
  · obtain ⟨text, htext⟩ := decodeUtf8_line replaceError front
    have hnil : decodeUtf8 replaceError [] = [] := rfl
    rw [List.append_assoc, List.singleton_append]
    simp only [decodedLines, htext, hnil]
    exact splitLines_lineFeed text _

/-- ASCII bytes decode to their values, whatever the handler. -/
theorem decodeUtf8_ascii (onError : Bytes → Text) {bytes : Bytes}
    (hascii : ∀ byte ∈ bytes, byte.toNat < 0x80) :
    decodeUtf8 onError bytes = bytes.map UInt8.toNat := by
  unfold decodeUtf8
  induction bytes with
  | nil => rfl
  | cons byte bytes ih =>
    have hbyte := hascii byte List.mem_cons_self
    have hrest := ih fun other hmem => hascii other (List.mem_cons_of_mem _ hmem)
    have hstep : utf8Step onError .none byte = ([byte.toNat], .none) := by
      have haccepts : Utf8Pending.none.accepts byte = true := by
        have hle : byte.toNat ≤ 0xFF := by omega
        rw [Utf8Pending.accepts, Bool.and_eq_true]
        exact ⟨decide_eq_true (Nat.zero_le _), decide_eq_true hle⟩
      rw [utf8Step, if_pos haccepts, utf8Continue, utf8Start, if_pos hbyte]
    simp [decodeUtf8From, hstep, hrest]

end Library
