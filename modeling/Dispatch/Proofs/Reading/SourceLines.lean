import Dispatch.Line
import Dispatch.Proofs.Reading.TextCuts

/-!
The lines of a file. A physical line stands between newlines, or an end of the file; its code is
what stands before its comment, without outer blanks, and only lines with code are read.
-/

namespace Dispatch

namespace Text

-----------------------------------------------------------------------------------------
-- Physical lines
-----------------------------------------------------------------------------------------

/-- The physical lines of a text, without the newlines that end them. -/
def physicalLines (source : List Char) : List (List Char) := split (· = '\n') source

/-- The text of a physical line stands behind as many newlines as there are lines before it. -/
structure LineStands (source : List Char) (number : Nat) (raw front rest : List Char) : Prop where
  whole : source = front ++ raw ++ rest
  count : front.count '\n' = number
  start : front = [] ∨ ∃ before, front = before ++ ['\n']
  flat : '\n' ∉ raw
  stop : rest = [] ∨ ∃ after, rest = '\n' :: after

namespace LineStands

variable {source raw front rest : List Char} {number : Nat}

/-- A newline in front of a text moves its lines one further. -/
theorem newline (stands : LineStands source number raw front rest)
    : LineStands ('\n' :: source) (number + 1) raw ('\n' :: front) rest where
  whole := by rw [stands.whole]; simp
  count := by rw [List.count_cons_self, stands.count]
  start := by
    rcases stands.start with rfl | ⟨before, rfl⟩
    · exact .inr ⟨[], rfl⟩
    · exact .inr ⟨'\n' :: before, rfl⟩
  flat := stands.flat
  stop := stands.stop

/-- A character in front of a text goes to its first line. -/
theorem later {c : Char} (differs : c ≠ '\n')
    (stands : LineStands source (number + 1) raw front rest)
    : LineStands (c :: source) (number + 1) raw (c :: front) rest where
  whole := by rw [stands.whole]; simp
  count := by rw [List.count_cons_of_ne differs, stands.count]
  start := by
    rcases stands.start with rfl | ⟨before, rfl⟩
    · have count := stands.count
      simp at count
    · exact .inr ⟨c :: before, rfl⟩
  flat := stands.flat
  stop := stands.stop

/-- A character in front of the first line of a text belongs to that line. -/
theorem first {c : Char} (differs : c ≠ '\n') (stands : LineStands source 0 raw front rest)
    : LineStands (c :: source) 0 (c :: raw) [] rest where
  whole := by
    rcases stands.start with rfl | ⟨before, rfl⟩
    · rw [stands.whole]
      simp
    · have count := stands.count
      simp at count
  count := rfl
  start := .inl rfl
  flat := by
    rw [List.mem_cons, not_or]
    exact ⟨Ne.symm differs, stands.flat⟩
  stop := stands.stop

end LineStands

theorem split_ne_nil (test : Char → Bool) (text : List Char) : split test text ≠ [] := by
  cases text with
  | nil => simp [split]
  | cons c rest =>
      rw [split]
      split
      · simp
      · exact growFirst_ne_nil c _

/-- Every physical line stands in the text, by induction on the text. The first character is a
newline, or goes to the first line and moves all others.
-/
theorem exists_lineStands {source raw : List Char} {number : Nat}
    (found : (physicalLines source)[number]? = some raw)
    : ∃ front rest, LineStands source number raw front rest := by
  induction source generalizing number raw with
  | nil =>
      cases number with
      | zero =>
          obtain rfl := Option.some.inj found
          exact ⟨[], [], rfl, rfl, .inl rfl, by simp, .inl rfl⟩
      | succ number => cases found
  | cons c source ih =>
      rw [physicalLines, split] at found
      split at found
      · rename_i newline
        obtain rfl := of_decide_eq_true newline
        cases number with
        | zero =>
            obtain rfl := Option.some.inj found
            exact ⟨[], '\n' :: source, rfl, rfl, .inl rfl, by simp, .inr ⟨source, rfl⟩⟩
        | succ number =>
            obtain ⟨front, rest, stands⟩ := ih found
            exact ⟨_, _, stands.newline⟩
      · rename_i other
        have differs : c ≠ '\n' := by simpa using other
        cases parts : split (· = '\n') source with
        | nil => exact absurd parts (split_ne_nil _ _)
        | cons part others =>
            rw [parts] at found
            rw [physicalLines, parts] at ih
            cases number with
            | zero =>
                obtain rfl := Option.some.inj found
                obtain ⟨front, rest, stands⟩ := @ih part 0 rfl
                exact ⟨_, _, stands.first differs⟩
            | succ number =>
                obtain ⟨front, rest, stands⟩ := @ih raw (number + 1) found
                exact ⟨_, _, stands.later differs⟩

-----------------------------------------------------------------------------------------
-- Lines with their ends
-----------------------------------------------------------------------------------------

theorem linesWithEnds_concat_ne_nil (text : List Char) (c : Char)
    : linesWithEnds (text ++ [c]) ≠ [] := by
  cases text with
  | nil => simp only [List.nil_append, linesWithEnds]; split <;> simp [growFirst]
  | cons d rest =>
      rw [List.cons_append, linesWithEnds]
      split
      · simp
      · exact growFirst_ne_nil d _

theorem length_growFirst {c : Char} {parts : List (List Char)} (nonempty : parts ≠ [])
    : (growFirst c parts).length = parts.length := by
  cases parts with
  | nil => cases nonempty rfl
  | cons part rest => rfl

theorem growFirst_append {c : Char} {parts : List (List Char)} (nonempty : parts ≠ [])
    (more : List (List Char))
    : growFirst c (parts ++ more) = growFirst c parts ++ more := by
  cases parts with
  | nil => cases nonempty rfl
  | cons part rest => rfl

theorem flatten_growFirst (c : Char) (parts : List (List Char))
    : (growFirst c parts).flatten = c :: parts.flatten := by
  cases parts <;> rfl

/-- The lines with their ends are the whole text, by induction on it. -/
theorem flatten_linesWithEnds (text : List Char) : (linesWithEnds text).flatten = text := by
  induction text with
  | nil => rfl
  | cons c rest ih =>
      rw [linesWithEnds]
      split
      · rw [List.flatten_cons, ih]
        rfl
      · rw [flatten_growFirst, ih]

/-- Lines before a newline and lines after it are apart, by induction on the text before. The
newline ends the last of the first ones.
-/
theorem linesWithEnds_append (before after : List Char)
    : linesWithEnds (before ++ '\n' :: after)
      = linesWithEnds (before ++ ['\n']) ++ linesWithEnds after := by
  induction before with
  | nil => simp [linesWithEnds]
  | cons c rest ih =>
      rw [List.cons_append, List.cons_append, linesWithEnds, linesWithEnds, ih]
      split
      · rfl
      · exact growFirst_append (linesWithEnds_concat_ne_nil rest '\n') _

/-- A text that a newline ends has one line for each of its newlines. -/
theorem length_linesWithEnds (before : List Char)
    : (linesWithEnds (before ++ ['\n'])).length = before.count '\n' + 1 := by
  induction before with
  | nil => rfl
  | cons c rest ih =>
      rw [List.cons_append, linesWithEnds]
      split
      · rename_i newline
        rw [newline, List.count_cons_self, List.length_cons, ih]
      · rename_i differs
        rw [List.count_cons_of_ne differs, ← ih]
        exact length_growFirst (linesWithEnds_concat_ne_nil rest '\n')

/-- A text without newlines is one line, by induction on it. -/
theorem linesWithEnds_of_flat {text : List Char} (flat : '\n' ∉ text) (nonempty : text ≠ [])
    : linesWithEnds text = [text] := by
  induction text with
  | nil => cases nonempty rfl
  | cons c rest ih =>
      rw [List.mem_cons, not_or] at flat
      obtain ⟨differs, flat⟩ := flat
      rw [linesWithEnds, if_neg (Ne.symm differs)]
      cases rest with
      | nil => rfl
      | cons d rest => rw [ih flat (by simp)]; rfl

/-- A line that stands in a text is there with its end, behind those before it. So the bytes before
a line are those of the lines before it, each with its newline.
-/
theorem LineStands.linesWithEnds {source raw front rest : List Char} {number : Nat}
    (stands : LineStands source number raw front rest) (nonempty : raw ≠ [])
    : (Text.linesWithEnds source)[number]? = some (raw ++ rest.take 1)
      ∧ ((Text.linesWithEnds source).take number).flatten = front := by
  have own : ∃ others, Text.linesWithEnds (raw ++ rest) = (raw ++ rest.take 1) :: others := by
    rcases stands.stop with rfl | ⟨after, rfl⟩
    · exact ⟨[], by simpa using linesWithEnds_of_flat stands.flat nonempty⟩
    · have single : Text.linesWithEnds (raw ++ ['\n']) = [raw ++ ['\n']] := by
        have counted := length_linesWithEnds raw
        rw [List.count_eq_zero_of_not_mem stands.flat, List.length_eq_one_iff] at counted
        obtain ⟨line, only⟩ := counted
        have whole := flatten_linesWithEnds (raw ++ ['\n'])
        rw [only] at whole ⊢
        simpa using whole
      exact ⟨Text.linesWithEnds after, by rw [linesWithEnds_append, single]; rfl⟩
  obtain ⟨others, same⟩ := own
  rcases stands.start with rfl | ⟨before, rfl⟩
  · have zero := stands.count
    obtain rfl : 0 = number := zero
    rw [stands.whole, List.nil_append, same]
    exact ⟨rfl, rfl⟩
  · have counted := stands.count
    rw [List.count_append, List.count_singleton_self, ← length_linesWithEnds] at counted
    have whole : source = before ++ '\n' :: (raw ++ rest) := by rw [stands.whole]; simp
    rw [whole, linesWithEnds_append, same, ← counted]
    exact ⟨by simp, by rw [List.take_left, flatten_linesWithEnds]⟩

-----------------------------------------------------------------------------------------
-- The code of a line
-----------------------------------------------------------------------------------------

/-- The code of a physical line: what stands before its comment, without outer blanks. -/
def codeOf (raw : List Char) : List Char := trim (raw.takeWhile (· ≠ '#'))

/-- A text without a newline and the mark of a comment. -/
structure Plain (text : List Char) : Prop where
  comment : '#' ∉ text
  newline : '\n' ∉ text

theorem Plain.of_subset {text part : List Char} (plain : Plain text) (among : part ⊆ text)
    : Plain part :=
  ⟨fun member => plain.comment (among member), fun member => plain.newline (among member)⟩

/-- The number of blanks at the start of a physical line. -/
def indent (raw : List Char) : Nat := (raw.takeWhile isBlank).length

theorem not_isBlank_hash : isBlank '#' = false := by decide

/-- The blanks before the code of a line are those at its start, as a comment starts with none. -/
theorem takeWhile_isBlank_code (raw : List Char)
    : (raw.takeWhile (· ≠ '#')).takeWhile isBlank = raw.takeWhile isBlank := by
  rw [List.takeWhile_takeWhile]
  congr 1
  funext c
  by_cases same : c = '#'
  · simp [same, not_isBlank_hash]
  · simp [same]

/-- The code of a line stands behind the blanks at its start, and before the blanks and the comment
at its end.
-/
theorem exists_rest_code (raw : List Char)
    : ∃ rest, raw = raw.takeWhile isBlank ++ codeOf raw ++ rest := by
  obtain ⟨blanks, same, _⟩ := exists_blank_trim (raw.takeWhile (· ≠ '#'))
  refine ⟨blanks ++ raw.dropWhile (· ≠ '#'), ?_⟩
  conv_lhs => rw [← List.takeWhile_append_dropWhile (p := (· ≠ '#')) (l := raw), same]
  rw [takeWhile_isBlank_code, codeOf]
  simp only [List.append_assoc]

end Text

namespace Line

/-- The lines that are read are those with code, and stand where their code does. Numbers and
columns count from 1.
-/
theorem mem_ofSource {source : List Char} {line : Line}
    : line ∈ ofSource source
      ↔ ∃ number raw, (Text.physicalLines source)[number]? = some raw ∧ Text.codeOf raw ≠ []
          ∧ line = ⟨Text.codeOf raw, number + 1, Text.indent raw + 1⟩ := by
  have read (raw : List Char) (number : Nat)
      : ofRaw? raw number
        = if Text.codeOf raw = [] then none
          else some ⟨Text.codeOf raw, number, Text.indent raw + 1⟩ := by
    have same : piece ⟨[], number, 1⟩ 0 (raw.takeWhile (· ≠ '#'))
        = ⟨Text.codeOf raw, number, Text.indent raw + 1⟩ := by
      simp only [piece, Text.codeOf, Text.indent, Text.takeWhile_isBlank_code, Nat.add_comm 1]
    rw [ofRaw?, same]
  rw [ofSource, List.mem_filterMap]
  constructor
  · rintro ⟨⟨raw, number⟩, member, found⟩
    obtain ⟨low, listed⟩ := List.mk_mem_zipIdx_iff_le_and_getElem?_sub.mp member
    change ofRaw? raw number = some line at found
    rw [read] at found
    split at found
    · cases found
    · rename_i nonempty
      obtain rfl := Option.some.inj found
      exact ⟨number - 1, raw, listed, nonempty, by congr 1; omega⟩
  · rintro ⟨number, raw, listed, nonempty, rfl⟩
    refine ⟨(raw, number + 1), List.mk_mem_zipIdx_iff_le_and_getElem?_sub.mpr ?_, ?_⟩
    · exact ⟨by omega, by rwa [Nat.add_sub_cancel]⟩
    · exact (read raw (number + 1)).trans (if_neg nonempty)

theorem plain_of_mem_ofSource {source : List Char} {line : Line} (read : line ∈ ofSource source)
    : Text.Plain line.text := by
  obtain ⟨number, raw, listed, _, rfl⟩ := mem_ofSource.mp read
  obtain ⟨_, _, stands⟩ := Text.exists_lineStands listed
  refine ⟨fun comment => ?_, fun newline => ?_⟩
  · simpa using List.mem_takeWhile_imp (Text.trim_subset _ comment)
  · exact stands.flat (List.takeWhile_subset _ (Text.trim_subset _ newline))

/-- Where no line is read, no physical line has code: every line with code is read. -/
theorem codeOf_eq_nil_of_ofSource {source raw : List Char} (none : ofSource source = [])
    (member : raw ∈ Text.physicalLines source)
    : Text.codeOf raw = [] := by
  by_contra nonempty
  obtain ⟨number, listed⟩ := List.mem_iff_getElem?.mp member
  have read := mem_ofSource.mpr ⟨number, raw, listed, nonempty, rfl⟩
  rw [none] at read
  cases read

/-- The lines that are read from lines of code without comments are these, without outer blanks. By
induction on the lines, each of which is one physical line.
-/
theorem texts_ofSource {lines : List (List Char)}
    (plain : ∀ line ∈ lines, Text.Plain line ∧ Text.trim line ≠ [])
    : (ofSource (lines.flatMap (· ++ ['\n']))).map (·.text) = lines.map Text.trim := by
  have whole : Text.split (· = '\n') (lines.flatMap (· ++ ['\n'])) = lines ++ [[]] := by
    induction lines with
    | nil => rfl
    | cons line rest ih =>
        obtain ⟨⟨first, _⟩, others⟩ := List.forall_mem_cons.mp plain
        have apart : ∀ c ∈ line, decide (c = '\n') = false := fun c member =>
          decide_eq_false (ne_of_mem_of_not_mem member first.newline)
        rw [List.flatMap_cons, List.append_assoc, List.singleton_append,
          Text.split_append apart (decide_eq_true rfl), ih others, List.cons_append]
  -- The lines count from any number on.
  rw [ofSource, whole]
  clear whole
  generalize 1 = number
  induction lines generalizing number with
  | nil => rfl
  | cons line rest ih =>
      obtain ⟨⟨first, nonempty⟩, others⟩ := List.forall_mem_cons.mp plain
      have code : line.takeWhile (· ≠ '#') = line :=
        List.takeWhile_eq_self_iff.mpr fun c member =>
          decide_eq_true (ne_of_mem_of_not_mem member first.comment)
      have read : ofRaw? line number = some (piece ⟨[], number, 1⟩ 0 line) := by
        rw [ofRaw?, code]
        exact if_neg nonempty
      rw [List.cons_append, List.zipIdx_cons, List.filterMap_cons]
      simp only [read]
      rw [List.map_cons, ih others (number + 1)]
      rfl

end Line

end Dispatch
