import Dispatch.CommandLine.Report
import Dispatch.Proofs.Positions.MarkedDocuments
import Dispatch.Proofs.Reading.SourceLines

/-!
Every error of loading a document points into the right place of its file: at a character of the
code of a line, or at the end of that code. The byte that the command line computes for this place
is where that character begins.
-/

namespace Dispatch

-----------------------------------------------------------------------------------------
-- Bytes
-----------------------------------------------------------------------------------------

/-- The offset is that of a character of the text, or of its end, with the given numbers of newlines
before it and of characters of its line before it.
-/
def BeginsAt (source : List Char) (line column offset : Nat) : Prop :=
  ∃ before after, source = before ++ after ∧ byteLength before = offset
    ∧ before.count '\n' + 1 = line
    ∧ (before.reverse.takeWhile (· ≠ '\n')).length + 1 = column

/-- The offset of a column in a line that stands in a text, up to the end of its code. -/
theorem beginsAt_of_lineStands {source raw front rest : List Char} {number taken : Nat}
    (stands : Text.LineStands source number raw front rest) (code : Text.codeOf raw ≠ [])
    (inside : taken ≤ Text.indent raw + (Text.codeOf raw).length)
    : BeginsAt source (number + 1) (taken + 1) (byteOffset source (number + 1) (taken + 1)) := by
  obtain ⟨trailing, split⟩ := Text.exists_rest_code raw
  have counted := congrArg List.length split
  simp only [List.length_append, ← Text.indent.eq_def] at counted
  have nonempty : raw ≠ [] := by
    rintro rfl
    exact code rfl
  obtain ⟨listed, before⟩ := stands.linesWithEnds nonempty
  have offset : byteOffset source (number + 1) (taken + 1)
      = byteLength (front ++ raw.take taken) := by
    simp only [byteOffset, listed, before, Nat.add_sub_cancel, byteLength_append]
    congr 1
    split
    · rw [List.take_append_of_le_length (by omega)]
    · -- The place is the end of the file, so the code ends there and nothing is trimmed.
      rename_i beyond
      rw [List.length_append] at beyond
      have last : rest.take 1 = [] := List.eq_nil_of_length_eq_zero (by omega)
      have none : trailing = [] := List.eq_nil_of_length_eq_zero (by omega)
      rw [none, List.append_nil] at split
      rw [last, List.append_nil, List.take_of_length_le (by omega)]
      conv_lhs => rw [split]
      conv_rhs => rw [split]
      exact congrArg byteLength (Text.trimEnd_append _ code)
  have flat : '\n' ∉ raw.take taken := fun member => stands.flat (List.mem_of_mem_take member)
  have length : (raw.take taken).length = taken := by
    rw [List.length_take]
    omega
  refine ⟨front ++ raw.take taken, raw.drop taken ++ rest, ?_, offset.symm, ?_, ?_⟩
  · rw [stands.whole, List.append_assoc, List.append_assoc, ← List.append_assoc (raw.take taken),
      List.take_append_drop]
  · rw [List.count_append, List.count_eq_zero_of_not_mem flat, stands.count, Nat.add_zero]
  · rw [List.reverse_append, List.takeWhile_append_of_pos ?_, List.length_append,
      List.length_reverse, length]
    · rcases stands.start with rfl | ⟨lines, rfl⟩
      · rfl
      · simp
    · intro c member
      exact decide_eq_true (ne_of_mem_of_not_mem (List.mem_reverse.mp member) flat)

/-- A file begins at its first byte. -/
theorem beginsAt_start (source : List Char) : BeginsAt source 1 1 (byteOffset source 1 1) := by
  refine ⟨[], source, rfl, ?_, rfl, rfl⟩
  unfold byteOffset
  dsimp only
  split
  · rename_i missing
    cases source with
    | nil => rfl
    | cons c rest =>
        have none := List.getElem?_eq_none_iff.mp missing
        have nonempty : Text.linesWithEnds (c :: rest) ≠ [] := by
          intro empty
          have whole := Text.flatten_linesWithEnds (c :: rest)
          rw [empty] at whole
          cases whole
        exact absurd (List.eq_nil_of_length_eq_zero (Nat.le_zero.mp none)) nonempty
  · rename_i text _
    cases text <;> rfl

-----------------------------------------------------------------------------------------
-- Errors of loading
-----------------------------------------------------------------------------------------

/-- A line and column of a text in which no line has code, or of a character of the code of a line
or of its end.
-/
def InCode (source : List Char) (line column : Nat) : Prop :=
  (∀ raw ∈ Text.physicalLines source, Text.codeOf raw = []) ∧ line = 1 ∧ column = 1
  ∨ ∃ number raw, (Text.physicalLines source)[number]? = some raw ∧ line = number + 1
      ∧ Text.codeOf raw ≠ [] ∧ Text.indent raw < column
      ∧ column ≤ Text.indent raw + (Text.codeOf raw).length + 1

/-- An error of a text points into its code, and the byte offset of that place is where the
character begins at which it points.
-/
theorem LoadError.PointsInto.inCode {source : List Char} {error : LoadError}
    (points : error.PointsInto (Line.ofSource source))
    : InCode source error.error.span.line error.error.span.column
      ∧ BeginsAt source error.error.span.line error.error.span.column
          (byteOffset source error.error.span.line error.error.span.column) := by
  rcases points with ⟨none, line, column⟩ | ⟨line, read, marks⟩
  · rw [line, column]
    exact ⟨.inl ⟨fun raw => Line.codeOf_eq_nil_of_ofSource none, rfl, rfl⟩, beginsAt_start source⟩
  · obtain ⟨number, raw, listed, code, rfl⟩ := Line.mem_ofSource.mp read
    obtain ⟨front, rest, stands⟩ := Text.exists_lineStands listed
    have taken : Text.codeOf raw ⊆ raw :=
      List.Subset.trans (Text.trim_subset _) (List.takeWhile_sublist _).subset
    obtain ⟨same, low, high⟩ := marks fun broken => stands.flat (taken broken)
    dsimp only at same low high
    obtain ⟨skipped, column⟩ := Nat.exists_eq_add_of_lt (show 0 < error.error.span.column by omega)
    rw [Nat.zero_add] at column
    rw [same, column]
    refine ⟨.inr ⟨number, raw, listed, rfl, code, by omega, by omega⟩, ?_⟩
    exact beginsAt_of_lineStands stands code (by omega)

/-- Every text that is refused as a domain or as a problem is refused at line 1 and column 1, where
it has no code, or at a line with code and a column of that code or right behind it. The line that
the error names is that line, and the byte offset of the place is that of the character in the file
with so many lines, and so many characters of its line, before it.
-/
theorem LoadError.located_of_refused {source : List Char} {error : LoadError}
    (refused : Domain.ofText source = .error error ∨ Problem.ofText source = .error error)
    : error.line = error.error.span.line
      ∧ InCode source error.line error.error.span.column
      ∧ BeginsAt source error.line error.error.span.column
          (byteOffset source error.line error.error.span.column) := by
  have points : error.PointsInto (Line.ofSource source) := by
    rcases refused with domain | problem
    · exact Domain.ofText_fails source error domain
    · exact Problem.ofText_fails source error problem
  exact ⟨rfl, points.inCode⟩

/-- A domain with an unknown name behind blanks, and before a comment, of more than one byte. -/
def gatehouseText : List Char :=
  ["Start Domain:", "Entities:", "Tür", "End Entities", "Actions:", "Öffne: t - Tür", "Precs:",
    "\u00a0 (true and größe)  # öffnet", "End Action", "End Actions", "End Domain"]
    |>.flatMap fun line => line.toList ++ ['\n']

/-- The unknown name of the gatehouse is reported in its line at its column, at the byte behind the
two-byte letters before it.
-/
theorem LoadError.located_at_gatehouse
    : ∃ error, Domain.ofText gatehouseText = .error error ∧ error.line = 8
        ∧ error.error.span.column = 13 ∧ InCode gatehouseText 8 13
        ∧ BeginsAt gatehouseText 8 13 (byteOffset gatehouseText 8 13) := by
  have shape
      : (match Domain.ofText gatehouseText with
          | .ok _ => none
          | .error error => some (error.line, error.error.span.column)) = some (8, 13) := by
    decide +kernel
  cases refused : Domain.ofText gatehouseText with
  | ok domain =>
      rw [refused] at shape
      cases shape
  | error error =>
      rw [refused] at shape
      obtain ⟨line, column⟩ := Prod.mk.inj (Option.some.inj shape)
      obtain ⟨_, code, begins⟩ := LoadError.located_of_refused (.inl refused)
      rw [line, column] at code begins
      exact ⟨error, rfl, line, column, code, begins⟩

end Dispatch
