import Dispatch.Proofs.Printing.PrintedTokens
import Dispatch.Proofs.Reading.SourceLines

/-!
Texts that stand between the colons of a line. What is printed for an expression has no comment,
no newline and no colon, and no blank at its ends; so a line that is put together from such texts
is read as a line of its own and cut where they end.
-/

namespace Dispatch

namespace Text

-----------------------------------------------------------------------------------------
-- Segments
-----------------------------------------------------------------------------------------

/-- Whether a line, or its code, or a part of it ends at the character. -/
def isCut (c : Char) : Bool := c = '#' || c = '\n' || c = ':'

/-- A character of a plain text that is no colon cuts nothing off. -/
theorem Plain.isCut_eq_false {text : List Char} (plain : Plain text) {c : Char} (member : c ∈ text)
    (other : c ≠ ':')
    : isCut c = false := by
  simp only [isCut, Bool.or_eq_false_iff, decide_eq_false_iff_not]
  exact ⟨⟨ne_of_mem_of_not_mem member plain.comment, ne_of_mem_of_not_mem member plain.newline⟩,
    other⟩

theorem plain_of_uncut {text : List Char} (uncut : ∀ c ∈ text, isCut c = false) : Plain text where
  comment member := nomatch uncut '#' member
  newline member := nomatch uncut '\n' member

/-- A text that can stand between the colons of a line. -/
structure Segment (text : List Char) : Prop extends Trimmed text where
  nonempty : text ≠ []
  uncut : ∀ c ∈ text, isCut c = false

namespace Segment

variable {text left middle right : List Char}

theorem of_visible (nonempty : text ≠ [])
    (each : ∀ c ∈ text, isBlank c = false ∧ isCut c = false)
    : Segment text :=
  ⟨trimmed_of_visible fun c member => (each c member).1, nonempty,
    fun c member => (each c member).2⟩

theorem no_colon (segment : Segment text) : ':' ∉ text := by
  intro member
  cases segment.uncut ':' member

theorem plain (segment : Segment text) : Plain text := plain_of_uncut segment.uncut

/-- A text that starts and ends with segments is one. -/
theorem around (first : Segment left) (between : ∀ c ∈ middle, isCut c = false)
    (last : Segment right)
    : Segment (left ++ middle ++ right) where
  toTrimmed := first.toTrimmed.around first.nonempty middle last.toTrimmed last.nonempty
  nonempty := by simp [first.nonempty]
  uncut c member := by
    rw [List.mem_append, List.mem_append] at member
    rcases member with (inside | inside) | inside
    · exact first.uncut c inside
    · exact between c inside
    · exact last.uncut c inside

theorem of_all (nonempty : text ≠ [])
    (each : text.all (fun c => !isBlank c && !isCut c) = true)
    : Segment text :=
  of_visible nonempty fun c member => by simpa using List.all_eq_true.mp each c member

theorem single {c : Char} (visible : isBlank c = false ∧ isCut c = false) : Segment [c] :=
  of_visible (List.cons_ne_nil _ _) (List.forall_mem_singleton.mpr visible)

theorem inParentheses (uncut : ∀ c ∈ text, isCut c = false) : Segment ('(' :: (text ++ [')'])) :=
  (single (c := '(') (by decide)).around uncut (single (c := ')') (by decide))

end Segment

theorem isCut_eq_false_of_continuesWord {c : Char} (continues : continuesWord c = true)
    : isCut c = false := by
  rw [Bool.eq_false_iff]
  intro cut
  simp only [isCut, Bool.or_eq_true, decide_eq_true_eq] at cut
  rcases cut with (rfl | rfl) | rfl <;> exact absurd continues (by decide)

/-- An identifier is a segment, as its characters continue a word and none of these is cut. -/
theorem Segment.of_isIdentifier {word : List Char} (identifier : isIdentifier word = true)
    : Segment word := by
  obtain ⟨nonempty, continues⟩ := continuesWord_of_isIdentifier identifier
  refine of_visible nonempty fun c member => ?_
  exact ⟨isBlank_eq_false_of_continuesWord (continues c member),
    isCut_eq_false_of_continuesWord (continues c member)⟩

/-- The digits of a number are a segment. -/
theorem Segment.numeral (value : Nat) : Segment (toString value).toList := by
  obtain ⟨nonempty, digits, _⟩ := digits_toString value
  refine of_visible nonempty fun c member => ?_
  have digit := digits c member
  refine ⟨isBlank_eq_false_of_isDigit digit, ?_⟩
  rw [Bool.eq_false_iff]
  intro cut
  simp only [isCut, Bool.or_eq_true, decide_eq_true_eq] at cut
  rcases cut with (rfl | rfl) | rfl <;> cases digit

-----------------------------------------------------------------------------------------
-- Lines of their own
-----------------------------------------------------------------------------------------

/-- A text that is read as a line of its own. -/
structure Solid (text : List Char) : Prop extends Plain text, Trimmed text where
  nonempty : text ≠ []

theorem Segment.solid {text : List Char} (segment : Segment text) : Solid text :=
  ⟨segment.plain, segment.toTrimmed, segment.nonempty⟩

theorem Solid.of_all {text : List Char} (nonempty : text ≠ [])
    (each : text.all (fun c => !isBlank c && c ≠ '#') = true)
    : Solid text := by
  have visible : ∀ c ∈ text, isBlank c = false ∧ c ≠ '#' := fun c member => by
    simpa using List.all_eq_true.mp each c member
  refine ⟨⟨fun member => ?_, fun member => ?_⟩, trimmed_of_visible fun c member => ?_, nonempty⟩
  · exact (visible '#' member).2 rfl
  · exact absurd (visible '\n' member).1 (by decide)
  · exact (visible c member).1

theorem Plain.append {left right : List Char} (first : Plain left) (second : Plain right)
    : Plain (left ++ right) where
  comment := by simp [first.comment, second.comment]
  newline := by simp [first.newline, second.newline]

/-- A line of its own may have any plain text in it. -/
theorem Solid.around {left middle right : List Char} (first : Solid left) (between : Plain middle)
    (last : Solid right)
    : Solid (left ++ middle ++ right) where
  toPlain := (first.toPlain.append between).append last.toPlain
  toTrimmed := first.toTrimmed.around first.nonempty middle last.toTrimmed last.nonempty
  nonempty := by simp [first.nonempty]

end Text

-----------------------------------------------------------------------------------------
-- Names and expressions
-----------------------------------------------------------------------------------------

open Text (Segment)

theorem segment_append {left middle right : String} (first : Segment left.toList)
    (between : middle.toList.all (!Text.isCut ·) = true) (last : Segment right.toList)
    : Segment (left ++ middle ++ right).toList := by
  rw [String.toList_append, String.toList_append]
  exact first.around (fun c member => by simpa using List.all_eq_true.mp between c member) last

theorem plain_append {left right : String} (first : Text.Plain left.toList)
    (second : Text.Plain right.toList)
    : Text.Plain (left ++ right).toList := by
  rw [String.toList_append]
  exact first.append second

theorem solid_append {left middle right : String} (first : Text.Solid left.toList)
    (between : Text.Plain middle.toList) (last : Text.Solid right.toList)
    : Text.Solid (left ++ middle ++ right).toList := by
  rw [String.toList_append, String.toList_append]
  exact first.around between last

/-- The words of a name with single spaces between them are a segment, by induction on them. -/
theorem segment_of_spelledName {scope : Scope} {name : String} (spelled : SpelledName scope name)
    : Segment name.toList := by
  obtain ⟨words, some, each, rfl⟩ := spelled
  induction words with
  | nil => exact absurd rfl some
  | cons word rest ih =>
      obtain ⟨first, others⟩ := List.forall_mem_cons.mp each
      have head := Segment.of_isIdentifier first.2
      cases rest with
      | nil => exact head
      | cons next rest =>
          exact segment_append head (by decide) (ih (List.cons_ne_nil _ _) others)

theorem segment_parenthesized {text : String} (segment : Segment text.toList) (needed : Bool)
    : Segment (parenthesized needed text).toList := by
  cases needed with
  | false => exact segment
  | true => simpa [parenthesized] using Segment.inParentheses segment.uncut

namespace Expr

/-- Texts separated by commas have no cuts, by induction on the expressions: a comma cuts nothing,
and neither do the texts.
-/
theorem uncut_commaText {elements : List Expr}
    (each : ∀ element ∈ elements, Segment element.text.toList)
    : ∀ c ∈ (commaText elements).toList, Text.isCut c = false := by
  induction elements with
  | nil => exact nofun
  | cons element rest ih =>
      obtain ⟨first, others⟩ := List.forall_mem_cons.mp each
      cases rest with
      | nil => exact first.uncut
      | cons next rest =>
          intro c member
          simp only [commaText, String.toList_append, List.mem_append] at member
          rcases member with (inside | comma) | later
          · exact first.uncut c inside
          · have comma : c = ',' ∨ c = ' ' := by simpa using comma
            rcases comma with rfl | rfl <;> rfl
          · exact ih others c later

theorem text_tuple (elements : List Expr)
    : (text (.tuple elements)).toList = '(' :: ((commaText elements).toList ++ [')']) := by
  simp [text]

theorem uncut_operator (op : BinaryOp)
    : (" " ++ op.text ++ " ").toList.all (!Text.isCut ·) = true := by
  cases op <;> decide

/-- The text of a readable expression is a segment, by induction on the expression.

So a printed line is cut at its own colon, and never inside one of its expressions.
-/
theorem segment_text {names : Names} {expr : Expr} (readable : expr.Readable names)
    : Segment expr.text.toList := by
  induction expr with
  | int value =>
      obtain ⟨value, rfl⟩ := Int.eq_ofNat_of_zero_le readable.1
      exact .numeral value
  | bool value => cases value <;> exact .of_all (by decide) (by decide)
  | tuple elements ih =>
      have each := fun element member => ih element member
        (allReadable_iff.mp readable.2 element member)
      rw [text_tuple]
      exact .inParentheses (uncut_commaText each)
  | param slot name => exact .of_isIdentifier readable.1
  | read place name index ih =>
      obtain ⟨spelled, _, inner⟩ := readable
      rw [text]
      split
      · exact segment_of_spelledName spelled
      · exact segment_append (segment_of_spelledName spelled) (by decide)
          (segment_parenthesized (ih inner) _)
  | isLive entity name id ih =>
      obtain ⟨spelled, _, inner⟩ := readable
      exact segment_append (segment_of_spelledName spelled) (by decide)
        (segment_parenthesized (ih inner) _)
  | entityType entity name =>
      have front : "entity " = Keyword.entity.text ++ " " := by decide
      rw [text, front]
      exact segment_append (.of_all (by decide) (by decide)) (by decide)
        (segment_of_spelledName readable.1)
  | not operand ih =>
      have front : "not " = Keyword.negation.text ++ " " := by decide
      rw [text, front]
      exact segment_append (.of_all (by decide) (by decide)) (by decide)
        (segment_parenthesized (ih readable) _)
  | neg operand ih =>
      have front : "-" = Symbol.minus.text ++ "" := by decide
      rw [text, front]
      exact segment_append (.of_all (by decide) (by decide)) (by decide)
        (segment_parenthesized (ih readable) _)
  | binary op left right leftIh rightIh =>
      have leftSegment := leftIh readable.1
      have rightSegment := rightIh readable.2
      by_cases indexing : op = .index
      · subst indexing
        exact segment_append (segment_parenthesized leftSegment _) (by decide)
          (segment_parenthesized rightSegment _)
      · rw [text_binary indexing]
        have whole := segment_append
          (segment_parenthesized leftSegment (left.needsParensBefore op)) (uncut_operator op)
          (segment_parenthesized rightSegment (right.needsParensAfter op))
        simpa only [String.append_assoc] using whole

end Expr

end Dispatch
