import Dispatch.Proofs.Reading.ReaderDepth
import Dispatch.Proofs.Reading.TextCuts
import Dispatch.Update.Parser

/-!
Where the errors of a single line point. Every reader of a line counts characters from the start of
the piece it was given, and every piece remembers where it was cut from the line; so an error always
points at a character of the line or at its end.
-/

namespace Dispatch

-----------------------------------------------------------------------------------------
-- Lines and their pieces
-----------------------------------------------------------------------------------------

/-- The first piece is cut from the second. -/
structure Line.Inside (piece line : Line) : Prop where
  number : piece.number = line.number
  start : line.column ≤ piece.column
  stop : piece.column + piece.text.length ≤ line.column + line.text.length
  text : piece.text ⊆ line.text

/-- The span starts at a character of the line or at its end. Nothing is said of a text with a
newline in it, which is no line.
-/
def Line.Marks (line : Line) (span : Span) : Prop :=
  '\n' ∉ line.text → span.line = line.number ∧ line.column ≤ span.column
    ∧ span.column ≤ line.column + line.text.length

namespace Line

variable {line piece : Line}

theorem Inside.refl (line : Line) : line.Inside line :=
  ⟨rfl, Nat.le_refl _, Nat.le_refl _, List.Subset.refl _⟩

theorem Inside.trans {part : Line} (first : part.Inside piece) (second : piece.Inside line)
    : part.Inside line where
  number := first.number.trans second.number
  start := Nat.le_trans second.start first.start
  stop := Nat.le_trans first.stop second.stop
  text := List.Subset.trans first.text second.text

/-- What is marked in a piece of a line is marked in the line, since the piece begins and ends
inside the line. A line with a newline in it marks anything.
-/
theorem Marks.of_inside {span : Span} (marked : piece.Marks span) (inside : piece.Inside line)
    : line.Marks span := by
  intro flat
  obtain ⟨number, low, high⟩ := marked fun broken => flat (inside.text broken)
  exact ⟨number.trans inside.number, Nat.le_trans inside.start low,
    Nat.le_trans high inside.stop⟩

theorem marks_span (line : Line) : line.Marks line.span :=
  fun _ => ⟨rfl, Nat.le_refl _, Nat.le_add_right _ _⟩

theorem marks_of_span {span : Span} (number : span.line = line.number)
    (column : span.column = line.column)
    : line.Marks span :=
  fun _ => ⟨number, by omega, by omega⟩

/-- A part that is taken from the text of a line, behind as many characters as are skipped, gives a
piece of the line.
-/
theorem inside_piece {skipped : Nat} {part : List Char}
    (fits : skipped + part.length ≤ line.text.length) (taken : part ⊆ line.text)
    : (line.piece skipped part).Inside line where
  number := rfl
  start := by simp only [piece]; omega
  stop := by
    obtain ⟨blanks, same, _⟩ := Text.exists_blank_trim part
    have counted := congrArg List.length same
    simp only [List.length_append] at counted
    simp only [piece]
    omega
  text := List.Subset.trans (Text.trim_subset part) taken

/-- The pieces of parts of a line that fit into it stand inside it, by induction on the parts. Each
part leaves the character that separates it from the next.
-/
theorem inside_of_mem_pieces {skipped : Nat} {parts : List (List Char)}
    (fits : skipped + Text.occupied parts ≤ line.text.length + 1)
    (taken : ∀ part ∈ parts, part ⊆ line.text) (member : piece ∈ line.pieces skipped parts)
    : piece.Inside line := by
  induction parts generalizing skipped with
  | nil => cases member
  | cons part rest ih =>
      obtain ⟨partTaken, restTaken⟩ := List.forall_mem_cons.mp taken
      rw [Text.occupied] at fits
      rcases List.mem_cons.mp member with rfl | later
      · exact inside_piece (by omega) partTaken
      · exact ih (by omega) restTaken later

theorem inside_of_mem_commaPieces (member : piece ∈ line.commaPieces) : piece.Inside line :=
  inside_of_mem_pieces (by rw [Text.occupied_splitTopLevel]; omega)
    (fun _ => Text.subset_of_mem_splitTopLevel) member

/-- The error points into the line. -/
def Locates (line : Line) (error : ParseError) : Prop := line.Marks error.span

theorem locates_fault (line : Line) (fault : SyntaxFault)
    : line.Locates (.ofFault fault line.span) :=
  line.marks_span

end Line

theorem FailsOnly.of_inside {α : Type} {piece line : Line} {result : Except ParseError α}
    (fails : FailsOnly piece.Locates result) (inside : piece.Inside line)
    : FailsOnly line.Locates result :=
  fails.mono fun _ located => located.of_inside inside

-----------------------------------------------------------------------------------------
-- Tokens
-----------------------------------------------------------------------------------------

/-- Along a text without newlines a position stays on its line, by induction on the text. -/
theorem Position.advanceBy_of_flat {text : List Char} (flat : '\n' ∉ text) (here : Position)
    : (here.advanceBy text).line = here.line
      ∧ (here.advanceBy text).column = here.column + text.length := by
  induction text generalizing here with
  | nil => exact ⟨rfl, rfl⟩
  | cons c rest ih =>
      rw [List.mem_cons, not_or] at flat
      obtain ⟨differs, flat⟩ := flat
      obtain ⟨line, column⟩ := ih flat (here.advance c)
      refine ⟨?_, ?_⟩
      · exact line.trans (if_neg (Ne.symm differs))
      · refine column.trans ?_
        simp only [Position.advance, if_neg (Ne.symm differs), List.length_cons]
        omega

/-- The position is that of a character of the line, or of its end. -/
structure Line.Reaches (line : Line) (here : Position) (text : List Char) : Prop where
  number : here.line = line.number
  start : line.column ≤ here.column
  stop : here.column + text.length ≤ line.column + line.text.length
  flat : '\n' ∉ text

/-- A position that reaches the rest of a line reaches it further on, where the front of the rest
has been read.
-/
theorem Line.Reaches.advanceBy {line : Line} {here : Position} (front : List Char)
    {rest : List Char} (reaches : line.Reaches here (front ++ rest))
    : line.Reaches (here.advanceBy front) rest := by
  have flat := reaches.flat
  rw [List.mem_append, not_or] at flat
  obtain ⟨flatFront, flatRest⟩ := flat
  obtain ⟨number, column⟩ := Position.advanceBy_of_flat flatFront here
  have stop := reaches.stop
  rw [List.length_append] at stop
  have start := reaches.start
  exact ⟨number.trans reaches.number, by omega, by omega, flatRest⟩

theorem Line.Reaches.marks {line : Line} {here next : Position} {text : List Char}
    (reaches : line.Reaches here text)
    : line.Marks (.between here next) := by
  have start := reaches.start
  have stop := reaches.stop
  exact fun _ => ⟨reaches.number, start, by simp only [Span.between]; omega⟩

/-- From a position of a line on, tokens and errors have their places in the line; by induction as
the text is read. The position is kept as one that reaches the text that is left.
-/
theorem TokenLine.marks_of_read (line : Line) (here : Position) (text : List Char)
    (reaches : line.Reaches here text)
    : FailsOnly line.Locates (read here text)
      ∧ ∀ tokens, read here text = .ok tokens
          → line.Marks tokens.stop ∧ ∀ lexeme ∈ tokens.lexemes, line.Marks lexeme.span := by
  fun_induction read here text with
  | case1 here =>
      refine ⟨.ok _, fun tokens done => ?_⟩
      obtain rfl := Except.ok.inj done
      exact ⟨reaches.marks, by simp⟩
  | case2 here c rest blank ih =>
      exact ih (Line.Reaches.advanceBy [c] reaches)
  | case3 here c rest visible taken next cause stray =>
      exact ⟨.error reaches.marks, nofun⟩
  | case4 here c rest visible taken next token spelled ih =>
      have further : line.Reaches next (rest.drop taken) := by
        refine Line.Reaches.advanceBy (c :: rest.take taken) ?_
        rwa [List.cons_append, List.take_append_drop]
      obtain ⟨fails, marks⟩ := ih further
      refine ⟨.bind fails fun _ _ => .ok _, fun tokens done => ?_⟩
      obtain ⟨others, read, done⟩ := bind_eq_ok_iff.mp done
      obtain rfl := Except.ok.inj done
      obtain ⟨stop, lexemes⟩ := marks others read
      exact ⟨stop, List.forall_mem_cons.mpr ⟨reaches.marks, lexemes⟩⟩

/-- The lexemes, and the end of what is read, have their places in the line. -/
structure LineContext.Marked (line : Line) (context : LineContext) (input : List Lexeme) : Prop
    where
  stop : line.Marks context.stop
  lexemes : ∀ lexeme ∈ input, line.Marks lexeme.span

namespace LineContext

variable {line : Line} {context : LineContext} {input rest : List Lexeme}

/-- The tokens of a line have their places in it, and so has the fault of a line that has no tokens.
The first position reaches the whole line, from where its reading goes on.
-/
theorem marked_of_ofLine (names : Names) (line : Line)
    : FailsOnly line.Locates (ofLine names line)
      ∧ ∀ context input, ofLine names line = .ok (context, input) → Marked line context input := by
  by_cases flat : '\n' ∈ line.text
  · have anything {span : Span} : line.Marks span := fun unbroken => absurd flat unbroken
    exact ⟨fun _ _ => anything, fun _ _ _ => ⟨anything, fun _ _ => anything⟩⟩
  · obtain ⟨fails, marks⟩ := TokenLine.marks_of_read line line.position line.text
      ⟨rfl, Nat.le_refl _, Nat.le_refl _, flat⟩
    refine ⟨.bind fails fun _ _ => .ok _, fun context input opened => ?_⟩
    obtain ⟨tokens, read, done⟩ := bind_eq_ok_iff.mp opened
    obtain ⟨rfl, rfl⟩ := Prod.mk.inj (Except.ok.inj done)
    obtain ⟨stop, lexemes⟩ := marks tokens read
    exact ⟨stop, lexemes⟩

theorem Marked.suffix (marked : Marked line context input) (suffix : rest <:+ input)
    : Marked line context rest :=
  ⟨marked.stop, fun lexeme member => marked.lexemes lexeme (suffix.subset member)⟩

theorem Marked.tail {lexeme : Lexeme} (marked : Marked line context (lexeme :: rest))
    : Marked line context rest :=
  marked.suffix (List.suffix_cons lexeme rest)

theorem Marked.head {lexeme : Lexeme} (marked : Marked line context (lexeme :: rest))
    : line.Marks lexeme.span :=
  marked.lexemes lexeme List.mem_cons_self

/-- What is refused at the next lexeme is refused inside the line, and so it is where the lexemes
end, at the end of the line.
-/
theorem Marked.refuse (marked : Marked line context input) (expected : Expectation)
    : line.Locates (context.refuse expected input) := by
  cases input with
  | nil => exact marked.stop
  | cons lexeme rest => exact marked.head

theorem Marked.expectSymbol (marked : Marked line context input) (mark : Symbol)
    : FailsOnly line.Locates (context.expectSymbol mark input) := by
  unfold LineContext.expectSymbol
  split
  · exact .ok _
  · exact .error (marked.refuse _)

theorem Marked.expectEnd (marked : Marked line context input)
    : FailsOnly line.Locates (context.expectEnd input) := by
  unfold LineContext.expectEnd
  split
  · exact .ok _
  · exact .error (marked.refuse _)

theorem foldl_cover (spans : List (String × Span)) (span : Span)
    : (spans.foldl (fun whole next => whole.cover next.2) span).line = span.line
      ∧ (spans.foldl (fun whole next => whole.cover next.2) span).column = span.column := by
  induction spans generalizing span with
  | nil => exact ⟨rfl, rfl⟩
  | cons first rest ih => exact ih (span.cover first.2)

/-- A name is reported where its first word stands, however many words it has. -/
theorem Marked.readName (marked : Marked line context input)
    : FailsOnly line.Locates (context.readName input)
      ∧ ∀ found rest, context.readName input = .ok (found, rest) → line.Marks found.span := by
  unfold LineContext.readName
  split
  · exact ⟨.error (marked.refuse _), nofun⟩
  · rename_i word span more after taken
    refine ⟨.ok _, fun found rest done => ?_⟩
    obtain ⟨rfl, _⟩ := Prod.mk.inj (Except.ok.inj done)
    have split := (leadingWords_split context.scope input).1
    rw [taken] at split
    have first : line.Marks span :=
      marked.lexemes ⟨.word word, span⟩ (by rw [split]; exact List.mem_cons_self)
    obtain ⟨sameLine, sameColumn⟩ := foldl_cover more span
    intro flat
    rw [sameLine, sameColumn]
    exact first flat

theorem entityNamed_fails {found : SpannedName} (marked : line.Marks found.span)
    : FailsOnly line.Locates (context.entityNamed found) := by
  unfold entityNamed
  split
  · exact .ok _
  · exact .error marked

theorem placeNamed_fails {found : SpannedName} (marked : line.Marks found.span)
    : FailsOnly line.Locates (context.placeNamed found) := by
  unfold placeNamed
  split
  · exact .ok _
  · exact .error marked

end LineContext

-----------------------------------------------------------------------------------------
-- Expressions
-----------------------------------------------------------------------------------------

namespace Expr

open LineContext

variable {line : Line} {context : LineContext} {depth : Nat}

/-- At a bound on the nesting, every reader fails inside the line where its lexemes stand. -/
structure ReadersLocate (line : Line) (context : LineContext) (depth : Nat) : Prop where
  level
    : ∀ {level input}, Marked line context input
        → FailsOnly line.Locates (readLevel context depth level input)
  operators
    : ∀ {level left input}, Marked line context input
        → FailsOnly line.Locates (readOperators context depth level left input)
  operand
    : ∀ {input}, Marked line context input
        → FailsOnly line.Locates (readOperand context depth input)
  indexings
    : ∀ {base input}, Marked line context input
        → FailsOnly line.Locates (readIndexings context depth base input)
  primary
    : ∀ {input}, Marked line context input
        → FailsOnly line.Locates (readPrimary context depth input)
  elements
    : ∀ {input}, Marked line context input
        → FailsOnly line.Locates (readElements context depth input)
  index
    : ∀ {input}, Marked line context input
        → FailsOnly line.Locates (readIndex context depth input)

/-- Readers without any depth left refuse at the next lexeme. -/
theorem ReadersLocate.zero : ReadersLocate line context 0 where
  level marked := by rw [readLevel]; exact .error (marked.refuse _)
  operators marked := by rw [readOperators]; exact .error (marked.refuse _)
  operand marked := by rw [readOperand]; exact .error (marked.refuse _)
  indexings marked := by rw [readIndexings]; exact .error (marked.refuse _)
  primary marked := by rw [readPrimary]; exact .error (marked.refuse _)
  elements marked := by rw [readElements]; exact .error (marked.refuse _)
  index marked := by rw [readIndex]; exact .error (marked.refuse _)

/-- What the readers leave of lexemes that have their places in the line. -/
theorem marked_of_readLevel {level : Nat} {input rest : List Lexeme} {expr : Expr}
    (marked : Marked line context input)
    (read : readLevel context depth level input = .ok (expr, rest))
    : Marked line context rest :=
  marked.suffix
    ((readersYield (readClosed_true context input) depth).level List.suffix_rfl read).2.suffix

theorem marked_of_readPrimary {input rest : List Lexeme} {expr : Expr}
    (marked : Marked line context input)
    (read : readPrimary context depth input = .ok (expr, rest))
    : Marked line context rest :=
  marked.suffix
    ((readersYield (readClosed_true context input) depth).primary List.suffix_rfl read).2.suffix

theorem marked_of_readElements {input rest : List Lexeme} {exprs : List Expr}
    (marked : Marked line context input)
    (read : readElements context depth input = .ok (exprs, rest))
    : Marked line context rest :=
  marked.suffix
    ((readersYield (readClosed_true context input) depth).elements List.suffix_rfl read).2.suffix

theorem marked_of_readName {input rest : List Lexeme} {found : SpannedName}
    (marked : Marked line context input) (read : context.readName input = .ok (found, rest))
    : Marked line context rest :=
  marked.suffix (nameFrom_of_readName read).2.suffix

/-- A level is refused in its first operand or behind it, where its operators are read. -/
theorem ReadersLocate.level_succ (inner : ReadersLocate line context depth) {level input}
    (marked : Marked line context input)
    : FailsOnly line.Locates (readLevel context (depth + 1) level input) := by
  rw [readLevel]
  refine .bindPair (inner.operand marked) fun left rest read => inner.operators (marked.suffix ?_)
  exact ((readersYield (readClosed_true context input) depth).operand List.suffix_rfl read).2.suffix

/-- The operators of a level are refused in the operand to the right of one, or in what is left
behind that.
-/
theorem ReadersLocate.operators_succ (inner : ReadersLocate line context depth)
    {level left input} (marked : Marked line context input)
    : FailsOnly line.Locates (readOperators context (depth + 1) level left input) := by
  unfold readOperators
  split
  · exact .ok _
  · rename_i op rest next
    split
    · exact .ok _
    · have after := marked.suffix (leaves_of_nextOperator? next).suffix
      exact .bindPair (inner.level after) fun right rest read =>
        inner.operators (marked_of_readLevel after read)

/-- An operand is refused in what follows its sign or negation, or else in its primary and the
indexings behind.
-/
theorem ReadersLocate.operand_succ (inner : ReadersLocate line context depth) {input}
    (marked : Marked line context input)
    : FailsOnly line.Locates (readOperand context (depth + 1) input) := by
  unfold readOperand
  split
  · exact .bind (inner.level marked.tail) fun _ _ => .ok _
  · exact .bind (inner.operand marked.tail) fun _ _ => .ok _
  · exact inner.operand marked.tail
  · exact .bindPair (inner.primary marked) fun base rest read =>
      inner.indexings (marked_of_readPrimary marked read)

/-- Indexings are refused in an index, or in the indexings behind it. -/
theorem ReadersLocate.indexings_succ (inner : ReadersLocate line context depth) {base input}
    (marked : Marked line context input)
    : FailsOnly line.Locates (readIndexings context (depth + 1) base input) := by
  unfold readIndexings
  split
  · exact .ok _
  · rename_i rest next
    have after := marked.suffix (leaves_of_afterSymbol? next).suffix
    exact .bindPair (inner.primary after) fun index rest read =>
      inner.indexings (marked_of_readPrimary after read)

/-- A primary is refused inside the line, by cases on its first lexeme: a literal, an entity type,
an expression or a list in parentheses, a name with what follows it, or no primary at all.
-/
theorem ReadersLocate.primary_succ (inner : ReadersLocate line context depth) {input}
    (marked : Marked line context input)
    : FailsOnly line.Locates (readPrimary context (depth + 1) input) := by
  unfold readPrimary
  split
  · exact .ok _
  · exact .ok _
  · exact .ok _
  · obtain ⟨nameFails, nameMarks⟩ := marked.tail.readName
    exact .bindPair nameFails fun found rest read =>
      .bind (entityNamed_fails (nameMarks found rest read)) fun _ _ => .ok _
  · refine .bindPair (inner.level marked.tail) fun first rest read => ?_
    have after := marked_of_readLevel marked.tail read
    dsimp only
    split
    · exact .bind (after.expectSymbol _) fun _ _ => .ok _
    · rename_i next
      have listed := after.suffix (leaves_of_afterSymbol? next).suffix
      exact .bindPair (inner.elements listed) fun more rest read =>
        .bind ((marked_of_readElements listed read).expectSymbol _) fun _ _ => .ok _
  · split
    · exact .ok _
    · obtain ⟨nameFails, nameMarks⟩ := marked.readName
      refine .bindPair nameFails fun found rest read => ?_
      have foundMarked := nameMarks found rest read
      have after := marked_of_readName marked read
      dsimp only
      split
      · rename_i next
        have tested := after.suffix (leaves_of_afterKeyword? next).suffix
        exact .bind (entityNamed_fails foundMarked) fun _ _ =>
          .bind (inner.primary tested) fun _ _ => .ok _
      · exact .bind (placeNamed_fails foundMarked) fun _ _ =>
          .bind (inner.index after) fun _ _ => .ok _
  · exact .error (marked.refuse _)

/-- The elements of a list are refused in the first of them or, behind a comma, in the others. -/
theorem ReadersLocate.elements_succ (inner : ReadersLocate line context depth) {input}
    (marked : Marked line context input)
    : FailsOnly line.Locates (readElements context (depth + 1) input) := by
  unfold readElements
  refine .bindPair (inner.level marked) fun element rest read => ?_
  have after := marked_of_readLevel marked read
  dsimp only
  split
  · exact .ok _
  · rename_i next
    exact .bind (inner.elements (after.suffix (leaves_of_afterSymbol? next).suffix))
      fun _ _ => .ok _

theorem ReadersLocate.index_succ (inner : ReadersLocate line context depth) {input}
    (marked : Marked line context input)
    : FailsOnly line.Locates (readIndex context (depth + 1) input) := by
  unfold readIndex
  split
  · exact .bindPair (inner.level marked.tail) fun index rest read =>
      .bind ((marked_of_readLevel marked.tail read).expectSymbol _) fun _ _ => .ok _
  · exact .ok _
  · split <;> exact .ok _
  · exact .ok _

/-- All readers fail inside the line of their lexemes, by induction on the bound of their nesting. A
reader of greater depth calls those of the depth below, on lexemes that are a suffix of its own.
-/
theorem readersLocate (line : Line) (context : LineContext) (depth : Nat)
    : ReadersLocate line context depth := by
  induction depth with
  | zero => exact .zero
  | succ depth inner =>
      exact {
        level := inner.level_succ
        operators := inner.operators_succ
        operand := inner.operand_succ
        indexings := inner.indexings_succ
        primary := inner.primary_succ
        elements := inner.elements_succ
        index := inner.index_succ
      }

theorem readExpr_fails {input : List Lexeme} (marked : Marked line context input)
    : FailsOnly line.Locates (readExpr context input) :=
  (readersLocate line context _).level marked

/-- A line that is no expression is refused inside it. -/
theorem ofLine_fails (names : Names) (line : Line)
    : FailsOnly line.Locates (ofLine names line) := by
  obtain ⟨fails, marks⟩ := marked_of_ofLine names line
  refine .bindPair fails fun context input opened => ?_
  have marked := marks context input opened
  exact .bindPair (readExpr_fails marked) fun expr rest read =>
    .bind (marked_of_readLevel marked read).expectEnd fun _ _ => .ok _

end Expr

end Dispatch
