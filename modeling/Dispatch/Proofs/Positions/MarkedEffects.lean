import Dispatch.Domain.Actions
import Dispatch.Proofs.Positions.MarkedLines
import Dispatch.Proofs.Reading.BlockGrammar

/-!
Where the errors of effects point. An effect line is refused inside itself. A block is refused
inside one of the lines it was nested from, which are those it still holds and the line that opened
it.
-/

namespace Dispatch

open LineContext

-----------------------------------------------------------------------------------------
-- Effect lines
-----------------------------------------------------------------------------------------

/-- What follows a character of a line stands inside it. -/
theorem Line.inside_of_append_cons {line : Line} {before after : List Char} {mark : Char}
    (same : line.text = before ++ mark :: after)
    : Line.Inside { line with text := after, column := line.column + before.length + 1 } line where
  number := rfl
  start := by dsimp only; omega
  stop := by simp only [same, List.length_append, List.length_cons]; omega
  text := by
    intro c member
    rw [same]
    exact List.mem_append_right _ (List.mem_cons_of_mem _ member)

theorem identifierOf_fails {line : Line} {text : List Char} {span : Span}
    (marked : line.Marks span)
    : FailsOnly line.Locates (identifierOf text span) := by
  unfold identifierOf
  split
  · exact .ok _
  · exact .error marked

section

variable {line : Line} {context : LineContext} {input : List Lexeme}

/-- The fields of an item are read inside the line, and so is what they leave. They stand in
parentheses and are read like the elements of a list.
-/
theorem LineContext.Marked.readFields (marked : Marked line context input)
    : FailsOnly line.Locates (context.readFields input)
      ∧ ∀ fields rest, context.readFields input = .ok (fields, rest)
          → Marked line context rest := by
  unfold LineContext.readFields
  constructor
  · refine .bind (marked.expectSymbol _) fun opened openRead => ?_
    have inside := marked.suffix (leaves_of_expectSymbol openRead).suffix
    split
    · exact .ok _
    · exact .bindPair ((Expr.readersLocate line context _).elements inside) fun fields rest read =>
        .bind ((Expr.marked_of_readElements inside read).expectSymbol _) fun _ _ => .ok _
  · intro fields rest read
    obtain ⟨opened, openRead, read⟩ := bind_eq_ok_iff.mp read
    have inside := marked.suffix (leaves_of_expectSymbol openRead).suffix
    split at read
    · rename_i closed
      obtain ⟨rfl, rfl⟩ := Prod.mk.inj (Except.ok.inj read)
      exact inside.suffix (leaves_of_afterSymbol? closed).suffix
    · obtain ⟨⟨_, after⟩, elementsRead, read⟩ := bind_eq_ok_iff.mp read
      obtain ⟨_, closed, done⟩ := bind_eq_ok_iff.mp read
      obtain ⟨rfl, rfl⟩ := Prod.mk.inj (Except.ok.inj done)
      exact (Expr.marked_of_readElements inside elementsRead).suffix
        (leaves_of_expectSymbol closed).suffix

/-- The target of an assignment is read inside the line, and so is what it leaves. A target has a
name and perhaps an index, and both are read from lexemes of the line.
-/
theorem AssignmentTarget.read_fails (marked : Marked line context input)
    : FailsOnly line.Locates (read context input)
      ∧ ∀ target rest, read context input = .ok (target, rest) → Marked line context rest := by
  unfold read
  split
  · rename_i word span others
    split
    · refine ⟨.ok _, fun target rest done => ?_⟩
      obtain ⟨_, rfl⟩ := Prod.mk.inj (Except.ok.inj done)
      exact marked.tail
    · exact ⟨.error marked.head, nofun⟩
    · obtain ⟨nameFails, nameMarks⟩ := marked.readName
      constructor
      · refine .bindPair nameFails fun found rest nameRead => ?_
        have foundMarked := nameMarks found rest nameRead
        have after := Expr.marked_of_readName marked nameRead
        refine .bind (placeNamed_fails foundMarked) fun place _ => ?_
        split
        · exact .bind (.error foundMarked) fun _ _ =>
            .bind ((Expr.readersLocate line context _).index after) fun _ _ => .ok _
        · exact .bind ((Expr.readersLocate line context _).index after) fun _ _ => .ok _
      · intro target rest done
        obtain ⟨⟨found, after⟩, nameRead, done⟩ := bind_eq_ok_iff.mp done
        obtain ⟨place, _, done⟩ := bind_eq_ok_iff.mp done
        split at done
        · cases done
        · obtain ⟨⟨index, last⟩, indexRead, done⟩ := bind_eq_ok_iff.mp done
          obtain ⟨_, rfl⟩ := Prod.mk.inj (Except.ok.inj done)
          have suffix := ((Expr.readersYield (Expr.readClosed_true context after) _).index
            List.suffix_rfl indexRead).2
          exact (Expr.marked_of_readName marked nameRead).suffix suffix
  · exact ⟨.error (marked.refuse _), nofun⟩

end

namespace Update

/-- An assignment is refused inside its line: in its target, at the colon, in its value, or behind
it.
-/
theorem ofAssignment_fails (names : Names) (line : Line)
    : FailsOnly line.Locates (ofAssignment names line) := by
  obtain ⟨fails, marks⟩ := marked_of_ofLine names line
  refine .bindPair fails fun context input opened => ?_
  obtain ⟨targetFails, targetMarks⟩ := AssignmentTarget.read_fails (marks context input opened)
  refine .bindPair targetFails fun target rest targetRead => ?_
  have after := targetMarks target rest targetRead
  refine .bind (after.expectSymbol _) fun rest colonRead => ?_
  have behind := after.suffix (leaves_of_expectSymbol colonRead).suffix
  exact .bindPair (Expr.readExpr_fails behind) fun value rest valueRead =>
    .bind (Expr.marked_of_readLevel behind valueRead).expectEnd fun _ _ => .ok _

/-- A command on items is refused inside what follows its colon. The cases are those of the command.
-/
theorem ofCommand_fails (names : Names) (entity : Nat) (name : String) (command : ItemCommand)
    (tail : Line)
    : FailsOnly tail.Locates (ofCommand names entity name command tail) := by
  unfold ofCommand
  dsimp only
  split
  · obtain ⟨fails, marks⟩ := marked_of_ofLine names tail
    have counted (fields : List Expr) {expected : Nat}
        : FailsOnly tail.Locates
            (if fields.length = expected then .ok ()
              else .error (.ofFault (.fieldValueCount name expected fields.length) tail.span)) := by
      split
      · exact .ok _
      · exact .error (tail.locates_fault _)
    refine .bindPair fails fun context input opened => ?_
    have marked := marks context input opened
    cases command with
    | remove =>
        exact .bindPair (Expr.readExpr_fails marked) fun id rest read =>
          .bind (Expr.marked_of_readLevel marked read).expectEnd fun _ _ => .ok _
    | add =>
        obtain ⟨fieldsFail, fieldsMark⟩ := marked.readFields
        exact .bindPair fieldsFail fun fields rest read =>
          .bind (counted fields) fun _ _ =>
            .bind (fieldsMark fields rest read).expectEnd fun _ _ => .ok _
    | replace =>
        refine .bindPair (Expr.readExpr_fails marked) fun id rest read => ?_
        obtain ⟨fieldsFail, fieldsMark⟩ := (Expr.marked_of_readLevel marked read).readFields
        exact .bindPair fieldsFail fun fields rest read =>
          .bind (counted fields) fun _ _ =>
            .bind (fieldsMark fields rest read).expectEnd fun _ _ => .ok _
  · exact .error (tail.locates_fault _)

/-- An effect line is refused inside it. Both ways to read it, as a command and as an assignment,
cut the line or read its lexemes.
-/
theorem ofLine_fails (names : Names) (line : Line)
    : FailsOnly line.Locates (ofLine names line) := by
  unfold ofLine
  split
  · exact ofAssignment_fails names line
  · rename_i before after cut
    obtain ⟨same, _⟩ := Text.cutAtFirst?_eq_some_iff.mp cut
    dsimp only
    split
    · exact ofAssignment_fails names line
    · split
      · rename_i entity _
        exact (ofCommand_fails names entity _ _ _).of_inside (Line.inside_of_append_cons same)
      · split
        · exact ofAssignment_fails names line
        · exact .error (Line.marks_of_span rfl rfl)

/-- A `NewVal` line is refused inside it, and its value stands inside it. -/
theorem newVal?_fails (line : Line)
    : FailsOnly line.Locates (newVal? line)
      ∧ ∀ name value, newVal? line = .ok (some (name, value)) → value.Inside line := by
  unfold newVal?
  split
  · exact ⟨.ok _, nofun⟩
  · rename_i rest started
    have startSame := Text.afterStart?_eq_some_iff.mp started
    split
    · exact ⟨.ok _, nofun⟩
    · split
      · exact ⟨.error (line.locates_fault _), nofun⟩
      · rename_i before after cut
        obtain ⟨rfl, _⟩ := Text.cutAtFirst?_eq_some_iff.mp cut
        have counted : line.text.length = 6 + before.length + 1 + after.length := by
          rw [startSame]
          simp only [List.length_append, List.length_cons]
          change 6 + (before.length + (after.length + 1)) = _
          omega
        have beforeTaken : before ⊆ line.text := by
          intro c member
          rw [startSame]
          exact List.mem_append_right _ (List.mem_append_left _ member)
        have afterTaken : after ⊆ line.text := by
          intro c member
          rw [startSame]
          exact List.mem_append_right _ (List.mem_append_right _ (List.mem_cons_of_mem _ member))
        have named : (line.piece 6 before).Inside line :=
          Line.inside_piece (by omega) beforeTaken
        refine ⟨.bind ?_ fun _ _ => .ok _, fun name value done => ?_⟩
        · exact (identifierOf_fails (Line.marks_span _)).of_inside named
        · obtain ⟨_, _, done⟩ := bind_eq_ok_iff.mp done
          obtain ⟨_, rfl⟩ := Prod.mk.inj (Option.some.inj (Except.ok.inj done))
          exact Line.inside_piece (by omega) afterTaken

/-- The header of a loop is refused inside it. The type, the local and the filter are pieces of the
header.
-/
theorem EachHeader.ofLine_fails (names : Names) (header : Line)
    : FailsOnly header.Locates (EachHeader.ofLine names header) := by
  unfold EachHeader.ofLine
  split
  · rename_i before after cut
    obtain ⟨same, _⟩ := Text.cutAtFirst?_eq_some_iff.mp cut
    have whole := congrArg List.length same
    have parts :=
      congrArg List.length (List.takeWhile_append_dropWhile (p := (· ≠ '(')) (l := after))
    rw [List.length_append, List.length_cons] at whole
    rw [List.length_append] at parts
    have beforeTaken : before ⊆ header.text := by
      rw [same]
      exact List.subset_append_left _ _
    have afterTaken : after ⊆ header.text := by
      rw [same]
      exact fun c member => List.mem_append_right _ (List.mem_cons_of_mem _ member)
    have owner : (header.piece (before.length + 1) (after.takeWhile (· ≠ '('))).Inside header :=
      Line.inside_piece (by omega)
        (List.Subset.trans (List.takeWhile_sublist _).subset afterTaken)
    refine .bind ?_ fun name _ => ?_
    · exact (identifierOf_fails (Line.marks_span _)).of_inside
        (Line.inside_piece (by omega) beforeTaken)
    · dsimp only
      split
      · split
        · exact .ok _
        · refine .bind ?_ fun _ _ => .ok _
          refine (Expr.ofLine_fails _ _).of_inside (Line.inside_piece (by omega) ?_)
          exact List.Subset.trans (List.dropWhile_sublist _).subset afterTaken
      · exact .error ((Line.marks_span _).of_inside owner)
  · exact .error (header.locates_fault _)

end Update

-----------------------------------------------------------------------------------------
-- Blocks
-----------------------------------------------------------------------------------------

/-- The error points into one of the lines. -/
def LocatedIn (lines : List Line) (error : ParseError) : Prop :=
  ∃ line ∈ lines, line.Locates error

/-- The piece is cut from one of the lines. -/
def Line.InsideOne (lines : List Line) (piece : Line) : Prop := ∃ line ∈ lines, piece.Inside line

theorem FailsOnly.of_mem {α : Type} {line : Line} {lines : List Line}
    {result : Except ParseError α} (fails : FailsOnly line.Locates result) (member : line ∈ lines)
    : FailsOnly (LocatedIn lines) result :=
  fails.mono fun _ located => ⟨line, member, located⟩

theorem FailsOnly.of_insideOne {α : Type} {piece : Line} {lines : List Line}
    {result : Except ParseError α} (fails : FailsOnly piece.Locates result)
    (inside : piece.InsideOne lines)
    : FailsOnly (LocatedIn lines) result := by
  obtain ⟨line, member, inside⟩ := inside
  exact (fails.of_inside inside).of_mem member

/-- Where pieces of lines are refused, these lines are. -/
theorem FailsOnly.of_pieces {α : Type} {pieces lines : List Line} {result : Except ParseError α}
    (fails : FailsOnly (LocatedIn pieces) result)
    (inside : ∀ piece ∈ pieces, piece.InsideOne lines)
    : FailsOnly (LocatedIn lines) result := by
  intro error failed
  obtain ⟨piece, member, located⟩ := fails error failed
  obtain ⟨line, among, cut⟩ := inside piece member
  exact ⟨line, among, located.of_inside cut⟩

theorem FailsOnly.of_subset {α : Type} {some lines : List Line} {result : Except ParseError α}
    (fails : FailsOnly (LocatedIn some) result) (among : some ⊆ lines)
    : FailsOnly (LocatedIn lines) result :=
  fails.of_pieces fun piece member => ⟨piece, among member, .refl piece⟩

namespace Block

mutual

/-- The lines that a block holds. -/
def lines : Block → List Line
  | .plain line => [line]
  | .choice condition thenBlocks elseBlocks =>
      condition :: linesAll thenBlocks ++ linesAll elseBlocks
  | .each header body => header :: linesAll body
  | .repeated condition body => condition :: linesAll body

def linesAll : List Block → List Line
  | [] => []
  | block :: rest => lines block ++ linesAll rest

end

theorem mem_linesAll {line : Line} {blocks : List Block}
    : line ∈ linesAll blocks ↔ ∃ block ∈ blocks, line ∈ block.lines := by
  induction blocks with
  | nil => simp [linesAll]
  | cons block rest ih => simp [linesAll, ih]

/-- All lines of the blocks are cut from given lines. -/
def CutFrom (source : List Line) (blocks : List Block) : Prop :=
  ∀ line ∈ linesAll blocks, line.InsideOne source

/-- The line that a role keeps of its line is cut from it. -/
def Role.CutFrom (line : Line) : Role → Prop
  | .openCase kept | .openAll kept | .openRepeat kept => kept.Inside line
  | .close | .otherwise | .plain => True

section

variable {keyword : String} {line header : Line}

/-- What a keyword leaves of the line that it heads stands inside the line. -/
theorem Heads.inside (heads : Heads keyword line header) : header.Inside line := by
  obtain ⟨c, part, _, same, rfl⟩ := heads
  refine Line.inside_piece ?_ ?_
  · rw [same]
    simp only [List.length_append, List.length_cons, String.length_toList]
    omega
  · intro one member
    rw [same]
    exact List.mem_append_left _ (List.mem_append_right _ member)

theorem Parenthesized.inside (within : Parenthesized line header) : header.Inside line := by
  obtain ⟨part, same, rfl⟩ := within
  refine Line.inside_piece ?_ ?_
  · rw [same]
    simp only [List.length_append, List.length_cons]
    omega
  · intro one member
    rw [same]
    exact List.mem_cons_of_mem _ (List.mem_append_left _ member)

/-- What a line says in its role is a part of the line, by cases on the role. -/
theorem Plays.cutFrom {role : Role} (plays : Plays line role) : role.CutFrom line := by
  cases plays with
  | openCase heads => exact heads.inside
  | openAll heads within => exact within.inside.trans heads.inside
  | openRepeat heads => exact heads.inside
  | close | otherwise | plain => trivial

end

theorem headerAfter?_fails (keyword : String) (line : Line)
    : FailsOnly line.Locates (headerAfter? keyword line) := by
  unfold headerAfter?
  split
  · exact .ok _
  · split
    · exact .ok _
    · split
      · exact .error (line.locates_fault _)
      · exact .ok _

theorem withoutParentheses_fails (line : Line)
    : FailsOnly line.Locates (withoutParentheses line) := by
  unfold withoutParentheses
  split
  · split
    · exact .ok _
    · exact .error (line.locates_fault _)
  · exact .error (line.locates_fault _)

/-- A line whose role is not clear is refused inside it: each keyword is tried on the line in turn,
and only a parenthesis is cut off.
-/
theorem roleOf_fails (line : Line) : FailsOnly line.Locates (roleOf line) := by
  unfold roleOf
  split
  · exact .ok _
  · split
    · exact .ok _
    · refine .bind (headerAfter?_fails "Case" line) fun condition? _ => ?_
      cases condition? with
      | some condition => exact .ok _
      | none =>
          refine .bind (headerAfter?_fails "All" line) fun header? headerRead => ?_
          cases header? with
          | some header =>
              have kept := (headerAfter?_eq_some_iff.mp headerRead).inside
              exact .bind ((withoutParentheses_fails header).of_inside kept) fun _ _ => .ok _
          | none =>
              refine .bind (headerAfter?_fails "Repeat" line) fun condition? _ => ?_
              cases condition? <;> exact .ok _

/-- Lines are refused inside themselves or at the opener of a block around them, by induction on the
lines. The openers are among the lines read before, so both are lines of the source.
-/
theorem nestFrom_fails {source : List Line} {opened : List OpenBlock} {done : List Block}
    {lines : List Line} (among : lines ⊆ source) (openers : ∀ inner ∈ opened, inner.opener ∈ source)
    : FailsOnly (LocatedIn source) (nestFrom opened done lines) := by
  induction lines generalizing opened done with
  | nil =>
      cases opened with
      | nil => exact .ok _
      | cons inner outer =>
          exact .error ⟨_, openers inner List.mem_cons_self, inner.opener.locates_fault _⟩
  | cons line rest ih =>
      obtain ⟨inside, restAmong⟩ := List.cons_subset.mp among
      have opens (opening : Opening)
          : FailsOnly (LocatedIn source) (nestFrom (⟨line, opening, done⟩ :: opened) [] rest) :=
        ih restAmong (List.forall_mem_cons.mpr ⟨inside, openers⟩)
      rw [nestFrom]
      refine .bind ((roleOf_fails line).of_mem inside) fun role _ => ?_
      cases role with
      | plain => exact ih restAmong openers
      | openCase condition => exact opens (.choiceThen condition)
      | openAll header => exact opens (.each header)
      | openRepeat condition => exact opens (.repeated condition)
      | close =>
          cases opened with
          | nil => exact .error ⟨line, inside, line.locates_fault _⟩
          | cons inner outer => exact ih restAmong (List.forall_mem_cons.mp openers).2
      | otherwise =>
          cases opened with
          | nil => exact .error ⟨line, inside, line.locates_fault _⟩
          | cons inner outer =>
              obtain ⟨opener, opening, before⟩ := inner
              obtain ⟨openerInside, outerInside⟩ := List.forall_mem_cons.mp openers
              cases opening with
              | choiceThen condition =>
                  exact ih restAmong (List.forall_mem_cons.mpr ⟨openerInside, outerInside⟩)
              | choiceElse | each | repeated =>
                  exact .error ⟨opener, openerInside, opener.locates_fault _⟩

mutual

/-- The lines of a block are cut from those it was nested from, by induction on the block. A line of
it is a whole line of the source or what its keyword leaves of one.
-/
theorem insideOne_of_nestedFrom {source : List Line} (block : Block)
    (nested : block.NestedFrom source)
    : ∀ line ∈ block.lines, line.InsideOne source := by
  cases block with
  | plain line => exact List.forall_mem_singleton.mpr ⟨line, nested.1, .refl line⟩
  | choice condition thenBlocks elseBlocks =>
      obtain ⟨⟨opener, inside, found⟩, thenNested, elseNested⟩ := nested
      rw [lines, List.cons_append, List.forall_mem_cons, List.forall_mem_append]
      exact ⟨⟨opener, inside, (roleOf_eq_ok_iff.mp found).cutFrom⟩,
        cutFrom_of_allNestedFrom thenBlocks thenNested,
        cutFrom_of_allNestedFrom elseBlocks elseNested⟩
  | each header body =>
      obtain ⟨⟨opener, inside, found⟩, bodyNested⟩ := nested
      exact List.forall_mem_cons.mpr ⟨⟨opener, inside, (roleOf_eq_ok_iff.mp found).cutFrom⟩,
        cutFrom_of_allNestedFrom body bodyNested⟩
  | repeated condition body =>
      obtain ⟨⟨opener, inside, found⟩, bodyNested⟩ := nested
      exact List.forall_mem_cons.mpr ⟨⟨opener, inside, (roleOf_eq_ok_iff.mp found).cutFrom⟩,
        cutFrom_of_allNestedFrom body bodyNested⟩
termination_by structural block

theorem cutFrom_of_allNestedFrom {source : List Line} (blocks : List Block)
    (nested : AllNestedFrom source blocks)
    : CutFrom source blocks := by
  cases blocks with
  | nil => exact fun _ member => by cases member
  | cons block rest =>
      exact List.forall_mem_append.mpr ⟨insideOne_of_nestedFrom block nested.1,
        cutFrom_of_allNestedFrom rest nested.2⟩
termination_by structural blocks

end

/-- Blocks are refused inside the lines they are nested from, and hold pieces of them only. -/
theorem nest_fails (lines : List Line)
    : FailsOnly (LocatedIn lines) (nest lines)
      ∧ ∀ blocks, nest lines = .ok blocks → CutFrom lines blocks :=
  ⟨nestFrom_fails (List.Subset.refl lines) (by simp), fun blocks read =>
    cutFrom_of_allNestedFrom blocks (allNestedFrom_of_nest read)⟩

end Block

-----------------------------------------------------------------------------------------
-- Effects
-----------------------------------------------------------------------------------------

/-- Lines that are to be expressions are refused inside one of them, by induction on the lines. -/
theorem Expr.ofLines_fails (names : Names) (lines : List Line)
    : FailsOnly (LocatedIn lines) (Expr.ofLines names lines) := by
  induction lines with
  | nil => exact .ok _
  | cons line rest ih =>
      refine .bind ((Expr.ofLine_fails names line).of_mem List.mem_cons_self) fun _ _ => ?_
      exact .bind (ih.of_subset (List.subset_cons_self _ _)) fun _ _ => .ok _

namespace Update

mutual

/-- A block is refused inside one of its lines, by induction on the nesting of blocks. -/
theorem ofBlock_fails (names : Names) (block : Block)
    : FailsOnly (LocatedIn block.lines) (ofBlock names block) := by
  cases block with
  | plain line =>
      rw [ofBlock]
      exact (ofLine_fails names line).of_mem (by simp [Block.lines])
  | choice condition thenBlocks elseBlocks =>
      rw [ofBlock]
      refine .bind ((Expr.ofLine_fails names condition).of_mem (by simp [Block.lines]))
        fun _ _ => ?_
      refine .bind ((ofBlocks_fails names thenBlocks).of_subset ?_) fun _ _ => ?_
      · simp [Block.lines]
      · refine .bind ((ofBlocks_fails names elseBlocks).of_subset ?_) fun _ _ => .ok _
        rw [Block.lines]
        exact List.subset_append_right _ _
  | each header body =>
      rw [ofBlock]
      refine .bind ((EachHeader.ofLine_fails names header).of_mem (by simp [Block.lines]))
        fun _ _ => ?_
      refine .bind ((ofBlocks_fails _ body).of_subset ?_) fun _ _ => .ok _
      simp [Block.lines]
  | repeated condition body =>
      rw [ofBlock]
      refine .bind ((Expr.ofLine_fails names condition).of_mem (by simp [Block.lines]))
        fun _ _ => ?_
      refine .bind ((ofBlocks_fails names body).of_subset ?_) fun _ _ => .ok _
      simp [Block.lines]
termination_by structural block

theorem ofBlocks_fails (names : Names) (blocks : List Block)
    : FailsOnly (LocatedIn (Block.linesAll blocks)) (ofBlocks names blocks) := by
  cases blocks with
  | nil =>
      rw [ofBlocks]
      exact .ok _
  | cons block rest =>
      rw [ofBlocks]
      have later (names : Names)
          : FailsOnly (LocatedIn (Block.linesAll (block :: rest))) (ofBlocks names rest) :=
        (ofBlocks_fails names rest).of_subset (by simp [Block.linesAll])
      have plain (line : Line) (same : block = .plain line)
          : line ∈ Block.linesAll (block :: rest) := by
        simp [same, Block.linesAll, Block.lines]
      refine .bind ?_ fun named? found => ?_
      · cases block with
        | plain line => exact (newVal?_fails line).1.of_mem (plain line rfl)
        | choice | each | repeated => exact .ok _
      · cases named? with
        | some named =>
            obtain ⟨name, valueLine⟩ := named
            refine .bind ?_ fun _ _ => .bind (later _) fun _ _ => .ok _
            cases block with
            | plain line =>
                refine (Expr.ofLine_fails names valueLine).of_insideOne ?_
                exact ⟨line, plain line rfl, (newVal?_fails line).2 name valueLine found⟩
            | choice | each | repeated => cases found
        | none =>
            refine .bind ((ofBlock_fails names block).of_subset ?_) fun _ _ =>
              .bind (later _) fun _ _ => .ok _
            simp [Block.linesAll]
termination_by structural blocks

end

/-- Effects are refused inside one of the lines they are nested from, both where the lines do not
nest and where a block is no effect.
-/
theorem ofLines_fails (names : Names) (lines : List Line)
    : FailsOnly (LocatedIn lines) (ofLines names lines) := by
  obtain ⟨fails, cut⟩ := Block.nest_fails lines
  exact .bind fails fun blocks nested =>
    .bind ((ofBlocks_fails names blocks).of_pieces (cut blocks nested)) fun _ _ => .ok _

end Update

theorem Block.firstLine_mem_lines (block : Block) : block.firstLine ∈ block.lines := by
  cases block <;> simp [Block.firstLine, Block.lines]

namespace Cost

/-- The blocks of a cost are refused inside one of their lines, by cases on the last block, which
has to be a line with the value.
-/
theorem ofBlocks_fails (names : Names) (blocks : List Block)
    : FailsOnly (LocatedIn (Block.linesAll blocks)) (ofBlocks names blocks) := by
  unfold ofBlocks
  split
  · exact .ok _
  · rename_i valueLine last
    have member := List.mem_of_getLast? last
    refine .bind ((Update.ofBlocks_fails names _).of_subset ?_) fun _ _ => ?_
    · intro line inside
      obtain ⟨block, among, held⟩ := Block.mem_linesAll.mp inside
      exact Block.mem_linesAll.mpr ⟨block, List.dropLast_subset _ among, held⟩
    · refine .bind ((Expr.ofLine_fails _ valueLine).of_mem ?_) fun _ _ => .ok _
      exact Block.mem_linesAll.mpr ⟨_, member, by simp [Block.lines]⟩
  · rename_i block _ last
    refine .error ⟨block.firstLine, ?_, block.firstLine.locates_fault _⟩
    exact Block.mem_linesAll.mpr
      ⟨block, List.mem_of_getLast? last, Block.firstLine_mem_lines block⟩

/-- A cost is refused inside one of its lines. -/
theorem ofLines_fails (names : Names) (lines : List Line)
    : FailsOnly (LocatedIn lines) (ofLines names lines) := by
  obtain ⟨fails, cut⟩ := Block.nest_fails lines
  exact .bind fails fun blocks nested => (ofBlocks_fails names blocks).of_pieces (cut blocks nested)

end Cost

end Dispatch
