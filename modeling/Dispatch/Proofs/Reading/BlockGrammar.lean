import Dispatch.Proofs.Reading.LineRoles
import Mathlib.Data.List.Forall2

/-!
The grammar of blocks. Lines nest into blocks exactly when they are derived by it: plain lines, and
headers with the lines of their bodies up to the `End` that closes them, where the body of a `Case`
may turn once at an `Else`. The derivation is unique, and its blocks keep every plain line and what
stands in every header, in the order of the lines.
-/

namespace Dispatch

namespace Block

-----------------------------------------------------------------------------------------
-- Headers
-----------------------------------------------------------------------------------------

/-- The header is what stands between the keyword at the start of the line and the colon at its
end, where a blank or an opening parenthesis comes after the keyword.
-/
def Heads (keyword : String) (line header : Line) : Prop :=
  ∃ c part, Text.opensHeader c = true ∧ line.text = keyword.toList ++ c :: part ++ [':']
    ∧ header = line.piece keyword.length (c :: part)

/-- The inside is what stands between the parentheses at the start and the end of the line. -/
def Parenthesized (line inside : Line) : Prop :=
  ∃ part, line.text = '(' :: (part ++ [')']) ∧ inside = line.piece 1 part

variable {keyword : String} {line header inside : Line} {role : Role}

/-- A line that opens a block has a header if a colon ends it, and is refused for the missing colon
if not.
-/
theorem headerAfter?_of_opens {c : Char} {rest : List Char} (opens : Text.opensHeader c = true)
    (same : line.text = keyword.toList ++ c :: rest)
    : headerAfter? keyword line
      = (Text.beforeEnd? ':' (c :: rest)).elim
          (.error (.ofFault (.headerWithoutColon keyword) line.span))
          (.ok <| some <| line.piece keyword.length ·) := by
  unfold headerAfter?
  rw [Text.afterStart?_eq_some_iff.mpr same]
  change (if !(Text.opensHeader c) then _ else _) = _
  rw [opens, Bool.not_true, if_neg Bool.false_ne_true]
  cases Text.beforeEnd? ':' (c :: rest) with
  | none | some => rfl

/-- A keyword has a header on a line exactly when it heads the line: a character that opens a header
comes behind it, and a colon ends the line.
-/
theorem headerAfter?_eq_some_iff
    : headerAfter? keyword line = .ok (some header) ↔ Heads keyword line header := by
  constructor
  · intro found
    have leads : Text.leads keyword Text.opensHeader line.text = true := by
      rw [← Bool.not_eq_false, ← headerAfter?_eq_none_iff, found]
      intro same
      cases same
    obtain ⟨c, rest, same, opens⟩ := Text.leads_eq_true_iff.mp leads
    rw [headerAfter?_of_opens opens same] at found
    cases ended : Text.beforeEnd? ':' (c :: rest) with
    | none =>
        rw [ended] at found
        cases found
    | some part =>
        rw [ended] at found
        obtain rfl := Option.some.inj (Except.ok.inj found)
        have whole := Text.beforeEnd?_eq_some_iff.mp ended
        cases part with
        | nil =>
            -- The colon itself does not come right after the keyword.
            obtain ⟨rfl, _⟩ := List.cons.inj whole
            cases opens
        | cons first part =>
            obtain ⟨rfl, rfl⟩ := List.cons.inj whole
            exact ⟨c, part, opens, by rw [same, List.append_assoc]; rfl, rfl⟩
  · rintro ⟨c, part, opens, same, rfl⟩
    have ended : Text.beforeEnd? ':' (c :: (part ++ [':'])) = some (c :: part) :=
      Text.beforeEnd?_eq_some_iff.mpr rfl
    have whole : line.text = keyword.toList ++ c :: (part ++ [':']) := by
      rw [same, List.append_assoc]
      rfl
    rw [headerAfter?_of_opens opens whole, ended]
    rfl

/-- The header of a loop over ids has its parentheses taken off exactly when it is in parentheses.
-/
theorem withoutParentheses_eq_ok_iff
    : withoutParentheses line = .ok inside ↔ Parenthesized line inside := by
  constructor
  · intro bare
    unfold withoutParentheses at bare
    split at bare
    · rename_i rest same
      split at bare
      · rename_i part ended
        obtain rfl := Except.ok.inj bare
        exact ⟨part, by rw [same, Text.beforeEnd?_eq_some_iff.mp ended], rfl⟩
      · cases bare
    · cases bare
  · rintro ⟨part, same, rfl⟩
    have ended : Text.beforeEnd? ')' (part ++ [')']) = some part :=
      Text.beforeEnd?_eq_some_iff.mpr rfl
    simp only [withoutParentheses, same, ended]

-----------------------------------------------------------------------------------------
-- Lines by their texts
-----------------------------------------------------------------------------------------

/-- Whether the line ends a body. -/
def terminates (line : Line) : Bool :=
  line.holds "End" || line.holds "Else:" || line.holds "Else"

/-- The part that a line plays by its text. -/
inductive Plays (line : Line) : Role → Prop where
  | close (holds : line.text = "End".toList) : Plays line .close
  | otherwise (holds : line.text = "Else".toList ∨ line.text = "Else:".toList)
      : Plays line .otherwise
  | openCase {condition : Line} (heads : Heads "Case" line condition)
      : Plays line (.openCase condition)
  | openAll {outer header : Line} (heads : Heads "All" line outer)
      (within : Parenthesized outer header)
      : Plays line (.openAll header)
  | openRepeat {condition : Line} (heads : Heads "Repeat" line condition)
      : Plays line (.openRepeat condition)
  | plain (runs : terminates line = false)
      (opensNone
        : ∀ keyword ∈ Text.blockKeywords, ∀ c rest, line.text = keyword.toList ++ c :: rest →
            Text.opensHeader c = false)
      : Plays line .plain

/-- A line that a keyword of a block heads does not end a body. -/
theorem terminates_eq_false_of_heads (known : keyword ∈ Text.blockKeywords)
    (heads : Heads keyword line header)
    : terminates line = false := by
  obtain ⟨c, part, _, same, _⟩ := heads
  rw [Text.blockKeywords, List.mem_cons, List.mem_cons, List.mem_singleton] at known
  unfold terminates Line.holds
  rw [same]
  rcases known with rfl | rfl | rfl
  · rfl
  · rfl
  · rfl

theorem roleOf_of_terminates_eq_false (runs : terminates line = false)
    : roleOf line = (do
        if let some condition ← headerAfter? "Case" line then return .openCase condition
        if let some header ← headerAfter? "All" line then
          return .openAll (← withoutParentheses header)
        if let some condition ← headerAfter? "Repeat" line then return .openRepeat condition
        return .plain) := by
  unfold terminates at runs
  rw [Bool.or_assoc, Bool.or_eq_false_iff] at runs
  unfold roleOf
  rw [runs.1, runs.2]
  rfl

theorem opensBlock_eq_false_iff_forall
    : Text.opensBlock line.text = false
      ↔ ∀ keyword ∈ Text.blockKeywords, ∀ c rest, line.text = keyword.toList ++ c :: rest →
          Text.opensHeader c = false := by
  rw [Text.opensBlock, List.any_eq_false]
  refine forall₂_congr fun keyword _ => ?_
  rw [Text.leads_eq_true_iff]
  simp

theorem roleOf_otherwise (holds : line.text = "Else".toList ∨ line.text = "Else:".toList)
    : roleOf line = .ok .otherwise := by
  rcases holds with bare | marked
  · have notEnd : line.holds "End" = false := decide_eq_false (by rw [bare]; decide)
    have held : line.holds "Else" = true := decide_eq_true bare
    unfold roleOf
    rw [notEnd, held, Bool.or_true]
    rfl
  · exact roleOf_else marked

/-- A line that ends a body plays its part: it closes a block or turns to the other body of a
choice.
-/
theorem plays_of_terminates (ends : terminates line = true) (found : roleOf line = .ok role)
    : Plays line role := by
  have turns (holds : line.text = "Else".toList ∨ line.text = "Else:".toList)
      : Plays line role := by
    obtain rfl := Except.ok.inj ((roleOf_otherwise holds).symm.trans found)
    exact .otherwise holds
  rw [terminates, Bool.or_eq_true, Bool.or_eq_true] at ends
  rcases ends with (close | marked) | bare
  · have holds := of_decide_eq_true close
    obtain rfl := Except.ok.inj ((roleOf_end holds).symm.trans found)
    exact .close holds
  · exact turns (.inr (of_decide_eq_true marked))
  · exact turns (.inl (of_decide_eq_true bare))

/-- A line that does not end a body plays its part. The keywords are tried in order, and no line is
headed by two of them.
-/
theorem plays_of_runs (runs : terminates line = false) (found : roleOf line = .ok role)
    : Plays line role := by
  rw [roleOf_of_terminates_eq_false runs] at found
  obtain ⟨condition?, caseRead, found⟩ := bind_eq_ok_iff.mp found
  cases condition? with
  | some condition =>
      obtain rfl := Except.ok.inj found
      exact .openCase (headerAfter?_eq_some_iff.mp caseRead)
  | none =>
      obtain ⟨outer?, allRead, found⟩ := bind_eq_ok_iff.mp found
      cases outer? with
      | some outer =>
          obtain ⟨header, bare, found⟩ := bind_eq_ok_iff.mp found
          obtain rfl := Except.ok.inj found
          exact .openAll (headerAfter?_eq_some_iff.mp allRead)
            (withoutParentheses_eq_ok_iff.mp bare)
      | none =>
          obtain ⟨condition?, repeatRead, found⟩ := bind_eq_ok_iff.mp found
          cases condition? with
          | some condition =>
              obtain rfl := Except.ok.inj found
              exact .openRepeat (headerAfter?_eq_some_iff.mp repeatRead)
          | none =>
              obtain rfl := Except.ok.inj found
              have closed := opensBlock_eq_false_iff.mpr ⟨caseRead, allRead, repeatRead⟩
              exact .plain runs (opensBlock_eq_false_iff_forall.mp closed)

/-- The role of a line is the part that it plays by its text. The reader tries the keywords in turn,
the rules of the grammar name one each.
-/
theorem roleOf_eq_ok_iff : roleOf line = .ok role ↔ Plays line role := by
  constructor
  · intro found
    cases terminator : terminates line with
    | true => exact plays_of_terminates terminator found
    | false => exact plays_of_runs terminator found
  · intro plays
    cases plays with
    | close holds => exact roleOf_end holds
    | otherwise holds => exact roleOf_otherwise holds
    | openCase heads =>
        rw [roleOf_of_terminates_eq_false (terminates_eq_false_of_heads (by decide) heads),
          headerAfter?_eq_some_iff.mpr heads]
        rfl
    | openAll heads within =>
        have notCase : headerAfter? "Case" line = .ok none := by
          obtain ⟨_, _, _, same, _⟩ := heads
          exact headerAfter?_eq_none_iff.mpr (by rw [same]; rfl)
        rw [roleOf_of_terminates_eq_false (terminates_eq_false_of_heads (by decide) heads), notCase,
          headerAfter?_eq_some_iff.mpr heads]
        exact bind_eq_ok_iff.mpr ⟨_, rfl, bind_eq_ok_iff.mpr ⟨_, rfl,
          bind_eq_ok_iff.mpr ⟨_, withoutParentheses_eq_ok_iff.mpr within, rfl⟩⟩⟩
    | openRepeat heads =>
        obtain ⟨notCase, notAll⟩
            : headerAfter? "Case" line = .ok none ∧ headerAfter? "All" line = .ok none := by
          obtain ⟨_, _, _, same, _⟩ := heads
          exact ⟨headerAfter?_eq_none_iff.mpr (by rw [same]; rfl),
            headerAfter?_eq_none_iff.mpr (by rw [same]; rfl)⟩
        rw [roleOf_of_terminates_eq_false (terminates_eq_false_of_heads (by decide) heads), notCase,
          notAll, headerAfter?_eq_some_iff.mpr heads]
        rfl
    | plain runs opensNone =>
        obtain ⟨notCase, notAll, notRepeat⟩ :=
          opensBlock_eq_false_iff.mp (opensBlock_eq_false_iff_forall.mpr opensNone)
        rw [roleOf_of_terminates_eq_false runs, notCase, notAll, notRepeat]
        rfl

/-- A line plays one part only, as there is one role that is found for it. -/
theorem Plays.unique {other : Role} (plays : Plays line role) (again : Plays line other)
    : role = other :=
  Except.ok.inj ((roleOf_eq_ok_iff.mpr plays).symm.trans (roleOf_eq_ok_iff.mpr again))

-----------------------------------------------------------------------------------------
-- Derivations
-----------------------------------------------------------------------------------------

/-- A derivation of lines by the grammar: no line, or a plain line or a block before others. -/
inductive Nesting where
  | nil
  | plain (line : Line) (plays : Plays line .plain) (rest : Nesting)
  /-- A header, the lines of the body and the line that closes it. -/
  | block (opener : Line) (role : Role) (opening : Opening) (plays : Plays opener role)
      (opens : role.opening? = some opening) (body : Nesting) (last : Line)
      (closes : Plays last .close) (rest : Nesting)
  /-- A choice between the lines before and after an `Else`. -/
  | choice (opener condition : Line) (plays : Plays opener (.openCase condition))
      (thenBody : Nesting) (middle : Line) (turns : Plays middle .otherwise) (elseBody : Nesting)
      (last : Line) (closes : Plays last .close) (rest : Nesting)

/-- Nothing follows, or a line that ends a body. -/
inductive Stops : List Line → Prop where
  | nil : Stops []
  | close {last : Line} (closes : Plays last .close) (rest : List Line) : Stops (last :: rest)
  | otherwise {middle : Line} (turns : Plays middle .otherwise) (rest : List Line)
      : Stops (middle :: rest)

namespace Nesting

/-- The derived lines. -/
def lines : Nesting → List Line
  | nil => []
  | plain line _ rest => line :: rest.lines
  | block opener _ _ _ _ body last _ rest => opener :: body.lines ++ last :: rest.lines
  | choice opener _ _ thenBody middle _ elseBody last _ rest =>
      opener :: thenBody.lines ++ middle :: elseBody.lines ++ last :: rest.lines

/-- The blocks of the derived lines. -/
def blocks : Nesting → List Block
  | nil => []
  | plain line _ rest => .plain line :: rest.blocks
  | block _ _ opening _ _ body _ _ rest => opening.close body.blocks :: rest.blocks
  | choice _ condition _ thenBody _ _ elseBody _ _ rest =>
      .choice condition thenBody.blocks elseBody.blocks :: rest.blocks

/-- Wherever derived lines stand, they nest into their blocks; by induction on the derivation. The
blocks that are open around them and those before them are arbitrary.
-/
theorem nests (nesting : Nesting) : Nests nesting.lines nesting.blocks := by
  induction nesting with
  | nil => exact .nil
  | plain line plays rest restNests =>
      exact (Nests.plain (roleOf_eq_ok_iff.mpr plays)).append restNests
  | block opener role opening plays opens body last closes rest bodyNests restNests =>
      have first := Nests.block (roleOf_eq_ok_iff.mpr plays) opens bodyNests
        (roleOf_eq_ok_iff.mpr closes)
      rw [lines, List.append_cons]
      exact first.append restNests
  | choice opener condition plays thenBody middle turns elseBody last closes rest thenNests
      elseNests restNests =>
      have first := Nests.choice (roleOf_eq_ok_iff.mpr plays) thenNests (roleOf_eq_ok_iff.mpr turns)
        elseNests (roleOf_eq_ok_iff.mpr closes)
      rw [lines, List.append_cons]
      exact first.append restNests

section

variable (opener condition middle last : Line) (role : Role) (opening : Opening)
  (body elseBody tail : Nesting) (rest : List Line)

theorem lines_block_append (plays : Plays opener role) (opens : role.opening? = some opening)
    (closes : Plays last .close)
    : (block opener role opening plays opens body last closes tail).lines ++ rest
      = opener :: (body.lines ++ last :: (tail.lines ++ rest)) := by
  simp [lines]

theorem lines_choice_append (plays : Plays opener (.openCase condition))
    (turns : Plays middle .otherwise) (closes : Plays last .close)
    : (choice opener condition plays body middle turns elseBody last closes tail).lines ++ rest
      = opener :: (body.lines ++ middle :: (elseBody.lines ++ last :: (tail.lines ++ rest))) := by
  simp [lines]

end

/-- A line that ends a body is not the first of derived lines. -/
theorem eq_nil_of_stops {nesting : Nesting} {rest more : List Line} (stops : Stops more)
    (same : nesting.lines ++ rest = more)
    : nesting = nil := by
  have ends {line : Line} {tail : List Line} (stops : Stops (line :: tail)) {role : Role}
      (plays : Plays line role)
      : role = .close ∨ role = .otherwise := by
    cases stops with
    | close closes => exact .inl (plays.unique closes)
    | otherwise turns => exact .inr (plays.unique turns)
  subst same
  cases nesting with
  | nil => rfl
  | plain line plays tail => rcases ends stops plays with same | same <;> cases same
  | block opener role opening plays opens body last closes tail =>
      rw [lines_block_append] at stops
      rcases ends stops plays with rfl | rfl <;> cases opens
  | choice opener condition plays thenBody middle turns elseBody last closes tail =>
      rw [lines_choice_append] at stops
      rcases ends stops plays with same | same <;> cases same

/-- Derived lines before one that ends a body have one derivation, by induction on it.

The first lines agree, so they play one part; the bodies agree up to the lines that end them, and
these lines play one part as well.
-/
theorem eq_of_append {nesting other : Nesting} {rest more : List Line}
    (stops : Stops rest) (stopsToo : Stops more)
    (same : nesting.lines ++ rest = other.lines ++ more)
    : nesting = other ∧ rest = more := by
  induction nesting generalizing other rest more with
  | nil =>
      obtain rfl := eq_nil_of_stops stops same.symm
      exact ⟨rfl, same⟩
  | plain line plays tail tailUnique =>
      cases other with
      | nil => cases eq_nil_of_stops stopsToo same
      | plain line' plays' tail' =>
          obtain ⟨rfl, after⟩ := List.cons.inj same
          obtain ⟨rfl, rfl⟩ := tailUnique stops stopsToo after
          exact ⟨rfl, rfl⟩
      | block opener role opening plays' opens =>
          obtain ⟨rfl, _⟩ := List.cons.inj same
          obtain rfl := plays.unique plays'
          cases opens
      | choice opener condition plays' =>
          obtain ⟨rfl, _⟩ := List.cons.inj same
          cases plays.unique plays'
  | block opener role opening plays opens body last closes tail bodyUnique tailUnique =>
      cases other with
      | nil => cases eq_nil_of_stops stopsToo same
      | plain line' plays' tail' =>
          obtain ⟨rfl, _⟩ := List.cons.inj same
          obtain rfl := plays.unique plays'
          cases opens
      | block opener' role' opening' plays' opens' body' last' closes' tail' =>
          rw [lines_block_append, lines_block_append] at same
          obtain ⟨rfl, inside⟩ := List.cons.inj same
          obtain rfl := plays.unique plays'
          obtain rfl := Option.some.inj (opens.symm.trans opens')
          obtain ⟨rfl, ending⟩ := bodyUnique (.close closes _) (.close closes' _) inside
          obtain ⟨rfl, after⟩ := List.cons.inj ending
          obtain ⟨rfl, rfl⟩ := tailUnique stops stopsToo after
          exact ⟨rfl, rfl⟩
      | choice opener' condition plays' thenBody middle turns elseBody last' closes' tail' =>
          rw [lines_block_append, lines_choice_append] at same
          obtain ⟨rfl, inside⟩ := List.cons.inj same
          obtain ⟨_, ending⟩ := bodyUnique (.close closes _) (.otherwise turns _) inside
          obtain ⟨rfl, _⟩ := List.cons.inj ending
          cases closes.unique turns
  | choice opener condition plays thenBody middle turns elseBody last closes tail thenUnique
      elseUnique tailUnique =>
      cases other with
      | nil => cases eq_nil_of_stops stopsToo same
      | plain line' plays' tail' =>
          obtain ⟨rfl, _⟩ := List.cons.inj same
          cases plays.unique plays'
      | block opener' role' opening' plays' opens' body' last' closes' tail' =>
          rw [lines_choice_append, lines_block_append] at same
          obtain ⟨rfl, inside⟩ := List.cons.inj same
          obtain ⟨_, ending⟩ := thenUnique (.otherwise turns _) (.close closes' _) inside
          obtain ⟨rfl, _⟩ := List.cons.inj ending
          cases closes'.unique turns
      | choice opener' condition' plays' thenBody' middle' turns' elseBody' last' closes' tail' =>
          rw [lines_choice_append, lines_choice_append] at same
          obtain ⟨rfl, inside⟩ := List.cons.inj same
          obtain rfl := Role.openCase.inj (plays.unique plays')
          obtain ⟨rfl, turning⟩ := thenUnique (.otherwise turns _) (.otherwise turns' _) inside
          obtain ⟨rfl, inElse⟩ := List.cons.inj turning
          obtain ⟨rfl, ending⟩ := elseUnique (.close closes _) (.close closes' _) inElse
          obtain ⟨rfl, after⟩ := List.cons.inj ending
          obtain ⟨rfl, rfl⟩ := tailUnique stops stopsToo after
          exact ⟨rfl, rfl⟩

end Nesting

/-- Only the first body of a choice turns into another. -/
theorem choiceThen_of_otherwise {middle : Line} (turns : roleOf middle = .ok .otherwise)
    {inner : OpenBlock} {outer : List OpenBlock} {done blocks : List Block} {rest : List Line}
    (read : nestFrom (inner :: outer) done (middle :: rest) = .ok blocks)
    : ∃ condition, inner.opening = .choiceThen condition
        ∧ nestFrom (⟨inner.opener, .choiceElse condition done.reverse, inner.before⟩ :: outer) []
            rest
          = .ok blocks := by
  rw [nestFrom, turns] at read
  obtain ⟨opener, opening, before⟩ := inner
  cases opening with
  | choiceThen condition => exact ⟨condition, rfl, read⟩
  | choiceElse | each | repeated => cases read

theorem openCase_of_choiceThen {condition : Line}
    (opens : role.opening? = some (.choiceThen condition))
    : role = .openCase condition := by
  cases role with
  | openCase => exact congrArg Role.openCase (Opening.choiceThen.inj (Option.some.inj opens))
  | openAll | openRepeat | close | otherwise | plain => cases opens

/-- Lines that nest begin with derived lines, up to one that ends the innermost body; by induction
on the number of lines. The step reads one block: the body that its opener begins is derived, and
ends at the line that closes it.
-/
theorem exists_nesting {lines : List Line} {opened : List OpenBlock} {done blocks : List Block}
    (read : nestFrom opened done lines = .ok blocks)
    : ∃ nesting : Nesting, ∃ rest, lines = nesting.lines ++ rest ∧ Stops rest
        ∧ nestFrom opened (nesting.blocks.reverse ++ done) rest = .ok blocks := by
  cases lines with
  | nil => exact ⟨.nil, [], rfl, .nil, read⟩
  | cons line rest =>
      have stepped := read
      rw [nestFrom] at stepped
      obtain ⟨role, found, stepped⟩ := bind_eq_ok_iff.mp stepped
      have plays := roleOf_eq_ok_iff.mp found
      cases opens : role.opening? with
      | none =>
          cases role with
          | close => exact ⟨.nil, _, rfl, .close plays _, read⟩
          | otherwise => exact ⟨.nil, _, rfl, .otherwise plays _, read⟩
          | plain =>
              obtain ⟨tail, after, rfl, stops, done⟩ := exists_nesting stepped
              refine ⟨.plain line plays tail, after, rfl, stops, ?_⟩
              rwa [Nesting.blocks, List.reverse_cons, List.append_assoc]
          | openCase | openAll | openRepeat => cases opens
      | some opening =>
          clear stepped
          rw [nestFrom_opening found opens] at read
          obtain ⟨body, ending, rfl, ends, inside⟩ := exists_nesting read
          rw [List.append_nil] at inside
          cases ends with
          | nil => cases inside
          | @close last closes rest =>
              rw [nestFrom_close (roleOf_eq_ok_iff.mpr closes), List.reverse_reverse] at inside
              obtain ⟨tail, after, rfl, stops, done⟩ := exists_nesting inside
              refine ⟨.block line role opening plays opens body last closes tail, after, ?_,
                stops, ?_⟩
              · rw [Nesting.lines_block_append]
              · rwa [Nesting.blocks, List.reverse_cons, List.append_assoc]
          | @otherwise middle turns rest =>
              obtain ⟨condition, same, turned⟩ :=
                choiceThen_of_otherwise (roleOf_eq_ok_iff.mpr turns) inside
              rw [List.reverse_reverse] at turned
              obtain rfl := openCase_of_choiceThen (opens.trans (congrArg some same))
              obtain ⟨elseBody, ending, rfl, ends, inElse⟩ := exists_nesting turned
              rw [List.append_nil] at inElse
              cases ends with
              | nil => cases inElse
              | @close last closes rest =>
                  rw [nestFrom_close (roleOf_eq_ok_iff.mpr closes), List.reverse_reverse] at inElse
                  obtain ⟨tail, after, rfl, stops, done⟩ := exists_nesting inElse
                  refine ⟨.choice line condition plays body middle turns elseBody last closes tail,
                    after, ?_, stops, ?_⟩
                  · rw [Nesting.lines_choice_append]
                  · rwa [Nesting.blocks, List.reverse_cons, List.append_assoc]
              | otherwise again =>
                  -- The second body of a choice does not turn.
                  obtain ⟨_, same, _⟩ := choiceThen_of_otherwise (roleOf_eq_ok_iff.mpr again) inElse
                  cases same
termination_by lines.length

/-- Lines that nest are derived as a whole. With no block open, none of them can end a body that is
left.
-/
theorem exists_nesting_of_nest {lines : List Line} {blocks : List Block}
    (read : nest lines = .ok blocks)
    : ∃ nesting : Nesting, nesting.lines = lines := by
  obtain ⟨nesting, rest, rfl, stops, read⟩ := exists_nesting read
  refine ⟨nesting, ?_⟩
  cases stops with
  | nil => rw [List.append_nil]
  | close closes =>
      rw [nestFrom, roleOf_eq_ok_iff.mpr closes] at read
      cases read
  | otherwise turns =>
      rw [nestFrom, roleOf_eq_ok_iff.mpr turns] at read
      cases read

-----------------------------------------------------------------------------------------
-- Sources of blocks
-----------------------------------------------------------------------------------------

/-- A block that one of the lines opens is nested from them if its body is, by cases on the part of
the line.
-/
theorem nestedFrom_close {source : List Line} (inside : line ∈ source) (plays : Plays line role)
    {opening : Opening} (opens : role.opening? = some opening) {body : List Block}
    (nested : AllNestedFrom source body)
    : (opening.close body).NestedFrom source := by
  have found := roleOf_eq_ok_iff.mpr plays
  cases role with
  | openCase condition =>
      obtain rfl := Option.some.inj opens
      exact ⟨⟨line, inside, found⟩, nested, trivial⟩
  | openAll header =>
      obtain rfl := Option.some.inj opens
      exact ⟨⟨line, inside, found⟩, nested⟩
  | openRepeat condition =>
      obtain rfl := Option.some.inj opens
      exact ⟨⟨line, inside, found⟩, nested⟩
  | close | otherwise | plain => cases opens

/-- The blocks of derived lines are nested from any lines among which these are; by induction on the
derivation.
-/
theorem allNestedFrom_nesting {source : List Line} (nesting : Nesting)
    (among : nesting.lines ⊆ source)
    : AllNestedFrom source nesting.blocks := by
  induction nesting with
  | nil => trivial
  | plain line plays tail tailNested =>
      obtain ⟨inside, tailAmong⟩ := List.cons_subset.mp among
      exact ⟨⟨inside, roleOf_eq_ok_iff.mpr plays⟩, tailNested tailAmong⟩
  | block opener role opening plays opens body last closes tail bodyNested tailNested =>
      simp only [Nesting.lines, List.cons_append, List.cons_subset, List.append_subset] at among
      obtain ⟨inside, bodyAmong, _, tailAmong⟩ := among
      exact ⟨nestedFrom_close inside plays opens (bodyNested bodyAmong), tailNested tailAmong⟩
  | choice opener condition plays thenBody middle turns elseBody last closes tail thenNested
      elseNested tailNested =>
      simp only [Nesting.lines, List.cons_append, List.cons_subset, List.append_subset] at among
      obtain ⟨inside, ⟨thenAmong, _, elseAmong⟩, _, tailAmong⟩ := among
      exact ⟨⟨⟨opener, inside, roleOf_eq_ok_iff.mpr plays⟩, thenNested thenAmong,
        elseNested elseAmong⟩, tailNested tailAmong⟩

/-- Blocks hold nothing but the lines they were nested from, as these lines are derived. -/
theorem allNestedFrom_of_nest {lines : List Line} {blocks : List Block}
    (read : nest lines = .ok blocks)
    : AllNestedFrom lines blocks := by
  obtain ⟨nesting, rfl⟩ := exists_nesting_of_nest read
  obtain rfl := Except.ok.inj ((nest_of_nests nesting.nests).symm.trans read)
  exact allNestedFrom_nesting nesting (List.Subset.refl _)

-----------------------------------------------------------------------------------------
-- Kept lines
-----------------------------------------------------------------------------------------

mutual

/-- The plain lines and headers of a block from left to right. -/
def kept : Block → List Line
  | .plain line => [line]
  | .choice condition thenBlocks elseBlocks =>
      condition :: allKept thenBlocks ++ allKept elseBlocks
  | .each header body => header :: allKept body
  | .repeated condition body => condition :: allKept body

def allKept : List Block → List Line
  | [] => []
  | block :: rest => block.kept ++ allKept rest

end

/-- What blocks keep of a line: the whole line where it is plain, and else the header. -/
inductive Keeps (line : Line) : Line → Prop where
  | plain (plays : Plays line .plain) : Keeps line line
  | choice {condition : Line} (plays : Plays line (.openCase condition)) : Keeps line condition
  | each {header : Line} (plays : Plays line (.openAll header)) : Keeps line header
  | repeated {condition : Line} (plays : Plays line (.openRepeat condition)) : Keeps line condition

/-- The lines that do not end a body. -/
def running (lines : List Line) : List Line := lines.filter (!terminates ·)

theorem running_append (lines others : List Line)
    : running (lines ++ others) = running lines ++ running others :=
  List.filter_append ..

theorem running_cons_close {last : Line} (closes : Plays last .close) (rest : List Line)
    : running (last :: rest) = running rest := by
  cases closes with
  | close holds => exact List.filter_cons_of_neg (by simp [terminates, Line.holds, holds])

theorem running_cons_otherwise {middle : Line} (turns : Plays middle .otherwise) (rest : List Line)
    : running (middle :: rest) = running rest := by
  cases turns with
  | otherwise holds =>
      refine List.filter_cons_of_neg ?_
      rcases holds with same | same <;> simp [terminates, Line.holds, same]

theorem running_cons_of_keeps {held : Line} (keeps : Keeps line held) (rest : List Line)
    : running (line :: rest) = line :: running rest := by
  refine List.filter_cons_of_pos ?_
  have runs : terminates line = false := by
    cases keeps with
    | plain plays =>
        cases plays with
        | plain runs => exact runs
    | choice plays =>
        cases plays with
        | openCase heads => exact terminates_eq_false_of_heads (by decide) heads
    | each plays =>
        cases plays with
        | openAll heads => exact terminates_eq_false_of_heads (by decide) heads
    | repeated plays =>
        cases plays with
        | openRepeat heads => exact terminates_eq_false_of_heads (by decide) heads
  rw [runs]
  rfl

/-- A block keeps the header of the line that opens it before what its body keeps, by cases on the
part of the line.
-/
theorem exists_keeps_of_opens (plays : Plays line role) {opening : Opening}
    (opens : role.opening? = some opening)
    : ∃ held, Keeps line held ∧ ∀ body, (opening.close body).kept = held :: allKept body := by
  cases role with
  | openCase condition =>
      obtain rfl := Option.some.inj opens
      exact ⟨condition, .choice plays, fun _ => congrArg (condition :: ·) (List.append_nil _)⟩
  | openAll header =>
      obtain rfl := Option.some.inj opens
      exact ⟨header, .each plays, fun _ => rfl⟩
  | openRepeat condition =>
      obtain rfl := Option.some.inj opens
      exact ⟨condition, .repeated plays, fun _ => rfl⟩
  | close | otherwise | plain => cases opens

/-- The blocks of derived lines keep each line that does not end a body, in order; by induction on
the derivation.
-/
theorem keeps_nesting (nesting : Nesting)
    : List.Forall₂ Keeps (running nesting.lines) (allKept nesting.blocks) := by
  induction nesting with
  | nil => exact .nil
  | plain line plays tail tailKept =>
      rw [Nesting.lines, running_cons_of_keeps (.plain plays)]
      exact .cons (.plain plays) tailKept
  | block opener role opening plays opens body last closes tail bodyKept tailKept =>
      obtain ⟨held, keeps, kept⟩ := exists_keeps_of_opens plays opens
      rw [Nesting.lines, Nesting.blocks, allKept, kept, running_append,
        running_cons_of_keeps keeps, running_cons_close closes]
      exact .cons keeps (List.rel_append bodyKept tailKept)
  | choice opener condition plays thenBody middle turns elseBody last closes tail thenKept elseKept
      tailKept =>
      rw [Nesting.lines, Nesting.blocks, allKept, kept, running_append, running_append,
        running_cons_of_keeps (.choice plays), running_cons_otherwise turns,
        running_cons_close closes]
      exact .cons (.choice plays) (List.rel_append (List.rel_append thenKept elseKept) tailKept)

-----------------------------------------------------------------------------------------
-- Nesting by the grammar
-----------------------------------------------------------------------------------------

/-- Lines nest exactly when they are derived by the grammar of blocks, and have one derivation then.
They nest into its blocks, which keep every plain line and the header of every other line that does
not end a body, each once and in the order of the lines.

Both directions go by induction, from the derivation to the reader and from the reader to a
derivation. That derivations are unique makes the blocks a function of the lines alone.
-/
theorem nest_iff_derived
    : (∀ lines, (∃ blocks, nest lines = .ok blocks) ↔ ∃ nesting : Nesting, nesting.lines = lines)
      ∧ (∀ nesting other : Nesting, nesting.lines = other.lines ↔ nesting = other)
      ∧ ∀ nesting : Nesting,
          nest nesting.lines = .ok nesting.blocks
          ∧ List.Forall₂ Keeps (running nesting.lines) (allKept nesting.blocks) := by
  refine ⟨fun lines => ⟨?_, ?_⟩, fun nesting other => ⟨fun same => ?_, congrArg _⟩,
    fun nesting => ⟨nest_of_nests nesting.nests, keeps_nesting nesting⟩⟩
  · rintro ⟨blocks, read⟩
    exact exists_nesting_of_nest read
  · rintro ⟨nesting, rfl⟩
    exact ⟨nesting.blocks, nest_of_nests nesting.nests⟩
  · refine (Nesting.eq_of_append .nil .nil ?_).1
    rw [same]

example
    : ((nest <| Line.ofSource
        "Case (on):\n turn\nElse\n All (d: Dock):\n  wait\n End\nEnd".toList).toOption.map
        fun blocks => (allKept blocks).map Line.text)
      = some ["(on)".toList, "turn".toList, "d: Dock".toList, "wait".toList] := by
  decide +kernel

end Block

end Dispatch
