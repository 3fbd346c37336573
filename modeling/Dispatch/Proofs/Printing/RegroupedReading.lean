import Dispatch.Proofs.Printing.PrintedTokens
import Dispatch.Proofs.Reading.ExpressionGrammar

/-!
Printed expressions read back. The printer leaves out parentheses by the levels of operators alone,
and the operand of a `not` takes in what follows it; so a printed expression is always read again,
as the expression that regrouping gives.
-/

namespace Dispatch

-----------------------------------------------------------------------------------------
-- Going on after the text of an expression
-----------------------------------------------------------------------------------------

namespace OpenExpr

open Dispatch.Expr

section

variable (context : LineContext)

/-- Each frame takes its operand with the operators that follow, from the innermost frame on. -/
def resumeAll (start : Nat)
    : List Frame → Expr → List Lexeme → Except ParseError (Expr × List Lexeme)
  | [], operand, input => takeOperators context start operand input
  | frame :: frames, operand, input => do
      let (inner, rest) ← takeOperators context frame.level operand input
      resumeAll start frames (frame.fill inner) rest

/-- Going on after the text of an expression that was begun at a level. -/
def resume (start : Nat) (expr : OpenExpr) (input : List Lexeme)
    : Except ParseError (Expr × List Lexeme) :=
  resumeAll context start expr.frames expr.operand input

end

variable {context : LineContext} {start : Nat} {input rest tail : List Lexeme} {op : BinaryOp}

/-- The frames inside another go on first, by induction on them. What they make of the operand fills
the frame, from where the outer frames go on.
-/
theorem resumeAll_append (inner outer : List Frame) (frame : Frame) (operand : Expr)
    (input : List Lexeme)
    : resumeAll context start (inner ++ frame :: outer) operand input = (do
        let (expr, rest) ← resumeAll context frame.level inner operand input
        resumeAll context start outer (frame.fill expr) rest) := by
  induction inner generalizing operand input with
  | nil => rfl
  | cons first inner ih =>
      simp only [List.cons_append, resumeAll, bind_assoc]
      exact bind_congr_ok fun ⟨expr, rest⟩ _ => ih (first.fill expr) rest

/-- Where no operator follows, the expression is complete: every frame is filled from the inside
out, and nothing is read.
-/
theorem resume_end (last : nextOperator? input = none) (expr : OpenExpr)
    : expr.resume context start input = .ok (expr.whole, input) := by
  have loose {level : Nat} (op : BinaryOp) (tail : List Lexeme)
      (next : nextOperator? input = some (op, tail))
      : op.level < level := by
    rw [last] at next
    cases next
  obtain ⟨frames, operand⟩ := expr
  unfold resume
  induction frames generalizing operand with
  | nil => exact takeOperators_of_loose loose
  | cons frame frames ih =>
      simp only [resumeAll, takeOperators_of_loose loose]
      exact ih (frame.fill operand)

/-- An operator that follows completes the frames that are too tight for it. The reader does the
same when it comes back to them.
-/
theorem resume_settled (next : nextOperator? input = some (op, tail)) (expr : OpenExpr)
    : (expr.settled op.level).resume context start input = expr.resume context start input := by
  obtain ⟨frames, operand⟩ := expr
  unfold settled resume
  induction frames generalizing operand with
  | nil => rfl
  | cons frame frames ih =>
      unfold settle
      split
      · rename_i tight
        have loose (other : BinaryOp) (after : List Lexeme)
            (found : nextOperator? input = some (other, after))
            : other.level < frame.level := by
          rw [next] at found
          obtain ⟨rfl, rfl⟩ := Prod.mk.inj (Option.some.inj found)
          exact tight
        simp only [resumeAll, takeOperators_of_loose loose]
        exact ih (frame.fill operand)
      · rfl

/-- The innermost frame that is left waiting takes in the operator. -/
theorem settled_frames (level : Nat) (expr : OpenExpr)
    : ∀ frame outer, (expr.settled level).frames = frame :: outer → frame.level ≤ level := by
  obtain ⟨frames, operand⟩ := expr
  unfold settled
  induction frames generalizing operand with
  | nil => exact fun _ _ same => nomatch same
  | cons frame frames ih =>
      unfold settle
      split
      · exact ih (frame.fill operand)
      · rename_i loose
        intro other outer same
        obtain ⟨rfl, _⟩ := List.cons.inj same
        exact Nat.le_of_not_lt loose

/-- After an expression, an operator and another expression, the reader goes on as after the two
joined by the operator.

This is the step of reading a printed line: the operator goes to the innermost frame of the left
expression that is not too tight, and there it waits together with the frames of the right one.
-/
theorem resume_join (next : nextOperator? input = some (op, tail)) (low : start ≤ op.level)
    (left right : OpenExpr)
    (read : takeLevel context (op.level + 1) tail = right.resume context (op.level + 1) rest)
    : left.resume context start input = (join op left right).resume context start rest := by
  rw [← resume_settled next]
  have innermost := settled_frames op.level left
  unfold join
  generalize left.settled op.level = waiting at *
  obtain ⟨frames, operand⟩ := waiting
  simp only [resume, resumeAll_append]
  cases frames with
  | nil =>
      rw [resumeAll, takeOperators_of_tight next low, read]
      rfl
  | cons frame outer =>
      rw [resumeAll, takeOperators_of_tight next (innermost frame outer rfl), read, bind_assoc]
      exact bind_congr_ok fun ⟨_, _⟩ _ => rfl

end OpenExpr

namespace Expr

open OpenExpr

-----------------------------------------------------------------------------------------
-- Rules
-----------------------------------------------------------------------------------------

/-- After the tokens the reader goes on as after the expression, when it begins at the level `entry`
or a looser one.
-/
def ReadsOpen (context : LineContext) (tokens : List Token) (expr : OpenExpr) (entry : Nat)
    : Prop :=
  ∀ front : List Lexeme, front.map (·.token) = tokens → ∀ start rest, start ≤ entry
    → Follows 7 rest
    → takeLevel context start (front ++ rest) = expr.resume context start rest

variable {context : LineContext} {tokens others : List Token} {expr : Expr}

/-- The reader of operators reads `@` elsewhere. -/
theorem ne_index_of_nextOperator? {input tail : List Lexeme} {op : BinaryOp}
    (next : nextOperator? input = some (op, tail))
    : op ≠ .index := by
  rintro rfl
  cases input with
  | nil => cases next
  | cons lexeme rest =>
      obtain ⟨found, ofToken, same⟩ := Option.map_eq_some_iff.mp next
      obtain ⟨rfl, _⟩ := Prod.mk.inj same
      unfold BinaryOp.ofToken? at ofToken
      split at ofToken <;> cases ofToken

/-- Unary minus takes an operand with its signs: no operator between two operands is as tight. -/
theorem takeLevel_signLevel (input : List Lexeme)
    : takeLevel context signLevel input = takeOperand context input := by
  rw [takeLevel_eq]
  cases takeOperand context input with
  | error error => rfl
  | ok taken =>
      exact takeOperators_of_loose fun op tail next =>
        level_lt_signLevel (ne_index_of_nextOperator? next)

namespace ReadsOpen

variable {part : OpenExpr} {entry : Nat}

theorem of_operand (reads : ReadsOperand context tokens expr) (entry : Nat)
    : ReadsOpen context tokens (closed expr) entry :=
  fun front same _ rest _ follows => takeLevel_of_operand (reads front same rest follows)

theorem whole (reads : ReadsOpen context tokens part entry)
    : ReadsWhole context tokens part.whole := by
  intro front same rest follows
  rw [reads front same 0 rest (Nat.zero_le _) (follows.mono (Nat.zero_le _))]
  exact resume_end follows.no_operator part

/-- What is in parentheses is complete, and what is not must be begun loosely enough. -/
theorem enclosed {start : Nat} (reads : ReadsOpen context tokens part entry) (needed : Bool)
    (bare : needed = false → start ≤ entry)
    : ReadsOpen context (enclosedTokens needed tokens) (part.enclosed needed) start := by
  cases needed with
  | false =>
      exact fun front same begun rest low =>
        reads front same begun rest (Nat.le_trans low (bare rfl))
  | true => exact .of_operand (.of_indexed (.of_primary (.group reads.whole))) start

/-- A negation before tokens of a comparison or something tighter is read as a frame around it,
which takes in all that follows at that level.
-/
theorem not (reads : ReadsOpen context tokens part comparisonLevel) (entry : Nat)
    : ReadsOpen context (.keyword .negation :: tokens) (part.within .not) entry := by
  intro front same start rest _ follows
  obtain ⟨⟨_, span⟩, tail, rfl, rfl, tailTokens⟩ := List.map_eq_cons_iff.mp same
  rw [List.cons_append, takeLevel_eq, takeOperand_negation,
    reads tail tailTokens comparisonLevel rest (Nat.le_refl _) follows, bind_assoc]
  exact (resumeAll_append part.frames [] .not part.operand rest).symm

/-- A minus sign before tokens of an operand is read as a frame around it, which takes in no
operator between two operands.
-/
theorem neg (reads : ReadsOpen context tokens part signLevel) (entry : Nat)
    : ReadsOpen context (.symbol .minus :: tokens) (part.within .neg) entry := by
  intro front same start rest _ follows
  obtain ⟨⟨_, span⟩, tail, rfl, rfl, tailTokens⟩ := List.map_eq_cons_iff.mp same
  rw [List.cons_append, takeLevel_eq, takeOperand_sign, ← takeLevel_signLevel,
    reads tail tailTokens signLevel rest (Nat.le_refl _) follows, bind_assoc]
  exact (resumeAll_append part.frames [] .neg part.operand rest).symm

/-- Two expressions with an operator between are read as joined by the operator, when the first was
begun loosely enough and the second is at least one level tighter.
-/
theorem join {op : BinaryOp} {left right : OpenExpr} (binary : op ≠ .index)
    (first : ReadsOpen context tokens left op.level)
    (second : ReadsOpen context others right (op.level + 1))
    : ReadsOpen context (tokens ++ op.token :: others) (join op left right) op.level := by
  intro front same start rest low follows
  obtain ⟨lefts, tail, rfl, leftTokens, more⟩ := List.map_eq_append_iff.mp same
  obtain ⟨⟨_, span⟩, rights, rfl, rfl, rightTokens⟩ := List.map_eq_cons_iff.mp more
  have below := Nat.le_of_lt (level_lt_signLevel binary)
  rw [List.append_assoc, List.cons_append,
    first lefts leftTokens start _ low (.of_token (.operator op.spells_token below))]
  have next : nextOperator? (⟨op.token, span⟩ :: (rights ++ rest)) = some (op, rights ++ rest) := by
    rw [nextOperator?, ofToken?_of_spells op.spells_token binary, Option.map_some]
  exact resume_join next low left right
    (second rights rightTokens (op.level + 1) rest (Nat.le_refl _) follows)

end ReadsOpen

-----------------------------------------------------------------------------------------
-- Printed expressions
-----------------------------------------------------------------------------------------

/-- The level up to which the text of an expression may be begun. -/
def entry : Expr → Nat
  | .binary .index _ _ => signLevel
  | .binary op _ _ => op.level
  | _ => signLevel

theorem le_entry {bound : Nat} (below : bound ≤ signLevel)
    (outer : ∀ level, expr.outerLevel? = some level → bound ≤ level)
    : bound ≤ expr.entry := by
  cases expr with
  | binary op left right =>
      by_cases indexing : op = .index
      · subst indexing
        exact below
      · have level := outer op.level (outerLevel?_binary indexing left right)
        cases op <;> first | exact level | exact absurd rfl indexing
  | int | bool | tuple | param | read | isLive | entityType | not | neg => exact below

theorem signLevel_le_entry (bare : expr.needsParensUnderNeg = false)
    : signLevel ≤ expr.entry := by
  cases expr with
  | binary op left right => cases op <;> first | exact Nat.le_refl _ | cases bare
  | int | bool | tuple | param | read | isLive | entityType | not | neg => exact Nat.le_refl _

/-- The tokens of an expression are read as the expression regrouped, wherever the printer puts
them.
-/
structure ReadsBack (context : LineContext) (expr : Expr) : Prop where
  opened : ReadsOpen context expr.tokens expr.opened expr.entry
  primary : expr.isAtomic = true → ReadsPrimary context expr.tokens expr.regrouped
  indexed
    : expr.needsParensBeforeIndex = false → ReadsIndexed context expr.tokens expr.regrouped

namespace ReadsBack

theorem of_primary (reads : ReadsPrimary context expr.tokens expr.regrouped)
    (complete : expr.opened = closed expr.regrouped)
    : ReadsBack context expr where
  opened := complete ▸ .of_operand (.of_indexed (.of_primary reads)) expr.entry
  primary _ := reads
  indexed _ := .of_primary reads

theorem single (reads : ReadsBack context expr)
    : ReadsPrimary context (enclosedTokens (!expr.isAtomic) expr.tokens) expr.regrouped := by
  cases atomic : expr.isAtomic with
  | true => exact reads.primary atomic
  | false => exact .group reads.opened.whole

theorem base (reads : ReadsBack context expr)
    : ReadsIndexed context (enclosedTokens expr.needsParensBeforeIndex expr.tokens)
        expr.regrouped := by
  cases needed : expr.needsParensBeforeIndex with
  | false => exact reads.indexed needed
  | true => exact .of_primary (.group reads.opened.whole)

/-- An index is read from its tokens, in parentheses unless it is printed bare. -/
theorem index (reads : ReadsBack context expr) (readable : expr.Readable context.toNames)
    : ReadsIndex context (enclosedTokens (!expr.isBareIndex) expr.tokens) expr.regrouped := by
  cases bare : expr.isBareIndex with
  | false => exact .group reads.opened.whole
  | true =>
      cases expr with
      | int value =>
          obtain ⟨value, rfl⟩ := Int.eq_ofNat_of_zero_le readable.1
          exact .int value
      | param slot name =>
          obtain ⟨_, kind, bound⟩ := readable
          exact .param bound
      | bool | tuple | read | isLive | entityType | not | neg | binary => cases bare

end ReadsBack

/-- One or more expressions separated by commas are read back, by induction on them. The comma ends
an expression, so that each is read whole.
-/
theorem readsElements_commaTokens {elements : List Expr} (some : elements ≠ [])
    (each : ∀ element ∈ elements, ReadsBack context element)
    : ReadsElements context (commaTokens elements) (regroupedAll elements) := by
  induction elements with
  | nil => exact absurd rfl some
  | cons element rest ih =>
      obtain ⟨first, others⟩ := List.forall_mem_cons.mp each
      cases rest with
      | nil => exact .single first.opened.whole
      | cons next rest => exact .cons first.opened.whole (ih (List.cons_ne_nil _ _) others)

/-- Every readable expression is read back, by induction on the expression.

Each case puts together what its parts are read as. A binary expression is the one that needs the
frames: its left part may still wait for operators where its text ends.
-/
theorem readsBack_of_readable (readable : expr.Readable context.toNames)
    : ReadsBack context expr := by
  induction expr with
  | int value =>
      obtain ⟨value, rfl⟩ := Int.eq_ofNat_of_zero_le readable.1
      exact .of_primary (.int value) rfl
  | bool value =>
      cases value with
      | true => exact .of_primary .truth rfl
      | false => exact .of_primary .falsity rfl
  | tuple elements ih =>
      obtain ⟨several, all⟩ := readable
      have each := fun element member => ih element member (allReadable_iff.mp all element member)
      obtain ⟨first, next, rest, rfl⟩ : ∃ first next rest, elements = first :: next :: rest := by
        match elements, several with
        | first :: next :: rest, _ => exact ⟨first, next, rest, rfl⟩
      obtain ⟨firstBack, others⟩ := List.forall_mem_cons.mp each
      exact .of_primary (.tuple firstBack.opened.whole
        (readsElements_commaTokens (List.cons_ne_nil _ _) others)) rfl
  | param slot name =>
      obtain ⟨_, kind, bound⟩ := readable
      exact .of_primary (.param bound) rfl
  | read place name index ih =>
      obtain ⟨spelled, declared, inner⟩ := readable
      have named := isName_of_spelledName spelled
      refine .of_primary ?_ rfl
      change ReadsPrimary context (nameTokens name ++ if index.isZero then [] else _)
        (.read place name index.regrouped)
      split
      · rename_i zero
        obtain rfl := eq_zero_of_isZero zero
        rw [List.append_nil]
        exact .read named declared
      · exact .readAt named declared ((ih inner).index inner)
  | isLive entity name id ih =>
      obtain ⟨spelled, declared, inner⟩ := readable
      exact .of_primary (.isLive (isName_of_spelledName spelled) declared (ih inner).single) rfl
  | entityType entity name =>
      exact .of_primary (.entityType (isName_of_spelledName readable.1) readable.2) rfl
  | not operand ih =>
      refine ⟨.not ((ih readable).opened.enclosed _ fun bare => ?_) signLevel, nofun, nofun⟩
      exact le_entry (by decide) fun level => comparison_le_of_bare_not bare
  | neg operand ih =>
      exact ⟨.neg ((ih readable).opened.enclosed _ signLevel_le_entry) signLevel, nofun, nofun⟩
  | binary op left right leftIh rightIh =>
      have leftBack := leftIh readable.1
      have rightBack := rightIh readable.2
      by_cases indexing : op = .index
      · subst indexing
        have chain := leftBack.base.chain rightBack.single
        exact ⟨.of_operand (.of_indexed chain) signLevel, nofun, fun _ => chain⟩
      · have entered : entry (.binary op left right) = op.level := by
          cases op <;> first | rfl | exact absurd rfl indexing
        have below := level_lt_signLevel indexing
        have whole := ReadsOpen.join indexing
          (leftBack.opened.enclosed (left.needsParensBefore op) fun bare =>
            le_entry (Nat.le_of_lt below) fun level => le_of_bare_before bare)
          (rightBack.opened.enclosed (right.needsParensAfter op) fun bare =>
            le_entry below fun level => lt_of_bare_after bare)
        rw [← opened_binary indexing, ← tokens_binary indexing, ← entered] at whole
        refine ⟨whole, nofun, fun bare => ?_⟩
        cases op <;> first | exact absurd rfl indexing | cases bare

/-- A printed expression is always read again, as the expression that regrouping gives; it is the
same expression exactly when none of its operators goes to the operand of a `not` in which the text
of the left operand ends.

The first part follows from the reading of the printed tokens, for every expression of a line is
readable; the second compares sizes, as regrouping moves parts and drops none.
-/
theorem ofLine_text {names : Names} {line : Line} {expr : Expr}
    (read : ofLine names line = .ok expr)
    : (∀ number column, ofLine names ⟨expr.text.toList, number, column⟩ = .ok expr.regrouped)
      ∧ (expr.regrouped = expr ↔ expr.keepsGroups = true) := by
  refine ⟨fun number column => ?_, regrouped_eq_iff⟩
  have readable := readable_of_ofLine read
  obtain ⟨tokens, lexed, same⟩ := (lexes_text readable).read ⟨0, number, column⟩
  refine ofLine_eq_ok_iff.mpr ⟨tokens, lexed, ?_⟩
  have back : ReadsBack ⟨names, tokens.stop⟩ expr := readsBack_of_readable readable
  have whole := back.opened.whole tokens.lexemes same [] .nil
  rwa [List.append_nil] at whole

def noNames : Names := ⟨.empty, .empty⟩

/-- A negation that is compared. -/
def comparedNegation : Expr := .binary .equal (.not (.bool true)) (.bool false)

/-- A comparison that is negated. -/
def negatedComparison : Expr := .not (.binary .equal (.bool true) (.bool false))

theorem derives_truth (names : Names) : Derives names .comparison [.keyword .truth] (.bool true) :=
  .single (.single (.single (.single (.single .truth))))

theorem derives_falsity (names : Names) : Derives names .sum [.keyword .falsity] (.bool false) :=
  .single (.single (.single (.single .falsity)))

/-- The comparison of a negation is written with parentheses around the negation. -/
theorem ofLine_comparedNegation
    : ofLine noNames ⟨"(not true) = false".toList, 1, 1⟩ = .ok comparedNegation := by
  have lexed : (TokenLine.read ⟨0, 1, 1⟩ "(not true) = false".toList).toOption.map
      (·.lexemes.map (·.token))
      = some ([.symbol .openParen, .keyword .negation, .keyword .truth, .symbol .closeParen]
          ++ [.symbol .assign, .keyword .falsity]) := by
    decide +kernel
  obtain ⟨tokens, found, same⟩ := Option.map_eq_some_iff.mp lexed
  have group : Derives noNames .primary
      [.symbol .openParen, .keyword .negation, .keyword .truth, .symbol .closeParen]
      (.not (.bool true)) :=
    .group (.single (.single (.not (.single (derives_truth noNames)))))
  have chain := Derives.chain (by decide : .equal ∈ Category.comparison.operators)
    (.single (.single (.single (.single (.single group))))) .assign (derives_falsity noNames)
  exact ofLine_of_lexed (ok_of_toOption found) (same ▸ .single (.single (.single chain)))

/-- Without the parentheses, which the printer leaves out, the line is read as another expression.
-/
theorem misread_comparedNegation
    : ofLine noNames ⟨"(not true) = false".toList, 1, 1⟩ = .ok comparedNegation
      ∧ comparedNegation.text = "not true = false"
      ∧ ofLine noNames ⟨comparedNegation.text.toList, 1, 1⟩ = .ok negatedComparison
      ∧ negatedComparison ≠ comparedNegation := by
  have printed : comparedNegation.text = "not true = false" := by decide +kernel
  have lexed : (TokenLine.read ⟨0, 1, 1⟩ "not true = false".toList).toOption.map
      (·.lexemes.map (·.token))
      = some [.keyword .negation, .keyword .truth, .symbol .assign, .keyword .falsity] := by
    decide +kernel
  obtain ⟨tokens, found, same⟩ := Option.map_eq_some_iff.mp lexed
  have chain := Derives.chain (by decide : .equal ∈ Category.comparison.operators)
    (derives_truth noNames) .assign (derives_falsity noNames)
  have derives : Derives noNames .disjunction (tokens.lexemes.map (·.token)) negatedComparison :=
    same ▸ .single (.single (.not (.single chain)))
  refine ⟨ofLine_comparedNegation, printed, ?_, nofun⟩
  rw [printed]
  exact ofLine_of_lexed (ok_of_toOption found) derives

/-- Witness: the printed line is read as the comparison negated, at any place. -/
theorem ofLine_text_comparedNegation
    : ofLine noNames ⟨"(not true) = false".toList, 1, 1⟩ = .ok comparedNegation
      ∧ (∀ number column,
          ofLine noNames ⟨comparedNegation.text.toList, number, column⟩ = .ok negatedComparison)
      ∧ comparedNegation.keepsGroups = false :=
  ⟨ofLine_comparedNegation, (ofLine_text ofLine_comparedNegation).1, rfl⟩

end Expr

end Dispatch
