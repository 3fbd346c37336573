import Dispatch.Expr.Printer

/-!
How a printed expression is grouped when its text is read. A left operand that is printed without
parentheses may end in the operand of a `not`, which then takes in the comparison or arithmetic that
follows. An expression keeps its grouping exactly when it has no such left operand.
-/

namespace Dispatch

namespace Expr

/-- Induction on expressions, where a tuple has the property if all its elements have it. -/
@[induction_eliminator]
theorem induction {motive : Expr → Prop} (int : ∀ value, motive (.int value))
    (bool : ∀ value, motive (.bool value))
    (tuple : ∀ elements, (∀ element ∈ elements, motive element) → motive (.tuple elements))
    (param : ∀ slot name, motive (.param slot name))
    (read : ∀ place name index, motive index → motive (.read place name index))
    (isLive : ∀ entity name id, motive id → motive (.isLive entity name id))
    (entityType : ∀ entity name, motive (.entityType entity name))
    (not : ∀ operand, motive operand → motive (.not operand))
    (neg : ∀ operand, motive operand → motive (.neg operand))
    (binary : ∀ op left right, motive left → motive right → motive (.binary op left right))
    (expr : Expr)
    : motive expr :=
  Expr.rec int bool tuple param read isLive entityType not neg binary
    (fun _ member => absurd member List.not_mem_nil)
    (fun _ _ first rest => List.forall_mem_cons.mpr ⟨first, rest⟩) expr

end Expr

-----------------------------------------------------------------------------------------
-- Expressions that are not complete
-----------------------------------------------------------------------------------------

/-- The level at which unary minus takes its operand: no operator between two operands is as tight.
-/
def signLevel : Nat := 7

/-- What stands around an operand that is read: an operator that is waiting for it. -/
inductive Frame where
  | not
  | neg
  | left (op : BinaryOp) (operand : Expr)

namespace Frame

/-- The operand takes in the operators that follow, from this level on. -/
def level : Frame → Nat
  | .not => comparisonLevel
  | .neg => signLevel
  | .left op _ => op.level + 1

/-- The expression around an operand. -/
def fill : Frame → Expr → Expr
  | .not, operand => .not operand
  | .neg, operand => .neg operand
  | .left op first, operand => .binary op first operand

/-- The expression around an operand, for the frames from the innermost on. -/
def fillAll (frames : List Frame) (operand : Expr) : Expr :=
  frames.foldl (fun operand frame => frame.fill operand) operand

end Frame

/-- An expression as the reader has it at the end of its text: the last operand, which may turn out
to be a left one, and the frames around it, the innermost first.
-/
structure OpenExpr where
  frames : List Frame
  operand : Expr

namespace OpenExpr

def closed (expr : Expr) : OpenExpr := ⟨[], expr⟩

/-- The expression, if its text ends here. -/
def whole (expr : OpenExpr) : Expr := Frame.fillAll expr.frames expr.operand

/-- An expression that is put in parentheses where they are needed is complete with them. -/
def enclosed (needed : Bool) (expr : OpenExpr) : OpenExpr :=
  if needed then closed expr.whole else expr

def within (frame : Frame) (expr : OpenExpr) : OpenExpr :=
  ⟨expr.frames ++ [frame], expr.operand⟩

/-- An operator of the level completes the frames that are too tight to take it in. -/
def settle (level : Nat) : List Frame → Expr → OpenExpr
  | [], operand => closed operand
  | frame :: frames, operand =>
      if level < frame.level then settle level frames (frame.fill operand)
      else ⟨frame :: frames, operand⟩

/-- The expression as an operator of the level leaves it. -/
def settled (level : Nat) (expr : OpenExpr) : OpenExpr := settle level expr.frames expr.operand

/-- The text of an expression, an operator and the text of another expression. -/
def join (op : BinaryOp) (left right : OpenExpr) : OpenExpr :=
  let waiting := left.settled op.level
  ⟨right.frames ++ .left op waiting.operand :: waiting.frames, right.operand⟩

end OpenExpr

-----------------------------------------------------------------------------------------
-- Printed expressions
-----------------------------------------------------------------------------------------

namespace Expr

open OpenExpr

/-- Whether the left operand of an operator is put in parentheses. -/
def needsParensBefore (op : BinaryOp) (left : Expr) : Bool :=
  left.outerLevel?.any (· < op.level)

/-- Whether the right operand of an operator is put in parentheses. -/
def needsParensAfter (op : BinaryOp) (right : Expr) : Bool :=
  right.outerLevel?.any (· ≤ op.level)

mutual

/-- The expression that the text of an expression is read as, while more may follow. -/
def opened : Expr → OpenExpr
  | .tuple elements => closed (.tuple (regroupedAll elements))
  | .read place name index => closed (.read place name index.opened.whole)
  | .isLive entity name id => closed (.isLive entity name id.opened.whole)
  | .not operand => (operand.opened.enclosed operand.needsParensUnderNot).within .not
  | .neg operand => (operand.opened.enclosed operand.needsParensUnderNeg).within .neg
  | .binary .index left right =>
      closed (.binary .index left.opened.whole right.opened.whole)
  | .binary op left right =>
      join op (left.opened.enclosed (left.needsParensBefore op))
        (right.opened.enclosed (right.needsParensAfter op))
  | expr => closed expr

/-- The expressions that the texts of expressions are read as. -/
def regroupedAll : List Expr → List Expr
  | [] => []
  | element :: rest => element.opened.whole :: regroupedAll rest

end

/-- The expression that the text of an expression is read as. -/
def regrouped (expr : Expr) : Expr := expr.opened.whole

/-- Whether the text of the expression ends in the operand of `not`. -/
def endsInNot : Expr → Bool
  | .not _ => true
  | .neg operand => !operand.needsParensUnderNeg && operand.endsInNot
  | .binary .index _ _ => false
  | .binary op _ right => !right.needsParensAfter op && right.endsInNot
  | _ => false

/-- Whether an operator after the text of its left operand goes to the operand of `not` in which the
text ends.
-/
def losesOperator (op : BinaryOp) (left : Expr) : Bool :=
  comparisonLevel ≤ op.level && op ≠ .index && !left.needsParensBefore op && left.endsInNot

mutual

/-- Whether no operator in the expression goes to the operand of a `not` in its left operand. -/
def keepsGroups : Expr → Bool
  | .tuple elements => allKeepGroups elements
  | .read _ _ index => index.keepsGroups
  | .isLive _ _ id => id.keepsGroups
  | .not operand | .neg operand => operand.keepsGroups
  | .binary op left right => left.keepsGroups && right.keepsGroups && !left.losesOperator op
  | _ => true

def allKeepGroups : List Expr → Bool
  | [] => true
  | element :: rest => element.keepsGroups && allKeepGroups rest

end

end Expr

-----------------------------------------------------------------------------------------
-- Completing frames
-----------------------------------------------------------------------------------------

/-- What frames add to their operand in size does not depend on the operand, by induction on the
frames.
-/
theorem Frame.sizeOf_fillAll (frames : List Frame) (operand other : Expr)
    : sizeOf (fillAll frames operand) + sizeOf other
      = sizeOf (fillAll frames other) + sizeOf operand := by
  induction frames generalizing operand other with
  | nil => exact Nat.add_comm _ _
  | cons frame frames ih =>
      have whole := ih (frame.fill operand) (frame.fill other)
      have added : sizeOf (frame.fill operand) + sizeOf other
          = sizeOf (frame.fill other) + sizeOf operand := by
        cases frame <;> simp only [fill, Expr.not.sizeOf_spec, Expr.neg.sizeOf_spec,
          Expr.binary.sizeOf_spec] <;> omega
      simp only [fillAll, List.foldl_cons] at whole ⊢
      omega

namespace OpenExpr

variable {level : Nat}

theorem whole_enclosed (needed : Bool) (expr : OpenExpr)
    : (expr.enclosed needed).whole = expr.whole := by
  unfold enclosed
  split <;> rfl

theorem whole_within (frame : Frame) (expr : OpenExpr)
    : (expr.within frame).whole = frame.fill expr.whole := by
  simp [whole, within, Frame.fillAll]

/-- Completing frames does not change the whole, by induction on the frames. Only how much of it
still waits is another.
-/
theorem whole_settled (level : Nat) (expr : OpenExpr)
    : (expr.settled level).whole = expr.whole := by
  obtain ⟨frames, operand⟩ := expr
  unfold settled
  induction frames generalizing operand with
  | nil => rfl
  | cons frame frames ih =>
      unfold settle
      split
      · exact ih (frame.fill operand)
      · rfl

/-- An operator that is looser than all frames completes them. -/
theorem settled_of_tight {expr : OpenExpr} (tight : ∀ frame ∈ expr.frames, level < frame.level)
    : (expr.settled level).frames = [] := by
  obtain ⟨frames, operand⟩ := expr
  unfold settled
  induction frames generalizing operand with
  | nil => rfl
  | cons frame frames ih =>
      obtain ⟨first, rest⟩ := List.forall_mem_cons.mp tight
      simp only [settle, if_pos first]
      exact ih (frame.fill operand) rest

/-- A frame that takes in an operator of the level is left waiting. -/
theorem settled_of_loose {expr : OpenExpr} {frame : Frame} (waiting : frame ∈ expr.frames)
    (loose : frame.level ≤ level)
    : (expr.settled level).frames ≠ [] := by
  obtain ⟨frames, operand⟩ := expr
  unfold settled
  induction frames generalizing operand with
  | nil => cases waiting
  | cons first frames ih =>
      unfold settle
      split
      · rename_i tight
        rcases List.mem_cons.mp waiting with rfl | inside
        · omega
        · exact ih (first.fill operand) inside
      · exact List.cons_ne_nil _ _

theorem whole_join (op : BinaryOp) (left right : OpenExpr)
    : (join op left right).whole
      = Frame.fillAll (left.settled op.level).frames
          (.binary op (left.settled op.level).operand right.whole) := by
  simp [whole, join, Frame.fillAll, Frame.fill]

/-- A join has the size of its operands with the operator, wherever the operator goes. -/
theorem sizeOf_whole_join (op : BinaryOp) (left right : OpenExpr)
    : sizeOf (join op left right).whole
      = 1 + sizeOf op + sizeOf left.whole + sizeOf right.whole := by
  rw [whole_join, ← whole_settled op.level left]
  generalize left.settled op.level = waiting
  have added := Frame.sizeOf_fillAll waiting.frames (.binary op waiting.operand right.whole)
    waiting.operand
  rw [Expr.binary.sizeOf_spec] at added
  change _ = _ + sizeOf (Frame.fillAll waiting.frames waiting.operand) + _
  omega

end OpenExpr

-----------------------------------------------------------------------------------------
-- The same grouping
-----------------------------------------------------------------------------------------

namespace Expr

open OpenExpr

theorem eq_zero_of_isZero {index : Expr} (zero : index.isZero = true) : index = .int 0 := by
  cases index with
  | int value => exact congrArg Expr.int (of_decide_eq_true zero)
  | bool | tuple | param | read | isLive | entityType | not | neg | binary => cases zero

theorem regroupedAll_eq_map (elements : List Expr)
    : regroupedAll elements = elements.map regrouped := by
  induction elements with
  | nil => rfl
  | cons element rest ih => rw [regroupedAll, ih, List.map_cons, regrouped]

theorem allKeepGroups_iff {elements : List Expr}
    : allKeepGroups elements = true ↔ ∀ element ∈ elements, element.keepsGroups = true := by
  induction elements with
  | nil => simp [allKeepGroups]
  | cons element rest ih => simp [allKeepGroups, ih]

theorem opened_binary {op : BinaryOp} (binary : op ≠ .index) (left right : Expr)
    : opened (.binary op left right)
      = join op (left.opened.enclosed (left.needsParensBefore op))
          (right.opened.enclosed (right.needsParensAfter op)) := by
  cases op <;> first | rfl | exact absurd rfl binary

theorem endsInNot_binary {op : BinaryOp} (binary : op ≠ .index) (left right : Expr)
    : endsInNot (.binary op left right) = (!right.needsParensAfter op && right.endsInNot) := by
  cases op <;> first | rfl | exact absurd rfl binary

theorem outerLevel?_binary {op : BinaryOp} (binary : op ≠ .index) (left right : Expr)
    : outerLevel? (.binary op left right) = some op.level := by
  cases op <;> first | rfl | exact absurd rfl binary

theorem level_lt_signLevel {op : BinaryOp} (binary : op ≠ .index) : op.level < signLevel := by
  cases op <;> first | decide | exact absurd rfl binary

/-- Regrouping moves operators and operands, and keeps the size. By induction on the expression. -/
theorem sizeOf_regrouped (expr : Expr) : sizeOf expr.regrouped = sizeOf expr := by
  induction expr with
  | int | bool | param | entityType => rfl
  | tuple elements ih =>
      have same : sizeOf (regroupedAll elements) = sizeOf elements := by
        induction elements with
        | nil => rfl
        | cons element rest more =>
            obtain ⟨first, others⟩ := List.forall_mem_cons.mp ih
            simp only [regroupedAll, List.cons.sizeOf_spec, more others]
            rw [← first, regrouped]
      simp only [regrouped, opened, closed, whole, Frame.fillAll, List.foldl_nil,
        tuple.sizeOf_spec, same]
  | read place name index ih => simp_all [regrouped, opened, closed, whole, Frame.fillAll]
  | isLive entity name id ih => simp_all [regrouped, opened, closed, whole, Frame.fillAll]
  | not operand ih =>
      simp only [regrouped, opened, whole_within, whole_enclosed, Frame.fill, not.sizeOf_spec]
      rw [← ih, regrouped]
  | neg operand ih =>
      simp only [regrouped, opened, whole_within, whole_enclosed, Frame.fill, neg.sizeOf_spec]
      rw [← ih, regrouped]
  | binary op left right leftSame rightSame =>
      by_cases indexing : op = .index
      · subst indexing
        simp_all [regrouped, opened, closed, whole, Frame.fillAll]
      · rw [regrouped, opened_binary indexing, sizeOf_whole_join, whole_enclosed, whole_enclosed]
        simp only [regrouped] at leftSame rightSame
        rw [leftSame, rightSame, binary.sizeOf_spec]

/-- A text that ends in the operand of `not` leaves this `not` waiting, by induction on the
expression: the last operand of the text is its right part.
-/
theorem not_mem_frames {expr : Expr} (ends : expr.endsInNot = true)
    : .not ∈ expr.opened.frames := by
  induction expr with
  | int | bool | tuple | param | read | isLive | entityType => cases ends
  | not operand ih => simp [opened, within]
  | neg operand ih =>
      obtain ⟨bare, inside⟩ : operand.needsParensUnderNeg = false ∧ operand.endsInNot = true := by
        simpa [endsInNot] using ends
      simp [opened, within, enclosed, bare, ih inside]
  | binary op left right _ ih =>
      by_cases indexing : op = .index
      · subst indexing
        cases ends
      · obtain ⟨bare, inside⟩ : right.needsParensAfter op = false ∧ right.endsInNot = true := by
          simpa [endsInNot_binary indexing] using ends
        simp [opened_binary indexing, join, enclosed, bare, ih inside]

/-- A part that is printed without parentheses may leave its frames waiting. -/
theorem mem_frames_of_enclosed {needed : Bool} {expr : OpenExpr} {frame : Frame}
    (member : frame ∈ (expr.enclosed needed).frames)
    : needed = false ∧ frame ∈ expr.frames := by
  cases needed with
  | false => exact ⟨rfl, member⟩
  | true => cases member

/-- The operand of `not` is a comparison or tighter, or has parentheses. This is what the printer
decides by.
-/
theorem comparison_le_of_bare_not {operand : Expr} {level : Nat}
    (bare : operand.needsParensUnderNot = false) (outer : operand.outerLevel? = some level)
    : comparisonLevel ≤ level := by
  cases operand with
  | binary op left right =>
      by_cases indexing : op = .index
      · subst indexing
        cases outer
      · rw [outerLevel?_binary indexing] at outer
        obtain rfl := Option.some.inj outer
        simpa [needsParensUnderNot] using bare
  | not inner =>
      obtain rfl := Option.some.inj outer
      exact Nat.le_refl _
  | int | bool | tuple | param | read | isLive | entityType | neg => cases outer

/-- The operand of unary minus is a negation or tighter than all operators between two operands, or
has parentheses.
-/
theorem comparison_of_bare_neg {operand : Expr} {level : Nat}
    (bare : operand.needsParensUnderNeg = false) (outer : operand.outerLevel? = some level)
    : level = comparisonLevel ∧ operand.endsInNot = true := by
  cases operand with
  | binary op left right =>
      cases op <;> simp_all [needsParensUnderNeg, outerLevel?]
  | not inner =>
      obtain rfl := Option.some.inj outer
      exact ⟨rfl, rfl⟩
  | int | bool | tuple | param | read | isLive | entityType | neg => cases outer

theorem le_of_bare_before {op : BinaryOp} {left : Expr} {level : Nat}
    (bare : left.needsParensBefore op = false) (outer : left.outerLevel? = some level)
    : op.level ≤ level := by
  simpa [needsParensBefore, outer] using bare

theorem lt_of_bare_after {op : BinaryOp} {right : Expr} {level : Nat}
    (bare : right.needsParensAfter op = false) (outer : right.outerLevel? = some level)
    : op.level < level := by
  simpa [needsParensAfter, outer] using bare

/-- An operator that can follow the text of the expression without parentheses is looser than all
its frames, unless it goes to a `not`.
-/
def FramesTight (expr : Expr) : Prop :=
  ∀ bound < signLevel, (∀ level, expr.outerLevel? = some level → bound ≤ level)
    → (expr.endsInNot = true → bound < comparisonLevel)
    → ∀ frame ∈ expr.opened.frames, bound < frame.level

/-- So an operator that does not go to a `not` of its left operand completes this operand: all other
frames that wait are tighter than it.
-/
theorem FramesTight.before {left : Expr} (tight : left.FramesTight) {op : BinaryOp}
    (binary : op ≠ .index) (keeps : left.losesOperator op = false)
    : ∀ frame ∈ (left.opened.enclosed (left.needsParensBefore op)).frames,
        op.level < frame.level := by
  intro frame member
  obtain ⟨bare, waiting⟩ := mem_frames_of_enclosed member
  refine tight op.level (level_lt_signLevel binary) (fun level => le_of_bare_before bare)
    (fun ends => ?_) frame waiting
  simpa [losesOperator, binary, bare, ends] using keeps

theorem keepsGroups_binary {op : BinaryOp} {left right : Expr}
    : keepsGroups (.binary op left right) = true
      ↔ left.keepsGroups = true ∧ right.keepsGroups = true ∧ left.losesOperator op = false := by
  simp [keepsGroups, and_assoc]

/-- The frames of an expression that keeps its grouping are tight, by induction on the expression.
-/
theorem framesTight_of_keepsGroups {expr : Expr} (keeps : expr.keepsGroups = true)
    : expr.FramesTight := by
  induction expr with
  | int | bool | tuple | param | read | isLive | entityType =>
      exact fun _ _ _ _ _ member => nomatch member
  | not operand ih =>
      intro bound below loose free frame member
      have unnegated : bound < comparisonLevel := free rfl
      rcases List.mem_append.mp member with inside | outside
      · obtain ⟨bare, waiting⟩ := mem_frames_of_enclosed inside
        refine ih keeps bound below (fun level outer => ?_) (fun _ => unnegated) frame waiting
        exact Nat.le_trans (Nat.le_of_lt unnegated) (comparison_le_of_bare_not bare outer)
      · obtain rfl := List.mem_singleton.mp outside
        exact unnegated
  | neg operand ih =>
      intro bound below loose free frame member
      rcases List.mem_append.mp member with inside | outside
      · obtain ⟨bare, waiting⟩ := mem_frames_of_enclosed inside
        have ends (inner : operand.endsInNot = true) : bound < comparisonLevel :=
          free (by simp [endsInNot, bare, inner])
        refine ih keeps bound below (fun level outer => ?_) ends frame waiting
        obtain ⟨rfl, inner⟩ := comparison_of_bare_neg bare outer
        exact Nat.le_of_lt (ends inner)
      · obtain rfl := List.mem_singleton.mp outside
        exact below
  | binary op left right leftIh rightIh =>
      obtain ⟨leftKeeps, rightKeeps, keepsOp⟩ := keepsGroups_binary.mp keeps
      intro bound below loose free frame member
      by_cases indexing : op = .index
      · subst indexing
        cases member
      · have low := loose op.level (outerLevel?_binary indexing left right)
        rw [opened_binary indexing, join,
          settled_of_tight ((leftIh leftKeeps).before indexing keepsOp)] at member
        rcases List.mem_append.mp member with inside | outside
        · obtain ⟨bare, waiting⟩ := mem_frames_of_enclosed inside
          refine rightIh rightKeeps bound below (fun level outer => ?_) (fun ends => ?_) frame
            waiting
          · exact Nat.le_trans low (Nat.le_of_lt (lt_of_bare_after bare outer))
          · exact free (by simp [endsInNot_binary indexing, bare, ends])
        · obtain rfl := List.mem_singleton.mp outside
          exact Nat.lt_succ_of_le low

/-- An operator whose left operand is completed by it has the two operands around it. -/
theorem regrouped_binary {op : BinaryOp} (binary : op ≠ .index) {left right : Expr}
    (completes
      : ((left.opened.enclosed (left.needsParensBefore op)).settled op.level).frames = [])
    : regrouped (.binary op left right) = .binary op left.regrouped right.regrouped := by
  have same := whole_settled op.level (left.opened.enclosed (left.needsParensBefore op))
  rw [whole_enclosed, whole, completes] at same
  rw [regrouped, opened_binary binary, whole_join, whole_enclosed, completes, regrouped, ← same]
  rfl

/-- Where the operator is still outermost, no frame of its left operand took it in: the last of
these frames would be outermost, and what it holds is smaller than the left operand. This is where
it helps that regrouping keeps the size.
-/
theorem settled_of_outermost {op : BinaryOp} {left right : OpenExpr} {first second : Expr}
    (outermost : (join op left right).whole = .binary op first second)
    (same : sizeOf left.whole = sizeOf first)
    : (left.settled op.level).frames = [] := by
  rw [whole_join] at outermost
  rw [← whole_settled op.level, whole] at same
  generalize left.settled op.level = waiting at *
  rcases List.eq_nil_or_concat waiting.frames with none_ | ⟨inner, last, split⟩
  · exact none_
  · rw [split, List.concat_eq_append, Frame.fillAll, List.foldl_append] at outermost same
    cases last with
    | not => cases outermost
    | neg => cases outermost
    | left other operand =>
        obtain ⟨_, rfl, _⟩ := Expr.binary.inj outermost
        simp only [List.foldl_cons, List.foldl_nil, Frame.fill, binary.sizeOf_spec] at same
        omega

/-- An operator that goes to a `not` of its left operand leaves this `not` waiting, so that the
operand is not completed.
-/
theorem settled_of_losesOperator {op : BinaryOp} {left : Expr}
    (loses : left.losesOperator op = true)
    : ((left.opened.enclosed (left.needsParensBefore op)).settled op.level).frames ≠ [] := by
  obtain ⟨⟨⟨tight, _⟩, bare⟩, ends⟩
      : ((comparisonLevel ≤ op.level ∧ op ≠ .index) ∧ left.needsParensBefore op = false)
        ∧ left.endsInNot = true := by
    simpa [losesOperator] using loses
  rw [bare]
  exact settled_of_loose (not_mem_frames ends) tight

/-- The text of an expression is read as the same expression exactly when it keeps its grouping. By
induction on the expression.

If regrouping gives the same expression, the outermost operator is still the outermost one, so that
no `not` of its left operand took it in.
-/
theorem regrouped_eq_iff {expr : Expr} : expr.regrouped = expr ↔ expr.keepsGroups = true := by
  induction expr with
  | int | bool | param | entityType => exact ⟨fun _ => rfl, fun _ => rfl⟩
  | tuple elements ih =>
      change Expr.tuple (regroupedAll elements) = _ ↔ _
      rw [tuple.injEq, regroupedAll_eq_map, keepsGroups, allKeepGroups_iff]
      have each : elements.map regrouped = elements
          ↔ ∀ element ∈ elements, element.regrouped = id element := by
        rw [← List.map_inj_left, List.map_id]
      rw [each]
      exact forall_congr' fun element => imp_congr_right (ih element)
  | read place name index ih =>
      change Expr.read place name index.regrouped = _ ↔ _
      rw [read.injEq, keepsGroups, ← ih]
      simp
  | isLive entity name id ih =>
      change Expr.isLive entity name id.regrouped = _ ↔ _
      rw [isLive.injEq, keepsGroups, ← ih]
      simp
  | not operand ih =>
      rw [regrouped, opened, whole_within, whole_enclosed, Frame.fill, not.injEq, keepsGroups, ← ih]
      rfl
  | neg operand ih =>
      rw [regrouped, opened, whole_within, whole_enclosed, Frame.fill, neg.injEq, keepsGroups, ← ih]
      rfl
  | binary op left right leftIh rightIh =>
      rw [keepsGroups_binary]
      by_cases indexing : op = .index
      · subst indexing
        change Expr.binary .index left.regrouped right.regrouped = _ ↔ _
        rw [binary.injEq, leftIh, rightIh]
        simp [losesOperator]
      · constructor
        · intro same
          have size : sizeOf (left.opened.enclosed (left.needsParensBefore op)).whole
              = sizeOf left := by
            rw [whole_enclosed]
            exact sizeOf_regrouped left
          have completes := settled_of_outermost
            ((congrArg OpenExpr.whole (opened_binary indexing left right)).symm.trans same) size
          obtain ⟨_, leftSame, rightSame⟩ :=
            Expr.binary.inj ((regrouped_binary indexing completes).symm.trans same)
          refine ⟨leftIh.mp leftSame, rightIh.mp rightSame, ?_⟩
          exact Bool.eq_false_iff.mpr fun loses => settled_of_losesOperator loses completes
        · rintro ⟨leftKeeps, rightKeeps, keepsOp⟩
          have tight := (framesTight_of_keepsGroups leftKeeps).before indexing keepsOp
          rw [regrouped_binary indexing (settled_of_tight tight), leftIh.mpr leftKeeps,
            rightIh.mpr rightKeeps]

end Expr

end Dispatch
