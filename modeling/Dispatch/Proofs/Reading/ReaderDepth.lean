import Dispatch.Proofs.Reading.ReaderInduction

/-!
The bound on the nesting of the readers plays no part in what they read: once it is as great as the
one that is computed from the input, every reader does the same. So each reader at the bound for its
own input satisfies the equation of the grammar rule that it reads, without a bound.
-/

namespace Dispatch

/-- Sequences with the same start are the same when they go on in the same way from its result. -/
theorem bind_congr_ok {ε α β : Type} {first : Except ε α} {next other : α → Except ε β}
    (same : ∀ value, first = .ok value → next value = other value)
    : (first >>= next) = (first >>= other) := by
  cases first with
  | error error => rfl
  | ok value => exact same value rfl

namespace Expr

-----------------------------------------------------------------------------------------
-- What the readers leave
-----------------------------------------------------------------------------------------

/-- Every expression has the property that says nothing. -/
theorem readClosed_true (context : LineContext) (source : List Lexeme)
    : ReadClosed context source (fun _ => True) where
  int _ := trivial
  zero := trivial
  bool _ := trivial
  tuple _ _ _ := trivial
  param _ _ := trivial
  read _ _ _ := trivial
  isLive _ _ _ := trivial
  entityType _ _ := trivial
  not _ := trivial
  neg _ := trivial
  binary _ := fun _ _ => trivial

section

variable {context : LineContext} {depth : Nat} {input rest : List Lexeme} {expr : Expr}

theorem leaves_of_readLevel {level : Nat}
    (read : readLevel context depth level input = .ok (expr, rest))
    : Leaves input rest :=
  ((readersYield (readClosed_true context input) depth).level List.suffix_rfl read).2

theorem leaves_of_readOperand (read : readOperand context depth input = .ok (expr, rest))
    : Leaves input rest :=
  ((readersYield (readClosed_true context input) depth).operand List.suffix_rfl read).2

theorem leaves_of_readPrimary (read : readPrimary context depth input = .ok (expr, rest))
    : Leaves input rest :=
  ((readersYield (readClosed_true context input) depth).primary List.suffix_rfl read).2

end

-----------------------------------------------------------------------------------------
-- One more call
-----------------------------------------------------------------------------------------

/-- At a bound that is enough for an input, every reader does what it does at the next bound.
Between two lexemes that are taken a list of elements is the first to be read, then a level, an
operand and a primary expression.
-/
structure ReadersSettled (context : LineContext) (depth : Nat) : Prop where
  level
    : ∀ level {input : List Lexeme}, 8 * input.length + 3 ≤ depth
        → readLevel context (depth + 1) level input = readLevel context depth level input
  operators
    : ∀ level left {input : List Lexeme}, 8 * input.length + 1 ≤ depth
        → readOperators context (depth + 1) level left input
          = readOperators context depth level left input
  operand
    : ∀ {input : List Lexeme}, 8 * input.length + 2 ≤ depth
        → readOperand context (depth + 1) input = readOperand context depth input
  indexings
    : ∀ base {input : List Lexeme}, 8 * input.length + 1 ≤ depth
        → readIndexings context (depth + 1) base input = readIndexings context depth base input
  primary
    : ∀ {input : List Lexeme}, 8 * input.length + 1 ≤ depth
        → readPrimary context (depth + 1) input = readPrimary context depth input
  elements
    : ∀ {input : List Lexeme}, 8 * input.length + 4 ≤ depth
        → readElements context (depth + 1) input = readElements context depth input
  index
    : ∀ {input : List Lexeme}, 8 * input.length + 1 ≤ depth
        → readIndex context (depth + 1) input = readIndex context depth input

variable {context : LineContext} {depth : Nat}

theorem ReadersSettled.zero : ReadersSettled context 0 where
  level _ _ enough := absurd enough (by omega)
  operators _ _ _ enough := absurd enough (by omega)
  operand enough := absurd enough (by omega)
  indexings _ _ enough := absurd enough (by omega)
  primary enough := absurd enough (by omega)
  elements enough := absurd enough (by omega)
  index enough := absurd enough (by omega)

theorem ReadersSettled.level_succ (inner : ReadersSettled context depth) (level : Nat)
    {input : List Lexeme} (enough : 8 * input.length + 3 ≤ depth + 1)
    : readLevel context (depth + 2) level input = readLevel context (depth + 1) level input := by
  rw [readLevel, readLevel, inner.operand (by omega)]
  refine bind_congr_ok fun taken operand => ?_
  obtain ⟨left, rest⟩ := taken
  have shorter := (leaves_of_readOperand operand).shorter
  exact inner.operators level left (by omega)

theorem ReadersSettled.operators_succ (inner : ReadersSettled context depth) (level : Nat)
    (left : Expr) {input : List Lexeme} (enough : 8 * input.length + 1 ≤ depth + 1)
    : readOperators context (depth + 2) level left input
      = readOperators context (depth + 1) level left input := by
  rw [readOperators, readOperators]
  split
  · rfl
  · rename_i op tail next
    have taken := (leaves_of_nextOperator? next).shorter
    split
    · rfl
    · rw [inner.level _ (by omega)]
      refine bind_congr_ok fun taken found => ?_
      obtain ⟨right, rest⟩ := taken
      have shorter := (leaves_of_readLevel found).shorter
      exact inner.operators level _ (by omega)

theorem ReadersSettled.operand_succ (inner : ReadersSettled context depth) {input : List Lexeme}
    (enough : 8 * input.length + 2 ≤ depth + 1)
    : readOperand context (depth + 2) input = readOperand context (depth + 1) input := by
  unfold readOperand
  split
  · rw [inner.level _ (by simp at enough; omega)]
  · rw [inner.operand (by simp at enough; omega)]
  · rw [inner.operand (by simp at enough; omega)]
  · rw [inner.primary (by omega)]
    refine bind_congr_ok fun taken primary => ?_
    obtain ⟨base, rest⟩ := taken
    have shorter := (leaves_of_readPrimary primary).shorter
    exact inner.indexings base (by omega)

theorem ReadersSettled.indexings_succ (inner : ReadersSettled context depth) (base : Expr)
    {input : List Lexeme} (enough : 8 * input.length + 1 ≤ depth + 1)
    : readIndexings context (depth + 2) base input
      = readIndexings context (depth + 1) base input := by
  rw [readIndexings, readIndexings]
  split
  · rfl
  · rename_i tail next
    have taken := (leaves_of_afterSymbol? next).shorter
    rw [inner.primary (by omega)]
    refine bind_congr_ok fun taken primary => ?_
    obtain ⟨index, rest⟩ := taken
    have shorter := (leaves_of_readPrimary primary).shorter
    exact inner.indexings _ (by omega)

theorem ReadersSettled.primary_succ (inner : ReadersSettled context depth) {input : List Lexeme}
    (enough : 8 * input.length + 1 ≤ depth + 1)
    : readPrimary context (depth + 2) input = readPrimary context (depth + 1) input := by
  unfold readPrimary
  split
  · rfl
  · rfl
  · rfl
  · rfl
  · simp only [List.length_cons] at enough
    rw [inner.level _ (by omega)]
    refine bind_congr_ok fun taken found => ?_
    obtain ⟨first, rest⟩ := taken
    have shorter := (leaves_of_readLevel found).shorter
    dsimp only
    split
    · rfl
    · rename_i next
      have taken := (leaves_of_afterSymbol? next).shorter
      rw [inner.elements (by omega)]
  · split
    · rfl
    · refine bind_congr_ok fun taken named => ?_
      obtain ⟨found, rest⟩ := taken
      have shorter := (LineContext.nameFrom_of_readName named).2.shorter
      dsimp only
      split
      · rename_i next
        have taken := (leaves_of_afterKeyword? next).shorter
        rw [inner.primary (by omega)]
      · rw [inner.index (by omega)]
  · rfl

theorem ReadersSettled.elements_succ (inner : ReadersSettled context depth) {input : List Lexeme}
    (enough : 8 * input.length + 4 ≤ depth + 1)
    : readElements context (depth + 2) input = readElements context (depth + 1) input := by
  rw [readElements, readElements, inner.level _ (by omega)]
  refine bind_congr_ok fun taken found => ?_
  obtain ⟨element, rest⟩ := taken
  have shorter := (leaves_of_readLevel found).shorter
  dsimp only
  split
  · rfl
  · rename_i next
    have taken := (leaves_of_afterSymbol? next).shorter
    rw [inner.elements (by omega)]

theorem ReadersSettled.index_succ (inner : ReadersSettled context depth) {input : List Lexeme}
    (enough : 8 * input.length + 1 ≤ depth + 1)
    : readIndex context (depth + 2) input = readIndex context (depth + 1) input := by
  unfold readIndex
  split
  · rw [inner.level _ (by simp at enough; omega)]
  · rfl
  · rfl
  · rfl

/-- Every bound that is enough for an input is as good as the next, by induction on the bound. -/
theorem readersSettled (context : LineContext) (depth : Nat) : ReadersSettled context depth := by
  induction depth with
  | zero => exact .zero
  | succ depth inner =>
      exact {
        level := inner.level_succ
        operators := inner.operators_succ
        operand := inner.operand_succ
        indexings := inner.indexings_succ
        primary := inner.primary_succ
        elements := inner.elements_succ
        index := inner.index_succ
      }

-----------------------------------------------------------------------------------------
-- Readers without a bound
-----------------------------------------------------------------------------------------

section

variable (context : LineContext)

/-- Reads an operand and the operators of the given level or tighter that follow it. -/
def takeLevel (level : Nat) (input : List Lexeme) : Except ParseError (Expr × List Lexeme) :=
  readLevel context (depthFor input) level input

/-- Reads operators of the given level or tighter with their right operands. -/
def takeOperators (level : Nat) (left : Expr) (input : List Lexeme)
    : Except ParseError (Expr × List Lexeme) :=
  readOperators context (depthFor input) level left input

/-- Reads an operand with the signs and negations before it. -/
def takeOperand (input : List Lexeme) : Except ParseError (Expr × List Lexeme) :=
  readOperand context (depthFor input) input

/-- Reads the chain of `@` after an operand. -/
def takeIndexings (base : Expr) (input : List Lexeme) : Except ParseError (Expr × List Lexeme) :=
  readIndexings context (depthFor input) base input

/-- Reads a primary expression. -/
def takePrimary (input : List Lexeme) : Except ParseError (Expr × List Lexeme) :=
  readPrimary context (depthFor input) input

/-- Reads one or more expressions separated by commas. -/
def takeElements (input : List Lexeme) : Except ParseError (List Expr × List Lexeme) :=
  readElements context (depthFor input) input

/-- Reads the index after a variable name. -/
def takeIndex (input : List Lexeme) : Except ParseError (Expr × List Lexeme) :=
  readIndex context (depthFor input) input

end

theorem le_depthFor (input : List Lexeme) : 8 * input.length + 4 ≤ depthFor input := by
  unfold depthFor
  omega

theorem eq_of_settled {α : Type} (result : Nat → α) {bound : Nat}
    (settled : ∀ depth, bound ≤ depth → result (depth + 1) = result depth) {first second : Nat}
    (firstEnough : bound ≤ first) (secondEnough : bound ≤ second)
    : result first = result second := by
  have same {depth : Nat} (enough : bound ≤ depth) : result depth = result bound := by
    induction enough with
    | refl => rfl
    | step enough ih => rw [settled _ enough, ih]
  rw [same firstEnough, same secondEnough]

section

variable {input : List Lexeme}

theorem readLevel_eq_take (level : Nat) (enough : 8 * input.length + 3 ≤ depth)
    : readLevel context depth level input = takeLevel context level input :=
  eq_of_settled (readLevel context · level input)
    (fun depth => (readersSettled context depth).level level) enough
    (Nat.le_trans (by omega) (le_depthFor input))

theorem readOperators_eq_take (level : Nat) (left : Expr) (enough : 8 * input.length + 1 ≤ depth)
    : readOperators context depth level left input = takeOperators context level left input :=
  eq_of_settled (readOperators context · level left input)
    (fun depth => (readersSettled context depth).operators level left) enough
    (Nat.le_trans (by omega) (le_depthFor input))

theorem readOperand_eq_take (enough : 8 * input.length + 2 ≤ depth)
    : readOperand context depth input = takeOperand context input :=
  eq_of_settled (readOperand context · input) (fun depth => (readersSettled context depth).operand)
    enough (Nat.le_trans (by omega) (le_depthFor input))

theorem readIndexings_eq_take (base : Expr) (enough : 8 * input.length + 1 ≤ depth)
    : readIndexings context depth base input = takeIndexings context base input :=
  eq_of_settled (readIndexings context · base input)
    (fun depth => (readersSettled context depth).indexings base) enough
    (Nat.le_trans (by omega) (le_depthFor input))

theorem readPrimary_eq_take (enough : 8 * input.length + 1 ≤ depth)
    : readPrimary context depth input = takePrimary context input :=
  eq_of_settled (readPrimary context · input) (fun depth => (readersSettled context depth).primary)
    enough (Nat.le_trans (by omega) (le_depthFor input))

theorem readElements_eq_take (enough : 8 * input.length + 4 ≤ depth)
    : readElements context depth input = takeElements context input :=
  eq_of_settled (readElements context · input)
    (fun depth => (readersSettled context depth).elements) enough (le_depthFor input)

theorem readIndex_eq_take (enough : 8 * input.length + 1 ≤ depth)
    : readIndex context depth input = takeIndex context input :=
  eq_of_settled (readIndex context · input) (fun depth => (readersSettled context depth).index)
    enough (Nat.le_trans (by omega) (le_depthFor input))

end

-----------------------------------------------------------------------------------------
-- Rules
-----------------------------------------------------------------------------------------

section

variable {input rest tail after : List Lexeme} {span : Span} {expr : Expr}

/-- A level is an operand and the operators after it. -/
theorem takeLevel_eq (level : Nat) (input : List Lexeme)
    : takeLevel context level input = (do
        let (left, rest) ← takeOperand context input
        takeOperators context level left rest) := by
  have enough : 8 * input.length + 2 ≤ 8 * input.length + 7 := by omega
  unfold takeLevel depthFor
  rw [Nat.mul_succ, readLevel, readOperand_eq_take enough]
  refine bind_congr_ok fun taken operand => ?_
  obtain ⟨left, rest⟩ := taken
  have shorter := (leaves_of_readOperand operand).shorter
  exact readOperators_eq_take level left (by omega)

theorem takeLevel_of_operand {level : Nat} (operand : takeOperand context input = .ok (expr, rest))
    : takeLevel context level input = takeOperators context level expr rest := by
  rw [takeLevel_eq, operand]
  rfl

/-- Where no operator follows that is tight enough, none is taken. -/
theorem takeOperators_of_loose {level : Nat} {left : Expr}
    (loose : ∀ op tail, nextOperator? input = some (op, tail) → op.level < level)
    : takeOperators context level left input = .ok (left, input) := by
  unfold takeOperators depthFor
  rw [Nat.mul_succ, readOperators]
  split
  · rfl
  · rename_i op tail next
    rw [if_pos (loose op tail next)]

/-- An operator that is tight enough takes a right operand and joins it to the left one. -/
theorem takeOperators_of_tight {level : Nat} {left : Expr} {op : BinaryOp}
    (next : nextOperator? input = some (op, tail)) (tight : level ≤ op.level)
    : takeOperators context level left input = (do
        let (right, rest) ← takeLevel context (op.level + 1) tail
        takeOperators context level (.binary op left right) rest) := by
  have taken := (leaves_of_nextOperator? next).shorter
  unfold takeOperators depthFor
  rw [Nat.mul_succ, readOperators, next]
  dsimp only
  rw [if_neg (Nat.not_lt.mpr tight), readLevel_eq_take _ (by omega)]
  refine bind_congr_ok fun taken operand => ?_
  obtain ⟨right, rest⟩ := taken
  have shorter := (leaves_of_readLevel operand).shorter
  exact show readOperators context _ level _ rest = _ from
    readOperators_eq_take level _ (by omega)

theorem takeOperators_of_right {level : Nat} {left right : Expr} {op : BinaryOp}
    (next : nextOperator? input = some (op, tail)) (tight : level ≤ op.level)
    (operand : takeLevel context (op.level + 1) tail = .ok (right, rest))
    : takeOperators context level left input
      = takeOperators context level (.binary op left right) rest := by
  rw [takeOperators_of_tight next tight, operand]
  rfl

/-- `not` takes a comparison. -/
theorem takeOperand_negation (span : Span) (tail : List Lexeme)
    : takeOperand context (⟨.keyword .negation, span⟩ :: tail) = (do
        let (operand, rest) ← takeLevel context comparisonLevel tail
        return (.not operand, rest)) := by
  unfold takeOperand depthFor
  rw [List.length_cons, Nat.mul_succ, readOperand, readLevel_eq_take _ (by omega)]

theorem takeOperand_not (operand : takeLevel context comparisonLevel tail = .ok (expr, rest))
    : takeOperand context (⟨.keyword .negation, span⟩ :: tail) = .ok (.not expr, rest) := by
  rw [takeOperand_negation, operand]
  rfl

theorem takeOperand_sign (span : Span) (tail : List Lexeme)
    : takeOperand context (⟨.symbol .minus, span⟩ :: tail) = (do
        let (operand, rest) ← takeOperand context tail
        return (.neg operand, rest)) := by
  have enough : 8 * tail.length + 2 ≤ 8 * (tail.length + 1) + 7 := by omega
  change readOperand context (depthFor (⟨.symbol .minus, span⟩ :: tail)) _ = _
  rw [depthFor, List.length_cons, Nat.mul_succ, readOperand, readOperand_eq_take enough]

theorem takeOperand_minus (operand : takeOperand context tail = .ok (expr, rest))
    : takeOperand context (⟨.symbol .minus, span⟩ :: tail) = .ok (.neg expr, rest) := by
  rw [takeOperand_sign, operand]
  rfl

/-- Unary plus is dropped. -/
theorem takeOperand_plus (operand : takeOperand context tail = .ok (expr, rest))
    : takeOperand context (⟨.symbol .plus, span⟩ :: tail) = .ok (expr, rest) := by
  unfold takeOperand depthFor
  rw [List.length_cons, Nat.mul_succ, readOperand, readOperand_eq_take (by omega), operand]

/-- An operand that begins with none of these is a primary expression and the chain of `@` after it.
-/
theorem takeOperand_of_primary {base : Expr}
    (primary : takePrimary context input = .ok (base, rest))
    : takeOperand context input = takeIndexings context base rest := by
  have shorter := (leaves_of_readPrimary primary).shorter
  have enough : 8 * input.length + 1 ≤ 8 * input.length + 7 := by omega
  unfold takeOperand depthFor
  rw [Nat.mul_succ]
  unfold readOperand
  split
  · simp [takePrimary, depthFor, Nat.mul_succ, readPrimary] at primary
  · simp [takePrimary, depthFor, Nat.mul_succ, readPrimary] at primary
  · simp [takePrimary, depthFor, Nat.mul_succ, readPrimary] at primary
  · rw [readPrimary_eq_take enough, primary]
    exact readIndexings_eq_take base (by omega)

theorem takeOperand_word (word : String) (span : Span) (tail : List Lexeme)
    : takeOperand context (⟨.word word, span⟩ :: tail)
      = takePrimary context (⟨.word word, span⟩ :: tail)
          >>= fun taken => takeIndexings context taken.1 taken.2 := by
  unfold takeOperand depthFor
  rw [Nat.mul_succ, readOperand]
  · rw [readPrimary_eq_take (by omega)]
    refine bind_congr_ok fun taken primary => ?_
    obtain ⟨base, rest⟩ := taken
    have shorter := (leaves_of_readPrimary primary).shorter
    exact readIndexings_eq_take base (by omega)
  all_goals
    intro _ _ same
    cases same

theorem takeIndexings_of_end {base : Expr} (last : afterSymbol? .atSign input = none)
    : takeIndexings context base input = .ok (base, input) := by
  unfold takeIndexings depthFor
  rw [Nat.mul_succ, readIndexings, last]

/-- An `@` takes a primary expression as its right operand. -/
theorem takeIndexings_of_primary {base index : Expr}
    (primary : takePrimary context tail = .ok (index, rest))
    : takeIndexings context base (⟨.symbol .atSign, span⟩ :: tail)
      = takeIndexings context (.binary .index base index) rest := by
  have shorter := (leaves_of_readPrimary primary).shorter
  unfold takeIndexings depthFor
  rw [List.length_cons, Nat.mul_succ, readIndexings]
  simp only [afterSymbol?, if_true]
  rw [readPrimary_eq_take (by omega), primary]
  exact show readIndexings context _ _ rest = _ from readIndexings_eq_take _ (by omega)

theorem takePrimary_int (value : Nat)
    : takePrimary context (⟨.integer value, span⟩ :: tail) = .ok (.int value, tail) := by
  unfold takePrimary depthFor
  rw [Nat.mul_succ, readPrimary]

theorem takePrimary_true
    : takePrimary context (⟨.keyword .truth, span⟩ :: tail) = .ok (.bool true, tail) := by
  unfold takePrimary depthFor
  rw [Nat.mul_succ, readPrimary]

theorem takePrimary_false
    : takePrimary context (⟨.keyword .falsity, span⟩ :: tail) = .ok (.bool false, tail) := by
  unfold takePrimary depthFor
  rw [Nat.mul_succ, readPrimary]

theorem takePrimary_entityType {found : SpannedName} {entity : Nat}
    (named : context.readName tail = .ok (found, rest))
    (declared : context.vocabulary.entity? found.name = some entity)
    : takePrimary context (⟨.keyword .entity, span⟩ :: tail)
      = .ok (.entityType entity found.name, rest) := by
  unfold takePrimary depthFor
  rw [Nat.mul_succ, readPrimary, named]
  simp only [LineContext.entityNamed, declared, bind, Except.bind, pure, Except.pure]

theorem takePrimary_group {close : Span}
    (inner : takeLevel context 0 tail = .ok (expr, ⟨.symbol .closeParen, close⟩ :: rest))
    : takePrimary context (⟨.symbol .openParen, span⟩ :: tail) = .ok (expr, rest) := by
  unfold takePrimary depthFor
  rw [List.length_cons, Nat.mul_succ, readPrimary, readLevel_eq_take _ (by omega), inner]
  rfl

/-- Two or more expressions in parentheses are a list. -/
theorem takePrimary_tuple {more : List Expr} {comma close : Span}
    (first : takeLevel context 0 tail = .ok (expr, ⟨.symbol .comma, comma⟩ :: after))
    (elements
      : takeElements context after = .ok (more, ⟨.symbol .closeParen, close⟩ :: rest))
    : takePrimary context (⟨.symbol .openParen, span⟩ :: tail)
      = .ok (.tuple (expr :: more), rest) := by
  have shorter := (leaves_of_readLevel first).shorter
  simp only [List.length_cons] at shorter
  unfold takePrimary depthFor
  rw [List.length_cons, Nat.mul_succ, readPrimary, readLevel_eq_take _ (by omega), first]
  simp only [afterSymbol?, bind, Except.bind, if_true]
  rw [readElements_eq_take (by omega), elements]
  rfl

theorem takePrimary_param {word : String} {slot : Nat} {kind : SlotKind}
    (bound : context.scope.lookup? word = some (slot, kind))
    : takePrimary context (⟨.word word, span⟩ :: tail) = .ok (.param slot word, tail) := by
  unfold takePrimary depthFor
  rw [Nat.mul_succ, readPrimary, bound]

/-- A name with `exists` after it tests an id, which is a primary expression. -/
theorem takePrimary_isLive {word : String} {found : SpannedName} {entity : Nat}
    (unbound : context.scope.lookup? word = none)
    (named : context.readName (⟨.word word, span⟩ :: tail) = .ok (found, rest))
    (next : afterKeyword? .existence rest = some after)
    (declared : context.vocabulary.entity? found.name = some entity) {last : List Lexeme}
    (id : takePrimary context after = .ok (expr, last))
    : takePrimary context (⟨.word word, span⟩ :: tail)
      = .ok (.isLive entity found.name expr, last) := by
  have shorter := (LineContext.nameFrom_of_readName named).2.shorter
  have taken := (leaves_of_afterKeyword? next).shorter
  unfold takePrimary depthFor
  rw [Nat.mul_succ, readPrimary, unbound]
  dsimp only
  rw [named]
  simp only [bind, Except.bind, next, LineContext.entityNamed, declared]
  rw [readPrimary_eq_take (by omega), id]
  rfl

/-- A name without `exists` after it is read at the index after it. -/
theorem takePrimary_name {word : String} {found : SpannedName} {place : Place}
    (unbound : context.scope.lookup? word = none)
    (named : context.readName (⟨.word word, span⟩ :: tail) = .ok (found, rest))
    (next : afterKeyword? .existence rest = none)
    (declared : context.vocabulary.place? found.name = some place)
    : takePrimary context (⟨.word word, span⟩ :: tail) = (do
        let (index, last) ← takeIndex context rest
        return (.read place found.name index, last)) := by
  have shorter := (LineContext.nameFrom_of_readName named).2.shorter
  unfold takePrimary depthFor
  rw [Nat.mul_succ, readPrimary, unbound]
  dsimp only
  rw [named]
  simp only [bind, Except.bind, next, LineContext.placeNamed, declared]
  rw [readIndex_eq_take (by omega)]

theorem takePrimary_read {word : String} {found : SpannedName} {place : Place}
    (unbound : context.scope.lookup? word = none)
    (named : context.readName (⟨.word word, span⟩ :: tail) = .ok (found, rest))
    (next : afterKeyword? .existence rest = none)
    (declared : context.vocabulary.place? found.name = some place) {last : List Lexeme}
    (index : takeIndex context rest = .ok (expr, last))
    : takePrimary context (⟨.word word, span⟩ :: tail)
      = .ok (.read place found.name expr, last) := by
  rw [takePrimary_name unbound named next declared, index]
  rfl

theorem takeElements_last (element : takeLevel context 0 input = .ok (expr, rest))
    (last : afterSymbol? .comma rest = none)
    : takeElements context input = .ok ([expr], rest) := by
  unfold takeElements depthFor
  rw [Nat.mul_succ, readElements, readLevel_eq_take _ (by omega), element]
  simp only [bind, Except.bind, last]
  rfl

theorem takeElements_more {more : List Expr} {comma : Span}
    (element : takeLevel context 0 input = .ok (expr, ⟨.symbol .comma, comma⟩ :: after))
    (others : takeElements context after = .ok (more, rest))
    : takeElements context input = .ok (expr :: more, rest) := by
  have shorter := (leaves_of_readLevel element).shorter
  simp only [List.length_cons] at shorter
  unfold takeElements depthFor
  rw [Nat.mul_succ, readElements, readLevel_eq_take _ (by omega), element]
  simp only [bind, Except.bind, afterSymbol?, if_true]
  rw [readElements_eq_take (by omega), others]
  rfl

theorem takeIndex_openParen (span : Span) (tail : List Lexeme)
    : takeIndex context (⟨.symbol .openParen, span⟩ :: tail) = (do
        let (index, rest) ← takeLevel context 0 tail
        let rest ← context.expectSymbol .closeParen rest
        return (index, rest)) := by
  unfold takeIndex depthFor
  rw [List.length_cons, Nat.mul_succ, readIndex, readLevel_eq_take _ (by omega)]

theorem takeIndex_group {close : Span}
    (inner : takeLevel context 0 tail = .ok (expr, ⟨.symbol .closeParen, close⟩ :: rest))
    : takeIndex context (⟨.symbol .openParen, span⟩ :: tail) = .ok (expr, rest) := by
  rw [takeIndex_openParen, inner]
  rfl

theorem takeIndex_int (value : Nat)
    : takeIndex context (⟨.integer value, span⟩ :: tail) = .ok (.int value, tail) := by
  unfold takeIndex depthFor
  rw [Nat.mul_succ, readIndex]

theorem takeIndex_param {word : String} {slot : Nat} {kind : SlotKind}
    (bound : context.scope.lookup? word = some (slot, kind))
    : takeIndex context (⟨.word word, span⟩ :: tail) = .ok (.param slot word, tail) := by
  unfold takeIndex depthFor
  rw [Nat.mul_succ, readIndex, bound]

end

end Expr

end Dispatch
