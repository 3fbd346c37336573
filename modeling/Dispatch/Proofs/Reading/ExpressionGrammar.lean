import Dispatch.Proofs.Reading.PhraseRules

/-!
The expression reader implements the grammar of expressions. The grammar has a category for each
level of operators, whose phrases are chains that associate to the left; the reader climbs from
level to level instead. It reads every phrase as the tree that the grammar derives, so there is no
other tree for it.
-/

namespace Dispatch

-----------------------------------------------------------------------------------------
-- The grammar
-----------------------------------------------------------------------------------------

/-- The categories of phrases. -/
inductive Category where
  | disjunction
  | conjunction
  | negation
  | comparison
  | sum
  | product
  | signed
  | indexed
  | primary
  /-- What may follow a name as its index. -/
  | index
  /-- Two or more expressions with commas between them. -/
  | list
deriving DecidableEq

namespace Category

/-- The operators that join the phrases of a chain. -/
def operators : Category → List BinaryOp
  | .disjunction => [.or]
  | .conjunction => [.and]
  | .comparison =>
      [.equal, .notEqual, .less, .lessEqual, .greater, .greaterEqual, .contains]
  | .sum => [.add, .sub]
  | .product => [.mul, .div]
  | .indexed => [.index]
  | .negation | .signed | .primary | .index | .list => []

/-- The category whose phrases stand for themselves in the category; one that has no such category
has itself.
-/
def tighter : Category → Category
  | .disjunction => .conjunction
  | .conjunction => .negation
  | .negation => .comparison
  | .comparison => .sum
  | .sum => .product
  | .product => .signed
  | .signed => .indexed
  | .indexed => .primary
  | .primary => .primary
  | .index => .index
  | .list => .list

end Category

/-- The tokens are a phrase of the category, and the expression is its tree. -/
inductive Derives (names : Names) : Category → List Token → Expr → Prop where
  /-- A chain goes on with an operator and a tighter phrase, and associates to the left. -/
  | chain {category op token lefts rights left right} (joins : op ∈ category.operators)
      (first : Derives names category lefts left) (spells : Spells token op)
      (next : Derives names category.tighter rights right)
      : Derives names category (lefts ++ token :: rights) (.binary op left right)
  | single {category tokens expr} (phrase : Derives names category.tighter tokens expr)
      : Derives names category tokens expr
  | not {tokens operand} (phrase : Derives names .negation tokens operand)
      : Derives names .negation (.keyword .negation :: tokens) (.not operand)
  | minus {tokens operand} (phrase : Derives names .signed tokens operand)
      : Derives names .signed (.symbol .minus :: tokens) (.neg operand)
  /-- Unary plus is dropped. -/
  | plus {tokens operand} (phrase : Derives names .signed tokens operand)
      : Derives names .signed (.symbol .plus :: tokens) operand
  | int (value : Nat) : Derives names .primary [.integer value] (.int value)
  | truth : Derives names .primary [.keyword .truth] (.bool true)
  | falsity : Derives names .primary [.keyword .falsity] (.bool false)
  | entityType {tokens name entity} (named : IsName names.scope tokens name)
      (declared : names.vocabulary.entity? name = some entity)
      : Derives names .primary (.keyword .entity :: tokens) (.entityType entity name)
  | param {word slot kind} (bound : names.scope.lookup? word = some (slot, kind))
      : Derives names .primary [.word word] (.param slot word)
  | isLive {tokens name entity ids id} (named : IsName names.scope tokens name)
      (declared : names.vocabulary.entity? name = some entity)
      (tested : Derives names .primary ids id)
      : Derives names .primary (tokens ++ .keyword .existence :: ids) (.isLive entity name id)
  /-- An index that is left out is zero. -/
  | read {tokens name place} (named : IsName names.scope tokens name)
      (declared : names.vocabulary.place? name = some place)
      : Derives names .primary tokens (.read place name (.int 0))
  | readAt {tokens name place indices index} (named : IsName names.scope tokens name)
      (declared : names.vocabulary.place? name = some place)
      (at_ : Derives names .index indices index)
      : Derives names .primary (tokens ++ indices) (.read place name index)
  | group {tokens expr} (inner : Derives names .disjunction tokens expr)
      : Derives names .primary (.symbol .openParen :: tokens ++ [.symbol .closeParen]) expr
  | tuple {tokens elements} (inner : Derives names .list tokens (.tuple elements))
      : Derives names .primary (.symbol .openParen :: tokens ++ [.symbol .closeParen])
          (.tuple elements)
  | indexGroup {tokens expr} (inner : Derives names .disjunction tokens expr)
      : Derives names .index (.symbol .openParen :: tokens ++ [.symbol .closeParen]) expr
  | indexInt (value : Nat) : Derives names .index [.integer value] (.int value)
  | indexParam {word slot kind} (bound : names.scope.lookup? word = some (slot, kind))
      : Derives names .index [.word word] (.param slot word)
  | pair {firsts seconds first second} (one : Derives names .disjunction firsts first)
      (other : Derives names .disjunction seconds second)
      : Derives names .list (firsts ++ .symbol .comma :: seconds) (.tuple [first, second])
  | more {firsts others first elements} (one : Derives names .disjunction firsts first)
      (rest : Derives names .list others (.tuple elements))
      : Derives names .list (firsts ++ .symbol .comma :: others) (.tuple (first :: elements))

-----------------------------------------------------------------------------------------
-- Reading phrases
-----------------------------------------------------------------------------------------

namespace Category

open Dispatch.Expr

/-- What reading the tokens of a phrase does. The reader takes an operand of `not` at the level of
comparisons, so it must be able to begin a negation there.
-/
def Reads (context : LineContext) (tokens : List Token) (expr : Expr) : Category → Prop
  | .disjunction => ReadsLevel context tokens expr 1 1
  | .conjunction => ReadsLevel context tokens expr 2 2
  | .negation => ReadsLevel context tokens expr 3 comparisonLevel
  | .comparison => ReadsLevel context tokens expr 4 4
  | .sum => ReadsLevel context tokens expr 5 5
  | .product => ReadsLevel context tokens expr 6 6
  | .signed => ReadsOperand context tokens expr
  | .indexed => ReadsIndexed context tokens expr
  | .primary => ReadsPrimary context tokens expr
  | .index => ReadsIndex context tokens expr
  | .list =>
      ∃ firsts others first more,
        tokens = firsts ++ .symbol .comma :: others ∧ expr = .tuple (first :: more)
        ∧ ReadsWhole context firsts first ∧ ReadsElements context others more

variable {context : LineContext} {category : Category} {tokens : List Token} {expr : Expr}

/-- A phrase of the next tighter category is read as one of the category, by cases on the category.
-/
theorem Reads.of_tighter (reads : category.tighter.Reads context tokens expr)
    : category.Reads context tokens expr := by
  cases category with
  | disjunction => exact ReadsLevel.mono reads (by decide) (by decide)
  | conjunction => exact ReadsLevel.mono reads (by decide) (by decide)
  | negation => exact ReadsLevel.mono reads (by decide) (by decide)
  | comparison => exact ReadsLevel.mono reads (by decide) (by decide)
  | sum => exact ReadsLevel.mono reads (by decide) (by decide)
  | product => exact ReadsLevel.of_operand reads (by decide) 6
  | signed => exact .of_indexed reads
  | indexed => exact .of_primary reads
  | primary => exact reads
  | index => exact reads
  | list => exact reads

/-- A phrase of a category goes on with an operator of the category and a tighter phrase. The tree
of the whole is that of the first phrase and the second one, from the left.
-/
theorem Reads.chain {op : BinaryOp} {token : Token} {lefts rights : List Token} {left right : Expr}
    (joins : op ∈ category.operators) (first : category.Reads context lefts left)
    (spells : Spells token op) (next : category.tighter.Reads context rights right)
    : category.Reads context (lefts ++ token :: rights) (.binary op left right) := by
  cases category with
  | disjunction =>
      have same : op.level = 1 := by cases op <;> simp_all [operators, BinaryOp.level]
      exact ReadsLevel.chain first spells same (by decide) next (by decide) (by decide)
  | conjunction =>
      have same : op.level = 2 := by cases op <;> simp_all [operators, BinaryOp.level]
      exact ReadsLevel.chain first spells same (by decide) next (by decide) (by decide)
  | comparison =>
      have same : op.level = 4 := by cases op <;> simp_all [operators, BinaryOp.level]
      exact ReadsLevel.chain first spells same (by decide) next (by decide) (by decide)
  | sum =>
      have same : op.level = 5 := by cases op <;> simp_all [operators, BinaryOp.level]
      exact ReadsLevel.chain first spells same (by decide) next (by decide) (by decide)
  | product =>
      have same : op.level = 6 := by cases op <;> simp_all [operators, BinaryOp.level]
      have operand : ReadsLevel context rights right 7 7 := .of_operand next (by decide) 7
      exact ReadsLevel.chain first spells same (by decide) operand (by decide) (by decide)
  | indexed =>
      obtain rfl := List.mem_singleton.mp joins
      cases spells
      exact ReadsIndexed.chain first next
  | negation | signed | primary | index | list => cases joins

end Category

open Category Dispatch.Expr in
/-- The reader takes every phrase as the tree that the grammar derives, by induction on the
derivation. Each rule of the grammar has a rule of reading.
-/
theorem Derives.reads {context : LineContext} {category : Category} {tokens : List Token}
    {expr : Expr} (derives : Derives context.toNames category tokens expr)
    : category.Reads context tokens expr := by
  induction derives with
  | chain joins _ spells _ first next => exact .chain joins first spells next
  | single _ phrase => exact .of_tighter phrase
  | not _ phrase => exact ReadsLevel.not phrase (by decide)
  | minus _ phrase => exact ReadsOperand.minus phrase
  | plus _ phrase => exact ReadsOperand.plus phrase
  | int value => exact ReadsPrimary.int value
  | truth => exact ReadsPrimary.truth
  | falsity => exact ReadsPrimary.falsity
  | entityType named declared => exact ReadsPrimary.entityType named declared
  | param bound => exact ReadsPrimary.param bound
  | isLive named declared _ tested => exact ReadsPrimary.isLive named declared tested
  | read named declared => exact ReadsPrimary.read named declared
  | readAt named declared _ index => exact ReadsPrimary.readAt named declared index
  | group _ inner => exact ReadsPrimary.group (ReadsLevel.whole inner)
  | tuple _ inner =>
      obtain ⟨firsts, others, first, more, rfl, same, firstReads, moreRead⟩ := inner
      obtain rfl := Expr.tuple.inj same
      exact ReadsPrimary.tuple firstReads moreRead
  | indexGroup _ inner => exact ReadsIndex.group (ReadsLevel.whole inner)
  | indexInt value => exact ReadsIndex.int value
  | indexParam bound => exact ReadsIndex.param bound
  | pair _ _ one other =>
      exact ⟨_, _, _, _, rfl, rfl, ReadsLevel.whole one, .single (ReadsLevel.whole other)⟩
  | more _ _ one others =>
      obtain ⟨firsts, others, first, more, rfl, same, firstReads, moreRead⟩ := others
      obtain rfl := Expr.tuple.inj same
      exact ⟨_, _, _, _, rfl, rfl, ReadsLevel.whole one, .cons firstReads moreRead⟩

namespace Expr

/-- All the lexemes of a disjunction are read, and its tree is the result. -/
theorem readExpr_of_derives {context : LineContext} {input : List Lexeme} {expr : Expr}
    (derives : Derives context.toNames .disjunction (input.map (·.token)) expr)
    : readExpr context input = .ok (expr, []) := by
  have whole := ReadsLevel.whole derives.reads input rfl [] .nil
  rwa [List.append_nil] at whole

theorem ofLine_of_lexed {names : Names} {line : Line} {tokens : TokenLine} {expr : Expr}
    (lexed : TokenLine.read line.position line.text = .ok tokens)
    (derives : Derives names .disjunction (tokens.lexemes.map (·.token)) expr)
    : ofLine names line = .ok expr :=
  ofLine_eq_ok_iff.mpr ⟨tokens, lexed, readExpr_of_derives derives⟩

/-- The expression reader implements the grammar. For every vocabulary and scope, a line whose
tokens the grammar derives as an expression is read as the tree of the derivation; and the grammar
is unambiguous, as no tokens have derivations with different trees.

The second part follows from the first: both trees are what the reader makes of the tokens.
-/
theorem ofLine_of_derives (names : Names)
    : (∀ (line : Line) (tokens : TokenLine) (expr : Expr),
        TokenLine.read line.position line.text = .ok tokens
        → Derives names .disjunction (tokens.lexemes.map (·.token)) expr
        → ofLine names line = .ok expr)
      ∧ ∀ (tokens : List Token) (left right : Expr),
          Derives names .disjunction tokens left
          → Derives names .disjunction tokens right
          → left = right := by
  constructor
  · exact fun line tokens expr => ofLine_of_lexed
  · intro tokens left right leftDerives rightDerives
    -- The tokens are read with any spans, and the reader has one result.
    let context : LineContext := ⟨names, ⟨0, 0, 1, 1⟩⟩
    let input : List Lexeme := tokens.map fun token => ⟨token, context.stop⟩
    have same : input.map (·.token) = tokens := by simp [input, Function.comp_def]
    have leftRead : readExpr context input = .ok (left, []) :=
      readExpr_of_derives (same.symm ▸ leftDerives)
    have rightRead : readExpr context input = .ok (right, []) :=
      readExpr_of_derives (same.symm ▸ rightDerives)
    rw [leftRead] at rightRead
    exact (Prod.mk.inj (Except.ok.inj rightRead)).1

/-- A variable of two words, an entity type, and a parameter in scope. -/
def cargoNames : Names where
  vocabulary :=
    ⟨[⟨"Vehicle", 0, none, none, 1⟩], [("Vehicle", 0)], [], [],
      [⟨"cargo level", .var 0, .int⟩]⟩
  scope := ⟨[⟨"v", .entity 0⟩]⟩

/-- A line that compares the cargo of the parameter and tests for a vehicle. -/
def cargoLine : Line :=
  ⟨"not cargo level v < - 2 * 3 and Vehicle exists v or true".toList, 1, 1⟩

/-- The tree of the line: the parameter is the index of the variable, and `not` extends over the
comparison alone.
-/
def cargoExpr : Expr :=
  .binary .or
    (.binary .and
      (.not (.binary .less (.read (.var 0) "cargo level" (.param 0 "v"))
        (.binary .mul (.neg (.int 2)) (.int 3))))
      (.isLive 0 "Vehicle" (.param 0 "v")))
    (.bool true)

/-- The tokens of the line. -/
def cargoTokens : List Token :=
  [.keyword .negation, .word "cargo", .word "level", .word "v", .symbol .less, .symbol .minus,
    .integer 2, .symbol .star, .integer 3, .keyword .conjunction, .word "Vehicle",
    .keyword .existence, .word "v", .keyword .disjunction, .keyword .truth]

theorem derives_cargo : Derives cargoNames .disjunction cargoTokens cargoExpr := by
  have bound : cargoNames.scope.lookup? "v" = some (0, .entity 0) := by decide
  have level
      : Derives cargoNames .primary ([.word "cargo", .word "level"] ++ [.word "v"])
          (.read (.var 0) "cargo level" (.param 0 "v")) :=
    .readAt ⟨["cargo", "level"], by decide, by decide, rfl, by decide⟩ rfl
      (.indexParam bound)
  have product
      : Derives cargoNames .product ([.symbol .minus, .integer 2] ++ .symbol .star :: [.integer 3])
          (.binary .mul (.neg (.int 2)) (.int 3)) :=
    .chain (by decide) (.single (.minus (.single (.single (.int 2))))) .mul
      (.single (.single (.int 3)))
  have less := Derives.chain (by decide : .less ∈ Category.comparison.operators)
    (.single (.single (.single (.single (.single level))))) .less (.single product)
  have live
      : Derives cargoNames .primary ([.word "Vehicle"] ++ .keyword .existence :: [.word "v"])
          (.isLive 0 "Vehicle" (.param 0 "v")) :=
    .isLive ⟨["Vehicle"], by decide, by decide, rfl, by decide⟩ rfl (.param bound)
  have both := Derives.chain (by decide : .and ∈ Category.conjunction.operators)
    (.single (.not (.single less))) .and
    (.single (.single (.single (.single (.single (.single (.single live)))))))
  exact .chain (by decide : .or ∈ Category.disjunction.operators) (.single both) .or
    (.single (.single (.single (.single (.single (.single (.single (.single .truth))))))))

/-- Witness: the grammar derives the tokens of the line as its tree, so the reader yields this tree.
-/
theorem ofLine_of_derives_cargo
    : ∃ tokens, TokenLine.read cargoLine.position cargoLine.text = .ok tokens
        ∧ Derives cargoNames .disjunction (tokens.lexemes.map (·.token)) cargoExpr
        ∧ ofLine cargoNames cargoLine = .ok cargoExpr := by
  have lexed : (TokenLine.read cargoLine.position cargoLine.text).toOption.map
      (·.lexemes.map (·.token)) = some cargoTokens := by
    decide +kernel
  obtain ⟨tokens, found, same⟩ := Option.map_eq_some_iff.mp lexed
  have derives := same.symm ▸ derives_cargo
  exact ⟨tokens, ok_of_toOption found, derives,
    (ofLine_of_derives cargoNames).1 cargoLine tokens cargoExpr (ok_of_toOption found) derives⟩

end Expr

end Dispatch
