import Dispatch.Expr.Parser
import Dispatch.Proofs.Reading.Sequencing

/-!
The induction behind what is known of all expressions that are read. The readers call one another,
so a statement about all of them is one induction on the bound of their nesting; it is made here
once, for every property of expressions that the readers put together from the lexemes of a line.
-/

namespace Dispatch

-----------------------------------------------------------------------------------------
-- Taking lexemes from the front
-----------------------------------------------------------------------------------------

/-- At least one lexeme was taken from the front of the input, and the rest is left. -/
structure Leaves (input rest : List Lexeme) : Prop where
  suffix : rest <:+ input
  shorter : rest.length < input.length

namespace Leaves

variable {input mid rest : List Lexeme} {lexeme : Lexeme}

theorem of_cons (suffix : rest <:+ mid) : Leaves (lexeme :: mid) rest where
  suffix := suffix.trans (List.suffix_cons lexeme mid)
  shorter := Nat.lt_succ_of_le suffix.length_le

theorem trans (first : Leaves input mid) (second : Leaves mid rest) : Leaves input rest where
  suffix := second.suffix.trans first.suffix
  shorter := Nat.lt_trans second.shorter first.shorter

theorem trans_suffix (first : Leaves input mid) (second : rest <:+ mid) : Leaves input rest where
  suffix := second.trans first.suffix
  shorter := Nat.lt_of_le_of_lt second.length_le first.shorter

end Leaves

theorem exists_of_afterSymbol? {mark : Symbol} {input rest : List Lexeme}
    (found : afterSymbol? mark input = some rest)
    : ∃ span, input = ⟨.symbol mark, span⟩ :: rest := by
  unfold afterSymbol? at found
  split at found
  · rename_i span tail
    split at found
    · rename_i same
      obtain rfl := Option.some.inj found
      exact ⟨span, by rw [same]⟩
    · cases found
  · cases found

theorem leaves_of_afterSymbol? {mark : Symbol} {input rest : List Lexeme}
    (found : afterSymbol? mark input = some rest)
    : Leaves input rest := by
  obtain ⟨span, rfl⟩ := exists_of_afterSymbol? found
  exact .of_cons List.suffix_rfl

theorem exists_of_afterKeyword? {reserved : Keyword} {input rest : List Lexeme}
    (found : afterKeyword? reserved input = some rest)
    : ∃ span, input = ⟨.keyword reserved, span⟩ :: rest := by
  unfold afterKeyword? at found
  split at found
  · rename_i span tail
    split at found
    · rename_i same
      obtain rfl := Option.some.inj found
      exact ⟨span, by rw [same]⟩
    · cases found
  · cases found

theorem leaves_of_afterKeyword? {reserved : Keyword} {input rest : List Lexeme}
    (found : afterKeyword? reserved input = some rest)
    : Leaves input rest := by
  obtain ⟨span, rfl⟩ := exists_of_afterKeyword? found
  exact .of_cons List.suffix_rfl

theorem leaves_of_nextOperator? {op : BinaryOp} {input rest : List Lexeme}
    (found : nextOperator? input = some (op, rest))
    : Leaves input rest := by
  cases input with
  | nil => cases found
  | cons lexeme tail =>
      obtain ⟨_, _, same⟩ := Option.map_eq_some_iff.mp found
      obtain ⟨_, rfl⟩ := Prod.mk.inj same
      exact .of_cons List.suffix_rfl

namespace LineContext

variable {context : LineContext} {input rest : List Lexeme}

theorem afterSymbol?_of_expectSymbol {mark : Symbol}
    (expected : context.expectSymbol mark input = .ok rest)
    : afterSymbol? mark input = some rest := by
  unfold expectSymbol at expected
  split at expected
  · rename_i found
    rwa [← Except.ok.inj expected]
  · cases expected

theorem leaves_of_expectSymbol {mark : Symbol}
    (expected : context.expectSymbol mark input = .ok rest)
    : Leaves input rest :=
  leaves_of_afterSymbol? (afterSymbol?_of_expectSymbol expected)

/-- The leading words are those of the lexemes before the rest, and none is in scope; by induction
on the lexemes. Put together they are the lexemes again.
-/
theorem leadingWords_split (scope : Scope) (input : List Lexeme)
    : input
        = (leadingWords scope input).1.map (fun (word, span) => ⟨.word word, span⟩)
          ++ (leadingWords scope input).2
      ∧ ∀ entry ∈ (leadingWords scope input).1, scope.contains entry.1 = false := by
  induction input with
  | nil => simp [leadingWords]
  | cons lexeme rest ih =>
      obtain ⟨token, span⟩ := lexeme
      cases token with
      | word word =>
          unfold leadingWords
          split
          · simp
          · rename_i unscoped
            simpa [unscoped] using ih
      | keyword | symbol | integer => simp [leadingWords]

theorem entity?_of_entityNamed {found : SpannedName} {entity : Nat}
    (named : context.entityNamed found = .ok entity)
    : context.vocabulary.entity? found.name = some entity := by
  unfold entityNamed at named
  split at named
  · simp_all
  · simp at named

theorem place?_of_placeNamed {found : SpannedName} {place : Place}
    (named : context.placeNamed found = .ok place)
    : context.vocabulary.place? found.name = some place := by
  unfold placeNamed at named
  split at named
  · simp_all
  · simp at named

/-- A name is made of words of the input that are not in scope, joined by single spaces. -/
def NameFrom (context : LineContext) (source : List Lexeme) (name : String) : Prop :=
  ∃ words : List String, words ≠ []
    ∧ (∀ word ∈ words, context.scope.contains word = false ∧ ∃ span, ⟨.word word, span⟩ ∈ source)
    ∧ name = String.ofList (Text.joinWords (words.map String.toList))

/-- A name that is read is spelled by words at the front of the lexemes, and takes at least one of
them.
-/
theorem nameFrom_of_readName {found : SpannedName}
    (read : context.readName input = .ok (found, rest))
    : context.NameFrom input found.name ∧ Leaves input rest := by
  obtain ⟨same, unscoped⟩ := leadingWords_split context.scope input
  unfold readName at read
  split at read
  · cases read
  · rename_i word span more left split
    obtain ⟨rfl, rfl⟩ := Prod.mk.inj (Except.ok.inj read)
    rw [split] at same unscoped
    refine ⟨⟨word :: more.map (·.1), by simp, ?_, rfl⟩, ?_⟩
    · change ∀ other ∈ ((word, span) :: more).map Prod.fst, _
      intro other member
      obtain ⟨entry, entered, rfl⟩ := List.mem_map.mp member
      refine ⟨unscoped entry entered, entry.2, ?_⟩
      rw [same]
      exact List.mem_append_left _ (List.mem_map.mpr ⟨entry, entered, rfl⟩)
    · rw [same]
      exact .of_cons (List.suffix_append _ _)

end LineContext

namespace Expr

-----------------------------------------------------------------------------------------
-- Properties of what is read
-----------------------------------------------------------------------------------------

/-- A property that all expressions have that the readers put together from lexemes of a source and
from expressions that have it.
-/
structure ReadClosed (context : LineContext) (source : List Lexeme) (property : Expr → Prop)
    : Prop where
  int : ∀ {value : Nat} {span}, ⟨.integer value, span⟩ ∈ source → property (.int value)
  zero : property (.int 0)
  bool : ∀ value, property (.bool value)
  tuple
    : ∀ {first more}, property first → more ≠ [] → (∀ element ∈ more, property element)
        → property (.tuple (first :: more))
  param
    : ∀ {word span slot kind}, ⟨.word word, span⟩ ∈ source
        → context.scope.lookup? word = some (slot, kind) → property (.param slot word)
  read
    : ∀ {name place index}, context.NameFrom source name
        → context.vocabulary.place? name = some place → property index
        → property (.read place name index)
  isLive
    : ∀ {name entity id}, context.NameFrom source name
        → context.vocabulary.entity? name = some entity → property id
        → property (.isLive entity name id)
  entityType
    : ∀ {name entity}, context.NameFrom source name
        → context.vocabulary.entity? name = some entity → property (.entityType entity name)
  not : ∀ {operand}, property operand → property (.not operand)
  neg : ∀ {operand}, property operand → property (.neg operand)
  binary : ∀ op {left right}, property left → property right → property (.binary op left right)

/-- At a bound on the nesting, every reader takes lexemes of the source and yields expressions with
the property, given an operand with the property where it continues one.
-/
structure ReadersYield (context : LineContext) (source : List Lexeme) (property : Expr → Prop)
    (depth : Nat) : Prop where
  level
    : ∀ {level input expr rest}, input <:+ source
        → readLevel context depth level input = .ok (expr, rest)
        → property expr ∧ Leaves input rest
  operators
    : ∀ {level left input expr rest}, input <:+ source → property left
        → readOperators context depth level left input = .ok (expr, rest)
        → property expr ∧ rest <:+ input
  operand
    : ∀ {input expr rest}, input <:+ source
        → readOperand context depth input = .ok (expr, rest)
        → property expr ∧ Leaves input rest
  indexings
    : ∀ {base input expr rest}, input <:+ source → property base
        → readIndexings context depth base input = .ok (expr, rest)
        → property expr ∧ rest <:+ input
  primary
    : ∀ {input expr rest}, input <:+ source
        → readPrimary context depth input = .ok (expr, rest)
        → property expr ∧ Leaves input rest
  elements
    : ∀ {input exprs rest}, input <:+ source
        → readElements context depth input = .ok (exprs, rest)
        → (exprs ≠ [] ∧ ∀ element ∈ exprs, property element) ∧ Leaves input rest
  index
    : ∀ {input expr rest}, input <:+ source
        → readIndex context depth input = .ok (expr, rest)
        → property expr ∧ rest <:+ input

variable {context : LineContext} {source : List Lexeme} {property : Expr → Prop} {depth : Nat}

/-- Readers without any depth left yield nothing. -/
theorem ReadersYield.zero : ReadersYield context source property 0 where
  level _ read := by simp [readLevel] at read
  operators _ _ read := by simp [readOperators] at read
  operand _ read := by simp [readOperand] at read
  indexings _ _ read := by simp [readIndexings] at read
  primary _ read := by simp [readPrimary] at read
  elements _ read := by simp [readElements] at read
  index _ read := by simp [readIndex] at read

/-- What a level yields is an operand, or such with operators behind it, and it is taken from the
front.
-/
theorem ReadersYield.level_succ (inner : ReadersYield context source property depth)
    {level input expr rest} (within : input <:+ source)
    (read : readLevel context (depth + 1) level input = .ok (expr, rest))
    : property expr ∧ Leaves input rest := by
  rw [readLevel] at read
  obtain ⟨⟨left, after⟩, operand, operators⟩ := bind_eq_ok_iff.mp read
  obtain ⟨leftHas, leaves⟩ := inner.operand within operand
  obtain ⟨has, suffix⟩ := inner.operators (leaves.suffix.trans within) leftHas operators
  exact ⟨has, leaves.trans_suffix suffix⟩

/-- The operators of a level yield what is left of them, or a binary expression that goes on with
the next operator.
-/
theorem ReadersYield.operators_succ (closed : ReadClosed context source property)
    (inner : ReadersYield context source property depth) {level left input expr rest}
    (within : input <:+ source) (leftHas : property left)
    (read : readOperators context (depth + 1) level left input = .ok (expr, rest))
    : property expr ∧ rest <:+ input := by
  unfold readOperators at read
  split at read
  · obtain ⟨rfl, rfl⟩ := Prod.mk.inj (Except.ok.inj read)
    exact ⟨leftHas, List.suffix_rfl⟩
  · rename_i op tail next
    split at read
    · obtain ⟨rfl, rfl⟩ := Prod.mk.inj (Except.ok.inj read)
      exact ⟨leftHas, List.suffix_rfl⟩
    · obtain ⟨⟨right, after⟩, level, operators⟩ := bind_eq_ok_iff.mp read
      have taken := leaves_of_nextOperator? next
      have tailWithin := taken.suffix.trans within
      obtain ⟨rightHas, leaves⟩ := inner.level tailWithin level
      obtain ⟨has, suffix⟩ := inner.operators (leaves.suffix.trans tailWithin)
        (closed.binary op leftHas rightHas) operators
      exact ⟨has, (taken.trans (leaves.trans_suffix suffix)).suffix⟩

/-- An operand is a negation, a minus sign before an operand, or a primary with its indexings. A
plus sign adds nothing.
-/
theorem ReadersYield.operand_succ (closed : ReadClosed context source property)
    (inner : ReadersYield context source property depth) {input expr rest}
    (within : input <:+ source)
    (read : readOperand context (depth + 1) input = .ok (expr, rest))
    : property expr ∧ Leaves input rest := by
  unfold readOperand at read
  split at read
  · obtain ⟨⟨operand, after⟩, negated, done⟩ := bind_eq_ok_iff.mp read
    obtain ⟨rfl, rfl⟩ := Prod.mk.inj (Except.ok.inj done)
    obtain ⟨has, leaves⟩ := inner.level ((List.suffix_cons _ _).trans within) negated
    exact ⟨closed.not has, .of_cons leaves.suffix⟩
  · obtain ⟨⟨operand, after⟩, signed, done⟩ := bind_eq_ok_iff.mp read
    obtain ⟨rfl, rfl⟩ := Prod.mk.inj (Except.ok.inj done)
    obtain ⟨has, leaves⟩ := inner.operand ((List.suffix_cons _ _).trans within) signed
    exact ⟨closed.neg has, .of_cons leaves.suffix⟩
  · obtain ⟨has, leaves⟩ := inner.operand ((List.suffix_cons _ _).trans within) read
    exact ⟨has, .of_cons leaves.suffix⟩
  · obtain ⟨⟨base, after⟩, primary, indexings⟩ := bind_eq_ok_iff.mp read
    obtain ⟨baseHas, leaves⟩ := inner.primary within primary
    obtain ⟨has, suffix⟩ := inner.indexings (leaves.suffix.trans within) baseHas indexings
    exact ⟨has, leaves.trans_suffix suffix⟩

/-- Indexings yield their base, or the base at an index that goes on with the next one. -/
theorem ReadersYield.indexings_succ (closed : ReadClosed context source property)
    (inner : ReadersYield context source property depth) {base input expr rest}
    (within : input <:+ source) (baseHas : property base)
    (read : readIndexings context (depth + 1) base input = .ok (expr, rest))
    : property expr ∧ rest <:+ input := by
  unfold readIndexings at read
  split at read
  · obtain ⟨rfl, rfl⟩ := Prod.mk.inj (Except.ok.inj read)
    exact ⟨baseHas, List.suffix_rfl⟩
  · rename_i tail next
    obtain ⟨⟨index, after⟩, primary, indexings⟩ := bind_eq_ok_iff.mp read
    have taken := leaves_of_afterSymbol? next
    have tailWithin := taken.suffix.trans within
    obtain ⟨indexHas, leaves⟩ := inner.primary tailWithin primary
    obtain ⟨has, suffix⟩ := inner.indexings (leaves.suffix.trans tailWithin)
      (closed.binary .index baseHas indexHas) indexings
    exact ⟨has, (taken.trans (leaves.trans_suffix suffix)).suffix⟩

/-- A name of a part of the source is one of the source. -/
theorem nameFrom_of_suffix {input : List Lexeme} {name : String} (within : input <:+ source)
    (found : context.NameFrom input name)
    : context.NameFrom source name := by
  obtain ⟨words, some, each, same⟩ := found
  refine ⟨words, some, fun word member => ?_, same⟩
  obtain ⟨unscoped, span, inside⟩ := each word member
  exact ⟨unscoped, span, within.subset inside⟩

/-- A primary has the property by cases on its first lexeme. Each way to read a primary is one of
the closures that the property has.
-/
theorem ReadersYield.primary_succ (closed : ReadClosed context source property)
    (inner : ReadersYield context source property depth) {input expr rest}
    (within : input <:+ source)
    (read : readPrimary context (depth + 1) input = .ok (expr, rest))
    : property expr ∧ Leaves input rest := by
  have first {lexeme : Lexeme} {tail : List Lexeme} (within : lexeme :: tail <:+ source)
      : lexeme ∈ source :=
    within.subset List.mem_cons_self
  unfold readPrimary at read
  split at read
  · obtain ⟨rfl, rfl⟩ := Prod.mk.inj (Except.ok.inj read)
    exact ⟨closed.int (first within), .of_cons List.suffix_rfl⟩
  · obtain ⟨rfl, rfl⟩ := Prod.mk.inj (Except.ok.inj read)
    exact ⟨closed.bool true, .of_cons List.suffix_rfl⟩
  · obtain ⟨rfl, rfl⟩ := Prod.mk.inj (Except.ok.inj read)
    exact ⟨closed.bool false, .of_cons List.suffix_rfl⟩
  · obtain ⟨⟨found, after⟩, nameRead, named⟩ := bind_eq_ok_iff.mp read
    obtain ⟨entity, entityFound, done⟩ := bind_eq_ok_iff.mp named
    obtain ⟨rfl, rfl⟩ := Prod.mk.inj (Except.ok.inj done)
    obtain ⟨name, leaves⟩ := LineContext.nameFrom_of_readName nameRead
    have known := nameFrom_of_suffix ((List.suffix_cons _ _).trans within) name
    exact ⟨closed.entityType known (LineContext.entity?_of_entityNamed entityFound),
      .of_cons leaves.suffix⟩
  · have tailWithin := (List.suffix_cons _ _).trans within
    obtain ⟨⟨one, after⟩, level, closing⟩ := bind_eq_ok_iff.mp read
    obtain ⟨oneHas, leaves⟩ := inner.level tailWithin level
    dsimp only at closing
    split at closing
    · obtain ⟨_, closed, done⟩ := bind_eq_ok_iff.mp closing
      obtain ⟨rfl, rfl⟩ := Prod.mk.inj (Except.ok.inj done)
      exact ⟨oneHas, .of_cons (leaves.trans (LineContext.leaves_of_expectSymbol closed)).suffix⟩
    · rename_i next
      have taken := leaves.trans (leaves_of_afterSymbol? next)
      obtain ⟨⟨more, last⟩, elements, closing⟩ := bind_eq_ok_iff.mp closing
      obtain ⟨⟨some, moreHave⟩, moreLeaves⟩ :=
        inner.elements (taken.suffix.trans tailWithin) elements
      obtain ⟨_, closedBy, done⟩ := bind_eq_ok_iff.mp closing
      obtain ⟨rfl, rfl⟩ := Prod.mk.inj (Except.ok.inj done)
      have whole := (taken.trans moreLeaves).trans (LineContext.leaves_of_expectSymbol closedBy)
      exact ⟨closed.tuple oneHas some moreHave, .of_cons whole.suffix⟩
  · split at read
    · rename_i slot kind bound
      obtain ⟨rfl, rfl⟩ := Prod.mk.inj (Except.ok.inj read)
      exact ⟨closed.param (first within) bound, .of_cons List.suffix_rfl⟩
    · obtain ⟨⟨found, after⟩, nameRead, named⟩ := bind_eq_ok_iff.mp read
      obtain ⟨name, leaves⟩ := LineContext.nameFrom_of_readName nameRead
      have known := nameFrom_of_suffix within name
      dsimp only at named
      split at named
      · rename_i next
        have taken := leaves.trans (leaves_of_afterKeyword? next)
        obtain ⟨entity, entityFound, named⟩ := bind_eq_ok_iff.mp named
        obtain ⟨⟨id, last⟩, primary, done⟩ := bind_eq_ok_iff.mp named
        obtain ⟨rfl, rfl⟩ := Prod.mk.inj (Except.ok.inj done)
        obtain ⟨idHas, idLeaves⟩ := inner.primary (taken.suffix.trans within) primary
        exact ⟨closed.isLive known (LineContext.entity?_of_entityNamed entityFound) idHas,
          taken.trans idLeaves⟩
      · obtain ⟨place, placeFound, named⟩ := bind_eq_ok_iff.mp named
        obtain ⟨⟨index, last⟩, indexRead, done⟩ := bind_eq_ok_iff.mp named
        obtain ⟨rfl, rfl⟩ := Prod.mk.inj (Except.ok.inj done)
        obtain ⟨indexHas, suffix⟩ := inner.index (leaves.suffix.trans within) indexRead
        exact ⟨closed.read known (LineContext.place?_of_placeNamed placeFound) indexHas,
          leaves.trans_suffix suffix⟩
  · simp at read

/-- The elements of a list are one or more expressions with the property. -/
theorem ReadersYield.elements_succ (inner : ReadersYield context source property depth)
    {input exprs rest} (within : input <:+ source)
    (read : readElements context (depth + 1) input = .ok (exprs, rest))
    : (exprs ≠ [] ∧ ∀ element ∈ exprs, property element) ∧ Leaves input rest := by
  rw [readElements] at read
  obtain ⟨⟨element, after⟩, level, more⟩ := bind_eq_ok_iff.mp read
  obtain ⟨has, leaves⟩ := inner.level within level
  dsimp only at more
  split at more
  · obtain ⟨rfl, rfl⟩ := Prod.mk.inj (Except.ok.inj more)
    exact ⟨⟨nofun, List.forall_mem_singleton.mpr has⟩, leaves⟩
  · rename_i next
    obtain ⟨⟨others, last⟩, elements, done⟩ := bind_eq_ok_iff.mp more
    obtain ⟨rfl, rfl⟩ := Prod.mk.inj (Except.ok.inj done)
    have taken := leaves.trans (leaves_of_afterSymbol? next)
    obtain ⟨⟨_, othersHave⟩, othersLeave⟩ := inner.elements (taken.suffix.trans within) elements
    exact ⟨⟨nofun, List.forall_mem_cons.mpr ⟨has, othersHave⟩⟩, taken.trans othersLeave⟩

/-- An index is an integer, a parameter, an expression in parentheses, or absent. It may leave all
of its lexemes.
-/
theorem ReadersYield.index_succ (closed : ReadClosed context source property)
    (inner : ReadersYield context source property depth) {input expr rest}
    (within : input <:+ source)
    (read : readIndex context (depth + 1) input = .ok (expr, rest))
    : property expr ∧ rest <:+ input := by
  unfold readIndex at read
  split at read
  · obtain ⟨⟨index, after⟩, level, closing⟩ := bind_eq_ok_iff.mp read
    obtain ⟨_, closedBy, done⟩ := bind_eq_ok_iff.mp closing
    obtain ⟨rfl, rfl⟩ := Prod.mk.inj (Except.ok.inj done)
    obtain ⟨has, leaves⟩ := inner.level ((List.suffix_cons _ _).trans within) level
    have taken := leaves.trans (LineContext.leaves_of_expectSymbol closedBy)
    exact ⟨has, taken.suffix.trans (List.suffix_cons _ _)⟩
  · obtain ⟨rfl, rfl⟩ := Prod.mk.inj (Except.ok.inj read)
    exact ⟨closed.int (within.subset List.mem_cons_self), List.suffix_cons _ _⟩
  · split at read
    · rename_i slot kind bound
      obtain ⟨rfl, rfl⟩ := Prod.mk.inj (Except.ok.inj read)
      exact ⟨closed.param (within.subset List.mem_cons_self) bound, List.suffix_cons _ _⟩
    · obtain ⟨rfl, rfl⟩ := Prod.mk.inj (Except.ok.inj read)
      exact ⟨closed.zero, List.suffix_rfl⟩
  · obtain ⟨rfl, rfl⟩ := Prod.mk.inj (Except.ok.inj read)
    exact ⟨closed.zero, List.suffix_rfl⟩

/-- All readers take lexemes from the front and yield expressions with a property that is closed
under reading, at every bound on their nesting; by induction on the bound.

This is the only induction over the mutual readers: what is shown of expressions that were read,
such as that they are in scope or can be printed, is a property that is closed.
-/
theorem readersYield (closed : ReadClosed context source property) (depth : Nat)
    : ReadersYield context source property depth := by
  induction depth with
  | zero => exact .zero
  | succ depth inner =>
      exact {
        level := inner.level_succ
        operators := inner.operators_succ closed
        operand := inner.operand_succ closed
        indexings := inner.indexings_succ closed
        primary := inner.primary_succ closed
        elements := inner.elements_succ
        index := inner.index_succ closed
      }

-----------------------------------------------------------------------------------------
-- Expressions of a line
-----------------------------------------------------------------------------------------

/-- A line is read as an expression exactly when its text has tokens and the expression takes all of
them. Positions take no part in it, as they are only kept for errors.
-/
theorem ofLine_eq_ok_iff {names : Names} {line : Line} {expr : Expr}
    : ofLine names line = .ok expr
      ↔ ∃ tokens, TokenLine.read line.position line.text = .ok tokens
          ∧ readExpr ⟨names, tokens.stop⟩ tokens.lexemes = .ok (expr, []) := by
  constructor
  · intro read
    obtain ⟨⟨context, input⟩, opened, read⟩ := bind_eq_ok_iff.mp read
    obtain ⟨tokens, lexed, done⟩ := bind_eq_ok_iff.mp opened
    obtain ⟨rfl, rfl⟩ := Prod.mk.inj (Except.ok.inj done)
    obtain ⟨⟨found, rest⟩, exprRead, read⟩ := bind_eq_ok_iff.mp read
    obtain ⟨_, ended, done⟩ := bind_eq_ok_iff.mp read
    obtain rfl := Except.ok.inj done
    unfold LineContext.expectEnd at ended
    split at ended
    · rename_i empty
      obtain rfl := List.isEmpty_iff.mp empty
      exact ⟨tokens, lexed, exprRead⟩
    · cases ended
  · rintro ⟨tokens, lexed, read⟩
    refine bind_eq_ok_iff.mpr ⟨(⟨names, tokens.stop⟩, tokens.lexemes), ?_, ?_⟩
    · exact bind_eq_ok_iff.mpr ⟨tokens, lexed, rfl⟩
    · exact bind_eq_ok_iff.mpr ⟨(expr, []), read, rfl⟩

end Expr

end Dispatch
