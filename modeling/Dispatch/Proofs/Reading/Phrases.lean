import Dispatch.Proofs.Reading.ReaderDepth
import Dispatch.Text.Joined

/-!
Where phrases end. What may follow a phrase is an operator that is not tighter than those inside it,
a comma or a closing parenthesis; none of these continues a name or begins an index, so a phrase
ends where the reader stops.
-/

namespace Dispatch

-----------------------------------------------------------------------------------------
-- Operators
-----------------------------------------------------------------------------------------

/-- The tokens that stand for an operator between its operands. -/
inductive Spells : Token → BinaryOp → Prop where
  | or : Spells (.keyword .disjunction) .or
  | and : Spells (.keyword .conjunction) .and
  | assign : Spells (.symbol .assign) .equal
  | equal : Spells (.symbol .equal) .equal
  | notEqual : Spells (.symbol .notEqual) .notEqual
  | less : Spells (.symbol .less) .less
  | lessEqual : Spells (.symbol .lessEqual) .lessEqual
  | greater : Spells (.symbol .greater) .greater
  | greaterEqual : Spells (.symbol .greaterEqual) .greaterEqual
  | contains : Spells (.symbol .question) .contains
  | add : Spells (.symbol .plus) .add
  | sub : Spells (.symbol .minus) .sub
  | mul : Spells (.symbol .star) .mul
  | div : Spells (.symbol .slash) .div
  | index : Spells (.symbol .atSign) .index

/-- The operator that the reader finds in a token is the one that the token spells; it reads `@`
elsewhere.
-/
theorem ofToken?_of_spells {token : Token} {op : BinaryOp} (spells : Spells token op)
    (binary : op ≠ .index)
    : BinaryOp.ofToken? token = some op := by
  cases spells <;> first | rfl | exact absurd rfl binary

-----------------------------------------------------------------------------------------
-- What follows a phrase
-----------------------------------------------------------------------------------------

/-- The token may follow a phrase of operators of at least the given level. -/
inductive EndsPhrase (level : Nat) : Token → Prop where
  | close : EndsPhrase level (.symbol .closeParen)
  | comma : EndsPhrase level (.symbol .comma)
  | operator {token op} (spells : Spells token op) (loose : op.level ≤ level)
      : EndsPhrase level token

theorem EndsPhrase.mono {level wider : Nat} {token : Token} (ends : EndsPhrase level token)
    (wide : level ≤ wider)
    : EndsPhrase wider token := by
  cases ends with
  | close => exact .close
  | comma => exact .comma
  | operator spells loose => exact .operator spells (Nat.le_trans loose wide)

/-- The lexemes may follow a phrase of operators of at least the given level: there are none, or the
first of them ends such a phrase.
-/
def Follows (level : Nat) (rest : List Lexeme) : Prop :=
  ∀ lexeme tail, rest = lexeme :: tail → EndsPhrase level lexeme.token

namespace Follows

variable {level : Nat} {rest tail : List Lexeme}

theorem nil : Follows level [] := nofun

theorem of_token {lexeme : Lexeme} (ends : EndsPhrase level lexeme.token)
    : Follows level (lexeme :: tail) := by
  intro _ _ same
  obtain ⟨rfl, _⟩ := List.cons.inj same
  exact ends

theorem close {span : Span} : Follows level (⟨.symbol .closeParen, span⟩ :: tail) :=
  of_token .close

theorem comma {span : Span} : Follows level (⟨.symbol .comma, span⟩ :: tail) := of_token .comma

theorem mono {wider : Nat} (follows : Follows level rest) (wide : level ≤ wider)
    : Follows wider rest :=
  fun lexeme tail same => (follows lexeme tail same).mono wide

/-- The operators that follow are loose enough for the reader to stop: they are at most at the level
of the phrase.
-/
theorem loose (follows : Follows level rest) {bound : Nat} (below : level < bound) (op : BinaryOp)
    (tail : List Lexeme) (next : nextOperator? rest = some (op, tail))
    : op.level < bound := by
  cases rest with
  | nil => cases next
  | cons lexeme others =>
      obtain ⟨found, ofToken, same⟩ := Option.map_eq_some_iff.mp next
      obtain ⟨rfl, rfl⟩ := Prod.mk.inj same
      have ends := follows lexeme others rfl
      generalize lexeme.token = token at ofToken ends
      cases ends with
      | close => cases ofToken
      | comma => cases ofToken
      | @operator _ spelled spells loose =>
          by_cases binary : spelled = .index
          · subst binary
            cases spells
            cases ofToken
          · rw [ofToken?_of_spells spells binary] at ofToken
            obtain rfl := Option.some.inj ofToken
            omega

/-- Every operator is tighter than level zero, so none follows at that level. -/
theorem no_operator (follows : Follows 0 rest) : nextOperator? rest = none := by
  cases next : nextOperator? rest with
  | none => rfl
  | some found =>
      have loosest := follows.loose (Nat.lt_succ_self 0) found.1 found.2 next
      cases op : found.1 <;> simp [op, BinaryOp.level] at loosest

/-- Where only operators between operands follow, there is no `@`. -/
theorem no_atSign (follows : Follows level rest) (below : level < 8)
    : afterSymbol? .atSign rest = none := by
  unfold afterSymbol?
  split
  · rename_i found span tail
    split
    · rename_i same
      subst same
      cases follows _ _ rfl with
      | operator spells loose =>
          cases spells
          simp only [BinaryOp.level] at loose
          omega
    · rfl
  · rfl

theorem no_exists (follows : Follows level rest) : afterKeyword? .existence rest = none := by
  unfold afterKeyword?
  split
  · split
    · rename_i same
      subst same
      cases follows _ _ rfl with
      | operator spells loose => cases spells
    · rfl
  · rfl

theorem no_word (follows : Follows level rest) {word : String} {span : Span}
    : rest ≠ ⟨.word word, span⟩ :: tail := by
  intro same
  cases follows _ _ same with
  | operator spells loose => cases spells

/-- What follows a phrase is not an index, so that a name at its end is read at index 0. -/
theorem not_index {context : LineContext} (follows : Follows level rest)
    : Expr.takeIndex context rest = .ok (.int 0, rest) := by
  unfold Expr.takeIndex Expr.depthFor
  rw [Nat.mul_succ]
  unfold Expr.readIndex
  split
  · cases follows _ _ rfl with
    | operator spells loose => cases spells
  · cases follows _ _ rfl with
    | operator spells loose => cases spells
  · exact absurd rfl follows.no_word
  · rfl

end Follows

-----------------------------------------------------------------------------------------
-- Names
-----------------------------------------------------------------------------------------

/-- The tokens are the words of a name, none of which is in scope; the name joins them by single
spaces.
-/
def IsName (scope : Scope) (tokens : List Token) (name : String) : Prop :=
  ∃ words : List String, words ≠ [] ∧ (∀ word ∈ words, scope.contains word = false)
    ∧ tokens = words.map Token.word ∧ name = joined " " words

/-- Joining words as characters is joining them as texts, by induction on the words. -/
theorem joinWords_eq_joined (words : List String)
    : String.ofList (Text.joinWords (words.map String.toList)) = joined " " words := by
  induction words with
  | nil => rfl
  | cons word rest ih =>
      cases rest with
      | nil => simp [Text.joinWords, joined]
      | cons next rest =>
          simp only [List.map_cons, Text.joinWords, joined] at ih ⊢
          rw [← ih, ← String.toList_inj]
          simp

/-- The lexemes may follow the words of a name that is read at an index: they neither go on with a
word that is not in scope nor begin with `exists`.
-/
structure EndsName (scope : Scope) (rest : List Lexeme) : Prop where
  stops
    : ∀ {word span tail}, rest = ⟨.word word, span⟩ :: tail → scope.contains word = true
  no_exists : afterKeyword? .existence rest = none

theorem Follows.endsName {level : Nat} {rest : List Lexeme} (follows : Follows level rest)
    (scope : Scope)
    : EndsName scope rest where
  stops same := absurd same follows.no_word
  no_exists := follows.no_exists

/-- The leading words of a name and what follows it are the words of the name, where the name does
not go on; by induction on the words. A word in scope ends a name.
-/
theorem leadingWords_append {scope : Scope} {words : List String} {front rest : List Lexeme}
    (unscoped : ∀ word ∈ words, scope.contains word = false)
    (spelled : front.map (·.token) = words.map Token.word)
    (stops
      : ∀ {word span tail}, rest = ⟨.word word, span⟩ :: tail → scope.contains word = true)
    : (leadingWords scope (front ++ rest)).1.map (·.1) = words
      ∧ (leadingWords scope (front ++ rest)).2 = rest := by
  induction words generalizing front with
  | nil =>
      obtain rfl := List.map_eq_nil_iff.mp spelled
      rw [List.nil_append]
      unfold leadingWords
      split
      · rename_i word span tail
        rw [if_pos (stops rfl)]
        exact ⟨rfl, rfl⟩
      · exact ⟨rfl, rfl⟩
  | cons word others ih =>
      obtain ⟨⟨token, span⟩, tail, rfl, same, more⟩ := List.map_eq_cons_iff.mp spelled
      obtain rfl : token = .word word := same
      obtain ⟨free, othersFree⟩ := List.forall_mem_cons.mp unscoped
      obtain ⟨words, left⟩ := ih othersFree more
      simp only [List.cons_append, leadingWords, free, Bool.false_eq_true, if_false]
      exact ⟨by rw [List.map_cons, words], left⟩

/-- A name is read from its tokens, where it does not go on. It is the words with single spaces
between them.
-/
theorem readName_of_isName {context : LineContext} {name : String} {front rest : List Lexeme}
    (named : IsName context.scope (front.map (·.token)) name)
    (stops
      : ∀ {word span tail}, rest = ⟨.word word, span⟩ :: tail → context.scope.contains word = true)
    : ∃ found, context.readName (front ++ rest) = .ok (found, rest) ∧ found.name = name := by
  obtain ⟨words, some, unscoped, spelled, rfl⟩ := named
  obtain ⟨taken, left⟩ := leadingWords_append unscoped spelled stops
  unfold LineContext.readName
  split
  · rename_i none_
    rw [none_] at taken
    exact absurd taken.symm some
  · rename_i word span more others split
    rw [split] at taken left
    obtain rfl := left
    refine ⟨_, rfl, ?_⟩
    rw [← taken, ← joinWords_eq_joined]
    rfl

/-- A name begins with a word that is not in scope. -/
theorem IsName.head {scope : Scope} {name : String} {front : List Lexeme}
    (named : IsName scope (front.map (·.token)) name)
    : ∃ word span tail, front = ⟨.word word, span⟩ :: tail ∧ scope.lookup? word = none := by
  obtain ⟨words, some, unscoped, spelled, _⟩ := named
  obtain ⟨word, others, rfl⟩ := List.exists_cons_of_ne_nil some
  obtain ⟨⟨token, span⟩, tail, rfl, same, _⟩ := List.map_eq_cons_iff.mp spelled
  obtain rfl : token = .word word := same
  refine ⟨word, span, tail, rfl, ?_⟩
  have free := unscoped word List.mem_cons_self
  rwa [Scope.contains, Option.isSome_eq_false_iff, Option.isNone_iff_eq_none] at free

-----------------------------------------------------------------------------------------
-- Primary expressions that begin with a name
-----------------------------------------------------------------------------------------

namespace Expr

variable {context : LineContext} {name : String} {front rest after : List Lexeme} {expr : Expr}
  {span : Span}

/-- A name where no `exists` comes next is read at the index after it. The first word is not in
scope, so it is no parameter.
-/
theorem takePrimary_place {place : Place}
    (named : IsName context.scope (front.map (·.token)) name)
    (declared : context.vocabulary.place? name = some place)
    (ends : EndsName context.scope rest) (index : takeIndex context rest = .ok (expr, after))
    : takePrimary context (front ++ rest) = .ok (.read place name expr, after) := by
  obtain ⟨found, read, rfl⟩ := readName_of_isName named ends.stops
  obtain ⟨word, span, tail, rfl, unbound⟩ := named.head
  exact takePrimary_read unbound read ends.no_exists declared index

/-- A name with `exists` after it tests an id of the entity type that it declares. -/
theorem takePrimary_exists {entity : Nat}
    (named : IsName context.scope (front.map (·.token)) name)
    (declared : context.vocabulary.entity? name = some entity)
    (id : takePrimary context rest = .ok (expr, after))
    : takePrimary context (front ++ ⟨.keyword .existence, span⟩ :: rest)
      = .ok (.isLive entity name expr, after) := by
  have stops {word : String} {other : Span} {tail : List Lexeme}
      : ⟨.keyword .existence, span⟩ :: rest = ⟨.word word, other⟩ :: tail
        → context.scope.contains word = true := nofun
  obtain ⟨found, read, rfl⟩ := readName_of_isName named stops
  obtain ⟨word, span, tail, rfl, unbound⟩ := named.head
  exact takePrimary_isLive unbound read rfl declared id

theorem takePrimary_entity {entity : Nat}
    (named : IsName context.scope (front.map (·.token)) name)
    (declared : context.vocabulary.entity? name = some entity)
    (ends : EndsName context.scope rest)
    : takePrimary context (⟨.keyword .entity, span⟩ :: (front ++ rest))
      = .ok (.entityType entity name, rest) := by
  obtain ⟨found, read, rfl⟩ := readName_of_isName named ends.stops
  exact takePrimary_entityType read declared

end Expr

end Dispatch
