import Dispatch.Proofs.Printing.Regrouping
import Dispatch.Proofs.Reading.Lexemes
import Dispatch.Proofs.Reading.Phrases
import Dispatch.Proofs.Reading.TextCuts

/-!
The tokens of a printed expression, for expressions that were read: what is printed has tokens, and
they are those of the operators, parentheses, numbers and words that the printer writes.
-/

namespace Dispatch

-----------------------------------------------------------------------------------------
-- Tokens of the printer
-----------------------------------------------------------------------------------------

/-- The token of an operator in a printed expression. -/
def BinaryOp.token : BinaryOp → Token
  | .or => .keyword .disjunction
  | .and => .keyword .conjunction
  | .equal => .symbol .assign
  | .notEqual => .symbol .notEqual
  | .less => .symbol .less
  | .lessEqual => .symbol .lessEqual
  | .greater => .symbol .greater
  | .greaterEqual => .symbol .greaterEqual
  | .contains => .symbol .question
  | .add => .symbol .plus
  | .sub => .symbol .minus
  | .mul => .symbol .star
  | .div => .symbol .slash
  | .index => .symbol .atSign

theorem BinaryOp.spells_token (op : BinaryOp) : Spells op.token op := by cases op <;> constructor

/-- The tokens in parentheses where they are needed. -/
def enclosedTokens (needed : Bool) (tokens : List Token) : List Token :=
  if needed then .symbol .openParen :: (tokens ++ [.symbol .closeParen]) else tokens

/-- The words of a name. -/
def nameTokens (name : String) : List Token :=
  (Text.words name.toList).map fun word => .word (String.ofList word)

namespace Expr

mutual

/-- The tokens of the text of an expression. -/
def tokens : Expr → List Token
  | .int value => [.integer value.toNat]
  | .bool value => [.keyword (if value then .truth else .falsity)]
  | .tuple elements => .symbol .openParen :: (commaTokens elements ++ [.symbol .closeParen])
  | .param _ name => [.word name]
  | .read _ name index =>
      nameTokens name
        ++ if index.isZero then [] else enclosedTokens (!index.isBareIndex) index.tokens
  | .isLive _ name id =>
      nameTokens name ++ .keyword .existence :: enclosedTokens (!id.isAtomic) id.tokens
  | .entityType _ name => .keyword .entity :: nameTokens name
  | .not operand => .keyword .negation :: enclosedTokens operand.needsParensUnderNot operand.tokens
  | .neg operand => .symbol .minus :: enclosedTokens operand.needsParensUnderNeg operand.tokens
  | .binary .index left right =>
      enclosedTokens left.needsParensBeforeIndex left.tokens
        ++ .symbol .atSign :: enclosedTokens (!right.isAtomic) right.tokens
  | .binary op left right =>
      enclosedTokens (left.needsParensBefore op) left.tokens
        ++ op.token :: enclosedTokens (right.needsParensAfter op) right.tokens

/-- The tokens of expressions separated by commas. -/
def commaTokens : List Expr → List Token
  | [] => []
  | [element] => element.tokens
  | element :: rest => element.tokens ++ .symbol .comma :: commaTokens rest

end

end Expr

-----------------------------------------------------------------------------------------
-- Expressions that were read
-----------------------------------------------------------------------------------------

/-- The name is spelled by identifiers that are not in scope, with single spaces between them. -/
def SpelledName (scope : Scope) (name : String) : Prop :=
  ∃ words : List String, words ≠ []
    ∧ (∀ word ∈ words, scope.contains word = false ∧ isIdentifier word.toList = true)
    ∧ name = joined " " words

namespace Expr

mutual

/-- What holds of every expression that is read: numbers are in bounds, names are spelled by
identifiers and declared, and a literal list has two elements or more.
-/
def Readable (names : Names) : Expr → Prop
  | .int value => 0 ≤ value ∧ value ≤ greatestNumber
  | .bool _ => True
  | .tuple elements => 2 ≤ elements.length ∧ AllReadable names elements
  | .param slot name =>
      isIdentifier name.toList = true ∧ ∃ kind, names.scope.lookup? name = some (slot, kind)
  | .read place name index =>
      SpelledName names.scope name ∧ names.vocabulary.place? name = some place
        ∧ index.Readable names
  | .isLive entity name id =>
      SpelledName names.scope name ∧ names.vocabulary.entity? name = some entity
        ∧ id.Readable names
  | .entityType entity name =>
      SpelledName names.scope name ∧ names.vocabulary.entity? name = some entity
  | .not operand | .neg operand => operand.Readable names
  | .binary _ left right => left.Readable names ∧ right.Readable names

def AllReadable (names : Names) : List Expr → Prop
  | [] => True
  | element :: rest => element.Readable names ∧ AllReadable names rest

end

theorem allReadable_iff {names : Names} {exprs : List Expr}
    : AllReadable names exprs ↔ ∀ expr ∈ exprs, expr.Readable names := by
  induction exprs with
  | nil => simp [AllReadable]
  | cons element rest ih => simp only [AllReadable, List.forall_mem_cons, ih]

/-- A name that is read from proper lexemes is spelled by identifiers. The words of a name in a text
are identifiers since the lexer takes no others.
-/
theorem spelledName_of_nameFrom {context : LineContext} {source : List Lexeme}
    (proper : ∀ lexeme ∈ source, lexeme.token.Proper) {name : String}
    (found : context.NameFrom source name)
    : SpelledName context.scope name := by
  obtain ⟨words, some, each, rfl⟩ := found
  refine ⟨words, some, fun word member => ?_, joinWords_eq_joined words⟩
  obtain ⟨unscoped, span, inside⟩ := each word member
  exact ⟨unscoped, proper _ inside⟩

/-- The readers take readable expressions from proper lexemes, by one case for each form of
expression.
-/
theorem readable_readClosed {context : LineContext} {source : List Lexeme}
    (proper : ∀ lexeme ∈ source, lexeme.token.Proper)
    : ReadClosed context source (Readable context.toNames) where
  int {value _} inside := ⟨Int.natCast_nonneg value, proper _ inside⟩
  zero := ⟨Int.le_refl 0, by decide⟩
  bool _ := trivial
  tuple {first more} one some others := by
    refine ⟨?_, one, allReadable_iff.mpr others⟩
    have := List.length_pos_iff.mpr some
    simp only [List.length_cons]
    omega
  param inside bound := ⟨proper _ inside, _, bound⟩
  read name found index := ⟨spelledName_of_nameFrom proper name, found, index⟩
  isLive name found id := ⟨spelledName_of_nameFrom proper name, found, id⟩
  entityType name found := ⟨spelledName_of_nameFrom proper name, found⟩
  not operand := operand
  neg operand := operand
  binary _ := fun left right => ⟨left, right⟩

/-- Every expression of a line is readable. What is printed of a domain is therefore always covered
by the results on readable expressions.
-/
theorem readable_of_ofLine {names : Names} {line : Line} {expr : Expr}
    (read : Expr.ofLine names line = .ok expr)
    : expr.Readable names := by
  obtain ⟨tokens, lexed, exprRead⟩ := ofLine_eq_ok_iff.mp read
  have closed : ReadClosed ⟨names, tokens.stop⟩ tokens.lexemes (Readable names) :=
    readable_readClosed (TokenLine.proper_of_read lexed)
  exact ((readersYield closed _).level List.suffix_rfl exprRead).1

end Expr

-----------------------------------------------------------------------------------------
-- The tokens of a printed text
-----------------------------------------------------------------------------------------

namespace Lexes

variable {left right : String} {tokens others : List Token}

theorem spaced (first : Lexes left.toList tokens) (second : Lexes right.toList others)
    : Lexes (left ++ " " ++ right).toList (tokens ++ others) := by
  rw [String.toList_append, String.toList_append, List.append_assoc]
  exact first.append second.blank fun _ _ => .blank _

theorem between {middle : String} {token : Token} (first : Lexes left.toList tokens)
    (separator : Lexes middle.toList [token]) (second : Lexes right.toList others)
    : Lexes (left ++ (" " ++ middle ++ " ") ++ right).toList (tokens ++ token :: others) := by
  have whole := (first.spaced separator).spaced second
  simpa only [String.append_assoc, List.append_assoc, List.singleton_append] using whole

/-- A text in parentheses has the tokens of the text between those of the parentheses. -/
theorem parenthesized (needed : Bool) (lexes : Lexes left.toList tokens)
    : Lexes (parenthesized needed left).toList (enclosedTokens needed tokens) := by
  cases needed with
  | false => exact lexes
  | true =>
      have closed := lexes.append (symbol .closeParen) fun rest _ => .close rest
      simpa [Dispatch.parenthesized, enclosedTokens, Symbol.text] using closed.openParen

theorem commas (first : Lexes left.toList tokens) (second : Lexes right.toList others)
    : Lexes (left ++ ", " ++ right).toList (tokens ++ .symbol .comma :: others) := by
  have next := (symbol .comma).append second.blank fun _ _ => .blank _
  have whole := first.append next fun rest _ => .comma _
  simpa [Symbol.text] using whole

end Lexes

/-- An operator is printed as its token. -/
theorem BinaryOp.lexes_text (op : BinaryOp) : Lexes op.text.toList [op.token] := by
  cases op with
  | or => exact .keyword .disjunction
  | and => exact .keyword .conjunction
  | equal => exact .symbol .assign
  | notEqual => exact .symbol .notEqual
  | less => exact .symbol .less
  | lessEqual => exact .symbol .lessEqual
  | greater => exact .symbol .greater
  | greaterEqual => exact .symbol .greaterEqual
  | contains => exact .symbol .question
  | add => exact .symbol .plus
  | sub => exact .symbol .minus
  | mul => exact .symbol .star
  | div => exact .symbol .slash
  | index => exact .symbol .atSign

theorem isBlank_eq_false_of_isIdentifier {word : List Char} (identifier : isIdentifier word = true)
    : word ≠ [] ∧ ∀ c ∈ word, Text.isBlank c = false := by
  obtain ⟨nonempty, continues⟩ := continuesWord_of_isIdentifier identifier
  exact ⟨nonempty, fun c member => isBlank_eq_false_of_continuesWord (continues c member)⟩

/-- Identifiers with single spaces between them are the words of their text, by induction on them.
-/
theorem nameTokens_joined {words : List String} (some : words ≠ [])
    (identifiers : ∀ word ∈ words, isIdentifier word.toList = true)
    : nameTokens (joined " " words) = words.map Token.word := by
  induction words with
  | nil => exact absurd rfl some
  | cons word rest ih =>
      obtain ⟨first, others⟩ := List.forall_mem_cons.mp identifiers
      obtain ⟨nonempty, visible⟩ := isBlank_eq_false_of_isIdentifier first
      cases rest with
      | nil =>
          simp [joined, nameTokens, Text.words, Text.split_word visible, nonempty]
      | cons next rest =>
          have more := ih (List.cons_ne_nil _ _) others
          have blank : Text.isBlank ' ' = true := by decide
          have cut : Text.words (joined " " (word :: next :: rest)).toList
              = word.toList :: Text.words (joined " " (next :: rest)).toList := by
            simp [joined, Text.words, Text.split_append visible blank, nonempty]
          rw [nameTokens, cut, List.map_cons, String.ofList_toList, List.map_cons, ← more]
          rfl

theorem isName_of_spelledName {scope : Scope} {name : String} (spelled : SpelledName scope name)
    : IsName scope (nameTokens name) name := by
  obtain ⟨words, some, each, rfl⟩ := spelled
  exact ⟨words, some, fun word member => (each word member).1,
    nameTokens_joined some fun word member => (each word member).2, rfl⟩

/-- The text of a name has its words as tokens, by induction on the words. A blank ends a word, so
that the next is a token of its own.
-/
theorem lexes_name {scope : Scope} {name : String} (spelled : SpelledName scope name)
    : Lexes name.toList (nameTokens name) := by
  obtain ⟨words, some, each, rfl⟩ := spelled
  rw [nameTokens_joined some fun word member => (each word member).2]
  clear some
  induction words with
  | nil => exact .nil
  | cons word rest ih =>
      obtain ⟨first, others⟩ := List.forall_mem_cons.mp each
      cases rest with
      | nil => exact .word first.2
      | cons next rest => exact (Lexes.word first.2).spaced (ih others)

namespace Expr

theorem text_binary {op : BinaryOp} (binary : op ≠ .index) (left right : Expr)
    : text (.binary op left right)
      = parenthesized (left.needsParensBefore op) left.text ++ " " ++ op.text ++ " "
        ++ parenthesized (right.needsParensAfter op) right.text := by
  cases op <;> first | rfl | exact absurd rfl binary

theorem tokens_binary {op : BinaryOp} (binary : op ≠ .index) (left right : Expr)
    : tokens (.binary op left right)
      = enclosedTokens (left.needsParensBefore op) left.tokens
        ++ op.token :: enclosedTokens (right.needsParensAfter op) right.tokens := by
  cases op <;> first | rfl | exact absurd rfl binary

/-- Texts separated by commas have the tokens of the texts, by induction on the expressions. -/
theorem lexes_commaText {elements : List Expr}
    (each : ∀ element ∈ elements, Lexes element.text.toList element.tokens)
    : Lexes (commaText elements).toList (commaTokens elements) := by
  induction elements with
  | nil => exact .nil
  | cons element rest ih =>
      obtain ⟨first, others⟩ := List.forall_mem_cons.mp each
      cases rest with
      | nil => exact first
      | cons next rest => exact first.commas (ih others)

/-- The text of a readable expression has the tokens of the expression, by induction on the
expression. What has to be seen at each place is that the tokens on both sides do not run together.
-/
theorem lexes_text {names : Names} {expr : Expr} (readable : expr.Readable names)
    : Lexes expr.text.toList expr.tokens := by
  induction expr with
  | int value =>
      obtain ⟨natural, small⟩ := readable
      obtain ⟨value, rfl⟩ := Int.eq_ofNat_of_zero_le natural
      exact .integer small
  | bool value =>
      cases value with
      | true => exact .keyword .truth
      | false => exact .keyword .falsity
  | tuple elements ih =>
      have each := fun element member => ih element member
        (allReadable_iff.mp readable.2 element member)
      exact (lexes_commaText each).parenthesized true
  | param slot name => exact .word readable.1
  | read place name index ih =>
      obtain ⟨spelled, _, inner⟩ := readable
      rw [text, tokens]
      split
      · rw [List.append_nil]
        exact lexes_name spelled
      · exact (lexes_name spelled).spaced ((ih inner).parenthesized _)
  | isLive entity name id ih =>
      obtain ⟨spelled, _, inner⟩ := readable
      have separator : " exists " = " " ++ Keyword.existence.text ++ " " := by decide
      rw [text, tokens, separator]
      exact (lexes_name spelled).between (.keyword .existence) ((ih inner).parenthesized _)
  | entityType entity name => exact (Lexes.keyword .entity).spaced (lexes_name readable.1)
  | not operand ih => exact (Lexes.keyword .negation).spaced ((ih readable).parenthesized _)
  | neg operand ih =>
      rw [text, String.toList_append]
      exact ((ih readable).parenthesized _).minus
  | binary op left right leftIh rightIh =>
      have leftLexes := leftIh readable.1
      have rightLexes := rightIh readable.2
      by_cases indexing : op = .index
      · subst indexing
        have separator : " @ " = " " ++ Symbol.atSign.text ++ " " := by decide
        rw [text, tokens, separator]
        exact (leftLexes.parenthesized _).between (.symbol .atSign) (rightLexes.parenthesized _)
      · rw [text_binary indexing, tokens_binary indexing]
        have whole := (leftLexes.parenthesized (left.needsParensBefore op)).between op.lexes_text
          (rightLexes.parenthesized (right.needsParensAfter op))
        simpa only [String.append_assoc] using whole

end Expr

end Dispatch
