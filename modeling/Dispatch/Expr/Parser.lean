import Dispatch.Expr
import Dispatch.Line
import Dispatch.Scope
import Dispatch.Token.Lexer

/-!
Reading expressions from the tokens of a line. Operators of one level associate to the left, and
`not` takes a whole comparison; a name is the longest run of words that are not in scope. Readers
return the lexemes that they leave, and their first argument bounds the depth of nesting.
-/

namespace Dispatch

/-- The names that a line may use and the span where it ends. -/
structure LineContext extends Names where
  stop : Span
deriving DecidableEq

namespace LineContext

/-- The span of the next lexeme, or of the end of the line. -/
def nextSpan (context : LineContext) : List Lexeme → Span
  | [] => context.stop
  | lexeme :: _ => lexeme.span

/-- The error that the next lexeme is not what was expected. -/
def refuse (context : LineContext) (expected : Expectation) (rest : List Lexeme) : ParseError :=
  ⟨.unexpected expected (rest.head?.map (·.token)), context.nextSpan rest⟩

end LineContext

/-- The lexemes after a symbol, where it is the next. -/
def afterSymbol? (mark : Symbol) : List Lexeme → Option (List Lexeme)
  | ⟨.symbol found, _⟩ :: rest => if found = mark then some rest else none
  | _ => none

/-- The lexemes after a reserved word, where it is the next. -/
def afterKeyword? (reserved : Keyword) : List Lexeme → Option (List Lexeme)
  | ⟨.keyword found, _⟩ :: rest => if found = reserved then some rest else none
  | _ => none

namespace LineContext

/-- The lexemes after a symbol that must be the next. -/
def expectSymbol (context : LineContext) (mark : Symbol) (rest : List Lexeme)
    : Except ParseError (List Lexeme) :=
  match afterSymbol? mark rest with
  | some after => .ok after
  | none => .error (context.refuse (.symbol mark) rest)

/-- Refuses lexemes after the end of a complete construct. -/
def expectEnd (context : LineContext) (rest : List Lexeme) : Except ParseError Unit :=
  if rest.isEmpty then .ok () else .error (context.refuse .endOfLine rest)

end LineContext

/-- The leading words that are not in scope, with their spans, and the lexemes after them. -/
def leadingWords (scope : Scope) : List Lexeme → List (String × Span) × List Lexeme
  | ⟨.word word, span⟩ :: rest =>
      if scope.contains word then ([], ⟨.word word, span⟩ :: rest)
      else
        let (words, after) := leadingWords scope rest
        ((word, span) :: words, after)
  | rest => ([], rest)

/-- A name as it was read: its words joined by single spaces, and their common span. -/
structure SpannedName where
  name : String
  span : Span
deriving DecidableEq

namespace LineContext

/-- Reads a name, at least one word long. -/
def readName (context : LineContext) (input : List Lexeme)
    : Except ParseError (SpannedName × List Lexeme) :=
  match leadingWords context.scope input with
  | ([], _) => .error (context.refuse .name input)
  | ((word, span) :: more, rest) =>
      let name := Text.joinWords ((word :: more.map (·.1)).map String.toList)
      .ok (⟨String.ofList name, more.foldl (fun whole next => whole.cover next.2) span⟩, rest)

/-- The entity type that a name declares. -/
def entityNamed (context : LineContext) (found : SpannedName) : Except ParseError Nat :=
  match context.vocabulary.entity? found.name with
  | some entity => .ok entity
  | none => .error ⟨.unknownEntity found.name, found.span⟩

/-- The storage of the variable or field that a name declares. -/
def placeNamed (context : LineContext) (found : SpannedName) : Except ParseError Place :=
  match context.vocabulary.place? found.name with
  | some place => .ok place
  | none => .error ⟨.unknownVariable found.name, found.span⟩

end LineContext

/-- The operator between two operands that a token spells; `@` is not among them. -/
def BinaryOp.ofToken? : Token → Option BinaryOp
  | .keyword .disjunction => some .or
  | .keyword .conjunction => some .and
  | .symbol .assign | .symbol .equal => some .equal
  | .symbol .notEqual => some .notEqual
  | .symbol .less => some .less
  | .symbol .lessEqual => some .lessEqual
  | .symbol .greater => some .greater
  | .symbol .greaterEqual => some .greaterEqual
  | .symbol .question => some .contains
  | .symbol .plus => some .add
  | .symbol .minus => some .sub
  | .symbol .star => some .mul
  | .symbol .slash => some .div
  | _ => none

/-- The operator that comes next, and the lexemes after it. -/
def nextOperator? : List Lexeme → Option (BinaryOp × List Lexeme)
  | [] => none
  | lexeme :: rest => (BinaryOp.ofToken? lexeme.token).map (·, rest)

namespace Expr

mutual

/-- Reads an operand and the operators of the given level or tighter that follow it. -/
def readLevel (context : LineContext)
    : Nat → Nat → List Lexeme → Except ParseError (Expr × List Lexeme)
  | 0, _, input => .error (context.refuse .expression input)
  | depth + 1, level, input => do
      let (left, rest) ← readOperand context depth input
      readOperators context depth level left rest

/-- Reads operators of the given level or tighter with their right operands. -/
def readOperators (context : LineContext)
    : Nat → Nat → Expr → List Lexeme → Except ParseError (Expr × List Lexeme)
  | 0, _, _, input => .error (context.refuse .expression input)
  | depth + 1, level, left, input =>
      match nextOperator? input with
      | none => .ok (left, input)
      | some (op, rest) =>
          if op.level < level then .ok (left, input)
          else do
            let (right, rest) ← readLevel context depth (op.level + 1) rest
            readOperators context depth level (.binary op left right) rest

/-- Reads an operand with the signs and negations before it. -/
def readOperand (context : LineContext)
    : Nat → List Lexeme → Except ParseError (Expr × List Lexeme)
  | 0, input => .error (context.refuse .expression input)
  | depth + 1, input =>
      match input with
      | ⟨.keyword .negation, _⟩ :: rest => do
          let (operand, rest) ← readLevel context depth comparisonLevel rest
          return (.not operand, rest)
      | ⟨.symbol .minus, _⟩ :: rest => do
          let (operand, rest) ← readOperand context depth rest
          return (.neg operand, rest)
      | ⟨.symbol .plus, _⟩ :: rest => readOperand context depth rest
      | input => do
          let (base, rest) ← readPrimary context depth input
          readIndexings context depth base rest

/-- Reads the chain of `@` after an operand. -/
def readIndexings (context : LineContext)
    : Nat → Expr → List Lexeme → Except ParseError (Expr × List Lexeme)
  | 0, _, input => .error (context.refuse .expression input)
  | depth + 1, base, input =>
      match afterSymbol? .atSign input with
      | none => .ok (base, input)
      | some rest => do
          let (index, rest) ← readPrimary context depth rest
          readIndexings context depth (.binary .index base index) rest

/-- Reads a literal, a parameter, a variable, an existence test, an entity type or an expression or
list in parentheses.
-/
def readPrimary (context : LineContext)
    : Nat → List Lexeme → Except ParseError (Expr × List Lexeme)
  | 0, input => .error (context.refuse .expression input)
  | depth + 1, input =>
      match input with
      | ⟨.integer value, _⟩ :: rest => .ok (.int value, rest)
      | ⟨.keyword .truth, _⟩ :: rest => .ok (.bool true, rest)
      | ⟨.keyword .falsity, _⟩ :: rest => .ok (.bool false, rest)
      | ⟨.keyword .entity, _⟩ :: rest => do
          let (found, rest) ← context.readName rest
          let entity ← context.entityNamed found
          return (.entityType entity found.name, rest)
      | ⟨.symbol .openParen, _⟩ :: rest => do
          let (first, rest) ← readLevel context depth 0 rest
          match afterSymbol? .comma rest with
          | none =>
              let rest ← context.expectSymbol .closeParen rest
              return (first, rest)
          | some rest =>
              let (more, rest) ← readElements context depth rest
              let rest ← context.expectSymbol .closeParen rest
              return (.tuple (first :: more), rest)
      | ⟨.word word, span⟩ :: rest =>
          match context.scope.lookup? word with
          | some (slot, _) => .ok (.param slot word, rest)
          | none => do
              let (found, rest) ← context.readName (⟨.word word, span⟩ :: rest)
              match afterKeyword? .existence rest with
              | some rest =>
                  let entity ← context.entityNamed found
                  let (id, rest) ← readPrimary context depth rest
                  return (.isLive entity found.name id, rest)
              | none =>
                  let place ← context.placeNamed found
                  let (index, rest) ← readIndex context depth rest
                  return (.read place found.name index, rest)
      | input => .error (context.refuse .expression input)

/-- Reads one or more expressions separated by commas. -/
def readElements (context : LineContext)
    : Nat → List Lexeme → Except ParseError (List Expr × List Lexeme)
  | 0, input => .error (context.refuse .expression input)
  | depth + 1, input => do
      let (element, rest) ← readLevel context depth 0 input
      match afterSymbol? .comma rest with
      | none => return ([element], rest)
      | some rest =>
          let (more, rest) ← readElements context depth rest
          return (element :: more, rest)

/-- Reads the index after a variable name: an expression in parentheses, a number or a parameter,
and zero where there is none of these.
-/
def readIndex (context : LineContext) : Nat → List Lexeme → Except ParseError (Expr × List Lexeme)
  | 0, input => .error (context.refuse .expression input)
  | depth + 1, input =>
      match input with
      | ⟨.symbol .openParen, _⟩ :: rest => do
          let (index, rest) ← readLevel context depth 0 rest
          let rest ← context.expectSymbol .closeParen rest
          return (index, rest)
      | ⟨.integer value, _⟩ :: rest => .ok (.int value, rest)
      | ⟨.word word, span⟩ :: rest =>
          match context.scope.lookup? word with
          | some (slot, _) => .ok (.param slot word, rest)
          | none => .ok (.int 0, ⟨.word word, span⟩ :: rest)
      | input => .ok (.int 0, input)

end

/-- A bound on the nesting of calls for an input: between two lexemes taken there are at most
five.
-/
def depthFor (input : List Lexeme) : Nat := 8 * (input.length + 1)

/-- Reads an expression from the start of the lexemes. -/
def readExpr (context : LineContext) (input : List Lexeme)
    : Except ParseError (Expr × List Lexeme) :=
  readLevel context (depthFor input) 0 input

end Expr

namespace LineContext

/-- The lexemes of a line, and the context to read them in. -/
def ofLine (names : Names) (line : Line) : Except ParseError (LineContext × List Lexeme) := do
  let tokens ← TokenLine.read line.position line.text
  return (⟨names, tokens.stop⟩, tokens.lexemes)

end LineContext

/-- The expression that a whole line holds. -/
def Expr.ofLine (names : Names) (line : Line) : Except ParseError Expr := do
  let (context, input) ← LineContext.ofLine names line
  let (expr, rest) ← Expr.readExpr context input
  context.expectEnd rest
  return expr

end Dispatch
