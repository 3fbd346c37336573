import Dispatch.Bounds
import Dispatch.Line
import Dispatch.Literal
import Dispatch.ParseError
import Dispatch.Token.Lexer

/-!
Reading literal values. A reader returns the text after the value, or the fault and the text where
it was found; the first argument of the nested readers bounds the depth of nesting.
-/

namespace Dispatch.Literal

/-- The fault, and the rest of the text where it was found. -/
structure Refusal where
  fault : SyntaxFault
  rest : List Char

def skipBlanks (text : List Char) : List Char := text.dropWhile Text.isBlank

/-- The text without leading blanks and commas. -/
def skipSeparators (text : List Char) : List Char :=
  text.dropWhile fun c => Text.isBlank c || c = ','

/-- Reads an integer with an optional minus sign. -/
def readInteger (input : List Char) : Except Refusal (Int × List Char) :=
  let negative := input.head? = some '-'
  let body := if negative then input.drop 1 else input
  let digits := body.takeWhile Char.isDigit
  let value : Int := if negative then -(numeral digits) else numeral digits
  if digits = [] || !inBounds value then .error ⟨.missingInteger, input⟩
  else .ok (value, body.dropWhile Char.isDigit)

/-- Reads a truth value, in any ASCII case. -/
def readBool (input : List Char) : Except Refusal (Bool × List Char) :=
  match Keyword.ofWord? (input.takeWhile Text.isAlphanumeric) with
  | some .truth => .ok (true, input.dropWhile Text.isAlphanumeric)
  | some .falsity => .ok (false, input.dropWhile Text.isAlphanumeric)
  | _ => .error ⟨.missingValue, input⟩

/-- Reads the elements of a set up to its closing brace. -/
def readElements : Nat → List Char → Except Refusal (List Int × List Char)
  | 0, input => .error ⟨.missingInteger, input⟩
  | depth + 1, input =>
      match skipSeparators input with
      | '\x7d' :: rest => .ok ([], rest)
      | input => do
          let (element, rest) ← readInteger input
          let (elements, rest) ← readElements depth rest
          return (element :: elements, rest)

/-- Reads the pairs of a map up to its closing bracket. -/
def readPairs : Nat → List Char → Except Refusal (List (Int × Int) × List Char)
  | 0, input => .error ⟨.missingInteger, input⟩
  | depth + 1, input =>
      match skipSeparators input with
      | ']' :: rest => .ok ([], rest)
      | input => do
          let (key, rest) ← readInteger input
          match skipBlanks rest with
          | ':' :: rest =>
              let (value, rest) ← readInteger (skipBlanks rest)
              let (pairs, rest) ← readPairs depth rest
              return ((key, value) :: pairs, rest)
          | rest => throw ⟨.missingCharacter ':', rest⟩

mutual

/-- Reads a literal at the start of the text. -/
def read : Nat → List Char → Except Refusal (Literal × List Char)
  | 0, input => .error ⟨.missingValue, input⟩
  | depth + 1, input =>
      match skipBlanks input with
      | '\x7b' :: rest => do
          let (elements, rest) ← readElements (rest.length + 1) rest
          return (.set elements, rest)
      | '[' :: rest => do
          let (pairs, rest) ← readPairs (rest.length + 1) rest
          return (.map pairs, rest)
      | '(' :: rest => do
          let (fields, rest) ← readFields depth rest
          return (.tuple fields, rest)
      | input =>
          if Text.startsWith Text.isAlphabetic input then do
            let (value, rest) ← readBool input
            return (.bool value, rest)
          else do
            let (value, rest) ← readInteger input
            return (.int value, rest)

/-- Reads fields separated by commas up to the closing parenthesis. -/
def readFields : Nat → List Char → Except Refusal (List Literal × List Char)
  | 0, input => .error ⟨.missingValue, input⟩
  | depth + 1, input => do
      let (field, rest) ← read depth input
      match skipBlanks rest with
      | ',' :: rest =>
          let (fields, rest) ← readFields depth rest
          return (field :: fields, rest)
      | ')' :: rest => return ([field], rest)
      | rest => throw ⟨.unclosedTuple, rest⟩

end

/-- The literal that makes up the whole text. -/
def ofText (text : List Char) : Except Refusal Literal := do
  let (literal, rest) ← read (2 * text.length + 2) text
  match skipBlanks rest with
  | [] => return literal
  | rest => throw ⟨.textAfterValue, rest⟩

/-- The literal that makes up the whole line. A fault is reported at the one byte where the rest of
the line begins.
-/
def ofLine (line : Line) : Except ParseError Literal :=
  match ofText line.text with
  | .ok literal => .ok literal
  | .error refusal =>
      let before := line.text.take (line.text.length - refusal.rest.length)
      let offset := byteLength before
      .error (.ofFault refusal.fault ⟨offset, offset + 1, line.number, line.column + before.length⟩)

end Dispatch.Literal
