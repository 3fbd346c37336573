import Dispatch.Position
import Dispatch.Token

/-!
Errors of reading a text. Each is a cause and the span it is reported at; the wording stands in
`message` alone.
-/

namespace Dispatch

/-- What a reader was looking for when it met another token. -/
inductive Expectation where
  | expression
  | name
  | endOfLine
  | assignmentTarget
  | symbol (symbol : Symbol)
deriving DecidableEq

def Expectation.text : Expectation → String
  | .expression => "expression"
  | .name => "name"
  | .endOfLine => "end of line"
  | .assignmentTarget => "assignment target"
  | .symbol mark => mark.text

/-- A text of the right tokens that breaks a rule of its construct. -/
inductive SyntaxFault where
  | literalOutOfRange (digits : String)
  | parameterAssigned (name : String)
  | constantAssigned (name : String)
  | entityWithoutItems (entity : String)
  | fieldValueCount (entity : String) (expected found : Nat)
  | terminatorOutsideBlock (terminator : String)
  | elseTwice
  | unterminatedBlock
  | elseOutsideCase
  | headerWithoutColon (keyword : String)
  | headerWithoutParentheses
  | invalidParameterName (name : String)
  | newValWithoutColon
  | invalidAllHeader
  | costWithoutValue
  | emptyDocument (kind : String)
  | missingStart (kind : String)
  | missingEnd (kind : String)
  | contentAfterEnd (kind : String)
  | sectionOutOfOrder (title : String)
  | endWithoutHeader (title : String)
  | lineOutsideSection
  | unclosedRole
  | missingEntityName
  | entityTwice (name : String)
  | unknownDeclaration
  | variableTwice (name : String)
  | unbalancedDeclaration
  | dynamicOwner (entity : String)
  | missingVariableName
  | missingFieldGroup
  | missingFieldName
  | itemsTwice (entity : String)
  | fieldTwice (name : String)
  | subsectionTwice (header : String)
  | missingSubsection
  | unclosedHeader (header terminator : String)
  | actionTwice (name : String)
  | invalidActionHeader
  | missingActionName
  | unbalancedActionHeader
  | invalidParameter
  | parameterRedeclared (name : String)
  | actionWithoutParameter (name : String)
  | invalidStepHeader
  | stepWithCondition
  | valueOutsideEntry
  | indexOutOfRange
  | textAfterValue
  | missingCharacter (expected : Char)
  | unclosedTuple
  | missingValue
  | missingInteger
deriving DecidableEq

namespace SyntaxFault

def message : SyntaxFault → String
  | .literalOutOfRange digits => "integer literal out of range: " ++ digits
  | .parameterAssigned name => "cannot assign to parameter '" ++ name ++ "'"
  | .constantAssigned name => "cannot assign to constant '" ++ name ++ "'"
  | .entityWithoutItems entity => "entity '" ++ entity ++ "' has no item collection"
  | .fieldValueCount entity expected found =>
      "expected " ++ toString expected ++ " field values for '" ++ entity ++ "', found "
        ++ toString found
  | .terminatorOutsideBlock terminator => "'" ++ terminator ++ "' without an open block"
  | .elseTwice => "duplicate 'Else'"
  | .unterminatedBlock => "unterminated block, expected 'End'"
  | .elseOutsideCase => "'Else' outside of a 'Case' block"
  | .headerWithoutColon keyword => "expected ':' at the end of the '" ++ keyword ++ "' header"
  | .headerWithoutParentheses => "expected a parenthesized header"
  | .invalidParameterName name => "'" ++ name ++ "' is not a valid parameter name"
  | .newValWithoutColon => "expected ':' after the NewVal name"
  | .invalidAllHeader => "expected '<param> - <Entity>' in 'All' header"
  | .costWithoutValue => "cost section must end with a numeric expression"
  | .emptyDocument kind => "empty document, expected 'Start " ++ kind ++ ":'"
  | .missingStart kind => "expected 'Start " ++ kind ++ ":'"
  | .missingEnd kind => "missing 'End " ++ kind ++ "'"
  | .contentAfterEnd kind => "unexpected content after 'End " ++ kind ++ "'"
  | .sectionOutOfOrder title => "section '" ++ title ++ "' is repeated or out of order"
  | .endWithoutHeader title => "'End " ++ title ++ "' without a matching header"
  | .lineOutsideSection => "line outside of any section"
  | .unclosedRole => "expected ')' after the base role"
  | .missingEntityName => "missing entity name"
  | .entityTwice name => "entity '" ++ name ++ "' is declared twice"
  | .unknownDeclaration => "expected a 'const', 'var' or 'items' declaration"
  | .variableTwice name => "variable '" ++ name ++ "' is declared twice"
  | .unbalancedDeclaration => "unbalanced ')' in declaration"
  | .dynamicOwner entity =>
      "'" ++ entity ++ "' is a dynamic entity; declare its data as an items field"
  | .missingVariableName => "missing variable name"
  | .missingFieldGroup => "expected 'var' or 'const' fields after the entity name"
  | .missingFieldName => "missing field name"
  | .itemsTwice entity => "entity '" ++ entity ++ "' already has an items declaration"
  | .fieldTwice name => "field '" ++ name ++ "' is declared twice"
  | .subsectionTwice header => "duplicate '" ++ header ++ "' subsection"
  | .missingSubsection => "expected a subsection header such as 'Precs:' or 'Effects:'"
  | .unclosedHeader header terminator =>
      "'" ++ header ++ "' is not closed by '" ++ terminator ++ "'"
  | .actionTwice name => "action '" ++ name ++ "' is declared twice"
  | .invalidActionHeader => "expected 'Name: parameters' action header"
  | .missingActionName => "missing action name"
  | .unbalancedActionHeader => "unbalanced ')' in action header"
  | .invalidParameter => "expected '<param> - <EntityType>'"
  | .parameterRedeclared name =>
      "parameter '" ++ name ++ "' is redeclared with a different entity type"
  | .actionWithoutParameter name => "action '" ++ name ++ "' needs at least one parameter"
  | .invalidStepHeader => "expected a 'Name:' step header"
  | .stepWithCondition => "steps take no preconditions"
  | .valueOutsideEntry => "value line outside of a 'Name:' entry"
  | .indexOutOfRange => "index out of range"
  | .textAfterValue => "unexpected text after value"
  | .missingCharacter expected => "expected '" ++ expected.toString ++ "'"
  | .unclosedTuple => "expected ',' or ')'"
  | .missingValue => "expected a value"
  | .missingInteger => "expected an integer"

end SyntaxFault

namespace ParseError

/-- Why a text was refused. A token is absent where the text ended. -/
inductive Cause where
  | unexpected (expected : Expectation) (found : Option Token)
  | strayCharacter (found : Char)
  | malformed (fault : SyntaxFault)
  | unknownVariable (name : String)
  | unknownEntity (name : String)
deriving DecidableEq

end ParseError

/-- A refused text: the cause, and the span it is reported at. -/
structure ParseError (ν : Type := Nat) where
  cause : ParseError.Cause
  span : Span ν
deriving DecidableEq

namespace ParseError

def ofFault (fault : SyntaxFault) (span : Span) : ParseError := ⟨.malformed fault, span⟩

/-- The wording of the error, which names its line and column. -/
def message {ν : Type} [ToString ν] (error : ParseError ν) : String :=
  let place := error.span.place
  match error.cause with
  | .unexpected expected found =>
      "unexpected token at " ++ place ++ ": expected " ++ expected.text ++ ", found "
        ++ (found.map Token.text).getD "end of input"
  | .strayCharacter found => "unrecognized character '" ++ found.toString ++ "' at " ++ place
  | .malformed fault => "invalid syntax at " ++ place ++ ": " ++ fault.message
  | .unknownVariable name => "unknown variable '" ++ name ++ "' at " ++ place
  | .unknownEntity name => "unknown entity '" ++ name ++ "' at " ++ place

end ParseError

end Dispatch
