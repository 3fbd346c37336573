import Dispatch.Block
import Dispatch.Expr.Parser
import Dispatch.Update

/-!
Reading effects from lines and blocks. A line whose text before the colon ends in a command word
changes an item collection, unless that text is itself a variable name; any other line assigns.
A named value is in scope in the rest of its block.
-/

namespace Dispatch

/-- The name of a parameter that makes up the whole text; a fault is reported at the span. -/
def identifierOf (text : List Char) (span : Span) : Except ParseError String :=
  if isIdentifier text then .ok (String.ofList text)
  else .error (.ofFault (.invalidParameterName (String.ofList text)) span)

/-- The name of a parameter that makes up the whole piece. -/
def Line.identifier (line : Line) : Except ParseError String := identifierOf line.text line.span

/-- What an effect line does with an item collection. -/
inductive ItemCommand where
  | add
  | remove
  | replace
deriving DecidableEq

namespace ItemCommand

def text : ItemCommand → String
  | .add => "add"
  | .remove => "remove"
  | .replace => "replace"

def ofWord? (word : List Char) : Option ItemCommand :=
  [ItemCommand.add, .remove, .replace].find? (·.text.toList = word)

/-- The owner and the command of a text that ends in a command word. -/
def cut? (head : List Char) : Option (List Char × ItemCommand) := do
  let (owner, word) ← Text.cutAtLast? Text.isBlank head
  let command ← ofWord? word
  return (Text.trimEnd owner, command)

end ItemCommand

namespace LineContext

/-- Reads the field values of an item, in parentheses and separated by commas. -/
def readFields (context : LineContext) (input : List Lexeme)
    : Except ParseError (List Expr × List Lexeme) := do
  let rest ← context.expectSymbol .openParen input
  match afterSymbol? .closeParen rest with
  | some rest => return ([], rest)
  | none =>
      let (fields, rest) ← Expr.readElements context (Expr.depthFor rest) rest
      let rest ← context.expectSymbol .closeParen rest
      return (fields, rest)

end LineContext

inductive AssignmentTarget where
  | named (slot : Nat) (name : String)
  | stored (place : Place) (name : String) (index : Expr)

namespace AssignmentTarget

/-- The effect that gives the target a value. -/
def assign (value : Expr) : AssignmentTarget → Update
  | .named slot name => .assignLocal slot name value
  | .stored place name index => .assign place name index value

/-- Reads the target of an assignment: a named value, or a variable or field that is not constant
with its index.
-/
def read (context : LineContext) (input : List Lexeme)
    : Except ParseError (AssignmentTarget × List Lexeme) :=
  match input with
  | ⟨.word word, span⟩ :: rest =>
      match context.scope.lookup? word with
      | some (slot, .temporary) => .ok (.named slot word, rest)
      | some (_, .entity _) => .error (.ofFault (.parameterAssigned word) span)
      | none => do
          let (found, rest) ← context.readName input
          let place ← context.placeNamed found
          if place.isConstant then
            throw (.ofFault (.constantAssigned found.name) found.span)
          let (index, rest) ← Expr.readIndex context (Expr.depthFor rest) rest
          return (.stored place found.name index, rest)
  | input => .error (context.refuse .assignmentTarget input)

end AssignmentTarget

namespace Update

def ofAssignment (names : Names) (line : Line) : Except ParseError Update := do
  let (context, input) ← LineContext.ofLine names line
  let (target, rest) ← AssignmentTarget.read context input
  let rest ← context.expectSymbol .colon rest
  let (value, rest) ← Expr.readExpr context rest
  context.expectEnd rest
  return target.assign value

/-- Reads what follows the colon of a command on the items of an entity type. -/
def ofCommand (names : Names) (entity : Nat) (name : String) (command : ItemCommand)
    (tail : Line) : Except ParseError Update := do
  let some collection := names.vocabulary.collection? entity
    | throw (.ofFault (.entityWithoutItems name) tail.span)
  let expected := names.vocabulary.fieldCount collection
  let checkCount (fields : List Expr) : Except ParseError Unit :=
    if fields.length = expected then .ok ()
    else .error (.ofFault (.fieldValueCount name expected fields.length) tail.span)
  let (context, input) ← LineContext.ofLine names tail
  match command with
  | .remove =>
      let (id, rest) ← Expr.readExpr context input
      context.expectEnd rest
      return .remove entity collection id
  | .add =>
      let (fields, rest) ← context.readFields input
      checkCount fields
      context.expectEnd rest
      return .insert entity collection fields
  | .replace =>
      let (id, rest) ← Expr.readExpr context input
      let (fields, rest) ← context.readFields rest
      checkCount fields
      context.expectEnd rest
      return .replace entity collection id fields

/-- The effect that a line other than a `NewVal` line holds. -/
def ofLine (names : Names) (line : Line) : Except ParseError Update :=
  match Text.cutAtFirst? ':' line.text with
  | none => ofAssignment names line
  | some (before, after) =>
      let head := Text.trimEnd before
      match ItemCommand.cut? head with
      | none => ofAssignment names line
      | some (owner, command) =>
          let name := String.ofList owner
          match names.vocabulary.entity? name with
          | some entity =>
              ofCommand names entity name command
                { line with text := after, column := line.column + before.length + 1 }
          | none =>
              if (names.vocabulary.name? (String.ofList head)).isSome then ofAssignment names line
              else
                .error
                  ⟨.unknownEntity name, ⟨0, byteLength owner, line.number, line.column⟩⟩

/-- The name and the value of a `NewVal` line; absent for another line. -/
def newVal? (line : Line) : Except ParseError (Option (String × Line)) :=
  match Text.afterStart? "NewVal".toList line.text with
  | none => .ok none
  | some rest =>
      if !Text.startsWith Text.isBlank rest then .ok none
      else
        match Text.cutAtFirst? ':' rest with
        | none => .error (.ofFault .newValWithoutColon line.span)
        | some (before, after) => do
            let name ← (line.piece 6 before).identifier
            return some (name, line.piece (6 + before.length + 1) after)

/-- What the header of a loop over ids says. -/
structure EachHeader where
  name : String
  entity : Nat
  filter : Option Expr

/-- Reads a header `name - Entity` with an optional filter in parentheses. -/
def EachHeader.ofLine (names : Names) (header : Line) : Except ParseError EachHeader := do
  let some (before, after) := Text.cutAtFirst? '-' header.text
    | throw (.ofFault .invalidAllHeader header.span)
  let name ← (header.piece 0 before).identifier
  let skipped := before.length + 1
  let owner := after.takeWhile (· ≠ '(')
  let filterText := after.dropWhile (· ≠ '(')
  let entityLine := header.piece skipped owner
  let some entity := names.vocabulary.entity? entityLine.string
    | throw ⟨.unknownEntity entityLine.string, entityLine.span⟩
  if filterText = [] then return ⟨name, entity, none⟩
  let filter ← Expr.ofLine (names.push name (.entity entity))
    (header.piece (skipped + owner.length) filterText)
  return ⟨name, entity, some filter⟩

/-- The name and the value of a block that is a `NewVal` line. -/
def newValOf? : Block → Except ParseError (Option (String × Line))
  | .plain line => newVal? line
  | _ => .ok none

mutual

/-- The effect that a block other than a `NewVal` line holds. -/
def ofBlock (names : Names) : Block → Except ParseError Update
  | .plain line => ofLine names line
  | .choice condition thenBlocks elseBlocks => do
      let condition ← Expr.ofLine names condition
      let (thenBody, _) ← ofBlocks names thenBlocks
      let (elseBody, _) ← ofBlocks names elseBlocks
      return .branch condition thenBody elseBody
  | .each header body => do
      let header ← EachHeader.ofLine names header
      let (body, _) ← ofBlocks (names.push header.name (.entity header.entity)) body
      return .forEach names.scope.size header.name header.entity header.filter body
  | .repeated condition body => do
      let condition ← Expr.ofLine names condition
      let (body, _) ← ofBlocks names body
      return .loop condition body

/-- The effects of consecutive blocks, and the scope after the last of them. -/
def ofBlocks (names : Names) : List Block → Except ParseError (List Update × Scope)
  | [] => .ok ([], names.scope)
  | block :: rest => do
      match ← newValOf? block with
      | some (name, valueLine) =>
          let value ← Expr.ofLine names valueLine
          let (body, scope) ← ofBlocks (names.push name .temporary) rest
          return ([.bind names.scope.size name value body], scope)
      | none =>
          let update ← ofBlock names block
          let (updates, scope) ← ofBlocks names rest
          return (update :: updates, scope)

end

end Update

/-- The cost that the blocks of a cost section hold: effects, and a last line with the value. -/
def Cost.ofBlocks (names : Names) (blocks : List Block) : Except ParseError Cost :=
  match blocks.getLast? with
  | none => .ok .zero
  | some (.plain valueLine) => do
      let (updates, scope) ← Update.ofBlocks names blocks.dropLast
      let value ← Expr.ofLine { names with scope } valueLine
      return ⟨updates, value⟩
  | some block => .error (.ofFault .costWithoutValue block.firstLine.span)

end Dispatch
