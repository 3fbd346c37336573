import Dispatch.Document
import Dispatch.Domain.Declarations
import Dispatch.Domain.Subsection
import Dispatch.Update.Parser

/-!
Reading actions and steps. An action whose tag names an earlier action inherits all of it: its
parameters come first and keep their slots, and the subsections replace or extend what was
inherited.
-/

namespace Dispatch

namespace ParameterDecl

def ofPiece (vocabulary : Vocabulary) (piece : Line) : Except ParseError ParameterDecl := do
  let some (before, after) := Text.cutAtFirst? '-' piece.text
    | throw (.ofFault .invalidParameter piece.span)
  let name ← identifierOf (Text.trim before) piece.span
  let owner := String.ofList (Text.trim after)
  let some entity := vocabulary.entity? owner | throw ⟨.unknownEntity owner, piece.span⟩
  return ⟨name, entity⟩

/-- The parameters extended by those of the pieces. A parameter that is declared again keeps its
place, and its entity type must be the same; empty pieces are skipped.
-/
def readAll (vocabulary : Vocabulary) (parameters : List ParameterDecl)
    : List Line → Except ParseError (List ParameterDecl)
  | [] => .ok parameters
  | piece :: rest => do
      if piece.text = [] then readAll vocabulary parameters rest
      else
        let parameter ← ofPiece vocabulary piece
        match parameters.find? (·.name = parameter.name) with
        | none => readAll vocabulary (parameters ++ [parameter]) rest
        | some earlier =>
            if earlier.entity = parameter.entity then readAll vocabulary parameters rest
            else throw (.ofFault (.parameterRedeclared parameter.name) piece.span)

/-- The scope in which the parameters are in force. -/
def scope (parameters : List ParameterDecl) : Scope :=
  ⟨parameters.map fun parameter => ⟨parameter.name, .entity parameter.entity⟩⟩

end ParameterDecl

def Expr.ofLines (names : Names) : List Line → Except ParseError (List Expr)
  | [] => .ok []
  | line :: rest => do
      let condition ← Expr.ofLine names line
      let conditions ← Expr.ofLines names rest
      return condition :: conditions

def Update.ofLines (names : Names) (lines : List Line) : Except ParseError (List Update) := do
  let (updates, _) ← Update.ofBlocks names (← Block.nest lines)
  return updates

def Cost.ofLines (names : Names) (lines : List Line) : Except ParseError Cost := do
  Cost.ofBlocks names (← Block.nest lines)

namespace ActionDecl

/-- The action that an action with the given tag starts from: a copy of the earlier action of that
name, or an action without parts that keeps the tag.
-/
def inheriting (earlier : List ActionDecl) (name : String) (tag : Option String) (line : Nat)
    : ActionDecl :=
  match tag.bind fun tag => earlier.find? (·.name = tag) with
  | some parent => { parent with name, parent := some parent.name, line }
  | none => ⟨name, tag, none, [], [], [], [], .zero, line⟩

/-- The action with one of its labelled parts. -/
def readPart (names : Names) (action : ActionDecl) (part : LabelledLines)
    : Except ParseError ActionDecl := do
  match part.subsection with
  | .preconditions =>
      return { action with preconditions := ← Expr.ofLines names part.lines }
  | .morePreconditions =>
      let more ← Expr.ofLines names part.lines
      return { action with preconditions := action.preconditions ++ more }
  | .conflicts => return { action with conflicts := ← Expr.ofLines names part.lines }
  | .moreConflicts =>
      let more ← Expr.ofLines names part.lines
      return { action with conflicts := action.conflicts ++ more }
  | .effects => return { action with effects := ← Update.ofLines names part.lines }
  | .moreEffects =>
      let more ← Update.ofLines names part.lines
      return { action with effects := action.effects ++ more }
  | .cost => return { action with cost := ← Cost.ofLines names part.lines }

/-- The action with its labelled parts, in order. -/
def readParts (names : Names) (action : ActionDecl)
    : List LabelledLines → Except ParseError ActionDecl
  | [] => .ok action
  | part :: rest => do
      let action ← action.readPart names part
      action.readParts names rest

/-- The parameters on the header of an action, without its tag, and the tag. -/
def cutTag (header : Line) : Except ParseError (Line × Option String) :=
  match Text.beforeEnd? ')' header.text with
  | none => .ok (header, none)
  | some inside =>
      match Text.cutAtLast? (· = '(') inside with
      | none => .error (.ofFault .unbalancedActionHeader header.span)
      | some (before, tag) =>
          .ok (header.piece 0 before, some (String.ofList (Text.trim tag)))

def ofGroup (vocabulary : Vocabulary) (earlier : List ActionDecl) (group : Document.Group)
    : Except ParseError ActionDecl := do
  let header := group.header
  let some (before, after) := Text.cutAtFirst? ':' header.text
    | throw (.ofFault .invalidActionHeader header.span)
  let name := String.ofList (Text.trim before)
  if name = "" then throw (.ofFault .missingActionName header.span)
  let (parametersLine, tag) ← cutTag (header.piece (before.length + 1) after)
  let start := inheriting earlier name tag header.number
  let parameters ←
    ParameterDecl.readAll vocabulary start.parameters parametersLine.commaPieces
  if parameters.isEmpty then throw (.ofFault (.actionWithoutParameter name) header.span)
  let parts ← LabelledLines.ofBody none group.body
  readParts ⟨vocabulary, ParameterDecl.scope parameters⟩ { start with parameters } parts

def readGroups (vocabulary : Vocabulary) (earlier : List ActionDecl)
    : List Document.Group → Except ParseError (List ActionDecl)
  | [] => .ok earlier
  | group :: rest => do
      let action ← ofGroup vocabulary earlier group
      if earlier.any (·.name = action.name) then
        throw (.ofFault (.actionTwice action.name) group.header.span)
      readGroups vocabulary (earlier ++ [action]) rest

def readAll (vocabulary : Vocabulary) (lines : List Line)
    : Except ParseError (List ActionDecl) := do
  let groups := Document.groups "End Action" lines
  let actions ← readGroups vocabulary [] groups.closed
  match groups.unclosed? with
  | none => return actions
  | some header => throw (.ofFault (.unclosedHeader header.string "End Action") header.span)

end ActionDecl

namespace StepDecl

/-- The name on the header of a step. -/
def nameOf (header : Line) : Except ParseError String :=
  match (Text.beforeEnd? ':' header.text).map Text.trim with
  | some (c :: name) => .ok (String.ofList (c :: name))
  | _ => .error (.ofFault .invalidStepHeader header.span)

/-- The step with one of its labelled parts; a step is never conditional. -/
def readPart (names : Names) (header : Line) (step : StepDecl) (part : LabelledLines)
    : Except ParseError StepDecl := do
  let blocks ← Block.nest part.lines
  match part.subsection with
  | .effects | .moreEffects =>
      let (more, _) ← Update.ofBlocks names blocks
      return { step with effects := step.effects ++ more }
  | .cost => return { step with cost := ← Cost.ofBlocks names blocks }
  | _ => throw (.ofFault .stepWithCondition (part.lines.head?.getD header).span)

/-- The step with its labelled parts, in order. -/
def readParts (names : Names) (header : Line) (step : StepDecl)
    : List LabelledLines → Except ParseError StepDecl
  | [] => .ok step
  | part :: rest => do
      let step ← step.readPart names header part
      step.readParts names header rest

def ofGroup (vocabulary : Vocabulary) (group : Document.Group) : Except ParseError StepDecl := do
  let name ← nameOf group.header
  let parts ← LabelledLines.ofBody (some .effects) group.body
  readParts ⟨vocabulary, .empty⟩ group.header ⟨name, [], .zero, group.header.number⟩ parts

def readGroups (vocabulary : Vocabulary)
    : List Document.Group → Except ParseError (List StepDecl)
  | [] => .ok []
  | group :: rest => do
      let step ← ofGroup vocabulary group
      let steps ← readGroups vocabulary rest
      return step :: steps

def readAll (vocabulary : Vocabulary) (lines : List Line) : Except ParseError (List StepDecl) := do
  let groups := Document.groups "End Step" lines
  let steps ← readGroups vocabulary groups.closed
  match groups.unclosed? with
  | none => return steps
  | some header =>
      let _ ← nameOf header
      throw (.ofFault (.unclosedHeader header.string "End Step") header.span)

end StepDecl

end Dispatch
