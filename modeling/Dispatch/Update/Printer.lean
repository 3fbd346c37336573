import Dispatch.Expr.Printer
import Dispatch.Update

/-!
Effects as lines of the language, two spaces of indentation for each enclosing block.
-/

namespace Dispatch

/-- The text, indented for a nesting depth. -/
def indented (depth : Nat) (text : String) : String :=
  String.ofList (List.replicate (2 * depth) ' ') ++ text

/-- Lines as one text, each ended by a newline. -/
def linesText : List String → String
  | [] => ""
  | line :: rest => line ++ "\n" ++ linesText rest

namespace Update

/-- A variable name with its index, which is left out where it is zero. -/
def targetText (name : String) (index : Expr) : String :=
  if index.isZero then name
  else name ++ " " ++ parenthesized (!index.isBareIndex) index.text

/-- The filter in the header of a loop over ids. -/
def filterText : Option Expr → String
  | none => ""
  | some filter => " (" ++ filter.text ++ ")"

mutual

/-- The lines of an effect at a nesting depth. -/
def lines (vocabulary : Vocabulary) (depth : Nat) : Update → List String
  | .assign _ name index value =>
      [indented depth (targetText name index ++ ": " ++ value.text)]
  | .assignLocal _ name value => [indented depth (name ++ ": " ++ value.text)]
  | .insert entity _ fields =>
      [indented depth
        (vocabulary.entityName entity ++ " add: (" ++ Expr.commaText fields ++ ")")]
  | .remove entity _ id =>
      [indented depth (vocabulary.entityName entity ++ " remove: " ++ id.text)]
  | .replace entity _ id fields =>
      [indented depth
        (vocabulary.entityName entity ++ " replace: " ++ parenthesized (!id.isAtomic) id.text
          ++ " (" ++ Expr.commaText fields ++ ")")]
  | .bind _ name value body =>
      indented depth ("NewVal " ++ name ++ ": " ++ value.text) :: linesOf vocabulary depth body
  | .branch condition thenBody elseBody =>
      [indented depth ("Case (" ++ condition.text ++ "):")]
        ++ linesOf vocabulary (depth + 1) thenBody
        ++ (if elseBody.isEmpty then [] else [indented depth "Else:"])
        ++ linesOf vocabulary (depth + 1) elseBody
        ++ [indented depth "End"]
  | .forEach _ name entity filter body =>
      [indented depth
        ("All (" ++ name ++ " - " ++ vocabulary.entityName entity ++ filterText filter ++ "):")]
        ++ linesOf vocabulary (depth + 1) body
        ++ [indented depth "End"]
  | .loop condition body =>
      [indented depth ("Repeat (" ++ condition.text ++ "):")]
        ++ linesOf vocabulary (depth + 1) body
        ++ [indented depth "End"]

def linesOf (vocabulary : Vocabulary) (depth : Nat) : List Update → List String
  | [] => []
  | update :: rest => update.lines vocabulary depth ++ linesOf vocabulary depth rest

end

def textOf (vocabulary : Vocabulary) (updates : List Update) : String :=
  linesText (linesOf vocabulary 0 updates)

end Update

def Cost.lines (vocabulary : Vocabulary) (cost : Cost) : List String :=
  Update.linesOf vocabulary 0 cost.updates ++ [cost.value.text]

def Cost.text (vocabulary : Vocabulary) (cost : Cost) : String :=
  linesText (cost.lines vocabulary)

end Dispatch
