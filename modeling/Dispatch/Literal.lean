import Dispatch.Text.Joined

/-!
Literal values of a problem, as they are written: sets and maps keep their written order.
-/

namespace Dispatch

inductive Literal where
  | int (value : Int)
  | bool (value : Bool)
  | set (elements : List Int)
  | map (pairs : List (Int × Int))
  /-- The fields of an item. -/
  | tuple (fields : List Literal)

namespace Literal

mutual

def text : Literal → String
  | .int value => "Int(" ++ toString value ++ ")"
  | .bool value => "Bool(" ++ (if value then "true" else "false") ++ ")"
  | .set elements => "Set([" ++ joined ", " (elements.map toString) ++ "])"
  | .map pairs =>
      "Map([" ++ joined ", " (pairs.map fun (key, value) =>
        "(" ++ toString key ++ ", " ++ toString value ++ ")") ++ "])"
  | .tuple fields => "Tuple([" ++ joined ", " (texts fields) ++ "])"

def texts : List Literal → List String
  | [] => []
  | field :: rest => field.text :: texts rest

end

end Literal

end Dispatch
