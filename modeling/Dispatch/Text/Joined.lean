/-!
Texts put together with a separator between neighbours.
-/

namespace Dispatch

/-- The texts in order, with the separator between neighbours. -/
def joined (separator : String) : List String → String
  | [] => ""
  | [text] => text
  | text :: rest => text ++ separator ++ joined separator rest

end Dispatch
