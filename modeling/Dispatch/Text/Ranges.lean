/-!
Character classes given as ascending lists of closed code-point ranges. Membership stops at the
first range that begins beyond the character.
-/

namespace Dispatch.Text

/-- Whether the code point lies in one of the ascending, disjoint closed ranges. -/
def inRanges (code : Nat) : List (Nat × Nat) → Bool
  | [] => false
  | (first, last) :: rest =>
      if code < first then false else code ≤ last || inRanges code rest

end Dispatch.Text
