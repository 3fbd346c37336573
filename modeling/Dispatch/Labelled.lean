/-!
Sequences in which some elements are labels for the elements after them.
-/

namespace Dispatch

/-- The elements before the first label, and each label with the elements after it. -/
def labelled {α β : Type} (label? : α → Option β) : List α → List α × List (β × List α)
  | [] => ([], [])
  | element :: rest =>
      let (lead, groups) := labelled label? rest
      match label? element with
      | some label => ([], (label, lead) :: groups)
      | none => (element :: lead, groups)

end Dispatch
