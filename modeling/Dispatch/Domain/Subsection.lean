import Dispatch.Labelled
import Dispatch.Line
import Dispatch.ParseError

/-!
The labelled parts of actions and steps. Each label stands at most once, and lines before the first
label belong to a default part where there is one.
-/

namespace Dispatch

/-- A label inside an action or a step. -/
inductive Subsection where
  | preconditions
  | morePreconditions
  | conflicts
  | moreConflicts
  | effects
  | moreEffects
  | cost
deriving DecidableEq

namespace Subsection

def header : Subsection → String
  | .preconditions => "Precs:"
  | .morePreconditions => "PrecsAdd:"
  | .conflicts => "Confs:"
  | .moreConflicts => "ConfsAdd:"
  | .effects => "Effects:"
  | .moreEffects => "EffectsAdd:"
  | .cost => "Cost:"

def all : List Subsection :=
  [.preconditions, .morePreconditions, .conflicts, .moreConflicts, .effects, .moreEffects, .cost]

/-- The label that a line is, with the line. -/
def ofLine? (line : Line) : Option (Subsection × Line) :=
  (all.find? (line.holds ·.header)).map (·, line)

end Subsection

structure LabelledLines where
  subsection : Subsection
  lines : List Line

namespace LabelledLines

/-- The labelled parts, none of whose labels may be among those seen. -/
def distinct (seen : List Subsection)
    : List ((Subsection × Line) × List Line) → Except ParseError (List LabelledLines)
  | [] => .ok []
  | ((subsection, header), lines) :: rest => do
      if seen.contains subsection then
        throw (.ofFault (.subsectionTwice header.string) header.span)
      let parts ← distinct (subsection :: seen) rest
      return ⟨subsection, lines⟩ :: parts

/-- The labelled parts of a body; lines before the first label belong to the default part. -/
def ofBody (default? : Option Subsection) (body : List Line)
    : Except ParseError (List LabelledLines) :=
  match labelled Subsection.ofLine? body with
  | ([], groups) => distinct [] groups
  | (first :: lead, groups) =>
      match default? with
      | none => .error (.ofFault .missingSubsection first.span)
      | some subsection => do
          let parts ← distinct [subsection] groups
          return ⟨subsection, first :: lead⟩ :: parts

end LabelledLines

end Dispatch
