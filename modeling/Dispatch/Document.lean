import Dispatch.Line
import Dispatch.LoadError

/-!
The frame that all documents share: an opening line, a closing line, and nothing after it.
-/

namespace Dispatch.Document

/-- The lines between the opening and the closing line of a document. -/
def body (kind : DocumentKind) (lines : List Line) : Except ParseError (List Line) :=
  match lines with
  | [] => .error (.ofFault (.emptyDocument kind.title) ⟨0, 0, 1, 1⟩)
  | first :: _ =>
      if !(first.holds ("Start " ++ kind.title ++ ":") || first.holds ("Start " ++ kind.title))
      then .error (.ofFault (.missingStart kind.title) first.span)
      else
        match lines.dropWhile (!Line.holds · ("End " ++ kind.title)) with
        | [] => .error (.ofFault (.missingEnd kind.title) first.span)
        | _ :: extra :: _ => .error (.ofFault (.contentAfterEnd kind.title) extra.span)
        | [_] => .ok lines.tail.dropLast

/-- A header with the lines up to its terminator. -/
structure Group where
  header : Line
  body : List Line

/-- Consecutive groups, and the last header where no terminator follows it. -/
structure Groups where
  closed : List Group
  unclosed? : Option Line

/-- The groups of the lines, given the open header and the lines after it, latest first. -/
def groupsFrom (terminator : String) : Option (Line × List Line) → List Line → Groups
  | none, [] => ⟨[], none⟩
  | some (header, _), [] => ⟨[], some header⟩
  | none, line :: rest => groupsFrom terminator (some (line, [])) rest
  | some (header, body), line :: rest =>
      if line.holds terminator then
        let groups := groupsFrom terminator none rest
        { groups with closed := ⟨header, body.reverse⟩ :: groups.closed }
      else groupsFrom terminator (some (header, line :: body)) rest

/-- The groups of the lines: each starts at a header and ends at the next terminator. -/
def groups (terminator : String) (lines : List Line) : Groups := groupsFrom terminator none lines

end Dispatch.Document
