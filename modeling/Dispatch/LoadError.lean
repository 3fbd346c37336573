import Dispatch.ParseError

/-!
Errors of loading a document: where in the document a text was refused.
-/

namespace Dispatch

inductive DocumentKind where
  | domain
  | problem
deriving DecidableEq

namespace DocumentKind

/-- The name of the kind in messages. -/
def label : DocumentKind → String
  | .domain => "domain"
  | .problem => "problem"

/-- The name of the kind in the lines that open and close a document. -/
def title : DocumentKind → String
  | .domain => "Domain"
  | .problem => "Problem"

end DocumentKind

/-- A refused document: its kind, the title of the part that holds the error, and the error. -/
structure LoadError where
  document : DocumentKind
  part : String
  error : ParseError
deriving DecidableEq

namespace LoadError

/-- The number of the line at which the error is reported. -/
def line (error : LoadError) : Nat := error.error.span.line

/-- The wording, from the document down to the cause. -/
def message (error : LoadError) : String :=
  error.document.label ++ ": " ++ error.part ++ ": line " ++ toString error.line ++ ": "
    ++ error.error.message

/-- The result of reading a part of a document, as a result of loading the document. -/
def inPart {α : Type} (document : DocumentKind) (part : String)
    : Except ParseError α → Except LoadError α
  | .ok value => .ok value
  | .error error => .error ⟨document, part, error⟩

end LoadError

end Dispatch
