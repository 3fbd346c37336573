import Dispatch.Domain.Actions

/-!
Reading a domain document. Its sections stand in a fixed order, each at most once, and each is read
with the names that the sections before it declare.
-/

namespace Dispatch

/-- The sections of a domain document, in order. -/
inductive DomainSection where
  | entities
  | declarations
  | actions
  | environment
  | arrival
deriving DecidableEq

namespace DomainSection

/-- The name on the lines that open and close the section. -/
def title : DomainSection → String
  | .entities => "Entities"
  | .declarations => "Variables"
  | .actions => "Actions"
  | .environment => "EnvSteps"
  | .arrival => "IterStep"

/-- The place of the section in the order. -/
def rank : DomainSection → Nat
  | .entities => 0
  | .declarations => 1
  | .actions => 2
  | .environment => 3
  | .arrival => 4

def all : List DomainSection := [.entities, .declarations, .actions, .environment, .arrival]

def opened? (line : Line) : Option DomainSection :=
  all.find? fun part => line.holds part.title || line.holds (part.title ++ ":")

def closed? (line : Line) : Option DomainSection :=
  all.find? fun part => line.holds ("End " ++ part.title)

end DomainSection

structure SectionLines where
  part : DomainSection
  lines : List Line

namespace SectionLines

/-- An error at a line of a section. -/
def refuse (part : String) (fault : SyntaxFault) (line : Line) : LoadError :=
  ⟨.domain, part, .ofFault fault line.span⟩

/-- The section with a line at its front. -/
def grow (line : Line) : List SectionLines → List SectionLines
  | [] => []
  | first :: rest => { first with lines := line :: first.lines } :: rest

/-- Splits lines into sections, given the last section and whether it is open. The lines of the last
section come first, under its own name.
-/
def splitFrom (last : DomainSection) (isOpen : Bool)
    : List Line → Except LoadError (List SectionLines)
  | [] => .ok [⟨last, []⟩]
  | line :: rest =>
      match DomainSection.opened? line with
      | some part =>
          if part.rank ≤ last.rank then
            .error (refuse part.title (.sectionOutOfOrder part.title) line)
          else do
            let parts ← splitFrom part true rest
            return ⟨last, []⟩ :: parts
      | none =>
          match DomainSection.closed? line with
          | some part =>
              if isOpen && part = last then splitFrom last false rest
              else .error (refuse part.title (.endWithoutHeader part.title) line)
          | none =>
              if isOpen then do
                let parts ← splitFrom last true rest
                return grow line parts
              else .error (refuse "Domain" .lineOutsideSection line)

/-- Splits the lines of a document into sections. -/
def split : List Line → Except LoadError (List SectionLines)
  | [] => .ok []
  | line :: rest =>
      match DomainSection.opened? line with
      | some part => splitFrom part true rest
      | none =>
          match DomainSection.closed? line with
          | some part => .error (refuse part.title (.endWithoutHeader part.title) line)
          | none => .error (refuse "Domain" .lineOutsideSection line)

end SectionLines

namespace Domain

/-- The domain with what a section declares. -/
def readSection (domain : Domain) (part : DomainSection) (lines : List Line)
    : Except ParseError Domain := do
  match part with
  | .entities =>
      let vocabulary ← domain.vocabulary.readEntities (lines.flatMap Line.commaPieces)
      return { domain with vocabulary }
  | .declarations =>
      let (vocabulary, items) ← ItemsDecl.readAll domain.vocabulary lines
      let (vocabulary, declarations) ← VariableDecl.readAll vocabulary 0 0 lines
      return { domain with vocabulary, items, declarations }
  | .actions => return { domain with actions := ← ActionDecl.readAll domain.vocabulary lines }
  | .environment =>
      return { domain with environment := ← StepDecl.readAll domain.vocabulary lines }
  | .arrival => return { domain with arrival := ← StepDecl.readAll domain.vocabulary lines }

/-- The domain with what consecutive sections declare. -/
def readSections (domain : Domain) : List SectionLines → Except LoadError Domain
  | [] => .ok domain
  | head :: rest => do
      let domain ←
        LoadError.inPart .domain head.part.title (domain.readSection head.part head.lines)
      domain.readSections rest

def ofText (source : List Char) : Except LoadError Domain := do
  let lines ← LoadError.inPart .domain "Domain" (Document.body .domain (Line.ofSource source))
  let sections ← SectionLines.split lines
  empty.readSections sections

end Domain

end Dispatch
