import Dispatch.Document
import Dispatch.Literal.Parser
import Dispatch.Problem

/-!
Reading a problem document. An entry starts at a line `Name: values` and goes on in value lines;
a line with a single star starts the next batch.
-/

namespace Dispatch

/-- The greatest index that a value line can give, `2^64 - 1`. -/
def greatestIndex : Nat := 18446744073709551615

namespace StartValue

/-- Reads the value line `index. value` or `value`. -/
def ofLine (line : Line) : Except ParseError StartValue :=
  let digits := line.text.takeWhile Char.isDigit
  match line.text.dropWhile Char.isDigit with
  | '.' :: after =>
      if digits = [] then bare
      else if greatestIndex < numeral digits then .error (.ofFault .indexOutOfRange line.span)
      else do
        let literal ← Literal.ofLine (line.piece (digits.length + 1) after)
        return ⟨some (numeral digits), literal, line.number⟩
  | _ => bare
where
  /-- The value of a line without an index. -/
  bare : Except ParseError StartValue := do
    let literal ← Literal.ofLine line
    return ⟨none, literal, line.number⟩

/-- Reads the values that stand on the line of an entry's name; empty ones are skipped. -/
def ofPieces : List Line → Except ParseError (List StartValue)
  | [] => .ok []
  | piece :: rest =>
      if piece.text = [] then ofPieces rest
      else do
        let literal ← Literal.ofLine piece
        let values ← ofPieces rest
        return ⟨none, literal, piece.number⟩ :: values

end StartValue

namespace StartEntry

/-- The name on a line that starts an entry and the piece after its colon; absent for a value
line.
-/
def header? (line : Line) : Option (String × Line) :=
  if Text.startsWith Text.isAlphabetic line.text then
    (Text.cutAtFirst? ':' line.text).map fun (before, after) =>
      ((line.piece 0 before).string, line.piece (before.length + 1) after)
  else none

end StartEntry

namespace Problem

/-- The batches with an entry put at the front of the first. -/
def growFirst (entry : StartEntry) : List (List StartEntry) → List (List StartEntry)
  | [] => [[entry]]
  | batch :: batches => (entry :: batch) :: batches

/-- Reads the lines of batches. The values before the first entry come apart: they belong to the
entry in which the lines start, if there is one.
-/
def readBatches (inEntry : Bool)
    : List Line → Except ParseError (List StartValue × List (List StartEntry))
  | [] => .ok ([], [[]])
  | line :: rest => do
      if line.holds "*" then
        let (_, batches) ← readBatches false rest
        return ([], [] :: batches)
      else
        match StartEntry.header? line with
        | some (name, piece) =>
            let first ← StartValue.ofPieces piece.commaPieces
            let (more, batches) ← readBatches true rest
            return ([], growFirst ⟨name, first ++ more, line.number⟩ batches)
        | none =>
            if !inEntry then throw (.ofFault .valueOutsideEntry line.span)
            let value ← StartValue.ofLine line
            let (values, batches) ← readBatches true rest
            return (value :: values, batches)

/-- The problem made of the given batches, the first of which is the start. -/
def ofBatches : List (List StartEntry) → Problem
  | [] => ⟨[], []⟩
  | initial :: iterations => ⟨initial, iterations⟩

def ofText (source : List Char) : Except LoadError Problem :=
  LoadError.inPart .problem "Problem" do
    let lines ← Document.body .problem (Line.ofSource source)
    let (_, batches) ← readBatches false lines
    return ofBatches batches

end Problem

end Dispatch
