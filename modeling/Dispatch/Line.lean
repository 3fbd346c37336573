import Dispatch.Position
import Dispatch.Text.Cut

/-!
Source lines: the code of a line without its comment and outer blanks, and where it stands in the
file. Pieces cut from a line keep their place.
-/

namespace Dispatch

/-- A piece of one line of a file: its text, and the line and column of its first character. -/
structure Line where
  text : List Char
  number : Nat
  column : Nat
deriving DecidableEq

namespace Line

def span (line : Line) : Span := ⟨0, byteLength line.text, line.number, line.column⟩

/-- The position of the first character, from which a reader counts bytes. -/
def position (line : Line) : Position := ⟨0, line.number, line.column⟩

def string (line : Line) : String := String.ofList line.text

/-- Whether the line holds exactly the given words. -/
def holds (line : Line) (words : String) : Bool := line.text = words.toList

/-- The part of the line that follows its first `skipped` characters, without outer blanks. -/
def piece (line : Line) (skipped : Nat) (part : List Char) : Line where
  text := Text.trim part
  number := line.number
  column := line.column + skipped + (part.takeWhile Text.isBlank).length

/-- Consecutive parts with one character between them, the first after `skipped` characters. -/
def pieces (line : Line) (skipped : Nat) : List (List Char) → List Line
  | [] => []
  | part :: parts => line.piece skipped part :: line.pieces (skipped + part.length + 1) parts

def commaPieces (line : Line) : List Line := line.pieces 0 (Text.splitTopLevel 0 line.text)

/-- The code of the raw line with the given number; absent where the line holds none. -/
def ofRaw? (raw : List Char) (number : Nat) : Option Line :=
  let line := piece ⟨[], number, 1⟩ 0 (raw.takeWhile (· ≠ '#'))
  if line.text = [] then none else some line

/-- The lines of a file that hold code, in order. -/
def ofSource (source : List Char) : List Line :=
  ((Text.split (· = '\n') source).zipIdx 1).filterMap fun (raw, number) => ofRaw? raw number

end Line

end Dispatch
