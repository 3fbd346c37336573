/-!
Places in a text. A position counts bytes from the start of the piece of text being read, and
lines and columns in its file; a span is a byte range together with the line and column of its
first character. Lines and columns are counted in any type of numbers: without a bound in the
documents of a problem, and in 32 bits, which wrap around, where a text is read by itself.
-/

namespace Dispatch

/-- A place in a text: byte offset, and line and column counted from 1 in characters. -/
structure Position (ν : Type := Nat) where
  offset : Nat
  line : ν
  column : ν
deriving DecidableEq

namespace Position

variable {ν : Type} [Add ν] [OfNat ν 1]

/-- The position after one more character; a newline starts the next line. -/
def advance (here : Position ν) (c : Char) : Position ν where
  offset := here.offset + c.utf8Size
  line := if c = '\n' then here.line + 1 else here.line
  column := if c = '\n' then 1 else here.column + 1

/-- The position after a run of characters. -/
def advanceBy (here : Position ν) (text : List Char) : Position ν := text.foldl advance here

end Position

/-- The byte range of a piece of text, with the line and column of its start. -/
structure Span (ν : Type := Nat) where
  start : Nat
  stop : Nat
  line : ν
  column : ν
deriving DecidableEq

namespace Span

/-- The span from one position up to another. -/
def between {ν : Type} (first last : Position ν) : Span ν :=
  ⟨first.offset, last.offset, first.line, first.column⟩

/-- The span extended to the end of a later span of the same line. -/
def cover (span later : Span) : Span := { span with stop := max span.stop later.stop }

def width {ν : Type} (span : Span ν) : Nat := span.stop - span.start

def place {ν : Type} [ToString ν] (span : Span ν) : String :=
  toString span.line ++ ":" ++ toString span.column

end Span

/-- The number of bytes that the text occupies. -/
def byteLength : List Char → Nat
  | [] => 0
  | c :: rest => c.utf8Size + byteLength rest

theorem byteLength_append (left right : List Char)
    : byteLength (left ++ right) = byteLength left + byteLength right := by
  induction left with
  | nil => simp [byteLength]
  | cons c rest ih => simp [byteLength, ih, Nat.add_assoc]

end Dispatch
