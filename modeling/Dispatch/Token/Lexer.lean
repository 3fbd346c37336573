import Dispatch.Bounds
import Dispatch.ParseError
import Dispatch.Text.Blank
import Dispatch.Text.Number

/-!
Reading a text into tokens with their spans. Blanks separate tokens and are otherwise skipped;
each token is the longest that starts at its place.
-/

namespace Dispatch

/-- Whether a word may begin with the character. -/
def beginsWord (c : Char) : Bool := Text.isAlphabetic c || c = '_'

/-- Whether the character may stand in a word after its first. -/
def continuesWord (c : Char) : Bool := Text.isAlphanumeric c || c = '_'

/-- Whether the text can name a parameter: one word that is not reserved. -/
def isIdentifier : List Char → Bool
  | [] => false
  | c :: rest => beginsWord c && rest.all continuesWord && (Keyword.ofWord? (c :: rest)).isNone

/-- The number that a run of ASCII digits denotes. -/
def numeral (digits : List Char) : Nat :=
  digits.foldl (fun value digit => 10 * value + (digit.toNat - '0'.toNat)) 0

/-- A token and the place of its text. -/
structure Lexeme (ν : Type := Nat) where
  token : Token
  span : Span ν
deriving DecidableEq

/-- A tokenized text: its lexemes in order, and the empty span where it ends. -/
structure TokenLine (ν : Type := Nat) where
  lexemes : List (Lexeme ν)
  stop : Span ν
deriving DecidableEq

namespace Token

/-- How many characters of `rest` belong to the lexeme that `c` begins. -/
def tailLength (c : Char) (rest : List Char) : Nat :=
  if c.isDigit then (rest.takeWhile Char.isDigit).length
  else if beginsWord c then (rest.takeWhile continuesWord).length
  else
    match Symbol.leading? (c :: rest) with
    | some mark => mark.text.length - 1
    | none => 0

/-- The token spelled by one lexeme, `c` followed by `rest`. -/
def ofLexeme (c : Char) (rest : List Char) : Except ParseError.Cause Token :=
  if c.isDigit then
    let value := numeral (c :: rest)
    if value ≤ greatestNumber then .ok (.integer value)
    else .error (.malformed (.literalOutOfRange (String.ofList (c :: rest))))
  else if beginsWord c then
    match Keyword.ofWord? (c :: rest) with
    | some reserved => .ok (.keyword reserved)
    | none => .ok (.word (String.ofList (c :: rest)))
  else
    match Symbol.leading? (c :: rest) with
    | some mark => .ok (.symbol mark)
    | none => .error (.strayCharacter c)

end Token

namespace TokenLine

/-- Reads the text that starts at the given position. -/
def read {ν : Type} [Add ν] [OfNat ν 1] (here : Position ν)
    : List Char → Except (ParseError ν) (TokenLine ν)
  | [] => .ok ⟨[], .between here here⟩
  | c :: rest =>
      if Text.isBlank c then read (here.advance c) rest
      else
        let taken := Token.tailLength c rest
        let next := here.advanceBy (c :: rest.take taken)
        match Token.ofLexeme c (rest.take taken) with
        | .error cause => .error ⟨cause, .between here next⟩
        | .ok token => do
            let line ← read next (rest.drop taken)
            return { line with lexemes := ⟨token, .between here next⟩ :: line.lexemes }
termination_by text => text.length
decreasing_by
  · simp
  · simp only [List.length_drop, List.length_cons]; omega

end TokenLine

end Dispatch
