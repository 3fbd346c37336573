import Dispatch.Text.Blank

/-!
Cutting a text into parts: at its first or last occurrence of a character, into lines, into words
and at the commas outside brackets.
-/

namespace Dispatch.Text

/-- The text before and after the first occurrence of the character. -/
def cutAtFirst? (mark : Char) (text : List Char) : Option (List Char × List Char) :=
  match text.dropWhile (· ≠ mark) with
  | [] => none
  | _ :: after => some (text.takeWhile (· ≠ mark), after)

/-- The text before and after the last character that satisfies the test. -/
def cutAtLast? (test : Char → Bool) (text : List Char) : Option (List Char × List Char) :=
  match text.reverse.dropWhile (!test ·) with
  | [] => none
  | _ :: before => some (before.reverse, (text.reverse.takeWhile (!test ·)).reverse)

/-- The rest of a text that starts with the given word. -/
def afterStart? : List Char → List Char → Option (List Char)
  | [], text => some text
  | _ :: _, [] => none
  | w :: word, c :: text => if w = c then afterStart? word text else none

/-- The start of a text that ends with the given character. -/
def beforeEnd? (mark : Char) (text : List Char) : Option (List Char) :=
  if text.getLast? = some mark then some text.dropLast else none

/-- Whether the text starts with a character that satisfies the test. -/
def startsWith (test : Char → Bool) (text : List Char) : Bool := text.head?.any test

/-- The rest of a text that starts with the given word on its own. -/
def afterWord? (word : String) (text : List Char) : Option (List Char) :=
  (afterStart? word.toList text).filter fun rest => rest = [] || startsWith isBlank rest

/-- The parts with a character put before the first of them. -/
def growFirst (c : Char) : List (List Char) → List (List Char)
  | [] => [[c]]
  | part :: parts => (c :: part) :: parts

/-- The parts of a text between the characters that satisfy the test. -/
def split (test : Char → Bool) : List Char → List (List Char)
  | [] => [[]]
  | c :: rest => if test c then [] :: split test rest else growFirst c (split test rest)

/-- The lines of a text, each with the newline that ends it. -/
def linesWithEnds : List Char → List (List Char)
  | [] => []
  | c :: rest =>
      if c = '\n' then [c] :: linesWithEnds rest else growFirst c (linesWithEnds rest)

/-- The words of a text, separated by blanks. -/
def words (text : List Char) : List (List Char) := (split isBlank text).filter (· ≠ [])

def joinWords : List (List Char) → List Char
  | [] => []
  | [word] => word
  | word :: rest => word ++ ' ' :: joinWords rest

/-- The bracket depth after one more character. -/
def depthAfter (depth : Int) (c : Char) : Int :=
  if c = '(' || c = '[' || c = '\x7b' then depth + 1
  else if c = ')' || c = ']' || c = '\x7d' then depth - 1
  else depth

/-- The parts of a text between commas at bracket depth zero, for a text at the given depth. -/
def splitTopLevel (depth : Int) : List Char → List (List Char)
  | [] => [[]]
  | c :: rest =>
      if c = ',' && depth = 0 then [] :: splitTopLevel depth rest
      else growFirst c (splitTopLevel (depthAfter depth c) rest)

end Dispatch.Text
