/-!
The tokens of a line: reserved words, symbols, integer literals and single words. Every token has
one display text; reserved words are read in any ASCII case and displayed in lower case.
-/

namespace Dispatch

inductive Keyword where
  | conjunction
  | disjunction
  | negation
  | truth
  | falsity
  | existence
  | entity
deriving DecidableEq

namespace Keyword

def text : Keyword → String
  | .conjunction => "and"
  | .disjunction => "or"
  | .negation => "not"
  | .truth => "true"
  | .falsity => "false"
  | .existence => "exists"
  | .entity => "entity"

def all : List Keyword :=
  [.conjunction, .disjunction, .negation, .truth, .falsity, .existence, .entity]

/-- The reserved word that the characters spell, whatever the case of ASCII letters. -/
def ofWord? (word : List Char) : Option Keyword :=
  all.find? fun keyword => keyword.text.toList = word.map Char.toLower

end Keyword

inductive Symbol where
  | openParen
  | closeParen
  | comma
  | colon
  | assign
  | equal
  | notEqual
  | less
  | lessEqual
  | greater
  | greaterEqual
  | question
  | plus
  | minus
  | star
  | slash
  | atSign
deriving DecidableEq

namespace Symbol

def text : Symbol → String
  | .openParen => "("
  | .closeParen => ")"
  | .comma => ","
  | .colon => ":"
  | .assign => "="
  | .equal => "=="
  | .notEqual => "!="
  | .less => "<"
  | .lessEqual => "<="
  | .greater => ">"
  | .greaterEqual => ">="
  | .question => "?"
  | .plus => "+"
  | .minus => "-"
  | .star => "*"
  | .slash => "/"
  | .atSign => "@"

/-- The longest symbol at the start of the text. -/
def leading? : List Char → Option Symbol
  | '=' :: '=' :: _ => some .equal
  | '!' :: '=' :: _ => some .notEqual
  | '<' :: '=' :: _ => some .lessEqual
  | '>' :: '=' :: _ => some .greaterEqual
  | '=' :: _ => some .assign
  | '<' :: _ => some .less
  | '>' :: _ => some .greater
  | '(' :: _ => some .openParen
  | ')' :: _ => some .closeParen
  | ',' :: _ => some .comma
  | ':' :: _ => some .colon
  | '?' :: _ => some .question
  | '+' :: _ => some .plus
  | '-' :: _ => some .minus
  | '*' :: _ => some .star
  | '/' :: _ => some .slash
  | '@' :: _ => some .atSign
  | _ => none

end Symbol

/-- A token. Names of several words are several `word` tokens, joined where they are read. -/
inductive Token where
  | keyword (keyword : Keyword)
  | symbol (symbol : Symbol)
  | integer (value : Nat)
  | word (name : String)
deriving DecidableEq

namespace Token

def text : Token → String
  | .keyword reserved => reserved.text
  | .symbol mark => mark.text
  | .integer value => toString value
  | .word name => name

end Token

end Dispatch
