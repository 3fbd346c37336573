import Dispatch.Line
import Dispatch.ParseError

/-!
Nesting of effect lines into blocks. A header opens a block that the matching `End` closes, and
`Else` starts the second part of a `Case`; all other lines are kept as they are.
-/

namespace Dispatch

/-- An effect line, or a block with its header. -/
inductive Block where
  | plain (line : Line)
  /-- Two bodies and the condition that chooses between them. -/
  | choice (condition : Line) (thenBlocks elseBlocks : List Block)
  /-- A body for each id; the header is kept without its outer parentheses. -/
  | each (header : Line) (body : List Block)
  /-- A body that runs as long as the condition holds. -/
  | repeated (condition : Line) (body : List Block)

namespace Block

/-- The line that a block is reported at. -/
def firstLine : Block → Line
  | .plain line => line
  | .choice condition _ _ => condition
  | .each header _ => header
  | .repeated condition _ => condition

/-- The part a line plays in the nesting of blocks. -/
inductive Role where
  | close
  | otherwise
  | openCase (condition : Line)
  | openAll (header : Line)
  | openRepeat (condition : Line)
  | plain

/-- What stands between a block keyword and the colon that ends its header; absent where the line
does not start with the keyword.
-/
def headerAfter? (keyword : String) (line : Line) : Except ParseError (Option Line) :=
  match Text.afterStart? keyword.toList line.text with
  | none => .ok none
  | some rest =>
      if !Text.startsWith (fun c => Text.isBlank c || c = '(') rest then .ok none
      else
        match Text.beforeEnd? ':' rest with
        | none => .error (.ofFault (.headerWithoutColon keyword) line.span)
        | some part => .ok (some (line.piece keyword.length part))

/-- The line without the parentheses around it. -/
def withoutParentheses (line : Line) : Except ParseError Line :=
  match line.text with
  | '(' :: rest =>
      match Text.beforeEnd? ')' rest with
      | some part => .ok (line.piece 1 part)
      | none => .error (.ofFault .headerWithoutParentheses line.span)
  | _ => .error (.ofFault .headerWithoutParentheses line.span)

def roleOf (line : Line) : Except ParseError Role := do
  if line.holds "End" then return .close
  if line.holds "Else:" || line.holds "Else" then return .otherwise
  if let some condition ← headerAfter? "Case" line then return .openCase condition
  if let some header ← headerAfter? "All" line then return .openAll (← withoutParentheses header)
  if let some condition ← headerAfter? "Repeat" line then return .openRepeat condition
  return .plain

/-- The part of a block that is open: what its finished parts are. -/
inductive Opening where
  | choiceThen (condition : Line)
  | choiceElse (condition : Line) (thenBlocks : List Block)
  | each (header : Line)
  | repeated (condition : Line)

/-- An open block: the line that opened it, its finished parts, and the blocks before it in the
block around it, latest first.
-/
structure OpenBlock where
  opener : Line
  opening : Opening
  before : List Block

/-- The block that is complete with its last part. -/
def Opening.close (opening : Opening) (body : List Block) : Block :=
  match opening with
  | .choiceThen condition => .choice condition body []
  | .choiceElse condition thenBlocks => .choice condition thenBlocks body
  | .each header => .each header body
  | .repeated condition => .repeated condition body

/-- Nests lines into blocks, given the open blocks, innermost first, and the finished blocks of the
innermost, latest first.
-/
def nestFrom : List OpenBlock → List Block → List Line → Except ParseError (List Block)
  | [], done, [] => .ok done.reverse
  | inner :: _, _, [] => .error (.ofFault .unterminatedBlock inner.opener.span)
  | opened, done, line :: rest => do
      match ← roleOf line, opened with
      | .plain, opened => nestFrom opened (.plain line :: done) rest
      | .openCase condition, opened =>
          nestFrom (⟨line, .choiceThen condition, done⟩ :: opened) [] rest
      | .openAll header, opened => nestFrom (⟨line, .each header, done⟩ :: opened) [] rest
      | .openRepeat condition, opened =>
          nestFrom (⟨line, .repeated condition, done⟩ :: opened) [] rest
      | .close, [] => .error (.ofFault (.terminatorOutsideBlock line.string) line.span)
      | .close, inner :: outer =>
          nestFrom outer (inner.opening.close done.reverse :: inner.before) rest
      | .otherwise, [] => .error (.ofFault (.terminatorOutsideBlock line.string) line.span)
      | .otherwise, ⟨opener, .choiceThen condition, before⟩ :: outer =>
          nestFrom (⟨opener, .choiceElse condition done.reverse, before⟩ :: outer) [] rest
      | .otherwise, ⟨opener, .choiceElse _ _, _⟩ :: _ => .error (.ofFault .elseTwice opener.span)
      | .otherwise, ⟨opener, _, _⟩ :: _ => .error (.ofFault .elseOutsideCase opener.span)

def nest (lines : List Line) : Except ParseError (List Block) := nestFrom [] [] lines

end Block

end Dispatch
