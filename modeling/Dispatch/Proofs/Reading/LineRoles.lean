import Dispatch.Proofs.Reading.Lexemes
import Dispatch.Proofs.Reading.SourceLines
import Dispatch.Update.Parser

/-!
The part that a line plays among the lines of effects, and the blocks that lines are nested into.
A block keyword or the keyword of a binding counts where a blank, or for a block an opening
parenthesis, comes after it, whatever the rest of the line is.
-/

namespace Dispatch

namespace Text

-----------------------------------------------------------------------------------------
-- Words at the start of a line
-----------------------------------------------------------------------------------------

/-- Whether the text starts with the word and a character after it that satisfies the test. -/
def leads (word : String) (test : Char → Bool) (text : List Char) : Bool :=
  (afterStart? word.toList text).any (startsWith test)

/-- A word leads a text when it stands there before a character that passes the test. -/
theorem leads_eq_true_iff {word : String} {test : Char → Bool} {text : List Char}
    : leads word test text = true
      ↔ ∃ c rest, text = word.toList ++ c :: rest ∧ test c = true := by
  simp only [leads, Option.any_eq_true, afterStart?_eq_some_iff]
  constructor
  · rintro ⟨rest, rfl, starts⟩
    cases rest with
    | nil => cases starts
    | cons c rest => exact ⟨c, rest, rfl, starts⟩
  · rintro ⟨c, rest, rfl, holds⟩
    exact ⟨c :: rest, rfl, holds⟩

/-- A character that the word does not have ends what is compared with it. -/
theorem afterStart?_append_cons {word : List Char} {mark : Char} (apart : mark ∉ word)
    (left right : List Char)
    : afterStart? word (left ++ mark :: right)
      = (afterStart? word left).map (· ++ mark :: right) := by
  induction word generalizing left with
  | nil => rfl
  | cons w word ih =>
      rw [List.mem_cons, not_or] at apart
      cases left with
      | nil => exact if_neg (Ne.symm apart.1)
      | cons c left =>
          rw [List.cons_append, afterStart?, afterStart?]
          split
          · exact ih apart.2 left
          · rfl

/-- A character that ends words is none of a word. -/
theorem not_mem_of_letters {word : String} (letters : word.toList.all continuesWord = true)
    {c : Char} (ends : continuesWord c = false)
    : c ∉ word.toList := by
  intro member
  have letter := List.all_eq_true.mp letters c member
  rw [ends] at letter
  cases letter

variable {mark other : Char}

/-- Whether a word leads depends on the characters up to one that ends words, and on this character
only by the test. What stands behind it plays no role.
-/
theorem leads_congr {word : String} (letters : word.toList.all continuesWord = true)
    {test : Char → Bool} (ends : continuesWord mark = false ∧ continuesWord other = false)
    (same : test mark = test other) (left right rest : List Char)
    : leads word test (left ++ mark :: right) = leads word test (left ++ other :: rest) := by
  rw [leads, leads, afterStart?_append_cons (not_mem_of_letters letters ends.1),
    afterStart?_append_cons (not_mem_of_letters letters ends.2)]
  cases afterStart? word.toList left with
  | none => rfl
  | some after => cases after <;> simp [startsWith, same]

/-- A character that ends words and fails the test may end the text. -/
theorem leads_append_cons {word : String} (letters : word.toList.all continuesWord = true)
    {test : Char → Bool} (ends : continuesWord mark = false) (fails : test mark = false)
    (left right : List Char)
    : leads word test (left ++ mark :: right) = leads word test left := by
  rw [leads, leads, afterStart?_append_cons (not_mem_of_letters letters ends)]
  cases afterStart? word.toList left with
  | none => rfl
  | some after => cases after <;> simp [startsWith, fails]

/-- What comes after the keyword of a block. -/
def opensHeader (c : Char) : Bool := isBlank c || c = '('

theorem continuesWord_eq_false_of_opensHeader {c : Char} (opens : opensHeader c = true)
    : continuesWord c = false := by
  rcases Bool.or_eq_true_iff.mp opens with blank | paren
  · exact continuesWord_eq_false_of_isBlank blank
  · obtain rfl := of_decide_eq_true paren
    decide

/-- The words that open a block. -/
def blockKeywords : List String := ["Case", "All", "Repeat"]

theorem letters_of_mem_blockKeywords
    : ∀ keyword ∈ blockKeywords, keyword.toList.all continuesWord = true := by
  decide

/-- Whether a line with the text opens a block. -/
def opensBlock (text : List Char) : Bool := blockKeywords.any (leads · opensHeader text)

/-- Whether a line with the text binds a value to a name. -/
def opensBinding (text : List Char) : Bool := leads "NewVal" isBlank text

/-- Whether a text opens a block depends on the characters up to one that ends words, for each of
the keywords.
-/
theorem opensBlock_congr (ends : continuesWord mark = false ∧ continuesWord other = false)
    (same : opensHeader mark = opensHeader other) (left right rest : List Char)
    : opensBlock (left ++ mark :: right) = opensBlock (left ++ other :: rest) := by
  rw [Bool.eq_iff_iff, opensBlock, opensBlock, List.any_eq_true, List.any_eq_true]
  refine exists_congr fun keyword => and_congr_right fun known => ?_
  rw [leads_congr (letters_of_mem_blockKeywords keyword known) ends same]

/-- A text opens a block exactly when it does before a colon, as a colon ends words and opens no
header.
-/
theorem opensBlock_colon (left right : List Char)
    : opensBlock (left ++ ':' :: right) = opensBlock left := by
  rw [Bool.eq_iff_iff, opensBlock, opensBlock, List.any_eq_true, List.any_eq_true]
  refine exists_congr fun keyword => and_congr_right fun known => ?_
  rw [leads_append_cons (letters_of_mem_blockKeywords keyword known) (by decide) (by decide)]

theorem opensBinding_congr (ends : continuesWord mark = false ∧ continuesWord other = false)
    (same : isBlank mark = isBlank other) (left right rest : List Char)
    : opensBinding (left ++ mark :: right) = opensBinding (left ++ other :: rest) :=
  leads_congr (by decide) ends same left right rest

theorem opensBinding_colon (left right : List Char)
    : opensBinding (left ++ ':' :: right) = opensBinding left :=
  leads_append_cons (by decide) (by decide) (by decide) left right

/-- An identifier opens no block and binds nothing. All its characters continue words, so that no
keyword in it is followed by one that does not.
-/
theorem leads_eq_false_of_isIdentifier {name : List Char} (identifier : isIdentifier name = true)
    {word : String} {test : Char → Bool} (ends : ∀ c, test c = true → continuesWord c = false)
    : leads word test name = false := by
  rw [Bool.eq_false_iff]
  intro leads
  obtain ⟨c, rest, rfl, holds⟩ := leads_eq_true_iff.mp leads
  have letter := (continuesWord_of_isIdentifier identifier).2 c (by simp)
  rw [ends c holds] at letter
  cases letter

end Text

-----------------------------------------------------------------------------------------
-- Command words before a colon
-----------------------------------------------------------------------------------------

namespace ItemCommand

theorem isIdentifier_text (command : ItemCommand) : isIdentifier command.text.toList = true := by
  cases command <;> decide

theorem isBlank_eq_false_of_mem_text {command : ItemCommand}
    : ∀ c ∈ command.text.toList, Text.isBlank c = false := fun c member =>
  isBlank_eq_false_of_continuesWord
    ((continuesWord_of_isIdentifier command.isIdentifier_text).2 c member)

theorem ofWord?_text (command : ItemCommand) : ofWord? command.text.toList = some command := by
  cases command <;> decide

theorem eq_text_of_ofWord? {word : List Char} {command : ItemCommand}
    (found : ofWord? word = some command)
    : word = command.text.toList := by
  simpa [eq_comm] using List.find?_some found

/-- A text is cut at its last blank where a command word comes after it; the blanks before that one
belong to neither part. So the owner ends in no blank.
-/
theorem cut?_eq_some_iff {head owner : List Char} {command : ItemCommand}
    : cut? head = some (owner, command)
      ↔ (∀ c ∈ owner.getLast?, Text.isBlank c = false)
        ∧ ∃ gap blank, head = owner ++ gap ++ blank :: command.text.toList
          ∧ ∀ c ∈ blank :: gap, Text.isBlank c = true := by
  constructor
  · intro cut
    obtain ⟨⟨prior, word⟩, last, cut⟩ := Option.bind_eq_some_iff.mp cut
    obtain ⟨found, spelled, done⟩ := Option.bind_eq_some_iff.mp cut
    obtain ⟨rfl, rfl⟩ := Prod.mk.inj (Option.some.inj done)
    obtain rfl := eq_text_of_ofWord? spelled
    obtain ⟨mark, markBlank, rfl, _⟩ := Text.eq_of_cutAtLast? last
    obtain ⟨gap, same, gapBlank⟩ := Text.exists_blank_trimEnd prior
    refine ⟨Text.last_trimEnd prior, gap, mark, by rw [← same], ?_⟩
    exact List.forall_mem_cons.mpr ⟨markBlank, gapBlank⟩
  · rintro ⟨last, gap, blank, rfl, blanks⟩
    obtain ⟨first, others⟩ := List.forall_mem_cons.mp blanks
    rw [cut?, Text.cutAtLast?_append first isBlank_eq_false_of_mem_text, Option.bind_eq_bind,
      Option.bind_some]
    dsimp only
    rw [ofWord?_text, Text.trimEnd_append_blanks last others]
    rfl

end ItemCommand

-----------------------------------------------------------------------------------------
-- Roles
-----------------------------------------------------------------------------------------

namespace Block

theorem headerAfter?_eq_none_iff {keyword : String} {line : Line}
    : headerAfter? keyword line = .ok none
      ↔ Text.leads keyword Text.opensHeader line.text = false := by
  unfold headerAfter? Text.leads
  split
  · rename_i differs
    simp [differs]
  · rename_i rest started
    rw [started, Option.any_some]
    change (if !Text.startsWith Text.opensHeader rest then _ else _) = _ ↔ _
    cases Text.startsWith Text.opensHeader rest with
    | false => simp
    | true =>
        simp only [Bool.not_true, Bool.false_eq_true, if_false]
        split <;> simp

theorem opensBlock_eq_false_iff {line : Line}
    : Text.opensBlock line.text = false
      ↔ headerAfter? "Case" line = .ok none ∧ headerAfter? "All" line = .ok none
        ∧ headerAfter? "Repeat" line = .ok none := by
  simp [Text.opensBlock, Text.blockKeywords, headerAfter?_eq_none_iff]

theorem roleOf_end {line : Line} (same : line.text = "End".toList) : roleOf line = .ok .close := by
  have held : line.holds "End" = true := decide_eq_true same
  unfold roleOf
  rw [held]
  rfl

theorem roleOf_else {line : Line} (same : line.text = "Else:".toList)
    : roleOf line = .ok .otherwise := by
  have other : line.holds "End" = false := decide_eq_false (by rw [same]; decide)
  have held : line.holds "Else:" = true := decide_eq_true same
  unfold roleOf
  rw [other, held]
  rfl

/-- A line with a space is no keyword on its own, so it is read by what it opens: a choice, a loop
over ids, a loop with a condition, or nothing.
-/
theorem roleOf_of_space {line : Line} (space : ' ' ∈ line.text)
    : roleOf line = (do
        if let some condition ← headerAfter? "Case" line then return .openCase condition
        if let some header ← headerAfter? "All" line then
          return .openAll (← withoutParentheses header)
        if let some condition ← headerAfter? "Repeat" line then return .openRepeat condition
        return .plain) := by
  have alone (words : String) (dense : ' ' ∉ words.toList) : line.holds words = false :=
    decide_eq_false fun same => dense (same ▸ space)
  unfold roleOf
  rw [alone "End" (by decide), alone "Else:" (by decide), alone "Else" (by decide)]
  rfl

theorem roleOf_eq_plain {line : Line} (space : ' ' ∈ line.text)
    (closed : Text.opensBlock line.text = false)
    : roleOf line = .ok .plain := by
  obtain ⟨notCase, notAll, notRepeat⟩ := opensBlock_eq_false_iff.mp closed
  rw [roleOf_of_space space, notCase, notAll, notRepeat]
  rfl

/-- A plain line opens no block, as each keyword has been tried on it. -/
theorem opensBlock_of_plain {line : Line} (plain : roleOf line = .ok .plain)
    : Text.opensBlock line.text = false := by
  refine opensBlock_eq_false_iff.mpr ?_
  unfold roleOf at plain
  split at plain
  · cases plain
  · split at plain
    · cases plain
    · obtain ⟨condition?, notCase, plain⟩ := bind_eq_ok_iff.mp plain
      cases condition? with
      | some condition => cases plain
      | none =>
          obtain ⟨header?, notAll, plain⟩ := bind_eq_ok_iff.mp plain
          cases header? with
          | some header =>
              obtain ⟨_, _, done⟩ := bind_eq_ok_iff.mp plain
              cases done
          | none =>
              obtain ⟨condition?, notRepeat, plain⟩ := bind_eq_ok_iff.mp plain
              cases condition? with
              | some condition => cases plain
              | none => exact ⟨notCase, notAll, notRepeat⟩

theorem newVal?_eq_none_iff {line : Line}
    : Update.newVal? line = .ok none ↔ Text.opensBinding line.text = false := by
  unfold Update.newVal? Text.opensBinding Text.leads
  split
  · rename_i differs
    rw [differs]
    simp
  · rename_i rest started
    rw [started, Option.any_some]
    cases Text.startsWith Text.isBlank rest with
    | false => simp
    | true =>
        simp only [Bool.not_true, Bool.false_eq_true, if_false]
        split
        · simp
        · simp only [iff_false, Bool.true_eq_false]
          intro read
          obtain ⟨_, _, done⟩ := bind_eq_ok_iff.mp read
          cases done

-----------------------------------------------------------------------------------------
-- Headers
-----------------------------------------------------------------------------------------

/-- What stands in parentheses between the keyword of a block and its colon. -/
theorem exists_header {keyword : String} {line : Line} {inner : List Char}
    (same : line.text = keyword.toList ++ ' ' :: '(' :: (inner ++ [')', ':']))
    : ∃ header, headerAfter? keyword line = .ok (some header)
        ∧ header.text = '(' :: (inner ++ [')']) := by
  have started := Text.afterStart?_eq_some_iff.mpr same
  have ended : Text.beforeEnd? ':' (' ' :: '(' :: (inner ++ [')', ':']))
      = some (' ' :: '(' :: (inner ++ [')'])) :=
    Text.beforeEnd?_eq_some_iff.mpr (by simp)
  have trimmed : Text.Trimmed ('(' :: (inner ++ [')'])) := Text.trimmed_between (by decide) inner
  refine ⟨line.piece keyword.length (' ' :: '(' :: (inner ++ [')'])), ?_, ?_⟩
  · unfold headerAfter?
    rw [started]
    dsimp only
    rw [ended]
    rfl
  · exact (Text.trim_cons_blank (by decide) _).trans trimmed.trim_eq

/-- The header of a loop over ids is kept without its parentheses. -/
theorem exists_openAll {line : Line} {inner : List Char}
    (same : line.text = "All".toList ++ ' ' :: '(' :: (inner ++ [')', ':']))
    : ∃ header, roleOf line = .ok (.openAll header) ∧ header.text = Text.trim inner := by
  obtain ⟨header, found, text⟩ := exists_header same
  have notCase : headerAfter? "Case" line = .ok none :=
    headerAfter?_eq_none_iff.mpr (by rw [same]; rfl)
  have ended : Text.beforeEnd? ')' (inner ++ [')']) = some inner :=
    Text.beforeEnd?_eq_some_iff.mpr rfl
  have bare : withoutParentheses header = .ok (header.piece 1 inner) := by
    simp only [withoutParentheses, text, ended]
  refine ⟨header.piece 1 inner, ?_, rfl⟩
  rw [roleOf_of_space (by rw [same]; simp), notCase, found]
  exact bind_eq_ok_iff.mpr ⟨_, rfl, bind_eq_ok_iff.mpr ⟨_, rfl, bind_eq_ok_iff.mpr ⟨_, bare, rfl⟩⟩⟩

theorem exists_openCase {line : Line} {inner : List Char}
    (same : line.text = "Case".toList ++ ' ' :: '(' :: (inner ++ [')', ':']))
    : ∃ condition, roleOf line = .ok (.openCase condition)
        ∧ condition.text = '(' :: (inner ++ [')']) := by
  obtain ⟨header, found, text⟩ := exists_header same
  refine ⟨header, ?_, text⟩
  rw [roleOf_of_space (by rw [same]; simp), found]
  rfl

theorem exists_openRepeat {line : Line} {inner : List Char}
    (same : line.text = "Repeat".toList ++ ' ' :: '(' :: (inner ++ [')', ':']))
    : ∃ condition, roleOf line = .ok (.openRepeat condition)
        ∧ condition.text = '(' :: (inner ++ [')']) := by
  obtain ⟨header, found, text⟩ := exists_header same
  have notCase : headerAfter? "Case" line = .ok none :=
    headerAfter?_eq_none_iff.mpr (by rw [same]; rfl)
  have notAll : headerAfter? "All" line = .ok none :=
    headerAfter?_eq_none_iff.mpr (by rw [same]; rfl)
  refine ⟨header, ?_, text⟩
  rw [roleOf_of_space (by rw [same]; simp), notCase, notAll, found]
  rfl

-----------------------------------------------------------------------------------------
-- Nested lines
-----------------------------------------------------------------------------------------

mutual

/-- Each plain line of the block is one of the lines and plain, and what each nested block keeps of
its header comes from one of them.
-/
def NestedFrom (source : List Line) : Block → Prop
  | .plain line => line ∈ source ∧ roleOf line = .ok .plain
  | .choice condition thenBlocks elseBlocks =>
      (∃ line ∈ source, roleOf line = .ok (.openCase condition))
      ∧ AllNestedFrom source thenBlocks ∧ AllNestedFrom source elseBlocks
  | .each header body =>
      (∃ line ∈ source, roleOf line = .ok (.openAll header)) ∧ AllNestedFrom source body
  | .repeated condition body =>
      (∃ line ∈ source, roleOf line = .ok (.openRepeat condition)) ∧ AllNestedFrom source body

def AllNestedFrom (source : List Line) : List Block → Prop
  | [] => True
  | block :: rest => block.NestedFrom source ∧ AllNestedFrom source rest

end

-----------------------------------------------------------------------------------------
-- Lines that nest into blocks
-----------------------------------------------------------------------------------------

/-- Wherever the lines stand, they are nested into the blocks. -/
def Nests (lines : List Line) (blocks : List Block) : Prop :=
  ∀ opened done rest,
    nestFrom opened done (lines ++ rest) = nestFrom opened (blocks.reverse ++ done) rest

/-- The part of a block that a line of the role opens. -/
def Role.opening? : Role → Option Opening
  | .openCase condition => some (.choiceThen condition)
  | .openAll header => some (.each header)
  | .openRepeat condition => some (.repeated condition)
  | .close | .otherwise | .plain => none

/-- A line that opens a block sets aside the blocks before it, and the lines behind it are those of
its body.
-/
theorem nestFrom_opening {line : Line} {role : Role} (found : roleOf line = .ok role)
    {opening : Opening} (opens : role.opening? = some opening) (opened : List OpenBlock)
    (done : List Block) (rest : List Line)
    : nestFrom opened done (line :: rest) = nestFrom (⟨line, opening, done⟩ :: opened) [] rest := by
  rw [nestFrom, found]
  cases role with
  | openCase | openAll | openRepeat =>
      obtain rfl := Option.some.inj opens
      rfl
  | close | otherwise | plain => cases opens

/-- A line that closes a block puts it behind the blocks that were set aside for it. -/
theorem nestFrom_close {line : Line} (found : roleOf line = .ok .close) (inner : OpenBlock)
    (outer : List OpenBlock) (done : List Block) (rest : List Line)
    : nestFrom (inner :: outer) done (line :: rest)
      = nestFrom outer (inner.opening.close done.reverse :: inner.before) rest := by
  rw [nestFrom, found]
  rfl

theorem nest_of_nests {lines : List Line} {blocks : List Block} (nests : Nests lines blocks)
    : nest lines = .ok blocks := by
  have whole := nests [] [] []
  rw [List.append_nil, List.append_nil] at whole
  rw [nest, whole, nestFrom, List.reverse_reverse]

namespace Nests

variable {line last : Line} {lines others : List Line} {blocks more : List Block}

theorem nil : Nests [] [] := fun _ _ _ => rfl

/-- Lines that nest stay apart from those after them, and their blocks come in this order. -/
theorem append (first : Nests lines blocks) (second : Nests others more)
    : Nests (lines ++ others) (blocks ++ more) := by
  intro opened done rest
  rw [List.append_assoc, first, second, List.reverse_append, List.append_assoc]

theorem plain (found : roleOf line = .ok .plain) : Nests [line] [.plain line] := by
  intro opened done rest
  rw [List.singleton_append, nestFrom, found]
  rfl

/-- A header, the lines of its body and the line that closes it are one block. -/
theorem block {role : Role} (found : roleOf line = .ok role) {opening : Opening}
    (opens : role.opening? = some opening) (body : Nests lines blocks)
    (closes : roleOf last = .ok .close)
    : Nests (line :: lines ++ [last]) [opening.close blocks] := by
  intro opened done rest
  rw [List.cons_append, List.cons_append, List.append_assoc, nestFrom_opening found opens, body,
    List.singleton_append, nestFrom_close closes, List.append_nil, List.reverse_reverse]
  rfl

/-- The lines after `Else` are the second body of a choice, and those before it are the first. -/
theorem choice {condition middle : Line} (found : roleOf line = .ok (.openCase condition))
    (thenBody : Nests lines blocks) (turns : roleOf middle = .ok .otherwise)
    (elseBody : Nests others more) (closes : roleOf last = .ok .close)
    : Nests (line :: lines ++ middle :: others ++ [last]) [.choice condition blocks more] := by
  intro opened done rest
  rw [List.cons_append, List.cons_append, List.cons_append, List.append_assoc, List.append_assoc,
    nestFrom_opening found rfl, thenBody, List.cons_append, nestFrom, turns]
  change nestFrom (⟨line, .choiceElse condition (blocks.reverse ++ []).reverse, done⟩ :: opened) []
    (others ++ ([last] ++ rest)) = _
  rw [elseBody, List.singleton_append, nestFrom_close closes, List.append_nil, List.append_nil,
    List.reverse_reverse, List.reverse_reverse]
  rfl

end Nests

end Block

end Dispatch
