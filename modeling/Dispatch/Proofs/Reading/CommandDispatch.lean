import Dispatch.Proofs.Reading.LineRoles
import Dispatch.Proofs.Reading.SeparatedTexts
import Dispatch.Proofs.Reading.TakenLexemes

/-!
Telling commands on items from assignments. A line is taken for a command by the characters before
its colon, but read as an assignment from its tokens and the scope. The two agree on an assignment
unless its target ends in a command word that is in scope, or its words are not separated by single
spaces.
-/

namespace Dispatch

-----------------------------------------------------------------------------------------
-- Heads of commands
-----------------------------------------------------------------------------------------

/-- Before its first colon the text has the head, and no more than blanks behind it; the head is an
owner, blanks and a command word.
-/
structure CommandHead (text head owner : List Char) (command : ItemCommand) : Prop where
  shape
    : ∃ trail after, text = head ++ trail ++ ':' :: after ∧ ∀ c ∈ trail, Text.isBlank c = true
  parts
    : ∃ gap blank, head = owner ++ gap ++ blank :: command.text.toList
        ∧ ∀ c ∈ blank :: gap, Text.isBlank c = true
  apart : ':' ∉ owner
  last : ∀ c ∈ owner.getLast?, Text.isBlank c = false

/-- A text that is cut into an owner and a command has a head with these. The blanks behind the
command word, up to the colon, are no part of the head.
-/
theorem ItemCommand.commandHead_of_cut? {before after owner : List Char} {command : ItemCommand}
    (apart : ':' ∉ before) (cut : cut? (Text.trimEnd before) = some (owner, command))
    : CommandHead (before ++ ':' :: after) (Text.trimEnd before) owner command := by
  obtain ⟨last, gap, blank, parts, blanks⟩ := cut?_eq_some_iff.mp cut
  obtain ⟨trail, same, trailBlank⟩ := Text.exists_blank_trimEnd before
  refine ⟨⟨trail, after, by rw [← same], trailBlank⟩, ⟨gap, blank, parts, blanks⟩, ?_, last⟩
  intro member
  refine apart ((Text.trimEnd_sublist before).subset ?_)
  rw [parts, List.append_assoc]
  exact List.mem_append_left _ member

namespace CommandHead

variable {text head owner : List Char} {command : ItemCommand}
  (heads : CommandHead text head owner command)

include heads

/-- A head ends in a command word, so in no blank. -/
theorem getLast?_visible : ∀ c ∈ head.getLast?, Text.isBlank c = false := by
  obtain ⟨gap, blank, rfl, _⟩ := heads.parts
  intro c member
  rw [List.append_cons,
    List.getLast?_append_of_ne_nil _ (by cases command <;> decide)] at member
  exact ItemCommand.isBlank_eq_false_of_mem_text c (List.mem_of_getLast? member)

/-- The colon of a text with a head comes after the blanks behind the head. -/
theorem exists_colon
    : ∃ trail after, text = head ++ trail ++ ':' :: after ∧ ':' ∉ head ++ trail
        ∧ ∀ c ∈ trail, Text.isBlank c = true := by
  obtain ⟨trail, after, same, trailBlank⟩ := heads.shape
  obtain ⟨gap, mark, parts, blank⟩ := heads.parts
  have colon {blanks : List Char} (blank : ∀ c ∈ blanks, Text.isBlank c = true)
      : ':' ∉ blanks := fun member => absurd (blank ':' member) (by decide)
  have inWord : ':' ∉ command.text.toList := by cases command <;> decide
  have inGap := colon blank
  refine ⟨trail, after, same, ?_, trailBlank⟩
  rw [parts]
  simp only [List.mem_append, List.mem_cons, not_or] at inGap ⊢
  exact ⟨⟨⟨heads.apart, inGap.2⟩, inGap.1, inWord⟩, colon trailBlank⟩

/-- The head is what is before the first colon, without the blanks at its end. -/
theorem exists_cutAtFirst?
    : ∃ before after, Text.cutAtFirst? ':' text = some (before, after)
        ∧ Text.trimEnd before = head := by
  obtain ⟨trail, after, same, apart, trailBlank⟩ := heads.exists_colon
  exact ⟨head ++ trail, after, Text.cutAtFirst?_eq_some_iff.mpr ⟨same, apart⟩,
    Text.trimEnd_append_blanks heads.getLast?_visible trailBlank⟩

theorem cut?_eq : ItemCommand.cut? head = some (owner, command) :=
  ItemCommand.cut?_eq_some_iff.mpr ⟨heads.last, heads.parts⟩

end CommandHead

namespace Update

variable {names : Names} {line : Line} {head owner : List Char} {command : ItemCommand}

/-- A line without the head of a command is an assignment. It has no colon, or what stands before
its first colon does not end in a command word.
-/
theorem ofLine_of_no_commandHead
    (none : ∀ head owner command, ¬ CommandHead line.text head owner command)
    : ofLine names line = ofAssignment names line := by
  unfold ofLine
  split
  · rfl
  · rename_i before after colon
    obtain ⟨same, apart⟩ := Text.cutAtFirst?_eq_some_iff.mp colon
    dsimp only
    split
    · rfl
    · rename_i owner command cut
      exact absurd (same ▸ ItemCommand.commandHead_of_cut? apart cut) (none _ owner command)

/-- With an owner that is no entity type, the head is the name of a variable or field, or refused.
The head is looked up as it is written, so that one with an index in it is not found.
-/
theorem ofLine_of_commandHead (heads : CommandHead line.text head owner command)
    (undeclared : names.vocabulary.entity? (String.ofList owner) = none)
    : ofLine names line
      = if (names.vocabulary.name? (String.ofList head)).isSome then ofAssignment names line
        else .error
          ⟨.unknownEntity (String.ofList owner), ⟨0, byteLength owner, line.number, line.column⟩⟩
      := by
  obtain ⟨before, after, colon, trimmed⟩ := heads.exists_cutAtFirst?
  unfold ofLine
  rw [colon]
  dsimp only
  rw [trimmed, heads.cut?_eq]
  dsimp only
  rw [undeclared]

end Update

-----------------------------------------------------------------------------------------
-- Texts before a colon
-----------------------------------------------------------------------------------------

/-- Only a colon spells the token of a colon. -/
theorem Token.eq_colon_of_ofLexeme {c : Char} {rest : List Char}
    (spelled : Token.ofLexeme c rest = .ok (.symbol .colon))
    : c = ':' := by
  unfold ofLexeme at spelled
  split at spelled
  · dsimp only at spelled
    split at spelled <;> cases spelled
  · split at spelled
    · split at spelled <;> cases spelled
    · split at spelled
      · rename_i mark found
        obtain rfl := Token.symbol.inj (Except.ok.inj spelled)
        obtain ⟨tail, same⟩ := Symbol.prefix_of_leading? found
        exact (List.cons.inj same).1.symm
      · cases spelled

/-- A text without colons has no colon among its tokens, by induction on its reading. -/
theorem TokenLine.no_colon_of_read {here : Position} {text : List Char} {line : TokenLine}
    (read : TokenLine.read here text = .ok line) (apart : ':' ∉ text)
    : ∀ lexeme ∈ line.lexemes, lexeme.token ≠ .symbol .colon := by
  fun_induction TokenLine.read here text generalizing line with
  | case1 here =>
      obtain rfl := Except.ok.inj read
      exact List.forall_mem_nil _
  | case2 here c rest blank ih => exact ih read fun member => apart (List.mem_cons_of_mem _ member)
  | case3 => cases read
  | case4 here c rest =>
      rename_i token spelled ih
      obtain ⟨others, more, done⟩ := bind_eq_ok_iff.mp read
      obtain rfl := Except.ok.inj done
      refine List.forall_mem_cons.mpr ⟨?_, ih more fun member => ?_⟩
      · rintro rfl
        exact apart (Token.eq_colon_of_ofLexeme spelled ▸ List.mem_cons_self)
      · exact apart (List.mem_cons_of_mem _ (List.mem_of_mem_drop member))

/-- The lexemes of a text with a character that cuts are those before it and those from it on. -/
theorem TokenLine.exists_of_read_append_cut {mark : Char} (cuts : CutsTokens mark)
    {here : Position} {text rest : List Char} {line : TokenLine}
    (read : TokenLine.read here (text ++ mark :: rest) = .ok line)
    : ∃ front more, TokenLine.read here text = .ok front
        ∧ TokenLine.read (here.advanceBy text) (mark :: rest) = .ok more
        ∧ line.lexemes = front.lexemes ++ more.lexemes := by
  rw [TokenLine.read_append_cut cuts] at read
  obtain ⟨front, first, read⟩ := bind_eq_ok_iff.mp read
  obtain ⟨more, second, done⟩ := bind_eq_ok_iff.mp read
  obtain rfl := Except.ok.inj done
  exact ⟨front, more, first, second, rfl⟩

/-- A colon is a lexeme of its own. -/
theorem TokenLine.exists_colon_of_read {here : Position} {after : List Char} {line : TokenLine}
    (read : TokenLine.read here (':' :: after) = .ok line)
    : ∃ span rest, line.lexemes = ⟨.symbol .colon, span⟩ :: rest := by
  obtain ⟨token, span, _, others, spelled, _, lexemes⟩ := exists_first read (by decide)
  obtain rfl : token = .symbol .colon := (Except.ok.inj spelled).symm
  exact ⟨span, others.lexemes, lexemes⟩

/-- What stands before the colon of an assignment spells its target. The first colon of the text is
the first colon among its tokens, and the target is read up to there.
-/
theorem Update.spellsTarget_of_ofAssignment {names : Names} {line : Line} {update : Update}
    (read : ofAssignment names line = .ok update) {before after : List Char}
    (same : line.text = before ++ ':' :: after) (apart : ':' ∉ before)
    : ∃ front, TokenLine.read line.position before = .ok front
        ∧ SpellsTarget names (front.lexemes.map (·.token)) := by
  obtain ⟨⟨context, input⟩, opened, read⟩ := bind_eq_ok_iff.mp read
  obtain ⟨tokens, lexed, done⟩ := bind_eq_ok_iff.mp opened
  obtain ⟨rfl, rfl⟩ := Prod.mk.inj (Except.ok.inj done)
  obtain ⟨⟨target, rest⟩, targetRead, read⟩ := bind_eq_ok_iff.mp read
  obtain ⟨behind, colon, _⟩ := bind_eq_ok_iff.mp read
  obtain ⟨taken, lexemes, plain, spells⟩ := AssignmentTarget.exists_taken_of_read targetRead
  obtain ⟨span, rfl⟩ := exists_of_afterSymbol? (LineContext.afterSymbol?_of_expectSymbol colon)
  rw [same] at lexed
  obtain ⟨front, more, frontRead, moreRead, whole⟩ :=
    TokenLine.exists_of_read_append_cut cutsTokens_colon lexed
  obtain ⟨mark, others, starts⟩ := TokenLine.exists_colon_of_read moreRead
  rw [starts, lexemes] at whole
  -- Both parts end at the first lexeme that is a colon.
  have noColon {lexemes : List Lexeme}
      (plain : ∀ lexeme ∈ lexemes, lexeme.token ≠ .symbol .colon)
      : ∀ lexeme ∈ lexemes, decide (lexeme.token ≠ .symbol .colon) = true := fun lexeme member =>
    decide_eq_true (plain lexeme member)
  obtain ⟨rfl, _⟩ := Text.eq_of_runs (noColon plain)
    (noColon (TokenLine.no_colon_of_read frontRead apart)) (by rintro _ ⟨⟩; rfl)
    (by rintro _ ⟨⟩; rfl) whole
  exact ⟨front, frontRead, spells⟩

/-- A target that ends in a word outside the scope is a name. An index in parentheses ends in a
symbol, and one without them is a number or a word in scope.
-/
theorem SpellsTarget.exists_name {names : Names} {tokens : List Token}
    (spells : SpellsTarget names tokens) {word : String}
    (last : tokens.getLast? = some (.word word)) (free : names.scope.contains word = false)
    : ∃ name place, IsName names.scope tokens name
        ∧ names.vocabulary.place? name = some place := by
  have unbound : names.scope.contains word ≠ true := by simp [free]
  cases spells with
  | named bound =>
      obtain rfl := Token.word.inj (Option.some.inj last)
      exact absurd (by rw [Scope.contains, bound]; rfl) unbound
  | @stored tokens name place indices named declared ends =>
      cases indices with
      | nil => exact ⟨name, place, by rwa [List.append_nil], declared⟩
      | cons first others =>
          rw [List.getLast?_append_of_ne_nil _ (List.cons_ne_nil _ _)] at last
          exact absurd (ends word last) unbound

-----------------------------------------------------------------------------------------
-- Texts of words
-----------------------------------------------------------------------------------------

/-- A text that begins with a word token begins with a character of words. -/
theorem TokenLine.continuesWord_of_word {here : Position} {c : Char} {text : List Char}
    {line : TokenLine} (read : TokenLine.read here (c :: text) = .ok line)
    (visible : Text.isBlank c = false) {names : List String}
    (same : line.lexemes.map (·.token) = names.map .word)
    : continuesWord c = true := by
  obtain ⟨token, span, _, others, spelled, _, lexemes⟩ := exists_first read visible
  rw [lexemes, List.map_cons] at same
  obtain ⟨name, _, _, named, _⟩ := List.map_eq_cons_iff.mp same.symm
  obtain rfl : Token.word name = token := named
  obtain ⟨chars, _⟩ := Token.word_of_ofLexeme spelled
  have identifier : isIdentifier name.toList = true := Token.proper_of_ofLexeme spelled
  exact (continuesWord_of_isIdentifier identifier).2 c (chars ▸ List.mem_cons_self)

/-- The words of a text whose tokens are all words are these, by induction on its blanks and
lexemes. Only blanks can stand between two words that are tokens.
-/
theorem TokenLine.words_of_read {here : Position} {text : List Char} {line : TokenLine}
    (read : TokenLine.read here text = .ok line) {names : List String}
    (same : line.lexemes.map (·.token) = names.map .word)
    : Text.words text = names.map String.toList := by
  induction text using lexeme_induction generalizing here line names with
  | nil =>
      rw [TokenLine.read] at read
      obtain rfl := Except.ok.inj read
      obtain rfl := List.map_eq_nil_iff.mp same.symm
      rfl
  | blank c text blank ih =>
      rw [TokenLine.read, if_pos blank] at read
      rw [Text.words_cons_blank blank, ih read same]
  | lexeme c tail after visible length ih =>
      obtain ⟨token, span, next, others, spelled, more, lexemes⟩ := exists_first read visible
      rw [lexemes, List.map_cons] at same
      obtain ⟨name, names, rfl, named, alike⟩ := List.map_eq_cons_iff.mp same.symm
      obtain rfl : Token.word name = token := named
      obtain ⟨chars, taken⟩ := Token.word_of_ofLexeme spelled
      have identifier : isIdentifier name.toList = true := Token.proper_of_ofLexeme spelled
      rw [length, List.drop_left] at more
      have word : (tail ++ after).takeWhile continuesWord = tail := by
        rw [← takeWhile_eq_take, ← taken, length, List.take_left]
      have rest : (tail ++ after).dropWhile continuesWord = after := by
        rw [← dropWhile_eq_drop, ← taken, length, List.drop_left]
      -- The next token is a word too, so only a blank can have ended this one.
      have ends : ∀ d ∈ after.head?, Text.isBlank d = true := by
        intro d member
        obtain ⟨others, rfl⟩ := List.head?_eq_some_iff.mp member
        by_contra shown
        have stops := List.head?_dropWhile_not continuesWord (tail ++ d :: others)
        rw [rest] at stops
        have goesOn := TokenLine.continuesWord_of_word more (by simpa using shown) alike.symm
        simp [goesOn] at stops
      rw [word] at chars
      have letters : ∀ d ∈ c :: tail, Text.isBlank d = false := fun d member =>
        isBlank_eq_false_of_continuesWord
          ((continuesWord_of_isIdentifier identifier).2 d (chars ▸ member))
      rw [← List.cons_append, Text.words_append (List.cons_ne_nil c tail) letters ends,
        ih more alike.symm, List.map_cons, chars]

/-- Blanks at the end of a text have no lexemes. -/
theorem TokenLine.exists_of_read_append_blanks {here : Position} {text blanks : List Char}
    {line : TokenLine} (read : TokenLine.read here (text ++ blanks) = .ok line)
    (blank : ∀ c ∈ blanks, Text.isBlank c = true)
    : ∃ front, TokenLine.read here text = .ok front ∧ front.lexemes = line.lexemes := by
  cases blanks with
  | nil =>
      rw [List.append_nil] at read
      exact ⟨line, read, rfl⟩
  | cons mark blanks =>
      have cuts := cutsTokens_of_isBlank (blank mark List.mem_cons_self)
      obtain ⟨front, more, frontRead, moreRead, same⟩ := exists_of_read_append_cut cuts read
      have skipped := TokenLine.read_blanks blank (here.advanceBy text) []
      rw [List.append_nil, moreRead, TokenLine.read] at skipped
      obtain rfl := Except.ok.inj skipped
      exact ⟨front, frontRead, by rw [same, List.append_nil]⟩

-----------------------------------------------------------------------------------------
-- Assignments with the head of a command
-----------------------------------------------------------------------------------------

/-- The last token of a head is its command word, as a blank before the word cuts the tokens of the
head in two.
-/
theorem CommandHead.getLast?_tokens {text head owner : List Char} {command : ItemCommand}
    (heads : CommandHead text head owner command) {here : Position} {line : TokenLine}
    (read : TokenLine.read here head = .ok line)
    : (line.lexemes.map (·.token)).getLast? = some (.word command.text) := by
  obtain ⟨gap, mark, rfl, blank⟩ := heads.parts
  have markBlank := blank mark List.mem_cons_self
  obtain ⟨front, more, _, moreRead, same⟩ :=
    TokenLine.exists_of_read_append_cut (cutsTokens_of_isBlank markBlank) read
  rw [TokenLine.read, if_pos markBlank] at moreRead
  obtain ⟨word, wordRead, tokens⟩ := (Lexes.word command.isIdentifier_text).read
    ((here.advanceBy (owner ++ gap)).advance mark)
  rw [moreRead] at wordRead
  obtain rfl := Except.ok.inj wordRead
  rw [same, List.map_append, tokens, List.getLast?_append_of_ne_nil _ (List.cons_ne_nil _ _)]
  rfl

/-- The words of the text are separated by single spaces, and nothing else is in it. -/
def Text.SpacedEvenly (text : List Char) : Prop := joinWords (words text) = text

/-- The head of an assignment is the name of a variable or field where its command word is not in
scope and its words are spaced evenly. It is then the text of the name itself, which is looked up.
-/
theorem Update.name?_isSome_of_commandHead {names : Names} {line : Line} {update : Update}
    (read : ofAssignment names line = .ok update) {head owner : List Char}
    {command : ItemCommand} (heads : CommandHead line.text head owner command)
    (free : names.scope.contains command.text = false) (even : Text.SpacedEvenly head)
    : (names.vocabulary.name? (String.ofList head)).isSome = true := by
  obtain ⟨trail, after, same, apart, trailBlank⟩ := heads.exists_colon
  obtain ⟨front, frontRead, spells⟩ := spellsTarget_of_ofAssignment read same apart
  obtain ⟨tokens, tokensRead, lexemes⟩ :=
    TokenLine.exists_of_read_append_blanks frontRead trailBlank
  rw [← lexemes] at spells
  obtain ⟨name, place, named, declared⟩ :=
    spells.exists_name (heads.getLast?_tokens tokensRead) free
  obtain ⟨words, _, _, spelled, rfl⟩ := named
  rw [← joinWords_eq_joined, ← TokenLine.words_of_read tokensRead spelled, even] at declared
  obtain ⟨decl, found, _⟩ := Option.map_eq_some_iff.mp declared
  rw [found]
  rfl

/-- Before its colon the text has the name of an entity type and a command word. -/
def Vocabulary.CommandsItems (vocabulary : Vocabulary) (text : List Char) : Prop :=
  ∃ head owner command, CommandHead text head owner command
    ∧ vocabulary.entity? (String.ofList owner) ≠ none

/-- The head of the text ends in a command word and is, as it is written, no name of a variable or
field: the word is in scope, as an index or a local, or the words are not spaced evenly.
-/
def Names.HideAssignment (names : Names) (text : List Char) : Prop :=
  ∃ head owner command, CommandHead text head owner command
    ∧ names.vocabulary.name? (String.ofList head) = none
    ∧ (names.scope.contains command.text = true ∨ ¬ Text.SpacedEvenly head)

/-- A line that can be read as an assignment, and commands no items of an entity type, is read as
this assignment exactly when its head does not hide it.

A head hides it when no variable or field has the head for its name, which is so where the command
word is in scope or the words are spaced unevenly.
-/
theorem Update.ofLine_iff_of_ofAssignment {names : Names} {line : Line} {update : Update}
    (read : ofAssignment names line = .ok update)
    (plain : ¬ names.vocabulary.CommandsItems line.text)
    : ofLine names line = .ok update ↔ ¬ names.HideAssignment line.text := by
  have undeclared {head owner : List Char} {command : ItemCommand}
      (heads : CommandHead line.text head owner command)
      : names.vocabulary.entity? (String.ofList owner) = none :=
    not_not.mp fun declared => plain ⟨head, owner, command, heads, declared⟩
  constructor
  · rintro assigned ⟨head, owner, command, heads, unknown, _⟩
    rw [ofLine_of_commandHead heads (undeclared heads), unknown] at assigned
    cases assigned
  · intro shown
    by_cases headed : ∃ head owner command, CommandHead line.text head owner command
    · obtain ⟨head, owner, command, heads⟩ := headed
      have known : (names.vocabulary.name? (String.ofList head)).isSome = true := by
        by_contra unknown
        rw [Bool.not_eq_true, Option.isSome_eq_false_iff, Option.isNone_iff_eq_none] at unknown
        have neither : ¬ (names.scope.contains command.text = true ∨ ¬ Text.SpacedEvenly head) :=
          fun either => shown ⟨head, owner, command, heads, unknown, either⟩
        rw [not_or, Bool.not_eq_true, not_not] at neither
        have known := name?_isSome_of_commandHead read heads neither.1 neither.2
        rw [unknown] at known
        cases known
      rw [ofLine_of_commandHead heads (undeclared heads), if_pos known, read]
    · rw [ofLine_of_no_commandHead fun head owner command heads =>
        headed ⟨head, owner, command, heads⟩, read]

/-- What stands before the command word decides whether a text commands items. -/
theorem Vocabulary.not_commandsItems_of_cut? {vocabulary : Vocabulary}
    {text before after owner : List Char} {command : ItemCommand}
    (colon : Text.cutAtFirst? ':' text = some (before, after))
    (cut : ItemCommand.cut? (Text.trimEnd before) = some (owner, command))
    (undeclared : vocabulary.entity? (String.ofList owner) = none)
    : ¬ vocabulary.CommandsItems text := by
  rintro ⟨head, other, word, heads, declared⟩
  obtain ⟨_, _, again, rfl⟩ := heads.exists_cutAtFirst?
  obtain ⟨rfl, rfl⟩ := Prod.mk.inj (Option.some.inj (again.symm.trans colon))
  obtain ⟨rfl, _⟩ := Prod.mk.inj (Option.some.inj (heads.cut?_eq.symm.trans cut))
  exact declared undeclared

/-- A variable, another whose name ends in a command word, and an entity type. -/
def yard : Vocabulary :=
  ⟨[⟨"Vehicle", 0, none, none, 3⟩], [("Vehicle", 0)], [], [],
    [⟨"charge", .var 0, .int⟩, ⟨"box add", .var 1, .int⟩]⟩

/-- Witness: the name ends in a command word, and no word is in scope. -/
theorem Update.ofLine_boxAdd
    : ofAssignment ⟨yard, .empty⟩ ⟨"box add : 5".toList, 1, 1⟩
        = .ok (.assign (.var 1) "box add" (.int 0) (.int 5))
      ∧ ¬ yard.CommandsItems "box add : 5".toList
      ∧ ofLine ⟨yard, .empty⟩ ⟨"box add : 5".toList, 1, 1⟩
        = .ok (.assign (.var 1) "box add" (.int 0) (.int 5)) := by
  have lexed : TokenLine.read ⟨0, 1, 1⟩ "box add : 5".toList
      = .ok ⟨[⟨.word "box", 0, 3, 1, 1⟩, ⟨.word "add", 4, 7, 1, 5⟩, ⟨.symbol .colon, 8, 9, 1, 9⟩,
          ⟨.integer 5, 10, 11, 1, 11⟩], ⟨11, 11, 1, 12⟩⟩ :=
    ok_of_toOption (by decide +kernel)
  have read : ofAssignment ⟨yard, .empty⟩ ⟨"box add : 5".toList, 1, 1⟩
      = .ok (.assign (.var 1) "box add" (.int 0) (.int 5)) := by
    simp only [ofAssignment, LineContext.ofLine, Line.position, lexed]
    rfl
  have colon : Text.cutAtFirst? ':' "box add : 5".toList
      = some ("box add ".toList, " 5".toList) := by decide +kernel
  have cut : ItemCommand.cut? (Text.trimEnd "box add ".toList) = some ("box".toList, .add) := by
    decide +kernel
  have plain : ¬ yard.CommandsItems "box add : 5".toList :=
    Vocabulary.not_commandsItems_of_cut? colon cut (by decide +kernel)
  refine ⟨read, plain, (ofLine_iff_of_ofAssignment read plain).mpr ?_⟩
  rintro ⟨head, owner, command, heads, unknown, _⟩
  obtain ⟨before, after, found, rfl⟩ := heads.exists_cutAtFirst?
  obtain ⟨rfl, rfl⟩ := Prod.mk.inj (Option.some.inj (found.symm.trans colon))
  exact absurd unknown (by decide +kernel)

/-- The names with a vehicle `add` in scope. -/
def yardOfAdd : Names := ⟨yard, ⟨[⟨"add", .entity 0⟩]⟩⟩

/-- A vehicle with the name of a command is no index of an assignment: the line is taken for a
command on the items of an unknown entity type.
-/
theorem Update.refused_chargeAdd
    : ofAssignment yardOfAdd ⟨"charge add: 5".toList, 1, 1⟩
        = .ok (.assign (.var 0) "charge" (.param 0 "add") (.int 5))
      ∧ ¬ yardOfAdd.vocabulary.CommandsItems "charge add: 5".toList
      ∧ ofLine yardOfAdd ⟨"charge add: 5".toList, 1, 1⟩
        = .error ⟨.unknownEntity "charge", 0, 6, 1, 1⟩ := by
  have lexed : TokenLine.read ⟨0, 1, 1⟩ "charge add: 5".toList
      = .ok ⟨[⟨.word "charge", 0, 6, 1, 1⟩, ⟨.word "add", 7, 10, 1, 8⟩,
          ⟨.symbol .colon, 10, 11, 1, 11⟩, ⟨.integer 5, 12, 13, 1, 13⟩], ⟨13, 13, 1, 14⟩⟩ :=
    ok_of_toOption (by decide +kernel)
  have colon : Text.cutAtFirst? ':' "charge add: 5".toList
      = some ("charge add".toList, " 5".toList) := by decide +kernel
  have cut : ItemCommand.cut? (Text.trimEnd "charge add".toList)
      = some ("charge".toList, .add) := by decide +kernel
  refine ⟨?_, Vocabulary.not_commandsItems_of_cut? colon cut (by decide +kernel), ?_⟩
  · simp only [ofAssignment, LineContext.ofLine, Line.position, lexed]
    rfl
  · unfold ofLine
    rw [colon]
    dsimp only
    rw [cut]
    rfl

end Dispatch
