import Dispatch.Proofs.Reading.Sequencing
import Dispatch.Token.Lexer

/-!
Texts and their tokens. Blanks, closing parentheses, commas and colons end words, numbers and
symbols, so a text that is put together from the texts of tokens with these between them has their
tokens.
-/

namespace Dispatch

-----------------------------------------------------------------------------------------
-- Classes of characters
-----------------------------------------------------------------------------------------

namespace Text

theorem exists_range_of_inRanges {code : Nat} {ranges : List (Nat × Nat)}
    (inside : inRanges code ranges = true)
    : ∃ range ∈ ranges, range.1 ≤ code ∧ code ≤ range.2 := by
  induction ranges with
  | nil => cases inside
  | cons range rest ih =>
      obtain ⟨first, last⟩ := range
      unfold inRanges at inside
      split at inside
      · cases inside
      · rename_i reached
        rcases Bool.or_eq_true_iff.mp inside with here | later
        · exact ⟨(first, last), List.mem_cons_self, Nat.le_of_not_lt reached,
            of_decide_eq_true here⟩
        · obtain ⟨range, member, bounds⟩ := ih later
          exact ⟨range, List.mem_cons_of_mem _ member, bounds⟩

/-- A code point in one class of characters is not in a class whose ranges are apart from those of
the first.
-/
theorem inRanges_eq_false_of_apart {left right : List (Nat × Nat)}
    (apart : ∀ first ∈ left, ∀ second ∈ right, first.2 < second.1 ∨ second.2 < first.1)
    {code : Nat} (inside : inRanges code left = true)
    : inRanges code right = false := by
  rw [Bool.eq_false_iff]
  intro also
  obtain ⟨first, firstIn, _, _⟩ := exists_range_of_inRanges inside
  obtain ⟨second, secondIn, _, _⟩ := exists_range_of_inRanges also
  rcases apart first firstIn second secondIn with below | above <;> omega

/-- A blank is neither a letter nor a digit, as the ranges of these are apart from those of blanks.
-/
theorem isAlphanumeric_eq_false_of_isBlank {c : Char} (blank : isBlank c = true)
    : isAlphanumeric c = false := by
  have alphabetic : isAlphabetic c = false :=
    inRanges_eq_false_of_apart (by decide +kernel) blank
  have number : isNumber c = false := inRanges_eq_false_of_apart (by decide +kernel) blank
  rw [isAlphanumeric, alphabetic, number]
  rfl

/-- The range of ASCII digits. -/
def digitRanges : List (Nat × Nat) := [(0x30, 0x39)]

theorem inRanges_of_isDigit {c : Char} (digit : c.isDigit = true)
    : inRanges c.toNat digitRanges = true := by
  obtain ⟨low, high⟩ : 48 ≤ c.toNat ∧ c.toNat ≤ 57 := by
    simpa [Char.isDigit, UInt32.le_iff_toNat_le] using digit
  simp only [digitRanges, inRanges, if_neg (Nat.not_lt.mpr low), high, decide_true, Bool.true_or]

theorem isBlank_eq_false_of_isDigit {c : Char} (digit : c.isDigit = true) : isBlank c = false :=
  inRanges_eq_false_of_apart (by decide) (inRanges_of_isDigit digit)

theorem isAlphanumeric_of_isDigit {c : Char} (digit : c.isDigit = true)
    : isAlphanumeric c = true := by
  obtain ⟨low, high⟩ : 48 ≤ c.toNat ∧ c.toNat ≤ 57 := by
    simpa [Char.isDigit, UInt32.le_iff_toNat_le] using digit
  have first : numberRanges = (0x30, 0x39) :: numberRanges.tail := rfl
  have number : isNumber c = true := by
    rw [isNumber, first, inRanges, if_neg (Nat.not_lt.mpr low), decide_eq_true high, Bool.true_or]
  rw [isAlphanumeric, number, Bool.or_true]

theorem isAlphabetic_eq_false_of_isDigit {c : Char} (digit : c.isDigit = true)
    : isAlphabetic c = false :=
  inRanges_eq_false_of_apart (by decide +kernel) (inRanges_of_isDigit digit)

end Text

theorem continuesWord_eq_false_of_isBlank {c : Char} (blank : Text.isBlank c = true)
    : continuesWord c = false := by
  rw [continuesWord, Text.isAlphanumeric_eq_false_of_isBlank blank, Bool.false_or,
    decide_eq_false_iff_not]
  rintro rfl
  exact absurd blank (by decide)

/-- A character that begins words continues them. -/
theorem continuesWord_of_beginsWord {c : Char} (begins : beginsWord c = true)
    : continuesWord c = true := by
  simp only [beginsWord, continuesWord, Text.isAlphanumeric, Bool.or_eq_true] at begins ⊢
  rcases begins with alphabetic | underscore
  · exact .inl (.inl alphabetic)
  · exact .inr underscore

/-- An identifier is made of characters that continue words. -/
theorem continuesWord_of_isIdentifier {word : List Char} (identifier : isIdentifier word = true)
    : word ≠ [] ∧ ∀ c ∈ word, continuesWord c = true := by
  cases word with
  | nil => cases identifier
  | cons first others =>
      simp only [isIdentifier, Bool.and_eq_true, List.all_eq_true] at identifier
      obtain ⟨⟨begins, continues⟩, _⟩ := identifier
      refine ⟨List.cons_ne_nil _ _, List.forall_mem_cons.mpr ⟨?_, continues⟩⟩
      exact continuesWord_of_beginsWord begins

/-- A word does not begin with a blank. -/
theorem isBlank_eq_false_of_continuesWord {c : Char} (continues : continuesWord c = true)
    : Text.isBlank c = false := by
  rw [Bool.eq_false_iff]
  intro blank
  rw [continuesWord_eq_false_of_isBlank blank] at continues
  cases continues

/-- A word does not begin with a digit. -/
theorem isDigit_eq_false_of_beginsWord {c : Char} (begins : beginsWord c = true)
    : c.isDigit = false := by
  rw [Bool.eq_false_iff]
  intro digit
  rw [beginsWord, Text.isAlphabetic_eq_false_of_isDigit digit, Bool.false_or,
    decide_eq_true_iff] at begins
  subst begins
  exact absurd digit (by decide)

-----------------------------------------------------------------------------------------
-- Tokens that a text can have
-----------------------------------------------------------------------------------------

/-- What the reader of tokens promises of a token: a number is in bounds, and a word is an
identifier.
-/
def Token.Proper : Token → Prop
  | .integer value => value ≤ greatestNumber
  | .word name => isIdentifier name.toList = true
  | .keyword _ | .symbol _ => True

theorem takeWhile_eq_take (test : Char → Bool) (text : List Char)
    : text.take (text.takeWhile test).length = text.takeWhile test :=
  (List.prefix_iff_eq_take.mp (List.takeWhile_prefix test)).symm

theorem dropWhile_eq_drop (test : Char → Bool) (text : List Char)
    : text.drop (text.takeWhile test).length = text.dropWhile test := by
  have whole := List.take_append_drop (text.takeWhile test).length text
  rw [takeWhile_eq_take] at whole
  exact List.append_cancel_left (whole.trans List.takeWhile_append_dropWhile.symm)

/-- The token of a lexeme is proper: a word is an identifier and no keyword, and a number is in
bounds. By cases on how the lexeme begins.
-/
theorem Token.proper_of_ofLexeme {c : Char} {rest : List Char} {token : Token}
    (spelled : Token.ofLexeme c (rest.take (Token.tailLength c rest)) = .ok token)
    : token.Proper := by
  unfold ofLexeme at spelled
  split at spelled
  · dsimp only at spelled
    split at spelled
    · rename_i small
      obtain rfl := Except.ok.inj spelled
      exact small
    · cases spelled
  · rename_i notDigit
    split at spelled
    · rename_i begins
      split at spelled
      · obtain rfl := Except.ok.inj spelled
        trivial
      · rename_i free
        obtain rfl := Except.ok.inj spelled
        have tail : rest.take (tailLength c rest) = rest.takeWhile continuesWord := by
          rw [tailLength, if_neg notDigit, if_pos begins, takeWhile_eq_take]
        rw [tail] at free ⊢
        simp [Proper, isIdentifier, begins, free]
    · split at spelled
      · obtain rfl := Except.ok.inj spelled
        trivial
      · cases spelled

/-- All tokens of a text are proper, by induction on the reading of the text. -/
theorem TokenLine.proper_of_read {here : Position} {text : List Char} {line : TokenLine}
    (read : TokenLine.read here text = .ok line)
    : ∀ lexeme ∈ line.lexemes, lexeme.token.Proper := by
  fun_induction TokenLine.read here text generalizing line with
  | case1 here =>
      obtain rfl := Except.ok.inj read
      exact nofun
  | case2 here c rest blank ih => exact ih read
  | case3 => cases read
  | case4 here c rest =>
      rename_i token spelled ih
      obtain ⟨others, more, done⟩ := bind_eq_ok_iff.mp read
      obtain rfl := Except.ok.inj done
      exact List.forall_mem_cons.mpr ⟨Token.proper_of_ofLexeme spelled, ih more⟩

-----------------------------------------------------------------------------------------
-- First tokens
-----------------------------------------------------------------------------------------

theorem continuesWord_of_isDigit {c : Char} (digit : c.isDigit = true)
    : continuesWord c = true := by
  rw [continuesWord, Text.isAlphanumeric_of_isDigit digit, Bool.true_or]

/-- The first token of a text that starts with no blank is that of its first lexeme. -/
theorem TokenLine.exists_first {here : Position} {c : Char} {after : List Char} {line : TokenLine}
    (read : TokenLine.read here (c :: after) = .ok line) (visible : Text.isBlank c = false)
    : ∃ token span next others,
        Token.ofLexeme c (after.take (Token.tailLength c after)) = .ok token
        ∧ TokenLine.read next (after.drop (Token.tailLength c after)) = .ok others
        ∧ line.lexemes = ⟨token, span⟩ :: others.lexemes := by
  rw [TokenLine.read, if_neg (by simp [visible])] at read
  dsimp only at read
  split at read
  · cases read
  · rename_i token spelled
    obtain ⟨others, more, done⟩ := bind_eq_ok_iff.mp read
    obtain rfl := Except.ok.inj done
    exact ⟨token, _, _, others, spelled, more, rfl⟩

/-- A word is as long as it can be: it takes all characters that continue it. -/
theorem Token.word_of_ofLexeme {c : Char} {after : List Char} {word : String}
    (spelled : Token.ofLexeme c (after.take (Token.tailLength c after)) = .ok (.word word))
    : word.toList = c :: after.takeWhile continuesWord
        ∧ Token.tailLength c after = (after.takeWhile continuesWord).length := by
  unfold ofLexeme at spelled
  split at spelled
  · dsimp only at spelled
    split at spelled <;> cases spelled
  · rename_i notDigit
    split at spelled
    · rename_i begins
      have length : tailLength c after = (after.takeWhile continuesWord).length := by
        rw [tailLength, if_neg notDigit, if_pos begins]
      split at spelled
      · cases spelled
      · obtain rfl := Token.word.inj (Except.ok.inj spelled)
        rw [length, takeWhile_eq_take, String.toList_ofList]
        exact ⟨rfl, rfl⟩
    · split at spelled <;> cases spelled

/-- The first word of a line that starts with no blank stands at its start, whole. -/
theorem TokenLine.exists_tail_of_word {here : Position} {text : List Char} {line : TokenLine}
    (read : TokenLine.read here text = .ok line) {word : String} {span : Span} {rest : List Lexeme}
    (first : line.lexemes = ⟨.word word, span⟩ :: rest)
    (visible : ∀ c ∈ text.head?, Text.isBlank c = false)
    : ∃ tail next others, text = word.toList ++ tail
        ∧ (∀ c ∈ tail.head?, continuesWord c = false)
        ∧ TokenLine.read next tail = .ok others ∧ others.lexemes = rest := by
  cases text with
  | nil =>
      rw [TokenLine.read] at read
      obtain rfl := Except.ok.inj read
      cases first
  | cons c after =>
      obtain ⟨token, _, next, others, spelled, more, lexemes⟩ := exists_first read (visible c rfl)
      obtain ⟨same, rest⟩ := List.cons.inj (lexemes.symm.trans first)
      obtain ⟨rfl, _⟩ := Lexeme.mk.inj same
      obtain ⟨chars, length⟩ := Token.word_of_ofLexeme spelled
      rw [length, dropWhile_eq_drop] at more
      refine ⟨_, next, others, ?_, fun d member => ?_, more, rest⟩
      · rw [chars, List.cons_append, List.takeWhile_append_dropWhile]
      · have stops := List.head?_dropWhile_not continuesWord after
        rw [Option.mem_def.mp member] at stops
        simpa using stops

theorem Symbol.head_of_openParen {text : List Char}
    (found : Symbol.leading? text = some .openParen)
    : text.head? = some '(' := by
  unfold leading? at found
  split at found <;> first | rfl | cases found

/-- Where no word, number or parenthesis stands, the first token can only be another symbol. -/
theorem TokenLine.lexemes_of_mark {here : Position} {text : List Char} {line : TokenLine}
    (read : TokenLine.read here text = .ok line)
    (start : ∀ c ∈ text.head?, Text.isBlank c = false ∧ continuesWord c = false ∧ c ≠ '(')
    : line.lexemes = [] ∨ ∃ mark span rest, line.lexemes = ⟨.symbol mark, span⟩ :: rest
        ∧ mark ≠ .openParen := by
  cases text with
  | nil =>
      rw [TokenLine.read] at read
      obtain rfl := Except.ok.inj read
      exact .inl rfl
  | cons c after =>
      obtain ⟨visible, apart, notParen⟩ := start c rfl
      have notDigit : ¬ c.isDigit = true := fun digit => by
        rw [continuesWord_of_isDigit digit] at apart
        cases apart
      have notWord : ¬ beginsWord c = true := fun begins => by
        rw [continuesWord_of_beginsWord begins] at apart
        cases apart
      obtain ⟨token, span, _, others, spelled, _, lexemes⟩ := exists_first read visible
      rw [Token.ofLexeme, if_neg notDigit, if_neg notWord] at spelled
      split at spelled
      · rename_i mark found
        obtain rfl := Except.ok.inj spelled
        refine .inr ⟨mark, span, others.lexemes, lexemes, ?_⟩
        rintro rfl
        exact notParen (Option.some.inj (Symbol.head_of_openParen found))
      · cases spelled

/-- The text of a natural number is a numeral of it. -/
theorem digits_toString (value : Nat)
    : (toString value).toList ≠ [] ∧ (∀ c ∈ (toString value).toList, c.isDigit = true)
      ∧ numeral (toString value).toList = value := by
  rw [Nat.toString_eq_ofList_toDigits, String.toList_ofList]
  refine ⟨Nat.toDigits_ne_nil, fun c member => ?_, ?_⟩
  · exact Nat.isDigit_of_mem_toDigits (by decide) (by decide) member
  · rw [numeral, ← Nat.ofDigitChars_eq_foldl, Nat.ofDigitChars_ten_toDigits]

-----------------------------------------------------------------------------------------
-- Texts of tokens
-----------------------------------------------------------------------------------------

/-- What ends every token before it: the end of the text, a blank, a closing parenthesis, a comma or
a colon.
-/
inductive EndsToken : List Char → Prop where
  | nil : EndsToken []
  | blank (rest : List Char) : EndsToken (' ' :: rest)
  | close (rest : List Char) : EndsToken (')' :: rest)
  | comma (rest : List Char) : EndsToken (',' :: rest)
  | colon (rest : List Char) : EndsToken (':' :: rest)

theorem EndsToken.takeWhile_eq_nil {rest : List Char} (ends : EndsToken rest)
    {test : Char → Bool}
    (fails : test ' ' = false ∧ test ')' = false ∧ test ',' = false ∧ test ':' = false)
    : rest.takeWhile test = [] := by
  cases ends <;> simp [fails]

/-- The lexemes of a line with others before them. -/
def TokenLine.after {ν : Type} (front : List (Lexeme ν)) (line : TokenLine ν) : TokenLine ν :=
  { line with lexemes := front ++ line.lexemes }

/-- Reading goes on behind a lexeme that spells a token, and stops at one that spells none. -/
theorem TokenLine.read_visible {ν : Type} [Add ν] [OfNat ν 1] {c : Char} {tail rest : List Char}
    (visible : Text.isBlank c = false) (length : Token.tailLength c (tail ++ rest) = tail.length)
    (here : Position ν)
    : TokenLine.read here (c :: (tail ++ rest))
      = match Token.ofLexeme c tail with
        | .error cause => .error ⟨cause, .between here (here.advanceBy (c :: tail))⟩
        | .ok token => do
            let line ← TokenLine.read (here.advanceBy (c :: tail)) rest
            return line.after [⟨token, .between here (here.advanceBy (c :: tail))⟩] := by
  rw [TokenLine.read, if_neg (by simp [visible])]
  simp only [length, List.take_left, List.drop_left]
  rfl

/-- Before whatever ends a token, the text has exactly these tokens. -/
def Lexes (text : List Char) (tokens : List Token) : Prop :=
  ∀ here rest, EndsToken rest → ∃ next front, front.map Lexeme.token = tokens
    ∧ ∀ line, TokenLine.read next rest = .ok line
      → TokenLine.read here (text ++ rest) = .ok (line.after front)

namespace Lexes

variable {text more : List Char} {tokens others : List Token}

/-- A text on its own has its tokens. -/
theorem read (lexes : Lexes text tokens) (here : Position)
    : ∃ line, TokenLine.read here text = .ok line ∧ line.lexemes.map Lexeme.token = tokens := by
  obtain ⟨next, front, same, reads⟩ := lexes here [] .nil
  have whole := reads ⟨[], .between next next⟩ (by rw [TokenLine.read])
  rw [List.append_nil] at whole
  exact ⟨_, whole, by simpa [TokenLine.after] using same⟩

theorem nil : Lexes [] [] := fun here _ _ => ⟨here, [], rfl, fun _ read => read⟩

/-- Tokens of a text go before those of another text that ends them. The end of the first text is
where the second one is read.
-/
theorem append (first : Lexes text tokens) (second : Lexes more others)
    (ends : ∀ rest, EndsToken rest → EndsToken (more ++ rest))
    : Lexes (text ++ more) (tokens ++ others) := by
  intro here rest end_
  obtain ⟨middle, front, same, reads⟩ := first here (more ++ rest) (ends rest end_)
  obtain ⟨next, back, alike, goesOn⟩ := second middle rest end_
  refine ⟨next, front ++ back, by rw [List.map_append, same, alike], fun line read => ?_⟩
  rw [List.append_assoc, reads _ (goesOn line read)]
  simp [TokenLine.after]

/-- One lexeme is read before whatever leaves it its length. -/
theorem read_lexeme {c : Char} {tail rest : List Char} {token : Token}
    (visible : Text.isBlank c = false) (spelled : Token.ofLexeme c tail = .ok token)
    (length : Token.tailLength c (tail ++ rest) = tail.length) {here : Position} {line : TokenLine}
    (read : TokenLine.read (here.advanceBy (c :: tail)) rest = .ok line)
    : TokenLine.read here (c :: (tail ++ rest))
      = .ok (line.after [⟨token, .between here (here.advanceBy (c :: tail))⟩]) := by
  rw [TokenLine.read_visible visible length, spelled]
  exact bind_eq_ok_iff.mpr ⟨line, read, rfl⟩

theorem lexeme {c : Char} {tail : List Char} {token : Token} (visible : Text.isBlank c = false)
    (spelled : Token.ofLexeme c tail = .ok token)
    (length
      : ∀ rest, EndsToken rest → Token.tailLength c (tail ++ rest) = tail.length)
    : Lexes (c :: tail) [token] :=
  fun _ rest end_ => ⟨_, [⟨token, _⟩], rfl, fun _ read =>
    read_lexeme visible spelled (length rest end_) read⟩

/-- A symbol of one character that no other symbol extends may stand right before a text. -/
theorem glued {c : Char} {mark : Symbol} (lexes : Lexes text tokens)
    (visible : Text.isBlank c = false) (spelled : Token.ofLexeme c [] = .ok (.symbol mark))
    (length : ∀ rest, Token.tailLength c rest = 0)
    : Lexes (c :: text) (.symbol mark :: tokens) := by
  intro here rest end_
  obtain ⟨next, front, same, reads⟩ := lexes (here.advanceBy [c]) rest end_
  refine ⟨next, ⟨.symbol mark, .between here (here.advanceBy [c])⟩ :: front,
    by rw [List.map_cons, same], fun line read => ?_⟩
  exact read_lexeme visible spelled (length _) (reads line read)

theorem openParen (lexes : Lexes text tokens)
    : Lexes ('(' :: text) (.symbol .openParen :: tokens) :=
  lexes.glued (by decide) rfl fun _ => rfl

theorem minus (lexes : Lexes text tokens) : Lexes ('-' :: text) (.symbol .minus :: tokens) :=
  lexes.glued (by decide) rfl fun _ => rfl

theorem symbol (mark : Symbol) : Lexes mark.text.toList [.symbol mark] := by
  cases mark <;> refine lexeme (by decide) rfl fun rest end_ => ?_ <;> cases end_ <;> rfl

theorem blank (lexes : Lexes text tokens) : Lexes (' ' :: text) tokens := by
  intro here rest end_
  obtain ⟨next, front, same, reads⟩ := lexes (here.advance ' ') rest end_
  refine ⟨next, front, same, fun line read => ?_⟩
  rw [List.cons_append, TokenLine.read, if_pos (by decide)]
  exact reads line read

theorem alphabetic {c : Char} {tail : List Char} {token : Token} (begins : beginsWord c = true)
    (continues : tail.all continuesWord = true) (spelled : Token.ofLexeme c tail = .ok token)
    : Lexes (c :: tail) [token] := by
  refine lexeme (isBlank_eq_false_of_continuesWord (continuesWord_of_beginsWord begins)) spelled
    fun rest end_ => ?_
  rw [Token.tailLength, isDigit_eq_false_of_beginsWord begins, if_neg Bool.false_ne_true,
    if_pos begins, List.takeWhile_append_of_pos (List.all_eq_true.mp continues),
    end_.takeWhile_eq_nil (by decide), List.append_nil]

theorem keyword (reserved : Keyword) : Lexes reserved.text.toList [.keyword reserved] := by
  cases reserved <;> exact alphabetic (by decide) (by decide) rfl

theorem word {name : String} (identifier : isIdentifier name.toList = true)
    : Lexes name.toList [.word name] := by
  cases chars : name.toList with
  | nil => simp [chars, isIdentifier] at identifier
  | cons c tail =>
      simp only [chars, isIdentifier, Bool.and_eq_true, Option.isNone_iff_eq_none] at identifier
      obtain ⟨⟨begins, continues⟩, free⟩ := identifier
      refine alphabetic begins continues ?_
      rw [Token.ofLexeme, isDigit_eq_false_of_beginsWord begins, if_neg Bool.false_ne_true,
        if_pos begins, free, ← chars, String.ofList_toList]

/-- A number in bounds is read from its digits, as they are a numeral of it. -/
theorem integer {value : Nat} (small : value ≤ greatestNumber)
    : Lexes (toString value).toList [.integer value] := by
  obtain ⟨c, tail, chars⟩ := List.exists_cons_of_ne_nil (digits_toString value).1
  obtain ⟨_, digits, same⟩ := digits_toString value
  rw [chars] at digits same ⊢
  obtain ⟨first, others⟩ := List.forall_mem_cons.mp digits
  refine lexeme (Text.isBlank_eq_false_of_isDigit first) ?_ fun rest end_ => ?_
  · simp only [Token.ofLexeme, first, if_true, same, if_pos small]
  · rw [Token.tailLength, if_pos first, List.takeWhile_append_of_pos others,
      end_.takeWhile_eq_nil (by decide), List.append_nil]

end Lexes

end Dispatch
