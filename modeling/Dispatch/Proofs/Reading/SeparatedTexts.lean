import Dispatch.Proofs.Reading.TokenPlaces
import Dispatch.Text.Cut

/-!
Texts with a character between them with which no lexeme goes on. Such a character cuts the reading
of a text in two, so the tokens of the whole are those of its parts; and the texts of tokens with
spaces between them are read as these tokens again.
-/

namespace Dispatch

-----------------------------------------------------------------------------------------
-- Characters that cut
-----------------------------------------------------------------------------------------

/-- No lexeme goes on with the character: it is in no word and no number, and second in no symbol.
-/
structure CutsTokens (c : Char) : Prop where
  word : continuesWord c = false
  symbol : c ≠ '='

theorem cutsTokens_of_isBlank {c : Char} (blank : Text.isBlank c = true) : CutsTokens c where
  word := continuesWord_eq_false_of_isBlank blank
  symbol := by
    rintro rfl
    exact absurd blank (by decide)

theorem cutsTokens_colon : CutsTokens ':' := ⟨by decide, by decide⟩

theorem CutsTokens.digit {c : Char} (cuts : CutsTokens c) : c.isDigit = false := by
  rw [Bool.eq_false_iff]
  intro digit
  have letter := continuesWord_of_isDigit digit
  rw [cuts.word] at letter
  cases letter

theorem takeWhile_append_stop {test : Char → Bool} {mark : Char} (stops : test mark = false)
    (text rest : List Char)
    : (text ++ mark :: rest).takeWhile test = text.takeWhile test := by
  rw [List.takeWhile_append]
  split
  · rename_i all
    rw [List.takeWhile_cons_of_neg (by simp [stops]), List.append_nil]
    exact ((List.takeWhile_prefix test).eq_of_length all).symm
  · rfl

theorem Symbol.leading?_pair {d : Char} (single : d ≠ '=') (c : Char)
    : leading? [c, d] = leading? [c] := by
  unfold leading?
  split <;> simp_all

/-- A lexeme does not go across a character that cuts: such a character continues no word or number,
and no symbol of two characters ends in it.
-/
theorem Token.tailLength_append_cut {mark : Char} (cuts : CutsTokens mark) (c : Char)
    (text rest : List Char)
    : tailLength c (text ++ mark :: rest) = tailLength c text := by
  have symbols : Symbol.leading? (c :: (text ++ mark :: rest)) = Symbol.leading? (c :: text) := by
    cases text with
    | nil => rw [List.nil_append, Symbol.leading?_cons_cons, Symbol.leading?_pair cuts.symbol]
    | cons d text =>
        rw [List.cons_append, Symbol.leading?_cons_cons, Symbol.leading?_cons_cons c d text]
  simp only [tailLength, takeWhile_append_stop cuts.digit, takeWhile_append_stop cuts.word, symbols]

/-- Blanks before a text are skipped. -/
theorem TokenLine.read_blanks {gap : List Char} (blank : ∀ c ∈ gap, Text.isBlank c = true)
    (here : Position) (text : List Char)
    : TokenLine.read here (gap ++ text) = TokenLine.read (here.advanceBy gap) text := by
  induction gap generalizing here with
  | nil => rfl
  | cons c gap ih =>
      obtain ⟨first, others⟩ := List.forall_mem_cons.mp blank
      rw [List.cons_append, TokenLine.read, if_pos first]
      exact ih others (here.advance c)

/-- A character that cuts cuts the reading of a text in two, by induction on the blanks and lexemes
before it. The second reading goes on where the first one ended.
-/
theorem TokenLine.read_append_cut {mark : Char} (cuts : CutsTokens mark) (here : Position)
    (text rest : List Char)
    : TokenLine.read here (text ++ mark :: rest) = (do
        let line ← TokenLine.read here text
        let more ← TokenLine.read (here.advanceBy text) (mark :: rest)
        return more.after line.lexemes) := by
  induction text using lexeme_induction generalizing here with
  | nil =>
      have none : TokenLine.read here [] = .ok ⟨[], .between here here⟩ := by rw [TokenLine.read]
      rw [List.nil_append, none, show here.advanceBy [] = here from rfl]
      cases TokenLine.read here (mark :: rest) <;> rfl
  | blank c text blank ih =>
      have skipped := TokenLine.read_blanks (List.forall_mem_singleton.mpr blank) here
      have whole := skipped (text ++ mark :: rest)
      have part := skipped text
      rw [List.singleton_append] at whole part
      rw [List.cons_append, whole, part, ih]
      rfl
  | lexeme c tail after visible length ih =>
      have whole : Token.tailLength c (tail ++ (after ++ mark :: rest)) = tail.length := by
        rw [← List.append_assoc, Token.tailLength_append_cut cuts, length]
      have ends : here.advanceBy (c :: (tail ++ after))
          = (here.advanceBy (c :: tail)).advanceBy after :=
        Position.advanceBy_append here (c :: tail) after
      rw [List.cons_append, List.append_assoc, read_visible visible whole,
        read_visible visible length, ends]
      cases Token.ofLexeme c tail with
      | error cause => rfl
      | ok token =>
          dsimp only
          rw [ih]
          cases TokenLine.read (here.advanceBy (c :: tail)) after with
          | error cause => rfl
          | ok line =>
              cases TokenLine.read ((here.advanceBy (c :: tail)).advanceBy after) (mark :: rest)
                <;> rfl

-----------------------------------------------------------------------------------------
-- Texts of tokens
-----------------------------------------------------------------------------------------

/-- The text is read as the tokens, wherever it stands. -/
def ReadsAs (text : List Char) (tokens : List Token) : Prop :=
  ∀ here, ∃ line, TokenLine.read here text = .ok line ∧ line.lexemes.map (·.token) = tokens

/-- A text has the same tokens wherever it stands, by induction on its blanks and lexemes. A
position moves along with the text and decides nothing.
-/
theorem readsAs_of_read {here : Position} {text : List Char} {line : TokenLine}
    (read : TokenLine.read here text = .ok line)
    : ReadsAs text (line.lexemes.map (·.token)) := by
  induction text using lexeme_induction generalizing here line with
  | nil =>
      rw [TokenLine.read] at read
      obtain rfl := Except.ok.inj read
      exact fun there => ⟨⟨[], .between there there⟩, by rw [TokenLine.read], rfl⟩
  | blank c text blank ih =>
      intro there
      rw [TokenLine.read, if_pos blank] at read ⊢
      exact ih read (there.advance c)
  | lexeme c tail after visible length ih =>
      intro there
      rw [TokenLine.read_visible visible length] at read ⊢
      split at read
      · cases read
      · rename_i token spelled
        obtain ⟨others, more, done⟩ := bind_eq_ok_iff.mp read
        obtain rfl := Except.ok.inj done
        obtain ⟨again, rereads, same⟩ := ih more (there.advanceBy (c :: tail))
        refine ⟨_, bind_eq_ok_iff.mpr ⟨again, rereads, rfl⟩, ?_⟩
        simp [TokenLine.after, same]

/-- A token is read from its text, by cases on the token. -/
theorem Token.readsAs_text {token : Token} (proper : token.Proper)
    : ReadsAs token.text.toList [token] := by
  cases token with
  | keyword reserved => exact (Lexes.keyword reserved).read
  | symbol mark => exact (Lexes.symbol mark).read
  | integer value => exact (Lexes.integer proper).read
  | word name => exact (Lexes.word proper).read

namespace ReadsAs

variable {text other : List Char} {tokens others : List Token}

/-- Texts with blanks between them have the tokens of the first and then those of the second. The
first of the blanks cuts the reading in two.
-/
theorem separated (first : ReadsAs text tokens) (second : ReadsAs other others) {gap : List Char}
    (some : gap ≠ []) (blank : ∀ c ∈ gap, Text.isBlank c = true)
    : ReadsAs (text ++ gap ++ other) (tokens ++ others) := by
  intro here
  obtain ⟨mark, gap, rfl⟩ := List.exists_cons_of_ne_nil some
  have cuts := cutsTokens_of_isBlank (blank mark List.mem_cons_self)
  obtain ⟨line, reads, same⟩ := first here
  obtain ⟨more, goesOn, alike⟩ := second ((here.advanceBy text).advanceBy (mark :: gap))
  refine ⟨more.after line.lexemes, ?_, by simp [TokenLine.after, same, alike]⟩
  rw [List.append_assoc, List.cons_append, TokenLine.read_append_cut cuts, reads,
    ← List.cons_append, TokenLine.read_blanks blank, goesOn]
  rfl

end ReadsAs

/-- Displayed tokens with a space between neighbours are read as these tokens, by induction on them.
The space keeps tokens apart that would make another one together.
-/
theorem readsAs_joinWords {tokens : List Token} (proper : ∀ token ∈ tokens, token.Proper)
    : ReadsAs (Text.joinWords (tokens.map (·.text.toList))) tokens := by
  induction tokens with
  | nil => exact Lexes.nil.read
  | cons token rest ih =>
      obtain ⟨first, others⟩ := List.forall_mem_cons.mp proper
      cases rest with
      | nil => exact Token.readsAs_text first
      | cons next rest =>
          have space : ∀ c ∈ [' '], Text.isBlank c = true :=
            List.forall_mem_singleton.mpr (by decide)
          have whole := (Token.readsAs_text first).separated (ih others) (List.cons_ne_nil ' ' [])
            space
          rwa [List.append_assoc] at whole

/-- The displayed tokens of a text are read as its tokens, and blanks between two texts separate
their tokens.

The tokens of a text are proper, so each is read from its own text; and a blank cuts the reading of
what stands around it.
-/
theorem TokenLine.readsAs_displayed_and_separated {here : Position} {text : List Char}
    {line : TokenLine} (reads : TokenLine.read here text = .ok line)
    : ReadsAs (Text.joinWords (line.lexemes.map (·.token.text.toList)))
          (line.lexemes.map (·.token))
        ∧ ∀ there other more gap, TokenLine.read there other = .ok more
          → gap ≠ [] → (∀ c ∈ gap, Text.isBlank c = true)
          → ReadsAs (text ++ gap ++ other)
              (line.lexemes.map (·.token) ++ more.lexemes.map (·.token)) := by
  constructor
  · have proper : ∀ token ∈ line.lexemes.map (·.token), token.Proper := by
      intro token member
      obtain ⟨lexeme, inside, rfl⟩ := List.mem_map.mp member
      exact TokenLine.proper_of_read reads lexeme inside
    have again := readsAs_joinWords proper
    rwa [List.map_map] at again
  · intro there other more gap goesOn some blank
    exact (readsAs_of_read reads).separated (readsAs_of_read goesOn) some blank

/-- A reserved word in capitals and a sign that another sign could go on with. -/
def fence : List Char := ['N', 'O', 'T', ' ', 'é', '1', '=']

/-- A sign that could go on with another, and a number with zeros in front. -/
def post : List Char := ['=', '0', '0', '7']

/-- Witness: two signs with a newline between them stay two. -/
theorem readsAs_fence_and_post
    : (∃ line, TokenLine.read ⟨0, 1, 1⟩ fence = .ok line)
        ∧ (∃ line, TokenLine.read ⟨0, 1, 1⟩ post = .ok line)
        ∧ ReadsAs ['n', 'o', 't', ' ', 'é', '1', ' ', '=']
            [.keyword .negation, .word "é1", .symbol .assign]
        ∧ ReadsAs (fence ++ ['\n', ' '] ++ post)
            [.keyword .negation, .word "é1", .symbol .assign, .symbol .assign, .integer 7] := by
  have left : TokenLine.read ⟨0, 1, 1⟩ fence
      = .ok ⟨[⟨.keyword .negation, 0, 3, 1, 1⟩, ⟨.word "é1", 4, 7, 1, 5⟩,
          ⟨.symbol .assign, 7, 8, 1, 7⟩], ⟨8, 8, 1, 8⟩⟩ :=
    ok_of_toOption (by decide +kernel)
  have right : TokenLine.read ⟨0, 1, 1⟩ post
      = .ok ⟨[⟨.symbol .assign, 0, 1, 1, 1⟩, ⟨.integer 7, 1, 4, 1, 2⟩], ⟨4, 4, 1, 5⟩⟩ :=
    ok_of_toOption (by decide +kernel)
  obtain ⟨displayed, separated⟩ := TokenLine.readsAs_displayed_and_separated left
  refine ⟨⟨_, left⟩, ⟨_, right⟩, ?_, ?_⟩
  · exact displayed
  · refine separated _ _ _ ['\n', ' '] right (by decide) (List.forall_mem_cons.mpr ⟨by decide, ?_⟩)
    exact List.forall_mem_singleton.mpr (by decide)

end Dispatch
