import Mathlib.Data.List.Induction
import Dispatch.Proofs.Reading.Lexemes

/-!
Where the tokens of a text stand. The pieces of text that were read as tokens follow one another
with only blanks outside them, each spells its token on its own, and its place is counted from the
start of the text. A text is refused at the first piece that spells no token. Lines and columns have
32 bits and wrap around, so they are exact where the start leaves them room.
-/

namespace Dispatch

-----------------------------------------------------------------------------------------
-- Counting
-----------------------------------------------------------------------------------------

theorem byteLength_pos {text : List Char} (visible : text ≠ []) : 0 < byteLength text := by
  obtain ⟨c, rest, rfl⟩ := List.exists_cons_of_ne_nil visible
  exact Nat.add_pos_left c.utf8Size_pos _

/-- The line behind a text that starts on the given one: each newline starts another. -/
def lineBehind (row : UInt32) (text : List Char) : UInt32 := row + .ofNat (text.count '\n')

/-- The column behind a text that starts at the given one, in characters from the last newline. -/
def columnBehind (column : UInt32) (text : List Char) : UInt32 :=
  if '\n' ∈ text then .ofNat ((text.reverse.takeWhile (· ≠ '\n')).length + 1)
  else column + .ofNat text.length

/-- Where the start leaves room for the newlines of a text, its lines are counted exactly. Without
the room the count wraps around at 32 bits.
-/
theorem toNat_lineBehind {row : UInt32} {text : List Char}
    (room : row.toNat + text.count '\n' < 4294967296)
    : (lineBehind row text).toNat = row.toNat + text.count '\n' := by
  rw [lineBehind, UInt32.toNat_add, UInt32.toNat_ofNat', Nat.add_mod_mod]
  exact Nat.mod_eq_of_lt room

/-- Where the start leaves room for the characters of a text, its columns are counted exactly. -/
theorem toNat_columnBehind {column : UInt32} {text : List Char}
    (room : column.toNat + text.length < 4294967296)
    : (columnBehind column text).toNat
      = if '\n' ∈ text then (text.reverse.takeWhile (· ≠ '\n')).length + 1
        else column.toNat + text.length := by
  unfold columnBehind
  split
  · rename_i newline
    have shorter : (text.reverse.takeWhile (· ≠ '\n')).length < text.length := by
      rw [← text.length_reverse]
      refine Nat.lt_of_le_of_ne (List.takeWhile_prefix _).length_le fun whole => ?_
      have all := @List.all_takeWhile _ (· ≠ '\n') text.reverse
      rw [(List.takeWhile_prefix _).eq_of_length whole] at all
      simpa using List.all_eq_true.mp all '\n' (List.mem_reverse.mpr newline)
    rw [UInt32.toNat_ofNat']
    exact Nat.mod_eq_of_lt (by omega)
  · rw [UInt32.toNat_add, UInt32.toNat_ofNat', Nat.add_mod_mod]
    exact Nat.mod_eq_of_lt room

/-- The span of a piece of text behind the part of a text that is before it. -/
def Span.behind (row column : UInt32) (before piece : List Char) : Span UInt32 where
  start := byteLength before
  stop := byteLength before + byteLength piece
  line := lineBehind row before
  column := columnBehind column before

/-- The lines and columns of a text that starts at the given ones are numbers of 32 bits. -/
def LeavesRoom (row column : UInt32) (text : List Char) : Prop :=
  row.toNat + text.count '\n' < 4294967296 ∧ column.toNat + text.length < 4294967296

/-- The place of a piece is counted exactly where the start leaves room for the whole text, since
what stands before the piece is a part of it.
-/
theorem Span.behind_of_leavesRoom {row column : UInt32} {before piece after : List Char}
    (room : LeavesRoom row column (before ++ piece ++ after))
    : (behind row column before piece).line.toNat = row.toNat + before.count '\n'
      ∧ (behind row column before piece).column.toNat
        = if '\n' ∈ before then (before.reverse.takeWhile (· ≠ '\n')).length + 1
          else column.toNat + before.length := by
  obtain ⟨rows, columns⟩ := room
  rw [List.append_assoc, List.count_append] at rows
  rw [List.append_assoc, List.length_append] at columns
  exact ⟨toNat_lineBehind (by omega), toNat_columnBehind (by omega)⟩

namespace Position

section

variable {ν : Type} [Add ν] [OfNat ν 1]

theorem advanceBy_append (here : Position ν) (front text : List Char)
    : here.advanceBy (front ++ text) = (here.advanceBy front).advanceBy text :=
  List.foldl_append

theorem advanceBy_append_singleton (here : Position ν) (front : List Char) (c : Char)
    : here.advanceBy (front ++ [c]) = (here.advanceBy front).advance c :=
  advanceBy_append here front [c]

end

/-- A position behind a text is found by counting, by induction on the text from its end. A newline
starts the columns again, so that only the characters behind the last one count.
-/
theorem advanceBy_eq (row column : UInt32) (text : List Char)
    : advanceBy ⟨0, row, column⟩ text
      = ⟨byteLength text, lineBehind row text, columnBehind column text⟩ := by
  induction text using List.reverseRecOn with
  | nil => simp [advanceBy, byteLength, lineBehind, columnBehind]
  | append_singleton text c ih =>
      rw [advanceBy_append_singleton, ih, byteLength_append]
      unfold advance lineBehind columnBehind
      by_cases newline : c = '\n'
      · simp [newline, byteLength, UInt32.add_assoc, UInt32.ofNat_add]
      · by_cases earlier : '\n' ∈ text <;>
          simp [newline, Ne.symm newline, earlier, byteLength, UInt32.add_assoc, UInt32.ofNat_add]

theorem between_advanceBy (row column : UInt32) (front piece : List Char)
    : Span.between (advanceBy ⟨0, row, column⟩ front) (advanceBy ⟨0, row, column⟩ (front ++ piece))
      = .behind row column front piece := by
  rw [advanceBy_eq, advanceBy_eq, byteLength_append]
  rfl

end Position

-----------------------------------------------------------------------------------------
-- One lexeme
-----------------------------------------------------------------------------------------

theorem length_takeWhile_of_append {test : Char → Bool} {text rest : List Char} {length : Nat}
    (whole : ((text ++ rest).takeWhile test).length = length) (inside : length ≤ text.length)
    : (text.takeWhile test).length = length := by
  rw [List.takeWhile_append] at whole
  split at whole
  · rename_i all
    rw [List.length_append] at whole
    omega
  · exact whole

namespace Symbol

/-- A symbol at the start of a text is its first characters. -/
theorem prefix_of_leading? {text : List Char} {mark : Symbol} (found : leading? text = some mark)
    : mark.text.toList <+: text := by
  unfold leading? at found
  split at found <;> first
    | (obtain rfl := Option.some.inj found
       exact ⟨_, rfl⟩)
    | cases found

theorem leading?_of_leading? {c d : Char} {left : List Char} {mark : Symbol}
    (found : leading? (c :: d :: left) = some mark) (right : List Char)
    : leading? (c :: d :: right) = some mark := by
  unfold leading? at found
  split at found
  case h_5 | h_6 | h_7 =>
    rename_i longer whole
    obtain ⟨rfl, rfl⟩ := List.cons.inj whole
    have second : d ≠ '=' := by
      rintro rfl
      exact longer left rfl
    rw [← found]
    simp [leading?, second]
  case h_18 => cases found
  all_goals
    rename_i whole
    obtain ⟨rfl, rest⟩ := List.cons.inj whole
    first
      | exact found
      | obtain ⟨rfl, _⟩ := List.cons.inj rest
        exact found

/-- Which symbol a text starts with is told by its first two characters. -/
theorem leading?_cons_cons (c d : Char) (text : List Char)
    : leading? (c :: d :: text) = leading? [c, d] :=
  Option.ext fun _ => ⟨fun found => leading?_of_leading? found [],
    fun found => leading?_of_leading? found text⟩

end Symbol

namespace Token

/-- A lexeme is no longer than the text in which it stands, by cases on its first character. -/
theorem tailLength_le (c : Char) (text : List Char) : tailLength c text ≤ text.length := by
  unfold tailLength
  split
  · exact (List.takeWhile_sublist _).length_le
  · split
    · exact (List.takeWhile_sublist _).length_le
    · split
      · rename_i mark found
        have inside := (Symbol.prefix_of_leading? found).length_le
        rw [String.length_toList, List.length_cons] at inside
        omega
      · exact Nat.zero_le _

/-- A lexeme keeps its length where text behind it is cut off, for a lexeme is found by its own
characters and the one behind it.
-/
theorem tailLength_of_append {c : Char} {text rest : List Char} {length : Nat}
    (whole : tailLength c (text ++ rest) = length) (inside : length ≤ text.length)
    : tailLength c text = length := by
  unfold tailLength at whole
  split at whole
  · rename_i digit
    rw [tailLength, if_pos digit]
    exact length_takeWhile_of_append whole inside
  · rename_i notDigit
    split at whole
    · rename_i begins
      rw [tailLength, if_neg notDigit, if_pos begins]
      exact length_takeWhile_of_append whole inside
    · rename_i notWord
      cases text with
      | nil =>
          have none := tailLength_le c []
          rw [List.length_nil] at none inside
          omega
      | cons d text =>
          rw [List.cons_append, Symbol.leading?_cons_cons] at whole
          rw [tailLength, if_neg notDigit, if_neg notWord, Symbol.leading?_cons_cons]
          exact whole

/-- The lexeme that a character begins takes a first part of what follows the character. -/
theorem exists_tail (c : Char) (text : List Char)
    : ∃ tail after, text = tail ++ after ∧ tailLength c (tail ++ after) = tail.length := by
  refine ⟨text.take (tailLength c text), text.drop (tailLength c text), ?_, ?_⟩
  · rw [List.take_append_drop]
  · rw [List.take_append_drop, List.length_take_of_le (tailLength_le c text)]

end Token

/-- What holds of every text that is made of blanks and lexemes holds of every text, by induction on
the length of the text. This is the recursion of the lexer, with the lexeme that a character begins
split off.
-/
theorem lexeme_induction {motive : List Char → Prop} (nil : motive [])
    (blank : ∀ c text, Text.isBlank c = true → motive text → motive (c :: text))
    (lexeme
      : ∀ c tail after, Text.isBlank c = false
        → Token.tailLength c (tail ++ after) = tail.length
        → motive after → motive (c :: (tail ++ after)))
    (text : List Char)
    : motive text := by
  match text with
  | [] => exact nil
  | c :: text =>
      by_cases visible : Text.isBlank c = true
      · exact blank c text visible (lexeme_induction nil blank lexeme text)
      · obtain ⟨tail, after, cut, length⟩ := Token.exists_tail c text
        have shorter : after.length ≤ text.length := by
          rw [cut, List.length_append]
          exact Nat.le_add_left _ _
        rw [cut]
        exact lexeme c tail after (Bool.eq_false_iff.mpr visible) length
          (lexeme_induction nil blank lexeme after)
termination_by text.length

-----------------------------------------------------------------------------------------
-- Pieces on their own
-----------------------------------------------------------------------------------------

/-- A text is read as a single token, wherever it stands. -/
def SpellsAlone (text : List Char) (token : Token) : Prop :=
  ∀ here : Position UInt32, ∃ line, TokenLine.read here text = .ok line
    ∧ line.lexemes.map (·.token) = [token]

/-- A text is refused for the given cause, wherever it stands. -/
def RefusedAlone (text : List Char) (cause : ParseError.Cause) : Prop :=
  ∀ here : Position UInt32, ∃ span, TokenLine.read here text = .error ⟨cause, span⟩

/-- A text is read without an error, wherever it stands. -/
def Readable (text : List Char) : Prop :=
  ∀ here : Position UInt32, ∃ line, TokenLine.read here text = .ok line

section Alone

variable {c : Char} {tail after : List Char} (visible : Text.isBlank c = false)
  (length : Token.tailLength c (tail ++ after) = tail.length)

include length

theorem tailLength_alone : Token.tailLength c (tail ++ []) = tail.length := by
  rw [List.append_nil]
  exact Token.tailLength_of_append length (Nat.le_refl _)

include visible

/-- A lexeme that spells a token spells it when it stands alone. -/
theorem spellsAlone_of_ofLexeme {token : Token} (spelled : Token.ofLexeme c tail = .ok token)
    : SpellsAlone (c :: tail) token := by
  intro here
  have reads := TokenLine.read_visible visible (tailLength_alone length) here
  rw [spelled, List.append_nil, TokenLine.read] at reads
  exact ⟨_, reads, rfl⟩

/-- A lexeme that is refused is refused when it stands alone, at its own place. -/
theorem refusedAlone_of_ofLexeme {cause : ParseError.Cause}
    (refused : Token.ofLexeme c tail = .error cause)
    : RefusedAlone (c :: tail) cause := by
  intro here
  have reads := TokenLine.read_visible visible (tailLength_alone length) here
  rw [refused, List.append_nil] at reads
  exact ⟨_, reads⟩

/-- A text that is cut behind a first lexeme is read whenever the part behind it is. The lexeme is
the same, however much stands behind it.
-/
theorem readable_of_ofLexeme {token : Token} (spelled : Token.ofLexeme c tail = .ok token)
    {before rest : List Char} (cut : after = before ++ rest) (readable : Readable before)
    : Readable (c :: tail ++ before) := by
  intro here
  obtain ⟨line, reads⟩ := readable (here.advanceBy (c :: tail))
  have kept : Token.tailLength c (tail ++ before) = tail.length := by
    rw [cut, ← List.append_assoc] at length
    refine Token.tailLength_of_append length ?_
    rw [List.length_append]
    exact Nat.le_add_right _ _
  have whole := TokenLine.read_visible visible kept here
  rw [spelled] at whole
  exact ⟨_, whole.trans (by rw [reads]; rfl)⟩

end Alone

theorem readable_of_isBlank {c : Char} {before : List Char} (blank : Text.isBlank c = true)
    (readable : Readable before)
    : Readable (c :: before) := by
  intro here
  rw [TokenLine.read, if_pos blank]
  exact readable (here.advance c)

-----------------------------------------------------------------------------------------
-- Texts cut into pieces
-----------------------------------------------------------------------------------------

/-- A text that stands behind another is cut into blanks and pieces, and the pieces are the given
lexemes.
-/
inductive Tiled (row column : UInt32) : List Char → List Char → List (Lexeme UInt32) → Prop where
  | nil (front : List Char) : Tiled row column front [] []
  | blank {front text : List Char} {c : Char} {lexemes : List (Lexeme UInt32)}
      (blank : Text.isBlank c = true) (rest : Tiled row column (front ++ [c]) text lexemes)
      : Tiled row column front (c :: text) lexemes
  | piece {front own after : List Char} {token : Token} {lexemes : List (Lexeme UInt32)}
      (visible : own ≠ []) (spells : SpellsAlone own token)
      (rest : Tiled row column (front ++ own) after lexemes)
      : Tiled row column front (own ++ after)
          (⟨token, .behind row column front own⟩ :: lexemes)

/-- Reading a text yields its pieces and the place where it ends, by induction on the blanks and
lexemes of the text. What stands before the text is kept as the front, from which all places are
counted.
-/
theorem tiled_of_read {row column : UInt32} {front text : List Char} {line : TokenLine UInt32}
    (read : TokenLine.read (.advanceBy ⟨0, row, column⟩ front) text = .ok line)
    : Tiled row column front text line.lexemes
        ∧ line.stop = .behind row column (front ++ text) [] := by
  induction text using lexeme_induction generalizing front line with
  | nil =>
      rw [TokenLine.read] at read
      obtain rfl := Except.ok.inj read
      refine ⟨.nil front, ?_⟩
      rw [List.append_nil, ← Position.between_advanceBy, List.append_nil]
  | blank c text blank ih =>
      rw [TokenLine.read, if_pos blank, ← Position.advanceBy_append_singleton] at read
      obtain ⟨tiled, stop⟩ := ih read
      exact ⟨.blank blank tiled, by rw [stop, List.append_assoc]; rfl⟩
  | lexeme c tail after visible length ih =>
      rw [TokenLine.read_visible visible length] at read
      split at read
      · cases read
      · rename_i token spelled
        obtain ⟨others, more, done⟩ := bind_eq_ok_iff.mp read
        obtain rfl := Except.ok.inj done
        rw [← Position.advanceBy_append] at more
        obtain ⟨tiled, stop⟩ := ih more
        rw [← Position.advanceBy_append, Position.between_advanceBy]
        refine ⟨?_, ?_⟩
        · have spells := spellsAlone_of_ofLexeme visible length spelled
          exact .piece (List.cons_ne_nil c tail) spells tiled
        · rw [TokenLine.after, stop, List.append_assoc]
          rfl

/-- The span of the lexeme holds the character that follows the given part of a text. -/
def Lexeme.Covers {ν : Type} (lexeme : Lexeme ν) (before : List Char) (c : Char) : Prop :=
  lexeme.span.start ≤ byteLength before ∧ byteLength before + c.utf8Size ≤ lexeme.span.stop

namespace Tiled

variable {row column : UInt32} {front text : List Char} {lexemes : List (Lexeme UInt32)}
  (tiled : Tiled row column front text lexemes)

include tiled

/-- Every lexeme is a piece of the text that spells its token, at the place of the piece; by
induction on the pieces.
-/
theorem exists_piece
    : ∀ lexeme ∈ lexemes, ∃ before own after, text = before ++ own ++ after ∧ own ≠ []
        ∧ lexeme.span = .behind row column (front ++ before) own
        ∧ SpellsAlone own lexeme.token := by
  induction tiled with
  | nil front => exact nofun
  | @blank front text c lexemes blank rest ih =>
      intro lexeme member
      obtain ⟨before, own, after, cut, visible, span, spells⟩ := ih lexeme member
      refine ⟨c :: before, own, after, by rw [cut]; rfl, visible, ?_, spells⟩
      rw [span, List.append_assoc]
      rfl
  | @piece front own after token lexemes visible spells rest ih =>
      refine List.forall_mem_cons.mpr ⟨⟨[], own, after, rfl, visible, ?_, spells⟩, ?_⟩
      · rw [List.append_nil]
      · intro lexeme member
        obtain ⟨before, other, behind, cut, visible, span, spells⟩ := ih lexeme member
        refine ⟨own ++ before, other, behind, ?_, visible, ?_, spells⟩
        · rw [cut, List.append_assoc, List.append_assoc, List.append_assoc]
        · rw [span, List.append_assoc]

/-- No lexeme starts before the text. -/
theorem start_ge : ∀ lexeme ∈ lexemes, byteLength front ≤ lexeme.span.start := by
  intro lexeme member
  obtain ⟨before, own, after, _, _, span, _⟩ := tiled.exists_piece lexeme member
  rw [span, Span.behind, byteLength_append]
  exact Nat.le_add_right _ _

/-- The text of a lexeme occupies some bytes. -/
theorem nonempty : ∀ lexeme ∈ lexemes, lexeme.span.start < lexeme.span.stop := by
  intro lexeme member
  obtain ⟨before, own, after, _, visible, span, _⟩ := tiled.exists_piece lexeme member
  rw [span]
  exact Nat.lt_add_of_pos_right (byteLength_pos visible)

/-- Each lexeme ends before the next one starts, by induction on the pieces. The bytes before a
lexeme are those of all pieces and blanks before it.
-/
theorem ordered : lexemes.Pairwise fun first second => first.span.stop ≤ second.span.start := by
  induction tiled with
  | nil front => exact .nil
  | blank blank rest ih => exact ih
  | @piece front own after token lexemes visible spells rest ih =>
      refine .cons (fun later member => ?_) ih
      have start := rest.start_ge later member
      rwa [byteLength_append] at start

/-- Every character of the text is a blank or stands in a lexeme, by induction on the pieces: the
text is made of nothing else.
-/
theorem blank_or_inside {before after : List Char} {c : Char} (cut : text = before ++ c :: after)
    : Text.isBlank c = true ∨ ∃ lexeme ∈ lexemes, lexeme.Covers (front ++ before) c := by
  induction tiled generalizing before with
  | nil front => simp at cut
  | @blank front text d lexemes blank rest ih =>
      cases before with
      | nil =>
          obtain ⟨rfl, _⟩ := List.cons.inj cut
          exact .inl blank
      | cons e before =>
          obtain ⟨rfl, others⟩ := List.cons.inj cut
          simpa using ih others
  | @piece front own behind token lexemes visible spells rest ih =>
      -- the character stands in a later piece, or in this one
      have later (gap : List Char) (others : behind = gap ++ c :: after)
          (same : before = own ++ gap) (own : Lexeme UInt32)
          : Text.isBlank c = true
            ∨ ∃ lexeme ∈ own :: lexemes, lexeme.Covers (front ++ before) c := by
        rw [same, ← List.append_assoc]
        exact (ih others).imp_right fun ⟨lexeme, member, covers⟩ =>
          ⟨lexeme, List.mem_cons_of_mem _ member, covers⟩
      rcases List.append_eq_append_iff.mp cut with ⟨gap, same, others⟩ | ⟨inner, same, others⟩
      · exact later gap others same _
      · cases inner with
        | nil => exact later [] others.symm (by simpa using same.symm) _
        | cons d inner =>
            obtain ⟨rfl, _⟩ := List.cons.inj others
            refine .inr ⟨_, List.mem_cons_self, ?_⟩
            simp only [Lexeme.Covers, Span.behind, same, byteLength_append, byteLength]
            omega

end Tiled

-----------------------------------------------------------------------------------------
-- Whole texts
-----------------------------------------------------------------------------------------

/-- The tokens of a line are pieces of the text, in order and apart from each other; each spells its
token on its own, has its place counted from the start of the text, and only blanks stand outside
them.
-/
structure TokenLine.Tiles (row column : UInt32) (text : List Char) (line : TokenLine UInt32)
    : Prop where
  pieces
    : ∀ lexeme ∈ line.lexemes, ∃ before own after, text = before ++ own ++ after
        ∧ lexeme.span = .behind row column before own ∧ SpellsAlone own lexeme.token
  nonempty : ∀ lexeme ∈ line.lexemes, lexeme.span.start < lexeme.span.stop
  ordered : line.lexemes.Pairwise fun first second => first.span.stop ≤ second.span.start
  blanks
    : ∀ before c after, text = before ++ c :: after → Text.isBlank c = true
        ∨ ∃ lexeme ∈ line.lexemes, lexeme.Covers before c
  stop : line.stop = .behind row column text []

/-- A text is refused at a piece of it that is refused on its own for the same cause. The part of
the text before the piece is readable, and the place of the piece is counted from the start of the
text.
-/
def ParseError.StopsIn (row column : UInt32) (text : List Char) (error : ParseError UInt32)
    : Prop :=
  ∃ before own after, text = before ++ own ++ after ∧ own ≠ [] ∧ Readable before
    ∧ error.span = .behind row column before own ∧ RefusedAlone own error.cause

/-- The cut at which a text is refused, by induction on the blanks and lexemes before it. These are
read, and the first piece behind them is not.
-/
theorem exists_cut_of_read {row column : UInt32} {front text : List Char}
    {error : ParseError UInt32}
    (read : TokenLine.read (.advanceBy ⟨0, row, column⟩ front) text = .error error)
    : ∃ before own after, text = before ++ own ++ after ∧ own ≠ [] ∧ Readable before
        ∧ error.span = .behind row column (front ++ before) own ∧ RefusedAlone own error.cause := by
  induction text using lexeme_induction generalizing front with
  | nil =>
      rw [TokenLine.read] at read
      cases read
  | blank c text blank ih =>
      rw [TokenLine.read, if_pos blank, ← Position.advanceBy_append_singleton] at read
      obtain ⟨before, own, after, cut, visible, readable, span, refused⟩ := ih read
      refine ⟨c :: before, own, after, by rw [cut]; rfl, visible, ?_, ?_, refused⟩
      · exact readable_of_isBlank blank readable
      · rw [span, List.append_assoc]
        rfl
  | lexeme c tail after visible length ih =>
      rw [TokenLine.read_visible visible length] at read
      split at read
      · rename_i cause spelled
        obtain rfl := Except.error.inj read
        refine ⟨[], c :: tail, after, rfl, List.cons_ne_nil c tail, ?_, ?_, ?_⟩
        · exact fun here => ⟨_, by rw [TokenLine.read]⟩
        · rw [← Position.advanceBy_append, Position.between_advanceBy, List.append_nil]
        · exact refusedAlone_of_ofLexeme visible length spelled
      · rename_i token spelled
        rw [← Position.advanceBy_append] at read
        cases more : TokenLine.read (.advanceBy ⟨0, row, column⟩ (front ++ c :: tail)) after with
        | ok others =>
            rw [more] at read
            cases read
        | error earlier =>
            rw [more] at read
            obtain rfl := Except.error.inj read
            obtain ⟨before, own, behind, cut, piece, readable, span, refused⟩ := ih more
            refine ⟨c :: tail ++ before, own, behind, ?_, piece, ?_, ?_, refused⟩
            · rw [cut]
              simp
            · rw [List.append_assoc] at cut
              exact readable_of_ofLexeme visible length spelled cut readable
            · rw [span, List.append_assoc]

/-- A text is cut into its tokens, or refused at the first piece that spells none.

Its start may be anywhere: the characters before a piece are counted on from the line and the column
of the start in 32 bits, and exactly so where the start leaves room for them.
-/
theorem TokenLine.tiles_or_stops (row column : UInt32) (text : List Char)
    : (match TokenLine.read ⟨0, row, column⟩ text with
        | .ok line => line.Tiles row column text
        | .error error => error.StopsIn row column text)
      ∧ (LeavesRoom row column text
        → ∀ before piece after, text = before ++ piece ++ after
          → (Span.behind row column before piece).line.toNat = row.toNat + before.count '\n'
            ∧ (Span.behind row column before piece).column.toNat
              = if '\n' ∈ before then (before.reverse.takeWhile (· ≠ '\n')).length + 1
                else column.toNat + before.length) := by
  refine ⟨?_, fun room before piece after cut => Span.behind_of_leavesRoom (cut ▸ room)⟩
  split
  · rename_i line reads
    have fromStart : read (.advanceBy ⟨0, row, column⟩ []) text = .ok line := reads
    obtain ⟨tiled, stop⟩ := tiled_of_read fromStart
    refine ⟨fun lexeme member => ?_, tiled.nonempty, tiled.ordered, ?_, stop⟩
    · obtain ⟨before, own, after, cut, _, span, spells⟩ := tiled.exists_piece lexeme member
      exact ⟨before, own, after, cut, span, spells⟩
    · exact fun before c after cut => tiled.blank_or_inside cut
  · rename_i error reads
    have fromStart : read (.advanceBy ⟨0, row, column⟩ []) text = .error error := reads
    exact exists_cut_of_read fromStart

/-- Bytes and columns part behind a character of two bytes; a newline starts the columns anew. -/
example
    : (TokenLine.read (⟨0, 4, 7⟩ : Position UInt32) ['é', ' ', '>', '=', '\n', 'b']).toOption
      = some ⟨[⟨.word "é", 0, 2, 4, 7⟩, ⟨.symbol .greaterEqual, 3, 5, 4, 9⟩,
          ⟨.word "b", 6, 7, 5, 1⟩], ⟨7, 7, 5, 2⟩⟩ := by
  decide +kernel

/-- Behind the last column of all comes the column zero. -/
example
    : (TokenLine.read (⟨0, 1, 4294967295⟩ : Position UInt32) ['a', ' ', 'b']).toOption
      = some ⟨[⟨.word "a", 0, 1, 1, 4294967295⟩, ⟨.word "b", 2, 3, 1, 1⟩], ⟨3, 3, 1, 2⟩⟩ := by
  decide +kernel

end Dispatch
