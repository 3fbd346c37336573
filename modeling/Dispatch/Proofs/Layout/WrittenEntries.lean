import Dispatch.Problem.Parser
import Dispatch.Proofs.Declarations.SpelledNames
import Dispatch.Proofs.Printing.ValueCharacters

/-!
Entries of a problem that are written out. Values stand on the line of their name, separated by
commas, and rows of fields on the lines after it; a star stands before each later batch. Such a
document is read as the entries it was written from, since no line of a row looks like a name or a
star, and no value has a comma of its own.
-/

namespace Dispatch

-----------------------------------------------------------------------------------------
-- Entries to be written
-----------------------------------------------------------------------------------------

/-- Values on the line of a name, or rows of fields on the lines after it. -/
inductive WrittenEntry where
  | values (name : String) (values : List Value)
  | rows (name : String) (rows : List (List Value))

namespace WrittenEntry

def name : WrittenEntry → String
  | .values name _ | .rows name _ => name

/-- The literals that are written, one for each value or row. -/
def literals : WrittenEntry → List Literal
  | .values _ given => given.map Value.literal
  | .rows _ given => given.map fun row => (Value.seq row).literal

def lines : WrittenEntry → List (List Char)
  | .values name given => [(name ++ ": " ++ joined ", " (Value.texts given)).toList]
  | .rows name given => (name ++ ":").toList :: given.map fun row => (Value.seq row).text.toList

end WrittenEntry

/-- The lines of the entries of the start and of each later batch. -/
def problemLines (start : List WrittenEntry) (batches : List (List WrittenEntry))
    : List (List Char) :=
  start.flatMap (·.lines) ++ batches.flatMap fun batch => ['*'] :: batch.flatMap (·.lines)

/-- The document with the given entries at the start and in each later batch. -/
def problemText (start : List WrittenEntry) (batches : List (List WrittenEntry)) : List Char :=
  ("Start Problem:".toList :: problemLines start batches ++ ["End Problem".toList]).flatMap
    (· ++ ['\n'])

/-- A name under which an entry can be written: it starts with a letter, and nothing in it would end
it.
-/
structure EntryName (name : String) : Prop extends NameText name where
  letter : Text.startsWith Text.isAlphabetic name.toList = true
  colon : ':' ∉ name.toList

/-- A value that can be stored: it is proper and no sequence. -/
structure Value.Stored (value : Value) : Prop where
  proper : value.Proper
  flat : value.type ≠ .seq

/-- The name and the values of the entry can be written; a row has a field. -/
def WrittenEntry.Readable : WrittenEntry → Prop
  | .values name given => EntryName name ∧ ∀ value ∈ given, value.Stored
  | .rows name given => EntryName name ∧ ∀ row ∈ given, row ≠ [] ∧ ∀ value ∈ row, value.Stored

-----------------------------------------------------------------------------------------
-- Lines of entries
-----------------------------------------------------------------------------------------

namespace Line

/-- The texts of the pieces of a line are the parts it is cut into, trimmed, by induction on the
parts. Where they start plays no role.
-/
theorem texts_pieces (line : Line) (skipped : Nat) (parts : List (List Char))
    : (line.pieces skipped parts).map (·.text) = parts.map Text.trim := by
  induction parts generalizing skipped with
  | nil => rfl
  | cons part parts ih => rw [pieces, List.map_cons, ih]; rfl

/-- The pieces of values that are separated by commas are the values, by induction on them. The cut
is made at each comma outside of brackets and strings, and the text of a value has none there.
-/
theorem texts_commaPieces {line : Line} {values : List Value} (some : values ≠ [])
    (flat : ∀ value ∈ values, value.type ≠ .seq)
    (same : line.text = (joined ", " (Value.texts values)).toList)
    : line.commaPieces.map (·.text) = values.map (·.text.toList) := by
  have cut (value : Value) (others : List Value) (flat : ∀ one ∈ value :: others, one.type ≠ .seq)
      : Text.splitTopLevel 0 (joined ", " (Value.texts (value :: others))).toList
        = value.text.toList :: others.map (' ' :: ·.text.toList) := by
    induction others generalizing value with
    | nil =>
        obtain ⟨flat, _⟩ := List.forall_mem_cons.mp flat
        have single := Text.splitTopLevel_append (Value.not_mem_text flat (by decide)) 0 []
        rw [List.append_nil, Value.foldl_depthAfter_text flat, Text.splitTopLevel,
          Text.foldr_growFirst, List.append_nil] at single
        exact single
    | cons next others ih =>
        obtain ⟨flat, othersFlat⟩ := List.forall_mem_cons.mp flat
        have whole : (joined ", " (Value.texts (value :: next :: others))).toList
            = value.text.toList
              ++ ',' :: ' ' :: (joined ", " (Value.texts (next :: others))).toList := by
          simp [Value.texts, joined]
        rw [whole, Text.splitTopLevel_append (Value.not_mem_text flat (by decide)),
          Value.foldl_depthAfter_text flat, Text.splitTopLevel, if_pos (by decide),
          Text.foldr_growFirst, List.append_nil, Text.splitTopLevel, if_neg (by decide)]
        have blank : Text.depthAfter 0 ' ' = 0 := by decide
        rw [blank, ih next othersFlat]
        rfl
  obtain ⟨value, others, rfl⟩ := List.exists_cons_of_ne_nil some
  rw [commaPieces, texts_pieces, same, cut value others flat, List.map_cons,
    (Value.trimmed_text value).trim_eq, List.map_map, List.map_cons]
  congr 1
  refine List.map_congr_left fun other _ => ?_
  exact (Text.trim_cons_blank (by decide) _).trans (Value.trimmed_text other).trim_eq

end Line

namespace EntryName

variable {name : String}

/-- The name of an entry has a character, as it begins with a letter. -/
theorem nonempty (entry : EntryName name) : name.toList ≠ [] := by
  intro empty
  have letter := entry.letter
  rw [empty] at letter
  cases letter

theorem startsWith (entry : EntryName name) (rest : List Char)
    : Text.startsWith Text.isAlphabetic (name.toList ++ rest) = true := by
  have letter := entry.letter
  unfold Text.startsWith at letter ⊢
  rwa [List.head?_append_of_ne_nil _ entry.nonempty]

/-- The line of a name is trimmed up to what stands behind the colon, which is what was given when
it is trimmed in turn.
-/
theorem exists_after (entry : EntryName name) {given : List Char} (trimmed : Text.Trimmed given)
    : ∃ after, Text.trim (name.toList ++ ':' :: ' ' :: given) = name.toList ++ ':' :: after
        ∧ Text.trim after = given := by
  have cut := @Text.trim_marked name.toList given ':' entry.nonempty entry.trimmed.first (by decide)
    trimmed.last
  refine ⟨_, cut, ?_⟩
  split
  · rename_i empty
    exact empty.symm
  · exact (Text.trim_cons_blank (by decide) _).trans trimmed.trim_eq

theorem trim_header (entry : EntryName name)
    : Text.trim (name.toList ++ [':']) = name.toList ++ [':'] := by
  obtain ⟨c, rest, chars⟩ := List.exists_cons_of_ne_nil entry.nonempty
  have first : Text.isBlank c = false := entry.trimmed.first c (by rw [chars]; rfl)
  rw [chars]
  exact (Text.trimmed_between ⟨first, by decide⟩ rest).trim_eq

/-- A line that begins with the name and a colon starts an entry of the name. -/
theorem header?_eq (entry : EntryName name) {line : Line} {after : List Char}
    (same : line.text = name.toList ++ ':' :: after)
    : StartEntry.header? line
      = some (name, line.piece (name.toList.length + 1) after) := by
  have cut := Text.cutAtFirst?_eq_some_iff.mpr ⟨same, entry.colon⟩
  have spelled : (line.piece 0 name.toList).string = name := by
    rw [Line.string, Line.piece, entry.trimmed.trim_eq, String.ofList_toList]
  rw [StartEntry.header?, cut, same, if_pos (entry.startsWith _), Option.map_some]
  exact congrArg some (Prod.ext spelled rfl)

end EntryName

namespace StartValue

/-- The value is the literal and has no index. -/
def Says (literal : Literal) (value : StartValue) : Prop :=
  value.index = none ∧ value.literal = literal

theorem ofLine_written {line : Line} {value : Value} (proper : value.Proper)
    (same : line.text = value.text.toList)
    : Literal.ofLine line = .ok value.literal := by
  rw [Literal.ofLine, same, Literal.ofText_text proper]

/-- Pieces with the texts of values are read as these, by induction on them. The values on the line
of a name have no indices, so each piece is read as a literal.
-/
theorem ofPieces_texts {values : List Value} (stored : ∀ value ∈ values, value.Proper)
    {pieces : List Line} (same : pieces.map (·.text) = values.map (·.text.toList))
    : ∃ given, ofPieces pieces = .ok given
        ∧ List.Forall₂ Says (values.map Value.literal) given := by
  induction values generalizing pieces with
  | nil =>
      obtain rfl := List.map_eq_nil_iff.mp same
      exact ⟨[], rfl, .nil⟩
  | cons value values ih =>
      obtain ⟨piece, rest, rfl, text, others⟩ := List.map_eq_cons_iff.mp same
      obtain ⟨proper, stored⟩ := List.forall_mem_cons.mp stored
      obtain ⟨given, read, matched⟩ := ih stored others
      replace text : piece.text = value.text.toList := text
      have nonempty : piece.text ≠ [] := by
        obtain ⟨c, tail, chars, _⟩ := Literal.exists_cons_text value
        rw [text, chars]
        exact List.cons_ne_nil _ _
      refine ⟨⟨none, value.literal, piece.number⟩ :: given, ?_, .cons ⟨rfl, rfl⟩ matched⟩
      rw [ofPieces, if_neg nonempty]
      refine bind_eq_ok_iff.mpr ⟨_, ofLine_written proper text, ?_⟩
      exact bind_eq_ok_iff.mpr ⟨_, read, rfl⟩

/-- The line of a row is a value line: it begins with a bracket, so it is neither the line of a name
nor a star.
-/
theorem ofLine_row {line : Line} {row : List Value} (some : row ≠ [])
    (proper : ∀ value ∈ row, value.Proper) (same : line.text = (Value.seq row).text.toList)
    : StartEntry.header? line = none ∧ line.holds "*" = false
      ∧ ofLine line = .ok ⟨none, (Value.seq row).literal, line.number⟩ := by
  have read := @ofLine_written line (.seq row) ⟨some, Value.allProper_iff.mpr proper⟩ same
  have start := same
  rw [Literal.text_seq] at start
  refine ⟨?_, ?_, ?_⟩
  · have letter : ¬ Text.isAlphabetic '(' = true := by decide
    rw [StartEntry.header?, start]
    exact if_neg letter
  · rw [Line.holds, start]
    exact decide_eq_false (by simp)
  · have bare : ofLine.bare line = .ok ⟨none, (Value.seq row).literal, line.number⟩ :=
      bind_eq_ok_iff.mpr ⟨_, read, rfl⟩
    have stop : line.text.dropWhile Char.isDigit = line.text := by
      rw [start]
      exact List.dropWhile_cons_of_neg (by decide)
    rw [ofLine, stop, start]
    exact bare

end StartValue

-----------------------------------------------------------------------------------------
-- Reading entries
-----------------------------------------------------------------------------------------

/-- The entry has the name and the literals that were written, without indices. -/
structure WrittenEntry.Gives (written : WrittenEntry) (entry : StartEntry) : Prop where
  name : entry.name = written.name
  values : List.Forall₂ StartValue.Says written.literals entry.values

namespace Problem

variable {rest : List Line} {current : List StartEntry} {iterations : List (List StartEntry)}

/-- Rows are read as value lines of the entry before them, by induction on the rows. What follows
them is read first, as the reader hands back the value lines that it finds before an entry.
-/
theorem readBatches_rows {rows : List (List Value)}
    (readable : ∀ row ∈ rows, row ≠ [] ∧ ∀ value ∈ row, value.Stored) {lines : List Line}
    (same : lines.map (·.text) = rows.map fun row => (Value.seq row).text.toList)
    (others : readBatches true rest = .ok ([], current :: iterations))
    : ∃ values, List.Forall₂ StartValue.Says (rows.map fun row => (Value.seq row).literal) values
        ∧ readBatches true (lines ++ rest) = .ok (values, current :: iterations) := by
  induction rows generalizing lines with
  | nil =>
      obtain rfl := List.map_eq_nil_iff.mp same
      exact ⟨[], .nil, others⟩
  | cons row rows ih =>
      obtain ⟨line, lines, rfl, text, linesSame⟩ := List.map_eq_cons_iff.mp same
      obtain ⟨⟨some, stored⟩, readable⟩ := List.forall_mem_cons.mp readable
      obtain ⟨values, matched, read⟩ := ih readable linesSame
      obtain ⟨header, star, one⟩ :=
        StartValue.ofLine_row some (fun value member => (stored value member).proper) text
      refine ⟨⟨none, (Value.seq row).literal, line.number⟩ :: values,
        .cons ⟨rfl, rfl⟩ matched, ?_⟩
      rw [List.cons_append, readBatches, star, header]
      exact bind_eq_ok_iff.mpr ⟨_, one, bind_eq_ok_iff.mpr ⟨_, read, rfl⟩⟩

/-- The line of a name starts an entry, whatever stands before it. -/
theorem readBatches_header {line : Line} {name : String} (named : EntryName name)
    {after : List Char} (same : line.text = name.toList ++ ':' :: after)
    {first more : List StartValue}
    (read
      : StartValue.ofPieces (line.piece (name.toList.length + 1) after).commaPieces = .ok first)
    (others : readBatches true rest = .ok (more, current :: iterations)) (inEntry : Bool)
    : readBatches inEntry (line :: rest)
      = .ok ([], (⟨name, first ++ more, line.number⟩ :: current) :: iterations) := by
  have star : line.holds "*" = false := by
    refine decide_eq_false fun star => ?_
    have letter := named.startsWith (':' :: after)
    rw [← same, star] at letter
    exact absurd letter (by decide)
  rw [readBatches, star, named.header?_eq same]
  exact bind_eq_ok_iff.mpr ⟨_, read, bind_eq_ok_iff.mpr ⟨_, others, rfl⟩⟩

theorem commaPieces_of_blank {line : Line} (blank : line.text = [])
    : StartValue.ofPieces line.commaPieces = .ok [] := by
  rw [Line.commaPieces, blank]
  rfl

/-- The lines of an entry are read as the entry, whatever stands before them. The cases are those of
the entry: values on the line of the name, or rows below it.
-/
theorem readBatches_entry {written : WrittenEntry} (readable : written.Readable)
    {lines : List Line} (same : lines.map (·.text) = written.lines.map Text.trim)
    (others : readBatches true rest = .ok ([], current :: iterations))
    : ∃ entry, written.Gives entry
        ∧ ∀ inEntry, readBatches inEntry (lines ++ rest)
          = .ok ([], (entry :: current) :: iterations) := by
  cases written with
  | values name given =>
      obtain ⟨named, stored⟩ := readable
      obtain ⟨line, _, rfl, text, none⟩ := List.map_eq_cons_iff.mp same
      obtain rfl := List.map_eq_nil_iff.mp none
      obtain ⟨after, header, behind⟩ := named.exists_after (Value.trimmed_texts given)
      have start : line.text = name.toList ++ ':' :: after := by
        rw [text, ← header]
        simp
      have pieceText : (line.piece (name.toList.length + 1) after).text
          = (joined ", " (Value.texts given)).toList :=
        behind
      obtain ⟨first, read, matched⟩
          : ∃ first, StartValue.ofPieces (line.piece (name.toList.length + 1) after).commaPieces
              = .ok first ∧ List.Forall₂ StartValue.Says (given.map Value.literal) first := by
        cases given with
        | nil => exact ⟨[], commaPieces_of_blank pieceText, .nil⟩
        | cons value given =>
            exact StartValue.ofPieces_texts (fun one member => (stored one member).proper)
              (Line.texts_commaPieces (List.cons_ne_nil _ _)
                (fun one member => (stored one member).flat) pieceText)
      exact ⟨⟨name, first ++ [], line.number⟩, ⟨rfl, by rwa [List.append_nil]⟩,
        readBatches_header named start read others⟩
  | rows name given =>
      obtain ⟨named, readable⟩ := readable
      obtain ⟨line, lines, rfl, text, linesSame⟩ := List.map_eq_cons_iff.mp same
      have start : line.text = name.toList ++ ':' :: [] := by
        rw [text, String.toList_append]
        exact named.trim_header
      rw [List.map_map] at linesSame
      have rowTexts : lines.map (·.text) = given.map fun row => (Value.seq row).text.toList := by
        rw [linesSame]
        exact List.map_congr_left fun row _ => (Value.trimmed_text (.seq row)).trim_eq
      obtain ⟨values, matched, read⟩ := readBatches_rows readable rowTexts others
      exact ⟨⟨name, values, line.number⟩, ⟨rfl, matched⟩,
        readBatches_header named start (commaPieces_of_blank rfl) read⟩

/-- Entries are read in order, by induction on them. -/
theorem readBatches_entries {written : List WrittenEntry}
    (readable : ∀ one ∈ written, one.Readable) {lines : List Line}
    (same : lines.map (·.text) = (written.flatMap (·.lines)).map Text.trim)
    (others : ∀ inEntry, readBatches inEntry rest = .ok ([], current :: iterations))
    : ∃ entries, List.Forall₂ WrittenEntry.Gives written entries
        ∧ ∀ inEntry, readBatches inEntry (lines ++ rest)
          = .ok ([], (entries ++ current) :: iterations) := by
  induction written generalizing lines with
  | nil =>
      obtain rfl := List.map_eq_nil_iff.mp same
      exact ⟨[], .nil, others⟩
  | cons one written ih =>
      rw [List.flatMap_cons, List.map_append] at same
      obtain ⟨own, lines, rfl, ownSame, linesSame⟩ := List.map_eq_append_iff.mp same
      obtain ⟨oneReadable, readable⟩ := List.forall_mem_cons.mp readable
      obtain ⟨entries, gives, read⟩ := ih readable linesSame
      obtain ⟨entry, entryGives, entryRead⟩ := readBatches_entry oneReadable ownSame (read true)
      refine ⟨entry :: entries, .cons entryGives gives, fun inEntry => ?_⟩
      rw [List.append_assoc, entryRead inEntry]
      rfl

/-- Batches are read in order, each behind its star, by induction on them. -/
theorem readBatches_batches {batches : List (List WrittenEntry)}
    (readable : ∀ batch ∈ batches, ∀ one ∈ batch, one.Readable) {lines : List Line}
    (same
      : lines.map (·.text)
        = (batches.flatMap fun batch => ['*'] :: batch.flatMap (·.lines)).map Text.trim)
    : ∃ iterations, List.Forall₂ (List.Forall₂ WrittenEntry.Gives) batches iterations
        ∧ ∀ inEntry, readBatches inEntry lines = .ok ([], [] :: iterations) := by
  induction batches generalizing lines with
  | nil =>
      obtain rfl := List.map_eq_nil_iff.mp same
      exact ⟨[], .nil, fun _ => rfl⟩
  | cons batch batches ih =>
      rw [List.flatMap_cons, List.cons_append, List.map_cons, List.map_append] at same
      obtain ⟨star, behind, rfl, starText, behindSame⟩ := List.map_eq_cons_iff.mp same
      obtain ⟨own, lines, rfl, ownSame, linesSame⟩ := List.map_eq_append_iff.mp behindSame
      obtain ⟨batchReadable, readable⟩ := List.forall_mem_cons.mp readable
      obtain ⟨iterations, gives, read⟩ := ih readable linesSame
      obtain ⟨entries, entriesGive, entriesRead⟩ :=
        readBatches_entries batchReadable ownSame read
      refine ⟨(entries ++ []) :: iterations, .cons ?_ gives, fun inEntry => ?_⟩
      · rwa [List.append_nil]
      · have starred : star.holds "*" = true := by
          rw [Line.holds, starText]
          decide
        rw [readBatches, starred, if_pos rfl]
        exact bind_eq_ok_iff.mpr ⟨_, entriesRead false, rfl⟩

end Problem

/-- A line of code without a comment that does not close a problem. -/
def PlainLine (line : List Char) : Prop :=
  (Text.Plain line ∧ Text.trim line ≠ []) ∧ Text.trim line ≠ "End Problem".toList

/-- A problem is read as the lines between its first and its last. None of them closes the document,
so that its end is the last line.
-/
theorem Document.body_of_frame {lines : List (List Char)} (plain : ∀ line ∈ lines, PlainLine line)
    : ∃ inner, body .problem (Line.ofSource
          (("Start Problem:".toList :: lines ++ ["End Problem".toList]).flatMap (· ++ ['\n'])))
        = .ok inner
        ∧ inner.map (·.text) = lines.map Text.trim := by
  have code
      : ∀ line ∈ "Start Problem:".toList :: lines ++ ["End Problem".toList],
          Text.Plain line ∧ Text.trim line ≠ [] := by
    refine List.forall_mem_append.mpr ⟨List.forall_mem_cons.mpr
      ⟨⟨⟨by decide, by decide⟩, by decide⟩, ?_⟩,
      List.forall_mem_singleton.mpr ⟨⟨by decide, by decide⟩, by decide⟩⟩
    exact fun line member => (plain line member).1
  have texts := Line.texts_ofSource code
  generalize Line.ofSource _ = all at texts ⊢
  rw [List.map_append] at texts
  obtain ⟨frame, closing, rfl, frameTexts, closingTexts⟩ := List.map_eq_append_iff.mp texts
  obtain ⟨first, inner, rfl, firstText, innerTexts⟩ := List.map_eq_cons_iff.mp frameTexts
  obtain ⟨last, _, rfl, lastText, none⟩ := List.map_eq_cons_iff.mp closingTexts
  obtain rfl := List.map_eq_nil_iff.mp none
  have start : first.holds "Start Problem:" = true := by
    rw [Line.holds, firstText]
    decide
  have stop : last.holds "End Problem" = true := by
    rw [Line.holds, lastText]
    decide
  have open_ : ∀ line ∈ first :: inner, line.holds "End Problem" = false := by
    refine List.forall_mem_cons.mpr ⟨?_, fun line member => decide_eq_false ?_⟩
    · rw [Line.holds, firstText]
      decide
    · have inside : line.text ∈ lines.map Text.trim := by
        rw [← innerTexts]
        exact List.mem_map_of_mem member
      obtain ⟨written, listed, same⟩ := List.mem_map.mp inside
      rw [← same]
      exact (plain written listed).2
  have left : (first :: (inner ++ [last])).dropWhile (!Line.holds · "End Problem") = [last] := by
    rw [← List.cons_append,
      List.dropWhile_append_of_pos fun line member => by simp [open_ line member],
      List.dropWhile_cons_of_neg (by simp [stop])]
  refine ⟨inner, ?_, innerTexts⟩
  have startTitle : "Start " ++ DocumentKind.problem.title ++ ":" = "Start Problem:" := by decide
  have stopTitle : "End " ++ DocumentKind.problem.title = "End Problem" := by decide
  unfold body
  rw [List.cons_append]
  simp only [startTitle, stopTitle, start, Bool.true_or, Bool.not_true, Bool.false_eq_true,
    if_false, left]
  simp

/-- The lines of an entry are lines of code without comments, and none closes the document. This is
where the characters of the values count: a string has no line break and no comment in it.
-/
theorem WrittenEntry.plain_of_mem_lines {written : WrittenEntry} (readable : written.Readable)
    {line : List Char} (member : line ∈ written.lines)
    : PlainLine line := by
  unfold PlainLine
  -- A header has a colon, which is not in the line that closes the document.
  have headed (text : List Char) {after : List Char} {name : String}
      (same : text = name.toList ++ ':' :: after)
      : text ≠ [] ∧ text ≠ "End Problem".toList := by
    have colon : ':' ∈ text := by simp [same]
    refine ⟨fun empty => ?_, fun closing => ?_⟩
    · rw [empty] at colon
      cases colon
    · rw [closing] at colon
      exact absurd colon (by decide)
  cases written with
  | values name given =>
      obtain ⟨named, stored⟩ := readable
      obtain rfl := List.mem_singleton.mp member
      have flat (value : Value) (inside : value ∈ given) := (stored value inside).flat
      obtain ⟨after, header, _⟩ := named.exists_after (Value.trimmed_texts given)
      have whole : (name ++ ": " ++ joined ", " (Value.texts given)).toList
          = name.toList ++ ':' :: ' ' :: (joined ", " (Value.texts given)).toList := by
        simp
      rw [whole, header]
      obtain ⟨nonempty, open_⟩ := headed (name.toList ++ ':' :: after) rfl
      have comment : '#' ∉ (joined ", " (Value.texts given)).toList :=
        Value.not_mem_texts flat (by decide)
      have newline : '\n' ∉ (joined ", " (Value.texts given)).toList :=
        Value.not_mem_texts flat (by decide)
      refine ⟨⟨⟨?_, ?_⟩, nonempty⟩, open_⟩
      · simp [named.plain.comment, comment]
      · simp [named.plain.newline, newline]
  | rows name given =>
      obtain ⟨named, readable⟩ := readable
      rcases List.mem_cons.mp member with rfl | row
      · have whole : (name ++ ":").toList = name.toList ++ [':'] := by simp
        rw [whole, named.trim_header]
        obtain ⟨nonempty, open_⟩ := headed (name.toList ++ [':']) rfl
        refine ⟨⟨⟨?_, ?_⟩, nonempty⟩, open_⟩
        · simp [named.plain.comment]
        · simp [named.plain.newline]
      · obtain ⟨fields, listed, rfl⟩ := List.mem_map.mp row
        have flat (value : Value) (inside : value ∈ fields) :=
          ((readable fields listed).2 value inside).flat
        rw [(Value.trimmed_text (.seq fields)).trim_eq, Literal.text_seq]
        have comment : '#' ∉ (joined ", " (Value.texts fields)).toList :=
          Value.not_mem_texts flat (by decide)
        have newline : '\n' ∉ (joined ", " (Value.texts fields)).toList :=
          Value.not_mem_texts flat (by decide)
        refine ⟨⟨⟨?_, ?_⟩, List.cons_ne_nil _ _⟩, by simp⟩
        · simp [comment]
        · simp [newline]

theorem LoadError.inPart_eq_ok {α : Type} {document : DocumentKind} {part : String}
    {result : Except ParseError α} {value : α} (read : result = .ok value)
    : inPart document part result = .ok value := by
  rw [read, inPart]

/-- A document of entries that can be written is read as these entries.

The frame is taken off first, and then the entries are read from the last on, batch by batch: each
reading lemma says how a part is read in front of what is read already.
-/
theorem Problem.ofText_problemText {start : List WrittenEntry}
    {batches : List (List WrittenEntry)} (readable : ∀ one ∈ start, one.Readable)
    (batchesReadable : ∀ batch ∈ batches, ∀ one ∈ batch, one.Readable)
    : ∃ problem, ofText (problemText start batches) = .ok problem
        ∧ List.Forall₂ WrittenEntry.Gives start problem.initial
        ∧ List.Forall₂ (List.Forall₂ WrittenEntry.Gives) batches problem.iterations := by
  have plain : ∀ line ∈ problemLines start batches, PlainLine line := by
    intro line member
    rcases List.mem_append.mp member with early | late
    · obtain ⟨written, listed, inside⟩ := List.mem_flatMap.mp early
      exact WrittenEntry.plain_of_mem_lines (readable written listed) inside
    · obtain ⟨batch, among, inside⟩ := List.mem_flatMap.mp late
      rcases List.mem_cons.mp inside with rfl | later
      · exact ⟨⟨⟨by decide, by decide⟩, by decide⟩, by decide⟩
      · obtain ⟨written, listed, inside⟩ := List.mem_flatMap.mp later
        exact WrittenEntry.plain_of_mem_lines (batchesReadable batch among written listed) inside
  obtain ⟨inner, body, texts⟩ := Document.body_of_frame plain
  rw [problemLines, List.map_append] at texts
  obtain ⟨early, late, rfl, earlyTexts, lateTexts⟩ := List.map_eq_append_iff.mp texts
  obtain ⟨iterations, iterationsGive, iterationsRead⟩ :=
    readBatches_batches batchesReadable lateTexts
  obtain ⟨entries, entriesGive, entriesRead⟩ :=
    readBatches_entries readable earlyTexts iterationsRead
  refine ⟨⟨entries, iterations⟩, ?_, entriesGive, iterationsGive⟩
  have read := entriesRead false
  rw [List.append_nil] at read
  exact LoadError.inPart_eq_ok
    (bind_eq_ok_iff.mpr ⟨_, body, bind_eq_ok_iff.mpr ⟨_, read, rfl⟩⟩)

end Dispatch
