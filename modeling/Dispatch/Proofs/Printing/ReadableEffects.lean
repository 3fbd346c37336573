import Dispatch.Proofs.Declarations.LinkedVocabulary
import Dispatch.Proofs.Positions.MarkedEffects
import Dispatch.Proofs.Printing.EffectReading
import Dispatch.Proofs.Reading.BlockGrammar
import Dispatch.Proofs.Reading.TakenLexemes
import Dispatch.Proofs.Scoping.EffectScopes

/-!
What holds of every effect that is read from lines. Its names stand as they are printed, between
single spaces and without blanks at their ends, and what stands before its colon opens no block; so
the effect can be printed on lines of its own.
-/

namespace Dispatch

-----------------------------------------------------------------------------------------
-- Effects that were read
-----------------------------------------------------------------------------------------

/-- The entity type is one whose name stands before a command, where it opens no block and binds
nothing, and its items are in the collection.
-/
structure Vocabulary.Commands (vocabulary : Vocabulary) (entity collection : Nat) : Prop where
  named : vocabulary.entity? (vocabulary.entityName entity) = some entity
  owned : vocabulary.collection? entity = some collection
  segment : Text.Segment (vocabulary.entityName entity).toList
  closed : Text.opensBlock ((vocabulary.entityName entity).toList ++ [' ']) = false
  unbound : Text.opensBinding ((vocabulary.entityName entity).toList ++ [' ']) = false

/-- The entity type is one whose name stands in the header of a loop over ids. -/
structure Vocabulary.Iterates (vocabulary : Vocabulary) (entity : Nat) : Prop where
  named : vocabulary.entity? (vocabulary.entityName entity) = some entity
  plain : Text.Plain (vocabulary.entityName entity).toList
  trimmed : Text.Trimmed (vocabulary.entityName entity).toList
  open_ : '(' ∉ (vocabulary.entityName entity).toList

namespace Update

def isBinding : Update → Bool
  | .bind _ _ _ _ => true
  | _ => false

mutual

/-- What holds of every effect that is read: its expressions are readable, its names are spelled as
they are printed and declared, slots are taken in the order of the scope, and a binding is the last
effect of its body.
-/
def Readable (names : Names) : Update → Prop
  | .assign place name index value =>
      (Expr.read place name index).Readable names ∧ place.isConstant = false
      ∧ value.Readable names ∧ Text.opensBlock (targetText name index).toList = false
  | .assignLocal slot name value =>
      isIdentifier name.toList = true ∧ names.scope.lookup? name = some (slot, .temporary)
      ∧ value.Readable names
  | .insert entity collection fields =>
      names.vocabulary.Commands entity collection
      ∧ fields.length = names.vocabulary.fieldCount collection ∧ Expr.AllReadable names fields
  | .remove entity collection id =>
      names.vocabulary.Commands entity collection ∧ id.Readable names
  | .replace entity collection id fields =>
      names.vocabulary.Commands entity collection ∧ id.Readable names
      ∧ fields.length = names.vocabulary.fieldCount collection ∧ Expr.AllReadable names fields
  | .bind slot name value body =>
      slot = names.scope.size ∧ isIdentifier name.toList = true ∧ value.Readable names
      ∧ AllReadable (names.push name .temporary) body
  | .branch condition thenBody elseBody =>
      condition.Readable names ∧ AllReadable names thenBody ∧ AllReadable names elseBody
  | .forEach slot name entity filter body =>
      slot = names.scope.size ∧ isIdentifier name.toList = true
      ∧ names.vocabulary.Iterates entity
      ∧ (∀ condition, filter = some condition
          → condition.Readable (names.push name (.entity entity)))
      ∧ AllReadable (names.push name (.entity entity)) body
  | .loop condition body => condition.Readable names ∧ AllReadable names body

def AllReadable (names : Names) : List Update → Prop
  | [] => True
  | update :: rest =>
      update.Readable names ∧ (update.isBinding = true → rest = []) ∧ AllReadable names rest

end

end Update

-----------------------------------------------------------------------------------------
-- Expressions on a line
-----------------------------------------------------------------------------------------

namespace Expr

variable {context : LineContext} {input rest : List Lexeme} {expr : Expr}

/-- What is read from proper lexemes is readable, and the lexemes behind it are proper, as they are
some of these.
-/
theorem readable_of_readExpr (proper : ∀ lexeme ∈ input, lexeme.token.Proper)
    (read : readExpr context input = .ok (expr, rest))
    : expr.Readable context.toNames ∧ ∀ lexeme ∈ rest, lexeme.token.Proper := by
  obtain ⟨readable, leaves⟩ :=
    (readersYield (readable_readClosed proper) _).level List.suffix_rfl read
  exact ⟨readable, fun lexeme member => proper lexeme (leaves.suffix.subset member)⟩

theorem readable_of_readIndex {depth : Nat} (proper : ∀ lexeme ∈ input, lexeme.token.Proper)
    (read : readIndex context depth input = .ok (expr, rest))
    : expr.Readable context.toNames ∧ ∀ lexeme ∈ rest, lexeme.token.Proper := by
  obtain ⟨readable, suffix⟩ :=
    (readersYield (readable_readClosed proper) _).index List.suffix_rfl read
  exact ⟨readable, fun lexeme member => proper lexeme (suffix.subset member)⟩

theorem readable_of_readElements {depth : Nat} {elements : List Expr}
    (proper : ∀ lexeme ∈ input, lexeme.token.Proper)
    (read : readElements context depth input = .ok (elements, rest))
    : AllReadable context.toNames elements := by
  obtain ⟨⟨_, readable⟩, _⟩ :=
    (readersYield (readable_readClosed proper) _).elements List.suffix_rfl read
  exact allReadable_iff.mpr readable

end Expr

/-- The lexemes of a line are proper. -/
theorem LineContext.proper_of_ofLine {names : Names} {line : Line} {context : LineContext}
    {input : List Lexeme} (opened : LineContext.ofLine names line = .ok (context, input))
    : ∀ lexeme ∈ input, lexeme.token.Proper := by
  obtain ⟨tokens, lexed, done⟩ := bind_eq_ok_iff.mp opened
  obtain ⟨_, rfl⟩ := Prod.mk.inj (Except.ok.inj done)
  exact TokenLine.proper_of_read lexed

/-- The fields of an item that are read from proper lexemes are readable, whether there are any or
the parentheses are empty.
-/
theorem readable_of_readFields {context : LineContext} {input rest : List Lexeme}
    {fields : List Expr} (proper : ∀ lexeme ∈ input, lexeme.token.Proper)
    (read : context.readFields input = .ok (fields, rest))
    : Expr.AllReadable context.toNames fields := by
  obtain ⟨after, opened, read⟩ := bind_eq_ok_iff.mp read
  have suffix := (LineContext.leaves_of_expectSymbol opened).suffix
  split at read
  · obtain ⟨rfl, rfl⟩ := Prod.mk.inj (Except.ok.inj read)
    trivial
  · obtain ⟨⟨fields, after⟩, elements, read⟩ := bind_eq_ok_iff.mp read
    obtain ⟨_, _, done⟩ := bind_eq_ok_iff.mp read
    obtain ⟨rfl, rfl⟩ := Prod.mk.inj (Except.ok.inj done)
    exact Expr.readable_of_readElements
      (fun lexeme member => proper lexeme (suffix.subset member)) elements

-----------------------------------------------------------------------------------------
-- Targets that open no block
-----------------------------------------------------------------------------------------

/-- A name that is assigned is one of a value, or of a variable that is not constant. -/
def AssignmentTarget.Readable (names : Names) : AssignmentTarget → Prop
  | .named slot name =>
      isIdentifier name.toList = true ∧ names.scope.lookup? name = some (slot, .temporary)
  | .stored place name index =>
      (Expr.read place name index).Readable names ∧ place.isConstant = false

/-- A target that is read from proper lexemes is readable: a place that its name is declared for, or
a local of the scope.
-/
theorem AssignmentTarget.readable_of_read {context : LineContext} {input rest : List Lexeme}
    (proper : ∀ lexeme ∈ input, lexeme.token.Proper) {target : AssignmentTarget}
    (read : AssignmentTarget.read context input = .ok (target, rest))
    : target.Readable context.toNames ∧ ∀ lexeme ∈ rest, lexeme.token.Proper := by
  cases target with
  | stored place name index =>
      obtain ⟨_, _, _, found, after, rfl, _, nameRead, rfl, placeFound, mutable, indexRead⟩ :=
        stored_of_read read
      obtain ⟨named, leaves⟩ := LineContext.nameFrom_of_readName nameRead
      obtain ⟨index, restProper⟩ := Expr.readable_of_readIndex
        (fun lexeme member => proper lexeme (leaves.suffix.subset member)) indexRead
      have known := LineContext.place?_of_placeNamed placeFound
      exact ⟨⟨⟨Expr.spelledName_of_nameFrom proper named, known, index⟩, mutable⟩, restProper⟩
  | named slot name =>
      obtain ⟨span, rfl, bound⟩ := named_of_read read
      obtain ⟨word, others⟩ := List.forall_mem_cons.mp proper
      exact ⟨⟨word, bound⟩, others⟩

/-- The lexemes continue neither a name nor an index. -/
def StopsTarget (rest : List Lexeme) : Prop :=
  rest = [] ∨ ∃ mark span tail, rest = ⟨.symbol mark, span⟩ :: tail ∧ mark ≠ .openParen

/-- A name starts with the first word, and is this word where it does not go on. The first word is
no parameter, so that the name may have more of them.
-/
theorem LineContext.joined_of_readName {context : LineContext} {word : String} {span : Span}
    {others after : List Lexeme} {found : SpannedName}
    (free : context.scope.contains word = false)
    (read : context.readName (⟨.word word, span⟩ :: others) = .ok (found, after))
    : ∃ words, found.name = joined " " (word :: words)
        ∧ (StopsTarget others → words = [] ∧ after = others) := by
  unfold LineContext.readName at read
  rw [leadingWords, if_neg (by simp [free])] at read
  cases taken : leadingWords context.scope others with
  | mk words left =>
      rw [taken] at read
      obtain ⟨rfl, rfl⟩ := Prod.mk.inj (Except.ok.inj read)
      refine ⟨words.map (·.1), joinWords_eq_joined _, ?_⟩
      rintro (rfl | ⟨mark, span, tail, rfl, _⟩)
      · obtain ⟨rfl, rfl⟩ := Prod.mk.inj taken
        exact ⟨rfl, rfl⟩
      · obtain ⟨rfl, rfl⟩ := Prod.mk.inj taken
        exact ⟨rfl, rfl⟩

/-- No index is read where none begins. -/
theorem Expr.index_of_stops {context : LineContext} {input rest : List Lexeme} {index : Expr}
    (stops : StopsTarget input) (read : takeIndex context input = .ok (index, rest))
    : index = .int 0 := by
  rcases stops with rfl | ⟨mark, span, tail, rfl, other⟩
  · exact (Prod.mk.inj (Except.ok.inj read)).1.symm
  · rw [takeIndex_symbol other] at read
    exact (Prod.mk.inj (Except.ok.inj read)).1.symm

/-- The text of a target that is read is the first word of its line, or goes on after it where the
line does. So the two texts open the same blocks, which is why the first word is taken out.
-/
theorem AssignmentTarget.exists_word {context : LineContext} {input rest : List Lexeme}
    {place : Place} {name : String} {index : Expr}
    (read : AssignmentTarget.read context input = .ok (.stored place name index, rest))
    : ∃ word span others, input = ⟨.word word, span⟩ :: others
        ∧ (Update.targetText name index = word
          ∨ ¬ StopsTarget others ∧ ∃ tail,
              (Update.targetText name index).toList = word.toList ++ ' ' :: tail) := by
  obtain ⟨word, span, others, found, after, rfl, free, nameRead, rfl, _, _, indexRead⟩ :=
    stored_of_read read
  obtain ⟨words, name, alone⟩ := LineContext.joined_of_readName free nameRead
  refine ⟨word, span, others, rfl, ?_⟩
  rw [Update.targetText, name]
  cases words with
  | nil =>
      split
      · exact .inl rfl
      · rename_i indexed
        refine .inr ⟨fun stops => ?_, ⟨_, by simp [joined]; rfl⟩⟩
        obtain ⟨_, rfl⟩ := alone stops
        rw [Expr.index_of_stops stops indexRead] at indexed
        exact indexed rfl
  | cons next words =>
      refine .inr ⟨fun stops => absurd (alone stops).1 (List.cons_ne_nil _ _), ?_⟩
      split
      · exact ⟨_, by simp [joined]; rfl⟩
      · exact ⟨_, by simp [joined]; rfl⟩

/-- So the target of a line that opens no block opens no block where it is printed. The line and the
printed target begin with one word, and go on after it in the same way.
-/
theorem AssignmentTarget.opensBlock_eq_false {names : Names} {stop : Span} {here : Position}
    {text : List Char} {tokens : TokenLine} (lexed : TokenLine.read here text = .ok tokens)
    (visible : ∀ c ∈ text.head?, Text.isBlank c = false) (closed : Text.opensBlock text = false)
    {place : Place} {name : String} {index : Expr} {rest : List Lexeme}
    (read
      : AssignmentTarget.read ⟨names, stop⟩ tokens.lexemes
        = .ok (.stored place name index, rest))
    : Text.opensBlock (Update.targetText name index).toList = false := by
  obtain ⟨word, span, others, lexemes, target⟩ := exists_word read
  obtain ⟨tail, _, left, same, stops, leftRead, rfl⟩ :=
    TokenLine.exists_tail_of_word lexed lexemes visible
  have identifier : isIdentifier word.toList = true :=
    TokenLine.proper_of_read lexed ⟨.word word, span⟩ (by simp [lexemes])
  have continues := (continuesWord_of_isIdentifier identifier).2
  rw [Text.opensBlock, List.any_eq_false] at closed ⊢
  intro keyword known leads
  obtain ⟨c, after, printed, opens⟩ := Text.leads_eq_true_iff.mp leads
  rcases target with whole | ⟨goesOn, more, whole⟩
  · rw [← whole, printed] at continues
    have inWord := continues c (by simp)
    rw [Text.continuesWord_eq_false_of_opensHeader opens] at inWord
    cases inWord
  · have runs : ∀ c ∈ keyword.toList, continuesWord c = true :=
      List.all_eq_true.mp (Text.letters_of_mem_blockKeywords keyword known)
    have ends : ∀ d ∈ (c :: after).head?, continuesWord d = false := by
      rintro d ⟨⟩
      exact Text.continuesWord_eq_false_of_opensHeader opens
    obtain ⟨keywordSame, _⟩ := Text.eq_of_runs continues runs (by rintro d ⟨⟩; decide) ends
      (whole.symm.trans printed)
    refine goesOn (TokenLine.lexemes_of_mark leftRead fun d member => ?_)
    have other : Text.opensHeader d = false := by
      rw [Bool.eq_false_iff]
      intro header
      obtain ⟨others, rfl⟩ := List.head?_eq_some_iff.mp member
      exact closed keyword known
        (Text.leads_eq_true_iff.mpr ⟨d, others, by rw [same, keywordSame], header⟩)
    obtain ⟨visible, notParen⟩ := Bool.or_eq_false_iff.mp other
    exact ⟨visible, stops d member, of_decide_eq_false notParen⟩

-----------------------------------------------------------------------------------------
-- Effect lines that were read
-----------------------------------------------------------------------------------------

theorem Line.trimmed_of_mem_ofSource {source : List Char} {line : Line}
    (read : line ∈ Line.ofSource source)
    : Text.Trimmed line.text := by
  obtain ⟨_, raw, _, _, rfl⟩ := Line.mem_ofSource.mp read
  exact Text.trimmed_trim _

/-- The owner of a command ends with no blank, and a blank comes after it. -/
theorem ItemCommand.exists_blank_of_cut? {head owner : List Char} {command : ItemCommand}
    (cut : ItemCommand.cut? head = some (owner, command))
    : (∀ c ∈ owner.getLast?, Text.isBlank c = false)
      ∧ ∃ blank rest, head = owner ++ blank :: rest ∧ Text.isBlank blank = true := by
  obtain ⟨last, gap, mark, rfl, blank⟩ := cut?_eq_some_iff.mp cut
  refine ⟨last, ?_⟩
  cases gap with
  | nil => exact ⟨mark, command.text.toList, by simp, blank mark List.mem_cons_self⟩
  | cons first others =>
      exact ⟨first, others ++ mark :: command.text.toList, by simp, blank first (by simp)⟩

/-- What stands before the command of a line is the name of an entity type that may stand there.

That the name is printed as it was read is where the index has to be linked: the printer asks for
the name of the number that the reader found by the name.
-/
theorem Vocabulary.Linked.commands_of_cut? {vocabulary : Vocabulary} {source : List Char}
    {line : Line} (linked : vocabulary.Linked) (inside : line ∈ Line.ofSource source)
    (closed : Text.opensBlock line.text = false)
    (unbound : Text.opensBinding line.text = false) {before after owner : List Char}
    (whole : line.text = before ++ ':' :: after) (apart : ':' ∉ before) {command : ItemCommand}
    (cut : ItemCommand.cut? (Text.trimEnd before) = some (owner, command)) {entity collection : Nat}
    (known : vocabulary.entity? (String.ofList owner) = some entity)
    (owned : vocabulary.collection? entity = some collection)
    : vocabulary.Commands entity collection := by
  have named := linked.entityName_of_entity? known
  obtain ⟨last, blank, rest, head, isBlank⟩ := ItemCommand.exists_blank_of_cut? cut
  obtain ⟨blanks, same, _⟩ := Text.exists_blank_trimEnd before
  obtain ⟨tail, start⟩ : ∃ tail, line.text = owner ++ blank :: tail :=
    ⟨rest ++ blanks ++ ':' :: after, by rw [whole, same, head]; simp⟩
  have plain := Line.plain_of_mem_ofSource inside
  have first := (Line.trimmed_of_mem_ofSource inside).first
  have nonempty : owner ≠ [] := by
    rintro rfl
    rw [start] at first
    exact absurd isBlank (by simp [first blank rfl])
  have part : owner ⊆ before := by
    rw [same, head]
    simp
  have ends : continuesWord blank = false ∧ continuesWord ' ' = false :=
    ⟨continuesWord_eq_false_of_isBlank isBlank, by decide⟩
  have sameBlank : Text.isBlank blank = Text.isBlank ' ' := isBlank
  have sameHeader : Text.opensHeader blank = Text.opensHeader ' ' := by
    simp only [Text.opensHeader, isBlank, Bool.true_or]
    rfl
  rw [start, Text.opensBlock_congr ends sameHeader owner tail []] at closed
  rw [start, Text.opensBinding_congr ends sameBlank owner tail []] at unbound
  refine ⟨named ▸ known, owned, ⟨⟨?_, ?_⟩, ?_, ?_⟩, ?_, ?_⟩
  all_goals rw [named, String.toList_ofList]
  · intro c member
    refine first c ?_
    rw [start, List.head?_append_of_ne_nil _ nonempty]
    exact member
  · exact last
  · exact nonempty
  · intro c member
    exact plain.isCut_eq_false (whole ▸ List.mem_append_left _ (part member))
      (ne_of_mem_of_not_mem (part member) apart)
  · exact closed
  · exact unbound

namespace Update

/-- An assignment that was read from a line that opens no block is readable. Its target opens no
block either, and its value is read from proper lexemes.
-/
theorem readable_of_ofAssignment {names : Names} {line : Line}
    (visible : ∀ c ∈ line.text.head?, Text.isBlank c = false)
    (closed : Text.opensBlock line.text = false) {update : Update}
    (read : ofAssignment names line = .ok update)
    : update.Readable names ∧ update.isBinding = false := by
  obtain ⟨⟨context, input⟩, opened, read⟩ := bind_eq_ok_iff.mp read
  obtain ⟨tokens, lexed, same⟩ := bind_eq_ok_iff.mp opened
  obtain ⟨rfl, rfl⟩ := Prod.mk.inj (Except.ok.inj same)
  obtain ⟨⟨target, rest⟩, targetRead, read⟩ := bind_eq_ok_iff.mp read
  obtain ⟨after, colon, read⟩ := bind_eq_ok_iff.mp read
  obtain ⟨⟨value, rest⟩, valueRead, read⟩ := bind_eq_ok_iff.mp read
  obtain ⟨_, _, done⟩ := bind_eq_ok_iff.mp read
  obtain rfl := Except.ok.inj done
  obtain ⟨targetReadable, restProper⟩ :=
    AssignmentTarget.readable_of_read (TokenLine.proper_of_read lexed) targetRead
  have afterProper := fun lexeme member =>
    restProper lexeme ((LineContext.leaves_of_expectSymbol colon).suffix.subset member)
  obtain ⟨valueReadable, _⟩ := Expr.readable_of_readExpr afterProper valueRead
  cases target with
  | named slot name => exact ⟨⟨targetReadable.1, targetReadable.2, valueReadable⟩, rfl⟩
  | stored place name index =>
      have targetClosed := AssignmentTarget.opensBlock_eq_false lexed visible closed targetRead
      exact ⟨⟨targetReadable.1, targetReadable.2, valueReadable, targetClosed⟩, rfl⟩

/-- A command on items that was read is readable where its entity type may stand, by cases on the
command. The number of the fields was checked by the reader.
-/
theorem readable_of_ofCommand {names : Names} {entity : Nat} {name : String}
    {command : ItemCommand} {tail : Line} {update : Update}
    (commands
      : ∀ collection, names.vocabulary.collection? entity = some collection
          → names.vocabulary.Commands entity collection)
    (read : ofCommand names entity name command tail = .ok update)
    : update.Readable names ∧ update.isBinding = false := by
  unfold ofCommand at read
  split at read
  · rename_i collection owned
    replace commands := commands collection owned
    obtain ⟨⟨context, input⟩, opened, read⟩ := bind_eq_ok_iff.mp read
    have proper := LineContext.proper_of_ofLine opened
    obtain rfl := LineContext.toNames_of_ofLine opened
    cases command with
    | remove =>
        obtain ⟨⟨id, rest⟩, idRead, read⟩ := bind_eq_ok_iff.mp read
        obtain ⟨_, _, done⟩ := bind_eq_ok_iff.mp read
        obtain rfl := Except.ok.inj done
        exact ⟨⟨commands, (Expr.readable_of_readExpr proper idRead).1⟩, rfl⟩
    | add =>
        obtain ⟨⟨fields, rest⟩, fieldsRead, read⟩ := bind_eq_ok_iff.mp read
        obtain ⟨_, counted, read⟩ := bind_eq_ok_iff.mp read
        obtain ⟨_, _, done⟩ := bind_eq_ok_iff.mp read
        obtain rfl := Except.ok.inj done
        dsimp only at counted
        split at counted
        · rename_i count
          exact ⟨⟨commands, count, readable_of_readFields proper fieldsRead⟩, rfl⟩
        · cases counted
    | replace =>
        obtain ⟨⟨id, rest⟩, idRead, read⟩ := bind_eq_ok_iff.mp read
        obtain ⟨⟨fields, rest⟩, fieldsRead, read⟩ := bind_eq_ok_iff.mp read
        obtain ⟨_, counted, read⟩ := bind_eq_ok_iff.mp read
        obtain ⟨_, _, done⟩ := bind_eq_ok_iff.mp read
        obtain rfl := Except.ok.inj done
        dsimp only at counted
        split at counted
        · rename_i count
          obtain ⟨idReadable, restProper⟩ := Expr.readable_of_readExpr proper idRead
          have fieldsReadable := readable_of_readFields restProper fieldsRead
          exact ⟨⟨commands, idReadable, count, fieldsReadable⟩, rfl⟩
        · cases counted
  · cases read

/-- The effect of a line is an assignment, or a command on the items of a declared entity type. In
the second case the line is cut at its first colon, behind the word of the command.
-/
theorem assignment_or_command {names : Names} {line : Line} {update : Update}
    (read : ofLine names line = .ok update)
    : ofAssignment names line = .ok update
      ∨ ∃ before after owner command entity tail, line.text = before ++ ':' :: after ∧ ':' ∉ before
          ∧ ItemCommand.cut? (Text.trimEnd before) = some (owner, command)
          ∧ names.vocabulary.entity? (String.ofList owner) = some entity
          ∧ ofCommand names entity (String.ofList owner) command tail = .ok update := by
  unfold ofLine at read
  split at read
  · exact .inl read
  · rename_i before after cut
    obtain ⟨whole, apart⟩ := Text.cutAtFirst?_eq_some_iff.mp cut
    dsimp only at read
    split at read
    · exact .inl read
    · rename_i owner command found
      split at read
      · rename_i entity known
        exact .inr ⟨before, after, owner, command, entity, _, whole, apart, found, known, read⟩
      · split at read
        · exact .inl read
        · cases read

/-- The effect of a plain line that binds nothing is readable. Such a line opens no block and no
binding, and its text has no blank at its ends.
-/
theorem readable_of_ofLine {names : Names} {source : List Char} {line : Line}
    (linked : names.vocabulary.Linked) (inside : line ∈ Line.ofSource source)
    (plain : Block.roleOf line = .ok .plain)
    (unbound : newVal? line = .ok none) {update : Update}
    (read : ofLine names line = .ok update)
    : update.Readable names ∧ update.isBinding = false := by
  have closed := Block.opensBlock_of_plain plain
  rcases assignment_or_command read with assignment | command
  · exact readable_of_ofAssignment (Line.trimmed_of_mem_ofSource inside).first closed assignment
  · obtain ⟨before, after, owner, command, entity, tail, whole, apart, cut, known, read⟩ := command
    refine readable_of_ofCommand (fun collection owned => ?_) read
    exact linked.commands_of_cut? inside closed (Block.newVal?_eq_none_iff.mp unbound) whole apart
      cut known owned

theorem isIdentifier_of_identifierOf {text : List Char} {span : Span} {name : String}
    (read : identifierOf text span = .ok name)
    : isIdentifier name.toList = true := by
  unfold identifierOf at read
  split at read
  · rename_i identifier
    obtain rfl := Except.ok.inj read
    rwa [String.toList_ofList]
  · cases read

/-- A value that a line binds is given the name of a parameter, an identifier. -/
theorem isIdentifier_of_newVal? {line : Line} {name : String} {value : Line}
    (read : newVal? line = .ok (some (name, value)))
    : isIdentifier name.toList = true := by
  unfold newVal? at read
  split at read
  · cases read
  · split at read
    · cases read
    · split at read
      · cases read
      · obtain ⟨found, identifier, done⟩ := bind_eq_ok_iff.mp read
        obtain ⟨rfl, _⟩ := Prod.mk.inj (Option.some.inj (Except.ok.inj done))
        exact isIdentifier_of_identifierOf identifier

/-- The header of a loop that was read has an identifier, an entity type that may be iterated over,
and a filter that is readable where the local is known.
-/
theorem EachHeader.readable_of_ofLine {names : Names} {line : Line} {header : EachHeader}
    (linked : names.vocabulary.Linked) (plain : Text.Plain line.text)
    (read : EachHeader.ofLine names line = .ok header)
    : isIdentifier header.name.toList = true ∧ names.vocabulary.Iterates header.entity
      ∧ ∀ condition, header.filter = some condition →
          condition.Readable (names.push header.name (.entity header.entity)) := by
  unfold EachHeader.ofLine at read
  split at read
  · rename_i before after cut
    obtain ⟨whole, _⟩ := Text.cutAtFirst?_eq_some_iff.mp cut
    obtain ⟨name, identifier, read⟩ := bind_eq_ok_iff.mp read
    dsimp only at read
    split at read
    · rename_i entity declared
      have iterates : names.vocabulary.Iterates entity := by
        have named := linked.entityName_of_entity? declared
        have part : Text.trim (after.takeWhile (· ≠ '(')) ⊆ after.takeWhile (· ≠ '(') :=
          Text.trim_subset _
        refine ⟨named ▸ declared, ?_, ?_, ?_⟩
        all_goals rw [named, Line.string, String.toList_ofList]
        · refine plain.of_subset fun c member => ?_
          rw [whole]
          exact List.mem_append_right _
            (List.mem_cons_of_mem _ (List.takeWhile_subset _ (part member)))
        · exact Text.trimmed_trim _
        · intro member
          simpa using List.mem_takeWhile_imp (part member)
      have named := isIdentifier_of_identifierOf identifier
      split at read
      · obtain rfl := Except.ok.inj read
        exact ⟨named, iterates, nofun⟩
      · obtain ⟨filter, filterRead, done⟩ := bind_eq_ok_iff.mp read
        obtain rfl := Except.ok.inj done
        refine ⟨named, iterates, ?_⟩
        rintro _ ⟨⟩
        exact Expr.readable_of_ofLine filterRead
    · cases read
  · cases read

-----------------------------------------------------------------------------------------
-- Blocks that were read
-----------------------------------------------------------------------------------------

variable {source : List Char}

mutual

/-- The effect that a block holds is readable, by induction on the nesting of blocks. A block that
binds is left to the blocks around it, as its body is what follows.
-/
theorem readable_of_ofBlock (names : Names) (linked : names.vocabulary.Linked) (block : Block)
    (nested : block.NestedFrom (Line.ofSource source)) (unbound : newValOf? block = .ok none)
    {update : Update} (read : ofBlock names block = .ok update)
    : update.Readable names ∧ update.isBinding = false := by
  cases block with
  | plain line =>
      rw [ofBlock] at read
      exact readable_of_ofLine linked nested.1 nested.2 unbound read
  | choice condition thenBlocks elseBlocks =>
      obtain ⟨_, thenNested, elseNested⟩ := nested
      rw [ofBlock] at read
      obtain ⟨condition, conditionRead, read⟩ := bind_eq_ok_iff.mp read
      obtain ⟨⟨thenBody, _⟩, thenRead, read⟩ := bind_eq_ok_iff.mp read
      obtain ⟨⟨elseBody, _⟩, elseRead, done⟩ := bind_eq_ok_iff.mp read
      obtain rfl := Except.ok.inj done
      have thenReadable := allReadable_of_ofBlocks names linked thenBlocks thenNested thenRead
      have elseReadable := allReadable_of_ofBlocks names linked elseBlocks elseNested elseRead
      exact ⟨⟨Expr.readable_of_ofLine conditionRead, thenReadable, elseReadable⟩, rfl⟩
  | each header body =>
      obtain ⟨⟨line, inside, opened⟩, bodyNested⟩ := nested
      have kept : header.Inside line := (Block.roleOf_eq_ok_iff.mp opened).cutFrom
      have plain := (Line.plain_of_mem_ofSource inside).of_subset kept.text
      rw [ofBlock] at read
      obtain ⟨header, headerRead, read⟩ := bind_eq_ok_iff.mp read
      obtain ⟨⟨inner, _⟩, bodyRead, done⟩ := bind_eq_ok_iff.mp read
      obtain rfl := Except.ok.inj done
      obtain ⟨named, iterates, filterReadable⟩ :=
        EachHeader.readable_of_ofLine linked plain headerRead
      have bodyReadable :=
        allReadable_of_ofBlocks (names.push header.name _) linked body bodyNested bodyRead
      exact ⟨⟨rfl, named, iterates, filterReadable, bodyReadable⟩, rfl⟩
  | repeated condition body =>
      obtain ⟨_, bodyNested⟩ := nested
      rw [ofBlock] at read
      obtain ⟨condition, conditionRead, read⟩ := bind_eq_ok_iff.mp read
      obtain ⟨⟨inner, _⟩, bodyRead, done⟩ := bind_eq_ok_iff.mp read
      obtain rfl := Except.ok.inj done
      have bodyReadable := allReadable_of_ofBlocks names linked body bodyNested bodyRead
      exact ⟨⟨Expr.readable_of_ofLine conditionRead, bodyReadable⟩, rfl⟩

/-- The effects that blocks hold are readable: a binding takes all later blocks as its body. These
are then read in a scope that has the local too.
-/
theorem allReadable_of_ofBlocks (names : Names) (linked : names.vocabulary.Linked)
    (blocks : List Block) (nested : Block.AllNestedFrom (Line.ofSource source) blocks)
    {updates : List Update}
    {scope : Scope} (read : ofBlocks names blocks = .ok (updates, scope))
    : AllReadable names updates := by
  cases blocks with
  | nil =>
      obtain ⟨rfl, rfl⟩ := Prod.mk.inj (Except.ok.inj read)
      trivial
  | cons block rest =>
      obtain ⟨blockNested, restNested⟩ := nested
      rw [ofBlocks] at read
      obtain ⟨named?, namedRead, read⟩ := bind_eq_ok_iff.mp read
      cases named? with
      | some named =>
          obtain ⟨name, valueLine⟩ := named
          obtain ⟨value, valueRead, read⟩ := bind_eq_ok_iff.mp read
          obtain ⟨⟨body, inner⟩, bodyRead, done⟩ := bind_eq_ok_iff.mp read
          obtain ⟨rfl, rfl⟩ := Prod.mk.inj (Except.ok.inj done)
          have identifier : isIdentifier name.toList = true := by
            cases block with
            | plain line => exact isIdentifier_of_newVal? namedRead
            | choice | each | repeated => cases namedRead
          have bodyReadable :=
            allReadable_of_ofBlocks (names.push name .temporary) linked rest restNested bodyRead
          exact ⟨⟨rfl, identifier, Expr.readable_of_ofLine valueRead, bodyReadable⟩, fun _ => rfl,
            trivial⟩
      | none =>
          obtain ⟨update, updateRead, read⟩ := bind_eq_ok_iff.mp read
          obtain ⟨⟨others, inner⟩, restRead, done⟩ := bind_eq_ok_iff.mp read
          obtain ⟨rfl, rfl⟩ := Prod.mk.inj (Except.ok.inj done)
          obtain ⟨updateReadable, other⟩ :=
            readable_of_ofBlock names linked block blockNested namedRead updateRead
          have restReadable := allReadable_of_ofBlocks names linked rest restNested restRead
          exact ⟨updateReadable, fun binding => by simp [other] at binding, restReadable⟩

end

/-- The effects that lines hold are readable. So the results on printed effects apply to whatever
was read.
-/
theorem allReadable_of_ofLines {names : Names} {updates : List Update}
    (linked : names.vocabulary.Linked)
    (read : ofLines names (Line.ofSource source) = .ok updates)
    : AllReadable names updates := by
  obtain ⟨blocks, nested, read⟩ := bind_eq_ok_iff.mp read
  obtain ⟨⟨found, scope⟩, blocksRead, done⟩ := bind_eq_ok_iff.mp read
  obtain rfl := Except.ok.inj done
  exact allReadable_of_ofBlocks names linked blocks (Block.allNestedFrom_of_nest nested) blocksRead

end Update

end Dispatch
