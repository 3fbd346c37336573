import Dispatch.Proofs.Declarations.ListedNames
import Dispatch.Proofs.Reading.SourceLines

/-!
The spelling of declared names. A name is cut from the code of a line, so it holds neither a newline
nor the mark of a comment, and it is trimmed, by itself or as words with single spaces between them.
-/

namespace Dispatch

/-- The text of a name that was read: trimmed code of one line. -/
structure NameText (name : String) : Prop where
  plain : Text.Plain name.toList
  trimmed : Text.Trimmed name.toList

namespace Text

/-- Words with single spaces between them are trimmed code, by induction on the words. -/
theorem plain_joinWords {words : List (List Char)}
    (each : ∀ word ∈ words, word ≠ [] ∧ Plain word ∧ ∀ c ∈ word, isBlank c = false)
    : Plain (joinWords words) ∧ Trimmed (joinWords words) := by
  have visible {word : List Char} (inside : ∀ c ∈ word, isBlank c = false) : Trimmed word :=
    ⟨fun c member => inside c (List.mem_of_head? member),
      fun c member => inside c (List.mem_of_getLast? member)⟩
  have nonempty {words : List (List Char)} (some : words ≠ []) (each : ∀ word ∈ words, word ≠ [])
      : joinWords words ≠ [] := by
    obtain ⟨word, rest, rfl⟩ := List.exists_cons_of_ne_nil some
    cases rest with
    | nil => exact each word List.mem_cons_self
    | cons next rest => simp [joinWords]
  induction words with
  | nil => exact ⟨⟨by simp [joinWords], by simp [joinWords]⟩, nofun, nofun⟩
  | cons word rest ih =>
      obtain ⟨⟨some, plain, inside⟩, others⟩ := List.forall_mem_cons.mp each
      cases rest with
      | nil => exact ⟨plain, visible inside⟩
      | cons next rest =>
          obtain ⟨restPlain, restTrimmed⟩ := ih others
          have more := nonempty (List.cons_ne_nil next rest) fun word member =>
            (others word member).1
          have whole : joinWords (word :: next :: rest)
              = (word ++ [' ']) ++ joinWords (next :: rest) := by
            simp [joinWords]
          rw [whole]
          refine ⟨⟨?_, ?_⟩, fun c member => ?_, fun c member => ?_⟩
          · simp [plain.comment, restPlain.comment]
          · simp [plain.newline, restPlain.newline]
          · rw [List.append_assoc, List.head?_append_of_ne_nil _ some] at member
            exact (visible inside).first c member
          · rw [List.getLast?_append_of_ne_nil _ more] at member
            exact restTrimmed.last c member

end Text

/-- A text of trimmed code is one that can be written as a name. -/
theorem nameText_ofList {text : List Char} (plain : Text.Plain text) (trimmed : Text.Trimmed text)
    : NameText (String.ofList text) := by
  rw [← String.toList_ofList (l := text)] at plain trimmed
  exact ⟨plain, trimmed⟩

/-- A name that words of a line of code declare is trimmed code, as it is made of these words, the
last of which may be left to the kind.
-/
theorem nameText_nameAndKind {text : List Char} (plain : Text.Plain text)
    : NameText (String.ofList (nameAndKind (Text.words text)).1) := by
  have each (words : List (List Char)) (among : words ⊆ Text.words text)
      : NameText (String.ofList (Text.joinWords words)) := by
    obtain ⟨joinedPlain, trimmed⟩ := Text.plain_joinWords fun word member => by
      obtain ⟨some, inside, visible⟩ := Text.mem_words (among member)
      exact ⟨some, plain.of_subset inside, visible⟩
    exact nameText_ofList joinedPlain trimmed
  unfold nameAndKind
  split
  · split
    · exact each _ (List.Subset.refl _)
    · exact each _ (List.dropLast_subset _)
  · exact each _ (List.Subset.refl _)

-----------------------------------------------------------------------------------------
-- Entity types
-----------------------------------------------------------------------------------------

/-- The name of an entity type that is read from a piece of code is trimmed code: the piece itself,
or the part before its role.
-/
theorem EntityDecl.nameText_of_ofPiece {piece : Line} (plain : Text.Plain piece.text)
    (trimmed : Text.Trimmed piece.text) {name : String} {role : Option String}
    (read : ofPiece piece = .ok (name, role))
    : NameText name := by
  unfold ofPiece at read
  split at read
  · obtain ⟨_, cut, read⟩ := bind_eq_ok_iff.mp read
    obtain rfl := Except.ok.inj cut
    dsimp only at read
    split at read
    · cases read
    · obtain ⟨rfl, _⟩ := Prod.mk.inj (Except.ok.inj read)
      exact nameText_ofList plain trimmed
  · rename_i before after found
    split at read
    · obtain ⟨_, cut, _⟩ := bind_eq_ok_iff.mp read
      cases cut
    · obtain ⟨_, cut, read⟩ := bind_eq_ok_iff.mp read
      obtain rfl := Except.ok.inj cut
      dsimp only at read
      split at read
      · cases read
      · obtain ⟨rfl, _⟩ := Prod.mk.inj (Except.ok.inj read)
        obtain ⟨whole, _⟩ := Text.cutAtFirst?_eq_some_iff.mp found
        have among : before ⊆ piece.text := by
          rw [whole]
          exact List.subset_append_left _ _
        exact nameText_ofList
          (plain.of_subset (List.Subset.trans (Text.trim_subset before) among))
          (Text.trimmed_trim before)

/-- The pieces of lines of code are trimmed code, by induction on the parts between the commas. -/
theorem Line.plain_of_mem_commaPieces {line piece : Line} (plain : Text.Plain line.text)
    (member : piece ∈ line.commaPieces)
    : Text.Plain piece.text ∧ Text.Trimmed piece.text := by
  have texts (skipped : Nat) (parts : List (List Char)) (among : piece ∈ line.pieces skipped parts)
      : ∃ part ∈ parts, piece.text = Text.trim part := by
    induction parts generalizing skipped with
    | nil => cases among
    | cons part parts ih =>
        rcases List.mem_cons.mp among with rfl | later
        · exact ⟨part, List.mem_cons_self, rfl⟩
        · obtain ⟨other, listed, same⟩ := ih _ later
          exact ⟨other, List.mem_cons_of_mem _ listed, same⟩
  obtain ⟨part, listed, same⟩ := texts 0 _ member
  rw [same]
  refine ⟨plain.of_subset (List.Subset.trans (Text.trim_subset part) ?_), Text.trimmed_trim part⟩
  exact Text.subset_of_mem_splitTopLevel listed

/-- Entity types that are read keep names trimmed code, by induction on the pieces. -/
theorem Vocabulary.nameText_of_readEntities {vocabulary extended : Vocabulary}
    {pieces : List Line} (plain : ∀ piece ∈ pieces, Text.Plain piece.text)
    (trimmed : ∀ piece ∈ pieces, Text.Trimmed piece.text)
    (spelled : ∀ decl ∈ vocabulary.entities, NameText decl.name)
    (read : vocabulary.readEntities pieces = .ok extended)
    : ∀ decl ∈ extended.entities, NameText decl.name := by
  induction pieces generalizing vocabulary with
  | nil =>
      obtain rfl := Except.ok.inj read
      exact spelled
  | cons piece rest ih =>
      obtain ⟨piecePlain, plain⟩ := List.forall_mem_cons.mp plain
      obtain ⟨pieceTrimmed, trimmed⟩ := List.forall_mem_cons.mp trimmed
      unfold readEntities at read
      split at read
      · exact ih plain trimmed spelled read
      · obtain ⟨⟨name, role⟩, entityRead, read⟩ := bind_eq_ok_iff.mp read
        dsimp only at read
        split at read
        · cases read
        · rename_i next added
          refine ih plain trimmed ?_ read
          obtain ⟨_, rfl⟩ := addEntity?_eq_some_iff.mp added
          refine List.forall_mem_append.mpr ⟨spelled, List.forall_mem_singleton.mpr ?_⟩
          exact EntityDecl.nameText_of_ofPiece piecePlain pieceTrimmed entityRead

-----------------------------------------------------------------------------------------
-- Variables and items
-----------------------------------------------------------------------------------------

/-- The name of a variable that is read from code is trimmed code, with an owner or without one. -/
theorem VariableDecl.nameText_of_ofText {vocabulary : Vocabulary} {line : Line} {constant : Bool}
    {slot : Nat} {text : List Char} (plain : Text.Plain text) {decl : VariableDecl}
    (read : ofText vocabulary line constant slot text = .ok decl)
    : NameText decl.name := by
  unfold ofText at read
  split at read
  · rename_i cut role found
    have cutPlain : Text.Plain cut := by
      refine plain.of_subset (List.Subset.trans ?_ (Text.trim_subset text))
      unfold cutRole? at found
      split at found
      · obtain ⟨rfl, _⟩ := Prod.mk.inj (Option.some.inj found)
        exact List.Subset.refl _
      · rename_i inside ended
        obtain ⟨⟨before, after⟩, last, same⟩ := Option.map_eq_some_iff.mp found
        obtain ⟨rfl, _⟩ := Prod.mk.inj same
        obtain ⟨mark, _, whole, _⟩ := Text.eq_of_cutAtLast? last
        rw [Text.beforeEnd?_eq_some_iff.mp ended, whole]
        simp
    split at read
    · obtain ⟨_, uncut, read⟩ := bind_eq_ok_iff.mp read
      obtain rfl := Except.ok.inj uncut
      dsimp only at read
      split at read
      · cases read
      · obtain rfl := Except.ok.inj read
        exact nameText_nameAndKind cutPlain
    · rename_i before after last
      obtain ⟨owner, _, read⟩ := bind_eq_ok_iff.mp read
      obtain ⟨_, ownerCut, read⟩ := bind_eq_ok_iff.mp read
      obtain rfl := Except.ok.inj ownerCut
      obtain ⟨mark, _, whole, _⟩ := Text.eq_of_cutAtLast? last
      have among : before ⊆ cut := by
        rw [whole]
        exact List.subset_append_left _ _
      dsimp only at read
      split at read
      · cases read
      · obtain rfl := Except.ok.inj read
        exact nameText_nameAndKind (cutPlain.of_subset among)
  · cases read

/-- The text behind the first word of a declaration belongs to the line. -/
theorem Text.subset_of_afterWord? {word : String} {text rest : List Char}
    (cut : afterWord? word text = some rest)
    : rest ⊆ text := by
  obtain ⟨found, _⟩ := Option.filter_eq_some_iff.mp cut
  rw [afterStart?_eq_some_iff.mp found]
  exact List.subset_append_right _ _

/-- The text behind the word that starts a declaration of a variable is part of the line. -/
theorem VariableDecl.subset_of_start? {line : Line} {constant : Bool} {text : List Char}
    (started : start? line = some (constant, text))
    : text ⊆ line.text := by
  unfold start? at started
  split at started
  · rename_i found
    obtain ⟨_, rfl⟩ := Prod.mk.inj (Option.some.inj started)
    exact Text.subset_of_afterWord? found
  · obtain ⟨_, found, same⟩ := Option.map_eq_some_iff.mp started
    obtain ⟨_, rfl⟩ := Prod.mk.inj same
    exact Text.subset_of_afterWord? found

/-- Variables that are read have names that are trimmed code, by induction on the lines. -/
theorem VariableDecl.nameText_of_readAll {vocabulary extended : Vocabulary}
    {constants mutables : Nat} {lines : List Line}
    (plain : ∀ line ∈ lines, Text.Plain line.text) {declarations : List VariableDecl}
    (read : readAll vocabulary constants mutables lines = .ok (extended, declarations))
    : ∀ decl ∈ declarations, NameText decl.name := by
  induction lines generalizing vocabulary constants mutables declarations with
  | nil =>
      obtain ⟨rfl, rfl⟩ := Prod.mk.inj (Except.ok.inj read)
      simp
  | cons line rest ih =>
      obtain ⟨linePlain, plain⟩ := List.forall_mem_cons.mp plain
      unfold readAll at read
      split at read
      · exact ih plain read
      · split at read
        · rename_i constant text started
          have textPlain := linePlain.of_subset (subset_of_start? started)
          obtain ⟨decl, declRead, read⟩ := bind_eq_ok_iff.mp read
          split at read
          · obtain ⟨⟨final, others⟩, othersRead, done⟩ := bind_eq_ok_iff.mp read
            obtain ⟨rfl, rfl⟩ := Prod.mk.inj (Except.ok.inj done)
            exact List.forall_mem_cons.mpr
              ⟨nameText_of_ofText textPlain declRead, ih plain othersRead⟩
          · cases read
        · cases read

/-- Items that are read have a field; a declaration without one is refused. -/
theorem ItemsDecl.fields_ne_nil_of_read {vocabulary extended : Vocabulary} {line : Line}
    {text : List Char} {decl : ItemsDecl} (read : read vocabulary line text = .ok (extended, decl))
    : decl.fields ≠ [] := by
  unfold ItemsDecl.read at read
  dsimp only at read
  split at read
  · cases read
  · rename_i grouped
    split at read
    · obtain ⟨fields, fieldsRead, read⟩ := bind_eq_ok_iff.mp read
      split at read
      · obtain ⟨_, _, done⟩ := bind_eq_ok_iff.mp read
        obtain ⟨_, rfl⟩ := Prod.mk.inj (Except.ok.inj done)
        rintro rfl
        -- Only no group at all is read as no field.
        generalize (labelled FieldDecl.groupStart? _).2 = groups at grouped fieldsRead
        cases groups with
        | nil => exact grouped rfl
        | cons group rest =>
            unfold FieldDecl.ofGroups at fieldsRead
            dsimp only at fieldsRead
            split at fieldsRead
            · cases fieldsRead
            · obtain ⟨_, _, done⟩ := bind_eq_ok_iff.mp fieldsRead
              cases done
      · cases read
    · cases read

/-- Items that are read have a field, by induction on the lines. -/
theorem ItemsDecl.fields_ne_nil_of_readAll {vocabulary extended : Vocabulary} {lines : List Line}
    {items : List ItemsDecl} (read : readAll vocabulary lines = .ok (extended, items))
    : ∀ decl ∈ items, decl.fields ≠ [] := by
  induction lines generalizing vocabulary items with
  | nil =>
      obtain ⟨rfl, rfl⟩ := Prod.mk.inj (Except.ok.inj read)
      simp
  | cons line rest ih =>
      unfold readAll at read
      split at read
      · exact ih read
      · obtain ⟨⟨next, decl⟩, declRead, read⟩ := bind_eq_ok_iff.mp read
        obtain ⟨⟨final, others⟩, othersRead, done⟩ := bind_eq_ok_iff.mp read
        obtain ⟨rfl, rfl⟩ := Prod.mk.inj (Except.ok.inj done)
        exact List.forall_mem_cons.mpr ⟨fields_ne_nil_of_read declRead, ih othersRead⟩

namespace Domain

/-- The names of a domain are trimmed code, and items have a field. -/
structure Spelled (domain : Domain) : Prop where
  entities : ∀ decl ∈ domain.vocabulary.entities, NameText decl.name
  declarations : ∀ decl ∈ domain.declarations, NameText decl.name
  items : ∀ decl ∈ domain.items, decl.fields ≠ []

/-- All names of an accepted domain can be written: they are trimmed pieces of its lines, and these
are code.
-/
theorem spelled_of_ofText {source : List Char} {domain : Domain} (read : ofText source = .ok domain)
    : domain.Spelled := by
  refine holds_of_ofText Spelled
    ⟨by simp [empty, Vocabulary.empty], by simp [empty], by simp [empty]⟩ ?_ read
  intro domain next part lines among coherent blank spelled read
  have plain (line : Line) (member : line ∈ lines) : Text.Plain line.text :=
    Line.plain_of_mem_ofSource (among member)
  cases part with
  | entities =>
      obtain ⟨vocabulary, entitiesRead, done⟩ := bind_eq_ok_iff.mp read
      obtain rfl := Except.ok.inj done
      have pieces (piece : Line) (member : piece ∈ lines.flatMap Line.commaPieces)
          : Text.Plain piece.text ∧ Text.Trimmed piece.text := by
        obtain ⟨line, listed, inside⟩ := List.mem_flatMap.mp member
        exact Line.plain_of_mem_commaPieces (plain line listed) inside
      refine ⟨?_, spelled.declarations, spelled.items⟩
      exact Vocabulary.nameText_of_readEntities (fun piece member => (pieces piece member).1)
        (fun piece member => (pieces piece member).2) spelled.entities entitiesRead
  | declarations =>
      obtain ⟨⟨collected, items⟩, itemsRead, read⟩ := bind_eq_ok_iff.mp read
      obtain ⟨⟨vocabulary, declarations⟩, declarationsRead, done⟩ := bind_eq_ok_iff.mp read
      obtain rfl := Except.ok.inj done
      refine ⟨?_, VariableDecl.nameText_of_readAll plain declarationsRead,
        ItemsDecl.fields_ne_nil_of_readAll itemsRead⟩
      refine List.forall_mem_map.mp ?_
      rw [(Vocabulary.adds_of_readAllVariables declarationsRead).1.entities,
        (Vocabulary.adds_of_readAllItems itemsRead).entities]
      exact List.forall_mem_map.mpr spelled.entities
  | actions | environment | arrival =>
      obtain ⟨_, _, done⟩ := bind_eq_ok_iff.mp read
      obtain rfl := Except.ok.inj done
      exact ⟨spelled.entities, spelled.declarations, spelled.items⟩

end Domain

end Dispatch
