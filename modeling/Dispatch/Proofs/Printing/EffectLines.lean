import Dispatch.Proofs.Printing.ReadableEffects

/-!
The printed lines of effects, read one by one. A line with one effect is cut at its colon again, and
holds the same effect exactly when the effect keeps its text; a binding and the header of a block
give back their names, and their expressions regrouped.
-/

namespace Dispatch

open Text (Plain Segment Solid)

-----------------------------------------------------------------------------------------
-- Expressions on lines of their own
-----------------------------------------------------------------------------------------

namespace Expr

variable {names : Names} {line : Line} {expr : Expr}

/-- A line is read by its tokens: a line whose text has tokens from which an expression is read
whole is read as that expression.
-/
theorem ofLine_of_lexes {tokens : List Token} (lexes : Lexes line.text tokens)
    (reads : ∀ stop, ReadsWhole ⟨names, stop⟩ tokens expr)
    : ofLine names line = .ok expr := by
  obtain ⟨read, lexed, same⟩ := lexes.read line.position
  refine ofLine_eq_ok_iff.mpr ⟨read, lexed, ?_⟩
  have whole := reads read.stop read.lexemes same [] .nil
  rwa [List.append_nil] at whole

/-- The printed line of a readable expression is read as the expression with its groups as the text
has them.
-/
theorem ofLine_of_readable (readable : expr.Readable names) (same : line.text = expr.text.toList)
    : ofLine names line = .ok expr.regrouped :=
  ofLine_of_lexes (same ▸ lexes_text readable) fun stop =>
    (@readsBack_of_readable ⟨names, stop⟩ expr readable).opened.whole

/-- Parentheses around a whole line leave no node. -/
theorem ofLine_of_group (readable : expr.Readable names)
    (same : line.text = '(' :: (expr.text.toList ++ [')']))
    : ofLine names line = .ok expr.regrouped := by
  have lexes := (lexes_text readable).parenthesized true
  have text : line.text = (parenthesized true expr.text).toList := by
    rw [same]
    simp [parenthesized]
  refine ofLine_of_lexes (text ▸ lexes) fun stop => ?_
  have back : ReadsBack ⟨names, stop⟩ expr := readsBack_of_readable readable
  exact (ReadsOpen.of_operand (.of_indexed (.of_primary (.group back.opened.whole))) 0).whole

end Expr

-----------------------------------------------------------------------------------------
-- What stands before the colon
-----------------------------------------------------------------------------------------

namespace ItemCommand

/-- A command word after the name of an owner is found there. -/
theorem cut?_command {owner : List Char} (segment : Segment owner) (command : ItemCommand)
    : cut? (owner ++ ' ' :: command.text.toList) = some (owner, command) :=
  cut?_eq_some_iff.mpr
    ⟨segment.last, [], ' ', by simp, List.forall_mem_singleton.mpr (by decide)⟩

end ItemCommand

/-- Whether a line with the text before its colon assigns, rather than changing items. -/
def Vocabulary.assigns (vocabulary : Vocabulary) (head : List Char) : Bool :=
  match ItemCommand.cut? head with
  | none => true
  | some (owner, _) =>
      (vocabulary.entity? (String.ofList owner)).isNone
        && (vocabulary.name? (String.ofList head)).isSome

namespace Update

variable {names : Names} {line : Line}

def isAssignment : Update → Bool
  | .assign _ _ _ _ | .assignLocal _ _ _ => true
  | _ => false

/-- No command on items is an assignment. -/
theorem not_isAssignment_of_ofCommand {entity : Nat} {name : String} {command : ItemCommand}
    {tail : Line} {update : Update} (read : ofCommand names entity name command tail = .ok update)
    : update.isAssignment = false := by
  unfold ofCommand at read
  split at read
  · obtain ⟨_, _, read⟩ := bind_eq_ok_iff.mp read
    cases command with
    | remove =>
        obtain ⟨_, _, read⟩ := bind_eq_ok_iff.mp read
        obtain ⟨_, _, done⟩ := bind_eq_ok_iff.mp read
        obtain rfl := Except.ok.inj done
        rfl
    | add =>
        obtain ⟨_, _, read⟩ := bind_eq_ok_iff.mp read
        obtain ⟨_, _, read⟩ := bind_eq_ok_iff.mp read
        obtain ⟨_, _, done⟩ := bind_eq_ok_iff.mp read
        obtain rfl := Except.ok.inj done
        rfl
    | replace =>
        obtain ⟨_, _, read⟩ := bind_eq_ok_iff.mp read
        obtain ⟨_, _, read⟩ := bind_eq_ok_iff.mp read
        obtain ⟨_, _, read⟩ := bind_eq_ok_iff.mp read
        obtain ⟨_, _, done⟩ := bind_eq_ok_iff.mp read
        obtain rfl := Except.ok.inj done
        rfl
  · cases read

variable {head after : List Char} (segment : Segment head) (same : line.text = head ++ ':' :: after)

include segment same

/-- A line whose text before the colon assigns is read as an assignment, and no other line is. It is
cut at its first colon, and the text before that is no command of a declared entity type.
-/
theorem ofLine_of_assigns (assigns : names.vocabulary.assigns head = true)
    : ofLine names line = ofAssignment names line := by
  have cut := Text.cutAtFirst?_eq_some_iff.mpr ⟨same, segment.no_colon⟩
  unfold ofLine
  rw [cut]
  dsimp only
  rw [Text.trimEnd_eq segment.last]
  unfold Vocabulary.assigns at assigns
  split
  · rfl
  · rename_i owner command found
    rw [found] at assigns
    obtain ⟨undeclared, known⟩ := Bool.and_eq_true_iff.mp assigns
    rw [Option.isNone_iff_eq_none.mp undeclared]
    exact if_pos known

/-- A line that is read as an assignment has a text before its colon that assigns, since all other
lines are commands or refused.
-/
theorem assigns_of_ofLine {update : Update} (assignment : update.isAssignment = true)
    (read : ofLine names line = .ok update)
    : names.vocabulary.assigns head = true := by
  have cut := Text.cutAtFirst?_eq_some_iff.mpr ⟨same, segment.no_colon⟩
  unfold ofLine at read
  rw [cut] at read
  dsimp only at read
  rw [Text.trimEnd_eq segment.last] at read
  unfold Vocabulary.assigns
  cases found : ItemCommand.cut? head with
  | none => rfl
  | some cut =>
    obtain ⟨owner, command⟩ := cut
    rw [found] at read
    dsimp only at read
    split at read
    · rw [not_isAssignment_of_ofCommand read] at assignment
      cases assignment
    · rename_i undeclared
      split at read
      · rename_i known
        simp [undeclared, known]
      · cases read

omit segment same in
/-- After the name of an entity type and a command word, the rest of the line is read as the
command.
-/
theorem ofLine_of_commands {entity collection : Nat}
    (commands : names.vocabulary.Commands entity collection) {command : ItemCommand}
    (same
      : line.text
        = (names.vocabulary.entityName entity).toList ++ ' ' :: command.text.toList
          ++ ':' :: after)
    : ∃ tail, tail.text = after
        ∧ ofLine names line
          = ofCommand names entity (names.vocabulary.entityName entity) command tail := by
  let name := names.vocabulary.entityName entity
  have word : Segment command.text.toList := by
    cases command <;> exact .of_all (by decide) (by decide)
  have space : ∀ c ∈ [' '], Text.isCut c = false := List.forall_mem_singleton.mpr (by decide)
  have head : Segment (name.toList ++ ' ' :: command.text.toList) := by
    simpa using commands.segment.around space word
  have cut := Text.cutAtFirst?_eq_some_iff.mpr ⟨same, head.no_colon⟩
  let column := line.column + (name.toList ++ ' ' :: command.text.toList).length + 1
  refine ⟨⟨after, line.number, column⟩, rfl, ?_⟩
  unfold ofLine
  rw [cut]
  dsimp only
  rw [Text.trimEnd_eq head.last, ItemCommand.cut?_command commands.segment]
  dsimp only
  rw [String.ofList_toList, commands.named]

end Update

-----------------------------------------------------------------------------------------
-- Effects that keep their text
-----------------------------------------------------------------------------------------

namespace Update

mutual

/-- Whether the printed lines of an effect are read as the same effect: its expressions keep their
groups, the text before the colon of an assignment neither changes items nor binds, and no id is
printed as a variable without an index before the fields.
-/
def keepsText (vocabulary : Vocabulary) : Update → Bool
  | .assign _ name index value =>
      vocabulary.assigns (targetText name index).toList
        && !Text.opensBinding (targetText name index).toList
        && index.keepsGroups && value.keepsGroups
  | .assignLocal _ _ value => value.keepsGroups
  | .insert _ _ fields => Expr.allKeepGroups fields
  | .remove _ _ id => id.keepsGroups
  | .replace _ _ id fields => !id.isBareRead && id.keepsGroups && Expr.allKeepGroups fields
  | .bind _ _ value body => value.keepsGroups && allKeepText vocabulary body
  | .branch condition thenBody elseBody =>
      condition.keepsGroups && allKeepText vocabulary thenBody && allKeepText vocabulary elseBody
  | .forEach _ _ _ filter body => filter.all Expr.keepsGroups && allKeepText vocabulary body
  | .loop condition body => condition.keepsGroups && allKeepText vocabulary body

def allKeepText (vocabulary : Vocabulary) : List Update → Bool
  | [] => true
  | update :: rest => update.keepsText vocabulary && allKeepText vocabulary rest

end

/-- The line that an effect starts with, without its indentation. -/
def firstText (vocabulary : Vocabulary) : Update → String
  | .assign _ name index value => targetText name index ++ ": " ++ value.text
  | .assignLocal _ name value => name ++ ": " ++ value.text
  | .insert entity _ fields =>
      vocabulary.entityName entity ++ " add: (" ++ Expr.commaText fields ++ ")"
  | .remove entity _ id => vocabulary.entityName entity ++ " remove: " ++ id.text
  | .replace entity _ id fields =>
      vocabulary.entityName entity ++ " replace: " ++ parenthesized (!id.isAtomic) id.text
        ++ " (" ++ Expr.commaText fields ++ ")"
  | .bind _ name value _ => "NewVal " ++ name ++ ": " ++ value.text
  | .branch condition _ _ => "Case (" ++ condition.text ++ "):"
  | .forEach _ name entity filter _ =>
      "All (" ++ name ++ " - " ++ vocabulary.entityName entity ++ filterText filter ++ "):"
  | .loop condition _ => "Repeat (" ++ condition.text ++ "):"

/-- Whether the effect is a single line. -/
def isLine : Update → Bool
  | .assign _ _ _ _ | .assignLocal _ _ _ | .insert _ _ _ | .remove _ _ _ | .replace _ _ _ _ => true
  | .bind _ _ _ _ | .branch _ _ _ | .forEach _ _ _ _ _ | .loop _ _ => false

theorem lines_of_isLine {update : Update} (line : update.isLine = true) (vocabulary : Vocabulary)
    (depth : Nat)
    : update.lines vocabulary depth = [indented depth (update.firstText vocabulary)] := by
  cases update with
  | assign | assignLocal | insert | remove | replace => rfl
  | bind | branch | forEach | loop => cases line

theorem plain_commaText {names : Names} {fields : List Expr}
    (readable : Expr.AllReadable names fields)
    : Plain (Expr.commaText fields).toList :=
  Text.plain_of_uncut <| Expr.uncut_commaText fun element member =>
    Expr.segment_text (Expr.allReadable_iff.mp readable element member)

theorem plain_filterText {names : Names} {filter : Option Expr}
    (readable : ∀ condition, filter = some condition → condition.Readable names)
    : Plain (filterText filter).toList := by
  cases filter with
  | none => exact ⟨nofun, nofun⟩
  | some condition =>
      have inner := (Expr.segment_text (readable condition rfl)).plain
      exact plain_append (plain_append ⟨by decide, by decide⟩ inner) ⟨by decide, by decide⟩

/-- Every effect starts with a line of its own, by cases on the effect. The line has no newline and
no comment in it, and no blank around it.
-/
theorem solid_firstText {names : Names} {update : Update} (readable : update.Readable names)
    : Solid (update.firstText names.vocabulary).toList := by
  have colon : Plain ": ".toList := ⟨by decide, by decide⟩
  have close : Solid ")".toList := .of_all (by decide) (by decide)
  have headerEnd : Solid "):".toList := .of_all (by decide) (by decide)
  have header (word : String) (solid : Solid word.toList) {inner : String}
      (plain : Plain inner.toList)
      : Solid (word ++ " (" ++ inner ++ "):").toList := by
    have opened : Plain (" (" ++ inner).toList := plain_append ⟨by decide, by decide⟩ plain
    simpa only [String.append_assoc] using solid_append solid opened headerEnd
  cases update with
  | assign place name index value =>
      have target : Segment (targetText name index).toList := Expr.segment_text readable.1
      exact solid_append target.solid colon (Expr.segment_text readable.2.2.1).solid
  | assignLocal slot name value =>
      have named : Segment name.toList := .of_isIdentifier readable.1
      exact solid_append named.solid colon (Expr.segment_text readable.2.2).solid
  | insert entity collection fields =>
      have command : Plain " add: (".toList := ⟨by decide, by decide⟩
      have middle := plain_append command (plain_commaText readable.2.2)
      have whole := solid_append readable.1.segment.solid middle close
      simpa only [firstText, String.append_assoc] using whole
  | remove entity collection id =>
      have command : Plain " remove: ".toList := ⟨by decide, by decide⟩
      exact solid_append readable.1.segment.solid command (Expr.segment_text readable.2).solid
  | replace entity collection id fields =>
      obtain ⟨commands, idReadable, _, fieldsReadable⟩ := readable
      have command : Plain " replace: ".toList := ⟨by decide, by decide⟩
      have group : Plain " (".toList := ⟨by decide, by decide⟩
      have idPlain := (segment_parenthesized (Expr.segment_text idReadable) (!id.isAtomic)).plain
      have middle := plain_append command
        (plain_append idPlain (plain_append group (plain_commaText fieldsReadable)))
      have whole := solid_append commands.segment.solid middle close
      simpa only [firstText, String.append_assoc] using whole
  | bind slot name value body =>
      obtain ⟨_, identifier, valueReadable, _⟩ := readable
      have word : Solid "NewVal".toList := .of_all (by decide) (by decide)
      have space : Plain " ".toList := ⟨by decide, by decide⟩
      have named : Segment name.toList := .of_isIdentifier identifier
      have middle := plain_append space (plain_append named.plain colon)
      have whole := solid_append word middle (Expr.segment_text valueReadable).solid
      have front : "NewVal " = "NewVal" ++ " " := by decide
      simpa only [firstText, front, String.append_assoc] using whole
  | branch condition thenBody elseBody =>
      exact header "Case" (.of_all (by decide) (by decide)) (Expr.segment_text readable.1).plain
  | forEach slot name entity filter body =>
      obtain ⟨_, identifier, iterates, filterReadable, _⟩ := readable
      have hyphen : Plain " - ".toList := ⟨by decide, by decide⟩
      have inner := plain_append (plain_append (plain_append
        (Segment.of_isIdentifier identifier).plain hyphen) iterates.plain)
        (plain_filterText filterReadable)
      have whole := header "All" (.of_all (by decide) (by decide)) inner
      have front : "All (" = "All" ++ " (" := by decide
      simpa only [firstText, front, String.append_assoc] using whole
  | loop condition body =>
      exact header "Repeat" (.of_all (by decide) (by decide)) (Expr.segment_text readable.1).plain

-----------------------------------------------------------------------------------------
-- Lines with one effect
-----------------------------------------------------------------------------------------

/-- The line binds nothing and holds the effect. -/
def ReadsLine (names : Names) (line : Line) (update : Update) : Prop :=
  newVal? line = .ok none ∧ ofLine names line = .ok update

variable {names : Names} {line : Line}

/-- The printed line of an assignment is read as the assignment where its target assigns and binds
nothing, and index and value keep their groups.
-/
theorem readsLine_assign_iff {place : Place} {name : String} {index value : Expr}
    (readable : (Update.assign place name index value).Readable names)
    (same : line.text = (targetText name index ++ ": " ++ value.text).toList)
    : ReadsLine names line (.assign place name index value)
      ↔ (Update.assign place name index value).keepsText names.vocabulary = true := by
  obtain ⟨target, mutable, valueReadable, _⟩ := readable
  have segment : Segment (targetText name index).toList := Expr.segment_text target
  have cut : line.text = (targetText name index).toList ++ ':' :: (' ' :: value.text.toList) := by
    rw [same]
    simp
  have again := ofAssignment_stored target mutable valueReadable same
  rw [ReadsLine, Block.newVal?_eq_none_iff, cut, Text.opensBinding_colon]
  simp only [keepsText, Bool.and_eq_true, Bool.not_eq_true', ← Expr.regrouped_eq_iff]
  constructor
  · rintro ⟨unbound, read⟩
    have assigns := assigns_of_ofLine segment cut rfl read
    rw [ofLine_of_assigns segment cut assigns, again] at read
    obtain ⟨_, _, indexSame, valueSame⟩ := Update.assign.inj (Except.ok.inj read)
    exact ⟨⟨⟨assigns, unbound⟩, indexSame⟩, valueSame⟩
  · rintro ⟨⟨⟨assigns, unbound⟩, indexSame⟩, valueSame⟩
    refine ⟨unbound, ?_⟩
    rw [ofLine_of_assigns segment cut assigns, again, indexSame, valueSame]

theorem assigns_of_isIdentifier {vocabulary : Vocabulary} {name : List Char}
    (identifier : isIdentifier name = true)
    : vocabulary.assigns name = true := by
  unfold Vocabulary.assigns
  split
  · rfl
  · rename_i owner command found
    obtain ⟨_, blank, rest, rfl, isBlank⟩ := ItemCommand.exists_blank_of_cut? found
    have letter := (continuesWord_of_isIdentifier identifier).2 blank (by simp)
    rw [continuesWord_eq_false_of_isBlank isBlank] at letter
    cases letter

/-- The printed line of an assignment to a local is read as it where the value keeps its groups. The
name is an identifier, which neither commands nor binds.
-/
theorem readsLine_assignLocal_iff {slot : Nat} {name : String} {value : Expr}
    (readable : (Update.assignLocal slot name value).Readable names)
    (same : line.text = (name ++ ": " ++ value.text).toList)
    : ReadsLine names line (.assignLocal slot name value)
      ↔ (Update.assignLocal slot name value).keepsText names.vocabulary = true := by
  obtain ⟨identifier, bound, valueReadable⟩ := readable
  have cut : line.text = name.toList ++ ':' :: (' ' :: value.text.toList) := by
    rw [same]
    simp
  have unbound : newVal? line = .ok none := by
    rw [Block.newVal?_eq_none_iff, cut, Text.opensBinding_colon]
    exact Text.leads_eq_false_of_isIdentifier identifier fun _ => continuesWord_eq_false_of_isBlank
  have again := ofAssignment_named identifier bound valueReadable same
  have read : ofLine names line = ofAssignment names line :=
    ofLine_of_assigns (.of_isIdentifier identifier) cut (assigns_of_isIdentifier identifier)
  rw [ReadsLine, read, again, keepsText, ← Expr.regrouped_eq_iff]
  simp [unbound]

variable {entity collection : Nat} {id : Expr} {fields : List Expr}

theorem newVal?_of_commands (commands : names.vocabulary.Commands entity collection)
    {rest : List Char}
    (same : line.text = (names.vocabulary.entityName entity).toList ++ ' ' :: rest)
    : newVal? line = .ok none := by
  rw [Block.newVal?_eq_none_iff, same, ← commands.unbound]
  exact Text.opensBinding_congr ⟨by decide, by decide⟩ rfl _ _ _

/-- The printed line of an insertion is read as the insertion where its fields keep their groups, as
the command is found by its entity type.
-/
theorem readsLine_insert_iff (readable : (Update.insert entity collection fields).Readable names)
    (same
      : line.text
        = (names.vocabulary.entityName entity ++ " add: (" ++ Expr.commaText fields ++ ")").toList)
    : ReadsLine names line (.insert entity collection fields)
      ↔ (Update.insert entity collection fields).keepsText names.vocabulary = true := by
  obtain ⟨commands, counted, fieldsReadable⟩ := readable
  have cut : line.text
      = (names.vocabulary.entityName entity).toList ++ ' ' :: ItemCommand.add.text.toList
        ++ ':' :: (" " ++ ("(" ++ Expr.commaText fields ++ ")")).toList := by
    rw [same]
    simp [ItemCommand.text]
  obtain ⟨tail, text, read⟩ := ofLine_of_commands commands cut
  rw [List.append_assoc, List.cons_append] at cut
  rw [ReadsLine, newVal?_of_commands commands cut, read,
    ofCommand_add commands.owned counted fieldsReadable text, keepsText,
    ← Expr.regroupedAll_eq_iff]
  simp

/-- The printed line of a removal is read as the removal where the id keeps its groups. -/
theorem readsLine_remove_iff (readable : (Update.remove entity collection id).Readable names)
    (same
      : line.text = (names.vocabulary.entityName entity ++ " remove: " ++ id.text).toList)
    : ReadsLine names line (.remove entity collection id)
      ↔ (Update.remove entity collection id).keepsText names.vocabulary = true := by
  obtain ⟨commands, idReadable⟩ := readable
  have cut : line.text
      = (names.vocabulary.entityName entity).toList ++ ' ' :: ItemCommand.remove.text.toList
        ++ ':' :: (" " ++ id.text).toList := by
    rw [same]
    simp [ItemCommand.text]
  obtain ⟨tail, text, read⟩ := ofLine_of_commands commands cut
  rw [List.append_assoc, List.cons_append] at cut
  rw [ReadsLine, newVal?_of_commands commands cut, read,
    ofCommand_remove commands.owned idReadable text, keepsText, ← Expr.regrouped_eq_iff]
  simp

/-- The printed line of a replacement is read as the replacement where the id and the fields keep
their groups and the id is no read without an index: one of that kind takes the fields for its
index.
-/
theorem readsLine_replace_iff
    (readable : (Update.replace entity collection id fields).Readable names)
    (same
      : line.text
        = (names.vocabulary.entityName entity ++ " replace: "
            ++ parenthesized (!id.isAtomic) id.text ++ " (" ++ Expr.commaText fields
            ++ ")").toList)
    : ReadsLine names line (.replace entity collection id fields)
      ↔ (Update.replace entity collection id fields).keepsText names.vocabulary = true := by
  obtain ⟨commands, idReadable, counted, fieldsReadable⟩ := readable
  have cut : line.text
      = (names.vocabulary.entityName entity).toList ++ ' ' :: ItemCommand.replace.text.toList
        ++ ':' :: (" " ++ (parenthesized (!id.isAtomic) id.text ++ " "
          ++ ("(" ++ Expr.commaText fields ++ ")"))).toList := by
    rw [same]
    simp [ItemCommand.text]
  obtain ⟨tail, text, read⟩ := ofLine_of_commands commands cut
  rw [List.append_assoc, List.cons_append] at cut
  rw [ReadsLine, newVal?_of_commands commands cut, read, keepsText]
  cases bare : id.isBareRead with
  | true =>
      simp only [Bool.not_true, Bool.false_and, Bool.false_eq_true, iff_false, not_and]
      intro _
      exact ofCommand_replace_ne_ok idReadable bare fieldsReadable text _
  | false =>
      rw [ofCommand_replace commands.owned counted idReadable bare fieldsReadable text]
      simp [← Expr.regrouped_eq_iff, ← Expr.regroupedAll_eq_iff]

/-- A printed line holds its effect exactly when the effect keeps its text, by cases on the effect.
-/
theorem readsLine_iff {update : Update} (single : update.isLine = true)
    (readable : update.Readable names)
    (same : line.text = (update.firstText names.vocabulary).toList)
    : ReadsLine names line update ↔ update.keepsText names.vocabulary = true := by
  cases update with
  | assign place name index value => exact readsLine_assign_iff readable same
  | assignLocal slot name value => exact readsLine_assignLocal_iff readable same
  | insert entity collection fields => exact readsLine_insert_iff readable same
  | remove entity collection id => exact readsLine_remove_iff readable same
  | replace entity collection id fields => exact readsLine_replace_iff readable same
  | bind | branch | forEach | loop => cases single

/-- A printed line of a single effect or of a binding opens no block. The names of a readable effect
do not begin with a keyword that would open one.
-/
theorem roleOf_of_readable {update : Update}
    (single : update.isLine = true ∨ update.isBinding = true) (readable : update.Readable names)
    (same : line.text = (update.firstText names.vocabulary).toList)
    : Block.roleOf line = .ok .plain := by
  have command {entity collection : Nat} (commands : names.vocabulary.Commands entity collection)
      (rest : List Char)
      : Text.opensBlock ((names.vocabulary.entityName entity).toList ++ ' ' :: rest) = false := by
    rw [← commands.closed]
    exact Text.opensBlock_congr ⟨by decide, by decide⟩ rfl _ _ _
  refine Block.roleOf_eq_plain (by rw [same]; cases update <;> simp [firstText]) ?_
  rw [same]
  cases update with
  | assign place name index value =>
      have closed := readable.2.2.2
      simpa [firstText, Text.opensBlock_colon] using closed
  | assignLocal slot name value =>
      have closed : Text.opensBlock name.toList = false := by
        rw [Text.opensBlock, List.any_eq_false]
        intro keyword _
        rw [Text.leads_eq_false_of_isIdentifier readable.1 fun _ =>
          Text.continuesWord_eq_false_of_opensHeader]
        exact Bool.false_ne_true
      simpa [firstText, Text.opensBlock_colon] using closed
  | insert entity collection fields => simpa [firstText] using command readable.1 _
  | remove entity collection id => simpa [firstText] using command readable.1 _
  | replace entity collection id fields => simpa [firstText] using command readable.1 _
  | bind slot name value body =>
      simp only [firstText, String.toList_append]
      rfl
  | branch | forEach | loop => cases single <;> contradiction

-----------------------------------------------------------------------------------------
-- Bindings and headers
-----------------------------------------------------------------------------------------

/-- A printed binding is read as its name and its value: the line is cut behind `NewVal` and at its
first colon.
-/
theorem exists_newVal {name : String} {value : Expr} (identifier : isIdentifier name.toList = true)
    (segment : Segment value.text.toList)
    (same : line.text = ("NewVal " ++ name ++ ": " ++ value.text).toList)
    : ∃ valueLine, newVal? line = .ok (some (name, valueLine))
        ∧ valueLine.text = value.text.toList := by
  have named : Segment name.toList := .of_isIdentifier identifier
  have whole : line.text
      = "NewVal".toList ++ ((' ' :: name.toList) ++ ':' :: ' ' :: value.text.toList) := by
    rw [same]
    simp
  have started := Text.afterStart?_eq_some_iff.mpr whole
  have apart : ':' ∉ ' ' :: name.toList := by
    simpa using named.no_colon
  have cut := Text.cutAtFirst?_eq_some_iff.mpr
    (⟨rfl, apart⟩ : _ = _ ++ ':' :: (' ' :: value.text.toList) ∧ _)
  have trimmed {text : List Char} (part : Segment text) : Text.trim (' ' :: text) = text :=
    (Text.trim_cons_blank (by decide) text).trans part.trim_eq
  refine ⟨line.piece (6 + (' ' :: name.toList).length + 1) (' ' :: value.text.toList), ?_,
    trimmed segment⟩
  have read : (line.piece 6 (' ' :: name.toList)).identifier = .ok name := by
    rw [Line.identifier, Line.piece, trimmed named, identifierOf, if_pos identifier,
      String.ofList_toList]
  unfold newVal?
  rw [started]
  dsimp only
  rw [cut]
  exact bind_eq_ok_iff.mpr ⟨name, read, rfl⟩

/-- The parentheses around a filter and what stands between them. -/
def filterGroup : Option Expr → List Char
  | none => []
  | some condition => '(' :: (condition.text.toList ++ [')'])

/-- Behind the hyphen of a loop header stand the entity type and the filter. The first hyphen is
that one, for the name of the local has none.
-/
theorem exists_after_hyphen {vocabulary : Vocabulary} {name : String} {entity : Nat}
    (identifier : isIdentifier name.toList = true) (iterates : vocabulary.Iterates entity)
    (filter : Option Expr)
    : ∃ after,
        Text.trim (name ++ " - " ++ vocabulary.entityName entity ++ filterText filter).toList
            = (name.toList ++ [' ']) ++ '-' :: after
          ∧ Text.trim (after.takeWhile (· ≠ '(')) = (vocabulary.entityName entity).toList
          ∧ after.dropWhile (· ≠ '(') = filterGroup filter := by
  obtain ⟨_, _, trimmed, unopened⟩ := iterates
  generalize vocabulary.entityName entity = owner at trimmed unopened ⊢
  have named : Segment name.toList := .of_isIdentifier identifier
  have first : ∀ c ∈ (name.toList ++ [' ']).head?, Text.isBlank c = false := by
    rw [List.head?_append_of_ne_nil _ named.nonempty]
    exact named.first
  have blank : Text.isBlank ' ' = true := by decide
  have passed {front : List Char} (apart : '(' ∉ front)
      : ∀ c ∈ front, decide (c ≠ '(') = true := fun c member =>
    decide_eq_true (ne_of_mem_of_not_mem member apart)
  cases filter with
  | none =>
      have whole : (name ++ " - " ++ owner ++ filterText none).toList
          = (name.toList ++ [' ']) ++ '-' :: ' ' :: owner.toList := by
        simp [filterText]
      rw [whole, Text.trim_marked (by simp) first (by decide) trimmed.last]
      refine ⟨_, rfl, ?_⟩
      split
      · rename_i empty
        rw [empty]
        exact ⟨rfl, rfl⟩
      · have every := @passed (' ' :: owner.toList) (by simpa using unopened)
        rw [List.takeWhile_eq_self_iff.mpr every]
        exact ⟨(Text.trim_cons_blank blank _).trans trimmed.trim_eq,
          List.dropWhile_eq_nil_iff.mpr every⟩
  | some condition =>
      have whole : (name ++ " - " ++ owner ++ filterText (some condition)).toList
          = (name.toList ++ [' ']) ++ '-' :: ' ' :: ((owner.toList ++ [' '])
              ++ filterGroup (some condition)) := by
        simp [filterText, filterGroup]
      have last : ∀ c ∈ ((owner.toList ++ [' ']) ++ filterGroup (some condition)).getLast?,
          Text.isBlank c = false := by
        simp only [filterGroup, ← List.cons_append, ← List.append_assoc, List.getLast?_concat]
        rintro c ⟨⟩
        decide
      rw [whole, Text.trim_marked (by simp) first (by decide) last]
      refine ⟨_, rfl, ?_⟩
      rw [if_neg (by simp), ← List.cons_append]
      have every := @passed (' ' :: (owner.toList ++ [' '])) (by simpa using unopened)
      rw [List.takeWhile_append_of_pos every, List.dropWhile_append_of_pos every]
      refine ⟨?_, rfl⟩
      change Text.trim (' ' :: (owner.toList ++ [' ']) ++ []) = _
      rw [List.append_nil, Text.trim_cons_blank blank, Text.trim_append_blank blank,
        trimmed.trim_eq]

/-- A printed loop header is read as it was, with the filter regrouped. The filter is read in the
scope that has the local.
-/
theorem EachHeader.ofLine_printed {name : String} {entity : Nat} {filter : Option Expr}
    (identifier : isIdentifier name.toList = true)
    (iterates : names.vocabulary.Iterates entity)
    (readable
      : ∀ condition, filter = some condition
          → condition.Readable (names.push name (.entity entity)))
    (same
      : line.text
        = Text.trim (name ++ " - " ++ names.vocabulary.entityName entity
            ++ filterText filter).toList)
    : EachHeader.ofLine names line = .ok ⟨name, entity, filter.map Expr.regrouped⟩ := by
  obtain ⟨after, whole, owner, rest⟩ := exists_after_hyphen identifier iterates filter
  rw [← same] at whole
  have named : Segment name.toList := .of_isIdentifier identifier
  have apart : '-' ∉ name.toList ++ [' '] := by
    rw [List.mem_append, not_or]
    refine ⟨fun member => ?_, by decide⟩
    exact absurd ((continuesWord_of_isIdentifier identifier).2 '-' member) (by decide)
  have cut := Text.cutAtFirst?_eq_some_iff.mpr ⟨whole, apart⟩
  have read : (line.piece 0 (name.toList ++ [' '])).identifier = .ok name := by
    rw [Line.identifier, Line.piece, Text.trim_append_blank (by decide), named.trim_eq,
      identifierOf, if_pos identifier, String.ofList_toList]
  unfold EachHeader.ofLine
  rw [cut]
  refine bind_eq_ok_iff.mpr ⟨name, read, ?_⟩
  dsimp only
  rw [Line.string, Line.piece, owner, String.ofList_toList, iterates.named, rest]
  cases filter with
  | none => rfl
  | some condition =>
      refine bind_eq_ok_iff.mpr
        ⟨condition.regrouped, Expr.ofLine_of_group (readable condition rfl) ?_, rfl⟩
      exact (Text.trimmed_between (by decide) condition.text.toList).trim_eq

end Update

end Dispatch
