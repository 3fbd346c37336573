import Dispatch.Domain.Parser
import Dispatch.Proofs.Printing.EffectLines

/-!
Effects that were read, printed, and read again. The printed lines are always nested into blocks
that show the effects, a header with its body and an `Else` only where something stands behind it;
from these blocks the same effects are read exactly when each effect keeps its text.
-/

namespace Dispatch

open Text (Plain Solid)

-----------------------------------------------------------------------------------------
-- Printed lines
-----------------------------------------------------------------------------------------

theorem toList_indented (depth : Nat) (text : String)
    : (indented depth text).toList = List.replicate (2 * depth) ' ' ++ text.toList := by
  rw [indented, String.toList_append, String.toList_ofList]

/-- A line is read without its indentation, by induction on the number of spaces. -/
theorem trim_indented {text : String} (solid : Solid text.toList) (depth : Nat)
    : Text.trim (indented depth text).toList = text.toList := by
  rw [toList_indented]
  induction 2 * depth with
  | zero => exact solid.trim_eq
  | succ count ih =>
      rw [List.replicate_succ, List.cons_append, Text.trim_cons_blank (by decide), ih]

theorem plain_indented {text : String} (solid : Solid text.toList) (depth : Nat)
    : Plain (indented depth text).toList := by
  have spaces : Plain (List.replicate (2 * depth) ' ') :=
    ⟨by simp [List.mem_replicate], by simp [List.mem_replicate]⟩
  rw [toList_indented]
  exact spaces.append solid.toPlain

theorem toList_linesText (lines : List String)
    : (linesText lines).toList = (lines.map String.toList).flatMap (· ++ ['\n']) := by
  induction lines with
  | nil => rfl
  | cons line rest ih => simp [linesText, ih]

/-- The printed line is read as the text that is indented in it. -/
def IsPrinted (raw : String) : Prop :=
  ∃ depth text, raw = indented depth text ∧ Solid text.toList

/-- The texts that printed lines are read as. -/
def codes (lines : List String) : List (List Char) := lines.map fun line => Text.trim line.toList

namespace Update

theorem solid_end : Solid "End".toList := .of_all (by decide) (by decide)

theorem solid_else : Solid "Else:".toList := .of_all (by decide) (by decide)

mutual

/-- The lines of an effect are printed as indented lines that are solid, by induction on its nesting
together with the next.
-/
theorem isPrinted_of_mem_lines {names : Names} (update : Update) (readable : update.Readable names)
    (depth : Nat) {raw : String} (member : raw ∈ update.lines names.vocabulary depth)
    : IsPrinted raw := by
  have first : IsPrinted (indented depth (update.firstText names.vocabulary)) :=
    ⟨depth, _, rfl, solid_firstText readable⟩
  have last : IsPrinted (indented depth "End") := ⟨depth, _, rfl, solid_end⟩
  cases update with
  | assign | assignLocal | insert | remove | replace =>
      obtain rfl := List.mem_singleton.mp member
      exact first
  | bind slot name value body =>
      rw [lines] at member
      rcases List.mem_cons.mp member with rfl | inside
      · exact first
      · exact isPrinted_of_mem_linesOf body readable.2.2.2 depth inside
  | branch condition thenBody elseBody =>
      obtain ⟨_, thenReadable, elseReadable⟩ := readable
      rw [lines] at member
      simp only [List.mem_append, List.mem_singleton] at member
      rcases member with (((rfl | inside) | turn) | inside) | rfl
      · exact first
      · exact isPrinted_of_mem_linesOf thenBody thenReadable (depth + 1) inside
      · split at turn
        · cases turn
        · obtain rfl := List.mem_singleton.mp turn
          exact ⟨depth, _, rfl, solid_else⟩
      · exact isPrinted_of_mem_linesOf elseBody elseReadable (depth + 1) inside
      · exact last
  | forEach slot name entity filter body =>
      obtain ⟨_, _, _, _, bodyReadable⟩ := readable
      rw [lines] at member
      simp only [List.mem_append, List.mem_singleton] at member
      rcases member with (rfl | inside) | rfl
      · exact first
      · exact isPrinted_of_mem_linesOf body bodyReadable (depth + 1) inside
      · exact last
  | loop condition body =>
      rw [lines] at member
      simp only [List.mem_append, List.mem_singleton] at member
      rcases member with (rfl | inside) | rfl
      · exact first
      · exact isPrinted_of_mem_linesOf body readable.2 (depth + 1) inside
      · exact last

/-- Effects are printed as indented lines, by induction on their nesting. A binding is followed by
its body at the same depth.
-/
theorem isPrinted_of_mem_linesOf {names : Names} (updates : List Update)
    (readable : AllReadable names updates) (depth : Nat) {raw : String}
    (member : raw ∈ linesOf names.vocabulary depth updates)
    : IsPrinted raw := by
  cases updates with
  | nil => cases member
  | cons update rest =>
      obtain ⟨updateReadable, _, restReadable⟩ := readable
      rw [linesOf] at member
      rcases List.mem_append.mp member with inside | inside
      · exact isPrinted_of_mem_lines update updateReadable depth inside
      · exact isPrinted_of_mem_linesOf rest restReadable depth inside

end

-----------------------------------------------------------------------------------------
-- Blocks of printed lines
-----------------------------------------------------------------------------------------

mutual

/-- The block shows an effect other than a binding as it is printed. -/
inductive ShownBy (vocabulary : Vocabulary) : Block → Update → Prop
  | line {line : Line} {update : Update} (single : update.isLine = true)
      (same : line.text = (update.firstText vocabulary).toList)
      : ShownBy vocabulary (.plain line) update
  | choice {header : Line} {thenBlocks elseBlocks : List Block} {condition : Expr}
      {thenBody elseBody : List Update}
      (same : header.text = '(' :: (condition.text.toList ++ [')']))
      (thenShown : AllShownBy vocabulary thenBlocks thenBody)
      (elseShown : AllShownBy vocabulary elseBlocks elseBody)
      : ShownBy vocabulary (.choice header thenBlocks elseBlocks)
          (.branch condition thenBody elseBody)
  | each {header : Line} {blocks : List Block} {slot : Nat} {name : String} {entity : Nat}
      {filter : Option Expr} {body : List Update}
      (same
        : header.text
          = Text.trim (name ++ " - " ++ vocabulary.entityName entity ++ filterText filter).toList)
      (bodyShown : AllShownBy vocabulary blocks body)
      : ShownBy vocabulary (.each header blocks) (.forEach slot name entity filter body)
  | repeated {header : Line} {blocks : List Block} {condition : Expr} {body : List Update}
      (same : header.text = '(' :: (condition.text.toList ++ [')']))
      (bodyShown : AllShownBy vocabulary blocks body)
      : ShownBy vocabulary (.repeated header blocks) (.loop condition body)

/-- The blocks show effects as they are printed, the body of a binding behind it. -/
inductive AllShownBy (vocabulary : Vocabulary) : List Block → List Update → Prop
  | nil : AllShownBy vocabulary [] []
  | cons {block : Block} {blocks : List Block} {update : Update} {updates : List Update}
      (other : update.isBinding = false) (first : ShownBy vocabulary block update)
      (rest : AllShownBy vocabulary blocks updates)
      : AllShownBy vocabulary (block :: blocks) (update :: updates)
  | bind {line : Line} {blocks : List Block} {slot : Nat} {name : String} {value : Expr}
      {body : List Update} (same : line.text = ("NewVal " ++ name ++ ": " ++ value.text).toList)
      (bodyShown : AllShownBy vocabulary blocks body)
      : AllShownBy vocabulary (.plain line :: blocks) [.bind slot name value body]

end

theorem codes_append (front back : List String)
    : codes (front ++ back) = codes front ++ codes back :=
  List.map_append

theorem codes_indented {text : String} (solid : Solid text.toList) (depth : Nat)
    (rest : List String)
    : codes (indented depth text :: rest) = text.toList :: codes rest :=
  congrArg (· :: codes rest) (trim_indented solid depth)

theorem exists_line_of_codes {text : String} (solid : Solid text.toList) {depth : Nat}
    {read : List Line} (same : read.map (·.text) = codes [indented depth text])
    : ∃ line, read = [line] ∧ line.text = text.toList := by
  rw [codes_indented solid] at same
  exact List.map_eq_singleton_iff.mp same

/-- A header, the lines of a body and `End` are read apart, and the texts of the first and the last
are known.
-/
theorem exists_body_of_codes {text : String} (solid : Solid text.toList) {depth : Nat}
    {body : List String} {read : List Line}
    (same
      : read.map (·.text) = codes ([indented depth text] ++ body ++ [indented depth "End"]))
    : ∃ header inner last, read = header :: inner ++ [last] ∧ header.text = text.toList
        ∧ inner.map (·.text) = codes body ∧ Block.roleOf last = .ok .close := by
  rw [codes_append, List.singleton_append, codes_indented solid] at same
  obtain ⟨front, lasts, rfl, frontSame, lastSame⟩ := List.map_eq_append_iff.mp same
  obtain ⟨header, inner, rfl, text, innerSame⟩ := List.map_eq_cons_iff.mp frontSame
  obtain ⟨last, rfl, ended⟩ := exists_line_of_codes solid_end lastSame
  exact ⟨header, inner, last, rfl, text, innerSame, Block.roleOf_end ended⟩

mutual

/-- The printed lines of an effect other than a binding are nested into one block. The header opens
it, the bodies nest by induction, and `Else:` and `End` stand where they close them.
-/
theorem exists_shownBy (names : Names) (update : Update) (readable : update.Readable names)
    (other : update.isBinding = false) (depth : Nat) {read : List Line}
    (same : read.map (·.text) = codes (update.lines names.vocabulary depth))
    : ∃ block, Block.Nests read [block] ∧ ShownBy names.vocabulary block update := by
  have first := solid_firstText readable
  cases update with
  | assign | assignLocal | insert | remove | replace =>
      rw [lines_of_isLine rfl] at same
      obtain ⟨line, rfl, text⟩ := exists_line_of_codes first same
      exact ⟨.plain line, .plain (roleOf_of_readable (.inl rfl) readable text), .line rfl text⟩
  | bind => cases other
  | branch condition thenBody elseBody =>
      obtain ⟨_, thenReadable, elseReadable⟩ := readable
      have grouped
          : (Update.branch condition thenBody elseBody).lines names.vocabulary depth
            = [indented depth (firstText names.vocabulary (.branch condition thenBody elseBody))]
              ++ (linesOf names.vocabulary (depth + 1) thenBody
                ++ ((if elseBody.isEmpty then [] else [indented depth "Else:"])
                  ++ linesOf names.vocabulary (depth + 1) elseBody))
              ++ [indented depth "End"] := by
        rw [lines]
        simp only [List.append_assoc]
        rfl
      rw [grouped] at same
      obtain ⟨header, inner, last, rfl, text, innerSame, closes⟩ := exists_body_of_codes first same
      rw [codes_append] at innerSame
      obtain ⟨thenLines, others, rfl, thenSame, othersSame⟩ := List.map_eq_append_iff.mp innerSame
      obtain ⟨thenBlocks, thenNests, thenShown⟩ :=
        exists_allShownBy names thenBody thenReadable (depth + 1) thenSame
      obtain ⟨kept, found, keptText⟩ := @Block.exists_openCase header condition.text.toList
        (by rw [text]; simp [firstText])
      split at othersSame
      · rename_i empty
        obtain rfl := List.isEmpty_iff.mp empty
        obtain rfl := List.map_eq_nil_iff.mp othersSame
        rw [List.append_nil]
        exact ⟨.choice kept thenBlocks [], .block found rfl thenNests closes,
          .choice keptText thenShown .nil⟩
      · rw [List.singleton_append, codes_indented solid_else] at othersSame
        obtain ⟨middle, elseLines, rfl, turns, elseSame⟩ := List.map_eq_cons_iff.mp othersSame
        obtain ⟨elseBlocks, elseNests, elseShown⟩ :=
          exists_allShownBy names elseBody elseReadable (depth + 1) elseSame
        have nests := Block.Nests.choice found thenNests (Block.roleOf_else turns) elseNests closes
        exact ⟨.choice kept thenBlocks elseBlocks, nests, .choice keptText thenShown elseShown⟩
  | forEach slot name entity filter body =>
      obtain ⟨_, _, _, _, bodyReadable⟩ := readable
      rw [lines] at same
      obtain ⟨header, inner, last, rfl, text, innerSame, closes⟩ := exists_body_of_codes first same
      obtain ⟨blocks, nests, shown⟩ :=
        exists_allShownBy (names.push name (.entity entity)) body bodyReadable (depth + 1) innerSame
      obtain ⟨kept, found, keptText⟩ := @Block.exists_openAll header
        (name ++ " - " ++ names.vocabulary.entityName entity ++ filterText filter).toList
        (by rw [text]; simp [firstText])
      exact ⟨.each kept blocks, .block found rfl nests closes, .each keptText shown⟩
  | loop condition body =>
      rw [lines] at same
      obtain ⟨header, inner, last, rfl, text, innerSame, closes⟩ := exists_body_of_codes first same
      obtain ⟨blocks, nests, shown⟩ :=
        exists_allShownBy names body readable.2 (depth + 1) innerSame
      obtain ⟨kept, found, keptText⟩ := @Block.exists_openRepeat header condition.text.toList
        (by rw [text]; simp [firstText])
      exact ⟨.repeated kept blocks, .block found rfl nests closes, .repeated keptText shown⟩

/-- The printed lines of effects are nested into blocks that show them, by induction on their
nesting. The line of a binding is a block of its own before those of its body.
-/
theorem exists_allShownBy (names : Names) (updates : List Update)
    (readable : AllReadable names updates) (depth : Nat) {read : List Line}
    (same : read.map (·.text) = codes (linesOf names.vocabulary depth updates))
    : ∃ blocks, Block.Nests read blocks ∧ AllShownBy names.vocabulary blocks updates := by
  cases updates with
  | nil =>
      obtain rfl := List.map_eq_nil_iff.mp same
      exact ⟨[], .nil, .nil⟩
  | cons update rest =>
      obtain ⟨updateReadable, ends, restReadable⟩ := readable
      rw [linesOf, codes_append] at same
      obtain ⟨front, back, rfl, frontSame, backSame⟩ := List.map_eq_append_iff.mp same
      obtain ⟨blocks, restNests, restShown⟩ :=
        exists_allShownBy names rest restReadable depth backSame
      cases binds : update.isBinding with
      | false =>
          obtain ⟨block, nests, shown⟩ :=
            exists_shownBy names update updateReadable binds depth frontSame
          exact ⟨block :: blocks, nests.append restNests, .cons binds shown restShown⟩
      | true =>
          obtain rfl := ends binds
          cases update with
          | bind slot name value body =>
              obtain rfl := List.map_eq_nil_iff.mp backSame
              have first : Solid ("NewVal " ++ name ++ ": " ++ value.text).toList :=
                solid_firstText updateReadable
              rw [lines, codes_indented first] at frontSame
              obtain ⟨line, inner, rfl, text, innerSame⟩ := List.map_eq_cons_iff.mp frontSame
              obtain ⟨bodyBlocks, nests, shown⟩ := exists_allShownBy (names.push name .temporary)
                body updateReadable.2.2.2 depth innerSame
              have plain := roleOf_of_readable (.inr binds) updateReadable text
              rw [List.append_nil]
              exact ⟨.plain line :: bodyBlocks, (Block.Nests.plain plain).append nests,
                .bind text shown⟩
          | assign | assignLocal | insert | remove | replace => cases binds
          | branch | forEach | loop => cases binds

end

-----------------------------------------------------------------------------------------
-- Blocks read again
-----------------------------------------------------------------------------------------

/-- The first effect of blocks is that of the first block where it is no binding. -/
theorem ofBlocks_cons_iff {names : Names} {block : Block} {blocks : List Block} {update : Update}
    {rest : List Update} {scope : Scope} (other : update.isBinding = false)
    : ofBlocks names (block :: blocks) = .ok (update :: rest, scope)
      ↔ (newValOf? block = .ok none ∧ ofBlock names block = .ok update)
        ∧ ofBlocks names blocks = .ok (rest, scope) := by
  rw [ofBlocks]
  constructor
  · intro read
    obtain ⟨named?, namedRead, read⟩ := bind_eq_ok_iff.mp read
    cases named? with
    | some named =>
        obtain ⟨value, _, read⟩ := bind_eq_ok_iff.mp read
        obtain ⟨⟨body, inner⟩, _, done⟩ := bind_eq_ok_iff.mp read
        obtain ⟨same, _⟩ := Prod.mk.inj (Except.ok.inj done)
        obtain ⟨rfl, _⟩ := List.cons.inj same
        cases other
    | none =>
        obtain ⟨found, updateRead, read⟩ := bind_eq_ok_iff.mp read
        obtain ⟨⟨others, inner⟩, restRead, done⟩ := bind_eq_ok_iff.mp read
        obtain ⟨same, rfl⟩ := Prod.mk.inj (Except.ok.inj done)
        obtain ⟨rfl, rfl⟩ := List.cons.inj same
        exact ⟨⟨namedRead, updateRead⟩, restRead⟩
  · rintro ⟨⟨named, updateRead⟩, restRead⟩
    exact bind_eq_ok_iff.mpr ⟨none, named, bind_eq_ok_iff.mpr ⟨update, updateRead,
      bind_eq_ok_iff.mpr ⟨_, restRead, rfl⟩⟩⟩

/-- Blocks that begin with a binding hold its value and, as its body, what all later blocks hold in
the scope with the local.
-/
theorem ofBlocks_bind_iff {names : Names} {line valueLine : Line} {blocks : List Block}
    {name : String} (named : newVal? line = .ok (some (name, valueLine))) {value : Expr}
    {body : List Update}
    : (∃ scope,
          ofBlocks names (.plain line :: blocks)
            = .ok ([.bind names.scope.size name value body], scope))
      ↔ Expr.ofLine names valueLine = .ok value
        ∧ ∃ scope, ofBlocks (names.push name .temporary) blocks = .ok (body, scope) := by
  rw [ofBlocks]
  constructor
  · rintro ⟨scope, read⟩
    obtain ⟨_, namedRead, read⟩ := bind_eq_ok_iff.mp read
    obtain rfl := Except.ok.inj (namedRead.symm.trans named)
    obtain ⟨value, valueRead, read⟩ := bind_eq_ok_iff.mp read
    obtain ⟨⟨body, inner⟩, bodyRead, done⟩ := bind_eq_ok_iff.mp read
    obtain ⟨same, _⟩ := Prod.mk.inj (Except.ok.inj done)
    obtain ⟨same, _⟩ := List.cons.inj same
    obtain ⟨_, _, rfl, rfl⟩ := Update.bind.inj same
    exact ⟨valueRead, inner, bodyRead⟩
  · rintro ⟨valueRead, scope, bodyRead⟩
    exact ⟨scope, bind_eq_ok_iff.mpr ⟨_, named, bind_eq_ok_iff.mpr ⟨value, valueRead,
      bind_eq_ok_iff.mpr ⟨_, bodyRead, rfl⟩⟩⟩⟩

/-- A choice holds the condition of its header and the effects of both bodies. -/
theorem ofBlock_choice_iff {names : Names} {header : Line} {thenBlocks elseBlocks : List Block}
    {condition : Expr} {thenBody elseBody : List Update}
    : ofBlock names (.choice header thenBlocks elseBlocks)
        = .ok (.branch condition thenBody elseBody)
      ↔ Expr.ofLine names header = .ok condition
        ∧ (∃ scope, ofBlocks names thenBlocks = .ok (thenBody, scope))
        ∧ ∃ scope, ofBlocks names elseBlocks = .ok (elseBody, scope) := by
  rw [ofBlock]
  constructor
  · intro read
    obtain ⟨condition, conditionRead, read⟩ := bind_eq_ok_iff.mp read
    obtain ⟨⟨thenBody, _⟩, thenRead, read⟩ := bind_eq_ok_iff.mp read
    obtain ⟨⟨elseBody, _⟩, elseRead, done⟩ := bind_eq_ok_iff.mp read
    obtain ⟨rfl, rfl, rfl⟩ := Update.branch.inj (Except.ok.inj done)
    exact ⟨conditionRead, ⟨_, thenRead⟩, _, elseRead⟩
  · rintro ⟨conditionRead, ⟨_, thenRead⟩, _, elseRead⟩
    exact bind_eq_ok_iff.mpr ⟨_, conditionRead, bind_eq_ok_iff.mpr ⟨_, thenRead,
      bind_eq_ok_iff.mpr ⟨_, elseRead, rfl⟩⟩⟩

/-- A loop over ids holds what its header says and the effects of its body, in the scope with the
local.
-/
theorem ofBlock_each_iff {names : Names} {line : Line} {header : EachHeader} {blocks : List Block}
    (headerRead : EachHeader.ofLine names line = .ok header) {filter : Option Expr}
    {body : List Update}
    : ofBlock names (.each line blocks)
        = .ok (.forEach names.scope.size header.name header.entity filter body)
      ↔ header.filter = filter
        ∧ ∃ scope,
            ofBlocks (names.push header.name (.entity header.entity)) blocks
              = .ok (body, scope) := by
  rw [ofBlock]
  constructor
  · intro read
    obtain ⟨_, sameRead, read⟩ := bind_eq_ok_iff.mp read
    obtain rfl := Except.ok.inj (headerRead.symm.trans sameRead)
    obtain ⟨⟨body, _⟩, bodyRead, done⟩ := bind_eq_ok_iff.mp read
    obtain ⟨_, _, _, rfl, rfl⟩ := Update.forEach.inj (Except.ok.inj done)
    exact ⟨rfl, _, bodyRead⟩
  · rintro ⟨rfl, _, bodyRead⟩
    exact bind_eq_ok_iff.mpr ⟨_, headerRead, bind_eq_ok_iff.mpr ⟨_, bodyRead, rfl⟩⟩

/-- A loop with a condition holds that of its header and the effects of its body. -/
theorem ofBlock_repeated_iff {names : Names} {header : Line} {blocks : List Block}
    {condition : Expr} {body : List Update}
    : ofBlock names (.repeated header blocks) = .ok (.loop condition body)
      ↔ Expr.ofLine names header = .ok condition
        ∧ ∃ scope, ofBlocks names blocks = .ok (body, scope) := by
  rw [ofBlock]
  constructor
  · intro read
    obtain ⟨condition, conditionRead, read⟩ := bind_eq_ok_iff.mp read
    obtain ⟨⟨body, _⟩, bodyRead, done⟩ := bind_eq_ok_iff.mp read
    obtain ⟨rfl, rfl⟩ := Update.loop.inj (Except.ok.inj done)
    exact ⟨conditionRead, _, bodyRead⟩
  · rintro ⟨conditionRead, _, bodyRead⟩
    exact bind_eq_ok_iff.mpr ⟨_, conditionRead, bind_eq_ok_iff.mpr ⟨_, bodyRead, rfl⟩⟩

mutual

/-- A block that shows an effect holds it exactly when the effect keeps its text. By cases on the
effect: a single line is read from its tokens, and the others from their headers and bodies.
-/
theorem ofBlock_shownBy_iff (names : Names) (update : Update) {block : Block}
    (readable : update.Readable names) (shown : ShownBy names.vocabulary block update)
    : (newValOf? block = .ok none ∧ ofBlock names block = .ok update)
      ↔ update.keepsText names.vocabulary = true := by
  cases shown with
  | line single same =>
      rw [ofBlock]
      exact readsLine_iff single readable same
  | @choice header thenBlocks elseBlocks condition thenBody elseBody same thenShown elseShown =>
      obtain ⟨conditionReadable, thenReadable, elseReadable⟩ := readable
      have thenIff := ofBlocks_allShownBy_iff names thenBody thenReadable thenShown
      have elseIff := ofBlocks_allShownBy_iff names elseBody elseReadable elseShown
      rw [ofBlock_choice_iff, Expr.ofLine_of_group conditionReadable same, thenIff, elseIff,
        keepsText, Except.ok.injEq, Expr.regrouped_eq_iff]
      simp [newValOf?, and_assoc]
  | @each header blocks slot name entity filter body same bodyShown =>
      obtain ⟨rfl, identifier, iterates, filterReadable, bodyReadable⟩ := readable
      have headerRead := EachHeader.ofLine_printed identifier iterates filterReadable same
      have bodyIff := ofBlocks_allShownBy_iff _ body bodyReadable bodyShown
      have filterIff : filter.map Expr.regrouped = filter ↔ filter.all Expr.keepsGroups = true := by
        cases filter <;> simp [Expr.regrouped_eq_iff]
      rw [ofBlock_each_iff headerRead, bodyIff, filterIff, keepsText]
      simp [newValOf?, Names.push]
  | @repeated header blocks condition body same bodyShown =>
      obtain ⟨conditionReadable, bodyReadable⟩ := readable
      have bodyIff := ofBlocks_allShownBy_iff names body bodyReadable bodyShown
      rw [ofBlock_repeated_iff, Expr.ofLine_of_group conditionReadable same, bodyIff, keepsText,
        Except.ok.injEq, Expr.regrouped_eq_iff]
      simp [newValOf?]

/-- Blocks that show effects hold them exactly when the effects keep their text, by induction on the
nesting of the effects. The scope of each block is that of the effects before it.
-/
theorem ofBlocks_allShownBy_iff (names : Names) (updates : List Update) {blocks : List Block}
    (readable : AllReadable names updates) (shown : AllShownBy names.vocabulary blocks updates)
    : (∃ scope, ofBlocks names blocks = .ok (updates, scope))
      ↔ allKeepText names.vocabulary updates = true := by
  cases shown with
  | nil => exact ⟨fun _ => rfl, fun _ => ⟨_, rfl⟩⟩
  | @cons block blocks update rest other first restShown =>
      have firstIff := ofBlock_shownBy_iff names update readable.1 first
      have restIff := ofBlocks_allShownBy_iff names rest readable.2.2 restShown
      rw [allKeepText, Bool.and_eq_true, ← firstIff, ← restIff]
      simp only [ofBlocks_cons_iff other, exists_and_left]
  | @bind line blocks slot name value body same bodyShown =>
      obtain ⟨⟨rfl, identifier, valueReadable, bodyReadable⟩, _⟩ := readable
      obtain ⟨valueLine, named, text⟩ :=
        exists_newVal identifier (Expr.segment_text valueReadable) same
      have bodyIff := ofBlocks_allShownBy_iff _ body bodyReadable bodyShown
      rw [ofBlocks_bind_iff named, Expr.ofLine_of_readable valueReadable text, bodyIff,
        allKeepText, keepsText, Except.ok.injEq, Expr.regrouped_eq_iff]
      simp [allKeepText, Names.push]

end

/-- Printed effects are always nested into blocks again; they are read as the same effects exactly
when each of them keeps its text.

The condition is decided on the effects alone. Every vocabulary that declarations build is linked:
its names lead to the entity types that are printed by them.
-/
theorem ofLines_textOf {names : Names} {source : List Char} {updates : List Update}
    (linked : names.vocabulary.Linked)
    (read : ofLines names (Line.ofSource source) = .ok updates)
    : (∃ blocks, Block.nest (Line.ofSource (textOf names.vocabulary updates).toList) = .ok blocks)
      ∧ (ofLines names (Line.ofSource (textOf names.vocabulary updates).toList) = .ok updates
          ↔ allKeepText names.vocabulary updates = true) := by
  have readable := allReadable_of_ofLines linked read
  have printed (raw : List Char)
      (member : raw ∈ (linesOf names.vocabulary 0 updates).map String.toList)
      : Plain raw ∧ Text.trim raw ≠ [] := by
    obtain ⟨line, inside, rfl⟩ := List.mem_map.mp member
    obtain ⟨depth, text, rfl, solid⟩ := isPrinted_of_mem_linesOf updates readable 0 inside
    exact ⟨plain_indented solid depth, by rw [trim_indented solid]; exact solid.nonempty⟩
  have texts := Line.texts_ofSource printed
  rw [← toList_linesText, ← textOf, List.map_map] at texts
  obtain ⟨blocks, nests, shown⟩ := exists_allShownBy names updates readable 0 texts
  have nested := Block.nest_of_nests nests
  refine ⟨⟨blocks, nested⟩, ?_⟩
  rw [← ofBlocks_allShownBy_iff names updates readable shown]
  constructor
  · intro again
    obtain ⟨_, same, again⟩ := bind_eq_ok_iff.mp again
    obtain rfl := Except.ok.inj (nested.symm.trans same)
    obtain ⟨⟨found, scope⟩, blocksRead, done⟩ := bind_eq_ok_iff.mp again
    obtain rfl := Except.ok.inj done
    exact ⟨scope, blocksRead⟩
  · rintro ⟨scope, blocksRead⟩
    exact bind_eq_ok_iff.mpr ⟨blocks, nested, bind_eq_ok_iff.mpr ⟨_, blocksRead, rfl⟩⟩

-----------------------------------------------------------------------------------------
-- Packages
-----------------------------------------------------------------------------------------

/-- A domain whose packages have a weight, and a variable that can name one of them. -/
def depotText : List Char :=
  ["Start Domain:", "Entities:", "Package", "End Entities", "Variables:", "var target INT",
    "items Package var weight INT", "End Variables", "End Domain"].flatMap
      fun line => line.toList ++ ['\n']

/-- The names that the domain declares. -/
def depotNames : Names where
  vocabulary :=
    { entities := [⟨"Package", 0, none, some 0, 3⟩]
      indices := [("Package", 0)]
      collections := [0]
      fieldCounts := [1]
      names := [⟨"weight", .field 0 0 false, .int⟩, ⟨"target", .var 0, .int⟩] }
  scope := .empty

/-- The depot is a domain that is accepted, and declares the vocabulary of the round trip. -/
theorem vocabulary_of_depotText
    : (Domain.ofText depotText).toOption.map (·.vocabulary) = some depotNames.vocabulary := by
  decide +kernel

/-- The vocabulary of the depot is linked, as it is that of an accepted domain. -/
theorem linked_depotNames : depotNames.vocabulary.Linked := by
  obtain ⟨domain, read, same⟩ := Option.map_eq_some_iff.mp vocabulary_of_depotText
  rw [← same]
  exact Domain.linked_of_ofText (ok_of_toOption read)

/-- Replaces the package that the variable names. -/
def replaceTarget : List Char := "Package replace: (target) (1)\n".toList

/-- Every form of an effect, the else branch left empty. -/
def roundTrip : List Char :=
  ["target: 0", "Case (target < 3):", "Package add: (target)", "Else", "End",
    "All (parcel - Package (weight parcel > 1)):", "weight (parcel): (2)",
    "Package replace: parcel (3)", "Package remove: parcel", "End", "Repeat (target < 5):",
    "NewVal next: target + 1", "next: next * 2", "target: next", "End"].flatMap
      fun line => line.toList ++ ['\n']

/-- An id in parentheses is printed without them, and the fields behind it are then its index. So
the printed line has no fields, and is refused.
-/
theorem misread_replaceTarget
    : (Domain.ofText depotText).toOption.map (·.vocabulary) = some depotNames.vocabulary
      ∧ (∃ updates, ofLines depotNames (Line.ofSource replaceTarget) = .ok updates
          ∧ textOf depotNames.vocabulary updates = "Package replace: target (1)\n"
          ∧ ∀ again,
              ofLines depotNames (Line.ofSource (textOf depotNames.vocabulary updates).toList)
                ≠ .ok again) := by
  have accepted : (ofLines depotNames (Line.ofSource replaceTarget)).toOption.map
      (textOf depotNames.vocabulary) = some "Package replace: target (1)\n" := by
    decide +kernel
  have refused
      : (ofLines depotNames (Line.ofSource "Package replace: target (1)\n".toList)).toOption.isNone
        = true := by
    decide +kernel
  obtain ⟨updates, read, printed⟩ := Option.map_eq_some_iff.mp accepted
  refine ⟨vocabulary_of_depotText, updates, ok_of_toOption read, printed, fun again readAgain => ?_⟩
  rw [← printed, readAgain] at refused
  cases refused

/-- Witness: effects of every form are read again where they keep their text, and the replacement is
not.
-/
theorem ofLines_textOf_depot
    : (∃ updates, ofLines depotNames (Line.ofSource roundTrip) = .ok updates
        ∧ ofLines depotNames (Line.ofSource (textOf depotNames.vocabulary updates).toList)
          = .ok updates)
      ∧ ∃ updates, ofLines depotNames (Line.ofSource replaceTarget) = .ok updates
        ∧ ofLines depotNames (Line.ofSource (textOf depotNames.vocabulary updates).toList)
          ≠ .ok updates := by
  have kept : (ofLines depotNames (Line.ofSource roundTrip)).toOption.map
      (allKeepText depotNames.vocabulary) = some true := by
    decide +kernel
  have lost : (ofLines depotNames (Line.ofSource replaceTarget)).toOption.map
      (allKeepText depotNames.vocabulary) = some false := by
    decide +kernel
  obtain ⟨updates, read, keeps⟩ := Option.map_eq_some_iff.mp kept
  obtain ⟨others, othersRead, loses⟩ := Option.map_eq_some_iff.mp lost
  have updatesRead := ok_of_toOption read
  have othersRead := ok_of_toOption othersRead
  refine ⟨⟨updates, updatesRead, (ofLines_textOf linked_depotNames updatesRead).2.mpr keeps⟩,
    others, othersRead, ?_⟩
  rw [Ne, (ofLines_textOf linked_depotNames othersRead).2, loses]
  exact Bool.false_ne_true

end Update

end Dispatch
