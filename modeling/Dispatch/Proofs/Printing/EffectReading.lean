import Dispatch.Proofs.Printing.PrintedSegments
import Dispatch.Proofs.Printing.RegroupedReading
import Dispatch.Update.Parser
import Dispatch.Update.Printer

/-!
Assignments and commands on items, read from the tokens of their printed texts. They come back with
their expressions regrouped, but for a replacement whose id is printed as a variable without an
index: the parentheses around the fields are then taken for one.
-/

namespace Dispatch

variable {names : Names} {context : LineContext}

/-- A space before a text adds no token. -/
theorem Lexes.indented {text : String} {tokens : List Token} (lexes : Lexes text.toList tokens)
    : Lexes (" " ++ text).toList tokens := by
  simpa using lexes.blank

theorem Lexes.colon {left right : String} {tokens others : List Token}
    (first : Lexes left.toList tokens) (second : Lexes right.toList others)
    : Lexes (left ++ ": " ++ right).toList (tokens ++ .symbol .colon :: others) := by
  have next := (symbol .colon).append second.blank fun _ _ => .blank _
  have whole := first.append next fun rest _ => .colon _
  simpa [Symbol.text] using whole

-----------------------------------------------------------------------------------------
-- Assignments
-----------------------------------------------------------------------------------------

theorem Expr.readExpr_tokens {expr : Expr} (readable : expr.Readable context.toNames)
    {front : List Lexeme} (same : front.map (·.token) = expr.tokens)
    : Expr.readExpr context front = .ok (expr.regrouped, []) := by
  have whole := (readsBack_of_readable readable).opened.whole front same [] .nil
  rwa [List.append_nil] at whole

/-- Where a symbol other than an opening parenthesis comes next, there is no index. -/
theorem Expr.takeIndex_symbol {mark : Symbol} (other : mark ≠ .openParen) (span : Span)
    (tail : List Lexeme)
    : takeIndex context (⟨.symbol mark, span⟩ :: tail)
      = .ok (.int 0, ⟨.symbol mark, span⟩ :: tail) := by
  unfold takeIndex depthFor
  rw [Nat.mul_succ]
  unfold readIndex
  cases mark <;> first | rfl | exact absurd rfl other

/-- The target of an assignment is read from its tokens, up to the colon. Without an index it is
read at index 0, as it was printed.
-/
theorem AssignmentTarget.read_stored {place : Place} {name : String} {index : Expr}
    (readable : (Expr.read place name index).Readable context.toNames)
    (mutable : place.isConstant = false) {front tail : List Lexeme}
    (same : front.map (·.token) = (Expr.read place name index).tokens) (span : Span)
    : read context (front ++ ⟨.symbol .colon, span⟩ :: tail)
      = .ok (.stored place name index.regrouped, ⟨.symbol .colon, span⟩ :: tail) := by
  obtain ⟨spelled, declared, inner⟩ := readable
  rw [Expr.tokens] at same
  obtain ⟨words, indices, rfl, wordTokens, indexTokens⟩ := List.map_eq_append_iff.mp same
  have named : IsName context.scope (words.map (·.token)) name :=
    wordTokens ▸ isName_of_spelledName spelled
  obtain ⟨indexRead, ends⟩
      : Expr.takeIndex context (indices ++ ⟨.symbol .colon, span⟩ :: tail)
          = .ok (index.regrouped, ⟨.symbol .colon, span⟩ :: tail)
        ∧ EndsName context.scope (indices ++ ⟨.symbol .colon, span⟩ :: tail) := by
    split at indexTokens
    · rename_i zero
      obtain rfl := List.map_eq_nil_iff.mp indexTokens
      obtain rfl := Expr.eq_zero_of_isZero zero
      have stops {word wordSpan rest}
          (same
            : ([] : List Lexeme) ++ ⟨.symbol .colon, span⟩ :: tail = ⟨.word word, wordSpan⟩ :: rest)
          : context.scope.contains word = true := by
        cases same
      exact ⟨@Expr.takeIndex_symbol context .colon (by decide) span tail, stops, rfl⟩
    · exact (Expr.readsBack_of_readable inner).index inner indices indexTokens _
  obtain ⟨found, nameRead, rfl⟩ := readName_of_isName named ends.stops
  obtain ⟨word, wordSpan, others, rfl, unbound⟩ := named.head
  rw [List.append_assoc, List.cons_append, read, unbound]
  refine bind_eq_ok_iff.mpr ⟨_, nameRead, bind_eq_ok_iff.mpr ⟨place, ?_, ?_⟩⟩
  · rw [LineContext.placeNamed, declared]
  · rw [if_neg (by simp [mutable])]
    exact bind_eq_ok_iff.mpr ⟨_, indexRead, rfl⟩

/-- The lexemes of a line whose text has these tokens. -/
theorem LineContext.exists_ofLine {line : Line} {tokens : List Token}
    (lexes : Lexes line.text tokens)
    : ∃ stop input, LineContext.ofLine names line = .ok (⟨names, stop⟩, input)
        ∧ input.map (·.token) = tokens := by
  obtain ⟨read, lexed, same⟩ := lexes.read line.position
  exact ⟨read.stop, read.lexemes, bind_eq_ok_iff.mpr ⟨read, lexed, rfl⟩, same⟩

namespace Update

/-- A printed assignment is read as that of the regrouped value at the regrouped index. The tokens
of its line are those of the target, a colon and those of the value.
-/
theorem ofAssignment_stored {place : Place} {name : String} {index value : Expr}
    (readable : (Expr.read place name index).Readable names) (mutable : place.isConstant = false)
    (valueReadable : value.Readable names) {line : Line}
    (same : line.text = (targetText name index ++ ": " ++ value.text).toList)
    : ofAssignment names line = .ok (.assign place name index.regrouped value.regrouped) := by
  have target : Lexes (targetText name index).toList (Expr.read place name index).tokens :=
    Expr.lexes_text readable
  have lexes := target.colon (Expr.lexes_text valueReadable)
  rw [← same] at lexes
  obtain ⟨stop, input, opened, tokens⟩ := LineContext.exists_ofLine lexes
  obtain ⟨front, after, rfl, frontTokens, afterTokens⟩ := List.map_eq_append_iff.mp tokens
  obtain ⟨⟨_, span⟩, tail, rfl, rfl, tailTokens⟩ := List.map_eq_cons_iff.mp afterTokens
  have targetRead := @AssignmentTarget.read_stored ⟨names, stop⟩ place name index readable mutable
    front tail frontTokens span
  have valueRead := @Expr.readExpr_tokens ⟨names, stop⟩ value valueReadable tail tailTokens
  exact bind_eq_ok_iff.mpr ⟨_, opened, bind_eq_ok_iff.mpr ⟨_, targetRead, bind_eq_ok_iff.mpr
    ⟨tail, rfl, bind_eq_ok_iff.mpr ⟨_, valueRead, rfl⟩⟩⟩⟩

/-- A named value is assigned by its name alone, which the scope knows as a local. -/
theorem ofAssignment_named {slot : Nat} {name : String} {value : Expr}
    (identifier : isIdentifier name.toList = true)
    (bound : names.scope.lookup? name = some (slot, .temporary))
    (readable : value.Readable names) {line : Line}
    (same : line.text = (name ++ ": " ++ value.text).toList)
    : ofAssignment names line = .ok (.assignLocal slot name value.regrouped) := by
  have lexes := (Lexes.word identifier).colon (Expr.lexes_text readable)
  rw [← same] at lexes
  obtain ⟨stop, input, opened, tokens⟩ := LineContext.exists_ofLine lexes
  obtain ⟨⟨_, wordSpan⟩, after, rfl, rfl, afterTokens⟩ := List.map_eq_cons_iff.mp tokens
  obtain ⟨⟨_, span⟩, tail, rfl, rfl, tailTokens⟩ := List.map_eq_cons_iff.mp afterTokens
  have targetRead
      : AssignmentTarget.read ⟨names, stop⟩
            (⟨.word name, wordSpan⟩ :: ⟨.symbol .colon, span⟩ :: tail)
          = .ok (.named slot name, ⟨.symbol .colon, span⟩ :: tail) := by
    rw [AssignmentTarget.read, bound]
  have valueRead := @Expr.readExpr_tokens ⟨names, stop⟩ value readable tail tailTokens
  exact bind_eq_ok_iff.mpr ⟨_, opened, bind_eq_ok_iff.mpr ⟨_, targetRead, bind_eq_ok_iff.mpr
    ⟨tail, rfl, bind_eq_ok_iff.mpr ⟨_, valueRead, rfl⟩⟩⟩⟩

end Update

-----------------------------------------------------------------------------------------
-- Fields
-----------------------------------------------------------------------------------------

/-- No expression begins with a closing parenthesis. -/
theorem Expr.no_closeParen {input rest : List Lexeme} {elements : List Expr}
    (read : takeElements context input = .ok (elements, rest))
    : afterSymbol? .closeParen input = none := by
  unfold afterSymbol?
  split
  · split
    · rename_i span tail closing
      subst closing
      rw [takeElements, depthFor, List.length_cons, Nat.mul_succ] at read
      cases read
    · rfl
  · rfl

/-- Fields of an item are read from their tokens in parentheses. Without any field the parentheses
are empty, which is tried first.
-/
theorem LineContext.readFields_tokens {fields : List Expr}
    (readable : Expr.AllReadable context.toNames fields) {front : List Lexeme}
    (same
      : front.map (·.token)
        = .symbol .openParen :: Expr.commaTokens fields ++ [.symbol .closeParen])
    : context.readFields front = .ok (Expr.regroupedAll fields, []) := by
  obtain ⟨left, inner, right, rfl, innerTokens⟩ := Expr.enclosed_of_map same
  refine bind_eq_ok_iff.mpr ⟨inner ++ [⟨.symbol .closeParen, right⟩], rfl, ?_⟩
  cases fields with
  | nil =>
      obtain rfl := List.map_eq_nil_iff.mp innerTokens
      rfl
  | cons field others =>
      have each (element : Expr) (member : element ∈ field :: others)
          : Expr.ReadsBack context element :=
        Expr.readsBack_of_readable (Expr.allReadable_iff.mp readable element member)
      have elements := Expr.readsElements_commaTokens (List.cons_ne_nil _ _) each inner innerTokens
        right []
      rw [Expr.no_closeParen elements]
      exact bind_eq_ok_iff.mpr ⟨_, elements, rfl⟩

-----------------------------------------------------------------------------------------
-- Replaced items
-----------------------------------------------------------------------------------------

namespace Expr

/-- Whether the expression is a variable that is printed without an index. -/
def isBareRead : Expr → Bool
  | .read _ _ index => index.isZero
  | _ => false

variable {expr : Expr}

/-- A primary expression is a whole one where neither `@` nor an operator follows. -/
theorem takeLevel_of_primary {input rest : List Lexeme} {level : Nat}
    (primary : takePrimary context input = .ok (expr, rest))
    (last : afterSymbol? .atSign rest = none) (alone : nextOperator? rest = none)
    : takeLevel context level input = .ok (expr, rest) := by
  have operand : takeOperand context input = .ok (expr, rest) := by
    rw [takeOperand_of_primary primary, takeIndexings_of_end last]
  rw [takeLevel_of_operand operand]
  refine takeOperators_of_loose fun op tail next => ?_
  rw [alone] at next
  cases next

/-- An id is read up to the parenthesis after it, which begins no index unless the id ends in the
name of a variable.
-/
theorem takePrimary_enclosed (readable : expr.Readable context.toNames)
    (complete : expr.isBareRead = false) {front : List Lexeme}
    (same : front.map (·.token) = enclosedTokens (!expr.isAtomic) expr.tokens) (span : Span)
    (tail : List Lexeme)
    : takePrimary context (front ++ ⟨.symbol .openParen, span⟩ :: tail)
      = .ok (expr.regrouped, ⟨.symbol .openParen, span⟩ :: tail) := by
  cases atomic : expr.isAtomic with
  | false =>
      rw [atomic] at same
      obtain ⟨left, inner, right, rfl, innerTokens⟩ := enclosed_of_map same
      have whole := (readsBack_of_readable readable).opened.whole inner innerTokens
      rw [List.cons_append, List.append_assoc]
      exact takePrimary_group (whole _ .close)
  | true =>
      rw [atomic] at same
      cases expr with
      | int value =>
          obtain ⟨value, rfl⟩ := Int.eq_ofNat_of_zero_le readable.1
          obtain ⟨⟨_, first⟩, rfl, rfl⟩ := List.map_eq_singleton_iff.mp same
          exact takePrimary_int value
      | bool value =>
          obtain ⟨⟨_, first⟩, rfl, spelled⟩ := List.map_eq_singleton_iff.mp same
          cases value <;> obtain rfl := spelled
          · exact takePrimary_false
          · exact takePrimary_true
      | param slot name =>
          obtain ⟨_, kind, bound⟩ := readable
          obtain ⟨⟨_, first⟩, rfl, rfl⟩ := List.map_eq_singleton_iff.mp same
          exact takePrimary_param bound
      | entityType entity name =>
          obtain ⟨⟨_, first⟩, words, rfl, rfl, wordTokens⟩ := List.map_eq_cons_iff.mp same
          have named : IsName context.scope (words.map (·.token)) name :=
            wordTokens ▸ isName_of_spelledName readable.1
          exact takePrimary_entity named readable.2 ⟨nofun, rfl⟩
      | tuple elements =>
          obtain ⟨several, all⟩ := readable
          obtain ⟨left, inner, right, rfl, innerTokens⟩ := enclosed_of_map same
          obtain ⟨element, next, others, rfl⟩
              : ∃ element next others, elements = element :: next :: others := by
            match elements, several with
            | element :: next :: others, _ => exact ⟨element, next, others, rfl⟩
          obtain ⟨firstReadable, othersReadable⟩ := all
          obtain ⟨firsts, tail', rfl, firstTokens, more⟩ := List.map_eq_append_iff.mp innerTokens
          obtain ⟨⟨_, comma⟩, seconds, rfl, rfl, moreTokens⟩ := List.map_eq_cons_iff.mp more
          have each (element : Expr) (member : element ∈ next :: others)
              : ReadsBack context element :=
            readsBack_of_readable (allReadable_iff.mp othersReadable element member)
          have first := (readsBack_of_readable firstReadable).opened.whole firsts firstTokens
          rw [List.cons_append, List.append_assoc, List.append_assoc]
          exact takePrimary_tuple (first _ .comma)
            (readsElements_commaTokens (List.cons_ne_nil _ _) each seconds moreTokens right _)
      | read place name index =>
          rw [isAtomic, ← isBareRead, complete] at atomic
          cases atomic
      | isLive | not | neg | binary => cases atomic

/-- In parentheses no index is read but a single expression. -/
theorem rest_of_takeIndex {fields : List Expr} (readable : AllReadable context.toNames fields)
    {group : List Lexeme}
    (same : group.map (·.token) = .symbol .openParen :: commaTokens fields ++ [.symbol .closeParen])
    {rest : List Lexeme} (read : takeIndex context group = .ok (expr, rest))
    : rest = [] := by
  obtain ⟨left, inner, right, rfl, innerTokens⟩ := enclosed_of_map same
  rw [takeIndex_openParen] at read
  obtain ⟨⟨index, after⟩, indexRead, read⟩ := bind_eq_ok_iff.mp read
  obtain ⟨last, closed, done⟩ := bind_eq_ok_iff.mp read
  obtain ⟨rfl, rfl⟩ := Prod.mk.inj (Except.ok.inj done)
  cases fields with
  | nil =>
      obtain rfl := List.map_eq_nil_iff.mp innerTokens
      cases indexRead
  | cons field others =>
      have whole := (readsBack_of_readable readable.1).opened.whole
      cases others with
      | nil =>
          rw [whole inner innerTokens _ .close] at indexRead
          obtain ⟨rfl, rfl⟩ := Prod.mk.inj (Except.ok.inj indexRead)
          exact (Except.ok.inj closed).symm
      | cons next others =>
          obtain ⟨firsts, tail, rfl, firstTokens, more⟩ := List.map_eq_append_iff.mp innerTokens
          obtain ⟨⟨_, comma⟩, seconds, rfl, rfl, _⟩ := List.map_eq_cons_iff.mp more
          rw [List.append_assoc, List.cons_append, whole firsts firstTokens _ .comma] at indexRead
          obtain ⟨rfl, rfl⟩ := Prod.mk.inj (Except.ok.inj indexRead)
          cases closed

/-- A variable that is printed without an index takes the parenthesis after it for one. -/
theorem rest_of_bareRead {id : Expr} (bare : id.isBareRead = true)
    (readable : id.Readable context.toNames) {fields : List Expr}
    (fieldsReadable : AllReadable context.toNames fields) {front group : List Lexeme}
    (same : front.map (·.token) = id.tokens)
    (groupTokens
      : group.map (·.token) = .symbol .openParen :: commaTokens fields ++ [.symbol .closeParen])
    {rest : List Lexeme} (read : readExpr context (front ++ group) = .ok (expr, rest))
    : rest = [] := by
  cases id with
  | read place name index =>
      obtain ⟨spelled, declared, _⟩ := readable
      obtain rfl := eq_zero_of_isZero bare
      have words : front.map (·.token) = nameTokens name := by
        rw [same]
        exact List.append_nil _
      have named : IsName context.scope (front.map (·.token)) name :=
        words ▸ isName_of_spelledName spelled
      have ends : EndsName context.scope group := by
        obtain ⟨left, inner, right, rfl, _⟩ := enclosed_of_map groupTokens
        exact ⟨nofun, rfl⟩
      obtain ⟨found, nameRead, rfl⟩ := readName_of_isName named ends.stops
      obtain ⟨word, span, tail, rfl, unbound⟩ := named.head
      rw [List.cons_append] at nameRead
      change takeLevel context 0 _ = _ at read
      rw [takeLevel_eq, List.cons_append, takeOperand_word] at read
      obtain ⟨⟨operand, left⟩, operandRead, read⟩ := bind_eq_ok_iff.mp read
      obtain ⟨⟨base, after⟩, primaryRead, operandRead⟩ := bind_eq_ok_iff.mp operandRead
      rw [takePrimary_name unbound nameRead ends.no_exists declared] at primaryRead
      obtain ⟨⟨index, last⟩, indexRead, done⟩ := bind_eq_ok_iff.mp primaryRead
      obtain ⟨rfl, rfl⟩ := Prod.mk.inj (Except.ok.inj done)
      obtain rfl := rest_of_takeIndex fieldsReadable groupTokens indexRead
      have chained : takeIndexings context (.read place found.name index) [] = .ok _ :=
        takeIndexings_of_end rfl
      obtain ⟨rfl, rfl⟩ := Prod.mk.inj (Except.ok.inj (chained.symm.trans operandRead))
      have alone : takeOperators context 0 (.read place found.name index) [] = .ok _ :=
        takeOperators_of_loose nofun
      exact (Prod.mk.inj (Except.ok.inj (alone.symm.trans read))).2.symm
  | int | bool | tuple | param | isLive | entityType | not | neg | binary => cases bare

end Expr

-----------------------------------------------------------------------------------------
-- Commands on items
-----------------------------------------------------------------------------------------

namespace Expr

theorem length_regroupedAll (elements : List Expr)
    : (regroupedAll elements).length = elements.length := by
  rw [regroupedAll_eq_map, List.length_map]

theorem regroupedAll_eq_iff {elements : List Expr}
    : regroupedAll elements = elements ↔ allKeepGroups elements = true := by
  rw [regroupedAll_eq_map, allKeepGroups_iff]
  induction elements with
  | nil => simp
  | cons element rest ih => simp [ih, regrouped_eq_iff]

theorem lexes_fields {fields : List Expr} (readable : AllReadable names fields)
    : Lexes ("(" ++ commaText fields ++ ")").toList
        (.symbol .openParen :: commaTokens fields ++ [.symbol .closeParen]) := by
  have each := fun element member => lexes_text (allReadable_iff.mp readable element member)
  exact (lexes_commaText each).parenthesized true

end Expr

namespace Update

variable {entity collection : Nat} {name : String} {tail : Line} {id : Expr} {fields : List Expr}

/-- A printed removal is read as the removal of the regrouped id. -/
theorem ofCommand_remove (owned : names.vocabulary.collection? entity = some collection)
    (readable : id.Readable names) (same : tail.text = (" " ++ id.text).toList)
    : ofCommand names entity name .remove tail = .ok (.remove entity collection id.regrouped) := by
  have lexes := (Expr.lexes_text readable).indented
  rw [← same] at lexes
  obtain ⟨stop, input, opened, tokens⟩ := LineContext.exists_ofLine lexes
  have idRead := @Expr.readExpr_tokens ⟨names, stop⟩ id readable input tokens
  unfold ofCommand
  rw [owned]
  exact bind_eq_ok_iff.mpr ⟨_, opened, bind_eq_ok_iff.mpr ⟨_, idRead, rfl⟩⟩

/-- A printed insertion is read as that of the regrouped fields, when they are as many as the
collection has.
-/
theorem ofCommand_add (owned : names.vocabulary.collection? entity = some collection)
    (counted : fields.length = names.vocabulary.fieldCount collection)
    (readable : Expr.AllReadable names fields)
    (same : tail.text = (" " ++ ("(" ++ Expr.commaText fields ++ ")")).toList)
    : ofCommand names entity name .add tail
      = .ok (.insert entity collection (Expr.regroupedAll fields)) := by
  have lexes := (Expr.lexes_fields readable).indented
  rw [← same] at lexes
  obtain ⟨stop, input, opened, tokens⟩ := LineContext.exists_ofLine lexes
  have fieldsRead := @LineContext.readFields_tokens ⟨names, stop⟩ fields readable input tokens
  rw [← Expr.length_regroupedAll] at counted
  unfold ofCommand
  rw [owned]
  exact bind_eq_ok_iff.mpr ⟨_, opened, bind_eq_ok_iff.mpr ⟨_, fieldsRead,
    bind_eq_ok_iff.mpr ⟨(), if_pos counted, rfl⟩⟩⟩

/-- The tokens of an id and fields in parentheses after it. -/
theorem exists_input_of_replace (idReadable : id.Readable names)
    (readable : Expr.AllReadable names fields)
    (same
      : tail.text = (" " ++ (parenthesized (!id.isAtomic) id.text ++ " "
          ++ ("(" ++ Expr.commaText fields ++ ")"))).toList)
    : ∃ stop front group, LineContext.ofLine names tail = .ok (⟨names, stop⟩, front ++ group)
        ∧ front.map (·.token) = enclosedTokens (!id.isAtomic) id.tokens
        ∧ group.map (·.token)
          = .symbol .openParen :: Expr.commaTokens fields ++ [.symbol .closeParen] := by
  have lexes := (((Expr.lexes_text idReadable).parenthesized (!id.isAtomic)).spaced
    (Expr.lexes_fields readable)).indented
  rw [← same] at lexes
  obtain ⟨stop, input, opened, tokens⟩ := LineContext.exists_ofLine lexes
  obtain ⟨front, group, rfl, frontTokens, groupTokens⟩ := List.map_eq_append_iff.mp tokens
  exact ⟨stop, front, group, opened, frontTokens, groupTokens⟩

/-- A printed replacement is read as that of the regrouped fields at the regrouped id. The id must
not be a read that is printed without its index.
-/
theorem ofCommand_replace (owned : names.vocabulary.collection? entity = some collection)
    (counted : fields.length = names.vocabulary.fieldCount collection)
    (idReadable : id.Readable names) (complete : id.isBareRead = false)
    (readable : Expr.AllReadable names fields)
    (same
      : tail.text = (" " ++ (parenthesized (!id.isAtomic) id.text ++ " "
          ++ ("(" ++ Expr.commaText fields ++ ")"))).toList)
    : ofCommand names entity name .replace tail
      = .ok (.replace entity collection id.regrouped (Expr.regroupedAll fields)) := by
  obtain ⟨stop, front, group, opened, frontTokens, groupTokens⟩ :=
    exists_input_of_replace idReadable readable same
  have fieldsRead := @LineContext.readFields_tokens ⟨names, stop⟩ fields readable group groupTokens
  obtain ⟨left, inner, right, rfl, _⟩ := Expr.enclosed_of_map groupTokens
  have primary := @Expr.takePrimary_enclosed ⟨names, stop⟩ id idReadable complete front frontTokens
    left (inner ++ [⟨.symbol .closeParen, right⟩])
  have idRead : Expr.takeLevel ⟨names, stop⟩ 0 _ = .ok _ :=
    Expr.takeLevel_of_primary primary rfl rfl
  rw [← Expr.length_regroupedAll] at counted
  unfold ofCommand
  rw [owned]
  exact bind_eq_ok_iff.mpr ⟨_, opened, bind_eq_ok_iff.mpr ⟨_, idRead, bind_eq_ok_iff.mpr
    ⟨_, fieldsRead, bind_eq_ok_iff.mpr ⟨(), if_pos counted, rfl⟩⟩⟩⟩

/-- A variable that is printed without an index before the fields is not read as the id. The fields
are then read as its index, and the parentheses of the fields are missing behind it.
-/
theorem ofCommand_replace_ne_ok (idReadable : id.Readable names) (bare : id.isBareRead = true)
    (readable : Expr.AllReadable names fields)
    (same
      : tail.text = (" " ++ (parenthesized (!id.isAtomic) id.text ++ " "
          ++ ("(" ++ Expr.commaText fields ++ ")"))).toList) (update : Update)
    : ofCommand names entity name .replace tail ≠ .ok update := by
  intro read
  obtain ⟨stop, front, group, opened, frontTokens, groupTokens⟩ :=
    exists_input_of_replace idReadable readable same
  have atomic : id.isAtomic = true := by
    cases id with
    | read => exact bare
    | int | bool | tuple | param | isLive | entityType | not | neg | binary => cases bare
  rw [atomic] at frontTokens
  unfold ofCommand at read
  split at read
  · obtain ⟨_, sameOpened, read⟩ := bind_eq_ok_iff.mp read
    obtain rfl := Except.ok.inj (opened.symm.trans sameOpened)
    obtain ⟨⟨other, rest⟩, idRead, read⟩ := bind_eq_ok_iff.mp read
    obtain rfl := Expr.rest_of_bareRead bare idReadable readable frontTokens groupTokens idRead
    cases read
  · cases read

end Update

end Dispatch
