import Dispatch.Proofs.Reading.Phrases
import Dispatch.Update.Parser

/-!
The colon of an assignment ends its target. No reader of expressions takes a colon, so what is read
as the target is all that stands before the first one: a local, or the words of a name and an index.
-/

namespace Dispatch

-----------------------------------------------------------------------------------------
-- Taking lexemes other than colons
-----------------------------------------------------------------------------------------

/-- Lexemes were taken from the front of the input, no colon among them, and the rest is left. -/
def PassesNoColon (input rest : List Lexeme) : Prop :=
  ∃ taken, input = taken ++ rest ∧ ∀ lexeme ∈ taken, lexeme.token ≠ .symbol .colon

namespace PassesNoColon

variable {input mid rest : List Lexeme} {lexeme : Lexeme}

theorem rfl : PassesNoColon input input := ⟨[], List.nil_append _, List.forall_mem_nil _⟩

theorem cons (other : lexeme.token ≠ .symbol .colon) (passes : PassesNoColon input rest)
    : PassesNoColon (lexeme :: input) rest := by
  obtain ⟨taken, same, others⟩ := passes
  exact ⟨lexeme :: taken, by rw [same, List.cons_append],
    List.forall_mem_cons.mpr ⟨other, others⟩⟩

theorem trans (first : PassesNoColon input mid) (second : PassesNoColon mid rest)
    : PassesNoColon input rest := by
  obtain ⟨front, rfl, before⟩ := first
  obtain ⟨back, rfl, after⟩ := second
  exact ⟨front ++ back, (List.append_assoc ..).symm,
    fun lexeme member => (List.mem_append.mp member).elim (before lexeme) (after lexeme)⟩

end PassesNoColon

section

variable {context : LineContext} {input rest : List Lexeme}

theorem passesNoColon_of_afterSymbol? {mark : Symbol}
    (found : afterSymbol? mark input = some rest) (other : mark ≠ .colon)
    : PassesNoColon input rest := by
  obtain ⟨span, rfl⟩ := exists_of_afterSymbol? found
  exact .cons (fun colon => other (Token.symbol.inj colon)) .rfl

theorem passesNoColon_of_expectSymbol {mark : Symbol}
    (expected : context.expectSymbol mark input = .ok rest) (other : mark ≠ .colon)
    : PassesNoColon input rest :=
  passesNoColon_of_afterSymbol? (LineContext.afterSymbol?_of_expectSymbol expected) other

theorem passesNoColon_of_afterKeyword? {reserved : Keyword}
    (found : afterKeyword? reserved input = some rest)
    : PassesNoColon input rest := by
  obtain ⟨span, rfl⟩ := exists_of_afterKeyword? found
  exact .cons (by simp) .rfl

theorem passesNoColon_of_nextOperator? {op : BinaryOp}
    (found : nextOperator? input = some (op, rest))
    : PassesNoColon input rest := by
  cases input with
  | nil => cases found
  | cons lexeme tail =>
      obtain ⟨_, spelled, same⟩ := Option.map_eq_some_iff.mp found
      obtain ⟨_, rfl⟩ := Prod.mk.inj same
      refine .cons (fun colon => ?_) .rfl
      rw [colon] at spelled
      cases spelled

/-- The words of a name that was read are taken, and no other lexemes. -/
theorem exists_name_of_readName {found : SpannedName}
    (read : context.readName input = .ok (found, rest))
    : ∃ taken, input = taken ++ rest ∧ IsName context.scope (taken.map (·.token)) found.name := by
  obtain ⟨same, unscoped⟩ := LineContext.leadingWords_split context.scope input
  unfold LineContext.readName at read
  split at read
  · cases read
  · rename_i word span more left split
    obtain ⟨rfl, rfl⟩ := Prod.mk.inj (Except.ok.inj read)
    rw [split] at same unscoped
    refine ⟨_, same, ((word, span) :: more).map (·.1), List.cons_ne_nil _ _, ?_, ?_,
      joinWords_eq_joined _⟩
    · exact List.forall_mem_map.mpr unscoped
    · rw [List.map_map, List.map_map]
      rfl

theorem IsName.no_colon {scope : Scope} {tokens : List Token} {name : String}
    (named : IsName scope tokens name)
    : .symbol .colon ∉ tokens := by
  obtain ⟨words, _, _, rfl, _⟩ := named
  simp

theorem passesNoColon_of_readName {found : SpannedName}
    (read : context.readName input = .ok (found, rest))
    : PassesNoColon input rest := by
  obtain ⟨taken, same, named⟩ := exists_name_of_readName read
  exact ⟨taken, same, fun lexeme member colon =>
    named.no_colon (colon ▸ List.mem_map_of_mem member)⟩

end

-----------------------------------------------------------------------------------------
-- Expressions
-----------------------------------------------------------------------------------------

namespace Expr

/-- At a bound on the nesting, no reader takes a colon. -/
structure ReadersPassNoColon (context : LineContext) (depth : Nat) : Prop where
  level
    : ∀ {level input expr rest}, readLevel context depth level input = .ok (expr, rest)
        → PassesNoColon input rest
  operators
    : ∀ {level left input expr rest},
        readOperators context depth level left input = .ok (expr, rest)
        → PassesNoColon input rest
  operand
    : ∀ {input expr rest}, readOperand context depth input = .ok (expr, rest)
        → PassesNoColon input rest
  indexings
    : ∀ {base input expr rest}, readIndexings context depth base input = .ok (expr, rest)
        → PassesNoColon input rest
  primary
    : ∀ {input expr rest}, readPrimary context depth input = .ok (expr, rest)
        → PassesNoColon input rest
  elements
    : ∀ {input exprs rest}, readElements context depth input = .ok (exprs, rest)
        → PassesNoColon input rest
  index
    : ∀ {input expr rest}, readIndex context depth input = .ok (expr, rest)
        → PassesNoColon input rest

namespace ReadersPassNoColon

variable {context : LineContext} {depth : Nat} {input rest : List Lexeme} {expr : Expr}

theorem zero : ReadersPassNoColon context 0 where
  level read := by simp [readLevel] at read
  operators read := by simp [readOperators] at read
  operand read := by simp [readOperand] at read
  indexings read := by simp [readIndexings] at read
  primary read := by simp [readPrimary] at read
  elements read := by simp [readElements] at read
  index read := by simp [readIndex] at read

variable (inner : ReadersPassNoColon context depth)

include inner

theorem level_succ {level : Nat}
    (read : readLevel context (depth + 1) level input = .ok (expr, rest))
    : PassesNoColon input rest := by
  rw [readLevel] at read
  obtain ⟨_, operand, operators⟩ := bind_eq_ok_iff.mp read
  exact (inner.operand operand).trans (inner.operators operators)

theorem operators_succ {level : Nat} {left : Expr}
    (read : readOperators context (depth + 1) level left input = .ok (expr, rest))
    : PassesNoColon input rest := by
  unfold readOperators at read
  split at read
  · obtain ⟨_, rfl⟩ := Prod.mk.inj (Except.ok.inj read)
    exact .rfl
  · rename_i next
    split at read
    · obtain ⟨_, rfl⟩ := Prod.mk.inj (Except.ok.inj read)
      exact .rfl
    · obtain ⟨_, right, operators⟩ := bind_eq_ok_iff.mp read
      exact (passesNoColon_of_nextOperator? next).trans
        ((inner.level right).trans (inner.operators operators))

theorem operand_succ (read : readOperand context (depth + 1) input = .ok (expr, rest))
    : PassesNoColon input rest := by
  unfold readOperand at read
  split at read
  · obtain ⟨_, negated, done⟩ := bind_eq_ok_iff.mp read
    obtain ⟨_, rfl⟩ := Prod.mk.inj (Except.ok.inj done)
    exact .cons (by simp) (inner.level negated)
  · obtain ⟨_, signed, done⟩ := bind_eq_ok_iff.mp read
    obtain ⟨_, rfl⟩ := Prod.mk.inj (Except.ok.inj done)
    exact .cons (by simp) (inner.operand signed)
  · exact .cons (by simp) (inner.operand read)
  · obtain ⟨_, primary, indexings⟩ := bind_eq_ok_iff.mp read
    exact (inner.primary primary).trans (inner.indexings indexings)

theorem indexings_succ {base : Expr}
    (read : readIndexings context (depth + 1) base input = .ok (expr, rest))
    : PassesNoColon input rest := by
  unfold readIndexings at read
  split at read
  · obtain ⟨_, rfl⟩ := Prod.mk.inj (Except.ok.inj read)
    exact .rfl
  · rename_i next
    obtain ⟨_, primary, indexings⟩ := bind_eq_ok_iff.mp read
    exact (passesNoColon_of_afterSymbol? next (by decide)).trans
      ((inner.primary primary).trans (inner.indexings indexings))

theorem primary_succ (read : readPrimary context (depth + 1) input = .ok (expr, rest))
    : PassesNoColon input rest := by
  unfold readPrimary at read
  split at read
  · obtain ⟨_, rfl⟩ := Prod.mk.inj (Except.ok.inj read)
    exact .cons (by simp) .rfl
  · obtain ⟨_, rfl⟩ := Prod.mk.inj (Except.ok.inj read)
    exact .cons (by simp) .rfl
  · obtain ⟨_, rfl⟩ := Prod.mk.inj (Except.ok.inj read)
    exact .cons (by simp) .rfl
  · obtain ⟨_, name, named⟩ := bind_eq_ok_iff.mp read
    obtain ⟨_, _, done⟩ := bind_eq_ok_iff.mp named
    obtain ⟨_, rfl⟩ := Prod.mk.inj (Except.ok.inj done)
    exact .cons (by simp) (passesNoColon_of_readName name)
  · obtain ⟨⟨first, after⟩, level, closing⟩ := bind_eq_ok_iff.mp read
    dsimp only at closing
    split at closing
    · obtain ⟨_, closed, done⟩ := bind_eq_ok_iff.mp closing
      obtain ⟨_, rfl⟩ := Prod.mk.inj (Except.ok.inj done)
      exact .cons (by simp)
        ((inner.level level).trans (passesNoColon_of_expectSymbol closed (by decide)))
    · rename_i next
      obtain ⟨_, elements, closing⟩ := bind_eq_ok_iff.mp closing
      obtain ⟨_, closed, done⟩ := bind_eq_ok_iff.mp closing
      obtain ⟨_, rfl⟩ := Prod.mk.inj (Except.ok.inj done)
      have opened := (inner.level level).trans (passesNoColon_of_afterSymbol? next (by decide))
      exact .cons (by simp) ((opened.trans (inner.elements elements)).trans
        (passesNoColon_of_expectSymbol closed (by decide)))
  · split at read
    · obtain ⟨_, rfl⟩ := Prod.mk.inj (Except.ok.inj read)
      exact .cons (by simp) .rfl
    · obtain ⟨⟨found, after⟩, name, named⟩ := bind_eq_ok_iff.mp read
      have words := passesNoColon_of_readName name
      dsimp only at named
      split at named
      · rename_i next
        obtain ⟨_, _, named⟩ := bind_eq_ok_iff.mp named
        obtain ⟨_, tested, done⟩ := bind_eq_ok_iff.mp named
        obtain ⟨_, rfl⟩ := Prod.mk.inj (Except.ok.inj done)
        exact words.trans ((passesNoColon_of_afterKeyword? next).trans (inner.primary tested))
      · obtain ⟨_, _, named⟩ := bind_eq_ok_iff.mp named
        obtain ⟨_, index, done⟩ := bind_eq_ok_iff.mp named
        obtain ⟨_, rfl⟩ := Prod.mk.inj (Except.ok.inj done)
        exact words.trans (inner.index index)
  · cases read

theorem elements_succ {exprs : List Expr}
    (read : readElements context (depth + 1) input = .ok (exprs, rest))
    : PassesNoColon input rest := by
  rw [readElements] at read
  obtain ⟨⟨first, after⟩, level, more⟩ := bind_eq_ok_iff.mp read
  dsimp only at more
  split at more
  · obtain ⟨_, rfl⟩ := Prod.mk.inj (Except.ok.inj more)
    exact inner.level level
  · rename_i next
    obtain ⟨_, elements, done⟩ := bind_eq_ok_iff.mp more
    obtain ⟨_, rfl⟩ := Prod.mk.inj (Except.ok.inj done)
    exact (inner.level level).trans
      ((passesNoColon_of_afterSymbol? next (by decide)).trans (inner.elements elements))

theorem index_succ (read : readIndex context (depth + 1) input = .ok (expr, rest))
    : PassesNoColon input rest := by
  unfold readIndex at read
  split at read
  · obtain ⟨_, level, closing⟩ := bind_eq_ok_iff.mp read
    obtain ⟨_, closed, done⟩ := bind_eq_ok_iff.mp closing
    obtain ⟨_, rfl⟩ := Prod.mk.inj (Except.ok.inj done)
    exact .cons (by simp)
      ((inner.level level).trans (passesNoColon_of_expectSymbol closed (by decide)))
  · obtain ⟨_, rfl⟩ := Prod.mk.inj (Except.ok.inj read)
    exact .cons (by simp) .rfl
  · split at read
    · obtain ⟨_, rfl⟩ := Prod.mk.inj (Except.ok.inj read)
      exact .cons (by simp) .rfl
    · obtain ⟨_, rfl⟩ := Prod.mk.inj (Except.ok.inj read)
      exact .rfl
  · obtain ⟨_, rfl⟩ := Prod.mk.inj (Except.ok.inj read)
    exact .rfl

end ReadersPassNoColon

/-- No reader takes a colon, at every bound on their nesting; by induction on the bound. -/
theorem readersPassNoColon (context : LineContext) (depth : Nat)
    : ReadersPassNoColon context depth := by
  induction depth with
  | zero => exact .zero
  | succ depth inner =>
      exact {
        level := inner.level_succ
        operators := inner.operators_succ
        operand := inner.operand_succ
        indexings := inner.indexings_succ
        primary := inner.primary_succ
        elements := inner.elements_succ
        index := inner.index_succ
      }

end Expr

-----------------------------------------------------------------------------------------
-- Targets
-----------------------------------------------------------------------------------------

/-- What an assignment may have before its colon: a local, or the words of a variable or field and
perhaps an index, which no word outside the scope ends.
-/
inductive SpellsTarget (names : Names) : List Token → Prop where
  | named {word slot kind} (bound : names.scope.lookup? word = some (slot, kind))
      : SpellsTarget names [.word word]
  | stored {tokens name place indices} (named : IsName names.scope tokens name)
      (declared : names.vocabulary.place? name = some place)
      (ends
        : ∀ word, indices.getLast? = some (.word word) → names.scope.contains word = true)
      : SpellsTarget names (tokens ++ indices)

section

variable {context : LineContext} {input rest : List Lexeme}

/-- An index ends in a parenthesis, a number or a word in scope, or is left out. -/
theorem Expr.exists_index_of_readIndex {depth : Nat} {index : Expr}
    (read : readIndex context depth input = .ok (index, rest))
    : ∃ taken, input = taken ++ rest
        ∧ (∀ lexeme ∈ taken, lexeme.token ≠ .symbol .colon)
        ∧ ∀ word, (taken.map (·.token)).getLast? = some (.word word)
          → context.scope.contains word = true := by
  cases depth with
  | zero => simp [readIndex] at read
  | succ depth =>
      unfold readIndex at read
      split at read
      · rename_i span tail
        obtain ⟨_, level, closing⟩ := bind_eq_ok_iff.mp read
        obtain ⟨_, closed, done⟩ := bind_eq_ok_iff.mp closing
        obtain ⟨_, rfl⟩ := Prod.mk.inj (Except.ok.inj done)
        obtain ⟨inner, rfl, others⟩ := (readersPassNoColon context depth).level level
        obtain ⟨last, closes⟩ :=
          exists_of_afterSymbol? (LineContext.afterSymbol?_of_expectSymbol closed)
        refine ⟨⟨.symbol .openParen, span⟩ :: inner ++ [⟨.symbol .closeParen, last⟩], ?_, ?_, ?_⟩
        · rw [closes]
          simp
        · intro lexeme member
          rw [List.mem_append, List.mem_cons, List.mem_singleton] at member
          rcases member with (rfl | member) | rfl
          · simp
          · exact others lexeme member
          · simp
        · intro word ends
          rw [List.map_append, List.map_singleton, List.getLast?_concat] at ends
          cases ends
      · rename_i value span tail
        obtain ⟨_, rfl⟩ := Prod.mk.inj (Except.ok.inj read)
        exact ⟨[⟨.integer value, span⟩], rfl, by simp, by simp⟩
      · rename_i word span tail
        split at read
        · rename_i bound
          obtain ⟨_, rfl⟩ := Prod.mk.inj (Except.ok.inj read)
          refine ⟨[⟨.word word, span⟩], rfl, by simp, ?_⟩
          rintro _ ⟨⟩
          rw [Scope.contains, bound]
          rfl
        · obtain ⟨_, rfl⟩ := Prod.mk.inj (Except.ok.inj read)
          exact ⟨[], rfl, by simp, by simp⟩
      · obtain ⟨_, rfl⟩ := Prod.mk.inj (Except.ok.inj read)
        exact ⟨[], rfl, by simp, by simp⟩

/-- A local that is assigned is read by its name. -/
theorem AssignmentTarget.named_of_read {slot : Nat} {name : String}
    (read : AssignmentTarget.read context input = .ok (.named slot name, rest))
    : ∃ span, input = ⟨.word name, span⟩ :: rest
        ∧ context.scope.lookup? name = some (slot, .temporary) := by
  unfold AssignmentTarget.read at read
  split at read
  · rename_i word span others
    split at read
    · rename_i bound
      obtain ⟨same, rfl⟩ := Prod.mk.inj (Except.ok.inj read)
      obtain ⟨rfl, rfl⟩ := AssignmentTarget.named.inj same
      exact ⟨span, rfl, bound⟩
    · cases read
    · obtain ⟨_, _, read⟩ := bind_eq_ok_iff.mp read
      obtain ⟨_, _, read⟩ := bind_eq_ok_iff.mp read
      dsimp only at read
      split at read
      · cases read
      · obtain ⟨_, _, done⟩ := bind_eq_ok_iff.mp read
        cases (Prod.mk.inj (Except.ok.inj done)).1
  · cases read

/-- A variable that is assigned is read by its name and its index. -/
theorem AssignmentTarget.stored_of_read {place : Place} {name : String} {index : Expr}
    (read : AssignmentTarget.read context input = .ok (.stored place name index, rest))
    : ∃ word span others found after, input = ⟨.word word, span⟩ :: others
        ∧ context.scope.contains word = false ∧ context.readName input = .ok (found, after)
        ∧ found.name = name ∧ context.placeNamed found = .ok place ∧ place.isConstant = false
        ∧ Expr.readIndex context (Expr.depthFor after) after = .ok (index, rest) := by
  unfold AssignmentTarget.read at read
  split at read
  · rename_i word span others
    split at read
    · cases read
    · cases read
    · rename_i unbound
      obtain ⟨⟨found, after⟩, nameRead, read⟩ := bind_eq_ok_iff.mp read
      obtain ⟨stored, placeFound, read⟩ := bind_eq_ok_iff.mp read
      dsimp only at read
      split at read
      · cases read
      · rename_i mutable
        obtain ⟨⟨index, last⟩, indexRead, done⟩ := bind_eq_ok_iff.mp read
        obtain ⟨same, rfl⟩ := Prod.mk.inj (Except.ok.inj done)
        obtain ⟨rfl, rfl, rfl⟩ := AssignmentTarget.stored.inj same
        refine ⟨word, span, others, found, after, rfl, ?_, nameRead, rfl, placeFound, ?_, indexRead⟩
        · rw [Scope.contains, unbound]
          rfl
        · simpa using mutable
  · cases read

/-- A target is read from lexemes that spell one, no colon among them. -/
theorem AssignmentTarget.exists_taken_of_read {target : AssignmentTarget}
    (read : AssignmentTarget.read context input = .ok (target, rest))
    : ∃ taken, input = taken ++ rest
        ∧ (∀ lexeme ∈ taken, lexeme.token ≠ .symbol .colon)
        ∧ SpellsTarget context.toNames (taken.map (·.token)) := by
  cases target with
  | named slot name =>
      obtain ⟨span, rfl, bound⟩ := named_of_read read
      exact ⟨[⟨.word name, span⟩], rfl, by simp, .named bound⟩
  | stored place name index =>
      obtain ⟨_, _, _, found, after, _, _, nameRead, rfl, placeFound, _, indexRead⟩ :=
        stored_of_read read
      obtain ⟨words, same, named⟩ := exists_name_of_readName nameRead
      obtain ⟨indices, rfl, others, ends⟩ := Expr.exists_index_of_readIndex indexRead
      refine ⟨words ++ indices, by rw [same, List.append_assoc], ?_, ?_⟩
      · intro lexeme member
        rcases List.mem_append.mp member with inName | inIndex
        · exact fun colon => named.no_colon (colon ▸ List.mem_map_of_mem inName)
        · exact others lexeme inIndex
      · rw [List.map_append]
        exact .stored named (LineContext.place?_of_placeNamed placeFound) ends

end

end Dispatch
