import Dispatch.Proofs.Evaluation.SlotDependence
import Mathlib.Data.Set.Basic

/-!
The value of an expression depends on the slots that it mentions and on the parts of the state that
it reads, and on nothing else: two stores that agree on these give the same value or the same error.
-/

namespace Dispatch

-----------------------------------------------------------------------------------------
-- Parts of a state
-----------------------------------------------------------------------------------------

/-- A part of a state that is read and changed as a whole. -/
inductive Cell where
  /-- The values of a mutable variable. -/
  | values (slot : Nat)
  /-- The items of a collection. -/
  | items (collection : Nat)
deriving DecidableEq

/-- The cell in which a variable or field is stored; constants are in none. -/
def Place.cell? : Place → Option Cell
  | .const _ => none
  | .var slot => some (.values slot)
  | .field collection _ _ => some (.items collection)

/-- The cell that tells the ids of an entity type; ids that are positions are in none. -/
def Schema.cell? (schema : Schema) (entity : Nat) : Option Cell :=
  match schema.storage? entity with
  | some (.dynamic collection) => some (.items collection)
  | _ => none

/-- Two states have the same content in a cell, or neither has the cell. -/
def State.SameAt (left right : State) : Cell → Prop
  | .values slot => left.mutables[slot]? = right.mutables[slot]?
  | .items collection => left.collections[collection]? = right.collections[collection]?

namespace State

variable {left right : State}

theorem sameAt_rfl {state : State} {cell : Cell} : state.SameAt state cell := by
  cases cell <;> rfl

theorem SameAt.symm {cell : Cell} (same : left.SameAt right cell) : right.SameAt left cell := by
  cases cell <;> exact Eq.symm same

theorem SameAt.trans {last : State} {cell : Cell} (first : left.SameAt right cell)
    (second : right.SameAt last cell)
    : left.SameAt last cell := by
  cases cell <;> exact Eq.trans first second

/-- States with the same content in every cell are the same, as a state consists of the values of
its variables and the items of its collections.
-/
theorem eq_of_sameAt (same : ∀ cell, left.SameAt right cell) : left = right := by
  have mutables : left.mutables = right.mutables :=
    List.ext_getElem? fun slot => same (.values slot)
  have collections : left.collections = right.collections :=
    List.ext_getElem? fun collection => same (.items collection)
  cases left
  cases right
  simp_all only

variable {schema : Schema} {entity : Nat}

/-- The ids of an entity type are told by its cell; a positional type has none, as its ids never
change.
-/
theorem ids_agree (same : ∀ cell ∈ schema.cell? entity, left.SameAt right cell)
    : left.ids schema entity = right.ids schema entity := by
  unfold ids
  unfold Schema.cell? at same
  cases stored : schema.storage? entity with
  | none => rfl
  | some storage =>
      cases storage with
      | positional count => rfl
      | dynamic collection =>
          have found : left.SameAt right (.items collection) := same _ (by simp [stored])
          simp only [SameAt] at found
          simp only [found]

/-- Whether an entity type has an id is told by its cell. -/
theorem hasId_agree (same : ∀ cell ∈ schema.cell? entity, left.SameAt right cell) (id : Int)
    : left.hasId schema entity id = right.hasId schema entity id := by
  unfold hasId
  unfold Schema.cell? at same
  cases stored : schema.storage? entity with
  | none => rfl
  | some storage =>
      cases storage with
      | positional count => rfl
      | dynamic collection =>
          have found : left.SameAt right (.items collection) := same _ (by simp [stored])
          simp only [SameAt] at found
          simp only [found]

end State

-----------------------------------------------------------------------------------------
-- Stores that agree
-----------------------------------------------------------------------------------------

/-- Two stores agree on certain slots and on certain cells. -/
structure Store.Agree (slots : Set Nat) (cells : Set Cell) (left right : Store) : Prop where
  slots : ∀ slot ∈ slots, left.bindings.get? slot = right.bindings.get? slot
  cells : ∀ cell ∈ cells, left.state.SameAt right.state cell

namespace Store

variable {schema : Schema} {slots : Set Nat} {cells : Set Cell} {left right : Store}

theorem Agree.mono {fewerSlots : Set Nat} {fewerCells : Set Cell}
    (agree : Agree slots cells left right) (subslots : fewerSlots ⊆ slots)
    (subcells : fewerCells ⊆ cells)
    : Agree fewerSlots fewerCells left right :=
  ⟨fun slot member => agree.slots slot (subslots member),
    fun cell member => agree.cells cell (subcells member)⟩

/-- Where the cell of a place is agreed on, reading the place gives the same result, by cases on the
place; constants have no cell, as all states share them.
-/
theorem Agree.read {place : Place} (agree : Agree slots cells left right)
    (known : ∀ cell ∈ place.cell?, cell ∈ cells) (name : String) (index : Int)
    : left.read schema place name index = right.read schema place name index := by
  cases place with
  | const slot => rfl
  | var slot =>
      have same : left.state.SameAt right.state (.values slot) := agree.cells _ (known _ rfl)
      simp only [State.SameAt] at same
      simp only [Store.read, same]
  | field collection slot constant =>
      have same : left.state.SameAt right.state (.items collection) := agree.cells _ (known _ rfl)
      simp only [State.SameAt] at same
      simp only [Store.read, same]

end Store

-----------------------------------------------------------------------------------------
-- What an expression reads
-----------------------------------------------------------------------------------------

namespace Expr

mutual

/-- The cells that the expression reads: those of its variables and fields, and those of the entity
types whose ids it asks for.
-/
def reads (schema : Schema) : Expr → List Cell
  | .int _ | .bool _ | .param _ _ | .entityType _ _ => []
  | .tuple elements => readsAll schema elements
  | .read place _ index => place.cell?.toList ++ index.reads schema
  | .isLive entity _ id => (schema.cell? entity).toList ++ id.reads schema
  | .not operand | .neg operand => operand.reads schema
  | .binary _ left right => left.reads schema ++ right.reads schema

/-- The cells that any of the expressions reads. -/
def readsAll (schema : Schema) : List Expr → List Cell
  | [] => []
  | element :: rest => element.reads schema ++ readsAll schema rest

end

theorem mem_readsAll_iff {schema : Schema} {exprs : List Expr} {cell : Cell}
    : cell ∈ readsAll schema exprs ↔ ∃ expr ∈ exprs, cell ∈ expr.reads schema := by
  induction exprs with
  | nil => simp [readsAll]
  | cons expr rest ih => simp [readsAll, ih]

/-- An operator gives the same result in two stores where both operands do; this covers the two
operators that may leave out their right operand.
-/
theorem eval_binary_congr {schema : Schema} {first second : Store} (op : BinaryOp)
    {left right : Expr} (lefts : left.eval schema first = left.eval schema second)
    (rights : right.eval schema first = right.eval schema second)
    : (Expr.binary op left right).eval schema first
      = (Expr.binary op left right).eval schema second := by
  cases op <;> simp only [eval, lefts, rights]

section

variable {schema : Schema} {slots : Set Nat} {cells : Set Cell} {left right : Store}

mutual

/-- Stores that agree on the slots an expression mentions and on the cells it reads give it the same
value or the same error, by induction on the expression.

What is left out of a lazy conjunction or disjunction counts as read too, so agreement is asked for
more than one evaluation looks at.
-/
theorem eval_agree (agree : Store.Agree slots cells left right) (expr : Expr)
    (mentioned : ∀ slot ∈ expr.mentions, slot ∈ slots)
    (read : ∀ cell ∈ expr.reads schema, cell ∈ cells)
    : expr.eval schema left = expr.eval schema right := by
  cases expr with
  | int value => rfl
  | bool value => rfl
  | entityType entity name => rfl
  | param slot name =>
      have same := agree.slots slot (mentioned slot (by simp [mentions]))
      simp only [eval, same]
  | tuple elements =>
      have values := evalAll_agree agree elements mentioned read
      simp only [eval, values]
  | read place name index =>
      simp only [reads, List.forall_mem_append, Option.mem_toList] at read
      have indices := eval_agree agree index mentioned read.2
      simp only [eval, indices, agree.read read.1]
  | isLive entity name id =>
      simp only [reads, List.forall_mem_append, Option.mem_toList] at read
      have ids := eval_agree agree id mentioned read.2
      have same : ∀ cell ∈ schema.cell? entity, left.state.SameAt right.state cell :=
        fun cell member => agree.cells cell (read.1 cell member)
      simp only [eval, ids, State.hasId_agree same]
  | not operand =>
      have values := eval_agree agree operand mentioned read
      simp only [eval, values]
  | neg operand =>
      have values := eval_agree agree operand mentioned read
      simp only [eval, values]
  | binary op first second =>
      simp only [mentions, List.forall_mem_append] at mentioned
      simp only [reads, List.forall_mem_append] at read
      exact eval_binary_congr op (eval_agree agree first mentioned.1 read.1)
        (eval_agree agree second mentioned.2 read.2)

theorem evalAll_agree (agree : Store.Agree slots cells left right) (exprs : List Expr)
    (mentioned : ∀ slot ∈ mentionsAll exprs, slot ∈ slots)
    (read : ∀ cell ∈ readsAll schema exprs, cell ∈ cells)
    : evalAll schema left exprs = evalAll schema right exprs := by
  cases exprs with
  | nil => rfl
  | cons element rest =>
      simp only [mentionsAll, List.forall_mem_append] at mentioned
      simp only [readsAll, List.forall_mem_append] at read
      have first := eval_agree agree element mentioned.1 read.1
      have others := evalAll_agree agree rest mentioned.2 read.2
      simp only [evalAll, first, others]

end

end

-----------------------------------------------------------------------------------------
-- One state
-----------------------------------------------------------------------------------------

/-- In one state, bindings that agree on the slots an expression mentions give it the same value or
the same error; the state then agrees with itself on every cell.
-/
theorem eval_congr (schema : Schema) (state : State) {left right : Bindings} (expr : Expr)
    (agree : Bindings.AgreeOn expr.mentions left right)
    : expr.eval schema ⟨state, left⟩ = expr.eval schema ⟨state, right⟩ := by
  have same
      : Store.Agree {slot | slot ∈ expr.mentions} Set.univ ⟨state, left⟩ ⟨state, right⟩ :=
    ⟨agree, fun _ _ => State.sameAt_rfl⟩
  exact eval_agree same expr (fun _ mentioned => mentioned) fun _ _ => Set.mem_univ _

/-- The truth value of a condition depends on the slots that it mentions alone, and so does its
error.
-/
theorem evalBool_congr (schema : Schema) (state : State) {left right : Bindings} (condition : Expr)
    (agree : Bindings.AgreeOn condition.mentions left right)
    : condition.evalBool schema ⟨state, left⟩ = condition.evalBool schema ⟨state, right⟩ := by
  rw [evalBool, evalBool, eval_congr schema state condition agree]

/-- Whether a condition holds depends on the slots that it mentions alone. -/
theorem holds_congr (schema : Schema) (state : State) {left right : Bindings} (condition : Expr)
    (agree : Bindings.AgreeOn condition.mentions left right)
    : condition.holds schema ⟨state, left⟩ = condition.holds schema ⟨state, right⟩ := by
  rw [holds, holds, evalBool_congr schema state condition agree]

end Expr

end Dispatch
