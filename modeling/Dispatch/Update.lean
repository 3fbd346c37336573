import Dispatch.Expr

/-!
Effects: assignments, changes of item collections, and the blocks that nest them. The body of a
binding is the rest of the block in which it stands.
-/

namespace Dispatch

inductive Update where
  /-- Stores a value at one index of a variable or field. -/
  | assign (place : Place) (name : String) (index value : Expr)
  /-- Gives a named value another value. -/
  | assignLocal (slot : Nat) (name : String) (value : Expr)
  /-- Adds an item with the given fields. -/
  | insert (entity collection : Nat) (fields : List Expr)
  /-- Removes the item with an id. -/
  | remove (entity collection : Nat) (id : Expr)
  /-- Gives the item with an id new fields. -/
  | replace (entity collection : Nat) (id : Expr) (fields : List Expr)
  /-- Names a value for the rest of the block. -/
  | bind (slot : Nat) (name : String) (value : Expr) (body : List Update)
  /-- Runs one of two bodies. -/
  | branch (condition : Expr) (thenBody elseBody : List Update)
  /-- Runs the body for every id of an entity type that passes the filter. -/
  | forEach (slot : Nat) (name : String) (entity : Nat) (filter : Option Expr) (body : List Update)
  /-- Runs the body as long as the condition holds. -/
  | loop (condition : Expr) (body : List Update)

/-- A cost: effects to run first, and the expression that is then the cost. -/
structure Cost where
  updates : List Update
  value : Expr

def Cost.zero : Cost := ⟨[], .int 0⟩

end Dispatch
