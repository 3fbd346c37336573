import Dispatch.Action.Schedule
import Dispatch.Text.Joined
import Dispatch.Update.Run

/-!
Actions with scheduled conditions, the grounded actions of an actor, and their application. A
grounded action is found by binding one parameter after the other and leaving a partial choice as
soon as a condition fails.
-/

namespace Dispatch

/-- An action with its conditions scheduled over its parameters. -/
structure Template where
  decl : ActionDecl
  preconditions : Schedule
  conflicts : Schedule

/-- An instance of an entity type that may act. -/
structure Actor where
  entity : Nat
  id : Int
deriving DecidableEq

/-- An action with an id for each parameter. -/
structure GroundAction where
  template : Template
  ids : List Int

/-- Whether a condition evaluates to true; a condition with an error does not hold. -/
def Expr.holds (schema : Schema) (store : Store) (condition : Expr) : Bool :=
  match condition.evalBool schema store with
  | .ok value => value
  | .error _ => false

namespace Template

def ofDecl (decl : ActionDecl) : Template where
  decl := decl
  preconditions := .ofConditions decl.preconditions decl.parameters.length
  conflicts := .ofConditions decl.conflicts decl.parameters.length

def actorEntity? (template : Template) : Option Nat := template.decl.parameters.head?.map (·.entity)

/-- Whether instances of an entity type are the actors. -/
def hasActor (template : Template) (entity : Nat) : Bool := template.actorEntity? = some entity

/-- Whether the conditions scheduled at a position hold when the parameters up to it have ids. -/
def passes (template : Template) (schema : Schema) (state : State) (position : Nat)
    (ids : List Int) : Bool :=
  let store : Store := ⟨state, .ofIds ids⟩
  (template.preconditions.conditionsAt position).all (Expr.holds schema store)
    && (template.conflicts.conditionsAt position).all (Expr.holds schema store)

/-- The choices of ids that extend a partial choice by one id for each further parameter, in
lexicographic order, and pass at every position.
-/
def extensions (template : Template) (schema : Schema) (state : State) (ids : List Int)
    : List ParameterDecl → List (List Int)
  | [] => [ids]
  | parameter :: rest =>
      (state.ids schema parameter.entity).flatMap fun id =>
        if template.passes schema state ids.length (ids ++ [id]) then
          extensions template schema state (ids ++ [id]) rest
        else []

/-- The grounded actions of an actor, in lexicographic order of their ids. -/
def ground (template : Template) (schema : Schema) (state : State) (actor : Actor)
    : List GroundAction :=
  if !state.hasId schema actor.entity actor.id then []
  else
    match template.decl.parameters with
    | [] => if template.passes schema state 0 [] then [⟨template, []⟩] else []
    | first :: rest =>
        if first.entity = actor.entity && template.passes schema state 0 [actor.id] then
          (template.extensions schema state [actor.id] rest).map (⟨template, ·⟩)
        else []

end Template

/-- Runs effects, the last declared first, and then the cost. -/
def runWithCost (schema : Schema) (limit : Nat) (effects : List Update) (cost : Cost)
    : Execution Int := do
  Update.runAll schema limit effects.reverse
  cost.run schema limit

/-- The state that a computation leaves when it starts with the given bindings, and its result or
the reason why it stopped early.
-/
def Execution.finish {α : Type} (execution : Execution α) (state : State) (bindings : Bindings)
    : State × Except Halt α :=
  match execution ⟨state, bindings⟩ with
  | .ok result store => (store.state, .ok result)
  | .error halt store => (store.state, .error halt)

/-- Why a grounded action was not applied. -/
inductive ActionFailure where
  /-- A conflicting condition does not hold any more. -/
  | conflicting
  | halted (halt : Halt)
deriving DecidableEq

def Halt.message : Halt → String
  | .failed error => error.message
  | .endless => "loop without end"

/-- The wording of the failure of an action. -/
def ActionFailure.message : ActionFailure → String
  | .conflicting => "conflicting preconditions no longer hold"
  | .halted halt => halt.message

namespace GroundAction

/-- The action with its ids, such as `Load(0, 3)`. -/
def text (action : GroundAction) : String :=
  action.template.decl.name ++ "(" ++ joined ", " (action.ids.map toString) ++ ")"

def actor? (action : GroundAction) : Option Actor := do
  let entity ← action.template.actorEntity?
  let id ← action.ids.head?
  return ⟨entity, id⟩

/-- The state with the parameters bound to their ids. -/
def store (action : GroundAction) (state : State) : Store := ⟨state, .ofIds action.ids⟩

def isCompatible (action : GroundAction) (schema : Schema) (state : State) : Bool :=
  action.template.conflicts.order.all (Expr.holds schema (action.store state))

/-- Whether all preconditions and all conflicting conditions hold. -/
def isValid (action : GroundAction) (schema : Schema) (state : State) : Bool :=
  action.template.preconditions.order.all (Expr.holds schema (action.store state))
    && action.isCompatible schema state

/-- The state after the action, and its cost or its failure. The effects change a copy of the state,
which takes its place when they and the cost have run to the end.
-/
def apply (action : GroundAction) (schema : Schema) (limit : Nat) (state : State)
    : State × Except ActionFailure Int :=
  if !action.isCompatible schema state then (state, .error .conflicting)
  else
    let decl := action.template.decl
    match (runWithCost schema limit decl.effects decl.cost).finish state (.ofIds action.ids) with
    | (next, .ok cost) => (next, .ok cost)
    | (_, .error halt) => (state, .error (.halted halt))

/-- The cost of the action in a state. -/
def cost (action : GroundAction) (schema : Schema) (limit : Nat) (state : State)
    : Except ActionFailure Int :=
  (action.apply schema limit state).2

/-- The wording of a failure of the action. -/
def failureMessage (action : GroundAction) (failure : ActionFailure) : String :=
  action.text ++ ": " ++ failure.message

end GroundAction

end Dispatch
