import Dispatch.Proofs.Execution.BoundSlots
import Dispatch.Proofs.Execution.RunFrame
import Dispatch.Proofs.Layout.DeclaredStorage

/-!
What the effects of an action leave of its parameters. A slot that no effect writes still holds its
id when the cost begins, and a cost misses no other slot. The effects of an action without a parent
write no parameter; those that are inherited were read with fewer parameters, and their own names
may take the slots of the added ones.
-/

namespace Dispatch

open Execution

/-- The scope of parameters reserves a slot for each of them, which it names and gives the entity
type of the parameter.
-/
theorem ParameterDecl.reserves_scope (parameters : List ParameterDecl)
    : (scope parameters).Reserves parameters.length := by
  intro slot inside
  refine ⟨parameters[slot].name, parameters[slot].entity, ?_⟩
  simp only [scope, List.getElem?_map, List.getElem?_eq_getElem inside, Option.map_some]

namespace ActionDecl

variable {vocabulary : Vocabulary} {decl : ActionDecl} {ids : List Int}

/-- Each effect was read with some of the first parameters in force, and writes none of these.

An inherited effect was read where only the parameters of the parent were in force; it may well
write the slots of those that the action adds.
-/
theorem writes_of_scopedBy {allowed : Nat → Prop} (parts : decl.ScopedBy vocabulary allowed)
    {update : Update} (member : update ∈ decl.effects)
    : ∃ count, allowed count ∧ update.Scoped (decl.names vocabulary count)
        ∧ ∀ slot ∈ update.writes, min count decl.parameters.length ≤ slot := by
  obtain ⟨count, low, resolved⟩ := parts.effects update member
  have reserves := ParameterDecl.reserves_scope (decl.parameters.take count)
  rw [List.length_take] at reserves
  exact ⟨count, low, resolved, Update.writes_of_scoped reserves update resolved⟩

/-- After the effects a slot that none of them writes holds the id that it was given, by the frame
rule for the bindings of a run.
-/
theorem get?_of_effects {schema : Schema} {limit : Nat} {state : State} {store : Store} {slot : Nat}
    {id : Int} (given : ids[slot]? = some id) (spared : slot ∉ Update.writesAll decl.effects)
    (ran : Update.runAll schema limit decl.effects.reverse ⟨state, .ofIds ids⟩ = .ok () store)
    : store.bindings.get? slot = some (.int id) := by
  have untouched : slot ∉ Update.writesAll decl.effects.reverse := by
    intro written
    obtain ⟨update, member, writes⟩ := Update.mem_writesAll_iff.mp written
    exact spared (Update.mem_writesAll_iff.mpr ⟨update, List.mem_reverse.mp member, writes⟩)
  have start : (Store.mk state (.ofIds ids)).Has slot (some (.int id)) := by
    rw [Store.Has, Bindings.get?_ofIds, given, Option.map_some]
  exact (Update.runAll_keeps limit _ untouched).post_of_ok start ran

/-- After the effects the cost of a well-scoped action misses only slots that they wrote.

All slots in force at the cost are those of parameters, which had ids at the start; so one that is
unbound at the end was unbound by an effect.
-/
theorem missing_of_cost {schema : Schema} {limit : Nat} {state : State} {store after : Store}
    {slot : Nat} (parts : decl.ScopedBy vocabulary (· ≤ decl.parameters.length))
    (counted : ids.length = decl.parameters.length)
    (ran : Update.runAll schema limit decl.effects.reverse ⟨state, .ofIds ids⟩ = .ok () store)
    (failed : decl.cost.run schema limit store = .error (.failed (.unboundSlot slot)) after)
    : slot < ids.length ∧ slot ∈ Update.writesAll decl.effects := by
  obtain ⟨count, low, resolved⟩ := parts.cost
  have binds : store.Binds (fun slot => slot < ids.length ∧ slot ∈ Update.writesAll decl.effects)
      (decl.names vocabulary count).scope := by
    intro other inside present
    rw [names, ParameterDecl.size_scope, List.length_take] at inside
    have given : other < ids.length := by omega
    rw [get?_of_effects (List.getElem?_eq_getElem given)
      (fun written => present ⟨given, written⟩) ran]
    exact Option.some_ne_none _
  have misses := ((Update.keeps_binds schema vocabulary _).cost limit resolved).fail_of_error binds
    failed
  exact misses slot rfl

/-- For every action of an accepted domain whose effects all run: each slot that no effect writes
still holds the id of its parameter when the cost begins; the cost finds a slot unbound only if it
is that of a parameter and an effect writes it; each effect spares the parameters that were in force
where it was read; and in an action without a parent these are all parameters.
-/
theorem parameters_kept {source : List Char} {domain : Domain} {schema : Schema} {limit : Nat}
    {state : State} {store : Store} (read : Domain.ofText source = .ok domain)
    (declared : decl ∈ domain.actions) (counted : ids.length = decl.parameters.length)
    (ran : Update.runAll schema limit decl.effects.reverse ⟨state, .ofIds ids⟩ = .ok () store)
    : (∀ slot id, ids[slot]? = some id → slot ∉ Update.writesAll decl.effects
        → store.bindings.get? slot = some (.int id))
      ∧ (∀ slot after,
          decl.cost.run schema limit store = .error (.failed (.unboundSlot slot)) after
          → slot < ids.length ∧ slot ∈ Update.writesAll decl.effects)
      ∧ (∀ update ∈ decl.effects, ∃ count ≤ ids.length,
          update.Scoped (decl.names domain.vocabulary count) ∧ ∀ slot ∈ update.writes, count ≤ slot)
      ∧ (decl.parent = none → ∀ slot ∈ Update.writesAll decl.effects, ids.length ≤ slot) := by
  have wellScoped := (Domain.coherent_of_ofText read).actions decl declared
  refine ⟨?_, ?_, ?_, ?_⟩
  · intro slot id given spared
    exact get?_of_effects given spared ran
  · intro slot after failed
    exact missing_of_cost wellScoped.inherited counted ran failed
  · intro update member
    obtain ⟨count, low, resolved, spares⟩ := writes_of_scopedBy wellScoped.inherited member
    rw [Nat.min_eq_left low] at spares
    exact ⟨count, counted ▸ low, resolved, spares⟩
  · intro orphan slot written
    obtain ⟨update, member, writes⟩ := Update.mem_writesAll_iff.mp written
    obtain ⟨_, rfl, _, spares⟩ := writes_of_scopedBy (wellScoped.own orphan) member
    rw [Nat.min_self, ← counted] at spares
    exact spares slot writes

/-- A domain with an action that inherits an effect and adds a parameter. -/
def carrierText : List Char :=
  ["Start Domain:", "Entities:", "Vehicle, Package", "End Entities", "Variables:",
    "var charge INT", "End Variables", "Actions:", "Move: v - Vehicle", "Effects:",
    "NewVal d: charge + 1", "charge: d", "End Action", "Carry: v - Vehicle, p - Package (Move)",
    "Cost:", "p", "End Action", "End Actions", "End Domain"].flatMap fun line =>
    line.toList ++ ['\n']

def carrierProblem : Problem :=
  ⟨[⟨"Vehicle", [⟨none, .int 1, 1⟩], 1⟩, ⟨"Package", [⟨none, .int 3, 2⟩], 2⟩,
    ⟨"charge", [⟨none, .int 5, 3⟩], 3⟩], []⟩

/-- The domain and the schema of the carrier, its inheriting action, and the store after the effects
of that action on the third package.
-/
def carrierRun : Option (Domain × Schema × ActionDecl × Store) := do
  let (domain, schema) ← load? carrierText carrierProblem
  let decl ← domain.action? "Carry"
  match Update.runAll schema 1 decl.effects.reverse ⟨schema.initial, .ofIds [0, 2]⟩ with
  | .ok () store => return (domain, schema, decl, store)
  | .error _ _ => none

/-- The run of the carrier is one of an accepted problem, and its effects run to the end from the
given ids.
-/
theorem of_carrierRun {domain : Domain} {schema : Schema} {decl : ActionDecl} {store : Store}
    (run : carrierRun = some (domain, schema, decl, store))
    : Domain.ofText carrierText = .ok domain ∧ Schema.ofProblem domain carrierProblem = .ok schema
      ∧ decl ∈ domain.actions
      ∧ Update.runAll schema 1 decl.effects.reverse ⟨schema.initial, .ofIds [0, 2]⟩
        = .ok () store := by
  unfold carrierRun at run
  obtain ⟨⟨found, layout⟩, loaded, run⟩ := Option.bind_eq_some_iff.mp run
  obtain ⟨action, named, run⟩ := Option.bind_eq_some_iff.mp run
  split at run
  · rename_i ran
    have same := Option.some.inj run
    simp only [Prod.mk.injEq] at same
    obtain ⟨rfl, rfl, rfl, rfl⟩ := same
    obtain ⟨read, laid⟩ := accepted_of_load? loaded
    exact ⟨read, laid, List.mem_of_find?_eq_some named, ran⟩
  · cases run

/-- The inheriting action of the carrier has two parameters, its effect writes the slot of the
second, that slot then holds the new charge, and so the cost is the charge.
-/
theorem carrierRun_eq
    : carrierRun.map (fun (_, schema, decl, store) =>
        (decl.parameters.length, Update.writesAll decl.effects, store.bindings,
          ((decl.cost.run schema 1).finish store.state store.bindings).2.toOption))
      = some (2, [1], ⟨[some (.int 0), some (.int 6)]⟩, some 6) := by
  decide +kernel

/-- The inheriting action of the carrier keeps its vehicle, whose slot no effect writes. -/
theorem parameters_kept_of_carrier
    : ∃ domain schema decl store, Domain.ofText carrierText = .ok domain ∧ decl ∈ domain.actions
        ∧ ([0, 2] : List Int).length = decl.parameters.length
        ∧ Update.runAll schema 1 decl.effects.reverse ⟨schema.initial, .ofIds [0, 2]⟩ = .ok () store
        ∧ store.bindings.get? 0 = some (.int 0) := by
  obtain ⟨⟨domain, schema, decl, store⟩, run, shape⟩ := Option.map_eq_some_iff.mp carrierRun_eq
  obtain ⟨read, _, declared, ran⟩ := of_carrierRun run
  obtain ⟨two, written, _⟩ : _ ∧ _ ∧ _ := by simpa only [Prod.mk.injEq] using shape
  have counted : ([0, 2] : List Int).length = decl.parameters.length := two.symm
  have kept := (parameters_kept read declared counted ran).1 0 0 rfl (by simp [written])
  exact ⟨domain, schema, decl, store, read, declared, counted, ran, kept⟩

/-- The inheriting action of the carrier loses its package: after its effects the slot of the second
parameter holds the new charge, which the cost then reads in place of the given id.
-/
theorem parameter_lost_of_carrier
    : ∃ domain schema decl store, Domain.ofText carrierText = .ok domain
        ∧ Schema.ofProblem domain carrierProblem = .ok schema ∧ decl ∈ domain.actions
        ∧ ([0, 2] : List Int).length = decl.parameters.length
        ∧ Update.runAll schema 1 decl.effects.reverse ⟨schema.initial, .ofIds [0, 2]⟩ = .ok () store
        ∧ store.bindings.get? 1 ≠ some (.int 2)
        ∧ ((decl.cost.run schema 1).finish store.state store.bindings).2.toOption
          = some 6 := by
  obtain ⟨⟨domain, schema, decl, store⟩, run, shape⟩ := Option.map_eq_some_iff.mp carrierRun_eq
  obtain ⟨read, laid, declared, ran⟩ := of_carrierRun run
  obtain ⟨two, _, bound, paid⟩ : _ ∧ _ ∧ _ ∧ _ := by simpa only [Prod.mk.injEq] using shape
  refine ⟨domain, schema, decl, store, read, laid, declared, two.symm, ran, ?_, paid⟩
  rw [bound]
  decide

end ActionDecl

end Dispatch
