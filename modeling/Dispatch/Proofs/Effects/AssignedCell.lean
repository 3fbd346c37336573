import Mathlib
import Dispatch.Proofs.Effects.SingleEffects
import Dispatch.Proofs.Layout.NameResolution
import Dispatch.Proofs.Scoping.EffectScopes
import Dispatch.Proofs.Simulation.ItemIdentity

/-!
An assignment writes one cell: what its name reads at its index. As no two names of a domain stand
for one place, every other name and every other index read what they read before.
-/

namespace Dispatch

open Execution

-----------------------------------------------------------------------------------------
-- Reads after a write
-----------------------------------------------------------------------------------------

/-- A value of the state that may be replaced: that of a mutable variable at one of its indices, or
of a mutable field of a live item.
-/
inductive State.Replaceable (state : State) : Place → Int → Prop where
  | var {slot : Nat} {values : Array Value} (stored : state.mutables[slot]? = some values)
      {position : Nat} (below : position < values.size)
      : Replaceable state (.var slot) position
  | field {collection slot : Nat} {items : Items} {item : Item} {id : Int}
      (stored : state.collections[collection]? = some items) (live : items.get? id = some item)
      (below : slot < item.mutables.length)
      : Replaceable state (.field collection slot false) id

theorem valueAt?_eq_some {values : Array Value} {index : Int} {value : Value}
    (found : valueAt? values index = some value)
    : ∃ position : Nat, index = position ∧ position < values.size := by
  cases index with
  | negSucc low => cases found
  | ofNat position => exact ⟨position, rfl, (Array.getElem?_eq_some_iff.mp found).1⟩

theorem valueAt?_natCast (values : Array Value) (position : Nat)
    : valueAt? values position = values[position]? := rfl

/-- A value that is written to a position is seen at no other index. -/
theorem valueAt?_setIfInBounds_of_ne (values : Array Value) {position : Nat} (written : Value)
    {index : Int} (apart : index ≠ position)
    : valueAt? (values.setIfInBounds position written) index = valueAt? values index := by
  cases index with
  | negSucc low => rfl
  | ofNat other =>
      have different : position ≠ other := fun same => apart (congrArg Int.ofNat same.symm)
      exact Array.getElem?_setIfInBounds_ne different

/-- A write is allowed only where a value may be replaced, by cases on what the check comes to: a
mutable variable with a value at the index, or a mutable field of a live item.
-/
theorem State.replaceable_of_checkWrite {schema : Schema} {state : State} {place : Place}
    {name : String} {index : Int} {value : Value}
    (allowed : state.checkWrite schema place name index value = .ok ())
    : state.Replaceable place index := by
  rcases checkWrite_cases schema state place name index value
    with ⟨_, refused⟩ | ⟨_, _, refused⟩ | ⟨mutable, _, checked⟩
  · rw [refused] at allowed
    cases allowed
  · rw [refused] at allowed
    cases allowed
  · rw [checked] at allowed
    unfold checkTarget at allowed
    cases place with
    | const slot => cases mutable
    | var slot =>
        dsimp only at allowed
        cases stored : state.mutables[slot]? with
        | none =>
            rw [stored] at allowed
            cases allowed
        | some values =>
            rw [stored] at allowed
            cases found : valueAt? values index with
            | none =>
                simp only [found] at allowed
                cases allowed
            | some old =>
                obtain ⟨position, rfl, below⟩ := valueAt?_eq_some found
                exact .var stored below
    | field collection slot constant =>
        obtain rfl : constant = false := mutable
        dsimp only at allowed
        cases stored : state.collections[collection]? with
        | none =>
            rw [stored] at allowed
            cases allowed
        | some items =>
            rw [stored] at allowed
            dsimp only at allowed
            cases live : items.get? index with
            | none =>
                rw [live] at allowed
                cases allowed
            | some item =>
                rw [live] at allowed
                dsimp only at allowed
                by_cases below : slot < item.mutables.length
                · exact .field stored live below
                · rw [if_pos (Nat.le_of_not_lt below)] at allowed
                  cases allowed

namespace State

variable (state : State) (written : Value)

theorem mutables_write (slot position : Nat)
    : (state.write (.var slot) position written).mutables
      = state.mutables.modify slot (·.setIfInBounds position written) := rfl

theorem item?_write_var (slot : Nat) (index : Int) (collection : Nat) (id : Int)
    : (state.write (.var slot) index written).item? collection id = state.item? collection id := by
  unfold write
  dsimp only
  split <;> rfl

/-- Writing to a field changes the item of the id that is written to, and no other item of any
collection.
-/
theorem item?_write_field (collection slot : Nat) (constant : Bool) (id : Int) (other : Nat)
    (index : Int)
    : (state.write (.field collection slot constant) id written).item? other index
      = if collection = other ∧ id = index then
          (state.item? other index).map (·.setField slot written)
        else state.item? other index := by
  rw [Option.map_eq_bind]
  exact item?_change id _ other index

end State

namespace Store

variable {schema : Schema} {store : Store} {place other : Place} {position index : Int}

/-- What was written is read, by cases on the place that may be replaced. -/
theorem read_write (replaceable : store.state.Replaceable place position) (name : String)
    (written : Value)
    : Store.read schema { store with state := store.state.write place position written } place name
        position
      = .ok written := by
  cases replaceable with
  | @var slot values stored position below =>
      have put : (values.setIfInBounds position written)[position]? = some written :=
        Array.getElem?_setIfInBounds_self_of_lt below
      rw [read_var, State.mutables_write, List.getElem?_modify_eq, stored, Option.map_eq_map,
        Option.map_some, Option.elim_some, valueAt?_natCast, put, Option.elim_some]
  | @field collection slot items item id stored live below =>
      have present : store.state.item? collection position = some item := by
        rw [State.item?, stored]
        exact live
      rw [read_field, State.item?_write_field, if_pos ⟨rfl, rfl⟩, present]
      simp [Item.field?, Item.setField, below]

/-- Another place, or another index of the place, reads what it read before the write, by cases on
the two places; an error that was read before is read again.
-/
theorem read_write_of_ne (replaceable : store.state.Replaceable place position)
    (apart : other = place → index ≠ position) (name : String) (written : Value)
    : Store.read schema { store with state := store.state.write place position written } other name
        index
      = store.read schema other name index := by
  cases replaceable with
  | @var slot values stored position below =>
      cases other with
      | const => rfl
      | var found =>
          rw [read_var, read_var, State.mutables_write, List.getElem?_modify]
          by_cases same : slot = found
          · subst same
            simp only [stored, Option.map_eq_map, Option.map_some, if_true, Option.elim_some,
              valueAt?_setIfInBounds_of_ne values written (apart rfl), Array.size_setIfInBounds]
          · simp [same]
      | field => rw [read_field, read_field, State.item?_write_var]
  | @field collection slot items item id stored live below =>
      cases other with
      | const | var => rfl
      | field found other constant =>
          rw [read_field, read_field, State.item?_write_field]
          by_cases same : collection = found ∧ position = index
          · -- It is the item that is written, but another of its fields.
            obtain ⟨rfl, rfl⟩ := same
            have different : constant = false → slot ≠ other := by
              rintro rfl rfl
              exact apart rfl rfl
            cases constant with
            | true =>
                cases store.state.item? collection position <;> simp [Item.field?, Item.setField]
            | false =>
                cases store.state.item? collection position <;>
                  simp [Item.field?, Item.setField, different rfl]
          · rw [if_neg same]

end Store

-----------------------------------------------------------------------------------------
-- Assignments
-----------------------------------------------------------------------------------------

/-- An assignment to a named value writes no cell: it gives the slot of the name the value from
before, and the state and every other slot stay as they are. If it fails, nothing is changed.
-/
theorem Update.assignLocal_binds (schema : Schema) (limit slot : Nat) (name : String) (value : Expr)
    (before : Store)
    : (∀ after,
        (Update.assignLocal slot name value).run schema limit before = .ok () after
          → ∃ written, value.eval schema before = .ok written ∧ after.state = before.state
            ∧ ∀ other, after.bindings.get? other
                = if other = slot then some written else before.bindings.get? other)
      ∧ ∀ halt after,
          (Update.assignLocal slot name value).run schema limit before = .error halt after
            → after = before := by
  have meets := assignLocal_fromStart schema limit before slot name value
  refine ⟨fun after ran => ?_, fun halt after => meets.fail_of_error rfl⟩
  obtain ⟨written, valued, rfl⟩ := meets.post_of_ok rfl ran
  exact ⟨written, valued, rfl, fun other => before.bindings.get?_bind slot other written⟩

/-- No two names of an accepted domain stand for one place, since names are declared with a place of
their own.
-/
theorem Domain.eq_of_place? {source : List Char} {domain : Domain}
    (read : Domain.ofText source = .ok domain) {one other : String} {place : Place}
    (named : domain.vocabulary.place? one = some place)
    (otherNamed : domain.vocabulary.place? other = some place)
    : one = other := by
  have apart := names_nodup_of_ofText read
  obtain ⟨decl, found, rfl⟩ := Option.map_eq_some_iff.mp named
  obtain ⟨otherDecl, otherFound, same⟩ := Option.map_eq_some_iff.mp otherNamed
  obtain ⟨member, rfl⟩ := (Vocabulary.name?_eq_some_iff apart).mp found
  obtain ⟨otherMember, rfl⟩ := (Vocabulary.name?_eq_some_iff apart).mp otherFound
  exact (lists_of_ofText read).eq_of_place (coherent_of_ofText read).describes.fields member
    otherMember same.symm

/-- After an assignment a name reads at one index what was written, and every other name or index
reads as before; the ids in use, the next ids and the bindings are the same.
-/
structure Store.Assigned (vocabulary : Vocabulary) (schema : Schema) (name : String)
    (position : Int) (written : Value) (before after : Store) : Prop where
  reads : readName vocabulary schema after name position = .ok written
  others
    : ∀ other index, (other, index) ≠ (name, position)
        → readName vocabulary schema after other index
          = readName vocabulary schema before other index
  identities : after.state.identities = before.state.identities
  bindings : after.bindings = before.bindings

/-- An assignment that is read from a line writes one cell: that of its name at its index, where it
puts the value from before. If it fails, nothing is changed.
-/
theorem Update.assigned_of_ofLine {source : List Char} {domain : Domain}
    (read : Domain.ofText source = .ok domain) {scope : Scope} {line : Line} {place : Place}
    {name : String} {index value : Expr}
    (parsed : ofLine ⟨domain.vocabulary, scope⟩ line = .ok (.assign place name index value))
    (schema : Schema) (limit : Nat) (before : Store)
    : (∀ after,
        (Update.assign place name index value).run schema limit before = .ok () after
          → ∃ position written, index.evalInt schema before = .ok position
            ∧ value.eval schema before = .ok written
            ∧ Store.Assigned domain.vocabulary schema name position written before after)
      ∧ ∀ halt after,
          (Update.assign place name index value).run schema limit before = .error halt after
            → after = before := by
  obtain ⟨⟨named, _⟩, _⟩ := (scopedLine_of_ofLine parsed).1
  have meets := assign_fromStart schema limit before place name index value
  refine ⟨fun after ran => ?_, fun halt after => meets.fail_of_error rfl⟩
  obtain ⟨position, written, indexed, valued, allowed, rfl⟩ := meets.post_of_ok rfl ran
  have replaceable := State.replaceable_of_checkWrite allowed
  refine ⟨position, written, indexed, valued, ?_⟩
  refine {
    reads := (Store.readName_eq _ _ _ _ named).trans (Store.read_write replaceable name written)
    others := fun other position' apart => ?_
    identities := before.state.identities_write place position written
    bindings := rfl }
  cases known : domain.vocabulary.place? other with
  | none => simp only [Store.readName, known]
  | some found =>
      rw [Store.readName_eq _ _ _ _ known, Store.readName_eq _ _ _ _ known]
      refine Store.read_write_of_ne replaceable (fun same => ?_) other written
      subst same
      obtain rfl := Domain.eq_of_place? read named known
      exact fun same => apart (congrArg (name, ·) same)

/-- The names that the text of the quay declares. -/
def quayVocabulary : Vocabulary where
  entities := [⟨"Ship", 0, none, none, 3⟩, ⟨"Crate", 1, none, some 0, 3⟩]
  indices := [("Ship", 0), ("Crate", 1)]
  collections := [1]
  fieldCounts := [2]
  names :=
    [⟨"size", .field 0 0 true, .int⟩, ⟨"full", .field 0 0 false, .bool⟩, ⟨"load", .var 0, .int⟩,
      ⟨"limit", .const 0, .int⟩]

/-- The layout of the quay with two ships, neither of which has a load. -/
def quaySchema : Schema where
  entities := [⟨"Ship", none, .positional 2⟩, ⟨"Crate", none, .dynamic 0⟩]
  constants := [⟨⟨⟨"limit", .int, true, none, none, 0, 7⟩, 1⟩, #[.int 0]⟩]
  mutables := [⟨⟨"load", .int, false, some 0, none, 0, 6⟩, 2⟩]
  collections := [⟨"Crate", 1, [⟨"size", .int, true, 0⟩, ⟨"full", .bool, false, 0⟩]⟩]
  names :=
    [("limit", .const 0), ("load", .var 0), ("size", .field 0 0 true), ("full", .field 0 0 false)]
  initial := ⟨[#[.int 0, .int 0]], [.empty]⟩
  batches := []

/-- The load of the ship with a number, which is the load of a ship in turn. -/
def quayIndex : Expr := .read (.var 0) "load" (.int 1)

def quayValue : Expr := .binary .add (.read (.var 0) "load" quayIndex) (.int 7)

/-- Loading a ship whose number is read from what is written goes by the number from before. -/
theorem Update.assigned_at_quay
    : ∃ domain schema after, Domain.ofText quayText = .ok domain
        ∧ Schema.ofProblem domain quayProblem = .ok schema
        ∧ ofLine ⟨domain.vocabulary, .empty⟩
            ⟨"load (load (1)): load (load (1)) + 7".toList, 1, 1⟩
          = .ok (.assign (.var 0) "load" quayIndex quayValue)
        ∧ (Update.assign (.var 0) "load" quayIndex quayValue).run schema 0 ⟨schema.initial, .empty⟩
          = .ok () after
        ∧ Store.Assigned domain.vocabulary schema "load" 0 (.int 7) ⟨schema.initial, .empty⟩
            after := by
  have shape
      : (load? quayText quayProblem).map (fun loaded => (loaded.1.vocabulary, loaded.2))
        = some (quayVocabulary, quaySchema) := by
    decide +kernel
  obtain ⟨⟨domain, schema⟩, loaded, shape⟩ := Option.map_eq_some_iff.mp shape
  obtain ⟨read, laid⟩ := accepted_of_load? loaded
  obtain ⟨vocabulary, same⟩ := Prod.mk.inj shape
  obtain rfl : schema = quaySchema := same
  have parsed
      : ofLine ⟨quayVocabulary, .empty⟩ ⟨"load (load (1)): load (load (1)) + 7".toList, 1, 1⟩
        = .ok (.assign (.var 0) "load" quayIndex quayValue) := by
    cbv
  have ran
      : (Update.assign (.var 0) "load" quayIndex quayValue).run quaySchema 0
          ⟨quaySchema.initial, .empty⟩
        = .ok () ⟨⟨[#[.int 7, .int 0]], [.empty]⟩, .empty⟩ :=
    rfl
  rw [← show domain.vocabulary = quayVocabulary from vocabulary] at parsed
  obtain ⟨position, written, indexed, valued, assigned⟩ :=
    (assigned_of_ofLine read parsed quaySchema 0 _).1 _ ran
  obtain rfl : 0 = position := Except.ok.inj indexed
  obtain rfl : .int 7 = written := Except.ok.inj valued
  exact ⟨domain, quaySchema, _, read, laid, parsed, ran, assigned⟩

end Dispatch
