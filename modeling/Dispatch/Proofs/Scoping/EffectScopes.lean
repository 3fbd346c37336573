import Dispatch.Proofs.Scoping.ExpressionScopes
import Dispatch.Update.Parser

/-!
Every name in effects that were read is resolved by the names in force where it stands, an item gets
as many fields as its collection declares, and what a binding or a loop over ids puts into the scope
takes the next slot. A binding is the last effect of its body, so the scope after a body is that of
its chain of bindings.
-/

namespace Dispatch

namespace Update

-----------------------------------------------------------------------------------------
-- Scoped effects
-----------------------------------------------------------------------------------------

mutual

/-- Every name of the effect is resolved by the names in force, fields are as many as declared, and
slots are taken in the order of the scope.
-/
def Scoped (names : Names) : Update → Prop
  | .assign place name index value =>
      (names.vocabulary.place? name = some place ∧ place.isConstant = false)
      ∧ index.Scoped names ∧ value.Scoped names
  | .assignLocal slot name value =>
      names.scope.lookup? name = some (slot, .temporary) ∧ value.Scoped names
  | .insert entity collection fields =>
      names.vocabulary.collection? entity = some collection
      ∧ fields.length = names.vocabulary.fieldCount collection ∧ Expr.AllScoped names fields
  | .remove entity collection id =>
      names.vocabulary.collection? entity = some collection ∧ id.Scoped names
  | .replace entity collection id fields =>
      names.vocabulary.collection? entity = some collection ∧ id.Scoped names
      ∧ fields.length = names.vocabulary.fieldCount collection ∧ Expr.AllScoped names fields
  | .bind slot name value body =>
      slot = names.scope.size ∧ value.Scoped names ∧ BodyScoped (names.push name .temporary) body
  | .branch condition thenBody elseBody =>
      condition.Scoped names ∧ BodyScoped names thenBody ∧ BodyScoped names elseBody
  | .forEach slot name entity filter body =>
      slot = names.scope.size ∧ (∃ owner, names.vocabulary.entity? owner = some entity)
      ∧ (∀ condition, filter = some condition → condition.Scoped (names.push name (.entity entity)))
      ∧ BodyScoped (names.push name (.entity entity)) body
  | .loop condition body => condition.Scoped names ∧ BodyScoped names body

def BodyScoped (names : Names) : List Update → Prop
  | [] => True
  | update :: rest => update.Scoped names ∧ BodyScoped names rest

end

mutual

/-- The scope after an effect: a binding leaves its slot and those of its body in force. -/
def scopeAfter (scope : Scope) : Update → Scope
  | .bind _ name _ body => bodyScope (scope.push name .temporary) body
  | _ => scope

/-- The scope after the effects of a body, which its last effect decides. -/
def bodyScope (scope : Scope) : List Update → Scope
  | [] => scope
  | [update] => update.scopeAfter scope
  | _ :: next :: rest => bodyScope scope (next :: rest)

end

/-- An effect that leaves the scope alone may be put before a body. -/
theorem bodyScope_cons {scope : Scope} {update : Update} (rest : List Update)
    (same : update.scopeAfter scope = scope)
    : bodyScope scope (update :: rest) = bodyScope scope rest := by
  cases rest with
  | nil => simpa only [bodyScope] using same
  | cons next rest => rfl

-----------------------------------------------------------------------------------------
-- Effect lines
-----------------------------------------------------------------------------------------

/-- The effect is scoped and leaves the scope alone, as every effect but a binding does. -/
def ScopedLine (names : Names) (update : Update) : Prop :=
  update.Scoped names ∧ ∀ scope, update.scopeAfter scope = scope

/-- The target of an assignment that was read assigns a scoped value under scoped names. -/
theorem scopedLine_of_readTarget {context : LineContext} {input rest : List Lexeme}
    {target : AssignmentTarget} {value : Expr}
    (read : AssignmentTarget.read context input = .ok (target, rest))
    (resolved : value.Scoped context.toNames)
    : ScopedLine context.toNames (target.assign value) := by
  unfold AssignmentTarget.read at read
  split at read
  · split at read
    · rename_i slot bound
      obtain ⟨rfl, rfl⟩ := Prod.mk.inj (Except.ok.inj read)
      exact ⟨⟨bound, resolved⟩, fun _ => rfl⟩
    · simp at read
    · obtain ⟨⟨found, after⟩, _, named⟩ := bind_eq_ok_iff.mp read
      obtain ⟨place, placeFound, named⟩ := bind_eq_ok_iff.mp named
      dsimp only at named
      split at named
      · cases named
      · rename_i mutable
        obtain ⟨⟨index, last⟩, indexRead, done⟩ := bind_eq_ok_iff.mp named
        obtain ⟨rfl, rfl⟩ := Prod.mk.inj (Except.ok.inj done)
        have known := LineContext.place?_of_placeNamed placeFound
        have indexScoped := Expr.scoped_of_readIndex indexRead
        exact ⟨⟨⟨known, by simpa using mutable⟩, indexScoped, resolved⟩, fun _ => rfl⟩
  · simp at read

/-- An assignment that was read is scoped: its target is a place or a local, and its value is read
in the same scope.
-/
theorem scopedLine_of_ofAssignment {names : Names} {line : Line} {update : Update}
    (read : ofAssignment names line = .ok update)
    : ScopedLine names update := by
  obtain ⟨⟨context, input⟩, opened, read⟩ := bind_eq_ok_iff.mp read
  obtain ⟨⟨target, rest⟩, targetRead, read⟩ := bind_eq_ok_iff.mp read
  obtain ⟨_, _, read⟩ := bind_eq_ok_iff.mp read
  obtain ⟨⟨value, rest⟩, valueRead, read⟩ := bind_eq_ok_iff.mp read
  obtain ⟨_, _, done⟩ := bind_eq_ok_iff.mp read
  obtain rfl := Except.ok.inj done
  rw [← LineContext.toNames_of_ofLine opened]
  exact scopedLine_of_readTarget targetRead (Expr.scoped_of_readExpr valueRead)

theorem scoped_of_readFields {context : LineContext} {input rest : List Lexeme}
    {fields : List Expr} (read : context.readFields input = .ok (fields, rest))
    : Expr.AllScoped context.toNames fields := by
  obtain ⟨after, _, read⟩ := bind_eq_ok_iff.mp read
  split at read
  · obtain ⟨rfl, rfl⟩ := Prod.mk.inj (Except.ok.inj read)
    trivial
  · obtain ⟨⟨fields, after⟩, elements, read⟩ := bind_eq_ok_iff.mp read
    obtain ⟨_, _, done⟩ := bind_eq_ok_iff.mp read
    obtain ⟨rfl, rfl⟩ := Prod.mk.inj (Except.ok.inj done)
    exact Expr.allScoped_of_readElements elements

/-- A command on items that was read is scoped; a wrong number of fields is refused. By cases on the
command.
-/
theorem scopedLine_of_ofCommand {names : Names} {entity : Nat} {name : String}
    {command : ItemCommand} {tail : Line} {update : Update}
    (read : ofCommand names entity name command tail = .ok update)
    : ScopedLine names update := by
  unfold ofCommand at read
  split at read
  · rename_i collection owned
    obtain ⟨⟨context, input⟩, opened, read⟩ := bind_eq_ok_iff.mp read
    obtain rfl := LineContext.toNames_of_ofLine opened
    cases command with
    | remove =>
        obtain ⟨⟨id, rest⟩, idRead, read⟩ := bind_eq_ok_iff.mp read
        obtain ⟨_, _, done⟩ := bind_eq_ok_iff.mp read
        obtain rfl := Except.ok.inj done
        exact ⟨⟨owned, Expr.scoped_of_readExpr idRead⟩, fun _ => rfl⟩
    | add =>
        obtain ⟨⟨fields, rest⟩, fieldsRead, read⟩ := bind_eq_ok_iff.mp read
        obtain ⟨_, counted, read⟩ := bind_eq_ok_iff.mp read
        obtain ⟨_, _, done⟩ := bind_eq_ok_iff.mp read
        obtain rfl := Except.ok.inj done
        dsimp only at counted
        split at counted
        · rename_i count
          exact ⟨⟨owned, count, scoped_of_readFields fieldsRead⟩, fun _ => rfl⟩
        · cases counted
    | replace =>
        obtain ⟨⟨id, rest⟩, idRead, read⟩ := bind_eq_ok_iff.mp read
        obtain ⟨⟨fields, rest⟩, fieldsRead, read⟩ := bind_eq_ok_iff.mp read
        obtain ⟨_, counted, read⟩ := bind_eq_ok_iff.mp read
        obtain ⟨_, _, done⟩ := bind_eq_ok_iff.mp read
        obtain rfl := Except.ok.inj done
        dsimp only at counted
        split at counted
        · rename_i count
          have idScoped := Expr.scoped_of_readExpr idRead
          exact ⟨⟨owned, idScoped, count, scoped_of_readFields fieldsRead⟩, fun _ => rfl⟩
        · cases counted
  · cases read

/-- The effect of a line is scoped, be it an assignment or a command on items. -/
theorem scopedLine_of_ofLine {names : Names} {line : Line} {update : Update}
    (read : ofLine names line = .ok update)
    : ScopedLine names update := by
  unfold ofLine at read
  split at read
  · exact scopedLine_of_ofAssignment read
  · dsimp only at read
    split at read
    · exact scopedLine_of_ofAssignment read
    · split at read
      · exact scopedLine_of_ofCommand read
      · split at read
        · exact scopedLine_of_ofAssignment read
        · cases read

/-- The header of a loop over ids that was read has a declared entity type and a filter that is
scoped with the name of the loop in force.
-/
theorem EachHeader.scoped_of_ofLine {names : Names} {line : Line} {header : EachHeader}
    (read : EachHeader.ofLine names line = .ok header)
    : (∃ owner, names.vocabulary.entity? owner = some header.entity)
      ∧ ∀ condition, header.filter = some condition →
          condition.Scoped (names.push header.name (.entity header.entity)) := by
  unfold EachHeader.ofLine at read
  split at read
  · obtain ⟨name, _, read⟩ := bind_eq_ok_iff.mp read
    dsimp only at read
    split at read
    · rename_i entity declared
      split at read
      · obtain rfl := Except.ok.inj read
        exact ⟨⟨_, declared⟩, nofun⟩
      · obtain ⟨filter, filterRead, done⟩ := bind_eq_ok_iff.mp read
        obtain rfl := Except.ok.inj done
        refine ⟨⟨_, declared⟩, ?_⟩
        rintro _ ⟨⟩
        exact Expr.scoped_of_ofLine filterRead
    · cases read
  · cases read

-----------------------------------------------------------------------------------------
-- Blocks of effects
-----------------------------------------------------------------------------------------

mutual

/-- The effect that a block holds is scoped, by induction on the nesting of blocks. A loop over ids
puts its own name behind the scope, and its body is read with that.
-/
theorem scopedLine_of_ofBlock (names : Names) (block : Block) {update : Update}
    (read : ofBlock names block = .ok update)
    : ScopedLine names update := by
  cases block with
  | plain line =>
      rw [ofBlock] at read
      exact scopedLine_of_ofLine read
  | choice condition thenBlocks elseBlocks =>
      rw [ofBlock] at read
      obtain ⟨condition, conditionRead, read⟩ := bind_eq_ok_iff.mp read
      obtain ⟨⟨thenBody, _⟩, thenRead, read⟩ := bind_eq_ok_iff.mp read
      obtain ⟨⟨elseBody, _⟩, elseRead, done⟩ := bind_eq_ok_iff.mp read
      obtain rfl := Except.ok.inj done
      have thenScoped := (scoped_of_ofBlocks names thenBlocks thenRead).1
      have elseScoped := (scoped_of_ofBlocks names elseBlocks elseRead).1
      exact ⟨⟨Expr.scoped_of_ofLine conditionRead, thenScoped, elseScoped⟩, fun _ => rfl⟩
  | each header body =>
      rw [ofBlock] at read
      obtain ⟨header, headerRead, read⟩ := bind_eq_ok_iff.mp read
      obtain ⟨⟨inner, _⟩, bodyRead, done⟩ := bind_eq_ok_iff.mp read
      obtain rfl := Except.ok.inj done
      obtain ⟨declared, filterScoped⟩ := EachHeader.scoped_of_ofLine headerRead
      have bodyScoped := (scoped_of_ofBlocks _ body bodyRead).1
      exact ⟨⟨rfl, declared, filterScoped, bodyScoped⟩, fun _ => rfl⟩
  | repeated condition body =>
      rw [ofBlock] at read
      obtain ⟨condition, conditionRead, read⟩ := bind_eq_ok_iff.mp read
      obtain ⟨⟨inner, _⟩, bodyRead, done⟩ := bind_eq_ok_iff.mp read
      obtain rfl := Except.ok.inj done
      have bodyScoped := (scoped_of_ofBlocks names body bodyRead).1
      exact ⟨⟨Expr.scoped_of_ofLine conditionRead, bodyScoped⟩, fun _ => rfl⟩

/-- The effects that blocks hold are scoped, and the scope after the last block is the scope after
them: a binding takes all later blocks as its body. The slot of a binding is the size of the scope
before it.
-/
theorem scoped_of_ofBlocks (names : Names) (blocks : List Block) {updates : List Update}
    {scope : Scope} (read : ofBlocks names blocks = .ok (updates, scope))
    : BodyScoped names updates ∧ scope = bodyScope names.scope updates := by
  cases blocks with
  | nil =>
      obtain ⟨rfl, rfl⟩ := Prod.mk.inj (Except.ok.inj read)
      exact ⟨trivial, rfl⟩
  | cons block rest =>
      rw [ofBlocks] at read
      obtain ⟨named?, _, read⟩ := bind_eq_ok_iff.mp read
      split at read
      · rename_i name valueLine _
        obtain ⟨value, valueRead, read⟩ := bind_eq_ok_iff.mp read
        obtain ⟨⟨body, inner⟩, bodyRead, done⟩ := bind_eq_ok_iff.mp read
        obtain ⟨rfl, rfl⟩ := Prod.mk.inj (Except.ok.inj done)
        obtain ⟨bodyScoped, after⟩ := scoped_of_ofBlocks (names.push name .temporary) rest bodyRead
        exact ⟨⟨⟨rfl, Expr.scoped_of_ofLine valueRead, bodyScoped⟩, trivial⟩, after⟩
      · obtain ⟨update, updateRead, read⟩ := bind_eq_ok_iff.mp read
        obtain ⟨⟨others, inner⟩, restRead, done⟩ := bind_eq_ok_iff.mp read
        obtain ⟨rfl, rfl⟩ := Prod.mk.inj (Except.ok.inj done)
        obtain ⟨updateScoped, same⟩ := scopedLine_of_ofBlock names block updateRead
        obtain ⟨restScoped, after⟩ := scoped_of_ofBlocks names rest restRead
        exact ⟨⟨updateScoped, restScoped⟩, by rw [bodyScope_cons _ (same _), after]⟩

end

end Update

-----------------------------------------------------------------------------------------
-- Costs
-----------------------------------------------------------------------------------------

/-- The effects of the cost are scoped, and its value is scoped with the names that they leave in
force.
-/
def Cost.Scoped (names : Names) (cost : Cost) : Prop :=
  Update.BodyScoped names cost.updates
  ∧ cost.value.Scoped { names with scope := Update.bodyScope names.scope cost.updates }

theorem Cost.scoped_zero (names : Names) : Cost.zero.Scoped names := ⟨trivial, trivial⟩

/-- A cost that blocks hold is scoped: its value is read in the scope after its effects. -/
theorem Cost.scoped_of_ofBlocks {names : Names} {blocks : List Block} {cost : Cost}
    (read : Cost.ofBlocks names blocks = .ok cost)
    : cost.Scoped names := by
  unfold Cost.ofBlocks at read
  split at read
  · obtain rfl := Except.ok.inj read
    exact Cost.scoped_zero names
  · obtain ⟨⟨updates, scope⟩, updatesRead, read⟩ := bind_eq_ok_iff.mp read
    obtain ⟨value, valueRead, done⟩ := bind_eq_ok_iff.mp read
    obtain rfl := Except.ok.inj done
    obtain ⟨updatesScoped, rfl⟩ := Update.scoped_of_ofBlocks names _ updatesRead
    exact ⟨updatesScoped, Expr.scoped_of_ofLine valueRead⟩
  · cases read

end Dispatch
