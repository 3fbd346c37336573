import Dispatch.Domain.Actions
import Dispatch.Proofs.Scoping.EffectScopes

/-!
The parts of an action are scoped by its parameters. An inherited part was read with the parameters
of an earlier action, which are the first parameters of the inheriting one; so every part is scoped
by some of the first parameters, and every part of an action without a parent by all of them. Steps
have no parameters.
-/

namespace Dispatch

theorem Update.bodyScoped_iff {names : Names} {updates : List Update}
    : BodyScoped names updates ↔ ∀ update ∈ updates, update.Scoped names := by
  induction updates with
  | nil => simp [BodyScoped]
  | cons update rest ih => simp only [BodyScoped, List.forall_mem_cons, ih]

/-- Every condition of consecutive lines is scoped, by induction on the lines. -/
theorem Expr.scoped_of_ofLines {names : Names} {lines : List Line} {conditions : List Expr}
    (read : Expr.ofLines names lines = .ok conditions)
    : ∀ condition ∈ conditions, condition.Scoped names := by
  induction lines generalizing conditions with
  | nil =>
      obtain rfl := Except.ok.inj read
      simp
  | cons line rest ih =>
      obtain ⟨condition, conditionRead, read⟩ := bind_eq_ok_iff.mp read
      obtain ⟨others, othersRead, done⟩ := bind_eq_ok_iff.mp read
      obtain rfl := Except.ok.inj done
      exact List.forall_mem_cons.mpr ⟨Expr.scoped_of_ofLine conditionRead, ih othersRead⟩

/-- The effects that lines hold are scoped by the names they are read with, each in the scope of
those before it.
-/
theorem Update.scoped_of_ofLines {names : Names} {lines : List Line} {updates : List Update}
    (read : Update.ofLines names lines = .ok updates)
    : ∀ update ∈ updates, update.Scoped names := by
  obtain ⟨blocks, _, read⟩ := bind_eq_ok_iff.mp read
  obtain ⟨⟨updates, scope⟩, updatesRead, done⟩ := bind_eq_ok_iff.mp read
  obtain rfl := Except.ok.inj done
  exact Update.bodyScoped_iff.mp (Update.scoped_of_ofBlocks names blocks updatesRead).1

theorem Cost.scoped_of_ofLines {names : Names} {lines : List Line} {cost : Cost}
    (read : Cost.ofLines names lines = .ok cost)
    : cost.Scoped names := by
  obtain ⟨blocks, _, costRead⟩ := bind_eq_ok_iff.mp read
  exact Cost.scoped_of_ofBlocks costRead

-----------------------------------------------------------------------------------------
-- Parameters
-----------------------------------------------------------------------------------------

theorem ParameterDecl.size_scope (parameters : List ParameterDecl)
    : (scope parameters).size = parameters.length := by
  simp only [scope, Scope.size, List.length_map]

/-- Reading parameters only appends to those that are there, by induction on the pieces. -/
theorem ParameterDecl.prefix_of_readAll {vocabulary : Vocabulary}
    {parameters extended : List ParameterDecl} {pieces : List Line}
    (read : ParameterDecl.readAll vocabulary parameters pieces = .ok extended)
    : parameters <+: extended := by
  induction pieces generalizing parameters with
  | nil =>
      obtain rfl := Except.ok.inj read
      exact List.prefix_rfl
  | cons piece rest ih =>
      unfold ParameterDecl.readAll at read
      split at read
      · exact ih read
      · obtain ⟨parameter, _, read⟩ := bind_eq_ok_iff.mp read
        split at read
        · exact (List.prefix_append parameters [parameter]).trans (ih read)
        · split at read
          · exact ih read
          · cases read

namespace ActionDecl

/-- The names in force for a part that was read with some of the first parameters. -/
def names (vocabulary : Vocabulary) (action : ActionDecl) (count : Nat) : Names :=
  ⟨vocabulary, ParameterDecl.scope (action.parameters.take count)⟩

-----------------------------------------------------------------------------------------
-- Scoped parts
-----------------------------------------------------------------------------------------

/-- Every part of the action is scoped by its first parameters, in a number that is allowed. -/
structure ScopedBy (vocabulary : Vocabulary) (allowed : Nat → Prop) (action : ActionDecl)
    : Prop where
  conditions
    : ∀ condition ∈ action.preconditions ++ action.conflicts,
        ∃ count, allowed count ∧ condition.Scoped (action.names vocabulary count)
  effects
    : ∀ update ∈ action.effects,
        ∃ count, allowed count ∧ update.Scoped (action.names vocabulary count)
  cost : ∃ count, allowed count ∧ action.cost.Scoped (action.names vocabulary count)

/-- Every part of the action is scoped by its first parameters, and by all of them unless the action
has a parent.
-/
structure WellScoped (vocabulary : Vocabulary) (action : ActionDecl) : Prop where
  inherited : action.ScopedBy vocabulary (· ≤ action.parameters.length)
  own : action.parent = none → action.ScopedBy vocabulary (· = action.parameters.length)

variable {vocabulary : Vocabulary} {allowed : Nat → Prop}

/-- All the parameters of an action are in force where its own parts are read. -/
theorem names_length (action : ActionDecl)
    : action.names vocabulary action.parameters.length
      = ⟨vocabulary, ParameterDecl.scope action.parameters⟩ := by
  simp only [names, List.take_length]

/-- Reading a part keeps the parameters and the parent of an action. -/
theorem same_of_readPart {names : Names} {action next : ActionDecl} {part : LabelledLines}
    (read : action.readPart names part = .ok next)
    : next.parameters = action.parameters ∧ next.parent = action.parent := by
  unfold ActionDecl.readPart at read
  split at read <;>
    · obtain ⟨_, _, done⟩ := bind_eq_ok_iff.mp read
      obtain rfl := Except.ok.inj done
      exact ⟨rfl, rfl⟩

/-- Reading parts keeps the parameters and the parent of an action, by induction on the parts. -/
theorem same_of_readParts {names : Names} {action final : ActionDecl} {parts : List LabelledLines}
    (read : action.readParts names parts = .ok final)
    : final.parameters = action.parameters ∧ final.parent = action.parent := by
  induction parts generalizing action with
  | nil =>
      obtain rfl := Except.ok.inj read
      exact ⟨rfl, rfl⟩
  | cons part rest ih =>
      obtain ⟨next, partRead, read⟩ := bind_eq_ok_iff.mp read
      obtain ⟨parameters, parent⟩ := same_of_readPart partRead
      rw [← parameters, ← parent]
      exact ih read

/-- A part that is read with all parameters is scoped by an allowed number of them; it replaces the
inherited part or extends it. What it extends stays scoped by the parameters it was read with.
-/
theorem ScopedBy.readPart {action next : ActionDecl} {part : LabelledLines}
    (parts : action.ScopedBy vocabulary allowed) (full : allowed action.parameters.length)
    (read : action.readPart ⟨vocabulary, ParameterDecl.scope action.parameters⟩ part = .ok next)
    : next.ScopedBy vocabulary allowed := by
  rw [← names_length] at read
  unfold ActionDecl.readPart at read
  split at read
  · obtain ⟨conditions, conditionsRead, done⟩ := bind_eq_ok_iff.mp read
    obtain rfl := Except.ok.inj done
    refine ⟨?_, parts.effects, parts.cost⟩
    intro condition member
    rcases List.mem_append.mp member with own | kept
    · exact ⟨_, full, Expr.scoped_of_ofLines conditionsRead condition own⟩
    · exact parts.conditions condition (List.mem_append_right _ kept)
  · obtain ⟨more, moreRead, done⟩ := bind_eq_ok_iff.mp read
    obtain rfl := Except.ok.inj done
    refine ⟨?_, parts.effects, parts.cost⟩
    intro condition member
    rcases List.mem_append.mp member with either | kept
    · rcases List.mem_append.mp either with kept | own
      · exact parts.conditions condition (List.mem_append_left _ kept)
      · exact ⟨_, full, Expr.scoped_of_ofLines moreRead condition own⟩
    · exact parts.conditions condition (List.mem_append_right _ kept)
  · obtain ⟨conditions, conditionsRead, done⟩ := bind_eq_ok_iff.mp read
    obtain rfl := Except.ok.inj done
    refine ⟨?_, parts.effects, parts.cost⟩
    intro condition member
    rcases List.mem_append.mp member with kept | own
    · exact parts.conditions condition (List.mem_append_left _ kept)
    · exact ⟨_, full, Expr.scoped_of_ofLines conditionsRead condition own⟩
  · obtain ⟨more, moreRead, done⟩ := bind_eq_ok_iff.mp read
    obtain rfl := Except.ok.inj done
    refine ⟨?_, parts.effects, parts.cost⟩
    intro condition member
    rw [← List.append_assoc] at member
    rcases List.mem_append.mp member with kept | own
    · exact parts.conditions condition kept
    · exact ⟨_, full, Expr.scoped_of_ofLines moreRead condition own⟩
  · obtain ⟨effects, effectsRead, done⟩ := bind_eq_ok_iff.mp read
    obtain rfl := Except.ok.inj done
    refine ⟨parts.conditions, ?_, parts.cost⟩
    intro update own
    exact ⟨_, full, Update.scoped_of_ofLines effectsRead update own⟩
  · obtain ⟨more, moreRead, done⟩ := bind_eq_ok_iff.mp read
    obtain rfl := Except.ok.inj done
    refine ⟨parts.conditions, ?_, parts.cost⟩
    intro update member
    rcases List.mem_append.mp member with kept | own
    · exact parts.effects update kept
    · exact ⟨_, full, Update.scoped_of_ofLines moreRead update own⟩
  · obtain ⟨cost, costRead, done⟩ := bind_eq_ok_iff.mp read
    obtain rfl := Except.ok.inj done
    exact ⟨parts.conditions, parts.effects, _, full, Cost.scoped_of_ofLines costRead⟩

/-- Reading labelled parts keeps all parts scoped, by induction on them. -/
theorem ScopedBy.readParts {action final : ActionDecl} {labelled : List LabelledLines}
    (parts : action.ScopedBy vocabulary allowed) (full : allowed action.parameters.length)
    (read
      : action.readParts ⟨vocabulary, ParameterDecl.scope action.parameters⟩ labelled = .ok final)
    : final.ScopedBy vocabulary allowed := by
  induction labelled generalizing action with
  | nil =>
      obtain rfl := Except.ok.inj read
      exact parts
  | cons part rest ih =>
      obtain ⟨next, partRead, read⟩ := bind_eq_ok_iff.mp read
      have nextParts := parts.readPart full partRead
      rw [← (same_of_readPart partRead).1] at read full
      exact ih nextParts full read

/-- Parts stay scoped when more numbers of parameters are allowed, and when the parameters are
exchanged for others that give the same names. The parts themselves are not looked at.
-/
theorem ScopedBy.mono {action : ActionDecl} {wider : Nat → Prop} {parameters : List ParameterDecl}
    (parts : action.ScopedBy vocabulary allowed) (wide : ∀ count, allowed count → wider count)
    (same
      : ∀ count, allowed count
          → ({ action with parameters } : ActionDecl).names vocabulary count
            = action.names vocabulary count)
    : ({ action with parameters } : ActionDecl).ScopedBy vocabulary wider := by
  refine ⟨?_, ?_, ?_⟩
  · intro condition member
    obtain ⟨count, low, known⟩ := parts.conditions condition member
    exact ⟨count, wide count low, by rwa [same count low]⟩
  · intro update member
    obtain ⟨count, low, known⟩ := parts.effects update member
    exact ⟨count, wide count low, by rwa [same count low]⟩
  · obtain ⟨count, low, known⟩ := parts.cost
    exact ⟨count, wide count low, by rwa [same count low]⟩

/-- More parameters at the end keep the parts scoped by the first parameters as they are. This is
what a child does to the parts of its parent.
-/
theorem ScopedBy.extend {action : ActionDecl} {parameters : List ParameterDecl}
    (parts : action.ScopedBy vocabulary (· ≤ action.parameters.length))
    (extended : action.parameters <+: parameters)
    : ({ action with parameters } : ActionDecl).ScopedBy vocabulary (· ≤ parameters.length) := by
  refine parts.mono (fun count low => Nat.le_trans low extended.length_le) ?_
  intro count low
  obtain ⟨more, rfl⟩ := extended
  simp only [names, List.take_append_of_le_length low]

-----------------------------------------------------------------------------------------
-- Inheritance
-----------------------------------------------------------------------------------------

/-- An action that starts from an earlier one has a parent and its scoped parts; any other starts
without parts. The parent is found by the tag, among the actions before.
-/
theorem inheriting_cases {earlier : List ActionDecl}
    (known : ∀ action ∈ earlier, action.WellScoped vocabulary) (name : String)
    (tag : Option String) (line : Nat)
    : ((inheriting earlier name tag line).parent ≠ none
        ∧ (inheriting earlier name tag line).ScopedBy vocabulary
            (· ≤ (inheriting earlier name tag line).parameters.length))
      ∨ inheriting earlier name tag line = ⟨name, tag, none, [], [], [], [], .zero, line⟩ := by
  unfold inheriting
  split
  · rename_i parent found
    obtain ⟨tag, _, found⟩ := Option.bind_eq_some_iff.mp found
    have parts := (known parent (List.mem_of_find?_eq_some found)).inherited
    exact Or.inl ⟨nofun, parts.conditions, parts.effects, parts.cost⟩
  · exact Or.inr rfl

theorem scopedBy_fresh (name : String) (tag : Option String) (parameters : List ParameterDecl)
    (line : Nat)
    : (ActionDecl.mk name tag none parameters [] [] [] .zero line).ScopedBy vocabulary
        (· = parameters.length) :=
  ⟨nofun, nofun, _, rfl, Cost.scoped_zero _⟩

/-- The parts that all parameters scope are scoped by some of the first. -/
theorem ScopedBy.inherit {action : ActionDecl}
    (parts : action.ScopedBy vocabulary (· = action.parameters.length))
    : action.ScopedBy vocabulary (· ≤ action.parameters.length) :=
  parts.mono (fun _ full => Nat.le_of_eq full) fun _ _ => rfl

/-- Reading an action starts from what it inherits, extends the parameters, of which there must be
one, and then goes through the labelled parts of the group. What the header says beyond that is kept
as it is.
-/
theorem start_of_ofGroup {earlier : List ActionDecl} {group : Document.Group} {action : ActionDecl}
    (read : ofGroup vocabulary earlier group = .ok action)
    : ∃ name tag line parameters labelled,
        (inheriting earlier name tag line).parameters <+: parameters ∧ parameters ≠ []
        ∧ LabelledLines.ofBody none group.body = .ok labelled
        ∧ readParts ⟨vocabulary, ParameterDecl.scope parameters⟩
            { inheriting earlier name tag line with parameters } labelled
          = .ok action := by
  unfold ofGroup at read
  dsimp only at read
  split at read
  · split at read
    · cases read
    · obtain ⟨⟨parametersLine, tag⟩, _, read⟩ := bind_eq_ok_iff.mp read
      obtain ⟨parameters, parametersRead, read⟩ := bind_eq_ok_iff.mp read
      split at read
      · cases read
      · rename_i filled
        obtain ⟨labelled, labelledRead, read⟩ := bind_eq_ok_iff.mp read
        refine ⟨_, _, _, parameters, labelled, ParameterDecl.prefix_of_readAll parametersRead, ?_,
          labelledRead, read⟩
        simpa using filled
  · cases read

/-- An action that was read after well-scoped actions is well scoped. Without a parent all its parts
are scoped by all its parameters; with one, the inherited parts are by the first of them.
-/
theorem wellScoped_of_ofGroup {earlier : List ActionDecl} {group : Document.Group}
    {action : ActionDecl} (known : ∀ action ∈ earlier, action.WellScoped vocabulary)
    (read : ofGroup vocabulary earlier group = .ok action)
    : action.WellScoped vocabulary := by
  obtain ⟨name, tag, line, parameters, labelled, extended, _, _, read⟩ := start_of_ofGroup read
  obtain ⟨same, parent⟩ := same_of_readParts read
  dsimp only at same parent
  rcases inheriting_cases known name tag line with ⟨child, parts⟩ | fresh
  · have final := (parts.extend extended).readParts (Nat.le_refl _) read
    rw [← same] at final
    exact ⟨final, fun none => absurd (parent ▸ none) child⟩
  · rw [fresh] at read
    have final := (scopedBy_fresh _ _ parameters _).readParts rfl read
    rw [← same] at final
    exact ⟨final.inherit, fun _ => final⟩

/-- Actions that were read after well-scoped actions are well scoped, by induction on the groups. -/
theorem wellScoped_of_readGroups {earlier actions : List ActionDecl}
    {groups : List Document.Group} (known : ∀ action ∈ earlier, action.WellScoped vocabulary)
    (read : readGroups vocabulary earlier groups = .ok actions)
    : ∀ action ∈ actions, action.WellScoped vocabulary := by
  induction groups generalizing earlier with
  | nil =>
      obtain rfl := Except.ok.inj read
      exact known
  | cons group rest ih =>
      obtain ⟨action, actionRead, read⟩ := bind_eq_ok_iff.mp read
      dsimp only at read
      split at read
      · cases read
      · refine ih ?_ read
        intro one member
        rcases List.mem_append.mp member with old | new
        · exact known one old
        · obtain rfl := List.mem_singleton.mp new
          exact wellScoped_of_ofGroup known actionRead

/-- All actions of a section are well scoped, as none is there before the first. -/
theorem wellScoped_of_readAll {lines : List Line} {actions : List ActionDecl}
    (read : readAll vocabulary lines = .ok actions)
    : ∀ action ∈ actions, action.WellScoped vocabulary := by
  obtain ⟨_, groupsRead, read⟩ := bind_eq_ok_iff.mp read
  split at read
  · obtain rfl := Except.ok.inj read
    exact wellScoped_of_readGroups (by simp) groupsRead
  · cases read

end ActionDecl

-----------------------------------------------------------------------------------------
-- Steps
-----------------------------------------------------------------------------------------

namespace StepDecl

/-- The names in force for a step, which has no parameters. -/
def names (vocabulary : Vocabulary) : Names := ⟨vocabulary, .empty⟩

/-- Every part of the step is scoped by the vocabulary alone. -/
structure WellScoped (vocabulary : Vocabulary) (step : StepDecl) : Prop where
  effects : ∀ update ∈ step.effects, update.Scoped (names vocabulary)
  cost : step.cost.Scoped (names vocabulary)

variable {vocabulary : Vocabulary}

/-- Reading a part keeps a step well scoped. Its effects are read without any parameter, behind
those it has.
-/
theorem WellScoped.readPart {step next : StepDecl} {header : Line} {part : LabelledLines}
    (parts : step.WellScoped vocabulary)
    (read : step.readPart (names vocabulary) header part = .ok next)
    : next.WellScoped vocabulary := by
  have extended {blocks more scope}
      (moreRead : Update.ofBlocks (names vocabulary) blocks = .ok (more, scope))
      : ({ step with effects := step.effects ++ more } : StepDecl).WellScoped vocabulary := by
    refine ⟨?_, parts.cost⟩
    intro update member
    rcases List.mem_append.mp member with old | new
    · exact parts.effects update old
    · exact Update.bodyScoped_iff.mp (Update.scoped_of_ofBlocks _ _ moreRead).1 update new
  unfold StepDecl.readPart at read
  obtain ⟨blocks, _, read⟩ := bind_eq_ok_iff.mp read
  dsimp only at read
  split at read
  · obtain ⟨⟨more, scope⟩, moreRead, done⟩ := bind_eq_ok_iff.mp read
    obtain rfl := Except.ok.inj done
    exact extended moreRead
  · obtain ⟨⟨more, scope⟩, moreRead, done⟩ := bind_eq_ok_iff.mp read
    obtain rfl := Except.ok.inj done
    exact extended moreRead
  · obtain ⟨cost, costRead, done⟩ := bind_eq_ok_iff.mp read
    obtain rfl := Except.ok.inj done
    exact ⟨parts.effects, Cost.scoped_of_ofBlocks costRead⟩
  · cases read

/-- Reading labelled parts keeps a step well scoped, by induction on them. -/
theorem WellScoped.readParts {step final : StepDecl} {header : Line}
    {labelled : List LabelledLines} (parts : step.WellScoped vocabulary)
    (read : step.readParts (names vocabulary) header labelled = .ok final)
    : final.WellScoped vocabulary := by
  induction labelled generalizing step with
  | nil =>
      obtain rfl := Except.ok.inj read
      exact parts
  | cons part rest ih =>
      obtain ⟨next, partRead, read⟩ := bind_eq_ok_iff.mp read
      exact ih (parts.readPart partRead) read

/-- Steps that were read are well scoped, by induction on the groups. -/
theorem wellScoped_of_readGroups {groups : List Document.Group} {steps : List StepDecl}
    (read : readGroups vocabulary groups = .ok steps)
    : ∀ step ∈ steps, step.WellScoped vocabulary := by
  induction groups generalizing steps with
  | nil =>
      obtain rfl := Except.ok.inj read
      simp
  | cons group rest ih =>
      obtain ⟨step, stepRead, read⟩ := bind_eq_ok_iff.mp read
      obtain ⟨others, othersRead, done⟩ := bind_eq_ok_iff.mp read
      obtain rfl := Except.ok.inj done
      refine List.forall_mem_cons.mpr ⟨?_, ih othersRead⟩
      obtain ⟨name, _, stepRead⟩ := bind_eq_ok_iff.mp stepRead
      obtain ⟨labelled, _, stepRead⟩ := bind_eq_ok_iff.mp stepRead
      exact WellScoped.readParts ⟨by simp, Cost.scoped_zero _⟩ stepRead

/-- All steps of a section are well scoped. -/
theorem wellScoped_of_readAll {lines : List Line} {steps : List StepDecl}
    (read : readAll vocabulary lines = .ok steps)
    : ∀ step ∈ steps, step.WellScoped vocabulary := by
  obtain ⟨_, groupsRead, read⟩ := bind_eq_ok_iff.mp read
  split at read
  · obtain rfl := Except.ok.inj read
    exact wellScoped_of_readGroups groupsRead
  · obtain ⟨_, _, read⟩ := bind_eq_ok_iff.mp read
    cases read

end StepDecl

end Dispatch
