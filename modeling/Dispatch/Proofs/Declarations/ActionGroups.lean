import Dispatch.Proofs.Declarations.DomainCoherence
import Mathlib.Data.List.Nodup

/-!
The actions of a domain and the groups of lines that declare them. Each action is read from its
group after the actions before it, from one of which it may inherit. An action that only adds
conditions to what it inherits refines its parent: it begins with the parameters and conditions of
the parent, and has the same effects and the same cost.
-/

namespace Dispatch

-----------------------------------------------------------------------------------------
-- Labels of a group
-----------------------------------------------------------------------------------------

/-- The label adds conditions to those that are inherited. -/
def Subsection.IsAdditive (label : Subsection) : Prop :=
  label = .morePreconditions ∨ label = .moreConflicts

/-- The labels that stand in the body of a group, in order. -/
def Document.Group.labels (group : Document.Group) : List Subsection :=
  group.body.filterMap fun line => (Subsection.ofLine? line).map (·.1)

/-- The labels of a sequence are those of its elements that are labels, by induction on it. -/
theorem labelled_labels {α β : Type} (label? : α → Option β) (elements : List α)
    : (labelled label? elements).2.map (·.1) = elements.filterMap label? := by
  induction elements with
  | nil => rfl
  | cons element rest ih =>
      unfold labelled
      cases found : label? element with
      | none => simp [found, ih]
      | some label => simp [found, ih]

namespace LabelledLines

/-- Reading groups as parts without repetition keeps their labels, by induction on the groups. -/
theorem subsections_of_distinct {seen : List Subsection}
    {groups : List ((Subsection × Line) × List Line)} {parts : List LabelledLines}
    (read : distinct seen groups = .ok parts)
    : parts.map (·.subsection) = groups.map (·.1.1) := by
  induction groups generalizing seen parts with
  | nil =>
      obtain rfl := Except.ok.inj read
      rfl
  | cons head rest ih =>
      unfold distinct at read
      split at read
      · cases read
      · obtain ⟨others, othersRead, done⟩ := bind_eq_ok_iff.mp read
        obtain rfl := Except.ok.inj done
        simp only [List.map_cons, ih othersRead]

/-- The parts of a body without a default part are those of its labels; lines in front of the first
label are refused, as they would belong to none.
-/
theorem subsections_of_ofBody {group : Document.Group} {parts : List LabelledLines}
    (read : ofBody none group.body = .ok parts)
    : parts.map (·.subsection) = group.labels := by
  have labels := labelled_labels Subsection.ofLine? group.body
  unfold ofBody at read
  split at read
  · rename_i groups same
    rw [same] at labels
    rw [subsections_of_distinct read, Document.Group.labels, ← List.map_filterMap, ← labels,
      List.map_map]
    rfl
  · cases read

end LabelledLines

-----------------------------------------------------------------------------------------
-- Actions that refine their parents
-----------------------------------------------------------------------------------------

namespace ActionDecl

/-- The child begins with the parameters and conditions of the parent, and has its effects and its
cost.
-/
structure Refines (parent child : ActionDecl) : Prop where
  parameters : parent.parameters <+: child.parameters
  preconditions : parent.preconditions <+: child.preconditions
  conflicts : parent.conflicts <+: child.conflicts
  effects : child.effects = parent.effects
  cost : child.cost = parent.cost

variable {names : Names} {parent action final : ActionDecl}

/-- Reading a part that adds conditions keeps an action a refinement: it puts them behind those that
are there, and changes nothing else.
-/
theorem Refines.readPart {part : LabelledLines} (refines : parent.Refines action)
    (additive : part.subsection.IsAdditive) (read : action.readPart names part = .ok final)
    : parent.Refines final := by
  unfold ActionDecl.readPart at read
  rcases additive with label | label <;> simp only [label] at read
  · obtain ⟨more, _, done⟩ := bind_eq_ok_iff.mp read
    obtain rfl := Except.ok.inj done
    exact { refines with preconditions := refines.preconditions.trans (List.prefix_append _ _) }
  · obtain ⟨more, _, done⟩ := bind_eq_ok_iff.mp read
    obtain rfl := Except.ok.inj done
    exact { refines with conflicts := refines.conflicts.trans (List.prefix_append _ _) }

/-- Reading parts that add conditions keeps an action a refinement, by induction on the parts. -/
theorem Refines.readParts {parts : List LabelledLines} (refines : parent.Refines action)
    (additive : ∀ part ∈ parts, part.subsection.IsAdditive)
    (read : action.readParts names parts = .ok final)
    : parent.Refines final := by
  induction parts generalizing action with
  | nil =>
      obtain rfl := Except.ok.inj read
      exact refines
  | cons part rest ih =>
      obtain ⟨head, others⟩ := List.forall_mem_cons.mp additive
      obtain ⟨next, partRead, read⟩ := bind_eq_ok_iff.mp read
      exact ih (refines.readPart head partRead) others read

/-- An action whose own labels only add conditions has no parent, or refines an earlier action,
which is its parent: it starts as a copy of it with further parameters.
-/
theorem refines_of_ofGroup {vocabulary : Vocabulary} {earlier : List ActionDecl}
    {group : Document.Group} {child : ActionDecl}
    (additive : ∀ label ∈ group.labels, label.IsAdditive)
    (read : ofGroup vocabulary earlier group = .ok child)
    : child.parent = none
      ∨ ∃ parent ∈ earlier, child.parent = some parent.name ∧ parent.Refines child := by
  obtain ⟨name, tag, line, parameters, parts, extended, _, partsRead, read⟩ :=
    start_of_ofGroup read
  have labels := LabelledLines.subsections_of_ofBody partsRead
  have adds : ∀ part ∈ parts, part.subsection.IsAdditive := fun part member =>
    additive _ (labels ▸ List.mem_map_of_mem member)
  unfold inheriting at read
  split at read
  · rename_i parent found
    simp only [inheriting, found] at extended
    obtain ⟨_, _, found⟩ := Option.bind_eq_some_iff.mp found
    have start : parent.Refines
        { parent with name, parent := some parent.name, line, parameters } :=
      ⟨extended, List.prefix_rfl, List.prefix_rfl, rfl, rfl⟩
    exact Or.inr ⟨parent, List.mem_of_find?_eq_some found, (same_of_readParts read).2,
      start.readParts adds read⟩
  · exact Or.inl (same_of_readParts read).2

-----------------------------------------------------------------------------------------
-- Consecutive actions
-----------------------------------------------------------------------------------------

section

variable {vocabulary : Vocabulary} {earlier actions : List ActionDecl}
  {groups : List Document.Group}

/-- Reading groups adds one action for each, read after the actions before it, by induction on the
groups.
-/
theorem added_of_readGroups (read : readGroups vocabulary earlier groups = .ok actions)
    : ∃ added, actions = earlier ++ added
        ∧ List.Forall₂ (fun group action =>
            ∃ before, before <+: actions ∧ ofGroup vocabulary before group = .ok action)
            groups added := by
  induction groups generalizing earlier with
  | nil =>
      obtain rfl := Except.ok.inj read
      exact ⟨[], by simp, .nil⟩
  | cons group rest ih =>
      obtain ⟨action, actionRead, read⟩ := bind_eq_ok_iff.mp read
      dsimp only at read
      split at read
      · cases read
      · obtain ⟨added, rfl, others⟩ := ih read
        refine ⟨action :: added, by simp, .cons ⟨earlier, by simp, actionRead⟩ others⟩

/-- Actions with a name of their own keep it when more are read, by induction on the groups. -/
theorem nodup_of_readGroups (distinct : (earlier.map (·.name)).Nodup)
    (read : readGroups vocabulary earlier groups = .ok actions)
    : (actions.map (·.name)).Nodup := by
  induction groups generalizing earlier with
  | nil =>
      obtain rfl := Except.ok.inj read
      exact distinct
  | cons group rest ih =>
      obtain ⟨action, actionRead, read⟩ := bind_eq_ok_iff.mp read
      dsimp only at read
      split at read
      · cases read
      · rename_i fresh
        refine ih ?_ read
        simp only [List.any_eq_true, decide_eq_true_eq, not_exists, not_and] at fresh
        rw [List.map_append, List.nodup_append]
        refine ⟨distinct, by simp, ?_⟩
        intro name member other same
        obtain ⟨action', old, rfl⟩ := List.mem_map.mp member
        obtain rfl := by simpa using same
        exact fun equal => fresh action' old equal

end

end ActionDecl

-----------------------------------------------------------------------------------------
-- The groups of a document
-----------------------------------------------------------------------------------------

namespace Domain

/-- The groups of lines in the sections of actions. -/
def groupsOf (sections : List SectionLines) : List Document.Group :=
  (sections.filter (·.part = .actions)).flatMap fun part =>
    (Document.groups "End Action" part.lines).closed

/-- The groups of lines that declare the actions of a domain document, in order. -/
def actionGroups (source : List Char) : List Document.Group :=
  match Document.body .domain (Line.ofSource source) with
  | .error _ => []
  | .ok lines =>
      match SectionLines.split lines with
      | .error _ => []
      | .ok sections => groupsOf sections

/-- Sections behind the actions keep the vocabulary and the actions, by induction on the sections.
-/
theorem same_of_later_sections {domain final : Domain} {sections : List SectionLines}
    (later : ∀ rank ∈ SectionLines.ranks sections, 2 < rank)
    (read : domain.readSections sections = .ok final)
    : final.vocabulary = domain.vocabulary ∧ final.actions = domain.actions
      ∧ groupsOf sections = [] := by
  induction sections generalizing domain with
  | nil =>
      obtain rfl := Except.ok.inj read
      exact ⟨rfl, rfl, rfl⟩
  | cons head rest ih =>
      obtain ⟨next, headRead, read⟩ := bind_eq_ok_iff.mp read
      replace headRead := LoadError.ok_of_inPart headRead
      obtain ⟨behind, others⟩ := List.forall_mem_cons.mp later
      obtain ⟨vocabulary, actions, none⟩ := ih others read
      obtain ⟨part, lines⟩ := head
      cases part with
      | entities | declarations | actions => simp [DomainSection.rank] at behind
      | environment | arrival =>
          obtain ⟨steps, _, done⟩ := bind_eq_ok_iff.mp headRead
          obtain rfl := Except.ok.inj done
          exact ⟨vocabulary, actions, by simpa [groupsOf] using none⟩

/-- The actions of ascending sections are read from their groups with the final vocabulary, since
what declares names comes before the actions; by induction on the sections.

That the sections ascend is what the order check of the document has made sure of.
-/
theorem readGroups_of_readSections {domain final : Domain} {sections : List SectionLines}
    (ascending : (SectionLines.ranks sections).Pairwise (· < ·)) (none : domain.actions = [])
    (read : domain.readSections sections = .ok final)
    : ActionDecl.readGroups final.vocabulary [] (groupsOf sections) = .ok final.actions := by
  induction sections generalizing domain with
  | nil =>
      obtain rfl := Except.ok.inj read
      rw [none]
      rfl
  | cons head rest ih =>
      obtain ⟨next, headRead, read⟩ := bind_eq_ok_iff.mp read
      replace headRead := LoadError.ok_of_inPart headRead
      obtain ⟨above, later⟩ := List.pairwise_cons.mp ascending
      obtain ⟨part, lines⟩ := head
      cases part with
      | entities =>
          obtain ⟨vocabulary, _, done⟩ := bind_eq_ok_iff.mp headRead
          obtain rfl := Except.ok.inj done
          refine ih later ?_ read
          exact none
      | declarations =>
          obtain ⟨_, _, headRead⟩ := bind_eq_ok_iff.mp headRead
          obtain ⟨_, _, done⟩ := bind_eq_ok_iff.mp headRead
          obtain rfl := Except.ok.inj done
          refine ih later ?_ read
          exact none
      | actions =>
          obtain ⟨actions, actionsRead, done⟩ := bind_eq_ok_iff.mp headRead
          obtain rfl := Except.ok.inj done
          obtain ⟨vocabulary, same, noOthers⟩ := same_of_later_sections above read
          obtain ⟨found, groupsRead, closed⟩ := bind_eq_ok_iff.mp actionsRead
          split at closed
          · obtain rfl := Except.ok.inj closed
            rw [vocabulary, same, groupsOf, List.filter_cons_of_pos (by simp), List.flatMap_cons]
            rw [groupsOf] at noOthers
            rw [noOthers, List.append_nil]
            exact groupsRead
          · cases closed
      | environment | arrival =>
          obtain ⟨steps, _, done⟩ := bind_eq_ok_iff.mp headRead
          obtain rfl := Except.ok.inj done
          refine ih later ?_ read
          exact none

/-- The actions of a domain document are read from its groups, with the vocabulary that the domain
has in the end.
-/
theorem readGroups_of_ofText {source : List Char} {domain : Domain}
    (read : ofText source = .ok domain)
    : ActionDecl.readGroups domain.vocabulary [] (actionGroups source) = .ok domain.actions := by
  obtain ⟨lines, linesRead, read⟩ := bind_eq_ok_iff.mp read
  obtain ⟨sections, sectionsRead, read⟩ := bind_eq_ok_iff.mp read
  have lines := LoadError.ok_of_inPart linesRead
  simp only [actionGroups, lines, sectionsRead]
  exact readGroups_of_readSections (SectionLines.ascending_of_split sectionsRead) rfl read

variable {source : List Char} {domain : Domain}

/-- The groups of a domain document declare its actions in order: each action is read from its group
after some of the actions before it.
-/
theorem forall₂_of_ofText (read : ofText source = .ok domain)
    : List.Forall₂ (fun group action =>
        ∃ before, before <+: domain.actions
          ∧ ActionDecl.ofGroup domain.vocabulary before group = .ok action)
        (actionGroups source) domain.actions := by
  obtain ⟨added, same, each⟩ := ActionDecl.added_of_readGroups (readGroups_of_ofText read)
  rw [List.nil_append] at same
  rwa [← same] at each

/-- Every action of a domain that was read has a parameter: a group without one is refused, and a
child has the parameters of its parent.
-/
theorem parameters_ne_nil_of_ofText {action : ActionDecl} (read : ofText source = .ok domain)
    (declared : action ∈ domain.actions)
    : action.parameters ≠ [] := by
  obtain ⟨same, each⟩ := List.forall₂_iff_zip.mp (forall₂_of_ofText read)
  rw [← List.map_snd_zip (Nat.le_of_eq same.symm)] at declared
  obtain ⟨⟨group, _⟩, paired, rfl⟩ := List.mem_map.mp declared
  obtain ⟨before, _, actionRead⟩ := each paired
  obtain ⟨name, tag, line, parameters, parts, _, filled, _, partsRead⟩ :=
    ActionDecl.start_of_ofGroup actionRead
  rwa [(ActionDecl.same_of_readParts partsRead).1]

/-- In a domain that was read, an action whose own labels only add conditions refines its parent. -/
theorem refines_of_ofText {group : Document.Group} {parent child : ActionDecl}
    (read : ofText source = .ok domain)
    (declared : (group, child) ∈ (actionGroups source).zip domain.actions)
    (parentDeclared : parent ∈ domain.actions) (inherits : child.parent = some parent.name)
    (additive : ∀ label ∈ group.labels, label.IsAdditive)
    : parent.Refines child := by
  obtain ⟨before, earlier, childRead⟩ :=
    (List.forall₂_iff_zip.mp (forall₂_of_ofText read)).2 declared
  rcases ActionDecl.refines_of_ofGroup additive childRead with
    orphan | ⟨found, member, named, refines⟩
  · rw [orphan] at inherits
    cases inherits
  · have distinct := ActionDecl.nodup_of_readGroups (by simp) (readGroups_of_ofText read)
    have sameName : found.name = parent.name := by simpa [named] using inherits
    have same : found = parent :=
      List.inj_on_of_nodup_map distinct (earlier.subset member) parentDeclared sameName
    exact same ▸ refines

end Domain

end Dispatch
