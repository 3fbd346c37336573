import Mathlib.Data.List.Induction
import Dispatch.Proofs.Declarations.ListedNames

/-!
A vocabulary is consistent whatever is declared in it, in whatever order, and however often a
declaration is refused. Its lookups are read off the declarations made so far: an entity type or a
collection has the index that its accepted declaration took, a variable or field the storage and the
kind of the first declaration of its name, and a refused declaration leaves no trace.
-/

namespace Dispatch

-----------------------------------------------------------------------------------------
-- Declarations in turn
-----------------------------------------------------------------------------------------

/-- What can be declared in a vocabulary. -/
inductive Declaration where
  | entity (name : String) (role : Option String) (line : Nat)
  | collection (entity fieldCount : Nat)
  | storage (name : String) (place : Place) (kind : Kind)
deriving DecidableEq

/-- The variable or field that the declaration declares, if it has the given name. -/
def Declaration.named? (wanted : String) : Declaration → Option NameDecl
  | .entity _ _ _ => none
  | .collection _ _ => none
  | .storage name place kind => if name = wanted then some ⟨name, place, kind⟩ else none

variable {vocabulary extended : Vocabulary} {declarations : List Declaration}

namespace Vocabulary

/-- The vocabulary with a declaration, unless that is refused. -/
def declare? (vocabulary : Vocabulary) : Declaration → Option Vocabulary
  | .entity name role line => vocabulary.addEntity? name role line
  | .collection entity fieldCount => vocabulary.addCollection? entity fieldCount
  | .storage name place kind => vocabulary.addName? name place kind

/-- The vocabulary after a declaration, the same as before where it is refused. -/
def declare (vocabulary : Vocabulary) (next : Declaration) : Vocabulary :=
  (vocabulary.declare? next).getD vocabulary

/-- The vocabulary after declarations, made one after the other from the empty vocabulary on. -/
def ofDeclarations (declarations : List Declaration) : Vocabulary :=
  declarations.foldl declare empty

/-- What the declaration asks for is still free. -/
def Welcomes (vocabulary : Vocabulary) : Declaration → Prop
  | .entity name _ _ => vocabulary.entity? name = none
  | .collection entity _ =>
      entity < vocabulary.entities.length ∧ vocabulary.collection? entity = none
  | .storage name _ _ => vocabulary.name? name = none

/-- A declaration is accepted exactly where it is welcome: a new name, or an entity type that is
there and has no collection yet.
-/
theorem isSome_declare?_iff {next : Declaration}
    : (vocabulary.declare? next).isSome ↔ vocabulary.Welcomes next := by
  cases next with
  | entity | storage =>
      simp [Option.isSome_iff_exists, declare?, Welcomes, addEntity?_eq_some_iff,
        addName?_eq_some_iff]
  | collection => exact isSome_addCollection?_iff

theorem declare?_eq_none_iff {next : Declaration}
    : vocabulary.declare? next = none ↔ ¬ vocabulary.Welcomes next := by
  rw [← isSome_declare?_iff, Option.not_isSome_iff_eq_none]

theorem declare_of_refused {next : Declaration} (refused : vocabulary.declare? next = none)
    : vocabulary.declare next = vocabulary := by
  rw [declare, refused, Option.getD_none]

theorem declare_of_accepted {next : Declaration}
    (accepted : vocabulary.declare? next = some extended)
    : vocabulary.declare next = extended := by
  rw [declare, accepted, Option.getD_some]

/-- One more declaration meets the vocabulary that those before it have left. -/
theorem ofDeclarations_concat (declarations : List Declaration) (next : Declaration)
    : ofDeclarations (declarations ++ [next]) = (ofDeclarations declarations).declare next := by
  rw [ofDeclarations, List.foldl_concat, ofDeclarations]

/-- A vocabulary grows by a declaration that is accepted, and does not change by one that is
refused.
-/
theorem grows_declare (vocabulary : Vocabulary) (next : Declaration)
    : vocabulary.Grows (vocabulary.declare next) := by
  cases result : vocabulary.declare? next with
  | none =>
      rw [declare_of_refused result]
      exact .refl
  | some extended =>
      rw [declare_of_accepted result]
      cases next with
      | entity => exact Grows.refl.entity result
      | collection => exact Grows.refl.collection result
      | storage => exact Grows.refl.name result

/-- A vocabulary that declarations led to is led to by one more declaration when that is accepted.
-/
theorem exists_declarations_of_accepted (next : Declaration)
    (reached : ∃ declarations, vocabulary = ofDeclarations declarations)
    (accepted : vocabulary.declare? next = some extended)
    : ∃ declarations, extended = ofDeclarations declarations := by
  obtain ⟨declarations, rfl⟩ := reached
  refine ⟨declarations ++ [next], ?_⟩
  rw [ofDeclarations_concat, declare_of_accepted accepted]

/-- A vocabulary grew from the empty one if and only if declarations led to it, by induction on its
growth and on the declarations from the last one.
-/
theorem grows_empty_iff
    : empty.Grows vocabulary ↔ ∃ declarations, vocabulary = ofDeclarations declarations := by
  constructor
  · intro grows
    induction grows with
    | refl => exact ⟨[], rfl⟩
    | @entity _ _ name role line _ added ih =>
        exact exists_declarations_of_accepted (.entity name role line) ih added
    | @collection _ _ entity fieldCount _ added ih =>
        exact exists_declarations_of_accepted (.collection entity fieldCount) ih added
    | @name _ _ name place kind _ added ih =>
        exact exists_declarations_of_accepted (.storage name place kind) ih added
  · rintro ⟨declarations, rfl⟩
    induction declarations using List.reverseRecOn with
    | nil => exact .refl
    | append_singleton declarations next ih =>
        rw [ofDeclarations_concat]
        exact ih.trans (grows_declare _ next)

/-- However much is declared, the parts of the vocabulary agree, since they do so at the start and
no growth disturbs it.
-/
theorem linked_ofDeclarations (declarations : List Declaration)
    : (ofDeclarations declarations).Linked :=
  (grows_empty_iff.mpr ⟨declarations, rfl⟩).linked linked_empty

-----------------------------------------------------------------------------------------
-- Accepted declarations
-----------------------------------------------------------------------------------------

/-- The position that the next declaration of a sort takes. For an entity type or a collection it is
the index with which the declaration answers.
-/
def nextPosition (vocabulary : Vocabulary) : Declaration → Nat
  | .entity _ _ _ => vocabulary.entities.length
  | .collection _ _ => vocabulary.collections.length
  | .storage _ _ _ => vocabulary.names.length

/-- What was declared stands at the position. -/
def Holds (vocabulary : Vocabulary) (position : Nat) : Declaration → Prop
  | .entity name role line =>
      ∃ collection, vocabulary.entities[position]? = some ⟨name, position, role, collection, line⟩
  | .collection entity fieldCount =>
      vocabulary.collections[position]? = some entity
      ∧ vocabulary.fieldCounts[position]? = some fieldCount
  | .storage name place kind => vocabulary.names[position]? = some ⟨name, place, kind⟩

end Vocabulary

/-- The declaration was accepted in its turn among the declarations, and took the position. -/
def Declaration.AcceptedAt (made : Declaration) (declarations : List Declaration)
    (position : Nat) : Prop :=
  ∃ before after, declarations = before ++ made :: after
    ∧ ((Vocabulary.ofDeclarations before).declare? made).isSome
    ∧ (Vocabulary.ofDeclarations before).nextPosition made = position

/-- A declaration was accepted at a position by the declarations up to another one if it was so
before, or is that other one, was accepted then and took the position.
-/
theorem Declaration.acceptedAt_concat_iff {made next : Declaration}
    {declarations : List Declaration} {position : Nat}
    : made.AcceptedAt (declarations ++ [next]) position
      ↔ made.AcceptedAt declarations position
        ∨ next = made ∧ ((Vocabulary.ofDeclarations declarations).declare? made).isSome
          ∧ (Vocabulary.ofDeclarations declarations).nextPosition made = position := by
  constructor
  · rintro ⟨before, after, split, accepted, taken⟩
    rcases List.eq_nil_or_concat' after with rfl | ⟨others, last, rfl⟩
    · obtain ⟨rfl, rfl⟩ := List.append_singleton_inj.mp split
      exact .inr ⟨rfl, accepted, taken⟩
    · rw [← List.cons_append, ← List.append_assoc] at split
      obtain ⟨rfl, rfl⟩ := List.append_singleton_inj.mp split
      exact .inl ⟨before, others, rfl, accepted, taken⟩
  · rintro (⟨before, after, rfl, accepted, taken⟩ | ⟨rfl, accepted, taken⟩)
    · exact ⟨before, after ++ [next], by simp, accepted, taken⟩
    · exact ⟨declarations, [], rfl, accepted, taken⟩

namespace Vocabulary

/-- Two lists of one length that grow together have an entry of each at a position where they had
one, or behind the others.
-/
theorem getElem?_concat_and_iff {α β : Type} {ones : List α} {others : List β} {one wantedOne : α}
    {other wantedOther : β} {position : Nat} (lengths : others.length = ones.length)
    : (ones ++ [one])[position]? = some wantedOne
        ∧ (others ++ [other])[position]? = some wantedOther
      ↔ ones[position]? = some wantedOne ∧ others[position]? = some wantedOther
        ∨ (one = wantedOne ∧ other = wantedOther) ∧ ones.length = position := by
  rw [getElem?_concat_eq_some_iff, getElem?_concat_eq_some_iff, lengths]
  by_cases behind : ones.length = position
  · have noOther : others[position]? = none := List.getElem?_eq_none (by omega)
    simp [noOther, behind]
  · simp [behind]

/-- An accepted declaration puts what it declares behind the others, and changes nothing else that
was declared.

A collection also writes to the entity type that it is declared for; the entry is told by its name,
its role and its line, which stay as they are.
-/
theorem holds_declare_iff (linked : vocabulary.Linked) {next made : Declaration} {position : Nat}
    : (vocabulary.declare next).Holds position made
      ↔ vocabulary.Holds position made
        ∨ next = made ∧ (vocabulary.declare? made).isSome
          ∧ vocabulary.nextPosition made = position := by
  cases result : vocabulary.declare? next with
  | none =>
      -- The declaration in question is not the refused one, since it was accepted.
      rw [declare_of_refused result]
      refine (or_iff_left ?_).symm
      rintro ⟨rfl, accepted, _⟩
      simp [result] at accepted
  | some extended =>
      rw [declare_of_accepted result]
      have accepted : next = made → (vocabulary.declare? made).isSome := by
        rintro rfl
        simp [result]
      rw [← and_assoc, and_iff_left_of_imp accepted]
      cases next with
      | entity =>
          obtain ⟨_, rfl⟩ := addEntity?_eq_some_iff.mp result
          cases made with
          | entity =>
              simp only [Holds, nextPosition, getElem?_concat_eq_some_iff, exists_or,
                EntityDecl.mk.injEq, Declaration.entity.injEq]
              refine or_congr_right ⟨?_, ?_⟩
              · rintro ⟨_, ⟨name, _, role, _, line⟩, behind⟩
                exact ⟨⟨name, role, line⟩, behind⟩
              · rintro ⟨⟨name, role, line⟩, behind⟩
                exact ⟨none, ⟨name, behind, role, rfl, line⟩, behind⟩
          | collection | storage => simp [Holds]
      | collection =>
          have entities := exists_entity_iff_of_addCollection? result position position
          obtain ⟨_, _, _, rfl⟩ := addCollection?_eq_some_iff.mp result
          cases made with
          | entity name role line => simpa [Holds] using entities name role line
          | collection =>
              simp only [Holds, nextPosition, Declaration.collection.injEq]
              exact getElem?_concat_and_iff linked.counted
          | storage => simp [Holds]
      | storage =>
          obtain ⟨_, rfl⟩ := addName?_eq_some_iff.mp result
          cases made <;> simp [Holds, nextPosition, getElem?_concat_eq_some_iff]

/-- What stands in the vocabulary is what was accepted, by induction on the declarations from the
last one. So positions are given in order of acceptance, and a refused declaration takes none.
-/
theorem holds_ofDeclarations_iff (made : Declaration) {position : Nat}
    : (ofDeclarations declarations).Holds position made
      ↔ made.AcceptedAt declarations position := by
  induction declarations using List.reverseRecOn with
  | nil => cases made <;> simp [ofDeclarations, Holds, empty, Declaration.AcceptedAt]
  | append_singleton declarations next ih =>
      rw [ofDeclarations_concat, holds_declare_iff (linked_ofDeclarations declarations),
        Declaration.acceptedAt_concat_iff, ih]

theorem getElem?_entities_iff {name : String} {role : Option String} {line index : Nat}
    : (∃ collection, (ofDeclarations declarations).entities[index]?
        = some ⟨name, index, role, collection, line⟩)
      ↔ (Declaration.entity name role line).AcceptedAt declarations index :=
  holds_ofDeclarations_iff (.entity name role line)

/-- An index is that of an entity type if it was taken by an accepted declaration. -/
theorem lt_length_entities_iff {index : Nat}
    : index < (ofDeclarations declarations).entities.length
      ↔ ∃ name role line, (Declaration.entity name role line).AcceptedAt declarations index := by
  constructor
  · intro inside
    have stands := List.getElem?_eq_getElem inside
    have position := (linked_ofDeclarations declarations).positions index _ stands
    generalize (ofDeclarations declarations).entities[index] = decl at stands position
    subst position
    exact ⟨_, _, _, getElem?_entities_iff.mp ⟨_, stands⟩⟩
  · rintro ⟨name, role, line, accepted⟩
    obtain ⟨_, stands⟩ := getElem?_entities_iff.mpr accepted
    exact (List.getElem?_eq_some_iff.mp stands).1

/-- A collection of an entity type is one that was declared for it, with that number of fields. -/
theorem collection?_ofDeclarations_iff {entity fieldCount collection : Nat}
    : (ofDeclarations declarations).collection? entity = some collection
        ∧ (ofDeclarations declarations).fieldCount collection = fieldCount
      ↔ (Declaration.collection entity fieldCount).AcceptedAt declarations collection := by
  have linked := linked_ofDeclarations declarations
  rw [← holds_ofDeclarations_iff, linked.owned, Holds, Vocabulary.fieldCount]
  refine and_congr_right fun stands => ?_
  have counted : collection < (ofDeclarations declarations).fieldCounts.length := by
    rw [linked.counted]
    exact (List.getElem?_eq_some_iff.mp stands).1
  rw [List.getElem?_eq_getElem counted, Option.getD_some, Option.some_inj]

/-- An entity type has no collection as long as none was accepted for it. -/
theorem collection?_ofDeclarations_eq_none_iff {entity : Nat}
    : (ofDeclarations declarations).collection? entity = none
      ↔ ∀ fieldCount collection,
          ¬ (Declaration.collection entity fieldCount).AcceptedAt declarations collection := by
  rw [Option.eq_none_iff_forall_ne_some]
  constructor
  · intro free fieldCount collection accepted
    exact free collection (collection?_ofDeclarations_iff.mpr accepted).1
  · intro unowned collection owned
    exact unowned _ collection (collection?_ofDeclarations_iff.mp ⟨owned, rfl⟩)

-----------------------------------------------------------------------------------------
-- First declarations
-----------------------------------------------------------------------------------------

/-- A declaration names storage only where the name has none so far, and declarations of entity
types and collections name none.
-/
theorem name?_declare {next : Declaration} {name : String}
    : (vocabulary.declare next).name? name = (vocabulary.name? name).or (next.named? name) := by
  cases result : vocabulary.declare? next with
  | none =>
      rw [declare_of_refused result]
      cases next with
      | entity | collection => exact Option.or_none.symm
      | storage declared place kind =>
          -- Refused is only what has its name already.
          by_cases same : declared = name
          · obtain ⟨found, known⟩ :=
              Option.ne_none_iff_exists'.mp (declare?_eq_none_iff.mp result)
            rw [← same, known, Option.some_or]
          · rw [Declaration.named?, if_neg same, Option.or_none]
  | some extended =>
      rw [declare_of_accepted result]
      cases next with
      | entity =>
          obtain ⟨_, rfl⟩ := addEntity?_eq_some_iff.mp result
          exact Option.or_none.symm
      | collection =>
          obtain ⟨_, _, _, rfl⟩ := addCollection?_eq_some_iff.mp result
          exact Option.or_none.symm
      | storage =>
          obtain ⟨_, rfl⟩ := addName?_eq_some_iff.mp result
          rw [name?, List.find?_append, List.find?_singleton, Declaration.named?]
          simp only [decide_eq_true_eq, name?]

/-- A name stands for the storage of its first declaration, by induction on the declarations from
the last one.
-/
theorem name?_ofDeclarations {name : String}
    : (ofDeclarations declarations).name? name = declarations.findSome? (·.named? name) := by
  induction declarations using List.reverseRecOn with
  | nil => rfl
  | append_singleton declarations next ih =>
      rw [ofDeclarations_concat, name?_declare, ih, List.findSome?_append,
        List.findSome?_singleton]

theorem name?_ofDeclarations_eq_none_iff {name : String}
    : (ofDeclarations declarations).name? name = none
      ↔ ∀ place kind, .storage name place kind ∉ declarations := by
  rw [name?_ofDeclarations, List.findSome?_eq_none_iff]
  constructor
  · intro unnamed place kind member
    simpa [Declaration.named?] using unnamed _ member
  · intro fresh declaration member
    cases declaration with
    | entity | collection => rfl
    | storage declared place kind =>
        refine if_neg ?_
        rintro rfl
        exact fresh place kind member

/-- A name has no entity type after a declaration if it had none before and the declaration is not
of an entity type with this name.
-/
theorem entity?_declare_eq_none_iff {next : Declaration} {name : String}
    : (vocabulary.declare next).entity? name = none
      ↔ vocabulary.entity? name = none ∧ ∀ role line, next ≠ .entity name role line := by
  cases result : vocabulary.declare? next with
  | none =>
      rw [declare_of_refused result]
      refine (and_iff_left_of_imp ?_).symm
      rintro free role line rfl
      exact declare?_eq_none_iff.mp result free
  | some extended =>
      rw [declare_of_accepted result]
      cases next with
      | entity =>
          rw [entity?_of_addEntity? result, Option.or_eq_none_iff]
          simp
      | collection =>
          obtain ⟨_, _, _, rfl⟩ := addCollection?_eq_some_iff.mp result
          simp [entity?]
      | storage =>
          obtain ⟨_, rfl⟩ := addName?_eq_some_iff.mp result
          simp [entity?]

/-- An entity type has no index while its name is not declared, by induction on the declarations
from the last one.
-/
theorem entity?_ofDeclarations_eq_none_iff {name : String}
    : (ofDeclarations declarations).entity? name = none
      ↔ ∀ role line, .entity name role line ∉ declarations := by
  induction declarations using List.reverseRecOn with
  | nil => simp [ofDeclarations, entity?, empty]
  | append_singleton declarations next ih =>
      rw [ofDeclarations_concat, entity?_declare_eq_none_iff, ih]
      simp only [List.mem_append, List.mem_singleton, not_or, forall_and, ne_eq, eq_comm]

end Vocabulary

-----------------------------------------------------------------------------------------
-- Refused declarations
-----------------------------------------------------------------------------------------

/-- No earlier declaration stands in the way: the name was not declared before, and the entity type
that is to own a collection was declared and owns none.
-/
def Declaration.FreshAfter (declarations : List Declaration) : Declaration → Prop
  | .entity name _ _ => ∀ role line, .entity name role line ∉ declarations
  | .collection owner _ =>
      (∃ name role line, (Declaration.entity name role line).AcceptedAt declarations owner)
      ∧ ∀ fieldCount index,
          ¬ (Declaration.collection owner fieldCount).AcceptedAt declarations index
  | .storage name _ _ => ∀ place kind, .storage name place kind ∉ declarations

namespace Vocabulary

/-- A declaration is welcome where no earlier one stands in its way: one with the same name, or one
that made the entity type dynamic.
-/
theorem welcomes_ofDeclarations_iff {next : Declaration}
    : (ofDeclarations declarations).Welcomes next ↔ next.FreshAfter declarations := by
  cases next with
  | entity => exact entity?_ofDeclarations_eq_none_iff
  | collection =>
      exact and_congr lt_length_entities_iff collection?_ofDeclarations_eq_none_iff
  | storage => exact name?_ofDeclarations_eq_none_iff

-----------------------------------------------------------------------------------------
-- Consistent lookups
-----------------------------------------------------------------------------------------

/-- The lookups of a vocabulary agree with each other and with the declarations made so far. -/
structure Consistent (declarations : List Declaration) (vocabulary : Vocabulary) : Prop where
  /-- A name leads to the index of the entity type that has it. -/
  entity?_iff
    : ∀ name index, vocabulary.entity? name = some index
        ↔ ∃ entity, vocabulary.entities[index]? = some entity ∧ entity.name = name
  /-- No two entity types have one name. -/
  entityNames : (vocabulary.entities.map (·.name)).Nodup
  /-- An entity type has the index at which it stands. -/
  positions
    : ∀ (index : Nat) (entity : EntityDecl),
        vocabulary.entities[index]? = some entity → entity.index = index
  /-- Entity types stand at the indices with which their declarations answered. -/
  entities
    : ∀ name role line index,
        (∃ collection,
          vocabulary.entities[index]? = some ⟨name, index, role, collection, line⟩)
        ↔ (Declaration.entity name role line).AcceptedAt declarations index
  /-- Only declared entity types have collections, with indices below the number of collections. -/
  inside
    : ∀ entity collection, vocabulary.collection? entity = some collection
        → entity < vocabulary.entities.length ∧ collection < vocabulary.collections.length
  /-- The collection of an entity type is the one that is listed as its own. -/
  owned
    : ∀ entity collection, vocabulary.collection? entity = some collection
        ↔ vocabulary.collections[collection]? = some entity
  /-- Each of these indices is the collection of one entity type and of no other. -/
  owners
    : ∀ collection < vocabulary.collections.length,
        ∃! entity, vocabulary.collection? entity = some collection
  /-- Every collection has its number of fields, and no other numbers are kept. -/
  counted : vocabulary.fieldCounts.length = vocabulary.collections.length
  /-- Collections have the indices with which their declarations answered and the numbers of fields
  given there.
  -/
  collections
    : ∀ entity fieldCount collection,
        vocabulary.collection? entity = some collection
          ∧ vocabulary.fieldCount collection = fieldCount
        ↔ (Declaration.collection entity fieldCount).AcceptedAt declarations collection
  /-- Variables and fields stand in the order in which their declarations were accepted. -/
  names
    : ∀ name place kind position,
        vocabulary.names[position]? = some ⟨name, place, kind⟩
        ↔ (Declaration.storage name place kind).AcceptedAt declarations position
  /-- A name stands for the storage of its first declaration. -/
  places
    : ∀ name, vocabulary.place? name = (declarations.findSome? (·.named? name)).map (·.place)
  kinds : ∀ name, vocabulary.kind? name = (declarations.findSome? (·.named? name)).map (·.kind)
  /-- A declaration is refused where an earlier one stands in its way. -/
  refused : ∀ next, vocabulary.declare? next = none ↔ ¬ next.FreshAfter declarations
  /-- A refused declaration changes nothing, neither at once nor later. -/
  withoutRefused
    : ∀ next later, vocabulary.declare? next = none
        → ofDeclarations (declarations ++ next :: later) = ofDeclarations (declarations ++ later)

/-- A vocabulary is consistent after any declarations, refused ones included.

Each lookup is told by what was declared, and the parts that are kept twice agree: the index of a
name with the position of the entity type, the collection of an entity type with the entity type of
the collection.
-/
theorem consistent_ofDeclarations (declarations : List Declaration)
    : (ofDeclarations declarations).Consistent declarations := by
  have linked := linked_ofDeclarations declarations
  refine ⟨fun _ _ => linked.entity?_eq_some_iff, linked.names_nodup, linked.positions,
    fun _ _ _ _ => getElem?_entities_iff, ?_, linked.owned, ?_, linked.counted,
    fun _ _ _ => collection?_ofDeclarations_iff,
    fun _ _ _ _ => holds_ofDeclarations_iff (.storage _ _ _), ?_, ?_, ?_, ?_⟩
  · intro entity collection owned
    have stands := (linked.owned entity collection).mp owned
    exact ⟨linked.owner_inside stands, (List.getElem?_eq_some_iff.mp stands).1⟩
  · intro collection below
    have owned := (linked.owned _ collection).mpr (List.getElem?_eq_getElem below)
    exact ⟨_, owned, fun other also => linked.collection?_inj owned also⟩
  · intro name
    rw [place?, name?_ofDeclarations]
  · intro name
    rw [kind?, name?_ofDeclarations]
  · intro next
    rw [declare?_eq_none_iff, welcomes_ofDeclarations_iff]
  · intro next later refused
    simp only [ofDeclarations, List.foldl_append, List.foldl_cons]
    exact congrArg (later.foldl declare) (declare_of_refused refused)

example
    : ofDeclarations
        [.entity "Vehicle" none 1, .entity "Vehicle" none 2, .collection 1 4,
          .entity "Package" none 3, .collection 1 2, .collection 1 5,
          .storage "load" (.var 0) .int, .storage "load" (.const 0) .bool]
      = { entities := [⟨"Vehicle", 0, none, none, 1⟩, ⟨"Package", 1, none, some 0, 3⟩]
          indices := [("Vehicle", 0), ("Package", 1)]
          collections := [1]
          fieldCounts := [2]
          names := [⟨"load", .var 0, .int⟩] } := by
  decide

end Vocabulary

/-- The names of every accepted domain were declared one after the other, as reading its document
does nothing else to the vocabulary.
-/
theorem Domain.exists_declarations {source : List Char} {domain : Domain}
    (read : ofText source = .ok domain)
    : ∃ declarations, domain.vocabulary = Vocabulary.ofDeclarations declarations := by
  obtain ⟨lines, _, read⟩ := bind_eq_ok_iff.mp read
  obtain ⟨sections, _, read⟩ := bind_eq_ok_iff.mp read
  exact Vocabulary.grows_empty_iff.mp (grows_of_readSections read)

end Dispatch
