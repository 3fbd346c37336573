import Dispatch.Domain.Declarations
import Dispatch.Proofs.Reading.Sequencing

/-!
Declarations give every name a place that exists. Variables are numbered among those that are as
constant as they are, and so are the fields of an item; a collection takes the index of its
declaration. A vocabulary describes declarations when its collections are theirs and its names stand
for their places, which holds at every moment while they are read.
-/

namespace Dispatch

-----------------------------------------------------------------------------------------
-- Numbered fields
-----------------------------------------------------------------------------------------

namespace FieldDecl

/-- Constant and mutable fields are numbered in order, after the given counts. -/
def Numbered (constants mutables : Nat) : List FieldDecl → Prop
  | [] => True
  | field :: rest =>
      field.slot = (if field.constant then constants else mutables)
      ∧ Numbered (constants + if field.constant then 1 else 0)
          (mutables + if field.constant then 0 else 1) rest

/-- Fields are numbered as they are read, by induction on their groups of words, constant and
mutable fields each with a count of their own.
-/
theorem numbered_of_ofGroups {line : Line} {constants mutables : Nat}
    {groups : List (Bool × List (List Char))} {fields : List FieldDecl}
    (read : ofGroups line constants mutables groups = .ok fields)
    : Numbered constants mutables fields := by
  induction groups generalizing constants mutables fields with
  | nil =>
      obtain rfl := Except.ok.inj read
      trivial
  | cons group rest ih =>
      unfold ofGroups at read
      dsimp only at read
      split at read
      · cases read
      · obtain ⟨others, othersRead, done⟩ := bind_eq_ok_iff.mp read
        obtain rfl := Except.ok.inj done
        exact ⟨rfl, ih othersRead⟩

/-- The slots of numbered fields lie below the counts after them, by induction on the fields. -/
theorem Numbered.slot_lt {constants mutables : Nat} {fields : List FieldDecl}
    (numbered : Numbered constants mutables fields) {field : FieldDecl} (member : field ∈ fields)
    : field.slot < (if field.constant then constants else mutables)
        + fields.countP (·.constant = field.constant) := by
  induction fields generalizing constants mutables with
  | nil => cases member
  | cons first rest ih =>
      obtain ⟨slot, others⟩ := numbered
      rw [List.countP_cons]
      rcases List.mem_cons.mp member with rfl | later
      · rw [slot]
        simp
      · have below := ih others later
        revert below
        cases first.constant <;> cases field.constant <;> intro below <;>
          simp only [Bool.false_eq_true, if_true, if_false, decide_true, decide_false]
            at below ⊢ <;>
          omega

end FieldDecl

-----------------------------------------------------------------------------------------
-- Places
-----------------------------------------------------------------------------------------

/-- The place is one of the declared variables or item fields. -/
def Place.DeclaredBy (items : List ItemsDecl) (declarations : List VariableDecl) : Place → Prop
  | .const slot => slot < declarations.countP (·.constant)
  | .var slot => slot < declarations.countP (!·.constant)
  | .field collection slot constant =>
      ∃ decl, items[collection]? = some decl ∧ slot < decl.count constant

/-- A place that declarations account for is accounted for by more of them. -/
theorem Place.DeclaredBy.append {items : List ItemsDecl} {declarations : List VariableDecl}
    {place : Place} (declared : place.DeclaredBy items declarations) (moreItems : List ItemsDecl)
    (moreVariables : List VariableDecl)
    : place.DeclaredBy (items ++ moreItems) (declarations ++ moreVariables) := by
  cases place with
  | const slot =>
      rw [DeclaredBy, List.countP_append]
      exact Nat.lt_add_right _ declared
  | var slot =>
      rw [DeclaredBy, List.countP_append]
      exact Nat.lt_add_right _ declared
  | field collection slot constant =>
      obtain ⟨decl, found, below⟩ := declared
      obtain ⟨inside, _⟩ := List.getElem?_eq_some_iff.mp found
      exact ⟨decl, by rwa [List.getElem?_append_left inside], below⟩

/-- The next variable of a constness takes the place after all earlier ones, and so the place of no
other.
-/
theorem VariableDecl.declaredBy_append {items : List ItemsDecl} {declarations : List VariableDecl}
    {decl : VariableDecl}
    (slot : decl.slot = declarations.countP (·.constant = decl.constant))
    : decl.place.DeclaredBy items (declarations ++ [decl]) := by
  cases constant : decl.constant <;>
    simp [VariableDecl.place, Place.DeclaredBy, constant, slot, List.countP_append]

-----------------------------------------------------------------------------------------
-- Vocabularies of declarations
-----------------------------------------------------------------------------------------

/-- An entity type that is read has a name; a piece without one is refused. -/
theorem EntityDecl.name_ne_of_ofPiece {piece : Line} {name : String} {role : Option String}
    (read : ofPiece piece = .ok (name, role))
    : name ≠ "" := by
  unfold ofPiece at read
  dsimp only at read
  split at read
  case' h_2 => split at read
  all_goals
    obtain ⟨⟨text, roleText⟩, _, read⟩ := bind_eq_ok_iff.mp read
    dsimp only at read
    split at read
    · cases read
    · rename_i nonempty
      obtain ⟨rfl, _⟩ := Prod.mk.inj (Except.ok.inj read)
      simpa using nonempty

namespace Vocabulary

/-- An entity type is declared exactly where its name is new, behind the others and with their
number as its index.
-/
theorem addEntity?_eq_some_iff {vocabulary extended : Vocabulary} {name : String}
    {role : Option String} {line : Nat}
    : vocabulary.addEntity? name role line = some extended
      ↔ vocabulary.entity? name = none
        ∧ extended
          = { vocabulary with
              indices := vocabulary.indices ++ [(name, vocabulary.entities.length)]
              entities :=
                vocabulary.entities
                  ++ [⟨name, vocabulary.entities.length, role, none, line⟩] } := by
  rw [addEntity?, Option.ite_none_left_eq_some, Option.not_isSome_iff_eq_none, Option.some_inj,
    @eq_comm _ extended]

/-- A collection is declared for an entity type that has none, which keeps the index of the
collection from then on.
-/
theorem addCollection?_eq_some_iff {vocabulary extended : Vocabulary} {entity fieldCount : Nat}
    : vocabulary.addCollection? entity fieldCount = some extended
      ↔ ∃ decl, vocabulary.entities[entity]? = some decl ∧ decl.collection = none
          ∧ extended
            = { vocabulary with
                entities :=
                  vocabulary.entities.set entity
                    { decl with collection := some vocabulary.collections.length }
                collections := vocabulary.collections ++ [entity]
                fieldCounts := vocabulary.fieldCounts ++ [fieldCount] } := by
  rw [addCollection?]
  cases found : vocabulary.entities[entity]? with
  | none => simp
  | some decl =>
      simp only [Option.ite_none_left_eq_some, Option.not_isSome_iff_eq_none, Option.some_inj,
        exists_eq_left', @eq_comm _ extended]

/-- A name is declared exactly where it is new, behind the others. -/
theorem addName?_eq_some_iff {vocabulary extended : Vocabulary} {name : String} {place : Place}
    {kind : Kind}
    : vocabulary.addName? name place kind = some extended
      ↔ vocabulary.name? name = none
        ∧ extended
          = { vocabulary with names := vocabulary.names ++ [⟨name, place, kind⟩] } := by
  rw [addName?, Option.ite_none_left_eq_some, Option.not_isSome_iff_eq_none, Option.some_inj,
    @eq_comm _ extended]

/-- The vocabulary stands for the declared items and variables. -/
structure Describes (vocabulary : Vocabulary) (items : List ItemsDecl)
    (declarations : List VariableDecl) : Prop where
  entities : ∀ entity ∈ vocabulary.entities, entity.name ≠ ""
  collections : vocabulary.collections = items.map (·.entity)
  fieldCounts : vocabulary.fieldCounts = items.map (·.fields.length)
  /-- Items are declared in order of their collections. -/
  numbers : items.map (·.collection) = List.range items.length
  owners : ∀ decl ∈ items, decl.entity < vocabulary.entities.length
  fields : ∀ decl ∈ items, FieldDecl.Numbered 0 0 decl.fields
  names : ∀ name ∈ vocabulary.names, name.place.DeclaredBy items declarations

theorem describes_empty : empty.Describes [] [] :=
  ⟨by simp [empty], rfl, rfl, rfl, by simp, by simp, by simp [empty]⟩

variable {vocabulary extended : Vocabulary} {items : List ItemsDecl}
  {declarations : List VariableDecl}

/-- Another entity type changes nothing that the vocabulary describes, as no items and no variable
belong to it yet.
-/
theorem Describes.addEntity? {name : String} {role : Option String} {line : Nat}
    (known : vocabulary.Describes items declarations) (named : name ≠ "")
    (added : vocabulary.addEntity? name role line = some extended)
    : extended.Describes items declarations := by
  obtain ⟨_, rfl⟩ := addEntity?_eq_some_iff.mp added
  refine ⟨?_, known.collections, known.fieldCounts, known.numbers, ?_, known.fields, known.names⟩
  · intro entity member
    rcases List.mem_append.mp member with old | new
    · exact known.entities entity old
    · obtain rfl := List.mem_singleton.mp new
      exact named
  · intro decl member
    have below := known.owners decl member
    simp only [List.length_append]
    omega

/-- A name whose place the declarations account for is described with them. -/
theorem Describes.addName? {name : String} {place : Place} {kind : Kind}
    (known : vocabulary.Describes items declarations)
    (declared : place.DeclaredBy items declarations)
    (added : vocabulary.addName? name place kind = some extended)
    : extended.Describes items declarations := by
  obtain ⟨_, rfl⟩ := addName?_eq_some_iff.mp added
  refine ⟨known.entities, known.collections, known.fieldCounts, known.numbers, known.owners,
    known.fields, ?_⟩
  intro one member
  rcases List.mem_append.mp member with old | new
  · exact known.names one old
  · obtain rfl := List.mem_singleton.mp new
    exact declared

/-- The declaration of a collection with numbered fields, which is then described. -/
theorem Describes.addCollection? (known : vocabulary.Describes items declarations)
    (decl : ItemsDecl) (number : decl.collection = items.length)
    (numbered : FieldDecl.Numbered 0 0 decl.fields)
    (added : vocabulary.addCollection? decl.entity decl.fields.length = some extended)
    : extended.Describes (items ++ [decl]) declarations := by
  obtain ⟨owner, found, _, rfl⟩ := addCollection?_eq_some_iff.mp added
  refine ⟨?_, ?_, ?_, ?_, ?_, ?_, ?_⟩
  · intro entity member
    rcases List.mem_or_eq_of_mem_set member with old | rfl
    · exact known.entities entity old
    · exact known.entities owner (List.mem_of_getElem? found)
  · simp only [List.map_append, known.collections, List.map_cons, List.map_nil]
  · simp only [List.map_append, known.fieldCounts, List.map_cons, List.map_nil]
  · rw [List.map_append, known.numbers, List.length_append, List.map_singleton, number,
      List.length_singleton, List.range_succ]
  · simp only [List.length_set]
    refine List.forall_mem_append.mpr ⟨known.owners, List.forall_mem_singleton.mpr ?_⟩
    exact (List.getElem?_eq_some_iff.mp found).1
  · exact List.forall_mem_append.mpr ⟨known.fields, List.forall_mem_singleton.mpr numbered⟩
  · intro name member
    simpa using (known.names name member).append [decl] []

/-- A variable that takes the next slot of its constness is described with its name; the names
before it keep their places.
-/
theorem Describes.addVariable {decl : VariableDecl}
    (known : vocabulary.Describes items declarations)
    (slot : decl.slot = declarations.countP (·.constant = decl.constant))
    (added : vocabulary.addName? decl.name decl.place decl.kind = some extended)
    : extended.Describes items (declarations ++ [decl]) := by
  have wider : vocabulary.Describes items (declarations ++ [decl]) := by
    refine ⟨known.entities, known.collections, known.fieldCounts, known.numbers, known.owners,
      known.fields, ?_⟩
    intro name member
    simpa using (known.names name member).append [] [decl]
  exact wider.addName? (VariableDecl.declaredBy_append slot) added

-----------------------------------------------------------------------------------------
-- Reading declarations
-----------------------------------------------------------------------------------------

/-- Reading entity types keeps the vocabulary describing the declarations, by induction on the
pieces.
-/
theorem Describes.readEntities {pieces : List Line}
    (known : vocabulary.Describes items declarations)
    (read : vocabulary.readEntities pieces = .ok extended)
    : extended.Describes items declarations := by
  induction pieces generalizing vocabulary with
  | nil =>
      obtain rfl := Except.ok.inj read
      exact known
  | cons piece rest ih =>
      unfold Vocabulary.readEntities at read
      split at read
      · exact ih known read
      · obtain ⟨⟨name, role⟩, entityRead, read⟩ := bind_eq_ok_iff.mp read
        dsimp only at read
        split at read
        · cases read
        · rename_i added
          refine ih (known.addEntity? ?_ added) read
          exact EntityDecl.name_ne_of_ofPiece entityRead

/-- Naming the fields of a declared collection keeps the vocabulary describing the declarations, by
induction on the fields.
-/
theorem Describes.readFields {collection : Nat} {line : Line} {decl : ItemsDecl}
    {fields : List FieldDecl} (known : vocabulary.Describes items declarations)
    (found : items[collection]? = some decl)
    (slots : ∀ field ∈ fields, field.slot < decl.count field.constant)
    (read : vocabulary.readFields collection line fields = .ok extended)
    : extended.Describes items declarations := by
  induction fields generalizing vocabulary with
  | nil =>
      obtain rfl := Except.ok.inj read
      exact known
  | cons field rest ih =>
      obtain ⟨below, others⟩ := List.forall_mem_cons.mp slots
      unfold Vocabulary.readFields at read
      dsimp only at read
      split at read
      · cases read
      · rename_i added
        have declared
            : (Place.field collection field.slot field.constant).DeclaredBy items declarations :=
          ⟨decl, found, below⟩
        exact ih (known.addName? declared added) others read

/-- An `items` declaration that was read is described after the earlier ones. -/
theorem Describes.readItems {line : Line} {text : List Char} {decl : ItemsDecl}
    (known : vocabulary.Describes items declarations)
    (read : ItemsDecl.read vocabulary line text = .ok (extended, decl))
    : extended.Describes (items ++ [decl]) declarations := by
  unfold ItemsDecl.read at read
  dsimp only at read
  split at read
  · cases read
  · split at read
    · rename_i entity declared
      obtain ⟨fields, fieldsRead, read⟩ := bind_eq_ok_iff.mp read
      have numbered := FieldDecl.numbered_of_ofGroups fieldsRead
      split at read
      · rename_i added
        obtain ⟨final, finalRead, done⟩ := bind_eq_ok_iff.mp read
        obtain ⟨rfl, rfl⟩ := Prod.mk.inj (Except.ok.inj done)
        have index : vocabulary.collections.length = items.length := by simp [known.collections]
        rw [index] at finalRead ⊢
        let decl : ItemsDecl := ⟨entity, items.length, fields, line.number⟩
        have joined := known.addCollection? decl rfl numbered added
        refine joined.readFields List.getElem?_concat_length ?_ finalRead
        intro field member
        have below := numbered.slot_lt member
        simp only [ite_self, Nat.zero_add] at below
        exact below
      · cases read
    · cases read

/-- The `items` declarations among lines are described after the earlier ones, by induction on the
lines.
-/
theorem Describes.readAllItems {lines : List Line} {more : List ItemsDecl}
    (known : vocabulary.Describes items declarations)
    (read : ItemsDecl.readAll vocabulary lines = .ok (extended, more))
    : extended.Describes (items ++ more) declarations := by
  induction lines generalizing vocabulary items more with
  | nil =>
      obtain ⟨rfl, rfl⟩ := Prod.mk.inj (Except.ok.inj read)
      simpa using known
  | cons line rest ih =>
      unfold ItemsDecl.readAll at read
      split at read
      · exact ih known read
      · obtain ⟨⟨next, decl⟩, declRead, read⟩ := bind_eq_ok_iff.mp read
        obtain ⟨⟨final, others⟩, othersRead, done⟩ := bind_eq_ok_iff.mp read
        obtain ⟨rfl, rfl⟩ := Prod.mk.inj (Except.ok.inj done)
        simpa using ih (known.readItems declRead) othersRead

/-- A variable that is read has the constness and the slot with which it was read. -/
theorem slot_of_ofText {line : Line} {constant : Bool} {slot : Nat} {text : List Char}
    {decl : VariableDecl} (read : VariableDecl.ofText vocabulary line constant slot text = .ok decl)
    : decl.constant = constant ∧ decl.slot = slot := by
  unfold VariableDecl.ofText at read
  dsimp only at read
  split at read
  · split at read
    case' h_2 => obtain ⟨_, _, read⟩ := bind_eq_ok_iff.mp read
    all_goals
      obtain ⟨⟨text, owner⟩, _, read⟩ := bind_eq_ok_iff.mp read
      dsimp only at read
      split at read
      · cases read
      · obtain rfl := Except.ok.inj read
        exact ⟨rfl, rfl⟩
  · cases read

/-- The variables among lines are described after the earlier ones, by induction on the lines: the
counts with which each is read are those of the variables before it.
-/
theorem Describes.readAllVariables {lines : List Line} {more : List VariableDecl}
    (known : vocabulary.Describes items declarations)
    (read
      : VariableDecl.readAll vocabulary (declarations.countP (·.constant))
          (declarations.countP (!·.constant)) lines = .ok (extended, more))
    : extended.Describes items (declarations ++ more) := by
  induction lines generalizing vocabulary declarations more with
  | nil =>
      obtain ⟨rfl, rfl⟩ := Prod.mk.inj (Except.ok.inj read)
      simpa using known
  | cons line rest ih =>
      unfold VariableDecl.readAll at read
      split at read
      · exact ih known read
      · split at read
        · rename_i constant text _
          obtain ⟨decl, declRead, read⟩ := bind_eq_ok_iff.mp read
          obtain ⟨rfl, slot⟩ := slot_of_ofText declRead
          split at read
          · rename_i next added
            obtain ⟨⟨final, others⟩, othersRead, done⟩ := bind_eq_ok_iff.mp read
            obtain ⟨rfl, rfl⟩ := Prod.mk.inj (Except.ok.inj done)
            have counted
                : decl.slot = declarations.countP (·.constant = decl.constant) := by
              rw [slot]
              cases decl.constant <;> simp
            have continued
                : VariableDecl.readAll next ((declarations ++ [decl]).countP (·.constant))
                    ((declarations ++ [decl]).countP (!·.constant)) rest = .ok (final, others) := by
              cases constness : decl.constant <;>
                simpa [List.countP_append, constness] using othersRead
            simpa using ih (known.addVariable counted added) continued
          · cases read
        · cases read

end Vocabulary

end Dispatch
