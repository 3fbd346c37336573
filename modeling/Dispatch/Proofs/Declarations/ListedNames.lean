import Mathlib.Data.List.Nodup
import Dispatch.Proofs.Declarations.LinkedVocabulary

/-!
The names of a domain are the fields of its items and its variables, each once. Both are read in
order of declaration and numbered among those of their constness, so a name can be found from its
place as well as the place from the name.
-/

namespace Dispatch

-----------------------------------------------------------------------------------------
-- Numbered declarations
-----------------------------------------------------------------------------------------

namespace FieldDecl

/-- A numbered field stands at its slot among the fields of its constness, by induction on the
fields, the counts before them included.
-/
theorem Numbered.getElem?_filter {constants mutables : Nat} {fields : List FieldDecl}
    (numbered : Numbered constants mutables fields) {field : FieldDecl} (member : field ∈ fields)
    : ∃ position, field.slot = (if field.constant then constants else mutables) + position
        ∧ (fields.filter (·.constant = field.constant))[position]? = some field := by
  induction fields generalizing constants mutables with
  | nil => cases member
  | cons first rest ih =>
      obtain ⟨slot, others⟩ := numbered
      rcases List.mem_cons.mp member with rfl | later
      · exact ⟨0, slot, by simp⟩
      · obtain ⟨position, counted, found⟩ := ih others later
        by_cases same : first.constant = field.constant
        · refine ⟨position + 1, ?_, ?_⟩
          · rw [counted, same]
            cases field.constant <;> simp [Nat.add_assoc, Nat.add_comm 1]
          · rw [List.filter_cons_of_pos (by simpa using same), List.getElem?_cons_succ, found]
        · refine ⟨position, ?_, ?_⟩
          · rw [counted]
            revert same
            cases first.constant <;> cases field.constant <;> simp
          · rw [List.filter_cons_of_neg (by simpa using same), found]

/-- Where fields are numbered from zero, the slot of a field is its position among those of its
constness.
-/
theorem Numbered.getElem?_slot {fields : List FieldDecl} (numbered : Numbered 0 0 fields)
    {field : FieldDecl} (member : field ∈ fields)
    : (fields.filter (·.constant = field.constant))[field.slot]? = some field := by
  obtain ⟨position, slot, found⟩ := numbered.getElem?_filter member
  rw [ite_self, Nat.zero_add] at slot
  rw [slot, found]

/-- Fields of one constness have slots of their own, since two of them with one slot stand at one
position.
-/
theorem Numbered.eq_of_slot {fields : List FieldDecl} (numbered : Numbered 0 0 fields)
    {one other : FieldDecl} (oneMember : one ∈ fields) (otherMember : other ∈ fields)
    (constness : one.constant = other.constant) (slots : one.slot = other.slot)
    : one = other := by
  have found := numbered.getElem?_slot oneMember
  rw [constness, slots, numbered.getElem?_slot otherMember] at found
  exact (Option.some.inj found).symm

end FieldDecl

/-- A variable without its owner, role and line, which fields do not have. -/
def VariableDecl.asField (decl : VariableDecl) : FieldDecl :=
  ⟨decl.name, decl.kind, decl.constant, decl.slot⟩

-----------------------------------------------------------------------------------------
-- Declared names
-----------------------------------------------------------------------------------------

/-- The name that a field of a collection declares. -/
def FieldDecl.named (collection : Nat) (field : FieldDecl) : NameDecl :=
  ⟨field.name, .field collection field.slot field.constant, field.kind⟩

def VariableDecl.named (decl : VariableDecl) : NameDecl := ⟨decl.name, decl.place, decl.kind⟩

namespace ItemsDecl

/-- The names of the fields of items, whose collections count from the given index on. -/
def names (collection : Nat) : List ItemsDecl → List NameDecl
  | [] => []
  | decl :: rest => decl.fields.map (·.named collection) ++ names (collection + 1) rest

/-- The names of fields are those of the declaration at each index, by induction on the
declarations.
-/
theorem mem_names {collection : Nat} {items : List ItemsDecl} {name : NameDecl}
    : name ∈ names collection items
      ↔ ∃ (position : Nat) (decl : ItemsDecl) (field : FieldDecl),
          items[position]? = some decl ∧ field ∈ decl.fields
            ∧ name = field.named (collection + position) := by
  induction items generalizing collection with
  | nil => simp [names]
  | cons decl rest ih =>
      rw [names, List.mem_append, ih]
      constructor
      · rintro (first | ⟨position, other, field, found, inside, rfl⟩)
        · obtain ⟨field, inside, rfl⟩ := List.mem_map.mp first
          exact ⟨0, decl, field, rfl, inside, rfl⟩
        · exact ⟨position + 1, other, field, found, inside, by rw [Nat.add_assoc, Nat.add_comm 1]⟩
      · rintro ⟨position, other, field, found, inside, rfl⟩
        cases position with
        | zero =>
            obtain rfl := Option.some.inj found
            exact .inl (List.mem_map_of_mem inside)
        | succ position =>
            exact .inr ⟨position, other, field, found, inside, by
              rw [Nat.add_assoc, Nat.add_comm 1]⟩

end ItemsDecl

namespace Vocabulary

/-- The names of the vocabulary are those of the items and of the variables, which are numbered. -/
structure Lists (vocabulary : Vocabulary) (items : List ItemsDecl)
    (declarations : List VariableDecl) : Prop where
  names : vocabulary.names = ItemsDecl.names 0 items ++ declarations.map (·.named)
  numbered : FieldDecl.Numbered 0 0 (declarations.map (·.asField))

variable {vocabulary extended : Vocabulary}

/-- Declarations of storage put names behind the others and leave those of the entity types as they
are.
-/
structure Adds (added : List NameDecl) (start next : Vocabulary) : Prop where
  names : next.names = start.names ++ added
  entities : next.entities.map (·.name) = start.entities.map (·.name)

theorem Adds.refl (vocabulary : Vocabulary) : Adds [] vocabulary vocabulary :=
  ⟨(List.append_nil _).symm, rfl⟩

theorem Adds.trans {start middle next : Vocabulary} {first more : List NameDecl}
    (one : Adds first start middle) (others : Adds more middle next)
    : Adds (first ++ more) start next := by
  refine ⟨?_, others.entities.trans one.entities⟩
  rw [others.names, one.names, List.append_assoc]

/-- The declaration of a name adds it and nothing else. -/
theorem adds_of_addName? {name : String} {place : Place} {kind : Kind}
    (added : vocabulary.addName? name place kind = some extended)
    : Adds [⟨name, place, kind⟩] vocabulary extended
      ∧ extended.collections = vocabulary.collections := by
  obtain ⟨_, rfl⟩ := addName?_eq_some_iff.mp added
  exact ⟨⟨rfl, rfl⟩, rfl⟩

/-- Entity types declare no name of storage, by induction on the pieces. -/
theorem names_of_readEntities {pieces : List Line}
    (read : vocabulary.readEntities pieces = .ok extended)
    : extended.names = vocabulary.names := by
  induction pieces generalizing vocabulary with
  | nil =>
      obtain rfl := Except.ok.inj read
      rfl
  | cons piece rest ih =>
      unfold readEntities at read
      split at read
      · exact ih read
      · obtain ⟨⟨name, role⟩, _, read⟩ := bind_eq_ok_iff.mp read
        dsimp only at read
        split at read
        · cases read
        · rename_i next added
          obtain ⟨_, rfl⟩ := addEntity?_eq_some_iff.mp added
          rw [ih read]

/-- Fields declare their names in order, by induction on the fields. -/
theorem adds_of_readFields {collection : Nat} {line : Line} {fields : List FieldDecl}
    (read : vocabulary.readFields collection line fields = .ok extended)
    : Adds (fields.map (·.named collection)) vocabulary extended
      ∧ extended.collections = vocabulary.collections := by
  induction fields generalizing vocabulary with
  | nil =>
      obtain rfl := Except.ok.inj read
      exact ⟨.refl _, rfl⟩
  | cons field rest ih =>
      unfold readFields at read
      dsimp only at read
      split at read
      · cases read
      · rename_i next added
        obtain ⟨first, same⟩ := adds_of_addName? added
        obtain ⟨others, kept⟩ := ih read
        exact ⟨first.trans others, kept.trans same⟩

/-- Items declare the names of their fields in order, under the number of their collection. -/
theorem adds_of_readItems {line : Line} {text : List Char} {decl : ItemsDecl}
    (read : ItemsDecl.read vocabulary line text = .ok (extended, decl))
    : Adds (decl.fields.map (·.named vocabulary.collections.length)) vocabulary extended
      ∧ extended.collections.length = vocabulary.collections.length + 1 := by
  unfold ItemsDecl.read at read
  dsimp only at read
  split at read
  · cases read
  · split at read
    · obtain ⟨fields, _, read⟩ := bind_eq_ok_iff.mp read
      split at read
      · rename_i next added
        obtain ⟨final, finalRead, done⟩ := bind_eq_ok_iff.mp read
        obtain ⟨rfl, rfl⟩ := Prod.mk.inj (Except.ok.inj done)
        obtain ⟨adds, collections⟩ := adds_of_readFields finalRead
        have entities := adds.entities.trans (map_name_of_addCollection? added)
        obtain ⟨_, _, _, rfl⟩ := addCollection?_eq_some_iff.mp added
        exact ⟨⟨adds.names, entities⟩, by simp [collections]⟩
      · cases read
    · cases read

/-- Items declare the names of their fields in order, by induction on the lines. -/
theorem adds_of_readAllItems {lines : List Line} {items : List ItemsDecl}
    (read : ItemsDecl.readAll vocabulary lines = .ok (extended, items))
    : Adds (ItemsDecl.names vocabulary.collections.length items) vocabulary extended := by
  induction lines generalizing vocabulary items with
  | nil =>
      obtain ⟨rfl, rfl⟩ := Prod.mk.inj (Except.ok.inj read)
      exact .refl _
  | cons line rest ih =>
      unfold ItemsDecl.readAll at read
      split at read
      · exact ih read
      · obtain ⟨⟨next, decl⟩, declRead, read⟩ := bind_eq_ok_iff.mp read
        obtain ⟨⟨final, others⟩, othersRead, done⟩ := bind_eq_ok_iff.mp read
        obtain ⟨rfl, rfl⟩ := Prod.mk.inj (Except.ok.inj done)
        obtain ⟨adds, counted⟩ := adds_of_readItems declRead
        have more := ih othersRead
        rw [counted] at more
        exact adds.trans more

/-- Variables declare their names in order and are numbered, by induction on the lines; a variable
has the next slot of its constness, as a field has.
-/
theorem adds_of_readAllVariables {constants mutables : Nat} {lines : List Line}
    {declarations : List VariableDecl}
    (read
      : VariableDecl.readAll vocabulary constants mutables lines = .ok (extended, declarations))
    : Adds (declarations.map (·.named)) vocabulary extended
      ∧ FieldDecl.Numbered constants mutables (declarations.map (·.asField)) := by
  induction lines generalizing vocabulary constants mutables declarations with
  | nil =>
      obtain ⟨rfl, rfl⟩ := Prod.mk.inj (Except.ok.inj read)
      exact ⟨.refl _, trivial⟩
  | cons line rest ih =>
      unfold VariableDecl.readAll at read
      split at read
      · exact ih read
      · split at read
        · obtain ⟨decl, declRead, read⟩ := bind_eq_ok_iff.mp read
          obtain ⟨rfl, slot⟩ := slot_of_ofText declRead
          split at read
          · rename_i next added
            obtain ⟨⟨final, others⟩, othersRead, done⟩ := bind_eq_ok_iff.mp read
            obtain ⟨rfl, rfl⟩ := Prod.mk.inj (Except.ok.inj done)
            obtain ⟨more, numbered⟩ := ih othersRead
            exact ⟨(adds_of_addName? added).1.trans more, slot, numbered⟩
          · cases read
        · cases read

/-- A name that is declared was not taken, so declarations keep the names apart; by induction on the
declarations.
-/
theorem Grows.names_nodup (grows : vocabulary.Grows extended)
    (apart : (vocabulary.names.map (·.name)).Nodup)
    : (extended.names.map (·.name)).Nodup := by
  induction grows with
  | refl => exact apart
  | entity _ added ih =>
      obtain ⟨_, rfl⟩ := addEntity?_eq_some_iff.mp added
      exact ih
  | collection _ added ih =>
      obtain ⟨_, _, _, rfl⟩ := addCollection?_eq_some_iff.mp added
      exact ih
  | name _ added ih =>
      obtain ⟨fresh, rfl⟩ := addName?_eq_some_iff.mp added
      rw [List.map_append, List.map_singleton, List.nodup_append]
      refine ⟨ih, by simp, ?_⟩
      intro taken member _ new same
      obtain ⟨decl, declared, rfl⟩ := List.mem_map.mp member
      rw [List.mem_singleton.mp new] at same
      exact List.find?_eq_none.mp fresh decl declared (by simpa using same)

/-- Where names are apart, a name resolves to the one declaration that has it, and not merely to the
first.
-/
theorem name?_eq_some_iff (apart : (vocabulary.names.map (·.name)).Nodup) {name : String}
    {decl : NameDecl}
    : vocabulary.name? name = some decl ↔ decl ∈ vocabulary.names ∧ decl.name = name := by
  constructor
  · intro found
    exact ⟨List.mem_of_find?_eq_some found, by simpa using List.find?_some found⟩
  · rintro ⟨member, rfl⟩
    obtain ⟨first, found⟩ := Option.isSome_iff_exists.mp
      (List.find?_isSome.mpr ⟨decl, member, by simp⟩ : (vocabulary.name? decl.name).isSome)
    have same : first.name = decl.name := by simpa using List.find?_some found
    obtain rfl := List.inj_on_of_nodup_map apart (List.mem_of_find?_eq_some found) member same
    exact found

/-- Two names of one place are the same name. A place tells whether it is that of a variable or of a
field, of which collection, and its slot tells the rest, as slots of one constness are given once.
-/
theorem Lists.eq_of_place {items : List ItemsDecl} {declarations : List VariableDecl}
    (lists : vocabulary.Lists items declarations)
    (numbered : ∀ decl ∈ items, FieldDecl.Numbered 0 0 decl.fields) {one other : NameDecl}
    (oneMember : one ∈ vocabulary.names) (otherMember : other ∈ vocabulary.names)
    (places : one.place = other.place)
    : one.name = other.name := by
  rw [lists.names] at oneMember otherMember
  rcases List.mem_append.mp oneMember with oneItem | oneVariable
    <;> rcases List.mem_append.mp otherMember with otherItem | otherVariable
  · obtain ⟨position, decl, field, declared, inside, rfl⟩ := ItemsDecl.mem_names.mp oneItem
    obtain ⟨position', decl', field', declared', inside', rfl⟩ := ItemsDecl.mem_names.mp otherItem
    simp only [FieldDecl.named, Place.field.injEq, Nat.zero_add] at places
    obtain ⟨rfl, slots, constness⟩ := places
    rw [declared] at declared'
    obtain rfl := Option.some.inj declared'
    have fields := numbered decl (List.mem_of_getElem? declared)
    exact congrArg FieldDecl.name (fields.eq_of_slot inside inside' constness slots)
  · obtain ⟨_, _, _, _, _, rfl⟩ := ItemsDecl.mem_names.mp oneItem
    obtain ⟨decl, _, rfl⟩ := List.mem_map.mp otherVariable
    cases constant : decl.constant <;>
      simp [FieldDecl.named, VariableDecl.named, VariableDecl.place, constant] at places
  · obtain ⟨_, _, _, _, _, rfl⟩ := ItemsDecl.mem_names.mp otherItem
    obtain ⟨decl, _, rfl⟩ := List.mem_map.mp oneVariable
    cases constant : decl.constant <;>
      simp [FieldDecl.named, VariableDecl.named, VariableDecl.place, constant] at places
  · obtain ⟨decl, inside, rfl⟩ := List.mem_map.mp oneVariable
    obtain ⟨decl', inside', rfl⟩ := List.mem_map.mp otherVariable
    have same : decl.asField = decl'.asField := by
      refine lists.numbered.eq_of_slot (List.mem_map_of_mem inside) (List.mem_map_of_mem inside')
        ?_ ?_
      all_goals
        cases constant : decl.constant <;> cases constant' : decl'.constant <;>
          simp_all [VariableDecl.named, VariableDecl.place, VariableDecl.asField]
    exact congrArg FieldDecl.name same

end Vocabulary

namespace Domain

/-- The vocabulary of an accepted domain lists the names of its declarations, first those of the
fields of items and then those of the variables.
-/
theorem lists_of_ofText {source : List Char} {domain : Domain} (read : ofText source = .ok domain)
    : domain.vocabulary.Lists domain.items domain.declarations := by
  refine holds_of_ofText
    (fun domain => domain.vocabulary.Lists domain.items domain.declarations)
    ⟨rfl, trivial⟩ ?_ read
  intro domain next part lines _ coherent blank lists read
  cases part with
  | entities =>
      obtain ⟨vocabulary, entitiesRead, done⟩ := bind_eq_ok_iff.mp read
      obtain rfl := Except.ok.inj done
      exact ⟨(Vocabulary.names_of_readEntities entitiesRead).trans lists.names, lists.numbered⟩
  | declarations =>
      obtain ⟨⟨collected, items⟩, itemsRead, read⟩ := bind_eq_ok_iff.mp read
      obtain ⟨⟨vocabulary, declarations⟩, declarationsRead, done⟩ := bind_eq_ok_iff.mp read
      obtain rfl := Except.ok.inj done
      obtain ⟨noItems, noVariables⟩ := blank.declarations (Nat.le_refl 1)
      have noNames := lists.names
      have noCollections := coherent.describes.collections
      rw [noItems, noVariables] at noNames
      rw [noItems] at noCollections
      obtain ⟨adds, numbered⟩ := Vocabulary.adds_of_readAllVariables declarationsRead
      refine ⟨?_, numbered⟩
      rw [adds.names, (Vocabulary.adds_of_readAllItems itemsRead).names, noNames, noCollections]
      rfl
  | actions | environment | arrival =>
      obtain ⟨_, _, done⟩ := bind_eq_ok_iff.mp read
      obtain rfl := Except.ok.inj done
      exact lists

/-- An accepted domain keeps the names of its variables and fields apart, as each was refused unless
it was new.
-/
theorem names_nodup_of_ofText {source : List Char} {domain : Domain}
    (read : ofText source = .ok domain)
    : (domain.vocabulary.names.map (·.name)).Nodup := by
  obtain ⟨lines, _, read⟩ := bind_eq_ok_iff.mp read
  obtain ⟨sections, _, read⟩ := bind_eq_ok_iff.mp read
  exact (grows_of_readSections read).names_nodup .nil

end Domain

end Dispatch
