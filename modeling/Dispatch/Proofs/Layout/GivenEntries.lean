import Dispatch.Proofs.Layout.InitialItems
import Dispatch.Proofs.Layout.PlacedValues
import Dispatch.Proofs.Layout.WrittenEntries

/-!
Laying out entries that were written out. An entry that was read has the literals that were written
under its name, so a count, the values of a variable and the fields of an item are laid out as they
were given: a literal of a stored value denotes it, and values without indices fill the positions in
order.
-/

namespace Dispatch

/-- The value can be stored under the kind. -/
structure Value.Fits (value : Value) (kind : Kind) : Prop where
  proper : value.Proper
  kinded : value.hasKind kind = true

namespace Value.Fits

variable {value : Value} {kind : Kind}

/-- A value that fits its kind is one that can be stored: it is proper, and no sequence. -/
theorem stored (fits : value.Fits kind) : value.Stored :=
  ⟨fits.proper, Value.type_ne_seq_of_hasKind fits.kinded⟩

theorem valueFor_literal (fits : value.Fits kind) (name : String) (line : Nat)
    : value.literal.valueFor name kind line = .ok value := by
  rw [Literal.valueFor, Value.ofLiteral?_literal fits.proper fits.kinded]

end Value.Fits

-----------------------------------------------------------------------------------------
-- Entries by name
-----------------------------------------------------------------------------------------

namespace StartEntry

/-- Entries with names of their own pass the check, by induction on them. -/
theorem checkDistinct_eq_ok {seen : List String} {entries : List StartEntry}
    (distinct : (entries.map (·.name)).Nodup) (unseen : ∀ entry ∈ entries, entry.name ∉ seen)
    : checkDistinct seen entries = .ok () := by
  induction entries generalizing seen with
  | nil => rfl
  | cons entry rest ih =>
      obtain ⟨missing, distinct⟩ := List.nodup_cons.mp distinct
      obtain ⟨fresh, unseen⟩ := List.forall_mem_cons.mp unseen
      rw [checkDistinct, if_neg (by simpa using fresh)]
      refine ih distinct fun other member => ?_
      rw [List.mem_cons, not_or]
      exact ⟨fun same => missing (List.mem_map.mpr ⟨other, member, same⟩), unseen other member⟩

end StartEntry

namespace WrittenEntry

variable {written : List WrittenEntry} {entries : List StartEntry}

/-- The values of an entry that was written are given in order, without an index, so the n-th of
them is for the n-th position.
-/
theorem Gives.inOrder {one : WrittenEntry} {entry : StartEntry} (gives : one.Gives entry)
    : entry.GivesInOrder one.literals := by
  rw [StartEntry.GivesInOrder, ← List.forall₂_eq_eq_eq, List.forall₂_map_left_iff,
    List.forall₂_map_right_iff]
  exact gives.values.flip.imp fun _ _ said => Prod.ext said.2 said.1

theorem names_of_gives (gives : List.Forall₂ Gives written entries)
    : entries.map (·.name) = written.map (·.name) := by
  induction gives with
  | nil => rfl
  | cons first _ ih => rw [List.map_cons, List.map_cons, first.name, ih]

/-- Where names are apart, an entry that was written is the one that is found under its name, as no
other can be found before it.
-/
theorem exists_find? (gives : List.Forall₂ Gives written entries)
    (distinct : (written.map (·.name)).Nodup) {one : WrittenEntry} (member : one ∈ written)
    : ∃ entry, StartEntry.find? entries one.name = some entry ∧ one.Gives entry := by
  induction gives with
  | nil => cases member
  | @cons first entry rest entries given _ ih =>
      obtain ⟨missing, distinct⟩ := List.nodup_cons.mp distinct
      rcases List.mem_cons.mp member with rfl | later
      · exact ⟨entry, by simp [StartEntry.find?, given.name], given⟩
      · obtain ⟨found, same, gives⟩ := ih distinct later
        refine ⟨found, ?_, gives⟩
        have other : entry.name ≠ one.name := by
          rw [given.name]
          exact fun same => missing (List.mem_map.mpr ⟨one, later, same.symm⟩)
        rw [← same]
        simp [StartEntry.find?, other]

end WrittenEntry

-----------------------------------------------------------------------------------------
-- Counts
-----------------------------------------------------------------------------------------

/-- An entry with one natural number gives it as a count. -/
theorem StartEntry.count_of_gives {name : String} {count : Int} (natural : 0 ≤ count)
    {entry : StartEntry} (gives : (WrittenEntry.values name [.int count]).Gives entry)
    : entry.count = .ok count := by
  obtain ⟨_, values⟩ := gives
  cases given : entry.values with
  | nil =>
      rw [given] at values
      cases values
  | cons value rest =>
      rw [given] at values
      obtain ⟨⟨bare, literal⟩, last⟩ := List.forall₂_cons.mp values
      obtain rfl := List.forall₂_nil_left_iff.mp last
      obtain ⟨index, written, line⟩ := value
      obtain rfl : index = .none := bare
      obtain rfl : written = .int count := literal
      simp only [StartEntry.count, given, if_pos natural]

namespace EntityLayout

/-- The layout of an entity type with a given number of instances, unless it is dynamic. -/
def counted (count : Nat → Int) (index : Nat) (decl : EntityDecl) : EntityLayout where
  name := decl.name
  role := decl.role
  storage :=
    match decl.collection with
    | some collection => .dynamic collection
    | none => .positional (count index)

/-- Entity types are laid out with the counts of their entries, by induction on the declarations. -/
theorem ofDecls_eq_ok {count : Nat → Int} {entries : List StartEntry} {index : Nat}
    {decls : List EntityDecl}
    (counts
      : ∀ pair ∈ decls.zipIdx index, pair.1.collection = none
          → ∃ entry, StartEntry.find? entries pair.1.name = some entry
            ∧ entry.count = .ok (count pair.2))
    : ofDecls entries decls
      = .ok ((decls.zipIdx index).map fun pair => counted count pair.2 pair.1) := by
  induction decls generalizing index with
  | nil => rfl
  | cons decl rest ih =>
      rw [List.zipIdx_cons] at counts ⊢
      obtain ⟨first, others⟩ := List.forall_mem_cons.mp counts
      have laid : ofDecl entries decl = .ok (counted count index decl) := by
        unfold ofDecl counted
        cases owned : decl.collection with
        | some collection => rfl
        | none =>
            obtain ⟨entry, found, counted⟩ := first owned
            simp only [found]
            exact bind_eq_ok_iff.mpr ⟨_, counted, rfl⟩
      rw [List.map_cons]
      exact bind_eq_ok_iff.mpr ⟨_, laid, bind_eq_ok_iff.mpr ⟨_, ih others, rfl⟩⟩

end EntityLayout

-----------------------------------------------------------------------------------------
-- Values of variables
-----------------------------------------------------------------------------------------

namespace VariableLayout

variable {layout : VariableLayout}

/-- As many values as a variable has positions are its initial values; nothing is left for its
default.
-/
theorem fill_eq_ok {values : List Value} (fits : ∀ value ∈ values, value.Fits layout.decl.kind)
    (complete : values.length = layout.length) {name : String} {entry : StartEntry}
    (gives : (WrittenEntry.values name values).Gives entry)
    : layout.fill entry = .ok values.toArray := by
  refine fill_of_givesInOrder complete ?_ gives.inOrder
  rw [WrittenEntry.literals, List.map_map]
  refine List.map_congr_left fun value member => ?_
  exact Value.ofLiteral?_literal (fits value member).proper (fits value member).kinded

end VariableLayout

/-- Variables are laid out with the values of their entries, by induction on the declarations. -/
theorem VariableTable.ofDecls_eq_ok {entities : List EntityLayout} {entries : List StartEntry}
    {decls : List VariableDecl} {values : List (List Value)}
    (given
      : List.Forall₂ (fun decl given =>
          ∃ entry, StartEntry.find? entries decl.name = some entry
            ∧ (VariableLayout.ofDecl entities decl).fill entry = .ok given.toArray) decls values)
    : ofDecls entities entries decls
      = .ok (List.zipWith (fun decl given => ⟨VariableLayout.ofDecl entities decl, given.toArray⟩)
          decls values) := by
  induction given with
  | nil => rfl
  | @cons decl given decls values first _ ih =>
      obtain ⟨entry, found, filled⟩ := first
      have initial : (VariableLayout.ofDecl entities decl).initial entries = .ok given.toArray := by
        rw [VariableLayout.initial, VariableLayout.decl_ofDecl, found]
        exact filled
      rw [List.zipWith_cons_cons]
      exact bind_eq_ok_iff.mpr ⟨_, initial, bind_eq_ok_iff.mpr ⟨_, ih, rfl⟩⟩

-----------------------------------------------------------------------------------------
-- Rows of items
-----------------------------------------------------------------------------------------

/-- The item with the values of a row, in order of declaration: those of constant fields, and those
of mutable ones.
-/
def Item.ofFields (fields : List FieldDecl) (row : List Value) : Item where
  constants := ((fields.zip row).filter (·.1.constant)).map (·.2)
  mutables := ((fields.zip row).filter (!·.1.constant)).map (·.2)

/-- A value for each field that can be stored in it. -/
def FitsFields (fields : List FieldDecl) (row : List Value) : Prop :=
  List.Forall₂ (fun field value => Value.Fits value field.kind) fields row

namespace CollectionLayout

/-- The literals of a row give the item of its values, by induction on the fields. -/
theorem itemOf_eq_ok {line : Nat} {fields : List FieldDecl} {row : List Value}
    (fits : FitsFields fields row)
    : itemOf line fields (row.map Value.literal) = .ok (Item.ofFields fields row) := by
  induction fits with
  | nil => rfl
  | @cons field value fields row first _ ih =>
      rw [List.map_cons, itemOf]
      refine bind_eq_ok_iff.mpr ⟨_, first.valueFor_literal _ _, bind_eq_ok_iff.mpr ⟨_, ih, ?_⟩⟩
      cases constant : field.constant <;> simp [Item.ofFields, constant] <;> rfl

/-- A row that was written for fields gives the item of its values, also where it has one value and
could be read as that value alone.
-/
theorem ofRow_eq_ok {layout : CollectionLayout} {row : List Value}
    (fits : FitsFields layout.fields row) {given : StartValue}
    (matched : StartValue.Says (Value.seq row).literal given)
    : layout.ofRow given = .ok (Item.ofFields layout.fields row) := by
  have literal : given.literal = .tuple (row.map Value.literal) := by
    rw [matched.2, Value.literal, Value.literals_eq_map]
  have counted : (row.map Value.literal).length = layout.fields.length := by
    rw [List.length_map, List.Forall₂.length_eq fits]
  rw [ofRow, literal]
  dsimp only
  rw [if_neg (by simpa using counted)]
  exact itemOf_eq_ok fits

/-- Rows give their items in order, by induction on them. -/
theorem ofRows_eq_ok {layout : CollectionLayout} {rows : List (List Value)}
    (fits : ∀ row ∈ rows, FitsFields layout.fields row) {given : List StartValue}
    (matched : List.Forall₂ StartValue.Says (rows.map fun row => (Value.seq row).literal) given)
    : layout.ofRows given = .ok (rows.map (Item.ofFields layout.fields)) := by
  induction rows generalizing given with
  | nil =>
      obtain rfl := List.forall₂_nil_left_iff.mp matched
      rfl
  | cons row rows ih =>
      obtain ⟨first, others⟩ := List.forall_mem_cons.mp fits
      cases matched with
      | cons one matched =>
          exact bind_eq_ok_iff.mpr
            ⟨_, ofRow_eq_ok first one, bind_eq_ok_iff.mpr ⟨_, ih others matched, rfl⟩⟩

end CollectionLayout

namespace NewItem

variable {entities : List EntityLayout} {collections : List CollectionLayout}

/-- The start is accepted where each entry with the name of a collection is, by induction on the
entries; the others have no items.
-/
theorem exists_ofEntries {entries : List StartEntry}
    (each
      : ∀ entry ∈ entries, ∀ collection,
          EntityLayout.collectionNamed? entities entry.name = some collection
            → ∃ items, ofEntry collections collection entry = .ok items)
    : ∃ items, ofEntries entities collections entries = .ok items := by
  induction entries with
  | nil => exact ⟨[], rfl⟩
  | cons entry rest ih =>
      obtain ⟨first, others⟩ := List.forall_mem_cons.mp each
      obtain ⟨more, moreBuilt⟩ := ih others
      cases named : EntityLayout.collectionNamed? entities entry.name with
      | none =>
          refine ⟨[] ++ more, ?_⟩
          rw [ofEntries, named]
          exact bind_eq_ok_iff.mpr ⟨_, rfl, bind_eq_ok_iff.mpr ⟨_, moreBuilt, rfl⟩⟩
      | some collection =>
          obtain ⟨items, built⟩ := first collection named
          refine ⟨items ++ more, ?_⟩
          rw [ofEntries, named]
          exact bind_eq_ok_iff.mpr ⟨_, built, bind_eq_ok_iff.mpr ⟨_, moreBuilt, rfl⟩⟩

end NewItem

/-- Entries whose names stand for a variable, or for an entity type and no field, pass the check; by
induction on the entries.
-/
theorem Schema.checkNames_eq_ok {entities : List EntityLayout} {names : List (String × Place)}
    {entries : List StartEntry}
    (known
      : ∀ entry ∈ entries,
          (∀ place collection slot constant, (entry.name, place) ∈ names
            → place ≠ .field collection slot constant)
          ∧ ((∃ place, (entry.name, place) ∈ names)
            ∨ entities.any (·.name = entry.name) = true))
    : checkNames entities names entries = .ok () := by
  induction entries with
  | nil => rfl
  | cons entry rest ih =>
      obtain ⟨⟨apart, declared⟩, others⟩ := List.forall_mem_cons.mp known
      have done := ih others
      rw [checkNames]
      split
      · rename_i collection slot constant found
        obtain ⟨pair, first, same⟩ := Option.map_eq_some_iff.mp found
        have named : pair.1 = entry.name := by simpa using List.find?_some first
        refine absurd same (apart _ _ _ _ ?_)
        rw [← named]
        exact List.mem_of_find?_eq_some first
      · exact done
      · rename_i missing
        have unnamed : ¬ ∃ place, (entry.name, place) ∈ names := by
          rintro ⟨place, member⟩
          simpa using List.find?_eq_none.mp (Option.map_eq_none_iff.mp missing) _ member
        rw [if_pos (declared.resolve_left unnamed)]
        exact done

end Dispatch
