import Mathlib.Data.List.Forall2
import Dispatch.Proofs.Declarations.StoredNames
import Dispatch.Proofs.Layout.WellFormedState
import Dispatch.Schema.Build

/-!
A complete row gives a fitting item. Rows of values and rows of literals fill an item field by
field, constant and mutable fields apart, so the values of an item follow the fields of their
constness; as these are numbered in order, every value stands in the slot of its field. A row that
is too short would give an item without some of its fields, but both kinds of rows are counted
before.
-/

namespace Dispatch

-----------------------------------------------------------------------------------------
-- Items filled field by field
-----------------------------------------------------------------------------------------

/-- The item has a value for each field in turn, which the thing at the same position gives to the
field.
-/
inductive Item.Filled {α : Type} (gives : FieldDecl → α → Value → Prop)
    : List FieldDecl → List α → Item → Prop where
  | nil : Filled gives [] [] ⟨[], []⟩
  | cons {field : FieldDecl} {fields : List FieldDecl} {one : α} {given : List α} {item : Item}
      {value : Value} (first : gives field one value) (others : Filled gives fields given item)
      : Filled gives (field :: fields) (one :: given)
          (if field.constant then { item with constants := value :: item.constants }
            else { item with mutables := value :: item.mutables })

/-- The values of the item follow the fields of their constness, each of the kind of its field. -/
structure Item.Kinded (fields : List FieldDecl) (item : Item) : Prop where
  constants
    : List.Forall₂ (fun field value => value.hasKind field.kind = true)
        (fields.filter (·.constant)) item.constants
  mutables
    : List.Forall₂ (fun field value => value.hasKind field.kind = true)
        (fields.filter (!·.constant)) item.mutables

/-- The condition holds of the values of all fields of the item. -/
def Item.Holds (condition : Value → Prop) (item : Item) : Prop :=
  ∀ value ∈ item.constants ++ item.mutables, condition value

namespace Item

theorem kinded_nil : (Item.mk [] []).Kinded [] := ⟨.nil, .nil⟩

/-- A value of the kind of a further field goes in front of the others of its constness, and leaves
those of the other constness alone.
-/
theorem Kinded.cons {field : FieldDecl} {fields : List FieldDecl} {item : Item} {value : Value}
    (kinded : item.Kinded fields) (fits : value.hasKind field.kind = true)
    : (if field.constant then { item with constants := value :: item.constants }
        else { item with mutables := value :: item.mutables }).Kinded (field :: fields) := by
  cases constant : field.constant with
  | true =>
      refine ⟨?_, ?_⟩
      · simpa [constant] using ⟨fits, kinded.constants⟩
      · simpa [constant] using kinded.mutables
  | false =>
      refine ⟨?_, ?_⟩
      · simpa [constant] using kinded.constants
      · simpa [constant] using ⟨fits, kinded.mutables⟩

theorem holds_nil {condition : Value → Prop} : (Item.mk [] []).Holds condition :=
  fun _ member => by cases member

/-- A condition that holds of a further value and of all fields of an item holds of the item with
that value in front.
-/
theorem Holds.cons {condition : Value → Prop} {field : FieldDecl} {item : Item} {value : Value}
    (holds : item.Holds condition) (first : condition value)
    : (if field.constant then { item with constants := value :: item.constants }
        else { item with mutables := value :: item.mutables }).Holds condition := by
  cases constant : field.constant with
  | true => exact List.forall_mem_cons.mpr ⟨first, holds⟩
  | false =>
      obtain ⟨constants, mutables⟩ := List.forall_mem_append.mp holds
      exact List.forall_mem_append.mpr ⟨constants, List.forall_mem_cons.mpr ⟨first, mutables⟩⟩

namespace Filled

variable {α : Type} {gives : FieldDecl → α → Value → Prop} {fields : List FieldDecl}
  {given : List α} {item : Item}

/-- An item that is filled in a narrower way is filled in a wider one, by induction on the fields.
-/
theorem mono {wider : FieldDecl → α → Value → Prop} (filled : Filled gives fields given item)
    (wide : ∀ field one value, gives field one value → wider field one value)
    : Filled wider fields given item := by
  induction filled with
  | nil => exact .nil
  | cons first _ ih => exact .cons (wide _ _ _ first) ih

/-- An item that is filled with values of the kinds of the fields follows them, by induction on the
fields.
-/
theorem kinded (filled : Filled gives fields given item)
    (kinds : ∀ field one value, gives field one value → value.hasKind field.kind = true)
    : item.Kinded fields := by
  induction filled with
  | nil => exact kinded_nil
  | cons first _ ih => exact ih.cons (kinds _ _ _ first)

/-- A condition that holds of all values that fill an item holds of its fields, by induction on the
fields.
-/
theorem holds {condition : Value → Prop} (filled : Filled gives fields given item)
    (each : ∀ field one value, gives field one value → condition value)
    : item.Holds condition := by
  induction filled with
  | nil => exact holds_nil
  | cons first _ ih => exact ih.cons (each _ _ _ first)

end Filled

end Item

-----------------------------------------------------------------------------------------
-- Rows that fill an item
-----------------------------------------------------------------------------------------

/-- The literals of a row; one that is no list is the literal of a single field. -/
def StartValue.literals (given : StartValue) : List Literal :=
  match given.literal with
  | .tuple fields => fields
  | single => [single]

theorem Value.hasKind_of_ofLiteral? {literal : Literal} {kind : Kind} {value : Value}
    (denoted : ofLiteral? literal kind = some value)
    : value.hasKind kind = true := by
  cases literal <;> cases kind <;> simp only [ofLiteral?, reduceCtorEq] at denoted <;>
    (obtain rfl := Option.some.inj denoted; rfl)

/-- A literal that is accepted for a kind denotes the value that was accepted. -/
theorem Literal.ofLiteral?_of_valueFor {literal : Literal} {name : String} {kind : Kind}
    {line : Nat} {value : Value} (given : literal.valueFor name kind line = .ok value)
    : Value.ofLiteral? literal kind = some value := by
  unfold valueFor at given
  split at given
  · rename_i denoted
    obtain rfl := Except.ok.inj given
    exact denoted
  · cases given

namespace CollectionLayout

/-- As many values as there are fields fill an item, each of the kind of its field; by induction on
the fields.
-/
theorem filled_of_row {α : Type} {gives : α → Value → Prop} {fields : List FieldDecl}
    {given : List α} {values : List Value} {item : Item}
    (valued : List.Forall₂ gives given values) (complete : given.length = fields.length)
    (built : row fields values = .ok item)
    : Item.Filled (fun field one value => gives one value ∧ value.hasKind field.kind = true) fields
        given item := by
  induction fields generalizing given values item with
  | nil =>
      obtain rfl := List.eq_nil_of_length_eq_zero complete
      obtain rfl := Except.ok.inj built
      exact .nil
  | cons field rest ih =>
      cases valued with
      | nil => cases complete
      | cons first valued =>
          rw [row] at built
          split at built
          · rename_i fits
            obtain ⟨inner, innerBuilt, done⟩ := bind_eq_ok_iff.mp built
            obtain rfl := Except.ok.inj done
            exact .cons ⟨first, fits⟩ (ih valued (Nat.succ.inj complete) innerBuilt)
          · cases built

/-- A condition that holds of all values holds of the item that they give, be they complete or not;
by induction on the fields.
-/
theorem holds_of_row {condition : Value → Prop} {fields : List FieldDecl} {values : List Value}
    {item : Item} (each : ∀ value ∈ values, condition value)
    (built : row fields values = .ok item)
    : item.Holds condition := by
  induction fields generalizing values item with
  | nil =>
      obtain rfl := Except.ok.inj built
      exact Item.holds_nil
  | cons field rest ih =>
      cases values with
      | nil =>
          obtain rfl := Except.ok.inj built
          exact Item.holds_nil
      | cons value others =>
          obtain ⟨first, later⟩ := List.forall_mem_cons.mp each
          rw [row] at built
          split at built
          · obtain ⟨inner, innerBuilt, done⟩ := bind_eq_ok_iff.mp built
            obtain rfl := Except.ok.inj done
            exact (ih later innerBuilt).cons first
          · cases built

/-- What a literal denotes for a field. -/
def Denotes (field : FieldDecl) (literal : Literal) (value : Value) : Prop :=
  Value.ofLiteral? literal field.kind = some value

/-- Literals fill an item with what they denote, by induction on the fields. -/
theorem filled_of_itemOf {line : Nat} {fields : List FieldDecl} {literals : List Literal}
    {item : Item} (complete : literals.length = fields.length)
    (built : itemOf line fields literals = .ok item)
    : Item.Filled Denotes fields literals item := by
  induction fields generalizing literals item with
  | nil =>
      obtain rfl := List.eq_nil_of_length_eq_zero complete
      obtain rfl := Except.ok.inj built
      exact .nil
  | cons field rest ih =>
      cases literals with
      | nil => cases complete
      | cons literal others =>
          rw [itemOf] at built
          obtain ⟨value, given, built⟩ := bind_eq_ok_iff.mp built
          obtain ⟨inner, innerBuilt, done⟩ := bind_eq_ok_iff.mp built
          obtain rfl := Except.ok.inj done
          exact .cons (Literal.ofLiteral?_of_valueFor given)
            (ih (Nat.succ.inj complete) innerBuilt)

/-- The literals of a row of a problem fill an item; a row of another length is refused. -/
theorem filled_of_ofRow {layout : CollectionLayout} {given : StartValue} {item : Item}
    (built : layout.ofRow given = .ok item)
    : Item.Filled Denotes layout.fields given.literals item := by
  change (if given.literals.length ≠ layout.fields.length then _ else _) = _ at built
  split at built
  · cases built
  · rename_i complete
    exact filled_of_itemOf (Decidable.not_not.mp complete) built

/-- An item that is read from a row follows the fields, as each literal was accepted for the kind of
its field.
-/
theorem kinded_of_ofRow {layout : CollectionLayout} {given : StartValue} {item : Item}
    (built : layout.ofRow given = .ok item)
    : item.Kinded layout.fields :=
  (filled_of_ofRow built).kinded fun _ _ _ => Value.hasKind_of_ofLiteral?

/-- Rows are read one by one and in order, by induction on them. -/
theorem forall₂_of_ofRows {layout : CollectionLayout} {rows : List StartValue} {items : List Item}
    (built : layout.ofRows rows = .ok items)
    : List.Forall₂ (fun row item => layout.ofRow row = .ok item) rows items := by
  induction rows generalizing items with
  | nil =>
      obtain rfl := Except.ok.inj built
      exact .nil
  | cons row rest ih =>
      obtain ⟨item, one, built⟩ := bind_eq_ok_iff.mp built
      obtain ⟨others, othersBuilt, done⟩ := bind_eq_ok_iff.mp built
      obtain rfl := Except.ok.inj done
      exact .cons one (ih othersBuilt)

end CollectionLayout

-----------------------------------------------------------------------------------------
-- Expressions that give an item
-----------------------------------------------------------------------------------------

/-- Expressions are evaluated one by one, by induction on them. -/
theorem Expr.forall₂_of_evalAll {schema : Schema} {store : Store} {exprs : List Expr}
    {values : List Value} (evaluated : evalAll schema store exprs = .ok values)
    : List.Forall₂ (fun expr value => expr.eval schema store = .ok value) exprs values := by
  induction exprs generalizing values with
  | nil =>
      rw [evalAll] at evaluated
      obtain rfl := Except.ok.inj evaluated
      exact .nil
  | cons expr rest ih =>
      rw [evalAll] at evaluated
      obtain ⟨value, first, evaluated⟩ := bind_eq_ok_iff.mp evaluated
      obtain ⟨others, othersEvaluated, done⟩ := bind_eq_ok_iff.mp evaluated
      obtain rfl := Except.ok.inj done
      exact .cons first (ih othersEvaluated)

/-- A new item is the row of the values of its expressions. -/
theorem Store.row_of_newItem {schema : Schema} {store : Store} {collection : Nat}
    {exprs : List Expr} {item : Item}
    (made : store.newItem schema collection exprs = .ok item)
    : ∃ layout values, schema.collections[collection]? = some layout
        ∧ Expr.evalAll schema store exprs = .ok values
        ∧ CollectionLayout.row layout.fields values = .ok item := by
  unfold newItem at made
  split at made
  · rename_i layout known
    obtain ⟨values, evaluated, made⟩ := bind_eq_ok_iff.mp made
    split at made
    · rename_i built
      obtain rfl := Except.ok.inj made
      exact ⟨layout, values, known, evaluated, built⟩
    · cases made
  · cases made

-----------------------------------------------------------------------------------------
-- Numbered fields
-----------------------------------------------------------------------------------------

/-- Among numbered fields the one at a position of a constness is found by its slot, by induction on
the fields.
-/
theorem FieldDecl.Numbered.find?_eq {constants mutables : Nat} {fields : List FieldDecl}
    (numbered : Numbered constants mutables fields) {constant : Bool} {position : Nat}
    {field : FieldDecl}
    (found : (fields.filter (·.constant = constant))[position]? = some field)
    : fields.find? (fun field => field.constant = constant
        && field.slot = (if constant then constants else mutables) + position)
      = some field := by
  induction fields generalizing constants mutables position with
  | nil => simp at found
  | cons first rest ih =>
      obtain ⟨slot, others⟩ := numbered
      by_cases same : first.constant = constant
      · subst same
        rw [List.filter_cons_of_pos (by simp)] at found
        cases position with
        | zero =>
            obtain rfl := Option.some.inj found
            rw [List.find?_cons_of_pos (by simp [slot])]
        | succ position =>
            rw [List.getElem?_cons_succ] at found
            have later := ih others found
            rw [List.find?_cons_of_neg (by simp [slot])]
            rw [← later]
            congr 1
            funext field
            cases first.constant <;> simp [Nat.add_assoc, Nat.add_comm 1]
      · rw [List.filter_cons_of_neg (by simpa using same)] at found
        have later := ih others found
        rw [List.find?_cons_of_neg (by simp [same]), ← later]
        congr 1
        funext field
        cases constness : first.constant <;> cases constant <;> simp_all

namespace Item

variable {schema : Schema} {collection : Nat} {layout : CollectionLayout} {item : Item}

/-- A value at a position after which the fields of a constness are numbered has the kind of the
field with that slot, which is the kind that the schema gives the place.
-/
theorem kind?_of_forall₂ {constant : Bool} {values : List Value} {slot : Nat} {value : Value}
    (kinded
      : List.Forall₂ (fun field value => value.hasKind field.kind = true)
          (layout.fields.filter (·.constant = constant)) values)
    (numbered : FieldDecl.Numbered 0 0 layout.fields)
    (known : schema.collections[collection]? = some layout) (present : values[slot]? = some value)
    : ∃ kind, schema.kind? (.field collection slot constant) = some kind
        ∧ value.hasKind kind = true := by
  obtain ⟨inside, rfl⟩ := List.getElem?_eq_some_iff.mp present
  have declared : slot < (layout.fields.filter (·.constant = constant)).length := by
    rwa [kinded.length_eq]
  have fits := kinded.get declared inside
  have found := numbered.find?_eq (List.getElem?_eq_getElem declared)
  simp only [ite_self, Nat.zero_add] at found
  refine ⟨_, ?_, fits⟩
  rw [Schema.kind?, known]
  simp only [Option.bind_eq_bind, Option.bind_some]
  rw [found]
  rfl

/-- An item that follows the fields of a collection fits it: it has as many values of each
constness, and each has the kind that the schema gives its slot.
-/
theorem Kinded.fits (kinded : item.Kinded layout.fields)
    (numbered : FieldDecl.Numbered 0 0 layout.fields)
    (known : schema.collections[collection]? = some layout)
    : item.Fits schema collection layout := by
  refine ⟨?_, ?_, ?_⟩
  · rw [List.countP_eq_length_filter, kinded.constants.length_eq]
  · rw [List.countP_eq_length_filter, kinded.mutables.length_eq]
  · intro constant slot value present
    cases constant with
    | true => exact kind?_of_forall₂ (by simpa using kinded.constants) numbered known present
    | false => exact kind?_of_forall₂ (by simpa using kinded.mutables) numbered known present

end Item

end Dispatch
