import Mathlib.Data.List.Nodup
import Dispatch.Problem.Parser
import Dispatch.Proofs.Reading.Lexemes
import Dispatch.Schema.Build

/-!
Initial values by position. A value goes to its index, or behind the value before it where it has
none, and of several values at a position the last one stays. So a variable has the same values from
a list of them and from lines with their indices, in any order.
-/

namespace Dispatch

-----------------------------------------------------------------------------------------
-- Positions
-----------------------------------------------------------------------------------------

namespace StartValue

/-- The values with the positions at which they are written: a value without an index goes to the
position after the one before it, `next` at first.
-/
def placed (next : Nat) : List StartValue → List (Nat × StartValue)
  | [] => []
  | given :: rest => (given.index.getD next, given) :: placed (given.index.getD next + 1) rest

/-- The last value that is written at the position. -/
def lastAt? (places : List (Nat × StartValue)) (position : Nat) : Option StartValue :=
  (places.filter (·.1 = position)).getLast?.map (·.2)

/-- The last value at a position among those behind the first is the last of all, and the first is
it only where there is no other.
-/
theorem lastAt?_cons (place : Nat × StartValue) (rest : List (Nat × StartValue)) (position : Nat)
    : lastAt? (place :: rest) position
      = (lastAt? rest position).or (if place.1 = position then some place.2 else none) := by
  unfold lastAt?
  by_cases here : place.1 = position
  · cases last : (rest.filter (·.1 = position)).getLast? <;>
      simp [here, List.getLast?_cons, last]
  · simp [here]

theorem mem_of_lastAt? {places : List (Nat × StartValue)} {position : Nat} {given : StartValue}
    (last : lastAt? places position = some given)
    : (position, given) ∈ places := by
  obtain ⟨place, found, rfl⟩ := Option.map_eq_some_iff.mp last
  obtain ⟨member, here⟩ := List.mem_filter.mp (List.mem_of_getLast? found)
  rwa [← of_decide_eq_true here]

/-- There is no last value at a position exactly where no value is given for it. -/
theorem lastAt?_eq_none_iff {places : List (Nat × StartValue)} {position : Nat}
    : lastAt? places position = none ↔ position ∉ places.map (·.1) := by
  unfold lastAt?
  rw [Option.map_eq_none_iff, List.getLast?_eq_none_iff, List.filter_eq_nil_iff, List.mem_map,
    not_exists]
  simp only [decide_eq_true_eq, not_and]

variable {given : List StartValue}

/-- What is placed was given, by induction on what is given. -/
theorem mem_of_mem_placed {next : Nat} {place : Nat × StartValue}
    (member : place ∈ placed next given)
    : place.2 ∈ given := by
  induction given generalizing next with
  | nil => cases member
  | cons first rest ih =>
      rcases List.mem_cons.mp member with rfl | later
      · exact List.mem_cons_self
      · exact List.mem_cons_of_mem _ (ih later)

/-- Values with indices are written there, by induction on them; the position that comes next in
order plays no part.
-/
theorem mem_placed_iff (indexed : ∀ one ∈ given, one.index.isSome = true) {next position : Nat}
    {one : StartValue}
    : (position, one) ∈ placed next given ↔ one ∈ given ∧ one.index = some position := by
  induction given generalizing next with
  | nil => simp [placed]
  | cons first rest ih =>
      obtain ⟨head, tail⟩ := List.forall_mem_cons.mp indexed
      obtain ⟨index, same⟩ := Option.isSome_iff_exists.mp head
      rw [placed, List.mem_cons, List.mem_cons, ih tail, same, Option.getD_some, Prod.mk.injEq]
      constructor
      · rintro (⟨rfl, rfl⟩ | ⟨member, here⟩)
        · exact ⟨.inl rfl, same⟩
        · exact ⟨.inr member, here⟩
      · rintro ⟨rfl | member, here⟩
        · exact .inl ⟨Option.some.inj (here.symm.trans same), rfl⟩
        · exact .inr ⟨member, here⟩

/-- Where indices are distinct, a value is the only one at its index, and so the last. -/
theorem lastAt?_placed (indexed : ∀ one ∈ given, one.index.isSome = true)
    (distinct : (given.map (·.index)).Nodup) {one : StartValue} (member : one ∈ given)
    {index : Nat} (here : one.index = some index) (next : Nat)
    : lastAt? (placed next given) index = some one := by
  cases last : lastAt? (placed next given) index with
  | none =>
      have there : (index, one) ∈ placed next given := (mem_placed_iff indexed).mpr ⟨member, here⟩
      exact absurd (List.mem_map_of_mem there) (lastAt?_eq_none_iff.mp last)
  | some other =>
      obtain ⟨also, same⟩ := (mem_placed_iff indexed).mp (mem_of_lastAt? last)
      rw [List.inj_on_of_nodup_map distinct also member (same.trans here.symm)]

/-- Where no value has an index, nothing is written there. -/
theorem lastAt?_placed_eq_none (indexed : ∀ one ∈ given, one.index.isSome = true) {index : Nat}
    (missing : some index ∉ given.map (·.index)) (next : Nat)
    : lastAt? (placed next given) index = none := by
  rw [lastAt?_eq_none_iff, List.mem_map]
  rintro ⟨⟨_, one⟩, there, rfl⟩
  obtain ⟨member, here⟩ := (mem_placed_iff indexed).mp there
  exact missing (List.mem_map.mpr ⟨one, member, here⟩)

/-- Values without indices are written in order, by induction on them, from the next position on. -/
theorem placed_of_bare (bare : ∀ one ∈ given, one.index = none) (next : Nat)
    : placed next given = (given.zipIdx next).map Prod.swap := by
  induction given generalizing next with
  | nil => rfl
  | cons first rest ih =>
      obtain ⟨head, tail⟩ := List.forall_mem_cons.mp bare
      rw [placed, head, Option.getD_none, ih tail, List.zipIdx_cons]
      rfl

/-- A number before a point is the index of what follows. -/
theorem ofLine_index {line : Line} {index : Nat} {after : List Char} (small : index ≤ greatestIndex)
    (text : line.text = (toString index).toList ++ '.' :: after)
    : ofLine line = do
        let literal ← Literal.ofLine (line.piece ((toString index).length + 1) after)
        return ⟨some index, literal, line.number⟩ := by
  obtain ⟨written, digits, same⟩ := digits_toString index
  have number : line.text.takeWhile Char.isDigit = (toString index).toList := by
    rw [text, List.takeWhile_append_of_pos digits, List.takeWhile_cons_of_neg (by decide),
      List.append_nil]
  have behind : line.text.dropWhile Char.isDigit = '.' :: after := by
    rw [text, List.dropWhile_append_of_pos digits, List.dropWhile_cons_of_neg (by decide)]
  unfold ofLine
  simp only [number, behind, if_neg written, same, if_neg (Nat.not_lt.mpr small),
    String.length_toList]

end StartValue

namespace StartEntry

/-- The values of an entry are the literals in order, without indices. -/
def GivesInOrder (entry : StartEntry) (literals : List Literal) : Prop :=
  entry.values.map (fun one => (one.literal, one.index)) = literals.map (·, none)

/-- The values of an entry are the literals with their indices, in any order. -/
def GivesByIndex (entry : StartEntry) (literals : List Literal) : Prop :=
  (entry.values.map fun one => (one.literal, one.index)).Perm
    (literals.zipIdx.map fun pair => (pair.1, some pair.2))

end StartEntry

-----------------------------------------------------------------------------------------
-- Writing
-----------------------------------------------------------------------------------------

namespace VariableLayout

open StartValue

variable (layout : VariableLayout)

/-- The value of the variable that a literal denotes. -/
def value? (given : StartValue) : Option Value := Value.ofLiteral? given.literal layout.decl.kind

variable {layout}

theorem convert_of_value? {given : StartValue} {value : Value}
    (denoted : layout.value? given = some value)
    : layout.convert given = .ok value := by
  rw [value?] at denoted
  rw [convert, Literal.valueFor, denoted]

/-- A literal that denotes no value of the kind of the variable is refused, with the name of the
variable and the line of the literal.
-/
theorem convert_of_no_value {given : StartValue} (none : layout.value? given = none)
    : layout.convert given
      = .error ⟨layout.decl.name, given.line, .kindMismatch layout.decl.kind given.literal⟩ := by
  rw [value?] at none
  rw [convert, Literal.valueFor, none]

theorem size_defaults (layout : VariableLayout) : layout.defaults.size = layout.length :=
  Array.size_replicate

/-- Convertible values at positions of the variable are written, and the last one at a position
stays; by induction on the values.

What stood at a position before is kept where nothing is written, so the defaults are seen through.
-/
theorem exists_write {next : Nat} {old : Array Value} {given : List StartValue}
    (size : old.size = layout.length)
    (fits
      : ∀ place ∈ placed next given,
          place.1 < layout.length ∧ (layout.value? place.2).isSome = true)
    : ∃ written, layout.write next old given = .ok written ∧ written.size = layout.length
        ∧ ∀ position, written[position]?
          = (lastAt? (placed next given) position).elim old[position]? layout.value? := by
  induction given generalizing next old with
  | nil => exact ⟨old, rfl, size, fun _ => rfl⟩
  | cons first rest ih =>
      rw [placed] at fits ⊢
      obtain ⟨⟨inside, convertible⟩, others⟩ := List.forall_mem_cons.mp fits
      obtain ⟨value, denoted⟩ := Option.isSome_iff_exists.mp convertible
      dsimp only at inside denoted
      -- the rest is written over this value, which stays unless one of them is at its position
      have kept : (old.setIfInBounds (first.index.getD next) value).size = layout.length :=
        Array.size_setIfInBounds.trans size
      obtain ⟨written, done, length, holds⟩ := ih kept others
      refine ⟨written, ?_, length, fun position => ?_⟩
      · rw [write, if_neg (Nat.not_le.mpr inside)]
        exact bind_eq_ok_iff.mpr ⟨value, convert_of_value? denoted, done⟩
      · rw [holds, lastAt?_cons]
        cases lastAt? (placed (first.index.getD next + 1) rest) position with
        | some later => rfl
        | none =>
            rw [Option.none_or, Option.elim_none, Array.getElem?_setIfInBounds]
            split
            · rw [if_pos (size ▸ inside), Option.elim_some, denoted]
            · rfl

/-- Values that leave no position out are all the values of the variable, as nothing of the defaults
is seen any more.
-/
theorem write_of_covering {values : List Value} (complete : values.length = layout.length)
    {given : List StartValue}
    (agree
      : ∀ place ∈ placed 0 given,
          ∃ value, values[place.1]? = some value ∧ layout.value? place.2 = some value)
    (covers : ∀ position < values.length, position ∈ (placed 0 given).map (·.1))
    : layout.write 0 layout.defaults given = .ok values.toArray := by
  obtain ⟨written, done, size, holds⟩ := exists_write layout.size_defaults fun place member => by
    obtain ⟨value, present, denoted⟩ := agree place member
    obtain ⟨inside, _⟩ := List.getElem?_eq_some_iff.mp present
    exact ⟨complete ▸ inside, Option.isSome_iff_exists.mpr ⟨value, denoted⟩⟩
  rw [done]
  congr 1
  refine Array.ext_getElem? fun position => ?_
  rw [holds]
  cases last : lastAt? (placed 0 given) position with
  | some one =>
      obtain ⟨value, present, denoted⟩ := agree _ (mem_of_lastAt? last)
      rw [Option.elim_some, denoted, List.getElem?_toArray, present]
  | none =>
      have outside : layout.length ≤ position := Nat.not_lt.mp fun inside =>
        lastAt?_eq_none_iff.mp last (covers position (complete.symm ▸ inside))
      rw [Option.elim_none, Array.getElem?_eq_none, Array.getElem?_eq_none]
      · simpa [complete] using outside
      · simpa [defaults] using outside

/-- The error of a position behind the last one. -/
def BehindLast (layout : VariableLayout) (given : List StartValue) (error : SchemaError) : Prop :=
  ∃ one ∈ given, ∃ position, layout.length ≤ position
    ∧ error = ⟨layout.decl.name, one.line, .indexOutOfRange position layout.length⟩

/-- The error of a literal that denotes no value of the variable. -/
def Mismatched (layout : VariableLayout) (given : List StartValue) (error : SchemaError) : Prop :=
  ∃ one ∈ given, layout.value? one = none
    ∧ error = ⟨layout.decl.name, one.line, .kindMismatch layout.decl.kind one.literal⟩

/-- A value with an index behind the last position is refused, by induction on the values before it;
these are written, unless one of them cannot be.
-/
theorem exists_error_of_index {next : Nat} {old : Array Value} {before after : List StartValue}
    {one : StartValue} {index : Nat} (given : one.index = some index)
    (beyond : layout.length ≤ index)
    : ∃ error, layout.write next old (before ++ one :: after) = .error error
        ∧ (layout.BehindLast (before ++ [one]) error ∨ layout.Mismatched before error) := by
  induction before generalizing next old with
  | nil =>
      rw [List.nil_append, write, given, Option.getD_some, if_pos beyond]
      exact ⟨_, rfl, .inl ⟨one, by simp, index, beyond, rfl⟩⟩
  | cons first before ih =>
      rw [List.cons_append, write]
      by_cases outside : layout.length ≤ first.index.getD next
      · rw [if_pos outside]
        exact ⟨_, rfl, .inl ⟨first, by simp, _, outside, rfl⟩⟩
      · rw [if_neg outside]
        dsimp only
        cases denoted : layout.value? first with
        | none =>
            rw [convert_of_no_value denoted]
            exact ⟨_, rfl, .inr ⟨first, List.mem_cons_self, denoted, rfl⟩⟩
        | some value =>
            rw [convert_of_value? denoted]
            obtain ⟨error, failed, cause⟩ := @ih (first.index.getD next + 1)
              (old.setIfInBounds (first.index.getD next) value)
            refine ⟨error, failed, cause.imp ?_ ?_⟩
            · exact fun ⟨refused, member, place⟩ => ⟨refused, List.mem_cons_of_mem _ member, place⟩
            · exact fun ⟨refused, member, other⟩ => ⟨refused, List.mem_cons_of_mem _ member, other⟩

-----------------------------------------------------------------------------------------
-- Entries
-----------------------------------------------------------------------------------------

/-- The values of an entry are written over the defaults where some value has an index; the short
form, one value for all positions, is for a value without one.
-/
theorem fill_of_index {entry : StartEntry} {one : StartValue} (member : one ∈ entry.values)
    (indexed : one.index.isSome = true)
    : layout.fill entry = layout.write 0 layout.defaults entry.values := by
  unfold fill
  split
  · rename_i single
    rw [single, List.mem_singleton] at member
    subst member
    cases indexed
  · refine if_neg fun refused => ?_
    simp only [Bool.and_eq_true, List.all_eq_true] at refused
    rw [Option.isNone_iff_eq_none.mp (refused.1.2 one member)] at indexed
    cases indexed

/-- Where a list denotes values one by one, what stands in it denotes the value at its position. -/
theorem exists_value_at {α : Type} {denote? : α → Option Value} {given : List α}
    {values : List Value} (denote : given.map denote? = values.map some) {position : Nat} {one : α}
    (present : given[position]? = some one)
    : ∃ value, values[position]? = some value ∧ denote? one = some value := by
  have same := congrArg (·[position]?) denote
  rw [List.getElem?_map, List.getElem?_map, present, Option.map_some] at same
  obtain ⟨value, found, denoted⟩ := Option.map_eq_some_iff.mp same.symm
  exact ⟨value, found, denoted.symm⟩

/-- As many values without indices as a variable has positions are its values.

A single one is read as the value of every position, which is the same for a single position; this
is the only place at which the two readings meet.
-/
theorem fill_of_bare {values : List Value} (complete : values.length = layout.length)
    {entry : StartEntry} (bare : ∀ one ∈ entry.values, one.index = none)
    (denote : entry.values.map layout.value? = values.map some)
    : layout.fill entry = .ok values.toArray := by
  have counted : entry.values.length = values.length := by
    simpa using congrArg List.length denote
  unfold fill
  split
  · -- a default for every position, which are one
    rename_i literal line single
    rw [single, List.map_singleton] at denote
    obtain ⟨value, rfl, denoted⟩ := List.map_eq_singleton_iff.mp denote.symm
    rw [← complete]
    exact bind_eq_ok_iff.mpr ⟨value, convert_of_value? denoted.symm, rfl⟩
  · rw [if_neg (by simp [counted, complete])]
    refine write_of_covering complete (fun place member => ?_) fun position inside => ?_
    · rw [placed_of_bare bare] at member
      obtain ⟨⟨one, position⟩, there, rfl⟩ := List.mem_map.mp member
      exact exists_value_at denote (List.mem_zipIdx_iff_getElem?.mp there)
    · rw [placed_of_bare bare, List.map_map]
      rw [← counted] at inside
      refine List.mem_map.mpr ⟨(entry.values[position], position), ?_, rfl⟩
      exact List.mem_zipIdx_iff_getElem?.mpr (List.getElem?_eq_getElem inside)

/-- Values that all have indices are written over the defaults, and so are no values at all. -/
theorem fill_of_indices {entry : StartEntry}
    (indexed : ∀ one ∈ entry.values, one.index.isSome = true)
    : layout.fill entry = layout.write 0 layout.defaults entry.values := by
  cases given : entry.values with
  | nil => simp [fill, given]
  | cons one rest =>
      have member : one ∈ entry.values := given ▸ List.mem_cons_self
      rw [fill_of_index member (indexed one member), given]

/-- An entry that gives a value for each position in order gives the variable these values. -/
theorem fill_of_givesInOrder {entry : StartEntry} {literals : List Literal} {values : List Value}
    (complete : values.length = layout.length)
    (denote : literals.map (Value.ofLiteral? · layout.decl.kind) = values.map some)
    (gives : entry.GivesInOrder literals)
    : layout.fill entry = .ok values.toArray := by
  refine fill_of_bare complete (fun one member => ?_) ?_
  · have pair := List.mem_map_of_mem (f := fun one : StartValue => (one.literal, one.index)) member
    rw [gives] at pair
    obtain ⟨literal, _, same⟩ := List.mem_map.mp pair
    exact (Prod.mk.inj same).2.symm
  · have same : entry.values.map (·.literal) = literals := by
      have first := congrArg (List.map Prod.fst) gives
      simpa [Function.comp_def] using first
    rw [← denote, ← same, List.map_map]
    rfl

/-- An entry that gives a value for each position by its index gives the variable these values, in
whatever order they come.
-/
theorem fill_of_givesByIndex {entry : StartEntry} {literals : List Literal} {values : List Value}
    (complete : values.length = layout.length)
    (denote : literals.map (Value.ofLiteral? · layout.decl.kind) = values.map some)
    (gives : entry.GivesByIndex literals)
    : layout.fill entry = .ok values.toArray := by
  have pair_iff (literal : Literal) (index : Option Nat)
      : (∃ one ∈ entry.values, one.literal = literal ∧ one.index = index)
        ↔ ∃ position, literals[position]? = some literal ∧ index = some position := by
    have same := gives.mem_iff (a := (literal, index))
    simpa [List.mem_zipIdx_iff_getElem?, eq_comm] using same
  have indexed : ∀ one ∈ entry.values, one.index.isSome = true := fun one member => by
    obtain ⟨position, _, same⟩ := (pair_iff _ _).mp ⟨one, member, rfl, rfl⟩
    rw [same]
    rfl
  have counted : literals.length = values.length := by simpa using congrArg List.length denote
  rw [fill_of_indices indexed]
  refine write_of_covering complete (fun place member => ?_) fun position inside => ?_
  · obtain ⟨member, here⟩ := (mem_placed_iff indexed).mp member
    obtain ⟨position, present, same⟩ := (pair_iff _ _).mp ⟨place.2, member, rfl, rfl⟩
    obtain rfl := Option.some.inj (here.symm.trans same)
    exact exists_value_at denote present
  · rw [← counted] at inside
    obtain ⟨one, member, _, here⟩ :=
      (pair_iff literals[position] (some position)).mpr ⟨position, by simp, rfl⟩
    exact List.mem_map.mpr ⟨(position, one), (mem_placed_iff indexed).mpr ⟨member, here⟩, rfl⟩

/-- Convertible values at positions of the variable are its initial values, the last one at each
position, where some value has an index or there is none.
-/
theorem exists_fill {entry : StartEntry}
    (written : layout.fill entry = layout.write 0 layout.defaults entry.values)
    (fits
      : ∀ place ∈ placed 0 entry.values,
          place.1 < layout.length ∧ (layout.value? place.2).isSome = true)
    : ∃ values, layout.fill entry = .ok values ∧ values.size = layout.length
        ∧ ∀ position < layout.length, values[position]?
          = (lastAt? (placed 0 entry.values) position).elim
            (some (Value.initial layout.decl.kind)) layout.value? := by
  obtain ⟨values, done, size, holds⟩ := exists_write layout.size_defaults fits
  refine ⟨values, written.trans done, size, fun position inside => ?_⟩
  rw [holds, defaults, Array.getElem?_replicate, if_pos inside]

/-- Values that all have an index, each another one, stand at their indices, and every other
position has the default. As no position is written twice, the order of the values does not matter.
-/
theorem exists_fill_of_distinct {entry : StartEntry}
    (inside : ∀ one ∈ entry.values, ∃ index < layout.length, one.index = some index)
    (distinct : (entry.values.map (·.index)).Nodup)
    (convertible : ∀ one ∈ entry.values, (layout.value? one).isSome = true)
    : ∃ values, layout.fill entry = .ok values ∧ values.size = layout.length
        ∧ (∀ one ∈ entry.values, ∀ index, one.index = some index
          → values[index]? = layout.value? one)
        ∧ ∀ index < layout.length, some index ∉ entry.values.map (·.index)
          → values[index]? = some (Value.initial layout.decl.kind) := by
  have indexed : ∀ one ∈ entry.values, one.index.isSome = true := fun one member => by
    obtain ⟨index, _, same⟩ := inside one member
    rw [same]
    rfl
  have small {one : StartValue} (member : one ∈ entry.values) {index : Nat}
      (here : one.index = some index)
      : index < layout.length := by
    obtain ⟨_, small, same⟩ := inside one member
    rwa [Option.some.inj (here.symm.trans same)]
  obtain ⟨values, done, size, holds⟩ :=
    exists_fill (fill_of_indices indexed) fun place member => by
      obtain ⟨there, here⟩ := (mem_placed_iff indexed).mp member
      exact ⟨small there here, convertible place.2 there⟩
  refine ⟨values, done, size, fun one member index here => ?_, fun index small missing => ?_⟩
  · rw [holds _ (small member here), lastAt?_placed indexed distinct member here]
    rfl
  · rw [holds _ small, lastAt?_placed_eq_none indexed missing]
    rfl

-----------------------------------------------------------------------------------------
-- Loading by position
-----------------------------------------------------------------------------------------

/-- Literals in order and literals with their indices give a variable the same values. -/
structure LoadsByPosition (layout : VariableLayout) : Prop where
  /-- As many literals as there are positions are its values, however they are given. -/
  agree
    : ∀ (literals : List Literal) (values : List Value), literals.length = layout.length
        → literals.map (Value.ofLiteral? · layout.decl.kind) = values.map some
        → (∀ entry : StartEntry, entry.GivesInOrder literals
            → layout.fill entry = .ok values.toArray)
          ∧ ∀ entry : StartEntry, entry.GivesByIndex literals
            → layout.fill entry = .ok values.toArray
  /-- Values at distinct indices stand there, and defaults elsewhere. -/
  distinct
    : ∀ entry : StartEntry,
        (∀ one ∈ entry.values, ∃ index < layout.length, one.index = some index)
        → (entry.values.map (·.index)).Nodup
        → (∀ one ∈ entry.values, (layout.value? one).isSome = true)
        → ∃ values, layout.fill entry = .ok values ∧ values.size = layout.length
          ∧ (∀ one ∈ entry.values, ∀ index, one.index = some index
            → values[index]? = layout.value? one)
          ∧ ∀ index < layout.length, some index ∉ entry.values.map (·.index)
            → values[index]? = some (Value.initial layout.decl.kind)
  /-- An index behind the last position is refused, unless a literal before it denotes no value. -/
  beyond
    : ∀ (entry : StartEntry) (before after : List StartValue) (one : StartValue) (index : Nat),
        entry.values = before ++ one :: after → one.index = some index → layout.length ≤ index
        → ∃ error, layout.fill entry = .error error
          ∧ (layout.BehindLast (before ++ [one]) error ∨ layout.Mismatched before error)
  /-- The last value at a position stands there, and defaults where there is none. -/
  block
    : ∀ entry : StartEntry, (∃ one ∈ entry.values, one.index.isSome = true)
        → (∀ place ∈ StartValue.placed 0 entry.values, place.1 < layout.length)
        → (∀ one ∈ entry.values, (layout.value? one).isSome = true)
        → ∃ values, layout.fill entry = .ok values ∧ values.size = layout.length
          ∧ ∀ position < layout.length, values[position]?
            = (StartValue.lastAt? (StartValue.placed 0 entry.values) position).elim
              (some (Value.initial layout.decl.kind)) layout.value?

/-- However long a variable is, its initial values are loaded by position; and a line with a number
and a point before a literal has the number as its index.

The values at their positions are those of the last writes there, so that a list in order and the
same list by indices have one reading. The error of an index behind the end is the first of the
entry, as nothing is written before the index is checked.
-/
theorem loadsByPosition (layout : VariableLayout)
    : layout.LoadsByPosition
        ∧ ∀ (line : Line) (index : Nat) (after : List Char), index ≤ greatestIndex
          → line.text = (toString index).toList ++ '.' :: after
          → StartValue.ofLine line = do
              let literal ← Literal.ofLine (line.piece ((toString index).length + 1) after)
              return ⟨some index, literal, line.number⟩ := by
  refine ⟨⟨fun literals values complete denote => ?_, ?_, ?_, ?_⟩, ?_⟩
  · have counted : literals.length = values.length := by simpa using congrArg List.length denote
    rw [counted] at complete
    exact ⟨fun _ gives => fill_of_givesInOrder complete denote gives,
      fun _ gives => fill_of_givesByIndex complete denote gives⟩
  · exact fun _ => exists_fill_of_distinct
  · intro entry before after one index split given beyond
    have written : layout.fill entry = layout.write 0 layout.defaults entry.values :=
      fill_of_index (split ▸ List.mem_append_right before List.mem_cons_self) (given ▸ rfl)
    rw [written, split]
    exact exists_error_of_index given beyond
  · rintro entry ⟨one, member, indexed⟩ inside convertible
    exact exists_fill (fill_of_index member indexed) fun place there =>
      ⟨inside place there, convertible place.2 (mem_of_mem_placed there)⟩
  · intro line index after small text
    exact StartValue.ofLine_index small text

/-- A number for each of three docks. -/
def dockLoads : VariableLayout := ⟨⟨"load", .int, false, some 0, none, 0, 1⟩, 3⟩

/-- Witness: three loads in order and from the last on, a block whose first line is written over,
and an index behind the last dock.
-/
theorem loadsByPosition_at_docks
    : dockLoads.fill ⟨"load", [⟨none, .int 4, 2⟩, ⟨none, .int 5, 2⟩, ⟨none, .int 6, 2⟩], 2⟩
          = .ok #[.int 4, .int 5, .int 6]
        ∧ dockLoads.fill
            ⟨"load", [⟨some 2, .int 6, 3⟩, ⟨some 0, .int 4, 4⟩, ⟨some 1, .int 5, 5⟩], 2⟩
          = .ok #[.int 4, .int 5, .int 6]
        ∧ (∃ values,
          dockLoads.fill ⟨"load", [⟨some 1, .int 7, 3⟩, ⟨none, .int 8, 4⟩, ⟨some 1, .int 9, 5⟩], 2⟩
            = .ok values
          ∧ values[0]? = some (.int 0) ∧ values[1]? = some (.int 9) ∧ values[2]? = some (.int 8))
        ∧ ∃ error, dockLoads.fill ⟨"load", [⟨none, .int 7, 3⟩, ⟨some 3, .bool true, 4⟩], 2⟩
            = .error error
          ∧ dockLoads.BehindLast [⟨none, .int 7, 3⟩, ⟨some 3, .bool true, 4⟩] error := by
  obtain ⟨agree, _, beyond, block⟩ := (loadsByPosition dockLoads).1
  obtain ⟨inOrder, byIndex⟩ :=
    agree [.int 4, .int 5, .int 6] [.int 4, .int 5, .int 6] rfl rfl
  refine ⟨inOrder _ rfl, byIndex _ ?_, ?_, ?_⟩
  · exact (List.perm_append_comm : ([(Literal.int 6, some 2)] ++ [_, _]).Perm _)
  · obtain ⟨values, done, _, holds⟩ := block
      ⟨"load", [⟨some 1, .int 7, 3⟩, ⟨none, .int 8, 4⟩, ⟨some 1, .int 9, 5⟩], 2⟩
      ⟨_, List.mem_cons_self, rfl⟩ (by decide) (by decide)
    exact ⟨values, done, holds 0 (by decide), holds 1 (by decide), holds 2 (by decide)⟩
  · obtain ⟨error, refused, behind | ⟨one, member, missing, _⟩⟩ := beyond
      ⟨"load", [⟨none, .int 7, 3⟩, ⟨some 3, .bool true, 4⟩], 2⟩ [⟨none, .int 7, 3⟩] []
      ⟨some 3, .bool true, 4⟩ 3 rfl rfl (by decide)
    · exact ⟨error, refused, behind⟩
    · obtain rfl := List.mem_singleton.mp member
      cases missing

end VariableLayout

end Dispatch
