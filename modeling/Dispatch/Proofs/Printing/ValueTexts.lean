import Mathlib.Data.List.Basic
import Dispatch.Literal.Parser
import Dispatch.Proofs.Reading.Lexemes
import Dispatch.Proofs.Reading.TextCuts
import Dispatch.Value

/-!
The texts of values are literals. A printed value is read back as the literal that denotes it: as
printed numbers, words and brackets end where the next character cannot continue them, each reader
takes exactly the part of the text that was printed for it.
-/

namespace Dispatch

-----------------------------------------------------------------------------------------
-- Literals of values
-----------------------------------------------------------------------------------------

/-- The elements of an ascending list are put into it in their order, by induction on the list. -/
theorem Ascending.ofList_eq_self {elements : List Int} (ascending : elements.Pairwise (· < ·))
    : ofList elements = elements := by
  induction ascending with
  | nil => rfl
  | @cons first rest low _ ih =>
      rw [ofList, List.foldr_cons, ← ofList, ih]
      cases rest with
      | nil => rfl
      | cons second others => rw [insert, if_pos (low second List.mem_cons_self)]

/-- The pairs of a map with ascending keys are put into it in their order, by induction on them. -/
theorem Ascending.ofPairs_eq_self {pairs : List (Int × Int)}
    (ascending : (pairs.map (·.1)).Pairwise (· < ·))
    : ofPairs pairs = pairs := by
  induction pairs with
  | nil => rfl
  | cons first rest ih =>
      obtain ⟨low, ascending⟩ := List.pairwise_cons.mp ascending
      have kept := ih ascending
      unfold ofPairs at kept ⊢
      rw [List.foldr_cons, kept]
      cases rest with
      | nil => rfl
      | cons second others => exact if_pos (low second.1 List.mem_cons_self)

namespace Value

mutual

/-- What the operations keep of every value: its numbers are in bounds, its sets and maps ascending.
A sequence has an element.
-/
def Proper : Value → Prop
  | .int value => inBounds value = true
  | .bool _ => True
  | .set elements => (∀ element ∈ elements, inBounds element = true) ∧ elements.Pairwise (· < ·)
  | .map pairs =>
      (∀ pair ∈ pairs, inBounds pair.1 = true ∧ inBounds pair.2 = true)
        ∧ (pairs.map (·.1)).Pairwise (· < ·)
  | .seq elements => elements ≠ [] ∧ AllProper elements

def AllProper : List Value → Prop
  | [] => True
  | element :: rest => element.Proper ∧ AllProper rest

end

mutual

/-- The literal that is written for a value. -/
def literal : Value → Literal
  | .int value => .int value
  | .bool value => .bool value
  | .set elements => .set elements
  | .map pairs => .map pairs
  | .seq elements => .tuple (literals elements)

def literals : List Value → List Literal
  | [] => []
  | element :: rest => element.literal :: literals rest

end

theorem literals_eq_map (values : List Value) : literals values = values.map literal := by
  induction values with
  | nil => rfl
  | cons element rest ih => rw [literals, ih, List.map_cons]

theorem allProper_iff {values : List Value}
    : AllProper values ↔ ∀ value ∈ values, value.Proper := by
  induction values with
  | nil => simp [AllProper]
  | cons element rest ih => rw [AllProper, ih, List.forall_mem_cons]

/-- The literal of a value of a kind denotes the value. A set and a map are put in order again,
which leaves them as they are.
-/
theorem ofLiteral?_literal {value : Value} {kind : Kind} (proper : value.Proper)
    (kinded : value.hasKind kind = true)
    : ofLiteral? value.literal kind = some value := by
  cases value with
  | int value | bool value => cases kind <;> first | rfl | cases kinded
  | set elements =>
      cases kind <;> first | cases kinded; done | skip
      rw [literal, ofLiteral?, Ascending.ofList_eq_self proper.2]
  | map pairs =>
      cases kind <;> first | cases kinded; done | skip
      rw [literal, ofLiteral?, Ascending.ofPairs_eq_self proper.2]
  | seq elements => cases kind <;> cases kinded

end Value

-----------------------------------------------------------------------------------------
-- Ends of written values
-----------------------------------------------------------------------------------------

/-- Behind a written value comes nothing that would continue its digits or letters. -/
def EndsValue (rest : List Char) : Prop := ∀ c ∈ rest.head?, Text.isAlphanumeric c = false

theorem endsValue_nil : EndsValue [] := nofun

theorem endsValue_cons {c : Char} (other : Text.isAlphanumeric c = false) (rest : List Char)
    : EndsValue (c :: rest) := by
  intro first member
  obtain rfl := Option.some.inj member
  exact other

/-- A run of characters that continue a value goes up to its end, where none of them follows. -/
theorem EndsValue.takeWhile_append {rest : List Char} (ends : EndsValue rest) {test : Char → Bool}
    (continues : ∀ c, test c = true → Text.isAlphanumeric c = true) {run : List Char}
    (inside : ∀ c ∈ run, test c = true)
    : (run ++ rest).takeWhile test = run ∧ (run ++ rest).dropWhile test = rest := by
  have stops : rest.takeWhile test = [] ∧ rest.dropWhile test = rest := by
    cases rest with
    | nil => exact ⟨rfl, rfl⟩
    | cons c rest =>
        have fails : ¬ test c = true := by
          intro holds
          have other := ends c rfl
          rw [continues c holds] at other
          cases other
        exact ⟨List.takeWhile_cons_of_neg fails, List.dropWhile_cons_of_neg fails⟩
  rw [List.takeWhile_append_of_pos inside, List.dropWhile_append_of_pos inside, stops.1, stops.2,
    List.append_nil]
  exact ⟨rfl, rfl⟩

-----------------------------------------------------------------------------------------
-- Numbers and truth values
-----------------------------------------------------------------------------------------

theorem toString_negSucc (natural : Nat)
    : (toString (Int.negSucc natural)).toList = '-' :: (toString (natural + 1)).toList := by
  simp [toString, Int.repr]

/-- The text starts with a digit or a minus sign. -/
def StartsNumber (text : List Char) : Prop :=
  ∃ c tail, text = c :: tail ∧ (c = '-' ∨ c.isDigit = true)

theorem startsNumber_toString (value : Int) : StartsNumber (toString value).toList := by
  cases value with
  | ofNat natural =>
      obtain ⟨some, digits, _⟩ := digits_toString natural
      obtain ⟨c, tail, chars⟩ := List.exists_cons_of_ne_nil some
      exact ⟨c, tail, chars, .inr (digits c (chars ▸ List.mem_cons_self))⟩
  | negSucc natural =>
      exact ⟨'-', (toString (natural + 1)).toList, toString_negSucc natural, .inl rfl⟩

theorem StartsNumber.append {text : List Char} (starts : StartsNumber text) (rest : List Char)
    : StartsNumber (text ++ rest) := by
  obtain ⟨c, tail, rfl, number⟩ := starts
  exact ⟨c, tail ++ rest, rfl, number⟩

theorem startsNumber_joined (separator : String) {text : String} (others : List String)
    (starts : StartsNumber text.toList)
    : StartsNumber (joined separator (text :: others)).toList := by
  cases others with
  | nil => exact starts
  | cons next others =>
      simp only [joined, String.toList_append, List.append_assoc]
      exact starts.append _

/-- A digit and a minus sign are no blank, no letter, no separator and no bracket. -/
theorem apart_of_number {c : Char} (number : c = '-' ∨ c.isDigit = true)
    : Text.isBlank c = false ∧ Text.isAlphabetic c = false
      ∧ c ∉ [',', '(', '[', '\x7b', ']', '\x7d'] := by
  rcases number with rfl | digit
  · decide
  · refine ⟨Text.isBlank_eq_false_of_isDigit digit, Text.isAlphabetic_eq_false_of_isDigit digit,
      fun member => ?_⟩
    simp only [List.mem_cons, List.not_mem_nil, or_false] at member
    rcases member with rfl | rfl | rfl | rfl | rfl | rfl <;> exact absurd digit (by decide)

namespace Literal

theorem readInteger_toString {value : Int} (bounded : inBounds value = true) {rest : List Char}
    (ends : EndsValue rest)
    : readInteger ((toString value).toList ++ rest) = .ok (value, rest) := by
  have digitsOf (natural : Nat)
      : ((toString natural).toList ++ rest).takeWhile Char.isDigit = (toString natural).toList
        ∧ ((toString natural).toList ++ rest).dropWhile Char.isDigit = rest :=
    ends.takeWhile_append (fun _ => Text.isAlphanumeric_of_isDigit) (digits_toString natural).2.1
  cases value with
  | ofNat natural =>
      obtain ⟨some, digits, same⟩ := digits_toString natural
      obtain ⟨taken, left⟩ := digitsOf natural
      have positive : ((toString natural).toList ++ rest).head? ≠ .some '-' := by
        intro minus
        rw [List.head?_append_of_ne_nil _ some] at minus
        exact absurd (digits '-' (List.mem_of_head? minus)) (by decide)
      have text : toString (Int.ofNat natural) = toString natural := rfl
      simp only [readInteger, text, positive, decide_false, if_false, taken, left, same,
        some]
      exact if_neg (by simpa using bounded)
  | negSucc natural =>
      obtain ⟨some, _, same⟩ := digits_toString (natural + 1)
      obtain ⟨taken, left⟩ := digitsOf (natural + 1)
      have value : -((natural + 1 : Nat) : Int) = Int.negSucc natural := rfl
      simp only [readInteger, toString_negSucc, List.cons_append, List.head?_cons, if_true,
        List.drop_succ_cons, List.drop_zero, taken, left, same, some, value]
      exact if_neg (by simpa using bounded)

theorem readBool_text (value : Bool) {rest : List Char} (ends : EndsValue rest)
    : readBool ((Value.bool value).text.toList ++ rest) = .ok (value, rest) := by
  have word (text : String) (letters : text.toList.all Text.isAlphanumeric = true) :=
    ends.takeWhile_append (fun _ holds => holds) (List.all_eq_true.mp letters)
  cases value with
  | true =>
      obtain ⟨taken, left⟩ := word "true" (by decide)
      simp only [readBool, Value.text, if_true, taken, left]
      rfl
  | false =>
      obtain ⟨taken, left⟩ := word "false" (by decide)
      simp only [readBool, Value.text, Bool.false_eq_true, if_false, taken, left]
      rfl

-----------------------------------------------------------------------------------------
-- Sets and maps
-----------------------------------------------------------------------------------------

theorem skipSeparators_of_startsNumber {text : List Char} (starts : StartsNumber text)
    : skipSeparators text = text := by
  obtain ⟨c, tail, rfl, number⟩ := starts
  obtain ⟨visible, _, apart⟩ := apart_of_number number
  refine List.dropWhile_cons_of_neg ?_
  simp only [visible, Bool.false_or, decide_eq_true_eq]
  rintro rfl
  exact apart (by decide)

/-- Before texts that stand in brackets nothing is skipped. -/
theorem skipSeparators_joined {texts : List String}
    (starts : ∀ text ∈ texts, StartsNumber text.toList) {close : Char}
    (closes : close = '\x7d' ∨ close = ']') (rest : List Char)
    : skipSeparators ((joined " " texts).toList ++ close :: rest)
      = (joined " " texts).toList ++ close :: rest := by
  cases texts with
  | nil =>
      refine List.dropWhile_cons_of_neg ?_
      rcases closes with rfl | rfl <;> decide
  | cons text others =>
      have first := startsNumber_joined " " others (starts text List.mem_cons_self)
      exact skipSeparators_of_startsNumber (first.append _)

/-- Behind the first of the texts that stand in brackets comes the end of a number, and then the
others.
-/
theorem exists_more_joined (text : String) {others : List String}
    (starts : ∀ other ∈ others, StartsNumber other.toList) {close : Char}
    (closes : close = '\x7d' ∨ close = ']') (rest : List Char)
    : ∃ more, (joined " " (text :: others)).toList ++ close :: rest = text.toList ++ more
        ∧ EndsValue more
        ∧ skipSeparators more = (joined " " others).toList ++ close :: rest := by
  have skipped := skipSeparators_joined starts closes rest
  cases others with
  | nil =>
      refine ⟨close :: rest, rfl, endsValue_cons ?_ rest, skipped⟩
      rcases closes with rfl | rfl <;> decide
  | cons next others =>
      refine ⟨' ' :: ((joined " " (next :: others)).toList ++ close :: rest), ?_,
        endsValue_cons (by decide) _, ?_⟩
      · simp [joined]
      · rwa [skipSeparators, List.dropWhile_cons_of_pos (by decide)]

theorem startsNumber_of_mem_map (elements : List Int)
    : ∀ text ∈ elements.map toString, StartsNumber text.toList := by
  intro text member
  obtain ⟨element, _, rfl⟩ := List.mem_map.mp member
  exact startsNumber_toString element

/-- The text of a pair of a map. -/
def pairText (pair : Int × Int) : String := toString pair.1 ++ ":" ++ toString pair.2

theorem startsNumber_of_mem_pairs (pairs : List (Int × Int))
    : ∀ text ∈ pairs.map pairText, StartsNumber text.toList := by
  intro text member
  obtain ⟨pair, _, rfl⟩ := List.mem_map.mp member
  simp only [pairText, String.toList_append, List.append_assoc]
  exact (startsNumber_toString pair.1).append _

/-- The elements of a set are read up to its brace, by induction on them. Commas and blanks between
them are skipped alike.
-/
theorem readElements_joined {elements : List Int}
    (bounded : ∀ element ∈ elements, inBounds element = true) {depth : Nat}
    (deep : elements.length < depth) {input rest : List Char}
    (same
      : skipSeparators input = (joined " " (elements.map toString)).toList ++ '\x7d' :: rest)
    : readElements depth input = .ok (elements, rest) := by
  induction elements generalizing depth input with
  | nil =>
      obtain ⟨depth, rfl⟩ := Nat.exists_eq_succ_of_ne_zero (Nat.ne_zero_of_lt deep)
      rw [readElements, same]
      rfl
  | cons element others ih =>
      obtain ⟨depth, rfl⟩ := Nat.exists_eq_succ_of_ne_zero (Nat.ne_zero_of_lt deep)
      obtain ⟨first, bounded⟩ := List.forall_mem_cons.mp bounded
      obtain ⟨more, whole, ends, next⟩ :=
        exists_more_joined (toString element) (startsNumber_of_mem_map others)
          (.inl rfl) rest
      have read := ih bounded (Nat.lt_of_succ_lt_succ deep) next
      have one := readInteger_toString first ends
      rw [List.map_cons, whole] at same
      obtain ⟨c, tail, chars, number⟩ := (startsNumber_toString element).append more
      rw [chars] at same one
      rw [readElements, same]
      split
      · rename_i close
        obtain rfl := (List.cons.inj close).1
        exact absurd number (by decide)
      · exact bind_eq_ok_iff.mpr ⟨_, one, bind_eq_ok_iff.mpr ⟨_, read, rfl⟩⟩

/-- The pairs of a map are read up to its bracket, by induction on them. A pair is a key, a colon
and a value, and the next begins behind a blank.
-/
theorem readPairs_joined {pairs : List (Int × Int)}
    (bounded : ∀ pair ∈ pairs, inBounds pair.1 = true ∧ inBounds pair.2 = true) {depth : Nat}
    (deep : pairs.length < depth) {input rest : List Char}
    (same : skipSeparators input = (joined " " (pairs.map pairText)).toList ++ ']' :: rest)
    : readPairs depth input = .ok (pairs, rest) := by
  induction pairs generalizing depth input with
  | nil =>
      obtain ⟨depth, rfl⟩ := Nat.exists_eq_succ_of_ne_zero (Nat.ne_zero_of_lt deep)
      rw [readPairs, same]
      rfl
  | cons pair others ih =>
      obtain ⟨depth, rfl⟩ := Nat.exists_eq_succ_of_ne_zero (Nat.ne_zero_of_lt deep)
      obtain ⟨⟨keyBounded, valueBounded⟩, bounded⟩ := List.forall_mem_cons.mp bounded
      obtain ⟨more, whole, ends, next⟩ :=
        exists_more_joined (pairText pair) (startsNumber_of_mem_pairs others)
          (.inr rfl) rest
      have read := ih bounded (Nat.lt_of_succ_lt_succ deep) next
      have key := readInteger_toString keyBounded
        (endsValue_cons (c := ':') (by decide) ((toString pair.2).toList ++ more))
      have value := readInteger_toString valueBounded ends
      have visible : skipBlanks ((toString pair.2).toList ++ more)
          = (toString pair.2).toList ++ more := by
        obtain ⟨c, tail, chars, number⟩ := (startsNumber_toString pair.2).append more
        rw [chars]
        exact List.dropWhile_cons_of_neg (by simp [(apart_of_number number).1])
      rw [List.map_cons, whole] at same
      have spelled : (pairText pair).toList ++ more
          = (toString pair.1).toList ++ ':' :: ((toString pair.2).toList ++ more) := by
        simp [pairText]
      obtain ⟨c, tail, chars, number⟩ :=
        (startsNumber_toString pair.1).append (':' :: ((toString pair.2).toList ++ more))
      rw [spelled, chars] at same
      rw [chars] at key
      rw [readPairs, same]
      split
      · rename_i close
        obtain rfl := (List.cons.inj close).1
        exact absurd number (by decide)
      · refine bind_eq_ok_iff.mpr ⟨_, key, ?_⟩
        have colon : skipBlanks (':' :: ((toString pair.2).toList ++ more))
            = ':' :: ((toString pair.2).toList ++ more) :=
          List.dropWhile_cons_of_neg (by decide)
        simp only [colon]
        refine bind_eq_ok_iff.mpr ⟨_, visible.symm ▸ value, ?_⟩
        exact bind_eq_ok_iff.mpr ⟨_, read, rfl⟩

-----------------------------------------------------------------------------------------
-- Values
-----------------------------------------------------------------------------------------

theorem skipBlanks_of_visible {c : Char} (visible : Text.isBlank c = false) (rest : List Char)
    : skipBlanks (c :: rest) = c :: rest :=
  List.dropWhile_cons_of_neg (by simp [visible])

theorem nonempty_of_startsNumber {texts : List String}
    (starts : ∀ text ∈ texts, StartsNumber text.toList)
    : ∀ text ∈ texts, text.toList ≠ [] := by
  intro text member empty
  obtain ⟨c, tail, chars, _⟩ := starts text member
  rw [empty] at chars
  cases chars

theorem length_le_joined (separator : String) {texts : List String}
    (nonempty : ∀ text ∈ texts, text.toList ≠ [])
    : texts.length ≤ (joined separator texts).toList.length := by
  induction texts with
  | nil => exact Nat.zero_le _
  | cons text rest ih =>
      obtain ⟨first, others⟩ := List.forall_mem_cons.mp nonempty
      have one := List.length_pos_iff.mpr first
      have more := ih others
      cases rest with
      | nil => exact one
      | cons next rest =>
          simp only [joined, String.toList_append, List.length_append, List.length_cons] at more ⊢
          omega

theorem text_set (elements : List Int)
    : (Value.set elements).text.toList
      = '\x7b' :: ((joined " " (elements.map toString)).toList ++ ['\x7d']) := by
  simp [Value.text]

theorem text_map (pairs : List (Int × Int))
    : (Value.map pairs).text.toList
      = '[' :: ((joined " " (pairs.map pairText)).toList ++ [']']) := by
  have whole : (Value.map pairs).text = "[" ++ joined " " (pairs.map pairText) ++ "]" := rfl
  simp [whole]

theorem text_seq (elements : List Value)
    : (Value.seq elements).text.toList
      = '(' :: ((joined ", " (Value.texts elements)).toList ++ [')']) := by
  simp [Value.text]

/-- The text of a value starts with a character that is no blank. -/
theorem exists_cons_text (value : Value)
    : ∃ c tail, value.text.toList = c :: tail ∧ Text.isBlank c = false := by
  cases value with
  | int value =>
      obtain ⟨c, tail, chars, number⟩ := startsNumber_toString value
      exact ⟨c, tail, by rw [Value.text, chars], (apart_of_number number).1⟩
  | bool value =>
      cases value with
      | true => exact ⟨'t', "rue".toList, rfl, by decide⟩
      | false => exact ⟨'f', "alse".toList, rfl, by decide⟩
  | set elements => exact ⟨_, _, text_set elements, by decide⟩
  | map pairs => exact ⟨_, _, text_map pairs, by decide⟩
  | seq elements => exact ⟨_, _, text_seq elements, by decide⟩

theorem exists_cons_texts (value : Value) (others : List Value)
    : ∃ c tail, (joined ", " (Value.texts (value :: others))).toList = c :: tail
        ∧ Text.isBlank c = false := by
  obtain ⟨c, tail, chars, visible⟩ := exists_cons_text value
  cases others with
  | nil => exact ⟨c, tail, chars, visible⟩
  | cons next others =>
      refine ⟨c, tail ++ (", " ++ joined ", " (Value.texts (next :: others))).toList, ?_, visible⟩
      simp [Value.texts, joined, chars]

/-- Before texts of values nothing is skipped. -/
theorem skipBlanks_texts (value : Value) (others : List Value) (rest : List Char)
    : skipBlanks ((joined ", " (Value.texts (value :: others))).toList ++ rest)
      = (joined ", " (Value.texts (value :: others))).toList ++ rest := by
  obtain ⟨c, tail, chars, visible⟩ := exists_cons_texts value others
  rw [chars]
  exact skipBlanks_of_visible visible _

theorem length_lt_of_skipBlanks {c : Char} {input rest : List Char}
    (same : skipBlanks input = c :: rest)
    : rest.length < input.length := by
  have shorter := List.length_dropWhile_le Text.isBlank input
  rw [← skipBlanks, same] at shorter
  exact shorter

mutual

/-- A printed value is read, behind blanks and before what ends it, as its literal; by induction on
the value. The length of the text bounds the depth of its nesting, so that the reader never runs out
of depth.
-/
theorem read_text
    : ∀ value : Value, value.Proper → ∀ (depth : Nat) (input rest : List Char),
        skipBlanks input = value.text.toList ++ rest → EndsValue rest → 2 * input.length < depth
          → read depth input = .ok (value.literal, rest)
  | .int value, proper, depth, input, rest, same, ends, deep => by
      obtain ⟨depth, rfl⟩ := Nat.exists_eq_succ_of_ne_zero (Nat.ne_zero_of_lt deep)
      have number := readInteger_toString proper ends
      obtain ⟨c, tail, chars, digit⟩ := (startsNumber_toString value).append rest
      obtain ⟨_, letter, apart⟩ := apart_of_number digit
      rw [Value.text, chars] at same
      rw [chars] at number
      rw [read, same]
      split
      · rename_i opens
        obtain rfl := (List.cons.inj opens).1
        exact absurd apart (by decide)
      · rename_i opens
        obtain rfl := (List.cons.inj opens).1
        exact absurd apart (by decide)
      · rename_i opens
        obtain rfl := (List.cons.inj opens).1
        exact absurd apart (by decide)
      · rw [if_neg (by simp [Text.startsWith, letter])]
        exact bind_eq_ok_iff.mpr ⟨_, number, rfl⟩
  | .bool value, _, depth, input, rest, same, ends, deep => by
      obtain ⟨depth, rfl⟩ := Nat.exists_eq_succ_of_ne_zero (Nat.ne_zero_of_lt deep)
      have word := readBool_text value ends
      rw [read, same]
      cases value with
      | true => exact bind_eq_ok_iff.mpr ⟨_, word, rfl⟩
      | false => exact bind_eq_ok_iff.mpr ⟨_, word, rfl⟩
  | .set elements, proper, depth, input, rest, same, _, deep => by
      obtain ⟨depth, rfl⟩ := Nat.exists_eq_succ_of_ne_zero (Nat.ne_zero_of_lt deep)
      rw [text_set, List.cons_append, List.append_assoc, List.singleton_append] at same
      rw [read, same]
      have skipped := skipSeparators_joined (startsNumber_of_mem_map elements)
        (.inl rfl) rest
      refine bind_eq_ok_iff.mpr ⟨_, readElements_joined proper.1 ?_ skipped, rfl⟩
      have shorter := length_le_joined " " (nonempty_of_startsNumber
        (startsNumber_of_mem_map elements))
      rw [List.length_map] at shorter
      rw [List.length_append]
      omega
  | .map pairs, proper, depth, input, rest, same, _, deep => by
      obtain ⟨depth, rfl⟩ := Nat.exists_eq_succ_of_ne_zero (Nat.ne_zero_of_lt deep)
      rw [text_map, List.cons_append, List.append_assoc, List.singleton_append] at same
      rw [read, same]
      have skipped := skipSeparators_joined (startsNumber_of_mem_pairs pairs)
        (.inr rfl) rest
      refine bind_eq_ok_iff.mpr ⟨_, readPairs_joined proper.1 ?_ skipped, rfl⟩
      have shorter := length_le_joined " " (nonempty_of_startsNumber
        (startsNumber_of_mem_pairs pairs))
      rw [List.length_map] at shorter
      rw [List.length_append]
      omega
  | .seq elements, proper, depth, input, rest, same, _, deep => by
      obtain ⟨depth, rfl⟩ := Nat.exists_eq_succ_of_ne_zero (Nat.ne_zero_of_lt deep)
      rw [text_seq, List.cons_append, List.append_assoc, List.singleton_append] at same
      rw [read, same]
      have shorter := length_lt_of_skipBlanks same
      refine bind_eq_ok_iff.mpr
        ⟨_, readFields_texts elements proper.1 proper.2 depth _ rest ?_ (by omega), rfl⟩
      obtain ⟨first, others, rfl⟩ := List.exists_cons_of_ne_nil proper.1
      exact skipBlanks_texts first others _

/-- Printed fields are read up to their parenthesis, by induction on them. Each is read as a value
before a comma or the parenthesis.
-/
theorem readFields_texts
    : ∀ values : List Value, values ≠ [] → Value.AllProper values
        → ∀ (depth : Nat) (input rest : List Char),
          skipBlanks input = (joined ", " (Value.texts values)).toList ++ ')' :: rest
            → 2 * input.length + 1 < depth
            → readFields depth input = .ok (Value.literals values, rest)
  | [], nonempty, _, _, _, _, _, _ => absurd rfl nonempty
  | [value], _, proper, depth, input, rest, same, deep => by
      obtain ⟨depth, rfl⟩ := Nat.exists_eq_succ_of_ne_zero (Nat.ne_zero_of_lt deep)
      have one := read_text value proper.1 depth input (')' :: rest) same
        (endsValue_cons (by decide) rest) (by omega)
      rw [readFields]
      exact bind_eq_ok_iff.mpr ⟨_, one, rfl⟩
  | value :: next :: others, _, proper, depth, input, rest, same, deep => by
      obtain ⟨depth, rfl⟩ := Nat.exists_eq_succ_of_ne_zero (Nat.ne_zero_of_lt deep)
      have whole
          : skipBlanks input
            = value.text.toList ++ ',' :: ' '
              :: ((joined ", " (Value.texts (next :: others))).toList ++ ')' :: rest) := by
        rw [same]
        simp [Value.texts, joined]
      have one := read_text value proper.1 depth input _ whole (endsValue_cons (by decide) _)
        (by omega)
      have shorter : (skipBlanks input).length ≤ input.length := List.length_dropWhile_le _ _
      rw [whole, List.length_append, List.length_cons, List.length_cons] at shorter
      have others := readFields_texts (next :: others) (List.cons_ne_nil _ _) proper.2 depth
        (' ' :: ((joined ", " (Value.texts (next :: others))).toList ++ ')' :: rest)) rest
        ((List.dropWhile_cons_of_pos (by decide)).trans (skipBlanks_texts next others _))
        (by rw [List.length_cons]; omega)
      rw [readFields]
      exact bind_eq_ok_iff.mpr ⟨_, one, bind_eq_ok_iff.mpr ⟨_, others, rfl⟩⟩

end

/-- The text of a value is the literal that is written for it, and nothing else: behind the value
the text is empty.
-/
theorem ofText_text {value : Value} (proper : value.Proper)
    : ofText value.text.toList = .ok value.literal := by
  obtain ⟨c, tail, chars, visible⟩ := exists_cons_text value
  have start : skipBlanks value.text.toList = value.text.toList ++ [] := by
    rw [List.append_nil, chars]
    exact skipBlanks_of_visible visible tail
  have read := read_text value proper (2 * value.text.toList.length + 2) _ [] start endsValue_nil
    (by omega)
  rw [ofText]
  exact bind_eq_ok_iff.mpr ⟨_, read, rfl⟩

end Literal

end Dispatch
