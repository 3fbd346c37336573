import Dispatch.Proofs.Printing.ValueTexts

/-!
The characters of printed values. Between the brackets of a value stand digits, signs, colons,
letters of the truth values and blanks, so the text of a value begins and ends with a character that
is not blank, and a mark that no value has is in no text of a value.
-/

namespace Dispatch

-----------------------------------------------------------------------------------------
-- Characters of written values
-----------------------------------------------------------------------------------------

/-- A character of joined texts is one of the separator or of one of the texts, by induction on
them.
-/
theorem mem_joined {separator : String} {texts : List String} {c : Char}
    (member : c ∈ (joined separator texts).toList)
    : c ∈ separator.toList ∨ ∃ text ∈ texts, c ∈ text.toList := by
  induction texts with
  | nil => cases member
  | cons text rest ih =>
      cases rest with
      | nil => exact .inr ⟨text, List.mem_cons_self, member⟩
      | cons next rest =>
          simp only [joined, String.toList_append, List.mem_append] at member
          rcases member with (first | between) | later
          · exact .inr ⟨text, List.mem_cons_self, first⟩
          · exact .inl between
          · rcases ih later with between | ⟨other, inside, found⟩
            · exact .inl between
            · exact .inr ⟨other, List.mem_cons_of_mem _ inside, found⟩

/-- The text of an integer is made of digits and a minus sign. -/
theorem number_of_mem_toString {value : Int} {c : Char} (member : c ∈ (toString value).toList)
    : c = '-' ∨ c.isDigit = true := by
  cases value with
  | ofNat natural => exact .inr ((digits_toString natural).2.1 c member)
  | negSucc natural =>
      rw [toString_negSucc] at member
      rcases List.mem_cons.mp member with minus | digit
      · exact .inl minus
      · exact .inr ((digits_toString (natural + 1)).2.1 c digit)

namespace Value

theorem texts_eq_map (values : List Value) : texts values = values.map text := by
  induction values with
  | nil => rfl
  | cons element rest ih => rw [texts, ih, List.map_cons]

/-- A character that stands between the brackets of a value, or in one without brackets. -/
def IsInner (c : Char) : Prop := c ∈ "truefals: ".toList ∨ c = '-' ∨ c.isDigit = true

instance (c : Char) : Decidable (IsInner c) :=
  inferInstanceAs (Decidable (c ∈ "truefals: ".toList ∨ c = '-' ∨ c.isDigit = true))

theorem isInner_of_mem_joined {texts : List String}
    (each : ∀ text ∈ texts, ∀ c ∈ text.toList, IsInner c)
    : ∀ c ∈ (joined " " texts).toList, IsInner c := by
  intro c member
  rcases mem_joined member with blank | ⟨text, listed, found⟩
  · obtain rfl : c = ' ' := List.mem_singleton.mp blank
    decide
  · exact each text listed c found

/-- The text of a value that is no sequence has brackets at its ends or none at all, and nothing but
letters, digits, signs, colons and blanks between.
-/
theorem exists_inner_text {value : Value} (flat : value.type ≠ .seq)
    : ∃ inner : List Char, (∀ c ∈ inner, IsInner c)
        ∧ (value.text.toList = inner ∨ value.text.toList = '\x7b' :: (inner ++ ['\x7d'])
          ∨ value.text.toList = '[' :: (inner ++ [']'])) := by
  cases value with
  | int value => exact ⟨_, fun c member => .inr (number_of_mem_toString member), .inl rfl⟩
  | bool value =>
      have letters : (Value.bool value).text.toList.all (decide <| IsInner ·) = true := by
        cases value <;> decide
      exact ⟨_, fun c member => of_decide_eq_true (List.all_eq_true.mp letters c member), .inl rfl⟩
  | set elements =>
      refine ⟨_, isInner_of_mem_joined ?_, .inr (.inl (Literal.text_set elements))⟩
      intro text listed c found
      obtain ⟨element, _, rfl⟩ := List.mem_map.mp listed
      exact .inr (number_of_mem_toString found)
  | map pairs =>
      refine ⟨_, isInner_of_mem_joined ?_, .inr (.inr (Literal.text_map pairs))⟩
      intro text listed c found
      obtain ⟨pair, _, rfl⟩ := List.mem_map.mp listed
      simp only [Literal.pairText, String.toList_append, List.mem_append] at found
      rcases found with (key | colon) | value
      · exact .inr (number_of_mem_toString key)
      · obtain rfl : c = ':' := List.mem_singleton.mp colon
        decide
      · exact .inr (number_of_mem_toString value)
  | seq elements => exact absurd rfl flat

/-- A character that is neither inner nor one of these brackets is not in the text of a value that
is no sequence.
-/
theorem not_mem_text {value : Value} (flat : value.type ≠ .seq) {c : Char}
    (apart : ¬ IsInner c ∧ c ∉ ['\x7b', '\x7d', '[', ']'])
    : c ∉ value.text.toList := by
  intro member
  obtain ⟨inner, each, same⟩ := exists_inner_text flat
  have among : c ∈ inner ∨ c ∈ ['\x7b', '\x7d', '[', ']'] := by
    rcases same with same | same | same <;> rw [same] at member
    · exact .inl member
    all_goals
      simp only [List.mem_cons, List.mem_append, List.not_mem_nil, or_false] at member ⊢
      grind
  rcases among with inside | bracket
  · exact apart.1 (each c inside)
  · exact apart.2 bracket

theorem not_mem_texts {values : List Value} (flat : ∀ value ∈ values, value.type ≠ .seq)
    {c : Char} (apart : (¬ IsInner c ∧ c ∉ ['\x7b', '\x7d', '[', ']']) ∧ c ∉ [',', ' '])
    : c ∉ (joined ", " (texts values)).toList := by
  intro member
  rcases mem_joined member with between | ⟨text, listed, found⟩
  · exact apart.2 between
  · rw [texts_eq_map] at listed
    obtain ⟨value, inside, rfl⟩ := List.mem_map.mp listed
    exact not_mem_text (flat value inside) apart.1 found

/-- The brackets of a value are closed in it. So a comma behind the text is at the depth of the
commas before it.
-/
theorem foldl_depthAfter_text {value : Value} (flat : value.type ≠ .seq) (depth : Int)
    : value.text.toList.foldl Text.depthAfter depth = depth := by
  have level {c : Char} (inner : IsInner c) (depth : Int) : Text.depthAfter depth c = depth := by
    have apart : c ∉ ['(', '[', '\x7b', ')', ']', '\x7d'] := by
      intro member
      simp only [List.mem_cons, List.not_mem_nil, or_false] at member
      rcases member with rfl | rfl | rfl | rfl | rfl | rfl <;> exact absurd inner (by decide)
    simp only [List.mem_cons, List.not_mem_nil, or_false, not_or] at apart
    simp [Text.depthAfter, apart]
  have flatten {inner : List Char} (each : ∀ c ∈ inner, IsInner c) (depth : Int)
      : inner.foldl Text.depthAfter depth = depth := by
    induction inner with
    | nil => rfl
    | cons c inner ih =>
        obtain ⟨first, others⟩ := List.forall_mem_cons.mp each
        rw [List.foldl_cons, level first, ih others]
  obtain ⟨inner, each, same⟩ := exists_inner_text flat
  rcases same with same | same | same <;> rw [same]
  · exact flatten each depth
  all_goals
    rw [List.foldl_cons, List.foldl_append, flatten each]
    simp [Text.depthAfter]

/-- The text of a value neither begins nor ends with a blank. -/
theorem trimmed_text (value : Value) : Text.Trimmed value.text.toList := by
  cases value with
  | int value =>
      exact Text.trimmed_of_visible fun c member =>
        (apart_of_number (number_of_mem_toString member)).1
  | bool value =>
      have letters : (Value.bool value).text.toList.all (!Text.isBlank ·) = true := by
        cases value <;> decide
      exact Text.trimmed_of_visible fun c member => by
        simpa using List.all_eq_true.mp letters c member
  | set elements =>
      rw [Literal.text_set]
      exact Text.trimmed_between (by decide) _
  | map pairs =>
      rw [Literal.text_map]
      exact Text.trimmed_between (by decide) _
  | seq elements =>
      rw [Literal.text_seq]
      exact Text.trimmed_between (by decide) _

/-- Texts of values with commas between them are trimmed, by induction on the values. The blank
behind a comma is always before another value.
-/
theorem trimmed_texts (values : List Value)
    : Text.Trimmed (joined ", " (texts values)).toList := by
  induction values with
  | nil => exact ⟨nofun, nofun⟩
  | cons value others ih =>
      cases others with
      | nil => exact trimmed_text value
      | cons next others =>
          obtain ⟨c, tail, chars, visible⟩ := Literal.exists_cons_texts value (next :: others)
          obtain ⟨d, more, nextChars, _⟩ := Literal.exists_cons_texts next others
          refine ⟨fun one member => ?_, fun one member => ih.last one ?_⟩
          · rw [chars] at member
            obtain rfl := Option.some.inj member
            exact visible
          · have whole : (joined ", " (texts (value :: next :: others))).toList
                = value.text.toList ++ [',', ' ']
                  ++ (joined ", " (texts (next :: others))).toList := by
              simp [texts, joined]
            have nonempty : (joined ", " (texts (next :: others))).toList ≠ [] := by
              rw [nextChars]
              exact List.cons_ne_nil _ _
            rwa [whole, List.getLast?_append_of_ne_nil _ nonempty] at member

end Value

end Dispatch
