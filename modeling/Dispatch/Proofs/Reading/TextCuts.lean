import Mathlib.Data.List.Basic
import Mathlib.Data.List.TakeWhile
import Dispatch.Text.Cut

/-!
What the cuts of a text leave: the parts and the characters between them are the text again, and no
part holds a character at which it would have been cut.
-/

namespace Dispatch.Text

-----------------------------------------------------------------------------------------
-- Cuts in two
-----------------------------------------------------------------------------------------

theorem cutAtFirst?_eq_some_iff {mark : Char} {text before after : List Char}
    : cutAtFirst? mark text = some (before, after)
      ↔ text = before ++ mark :: after ∧ mark ∉ before := by
  constructor
  · intro cut
    unfold cutAtFirst? at cut
    split at cut
    · cases cut
    · rename_i found rest stopped
      obtain ⟨rfl, rfl⟩ := Prod.mk.inj (Option.some.inj cut)
      have same := List.takeWhile_append_dropWhile (p := (· ≠ mark)) (l := text)
      have first : found = mark := by
        have head := List.head?_dropWhile_not (· ≠ mark) text
        rw [stopped] at head
        simpa using head
      rw [stopped, first] at same
      refine ⟨same.symm, fun member => ?_⟩
      simpa using List.mem_takeWhile_imp member
  · rintro ⟨rfl, apart⟩
    have differ : ∀ c ∈ before, decide (c ≠ mark) = true := by
      intro c member
      exact decide_eq_true (ne_of_mem_of_not_mem member apart)
    rw [cutAtFirst?, List.dropWhile_append_of_pos differ, List.takeWhile_append_of_pos differ]
    simp

/-- The text is cut at its last character that satisfies the test. -/
theorem eq_of_cutAtLast? {test : Char → Bool} {text before after : List Char}
    (cut : cutAtLast? test text = some (before, after))
    : ∃ mark, test mark = true ∧ text = before ++ mark :: after
        ∧ ∀ c ∈ after, test c = false := by
  unfold cutAtLast? at cut
  split at cut
  · cases cut
  · rename_i mark rest stopped
    obtain ⟨rfl, rfl⟩ := Prod.mk.inj (Option.some.inj cut)
    have same := List.takeWhile_append_dropWhile (p := (!test ·)) (l := text.reverse)
    have head := List.head?_dropWhile_not (!test ·) text.reverse
    rw [stopped] at head
    rw [stopped] at same
    refine ⟨mark, by simpa using head, ?_, ?_⟩
    · have whole := congrArg List.reverse same
      simpa using whole.symm
    · intro c member
      simpa using List.mem_takeWhile_imp (List.mem_reverse.mp member)

theorem cutAtLast?_append {test : Char → Bool} {mark : Char} (marks : test mark = true)
    {after : List Char} (uncut : ∀ c ∈ after, test c = false) (before : List Char)
    : cutAtLast? test (before ++ mark :: after) = some (before, after) := by
  have passed : ∀ c ∈ after.reverse, (!test c) = true := fun c member => by
    simp [uncut c (List.mem_reverse.mp member)]
  unfold cutAtLast?
  rw [List.reverse_append, List.reverse_cons, List.append_assoc, List.singleton_append,
    List.dropWhile_append_of_pos passed, List.takeWhile_append_of_pos passed]
  simp [marks]

theorem afterStart?_eq_some_iff {word text rest : List Char}
    : afterStart? word text = some rest ↔ text = word ++ rest := by
  induction word generalizing text with
  | nil => simp [afterStart?, eq_comm]
  | cons w word ih =>
      cases text with
      | nil => simp [afterStart?]
      | cons c text =>
          rw [afterStart?]
          by_cases same : w = c
          · simp [same, ih]
          · simp [same, Ne.symm same]

theorem beforeEnd?_eq_some_iff {mark : Char} {text before : List Char}
    : beforeEnd? mark text = some before ↔ text = before ++ [mark] := by
  unfold beforeEnd?
  constructor
  · intro cut
    split at cut
    · rename_i last
      obtain rfl := Option.some.inj cut
      exact (List.dropLast_append_getLast? mark (Option.mem_def.mpr last)).symm
    · cases cut
  · rintro rfl
    simp

/-- Texts that start with runs of the same characters start with the same run, as do lists. -/
theorem eq_of_runs {α : Type} {test : α → Bool} {one other left right : List α}
    (oneRuns : ∀ c ∈ one, test c = true) (otherRuns : ∀ c ∈ other, test c = true)
    (leftStops : ∀ c ∈ left.head?, test c = false) (rightStops : ∀ c ∈ right.head?, test c = false)
    (same : one ++ left = other ++ right)
    : one = other ∧ left = right := by
  have stopped {rest : List α} (stops : ∀ c ∈ rest.head?, test c = false)
      : rest.takeWhile test = [] := by
    cases rest with
    | nil => rfl
    | cons c rest => exact List.takeWhile_cons_of_neg (by simp [stops c rfl])
  have runs := congrArg (List.takeWhile test) same
  rw [List.takeWhile_append_of_pos oneRuns, List.takeWhile_append_of_pos otherRuns,
    stopped leftStops, stopped rightStops, List.append_nil, List.append_nil] at runs
  subst runs
  exact ⟨rfl, List.append_cancel_left same⟩

-----------------------------------------------------------------------------------------
-- Blank ends
-----------------------------------------------------------------------------------------

theorem trimStart_sublist (text : List Char) : (trimStart text).Sublist text :=
  List.dropWhile_sublist _

theorem trimEnd_sublist (text : List Char) : (trimEnd text).Sublist text := by
  have shorter := (List.dropWhile_sublist (p := isBlank) (l := text.reverse)).reverse
  rwa [List.reverse_reverse] at shorter

theorem trim_subset (text : List Char) : trim text ⊆ text :=
  ((trimEnd_sublist _).trans (trimStart_sublist text)).subset

/-- A text that is trimmed stands between the blanks at its ends. -/
theorem exists_blank_trimEnd (text : List Char)
    : ∃ blanks, text = trimEnd text ++ blanks ∧ ∀ c ∈ blanks, isBlank c = true := by
  refine ⟨(text.reverse.takeWhile isBlank).reverse, ?_, ?_⟩
  · rw [trimEnd, dropEndWhile, ← List.reverse_append, List.takeWhile_append_dropWhile,
      List.reverse_reverse]
  · intro c member
    exact List.mem_takeWhile_imp (List.mem_reverse.mp member)

theorem exists_blank_trim (text : List Char)
    : ∃ blanks, text = text.takeWhile isBlank ++ trim text ++ blanks
        ∧ ∀ c ∈ blanks, isBlank c = true := by
  obtain ⟨blanks, same, blank⟩ := exists_blank_trimEnd (trimStart text)
  refine ⟨blanks, ?_, blank⟩
  rw [List.append_assoc, trim, ← same, trimStart, List.takeWhile_append_dropWhile]

theorem trimEnd_append {text : List Char} (front : List Char) (nonempty : trimEnd text ≠ [])
    : trimEnd (front ++ trimEnd text) = front ++ trimEnd text := by
  obtain ⟨last, others, same⟩ := List.exists_cons_of_ne_nil
    (show text.reverse.dropWhile isBlank ≠ [] by simpa [trimEnd, dropEndWhile] using nonempty)
  have visible : isBlank last = false := by
    have head := List.head?_dropWhile_not isBlank text.reverse
    rw [same] at head
    simpa using head
  rw [trimEnd, trimEnd, dropEndWhile, dropEndWhile, same]
  simp [visible]

/-- A text whose outer characters are no blanks. -/
structure Trimmed (text : List Char) : Prop where
  first : ∀ c ∈ text.head?, isBlank c = false
  last : ∀ c ∈ text.getLast?, isBlank c = false

theorem trimmed_of_visible {text : List Char} (visible : ∀ c ∈ text, isBlank c = false)
    : Trimmed text :=
  ⟨fun c member => visible c (List.mem_of_head? member),
    fun c member => visible c (List.mem_of_getLast? member)⟩

theorem trimmed_between {first last : Char} (visible : isBlank first = false ∧ isBlank last = false)
    (inner : List Char)
    : Trimmed (first :: (inner ++ [last])) := by
  refine ⟨fun c member => ?_, fun c member => ?_⟩
  · obtain rfl := Option.some.inj member
    exact visible.1
  · rw [← List.cons_append, List.getLast?_append, List.getLast?_singleton] at member
    obtain rfl := Option.some.inj member
    exact visible.2

theorem trimStart_eq {text : List Char} (first : ∀ c ∈ text.head?, isBlank c = false)
    : trimStart text = text := by
  cases text with
  | nil => rfl
  | cons c rest => rw [trimStart, List.dropWhile_cons_of_neg (by simp [first c rfl])]

theorem trimEnd_eq {text : List Char} (last : ∀ c ∈ text.getLast?, isBlank c = false)
    : trimEnd text = text := by
  have first : ∀ c ∈ text.reverse.head?, isBlank c = false := by
    rw [List.head?_reverse]
    exact last
  rw [trimEnd, dropEndWhile, ← trimStart, trimStart_eq first, List.reverse_reverse]

/-- Blanks at the end are cut off. -/
theorem trimEnd_append_blanks {text blanks : List Char}
    (last : ∀ c ∈ text.getLast?, isBlank c = false) (blank : ∀ c ∈ blanks, isBlank c = true)
    : trimEnd (text ++ blanks) = text := by
  have skipped : ∀ c ∈ blanks.reverse, isBlank c = true := fun c member =>
    blank c (List.mem_reverse.mp member)
  have kept := trimEnd_eq last
  rw [trimEnd, dropEndWhile] at kept ⊢
  rw [List.reverse_append, List.dropWhile_append_of_pos skipped, kept]

theorem Trimmed.trim_eq {text : List Char} (trimmed : Trimmed text) : trim text = text := by
  rw [trim, trimStart_eq trimmed.first, trimEnd_eq trimmed.last]

/-- A blank at either end is cut off. -/
theorem trim_cons_blank {c : Char} (blank : isBlank c = true) (text : List Char)
    : trim (c :: text) = trim text := by
  rw [trim, trimStart, List.dropWhile_cons_of_pos blank, trim, trimStart]

theorem trim_append_blank {c : Char} (blank : isBlank c = true) (text : List Char)
    : trim (text ++ [c]) = trim text := by
  have ends (text : List Char) : trimEnd (text ++ [c]) = trimEnd text := by
    rw [trimEnd, trimEnd, dropEndWhile, dropEndWhile, List.reverse_append, List.reverse_singleton,
      List.singleton_append, List.dropWhile_cons_of_pos blank]
  have start : trimStart [c] = [] := List.dropWhile_cons_of_pos blank
  rw [trim, trimStart, List.dropWhile_append, ← trimStart, ← trimStart, start]
  split
  · rename_i empty
    rw [trim, List.isEmpty_iff.mp empty]
  · exact ends _

/-- Texts that are trimmed stand at the ends of one that is. -/
theorem Trimmed.around {left right : List Char} (first : Trimmed left) (leftSome : left ≠ [])
    (middle : List Char) (last : Trimmed right) (rightSome : right ≠ [])
    : Trimmed (left ++ middle ++ right) where
  first c member := by
    rw [List.append_assoc, List.head?_append_of_ne_nil _ leftSome] at member
    exact first.first c member
  last c member := by
    rw [List.getLast?_append_of_ne_nil _ rightSome] at member
    exact last.last c member

/-- A blank after a mark is cut off where nothing stands behind it. -/
theorem trim_marked {front given : List Char} {mark : Char} (some : front ≠ [])
    (first : ∀ c ∈ front.head?, isBlank c = false) (visible : isBlank mark = false)
    (last : ∀ c ∈ given.getLast?, isBlank c = false)
    : trim (front ++ mark :: ' ' :: given)
      = front ++ mark :: (if given = [] then [] else ' ' :: given) := by
  have start (rest : List Char) : ∀ c ∈ (front ++ rest).head?, isBlank c = false := by
    rwa [List.head?_append_of_ne_nil _ some]
  cases given with
  | nil =>
      have blank : isBlank ' ' = true := by decide
      have whole : Trimmed (front ++ [mark]) := by
        refine ⟨start [mark], ?_⟩
        rw [List.getLast?_append_of_ne_nil _ (List.cons_ne_nil _ _)]
        exact fun c member => Option.some.inj member ▸ visible
      have cut := (trim_append_blank blank _).trans whole.trim_eq
      rwa [List.append_assoc] at cut
  | cons next given =>
      refine Trimmed.trim_eq ⟨start _, fun c member => last c ?_⟩
      simpa [List.getLast?_append, List.getLast?_cons_cons] using member

/-- Where a text was trimmed, its outer characters are no blanks. -/
theorem first_trimStart (text : List Char) : ∀ c ∈ (trimStart text).head?, isBlank c = false := by
  intro c member
  have head := List.head?_dropWhile_not isBlank text
  rw [← trimStart, Option.mem_def.mp member] at head
  simpa using head

theorem last_trimEnd (text : List Char) : ∀ c ∈ (trimEnd text).getLast?, isBlank c = false := by
  intro c member
  rw [trimEnd, dropEndWhile, List.getLast?_reverse] at member
  exact first_trimStart text.reverse c member

theorem trimmed_trim (text : List Char) : Trimmed (trim text) := by
  refine ⟨fun c member => ?_, last_trimEnd _⟩
  -- The characters that are cut off at the end stand behind the first one.
  obtain ⟨blanks, same, _⟩ := exists_blank_trimEnd (trimStart text)
  refine first_trimStart text c ?_
  rw [same, List.head?_append, ← trim, Option.mem_def.mp member]
  rfl

-----------------------------------------------------------------------------------------
-- Cuts into many parts
-----------------------------------------------------------------------------------------

/-- A word ends where the text is cut. -/
theorem split_append {test : Char → Bool} {word : List Char} (inside : ∀ c ∈ word, test c = false)
    {mark : Char} (cut : test mark = true) (rest : List Char)
    : split test (word ++ mark :: rest) = word :: split test rest := by
  induction word with
  | nil => simp [split, cut]
  | cons c word ih =>
      obtain ⟨first, others⟩ := List.forall_mem_cons.mp inside
      simp [split, first, ih others, growFirst]

theorem split_word {test : Char → Bool} {word : List Char} (inside : ∀ c ∈ word, test c = false)
    : split test word = [word] := by
  induction word with
  | nil => rfl
  | cons c word ih =>
      obtain ⟨first, others⟩ := List.forall_mem_cons.mp inside
      simp [split, first, ih others, growFirst]

/-- What the parts of a text occupy with a character after each. -/
def occupied : List (List Char) → Nat
  | [] => 0
  | part :: rest => part.length + 1 + occupied rest

theorem occupied_growFirst (c : Char) (parts : List (List Char)) (some : parts ≠ [])
    : occupied (growFirst c parts) = occupied parts + 1 := by
  cases parts with
  | nil => cases some rfl
  | cons part rest =>
      simp only [growFirst, occupied, List.length_cons]
      omega

theorem growFirst_ne_nil (c : Char) (parts : List (List Char)) : growFirst c parts ≠ [] := by
  cases parts <;> simp [growFirst]

theorem subset_of_mem_growFirst {c : Char} {parts : List (List Char)} {text part : List Char}
    (each : ∀ part ∈ parts, part ⊆ text) (member : part ∈ growFirst c parts)
    : part ⊆ c :: text := by
  cases parts with
  | nil =>
      obtain rfl := List.mem_singleton.mp member
      simp
  | cons first rest =>
      rcases List.mem_cons.mp member with rfl | later
      · exact List.cons_subset_cons c (each first List.mem_cons_self)
      · exact List.Subset.trans (each part (List.mem_cons_of_mem _ later))
          (List.subset_cons_self c text)

/-- No part of a text holds a character at which it is cut, by induction on the text. -/
theorem mem_split {test : Char → Bool} {text part : List Char} (member : part ∈ split test text)
    : part ⊆ text ∧ ∀ c ∈ part, test c = false := by
  induction text generalizing part with
  | nil =>
      obtain rfl := List.mem_singleton.mp member
      simp
  | cons c rest ih =>
      rw [split] at member
      split at member
      · rcases List.mem_cons.mp member with rfl | later
        · simp
        · obtain ⟨among, uncut⟩ := ih later
          exact ⟨List.Subset.trans among (List.subset_cons_self c rest), uncut⟩
      · rename_i kept
        refine ⟨subset_of_mem_growFirst (fun part inside => (ih inside).1) member, ?_⟩
        cases parts : split test rest with
        | nil =>
            rw [parts] at member
            obtain rfl := List.mem_singleton.mp member
            simpa using kept
        | cons first others =>
            rw [parts] at member ih
            rcases List.mem_cons.mp member with rfl | later
            · exact List.forall_mem_cons.mpr
                ⟨by simpa using kept, (ih List.mem_cons_self).2⟩
            · exact (ih (List.mem_cons_of_mem _ later)).2

/-- A word of a text has a character, and none of its characters is blank. -/
theorem mem_words {text word : List Char} (member : word ∈ words text)
    : word ≠ [] ∧ word ⊆ text ∧ ∀ c ∈ word, isBlank c = false := by
  obtain ⟨part, nonempty⟩ := List.mem_filter.mp member
  exact ⟨of_decide_eq_true nonempty, mem_split part⟩

theorem words_cons_blank {c : Char} (blank : isBlank c = true) (text : List Char)
    : words (c :: text) = words text := by
  rw [words, split, if_pos blank]
  rfl

/-- A word before a blank or the end of the text is its first. -/
theorem words_append {word rest : List Char} (some : word ≠ [])
    (visible : ∀ c ∈ word, isBlank c = false) (ends : ∀ c ∈ rest.head?, isBlank c = true)
    : words (word ++ rest) = word :: words rest := by
  cases rest with
  | nil =>
      rw [List.append_nil, words, split_word visible]
      simp [some, words, split]
  | cons mark rest =>
      have blank := ends mark rfl
      rw [words_cons_blank blank, words, split_append visible blank]
      simp [some, words]

theorem splitTopLevel_ne_nil (depth : Int) (text : List Char) : splitTopLevel depth text ≠ [] := by
  cases text with
  | nil => simp [splitTopLevel]
  | cons c rest =>
      rw [splitTopLevel]
      split
      · simp
      · exact growFirst_ne_nil c _

/-- The parts between top-level commas occupy the text, by induction on it. -/
theorem occupied_splitTopLevel (depth : Int) (text : List Char)
    : occupied (splitTopLevel depth text) = text.length + 1 := by
  induction text generalizing depth with
  | nil => rfl
  | cons c rest ih =>
      rw [splitTopLevel]
      split
      · rw [occupied, ih, List.length_nil, List.length_cons]
        omega
      · rw [occupied_growFirst c _ (splitTopLevel_ne_nil _ _), ih, List.length_cons]

/-- A word without commas belongs to the first part, by induction on it. -/
theorem splitTopLevel_append {word : List Char} (apart : ',' ∉ word) (depth : Int)
    (rest : List Char)
    : splitTopLevel depth (word ++ rest)
      = word.foldr growFirst (splitTopLevel (word.foldl depthAfter depth) rest) := by
  induction word generalizing depth with
  | nil => rfl
  | cons c word ih =>
      rw [List.mem_cons, not_or] at apart
      have word := ih apart.2 (depthAfter depth c)
      rw [List.cons_append, splitTopLevel, if_neg (by simp [Ne.symm apart.1]), word]
      rfl

theorem foldr_growFirst (word part : List Char) (parts : List (List Char))
    : word.foldr growFirst (part :: parts) = (word ++ part) :: parts := by
  induction word with
  | nil => rfl
  | cons c word ih => rw [List.foldr_cons, ih, growFirst, List.cons_append]

theorem subset_of_mem_splitTopLevel {depth : Int} {text part : List Char}
    (member : part ∈ splitTopLevel depth text)
    : part ⊆ text := by
  induction text generalizing depth part with
  | nil =>
      obtain rfl := List.mem_singleton.mp member
      simp
  | cons c rest ih =>
      rw [splitTopLevel] at member
      split at member
      · rcases List.mem_cons.mp member with rfl | later
        · simp
        · exact List.Subset.trans (ih later) (List.subset_cons_self c rest)
      · exact subset_of_mem_growFirst (fun part inside => ih inside) member

end Dispatch.Text
