import Dispatch.Proofs.Reading.Phrases

/-!
Reading whole phrases. For each kind of phrase it is stated that the reader takes all lexemes of the
tokens as an expression, wherever something stands after them that may follow; and there is one rule
for each way to put phrases together.
-/

namespace Dispatch

namespace Expr

-----------------------------------------------------------------------------------------
-- Kinds of phrases
-----------------------------------------------------------------------------------------

section

variable (context : LineContext) (tokens : List Token) (expr : Expr)

/-- The reader takes the tokens as a primary expression. -/
def ReadsPrimary : Prop :=
  ∀ front : List Lexeme, front.map (·.token) = tokens → ∀ rest, Follows 8 rest
    → takePrimary context (front ++ rest) = .ok (expr, rest)

/-- The reader takes the tokens as an operand before a chain of `@`. -/
def ReadsIndexed : Prop :=
  ∀ front : List Lexeme, front.map (·.token) = tokens → ∀ rest, Follows 8 rest
    → takeOperand context (front ++ rest) = takeIndexings context expr rest

/-- The reader takes the tokens as one operand with signs and negations. -/
def ReadsOperand : Prop :=
  ∀ front : List Lexeme, front.map (·.token) = tokens → ∀ rest, Follows 7 rest
    → takeOperand context (front ++ rest) = .ok (expr, rest)

/-- The reader takes the tokens as the left operand of what comes next, when it begins at the level
`entry` or a looser one and what comes next may follow a phrase of the level.
-/
def ReadsLevel (level entry : Nat) : Prop :=
  ∀ front : List Lexeme, front.map (·.token) = tokens → ∀ start rest, start ≤ entry
    → Follows level rest
    → takeLevel context start (front ++ rest) = takeOperators context start expr rest

/-- The reader takes the tokens as a whole expression before a comma, a closing parenthesis or the
end.
-/
def ReadsWhole : Prop :=
  ∀ front : List Lexeme, front.map (·.token) = tokens → ∀ rest, Follows 0 rest
    → takeLevel context 0 (front ++ rest) = .ok (expr, rest)

/-- The reader takes the tokens as expressions separated by commas, before a closing parenthesis. -/
def ReadsElements (elements : List Expr) : Prop :=
  ∀ front : List Lexeme, front.map (·.token) = tokens → ∀ close rest,
    takeElements context (front ++ ⟨.symbol .closeParen, close⟩ :: rest)
      = .ok (elements, ⟨.symbol .closeParen, close⟩ :: rest)

/-- The reader takes the tokens as the index after a name, which they end. -/
def ReadsIndex : Prop :=
  ∀ front : List Lexeme, front.map (·.token) = tokens → ∀ rest,
    takeIndex context (front ++ rest) = .ok (expr, rest) ∧ EndsName context.scope (front ++ rest)

end

variable {context : LineContext} {tokens others : List Token} {expr other : Expr} {name : String}

/-- Lexemes of tokens in parentheses are those of the tokens between two others. -/
theorem enclosed_of_map {front : List Lexeme}
    (same : front.map (·.token) = .symbol .openParen :: tokens ++ [.symbol .closeParen])
    : ∃ left inner right,
        front = ⟨.symbol .openParen, left⟩ :: (inner ++ [⟨.symbol .closeParen, right⟩])
        ∧ inner.map (·.token) = tokens := by
  rw [List.cons_append] at same
  obtain ⟨⟨_, left⟩, tail, rfl, rfl, inside⟩ := List.map_eq_cons_iff.mp same
  obtain ⟨inner, last, rfl, rfl, closing⟩ := List.map_eq_append_iff.mp inside
  obtain ⟨⟨_, right⟩, rfl, rfl⟩ := List.map_eq_singleton_iff.mp closing
  exact ⟨left, inner, right, rfl, rfl⟩

-----------------------------------------------------------------------------------------
-- Primary expressions
-----------------------------------------------------------------------------------------

namespace ReadsPrimary

theorem int (value : Nat) : ReadsPrimary context [.integer value] (.int value) := by
  intro front same rest _
  obtain ⟨⟨_, span⟩, rfl, rfl⟩ := List.map_eq_singleton_iff.mp same
  exact takePrimary_int value

theorem truth : ReadsPrimary context [.keyword .truth] (.bool true) := by
  intro front same rest _
  obtain ⟨⟨_, span⟩, rfl, rfl⟩ := List.map_eq_singleton_iff.mp same
  exact takePrimary_true

theorem falsity : ReadsPrimary context [.keyword .falsity] (.bool false) := by
  intro front same rest _
  obtain ⟨⟨_, span⟩, rfl, rfl⟩ := List.map_eq_singleton_iff.mp same
  exact takePrimary_false

theorem param {word : String} {slot : Nat} {kind : SlotKind}
    (bound : context.scope.lookup? word = some (slot, kind))
    : ReadsPrimary context [.word word] (.param slot word) := by
  intro front same rest _
  obtain ⟨⟨_, span⟩, rfl, rfl⟩ := List.map_eq_singleton_iff.mp same
  exact takePrimary_param bound

theorem entityType {entity : Nat} (named : IsName context.scope tokens name)
    (declared : context.vocabulary.entity? name = some entity)
    : ReadsPrimary context (.keyword .entity :: tokens) (.entityType entity name) := by
  intro front same rest follows
  obtain ⟨⟨_, span⟩, words, rfl, rfl, rfl⟩ := List.map_eq_cons_iff.mp same
  exact takePrimary_entity named declared (follows.endsName _)

/-- A name, `exists` and a primary phrase are read as the test of an id. Only one primary is taken,
so that an operator behind it goes to the test.
-/
theorem isLive {entity : Nat} (named : IsName context.scope tokens name)
    (declared : context.vocabulary.entity? name = some entity)
    (id : ReadsPrimary context others expr)
    : ReadsPrimary context (tokens ++ .keyword .existence :: others)
        (.isLive entity name expr) := by
  intro front same rest follows
  obtain ⟨words, tail, rfl, rfl, more⟩ := List.map_eq_append_iff.mp same
  obtain ⟨⟨_, span⟩, ids, rfl, rfl, idTokens⟩ := List.map_eq_cons_iff.mp more
  rw [List.append_assoc, List.cons_append]
  exact takePrimary_exists named declared (id ids idTokens rest follows)

/-- A name without an index is read at index 0, whatever may follow the phrase. -/
theorem read {place : Place} (named : IsName context.scope tokens name)
    (declared : context.vocabulary.place? name = some place)
    : ReadsPrimary context tokens (.read place name (.int 0)) := by
  rintro front rfl rest follows
  exact takePrimary_place named declared (follows.endsName _) follows.not_index

/-- A name with an index behind it is read at this index. -/
theorem readAt {place : Place} (named : IsName context.scope tokens name)
    (declared : context.vocabulary.place? name = some place)
    (index : ReadsIndex context others expr)
    : ReadsPrimary context (tokens ++ others) (.read place name expr) := by
  intro front same rest _
  obtain ⟨words, indices, rfl, rfl, indexTokens⟩ := List.map_eq_append_iff.mp same
  obtain ⟨read, ends⟩ := index indices indexTokens rest
  rw [List.append_assoc]
  exact takePrimary_place named declared ends read

/-- A whole phrase in parentheses is read as itself. -/
theorem group (whole : ReadsWhole context tokens expr)
    : ReadsPrimary context (.symbol .openParen :: tokens ++ [.symbol .closeParen]) expr := by
  intro front same rest _
  obtain ⟨left, inner, right, rfl, innerTokens⟩ := enclosed_of_map same
  rw [List.cons_append, List.append_assoc]
  exact takePrimary_group (whole inner innerTokens _ .close)

/-- A whole phrase and others behind commas, in parentheses, are read as a list. -/
theorem tuple {elements : List Expr} (first : ReadsWhole context tokens expr)
    (more : ReadsElements context others elements)
    : ReadsPrimary context
        (.symbol .openParen :: (tokens ++ .symbol .comma :: others) ++ [.symbol .closeParen])
        (.tuple (expr :: elements)) := by
  intro front same rest _
  obtain ⟨left, inner, right, rfl, innerTokens⟩ := enclosed_of_map same
  obtain ⟨firsts, tail, rfl, firstTokens, following⟩ := List.map_eq_append_iff.mp innerTokens
  obtain ⟨⟨_, comma⟩, seconds, rfl, rfl, moreTokens⟩ := List.map_eq_cons_iff.mp following
  rw [List.cons_append, List.append_assoc, List.append_assoc]
  exact takePrimary_tuple (first firsts firstTokens _ .comma) (more seconds moreTokens right rest)

end ReadsPrimary

namespace ReadsElements

theorem single (last : ReadsWhole context tokens expr)
    : ReadsElements context tokens [expr] :=
  fun front same _ _ => takeElements_last (last front same _ .close) rfl

/-- A whole phrase before a comma goes in front of the others. -/
theorem cons {elements : List Expr} (first : ReadsWhole context tokens expr)
    (more : ReadsElements context others elements)
    : ReadsElements context (tokens ++ .symbol .comma :: others) (expr :: elements) := by
  intro front same close rest
  obtain ⟨firsts, tail, rfl, firstTokens, following⟩ := List.map_eq_append_iff.mp same
  obtain ⟨⟨_, comma⟩, seconds, rfl, rfl, moreTokens⟩ := List.map_eq_cons_iff.mp following
  rw [List.append_assoc]
  exact takeElements_more (first firsts firstTokens _ .comma) (more seconds moreTokens close rest)

end ReadsElements

namespace ReadsIndex

theorem int (value : Nat) : ReadsIndex context [.integer value] (.int value) := by
  intro front same rest
  obtain ⟨⟨_, span⟩, rfl, rfl⟩ := List.map_eq_singleton_iff.mp same
  exact ⟨takeIndex_int value, nofun, rfl⟩

theorem param {word : String} {slot : Nat} {kind : SlotKind}
    (bound : context.scope.lookup? word = some (slot, kind))
    : ReadsIndex context [.word word] (.param slot word) := by
  intro front same rest
  obtain ⟨⟨_, span⟩, rfl, rfl⟩ := List.map_eq_singleton_iff.mp same
  refine ⟨takeIndex_param bound, ?_, rfl⟩
  intro found other tail begins
  obtain ⟨⟨rfl, _⟩, _⟩ : (_ ∧ _) ∧ _ := by simpa using begins
  simp [Scope.contains, bound]

theorem group (whole : ReadsWhole context tokens expr)
    : ReadsIndex context (.symbol .openParen :: tokens ++ [.symbol .closeParen]) expr := by
  intro front same rest
  obtain ⟨left, inner, right, rfl, innerTokens⟩ := enclosed_of_map same
  rw [List.cons_append, List.append_assoc]
  exact ⟨takeIndex_group (whole inner innerTokens _ .close), nofun, rfl⟩

end ReadsIndex

-----------------------------------------------------------------------------------------
-- Operands
-----------------------------------------------------------------------------------------

namespace ReadsIndexed

theorem of_primary (reads : ReadsPrimary context tokens expr)
    : ReadsIndexed context tokens expr :=
  fun front same rest follows => takeOperand_of_primary (reads front same rest follows)

/-- A phrase that may be indexed, `@` and a primary phrase are such a phrase again, so that several
indices are taken from the left.
-/
theorem chain (base : ReadsIndexed context tokens expr) (index : ReadsPrimary context others other)
    : ReadsIndexed context (tokens ++ .symbol .atSign :: others)
        (.binary .index expr other) := by
  intro front same rest follows
  obtain ⟨lefts, tail, rfl, leftTokens, more⟩ := List.map_eq_append_iff.mp same
  obtain ⟨⟨_, span⟩, rights, rfl, rfl, rightTokens⟩ := List.map_eq_cons_iff.mp more
  rw [List.append_assoc, List.cons_append,
    base lefts leftTokens _ (.of_token (.operator .index (Nat.le_refl _)))]
  exact takeIndexings_of_primary (index rights rightTokens rest follows)

end ReadsIndexed

namespace ReadsOperand

theorem of_indexed (reads : ReadsIndexed context tokens expr)
    : ReadsOperand context tokens expr := by
  intro front same rest follows
  rw [reads front same rest (follows.mono (by decide))]
  exact takeIndexings_of_end (follows.no_atSign (by decide))

theorem minus (reads : ReadsOperand context tokens expr)
    : ReadsOperand context (.symbol .minus :: tokens) (.neg expr) := by
  intro front same rest follows
  obtain ⟨⟨_, span⟩, tail, rfl, rfl, tailTokens⟩ := List.map_eq_cons_iff.mp same
  exact takeOperand_minus (reads tail tailTokens rest follows)

theorem plus (reads : ReadsOperand context tokens expr)
    : ReadsOperand context (.symbol .plus :: tokens) expr := by
  intro front same rest follows
  obtain ⟨⟨_, span⟩, tail, rfl, rfl, tailTokens⟩ := List.map_eq_cons_iff.mp same
  exact takeOperand_plus (reads tail tailTokens rest follows)

end ReadsOperand

-----------------------------------------------------------------------------------------
-- Operators between operands
-----------------------------------------------------------------------------------------

namespace ReadsLevel

variable {level entry : Nat}

theorem of_operand (reads : ReadsOperand context tokens expr) (low : level ≤ 7) (entry : Nat)
    : ReadsLevel context tokens expr level entry :=
  fun front same _ rest _ follows =>
    takeLevel_of_operand (reads front same rest (follows.mono low))

/-- A phrase is read as well where less may follow it, and where the reader begins at a looser
level.
-/
theorem mono {wider earlier : Nat} (reads : ReadsLevel context tokens expr level entry)
    (wide : wider ≤ level) (early : earlier ≤ entry)
    : ReadsLevel context tokens expr wider earlier :=
  fun front same start rest low follows =>
    reads front same start rest (Nat.le_trans low early) (follows.mono wide)

/-- A phrase is read as a whole before a comma, a closing parenthesis or the end. -/
theorem whole (reads : ReadsLevel context tokens expr level entry)
    : ReadsWhole context tokens expr := by
  intro front same rest follows
  rw [reads front same 0 rest (Nat.zero_le _) (follows.mono (Nat.zero_le _))]
  refine takeOperators_of_loose fun op tail next => ?_
  rw [follows.no_operator] at next
  cases next

/-- A phrase is complete where all that follows is looser than the level at which the reader began.
-/
theorem complete (reads : ReadsLevel context tokens expr level entry) {front : List Lexeme}
    (same : front.map (·.token) = tokens) {start : Nat} (low : start ≤ entry)
    (above : level < start) {rest : List Lexeme} (follows : Follows level rest)
    : takeLevel context start (front ++ rest) = .ok (expr, rest) := by
  rw [reads front same start rest low follows]
  exact takeOperators_of_loose (follows.loose above)

/-- The operand of `not` is a phrase that is read at the level of comparisons, so that a comparison
behind `not` is negated as a whole.
-/
theorem not {bound : Nat} (reads : ReadsLevel context tokens expr bound comparisonLevel)
    (below : bound < comparisonLevel)
    : ReadsLevel context (.keyword .negation :: tokens) (.not expr) bound entry := by
  intro front same start rest _ follows
  obtain ⟨⟨_, span⟩, tail, rfl, rfl, tailTokens⟩ := List.map_eq_cons_iff.mp same
  exact takeLevel_of_operand
    (takeOperand_not (reads.complete tailTokens (Nat.le_refl _) below follows))

/-- A chain goes on with an operator of its level and a tighter phrase. The reader stops at the
operator, finds it tight enough, and reads the phrase one level tighter.
-/
theorem chain {bound : Nat} {op : BinaryOp} {token : Token}
    (first : ReadsLevel context tokens expr bound bound) (spells : Spells token op)
    (level_eq : op.level = bound) (below : bound < 8)
    (next : ReadsLevel context others other level entry) (tight : bound ≤ level)
    (above : bound < entry)
    : ReadsLevel context (tokens ++ token :: others) (.binary op expr other) bound bound := by
  subst level_eq
  intro front same start rest low follows
  obtain ⟨lefts, tail, rfl, leftTokens, more⟩ := List.map_eq_append_iff.mp same
  obtain ⟨lexeme, rights, rfl, rfl, rightTokens⟩ := List.map_eq_cons_iff.mp more
  have binary : op ≠ .index := by
    rintro rfl
    exact absurd below (by decide)
  have rightRead : takeLevel context (op.level + 1) (rights ++ rest) = .ok (other, rest) :=
    (next.mono tight above).complete rightTokens (Nat.le_refl _) (Nat.lt_succ_self _) follows
  have found : nextOperator? (lexeme :: (rights ++ rest)) = some (op, rights ++ rest) := by
    rw [nextOperator?, ofToken?_of_spells spells binary, Option.map_some]
  rw [List.append_assoc, List.cons_append,
    first lefts leftTokens start _ low (.of_token (.operator spells (Nat.le_refl _)))]
  exact takeOperators_of_right found low rightRead

end ReadsLevel

end Expr

end Dispatch
