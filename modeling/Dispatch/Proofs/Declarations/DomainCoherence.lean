import Dispatch.Domain.Parser
import Dispatch.Proofs.Declarations.StoredNames
import Dispatch.Proofs.Scoping.ActionScopes

/-!
A domain that was read is coherent: its vocabulary describes its declarations, and its actions and
steps are scoped by that vocabulary. Actions and steps are read with the vocabulary of their moment;
sections come in ascending order, so no declaration follows them.
-/

namespace Dispatch

-----------------------------------------------------------------------------------------
-- The order of sections
-----------------------------------------------------------------------------------------

namespace SectionLines

def ranks (sections : List SectionLines) : List Nat := sections.map (·.part.rank)

/-- A further line of a section leaves the ranks of the sections as they are. -/
theorem ranks_grow (line : Line) (sections : List SectionLines)
    : ranks (grow line sections) = ranks sections := by
  cases sections <;> rfl

/-- The sections from an open one on ascend from its rank, by induction on the lines: a section that
is opened has a greater rank than all before it.
-/
theorem ascending_of_splitFrom {last : DomainSection} {isOpen : Bool} {lines : List Line}
    {sections : List SectionLines} (read : splitFrom last isOpen lines = .ok sections)
    : (ranks sections).Pairwise (· < ·) ∧ ∀ rank ∈ ranks sections, last.rank ≤ rank := by
  induction lines generalizing last isOpen sections with
  | nil =>
      obtain rfl := Except.ok.inj read
      simp [ranks]
  | cons line rest ih =>
      unfold splitFrom at read
      split at read
      · split at read
        · cases read
        · rename_i part _ later
          obtain ⟨others, othersRead, done⟩ := bind_eq_ok_iff.mp read
          obtain rfl := Except.ok.inj done
          obtain ⟨ascending, low⟩ := ih othersRead
          have above : ∀ rank ∈ ranks others, last.rank < rank := by
            intro rank member
            have := low rank member
            omega
          refine ⟨List.pairwise_cons.mpr ⟨above, ascending⟩, ?_⟩
          exact List.forall_mem_cons.mpr
            ⟨Nat.le_refl _, fun rank member => Nat.le_of_lt (above rank member)⟩
      · split at read
        · split at read
          · exact ih read
          · cases read
        · split at read
          · obtain ⟨others, othersRead, done⟩ := bind_eq_ok_iff.mp read
            obtain rfl := Except.ok.inj done
            rw [ranks_grow]
            exact ih othersRead
          · cases read

/-- The sections into which a document is split ascend, so that no section comes twice. -/
theorem ascending_of_split {lines : List Line} {sections : List SectionLines}
    (read : split lines = .ok sections)
    : (ranks sections).Pairwise (· < ·) := by
  unfold split at read
  split at read
  · obtain rfl := Except.ok.inj read
    exact .nil
  · split at read
    · exact (ascending_of_splitFrom read).1
    · split at read <;> cases read

-----------------------------------------------------------------------------------------
-- The lines of sections
-----------------------------------------------------------------------------------------

/-- Sections hold lines of the document if they did before and the further line is one of it. -/
theorem grow_subset {source : List Line} {line : Line} {sections : List SectionLines}
    (inside : line ∈ source) (held : ∀ part ∈ sections, part.lines ⊆ source)
    : ∀ part ∈ grow line sections, part.lines ⊆ source := by
  cases sections with
  | nil => simp [grow]
  | cons first rest =>
      obtain ⟨firstHeld, restHeld⟩ := List.forall_mem_cons.mp held
      exact List.forall_mem_cons.mpr ⟨List.cons_subset.mpr ⟨inside, firstHeld⟩, restHeld⟩

/-- Sections hold the lines that they are split from, by induction on the lines. -/
theorem lines_of_splitFrom {source : List Line} {last : DomainSection} {isOpen : Bool}
    {lines : List Line} (among : lines ⊆ source) {sections : List SectionLines}
    (read : splitFrom last isOpen lines = .ok sections)
    : ∀ part ∈ sections, part.lines ⊆ source := by
  induction lines generalizing last isOpen sections with
  | nil =>
      obtain rfl := Except.ok.inj read
      simp
  | cons line rest ih =>
      obtain ⟨inside, restAmong⟩ := List.cons_subset.mp among
      unfold splitFrom at read
      split at read
      · split at read
        · cases read
        · obtain ⟨others, othersRead, done⟩ := bind_eq_ok_iff.mp read
          obtain rfl := Except.ok.inj done
          exact List.forall_mem_cons.mpr ⟨List.nil_subset _, ih restAmong othersRead⟩
      · split at read
        · split at read
          · exact ih restAmong read
          · cases read
        · split at read
          · obtain ⟨others, othersRead, done⟩ := bind_eq_ok_iff.mp read
            obtain rfl := Except.ok.inj done
            exact grow_subset inside (ih restAmong othersRead)
          · cases read

/-- The sections of a document hold none but its lines. -/
theorem lines_of_split {lines : List Line} {sections : List SectionLines}
    (read : split lines = .ok sections)
    : ∀ part ∈ sections, part.lines ⊆ lines := by
  unfold split at read
  split at read
  · obtain rfl := Except.ok.inj read
    simp
  · split at read
    · exact lines_of_splitFrom (List.subset_cons_self _ _) read
    · split at read <;> cases read

end SectionLines

/-- The body of a document is made of its lines, those between its first and its last. -/
theorem Document.lines_of_body {kind : DocumentKind} {lines inner : List Line}
    (read : body kind lines = .ok inner)
    : inner ⊆ lines := by
  unfold body at read
  split at read
  · cases read
  · split at read
    · cases read
    · split at read
      · cases read
      · cases read
      · obtain rfl := Except.ok.inj read
        exact List.Subset.trans (List.dropLast_subset _) (List.subset_cons_self _ _)

/-- What is read within a part of a document is read as it would be alone; the part is named in
errors only.
-/
theorem LoadError.ok_of_inPart {α : Type} {document : DocumentKind} {part : String}
    {result : Except ParseError α} {value : α}
    (read : LoadError.inPart document part result = .ok value)
    : result = .ok value := by
  cases result with
  | ok found => simpa [LoadError.inPart] using read
  | error error => cases read

namespace Domain

-----------------------------------------------------------------------------------------
-- Coherent domains
-----------------------------------------------------------------------------------------

/-- The vocabulary describes the declarations and scopes every action and step. -/
structure Coherent (domain : Domain) : Prop where
  describes : domain.vocabulary.Describes domain.items domain.declarations
  actions : ∀ action ∈ domain.actions, action.WellScoped domain.vocabulary
  environment : ∀ step ∈ domain.environment, step.WellScoped domain.vocabulary
  arrival : ∀ step ∈ domain.arrival, step.WellScoped domain.vocabulary

/-- The domain declares nothing that belongs to a section of the given rank or a later one. -/
structure Blank (rank : Nat) (domain : Domain) : Prop where
  declarations : rank ≤ 1 → domain.items = [] ∧ domain.declarations = []
  actions : rank ≤ 2 → domain.actions = []
  environment : rank ≤ 3 → domain.environment = []
  arrival : rank ≤ 4 → domain.arrival = []

theorem coherent_empty : empty.Coherent :=
  ⟨Vocabulary.describes_empty, by simp [empty], by simp [empty], by simp [empty]⟩

/-- The domain that declares nothing is blank from the first section on. -/
theorem blank_empty (rank : Nat) : empty.Blank rank :=
  ⟨fun _ => ⟨rfl, rfl⟩, fun _ => rfl, fun _ => rfl, fun _ => rfl⟩

/-- Reading a section keeps a domain coherent that is blank from there on, and leaves it blank
behind the section.

A section replaces what the domain has of its kind, so it must find nothing there; this is what
blank says, and what the order of the sections brings about.
-/
theorem Coherent.readSection {domain next : Domain} {part : DomainSection} {lines : List Line}
    (coherent : domain.Coherent) (blank : domain.Blank part.rank)
    (read : domain.readSection part lines = .ok next)
    : next.Coherent ∧ next.Blank (part.rank + 1) := by
  cases part with
  | entities =>
      obtain ⟨vocabulary, entitiesRead, done⟩ := bind_eq_ok_iff.mp read
      obtain rfl := Except.ok.inj done
      have noActions := blank.actions (by decide)
      have noEnvironment := blank.environment (by decide)
      have noArrival := blank.arrival (by decide)
      refine ⟨⟨coherent.describes.readEntities entitiesRead, ?_, ?_, ?_⟩, ?_⟩
      · simp [noActions]
      · simp [noEnvironment]
      · simp [noArrival]
      · exact ⟨fun _ => blank.declarations (by decide), fun _ => noActions,
          fun _ => noEnvironment, fun _ => noArrival⟩
  | declarations =>
      obtain ⟨⟨collected, items⟩, itemsRead, read⟩ := bind_eq_ok_iff.mp read
      obtain ⟨⟨vocabulary, declarations⟩, declarationsRead, done⟩ := bind_eq_ok_iff.mp read
      obtain rfl := Except.ok.inj done
      obtain ⟨noItems, noVariables⟩ := blank.declarations (by decide)
      have noActions := blank.actions (by decide)
      have noEnvironment := blank.environment (by decide)
      have noArrival := blank.arrival (by decide)
      have known := coherent.describes
      rw [noItems, noVariables] at known
      have described := (known.readAllItems itemsRead).readAllVariables declarationsRead
      refine ⟨⟨described, ?_, ?_, ?_⟩, ?_⟩
      · simp [noActions]
      · simp [noEnvironment]
      · simp [noArrival]
      · exact ⟨nofun, fun _ => noActions, fun _ => noEnvironment, fun _ => noArrival⟩
  | actions =>
      obtain ⟨actions, actionsRead, done⟩ := bind_eq_ok_iff.mp read
      obtain rfl := Except.ok.inj done
      have scopedActions := ActionDecl.wellScoped_of_readAll actionsRead
      refine ⟨⟨coherent.describes, scopedActions, coherent.environment, coherent.arrival⟩, ?_⟩
      exact ⟨nofun, nofun, fun _ => blank.environment (by decide),
        fun _ => blank.arrival (by decide)⟩
  | environment =>
      obtain ⟨steps, stepsRead, done⟩ := bind_eq_ok_iff.mp read
      obtain rfl := Except.ok.inj done
      have scopedSteps := StepDecl.wellScoped_of_readAll stepsRead
      refine ⟨⟨coherent.describes, coherent.actions, scopedSteps, coherent.arrival⟩, ?_⟩
      exact ⟨nofun, nofun, nofun, fun _ => blank.arrival (by decide)⟩
  | arrival =>
      obtain ⟨steps, stepsRead, done⟩ := bind_eq_ok_iff.mp read
      obtain rfl := Except.ok.inj done
      have scopedSteps := StepDecl.wellScoped_of_readAll stepsRead
      refine ⟨⟨coherent.describes, coherent.actions, coherent.environment, scopedSteps⟩, ?_⟩
      exact ⟨nofun, nofun, nofun, nofun⟩

theorem Blank.mono {domain : Domain} {rank later : Nat} (blank : domain.Blank rank)
    (behind : rank ≤ later)
    : domain.Blank later where
  declarations early := blank.declarations (Nat.le_trans behind early)
  actions early := blank.actions (Nat.le_trans behind early)
  environment early := blank.environment (Nat.le_trans behind early)
  arrival early := blank.arrival (Nat.le_trans behind early)

/-- What holds of a domain and is kept by each section of the given lines, read with a coherent
domain that is blank from there on, holds of the domain after ascending sections, by induction on
them.
-/
theorem Coherent.holds_of_readSections {source : List Line} (holds : Domain → Prop)
    (kept
      : ∀ {domain next : Domain} {part : DomainSection} {lines : List Line}, lines ⊆ source
          → domain.Coherent → domain.Blank part.rank → holds domain
          → domain.readSection part lines = .ok next → holds next)
    {domain final : Domain} {sections : List SectionLines} {rank : Nat}
    (coherent : domain.Coherent) (blank : domain.Blank rank) (held : holds domain)
    (among : ∀ part ∈ sections, part.lines ⊆ source)
    (ascending : (SectionLines.ranks sections).Pairwise (· < ·))
    (low : ∀ other ∈ SectionLines.ranks sections, rank ≤ other)
    (read : domain.readSections sections = .ok final)
    : holds final := by
  induction sections generalizing domain rank with
  | nil =>
      obtain rfl := Except.ok.inj read
      exact held
  | cons head rest ih =>
      obtain ⟨next, headRead, read⟩ := bind_eq_ok_iff.mp read
      obtain ⟨above, ascending⟩ := List.pairwise_cons.mp ascending
      obtain ⟨headAmong, among⟩ := List.forall_mem_cons.mp among
      have reached := blank.mono (low _ List.mem_cons_self)
      have headRead := LoadError.ok_of_inPart headRead
      obtain ⟨nextCoherent, nextBlank⟩ := coherent.readSection reached headRead
      exact ih nextCoherent nextBlank (kept headAmong coherent reached held headRead) among
        ascending above read

/-- What holds of the empty domain and is kept by each section holds of an accepted domain. Its
sections ascend, so each is read with a domain that is coherent and blank from there on.
-/
theorem holds_of_ofText {source : List Char} (holds : Domain → Prop) (start : holds empty)
    (kept
      : ∀ {domain next : Domain} {part : DomainSection} {lines : List Line},
          lines ⊆ Line.ofSource source → domain.Coherent → domain.Blank part.rank → holds domain
          → domain.readSection part lines = .ok next → holds next)
    {domain : Domain} (read : ofText source = .ok domain)
    : holds domain := by
  obtain ⟨lines, linesRead, read⟩ := bind_eq_ok_iff.mp read
  obtain ⟨sections, sectionsRead, read⟩ := bind_eq_ok_iff.mp read
  have inner := Document.lines_of_body (LoadError.ok_of_inPart linesRead)
  have among (part : SectionLines) (member : part ∈ sections) : part.lines ⊆ Line.ofSource source :=
    List.Subset.trans (SectionLines.lines_of_split sectionsRead part member) inner
  exact coherent_empty.holds_of_readSections holds kept (blank_empty 0) start among
    (SectionLines.ascending_of_split sectionsRead) (fun _ _ => Nat.zero_le _) read

/-- Every accepted domain is coherent: its vocabulary describes its declarations, and its actions
and steps are scoped.
-/
theorem coherent_of_ofText {source : List Char} {domain : Domain}
    (read : ofText source = .ok domain)
    : domain.Coherent :=
  holds_of_ofText Coherent coherent_empty
    (fun _ coherent blank _ sectionRead => (coherent.readSection blank sectionRead).1) read

end Domain

end Dispatch
