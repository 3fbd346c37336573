import Dispatch.Problem.Parser
import Dispatch.Proofs.Declarations.DomainCoherence
import Dispatch.Proofs.Positions.MarkedEffects

/-!
Where the errors of documents point. Declarations, actions, steps and the entries of a problem are
refused inside one of their lines, and the parts of a document are made of its lines; so an error of
loading a document points into one of these.
-/

namespace Dispatch

-----------------------------------------------------------------------------------------
-- Declarations
-----------------------------------------------------------------------------------------

/-- The declaration of an entity type is refused inside its piece of the line, as it is only the
piece that is cut further.
-/
theorem EntityDecl.ofPiece_fails (piece : Line) : FailsOnly piece.Locates (ofPiece piece) := by
  unfold ofPiece
  dsimp only
  split
  case' h_2 =>
    split
    · exact .error (piece.locates_fault _)
  all_goals
    refine .bindPair (.ok _) fun name role _ => ?_
    dsimp only
    split
    · exact .error (piece.locates_fault _)
    · exact .ok _

namespace Vocabulary

/-- The entity types of a line are refused inside one of its pieces, by induction on these. A name
that is taken is reported for the piece that has it.
-/
theorem readEntities_fails (vocabulary : Vocabulary) (pieces : List Line)
    : FailsOnly (LocatedIn pieces) (vocabulary.readEntities pieces) := by
  induction pieces generalizing vocabulary with
  | nil => exact .ok _
  | cons piece rest ih =>
      have later (vocabulary : Vocabulary)
          : FailsOnly (LocatedIn (piece :: rest)) (vocabulary.readEntities rest) :=
        (ih vocabulary).of_subset (List.subset_cons_self _ _)
      unfold readEntities
      split
      · exact later vocabulary
      · refine .bindPair ((EntityDecl.ofPiece_fails piece).of_mem List.mem_cons_self)
          fun name role _ => ?_
        dsimp only
        split
        · exact .error ⟨piece, List.mem_cons_self, piece.locates_fault _⟩
        · exact later _

theorem readFields_fails (vocabulary : Vocabulary) (collection : Nat) (line : Line)
    (fields : List FieldDecl)
    : FailsOnly line.Locates (vocabulary.readFields collection line fields) := by
  induction fields generalizing vocabulary with
  | nil => exact .ok _
  | cons field rest ih =>
      unfold readFields
      dsimp only
      split
      · exact .error (line.locates_fault _)
      · exact ih _

end Vocabulary

/-- The fields of an item are refused inside the line that has them, by induction on their groups.
-/
theorem FieldDecl.ofGroups_fails (line : Line) (constants mutables : Nat)
    (groups : List (Bool × List (List Char)))
    : FailsOnly line.Locates (ofGroups line constants mutables groups) := by
  induction groups generalizing constants mutables with
  | nil => exact .ok _
  | cons group rest ih =>
      unfold ofGroups
      dsimp only
      split
      · exact .error (line.locates_fault _)
      · exact .bind (ih _ _) fun _ _ => .ok _

namespace ItemsDecl

theorem read_fails (vocabulary : Vocabulary) (line : Line) (text : List Char)
    : FailsOnly line.Locates (read vocabulary line text) := by
  unfold read
  dsimp only
  split
  · exact .error (line.locates_fault _)
  · split
    · refine .bind (FieldDecl.ofGroups_fails line 0 0 _) fun fields _ => ?_
      split
      · exact .bind (Vocabulary.readFields_fails _ _ line fields) fun _ _ => .ok _
      · exact .error (line.locates_fault _)
    · exact .error line.marks_span

/-- The item declarations of a section are refused inside one of its lines, by induction on these.
-/
theorem readAll_fails (vocabulary : Vocabulary) (lines : List Line)
    : FailsOnly (LocatedIn lines) (readAll vocabulary lines) := by
  induction lines generalizing vocabulary with
  | nil => exact .ok _
  | cons line rest ih =>
      have later (vocabulary : Vocabulary)
          : FailsOnly (LocatedIn (line :: rest)) (readAll vocabulary rest) :=
        (ih vocabulary).of_subset (List.subset_cons_self _ _)
      unfold readAll
      split
      · exact later vocabulary
      · exact .bind ((read_fails vocabulary line _).of_mem List.mem_cons_self) fun _ _ =>
          .bind (later _) fun _ _ => .ok _

end ItemsDecl

namespace VariableDecl

theorem ownerNamed_fails (vocabulary : Vocabulary) (line : Line) (text : List Char)
    : FailsOnly line.Locates (ownerNamed vocabulary line text) := by
  unfold ownerNamed
  dsimp only
  split
  · split
    · exact .error (line.locates_fault _)
    · exact .ok _
  · exact .error line.marks_span

/-- The declaration of a variable is refused inside its line. Its parts are the role, the owner, the
kind and the name, and each fault has the place of the line.
-/
theorem ofText_fails (vocabulary : Vocabulary) (line : Line) (constant : Bool) (slot : Nat)
    (text : List Char)
    : FailsOnly line.Locates (ofText vocabulary line constant slot text) := by
  unfold ofText
  dsimp only
  split
  · split
    case' h_2 => refine .bind (ownerNamed_fails vocabulary line _) fun owner _ => ?_
    all_goals
      refine .bindPair (.ok _) fun text owner _ => ?_
      dsimp only
      split
      · exact .error (line.locates_fault _)
      · exact .ok _
  · exact .error (line.locates_fault _)

/-- The variables of a section are refused inside one of its lines, by induction on these. The
numbers of the slots that are given out play no role.
-/
theorem readAll_fails (vocabulary : Vocabulary) (constants mutables : Nat) (lines : List Line)
    : FailsOnly (LocatedIn lines) (readAll vocabulary constants mutables lines) := by
  induction lines generalizing vocabulary constants mutables with
  | nil => exact .ok _
  | cons line rest ih =>
      have later (vocabulary : Vocabulary) (constants mutables : Nat)
          : FailsOnly (LocatedIn (line :: rest)) (readAll vocabulary constants mutables rest) :=
        (ih vocabulary constants mutables).of_subset (List.subset_cons_self _ _)
      have here (fault : SyntaxFault) {α : Type}
          : FailsOnly (LocatedIn (line :: rest))
              (.error (.ofFault fault line.span) : Except ParseError α) :=
        .error ⟨line, List.mem_cons_self, line.locates_fault fault⟩
      unfold readAll
      split
      · exact later _ _ _
      · split
        · refine .bind ((ofText_fails vocabulary line _ _ _).of_mem List.mem_cons_self)
            fun decl _ => ?_
          split
          · exact .bind (later _ _ _) fun _ _ => .ok _
          · exact here _
        · exact here _

end VariableDecl

-----------------------------------------------------------------------------------------
-- Labelled parts and groups
-----------------------------------------------------------------------------------------

/-- The elements apart from the labels are among those that were labelled, by induction on these. -/
theorem mem_of_mem_labelled {α β : Type} (label? : α → Option β) (elements : List α)
    : (labelled label? elements).1 ⊆ elements
      ∧ ∀ group ∈ (labelled label? elements).2,
          (∃ element ∈ elements, label? element = some group.1) ∧ group.2 ⊆ elements := by
  induction elements with
  | nil => simp [labelled]
  | cons element rest ih =>
      obtain ⟨lead, groups⟩ := ih
      have later (group : β × List α) (member : group ∈ (labelled label? rest).2)
          : (∃ one ∈ element :: rest, label? one = some group.1) ∧ group.2 ⊆ element :: rest := by
        obtain ⟨⟨one, among, found⟩, held⟩ := groups group member
        exact ⟨⟨one, List.mem_cons_of_mem _ among, found⟩, List.subset_cons_of_subset _ held⟩
      unfold labelled
      dsimp only
      split
      · rename_i label found
        refine ⟨List.nil_subset _, List.forall_mem_cons.mpr ⟨?_, later⟩⟩
        exact ⟨⟨element, List.mem_cons_self, found⟩, List.subset_cons_of_subset _ lead⟩
      · exact ⟨List.cons_subset_cons _ lead, later⟩

namespace LabelledLines

/-- Labelled parts are refused at their labels, and hold lines of their groups; by induction on the
groups.
-/
theorem distinct_fails {body : List Line} (seen : List Subsection)
    {groups : List ((Subsection × Line) × List Line)}
    (held : ∀ group ∈ groups, group.1.2 ∈ body ∧ group.2 ⊆ body)
    : FailsOnly (LocatedIn body) (distinct seen groups)
      ∧ ∀ parts, distinct seen groups = .ok parts → ∀ part ∈ parts, part.lines ⊆ body := by
  induction groups generalizing seen with
  | nil =>
      refine ⟨.ok _, fun parts read => ?_⟩
      obtain rfl := Except.ok.inj read
      simp
  | cons group rest ih =>
      obtain ⟨⟨subsection, header⟩, lines⟩ := group
      obtain ⟨⟨headerHeld, linesHeld⟩, restHeld⟩ := List.forall_mem_cons.mp held
      obtain ⟨fails, among⟩ := ih (subsection :: seen) restHeld
      unfold distinct
      split
      · exact ⟨.error ⟨header, headerHeld, header.locates_fault _⟩, nofun⟩
      · refine ⟨.bind fails fun _ _ => .ok _, fun parts read => ?_⟩
        obtain ⟨others, othersRead, done⟩ := bind_eq_ok_iff.mp read
        obtain rfl := Except.ok.inj done
        exact List.forall_mem_cons.mpr ⟨linesHeld, among others othersRead⟩

/-- The labelled parts of a body are refused inside one of its lines, and hold lines of it: the
parts are its lines apart from the labels.
-/
theorem ofBody_fails (default? : Option Subsection) (body : List Line)
    : FailsOnly (LocatedIn body) (ofBody default? body)
      ∧ ∀ parts, ofBody default? body = .ok parts → ∀ part ∈ parts, part.lines ⊆ body := by
  obtain ⟨leadHeld, groupsHeld⟩ := mem_of_mem_labelled Subsection.ofLine? body
  have held : ∀ group ∈ (labelled Subsection.ofLine? body).2,
      group.1.2 ∈ body ∧ group.2 ⊆ body := by
    intro group member
    obtain ⟨⟨line, among, found⟩, lines⟩ := groupsHeld group member
    obtain ⟨subsection, _, same⟩ := Option.map_eq_some_iff.mp found
    rw [← same]
    exact ⟨among, lines⟩
  unfold ofBody
  split
  · rename_i groups same
    rw [same] at held
    exact distinct_fails [] held
  · rename_i first lead groups same
    rw [same] at held leadHeld
    split
    · exact ⟨.error ⟨first, leadHeld List.mem_cons_self, first.locates_fault _⟩, nofun⟩
    · rename_i subsection
      obtain ⟨fails, among⟩ := distinct_fails [subsection] held
      refine ⟨.bind fails fun _ _ => .ok _, fun parts read => ?_⟩
      obtain ⟨others, othersRead, done⟩ := bind_eq_ok_iff.mp read
      obtain rfl := Except.ok.inj done
      exact List.forall_mem_cons.mpr ⟨leadHeld, among others othersRead⟩

end LabelledLines

namespace Document

/-- Groups are made of the lines that they are formed from, by induction on the lines. -/
theorem subset_of_groupsFrom {terminator : String} {source : List Line}
    {current? : Option (Line × List Line)} {lines : List Line} (among : lines ⊆ source)
    (started : ∀ header body, current? = some (header, body) → header ∈ source ∧ body ⊆ source)
    : (∀ group ∈ (groupsFrom terminator current? lines).closed,
        group.header ∈ source ∧ group.body ⊆ source)
      ∧ ∀ header, (groupsFrom terminator current? lines).unclosed? = some header
          → header ∈ source := by
  induction lines generalizing current? with
  | nil =>
      cases current? with
      | none => simp [groupsFrom]
      | some current =>
          obtain ⟨header, body⟩ := current
          refine ⟨by simp [groupsFrom], fun found same => ?_⟩
          obtain rfl := Option.some.inj same
          exact (started header body rfl).1
  | cons line rest ih =>
      obtain ⟨inside, restAmong⟩ := List.cons_subset.mp among
      cases current? with
      | none =>
          refine ih restAmong fun header body same => ?_
          obtain ⟨rfl, rfl⟩ := Prod.mk.inj (Option.some.inj same)
          exact ⟨inside, List.nil_subset _⟩
      | some current =>
          obtain ⟨header, body⟩ := current
          obtain ⟨headerHeld, bodyHeld⟩ := started header body rfl
          unfold groupsFrom
          split
          · obtain ⟨closed, unclosed⟩ := @ih none restAmong nofun
            refine ⟨List.forall_mem_cons.mpr ⟨⟨headerHeld, ?_⟩, closed⟩, unclosed⟩
            exact (List.reverse_subset.mpr bodyHeld)
          · refine ih restAmong fun other held same => ?_
            obtain ⟨rfl, rfl⟩ := Prod.mk.inj (Option.some.inj same)
            exact ⟨headerHeld, List.cons_subset.mpr ⟨inside, bodyHeld⟩⟩

/-- The groups of lines, closed or not, are made of these lines, as no group is open at the first of
them.
-/
theorem subset_of_groups (terminator : String) (lines : List Line)
    : (∀ group ∈ (groups terminator lines).closed, group.header ∈ lines ∧ group.body ⊆ lines)
      ∧ ∀ header, (groups terminator lines).unclosed? = some header → header ∈ lines :=
  subset_of_groupsFrom (List.Subset.refl lines) nofun

/-- The frame of a document that has lines is refused inside one of them. A document without lines
is refused at its first position.
-/
theorem body_fails (kind : DocumentKind) (lines : List Line)
    : FailsOnly (fun error =>
        lines = [] ∧ error.span.line = 1 ∧ error.span.column = 1 ∨ LocatedIn lines error)
        (body kind lines) := by
  unfold body
  split
  · exact .error (.inl ⟨rfl, rfl, rfl⟩)
  · rename_i first rest
    have head (fault : SyntaxFault) : LocatedIn (first :: rest) (.ofFault fault first.span) :=
      ⟨first, List.mem_cons_self, first.locates_fault fault⟩
    split
    · exact .error (.inr (head _))
    · split
      · exact .error (.inr (head _))
      · rename_i last extra others found
        have inside : extra ∈ first :: rest := by
          refine (List.dropWhile_sublist (!Line.holds · ("End " ++ kind.title))).subset ?_
          rw [found]
          simp
        exact .error (.inr ⟨extra, inside, extra.locates_fault _⟩)
      · exact .ok _

end Document

-----------------------------------------------------------------------------------------
-- Actions
-----------------------------------------------------------------------------------------

namespace ParameterDecl

/-- The declaration of a parameter is refused inside its piece of the header. -/
theorem ofPiece_fails (vocabulary : Vocabulary) (piece : Line)
    : FailsOnly piece.Locates (ofPiece vocabulary piece) := by
  unfold ofPiece
  split
  · refine .bind (identifierOf_fails piece.marks_span) fun _ _ => ?_
    dsimp only
    split
    · exact .ok _
    · exact .error piece.marks_span
  · exact .error (piece.locates_fault _)

/-- The parameters of an action are refused inside one of their pieces, by induction on these. -/
theorem readAll_fails (vocabulary : Vocabulary) (parameters : List ParameterDecl)
    (pieces : List Line)
    : FailsOnly (LocatedIn pieces) (readAll vocabulary parameters pieces) := by
  induction pieces generalizing parameters with
  | nil => exact .ok _
  | cons piece rest ih =>
      have later (parameters : List ParameterDecl)
          : FailsOnly (LocatedIn (piece :: rest)) (readAll vocabulary parameters rest) :=
        (ih parameters).of_subset (List.subset_cons_self _ _)
      unfold readAll
      split
      · exact later _
      · refine .bind ((ofPiece_fails vocabulary piece).of_mem List.mem_cons_self) fun _ _ => ?_
        split
        · exact later _
        · split
          · exact later _
          · exact .error ⟨piece, List.mem_cons_self, piece.locates_fault _⟩

end ParameterDecl

namespace ActionDecl

/-- A part of an action is refused inside one of its lines, whether it has conditions, effects or
costs.
-/
theorem readPart_fails (names : Names) (action : ActionDecl) (part : LabelledLines)
    : FailsOnly (LocatedIn part.lines) (action.readPart names part) := by
  unfold readPart
  split
  · exact .bind (Expr.ofLines_fails names part.lines) fun _ _ => .ok _
  · exact .bind (Expr.ofLines_fails names part.lines) fun _ _ => .ok _
  · exact .bind (Expr.ofLines_fails names part.lines) fun _ _ => .ok _
  · exact .bind (Expr.ofLines_fails names part.lines) fun _ _ => .ok _
  · exact .bind (Update.ofLines_fails names part.lines) fun _ _ => .ok _
  · exact .bind (Update.ofLines_fails names part.lines) fun _ _ => .ok _
  · exact .bind (Cost.ofLines_fails names part.lines) fun _ _ => .ok _

theorem readParts_fails {body : List Line} (names : Names) (action : ActionDecl)
    {parts : List LabelledLines} (held : ∀ part ∈ parts, part.lines ⊆ body)
    : FailsOnly (LocatedIn body) (action.readParts names parts) := by
  induction parts generalizing action with
  | nil => exact .ok _
  | cons part rest ih =>
      obtain ⟨first, others⟩ := List.forall_mem_cons.mp held
      exact .bind ((readPart_fails names action part).of_subset first) fun next _ => ih next others

/-- A tag is refused inside the header that it stands in, and the header without its tag is a part
of it.
-/
theorem cutTag_fails (header : Line)
    : FailsOnly header.Locates (cutTag header)
      ∧ ∀ kept tag, cutTag header = .ok (kept, tag) → kept.Inside header := by
  unfold cutTag
  split
  · refine ⟨.ok _, fun kept tag done => ?_⟩
    obtain ⟨rfl, _⟩ := Prod.mk.inj (Except.ok.inj done)
    exact .refl _
  · rename_i inside ended
    have endSame := Text.beforeEnd?_eq_some_iff.mp ended
    split
    · exact ⟨.error (header.locates_fault _), nofun⟩
    · rename_i before tag cut
      obtain ⟨mark, _, rfl, _⟩ := Text.eq_of_cutAtLast? cut
      refine ⟨.ok _, fun kept name done => ?_⟩
      obtain ⟨rfl, _⟩ := Prod.mk.inj (Except.ok.inj done)
      refine Line.inside_piece ?_ ?_
      · rw [endSame]
        simp only [List.length_append, List.length_cons]
        omega
      · intro c member
        rw [endSame]
        exact List.mem_append_left _ (List.mem_append_left _ member)

/-- An action is refused inside its header or its body.

The faults of the header have its place, or that of the tag and the parameters, which are pieces of
it; those of the body are the faults of its parts.
-/
theorem ofGroup_fails (vocabulary : Vocabulary) (earlier : List ActionDecl)
    (group : Document.Group)
    : FailsOnly (LocatedIn (group.header :: group.body)) (ofGroup vocabulary earlier group) := by
  have atHeader {α : Type} {result : Except ParseError α}
      (fails : FailsOnly group.header.Locates result)
      : FailsOnly (LocatedIn (group.header :: group.body)) result :=
    fails.of_mem List.mem_cons_self
  unfold ofGroup
  dsimp only
  split
  · rename_i before after cut
    obtain ⟨same, _⟩ := Text.cutAtFirst?_eq_some_iff.mp cut
    have declared : (group.header.piece (before.length + 1) after).Inside group.header := by
      refine Line.inside_piece ?_ fun c member => ?_
      · rw [same]
        simp only [List.length_append, List.length_cons]
        omega
      · rw [same]
        exact List.mem_append_right _ (List.mem_cons_of_mem _ member)
    obtain ⟨tagFails, tagInside⟩ := cutTag_fails (group.header.piece (before.length + 1) after)
    split
    · exact atHeader (.error (group.header.locates_fault _))
    · refine .bindPair (atHeader (tagFails.of_inside declared)) fun parametersLine tag tagRead => ?_
      have parametersInside := (tagInside parametersLine tag tagRead).trans declared
      refine .bind ?_ fun parameters _ => ?_
      · refine (ParameterDecl.readAll_fails _ _ _).of_pieces fun piece member => ?_
        exact ⟨group.header, List.mem_cons_self,
          (Line.inside_of_mem_commaPieces member).trans parametersInside⟩
      · dsimp only
        split
        · exact atHeader (.error (group.header.locates_fault _))
        · obtain ⟨bodyFails, bodyHeld⟩ := LabelledLines.ofBody_fails none group.body
          refine .bind (bodyFails.of_subset (List.subset_cons_self _ _)) fun parts read => ?_
          exact (readParts_fails _ _ (bodyHeld parts read)).of_subset (List.subset_cons_self _ _)
  · exact atHeader (.error (group.header.locates_fault _))

/-- The actions of a section are refused inside one of its lines, by induction on their groups. The
actions before one are only looked up.
-/
theorem readGroups_fails {lines : List Line} (vocabulary : Vocabulary) (earlier : List ActionDecl)
    {groups : List Document.Group}
    (held : ∀ group ∈ groups, group.header ∈ lines ∧ group.body ⊆ lines)
    : FailsOnly (LocatedIn lines) (readGroups vocabulary earlier groups) := by
  induction groups generalizing earlier with
  | nil => exact .ok _
  | cons group rest ih =>
      obtain ⟨⟨header, body⟩, others⟩ := List.forall_mem_cons.mp held
      unfold readGroups
      refine .bind ?_ fun action _ => ?_
      · exact (ofGroup_fails vocabulary earlier group).of_subset
          (List.cons_subset.mpr ⟨header, body⟩)
      · dsimp only
        split
        · exact .error ⟨group.header, header, group.header.locates_fault _⟩
        · exact ih _ others

/-- A section of actions is refused inside one of its lines: in an action that is closed, or at the
header of one that is not.
-/
theorem readAll_fails (vocabulary : Vocabulary) (lines : List Line)
    : FailsOnly (LocatedIn lines) (readAll vocabulary lines) := by
  obtain ⟨closed, unclosed⟩ := Document.subset_of_groups "End Action" lines
  unfold readAll
  dsimp only
  refine .bind (readGroups_fails vocabulary [] closed) fun actions _ => ?_
  split
  · exact .ok _
  · rename_i header found
    exact .error ⟨header, unclosed header found, header.locates_fault _⟩

end ActionDecl

-----------------------------------------------------------------------------------------
-- Steps
-----------------------------------------------------------------------------------------

namespace StepDecl

theorem nameOf_fails (header : Line) : FailsOnly header.Locates (nameOf header) := by
  unfold nameOf
  split
  · exact .ok _
  · exact .error (header.locates_fault _)

/-- A part of a step is refused at its header or inside one of its lines. The header counts since a
condition without lines is reported there.
-/
theorem readPart_fails (names : Names) (header : Line) (step : StepDecl) (part : LabelledLines)
    : FailsOnly (LocatedIn (header :: part.lines)) (step.readPart names header part) := by
  obtain ⟨nestFails, cut⟩ := Block.nest_fails part.lines
  have later := List.subset_cons_self header part.lines
  unfold readPart
  refine .bind (nestFails.of_subset later) fun blocks nested => ?_
  have pieces := cut blocks nested
  split
  · exact .bind (((Update.ofBlocks_fails names blocks).of_pieces pieces).of_subset later)
      fun _ _ => .ok _
  · exact .bind (((Update.ofBlocks_fails names blocks).of_pieces pieces).of_subset later)
      fun _ _ => .ok _
  · exact .bind (((Cost.ofBlocks_fails names blocks).of_pieces pieces).of_subset later)
      fun _ _ => .ok _
  · refine .error ⟨part.lines.head?.getD header, ?_, Line.locates_fault _ _⟩
    cases part.lines with
    | nil => exact List.mem_cons_self
    | cons first rest => exact List.mem_cons_of_mem _ List.mem_cons_self

theorem readParts_fails {header : Line} {body : List Line} (names : Names) (step : StepDecl)
    {parts : List LabelledLines} (held : ∀ part ∈ parts, part.lines ⊆ body)
    : FailsOnly (LocatedIn (header :: body)) (step.readParts names header parts) := by
  induction parts generalizing step with
  | nil => exact .ok _
  | cons part rest ih =>
      obtain ⟨first, others⟩ := List.forall_mem_cons.mp held
      exact .bind ((readPart_fails names header step part).of_subset
        (List.cons_subset_cons header first)) fun next _ => ih next others

/-- A step is refused inside its header or its body. -/
theorem ofGroup_fails (vocabulary : Vocabulary) (group : Document.Group)
    : FailsOnly (LocatedIn (group.header :: group.body)) (ofGroup vocabulary group) := by
  obtain ⟨bodyFails, bodyHeld⟩ := LabelledLines.ofBody_fails (some .effects) group.body
  refine .bind ((nameOf_fails group.header).of_mem List.mem_cons_self) fun name _ => ?_
  exact .bind (bodyFails.of_subset (List.subset_cons_self _ _)) fun parts read =>
    readParts_fails _ _ (bodyHeld parts read)

theorem readGroups_fails {lines : List Line} (vocabulary : Vocabulary)
    {groups : List Document.Group}
    (held : ∀ group ∈ groups, group.header ∈ lines ∧ group.body ⊆ lines)
    : FailsOnly (LocatedIn lines) (readGroups vocabulary groups) := by
  induction groups with
  | nil => exact .ok _
  | cons group rest ih =>
      obtain ⟨⟨header, body⟩, others⟩ := List.forall_mem_cons.mp held
      exact .bind ((ofGroup_fails vocabulary group).of_subset
        (List.cons_subset.mpr ⟨header, body⟩)) fun _ _ => .bind (ih others) fun _ _ => .ok _

/-- A section of steps is refused inside one of its lines, for the same reasons as a section of
actions.
-/
theorem readAll_fails (vocabulary : Vocabulary) (lines : List Line)
    : FailsOnly (LocatedIn lines) (readAll vocabulary lines) := by
  obtain ⟨closed, unclosed⟩ := Document.subset_of_groups "End Step" lines
  unfold readAll
  dsimp only
  refine .bind (readGroups_fails vocabulary closed) fun steps _ => ?_
  split
  · exact .ok _
  · rename_i header found
    have inside := unclosed header found
    exact .bind ((nameOf_fails header).of_mem inside) fun _ _ =>
      .error ⟨header, inside, header.locates_fault _⟩

end StepDecl

-----------------------------------------------------------------------------------------
-- Domains
-----------------------------------------------------------------------------------------

/-- An error has the place that it has without the name of the part it occurred in. -/
theorem LoadError.inPart_fails {α : Type} {fault : ParseError → Prop} {document : DocumentKind}
    {part : String} {result : Except ParseError α} (fails : FailsOnly fault result)
    : FailsOnly (fun error : LoadError => fault error.error)
        (LoadError.inPart document part result) := by
  cases result with
  | ok value => exact .ok _
  | error error => exact .error (fails error rfl)

namespace SectionLines

/-- Sections are refused inside the lines they are split from, by induction on the lines. -/
theorem splitFrom_fails {source : List Line} (last : DomainSection) (isOpen : Bool)
    {lines : List Line} (among : lines ⊆ source)
    : FailsOnly (fun error : LoadError => LocatedIn source error.error)
        (splitFrom last isOpen lines) := by
  induction lines generalizing last isOpen with
  | nil => exact .ok _
  | cons line rest ih =>
      obtain ⟨inside, restAmong⟩ := List.cons_subset.mp among
      have refused (part : String) (fault : SyntaxFault)
          : LocatedIn source (refuse part fault line).error :=
        ⟨line, inside, line.locates_fault fault⟩
      unfold splitFrom
      split
      · rename_i part _
        split
        · exact .error (refused _ _)
        · exact .bind (ih part true restAmong) fun _ _ => .ok _
      · split
        · split
          · exact ih last false restAmong
          · exact .error (refused _ _)
        · split
          · exact .bind (ih last true restAmong) fun _ _ => .ok _
          · exact .error (refused _ _)

/-- A domain that cannot be split into its sections is refused inside one of its lines. -/
theorem split_fails (lines : List Line)
    : FailsOnly (fun error : LoadError => LocatedIn lines error.error) (split lines) := by
  unfold split
  split
  · exact .ok _
  · rename_i line rest
    have refused (part : String) (fault : SyntaxFault)
        : LocatedIn (line :: rest) (refuse part fault line).error :=
      ⟨line, List.mem_cons_self, line.locates_fault fault⟩
    split
    · exact splitFrom_fails _ true (List.subset_cons_self _ _)
    · split
      · exact .error (refused _ _)
      · exact .error (refused _ _)

end SectionLines

namespace Domain

/-- A section of a domain is refused inside one of its lines, by cases on the section. -/
theorem readSection_fails (domain : Domain) (part : DomainSection) (lines : List Line)
    : FailsOnly (LocatedIn lines) (domain.readSection part lines) := by
  cases part with
  | entities =>
      refine .bind ((Vocabulary.readEntities_fails _ _).of_pieces fun piece member => ?_)
        fun _ _ => .ok _
      obtain ⟨line, among, cut⟩ := List.mem_flatMap.mp member
      exact ⟨line, among, Line.inside_of_mem_commaPieces cut⟩
  | declarations =>
      exact .bind (ItemsDecl.readAll_fails _ lines) fun _ _ =>
        .bind (VariableDecl.readAll_fails _ _ _ lines) fun _ _ => .ok _
  | actions => exact .bind (ActionDecl.readAll_fails _ lines) fun _ _ => .ok _
  | environment | arrival => exact .bind (StepDecl.readAll_fails _ lines) fun _ _ => .ok _

/-- The sections of a domain are refused inside one of the lines that they are split from, by
induction on the sections.
-/
theorem readSections_fails {source : List Line} (domain : Domain) {sections : List SectionLines}
    (held : ∀ part ∈ sections, part.lines ⊆ source)
    : FailsOnly (fun error : LoadError => LocatedIn source error.error)
        (domain.readSections sections) := by
  induction sections generalizing domain with
  | nil => exact .ok _
  | cons head rest ih =>
      obtain ⟨first, others⟩ := List.forall_mem_cons.mp held
      exact .bind (LoadError.inPart_fails ((readSection_fails domain _ _).of_subset first))
        fun next _ => ih next others

end Domain

/-- The error points into one of the lines, or to the start of a document without lines. -/
def LoadError.PointsInto (lines : List Line) (error : LoadError) : Prop :=
  lines = [] ∧ error.error.span.line = 1 ∧ error.error.span.column = 1
    ∨ LocatedIn lines error.error

/-- A domain text is refused at a position of its own: the frame, the split into sections and the
sections are all refused inside lines of the source.
-/
theorem Domain.ofText_fails (source : List Char)
    : FailsOnly (LoadError.PointsInto (Line.ofSource source)) (ofText source) := by
  refine .bind (LoadError.inPart_fails (Document.body_fails .domain _)) fun lines read => ?_
  have among := Document.lines_of_body (LoadError.ok_of_inPart read)
  have wider {error : LoadError} (located : LocatedIn lines error.error)
      : LoadError.PointsInto (Line.ofSource source) error := by
    obtain ⟨line, member, marked⟩ := located
    exact .inr ⟨line, among member, marked⟩
  refine .bind ((SectionLines.split_fails lines).mono fun _ => wider) fun sections read => ?_
  exact (readSections_fails empty (SectionLines.lines_of_split read)).mono fun _ => wider

-----------------------------------------------------------------------------------------
-- Problems
-----------------------------------------------------------------------------------------

/-- A fault of a literal is reported where the rest of its line begins. -/
theorem Literal.ofLine_fails (line : Line) : FailsOnly line.Locates (ofLine line) := by
  unfold ofLine
  split
  · exact .ok _
  · refine .error fun _ => ⟨rfl, Nat.le_add_right _ _, ?_⟩
    exact Nat.add_le_add_left (List.length_take_le' _ _) _

namespace StartValue

/-- A value line is refused inside it. The index and the point before the value only move the place
where the value begins.
-/
theorem ofLine_fails (line : Line) : FailsOnly line.Locates (ofLine line) := by
  have plain : FailsOnly line.Locates (ofLine.bare line) :=
    .bind (Literal.ofLine_fails line) fun _ _ => .ok _
  unfold ofLine
  dsimp only
  split
  · rename_i after found
    split
    · exact plain
    · split
      · exact .error (line.locates_fault _)
      · refine .bind ((Literal.ofLine_fails _).of_inside ?_) fun _ _ => .ok _
        have same := List.takeWhile_append_dropWhile (p := Char.isDigit) (l := line.text)
        rw [found] at same
        refine Line.inside_piece ?_ fun c member => ?_
        · have counted := congrArg List.length same
          simp only [List.length_append, List.length_cons] at counted
          omega
        · rw [← same]
          exact List.mem_append_right _ (List.mem_cons_of_mem _ member)
  · exact plain

/-- The values on the line of a name are refused inside one of the pieces, by induction on these. -/
theorem ofPieces_fails (pieces : List Line)
    : FailsOnly (LocatedIn pieces) (ofPieces pieces) := by
  induction pieces with
  | nil => exact .ok _
  | cons piece rest ih =>
      have later := ih.of_subset (List.subset_cons_self piece rest)
      unfold ofPieces
      split
      · exact later
      · exact .bind ((Literal.ofLine_fails piece).of_mem List.mem_cons_self) fun _ _ =>
          .bind later fun _ _ => .ok _

end StartValue

/-- What follows the name of an entry and its colon stands inside the line. -/
theorem StartEntry.inside_of_header? {line piece : Line} {name : String}
    (found : header? line = some (name, piece))
    : piece.Inside line := by
  unfold header? at found
  split at found
  · obtain ⟨⟨before, after⟩, cut, same⟩ := Option.map_eq_some_iff.mp found
    obtain ⟨_, rfl⟩ := Prod.mk.inj same
    obtain ⟨whole, _⟩ := Text.cutAtFirst?_eq_some_iff.mp cut
    refine Line.inside_piece ?_ fun c member => ?_
    · rw [whole]
      simp only [List.length_append, List.length_cons]
      omega
    · rw [whole]
      exact List.mem_append_right _ (List.mem_cons_of_mem _ member)
  · cases found

namespace Problem

/-- The lines of batches are refused inside one of them, by induction on them. -/
theorem readBatches_fails (inEntry : Bool) (lines : List Line)
    : FailsOnly (LocatedIn lines) (readBatches inEntry lines) := by
  induction lines generalizing inEntry with
  | nil => exact .ok _
  | cons line rest ih =>
      have later (inEntry : Bool)
          : FailsOnly (LocatedIn (line :: rest)) (readBatches inEntry rest) :=
        (ih inEntry).of_subset (List.subset_cons_self _ _)
      unfold readBatches
      split
      · exact .bind (later false) fun _ _ => .ok _
      · split
        · rename_i name piece found
          have inside := StartEntry.inside_of_header? found
          refine .bind ((StartValue.ofPieces_fails _).of_pieces fun part member => ?_) fun _ _ =>
            .bind (later true) fun _ _ => .ok _
          exact ⟨line, List.mem_cons_self, (Line.inside_of_mem_commaPieces member).trans inside⟩
        · split
          · exact .error ⟨line, List.mem_cons_self, line.locates_fault _⟩
          · exact .bind ((StartValue.ofLine_fails line).of_mem List.mem_cons_self) fun _ _ =>
              .bind (later true) fun _ _ => .ok _

/-- A problem text is refused at a position of its own, in the frame or in one of its lines. -/
theorem ofText_fails (source : List Char)
    : FailsOnly (LoadError.PointsInto (Line.ofSource source)) (ofText source) := by
  refine LoadError.inPart_fails (.bind (Document.body_fails .problem _) fun lines read => ?_)
  refine .bind ?_ fun _ _ => .ok _
  exact ((readBatches_fails false lines).of_subset (Document.lines_of_body read)).mono
    fun _ => .inr

end Problem

end Dispatch
