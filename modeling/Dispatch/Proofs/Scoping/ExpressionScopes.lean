import Dispatch.Proofs.Reading.ReaderInduction

/-!
Every name in an expression that was read is resolved by the names in force: parameters to slots of
the scope, variables and entity types to what the vocabulary declares.
-/

namespace Dispatch

namespace Expr

mutual

/-- Every name of the expression is resolved by the names in force. -/
def Scoped (names : Names) : Expr → Prop
  | .int _ | .bool _ => True
  | .tuple elements => AllScoped names elements
  | .param slot name => ∃ kind, names.scope.lookup? name = some (slot, kind)
  | .read place name index => names.vocabulary.place? name = some place ∧ index.Scoped names
  | .isLive entity name id => names.vocabulary.entity? name = some entity ∧ id.Scoped names
  | .entityType entity name => names.vocabulary.entity? name = some entity
  | .not operand | .neg operand => operand.Scoped names
  | .binary _ left right => left.Scoped names ∧ right.Scoped names

def AllScoped (names : Names) : List Expr → Prop
  | [] => True
  | element :: rest => element.Scoped names ∧ AllScoped names rest

end

end Expr

namespace Expr

theorem allScoped_iff {names : Names} {exprs : List Expr}
    : AllScoped names exprs ↔ ∀ expr ∈ exprs, expr.Scoped names := by
  induction exprs with
  | nil => simp [AllScoped]
  | cons element rest ih => simp only [AllScoped, List.forall_mem_cons, ih]

/-- The readers take their names from the scope or from the vocabulary, and every name that they
take is found there with its slot or place.
-/
theorem scoped_readClosed (context : LineContext) (source : List Lexeme)
    : ReadClosed context source (Scoped context.toNames) where
  int _ := trivial
  zero := trivial
  bool _ := trivial
  tuple first _ more := ⟨first, allScoped_iff.mpr more⟩
  param _ bound := ⟨_, bound⟩
  read _ found index := ⟨found, index⟩
  isLive _ found id := ⟨found, id⟩
  entityType _ found := found
  not operand := operand
  neg operand := operand
  binary _ := fun left right => ⟨left, right⟩

section

variable {context : LineContext} {depth : Nat} {input rest : List Lexeme}

theorem scoped_of_readExpr {expr : Expr} (read : readExpr context input = .ok (expr, rest))
    : expr.Scoped context.toNames :=
  ((readersYield (scoped_readClosed context input) _).level List.suffix_rfl read).1

theorem scoped_of_readIndex {index : Expr}
    (read : readIndex context depth input = .ok (index, rest))
    : index.Scoped context.toNames :=
  ((readersYield (scoped_readClosed context input) _).index List.suffix_rfl read).1

theorem allScoped_of_readElements {exprs : List Expr}
    (read : readElements context depth input = .ok (exprs, rest))
    : AllScoped context.toNames exprs :=
  have yielded := (readersYield (scoped_readClosed context input) _).elements List.suffix_rfl read
  allScoped_iff.mpr yielded.1.2

end

end Expr

theorem LineContext.toNames_of_ofLine {names : Names} {line : Line} {context : LineContext}
    {input : List Lexeme} (opened : LineContext.ofLine names line = .ok (context, input))
    : context.toNames = names := by
  obtain ⟨tokens, _, done⟩ := bind_eq_ok_iff.mp opened
  obtain ⟨rfl, rfl⟩ := Prod.mk.inj (Except.ok.inj done)
  rfl

theorem Expr.scoped_of_ofLine {names : Names} {line : Line} {expr : Expr}
    (read : Expr.ofLine names line = .ok expr)
    : expr.Scoped names := by
  obtain ⟨tokens, _, exprRead⟩ := Expr.ofLine_eq_ok_iff.mp read
  exact Expr.scoped_of_readExpr exprRead

end Dispatch
