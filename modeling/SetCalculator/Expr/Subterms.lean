import SetCalculator.Expr

/-!
# Subterms

The expressions inside an expression, itself included, in the order in which
their programs start.
-/

namespace SetCalculator.Expr

mutual

/-- The subterms of an expression: itself, then those of its arguments in
order. -/
def subterms : Expr → List Expr
  | .load source => [.load source]
  | .call f args => .call f args :: subtermsOfAll args

/-- The subterms of some expressions, one expression after the other. -/
def subtermsOfAll : List Expr → List Expr
  | [] => []
  | e :: rest => subterms e ++ subtermsOfAll rest

end

private theorem subtermsOfAll_eq_flatMap (es : List Expr) :
    subtermsOfAll es = es.flatMap subterms := by
  induction es with
  | nil => rfl
  | cons e rest ih => rw [subtermsOfAll, List.flatMap_cons, ih]

@[simp] theorem subterms_load (source : String) :
    subterms (.load source) = [.load source] := by
  rw [subterms]

@[simp] theorem subterms_call (f : SetFunction) (args : List Expr) :
    subterms (.call f args) = .call f args :: args.flatMap subterms := by
  rw [subterms, subtermsOfAll_eq_flatMap]

end SetCalculator.Expr
