import SetCalculator.Expr

/-!
# The value of expressions

The set that an expression comes to once the set of every source is known. It
is what evaluation computes when no source fails, told by recursion on the
expression and without the walk, the operands in waiting or the loading.
-/

namespace SetCalculator.Expr

mutual

/-- The value of an expression, when the set of every source is known. -/
def value (sets : String → IntSet) : Expr → IntSet
  | .load source => sets source
  | .call f args => f.apply (values sets args)

/-- The values of some expressions, in order. -/
def values (sets : String → IntSet) : List Expr → List IntSet
  | [] => []
  | e :: rest => value sets e :: values sets rest

end

private theorem values_eq_map (sets : String → IntSet) (es : List Expr) :
    values sets es = es.map (value sets) := by
  induction es with
  | nil => rfl
  | cons e rest ih => rw [values, ih, List.map_cons]

@[simp] theorem value_load (sets : String → IntSet) (source : String) :
    value sets (.load source) = sets source := by
  rw [value]

@[simp] theorem value_call (sets : String → IntSet) (f : SetFunction)
    (args : List Expr) :
    value sets (.call f args) = f.apply (args.map (value sets)) := by
  rw [value, values_eq_map]

end SetCalculator.Expr
