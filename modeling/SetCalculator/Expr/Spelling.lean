import SetCalculator.Expr

/-!
# The spelling of expressions

The words an expression is written with, and the text in which they stand, told
by recursion on the expression and without the walk. In the text every part
answers for its own words, and a call for the spaces around its arguments: one
before each argument, and one before the bracket that ends it.
-/

namespace SetCalculator.Expr

mutual

/-- The words an expression is written with. -/
def spelling : Expr → List String
  | .load source => [source]
  | .call f args => "[" :: f.name :: (spellingOfAll args ++ ["]"])

/-- The words some expressions are written with, one after the other. -/
def spellingOfAll : List Expr → List String
  | [] => []
  | e :: rest => spelling e ++ spellingOfAll rest

end

mutual

/-- An expression as it is printed. -/
def printed : Expr → String
  | .load source => source
  | .call f args => "[ " ++ f.name ++ printedArgs args ++ " ]"

/-- Arguments as they are printed, each with the space before it. -/
def printedArgs : List Expr → String
  | [] => ""
  | e :: rest => " " ++ printed e ++ printedArgs rest

end

private theorem spellingOfAll_eq_flatMap (es : List Expr) :
    spellingOfAll es = es.flatMap spelling := by
  induction es with
  | nil => rfl
  | cons e rest ih => rw [spellingOfAll, List.flatMap_cons, ih]

@[simp] theorem spelling_load (source : String) :
    spelling (.load source) = [source] := by
  rw [spelling]

@[simp] theorem spelling_call (f : SetFunction) (args : List Expr) :
    spelling (.call f args) =
      "[" :: f.name :: (args.flatMap spelling ++ ["]"]) := by
  rw [spelling, spellingOfAll_eq_flatMap]

private theorem printedArgs_eq_join (es : List Expr) :
    printedArgs es = String.join (es.map fun e => " " ++ printed e) := by
  induction es with
  | nil => rfl
  | cons e rest ih => rw [printedArgs, ih, List.map_cons, String.join_cons]

@[simp] theorem printed_load (source : String) :
    printed (.load source) = source := by
  rw [printed]

@[simp] theorem printed_call (f : SetFunction) (args : List Expr) :
    printed (.call f args) =
      "[ " ++ f.name ++ String.join (args.map fun arg => " " ++ printed arg) ++
        " ]" := by
  rw [printed, printedArgs_eq_join]

end SetCalculator.Expr
