import SetCalculator.Expr

/-!
# The meaning of expressions

What an expression stands for, once it is known which integers each source
holds. The meaning is told integer by integer and without folds, order or
failure: a union holds what some argument holds, an intersection what every
argument holds, and a difference what the first argument holds and no later one
does.
-/

namespace SetCalculator.Expr

mutual

/-- Whether an expression stands for a set with the integer in it, when
`holds source` says whether a source holds that integer. -/
def Denotes (holds : String → Prop) : Expr → Prop
  | .load source => holds source
  | .call .sum args => SomeDenotes holds args
  | .call .int [] => False
  | .call .int (first :: rest) => Denotes holds first ∧ AllDenote holds rest
  | .call .dif [] => False
  | .call .dif (first :: rest) => Denotes holds first ∧ ¬ SomeDenotes holds rest

/-- Some expression of a list stands for a set with the integer in it. -/
def SomeDenotes (holds : String → Prop) : List Expr → Prop
  | [] => False
  | e :: rest => Denotes holds e ∨ SomeDenotes holds rest

/-- Every expression of a list stands for a set with the integer in it. -/
def AllDenote (holds : String → Prop) : List Expr → Prop
  | [] => True
  | e :: rest => Denotes holds e ∧ AllDenote holds rest

end

variable {holds : String → Prop}

theorem someDenotes_iff {es : List Expr} :
    SomeDenotes holds es ↔ ∃ e ∈ es, Denotes holds e := by
  induction es with
  | nil => simp [SomeDenotes]
  | cons e rest ih => rw [SomeDenotes, ih]; simp

theorem allDenote_iff {es : List Expr} :
    AllDenote holds es ↔ ∀ e ∈ es, Denotes holds e := by
  induction es with
  | nil => simp [AllDenote]
  | cons e rest ih => rw [AllDenote, ih, List.forall_mem_cons]

theorem denotes_load {source : String} :
    Denotes holds (.load source) ↔ holds source := by
  rw [Denotes]

theorem denotes_sum {args : List Expr} :
    Denotes holds (.call .sum args) ↔ ∃ arg ∈ args, Denotes holds arg := by
  rw [Denotes, someDenotes_iff]

theorem denotes_int_cons {first : Expr} {rest : List Expr} :
    Denotes holds (.call .int (first :: rest)) ↔
      Denotes holds first ∧ ∀ arg ∈ rest, Denotes holds arg := by
  rw [Denotes, allDenote_iff]

theorem denotes_dif_cons {first : Expr} {rest : List Expr} :
    Denotes holds (.call .dif (first :: rest)) ↔
      Denotes holds first ∧ ¬ ∃ arg ∈ rest, Denotes holds arg := by
  rw [Denotes, someDenotes_iff]

end SetCalculator.Expr
