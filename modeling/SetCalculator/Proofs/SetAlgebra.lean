import Mathlib.Data.List.Basic
import SetCalculator.SetFunction

/-!
# The folds are set algebra

A function takes its operands in one by one, and the first of them is where the
result starts. What the loop keeps is different for each function: a union
accumulates whatever it has met, an intersection what it has not lost yet, and
a difference what is left of the first operand. So the three folds are looked at
one by one, and after that nothing needs them: what an application holds is told
by its operands alone, in any order for a union or an intersection, and in any
order behind the first for a difference.
-/

namespace SetCalculator.SetFunction

/-! ## The three folds -/

theorem mem_foldl_sum {n : Int} {first : IntSet} {rest : List IntSet} :
    n ∈ rest.foldl sum.combine first ↔ n ∈ first ∨ ∃ set ∈ rest, n ∈ set := by
  induction rest generalizing first with
  | nil => simp
  | cons next rest ih =>
      rw [List.foldl_cons, ih, mem_combine, List.exists_mem_cons_iff]
      simp [keeps, or_assoc]

theorem mem_foldl_int {n : Int} {first : IntSet} {rest : List IntSet} :
    n ∈ rest.foldl int.combine first ↔ n ∈ first ∧ ∀ set ∈ rest, n ∈ set := by
  induction rest generalizing first with
  | nil => simp
  | cons next rest ih =>
      rw [List.foldl_cons, ih, mem_combine, List.forall_mem_cons]
      simp [keeps, and_assoc]

theorem mem_foldl_dif {n : Int} {first : IntSet} {rest : List IntSet} :
    n ∈ rest.foldl dif.combine first ↔
      n ∈ first ∧ ¬ ∃ set ∈ rest, n ∈ set := by
  induction rest generalizing first with
  | nil => simp
  | cons next rest ih =>
      rw [List.foldl_cons, ih, mem_combine, List.exists_mem_cons_iff]
      simp [keeps, and_assoc]

/-! ## What an application holds -/

variable {n : Int} {first : IntSet} {sets sets' rest rest' : List IntSet}

theorem mem_apply_sum : n ∈ sum.apply sets ↔ ∃ set ∈ sets, n ∈ set := by
  cases sets with
  | nil => simp [apply]
  | cons first rest => rw [apply, mem_foldl_sum, List.exists_mem_cons_iff]

theorem mem_apply_int :
    n ∈ int.apply sets ↔ sets ≠ [] ∧ ∀ set ∈ sets, n ∈ set := by
  cases sets with
  | nil => simp [apply]
  | cons first rest =>
      rw [apply, mem_foldl_int, List.forall_mem_cons]
      exact (and_iff_right (List.cons_ne_nil first rest)).symm

theorem mem_apply_dif_cons :
    n ∈ dif.apply (first :: rest) ↔ n ∈ first ∧ ¬ ∃ set ∈ rest, n ∈ set := by
  rw [apply, mem_foldl_dif]

/-! ## The results so far -/

/-- The results that a function has after each of its operands. -/
def results (f : SetFunction) : List IntSet → List IntSet
  | [] => []
  | first :: rest => rest.scanl f.combine first

/-- The result after some operands is what the function makes of these alone. -/
theorem getElem?_results (f : SetFunction) (sets : List IntSet) (j : Nat) :
    (f.results sets)[j]? =
      if j < sets.length then some (f.apply (sets.take (j + 1))) else none := by
  cases sets with
  | nil => simp [results]
  | cons first rest =>
      rw [results, List.getElem?_scanl, List.length_cons, List.take_succ_cons,
        apply]
      simp only [Nat.lt_succ_iff]

/-! ## Operands that are applied together -/

theorem apply_apply_cons (f : SetFunction) (h : sets ≠ []) :
    f.apply (f.apply sets :: rest) = f.apply (sets ++ rest) := by
  cases sets with
  | nil => exact absurd rfl h
  | cons first others =>
      rw [List.cons_append, apply, apply, apply, List.foldl_append]

/-- A union or an intersection among the operands of another of its kind. -/
theorem apply_append_apply {f : SetFunction} (hf : f ≠ .dif) (h : sets ≠ [])
    (before after : List IntSet) :
    f.apply (before ++ f.apply sets :: after) =
      f.apply (before ++ sets ++ after) := by
  refine IntSet.ext fun n => ?_
  cases f with
  | sum =>
      simp only [mem_apply_sum, List.mem_append, List.mem_cons, or_and_right,
        exists_or, exists_eq_left, or_assoc]
  | int =>
      simp only [mem_apply_int, List.forall_mem_append, List.forall_mem_cons,
        ne_eq, List.append_eq_nil_iff, h, reduceCtorEq, and_false, false_and,
        not_false_iff, true_and, and_assoc]
  | dif => exact absurd rfl hf

/-- What a difference takes away one by one, it may take away at once. -/
theorem apply_dif_append_sum {before : List IntSet} (h : before ≠ [])
    (sets after : List IntSet) :
    dif.apply (before ++ sum.apply sets :: after) =
      dif.apply (before ++ sets ++ after) := by
  cases before with
  | nil => exact absurd rfl h
  | cons first rest =>
      refine IntSet.ext fun n => ?_
      simp only [List.cons_append, mem_apply_dif_cons, mem_apply_sum,
        List.mem_append, List.mem_cons, or_and_right, exists_or, exists_eq_left,
        or_assoc]

/-! ## Operands in any order -/

/-- A union or an intersection does not see how often or in which order its
operands come. -/
theorem apply_congr {f : SetFunction} (hf : f ≠ .dif)
    (h : ∀ set, set ∈ sets ↔ set ∈ sets') : f.apply sets = f.apply sets' := by
  refine IntSet.ext fun n => ?_
  cases f with
  | sum => simp only [mem_apply_sum, h]
  | int =>
      simp only [mem_apply_int, ne_eq, List.eq_nil_iff_forall_not_mem, h]
  | dif => exact absurd rfl hf

theorem apply_dif_congr (h : ∀ set, set ∈ rest ↔ set ∈ rest') :
    dif.apply (first :: rest) = dif.apply (first :: rest') := by
  refine IntSet.ext fun n => ?_
  simp only [mem_apply_dif_cons, h]

/-! ## The algebra -/

/-- What unions, intersections and differences hold, what becomes of no
operands, what the loop has after each operand, and which changes of the
operands make no difference. -/
theorem apply_is_set_algebra (f : SetFunction) (first : IntSet)
    (rest : List IntSet) :
    (∀ n, n ∈ sum.apply (first :: rest) ↔ ∃ set ∈ first :: rest, n ∈ set) ∧
    (∀ n, n ∈ int.apply (first :: rest) ↔ ∀ set ∈ first :: rest, n ∈ set) ∧
    (∀ n, n ∈ dif.apply (first :: rest) ↔
      n ∈ first ∧ ∀ set ∈ rest, ¬ n ∈ set) ∧
    f.apply [] = ∅ ∧
    (f.apply (first :: rest)).toList.Nodup ∧
    (∀ j, (f.results (first :: rest))[j]? =
      if j < (first :: rest).length then
        some (f.apply ((first :: rest).take (j + 1)))
      else none) ∧
    (∀ sets, f ≠ .dif → (∀ set, set ∈ sets ↔ set ∈ first :: rest) →
      f.apply sets = f.apply (first :: rest)) ∧
    (∀ rest', (∀ set, set ∈ rest' ↔ set ∈ rest) →
      dif.apply (first :: rest') = dif.apply (first :: rest)) ∧
    dif.apply (first :: rest) = dif.apply [first, sum.apply rest] := by
  refine ⟨fun n => mem_apply_sum, fun n => ?_, fun n => ?_, rfl, ?_,
    f.getElem?_results (first :: rest), fun sets hf h => apply_congr hf h,
    fun rest' h => apply_dif_congr h, ?_⟩
  · rw [mem_apply_int]
    exact and_iff_right (List.cons_ne_nil first rest)
  · rw [mem_apply_dif_cons]
    simp only [not_exists, not_and]
  · exact (f.apply (first :: rest)).ascending.imp Int.ne_of_lt
  · have htogether := apply_dif_append_sum (List.cons_ne_nil first []) rest []
    rw [List.append_nil] at htogether
    exact htogether.symm

/-- Three sets with one element in common, and the same three shuffled with one
of them twice. -/
theorem apply_of_shuffled_operands :
    let a := IntSet.ofList [3, 1, 2]
    let b := IntSet.ofList [2, 3]
    let c := IntSet.ofList [4, 3]
    (∀ n, n ∈ int.apply [a, b, c] ↔ n = 3) ∧
      int.apply [c, b, a, b] = int.apply [a, b, c] ∧
      (∀ n, n ∈ dif.apply [a, b, c] ↔ n = 1) ∧
      dif.apply [a, c, b, c] = dif.apply [a, b, c] := by
  intro a b c
  obtain ⟨-, hint, hdif, -, -, -, hshuffled, hlater, -⟩ :=
    apply_is_set_algebra .int a [b, c]
  refine ⟨fun n => ?_, hshuffled _ (by decide) fun set => ?_, fun n => ?_,
    hlater _ fun set => ?_⟩
  · rw [hint, List.forall_mem_cons, List.forall_mem_cons,
      List.forall_mem_singleton]
    simp only [a, b, c, IntSet.mem_ofList, List.mem_cons, List.not_mem_nil,
      or_false]
    omega
  · simp only [List.mem_cons, List.not_mem_nil, or_false]
    grind
  · rw [hdif, List.forall_mem_cons, List.forall_mem_singleton]
    simp only [a, b, c, IntSet.mem_ofList, List.mem_cons, List.not_mem_nil,
      or_false]
    omega
  · simp only [List.mem_cons, List.not_mem_nil, or_false]
    grind

end SetCalculator.SetFunction
