import Mathlib.Algebra.Group.Nat.Even
import SetCalculator.Proofs.Evaluation.TwoLoaders
import SetCalculator.Proofs.SetAlgebra
import SetCalculator.Source.Memory

/-!
# Which way a value moves when a source grows

A union and an intersection hold more when their arguments do. A difference
holds more when its first argument does and less when any later one does, so an
occurrence of a source behind a later argument of a difference pulls the value
the other way, and behind two of them the same way again.

What counts is how often the direction turns on the way from the root to an
occurrence (`turns`). The first argument of a difference does not turn it, no
matter how many arguments follow. The two directions need each other: one
argument that turns hands the growth of the whole to the shrinking of a part, so
what the induction carries is both of them (`Moves`).
-/

namespace SetCalculator

instance : HasSubset IntSet := ⟨fun s t => ∀ n ∈ s, n ∈ t⟩

theorem IntSet.subset_refl (s : IntSet) : s ⊆ s := fun _ hn => hn

/-! ## Functions on operands that move -/

namespace SetFunction

variable {α : Type} {as : List α} {sets sets' : α → IntSet}

/-- A union or an intersection moves the way its operands do. -/
theorem apply_map_subset {f : SetFunction} (hf : f ≠ .dif)
    (h : ∀ a ∈ as, sets a ⊆ sets' a) :
    f.apply (as.map sets) ⊆ f.apply (as.map sets') := by
  intro n hn
  cases f with
  | sum =>
      simp only [mem_apply_sum, List.mem_map, exists_exists_and_eq_and] at hn ⊢
      obtain ⟨a, ha, hmem⟩ := hn
      exact ⟨a, ha, h a ha n hmem⟩
  | int =>
      rw [mem_apply_int, List.forall_mem_map, ne_eq, List.map_eq_nil_iff]
        at hn ⊢
      obtain ⟨hne, hall⟩ := hn
      exact ⟨hne, fun a ha => h a ha n (hall a ha)⟩
  | dif => exact absurd rfl hf

/-- A difference moves the way its first operand does, if the later ones move
the other way. -/
theorem apply_dif_map_subset {first first' : IntSet} (hfirst : first ⊆ first')
    (h : ∀ a ∈ as, sets' a ⊆ sets a) :
    dif.apply (first :: as.map sets) ⊆ dif.apply (first' :: as.map sets') := by
  intro n hn
  simp only [mem_apply_dif_cons, List.mem_map, exists_exists_and_eq_and] at hn ⊢
  obtain ⟨hmem, hnone⟩ := hn
  refine ⟨hfirst n hmem, fun hsome => hnone ?_⟩
  obtain ⟨a, ha, hmem'⟩ := hsome
  exact ⟨a, ha, h a ha n hmem'⟩

end SetFunction

namespace Expr

/-! ## Turns -/

mutual

/-- For each occurrence of a source in an expression, from left to right, how
many later arguments of differences the way to it leads through. -/
def turns (source : String) : Expr → List Nat
  | .load name => if name = source then [0] else []
  | .call .sum args => turnsOfAll source args
  | .call .int args => turnsOfAll source args
  | .call .dif [] => []
  | .call .dif (first :: rest) =>
      turns source first ++ (turnsOfAll source rest).map (· + 1)

/-- The same for some expressions, one after the other. -/
def turnsOfAll (source : String) : List Expr → List Nat
  | [] => []
  | e :: rest => turns source e ++ turnsOfAll source rest

end

variable {x : String} {P : Nat → Prop}

theorem turnsOfAll_eq_flatMap (es : List Expr) :
    turnsOfAll x es = es.flatMap (turns x) := by
  induction es with
  | nil => rfl
  | cons e rest ih => rw [turnsOfAll, List.flatMap_cons, ih]

/-- No occurrence is left out. -/
theorem length_turns (e : Expr) : (e.turns x).length = e.sources.count x := by
  induction e with
  | load name =>
      rw [sources_load, List.count_singleton, turns]
      by_cases hname : name = x <;> simp [hname]
  | call f args ih =>
      have hargs : (turnsOfAll x args).length =
          (args.flatMap sources).count x := by
        rw [turnsOfAll_eq_flatMap, List.length_flatMap, List.count_flatMap]
        exact congrArg List.sum (List.map_congr_left ih)
      rw [sources_call, ← hargs]
      cases f with
      | sum => rfl
      | int => rfl
      | dif =>
          cases args with
          | nil => rfl
          | cons first rest => simp [turns, turnsOfAll]

theorem forall_turns_call {f : SetFunction} (hf : f ≠ .dif) {args : List Expr} :
    (∀ k ∈ turns x (.call f args), P k) ↔
      ∀ arg ∈ args, ∀ k ∈ arg.turns x, P k := by
  cases f with
  | sum => rw [turns, turnsOfAll_eq_flatMap]; exact List.forall_mem_flatMap
  | int => rw [turns, turnsOfAll_eq_flatMap]; exact List.forall_mem_flatMap
  | dif => exact absurd rfl hf

theorem forall_turns_dif {first : Expr} {rest : List Expr} :
    (∀ k ∈ turns x (.call .dif (first :: rest)), P k) ↔
      (∀ k ∈ first.turns x, P k) ∧
        ∀ arg ∈ rest, ∀ k ∈ arg.turns x, P (k + 1) := by
  rw [turns, turnsOfAll_eq_flatMap, List.forall_mem_append, List.forall_mem_map,
    List.forall_mem_flatMap]

/-- Every occurrence of the source pulls the value of the expression its own
way. -/
def OccursPositively (source : String) (e : Expr) : Prop :=
  ∀ k ∈ e.turns source, Even k

/-- Every occurrence of the source pulls the value of the expression the other
way. -/
def OccursNegatively (source : String) (e : Expr) : Prop :=
  ∀ k ∈ e.turns source, ¬ Even k

instance (source : String) (e : Expr) : Decidable (OccursPositively source e) :=
  inferInstanceAs (Decidable (∀ k ∈ e.turns source, Even k))

instance (source : String) (e : Expr) : Decidable (OccursNegatively source e) :=
  inferInstanceAs (Decidable (∀ k ∈ e.turns source, ¬ Even k))

theorem occursPositively_dif_iff {first : Expr} {rest : List Expr} :
    OccursPositively x (.call .dif (first :: rest)) ↔
      OccursPositively x first ∧ ∀ arg ∈ rest, OccursNegatively x arg := by
  simp only [OccursPositively, OccursNegatively, forall_turns_dif,
    Nat.even_add_one]

theorem occursNegatively_dif_iff {first : Expr} {rest : List Expr} :
    OccursNegatively x (.call .dif (first :: rest)) ↔
      OccursNegatively x first ∧ ∀ arg ∈ rest, OccursPositively x arg := by
  simp only [OccursPositively, OccursNegatively, forall_turns_dif,
    Nat.even_add_one, not_not]

/-! ## Values -/

variable {sets sets' : String → IntSet}

/-- From one family of sets to another the value of an expression grows where
all occurrences of a source are positive, and shrinks where all are negative. -/
structure Moves (x : String) (sets sets' : String → IntSet) (e : Expr) :
    Prop where
  grows : OccursPositively x e → e.value sets ⊆ e.value sets'
  shrinks : OccursNegatively x e → e.value sets' ⊆ e.value sets

theorem Moves.of_eq {e : Expr} (h : e.value sets = e.value sets') :
    Moves x sets sets' e where
  grows _ := by rw [h]; exact IntSet.subset_refl _
  shrinks _ := by rw [h]; exact IntSet.subset_refl _

/-- The source itself occurs positively, so nothing is asked of the other
direction. -/
theorem moves_source (hgrows : sets x ⊆ sets' x) :
    Moves x sets sets' (.load x) where
  grows _ := by rw [value_load, value_load]; exact hgrows
  shrinks hneg := absurd Even.zero (hneg 0 (by simp [turns]))

theorem moves_call {f : SetFunction} (hf : f ≠ .dif) {args : List Expr}
    (h : ∀ arg ∈ args, Moves x sets sets' arg) :
    Moves x sets sets' (.call f args) where
  grows hpos := by
    have hpos := (forall_turns_call hf).1 hpos
    rw [value_call, value_call]
    exact SetFunction.apply_map_subset hf
      fun arg harg => (h arg harg).grows (hpos arg harg)
  shrinks hneg := by
    have hneg := (forall_turns_call hf).1 hneg
    rw [value_call, value_call]
    exact SetFunction.apply_map_subset hf
      fun arg harg => (h arg harg).shrinks (hneg arg harg)

/-- Behind the first argument one direction of the whole takes the other of a
part. -/
theorem moves_dif {first : Expr} {rest : List Expr}
    (hfirst : Moves x sets sets' first)
    (h : ∀ arg ∈ rest, Moves x sets sets' arg) :
    Moves x sets sets' (.call .dif (first :: rest)) where
  grows hpos := by
    obtain ⟨hpos, hneg⟩ := occursPositively_dif_iff.1 hpos
    rw [value_call, value_call, List.map_cons, List.map_cons]
    exact SetFunction.apply_dif_map_subset (hfirst.grows hpos)
      fun arg harg => (h arg harg).shrinks (hneg arg harg)
  shrinks hneg := by
    obtain ⟨hneg, hpos⟩ := occursNegatively_dif_iff.1 hneg
    rw [value_call, value_call, List.map_cons, List.map_cons]
    exact SetFunction.apply_dif_map_subset (hfirst.shrinks hneg)
      fun arg harg => (h arg harg).grows (hpos arg harg)

/-- With one source growing and the others staying, every value moves. -/
theorem value_moves {e : Expr} (hgrows : sets x ⊆ sets' x)
    (hothers : ∀ name ∈ e.sources, name ≠ x → sets name = sets' name) :
    Moves x sets sets' e := by
  induction e with
  | load name =>
      by_cases hname : name = x
      · rw [hname]
        exact moves_source hgrows
      · refine .of_eq ?_
        rw [value_load, value_load, hothers name (by simp) hname]
  | call f args ih =>
      have hargs : ∀ arg ∈ args, Moves x sets sets' arg := fun arg harg =>
        ih arg harg fun name hname =>
          hothers name (mem_sources_of_mem_args harg hname)
      by_cases hf : f = .dif
      · subst hf
        cases args with
        | nil => exact .of_eq (by rw [value_call, value_call]; rfl)
        | cons first rest =>
            obtain ⟨hfirst, hrest⟩ := List.forall_mem_cons.1 hargs
            exact moves_dif hfirst hrest
      · exact moves_call hf hargs

/-- When one source grows from one loader to another and the sets of the other
sources stay, an expression with all its sources has a value with both. The
second holds the first where every occurrence of the source stands behind an
even number of turns, and the first the second where none does. -/
theorem evaluate_moves_with_source {e : Expr} {x : String}
    {loader loader' : Source.Loader} {sets sets' : String → IntSet}
    (hloads : ∀ name ∈ e.sources, Source.load loader name = .ok (sets name))
    (hloads' : ∀ name ∈ e.sources,
      Source.load loader' name = .ok (sets' name))
    (hothers : ∀ name ∈ e.sources, name ≠ x → sets name = sets' name)
    (hgrows : sets x ⊆ sets' x) :
    ∃ set set', e.evaluate loader = ⟨.ok set, e.sources⟩ ∧
      e.evaluate loader' = ⟨.ok set', e.sources⟩ ∧
      (OccursPositively x e → set ⊆ set') ∧
      (OccursNegatively x e → set' ⊆ set) := by
  have hmoves := value_moves hgrows hothers
  exact ⟨e.value sets, e.value sets', evaluate_of_sets hloads,
    evaluate_of_sets hloads', hmoves.grows, hmoves.shrinks⟩

/-- The source `x` gains a 3. It stands in a union and behind two turns in the
first expression, and behind one turn at a time in the second, there once inside
a first argument. -/
theorem evaluate_moves_behind_turns :
    let loader := (Source.Shelf.ofList
      [("a", "1\n2\n3"), ("b", "2\n3"), ("x", "2")]).loader
    let loader' := (Source.Shelf.ofList
      [("a", "1\n2\n3"), ("b", "2\n3"), ("x", "+3\n2")]).loader
    let e : Expr := .call .sum
      [.load "x", .call .dif [.load "a", .call .dif [.load "b", .load "x"]]]
    let e' : Expr := .call .dif
      [.call .dif [.load "a", .load "x"], .load "b", .load "x"]
    (∃ set set', e.evaluate loader = ⟨.ok set, ["x", "a", "b", "x"]⟩ ∧
      e.evaluate loader' = ⟨.ok set', ["x", "a", "b", "x"]⟩ ∧ set ⊆ set') ∧
    ∃ set set', e'.evaluate loader = ⟨.ok set, ["a", "x", "b", "x"]⟩ ∧
      e'.evaluate loader' = ⟨.ok set', ["a", "x", "b", "x"]⟩ ∧ set' ⊆ set := by
  intro loader loader' e e'
  let sets : String → IntSet := fun name => IntSet.ofList <|
    if name = "x" then [2] else if name = "a" then [1, 2, 3] else [2, 3]
  let grown : String → IntSet := fun name => IntSet.ofList <|
    if name = "x" then [3, 2] else if name = "a" then [1, 2, 3] else [2, 3]
  have hsources : e.sources = ["x", "a", "b", "x"] := by simp [e]
  have hsources' : e'.sources = ["a", "x", "b", "x"] := by simp [e']
  have hx : Source.load loader "x" = .ok (sets "x") ∧
      Source.load loader' "x" = .ok (grown "x") := ⟨rfl, rfl⟩
  have ha : Source.load loader "a" = .ok (sets "a") ∧
      Source.load loader' "a" = .ok (grown "a") := ⟨rfl, rfl⟩
  have hb : Source.load loader "b" = .ok (sets "b") ∧
      Source.load loader' "b" = .ok (grown "b") := ⟨rfl, rfl⟩
  have hothers : ∀ name, name ≠ "x" → sets name = grown name := by
    intro name hne
    simp only [sets, grown, if_neg hne]
  have hgrows : sets "x" ⊆ grown "x" := by
    intro n hn
    simp only [sets, grown, IntSet.mem_ofList] at hn ⊢
    exact List.mem_cons_of_mem 3 hn
  obtain ⟨set, set', hrun, hrun', hpos, -⟩ :=
    @evaluate_moves_with_source e "x" loader loader' sets grown
      (by simp [hsources, hx, ha, hb]) (by simp [hsources, hx, ha, hb])
      (fun name _ => hothers name) hgrows
  rw [hsources] at hrun hrun'
  refine ⟨⟨set, set', hrun, hrun', hpos (by decide)⟩, ?_⟩
  obtain ⟨set, set', hrun, hrun', -, hneg⟩ :=
    @evaluate_moves_with_source e' "x" loader loader' sets grown
      (by simp [hsources', hx, ha, hb]) (by simp [hsources', hx, ha, hb])
      (fun name _ => hothers name) hgrows
  rw [hsources'] at hrun hrun'
  exact ⟨set, set', hrun, hrun', hneg (by decide)⟩

end Expr

end SetCalculator
