import SetCalculator.Expr.Subterms
import SetCalculator.Proofs.Evaluation.LoadFirst
import SetCalculator.Proofs.SetAlgebra

/-!
# Nested calls may be flattened

Evaluating is loading the sources in order and then computing a value
(`evaluate_eq`). Taking the brackets of an inner call away changes neither the
sources nor their order, so all that has to be seen to is the value, and the
values of nested calls are set algebra.

That a part may be replaced inside a larger expression is not so plain. Two
parts that no loader tells apart may have values that differ when one of their
sources fails; but then nothing of these values comes out. So what follows a
part is only known to agree after its sources have loaded (`andThen_congr`), and
that is what the induction over the surroundings carries.
-/

namespace SetCalculator

/-- Executions that come to the same with their values handed out come to the
same with these values handed on. -/
theorem Execution.andThen_congr {ε α β γ : Type} {first first' : Execution ε α}
    {value value' : β}
    (h : first.andThen ⟨.ok value, []⟩ = first'.andThen ⟨.ok value', []⟩)
    (next : β → Execution ε γ) :
    first.andThen (next value) = first'.andThen (next value') := by
  obtain ⟨outcome, asked⟩ := first
  obtain ⟨outcome', asked'⟩ := first'
  cases outcome with
  | error error =>
      cases outcome' with
      | error error' =>
          cases h
          rfl
      | ok _ => cases h
  | ok _ =>
      cases outcome' with
      | error error' => cases h
      | ok _ =>
          simp only [ok_andThen, List.append_nil] at h
          cases h
          rfl

namespace Expr

/-- No loader tells the expressions apart: they have the same set or fail with
the same error, and ask for the same sources in the same order. -/
def Interchangeable (e e' : Expr) : Prop :=
  ∀ loader, e.evaluate loader = e'.evaluate loader

/-- An expression with a gap in it. -/
inductive Context where
  | gap
  | call (function : SetFunction) (before : List Expr) (inner : Context)
      (after : List Expr)

/-- The expression that comes about when another one is put into the gap. -/
def Context.fill : Context → Expr → Expr
  | .gap, e => e
  | .call f before inner after, e => .call f (before ++ inner.fill e :: after)

/-! ## Inside a larger expression -/

/-- Whatever stands in an expression stands in a gap of it. -/
theorem exists_fill_of_mem_subterms {e part : Expr} (h : part ∈ e.subterms) :
    ∃ context : Context, context.fill part = e := by
  induction e with
  | load source =>
      rw [subterms_load, List.mem_singleton] at h
      exact ⟨.gap, h⟩
  | call f args ih =>
      rw [subterms_call, List.mem_cons, List.mem_flatMap] at h
      rcases h with rfl | ⟨arg, harg, hpart⟩
      · exact ⟨.gap, rfl⟩
      · obtain ⟨context, hfill⟩ := ih arg harg hpart
        obtain ⟨before, after, hargs⟩ := List.append_of_mem harg
        refine ⟨.call f before context after, ?_⟩
        rw [Context.fill, hfill, hargs]

/-- A call is evaluated up to one of its arguments, then the argument, and then
from there. -/
theorem evaluate_call_append (loader : Source.Loader) (f : SetFunction)
    (before : List Expr) (e : Expr) (after : List Expr) :
    (Expr.call f (before ++ e :: after)).evaluate loader =
      (Source.loadEach loader (before.flatMap sources)).andThen
        ((Source.loadEach loader e.sources).andThen
          ((Source.loadEach loader (after.flatMap sources)).andThen
            ⟨.ok (f.apply (before.map (value (Source.loaded loader)) ++
              e.value (Source.loaded loader) ::
                after.map (value (Source.loaded loader)))), []⟩)) := by
  rw [evaluate_eq, sources_call, List.flatMap_append, List.flatMap_cons,
    Source.loadEach_append, Source.loadEach_append, Execution.andThen_assoc,
    Execution.andThen_assoc, value_call, List.map_append, List.map_cons]

theorem evaluate_call_congr {loader : Source.Loader} {e e' : Expr}
    (h : e.evaluate loader = e'.evaluate loader) (f : SetFunction)
    (before after : List Expr) :
    (Expr.call f (before ++ e :: after)).evaluate loader =
      (Expr.call f (before ++ e' :: after)).evaluate loader := by
  rw [evaluate_eq, evaluate_eq] at h
  rw [evaluate_call_append, evaluate_call_append]
  exact congrArg _ <| Execution.andThen_congr h fun set =>
    (Source.loadEach loader (after.flatMap sources)).andThen
      ⟨.ok (f.apply (before.map (value (Source.loaded loader)) ++
        set :: after.map (value (Source.loaded loader)))), []⟩

theorem Interchangeable.fill {e e' : Expr} (h : Interchangeable e e')
    (context : Context) :
    Interchangeable (context.fill e) (context.fill e') := by
  induction context with
  | gap => exact h
  | call f before inner after ih =>
      exact fun loader => evaluate_call_congr (ih loader) f before after

/-! ## Brackets that may go -/

/-- A call around some arguments of another call may go if the functions do not
miss it: the sources stand in the same order with it and without it. -/
theorem interchangeable_of_apply {f g : SetFunction}
    {before args after : List Expr}
    (h : ∀ sets, f.apply (before.map (value sets) ++
        g.apply (args.map (value sets)) :: after.map (value sets)) =
      f.apply (before.map (value sets) ++ args.map (value sets) ++
        after.map (value sets))) :
    Interchangeable (.call f (before ++ .call g args :: after))
      (.call f (before ++ args ++ after)) := by
  intro loader
  have hsources : sources (.call f (before ++ .call g args :: after)) =
      sources (.call f (before ++ args ++ after)) := by
    simp only [sources_call, List.flatMap_append, List.flatMap_cons,
      List.append_assoc]
  have hvalue : ∀ sets, value sets (.call f (before ++ .call g args :: after)) =
      value sets (.call f (before ++ args ++ after)) := by
    intro sets
    rw [value_call, value_call, List.map_append, List.map_cons, value_call,
      List.map_append, List.map_append]
    exact h sets
  rw [evaluate_eq, evaluate_eq, hsources, hvalue]

theorem interchangeable_single (f : SetFunction) (e : Expr) :
    Interchangeable (.call f [e]) e := by
  intro loader
  rw [evaluate_eq, evaluate_eq, sources_call, List.flatMap_singleton,
    value_call]
  rfl

/-- The brackets of a call may go where it is the first argument of a call of
the same function, where it is any argument of a union or an intersection of its
own kind, and where it is a union that is taken away from something; and around
a single argument. They may go anywhere inside a larger expression. -/
theorem nested_calls_flatten {args : List Expr} (nonempty : args ≠ [])
    (before after : List Expr) :
    (∀ f, Interchangeable (.call f (.call f args :: after))
      (.call f (args ++ after))) ∧
    (∀ f, f ≠ .dif →
      Interchangeable (.call f (before ++ .call f args :: after))
        (.call f (before ++ args ++ after))) ∧
    (before ≠ [] →
      Interchangeable (.call .dif (before ++ .call .sum args :: after))
        (.call .dif (before ++ args ++ after))) ∧
    (∀ f e, Interchangeable (.call f [e]) e) ∧
    (∀ e e', Interchangeable e e' → ∀ context : Context,
      Interchangeable (context.fill e) (context.fill e')) ∧
    ∀ e part, part ∈ subterms e →
      ∃ context : Context, context.fill part = e := by
  have hmap : ∀ {es : List Expr} (sets : String → IntSet), es ≠ [] →
      es.map (value sets) ≠ [] := by
    intro es sets h
    rwa [ne_eq, List.map_eq_nil_iff]
  refine ⟨fun f => ?_, fun f hf => ?_, fun hbefore => ?_,
    interchangeable_single, fun _ _ h => h.fill,
    fun _ _ => exists_fill_of_mem_subterms⟩
  · exact @interchangeable_of_apply f f [] args after fun sets =>
      f.apply_apply_cons (hmap sets nonempty)
  · exact interchangeable_of_apply fun sets =>
      SetFunction.apply_append_apply hf (hmap sets nonempty) _ _
  · exact interchangeable_of_apply fun sets =>
      SetFunction.apply_dif_append_sum (hmap sets hbefore) _ _

/-- A union is taken away inside an intersection, from something that has lost
another source before. -/
theorem nested_union_flattens_in_difference :
    Interchangeable
      (.call .int [.load "d", .call .dif [.load "a", .load "b",
        .call .sum [.load "c", .load "d"], .load "e"]])
      (.call .int [.load "d", .call .dif [.load "a", .load "b",
        .load "c", .load "d", .load "e"]]) := by
  obtain ⟨-, -, hdif, -, hinside, -⟩ :=
    nested_calls_flatten (List.cons_ne_nil (Expr.load "c") [.load "d"])
      [.load "a", .load "b"] [.load "e"]
  exact hinside _ _ (hdif (List.cons_ne_nil _ _))
    (.call .int [.load "d"] .gap [])

end Expr

end SetCalculator
