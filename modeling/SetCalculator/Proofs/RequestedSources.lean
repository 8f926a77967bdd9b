import Mathlib.Data.List.Induction
import SetCalculator.Proofs.Evaluation.TwoLoaders
import SetCalculator.Source.Memory

/-!
# Only the sources that are asked for can matter

Which sources a run asks for comes out of the run itself: it is cut off at the
first one that fails. So two loaders need not be compared on all sources of a
program, and cannot be compared before one of them has been tried; it is enough
that they answer alike on what the run with one of them has asked for.

On a shelf the answer for a name is the text that was put there last, wherever
in the order of all texts that was.
-/

namespace SetCalculator

namespace Source.Shelf

/-- Of texts that are put under names in order, the last under a given name. -/
def lastText (texts : List (String × String)) (name : String) :
    Option String :=
  ((texts.filter fun entry => entry.1 == name).getLast?).map Prod.snd

theorem ofList_concat (texts : List (String × String)) (name text : String) :
    ofList (texts ++ [(name, text)]) = (ofList texts).insert name text := by
  rw [ofList, List.foldl_append, List.foldl_cons, List.foldl_nil]
  rfl

theorem get?_ofList (texts : List (String × String)) (name : String) :
    (ofList texts).get? name = lastText texts name := by
  induction texts using List.reverseRecOn with
  | nil => rfl
  | append_singleton texts entry ih =>
      obtain ⟨key, text⟩ := entry
      rw [ofList_concat, lastText, List.filter_append]
      by_cases hkey : key = name
      · subst hkey
        rw [get?_insert]
        simp
      · rw [get?_insert_of_ne _ (Ne.symm hkey), ih, lastText]
        simp [hkey]

theorem loader_ofList_congr {texts texts' : List (String × String)}
    {name : String} (h : lastText texts name = lastText texts' name) :
    (ofList texts).loader name = (ofList texts').loader name := by
  rw [loader, loader, get?_ofList, get?_ofList, h]

end Source.Shelf

namespace Program

/-- Runs with two loaders that answer alike for every source that the first run
asked for are the same run, of an expression and of a program. With texts on a
shelf it is enough that the same text was put last under each of these names. -/
theorem run_depends_on_requests :
    (∀ (e : Expr) (loader loader' : Source.Loader),
      (∀ name ∈ (e.evaluate loader).requests, loader name = loader' name) →
      e.evaluate loader' = e.evaluate loader) ∧
    (∀ (e : Expr) (texts texts' : List (String × String)),
      (∀ name ∈ (e.evaluate (Source.Shelf.ofList texts).loader).requests,
        Source.Shelf.lastText texts name = Source.Shelf.lastText texts' name) →
      e.evaluate (Source.Shelf.ofList texts').loader =
        e.evaluate (Source.Shelf.ofList texts).loader) ∧
    (∀ (registry : Registry) (source : String) (loader loader' : Source.Loader),
      (∀ name ∈ (run registry loader source).requests,
        loader name = loader' name) →
      run registry loader' source = run registry loader source) ∧
    ∀ (registry : Registry) (source : String)
        (texts texts' : List (String × String)),
      (∀ name ∈
        (run registry (Source.Shelf.ofList texts).loader source).requests,
        Source.Shelf.lastText texts name = Source.Shelf.lastText texts' name) →
      run registry (Source.Shelf.ofList texts').loader source =
        run registry (Source.Shelf.ofList texts).loader source := by
  refine ⟨fun e loader loader' h => ?_, fun e texts texts' h => ?_,
    fun registry source loader loader' h => ?_,
    fun registry source texts texts' h => ?_⟩
  · exact Expr.evaluate_eq_of_requests fun name hname =>
      Source.load_congr (h name hname)
  · exact Expr.evaluate_eq_of_requests fun name hname =>
      Source.load_congr (Source.Shelf.loader_ofList_congr (h name hname))
  · exact run_eq_of_requests registry source fun name hname =>
      Source.load_congr (h name hname)
  · exact run_eq_of_requests registry source fun name hname =>
      Source.load_congr (Source.Shelf.loader_ofList_congr (h name hname))

/-- The second text under `a` counts, and the run ends at `b`. What is under
`c`, and what was under `a` before, is not seen. -/
theorem run_does_not_see_behind_failure :
    let texts := [("a", "1"), ("c", "3"), ("b", "x"), ("a", "2")]
    let texts' := [("a", "2"), ("c", ""), ("c", "y"), ("b", "x"), ("d", "4")]
    let e : Expr := .call .sum [.load "a", .load "b", .load "c"]
    e.evaluate (Source.Shelf.ofList texts).loader =
        ⟨.error (.notAnInteger "b" "x" 1), ["a", "b"]⟩ ∧
      e.evaluate (Source.Shelf.ofList texts').loader =
        e.evaluate (Source.Shelf.ofList texts).loader ∧
      run .builtin (Source.Shelf.ofList texts').loader "[ SUM a b c ]" =
        run .builtin (Source.Shelf.ofList texts).loader "[ SUM a b c ]" := by
  intro texts texts' e
  have hcompile : compile .builtin "[ SUM a b c ]" = .ok e := by
    exact compile_eq_ok_iff.2 ⟨[.callStart, .functionName "SUM",
      .fileName "a", .fileName "b", .fileName "c", .callEnd],
      by decide +kernel, rfl⟩
  have hfails : Source.FailsAt (Source.Shelf.ofList texts).loader e.sources
      ["a"] "b" (.notAnInteger "b" "x" 1) := by
    refine ⟨["c"], by simp [e], ?_, Source.load_eq_error_iff.1 rfl⟩
    rw [List.forall_mem_singleton]
    have hread : Source.readItems "a" ((Text.lines "2").map .ok) =
        .ok [2] := rfl
    exact Source.loads_of_load
      (Source.load_of_readItems (Source.Shelf.loader_of_some rfl) hread)
  have hrun : e.evaluate (Source.Shelf.ofList texts).loader =
      ⟨.error (.notAnInteger "b" "x" 1), ["a", "b"]⟩ :=
    Expr.evaluate_of_failsAt hfails
  have hlast : ∀ name ∈ ["a", "b"], Source.Shelf.lastText texts name =
      Source.Shelf.lastText texts' name := by
    decide +kernel
  obtain ⟨-, hevaluate, -, hprogram⟩ := run_depends_on_requests
  refine ⟨hrun, hevaluate e texts texts' ?_, hprogram _ _ texts texts' ?_⟩
  · rw [hrun]
    exact hlast
  · rw [run_of_compile hcompile, hrun]
    exact hlast

end Program

end SetCalculator
