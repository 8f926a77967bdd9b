import SetCalculator.Program
import SetCalculator.Proofs.Evaluation.LoadFirst
import SetCalculator.Proofs.Evaluation.Meaning

/-!
# What a program comes out with

A program goes through its stages in a fixed order, and only the last of them
asks for sources. So it comes out with the first thing that is wrong with it: a
word, then a token, then a source. If nothing is, its values are exactly the
integers that its expression means.
-/

namespace SetCalculator

namespace Expr

/-- An evaluation comes out with the failure of the first source that has no
set, and with what the expression means if there is no such source. -/
theorem evaluate_outcome (loader : Source.Loader) (e : Expr) :
    (∃ before name error,
      Source.FailsAt loader e.sources before name error ∧
      (e.evaluate loader).outcome = .error error) ∨
    ((∀ name ∈ e.sources, Source.Loads loader name) ∧
      ∃ set, (e.evaluate loader).outcome = .ok set ∧
        ∀ n, n ∈ set ↔ e.Denotes fun name => Source.Holds loader name n) := by
  rcases Source.loads_or_failsAt loader e.sources with
    hloads | ⟨before, name, error, hfails⟩
  · rw [evaluate_of_loads hloads]
    refine .inr ⟨hloads, _, rfl, fun n => ?_⟩
    refine mem_value_iff e fun name hname => ?_
    obtain ⟨set, hset⟩ := Source.loads_iff.1 (hloads name hname)
    rw [Source.loaded_eq hset]
    exact Source.mem_load_iff hset
  · rw [evaluate_of_failsAt hfails]
    exact .inl ⟨before, name, error, hfails, rfl⟩

end Expr

namespace Program

theorem compile_eq (registry : Registry) (source : String) :
    compile registry source =
      match Token.ofText source with
      | .error error => .error (.lexical error)
      | .ok tokens =>
          match Expr.ofTokens registry tokens with
          | .error error => .error (.compile error)
          | .ok root => .ok root := by
  rw [compile, tokens]
  cases Token.ofText source with
  | error error => rfl
  | ok tokens =>
      show (Expr.ofTokens registry tokens).mapError Problem.compile =
        match Expr.ofTokens registry tokens with
        | .error error => .error (.compile error)
        | .ok root => .ok root
      cases Expr.ofTokens registry tokens <;> rfl

theorem compile_eq_ok_iff {registry : Registry} {source : String} {e : Expr} :
    compile registry source = .ok e ↔
      ∃ tokens, Token.ofText source = .ok tokens ∧
        Expr.ofTokens registry tokens = .ok e := by
  rw [compile_eq]
  cases htokens : Token.ofText source with
  | error error => simp
  | ok tokens => cases hroot : Expr.ofTokens registry tokens <;> simp [hroot]

theorem run_of_compile {registry : Registry} {loader : Source.Loader}
    {source : String} {e : Expr} (h : compile registry source = .ok e) :
    run registry loader source =
      (e.evaluate loader).mapBoth .runtime IntSet.toList := by
  rw [run, h]

theorem run_of_not_compile {registry : Registry} {loader : Source.Loader}
    {source : String} {problem : Problem}
    (h : compile registry source = .error problem) :
    run registry loader source = ⟨.error problem, []⟩ := by
  rw [run, h]

/-- A program comes out with its first unknown word, else with its compile
error, in both cases without asking for a source; else with the failure of its
first source that has no set; else with the integers that it means, ascending
and without duplicates. -/
theorem run_outcome (registry : Registry) (loader : Source.Loader)
    (source : String) :
    match Token.ofText source with
    | .error error =>
        run registry loader source = ⟨.error (.lexical error), []⟩
    | .ok tokens =>
        match Expr.ofTokens registry tokens with
        | .error error =>
            run registry loader source = ⟨.error (.compile error), []⟩
        | .ok root =>
            (∃ before name error,
              Source.FailsAt loader root.sources before name error ∧
              (run registry loader source).outcome =
                .error (.runtime error)) ∨
            ((∀ name ∈ root.sources, Source.Loads loader name) ∧
              ∃ values, (run registry loader source).outcome = .ok values ∧
                values.Pairwise (· < ·) ∧
                ∀ n, n ∈ values ↔
                  root.Denotes fun name => Source.Holds loader name n) := by
  cases htokens : Token.ofText source with
  | error error =>
      show run registry loader source = _
      rw [run, compile_eq, htokens]
  | ok tokens =>
      dsimp only
      cases hroot : Expr.ofTokens registry tokens with
      | error error =>
          show run registry loader source = _
          rw [run, compile_eq, htokens]
          simp only [hroot]
      | ok root =>
          have hcompile : compile registry source = .ok root :=
            compile_eq_ok_iff.2 ⟨tokens, htokens, hroot⟩
          have hrun : run registry loader source =
              (root.evaluate loader).mapBoth .runtime IntSet.toList := by
            rw [run, hcompile]
          show _ ∨ _
          rw [hrun, Execution.mapBoth]
          rcases root.evaluate_outcome loader with
            ⟨before, name, error, hfails, houtcome⟩ |
            ⟨hloads, set, houtcome, hset⟩
          · rw [houtcome]
            exact .inl ⟨before, name, error, hfails, rfl⟩
          · rw [houtcome]
            exact .inr ⟨hloads, set.toList, rfl, set.ascending, hset⟩

end Program

end SetCalculator
