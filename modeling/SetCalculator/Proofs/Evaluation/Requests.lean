import SetCalculator.Proofs.Evaluation.LoadFirst

/-!
# Which sources are asked for

Evaluating an expression is loading its sources in order (`evaluate_eq`), so
how it ends and what it asks for are settled together by the first source that
has no set of integers, because it is absent, cannot be read or holds a line
that is no integer (`Source.Fails`). However deep in calls that source stands,
its error comes out as it went in, and nothing behind it is asked for.
-/

namespace SetCalculator.Expr

variable {loader : Source.Loader}

theorem evaluate_load_of_fails {name : String} {error : SourceError}
    (h : Source.Fails loader name error) :
    (Expr.load name).evaluate loader = ⟨.error error, [name]⟩ := by
  have hfails : Source.FailsAt loader (Expr.load name).sources [] name error :=
    ⟨[], sources_load name, List.forall_mem_nil _, h⟩
  exact evaluate_of_failsAt hfails

/-- Either none of the sources of an expression fails, and the expression has a
value and asked for all of them, or there is a first that does, and the
expression fails as that source alone does and asked for nothing behind it. -/
theorem evaluate_requests (loader : Source.Loader) (e : Expr) :
    ((∀ name ∈ e.sources, ∀ error, ¬ Source.Fails loader name error) ∧
      ∃ set, e.evaluate loader = ⟨.ok set, e.sources⟩) ∨
    ∃ before name after error, e.sources = before ++ name :: after ∧
      (∀ earlier ∈ before, ∀ error, ¬ Source.Fails loader earlier error) ∧
      Source.Fails loader name error ∧
      (Expr.load name).evaluate loader = ⟨.error error, [name]⟩ ∧
      e.evaluate loader = ⟨.error error, before ++ [name]⟩ := by
  rcases Source.loads_or_failsAt loader e.sources with
    hloads | ⟨before, name, error, hfails⟩
  · exact .inl ⟨hloads, _, evaluate_of_loads hloads⟩
  · have heval := evaluate_of_failsAt hfails
    obtain ⟨after, hsources, hbefore, hname⟩ := hfails
    exact .inr ⟨before, name, after, error, hsources, hbefore, hname,
      evaluate_load_of_fails hname, heval⟩

-- The source of the inner call is absent, so the last one is not asked for.
example :
    let loader : Source.Loader := fun name =>
      if name = "a" then .ok [.ok "1"] else .error .notFound
    let e : Expr :=
      .call .sum [.load "a", .call .int [.load "b"], .load "a"]
    e.evaluate loader = ⟨.error (.notFound "b"), ["a", "b"]⟩ := by
  cbv

end SetCalculator.Expr
