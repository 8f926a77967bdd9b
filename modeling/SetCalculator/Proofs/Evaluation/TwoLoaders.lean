import SetCalculator.Proofs.ProgramMeaning

/-!
# Runs with two loaders

A run sees of a loader only what loading gives, source by source, and only for
the sources it asks for. Two loaders with which these load alike give the same
run. Where they do not, and one of them can only fail there, a run with that
one is the same as with the other up to a source at which it does fail.
-/

namespace SetCalculator

/-! ## Requests -/

theorem Execution.requests_andThen {ε α β : Type} (first : Execution ε α)
    (next : Execution ε β) :
    first.requests <+: (first.andThen next).requests := by
  obtain ⟨outcome, asked⟩ := first
  cases outcome with
  | error error => exact List.prefix_refl asked
  | ok value => exact List.prefix_append asked next.requests

/-- Nothing is asked for but the sources of the expression. -/
theorem Expr.mem_sources_of_mem_requests {loader : Source.Loader} {e : Expr}
    {name : String} (h : name ∈ (e.evaluate loader).requests) :
    name ∈ e.sources := by
  rcases Source.loads_or_failsAt loader e.sources with
    hloads | ⟨before, failing, error, hfails⟩
  · rw [evaluate_of_loads hloads] at h
    exact h
  · rw [evaluate_of_failsAt hfails] at h
    obtain ⟨after, hsources, -, -⟩ := hfails
    rw [hsources, List.append_cons]
    exact List.mem_append_left after h

theorem Program.mem_sources_of_mem_requests {registry : Registry}
    {loader : Source.Loader} {source name : String} {e : Expr}
    (hcompile : compile registry source = .ok e)
    (h : name ∈ (run registry loader source).requests) : name ∈ e.sources := by
  rw [run_of_compile hcompile] at h
  exact Expr.mem_sources_of_mem_requests h

/-- A source is asked for when all sources before it load. -/
theorem Expr.requests_evaluate {loader : Source.Loader} {e : Expr}
    {before after : List String} {name : String}
    (hsources : e.sources = before ++ name :: after)
    (hbefore : ∀ earlier ∈ before, Source.Loads loader earlier) :
    before ++ [name] <+: (e.evaluate loader).requests := by
  have hasked : (Source.loadEach loader (before ++ [name])).requests =
      before ++ [name] := by
    rw [Source.loadEach_append, Source.loadEach_of_loads hbefore,
      Execution.ok_andThen]
    show before ++ (Source.loadEach loader [name]).requests = _
    rw [Source.loadEach]
    cases Source.load loader name <;> rfl
  have hall : e.sources = (before ++ [name]) ++ after := by
    rw [hsources, List.append_assoc, List.singleton_append]
  rw [evaluate_eq, hall, Source.loadEach_append, Execution.andThen_assoc]
  have hfirst := Execution.requests_andThen
    (Source.loadEach loader (before ++ [name]))
    ((Source.loadEach loader after).andThen
      (⟨.ok (e.value (Source.loaded loader)), []⟩ :
        Execution SourceError IntSet))
  rw [hasked] at hfirst
  exact hfirst

/-! ## Loading alike -/

variable {loader loader' : Source.Loader}

theorem Source.load_congr {name : String} (h : loader name = loader' name) :
    load loader name = load loader' name := by
  rw [load, load, h]

theorem Source.fails_congr {name : String} {error : SourceError}
    (h : load loader name = load loader' name) :
    Fails loader name error ↔ Fails loader' name error := by
  rw [← load_eq_error_iff, ← load_eq_error_iff, h]

theorem Source.loads_congr {name : String}
    (h : load loader name = load loader' name) :
    Loads loader name ↔ Loads loader' name :=
  forall_congr' fun _ => not_congr (fails_congr h)

theorem Source.loadEach_congr {names : List String}
    (h : ∀ name ∈ names, load loader name = load loader' name) :
    loadEach loader names = loadEach loader' names := by
  induction names with
  | nil => rfl
  | cons name rest ih =>
      obtain ⟨hname, hrest⟩ := List.forall_mem_cons.1 h
      rw [loadEach, loadEach, hname, ih hrest]

namespace Expr

/-- The value of an expression depends on the sets of its sources only. -/
theorem value_congr {sets sets' : String → IntSet} {e : Expr}
    (h : ∀ name ∈ e.sources, sets name = sets' name) :
    e.value sets = e.value sets' :=
  IntSet.ext fun _ => mem_value_congr fun name hname => by rw [h name hname]

theorem evaluate_congr {e : Expr}
    (h : ∀ name ∈ e.sources, Source.load loader name =
      Source.load loader' name) :
    e.evaluate loader = e.evaluate loader' := by
  have hsets : ∀ name ∈ e.sources, Source.loaded loader name =
      Source.loaded loader' name := by
    intro name hname
    rw [Source.loaded, Source.loaded, h name hname]
  rw [evaluate_eq, evaluate_eq, Source.loadEach_congr h, value_congr hsets]

/-- Once the set of each source is known, so is the value. -/
theorem evaluate_of_sets {e : Expr} {sets : String → IntSet}
    (h : ∀ name ∈ e.sources, Source.load loader name = .ok (sets name)) :
    e.evaluate loader = ⟨.ok (e.value sets), e.sources⟩ := by
  rw [evaluate_of_loads fun name hname => Source.loads_of_load (h name hname),
    value_congr fun name hname => Source.loaded_eq (h name hname)]

/-- What a loader has for the sources that were not asked for plays no part. -/
theorem evaluate_eq_of_requests {e : Expr}
    (h : ∀ name ∈ (e.evaluate loader).requests,
      Source.load loader name = Source.load loader' name) :
    e.evaluate loader' = e.evaluate loader := by
  rcases Source.loads_or_failsAt loader e.sources with
    hloads | ⟨before, name, error, hfails⟩
  · rw [evaluate_of_loads hloads] at h
    exact (evaluate_congr h).symm
  · rw [evaluate_of_failsAt hfails] at h ⊢
    obtain ⟨hbefore, hname⟩ := List.forall_mem_append.1 h
    obtain ⟨after, hsources, hloads, hfailing⟩ := hfails
    refine evaluate_of_failsAt ⟨after, hsources, fun earlier hmem => ?_, ?_⟩
    · exact (Source.loads_congr (hbefore earlier hmem)).1 (hloads earlier hmem)
    · exact (Source.fails_congr (hname name List.mem_cons_self)).1 hfailing

/-- With a loader that can only fail where it differs from another, on the
sources that were asked for, an expression is evaluated as with the other, or it
fails at a source where the two differ. The other one then asks for that source
as well. -/
theorem evaluate_eq_or_fails {Differs : String → SourceError → Prop} {e : Expr}
    (h : ∀ name ∈ (e.evaluate loader).requests,
      Source.load loader name = Source.load loader' name ∨
        ∃ error, Source.load loader name = .error error ∧
          Differs name error) :
    e.evaluate loader = e.evaluate loader' ∨
      ∃ before name error, Differs name error ∧
        e.evaluate loader = ⟨.error error, before ++ [name]⟩ ∧
        before ++ [name] <+: (e.evaluate loader').requests := by
  have hsame : ∀ name ∈ (e.evaluate loader).requests,
      Source.Loads loader name →
        Source.load loader name = Source.load loader' name := by
    intro name hname hloads
    obtain ⟨set, hset⟩ := Source.loads_iff.1 hloads
    rcases h name hname with hsame | ⟨error, herror, -⟩
    · exact hsame
    · rw [hset] at herror
      cases herror
  rcases Source.loads_or_failsAt loader e.sources with
    hloads | ⟨before, name, error, hfails⟩
  · rw [evaluate_of_loads hloads] at hsame
    exact .inl (evaluate_congr fun name hname =>
      hsame name hname (hloads name hname))
  · have hrun := evaluate_of_failsAt hfails
    rw [hrun] at h hsame
    obtain ⟨after, hsources, hbefore, hfailing⟩ := hfails
    have hearlier : ∀ earlier ∈ before,
        Source.load loader earlier = Source.load loader' earlier :=
      fun earlier hmem => hsame earlier (List.mem_append_left _ hmem)
        (hbefore earlier hmem)
    rcases h name (List.mem_append_right _ (List.mem_singleton_self name)) with
      hname | ⟨error', herror', hdiffers⟩
    · refine .inl (evaluate_eq_of_requests ?_).symm
      rw [hrun, List.forall_mem_append, List.forall_mem_singleton]
      exact ⟨hearlier, hname⟩
    · rw [Source.load_of_fails hfailing] at herror'
      cases herror'
      have hbefore' : ∀ earlier ∈ before, Source.Loads loader' earlier :=
        fun earlier hmem =>
          (Source.loads_congr (hearlier earlier hmem)).1 (hbefore earlier hmem)
      exact .inr ⟨before, name, error, hdiffers, hrun,
        requests_evaluate hsources hbefore'⟩

end Expr

namespace Program

theorem run_eq_of_requests (registry : Registry) (source : String)
    (h : ∀ name ∈ (run registry loader source).requests,
      Source.load loader name = Source.load loader' name) :
    run registry loader' source = run registry loader source := by
  cases hcompile : compile registry source with
  | error problem =>
      rw [run_of_not_compile hcompile, run_of_not_compile hcompile]
  | ok e =>
      rw [run_of_compile hcompile] at h ⊢
      rw [run_of_compile hcompile, Expr.evaluate_eq_of_requests h]

/-- With a loader that can only fail where it differs from another, on the
sources that were asked for, a program runs as with the other, or it fails at a
source where the two differ. -/
theorem run_eq_or_fails {Differs : String → SourceError → Prop}
    (registry : Registry) (source : String)
    (h : ∀ name ∈ (run registry loader source).requests,
      Source.load loader name = Source.load loader' name ∨
        ∃ error, Source.load loader name = .error error ∧
          Differs name error) :
    run registry loader source = run registry loader' source ∨
      ∃ before name error, Differs name error ∧
        run registry loader source =
          ⟨.error (.runtime error), before ++ [name]⟩ ∧
        before ++ [name] <+: (run registry loader' source).requests := by
  cases hcompile : compile registry source with
  | error problem =>
      rw [run_of_not_compile hcompile, run_of_not_compile hcompile]
      exact .inl rfl
  | ok e =>
      rw [run_of_compile hcompile] at h ⊢
      rw [run_of_compile hcompile]
      rcases Expr.evaluate_eq_or_fails h with
        hsame | ⟨before, name, error, hdiffers, hrun, hasked⟩
      · exact .inl (by rw [hsame])
      · exact .inr ⟨before, name, error, hdiffers, by rw [hrun]; rfl, hasked⟩

end Program

end SetCalculator
