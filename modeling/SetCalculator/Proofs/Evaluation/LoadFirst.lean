import SetCalculator.Evaluation
import SetCalculator.Expr.Value
import SetCalculator.Proofs.Evaluation.FirstFailure

/-!
# Evaluation loads first and computes afterwards

The evaluator works along the walk and mixes the two: it loads a source where
the walk meets one and applies a call where the walk leaves it. But nothing it
loads depends on what it has computed. So evaluating an expression is loading
its sources one after the other, up to the first that fails, and then, if none
did, computing a value from the sets they have (`evaluate_eq`). All that can go
wrong, and all that is asked for, is in the first part; the second is a plain
recursion over the expression.
-/

namespace SetCalculator

/-! ## One execution after another -/

namespace Execution

variable {ε α β γ : Type}

/-- An execution and then another one, unless the first fails. -/
def andThen (first : Execution ε α) (next : Execution ε β) : Execution ε β :=
  match first.outcome with
  | .ok _ => ⟨next.outcome, first.requests ++ next.requests⟩
  | .error error => ⟨.error error, first.requests⟩

@[simp] theorem ok_andThen (value : α) (asked : List String)
    (next : Execution ε β) :
    andThen ⟨.ok value, asked⟩ next =
      ⟨next.outcome, asked ++ next.requests⟩ := rfl

@[simp] theorem error_andThen (error : ε) (asked : List String)
    (next : Execution ε β) :
    andThen (⟨.error error, asked⟩ : Execution ε α) next =
      ⟨.error error, asked⟩ := rfl

theorem andThen_assoc (first : Execution ε α) (second : Execution ε β)
    (third : Execution ε γ) :
    (first.andThen second).andThen third =
      first.andThen (second.andThen third) := by
  obtain ⟨outcome, asked⟩ := first
  obtain ⟨outcome', asked'⟩ := second
  cases outcome with
  | error error => rfl
  | ok value =>
      cases outcome' with
      | error error => rfl
      | ok value' => simp [List.append_assoc]

end Execution

/-! ## Loading sources in order -/

namespace Source

/-- Loads sources one after the other, up to the first that fails. -/
def loadEach (loader : Loader) : List String → Execution SourceError Unit
  | [] => ⟨.ok (), []⟩
  | name :: rest =>
      Execution.andThen ⟨load loader name, [name]⟩ (loadEach loader rest)

theorem loadEach_append (loader : Loader) (xs ys : List String) :
    loadEach loader (xs ++ ys) =
      (loadEach loader xs).andThen (loadEach loader ys) := by
  induction xs with
  | nil => rfl
  | cons name rest ih =>
      rw [List.cons_append, loadEach, ih, loadEach, Execution.andThen_assoc]

/-- The set of a source, and no integers if it has none. -/
def loaded (loader : Loader) (name : String) : IntSet :=
  match load loader name with
  | .ok set => set
  | .error _ => ∅

theorem loaded_eq {loader : Loader} {name : String} {set : IntSet}
    (h : load loader name = .ok set) : loaded loader name = set := by
  rw [loaded, h]

/-- Among some sources, the first that has no set of integers comes after the
given ones, and this is why it has none. -/
def FailsAt (loader : Loader) (names before : List String) (name : String)
    (error : SourceError) : Prop :=
  ∃ after, names = before ++ name :: after ∧
    (∀ earlier ∈ before, Loads loader earlier) ∧ Fails loader name error

/-- Either all of some sources have their sets, or there is a first one that
has none. -/
theorem loads_or_failsAt (loader : Loader) (names : List String) :
    (∀ name ∈ names, Loads loader name) ∨
      ∃ before name error, FailsAt loader names before name error := by
  induction names with
  | nil => exact .inl (List.forall_mem_nil _)
  | cons name rest ih =>
      by_cases hfails : ∃ error, Fails loader name error
      · obtain ⟨error, hfails⟩ := hfails
        exact .inr ⟨[], name, error, rest, rfl, List.forall_mem_nil _, hfails⟩
      · have hname : Loads loader name := not_exists.1 hfails
        rcases ih with hall | ⟨before, failing, error, after, hrest, hbefore, h⟩
        · exact .inl (List.forall_mem_cons.2 ⟨hname, hall⟩)
        · refine .inr ⟨name :: before, failing, error, after, ?_, ?_, h⟩
          · rw [hrest, List.cons_append]
          · exact List.forall_mem_cons.2 ⟨hname, hbefore⟩

theorem loadEach_of_loads {loader : Loader} {names : List String}
    (h : ∀ name ∈ names, Loads loader name) :
    loadEach loader names = ⟨.ok (), names⟩ := by
  induction names with
  | nil => rfl
  | cons name rest ih =>
      obtain ⟨hname, hrest⟩ := List.forall_mem_cons.1 h
      obtain ⟨set, hset⟩ := loads_iff.1 hname
      rw [loadEach, ih hrest, hset]
      rfl

theorem loadEach_of_failsAt {loader : Loader} {names before : List String}
    {name : String} {error : SourceError}
    (h : FailsAt loader names before name error) :
    loadEach loader names = ⟨.error error, before ++ [name]⟩ := by
  obtain ⟨after, rfl, hbefore, hfails⟩ := h
  rw [loadEach_append, loadEach_of_loads hbefore, loadEach,
    load_of_fails hfails]
  rfl

end Source

namespace Expr

/-! ## The evaluator -/

variable {loader : Source.Loader}

/-- What was asked for before makes no difference to what happens after. -/
theorem evaluateFrom_asked (visits : List Visit) (done : List IntSet)
    (outer : List Entered) (asked : List String) :
    evaluateFrom loader visits done outer asked =
      Execution.andThen ⟨.ok (), asked.reverse⟩
        (evaluateFrom loader visits done outer []) := by
  induction visits generalizing done outer asked with
  | nil => rw [evaluateFrom, evaluateFrom]; simp
  | cons visit rest ih =>
      cases visit with
      | leaf source =>
          rw [evaluateFrom, evaluateFrom]
          cases hload : Source.load loader source with
          | error error => simp
          | ok set =>
              simp only
              rw [ih _ _ (source :: asked), ih _ _ [source]]
              simp [List.append_assoc]
      | enter f => rw [evaluateFrom, evaluateFrom, ih]
      | leave =>
          cases outer with
          | nil => rw [evaluateFrom, evaluateFrom, ih]
          | cons innermost outer => rw [evaluateFrom, evaluateFrom, ih]

/-- What holds of some expressions one by one holds of them in a row. -/
theorem evaluateFrom_flatMap {args : List Expr}
    (h : ∀ arg ∈ args, ∀ rest done outer,
      evaluateFrom loader (arg.visits ++ rest) done outer [] =
        (Source.loadEach loader arg.sources).andThen (evaluateFrom loader rest
          (arg.value (Source.loaded loader) :: done) outer []))
    (rest : List Visit) (done : List IntSet) (outer : List Entered) :
    evaluateFrom loader (args.flatMap visits ++ rest) done outer [] =
      (Source.loadEach loader (args.flatMap sources)).andThen
        (evaluateFrom loader rest
          ((args.map (value (Source.loaded loader))).reverse ++ done)
          outer []) := by
  induction args generalizing done with
  | nil => rfl
  | cons arg args ih =>
      obtain ⟨harg, hargs⟩ := List.forall_mem_cons.1 h
      rw [List.flatMap_cons, List.append_assoc, harg, ih hargs,
        ← Execution.andThen_assoc, ← Source.loadEach_append,
        List.flatMap_cons, List.map_cons, List.reverse_cons, List.append_assoc]
      rfl

/-- Along the walk through an expression the evaluator loads its sources, and
if they all have their sets it goes on with one operand more. -/
theorem evaluateFrom_visits (e : Expr) (rest : List Visit)
    (done : List IntSet) (outer : List Entered) :
    evaluateFrom loader (e.visits ++ rest) done outer [] =
      (Source.loadEach loader e.sources).andThen (evaluateFrom loader rest
        (e.value (Source.loaded loader) :: done) outer []) := by
  induction e generalizing rest done outer with
  | load source =>
      rw [visits_load, sources_load, List.singleton_append, evaluateFrom,
        value_load, Source.loaded, Source.loadEach, Source.loadEach]
      cases hload : Source.load loader source with
      | error error => rfl
      | ok set =>
          simp only
          rw [evaluateFrom_asked]
          rfl
  | call f args ih =>
      -- The arguments pile up on no operands, in reverse, and the end of the
      -- call turns them round and restores those that were there before.
      rw [visits_call, sources_call, value_call, List.cons_append,
        List.append_assoc, List.singleton_append, evaluateFrom,
        evaluateFrom_flatMap ih, evaluateFrom, List.append_nil,
        List.reverse_reverse]

/-- Evaluating an expression is loading its sources in order and, if none of
them fails, computing its value from their sets. -/
theorem evaluate_eq (loader : Source.Loader) (e : Expr) :
    e.evaluate loader = (Source.loadEach loader e.sources).andThen
      ⟨.ok (e.value (Source.loaded loader)), []⟩ := by
  rw [evaluate, ← List.append_nil e.visits, evaluateFrom_visits, evaluateFrom]
  rfl

theorem evaluate_of_loads {e : Expr}
    (h : ∀ name ∈ e.sources, Source.Loads loader name) :
    e.evaluate loader =
      ⟨.ok (e.value (Source.loaded loader)), e.sources⟩ := by
  rw [evaluate_eq, Source.loadEach_of_loads h, Execution.ok_andThen,
    List.append_nil]

theorem evaluate_of_failsAt {e : Expr} {before : List String} {name : String}
    {error : SourceError}
    (h : Source.FailsAt loader e.sources before name error) :
    e.evaluate loader = ⟨.error error, before ++ [name]⟩ := by
  rw [evaluate_eq, Source.loadEach_of_failsAt h, Execution.error_andThen]

end Expr

end SetCalculator
