import SetCalculator.SetFunction

/-!
# Expressions

An expression loads a source or calls a function on the values of other
expressions. Programs may nest calls tens of thousands deep, so nothing that
runs may use the call stack once per level. All that runs goes through one walk
instead, `Expr.visits`: the list of what is met on the way through the
expression, from left to right. It keeps the expressions still to come in a list
of its own.

`visits_load` and `visits_call` say what the walk is without its bookkeeping,
and `visits_injective` that nothing is lost on it, so two expressions can be
compared by their walks.
-/

namespace SetCalculator

/-- A program: load a source, or call a function on arguments. -/
inductive Expr where
  | load (source : String)
  | call (function : SetFunction) (args : List Expr)
  deriving Inhabited

/-- What is met on the way through an expression. -/
inductive Visit where
  /-- A source. -/
  | leaf (source : String)
  /-- A call, before its arguments. -/
  | enter (function : SetFunction)
  /-- The end of a call, after its arguments. -/
  | leave
  deriving DecidableEq, Repr

namespace Expr

/-- Induction over expressions, in which the arguments of a call are known one
by one. -/
@[elab_as_elim, induction_eliminator] theorem induction {motive : Expr → Prop}
    (load : ∀ source, motive (.load source))
    (call : ∀ f args, (∀ arg ∈ args, motive arg) → motive (.call f args))
    (e : Expr) :
    motive e :=
  @Expr.rec motive (fun es => ∀ e ∈ es, motive e) load call
    (fun _ h => nomatch h)
    (fun _ _ first rest => List.forall_mem_cons.2 ⟨first, rest⟩) e

/-- The number of nodes of some expressions, taken together. -/
def nodes : List Expr → Nat
  | [] => 0
  | .load _ :: rest => 1 + nodes rest
  | .call _ args :: rest => 1 + nodes args + nodes rest

private theorem nodes_append (es es' : List Expr) :
    nodes (es ++ es') = nodes es + nodes es' := by
  induction es with
  | nil => simp [nodes]
  | cons e rest ih => cases e <;> simp +arith [nodes, ih]

/-- The walk through neighbouring expressions and then, level by level outwards,
through the expressions that follow the calls they stand in. What was met before
stands in `met`, latest first. -/
def visitsFrom : List Expr → List (List Expr) → List Visit → List Visit
  | [], [], met => met.reverse
  | [], next :: outer, met => visitsFrom next outer (.leave :: met)
  | .load source :: rest, outer, met =>
      visitsFrom rest outer (.leaf source :: met)
  | .call f args :: rest, outer, met =>
      visitsFrom args (rest :: outer) (.enter f :: met)
termination_by here outer =>
  2 * (nodes here + nodes outer.flatten) + outer.length
decreasing_by all_goals simp +arith [nodes, nodes_append]

/-- What is met on the way through an expression, from left to right. -/
def visits (e : Expr) : List Visit := visitsFrom [e] [] []

mutual

/-- The walk by recursion on the expression. -/
private def walk : Expr → List Visit
  | .load source => [.leaf source]
  | .call f args => .enter f :: (walkAll args ++ [.leave])

private def walkAll : List Expr → List Visit
  | [] => []
  | e :: rest => walk e ++ walkAll rest

end

private theorem visitsFrom_eq (here : List Expr) (outer : List (List Expr))
    (met : List Visit) :
    visitsFrom here outer met =
      met.reverse ++ (walkAll here ++
        outer.flatMap fun rest => .leave :: walkAll rest) := by
  fun_induction visitsFrom here outer met <;> simp_all [walk, walkAll]

private theorem visits_eq_walk (e : Expr) : visits e = walk e := by
  simp [visits, visitsFrom_eq, walkAll]

private theorem walkAll_eq_flatMap (es : List Expr) :
    walkAll es = es.flatMap visits := by
  induction es with
  | nil => rfl
  | cons e rest ih => rw [walkAll, List.flatMap_cons, ih, visits_eq_walk]

@[simp] theorem visits_load (source : String) :
    visits (.load source) = [.leaf source] := by
  rw [visits_eq_walk, walk]

@[simp] theorem visits_call (f : SetFunction) (args : List Expr) :
    visits (.call f args) = .enter f :: (args.flatMap visits ++ [.leave]) := by
  rw [visits_eq_walk, walk, walkAll_eq_flatMap]

/-! ## Nothing is lost on the walk -/

mutual

private theorem walk_inj {e e' : Expr} {more more' : List Visit}
    (h : walk e ++ more = walk e' ++ more') : e = e' ∧ more = more' := by
  match e, e' with
  | .load s, .load s' => simpa [walk] using h
  | .load _, .call .. => simp [walk] at h
  | .call .., .load _ => simp [walk] at h
  | .call f args, .call f' args' =>
      simp only [walk, List.cons_append, List.cons.injEq, Visit.enter.injEq,
        List.append_assoc, List.nil_append] at h
      obtain ⟨hf, h⟩ := h
      obtain ⟨hargs, hmore⟩ := walkAll_inj h
      exact ⟨by rw [hf, hargs], hmore⟩

private theorem walkAll_inj {es es' : List Expr} {more more' : List Visit}
    (h : walkAll es ++ .leave :: more = walkAll es' ++ .leave :: more') :
    es = es' ∧ more = more' := by
  match es, es' with
  | [], [] => simpa [walkAll] using h
  | [], e' :: _ => cases e' <;> simp [walkAll, walk] at h
  | e :: _, [] => cases e <;> simp [walkAll, walk] at h
  | e :: rest, e' :: rest' =>
      simp only [walkAll, List.append_assoc] at h
      obtain ⟨he, h⟩ := walk_inj h
      obtain ⟨hrest, hmore⟩ := walkAll_inj h
      exact ⟨by rw [he, hrest], hmore⟩

end

theorem visits_injective {e e' : Expr} (h : visits e = visits e') : e = e' := by
  rw [visits_eq_walk, visits_eq_walk] at h
  have h : walk e ++ [] = walk e' ++ [] := by rw [h]
  exact (walk_inj h).1

instance : BEq Expr := ⟨fun e e' => visits e == visits e'⟩

instance : LawfulBEq Expr where
  eq_of_beq h := visits_injective (eq_of_beq h)
  rfl {e} := beq_self_eq_true (visits e)

/-- Expressions are compared by their walks. -/
instance : DecidableEq Expr := fun e e' =>
  decidable_of_iff ((visits e == visits e') = true)
    ⟨fun h => visits_injective (eq_of_beq h),
      fun h => by rw [h]; exact beq_self_eq_true _⟩

/-! ## Sources -/

/-- The source that a step of the walk loads. -/
private def source? : Visit → Option String
  | .leaf source => some source
  | _ => none

/-- The sources in an expression from left to right, each as often as it stands
there. -/
def sources (e : Expr) : List String := e.visits.filterMap source?

@[simp] theorem sources_load (source : String) :
    sources (.load source) = [source] := by
  simp [sources, source?]

@[simp] theorem sources_call (f : SetFunction) (args : List Expr) :
    sources (.call f args) = args.flatMap sources := by
  simp only [sources, visits_call, List.filterMap_cons,
    List.filterMap_append, List.filterMap_nil, List.append_nil, source?,
    List.filterMap_flatMap]
  rfl

theorem mem_sources_of_mem_args {f : SetFunction} {args : List Expr}
    {arg : Expr} (harg : arg ∈ args) {name : String}
    (h : name ∈ arg.sources) :
    name ∈ sources (.call f args) := by
  rw [sources_call]
  exact List.mem_flatMap.2 ⟨arg, harg, h⟩

end Expr

end SetCalculator
