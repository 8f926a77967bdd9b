import SetCalculator.Proofs.Reading.Steps

/-!
# What a larger registry changes

The registry is asked for nothing but the names of functions, and a name that
it knows it knows under every larger registry too. So the steps that consume a
token stay steps, and a run under a registry is a run under every larger one:
programs stay programs, with the same expressions.

A refusal asks the registry only when it says that a function is unknown. All
others stay, and so does this one as long as the name stays unknown. Once the
name is known the token is consumed, and whatever comes after it, the tokens
turn out to be a program or the error stands further behind.
-/

namespace SetCalculator

namespace Registry

/-- Every function of the registry is one of the larger registry. -/
def Within (registry larger : Registry) : Prop :=
  ∀ f, registry.holds f = true → larger.holds f = true

theorem Within.get?_eq_some {registry larger : Registry}
    (h : registry.Within larger) {name : String} {f : SetFunction}
    (hget : registry.get? name = some f) : larger.get? name = some f := by
  obtain ⟨hname, hholds⟩ := get?_eq_some_iff.1 hget
  exact get?_eq_some_iff.2 ⟨hname, h f hholds⟩

theorem contains_eq_true_iff {registry : Registry} {name : String} :
    registry.contains name = true ↔ ∃ f, registry.get? name = some f := by
  rw [contains, Option.isSome_iff_exists]

theorem contains_eq_false_iff {registry : Registry} {name : String} :
    registry.contains name = false ↔ registry.get? name = none := by
  rw [contains, Option.isSome_eq_false_iff, Option.isNone_iff_eq_none]

end Registry

namespace Expr

variable {registry larger : Registry}

/-! ## Steps and runs stay -/

theorem Consumes.in_larger (within : registry.Within larger)
    {state : ReadState} {token : Token} {next : Progress}
    (h : Consumes registry state token next) :
    Consumes larger state token next := by
  cases h with
  | source name calls => exact .source name calls
  | start opening calls => exact .start opening calls
  | name calls known => exact .name calls (within.get?_eq_some known)
  | finish closing f outer some_arg => exact .finish closing f outer some_arg

theorem Leads.in_larger (within : registry.Within larger)
    {start final : Progress} {tokens : List Token}
    (h : Leads registry start tokens final) :
    Leads larger start tokens final := by
  induction h with
  | stay progress => exact .stay progress
  | consume one _ ih => exact .consume (one.in_larger within) ih

/-! ## Refusals stay while names stay unknown -/

/-- The cause is no unknown function, or one that the registry does not know
either. -/
def StaysUnknown (registry : Registry) (cause : CompileError.Cause) : Prop :=
  ∀ name, cause = .unknownFunction name → registry.contains name = false

theorem Refuses.in_larger {state : ReadState} {token : Token}
    {cause : CompileError.Cause} (h : Refuses registry state token cause)
    (hunknown : StaysUnknown larger cause) :
    Refuses larger state token cause := by
  cases h with
  | noName calls kind => exact .noName calls kind
  | unknownName calls _ =>
      exact .unknownName calls
        (Registry.contains_eq_false_iff.1 (hunknown _ rfl))
  | strayName name calls => exact .strayName name calls
  | strayEnd closing => exact .strayEnd closing
  | earlyEnd closing f outer => exact .earlyEnd closing f outer

theorem Stops.in_larger {reached : Progress} {left : List Token}
    {cause : CompileError.Cause} (h : Stops registry reached left cause)
    (hunknown : StaysUnknown larger cause) :
    Stops larger reached left cause := by
  cases h with
  | ended state => exact .ended state
  | refused rest refuses => exact .refused rest (refuses.in_larger hunknown)
  | trailing e token rest => exact .trailing e token rest

theorem ofTokens_eq_error_in_larger (within : registry.Within larger)
    {tokens : List Token} {error : CompileError}
    (h : ofTokens registry tokens = .error error)
    (hunknown : StaysUnknown larger error.cause) :
    ofTokens larger tokens = .error error := by
  obtain ⟨consumed, left, reached, hleads, htokens, hposition, hstops⟩ :=
    ofTokens_eq_error_iff.1 h
  exact ofTokens_eq_error_iff.2 ⟨consumed, left, reached,
    hleads.in_larger within, htokens, hposition, hstops.in_larger hunknown⟩

/-! ## Behind a name that has become known -/

/-- Where a name is unknown to one registry, a registry that knows it goes on
behind the name. -/
theorem Stops.exists_consumes {reached : Progress} {left : List Token}
    {name : String}
    (h : Stops registry reached left (.unknownFunction name))
    (hknown : larger.contains name = true) :
    ∃ state token rest next, reached = .more state ∧ left = token :: rest ∧
      Consumes larger state token next := by
  obtain ⟨f, hget⟩ := Registry.contains_eq_true_iff.1 hknown
  cases h with
  | refused rest refuses =>
      cases refuses with
      | unknownName calls _ =>
          exact ⟨_, _, rest, _, rfl, rfl, .name calls hget⟩

/-- A run goes on until it has completed all of the tokens or something stops
it. -/
theorem exists_stop (registry : Registry) (reached : Progress)
    (left : List Token) :
    ∃ further rest final, left = further ++ rest ∧
      Leads registry reached further final ∧
      ((rest = [] ∧ ∃ e, final = .complete e) ∨
        ∃ cause, Stops registry final rest cause) := by
  have hcomplete : ∀ e rest,
      (rest = [] ∧ ∃ e', Progress.complete e = .complete e') ∨
      ∃ cause, Stops registry (.complete e) rest cause := by
    intro e rest
    cases rest with
    | nil => exact .inl ⟨rfl, e, rfl⟩
    | cons token rest => exact .inr ⟨_, .trailing e token rest⟩
  cases reached with
  | complete e => exact ⟨[], left, _, rfl, .stay _, hcomplete e left⟩
  | more state =>
      obtain ⟨further, rest, hleft, hrun⟩ := exists_leads registry state left
      refine ⟨further, rest, ?_⟩
      rcases hrun with ⟨e, hleads⟩ | ⟨stuck, cause, hleads, hstops⟩
      · exact ⟨_, hleft, hleads, hcomplete e rest⟩
      · exact ⟨_, hleft, hleads, .inr ⟨cause, hstops⟩⟩

/-- An error stands behind all tokens that a run consumes. -/
theorem ofTokens_behind_run {consumed : List Token} {reached : Progress}
    (h : Leads registry (.more (.argument [])) consumed reached)
    (left : List Token) :
    (∃ e, ofTokens registry (consumed ++ left) = .ok e) ∨
      ∃ error, ofTokens registry (consumed ++ left) = .error error ∧
        consumed.length ≤ error.position := by
  obtain ⟨further, rest, final, rfl, hfurther, hend⟩ :=
    exists_stop registry reached left
  have hrun := h.trans hfurther
  rcases hend with ⟨rfl, e, rfl⟩ | ⟨cause, hstops⟩
  · refine .inl ⟨e, ofTokens_eq_ok_iff.2 ?_⟩
    rw [List.append_nil]
    exact hrun
  · have herror : ofTokens registry (consumed ++ (further ++ rest)) =
        .error ⟨cause, (consumed ++ further).length⟩ :=
      ofTokens_eq_error_iff.2 ⟨consumed ++ further, rest, final, hrun,
        (List.append_assoc ..).symm, rfl, hstops⟩
    refine .inr ⟨_, herror, ?_⟩
    rw [List.length_append]
    exact Nat.le_add_right _ _

theorem ofTokens_behind_unknown (within : registry.Within larger)
    {tokens : List Token} {name : String} {position : Nat}
    (h : ofTokens registry tokens = .error ⟨.unknownFunction name, position⟩)
    (hknown : larger.contains name = true) :
    (∃ e, ofTokens larger tokens = .ok e) ∨
      ∃ error, ofTokens larger tokens = .error error ∧
        position < error.position := by
  obtain ⟨consumed, left, reached, hleads, rfl, hposition, hstops⟩ :=
    ofTokens_eq_error_iff.1 h
  change position = consumed.length at hposition
  obtain ⟨state, token, rest, next, rfl, rfl, hone⟩ :=
    hstops.exists_consumes hknown
  have hrun := (hleads.in_larger within).trans hone.leads
  have hbehind := ofTokens_behind_run hrun rest
  rw [List.append_assoc, List.length_append, List.length_singleton] at hbehind
  rcases hbehind with hok | ⟨error, herror, hle⟩
  · exact .inl hok
  · exact .inr ⟨error, herror, by omega⟩

/-- Under a larger registry programs spell what they did and errors stay, but
for an unknown function that becomes known: behind its name there is then a
program or a later error. -/
theorem ofTokens_in_larger_registry {registry larger : Registry}
    (within : registry.Within larger) (tokens : List Token) :
    (∀ e, ofTokens registry tokens = .ok e → ofTokens larger tokens = .ok e) ∧
    (∀ error, ofTokens registry tokens = .error error →
      (∀ name, error.cause ≠ .unknownFunction name) →
      ofTokens larger tokens = .error error) ∧
    (∀ name position,
      ofTokens registry tokens = .error ⟨.unknownFunction name, position⟩ →
      (larger.contains name = false →
        ofTokens larger tokens = .error ⟨.unknownFunction name, position⟩) ∧
      (larger.contains name = true →
        (∃ e, ofTokens larger tokens = .ok e) ∨
          ∃ error, ofTokens larger tokens = .error error ∧
            position < error.position)) := by
  refine ⟨?_, ?_, ?_⟩
  · intro e h
    exact ofTokens_eq_ok_iff.2 ((ofTokens_eq_ok_iff.1 h).in_larger within)
  · intro error h hcause
    exact ofTokens_eq_error_in_larger within h
      fun name hname => absurd hname (hcause name)
  · intro name position h
    refine ⟨?_, ofTokens_behind_unknown within h⟩
    intro hlacks
    refine ofTokens_eq_error_in_larger within h ?_
    intro name' hname
    injection hname with hname
    rw [← hname]
    exact hlacks

/-- With `INT` alone `[ INT a ]` is a program, and stays one. In
`[ INT a [ SUM [ DIF ] ] ]` the name `SUM` is unknown; once it is known, and
`DIF` as well, the error is the call without an argument. `XOR` stays unknown,
and a name where an argument should start stays where it was. -/
theorem ofTokens_with_more_functions :
    let few := Registry.ofList [.int]
    let program : List Token :=
      [.callStart, .functionName "INT", .fileName "a", .callEnd]
    let nested : List Token := [.callStart, .functionName "INT", .fileName "a",
      .callStart, .functionName "SUM", .callStart, .functionName "DIF",
      .callEnd, .callEnd, .callEnd]
    let unknown : List Token := [.callStart, .functionName "XOR", .callEnd]
    let stray : List Token :=
      [.callStart, .functionName "INT", .functionName "a"]
    few.Within .builtin ∧
    (ofTokens few program = .ok (.call .int [.load "a"]) ∧
      ofTokens .builtin program = .ok (.call .int [.load "a"])) ∧
    (ofTokens few nested = .error ⟨.unknownFunction "SUM", 4⟩ ∧
      Registry.builtin.contains "SUM" = true ∧
      ∃ error, ofTokens .builtin nested = .error error ∧ 4 < error.position) ∧
    (ofTokens few unknown = .error ⟨.unknownFunction "XOR", 1⟩ ∧
      Registry.builtin.contains "XOR" = false ∧
      ofTokens .builtin unknown = .error ⟨.unknownFunction "XOR", 1⟩) ∧
    (ofTokens few stray = .error ⟨.unexpectedToken "a", 2⟩ ∧
      ofTokens .builtin stray = .error ⟨.unexpectedToken "a", 2⟩) := by
  intro few program nested unknown stray
  have within : few.Within .builtin := fun _ _ => rfl
  have hprogram : ofTokens few program = .ok (.call .int [.load "a"]) := rfl
  have hnested : ofTokens few nested = .error ⟨.unknownFunction "SUM", 4⟩ := rfl
  have hunknown : ofTokens few unknown =
      .error ⟨.unknownFunction "XOR", 1⟩ := rfl
  have hstray : ofTokens few stray = .error ⟨.unexpectedToken "a", 2⟩ := rfl
  have hnow : ofTokens .builtin nested = .error ⟨.emptyCall "DIF", 7⟩ := rfl
  obtain ⟨hok, -, -⟩ := ofTokens_in_larger_registry within program
  obtain ⟨-, -, hknown⟩ := ofTokens_in_larger_registry within nested
  obtain ⟨-, -, hlacks⟩ := ofTokens_in_larger_registry within unknown
  obtain ⟨-, hother, -⟩ := ofTokens_in_larger_registry within stray
  refine ⟨within, ⟨hprogram, hok _ hprogram⟩, ⟨hnested, rfl, ?_⟩,
    ⟨hunknown, rfl, (hlacks _ _ hunknown).1 rfl⟩,
    ⟨hstray, hother _ hstray (by simp)⟩⟩
  rcases (hknown _ _ hnested).2 rfl with ⟨e, hok⟩ | hlater
  · rw [hnow] at hok
    cases hok
  · exact hlater

end Expr

end SetCalculator
