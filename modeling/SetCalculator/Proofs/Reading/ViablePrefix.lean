import SetCalculator.Proofs.Reading.Steps

/-!
# Errors show where the program can no longer be completed

Tokens are viable when some continuation makes a program of them. Two facts
decide it. Whatever a run has reached can be completed: an open call gets an
argument and its bracket, and a call without a name gets the name of some
function first, which is the only use made of the registry holding one. And
what puts an end to a run at a token does so whatever follows that token.

So a compile error stands at the length of the longest viable prefix, and it
reports the end of input exactly when that prefix is everything.
-/

namespace SetCalculator

/-- A registry is empty unless it holds a function. -/
theorem Registry.isEmpty_eq_false_iff {registry : Registry} :
    registry.isEmpty = false ↔ ∃ f, registry.holds f = true := by
  rw [isEmpty, List.isEmpty_eq_false_iff_exists_mem]
  refine ⟨fun ⟨f, hmem⟩ => ?_, fun ⟨f, hholds⟩ => ?_⟩
  · exact ⟨f, (List.mem_filter.1 hmem).2⟩
  · exact ⟨f, List.mem_filter.2 ⟨by cases f <;> decide, hholds⟩⟩

namespace Expr

variable {registry : Registry}

/-- Some continuation of the tokens is a program. -/
def Viable (registry : Registry) (tokens : List Token) : Prop :=
  ∃ more e, ofTokens registry (tokens ++ more) = .ok e

theorem Viable.of_append {tokens more : List Token}
    (h : Viable registry (tokens ++ more)) : Viable registry tokens := by
  obtain ⟨rest, e, hok⟩ := h
  rw [List.append_assoc] at hok
  exact ⟨more ++ rest, e, hok⟩

/-! ## Every run can be completed -/

/-- Once the innermost call has an argument, a bracket for each open call
completes the program. -/
theorem leads_closing (e : Expr) (calls : List OpenCall) :
    ∃ root, Leads registry (deliver e calls)
      (calls.map fun _ => Token.callEnd) (.complete root) := by
  induction calls generalizing e with
  | nil => exact ⟨e, .stay _⟩
  | cons call outer ih =>
      obtain ⟨f, args⟩ := call
      obtain ⟨root, hroot⟩ := ih (.call f (e :: args).reverse)
      have hone : Consumes registry (.argument (⟨f, e :: args⟩ :: outer))
          .callEnd (deliver (.call f (e :: args).reverse) outer) :=
        .finish "]" f outer (by simp)
      exact ⟨root, .consume hone hroot⟩

theorem exists_completion_of_argument (calls : List OpenCall) :
    ∃ more root, Leads registry (.more (.argument calls)) more
      (.complete root) := by
  obtain ⟨root, hroot⟩ := leads_closing (.load "a") calls
  exact ⟨_, root, .consume (.source "a" calls) hroot⟩

theorem exists_completion (nonempty : registry.isEmpty = false)
    (reached : Progress) :
    ∃ more root, Leads registry reached more (.complete root) := by
  match reached with
  | .complete e => exact ⟨[], e, .stay _⟩
  | .more (.argument calls) => exact exists_completion_of_argument calls
  | .more (.functionName calls) =>
      obtain ⟨f, hholds⟩ := Registry.isEmpty_eq_false_iff.1 nonempty
      have hknown : registry.get? f.name = some f :=
        Registry.get?_eq_some_iff.2 ⟨rfl, hholds⟩
      obtain ⟨more, root, hroot⟩ :=
        @exists_completion_of_argument registry (⟨f, []⟩ :: calls)
      exact ⟨_, root, .consume (.name calls hknown) hroot⟩

theorem viable_of_leads (nonempty : registry.isEmpty = false)
    {tokens : List Token} {reached : Progress}
    (h : Leads registry (.more (.argument [])) tokens reached) :
    Viable registry tokens := by
  obtain ⟨more, root, hroot⟩ := exists_completion nonempty reached
  exact ⟨more, root, ofTokens_eq_ok_iff.2 (h.trans hroot)⟩

/-! ## What ends a run ends every continuation of it -/

/-- Only how many tokens are left over depends on what follows. -/
theorem Stops.exists_of_cons {reached : Progress} {token : Token}
    {left : List Token} {cause : CompileError.Cause}
    (h : Stops registry reached (token :: left) cause) (left' : List Token) :
    ∃ cause', Stops registry reached (token :: left') cause' := by
  cases h with
  | refused _ refuses => exact ⟨_, .refused left' refuses⟩
  | trailing e => exact ⟨_, .trailing e token left'⟩

theorem not_viable_of_stops {tokens left : List Token} {token : Token}
    {reached : Progress} {cause : CompileError.Cause}
    (hleads : Leads registry (.more (.argument [])) tokens reached)
    (hstops : Stops registry reached (token :: left) cause) :
    ¬ Viable registry (tokens ++ [token]) := by
  intro h
  obtain ⟨more, e, hok⟩ := h
  obtain ⟨cause', hstops'⟩ := hstops.exists_of_cons more
  have herror : ofTokens registry (tokens ++ [token] ++ more) =
      .error ⟨cause', tokens.length⟩ :=
    ofTokens_eq_error_iff.2 ⟨tokens, token :: more, reached, hleads,
      by rw [List.append_assoc]; rfl, rfl, hstops'⟩
  rw [herror] at hok
  cases hok

/-! ## The position of an error -/

theorem viable_iff_of_error (nonempty : registry.isEmpty = false)
    {tokens : List Token} {error : CompileError}
    (h : ofTokens registry tokens = .error error) :
    error.position ≤ tokens.length ∧
    Viable registry (tokens.take error.position) ∧
    (error.position < tokens.length →
      ¬ Viable registry (tokens.take (error.position + 1))) ∧
    (error.cause = .endOfInput ↔ error.position = tokens.length) := by
  obtain ⟨consumed, left, reached, hleads, rfl, hposition, hstops⟩ :=
    ofTokens_eq_error_iff.1 h
  rw [hposition, List.length_append, List.take_left]
  refine ⟨Nat.le_add_right _ _, viable_of_leads nonempty hleads, ?_, ?_⟩
  · intro hlt
    cases left with
    | nil => simp at hlt
    | cons token left =>
        rw [List.take_length_add_append]
        exact not_viable_of_stops hleads hstops
  · rw [hstops.cause_eq_endOfInput_iff]
    refine ⟨?_, ?_⟩
    · intro hleft
      rw [hleft]
      rfl
    · intro hlength
      exact List.eq_nil_of_length_eq_zero (by omega)

/-- A compile error stands at the end of the longest viable prefix, and the
end of input is reported exactly for what is no program and can still become
one. -/
theorem error_position_is_viable_bound (registry : Registry)
    (nonempty : registry.isEmpty = false) (tokens : List Token) :
    (∀ error, ofTokens registry tokens = .error error →
      error.position ≤ tokens.length ∧
      Viable registry (tokens.take error.position) ∧
      (error.position < tokens.length →
        ¬ Viable registry (tokens.take (error.position + 1))) ∧
      (error.cause = .endOfInput ↔ error.position = tokens.length)) ∧
    ((∃ position, ofTokens registry tokens = .error ⟨.endOfInput, position⟩) ↔
      (∀ e, ofTokens registry tokens ≠ .ok e) ∧ Viable registry tokens) := by
  refine ⟨fun error h => viable_iff_of_error nonempty h, ?_⟩
  refine ⟨?_, ?_⟩
  · intro h
    obtain ⟨position, herror⟩ := h
    obtain ⟨-, hviable, -, hend⟩ := viable_iff_of_error nonempty herror
    rw [hend.1 rfl, List.take_length] at hviable
    refine ⟨fun e hok => ?_, hviable⟩
    rw [herror] at hok
    cases hok
  · intro h
    obtain ⟨hnot, hviable⟩ := h
    cases herror : ofTokens registry tokens with
    | ok e => exact absurd herror (hnot e)
    | error error =>
        obtain ⟨hle, -, hbeyond, hend⟩ := viable_iff_of_error nonempty herror
        -- Prefixes of what is viable are viable, so the error is at the end.
        have hposition : error.position = tokens.length := by
          apply Classical.byContradiction
          intro hne
          apply hbeyond (by omega)
          rw [← List.take_append_drop (error.position + 1) tokens] at hviable
          exact hviable.of_append
        obtain ⟨cause, position⟩ := error
        obtain rfl : cause = .endOfInput := hend.2 hposition
        exact ⟨position, rfl⟩

/-- `[ SUM a [ DIF ] b`: the inner call ends too early, and what comes before
its bracket is the longest prefix that can become a program. -/
theorem error_position_of_early_end :
    let tokens : List Token := [.callStart, .functionName "SUM", .fileName "a",
      .callStart, .functionName "DIF", .callEnd, .fileName "b"]
    Registry.builtin.isEmpty = false ∧
    ofTokens .builtin tokens = .error ⟨.emptyCall "DIF", 5⟩ ∧
    Viable .builtin (tokens.take 5) ∧ ¬ Viable .builtin (tokens.take 6) := by
  intro tokens
  have herror : ofTokens .builtin tokens = .error ⟨.emptyCall "DIF", 5⟩ := rfl
  obtain ⟨hposition, -⟩ := error_position_is_viable_bound .builtin rfl tokens
  obtain ⟨-, hviable, hbeyond, -⟩ := hposition _ herror
  exact ⟨rfl, herror, hviable, hbeyond (by decide)⟩

end Expr

end SetCalculator
