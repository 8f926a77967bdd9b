import SetCalculator.Proofs.Reading.OpenCalls

/-!
# The cause of an error can be told from two tokens and a count

The reader finds the cause of an error in what it remembers, the open calls
and what has to follow. Whoever looks at the tokens alone finds the same cause:
the token at which the error shows, the token right before it, and how many
calls are open between the two are enough. `diagnosis` is that look.

Each way of refusing a token belongs to a state, and what the last token tells
about a state turns it into something that can be seen. So no bracket is found
stray inside of a call, and the call that ends too early is the one whose name
stands right there, however many others are open around it.
-/

namespace SetCalculator.Expr

variable {registry : Registry}

/-- The cause that the tokens before an error, the token at which it shows and
the rest of them suggest. -/
def diagnosis (before : List Token) (token : Token) (rest : List Token) :
    CompileError.Cause :=
  match before.getLast? with
  | none => .unexpectedToken token.raw
  | some last =>
      if last.kind = .callStart then
        if token.kind = .functionName then .unknownFunction token.raw
        else .expectedFunctionName token.raw
      else if token.kind = .callEnd ∧ last.kind = .functionName then
        .emptyCall last.raw
      else if Token.depth before = 0 then
        .trailingTokens token.raw (rest.length + 1)
      else .unexpectedToken token.raw

/-- What else is the case when a cause is reported at a token: the registry
does not know an unknown function, a program stands before trailing tokens,
and an unexpected token is a name, or the end of a call at the very start. -/
def Confirmed (registry : Registry) (before : List Token) (token : Token) :
    CompileError.Cause → Prop
  | .unknownFunction name => registry.get? name = none
  | .trailingTokens _ _ => ∃ e, ofTokens registry before = .ok e
  | .unexpectedToken _ =>
      token.kind = .functionName ∨ before = [] ∧ token.kind = .callEnd
  | _ => True

/-! ## What the last token rules out -/

theorem Consumes.kind_ne_callStart {state : ReadState} {token : Token}
    {next : Progress} (h : Consumes registry state token next)
    (hnext : ∀ calls, next ≠ .more (.functionName calls)) :
    token.kind ≠ .callStart := by
  intro hkind
  obtain ⟨kind, opening⟩ := token
  subst hkind
  obtain ⟨calls, heq⟩ := h.of_start
  exact hnext calls heq

theorem Consumes.kind_ne_functionName {state : ReadState} {token : Token}
    {e : Expr} (h : Consumes registry state token (.complete e)) :
    token.kind ≠ .functionName := by
  intro hkind
  obtain ⟨kind, name⟩ := token
  subst hkind
  have hname : Consumes registry state (.functionName name) (.complete e) := h
  obtain ⟨calls, f, -, heq⟩ := hname.of_name
  cases heq

/-! ## The diagnosis of what stops a run -/

theorem diagnosis_of_open {before : List Token} {name : String}
    {calls : List OpenCall}
    (h : Leads registry (.more (.argument [])) before (.more (.argument calls)))
    (rest : List Token) :
    diagnosis before (.functionName name) rest = .unexpectedToken name := by
  rcases h.cases_last with ⟨rfl, -⟩ | ⟨earlier, last, state, rfl, -, one⟩
  · rfl
  · have hstart : last.kind ≠ .callStart := one.kind_ne_callStart (by simp)
    have hopen := h.openCalls_pos (by simp)
    have hdepth : Token.depth (earlier ++ [last]) ≠ 0 := by
      rw [depth_of_leads h]
      omega
    rw [diagnosis, List.getLast?_concat]
    simp [hstart, hdepth, Token.functionName]

theorem diagnosis_of_complete {before : List Token} {e : Expr}
    (h : Leads registry (.more (.argument [])) before (.complete e))
    (token : Token) (rest : List Token) :
    diagnosis before token rest =
      .trailingTokens token.raw (rest.length + 1) := by
  rcases h.cases_last with ⟨-, hstart⟩ | ⟨earlier, last, state, rfl, -, one⟩
  · cases hstart
  · have hstart : last.kind ≠ .callStart := one.kind_ne_callStart (by simp)
    have hname : last.kind ≠ .functionName := one.kind_ne_functionName
    have hdepth : Token.depth (earlier ++ [last]) = 0 := depth_of_leads h
    rw [diagnosis, List.getLast?_concat]
    simp [hstart, hname, hdepth]

theorem Refuses.cause_eq_diagnosis {before : List Token} {state : ReadState}
    {token : Token} {cause : CompileError.Cause}
    (h : Refuses registry state token cause)
    (hleads : Leads registry (.more (.argument [])) before (.more state))
    (rest : List Token) :
    cause = diagnosis before token rest ∧
      Confirmed registry before token cause := by
  cases h with
  | noName calls kind =>
      obtain ⟨earlier, opening, rfl⟩ := exists_start_of_leads hleads
      rw [diagnosis, List.getLast?_concat]
      simp [kind, Confirmed]
  | unknownName calls unknown =>
      obtain ⟨earlier, opening, rfl⟩ := exists_start_of_leads hleads
      rw [diagnosis, List.getLast?_concat]
      simp [Token.functionName, Confirmed, unknown]
  | strayName name calls =>
      exact ⟨(diagnosis_of_open hleads rest).symm, .inl rfl⟩
  | strayEnd closing =>
      -- Without an open call nothing can have been consumed.
      have hnil : before = [] := by
        apply Classical.byContradiction
        intro hne
        exact absurd (hleads.openCalls_pos hne) (Nat.lt_irrefl 0)
      subst hnil
      exact ⟨rfl, .inr ⟨rfl, rfl⟩⟩
  | earlyEnd closing f outer =>
      obtain ⟨earlier, rfl⟩ := exists_name_of_leads hleads
      rw [diagnosis, List.getLast?_concat]
      simp [Token.functionName, Confirmed]

theorem Stops.cause_eq_diagnosis {before rest : List Token} {token : Token}
    {reached : Progress} {cause : CompileError.Cause}
    (h : Stops registry reached (token :: rest) cause)
    (hleads : Leads registry (.more (.argument [])) before reached) :
    cause = diagnosis before token rest ∧
      Confirmed registry before token cause := by
  cases h with
  | refused _ refuses => exact refuses.cause_eq_diagnosis hleads rest
  | trailing e =>
      exact ⟨(diagnosis_of_complete hleads token rest).symm, e,
        ofTokens_eq_ok_iff.2 hleads⟩

/-- An error that shows at a token is the one that the token, its neighbour
and the depth suggest, and tokens behind a program are reported as such. -/
theorem error_cause_eq_diagnosis (registry : Registry) (tokens : List Token) :
    (∀ error, ofTokens registry tokens = .error error →
      error.position < tokens.length →
      ∃ before token rest, tokens = before ++ token :: rest ∧
        error.position = before.length ∧
        error.cause = diagnosis before token rest ∧
        Confirmed registry before token error.cause) ∧
    (∀ e, ofTokens registry tokens = .ok e → ∀ token rest,
      ofTokens registry (tokens ++ token :: rest) =
        .error ⟨.trailingTokens token.raw (rest.length + 1),
          tokens.length⟩) := by
  refine ⟨?_, ?_⟩
  · intro error h hposition
    obtain ⟨before, left, reached, hleads, rfl, hlength, hstops⟩ :=
      ofTokens_eq_error_iff.1 h
    cases left with
    | nil =>
        rw [List.append_nil] at hposition
        omega
    | cons token rest =>
        exact ⟨before, token, rest, rfl, hlength,
          hstops.cause_eq_diagnosis hleads⟩
  · intro e h token rest
    exact ofTokens_eq_error_iff.2 ⟨tokens, token :: rest, .complete e,
      ofTokens_eq_ok_iff.1 h, rfl, rfl, .trailing e token rest⟩

/-- `[ SUM a [ INT ] ] b`: the bracket behind the inner name ends an empty call
of that name, and what follows does not count. Behind `[ SUM a ]` the same
bracket is the first of two trailing tokens. -/
theorem diagnosis_of_early_bracket :
    let program : List Token :=
      [.callStart, .functionName "SUM", .fileName "a", .callEnd]
    let tokens : List Token := [.callStart, .functionName "SUM", .fileName "a",
      .callStart, .functionName "INT", .callEnd, .callEnd, .fileName "b"]
    ofTokens .builtin tokens = .error ⟨.emptyCall "INT", 5⟩ ∧
      5 < tokens.length ∧
      .emptyCall "INT" =
        diagnosis (tokens.take 5) .callEnd [.callEnd, .fileName "b"] ∧
      ofTokens .builtin program = .ok (.call .sum [.load "a"]) ∧
      ofTokens .builtin (program ++ [.callEnd, .fileName "b"]) =
        .error ⟨.trailingTokens "]" 2, 4⟩ := by
  intro program tokens
  have herror : ofTokens .builtin tokens = .error ⟨.emptyCall "INT", 5⟩ := rfl
  have hok : ofTokens .builtin program = .ok (.call .sum [.load "a"]) := rfl
  have hposition : 5 < tokens.length := by decide
  obtain ⟨hdiagnosis, -⟩ := error_cause_eq_diagnosis .builtin tokens
  obtain ⟨-, htrailing⟩ := error_cause_eq_diagnosis .builtin program
  obtain ⟨before, token, rest, htokens, hlength, hcause, -⟩ :=
    hdiagnosis _ herror hposition
  refine ⟨herror, hposition, ?_, hok, htrailing _ hok .callEnd [.fileName "b"]⟩
  -- The tokens can be cut at the position in one way only.
  obtain ⟨rfl, hrest⟩ := List.append_inj
    (htokens.symm.trans (List.take_append_drop 5 tokens).symm) hlength.symm
  cases hrest
  exact hcause

end SetCalculator.Expr
