import SetCalculator.Expr.Reading

/-!
# The steps of the reader, and its runs

A step of the reader has four ways to consume a token and five to refuse one.
`Consumes` and `Refuses` list them with everything a way demands of the state
and of the token, and `step_eq_ok_iff` and `step_eq_error_iff` say the lists
are complete. No proof after this module opens `step`.

`Leads` strings consuming steps together. A reading is then nothing but a run
and what stops it: the expression is complete, the tokens end, or the next
token is refused. Positions need no invariant of their own, since the one at
which a reading stops is the number of tokens its run consumed.
-/

namespace SetCalculator.Expr

variable {registry : Registry}

/-! ## One step -/

/-- The ways in which a step consumes a token. -/
inductive Consumes (registry : Registry) :
    ReadState → Token → Progress → Prop where
  | source (name : String) (calls : List OpenCall) :
      Consumes registry (.argument calls) (.fileName name)
        (deliver (.load name) calls)
  | start (opening : String) (calls : List OpenCall) :
      Consumes registry (.argument calls) ⟨.callStart, opening⟩
        (.more (.functionName calls))
  | name {name : String} {f : SetFunction} (calls : List OpenCall)
      (known : registry.get? name = some f) :
      Consumes registry (.functionName calls) (.functionName name)
        (.more (.argument (⟨f, []⟩ :: calls)))
  | finish {args : List Expr} (closing : String) (f : SetFunction)
      (outer : List OpenCall) (some_arg : args ≠ []) :
      Consumes registry (.argument (⟨f, args⟩ :: outer)) ⟨.callEnd, closing⟩
        (deliver (.call f args.reverse) outer)

/-- The ways in which a step refuses a token, each with its cause. -/
inductive Refuses (registry : Registry) :
    ReadState → Token → CompileError.Cause → Prop where
  | noName {token : Token} (calls : List OpenCall)
      (kind : token.kind ≠ .functionName) :
      Refuses registry (.functionName calls) token
        (.expectedFunctionName token.raw)
  | unknownName {name : String} (calls : List OpenCall)
      (unknown : registry.get? name = none) :
      Refuses registry (.functionName calls) (.functionName name)
        (.unknownFunction name)
  | strayName (name : String) (calls : List OpenCall) :
      Refuses registry (.argument calls) (.functionName name)
        (.unexpectedToken name)
  | strayEnd (closing : String) :
      Refuses registry (.argument []) ⟨.callEnd, closing⟩
        (.unexpectedToken closing)
  | earlyEnd (closing : String) (f : SetFunction) (outer : List OpenCall) :
      Refuses registry (.argument (⟨f, []⟩ :: outer)) ⟨.callEnd, closing⟩
        (.emptyCall f.name)

/-- Every step either consumes its token in one of the listed ways or refuses
it in one of the listed ways. -/
theorem step_cases (registry : Registry) (state : ReadState) (token : Token) :
    (∃ progress, step registry state token = .ok progress ∧
      Consumes registry state token progress) ∨
    (∃ cause, step registry state token = .error cause ∧
      Refuses registry state token cause) := by
  obtain ⟨kind, raw⟩ := token
  cases state with
  | functionName calls =>
      cases kind with
      | functionName =>
          cases hget : registry.get? raw with
          | none =>
              exact .inr ⟨_, by simp [step, hget], .unknownName calls hget⟩
          | some f => exact .inl ⟨_, by simp [step, hget], .name calls hget⟩
      | callStart | callEnd | fileName =>
          exact .inr ⟨_, rfl, .noName calls (by simp)⟩
  | argument calls =>
      cases kind with
      | fileName => exact .inl ⟨_, rfl, .source raw calls⟩
      | callStart => exact .inl ⟨_, rfl, .start raw calls⟩
      | functionName =>
          exact .inr ⟨_, by cases calls <;> rfl, .strayName raw calls⟩
      | callEnd =>
          match calls with
          | [] => exact .inr ⟨_, rfl, .strayEnd raw⟩
          | ⟨f, []⟩ :: outer => exact .inr ⟨_, rfl, .earlyEnd raw f outer⟩
          | ⟨f, e :: args⟩ :: outer =>
              exact .inl ⟨_, rfl, .finish raw f outer (by simp)⟩

theorem step_eq_ok_iff {state : ReadState} {token : Token}
    {progress : Progress} :
    step registry state token = .ok progress ↔
      Consumes registry state token progress := by
  refine ⟨?_, ?_⟩
  · intro h
    rcases step_cases registry state token with ⟨_, hok, hc⟩ | ⟨_, herr, _⟩
    · rw [h] at hok
      injection hok with hok
      rw [hok]
      exact hc
    · rw [h] at herr
      cases herr
  · intro h
    cases h with
    | source | start => rfl
    | name calls known => simp [step, Token.functionName, known]
    | finish closing f outer some_arg => simp [step, some_arg]

theorem step_eq_error_iff {state : ReadState} {token : Token}
    {cause : CompileError.Cause} :
    step registry state token = .error cause ↔
      Refuses registry state token cause := by
  refine ⟨?_, ?_⟩
  · intro h
    rcases step_cases registry state token with ⟨_, hok, _⟩ | ⟨_, herr, hr⟩
    · rw [h] at hok
      cases hok
    · rw [h] at herr
      injection herr with herr
      rw [herr]
      exact hr
  · intro h
    cases h with
    | noName => simp [step]
    | unknownName calls unknown => simp [step, Token.functionName, unknown]
    | strayName name calls => cases calls <;> rfl
    | strayEnd | earlyEnd => rfl

/-- The end of the tokens is never what a token is refused for. -/
theorem Refuses.ne_endOfInput {state : ReadState} {token : Token}
    {cause : CompileError.Cause} (h : Refuses registry state token cause) :
    cause ≠ .endOfInput := by
  cases h <;> simp

/-! ## Runs -/

/-- The steps that consume some tokens, one after the other, from what was
reached before them to what is reached after them. -/
inductive Leads (registry : Registry) :
    Progress → List Token → Progress → Prop where
  | stay (progress : Progress) : Leads registry progress [] progress
  | consume {state : ReadState} {token : Token} {next final : Progress}
      {tokens : List Token} (one : Consumes registry state token next)
      (later : Leads registry next tokens final) :
      Leads registry (.more state) (token :: tokens) final

theorem Consumes.leads {state : ReadState} {token : Token}
    {progress : Progress} (h : Consumes registry state token progress) :
    Leads registry (.more state) [token] progress :=
  .consume h (.stay progress)

theorem Leads.trans {start middle final : Progress} {xs ys : List Token}
    (h₁ : Leads registry start xs middle)
    (h₂ : Leads registry middle ys final) :
    Leads registry start (xs ++ ys) final := by
  induction h₁ with
  | stay => exact h₂
  | consume one _ ih => exact .consume one (ih h₂)

/-- What puts an end to a run that has reached something, with some tokens
left, and the cause that is reported for it. -/
inductive Stops (registry : Registry) :
    Progress → List Token → CompileError.Cause → Prop where
  | ended (state : ReadState) : Stops registry (.more state) [] .endOfInput
  | refused {state : ReadState} {token : Token} {cause : CompileError.Cause}
      (rest : List Token) (refuses : Refuses registry state token cause) :
      Stops registry (.more state) (token :: rest) cause
  | trailing (e : Expr) (token : Token) (rest : List Token) :
      Stops registry (.complete e) (token :: rest)
        (.trailingTokens token.raw (rest.length + 1))

/-- The end of the tokens is reported where none is left, and only there. -/
theorem Stops.cause_eq_endOfInput_iff {reached : Progress} {left : List Token}
    {cause : CompileError.Cause} (h : Stops registry reached left cause) :
    cause = .endOfInput ↔ left = [] := by
  cases h with
  | ended => simp
  | refused rest refuses => simp [refuses.ne_endOfInput]
  | trailing => simp

/-- Some tokens of a list can be consumed up to a complete expression or to
where the reader stops. -/
theorem exists_leads (registry : Registry) (state : ReadState)
    (tokens : List Token) :
    ∃ consumed left, tokens = consumed ++ left ∧
      ((∃ e, Leads registry (.more state) consumed (.complete e)) ∨
        ∃ stuck cause, Leads registry (.more state) consumed (.more stuck) ∧
          Stops registry (.more stuck) left cause) := by
  induction tokens generalizing state with
  | nil => exact ⟨[], [], rfl, .inr ⟨state, _, .stay _, .ended state⟩⟩
  | cons token rest ih =>
      rcases step_cases registry state token with
        ⟨progress, -, hone⟩ | ⟨cause, -, hrefuses⟩
      · cases progress with
        | complete e => exact ⟨[token], rest, rfl, .inl ⟨e, hone.leads⟩⟩
        | more next =>
            obtain ⟨consumed, left, rfl, hrun⟩ := ih next
            refine ⟨token :: consumed, left, rfl, ?_⟩
            rcases hrun with ⟨e, hleads⟩ | ⟨stuck, cause, hleads, hstops⟩
            · exact .inl ⟨e, .consume hone hleads⟩
            · exact .inr ⟨stuck, cause, .consume hone hleads, hstops⟩
      · exact ⟨[], token :: rest, rfl,
          .inr ⟨state, cause, .stay _, .refused rest hrefuses⟩⟩

/-! ## Reading along a run -/

/-- What a reading comes to, from what has been reached. -/
def resume (registry : Registry) :
    Progress → Nat → List Token → Except CompileError ReadResult
  | .complete e, position, rest => .ok ⟨e, position, rest⟩
  | .more state, position, rest => readFrom registry state position rest

theorem readFrom_of_consumes {state : ReadState} {token : Token}
    {next : Progress} (h : Consumes registry state token next) (position : Nat)
    (rest : List Token) :
    readFrom registry state position (token :: rest) =
      resume registry next (position + 1) rest := by
  rw [readFrom, step_eq_ok_iff.2 h]
  cases next <;> rfl

/-- Reading goes along a run, whatever follows it. -/
theorem resume_of_leads {start final : Progress} {consumed : List Token}
    (h : Leads registry start consumed final) (position : Nat)
    (rest : List Token) :
    resume registry start position (consumed ++ rest) =
      resume registry final (position + consumed.length) rest := by
  induction h generalizing position with
  | stay => rfl
  | consume one _ ih =>
      rw [List.cons_append, resume, readFrom_of_consumes one, ih,
        List.length_cons, Nat.add_right_comm, Nat.add_assoc]

theorem readFrom_of_stops {stuck : ReadState} {left : List Token}
    {cause : CompileError.Cause} (h : Stops registry (.more stuck) left cause)
    (position : Nat) :
    readFrom registry stuck position left = .error ⟨cause, position⟩ := by
  cases h with
  | ended => rw [readFrom]
  | refused rest refuses => rw [readFrom, step_eq_error_iff.2 refuses]

theorem readFrom_of_leads_complete {state : ReadState} {e : Expr}
    {consumed : List Token}
    (h : Leads registry (.more state) consumed (.complete e)) (position : Nat)
    (rest : List Token) :
    readFrom registry state position (consumed ++ rest) =
      .ok ⟨e, position + consumed.length, rest⟩ :=
  resume_of_leads h position rest

theorem readFrom_of_leads_stops {state stuck : ReadState}
    {consumed left : List Token} {cause : CompileError.Cause}
    (h : Leads registry (.more state) consumed (.more stuck))
    (hstops : Stops registry (.more stuck) left cause) (position : Nat) :
    readFrom registry state position (consumed ++ left) =
      .error ⟨cause, position + consumed.length⟩ := by
  have hrun := resume_of_leads h position left
  rw [resume, resume] at hrun
  rw [hrun, readFrom_of_stops hstops]

/-- A reading that succeeds is a run up to a complete expression. -/
theorem readFrom_eq_ok_iff {state : ReadState} {position : Nat}
    {tokens : List Token} {read : ReadResult} :
    readFrom registry state position tokens = .ok read ↔
      ∃ consumed, Leads registry (.more state) consumed (.complete read.expr) ∧
        tokens = consumed ++ read.rest ∧
        read.position = position + consumed.length := by
  refine ⟨?_, ?_⟩
  · intro h
    obtain ⟨consumed, left, rfl, hrun⟩ := exists_leads registry state tokens
    rcases hrun with ⟨e, hleads⟩ | ⟨stuck, cause, hleads, hstops⟩
    · rw [readFrom_of_leads_complete hleads] at h
      injection h with h
      subst h
      exact ⟨consumed, hleads, rfl, rfl⟩
    · rw [readFrom_of_leads_stops hleads hstops] at h
      cases h
  · intro h
    obtain ⟨consumed, hleads, rfl, hposition⟩ := h
    rw [readFrom_of_leads_complete hleads, ← hposition]

/-- A reading that fails is a run up to a state that stops it. -/
theorem readFrom_eq_error_iff {state : ReadState} {position : Nat}
    {tokens : List Token} {error : CompileError} :
    readFrom registry state position tokens = .error error ↔
      ∃ consumed left stuck,
        Leads registry (.more state) consumed (.more stuck) ∧
        tokens = consumed ++ left ∧
        error.position = position + consumed.length ∧
        Stops registry (.more stuck) left error.cause := by
  refine ⟨?_, ?_⟩
  · intro h
    obtain ⟨consumed, left, rfl, hrun⟩ := exists_leads registry state tokens
    rcases hrun with ⟨e, hleads⟩ | ⟨stuck, cause, hleads, hstops⟩
    · rw [readFrom_of_leads_complete hleads] at h
      cases h
    · rw [readFrom_of_leads_stops hleads hstops] at h
      injection h with h
      subst h
      exact ⟨consumed, left, stuck, hleads, rfl, rfl, hstops⟩
  · intro h
    obtain ⟨consumed, left, stuck, hleads, rfl, hposition, hstops⟩ := h
    rw [readFrom_of_leads_stops hleads hstops, ← hposition]

/-! ## Reading from an index, and reading everything -/

theorem readAt_eq_ok_iff {tokens : List Token} {index count : Nat} {e : Expr} :
    readAt registry tokens index = .ok (e, count) ↔
      ∃ consumed rest, tokens.drop index = consumed ++ rest ∧
        Leads registry (.more (.argument [])) consumed (.complete e) ∧
        count = consumed.length := by
  rw [readAt]
  refine ⟨?_, ?_⟩
  · intro h
    split at h
    · next read hread =>
        obtain ⟨consumed, hleads, htokens, hposition⟩ :=
          readFrom_eq_ok_iff.1 hread
        injection h with h
        injection h with he hcount
        subst he
        exact ⟨consumed, read.rest, htokens, hleads, by omega⟩
    · cases h
  · intro h
    obtain ⟨consumed, rest, htokens, hleads, rfl⟩ := h
    have hread : readFrom registry (.argument []) index (tokens.drop index) =
        .ok ⟨e, index + consumed.length, rest⟩ :=
      readFrom_eq_ok_iff.2 ⟨consumed, hleads, htokens, rfl⟩
    rw [hread]
    simp

theorem readAt_eq_error_iff {tokens : List Token} {index : Nat}
    {error : CompileError} :
    readAt registry tokens index = .error error ↔
      ∃ consumed left stuck, tokens.drop index = consumed ++ left ∧
        Leads registry (.more (.argument [])) consumed (.more stuck) ∧
        error.position = index + consumed.length ∧
        Stops registry (.more stuck) left error.cause := by
  rw [readAt]
  refine ⟨?_, ?_⟩
  · intro h
    split at h
    · cases h
    · next failure hread =>
        cases h
        obtain ⟨consumed, left, stuck, hleads, htokens, hposition, hstops⟩ :=
          readFrom_eq_error_iff.1 hread
        exact ⟨consumed, left, stuck, htokens, hleads, hposition, hstops⟩
  · intro h
    obtain ⟨consumed, left, stuck, htokens, hleads, hposition, hstops⟩ := h
    have hread : readFrom registry (.argument []) index (tokens.drop index) =
        .error error :=
      readFrom_eq_error_iff.2
        ⟨consumed, left, stuck, hleads, htokens, hposition, hstops⟩
    rw [hread]

theorem ofTokens_eq_ok_iff {tokens : List Token} {e : Expr} :
    ofTokens registry tokens = .ok e ↔
      Leads registry (.more (.argument [])) tokens (.complete e) := by
  rw [ofTokens]
  refine ⟨?_, ?_⟩
  · intro h
    split at h
    · cases h
    · next root position hread =>
        obtain ⟨consumed, hleads, htokens, -⟩ := readFrom_eq_ok_iff.1 hread
        injection h with h
        subst h
        rw [htokens, List.append_nil]
        exact hleads
    · cases h
  · intro h
    have hread : readFrom registry (.argument []) 0 tokens =
        .ok ⟨e, 0 + tokens.length, []⟩ :=
      readFrom_eq_ok_iff.2 ⟨tokens, h, (List.append_nil _).symm, rfl⟩
    rw [hread]

/-- Tokens that are no program are a run up to what puts an end to it. -/
theorem ofTokens_eq_error_iff {tokens : List Token} {error : CompileError} :
    ofTokens registry tokens = .error error ↔
      ∃ consumed left reached,
        Leads registry (.more (.argument [])) consumed reached ∧
        tokens = consumed ++ left ∧
        error.position = consumed.length ∧
        Stops registry reached left error.cause := by
  rw [ofTokens]
  refine ⟨?_, ?_⟩
  · intro h
    split at h
    · next failure hread =>
        injection h with h
        subst h
        obtain ⟨consumed, left, stuck, hleads, htokens, hposition, hstops⟩ :=
          readFrom_eq_error_iff.1 hread
        rw [Nat.zero_add] at hposition
        exact ⟨consumed, left, .more stuck, hleads, htokens, hposition, hstops⟩
    · cases h
    · next root position token rest hread =>
        injection h with h
        subst h
        obtain ⟨consumed, hleads, htokens, hposition⟩ :=
          readFrom_eq_ok_iff.1 hread
        rw [Nat.zero_add] at hposition
        exact ⟨consumed, token :: rest, .complete root, hleads, htokens,
          hposition, .trailing root token rest⟩
  · intro h
    obtain ⟨consumed, left, reached, hleads, htokens, hposition, hstops⟩ := h
    cases reached with
    | more stuck =>
        have hread : readFrom registry (.argument []) 0 tokens = .error error :=
          readFrom_eq_error_iff.2 ⟨consumed, left, stuck, hleads, htokens,
            by omega, hstops⟩
        rw [hread]
    | complete e =>
        obtain ⟨cause, position⟩ := error
        change position = consumed.length at hposition
        change Stops registry (.complete e) left cause at hstops
        cases hstops with
        | trailing _ token rest =>
            have hread : readFrom registry (.argument []) 0 tokens =
                .ok ⟨e, position, token :: rest⟩ :=
              readFrom_eq_ok_iff.2 ⟨consumed, hleads, htokens,
                by rw [Nat.zero_add]; exact hposition⟩
            rw [hread]

end SetCalculator.Expr
