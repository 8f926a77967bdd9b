import SetCalculator.Proofs.Reading.Steps

/-!
# Reading looks at no tokens but those it takes

What is read at an index is a run over the tokens from there on, and a run is
made of nothing but the tokens it consumes: it neither knows what comes before
them nor looks at what follows. So tokens that were read can be put between
any others and are read as before. A refusal depends on one token more, the
refused one. Only the end of the tokens is a fact about what follows, namely
that nothing does, so there the tokens have to stay last.

A reading counts positions from the first token there is, and the tokens an
expression takes up from where it starts. Moving the tokens therefore moves the
positions of errors and leaves those counts alone.
-/

namespace SetCalculator.Expr

variable {registry : Registry}

/-- What refuses a token refuses it whatever follows. -/
theorem Stops.with_rest {stuck : ReadState} {token : Token} {left : List Token}
    {cause : CompileError.Cause}
    (h : Stops registry (.more stuck) (token :: left) cause)
    (rest : List Token) :
    Stops registry (.more stuck) (token :: rest) cause := by
  cases h with
  | refused _ refuses => exact .refused rest refuses

/-! ## A run between other tokens -/

theorem readAt_of_leads_complete {consumed : List Token} {e : Expr}
    (h : Leads registry (.more (.argument [])) consumed (.complete e))
    (before after : List Token) :
    readAt registry (before ++ consumed ++ after) before.length =
      .ok (e, consumed.length) := by
  rw [List.append_assoc]
  exact readAt_eq_ok_iff.2 ⟨consumed, after, List.drop_left, h, rfl⟩

theorem readAt_of_leads_stops {consumed left : List Token} {stuck : ReadState}
    {cause : CompileError.Cause}
    (h : Leads registry (.more (.argument [])) consumed (.more stuck))
    (hstops : Stops registry (.more stuck) left cause) (before : List Token) :
    readAt registry (before ++ (consumed ++ left)) before.length =
      .error ⟨cause, before.length + consumed.length⟩ :=
  readAt_eq_error_iff.2 ⟨consumed, left, stuck, List.drop_left, h, rfl, hstops⟩

/-! ## Moving what was read -/

theorem readAt_moved_of_ok {tokens : List Token} {index count : Nat} {e : Expr}
    (h : readAt registry tokens index = .ok (e, count))
    (before after : List Token) :
    readAt registry (before ++ (tokens.drop index).take count ++ after)
      before.length = .ok (e, count) := by
  obtain ⟨consumed, rest, htokens, hleads, rfl⟩ := readAt_eq_ok_iff.1 h
  rw [htokens, List.take_left]
  exact readAt_of_leads_complete hleads before after

/-- A token that is refused stands in the list, and the tokens up to it are
all that decides. -/
theorem readAt_moved_of_refused {tokens : List Token} {index position : Nat}
    {cause : CompileError.Cause}
    (h : readAt registry tokens index = .error ⟨cause, position⟩)
    (hcause : cause ≠ .endOfInput) (before after : List Token) :
    index ≤ position ∧ position < tokens.length ∧
      readAt registry
        (before ++ (tokens.drop index).take (position - index + 1) ++ after)
        before.length = .error ⟨cause, before.length + (position - index)⟩ := by
  obtain ⟨consumed, left, stuck, htokens, hleads, hposition, hstops⟩ :=
    readAt_eq_error_iff.1 h
  change position = index + consumed.length at hposition
  cases left with
  | nil => exact absurd (hstops.cause_eq_endOfInput_iff.2 rfl) hcause
  | cons token rest =>
      have hlength := congrArg List.length htokens
      rw [List.length_drop, List.length_append, List.length_cons] at hlength
      have htaken : position - index = consumed.length := by omega
      refine ⟨by omega, by omega, ?_⟩
      rw [htokens, htaken, List.take_length_add_append, List.append_assoc,
        List.append_assoc]
      exact readAt_of_leads_stops hleads (hstops.with_rest after) before

theorem readAt_moved_of_ended {tokens : List Token} {index position : Nat}
    (hindex : index ≤ tokens.length)
    (h : readAt registry tokens index = .error ⟨.endOfInput, position⟩)
    (before : List Token) :
    position = tokens.length ∧
      readAt registry (before ++ tokens.drop index) before.length =
        .error ⟨.endOfInput, before.length + (tokens.length - index)⟩ := by
  obtain ⟨consumed, left, stuck, htokens, hleads, hposition, hstops⟩ :=
    readAt_eq_error_iff.1 h
  change position = index + consumed.length at hposition
  obtain rfl : left = [] := hstops.cause_eq_endOfInput_iff.1 rfl
  have hlength := congrArg List.length htokens
  rw [List.length_drop, List.length_append, List.length_nil] at hlength
  have hleft : tokens.length - index = consumed.length := by omega
  refine ⟨by omega, ?_⟩
  rw [htokens, hleft]
  exact readAt_of_leads_stops hleads hstops before

/-- What is read at an index is decided by the tokens that are taken there,
with the refused one if there is one, and by no other; errors keep their cause
and move with the tokens. -/
theorem readAt_depends_on_span (registry : Registry) (tokens : List Token)
    (index : Nat) (before after : List Token) :
    (∀ e count, readAt registry tokens index = .ok (e, count) →
      readAt registry (before ++ (tokens.drop index).take count ++ after)
        before.length = .ok (e, count)) ∧
    (∀ cause position,
      readAt registry tokens index = .error ⟨cause, position⟩ →
      cause ≠ .endOfInput →
      index ≤ position ∧ position < tokens.length ∧
        readAt registry
          (before ++ (tokens.drop index).take (position - index + 1) ++ after)
          before.length = .error ⟨cause, before.length + (position - index)⟩) ∧
    (∀ position, index ≤ tokens.length →
      readAt registry tokens index = .error ⟨.endOfInput, position⟩ →
      position = tokens.length ∧
        readAt registry (before ++ tokens.drop index) before.length =
          .error ⟨.endOfInput, before.length + (tokens.length - index)⟩) :=
  ⟨fun _ _ h => readAt_moved_of_ok h before after,
    fun _ _ h hcause => readAt_moved_of_refused h hcause before after,
    fun _ hindex h => readAt_moved_of_ended hindex h before⟩

/-- `] [ INT a ] [ SUM ] [ DIF`: the call, the empty call and the open one are
read as before when they stand behind a name and in front of a bracket, and the
open one as long as nothing follows. -/
theorem readAt_moved_among_stray_tokens :
    let tokens : List Token := [.callEnd, .callStart, .functionName "INT",
      .fileName "a", .callEnd, .callStart, .functionName "SUM", .callEnd,
      .callStart, .functionName "DIF"]
    let before : List Token := [.functionName "SUM", .fileName "b"]
    let after : List Token := [.callEnd, .callEnd]
    let e : Expr := .call .int [.load "a"]
    (readAt .builtin tokens 1 = .ok (e, 4) ∧
      readAt .builtin (before ++ (tokens.drop 1).take 4 ++ after) 2 =
        .ok (e, 4)) ∧
    (readAt .builtin tokens 5 = .error ⟨.emptyCall "SUM", 7⟩ ∧
      readAt .builtin (before ++ (tokens.drop 5).take 3 ++ after) 2 =
        .error ⟨.emptyCall "SUM", 4⟩) ∧
    (8 ≤ tokens.length ∧
      readAt .builtin tokens 8 = .error ⟨.endOfInput, 10⟩ ∧
      readAt .builtin (before ++ tokens.drop 8) 2 =
        .error ⟨.endOfInput, 4⟩) := by
  intro tokens before after e
  have hcall : readAt .builtin tokens 1 = .ok (e, 4) := rfl
  have hempty : readAt .builtin tokens 5 = .error ⟨.emptyCall "SUM", 7⟩ := rfl
  have hopen : readAt .builtin tokens 8 = .error ⟨.endOfInput, 10⟩ := rfl
  have hindex : 8 ≤ tokens.length := by decide
  obtain ⟨hok, -, -⟩ := readAt_depends_on_span .builtin tokens 1 before after
  obtain ⟨-, hrefused, -⟩ :=
    readAt_depends_on_span .builtin tokens 5 before after
  obtain ⟨-, -, hended⟩ := readAt_depends_on_span .builtin tokens 8 before after
  exact ⟨⟨hcall, hok e 4 hcall⟩,
    ⟨hempty, (hrefused _ 7 hempty (by decide)).2.2⟩,
    ⟨hindex, hopen, (hended 10 hindex hopen).2⟩⟩

end SetCalculator.Expr
