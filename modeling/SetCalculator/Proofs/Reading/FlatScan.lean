import SetCalculator.Proofs.Reading.OpenCalls

/-!
# Programs can be told by a flat scan

Whether tokens are a program can be seen without building an expression:
compare each token with its neighbour, and count brackets. `CleanScan` is what
such a scan asks for, and it asks for exactly what the reader does.

That a program scans cleanly is read off its run, cut where the scan looks.
For the converse take tokens that are no program. Their run stops somewhere,
and each of the ways in which it can stop is something that the scan does not
let pass: half of them at the last token consumed and the next one, the other
half because of the number of calls that are open.
-/

namespace SetCalculator.Expr

variable {registry : Registry}

/-- What a scan of the tokens asks for. -/
structure CleanScan (registry : Registry) (tokens : List Token) : Prop where
  nonempty : tokens ≠ []
  /-- The start of a call is directly followed by a name of the registry. -/
  named : ∀ before start after, tokens = before ++ start :: after →
    start.kind = .callStart → ∃ name rest,
      after = .functionName name :: rest ∧ registry.contains name = true
  /-- A name directly follows the start of a call. -/
  called : ∀ before name after, tokens = before ++ .functionName name :: after →
    ∃ earlier opening, before = earlier ++ [⟨.callStart, opening⟩]
  /-- The end of a call does not directly follow a name. -/
  applied : ∀ before name closing after,
    tokens ≠ before ++ .functionName name :: ⟨.callEnd, closing⟩ :: after
  /-- Between the first token and the last a call is open. -/
  inside : ∀ count, 0 < count → count < tokens.length →
    0 < Token.depth (tokens.take count)
  /-- At the end none is. -/
  closed : Token.depth tokens = 0

/-! ## A program scans cleanly -/

theorem named_of_leads {before after : List Token} {opening : String} {e : Expr}
    (h : Leads registry (.more (.argument []))
      (before ++ ⟨.callStart, opening⟩ :: after) (.complete e)) :
    ∃ name rest, after = .functionName name :: rest ∧
      registry.contains name = true := by
  obtain ⟨state, next, -, one, later⟩ := leads_at_iff.1 h
  obtain ⟨calls, rfl⟩ := one.of_start
  cases later with
  | consume named rest =>
      cases named with
      | name calls known =>
          exact ⟨_, _, rfl, by rw [Registry.contains, known]; rfl⟩

theorem called_of_leads {before after : List Token} {name : String}
    {reached : Progress}
    (h : Leads registry (.more (.argument []))
      (before ++ .functionName name :: after) reached) :
    ∃ earlier opening, before = earlier ++ [⟨.callStart, opening⟩] := by
  obtain ⟨state, next, hbefore, one, -⟩ := leads_at_iff.1 h
  obtain ⟨calls, f, rfl, -⟩ := one.of_name
  exact exists_start_of_leads hbefore

theorem not_leads_over_empty_call {before after : List Token}
    {name closing : String} {reached : Progress} :
    ¬ Leads registry (.more (.argument []))
      (before ++ .functionName name :: ⟨.callEnd, closing⟩ :: after)
      reached := by
  intro h
  obtain ⟨state, next, -, one, later⟩ := leads_at_iff.1 h
  obtain ⟨calls, f, -, rfl⟩ := one.of_name
  cases later with
  | consume ended _ =>
      cases ended with
      | finish closing f outer some_arg => exact some_arg rfl

theorem inside_of_leads {tokens : List Token} {e : Expr}
    (h : Leads registry (.more (.argument [])) tokens (.complete e))
    {count : Nat} (hpos : 0 < count) (hlt : count < tokens.length) :
    0 < Token.depth (tokens.take count) := by
  rw [← List.take_append_drop count tokens, List.drop_eq_getElem_cons hlt] at h
  obtain ⟨state, next, htaken, -, -⟩ := leads_at_iff.1 h
  have hne : tokens.take count ≠ [] := by
    intro hnil
    have hlength := congrArg List.length hnil
    rw [List.length_take, List.length_nil] at hlength
    omega
  have hopen := htaken.openCalls_pos hne
  rw [depth_of_leads htaken]
  omega

theorem cleanScan_of_leads {tokens : List Token} {e : Expr}
    (h : Leads registry (.more (.argument [])) tokens (.complete e)) :
    CleanScan registry tokens where
  nonempty hnil := by
    subst hnil
    cases h
  named before start after heq hstart := by
    obtain ⟨kind, opening⟩ := start
    subst heq hstart
    exact named_of_leads h
  called before name after heq := by
    subst heq
    exact called_of_leads h
  applied before name closing after heq := by
    subst heq
    exact not_leads_over_empty_call h
  inside count hpos hlt := inside_of_leads h hpos hlt
  closed := depth_of_leads h

/-! ## Nothing stops the reader on a clean scan -/

theorem CleanScan.depth_nonneg {tokens : List Token}
    (h : CleanScan registry tokens) (count : Nat) :
    0 ≤ Token.depth (tokens.take count) := by
  rcases Nat.eq_zero_or_pos count with rfl | hpos
  · exact Int.le_refl 0
  · rcases Nat.lt_or_ge count tokens.length with hlt | hge
    · exact Int.le_of_lt (h.inside count hpos hlt)
    · rw [List.take_of_length_le hge]
      exact Int.le_of_eq h.closed.symm

theorem CleanScan.not_refuses {consumed rest : List Token} {token : Token}
    {state : ReadState} {cause : CompileError.Cause}
    (h : CleanScan registry (consumed ++ token :: rest))
    (hleads : Leads registry (.more (.argument [])) consumed (.more state)) :
    ¬ Refuses registry state token cause := by
  intro hrefuses
  cases hrefuses with
  | noName calls hkind =>
      obtain ⟨earlier, opening, rfl⟩ := exists_start_of_leads hleads
      obtain ⟨name, after, heq, -⟩ := h.named earlier _ (token :: rest)
        (List.append_assoc ..) rfl
      cases heq
      exact hkind rfl
  | unknownName calls hunknown =>
      obtain ⟨earlier, opening, rfl⟩ := exists_start_of_leads hleads
      obtain ⟨name, after, heq, hknown⟩ := h.named earlier _ (_ :: rest)
        (List.append_assoc ..) rfl
      cases heq
      rw [Registry.contains, hunknown] at hknown
      cases hknown
  | strayName name calls =>
      obtain ⟨earlier, opening, rfl⟩ := h.called consumed name rest rfl
      obtain ⟨_, -, one⟩ := leads_concat_iff.1 hleads
      obtain ⟨_, heq⟩ := one.of_start
      cases heq
  | strayEnd closing =>
      -- No call is open, so nothing was consumed and the count starts at -1.
      by_cases hnil : consumed = []
      · subst hnil
        have hfirst : (0 : Int) ≤ -1 := h.depth_nonneg 1
        exact absurd hfirst (by decide)
      · exact absurd (hleads.openCalls_pos hnil) (Nat.lt_irrefl 0)
  | earlyEnd closing f outer =>
      obtain ⟨earlier, rfl⟩ := exists_name_of_leads hleads
      exact h.applied earlier f.name closing rest (List.append_assoc ..)

theorem CleanScan.not_stops {consumed left : List Token} {reached : Progress}
    {cause : CompileError.Cause} (h : CleanScan registry (consumed ++ left))
    (hleads : Leads registry (.more (.argument [])) consumed reached) :
    ¬ Stops registry reached left cause := by
  intro hstops
  cases hstops with
  | ended state =>
      have hne := h.nonempty
      have hclosed := h.closed
      rw [List.append_nil] at hne hclosed
      have hopen := hleads.openCalls_pos hne
      have hcount := depth_of_leads hleads
      omega
  | refused rest hrefuses => exact h.not_refuses hleads hrefuses
  | trailing e token rest =>
      have hne : consumed ≠ [] := by
        rintro rfl
        cases hleads
      have hinside := h.inside consumed.length (List.length_pos_iff.2 hne)
        (by simp)
      rw [List.take_left, depth_of_leads hleads] at hinside
      exact absurd hinside (Int.lt_irrefl 0)

/-- The reader accepts exactly the tokens that scan cleanly. -/
theorem compiles_iff_cleanScan (registry : Registry) (tokens : List Token) :
    (∃ e, ofTokens registry tokens = .ok e) ↔ CleanScan registry tokens := by
  refine ⟨?_, ?_⟩
  · intro h
    obtain ⟨e, hok⟩ := h
    exact cleanScan_of_leads (ofTokens_eq_ok_iff.1 hok)
  · intro h
    cases hresult : ofTokens registry tokens with
    | ok e => exact ⟨e, rfl⟩
    | error error =>
        obtain ⟨consumed, left, reached, hleads, rfl, -, hstops⟩ :=
          ofTokens_eq_error_iff.1 hresult
        exact absurd hstops (h.not_stops hleads)

end SetCalculator.Expr
