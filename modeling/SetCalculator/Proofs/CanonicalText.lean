import SetCalculator.Expr.Text
import SetCalculator.Proofs.Reading.Grammar
import SetCalculator.Proofs.Text.Tokens

/-!
# Canonical texts read back

The canonical text of an expression is a program of that expression exactly
when the expression is one that programs can spell: its sources have names that
a file name can be, and each of its calls has an argument and a function of the
registry. If it is, the text is cut into the very words it was written with,
they are the tokens that spell the expression, and the reader takes them all.
If it is not, no tokens spell it at all, or none that a text can have.
-/

namespace SetCalculator

/-! ## Canonical tokens -/

/-- The tokens that a step of the walk stands for. -/
def Visit.tokens : Visit → List Token
  | .leaf source => [.fileName source]
  | .enter f => [.callStart, .functionName f.name]
  | .leave => [.callEnd]

namespace Expr

variable {registry : Registry}

/-- The tokens that an expression is written with. -/
def tokens (e : Expr) : List Token :=
  e.visits.flatMap Visit.tokens

@[simp] theorem tokens_load (source : String) :
    tokens (.load source) = [.fileName source] := by
  simp [tokens, Visit.tokens]

@[simp] theorem tokens_call (f : SetFunction) (args : List Expr) :
    tokens (.call f args) =
      .callStart :: .functionName f.name ::
        (args.flatMap tokens ++ [.callEnd]) := by
  simp [tokens, Visit.tokens, List.flatMap_assoc]
  rfl

theorem map_raw_tokens (e : Expr) : e.tokens.map Token.raw = e.words := by
  rw [tokens, words, List.map_flatMap]
  congr 1
  funext visit
  cases visit <;> rfl

/-! ## What programs can spell -/

/-- An expression that programs can spell. -/
structure WellFormed (registry : Registry) (e : Expr) : Prop where
  /-- Every source has a name that a file name can be. -/
  named : ∀ name ∈ e.sources, IsFileName name
  /-- Every call has an argument. -/
  applied : ∀ f args, .call f args ∈ e.subterms → args ≠ []
  /-- Every function is one of the registry. -/
  known : ∀ f args, .call f args ∈ e.subterms → registry.holds f = true

theorem WellFormed.of_mem_args {f : SetFunction} {args : List Expr} {arg : Expr}
    (h : WellFormed registry (.call f args)) (harg : arg ∈ args) :
    WellFormed registry arg := by
  have hsub : ∀ e ∈ arg.subterms, e ∈ subterms (.call f args) := by
    intro e he
    rw [subterms_call]
    exact List.mem_cons_of_mem _ (List.mem_flatMap.2 ⟨arg, harg, he⟩)
  refine ⟨?_, ?_, ?_⟩
  · exact fun name hname => h.named name (mem_sources_of_mem_args harg hname)
  · exact fun g args' hmem => h.applied g args' (hsub _ hmem)
  · exact fun g args' hmem => h.known g args' (hsub _ hmem)

/-- What is spelled one by one is spelled in a row. -/
theorem spellsAll_tokens {es : List Expr}
    (h : ∀ e ∈ es, Spells registry e.tokens e) :
    SpellsAll registry (es.flatMap tokens) es := by
  induction es with
  | nil => exact .nil
  | cons e rest ih =>
      obtain ⟨he, hrest⟩ := List.forall_mem_cons.1 h
      rw [List.flatMap_cons]
      exact .cons he (ih hrest)

theorem WellFormed.spells {e : Expr} (h : WellFormed registry e) :
    Spells registry e.tokens e := by
  induction e with
  | load source =>
      rw [tokens_load]
      exact .load source
  | call f args ih =>
      have hself : .call f args ∈ subterms (.call f args) := by
        rw [subterms_call]
        exact List.mem_cons_self
      have hknown : registry.get? f.name = some f :=
        Registry.get?_eq_some_iff.2 ⟨rfl, h.known f args hself⟩
      rw [tokens_call]
      exact .call "[" "]" hknown (h.applied f args hself)
        (spellsAll_tokens fun arg harg => ih arg harg (h.of_mem_args harg))

/-! ## The text is cut into the words it was written with -/

theorem mem_tokens_cases {e : Expr} {token : Token} (h : token ∈ e.tokens) :
    (∃ name ∈ e.sources, token = .fileName name) ∨
      (∃ f : SetFunction, token = .functionName f.name) ∨
      token = .callStart ∨ token = .callEnd := by
  induction e with
  | load source =>
      rw [tokens_load, List.mem_singleton] at h
      exact .inl ⟨source, by simp, h⟩
  | call f args ih =>
      rw [tokens_call, List.mem_cons, List.mem_cons, List.mem_append,
        List.mem_singleton] at h
      rcases h with h | h | h | h
      · exact .inr (.inr (.inl h))
      · exact .inr (.inl ⟨f, h⟩)
      · obtain ⟨arg, harg, htoken⟩ := List.mem_flatMap.1 h
        rcases ih arg harg htoken with ⟨name, hname, heq⟩ | hother
        · exact .inl ⟨name, mem_sources_of_mem_args harg hname, heq⟩
        · exact .inr hother
      · exact .inr (.inr (.inr h))

/-- A canonical token that names no source is a word of its kind. -/
theorem source_or_classified_of_mem_tokens {e : Expr} {token : Token}
    (h : token ∈ e.tokens) :
    (∃ name ∈ e.sources, token = .fileName name) ∨
      Text.IsWord token.raw ∧
        TokenKind.ofWord? token.raw.toList = some token.kind := by
  rcases mem_tokens_cases h with hsource | ⟨f, rfl⟩ | rfl | rfl
  · exact .inl hsource
  · cases f <;> exact .inr ⟨Text.isWord_of_all (by decide) rfl, rfl⟩
  · exact .inr ⟨Text.isWord_of_all (by decide) rfl, rfl⟩
  · exact .inr ⟨Text.isWord_of_all (by decide) rfl, rfl⟩

/-- Each canonical token is a word of its kind. -/
theorem WellFormed.tokens_classified {e : Expr} (h : WellFormed registry e) :
    ∀ token ∈ e.tokens, Text.IsWord token.raw ∧
      TokenKind.ofWord? token.raw.toList = some token.kind := by
  intro token htoken
  rcases source_or_classified_of_mem_tokens htoken with
    ⟨name, hname, rfl⟩ | hclassified
  · have hfile := h.named name hname
    exact ⟨hfile.isWord, TokenKind.ofWord?_eq_fileName_iff.2 hfile⟩
  · exact hclassified

theorem WellFormed.ofText_text {e : Expr} (h : WellFormed registry e) :
    Token.ofText e.text = .ok e.tokens := by
  refine Token.ofText_eq_ok_iff.2
    ⟨?_, fun token htoken => (h.tokens_classified token htoken).2⟩
  rw [map_raw_tokens, text]
  refine (Text.spaces_with_spaces _).words_eq fun word hword => ?_
  rw [← map_raw_tokens, List.mem_map] at hword
  obtain ⟨token, htoken, rfl⟩ := hword
  exact (h.tokens_classified token htoken).1

/-! ## Only well-formed expressions come back -/

theorem isFileName_of_mem_fileNames {text name : String} {tokens : List Token}
    (h : Token.ofText text = .ok tokens)
    (hname : name ∈ Token.fileNames tokens) : IsFileName name := by
  rw [Token.fileNames, List.mem_map] at hname
  obtain ⟨token, htoken, rfl⟩ := hname
  obtain ⟨hmem, hkind⟩ := List.mem_filter.1 htoken
  rw [← TokenKind.ofWord?_eq_fileName_iff,
    (Token.ofText_eq_ok_iff.1 h).2 token hmem, of_decide_eq_true hkind]

/-- Whatever a text spells is well formed. -/
theorem wellFormed_of_spells {text : String} {tokens : List Token} {e : Expr}
    (htext : Token.ofText text = .ok tokens)
    (hspells : Spells registry tokens e) : WellFormed registry e where
  named name hname := by
    rw [hspells.sources_eq] at hname
    exact isFileName_of_mem_fileNames htext hname
  applied _ _ hmem := (hspells.call_mem hmem).1
  known _ _ hmem := (hspells.call_mem hmem).2

/-! ## The round trip -/

theorem WellFormed.ofTokens_tokens {e : Expr} (h : WellFormed registry e) :
    ofTokens registry e.tokens = .ok e :=
  ofTokens_eq_ok_iff_spells.2 h.spells

/-- The canonical text of an expression is a program of it exactly when the
expression is well formed. The program then has as many tokens as the
expression says, the reader takes all of them, and no other well-formed
expression has the same text. -/
theorem text_compiles_iff_wellFormed (registry : Registry) (e : Expr) :
    ((∃ tokens, Token.ofText e.text = .ok tokens ∧
      ofTokens registry tokens = .ok e) ↔ WellFormed registry e) ∧
    (WellFormed registry e → ∃ tokens, Token.ofText e.text = .ok tokens ∧
      tokens.length = e.tokenCount ∧
      readAt registry tokens 0 = .ok (e, tokens.length)) ∧
    (∀ e', WellFormed registry e → WellFormed registry e' →
      e.text = e'.text → e = e') := by
  refine ⟨⟨fun h => ?_, fun h => ?_⟩, fun h => ?_, fun e' h h' htext => ?_⟩
  · obtain ⟨tokens, htext, hok⟩ := h
    exact wellFormed_of_spells htext (ofTokens_eq_ok_iff_spells.1 hok)
  · exact ⟨e.tokens, h.ofText_text, h.ofTokens_tokens⟩
  · refine ⟨e.tokens, h.ofText_text, h.spells.length_eq, ?_⟩
    exact readAt_eq_ok_iff.2 ⟨e.tokens, [], (List.append_nil _).symm,
      leads_complete_iff.2 h.spells, rfl⟩
  · have htokens : e.tokens = e'.tokens := by
      have hsame := h.ofText_text
      rw [htext, h'.ofText_text] at hsame
      injection hsame with hsame
      exact hsame.symm
    have hok := h.ofTokens_tokens
    rw [htokens, h'.ofTokens_tokens] at hok
    injection hok with hok
    exact hok.symm

/-- `[ SUM a.txt [ DIF b c/d ] ]`, from the expression and back. -/
theorem text_of_nested_call_compiles :
    let e : Expr :=
      .call .sum [.load "a.txt", .call .dif [.load "b", .load "c/d"]]
    WellFormed .builtin e ∧ ∃ tokens, Token.ofText e.text = .ok tokens ∧
      tokens.length = 9 ∧ readAt .builtin tokens 0 = .ok (e, 9) := by
  intro e
  have hwf : WellFormed .builtin e := by
    refine ⟨fun name hname => ?_, fun f args hmem => ?_, fun _ _ _ => rfl⟩
    · rw [← TokenKind.ofWord?_eq_fileName_iff]
      simp only [e, sources_call, sources_load, List.flatMap_cons,
        List.flatMap_nil, List.mem_append, List.mem_singleton,
        List.append_nil] at hname
      rcases hname with rfl | rfl | rfl <;> rfl
    · simp [e] at hmem
      rcases hmem with ⟨-, rfl⟩ | ⟨-, rfl⟩ <;> simp
  obtain ⟨-, hreads, -⟩ := text_compiles_iff_wellFormed .builtin e
  obtain ⟨tokens, htext, hlength, hread⟩ := hreads hwf
  have hnine : tokens.length = 9 := by
    rw [hlength]
    simp [e, tokenCountOfAll]
  rw [hnine] at hread
  exact ⟨hwf, tokens, htext, hnine, hread⟩

end Expr

end SetCalculator
