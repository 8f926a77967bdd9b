import SetCalculator.Proofs.CanonicalText
import SetCalculator.Proofs.ProgramMeaning

/-!
# The canonical text of a program is the program respaced

Going from a program to its expression and back to text loses the spacing and
nothing else. A bracket of a text can only look like a bracket, a source is
kept under the word it was written with, and a registry knows a function under
no name but its own, so the tokens of a program are the very tokens that its
expression is written with (`Spells.tokens_eq`). What remains are the words
with single spaces between them, which run as the program does.
-/

namespace SetCalculator

variable {registry : Registry}

mutual

/-- Tokens of a text that spell an expression are those it is written with. -/
theorem Spells.tokens_eq {tokens : List Token} {e : Expr}
    (h : Spells registry tokens e)
    (hkinds : ∀ token ∈ tokens,
      TokenKind.ofWord? token.raw.toList = some token.kind) :
    tokens = e.tokens := by
  match h with
  | .load source => exact (Expr.tokens_load source).symm
  | .call opening closing known _ spelled =>
      obtain ⟨hopening, hrest⟩ := List.forall_mem_cons.1 hkinds
      obtain ⟨-, hrest⟩ := List.forall_mem_cons.1 hrest
      obtain ⟨hargs, hclosing⟩ := List.forall_mem_append.1 hrest
      have hopening := TokenKind.ofWord?_eq_callStart_iff.1 hopening
      have hclosing := TokenKind.ofWord?_eq_callEnd_iff.1
        (hclosing _ List.mem_cons_self)
      dsimp only at hopening hclosing
      rw [Expr.tokens_call, ← spelled.tokens_eq hargs, hopening, hclosing,
        (Registry.get?_eq_some_iff.1 known).1]
      rfl

theorem SpellsAll.tokens_eq {tokens : List Token} {es : List Expr}
    (h : SpellsAll registry tokens es)
    (hkinds : ∀ token ∈ tokens,
      TokenKind.ofWord? token.raw.toList = some token.kind) :
    tokens = es.flatMap Expr.tokens := by
  match h with
  | .nil => rfl
  | .cons head tail =>
      obtain ⟨hhead, htail⟩ := List.forall_mem_append.1 hkinds
      rw [List.flatMap_cons, ← head.tokens_eq hhead, ← tail.tokens_eq htail]

end

namespace Program

variable {source : String} {tokens : List Token} {e : Expr}

theorem tokens_eq_of_program (htext : Token.ofText source = .ok tokens)
    (hroot : Expr.ofTokens registry tokens = .ok e) : tokens = e.tokens :=
  Spells.tokens_eq (Expr.ofTokens_eq_ok_iff_spells.1 hroot)
    (Token.ofText_eq_ok_iff.1 htext).2

theorem words_eq_of_program (htext : Token.ofText source = .ok tokens)
    (hroot : Expr.ofTokens registry tokens = .ok e) :
    Text.words source = e.words := by
  rw [(Token.ofText_eq_ok_iff.1 htext).1, tokens_eq_of_program htext hroot,
    Expr.map_raw_tokens]

/-- The tokens of a program are those of its canonical text. -/
theorem ofText_text_of_program (htext : Token.ofText source = .ok tokens)
    (hroot : Expr.ofTokens registry tokens = .ok e) :
    Token.ofText e.text = .ok tokens := by
  have hwf : Expr.WellFormed registry e :=
    Expr.wellFormed_of_spells htext (Expr.ofTokens_eq_ok_iff_spells.1 hroot)
  rw [hwf.ofText_text, tokens_eq_of_program htext hroot]

/-- The canonical text of a program is its words with single spaces between
them. It is a program of the same expression, so its own canonical text too,
and it runs as the program does: to the same values or the same error, and
asking for the same sources. -/
theorem text_of_program_eq_words (registry : Registry) (source : String)
    (tokens : List Token) (e : Expr)
    (htext : Token.ofText source = .ok tokens)
    (hroot : Expr.ofTokens registry tokens = .ok e) :
    e.text = " ".intercalate (Text.words source) ∧
    Token.ofText e.text = .ok tokens ∧
    compile registry e.text = .ok e ∧
    ∀ loader, run registry loader e.text = run registry loader source := by
  have hsame := ofText_text_of_program htext hroot
  have hcompile : compile registry source = .ok e :=
    compile_eq_ok_iff.2 ⟨tokens, htext, hroot⟩
  have hcompile' : compile registry e.text = .ok e :=
    compile_eq_ok_iff.2 ⟨tokens, hsame, hroot⟩
  refine ⟨?_, hsame, hcompile', fun loader => ?_⟩
  · rw [words_eq_of_program htext hroot, Expr.text]
  · rw [run, run, hcompile, hcompile']

/-- A program on several lines, with a no-break space and an ideographic space
in it. -/
theorem text_of_program_in_odd_spacing :
    let source := "\t[ SUM\u00a0 a\n[  DIF b c/d ]\u3000]\r\n"
    let tokens : List Token := [.callStart, .functionName "SUM", .fileName "a",
      .callStart, .functionName "DIF", .fileName "b", .fileName "c/d",
      .callEnd, .callEnd]
    let e : Expr :=
      .call .sum [.load "a", .call .dif [.load "b", .load "c/d"]]
    Token.ofText source = .ok tokens ∧
      Expr.ofTokens .builtin tokens = .ok e ∧
      e.text = "[ SUM a [ DIF b c/d ] ]" ∧
      ∀ loader, run .builtin loader e.text = run .builtin loader source := by
  intro source tokens e
  have htext : Token.ofText source = .ok tokens := by decide +kernel
  have hroot : Expr.ofTokens .builtin tokens = .ok e := rfl
  obtain ⟨hwords, -, -, hrun⟩ :=
    text_of_program_eq_words .builtin source tokens e htext hroot
  exact ⟨htext, hroot, hwords.trans (by decide +kernel), hrun⟩

end Program

end SetCalculator
