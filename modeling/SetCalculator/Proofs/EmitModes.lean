import SetCalculator.Proofs.Reports
import SetCalculator.Proofs.Text.Joining

/-!
# The three ways to print never disagree

Each of the three ways to print goes through the front end on its own and stops
at a different stage: tokens need words that are tokens, the canonical text
needs an expression as well, and the values need the sources too. The stages
come in one order, so a way that stops later fails wherever an earlier one does,
and with the same problem; what it fails with beyond that belongs to the stages
that it alone goes through (`Reports`).

All three see of a program its tokens only (`render_congr`). The lines that list
tokens show each of them behind its label and a space, and no label has a space
in it, so the words are found again, and any text that spaces them can stand in
for the program.
-/

namespace SetCalculator.CommandLine

variable {disk : Source.Disk} {base? : Option String} {options : Options}
  {program : String} {problem : Problem}

/-! ## The stages -/

theorem render_eq_error_iff :
    render disk options program = .error problem ↔
      ∃ message, Reports disk options program problem message := by
  refine ⟨fun h => ?_, fun h => ?_⟩
  · rcases render_settles disk options program with
      ⟨lines, hlines, -⟩ | ⟨problem', hproblem, hreports⟩
    · rw [h] at hlines
      cases hlines
    · rw [h] at hproblem
      cases hproblem
      exact ⟨_, hreports⟩
  · obtain ⟨message, hreports⟩ := h
    cases hreports with
    | lexical refused => exact render_of_lexical refused
    | compile emit text refused => exact render_of_compile emit text refused
    | runtime emit text root failed => rw [render_result emit text root, failed]

/-- Listing the tokens fails at words only. -/
theorem render_tokens_eq_error_iff :
    render disk ⟨base?, .tokens⟩ program = .error problem ↔
      ∃ error, problem = .lexical error ∧
        Token.ofText program = .error error := by
  refine ⟨fun h => ?_, fun h => ?_⟩
  · obtain ⟨message, hreports⟩ := render_eq_error_iff.1 h
    cases hreports with
    | lexical refused => exact ⟨_, rfl, refused⟩
    | compile emit => exact absurd rfl emit
    | runtime emit => cases emit
  · obtain ⟨error, rfl, herror⟩ := h
    exact render_of_lexical herror

/-- The canonical text fails at words, and else at tokens. -/
theorem render_tree_eq_error_iff :
    render disk ⟨base?, .tree⟩ program = .error problem ↔
      (∃ error, problem = .lexical error ∧
        Token.ofText program = .error error) ∨
      ∃ tokens error, problem = .compile error ∧
        Token.ofText program = .ok tokens ∧
        Expr.ofTokens .builtin tokens = .error error := by
  refine ⟨fun h => ?_, fun h => ?_⟩
  · obtain ⟨message, hreports⟩ := render_eq_error_iff.1 h
    cases hreports with
    | lexical refused => exact .inl ⟨_, rfl, refused⟩
    | compile emit text refused => exact .inr ⟨_, _, rfl, text, refused⟩
    | runtime emit => cases emit
  · rcases h with ⟨error, rfl, herror⟩ | ⟨tokens, error, rfl, htext, herror⟩
    · exact render_of_lexical herror
    · exact render_of_compile (by simp) htext herror

theorem render_result_of_tree_error
    (h : render disk ⟨base?, .tree⟩ program = .error problem) :
    render disk ⟨base?, .result⟩ program = .error problem := by
  rcases render_tree_eq_error_iff.1 h with
    ⟨error, rfl, herror⟩ | ⟨tokens, error, rfl, htext, herror⟩
  · exact render_of_lexical herror
  · exact render_of_compile (by simp) htext herror

/-- Where there is a canonical text, the values can only fail at a source. -/
theorem runtime_of_result_error {lines : List String}
    (htree : render disk ⟨base?, .tree⟩ program = .ok lines)
    (h : render disk ⟨base?, .result⟩ program = .error problem) :
    ∃ error, problem = .runtime error := by
  obtain ⟨message, hreports⟩ := render_eq_error_iff.1 h
  cases hreports with
  | lexical refused =>
      rw [render_of_lexical refused] at htree
      cases htree
  | compile emit text refused =>
      rw [render_of_compile (by simp) text refused] at htree
      cases htree
  | runtime => exact ⟨_, rfl⟩

/-! ## The tokens that are listed -/

/-- What follows the first space of a line. -/
def afterSpace (line : String) : String :=
  String.ofList ((line.toList.dropWhile (· != ' ')).drop 1)

theorem afterSpace_tokenLine (token : Token) :
    afterSpace (tokenLine token) = token.raw := by
  have hlabel : token.kind.label.toList.all (· != ' ') = true := by
    cases token.kind <;> rfl
  have hline : (tokenLine token).toList =
      token.kind.label.toList ++ ' ' :: token.raw.toList := by
    simp [tokenLine]
  rw [afterSpace, hline,
    List.dropWhile_append_of_pos (List.all_eq_true.1 hlabel)]
  simp

/-- A program with the same tokens is as good. -/
theorem render_congr {program' : String}
    (h : Token.ofText program' = Token.ofText program) :
    render disk options program' = render disk options program := by
  have htokens : Program.tokens program' = Program.tokens program := by
    rw [Program.tokens, Program.tokens, h]
  have hcompile : Program.compile .builtin program' =
      Program.compile .builtin program := by
    rw [Program.compile, Program.compile, htokens]
  rw [render, render, htokens, hcompile]
  simp only [Program.run, hcompile]

theorem render_of_spaces {source : String} {lines : List String}
    (h : render disk ⟨base?, .tokens⟩ program = .ok lines)
    (hspaces : Text.Spaces (lines.map afterSpace) source) :
    render disk options source = render disk options program := by
  cases htext : Token.ofText program with
  | error error =>
      rw [render_of_lexical htext] at h
      cases h
  | ok tokens =>
      rw [render_tokens rfl htext] at h
      cases h
      have hraw : (tokens.map tokenLine).map afterSpace =
          tokens.map Token.raw := by
        rw [List.map_map]
        exact List.map_congr_left fun token _ => afterSpace_tokenLine token
      rw [hraw] at hspaces
      refine render_congr ?_
      rw [htext,
        Token.ofText_of_spaces hspaces (Token.ofText_eq_ok_iff.1 htext).2]

/-- The three ways to print never disagree. Each stage that stops an earlier one
stops every later one too, and with the same problem: words stop all three, the
tokens stop the canonical text and the values, and beyond these the values stop
at a source only. Where tokens are listed, their words can be taken from the
lines and spaced anew, with one gap or with several, and the text that comes out
is printed as the program is in each of the three ways, to the same lines or to
the same problem. -/
theorem render_agrees_across_modes (disk : Source.Disk) (base? : Option String)
    (program : String) :
    ((∃ problem, render disk ⟨base?, .tokens⟩ program = .error problem) ↔
      ∃ error, Token.ofText program = .error error) ∧
    (∀ problem, render disk ⟨base?, .tokens⟩ program = .error problem →
      (∃ error, problem = .lexical error ∧
        Token.ofText program = .error error) ∧
      render disk ⟨base?, .tree⟩ program = .error problem ∧
      render disk ⟨base?, .result⟩ program = .error problem) ∧
    ((∃ problem, render disk ⟨base?, .tree⟩ program = .error problem) ↔
      (∃ error, Token.ofText program = .error error) ∨
      ∃ tokens error, Token.ofText program = .ok tokens ∧
        Expr.ofTokens .builtin tokens = .error error) ∧
    (∀ problem, render disk ⟨base?, .tree⟩ program = .error problem →
      render disk ⟨base?, .result⟩ program = .error problem) ∧
    (∀ lines, render disk ⟨base?, .tree⟩ program = .ok lines →
      (∃ values, render disk ⟨base?, .result⟩ program = .ok values) ∨
      ∃ error, render disk ⟨base?, .result⟩ program =
        .error (.runtime error)) ∧
    ∀ lines, render disk ⟨base?, .tokens⟩ program = .ok lines →
      (∀ gap, Text.IsGap gap → ∀ emit,
        render disk ⟨base?, emit⟩ (gap.intercalate (lines.map afterSpace)) =
          render disk ⟨base?, emit⟩ program) ∧
      ∀ source, Text.Spaces (lines.map afterSpace) source → ∀ emit,
        render disk ⟨base?, emit⟩ source =
          render disk ⟨base?, emit⟩ program := by
  refine ⟨?_, fun problem h => ?_, ?_, fun _ => render_result_of_tree_error,
    fun lines h => ?_, fun lines h => ⟨fun gap hgap emit => ?_, ?_⟩⟩
  · simp only [render_tokens_eq_error_iff]
    exact ⟨fun ⟨_, error, _, herror⟩ => ⟨error, herror⟩,
      fun ⟨error, herror⟩ => ⟨_, error, rfl, herror⟩⟩
  · obtain ⟨error, rfl, herror⟩ := render_tokens_eq_error_iff.1 h
    exact ⟨⟨error, rfl, herror⟩, render_of_lexical herror,
      render_of_lexical herror⟩
  · simp only [render_tree_eq_error_iff]
    constructor
    · rintro ⟨_, ⟨error, -, herror⟩ | ⟨tokens, error, -, htext, herror⟩⟩
      · exact .inl ⟨error, herror⟩
      · exact .inr ⟨tokens, error, htext, herror⟩
    · rintro (⟨error, herror⟩ | ⟨tokens, error, htext, herror⟩)
      · exact ⟨_, .inl ⟨error, rfl, herror⟩⟩
      · exact ⟨_, .inr ⟨tokens, error, rfl, htext, herror⟩⟩
  · cases hresult : render disk ⟨base?, .result⟩ program with
    | ok values => exact .inl ⟨values, rfl⟩
    | error problem =>
        obtain ⟨error, rfl⟩ := runtime_of_result_error h hresult
        exact .inr ⟨error, rfl⟩
  · exact render_of_spaces h (Text.spaces_intercalate hgap _)
  · exact fun source hsource emit => render_of_spaces h hsource

/-- A call without arguments inside of another call, which is refused at its end
however the program is spaced, a word that stops all three ways, and a program
that only its source can stop. -/
theorem render_agrees_on_refused_programs :
    let disk : Source.Disk := fun _ => .error .notFound
    let problem : Problem := .compile ⟨.emptyCall "INT", 4⟩
    let source := "\t[ SUM\u3000[ INT\r\n] a ]"
    render disk ⟨none, .tree⟩ "[ SUM [ INT ] a ]" = .error problem ∧
      render disk ⟨none, .result⟩ "[ SUM [ INT ] a ]" = .error problem ∧
      render disk ⟨none, .tree⟩ source = .error problem ∧
      render disk ⟨none, .result⟩ source = .error problem ∧
      render disk ⟨none, .result⟩ "[ SUM+ a ]" =
        .error (.lexical ⟨"SUM+", 1⟩) ∧
      ((∃ values, render disk ⟨none, .result⟩ "a" = .ok values) ∨
        ∃ error,
          render disk ⟨none, .result⟩ "a" = .error (.runtime error)) := by
  intro disk problem source
  obtain ⟨-, -, -, hresult, -, hspaced⟩ :=
    render_agrees_across_modes disk none "[ SUM [ INT ] a ]"
  have htree : render disk ⟨none, .tree⟩ "[ SUM [ INT ] a ]" =
      .error problem := by decide +kernel
  have htokens : render disk ⟨none, .tokens⟩ "[ SUM [ INT ] a ]" =
      .ok ["FuncCallStart [", "FuncName SUM", "FuncCallStart [", "FuncName INT",
        "FuncCallEnd ]", "FileName a", "FuncCallEnd ]"] := by decide +kernel
  have hsource : ∀ emit, render disk ⟨none, emit⟩ source =
      render disk ⟨none, emit⟩ "[ SUM [ INT ] a ]" := by
    refine (hspaced _ htokens).2 source ?_
    have htab : Text.IsBlankText "\t" := by decide
    have hwide : Text.IsGap "\u3000" := by decide
    have hending : Text.IsGap "\r\n" := by decide
    have hspace : Text.IsGap " " := by decide
    exact .front htab (.gap hspace "[" (.gap hwide "SUM" (.gap hspace "["
      (.gap hending "INT" (.gap hspace "]" (.gap hspace "a" (.last "]")))))))
  refine ⟨htree, hresult _ htree, (hsource .tree).trans htree,
    (hsource .result).trans (hresult _ htree), ?_, ?_⟩
  · obtain ⟨-, hlexical, -⟩ := render_agrees_across_modes disk none "[ SUM+ a ]"
    exact (hlexical _ (by decide +kernel)).2.2
  · obtain ⟨-, -, -, -, hlast, -⟩ := render_agrees_across_modes disk none "a"
    have htext : Token.ofText "a" = .ok [.fileName "a"] := by decide +kernel
    exact hlast _ (render_tree rfl htext rfl)

end SetCalculator.CommandLine
