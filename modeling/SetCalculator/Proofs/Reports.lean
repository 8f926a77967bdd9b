import SetCalculator.CommandLine
import SetCalculator.Proofs.Evaluation.FirstFailure
import SetCalculator.Proofs.Respacing
import SetCalculator.Proofs.Source.Faults
import SetCalculator.Proofs.Text.Classification
import SetCalculator.Proofs.Text.Numerals

/-!
# A run reports through one channel, and a failure on one line

Which channel a run reports through is settled by its arguments and by whether
its program fails. That a failure is one line is not settled by anything the
command does: it prints what the stage says, the stage quotes what it found, and
what it found is up to the user. So every stage has its own reason for there
being no line ending in its sentence. Words hold no blank, tokens are words,
functions have fixed names, the names of sources are tokens, and lines are cut
at the feeds. What the system says of a fault is the only thing taken on trust
(`Source.FaultsOnOneLine`).
-/

namespace SetCalculator

open Text (OneLine oneLine_append)

theorem Text.oneLine_quote {before quoted after : String}
    (hbefore : OneLine before) (hquoted : OneLine quoted)
    (hafter : OneLine after) : OneLine (before ++ quoted ++ after) :=
  oneLine_append.2 ⟨oneLine_append.2 ⟨hbefore, hquoted⟩, hafter⟩

/-! ## Words that are no tokens -/

theorem Token.oneLine_message {text : String} {error : UnknownWord}
    (h : ofText text = .error error) : OneLine error.message := by
  obtain ⟨before, after, hwords, -⟩ := ofText_eq_error_iff.1 h
  have hword : error.word ∈ Text.words text := by simp [hwords]
  exact Text.oneLine_quote (by decide) (Text.isWord_of_mem_words hword).oneLine
    (by decide)

theorem Token.oneLine_raw {text : String} {tokens : List Token}
    (h : ofText text = .ok tokens) : ∀ token ∈ tokens, OneLine token.raw := by
  intro token htoken
  have hword : token.raw ∈ Text.words text := by
    rw [(ofText_eq_ok_iff.1 h).1]
    exact List.mem_map_of_mem htoken
  exact (Text.isWord_of_mem_words hword).oneLine

/-! ## Tokens that are no program -/

theorem SetFunction.oneLine_name (f : SetFunction) : OneLine f.name := by
  cases f <;> decide

/-- What the sentence of a compile error quotes, if it quotes anything. -/
def CompileError.Cause.quoted? : Cause → Option String
  | .endOfInput => none
  | .unexpectedToken found => some found
  | .expectedFunctionName found => some found
  | .unknownFunction name => some name
  | .emptyCall name => some name
  | .trailingTokens found _ => some found

theorem CompileError.Cause.oneLine_message {cause : Cause}
    (h : ∀ quoted ∈ cause.quoted?, OneLine quoted) : OneLine cause.message := by
  cases cause with
  | endOfInput => decide
  | trailingTokens found =>
      exact Text.oneLine_quote (by decide) (h found rfl) (by decide)
  | unexpectedToken word | expectedFunctionName word | unknownFunction word
  | emptyCall word =>
      exact Text.oneLine_quote (by decide) (h word rfl) (by decide)

namespace Expr

variable {registry : Registry}

/-- A token is refused with its own word, or with the name of a function. -/
theorem Refuses.quoted {state : ReadState} {token : Token}
    {cause : CompileError.Cause} (h : Refuses registry state token cause) :
    ∀ quoted ∈ cause.quoted?,
      quoted = token.raw ∨ ∃ f : SetFunction, quoted = f.name := by
  intro quoted hquoted
  cases h with
  | earlyEnd closing f outer => exact .inr ⟨f, (Option.some.inj hquoted).symm⟩
  | noName | unknownName | strayName | strayEnd =>
      exact .inl (Option.some.inj hquoted).symm

theorem Stops.quoted {reached : Progress} {left : List Token}
    {cause : CompileError.Cause} (h : Stops registry reached left cause) :
    ∀ quoted ∈ cause.quoted?, (∃ token ∈ left, quoted = token.raw) ∨
      ∃ f : SetFunction, quoted = f.name := by
  intro quoted hquoted
  cases h with
  | ended => cases hquoted
  | @refused state token cause rest refuses =>
      refine (refuses.quoted quoted hquoted).imp_left fun heq => ?_
      exact ⟨token, List.mem_cons_self, heq⟩
  | trailing e token rest =>
      exact .inl ⟨token, List.mem_cons_self, (Option.some.inj hquoted).symm⟩

theorem oneLine_message {tokens : List Token} {error : CompileError}
    (hraw : ∀ token ∈ tokens, OneLine token.raw)
    (h : ofTokens registry tokens = .error error) : OneLine error.message := by
  obtain ⟨consumed, left, reached, -, rfl, -, hstops⟩ :=
    ofTokens_eq_error_iff.1 h
  refine CompileError.Cause.oneLine_message fun quoted hquoted => ?_
  rcases hstops.quoted quoted hquoted with ⟨token, htoken, rfl⟩ | ⟨f, rfl⟩
  · exact hraw token (List.mem_append_right _ htoken)
  · exact f.oneLine_name

end Expr

/-! ## Sources without a set -/

namespace Source

/-- Everything that comes out of a loader is on one line: the lines it reads,
and what is said of the faults it meets. -/
structure GivesOneLines (loader : Loader) : Prop where
  line {name line : String} {items : List LineItem}
    (opened : loader name = .ok items) (mem : .ok line ∈ items) : OneLine line
  fault {name : String} {fault : Fault} {items : List LineItem}
    (opened : loader name = .ok items) (mem : .error fault ∈ items) :
    OneLine fault.message
  unopened {name : String} {fault : Fault}
    (opened : loader name = .error (.fault fault)) : OneLine fault.message

theorem fileLoader_givesOneLines {disk : Disk} (hdisk : FaultsOnOneLine disk)
    (base? : Option String) : GivesOneLines (fileLoader disk base?) where
  line := oneLine_of_fileLoader
  fault opened mem := by
    obtain ⟨stream, hstream, rfl⟩ := fileLoader_eq_ok_iff.1 opened
    rcases Stream.item_cases mem with ⟨line, heq, -⟩ | ⟨fault, heq, hfault⟩
    · cases heq
    · cases heq
      rcases hfault with rfl | hfault
      · decide
      · obtain ⟨bytes, fault?⟩ := stream
        cases hfault
        exact hdisk _ _ (.inr ⟨bytes, hstream⟩)
  unopened opened := hdisk _ _ (.inl (fileLoader_eq_error_iff.1 opened))

theorem oneLine_repr (n : Nat) : OneLine n.repr :=
  (Text.Decimal.isWord_write (.ofNat n)).oneLine

/-- A failure to load quotes the name of the source, and beside it only what
came out of the loader. -/
theorem Fails.oneLine_message {loader : Loader} {name : String}
    {error : SourceError} (h : Fails loader name error)
    (hloader : GivesOneLines loader) (hname : OneLine name) :
    OneLine error.message := by
  cases h with
  | absent opened => exact Text.oneLine_quote (by decide) hname (by decide)
  | @unopened fault opened =>
      exact oneLine_append.2 ⟨Text.oneLine_quote (by decide) hname (by decide),
        hloader.unopened opened⟩
  | @unread before after fault opened good =>
      exact oneLine_append.2 ⟨Text.oneLine_quote (by decide) hname (by decide),
        hloader.fault opened (by simp)⟩
  | @noInteger before after line opened good bad =>
      have hline : OneLine line := hloader.line opened (by simp)
      refine oneLine_append.2 ⟨?_, oneLine_repr _⟩
      exact Text.oneLine_quote
        (Text.oneLine_quote (by decide) hline (by decide))
        hname (by decide)

end Source

theorem Expr.oneLine_message_of_evaluate {e : Expr} {loader : Source.Loader}
    {error : SourceError} (hloader : Source.GivesOneLines loader)
    (hnames : ∀ name ∈ e.sources, OneLine name)
    (h : (e.evaluate loader).outcome = .error error) :
    OneLine error.message := by
  rcases e.evaluate_outcome loader with
    ⟨before, name, error', hfails, houtcome⟩ | ⟨-, set, houtcome, -⟩
  · rw [houtcome] at h
    cases h
    obtain ⟨after, hsources, -, hfailing⟩ := hfails
    exact hfailing.oneLine_message hloader (hnames name (by simp [hsources]))
  · rw [houtcome] at h
    cases h

namespace CommandLine

/-! ## What is rendered -/

/-- A program fails with a problem and the report of it, which starts with the
name of the stage that the problem shows at. Only for its result are its sources
loaded, and for its tokens it need not be an expression. -/
inductive Reports (disk : Source.Disk) (options : Options) (program : String) :
    Problem → String → Prop where
  | lexical {error : UnknownWord}
      (refused : Token.ofText program = .error error) :
      Reports disk options program (.lexical error)
        ("SYNTAX ERROR: " ++ error.message)
  | compile {tokens : List Token} {error : CompileError}
      (emit : options.emit ≠ .tokens)
      (text : Token.ofText program = .ok tokens)
      (refused : Expr.ofTokens .builtin tokens = .error error) :
      Reports disk options program (.compile error)
        ("COMPILE ERROR: " ++ error.message)
  | runtime {tokens : List Token} {e : Expr} {error : SourceError}
      (emit : options.emit = .result)
      (text : Token.ofText program = .ok tokens)
      (root : Expr.ofTokens .builtin tokens = .ok e)
      (failed : (e.evaluate (Source.fileLoader disk options.baseDir?)).outcome =
        .error error) :
      Reports disk options program (.runtime error)
        ("RUNTIME ERROR: " ++ error.message)

variable {disk : Source.Disk} {options : Options} {program : String}

theorem Reports.oneLine {problem : Problem} {message : String}
    (hdisk : Source.FaultsOnOneLine disk)
    (h : Reports disk options program problem message) : OneLine message := by
  cases h with
  | lexical refused =>
      exact oneLine_append.2 ⟨by decide, Token.oneLine_message refused⟩
  | compile emit text refused =>
      exact oneLine_append.2
        ⟨by decide, Expr.oneLine_message (Token.oneLine_raw text) refused⟩
  | @runtime tokens e error emit text root failed =>
      have hwf := Expr.wellFormed_of_spells text
        (Expr.ofTokens_eq_ok_iff_spells.1 root)
      refine oneLine_append.2 ⟨by decide, ?_⟩
      exact Expr.oneLine_message_of_evaluate
        (Source.fileLoader_givesOneLines hdisk options.baseDir?)
        (fun name hname => (hwf.named name hname).isWord.oneLine) failed

theorem render_of_lexical {error : UnknownWord}
    (h : Token.ofText program = .error error) :
    render disk options program = .error (.lexical error) := by
  obtain ⟨base?, emit⟩ := options
  cases emit <;>
    simp only [render, Program.tokens, Program.run, Program.compile_eq, h] <;>
    rfl

theorem render_of_compile {tokens : List Token} {error : CompileError}
    (hemit : options.emit ≠ .tokens) (htext : Token.ofText program = .ok tokens)
    (h : Expr.ofTokens .builtin tokens = .error error) :
    render disk options program = .error (.compile error) := by
  obtain ⟨base?, emit⟩ := options
  cases emit with
  | tokens => exact absurd rfl hemit
  | tree => simp only [render, Program.compile_eq, htext, h]; rfl
  | result => simp only [render, Program.run, Program.compile_eq, htext, h]; rfl

theorem render_tokens {tokens : List Token} (hemit : options.emit = .tokens)
    (htext : Token.ofText program = .ok tokens) :
    render disk options program = .ok (tokens.map tokenLine) := by
  rw [render, hemit, Program.tokens, htext]
  rfl

theorem render_tree {tokens : List Token} {e : Expr}
    (hemit : options.emit = .tree) (htext : Token.ofText program = .ok tokens)
    (hroot : Expr.ofTokens .builtin tokens = .ok e) :
    render disk options program = .ok [e.text] := by
  rw [render, hemit, Program.compile_eq_ok_iff.2 ⟨tokens, htext, hroot⟩]
  rfl

theorem render_result {tokens : List Token} {e : Expr}
    (hemit : options.emit = .result)
    (htext : Token.ofText program = .ok tokens)
    (hroot : Expr.ofTokens .builtin tokens = .ok e) :
    render disk options program =
      match (e.evaluate (Source.fileLoader disk options.baseDir?)).outcome with
      | .ok set => .ok (set.toList.map Text.Decimal.write)
      | .error error => .error (.runtime error) := by
  have hcompile : Program.compile .builtin program = .ok e :=
    Program.compile_eq_ok_iff.2 ⟨tokens, htext, hroot⟩
  rw [render, hemit]
  simp only [Program.run_of_compile hcompile, Execution.mapBoth]
  cases (e.evaluate (Source.fileLoader disk options.baseDir?)).outcome <;> rfl

theorem oneLine_tokenLine {token : Token} (h : OneLine token.raw) :
    OneLine (tokenLine token) := by
  have hlabel : OneLine token.kind.label := by
    cases token.kind <;> decide
  exact oneLine_append.2 ⟨oneLine_append.2 ⟨hlabel, by decide⟩, h⟩

theorem oneLine_text {tokens : List Token} {e : Expr}
    (htext : Token.ofText program = .ok tokens)
    (hroot : Expr.ofTokens .builtin tokens = .ok e) : OneLine e.text := by
  rw [Expr.text, ← Program.words_eq_of_program htext hroot]
  exact Text.oneLine_intercalate (by decide) fun word hword =>
    (Text.isWord_of_mem_words hword).oneLine

/-- A program comes to lines, or it fails with a report. -/
def Settles (disk : Source.Disk) (options : Options) (program : String) :
    Prop :=
  (∃ lines, render disk options program = .ok lines ∧
    ∀ line ∈ lines, OneLine line) ∨
  ∃ problem, render disk options program = .error problem ∧
    Reports disk options program problem problem.message

theorem settles_of_root {tokens : List Token} {e : Expr}
    (hemit : options.emit ≠ .tokens)
    (htext : Token.ofText program = .ok tokens)
    (hroot : Expr.ofTokens .builtin tokens = .ok e) :
    Settles disk options program := by
  cases hkind : options.emit with
  | tokens => exact absurd hkind hemit
  | tree =>
      exact .inl ⟨_, render_tree hkind htext hroot,
        List.forall_mem_singleton.2 (oneLine_text htext hroot)⟩
  | result =>
      have hrender := @render_result disk _ _ _ _ hkind htext hroot
      cases houtcome : (e.evaluate
          (Source.fileLoader disk options.baseDir?)).outcome with
      | ok set =>
          rw [houtcome] at hrender
          refine .inl ⟨_, hrender, List.forall_mem_map.2 fun n _ => ?_⟩
          exact (Text.Decimal.isWord_write n).oneLine
      | error error =>
          rw [houtcome] at hrender
          exact .inr ⟨_, hrender, .runtime hkind htext hroot houtcome⟩

theorem render_settles (disk : Source.Disk) (options : Options)
    (program : String) : Settles disk options program := by
  cases htext : Token.ofText program with
  | error error => exact .inr ⟨_, render_of_lexical htext, .lexical htext⟩
  | ok tokens =>
      by_cases hemit : options.emit = .tokens
      · exact .inl ⟨_, render_tokens hemit htext, List.forall_mem_map.2
          fun token htoken =>
            oneLine_tokenLine (Token.oneLine_raw htext token htoken)⟩
      · cases hroot : Expr.ofTokens .builtin tokens with
        | error error =>
            exact .inr ⟨_, render_of_compile hemit htext hroot,
              .compile hemit htext hroot⟩
        | ok e => exact settles_of_root hemit htext hroot

/-! ## The two channels -/

section

variable {arguments : List String}

theorem unlines_singleton (line : String) : unlines [line] = line ++ "\n" := by
  simp [unlines]

theorem run_of_usageError {error : UsageError}
    (h : parse arguments = .error error) :
    run disk arguments =
      ⟨2, "", "error: " ++ error.message ++ "\n\n" ++ usage ++ "\n"⟩ := by
  have hblank : "\n\n" = "\n" ++ "\n" := rfl
  have hstderr : unlines ["error: " ++ error.message, "", usage] =
      "error: " ++ error.message ++ "\n\n" ++ usage ++ "\n" := by
    simp only [unlines, hblank, List.map_cons, List.map_nil, String.join_cons,
      String.join_nil, String.append_empty, String.empty_append,
      String.append_assoc]
  rw [run, h]
  exact congrArg (Exit.mk 2 "") hstderr

theorem run_of_help (h : parse arguments = .ok .help) :
    run disk arguments = ⟨0, usage ++ "\n", ""⟩ := by
  rw [run, h]
  exact congrArg (Exit.mk 0 · "") (unlines_singleton usage)

theorem run_of_problem {problem : Problem}
    (h : parse arguments = .ok (.run program options))
    (hrender : render disk options program = .error problem) :
    run disk arguments = ⟨1, "", problem.message ++ "\n"⟩ := by
  rw [run, h]
  simp only [hrender, unlines_singleton]

theorem run_of_lines {lines : List String}
    (h : parse arguments = .ok (.run program options))
    (hrender : render disk options program = .ok lines) :
    run disk arguments = ⟨0, unlines lines, ""⟩ := by
  rw [run, h]
  simp only [hrender]

/-- Which status a run ends with, and that only status 0 leaves the standard
error alone. -/
theorem run_status (disk : Source.Disk) (arguments : List String) :
    (run disk arguments).status ∈ [0, 1, 2] ∧
    ((run disk arguments).status = 2 ↔
      ∃ error, parse arguments = .error error) ∧
    ((run disk arguments).status = 1 ↔ ∃ program options problem,
      parse arguments = .ok (.run program options) ∧
        render disk options program = .error problem) ∧
    ((run disk arguments).status = 0 ↔ (run disk arguments).stderr = "") := by
  cases hparse : parse arguments with
  | error error => simp [run_of_usageError hparse]
  | ok command =>
      cases command with
      | help => simp [run_of_help hparse]
      | run program options =>
          cases hrender : render disk options program with
          | ok lines => simp [run_of_lines hparse hrender, hrender]
          | error problem => simp [run_of_problem hparse hrender, hrender]

/-- A run ends with status 2 and a report on how to use the command when its
arguments make no sense; with status 1 and one line that names the stage when
its program fails, whatever the program and its sources hold; and with status 0
otherwise, when all that it says is on the standard output, line by line. So
what a run prints tells an empty result from a failure. -/
theorem run_reports_on_one_channel (disk : Source.Disk)
    (hdisk : Source.FaultsOnOneLine disk) (arguments : List String) :
    (run disk arguments).status ∈ [0, 1, 2] ∧
    ((run disk arguments).status = 2 ↔
      ∃ error, parse arguments = .error error) ∧
    (∀ error, parse arguments = .error error → run disk arguments =
      ⟨2, "", "error: " ++ error.message ++ "\n\n" ++ usage ++ "\n"⟩) ∧
    ((run disk arguments).status = 1 ↔ ∃ program options problem,
      parse arguments = .ok (.run program options) ∧
        render disk options program = .error problem) ∧
    (∀ program options problem, parse arguments = .ok (.run program options) →
      render disk options program = .error problem →
      run disk arguments = ⟨1, "", problem.message ++ "\n"⟩ ∧
        '\n' ∉ problem.message.toList ∧
        Reports disk options program problem problem.message) ∧
    (parse arguments = .ok .help →
      run disk arguments = ⟨0, usage ++ "\n", ""⟩) ∧
    (∀ program options lines, parse arguments = .ok (.run program options) →
      render disk options program = .ok lines →
      run disk arguments =
        ⟨0, String.join (lines.map fun line => line ++ "\n"), ""⟩ ∧
        ∀ line ∈ lines, '\n' ∉ line.toList) ∧
    ((run disk arguments).status = 0 ↔ (run disk arguments).stderr = "") := by
  obtain ⟨hstatus, htwo, hone, hzero⟩ := run_status disk arguments
  refine ⟨hstatus, htwo, fun _ => run_of_usageError, hone, ?_, run_of_help, ?_,
    hzero⟩
  · intro program options problem hparse hrender
    rcases render_settles disk options program with
      ⟨lines, hlines, -⟩ | ⟨problem', hproblem, hreports⟩
    · rw [hrender] at hlines
      cases hlines
    · rw [hrender] at hproblem
      cases hproblem
      exact ⟨run_of_problem hparse hrender, hreports.oneLine hdisk, hreports⟩
  · intro program options lines hparse hrender
    rcases render_settles disk options program with
      ⟨lines', hlines, honeLine⟩ | ⟨problem, hproblem, -⟩
    · rw [hrender] at hlines
      cases hlines
      exact ⟨run_of_lines hparse hrender, honeLine⟩
    · rw [hrender] at hproblem
      cases hproblem

/-- A source whose second line holds a return where a digit should be. -/
theorem run_on_line_with_return :
    let disk := (Source.FileTree.ofList
      [("a", .file [49, 10, 50, 13, 120, 13, 10])]).disk
    let problem := Problem.runtime (.notAnInteger "a" "2\rx" 2)
    Source.FaultsOnOneLine disk ∧
      run disk ["--emit=result", "[ SUM a\n]"] =
        ⟨1, "",
          "RUNTIME ERROR: invalid integer '2\rx' in source 'a' at line 2\n"⟩ ∧
      '\n' ∉ problem.message.toList := by
  intro disk problem
  have hdisk : Source.FaultsOnOneLine disk := Source.FileTree.faultsOnOneLine _
  have hparse : parse ["--emit=result", "[ SUM a\n]"] =
      .ok (.run "[ SUM a\n]" {}) := by decide +kernel
  have hrender : render disk {} "[ SUM a\n]" = .error problem := by
    have htext : Token.ofText "[ SUM a\n]" = .ok [.callStart,
      .functionName "SUM", .fileName "a", .callEnd] := by decide +kernel
    have hroot : Expr.ofTokens .builtin [.callStart, .functionName "SUM",
      .fileName "a", .callEnd] = .ok (.call .sum [.load "a"]) := rfl
    rw [render_result rfl htext hroot, Expr.evaluate]
    simp only [Expr.visits_call, Expr.visits_load, List.flatMap_cons,
      List.flatMap_nil, List.append_nil, List.singleton_append]
    decide +kernel
  obtain ⟨-, -, -, -, hfails, -⟩ :=
    run_reports_on_one_channel disk hdisk ["--emit=result", "[ SUM a\n]"]
  obtain ⟨hrun, honeLine, -⟩ := hfails _ _ _ hparse hrender
  exact ⟨hdisk, hrun, honeLine⟩

end

end CommandLine

end SetCalculator
