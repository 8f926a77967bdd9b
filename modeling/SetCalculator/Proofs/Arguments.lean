import Mathlib.Data.List.Induction
import Mathlib.Data.List.Perm.Basic
import SetCalculator.CommandLine

/-!
# What the arguments come to

An argument is decisive when it ends the reading there and then: it asks for
help, or it cannot be accepted. All but one of the reasons lie in the argument
itself; a second program also depends on the arguments before it, but only on
whether one of them is a program. So as long as no argument decides, all that
the reader has in hand can be read off the arguments behind it (`Gathers`): the
last base directory, the last way to print, and the one program if there is one.

The first decisive argument then has its say, whatever comes after it, and
without one the whole list does, of which only the order among the options of
the same name matters.
-/

namespace SetCalculator.CommandLine

/-! ## How arguments begin -/

/-- The text begins with the given one. -/
def Begins (start text : String) : Prop := ∃ rest, text = start ++ rest

theorem begins_iff {start text : String} :
    Begins start text ↔ start.toList.isPrefixOf text.toList = true := by
  rw [List.isPrefixOf_iff_prefix]
  refine ⟨?_, ?_⟩
  · intro h
    obtain ⟨rest, rfl⟩ := h
    exact ⟨rest.toList, String.toList_append.symm⟩
  · intro h
    obtain ⟨rest, hrest⟩ := h
    refine ⟨String.ofList rest, String.toList_inj.1 ?_⟩
    rw [String.toList_append, String.toList_ofList, hrest]

instance (start text : String) : Decidable (Begins start text) :=
  decidable_of_iff _ begins_iff.symm

theorem Begins.trans {start more text : String} (h : Begins start more)
    (h' : Begins more text) : Begins start text := by
  obtain ⟨middle, rfl⟩ := h
  obtain ⟨rest, rfl⟩ := h'
  exact ⟨middle ++ rest, String.append_assoc⟩

theorem begins_append (start rest : String) : Begins start (start ++ rest) :=
  ⟨rest, rfl⟩

/-- An argument that starts with no hyphen is taken for the program. -/
def IsPositional (argument : String) : Prop := ¬ Begins "-" argument

instance (argument : String) : Decidable (IsPositional argument) :=
  inferInstanceAs (Decidable (¬ _))

theorem isPositional_iff {argument : String} :
    IsPositional argument ↔ argument.toList.head? ≠ some '-' := by
  have hstart : "-".toList = ['-'] := rfl
  rw [IsPositional, begins_iff, hstart, not_iff_not]
  cases argument.toList with
  | nil => simp
  | cons first rest => simp [eq_comm (a := first)]

theorem IsPositional.not_begins {argument start : String}
    (h : IsPositional argument) (hyphen : Begins "-" start) :
    ¬ Begins start argument :=
  fun hbegins => h (hyphen.trans hbegins)

/-- The word for a way to print. -/
def Emit.name : Emit → String
  | .result => "result"
  | .tokens => "tokens"
  | .tree => "tree"

theorem Emit.name_injective {emit emit' : Emit} (h : emit.name = emit'.name) :
    emit = emit' := by
  cases emit <;> cases emit' <;> first | rfl | exact absurd h (by decide)

/-! ## What one argument does -/

/-- The argument ends the reading with the outcome. `second` says that a program
stands before it. -/
inductive Decides (second : Prop) :
    String → Except UsageError Command → Prop where
  | shortHelp : Decides second "-h" (.ok .help)
  | longHelp : Decides second "--help" (.ok .help)
  | emit (value : String) (unknown : ∀ emit : Emit, value ≠ emit.name) :
      Decides second ("--emit=" ++ value) (.error (.unknownEmit value))
  | option {argument : String} (hyphen : Begins "-" argument)
      (no_help : argument ≠ "-h" ∧ argument ≠ "--help")
      (no_baseDir : ¬ Begins "--base-dir=" argument)
      (no_emit : ¬ Begins "--emit=" argument) :
      Decides second argument (.error (.unknownOption argument))
  | extra {argument : String} (positional : IsPositional argument)
      (isSecond : second) :
      Decides second argument (.error (.extraArgument argument))

/-- What the arguments read so far come to. -/
structure Found where
  options : Options := {}
  program? : Option String := none

/-- Reads on with what has been found. -/
def Found.parse (found : Found) (arguments : List String) :
    Except UsageError Command :=
  parseFrom found.options found.program? arguments

/-- The argument is taken, and the reading goes on with what is found then. -/
inductive Takes : Found → String → Found → Prop where
  | baseDir (options : Options) (program? : Option String) (path : String) :
      Takes ⟨options, program?⟩ ("--base-dir=" ++ path)
        ⟨{ options with baseDir? := some path }, program?⟩
  | emit (options : Options) (program? : Option String) (emit : Emit) :
      Takes ⟨options, program?⟩ ("--emit=" ++ emit.name)
        ⟨{ options with emit := emit }, program?⟩
  | program (options : Options) {argument : String}
      (positional : IsPositional argument) :
      Takes ⟨options, none⟩ argument ⟨options, some argument⟩

theorem decides_or_takes (found : Found) (argument : String) :
    (∃ outcome, Decides (found.program? ≠ none) argument outcome) ∨
      ∃ next, Takes found argument next := by
  obtain ⟨options, program?⟩ := found
  by_cases hyphen : Begins "-" argument
  · by_cases hbase : Begins "--base-dir=" argument
    · obtain ⟨path, rfl⟩ := hbase
      exact .inr ⟨_, .baseDir options program? path⟩
    · by_cases hemit : Begins "--emit=" argument
      · obtain ⟨value, rfl⟩ := hemit
        by_cases hknown : ∃ emit : Emit, value = emit.name
        · obtain ⟨emit, rfl⟩ := hknown
          exact .inr ⟨_, .emit options program? emit⟩
        · exact .inl ⟨_, .emit value fun emit h => hknown ⟨emit, h⟩⟩
      · by_cases hshort : argument = "-h"
        · rw [hshort]
          exact .inl ⟨_, .shortHelp⟩
        · by_cases hlong : argument = "--help"
          · rw [hlong]
            exact .inl ⟨_, .longHelp⟩
          · exact .inl ⟨_, .option hyphen ⟨hshort, hlong⟩ hbase hemit⟩
  · cases program? with
    | none => exact .inr ⟨_, .program options hyphen⟩
    | some program => exact .inl ⟨_, .extra hyphen (by simp)⟩

/-! ## How the reader takes it -/

theorem after?_eq_some_iff {start text rest : String} :
    after? start text = some rest ↔ text = start ++ rest := by
  rw [after?, Option.map_eq_some_iff]
  refine ⟨?_, ?_⟩
  · intro h
    obtain ⟨chars, hchars, rfl⟩ := h
    apply String.toList_inj.1
    rw [String.toList_append, String.toList_ofList]
    exact (List.isPrefixOf?_eq_some_iff_append_eq.1 hchars).symm
  · intro h
    refine ⟨rest.toList, ?_, String.ofList_toList⟩
    rw [List.isPrefixOf?_eq_some_iff_append_eq, h, String.toList_append]

theorem after?_eq_none {start text : String} (h : ¬ Begins start text) :
    after? start text = none := by
  cases hafter : after? start text with
  | none => rfl
  | some rest => exact absurd ⟨rest, after?_eq_some_iff.1 hafter⟩ h

theorem ofString_baseDir (path : String) :
    Argument.ofString ("--base-dir=" ++ path) = .baseDir path := by
  have hafter := after?_eq_some_iff.2 (Eq.refl ("--base-dir=" ++ path))
  rw [Argument.ofString, if_neg (by simp [← String.toList_inj]), hafter]

theorem ofString_emit (value : String) :
    Argument.ofString ("--emit=" ++ value) = .emit value := by
  have hafter := after?_eq_some_iff.2 (Eq.refl ("--emit=" ++ value))
  have hbase : ¬ Begins "--base-dir=" ("--emit=" ++ value) := by
    simp [begins_iff]
  rw [Argument.ofString, if_neg (by simp [← String.toList_inj]),
    after?_eq_none hbase, hafter]

theorem ofString_of_not_begins {argument : String}
    (no_help : argument ≠ "-h" ∧ argument ≠ "--help")
    (no_baseDir : ¬ Begins "--base-dir=" argument)
    (no_emit : ¬ Begins "--emit=" argument) :
    Argument.ofString argument =
      if argument.toList.head? = some '-' then .unknownOption
      else .positional := by
  rw [Argument.ofString, if_neg (not_or.2 no_help), after?_eq_none no_baseDir,
    after?_eq_none no_emit]

theorem ofString_positional {argument : String} (h : IsPositional argument) :
    Argument.ofString argument = .positional := by
  rw [ofString_of_not_begins ⟨?_, ?_⟩ (h.not_begins (by decide))
    (h.not_begins (by decide)), if_neg (isPositional_iff.1 h)]
  · rintro rfl
    exact h (by decide)
  · rintro rfl
    exact h (by decide)

theorem Emit.ofName_name (emit : Emit) : ofName emit.name = .ok emit := by
  cases emit <;> rfl

theorem Emit.ofName_eq_error {value : String}
    (unknown : ∀ emit : Emit, value ≠ emit.name) :
    ofName value = .error (.unknownEmit value) := by
  rw [ofName.eq_def]
  split
  · exact absurd rfl (unknown .result)
  · exact absurd rfl (unknown .tokens)
  · exact absurd rfl (unknown .tree)
  · rfl

/-- The next argument is looked at, whatever has been found. -/
theorem Found.parse_cons (found : Found) (argument : String)
    (rest : List String) :
    found.parse (argument :: rest) = match Argument.ofString argument with
      | .help => .ok .help
      | .baseDir path =>
          parse ⟨{ found.options with baseDir? := some path },
            found.program?⟩ rest
      | .emit value =>
          match Emit.ofName value with
          | .ok emit =>
              parse ⟨{ found.options with emit := emit }, found.program?⟩ rest
          | .error error => .error error
      | .unknownOption => .error (.unknownOption argument)
      | .positional =>
          match found.program? with
          | none => parse ⟨found.options, some argument⟩ rest
          | some _ => .error (.extraArgument argument) := by
  obtain ⟨options, program?⟩ := found
  cases program? <;> rfl

theorem Decides.parse_eq {found : Found} {argument : String}
    {outcome : Except UsageError Command}
    (h : Decides (found.program? ≠ none) argument outcome)
    (rest : List String) : found.parse (argument :: rest) = outcome := by
  rw [Found.parse_cons]
  cases h with
  | shortHelp | longHelp => rfl
  | emit value unknown =>
      simp only [ofString_emit, Emit.ofName_eq_error unknown]
  | option hyphen no_help no_baseDir no_emit =>
      have hhead := mt isPositional_iff.2 (not_not.2 hyphen)
      rw [ofString_of_not_begins no_help no_baseDir no_emit,
        if_pos (not_not.1 hhead)]
  | extra positional isSecond =>
      obtain ⟨program, hprogram⟩ := Option.ne_none_iff_exists'.1 isSecond
      rw [ofString_positional positional, hprogram]

theorem Takes.parse_eq {found next : Found} {argument : String}
    (h : Takes found argument next) (rest : List String) :
    found.parse (argument :: rest) = next.parse rest := by
  rw [Found.parse_cons]
  cases h with
  | baseDir options program? path => rw [ofString_baseDir]
  | emit options program? emit => simp only [ofString_emit, Emit.ofName_name]
  | program options positional => rw [ofString_positional positional]

/-! ## What has been found after arguments that do not decide -/

/-- The argument ends the reading, after those before it. -/
def Decisive (earlier : List String) :
    String → Except UsageError Command → Prop :=
  Decides (∃ program ∈ earlier, IsPositional program)

/-- None of the arguments ends the reading. -/
def Undecided (arguments : List String) : Prop :=
  ∀ earlier argument later, arguments = earlier ++ argument :: later →
    ∀ outcome, ¬ Decisive earlier argument outcome

/-- The last argument that begins so. -/
def lastOf (start : String) (arguments : List String) : Option String :=
  (arguments.filter fun argument => Begins start argument).getLast?

/-- Of each option the one that was given last counts, and the result is printed
unless something else was asked for. -/
structure Options.Given (options : Options) (arguments : List String) :
    Prop where
  baseDir : lastOf "--base-dir=" arguments =
    options.baseDir?.map ("--base-dir=" ++ ·)
  emit : lastOf "--emit=" arguments = some ("--emit=" ++ options.emit.name) ∨
    lastOf "--emit=" arguments = none ∧ options.emit = .result

/-- What the reader has found is what the arguments give. -/
structure Gathers (arguments : List String) (found : Found) : Prop where
  given : found.options.Given arguments
  program : (arguments.filter fun argument => IsPositional argument) =
    found.program?.toList

theorem gathers_nil : Gathers [] {} :=
  ⟨⟨rfl, .inr ⟨rfl, rfl⟩⟩, rfl⟩

theorem undecided_nil : Undecided [] := by
  intro earlier argument later hsplit
  simp at hsplit

theorem lastOf_concat (start : String) (earlier : List String)
    (argument : String) :
    lastOf start (earlier ++ [argument]) =
      if Begins start argument then some argument
      else lastOf start earlier := by
  rw [lastOf, List.filter_append]
  split
  · next h => rw [List.filter_cons_of_pos (by simpa using h)]; simp
  · next h => rw [List.filter_cons_of_neg (by simpa using h)]; simp [lastOf]

theorem Takes.gathers {earlier : List String} {found next : Found}
    {argument : String} (h : Takes found argument next)
    (hfound : Gathers earlier found) :
    Gathers (earlier ++ [argument]) next := by
  obtain ⟨⟨hbase, hemit⟩, hprogram⟩ := hfound
  cases h with
  | baseDir options program? path =>
      refine ⟨⟨?_, ?_⟩, ?_⟩
      · rw [lastOf_concat, if_pos (begins_append _ path)]
        rfl
      · rw [lastOf_concat, if_neg (by simp [begins_iff])]
        exact hemit
      · rw [List.filter_append, hprogram]
        simp [IsPositional, begins_iff]
  | emit options program? emit =>
      refine ⟨⟨?_, ?_⟩, ?_⟩
      · rw [lastOf_concat, if_neg (by simp [begins_iff])]
        exact hbase
      · rw [lastOf_concat, if_pos (begins_append _ _)]
        exact .inl rfl
      · rw [List.filter_append, hprogram]
        simp [IsPositional, begins_iff]
  | program options positional =>
      refine ⟨⟨?_, ?_⟩, ?_⟩
      · rw [lastOf_concat, if_neg (positional.not_begins (by decide))]
        exact hbase
      · rw [lastOf_concat, if_neg (positional.not_begins (by decide))]
        exact hemit
      · rw [List.filter_append, hprogram]
        simp [positional]

theorem Gathers.decisive_iff {earlier : List String} {found : Found}
    (h : Gathers earlier found) {argument : String}
    {outcome : Except UsageError Command} :
    Decisive earlier argument outcome ↔
      Decides (found.program? ≠ none) argument outcome := by
  have hsecond : (∃ program ∈ earlier, IsPositional program) ↔
      found.program? ≠ none := by
    have hmem : ∀ program, (program ∈ earlier ∧ IsPositional program) ↔
        program ∈ found.program?.toList := by
      intro program
      rw [← h.program, List.mem_filter, decide_eq_true_iff]
    simp only [hmem, Option.mem_toList, Option.ne_none_iff_exists']
  rw [Decisive, hsecond]

theorem undecided_concat_iff {earlier : List String} {argument : String} :
    Undecided (earlier ++ [argument]) ↔
      Undecided earlier ∧ ∀ outcome, ¬ Decisive earlier argument outcome := by
  refine ⟨fun h => ⟨?_, h earlier argument [] rfl⟩, fun h => ?_⟩
  · intro before first after hsplit
    refine h before first (after ++ [argument]) ?_
    rw [hsplit, List.append_assoc, List.cons_append]
  · intro before first after hsplit
    rcases List.eq_nil_or_concat after with rfl | ⟨after, last, rfl⟩
    · obtain ⟨rfl, hlast⟩ := List.append_inj' hsplit rfl
      cases hlast
      exact h.2
    · rw [List.concat_eq_append, ← List.cons_append, ← List.append_assoc]
        at hsplit
      exact h.1 before first after (List.append_inj' hsplit rfl).1

/-- After arguments that do not decide, the reader goes on with what they
give. -/
theorem exists_gathers {earlier : List String} (h : Undecided earlier) :
    ∃ found, Gathers earlier found ∧
      ∀ later, parse (earlier ++ later) = found.parse later := by
  induction earlier using List.reverseRecOn with
  | nil => exact ⟨{}, gathers_nil, fun _ => rfl⟩
  | append_singleton earlier argument ih =>
      obtain ⟨hearlier, hnot⟩ := undecided_concat_iff.1 h
      obtain ⟨found, hfound, hparse⟩ := ih hearlier
      rcases decides_or_takes found argument with
        ⟨outcome, hout⟩ | ⟨next, hnext⟩
      · exact absurd (hfound.decisive_iff.2 hout) (hnot outcome)
      · refine ⟨next, hnext.gathers hfound, fun later => ?_⟩
        rw [List.append_assoc, List.singleton_append, hparse, hnext.parse_eq]

theorem Found.parse_nil (found : Found) :
    found.parse [] = match found.program? with
      | some program => .ok (.run program found.options)
      | none => .error .missingProgram := by
  obtain ⟨options, program?⟩ := found
  cases program? <;> rfl

/-- A list is undecided, or some argument of it is the first decisive one. -/
theorem undecided_or_decisive (arguments : List String) :
    Undecided arguments ∨ ∃ earlier argument later outcome,
      arguments = earlier ++ argument :: later ∧ Undecided earlier ∧
      Decisive earlier argument outcome := by
  induction arguments using List.reverseRecOn with
  | nil => exact .inl undecided_nil
  | append_singleton earlier argument ih =>
      rcases ih with hnone | ⟨before, first, after, outcome, rfl, hnone, hfirst⟩
      · by_cases hlast : ∃ outcome, Decisive earlier argument outcome
        · obtain ⟨outcome, hout⟩ := hlast
          exact .inr ⟨earlier, argument, [], outcome, rfl, hnone, hout⟩
        · exact .inl (undecided_concat_iff.2
            ⟨hnone, fun outcome hout => hlast ⟨outcome, hout⟩⟩)
      · exact .inr ⟨before, first, after ++ [argument], outcome,
          by rw [List.append_assoc, List.cons_append], hnone, hfirst⟩

/-- An argument that is taken does not decide: the reading would not depend on
what follows. -/
theorem Takes.not_decides {found next : Found} {argument : String}
    (h : Takes found argument next) (outcome : Except UsageError Command) :
    ¬ Decides (found.program? ≠ none) argument outcome := by
  intro hout
  have hend := hout.parse_eq []
  have hhelp := hout.parse_eq ["-h"]
  rw [h.parse_eq, Decides.shortHelp.parse_eq []] at hhelp
  rw [h.parse_eq, Found.parse_nil, ← hhelp] at hend
  split at hend <;> cases hend

theorem Takes.undecided {earlier : List String} {found next : Found}
    {argument : String} (h : Takes found argument next)
    (hfound : Gathers earlier found) (hearlier : Undecided earlier) :
    Undecided (earlier ++ [argument]) :=
  undecided_concat_iff.2 ⟨hearlier, fun outcome hout =>
    h.not_decides outcome (hfound.decisive_iff.1 hout)⟩

/-! ## Reordering -/

theorem Options.Given.eq_of_lastOf {options options' : Options}
    {arguments arguments' : List String} (h : options.Given arguments)
    (h' : options'.Given arguments')
    (hbase : lastOf "--base-dir=" arguments = lastOf "--base-dir=" arguments')
    (hemit : lastOf "--emit=" arguments = lastOf "--emit=" arguments') :
    options = options' := by
  obtain ⟨baseDir?, emit⟩ := options
  obtain ⟨baseDir?', emit'⟩ := options'
  obtain ⟨hbase₁, hemit₁⟩ := h
  obtain ⟨hbase₂, hemit₂⟩ := h'
  rw [hbase, hbase₂] at hbase₁
  rw [hemit] at hemit₁
  have hdirs : baseDir?' = baseDir? :=
    Option.map_injective (fun _ _ => (String.append_right_inj _).1) hbase₁
  have hemits : emit = emit' := by
    rcases hemit₁ with hsome₁ | ⟨hnone₁, rfl⟩ <;>
      rcases hemit₂ with hsome₂ | ⟨hnone₂, rfl⟩
    · rw [hsome₁] at hsome₂
      exact Emit.name_injective
        ((String.append_right_inj _).1 (Option.some.inj hsome₂))
    · rw [hsome₁] at hnone₂
      cases hnone₂
    · rw [hsome₂] at hnone₁
      cases hnone₁
    · rfl
  rw [hdirs, hemits]

theorem Decides.mono {second second' : Prop} {argument : String}
    {outcome : Except UsageError Command} (h : Decides second argument outcome)
    (hsecond : second → second') : Decides second' argument outcome := by
  cases h with
  | shortHelp => exact .shortHelp
  | longHelp => exact .longHelp
  | emit value unknown => exact .emit value unknown
  | option hyphen no_help no_baseDir no_emit =>
      exact .option hyphen no_help no_baseDir no_emit
  | extra positional isSecond => exact .extra positional (hsecond isSecond)

/-- An argument decides by itself, or because it is a second program. -/
theorem Decides.cases_second {second : Prop} {argument : String}
    {outcome : Except UsageError Command}
    (h : Decides second argument outcome) :
    Decides False argument outcome ∨ second ∧ IsPositional argument := by
  cases h with
  | shortHelp => exact .inl .shortHelp
  | longHelp => exact .inl .longHelp
  | emit value unknown => exact .inl (.emit value unknown)
  | option hyphen no_help no_baseDir no_emit =>
      exact .inl (.option hyphen no_help no_baseDir no_emit)
  | extra positional isSecond => exact .inr ⟨isSecond, positional⟩

/-- Whether an argument decides is a matter of the arguments it stands among,
not of their order. -/
theorem undecided_iff {arguments : List String} :
    Undecided arguments ↔
      (∀ argument ∈ arguments, ∀ outcome, ¬ Decides False argument outcome) ∧
      (arguments.filter fun argument => IsPositional argument).length ≤ 1 := by
  refine ⟨fun h => ⟨?_, ?_⟩, fun h => ?_⟩
  · intro argument hmem outcome hout
    obtain ⟨earlier, later, hsplit⟩ := List.append_of_mem hmem
    exact h earlier argument later hsplit outcome (hout.mono False.elim)
  · obtain ⟨found, hfound, -⟩ := exists_gathers h
    rw [hfound.program]
    exact Option.length_toList_le
  · intro earlier argument later hsplit outcome hout
    rcases hout.cases_second with
      halone | ⟨⟨program, hmem, hprogram⟩, hpositional⟩
    · exact h.1 argument (by rw [hsplit]; simp) outcome halone
    · have htwo := h.2
      rw [hsplit, List.filter_append,
        List.filter_cons_of_pos (by simpa using hpositional),
        List.length_append, List.length_cons] at htwo
      have hpos : 0 < (earlier.filter fun a => IsPositional a).length :=
        List.length_pos_of_mem
          (List.mem_filter.2 ⟨hmem, by simpa using hprogram⟩)
      omega

theorem Undecided.perm {arguments reordered : List String}
    (h : Undecided arguments) (hperm : arguments.Perm reordered) :
    Undecided reordered := by
  rw [undecided_iff] at h ⊢
  refine ⟨fun argument hmem => h.1 argument (hperm.mem_iff.2 hmem), ?_⟩
  rw [← (hperm.filter _).length_eq]
  exact h.2

theorem parse_of_perm {arguments reordered : List String}
    (h : Undecided arguments) (hperm : arguments.Perm reordered)
    (hbase : lastOf "--base-dir=" arguments = lastOf "--base-dir=" reordered)
    (hemit : lastOf "--emit=" arguments = lastOf "--emit=" reordered) :
    parse reordered = parse arguments := by
  obtain ⟨found, hfound, hparse⟩ := exists_gathers h
  obtain ⟨found', hfound', hparse'⟩ := exists_gathers (h.perm hperm)
  obtain ⟨options, program?⟩ := found
  obtain ⟨options', program?'⟩ := found'
  have hoptions : options = options' :=
    hfound.given.eq_of_lastOf hfound'.given hbase hemit
  have hprograms := hperm.filter fun argument => decide (IsPositional argument)
  rw [hfound.program, hfound'.program] at hprograms
  have hprogram : program? = program?' := by
    cases program? with
    | none => exact (Option.toList_eq_nil_iff.1 hprograms.nil_eq.symm).symm
    | some program =>
        exact (Option.toList_eq_singleton_iff.1
          (List.singleton_perm.1 hprograms).symm).symm
  have hsame := hparse []
  have hsame' := hparse' []
  rw [List.append_nil] at hsame hsame'
  rw [hsame, hsame', hoptions, hprogram]

/-- The first decisive argument settles the matter, whatever follows it. Without
one the program is the one argument that starts with no hyphen, which must be
there, and of each option the last counts; so any reordering that keeps the
order of the base directories and that of the ways to print comes to the
same. -/
theorem first_decisive_argument_settles :
    (∀ arguments, Undecided arguments ∨ ∃ earlier argument later outcome,
      arguments = earlier ++ argument :: later ∧ Undecided earlier ∧
      Decisive earlier argument outcome) ∧
    (∀ earlier argument later outcome, Undecided earlier →
      Decisive earlier argument outcome →
      parse (earlier ++ argument :: later) = outcome) ∧
    (∀ arguments, Undecided arguments →
      ((∀ argument ∈ arguments, ¬ IsPositional argument) →
        parse arguments = .error .missingProgram) ∧
      ((∃ argument ∈ arguments, IsPositional argument) →
        ∃ program options,
          (arguments.filter fun argument => IsPositional argument) = [program] ∧
          options.Given arguments ∧
          parse arguments = .ok (.run program options))) ∧
    ∀ arguments reordered, Undecided arguments → arguments.Perm reordered →
      (arguments.filter fun argument => Begins "--base-dir=" argument) =
        (reordered.filter fun argument => Begins "--base-dir=" argument) →
      (arguments.filter fun argument => Begins "--emit=" argument) =
        (reordered.filter fun argument => Begins "--emit=" argument) →
      parse reordered = parse arguments := by
  refine ⟨undecided_or_decisive, ?_, ?_, ?_⟩
  · intro earlier argument later outcome h hout
    obtain ⟨found, hfound, hparse⟩ := exists_gathers h
    rw [hparse, (hfound.decisive_iff.1 hout).parse_eq]
  · intro arguments h
    obtain ⟨⟨options, program?⟩, hfound, hparse⟩ := exists_gathers h
    have hend := hparse []
    rw [List.append_nil, Found.parse_nil] at hend
    have hprogram := hfound.program
    cases program? with
    | none =>
        have hnone := List.filter_eq_nil_iff.1 hprogram
        refine ⟨fun _ => hend, fun ⟨argument, hmem, hpositional⟩ => ?_⟩
        exact absurd (decide_eq_true hpositional) (hnone argument hmem)
    | some program =>
        have hmem : program ∈ arguments.filter fun a => IsPositional a := by
          rw [hprogram]
          exact List.mem_singleton_self program
        obtain ⟨hmem, hpositional⟩ := List.mem_filter.1 hmem
        refine ⟨fun hnone => ?_, fun _ => ?_⟩
        · exact absurd (of_decide_eq_true hpositional) (hnone program hmem)
        · exact ⟨program, options, hprogram, hfound.given, hend⟩
  · intro arguments reordered h hperm hbase hemit
    exact parse_of_perm h hperm (congrArg List.getLast? hbase)
      (congrArg List.getLast? hemit)

/-- The last base directory counts, and it is empty; the program may stand
before it or behind. Without a program there is nothing to run, and with two of
them a later request for help comes too late. -/
theorem last_baseDir_and_second_program :
    let arguments := ["--base-dir=x", "a", "--base-dir="]
    let reordered := ["--base-dir=x", "--base-dir=", "a"]
    (Undecided arguments ∧
      parse arguments = .ok (.run "a" ⟨some "", .result⟩)) ∧
    (arguments.Perm reordered ∧ parse reordered = parse arguments) ∧
    (Undecided ["--emit=tree"] ∧
      parse ["--emit=tree"] = .error .missingProgram) ∧
    (Decisive arguments "b" (.error (.extraArgument "b")) ∧
      parse (arguments ++ "b" :: ["--help"]) =
        .error (.extraArgument "b")) := by
  intro arguments reordered
  obtain ⟨-, hfirst, hwhole, horder⟩ := first_decisive_argument_settles
  have hdir : Takes {} "--base-dir=x" ⟨⟨some "x", .result⟩, none⟩ :=
    .baseDir {} none "x"
  have hprogram : Takes ⟨⟨some "x", .result⟩, none⟩ "a"
      ⟨⟨some "x", .result⟩, some "a"⟩ := .program _ (by decide)
  have hlast : Takes ⟨⟨some "x", .result⟩, some "a"⟩ "--base-dir="
      ⟨⟨some "", .result⟩, some "a"⟩ := .baseDir _ _ ""
  have hemit : Takes {} "--emit=tree" ⟨⟨none, .tree⟩, none⟩ :=
    .emit {} none .tree
  have hgathers := hprogram.gathers (hdir.gathers gathers_nil)
  have hundecided : Undecided arguments :=
    hlast.undecided hgathers
      (hprogram.undecided (hdir.gathers gathers_nil)
        (hdir.undecided gathers_nil undecided_nil))
  have hnone : Undecided ["--emit=tree"] :=
    hemit.undecided gathers_nil undecided_nil
  have hperm : arguments.Perm reordered := by decide
  have hdecisive : Decisive arguments "b" (.error (.extraArgument "b")) :=
    .extra (by decide) ⟨"a", by decide, by decide⟩
  have hgiven : Options.Given ⟨some "", .result⟩ arguments :=
    (hlast.gathers hgathers).given
  obtain ⟨program, options, hsole, hoptions, hparse⟩ :=
    (hwhole arguments hundecided).2 ⟨"a", by decide, by decide⟩
  have ha : arguments.filter (fun argument => IsPositional argument) =
      ["a"] := by
    decide
  rw [ha] at hsole
  obtain rfl : "a" = program := List.singleton_inj.1 hsole
  obtain rfl := hoptions.eq_of_lastOf hgiven rfl rfl
  exact ⟨⟨hundecided, hparse⟩,
    ⟨hperm, horder _ _ hundecided hperm (by decide) (by decide)⟩,
    ⟨hnone, (hwhole _ hnone).1 (by decide)⟩,
    ⟨hdecisive, hfirst _ _ _ _ hundecided hdecisive⟩⟩

end SetCalculator.CommandLine
