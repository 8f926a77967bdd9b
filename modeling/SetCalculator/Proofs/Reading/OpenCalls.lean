import SetCalculator.Proofs.Reading.Steps

/-!
# Open calls, and what the last token tells

Two things about a run can be read off its tokens alone. How many calls it
leaves open is how many brackets start a call among them less how many end
one, so a run that goes on has at least one more of the former. And the last
token tells where the run stands with the call it works on: after the bracket
that starts a call the name has to follow, and after a name the first
argument. No other token leads there.

Both are facts about one step. Everything here that speaks of a run cuts it at
a token and looks at the step that consumes it.
-/

namespace SetCalculator

namespace Token

/-- How many calls some tokens start, less how many they end. -/
def depth (tokens : List Token) : Int :=
  (tokens.countP fun token => token.kind = .callStart) -
    (tokens.countP fun token => token.kind = .callEnd)

@[simp] theorem depth_nil : depth [] = 0 := rfl

theorem depth_cons (token : Token) (rest : List Token) :
    depth (token :: rest) = depth [token] + depth rest := by
  simp only [depth, List.countP_cons, List.countP_nil]
  omega

end Token

namespace Expr

variable {registry : Registry}

/-! ## Cutting a run -/

theorem leads_append_iff {start final : Progress} {xs ys : List Token} :
    Leads registry start (xs ++ ys) final ↔
      ∃ middle, Leads registry start xs middle ∧
        Leads registry middle ys final := by
  refine ⟨?_, ?_⟩
  · intro h
    induction xs generalizing start with
    | nil => exact ⟨start, .stay start, h⟩
    | cons token xs ih =>
        cases h with
        | consume one later =>
            obtain ⟨middle, hxs, hys⟩ := ih later
            exact ⟨middle, .consume one hxs, hys⟩
  · intro h
    obtain ⟨middle, hxs, hys⟩ := h
    exact hxs.trans hys

/-- A run over a token consumes what comes before it, then the token, then
what comes after. -/
theorem leads_at_iff {start final : Progress} {before after : List Token}
    {token : Token} :
    Leads registry start (before ++ token :: after) final ↔
      ∃ state next, Leads registry start before (.more state) ∧
        Consumes registry state token next ∧
        Leads registry next after final := by
  rw [leads_append_iff]
  refine ⟨?_, ?_⟩
  · intro h
    obtain ⟨middle, hbefore, hafter⟩ := h
    cases hafter with
    | consume one later => exact ⟨_, _, hbefore, one, later⟩
  · intro h
    obtain ⟨state, next, hbefore, one, later⟩ := h
    exact ⟨_, hbefore, .consume one later⟩

theorem leads_concat_iff {start final : Progress} {tokens : List Token}
    {token : Token} :
    Leads registry start (tokens ++ [token]) final ↔
      ∃ state, Leads registry start tokens (.more state) ∧
        Consumes registry state token final := by
  rw [leads_at_iff]
  refine ⟨?_, ?_⟩
  · intro h
    obtain ⟨state, next, htokens, one, later⟩ := h
    cases later
    exact ⟨state, htokens, one⟩
  · intro h
    obtain ⟨state, htokens, one⟩ := h
    exact ⟨state, final, htokens, one, .stay final⟩

/-- A run has not begun, or it ends with a step. -/
theorem Leads.cases_last {start final : Progress} {tokens : List Token}
    (h : Leads registry start tokens final) :
    (tokens = [] ∧ start = final) ∨
      ∃ earlier last state, tokens = earlier ++ [last] ∧
        Leads registry start earlier (.more state) ∧
        Consumes registry state last final := by
  rcases List.eq_nil_or_concat tokens with rfl | ⟨earlier, last, rfl⟩
  · cases h
    exact .inl ⟨rfl, rfl⟩
  · rw [List.concat_eq_append] at h ⊢
    obtain ⟨state, hearlier, one⟩ := leads_concat_iff.1 h
    exact .inr ⟨earlier, last, state, rfl, hearlier, one⟩

/-- Delivering an expression completes the run, or puts the expression in
front of the arguments of the innermost call. -/
theorem deliver_eq_more {e : Expr} {calls : List OpenCall} {state : ReadState}
    (h : deliver e calls = .more state) :
    ∃ f args outer, calls = ⟨f, args⟩ :: outer ∧
      state = .argument (⟨f, e :: args⟩ :: outer) := by
  match calls, h with
  | ⟨f, args⟩ :: outer, h =>
      injection h with h
      exact ⟨f, args, outer, rfl, h.symm⟩

/-! ## How many calls are open -/

/-- How many calls have started and not ended. -/
def Progress.openCalls : Progress → Nat
  | .more (.argument calls) => calls.length
  | .more (.functionName calls) => calls.length + 1
  | .complete _ => 0

theorem openCalls_deliver (e : Expr) (calls : List OpenCall) :
    (deliver e calls).openCalls = calls.length := by
  cases calls <;> rfl

theorem Consumes.openCalls_eq {state : ReadState} {token : Token}
    {next : Progress} (h : Consumes registry state token next) :
    (next.openCalls : Int) =
      (Progress.more state).openCalls + Token.depth [token] := by
  cases h with
  | source name calls =>
      have hdepth : Token.depth [.fileName name] = 0 := rfl
      rw [openCalls_deliver, hdepth, Progress.openCalls, Int.add_zero]
  | start opening calls =>
      have hdepth : Token.depth [⟨.callStart, opening⟩] = 1 := rfl
      rw [hdepth, Progress.openCalls, Progress.openCalls, Int.natCast_add]
      rfl
  | @name name f calls known =>
      have hdepth : Token.depth [.functionName name] = 0 := rfl
      rw [hdepth, Progress.openCalls, Progress.openCalls, Int.add_zero]
      rfl
  | finish closing f outer =>
      have hdepth : Token.depth [⟨.callEnd, closing⟩] = -1 := rfl
      rw [openCalls_deliver, hdepth, Progress.openCalls, List.length_cons]
      omega

theorem Leads.openCalls_eq {start final : Progress} {tokens : List Token}
    (h : Leads registry start tokens final) :
    (final.openCalls : Int) = start.openCalls + Token.depth tokens := by
  induction h with
  | stay progress => rw [Token.depth_nil, Int.add_zero]
  | @consume _ token _ _ rest one _ ih =>
      rw [ih, one.openCalls_eq, Token.depth_cons token rest, Int.add_assoc]

theorem depth_of_leads {tokens : List Token} {reached : Progress}
    (h : Leads registry (.more (.argument [])) tokens reached) :
    Token.depth tokens = reached.openCalls := by
  have hcount := h.openCalls_eq
  have hnone : (Progress.more (.argument [])).openCalls = 0 := rfl
  omega

theorem Consumes.openCalls_pos {state next : ReadState} {token : Token}
    (h : Consumes registry state token (.more next)) :
    0 < (Progress.more next).openCalls := by
  generalize hnext : Progress.more next = reached at h ⊢
  cases h with
  | source | finish =>
      obtain ⟨f, args, outer, hcalls, -⟩ := deliver_eq_more hnext.symm
      rw [openCalls_deliver, hcalls]
      exact Nat.succ_pos _
  | start | name => exact Nat.succ_pos _

/-- A run that goes on leaves a call open, unless it has not begun. -/
theorem Leads.openCalls_pos {start : Progress} {tokens : List Token}
    {reached : ReadState} (h : Leads registry start tokens (.more reached))
    (hne : tokens ≠ []) : 0 < (Progress.more reached).openCalls := by
  rcases h.cases_last with ⟨hnil, -⟩ | ⟨_, _, _, -, -, one⟩
  · exact absurd hnil hne
  · exact one.openCalls_pos

/-! ## What the last token tells

Only the start of a call makes a name due, and only its name leaves the
innermost call without an argument: every other step ends by delivering an
expression. -/

theorem Consumes.of_start {state : ReadState} {opening : String}
    {next : Progress}
    (h : Consumes registry state ⟨.callStart, opening⟩ next) :
    ∃ calls, next = .more (.functionName calls) := by
  cases h with
  | start opening calls => exact ⟨calls, rfl⟩

theorem Consumes.of_name {state : ReadState} {name : String} {next : Progress}
    (h : Consumes registry state (.functionName name) next) :
    ∃ calls f, state = .functionName calls ∧
      next = .more (.argument (⟨f, []⟩ :: calls)) := by
  cases h with
  | name calls known => exact ⟨calls, _, rfl, rfl⟩

theorem Consumes.to_functionName {state : ReadState} {token : Token}
    {calls : List OpenCall}
    (h : Consumes registry state token (.more (.functionName calls))) :
    ∃ opening, token = ⟨.callStart, opening⟩ := by
  generalize hnext : Progress.more (.functionName calls) = reached at h
  cases h with
  | start opening => exact ⟨opening, rfl⟩
  | source | finish =>
      obtain ⟨_, _, _, -, hstate⟩ := deliver_eq_more hnext.symm
      cases hstate
  | name => cases hnext

theorem Consumes.to_no_argument {state : ReadState} {token : Token}
    {f : SetFunction} {outer : List OpenCall}
    (h : Consumes registry state token
      (.more (.argument (⟨f, []⟩ :: outer)))) :
    token = .functionName f.name := by
  generalize hnext : Progress.more (.argument (⟨f, []⟩ :: outer)) = reached at h
  cases h with
  | name calls known =>
      cases hnext
      rw [(Registry.get?_eq_some_iff.1 known).1]
  | source | finish =>
      obtain ⟨_, _, _, -, hstate⟩ := deliver_eq_more hnext.symm
      cases hstate
  | start => cases hnext

theorem exists_start_of_leads {tokens : List Token} {calls : List OpenCall}
    (h : Leads registry (.more (.argument [])) tokens
      (.more (.functionName calls))) :
    ∃ earlier opening, tokens = earlier ++ [⟨.callStart, opening⟩] := by
  rcases h.cases_last with ⟨-, hstart⟩ | ⟨earlier, last, state, rfl, -, one⟩
  · cases hstart
  · obtain ⟨opening, rfl⟩ := one.to_functionName
    exact ⟨earlier, opening, rfl⟩

theorem exists_name_of_leads {tokens : List Token} {f : SetFunction}
    {outer : List OpenCall}
    (h : Leads registry (.more (.argument [])) tokens
      (.more (.argument (⟨f, []⟩ :: outer)))) :
    ∃ earlier, tokens = earlier ++ [.functionName f.name] := by
  rcases h.cases_last with ⟨-, hstart⟩ | ⟨earlier, last, state, rfl, -, one⟩
  · cases hstart
  · rw [one.to_no_argument]
    exact ⟨earlier, rfl⟩

end Expr

end SetCalculator
