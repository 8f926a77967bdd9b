import SetCalculator.Expr.Grammar
import SetCalculator.Expr.Subterms
import SetCalculator.Expr.Text
import SetCalculator.Proofs.Reading.Steps

/-!
# The reader accepts exactly the grammar

Completeness is an induction on the derivation: whatever calls are open, the
tokens of an expression lead the reader from where an expression may start to
where that expression has been handed to the innermost call. Soundness goes
the other way, from a state to a derivation, and needs to know what the tokens
consumed so far amount to. `Unfinished` says that: each open call has its
bracket and its name among them, followed by the programs of the arguments it
remembers.

The two together make `leads_complete_iff`: the runs that complete an
expression are the tokens that spell it. That the grammar names at most one
expression needs no argument of its own then, because the reader is a function.
-/

namespace SetCalculator

variable {registry : Registry}

/-! ## What a derivation says about its tokens -/

theorem SpellsAll.append {xs ys : List Token} {es es' : List Expr}
    (h : SpellsAll registry xs es) (h' : SpellsAll registry ys es') :
    SpellsAll registry (xs ++ ys) (es ++ es') := by
  match h with
  | .nil => exact h'
  | .cons head tail =>
      rw [List.append_assoc, List.cons_append]
      exact .cons head (tail.append h')

theorem SpellsAll.snoc {xs ys : List Token} {es : List Expr} {e : Expr}
    (h : SpellsAll registry xs es) (h' : Spells registry ys e) :
    SpellsAll registry (xs ++ ys) (es ++ [e]) := by
  have hone : SpellsAll registry (ys ++ []) [e] := .cons h' .nil
  rw [List.append_nil] at hone
  exact h.append hone

mutual

theorem Spells.length_eq {tokens : List Token} {e : Expr}
    (h : Spells registry tokens e) : tokens.length = e.tokenCount := by
  match h with
  | .load source => rw [Expr.tokenCount_load]; rfl
  | .call _ _ _ _ spelled =>
      rw [Expr.tokenCount_call, ← spelled.length_eq]
      simp only [List.length_cons, List.length_append, List.length_nil]
      omega

theorem SpellsAll.length_eq {tokens : List Token} {es : List Expr}
    (h : SpellsAll registry tokens es) :
    tokens.length = Expr.tokenCountOfAll es := by
  match h with
  | .nil => rfl
  | .cons head tail =>
      rw [List.length_append, head.length_eq, tail.length_eq,
        Expr.tokenCountOfAll]

end

theorem Expr.tokenCount_pos (e : Expr) : 1 ≤ e.tokenCount := by
  cases e with
  | load source => exact Nat.le_of_eq (tokenCount_load source).symm
  | call f args => rw [tokenCount_call]; omega

namespace Token

theorem fileNames_append (xs ys : List Token) :
    fileNames (xs ++ ys) = fileNames xs ++ fileNames ys := by
  simp [fileNames]

@[simp] theorem fileNames_fileName (name : String) (rest : List Token) :
    fileNames (.fileName name :: rest) = name :: fileNames rest := by
  simp [fileNames, fileName]

theorem fileNames_cons_of_ne {token : Token} (h : token.kind ≠ .fileName)
    (rest : List Token) : fileNames (token :: rest) = fileNames rest := by
  simp [fileNames, h]

end Token

mutual

theorem Spells.sources_eq {tokens : List Token} {e : Expr}
    (h : Spells registry tokens e) : e.sources = Token.fileNames tokens := by
  match h with
  | .load source =>
      rw [Expr.sources_load, Token.fileNames_fileName]
      rfl
  | .call opening closing _ _ spelled =>
      rw [Expr.sources_call, spelled.sources_eq,
        Token.fileNames_cons_of_ne (by simp),
        Token.fileNames_cons_of_ne (by simp [Token.functionName]),
        Token.fileNames_append, Token.fileNames_cons_of_ne (by simp)]
      simp [Token.fileNames]

theorem SpellsAll.sources_eq {tokens : List Token} {es : List Expr}
    (h : SpellsAll registry tokens es) :
    es.flatMap Expr.sources = Token.fileNames tokens := by
  match h with
  | .nil => rfl
  | .cons head tail =>
      rw [List.flatMap_cons, Token.fileNames_append, head.sources_eq,
        tail.sources_eq]

end

mutual

/-- Every call that a program spells has an argument and a function of the
registry. -/
theorem Spells.call_mem {tokens : List Token} {e : Expr}
    (h : Spells registry tokens e) {f : SetFunction} {args : List Expr}
    (hmem : .call f args ∈ e.subterms) :
    args ≠ [] ∧ registry.holds f = true := by
  match h with
  | .load source => simp at hmem
  | .call _ _ known some_arg spelled =>
      rw [Expr.subterms_call, List.mem_cons] at hmem
      rcases hmem with heq | hmem
      · injection heq with hf hargs
        subst hf hargs
        exact ⟨some_arg, (Registry.get?_eq_some_iff.1 known).2⟩
      · exact spelled.call_mem hmem

theorem SpellsAll.call_mem {tokens : List Token} {es : List Expr}
    (h : SpellsAll registry tokens es) {f : SetFunction} {args : List Expr}
    (hmem : .call f args ∈ es.flatMap Expr.subterms) :
    args ≠ [] ∧ registry.holds f = true := by
  match h with
  | .nil => cases hmem
  | .cons head tail =>
      rw [List.flatMap_cons, List.mem_append] at hmem
      rcases hmem with hmem | hmem
      · exact head.call_mem hmem
      · exact tail.call_mem hmem

end

namespace Expr

/-! ## From a derivation to a run -/

mutual

/-- The tokens of an expression lead to where that expression has been
delivered, whatever calls are open around it. -/
theorem leads_of_spells {tokens : List Token} {e : Expr}
    (h : Spells registry tokens e) (calls : List OpenCall) :
    Leads registry (.more (.argument calls)) tokens (deliver e calls) := by
  match h with
  | .load source => exact (Consumes.source source calls).leads
  | @Spells.call _ _ f _ args opening closing known some_arg spelled =>
      -- Arguments are remembered latest first, and handed over in order.
      have hargs := leads_of_spellsAll spelled f [] calls
      rw [List.append_nil] at hargs
      have hsome : args.reverse ≠ [] := by
        rwa [ne_eq, List.reverse_eq_nil_iff]
      have hfinish : Consumes registry _ _ _ :=
        .finish closing f calls hsome
      rw [List.reverse_reverse] at hfinish
      exact .consume (.start opening calls)
        (.consume (.name calls known) (hargs.trans hfinish.leads))

/-- The programs of some arguments lead to where the innermost call has them
in front of the arguments it had. -/
theorem leads_of_spellsAll {tokens : List Token} {es : List Expr}
    (h : SpellsAll registry tokens es) (f : SetFunction) (args : List Expr)
    (outer : List OpenCall) :
    Leads registry (.more (.argument (⟨f, args⟩ :: outer))) tokens
      (.more (.argument (⟨f, es.reverse ++ args⟩ :: outer))) := by
  match h with
  | .nil => exact .stay _
  | @SpellsAll.cons _ _ _ e es head tail =>
      have hhead := leads_of_spells head (⟨f, args⟩ :: outer)
      have htail := leads_of_spellsAll tail f (e :: args) outer
      rw [List.reverse_cons, List.append_assoc]
      exact hhead.trans htail

end

/-! ## From a run to a derivation -/

/-- The tokens start the calls, the innermost last, and each call's name is
followed by the programs of the arguments it remembers. -/
inductive Opens (registry : Registry) : List Token → List OpenCall → Prop where
  | nil : Opens registry [] []
  | cons {before tokens : List Token} {name : String} {f : SetFunction}
      {args : List Expr} {outer : List OpenCall} (opening : String)
      (outside : Opens registry before outer)
      (known : registry.get? name = some f)
      (spelled : SpellsAll registry tokens args.reverse) :
      Opens registry
        (before ++ ⟨.callStart, opening⟩ :: .functionName name :: tokens)
        (⟨f, args⟩ :: outer)

/-- What the tokens consumed so far amount to: an unfinished program that
leaves open what the state says is open, or the program of an expression. -/
inductive Accounts (registry : Registry) : List Token → Progress → Prop where
  | argument {tokens : List Token} {calls : List OpenCall}
      (opens : Opens registry tokens calls) :
      Accounts registry tokens (.more (.argument calls))
  | functionName {tokens : List Token} {calls : List OpenCall}
      (opening : String) (opens : Opens registry tokens calls) :
      Accounts registry (tokens ++ [⟨.callStart, opening⟩])
        (.more (.functionName calls))
  | complete {tokens : List Token} {e : Expr}
      (spells : Spells registry tokens e) :
      Accounts registry tokens (.complete e)

theorem accounts_deliver {before tokens : List Token} {e : Expr}
    {calls : List OpenCall} (hopens : Opens registry before calls)
    (hspells : Spells registry tokens e) :
    Accounts registry (before ++ tokens) (deliver e calls) := by
  cases hopens with
  | nil => exact .complete hspells
  | @cons before' tokens' name f args outer opening outside known spelled =>
      have hall :
          SpellsAll registry (tokens' ++ tokens) (e :: args).reverse := by
        rw [List.reverse_cons]
        exact spelled.snoc hspells
      have h := Opens.cons opening outside known hall
      rw [List.append_assoc, List.cons_append, List.cons_append]
      exact .argument h

/-- One step keeps the account of the tokens. -/
theorem Accounts.consume {tokens : List Token} {state : ReadState}
    {token : Token} {next : Progress}
    (h : Accounts registry tokens (.more state))
    (hone : Consumes registry state token next) :
    Accounts registry (tokens ++ [token]) next := by
  cases hone with
  | source name calls =>
      cases h with
      | argument opens => exact accounts_deliver opens (.load name)
  | start opening calls =>
      cases h with
      | argument opens => exact .functionName opening opens
  | name calls known =>
      cases h with
      | functionName opening opens =>
          rw [List.append_assoc]
          exact .argument (.cons opening opens known .nil)
  | @finish args closing f outer some_arg =>
      cases h with
      | argument opens =>
          cases opens with
          -- The call is closed: what accounted for it becomes its program.
          | cons opening outside known spelled =>
              have hsome : args.reverse ≠ [] := by
                rwa [ne_eq, List.reverse_eq_nil_iff]
              have h := accounts_deliver outside
                (.call opening closing known hsome spelled)
              rw [List.append_assoc, List.cons_append, List.cons_append]
              exact h

/-- A run keeps the account of the tokens. -/
theorem Accounts.leads {before tokens : List Token} {start final : Progress}
    (h : Accounts registry before start)
    (hleads : Leads registry start tokens final) :
    Accounts registry (before ++ tokens) final := by
  induction hleads generalizing before with
  | stay =>
      rw [List.append_nil]
      exact h
  | @consume state token next final tokens one later ih =>
      rw [List.append_cons]
      exact ih (h.consume one)

theorem accounts_of_leads {tokens : List Token} {final : Progress}
    (h : Leads registry (.more (.argument [])) tokens final) :
    Accounts registry tokens final :=
  Accounts.leads (.argument .nil) h

/-- The runs that complete an expression are the tokens that spell it. -/
theorem leads_complete_iff {tokens : List Token} {e : Expr} :
    Leads registry (.more (.argument [])) tokens (.complete e) ↔
      Spells registry tokens e := by
  refine ⟨?_, ?_⟩
  · intro h
    cases accounts_of_leads h with
    | complete spells => exact spells
  · intro h
    exact leads_of_spells h []

/-! ## The two readers -/

theorem ofTokens_eq_ok_iff_spells {tokens : List Token} {e : Expr} :
    ofTokens registry tokens = .ok e ↔ Spells registry tokens e := by
  rw [ofTokens_eq_ok_iff, leads_complete_iff]

/-- From an index the reader takes the one expression that a span starting
there spells, and all of that span. -/
theorem readAt_iff_spells_span {tokens : List Token} {index count : Nat}
    {e : Expr} :
    readAt registry tokens index = .ok (e, count) ↔
      index + count ≤ tokens.length ∧
        Spells registry ((tokens.drop index).take count) e := by
  rw [readAt_eq_ok_iff]
  refine ⟨?_, ?_⟩
  · intro h
    obtain ⟨consumed, rest, htokens, hleads, rfl⟩ := h
    have hspells := leads_complete_iff.1 hleads
    -- Where the index is out of range the rest is empty, and no expression is.
    have hlength := congrArg List.length htokens
    rw [List.length_drop, List.length_append] at hlength
    have hpos : 1 ≤ consumed.length := by
      rw [hspells.length_eq]
      exact e.tokenCount_pos
    refine ⟨by omega, ?_⟩
    rw [htokens, List.take_left]
    exact hspells
  · intro h
    obtain ⟨hbound, hspells⟩ := h
    refine ⟨(tokens.drop index).take count, (tokens.drop index).drop count,
      (List.take_append_drop _ _).symm, leads_complete_iff.2 hspells, ?_⟩
    rw [List.length_take, List.length_drop]
    omega

/-- Reading and the grammar agree: from every index and for the whole list the
reader answers exactly the expression that the tokens spell, of which there is
at most one. -/
theorem read_iff_spells (registry : Registry) (tokens : List Token) :
    (∀ index e count, readAt registry tokens index = .ok (e, count) ↔
      index + count ≤ tokens.length ∧
        Spells registry ((tokens.drop index).take count) e) ∧
    (∀ index e count e' count',
      index + count ≤ tokens.length →
      Spells registry ((tokens.drop index).take count) e →
      index + count' ≤ tokens.length →
      Spells registry ((tokens.drop index).take count') e' →
      e = e' ∧ count = count') ∧
    (∀ index e count, readAt registry tokens index = .ok (e, count) →
      count = e.tokenCount ∧ 1 ≤ count) ∧
    (∀ e, ofTokens registry tokens = .ok e ↔ Spells registry tokens e) ∧
    (∀ e, ofTokens registry tokens = .ok e →
      (∀ f args, .call f args ∈ e.subterms →
        args ≠ [] ∧ registry.holds f = true) ∧
      e.sources = Token.fileNames tokens) := by
  refine ⟨fun _ _ _ => readAt_iff_spells_span, ?_, ?_,
    fun _ => ofTokens_eq_ok_iff_spells, ?_⟩
  · intro index e count e' count' hbound hspells hbound' hspells'
    have h := readAt_iff_spells_span.2 ⟨hbound, hspells⟩
    have h' := readAt_iff_spells_span.2 ⟨hbound', hspells'⟩
    rw [h] at h'
    injection h' with h'
    injection h' with he hcount
    exact ⟨he, hcount⟩
  · intro index e count h
    obtain ⟨consumed, rest, -, hleads, rfl⟩ := readAt_eq_ok_iff.1 h
    have hspells := leads_complete_iff.1 hleads
    exact ⟨hspells.length_eq, hspells.length_eq ▸ e.tokenCount_pos⟩
  · intro e h
    have hspells := ofTokens_eq_ok_iff_spells.1 h
    exact ⟨fun _ _ hmem => hspells.call_mem hmem, hspells.sources_eq⟩

/-- Kinds decide and words are only kept: a call between odd brackets, with a
source no file name can have, is read from the middle of a list that is no
program. -/
theorem read_call_between_odd_brackets :
    let tokens : List Token := [⟨.callEnd, "["⟩, ⟨.callStart, "("⟩,
      .functionName "INT", .fileName "A b", .callStart, .functionName "DIF",
      .fileName "", .callEnd, ⟨.callEnd, ")"⟩, .fileName "z"]
    let e : Expr := .call .int [.load "A b", .call .dif [.load ""]]
    readAt .builtin tokens 1 = .ok (e, 8) ∧
      Spells .builtin ((tokens.drop 1).take 8) e ∧ 8 = e.tokenCount := by
  intro tokens e
  have hread : readAt .builtin tokens 1 = .ok (e, 8) := rfl
  obtain ⟨hspan, -, hcount, -⟩ := read_iff_spells .builtin tokens
  exact ⟨hread, ((hspan 1 e 8).1 hread).2, (hcount 1 e 8 hread).1⟩

end Expr

end SetCalculator
