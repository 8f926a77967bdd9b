import SetCalculator.Proofs.Reading.Grammar

/-!
# Every subterm has its place

An expression that is read at an index takes up a span of the tokens, and the
spans of its subterms lie in there. Reading finds them all again: at each
bracket that starts a call and at each file name of the span an expression is
read, at no other token of it, and what is read there, from left to right, are
the subterms in the order in which they start.

What is read at an index depends on the tokens from there on and on nothing
before, so both halves are inductions on the derivation with arbitrary tokens
behind it. That spans never overlap in part follows from the first half: the
later of two spans starts at a token of the earlier where an expression inside
of the earlier is read, and at one index only one expression is.
-/

namespace SetCalculator

variable {registry : Registry}

/-! ## Where expressions start -/

/-- An expression can start with the token: it names a file or starts a call. -/
def Token.Starts (token : Token) : Prop :=
  token.kind = .fileName ∨ token.kind = .callStart

theorem Token.not_starts_functionName (name : String) :
    ¬ (Token.functionName name).Starts := by
  simp [Starts, functionName]

theorem Token.not_starts_callEnd (closing : String) :
    ¬ Token.Starts ⟨.callEnd, closing⟩ := by
  simp [Starts]

/-- Every token that can start an expression starts one that ends among the
tokens. -/
def StartsSpelled (registry : Registry) : List Token → Prop
  | [] => True
  | token :: rest =>
      (token.Starts → ∃ span after e, token :: rest = span ++ after ∧
        Spells registry span e) ∧ StartsSpelled registry rest

theorem StartsSpelled.append {xs ys : List Token}
    (hxs : StartsSpelled registry xs) (hys : StartsSpelled registry ys) :
    StartsSpelled registry (xs ++ ys) := by
  induction xs with
  | nil => exact hys
  | cons token xs ih =>
      obtain ⟨hhead, htail⟩ := hxs
      refine ⟨fun hstarts => ?_, ih htail⟩
      obtain ⟨span, after, e, heq, hspells⟩ := hhead hstarts
      refine ⟨span, after ++ ys, e, ?_, hspells⟩
      rw [← List.append_assoc, ← heq]
      rfl

theorem StartsSpelled.drop {tokens : List Token}
    (h : StartsSpelled registry tokens) (count : Nat) :
    StartsSpelled registry (tokens.drop count) := by
  induction tokens generalizing count with
  | nil => rw [List.drop_nil]; exact h
  | cons token tokens ih =>
      cases count with
      | zero => exact h
      | succ count => exact ih h.2 count

mutual

theorem Spells.startsSpelled {tokens : List Token} {e : Expr}
    (h : Spells registry tokens e) : StartsSpelled registry tokens := by
  match h with
  | .load source =>
      exact ⟨fun _ => ⟨_, [], _, (List.append_nil _).symm, .load source⟩,
        trivial⟩
  | .call opening closing known some_arg spelled =>
      have hclosing : StartsSpelled registry [⟨.callEnd, closing⟩] :=
        ⟨fun hstarts => absurd hstarts (Token.not_starts_callEnd _), trivial⟩
      have hspells := Spells.call opening closing known some_arg spelled
      refine ⟨?_, ?_, ?_⟩
      · exact fun _ => ⟨_, [], _, (List.append_nil _).symm, hspells⟩
      · exact fun hstarts => absurd hstarts (Token.not_starts_functionName _)
      · exact spelled.startsSpelled.append hclosing

theorem SpellsAll.startsSpelled {tokens : List Token} {es : List Expr}
    (h : SpellsAll registry tokens es) : StartsSpelled registry tokens := by
  match h with
  | .nil => trivial
  | .cons head tail => exact head.startsSpelled.append tail.startsSpelled

end

namespace Expr

/-! ## Reading at an index is reading what starts there -/

theorem readAt_eq_ok_iff_spells {tokens : List Token} {index count : Nat}
    {e : Expr} :
    readAt registry tokens index = .ok (e, count) ↔
      ∃ span rest, tokens.drop index = span ++ rest ∧
        Spells registry span e ∧ count = span.length := by
  rw [readAt_eq_ok_iff]
  simp only [leads_complete_iff]

theorem readAt_of_not_starts {tokens rest : List Token} {token : Token}
    {index : Nat} (htokens : tokens.drop index = token :: rest)
    (h : ¬ token.Starts) :
    readAt registry tokens index =
      .error ⟨.unexpectedToken token.raw, index⟩ := by
  obtain ⟨kind, raw⟩ := token
  have hrefuses : Refuses registry (.argument []) ⟨kind, raw⟩
      (.unexpectedToken raw) := by
    cases kind with
    | callStart => exact absurd (.inr rfl) h
    | fileName => exact absurd (.inl rfl) h
    | callEnd => exact .strayEnd raw
    | functionName => exact .strayName raw []
  rw [readAt, htokens, readFrom_of_stops (.refused rest hrefuses)]

/-- The expression that some tokens start with, and how many it takes up. -/
def readHead (registry : Registry) (tokens : List Token) :
    Option (Expr × Nat) :=
  (readAt registry tokens 0).toOption

theorem toOption_eq_some_iff {ε α : Type} {result : Except ε α} {value : α} :
    result.toOption = some value ↔ result = .ok value := by
  cases result <;> simp [Except.toOption]

theorem readHead_eq_some_iff {tokens : List Token} {e : Expr} {count : Nat} :
    readHead registry tokens = some (e, count) ↔
      ∃ span rest, tokens = span ++ rest ∧ Spells registry span e ∧
        count = span.length := by
  rw [readHead, toOption_eq_some_iff, readAt_eq_ok_iff_spells, List.drop_zero]

theorem toOption_readAt (tokens : List Token) (index : Nat) :
    (readAt registry tokens index).toOption =
      readHead registry (tokens.drop index) := by
  apply Option.ext
  rintro ⟨e, count⟩
  rw [toOption_eq_some_iff, readAt_eq_ok_iff_spells, readHead_eq_some_iff]

theorem readHead_of_spells {span : List Token} {e : Expr}
    (h : Spells registry span e) (rest : List Token) :
    readHead registry (span ++ rest) = some (e, e.tokenCount) :=
  readHead_eq_some_iff.2 ⟨span, rest, rfl, h, h.length_eq.symm⟩

theorem readHead_of_not_starts {token : Token} (h : ¬ token.Starts)
    (rest : List Token) : readHead registry (token :: rest) = none := by
  rw [readHead, readAt_of_not_starts List.drop_zero h]
  rfl

/-! ## What is read along a span -/

/-- What is read at each of some tokens, where anything is, when others
follow. -/
def readings (registry : Registry) :
    List Token → List Token → List (Expr × Nat)
  | [], _ => []
  | token :: tokens, after =>
      (readHead registry (token :: tokens ++ after)).toList ++
        readings registry tokens after

theorem readings_append (xs ys after : List Token) :
    readings registry (xs ++ ys) after =
      readings registry xs (ys ++ after) ++ readings registry ys after := by
  induction xs with
  | nil => rfl
  | cons token xs ih =>
      rw [List.cons_append, readings, readings, ih, ← List.cons_append,
        List.append_assoc, List.append_assoc]

theorem readings_of_not_starts {token : Token} (h : ¬ token.Starts)
    (tokens after : List Token) :
    readings registry (token :: tokens) after =
      readings registry tokens after := by
  rw [readings, List.cons_append, readHead_of_not_starts h]
  rfl

/-- Reading at each index of a span gives the readings along it. -/
theorem filterMap_readAt {tokens span after : List Token} {index : Nat}
    (h : tokens.drop index = span ++ after) :
    (List.range' index span.length).filterMap
        (fun j => (readAt registry tokens j).toOption) =
      readings registry span after := by
  induction span generalizing index with
  | nil => rfl
  | cons token span ih =>
      have hnext : tokens.drop (index + 1) = span ++ after := by
        rw [← List.drop_drop, h]
        rfl
      have hhead := @toOption_readAt registry tokens index
      rw [h] at hhead
      rw [List.length_cons, List.range'_succ, List.filterMap_cons, ih hnext,
        hhead, readings]
      cases readHead registry (token :: span ++ after) with
      | none => rfl
      | some read => rfl

/-- A subterm with the number of tokens it takes up. -/
def counted (e : Expr) : Expr × Nat := (e, e.tokenCount)

mutual

theorem readings_of_spells {tokens : List Token} {e : Expr}
    (h : Spells registry tokens e) (after : List Token) :
    readings registry tokens after = e.subterms.map counted := by
  match h with
  | .load source =>
      have hspells : Spells registry [.fileName source] (.load source) :=
        .load source
      rw [readings, readHead_of_spells hspells, subterms_load]
      rfl
  | .call opening closing known some_arg spelled =>
      have hspells := Spells.call opening closing known some_arg spelled
      rw [readings, readHead_of_spells hspells,
        readings_of_not_starts (Token.not_starts_functionName _),
        readings_append, readings_of_spellsAll spelled,
        readings_of_not_starts (Token.not_starts_callEnd _), readings,
        List.append_nil, subterms_call, List.map_cons]
      rfl

theorem readings_of_spellsAll {tokens : List Token} {es : List Expr}
    (h : SpellsAll registry tokens es) (after : List Token) :
    readings registry tokens after =
      (es.flatMap subterms).map counted := by
  match h with
  | .nil => rfl
  | .cons head tail =>
      rw [readings_append, readings_of_spells head,
        readings_of_spellsAll tail, List.flatMap_cons, List.map_append]

end

/-! ## The indexes of a span -/

theorem starts_of_readAt {tokens rest : List Token} {token : Token}
    {index : Nat} {read : Expr × Nat}
    (htokens : tokens.drop index = token :: rest)
    (h : readAt registry tokens index = .ok read) : token.Starts := by
  apply Classical.byContradiction
  intro hnot
  rw [readAt_of_not_starts htokens hnot] at h
  cases h

/-- At an index within a span there is a token, and if an expression can start
with it then one is read there, and it ends within the span. -/
theorem exists_readAt_within {tokens : List Token} {index count j : Nat}
    {e : Expr} (h : readAt registry tokens index = .ok (e, count))
    (hle : index ≤ j) (hlt : j < index + count) :
    ∃ token rest, tokens.drop j = token :: rest ∧ (token.Starts →
      ∃ e' count', readAt registry tokens j = .ok (e', count') ∧
        j + count' ≤ index + count) := by
  obtain ⟨span, after, htokens, hspells, rfl⟩ := readAt_eq_ok_iff_spells.1 h
  obtain ⟨skipped, rfl⟩ := Nat.exists_eq_add_of_le hle
  have hskip : skipped < span.length := by omega
  have hdrop : tokens.drop (index + skipped) = span.drop skipped ++ after := by
    rw [← List.drop_drop, htokens,
      List.drop_append_of_le_length (Nat.le_of_lt hskip)]
  -- The token at `j` is the head of what is left of the span there.
  have hcons := List.drop_eq_getElem_cons hskip
  refine ⟨_, _, by rw [hdrop, hcons]; rfl, fun hstarts => ?_⟩
  have hspelled := hspells.startsSpelled.drop skipped
  rw [hcons] at hspelled
  obtain ⟨inner, more, e', heq, hinner⟩ := hspelled.1 hstarts
  have hbound := congrArg List.length (hcons.trans heq)
  rw [List.length_drop, List.length_append] at hbound
  refine ⟨e', inner.length, ?_, by omega⟩
  refine readAt_eq_ok_iff_spells.2 ⟨inner, more ++ after, ?_, hinner, rfl⟩
  rw [hdrop, hcons, heq, List.append_assoc]

theorem within_or_behind {tokens : List Token} {index count j count' : Nat}
    {e e' : Expr} (h : readAt registry tokens index = .ok (e, count))
    (h' : readAt registry tokens j = .ok (e', count')) (hle : index ≤ j) :
    j + count' ≤ index + count ∨ index + count ≤ j := by
  rcases Nat.lt_or_ge j (index + count) with hlt | hge
  · obtain ⟨token, rest, htokens, hread⟩ := exists_readAt_within h hle hlt
    obtain ⟨e'', count'', hsame, hbound⟩ := hread (starts_of_readAt htokens h')
    rw [h'] at hsame
    cases hsame
    exact .inl hbound
  · exact .inr hge

/-- The subterms of an expression that is read are what is read at the indexes
of its span, and the other indexes of the span hold tokens that start nothing.
Spans are nested or apart. -/
theorem readAt_span_eq_subterms (registry : Registry) (tokens : List Token) :
    (∀ index e count, readAt registry tokens index = .ok (e, count) →
      (∀ j, index ≤ j → j < index + count → ∃ token, tokens[j]? = some token ∧
        (token.Starts → ∃ e' count',
          readAt registry tokens j = .ok (e', count') ∧
            j + count' ≤ index + count) ∧
        (¬ token.Starts → readAt registry tokens j =
          .error ⟨.unexpectedToken token.raw, j⟩)) ∧
      (List.range' index count).filterMap
          (fun j => (readAt registry tokens j).toOption) =
        e.subterms.map fun e' => (e', e'.tokenCount)) ∧
    (∀ index e count j e' count',
      readAt registry tokens index = .ok (e, count) →
      readAt registry tokens j = .ok (e', count') →
      index + count ≤ j ∨ j + count' ≤ index ∨
        (index ≤ j ∧ j + count' ≤ index + count) ∨
        (j ≤ index ∧ index + count ≤ j + count')) := by
  refine ⟨fun index e count h => ⟨?_, ?_⟩, ?_⟩
  · intro j hle hlt
    obtain ⟨token, rest, htokens, hread⟩ := exists_readAt_within h hle hlt
    refine ⟨token, ?_, hread, readAt_of_not_starts htokens⟩
    rw [← List.head?_drop, htokens]
    rfl
  · obtain ⟨span, after, htokens, hspells, rfl⟩ := readAt_eq_ok_iff_spells.1 h
    rw [filterMap_readAt htokens, readings_of_spells hspells]
    rfl
  · intro index e count j e' count' h h'
    rcases Nat.le_total index j with hle | hle
    · have hcases := within_or_behind h h' hle
      omega
    · have hcases := within_or_behind h' h hle
      omega

/-- A call that loads one source twice, amid tokens that are no program: the
brackets and file names of its span give the call, the call inside of it and
both of the loads, and its names are refused. -/
theorem readAt_span_of_call_in_rubble :
    let tokens : List Token := [.callEnd, .callStart, .functionName "SUM",
      .callStart, .functionName "INT", .fileName "b", .fileName "b", .callEnd,
      .callEnd, .functionName "DIF", .callStart]
    let inner : Expr := .call .int [.load "b", .load "b"]
    readAt .builtin tokens 1 = .ok (.call .sum [inner], 8) ∧
      (List.range' 1 8).filterMap
          (fun j => (readAt .builtin tokens j).toOption) =
        [(.call .sum [inner], 8), (inner, 5), (.load "b", 1),
          (.load "b", 1)] ∧
      readAt .builtin tokens 4 = .error ⟨.unexpectedToken "INT", 4⟩ := by
  intro tokens inner
  have hread : readAt .builtin tokens 1 = .ok (.call .sum [inner], 8) := rfl
  obtain ⟨hspan, -⟩ := readAt_span_eq_subterms .builtin tokens
  obtain ⟨hindexes, hsubterms⟩ := hspan 1 _ 8 hread
  obtain ⟨token, htoken, -, hrefused⟩ := hindexes 4 (by decide) (by decide)
  cases htoken
  refine ⟨hread, ?_, hrefused (Token.not_starts_functionName _)⟩
  rw [hsubterms]
  simp [inner, tokenCountOfAll]

end Expr

end SetCalculator
