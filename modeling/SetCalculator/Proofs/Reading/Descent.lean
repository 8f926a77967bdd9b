import SetCalculator.Expr.Descent
import SetCalculator.Proofs.Reading.OpenCalls

/-!
# The descent ends, and its cursor only moves forward

Whatever the functions of the descent do, they follow a run of the reader: the
calls that the descent is in are the open calls, and where it goes over a token
the reader consumes it (`Follows`). So the cursor is advanced over tokens only,
one after the other, and where the descent gives up the reader is stopped, at
the same place and for the same reason.

That it ends rests on one thing more. The loop over arguments has no test but
for the bracket and for the end, so each of its rounds has to take a token; it
does, because a run that delivers an argument cannot be empty
(`ne_nil_of_leads_deliver`). The tokens left then bound the fuel: two units for
each of them, one to come to it and one to go on behind it.
-/

namespace SetCalculator.Expr.Descent

variable {registry : Registry}

/-! ## The cursor -/

namespace Cursor

/-- The tokens that the cursor has not passed. -/
def left (cursor : Cursor) : List Token := cursor.tokens.drop cursor.position

/-- The cursor after it was advanced a number of times. -/
def after (cursor : Cursor) (count : Nat) : Cursor :=
  ⟨cursor.tokens, cursor.position + count,
    cursor.advances ++ List.range' cursor.position count⟩

theorem after_zero (cursor : Cursor) : cursor.after 0 = cursor := by
  simp [after]

theorem advance_eq (cursor : Cursor) : cursor.advance = cursor.after 1 := rfl

theorem after_after (cursor : Cursor) (m n : Nat) :
    (cursor.after m).after n = cursor.after (m + n) := by
  simp only [after, List.append_assoc, Nat.add_assoc,
    List.range'_append_1]

theorem next?_eq (cursor : Cursor) : cursor.next? = cursor.left.head? := by
  rw [next?, left, List.head?_drop]

theorem isAtEnd_iff {cursor : Cursor} :
    cursor.isAtEnd = true ↔ cursor.left = [] := by
  rw [isAtEnd, left, decide_eq_true_iff, List.drop_eq_nil_iff]

theorem isAt_iff {cursor : Cursor} {kind : TokenKind} :
    cursor.isAt kind = true ↔
      ∃ raw rest, cursor.left = ⟨kind, raw⟩ :: rest := by
  rw [isAt, next?_eq]
  cases cursor.left with
  | nil => simp
  | cons token rest =>
      obtain ⟨kind', raw⟩ := token
      simp [eq_comm]

theorem left_after {cursor : Cursor} {taken rest : List Token}
    (h : cursor.left = taken ++ rest) :
    (cursor.after taken.length).left = rest := by
  rw [left] at h ⊢
  show cursor.tokens.drop (cursor.position + taken.length) = rest
  rw [← List.drop_drop, h, List.drop_left]

theorem left_advance {cursor : Cursor} {token : Token} {rest : List Token}
    (h : cursor.left = token :: rest) : cursor.advance.left = rest := by
  have hsplit : cursor.left = [token] ++ rest := h
  rw [advance_eq]
  exact left_after hsplit

end Cursor

/-! ## What the descent follows -/

/-- The outcome is that of a run of the reader from what it has reached, with
some calls open around what is being read, and the cursor went over the tokens
of the run. -/
inductive Follows (registry : Registry) (reached : Progress)
    (calls : List OpenCall) (cursor : Cursor) : Run → Prop where
  | done {taken rest : List Token} {e : Expr}
      (split : cursor.left = taken ++ rest)
      (leads : Leads registry reached taken (deliver e calls)) :
      Follows registry reached calls cursor
        ⟨.ok e, cursor.after taken.length⟩
  | failed {taken rest : List Token} {stuck : ReadState}
      {cause : CompileError.Cause} (split : cursor.left = taken ++ rest)
      (leads : Leads registry reached taken (.more stuck))
      (stops : Stops registry (.more stuck) rest cause) :
      Follows registry reached calls cursor
        ⟨.error ⟨cause, cursor.position + taken.length⟩,
          cursor.after taken.length⟩

variable {reached middle : Progress} {calls : List OpenCall} {cursor : Cursor}
  {run : Run}

theorem Follows.of_stops {state : ReadState} {left : List Token}
    {cause : CompileError.Cause} (hleft : cursor.left = left)
    (h : Stops registry (.more state) left cause) :
    Follows registry (.more state) calls cursor
      ⟨.error ⟨cause, cursor.position⟩, cursor⟩ := by
  have hfollows : Follows registry (.more state) calls cursor _ :=
    .failed (hleft.trans (List.nil_append _).symm) (.stay _) h
  rw [List.length_nil, Cursor.after_zero] at hfollows
  exact hfollows

/-- What follows a run after some tokens follows it from before them. -/
theorem Follows.from_before {taken rest : List Token}
    (split : cursor.left = taken ++ rest)
    (leads : Leads registry reached taken middle)
    (h : Follows registry middle calls (cursor.after taken.length) run) :
    Follows registry reached calls cursor run := by
  have hleft := Cursor.left_after split
  cases h with
  | @done more rest' e split' leads' =>
      have hsplit : cursor.left = (taken ++ more) ++ rest' := by
        rw [split, ← hleft, split', List.append_assoc]
      rw [Cursor.after_after, ← List.length_append]
      exact .done hsplit (leads.trans leads')
  | @failed more rest' stuck cause split' leads' stops =>
      have hsplit : cursor.left = (taken ++ more) ++ rest' := by
        rw [split, ← hleft, split', List.append_assoc]
      have hposition : (cursor.after taken.length).position + more.length =
          cursor.position + (taken ++ more).length := by
        rw [List.length_append, ← Nat.add_assoc]
        rfl
      rw [Cursor.after_after, hposition, ← List.length_append]
      exact .failed hsplit (leads.trans leads') stops

theorem Follows.from_token {state : ReadState} {token : Token}
    {rest : List Token} (hleft : cursor.left = token :: rest)
    (h : Consumes registry state token middle)
    (hfollows : Follows registry middle calls cursor.advance run) :
    Follows registry (.more state) calls cursor run := by
  have hsplit : cursor.left = [token] ++ rest := hleft
  exact hfollows.from_before hsplit h.leads

/-- A run that delivers an expression has consumed a token. -/
theorem ne_nil_of_leads_deliver {e : Expr} {taken : List Token}
    (h : Leads registry (.more (.argument calls)) taken (deliver e calls)) :
    taken ≠ [] := by
  rintro rfl
  generalize hend : deliver e calls = final at h
  cases h
  obtain ⟨f, args, outer, rfl, hstate⟩ := deliver_eq_more hend
  injection hstate with hcalls
  injection hcalls with hcall
  injection hcall with _ hargs
  exact List.cons_ne_self e args hargs.symm

/-! ## The descent follows the reader, and ends

One induction on the fuel for all three functions. It says that there is an
answer and what the answer is at once, because the loop can go on with less
fuel only where the argument before has taken a token. -/

mutual

theorem expression_follows {fuel : Nat} {cursor : Cursor}
    (hfuel : 2 * cursor.left.length + 1 ≤ fuel) {calls : List OpenCall}
    (hend : cursor.isAt .callEnd = true → calls = []) :
    ∃ run, expression registry fuel cursor = some run ∧
      Follows registry (.more (.argument calls)) calls cursor run := by
  match fuel, hfuel with
  | fuel + 1, hfuel =>
      rw [expression, Cursor.next?_eq]
      cases hleft : cursor.left with
      | nil =>
          exact ⟨_, rfl, .of_stops hleft (.ended _)⟩
      | cons token rest =>
          have hsplit : cursor.left = [token] ++ rest := hleft
          obtain ⟨kind, raw⟩ := token
          cases kind with
          | fileName =>
              exact ⟨_, rfl, .done hsplit (Consumes.source raw calls).leads⟩
          | callStart =>
              refine call_follows ?_ hleft
              omega
          | functionName =>
              exact ⟨_, rfl,
                .of_stops hleft (.refused rest (.strayName raw calls))⟩
          | callEnd =>
              have hnone : calls = [] := by
                refine hend ?_
                rw [Cursor.isAt, Cursor.next?_eq, hleft]
                rfl
              rw [hnone]
              exact ⟨_, rfl, .of_stops hleft (.refused rest (.strayEnd raw))⟩

theorem call_follows {fuel : Nat} {cursor : Cursor}
    (hfuel : 2 * cursor.left.length ≤ fuel) {opening : String}
    {rest : List Token} (hleft : cursor.left = ⟨.callStart, opening⟩ :: rest)
    {calls : List OpenCall} :
    ∃ run, call registry fuel cursor = some run ∧
      Follows registry (.more (.argument calls)) calls cursor run := by
  rw [hleft, List.length_cons] at hfuel
  match fuel, hfuel with
  | fuel + 1, hfuel =>
      have hnext := Cursor.left_advance hleft
      suffices h : ∃ run, call registry (fuel + 1) cursor = some run ∧
          Follows registry (.more (.functionName calls)) calls cursor.advance
            run by
        obtain ⟨run, hrun, hfollows⟩ := h
        exact ⟨run, hrun, hfollows.from_token hleft (.start opening calls)⟩
      rw [call, Cursor.next?_eq, hnext]
      cases rest with
      | nil =>
          exact ⟨_, rfl, .of_stops hnext (.ended _)⟩
      | cons token rest =>
          obtain ⟨kind, raw⟩ := token
          cases kind with
          | functionName =>
              cases hget : registry.get? raw with
              | none =>
                  simp only [List.head?_cons, hget]
                  exact ⟨_, rfl,
                    .of_stops hnext (.refused rest (.unknownName calls hget))⟩
              | some f =>
                  have hargs : 2 * cursor.advance.advance.left.length + 2 ≤
                      fuel := by
                    rw [Cursor.left_advance hnext]
                    rw [List.length_cons] at hfuel
                    omega
                  obtain ⟨run, hrun, hfollows⟩ := arguments_follows hargs
                    (Registry.get?_eq_some_iff.1 hget).1
                  refine ⟨run, ?_, hfollows.from_token hnext (.name calls hget)⟩
                  simp only [List.head?_cons, hget]
                  exact hrun
          | callStart | callEnd | fileName =>
              exact ⟨_, rfl,
                .of_stops hnext (.refused rest (.noName calls (by simp)))⟩

theorem arguments_follows {fuel : Nat} {cursor : Cursor}
    (hfuel : 2 * cursor.left.length + 2 ≤ fuel) {name : String}
    {f : SetFunction} (hname : f.name = name) {args : List Expr}
    {calls : List OpenCall} :
    ∃ run, arguments registry fuel name f args cursor = some run ∧
      Follows registry (.more (.argument (⟨f, args⟩ :: calls))) calls cursor
        run := by
  match fuel, hfuel with
  | fuel + 1, hfuel =>
      rw [arguments]
      by_cases hclose : cursor.isAt .callEnd = true
      · obtain ⟨closing, rest, hleft⟩ := Cursor.isAt_iff.1 hclose
        rw [if_pos hclose]
        cases args with
        | nil =>
            rw [← hname]
            exact ⟨_, rfl,
              .of_stops hleft (.refused rest (.earlyEnd closing f calls))⟩
        | cons e args =>
            have hsplit : cursor.left = [⟨.callEnd, closing⟩] ++ rest := hleft
            exact ⟨_, rfl, .done hsplit
              (Consumes.finish closing f calls (List.cons_ne_nil e args)).leads⟩
      · rw [if_neg hclose]
        by_cases hatEnd : cursor.isAtEnd = true
        · rw [if_pos hatEnd]
          have hleft := Cursor.isAtEnd_iff.1 hatEnd
          exact ⟨_, rfl, .of_stops hleft (.ended _)⟩
        · rw [if_neg hatEnd]
          have hargument : 2 * cursor.left.length + 1 ≤ fuel := by omega
          -- The bracket was looked for, so the argument does not meet it.
          obtain ⟨run, hrun, hfollows⟩ := @expression_follows fuel cursor
            hargument (⟨f, args⟩ :: calls) fun h => absurd h hclose
          rw [hrun]
          cases hfollows with
          | failed split leads stops =>
              exact ⟨_, rfl, .failed split leads stops⟩
          | @done taken rest e split leads =>
              have htaken :=
                List.length_pos_iff.2 (ne_nil_of_leads_deliver leads)
              have hmore : 2 * (cursor.after taken.length).left.length + 2 ≤
                  fuel := by
                rw [split, List.length_append] at hfuel
                rw [Cursor.left_after split]
                omega
              obtain ⟨run, hrun, hfollows⟩ := arguments_follows hmore hname
              exact ⟨run, hrun, hfollows.from_before split leads⟩

end

/-! ## Reading from an index -/

/-- How a reading came out, how many tokens it took and where it left the
cursor. -/
theorem Follows.readAt_eq {tokens : List Token} {index : Nat} {run : Run}
    (h : Follows registry (.more (.argument [])) [] (Cursor.start tokens index)
      run) :
    ∃ count, run.cursor = (Cursor.start tokens index).after count ∧
      count ≤ tokens.length - index ∧
      ((∃ e, run.outcome = .ok e ∧ 0 < count ∧
        readAt registry tokens index = .ok (e, count)) ∨
      ∃ cause, run.outcome = .error ⟨cause, index + count⟩ ∧
        readAt registry tokens index = .error ⟨cause, index + count⟩) := by
  have htaken : ∀ {taken rest : List Token},
      (Cursor.start tokens index).left = taken ++ rest →
      taken.length ≤ tokens.length - index := by
    intro taken rest split
    rw [← List.length_drop]
    show _ ≤ (Cursor.start tokens index).left.length
    rw [split, List.length_append]
    exact Nat.le_add_right _ _
  cases h with
  | @done taken rest e split leads =>
      refine ⟨taken.length, rfl, htaken split, .inl ⟨e, rfl, ?_, ?_⟩⟩
      · exact List.length_pos_iff.2 (ne_nil_of_leads_deliver leads)
      · exact readAt_eq_ok_iff.2 ⟨taken, rest, split, leads, rfl⟩
  | @failed taken rest stuck cause split leads stops =>
      refine ⟨taken.length, rfl, htaken split, .inr ⟨cause, rfl, ?_⟩⟩
      exact readAt_eq_error_iff.2 ⟨taken, rest, stuck, split, leads, rfl, stops⟩

/-- What the reader reads leaves the descent no choice. -/
theorem Follows.unique {tokens : List Token} {index : Nat} {run run' : Run}
    (h : Follows registry (.more (.argument [])) [] (Cursor.start tokens index)
      run)
    (h' : Follows registry (.more (.argument [])) [] (Cursor.start tokens index)
      run') : run = run' := by
  obtain ⟨outcome, cursor⟩ := run
  obtain ⟨outcome', cursor'⟩ := run'
  obtain ⟨count, hcursor, -, hout⟩ := h.readAt_eq
  obtain ⟨count', hcursor', -, hout'⟩ := h'.readAt_eq
  dsimp only at hcursor hcursor' hout hout'
  rcases hout with ⟨e, rfl, -, hread⟩ | ⟨cause, rfl, hread⟩
  · rcases hout' with ⟨e', rfl, -, hread'⟩ | ⟨cause', rfl, hread'⟩
    · rw [hread] at hread'
      cases hread'
      rw [hcursor, hcursor']
    · rw [hread] at hread'
      cases hread'
  · rcases hout' with ⟨e', rfl, -, hread'⟩ | ⟨cause', rfl, hread'⟩
    · rw [hread] at hread'
      cases hread'
    · rw [hread] at hread'
      injection hread' with hsame
      injection hsame with hcause hposition
      obtain rfl : count = count' := Nat.add_left_cancel hposition
      rw [hcursor, hcursor', hcause]

/-- The answer to enough fuel, which is the same for any that is enough. -/
theorem exists_read (registry : Registry) (tokens : List Token) (index : Nat) :
    ∃ run, (∀ fuel, 2 * (tokens.length - index) + 1 ≤ fuel →
        read registry fuel tokens index = some run) ∧
      Follows registry (.more (.argument [])) [] (Cursor.start tokens index)
        run := by
  have hleft : (Cursor.start tokens index).left.length =
      tokens.length - index :=
    List.length_drop
  have hanswer : ∀ fuel, 2 * (tokens.length - index) + 1 ≤ fuel →
      ∃ run, read registry fuel tokens index = some run ∧
        Follows registry (.more (.argument [])) [] (Cursor.start tokens index)
          run := by
    intro fuel hfuel
    rw [← hleft] at hfuel
    exact expression_follows hfuel fun _ => rfl
  obtain ⟨run, -, hfollows⟩ := hanswer _ (Nat.le_refl _)
  refine ⟨run, fun fuel hfuel => ?_, hfollows⟩
  obtain ⟨run', hread, hfollows'⟩ := hanswer fuel hfuel
  rw [hread, hfollows.unique hfollows']

/-- A round of the loop over arguments finds no token, or no argument, and ends
the loop with that error; or it takes at least one token and the loop goes on
behind what it took. -/
theorem arguments_round {fuel : Nat} {cursor : Cursor}
    (hopen : cursor.isAt .callEnd = false)
    (hfuel : 2 * cursor.left.length + 1 ≤ fuel) (name : String)
    (f : SetFunction) (args : List Expr) :
    (cursor.isAtEnd = true ∧
      arguments registry (fuel + 1) name f args cursor =
        some ⟨.error ⟨.endOfInput, cursor.position⟩, cursor⟩) ∨
    (∃ error final,
      expression registry fuel cursor = some ⟨.error error, final⟩ ∧
      arguments registry (fuel + 1) name f args cursor =
        some ⟨.error error, final⟩) ∨
    ∃ e next, expression registry fuel cursor = some ⟨.ok e, next⟩ ∧
      cursor.position < next.position ∧
      next.position ≤ cursor.tokens.length ∧
      arguments registry (fuel + 1) name f args cursor =
        arguments registry fuel name f (e :: args) next := by
  rw [arguments, if_neg (Bool.eq_false_iff.1 hopen)]
  by_cases hatEnd : cursor.isAtEnd = true
  · rw [if_pos hatEnd]
    exact .inl ⟨hatEnd, rfl⟩
  · rw [if_neg hatEnd]
    have hclosed : cursor.isAt .callEnd = true → ([] : List OpenCall) = [] :=
      fun _ => rfl
    obtain ⟨run, hrun, hfollows⟩ := @expression_follows registry fuel cursor
      hfuel [] hclosed
    rw [hrun]
    cases hfollows with
    | failed => exact .inr (.inl ⟨_, _, rfl, rfl⟩)
    | @done taken rest e split leads =>
        have htaken := List.length_pos_iff.2 (ne_nil_of_leads_deliver leads)
        have hlength := congrArg List.length split
        rw [Cursor.left, List.length_drop, List.length_append] at hlength
        refine .inr (.inr ⟨e, _, rfl, ?_, ?_, rfl⟩)
        · show cursor.position < cursor.position + taken.length
          omega
        · show cursor.position + taken.length ≤ cursor.tokens.length
          omega

/-! ## Reading everything -/

/-- All tokens are a program if the reading at the first takes them all; else
there is one behind those it took. -/
theorem ofTokens_eq_readAt (registry : Registry) (tokens : List Token) :
    match readAt registry tokens 0 with
    | .error error => ofTokens registry tokens = .error error
    | .ok (e, count) => count ≤ tokens.length ∧
        match tokens.drop count with
        | [] => ofTokens registry tokens = .ok e
        | token :: rest => ofTokens registry tokens =
            .error ⟨.trailingTokens token.raw (rest.length + 1), count⟩ := by
  rw [readAt, ofTokens, List.drop_zero]
  cases hread : readFrom registry (.argument []) 0 tokens with
  | error error => rfl
  | ok read =>
      obtain ⟨consumed, -, htokens, hposition⟩ := readFrom_eq_ok_iff.1 hread
      obtain ⟨e, position, rest⟩ := read
      dsimp only at htokens hposition ⊢
      rw [Nat.zero_add] at hposition
      rw [hposition, Nat.sub_zero, htokens, List.drop_left]
      refine ⟨?_, ?_⟩
      · rw [List.length_append]
        exact Nat.le_add_right _ _
      · cases rest <;> rfl

/-- From every index among the tokens the descent comes to an end, with fuel for
two calls a token and one more. Its cursor is then still among the tokens; it
was advanced from each position in between, once and in order, and there was a
token at each. If the descent has read an expression, that is the reader's, and
the tokens it takes up are those the cursor passed, at least one; otherwise the
reader has the same error, at the place of the cursor.

Each round of the loop over arguments ends it with the error it met, or leaves
the cursor further on. And the reading at the first token takes up no more than
there is, so that what lies behind it can be cut off. -/
theorem descent_ends_moving_forward (registry : Registry) :
    (∀ tokens index, index ≤ tokens.length → ∃ run,
      (∀ fuel, 2 * (tokens.length - index) + 1 ≤ fuel →
        read registry fuel tokens index = some run) ∧
      (index ≤ run.cursor.position ∧ run.cursor.position ≤ tokens.length) ∧
      (run.cursor.advances =
          List.range' index (run.cursor.position - index) ∧
        run.cursor.advances.Nodup ∧
        ∀ place ∈ run.cursor.advances, place < tokens.length) ∧
      (∀ e, run.outcome = .ok e →
        readAt registry tokens index = .ok (e, run.cursor.position - index) ∧
        run.cursor.advances.length = run.cursor.position - index ∧
        index < run.cursor.position) ∧
      ∀ error, run.outcome = .error error →
        readAt registry tokens index = .error error ∧
        error.position = run.cursor.position ∧
        error.position = index + run.cursor.advances.length) ∧
    (∀ fuel cursor name f args, cursor.isAt .callEnd = false →
      2 * cursor.left.length + 1 ≤ fuel →
      (cursor.isAtEnd = true ∧
        arguments registry (fuel + 1) name f args cursor =
          some ⟨.error ⟨.endOfInput, cursor.position⟩, cursor⟩) ∨
      (∃ error final,
        expression registry fuel cursor = some ⟨.error error, final⟩ ∧
        arguments registry (fuel + 1) name f args cursor =
          some ⟨.error error, final⟩) ∨
      ∃ e next, expression registry fuel cursor = some ⟨.ok e, next⟩ ∧
        cursor.position < next.position ∧
        next.position ≤ cursor.tokens.length ∧
        arguments registry (fuel + 1) name f args cursor =
          arguments registry fuel name f (e :: args) next) ∧
    ∀ tokens, match readAt registry tokens 0 with
      | .error error => ofTokens registry tokens = .error error
      | .ok (e, count) => count ≤ tokens.length ∧
          match tokens.drop count with
          | [] => ofTokens registry tokens = .ok e
          | token :: rest => ofTokens registry tokens =
              .error ⟨.trailingTokens token.raw (rest.length + 1), count⟩ := by
  refine ⟨fun tokens index hindex => ?_,
    fun fuel cursor name f args hopen hfuel =>
      arguments_round hopen hfuel name f args,
    ofTokens_eq_readAt registry⟩
  obtain ⟨run, hread, hfollows⟩ := exists_read registry tokens index
  obtain ⟨outcome, cursor⟩ := run
  obtain ⟨count, hcursor, hle, hout⟩ := hfollows.readAt_eq
  dsimp only at hcursor hout
  have hposition : cursor.position = index + count := by
    rw [hcursor]
    rfl
  have hadvances : cursor.advances = List.range' index count := by
    rw [hcursor]
    rfl
  have hlength : cursor.advances.length = count := by
    rw [hadvances, List.length_range']
  have hcount : cursor.position - index = count := by omega
  have hfrom : index ≤ cursor.position := by omega
  have hinside : cursor.position ≤ tokens.length := by omega
  refine ⟨⟨outcome, cursor⟩, hread, ⟨hfrom, hinside⟩,
    ⟨by rw [hcount, hadvances], ?_, ?_⟩, fun e he => ?_, fun error herror => ?_⟩
  · rw [hadvances]
    exact List.nodup_range'
  · intro place hplace
    rw [hadvances, List.mem_range'_1] at hplace
    omega
  · rcases hout with ⟨e', rfl, hpos, hreader⟩ | ⟨cause, rfl, -⟩
    · cases he
      have hforward : index < cursor.position := by omega
      rw [hcount]
      exact ⟨hreader, hlength, hforward⟩
    · cases he
  · rcases hout with ⟨e', rfl, -, -⟩ | ⟨cause, rfl, hreader⟩
    · cases herror
    · cases herror
      refine ⟨hreader, hposition.symm, ?_⟩
      rw [hlength]

/-- `] [ SUM a [ DIF ] b`, from the first bracket that starts a call. The cursor
stops at the bracket that comes too early, and the first round of the loop goes
over the file name. -/
theorem descent_stops_at_early_bracket :
    let tokens : List Token := [.callEnd, .callStart, .functionName "SUM",
      .fileName "a", .callStart, .functionName "DIF", .callEnd, .fileName "b"]
    let error : CompileError := ⟨.emptyCall "DIF", 6⟩
    (1 ≤ tokens.length ∧
      (∀ fuel, 15 ≤ fuel → read .builtin fuel tokens 1 =
        some ⟨.error error, ⟨tokens, 6, [1, 2, 3, 4, 5]⟩⟩) ∧
      readAt .builtin tokens 1 = .error error) ∧
    (Cursor.isAt ⟨tokens, 3, [1, 2]⟩ .callEnd = false ∧
      arguments .builtin 12 "SUM" .sum [] ⟨tokens, 3, [1, 2]⟩ =
        arguments .builtin 11 "SUM" .sum [.load "a"]
          ⟨tokens, 4, [1, 2, 3]⟩) := by
  intro tokens error
  have hindex : 1 ≤ tokens.length := by decide
  have hrun : read .builtin 15 tokens 1 =
      some ⟨.error error, ⟨tokens, 6, [1, 2, 3, 4, 5]⟩⟩ := rfl
  have hargument : expression .builtin 11 ⟨tokens, 3, [1, 2]⟩ =
      some ⟨.ok (.load "a"), ⟨tokens, 4, [1, 2, 3]⟩⟩ := rfl
  obtain ⟨hends, hrounds, -⟩ := descent_ends_moving_forward .builtin
  obtain ⟨run, hread, -, -, -, herror⟩ := hends tokens 1 hindex
  have hsame := hread 15 (by decide)
  rw [hrun] at hsame
  cases hsame
  refine ⟨⟨hindex, hread, (herror error rfl).1⟩, rfl, ?_⟩
  rcases hrounds 11 ⟨tokens, 3, [1, 2]⟩ "SUM" .sum [] rfl (by decide) with
    ⟨hatEnd, -⟩ | ⟨_, _, hfails, -⟩ | ⟨e, next, hnext, -, -, hround⟩
  · cases hatEnd
  · rw [hargument] at hfails
    cases hfails
  · rw [hargument] at hnext
    cases hnext
    exact hround

end SetCalculator.Expr.Descent
