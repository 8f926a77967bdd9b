import Mathlib.Data.List.Basic
import SetCalculator.Expr.Spelling
import SetCalculator.Proofs.CanonicalText

/-!
# One word for each token of an expression

The text of an expression is made from the walk through it, word by word with a
space between any two. Told along the expression it is the same text, in which a
call puts in the spaces and each part its own words (`text_eq_printed`); the
case to look at is the call without an argument, whose bracket has its space all
the same. So the text has as many words as the expression has tokens, as long as
each word is one: that can only fail at the name of a source, and if it does the
words of the text are not those of the expression.
-/

namespace SetCalculator.Expr

theorem words_eq_spelling (e : Expr) : e.words = e.spelling := by
  induction e with
  | load source => rw [words_load, spelling_load]
  | call f args ih => rw [words_call, spelling_call, List.flatMap_congr ih]

theorem spelling_ne_nil (e : Expr) : e.spelling ≠ [] := by
  cases e with
  | load source => simp
  | call f args => simp

/-! ## The text along the expression -/

/-- Words that are there already, and arguments behind them up to the
bracket. -/
theorem intercalate_args {front : List String} (hfront : front ≠ [])
    (args : List Expr) :
    " ".intercalate (front ++ (args.flatMap spelling ++ ["]"])) =
      " ".intercalate front ++
        String.join (args.map fun arg => " " ++ " ".intercalate arg.spelling) ++
        " ]" := by
  induction args generalizing front with
  | nil =>
      rw [List.flatMap_nil, List.nil_append, List.map_nil, String.join_nil,
        String.append_empty,
        String.intercalate_append_of_ne_nil hfront (by simp),
        String.intercalate_singleton, String.append_assoc]
      rfl
  | cons arg rest ih =>
      have hmore : front ++ arg.spelling ≠ [] :=
        List.append_ne_nil_of_left_ne_nil hfront _
      rw [List.flatMap_cons, List.append_assoc, ← List.append_assoc front,
        ih hmore,
        String.intercalate_append_of_ne_nil hfront arg.spelling_ne_nil,
        List.map_cons, String.join_cons]
      simp only [String.append_assoc]

theorem text_eq_intercalate (e : Expr) :
    e.text = " ".intercalate e.spelling := by
  rw [text, words_eq_spelling]

theorem text_eq_printed (e : Expr) : e.text = e.printed := by
  rw [text_eq_intercalate]
  induction e with
  | load source =>
      rw [spelling_load, printed_load, String.intercalate_singleton]
  | call f args ih =>
      have hfront : " ".intercalate ["[", f.name] = "[ " ++ f.name := by
        rw [String.intercalate_cons_cons, String.intercalate_singleton]
        rfl
      have hargs : (args.map fun arg => " " ++ " ".intercalate arg.spelling) =
          args.map fun arg => " " ++ arg.printed :=
        List.map_congr_left fun arg harg => by rw [ih arg harg]
      rw [spelling_call, printed_call, ← hargs, ← hfront]
      exact intercalate_args (List.cons_ne_nil "[" [f.name]) args

/-! ## How many words there are -/

theorem length_spelling (e : Expr) : e.spelling.length = e.tokenCount := by
  induction e with
  | load source => simp
  | call f args ih =>
      have hargs : (args.flatMap spelling).length = tokenCountOfAll args := by
        induction args with
        | nil => rfl
        | cons arg rest ihrest =>
            obtain ⟨harg, hrest⟩ := List.forall_mem_cons.1 ih
            rw [List.flatMap_cons, List.length_append, harg, ihrest hrest,
              tokenCountOfAll]
      rw [spelling_call, tokenCount_call, List.length_cons, List.length_cons,
        List.length_append, hargs, List.length_singleton]
      omega

/-! ## The words of the text -/

theorem mem_spelling_of_mem_sources {e : Expr} {name : String}
    (h : name ∈ e.sources) : name ∈ e.spelling := by
  induction e with
  | load source =>
      rw [sources_load] at h
      rw [spelling_load]
      exact h
  | call f args ih =>
      rw [sources_call] at h
      obtain ⟨arg, harg, hname⟩ := List.mem_flatMap.1 h
      have hmem : name ∈ args.flatMap spelling :=
        List.mem_flatMap.2 ⟨arg, harg, ih arg harg hname⟩
      rw [spelling_call]
      exact List.mem_cons_of_mem _ (List.mem_cons_of_mem _
        (List.mem_append_left _ hmem))

/-- Whatever is no name of a source is a word in any case. -/
theorem mem_spelling_cases {e : Expr} {word : String} (h : word ∈ e.spelling) :
    word ∈ e.sources ∨ Text.IsWord word := by
  rw [← words_eq_spelling, ← map_raw_tokens, List.mem_map] at h
  obtain ⟨token, htoken, rfl⟩ := h
  rcases source_or_classified_of_mem_tokens htoken with
    ⟨name, hname, rfl⟩ | ⟨hword, -⟩
  · exact .inl hname
  · exact .inr hword

theorem forall_isWord_spelling_iff {e : Expr} :
    (∀ word ∈ e.spelling, Text.IsWord word) ↔
      ∀ name ∈ e.sources, Text.IsWord name := by
  refine ⟨fun h name hname => h name (mem_spelling_of_mem_sources hname), ?_⟩
  intro h word hword
  rcases mem_spelling_cases hword with hname | hword
  · exact h word hname
  · exact hword

/-- The text of an expression is the expression as it is printed, and it is the
words of the expression with one space between any two and none around them;
there are as many as the expression has tokens. When the names of its sources
are words all of them are, and then they are the words of the text; otherwise
the text has other words. -/
theorem text_has_word_for_each_token (e : Expr) :
    e.text = e.printed ∧ e.text = " ".intercalate e.spelling ∧
    e.spelling.length = e.tokenCount ∧
    ((∀ name ∈ e.sources, Text.IsWord name) →
      (∀ word ∈ e.spelling, Text.IsWord word) ∧
      Text.words e.text = e.spelling ∧
      (Text.words e.text).length = e.tokenCount) ∧
    (Text.words e.text = e.spelling →
      ∀ name ∈ e.sources, Text.IsWord name) := by
  refine ⟨text_eq_printed e, text_eq_intercalate e, length_spelling e,
    fun h => ?_, fun h => ?_⟩
  · have hspelled := forall_isWord_spelling_iff.2 h
    have hwords : Text.words e.text = e.spelling := by
      rw [text_eq_intercalate]
      exact (Text.spaces_with_spaces _).words_eq hspelled
    exact ⟨hspelled, hwords, by rw [hwords, length_spelling]⟩
  · refine forall_isWord_spelling_iff.1 fun word hword => ?_
    rw [← h] at hword
    exact Text.isWord_of_mem_words hword

/-- `[ SUM A.b [ INT ] ]]` is printed with a call that has no argument and with
names that no file has, one of which looks like brackets. -/
theorem text_of_empty_call_has_its_words :
    let e : Expr := .call .sum [.load "A.b", .call .int [], .load "]]"]
    (∀ name ∈ e.sources, Text.IsWord name) ∧
    e.text = "[ SUM A.b [ INT ] ]] ]" ∧
    Text.words e.text = ["[", "SUM", "A.b", "[", "INT", "]", "]]", "]"] ∧
    (Text.words e.text).length = e.tokenCount := by
  intro e
  have hnames : ∀ name ∈ e.sources, Text.IsWord name := by
    have hsources : e.sources = ["A.b", "]]"] := by simp [e]
    rw [hsources, List.forall_mem_cons, List.forall_mem_singleton]
    exact ⟨Text.isWord_of_all (by decide) rfl,
      Text.isWord_of_all (by decide) rfl⟩
  have hspelling : e.spelling =
      ["[", "SUM", "A.b", "[", "INT", "]", "]]", "]"] := by
    simp [e, SetFunction.name]
  obtain ⟨-, htext, -, hwords, -⟩ := text_has_word_for_each_token e
  obtain ⟨-, hsplit, hcount⟩ := hwords hnames
  rw [hspelling] at htext hsplit
  exact ⟨hnames, htext, hsplit, hcount⟩

end SetCalculator.Expr
