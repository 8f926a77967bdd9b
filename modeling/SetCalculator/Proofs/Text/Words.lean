import Mathlib.Data.List.TakeWhile
import SetCalculator.Text.Words

/-!
# Words and the blanks between them

Everything about words follows from two equations: a blank cuts a text in two,
each with its own words, and a text without a blank is one word if it is
anything at all. Put together, words are read back from any text that spaces
them (`Spaces.words_eq`), and the words of any text are the ones it is cut into
by its blanks (`words_eq_iff`).
-/

namespace SetCalculator.Text

/-- What can be a word: it is not empty, and no character of it is blank. -/
def IsWord (word : String) : Prop :=
  word ≠ "" ∧ ∀ c ∈ word.toList, isBlank c = false

theorem isWord_of_all {word : String} (hne : word ≠ "")
    (h : word.toList.all (fun c => !isBlank c) = true) : IsWord word := by
  refine ⟨hne, fun c hc => ?_⟩
  have hc := List.all_eq_true.1 h c hc
  simpa using hc

/-- No character that ASCII shows is blank. -/
theorem isBlank_of_visible {c : Char} (h : 33 ≤ c.toNat ∧ c.toNat ≤ 126) :
    isBlank c = false := by
  rw [isBlank, List.any_eq_false]
  simp only [blankRanges, List.forall_mem_cons, Bool.and_eq_true,
    decide_eq_true_eq]
  refine ⟨?_, ?_, ?_, ?_, ?_, ?_, ?_, ?_, ?_, ?_, List.forall_mem_nil _⟩
  all_goals omega

theorem runs_append_blank {c : Char} (h : isBlank c = true) (x y : List Char) :
    runs (x ++ c :: y) = runs x ++ runs y := by
  rw [runs, List.splitOnP_append_cons x y h, List.filter_append]
  rfl

theorem runs_of_not_blank {x : List Char} (hne : x ≠ [])
    (h : ∀ c ∈ x, isBlank c = false) : runs x = [x] := by
  rw [runs, List.splitOnP_eq_singleton h]
  simp [hne]

theorem runs_blanks_append {gap : List Char}
    (h : ∀ c ∈ gap, isBlank c = true) (rest : List Char) :
    runs (gap ++ rest) = runs rest := by
  induction gap with
  | nil => rfl
  | cons c gap ih =>
      obtain ⟨hc, hgap⟩ := List.forall_mem_cons.1 h
      have hcut := runs_append_blank hc [] (gap ++ rest)
      rw [List.nil_append] at hcut
      rw [List.cons_append, hcut, ih hgap]
      rfl

theorem words_of_isWord {word : String} (h : IsWord word) :
    words word = [word] := by
  have hne : word.toList ≠ [] := by simpa using h.1
  rw [words, runs_of_not_blank hne h.2]
  simp

/-! ## Words that a text spaces -/

/-- What may stand around words: blanks only, or nothing. -/
def IsBlankText (text : String) : Prop := ∀ c ∈ text.toList, isBlank c = true

/-- What may stand between two words: blanks, and at least one of them. -/
def IsGap (gap : String) : Prop := gap ≠ "" ∧ IsBlankText gap

instance (text : String) : Decidable (IsBlankText text) :=
  decidable_of_iff (text.toList.all isBlank = true) List.all_eq_true

instance (gap : String) : Decidable (IsGap gap) :=
  inferInstanceAs (Decidable (gap ≠ "" ∧ IsBlankText gap))

theorem words_blanks_append {blanks : String} (h : IsBlankText blanks)
    (text : String) : words (blanks ++ text) = words text := by
  rw [words, String.toList_append, runs_blanks_append h]
  rfl

/-- A gap cuts a text in two. -/
theorem words_append_gap {gap : String} (h : IsGap gap) (x y : String) :
    words (x ++ gap ++ y) = words x ++ words y := by
  obtain ⟨hne, hblank⟩ := h
  obtain ⟨c, blanks, hgap⟩ := List.exists_cons_of_ne_nil
    (mt String.toList_eq_nil_iff.1 hne)
  rw [IsBlankText, hgap, List.forall_mem_cons] at hblank
  have htext : (x ++ gap ++ y).toList =
      x.toList ++ c :: (blanks ++ y.toList) := by
    simp [hgap]
  rw [words, htext, runs_append_blank hblank.1, runs_blanks_append hblank.2,
    List.map_append]
  rfl

/-- A text spaces some words: they stand in it in order, with a gap between any
two of them and perhaps blanks around them all. -/
inductive Spaces : List String → String → Prop where
  | nil : Spaces [] ""
  | last (word : String) : Spaces [word] word
  | gap {gap : String} (isGap : IsGap gap) (word : String) {ws : List String}
      {text : String} (rest : Spaces ws text) :
      Spaces (word :: ws) (word ++ gap ++ text)
  | front {blanks : String} (isBlank : IsBlankText blanks) {ws : List String}
      {text : String} (rest : Spaces ws text) : Spaces ws (blanks ++ text)

/-- Words are read back from a text that spaces them. -/
theorem Spaces.words_eq {ws : List String} {text : String}
    (h : Spaces ws text) (hwords : ∀ word ∈ ws, IsWord word) :
    words text = ws := by
  induction h with
  | nil => rfl
  | last word => exact words_of_isWord (hwords word List.mem_cons_self)
  | gap isGap word _ ih =>
      obtain ⟨hword, hrest⟩ := List.forall_mem_cons.1 hwords
      rw [words_append_gap isGap, words_of_isWord hword, ih hrest]
      rfl
  | front isBlank _ ih => rw [words_blanks_append isBlank, ih hwords]

/-- Words with one and the same gap between them. -/
theorem spaces_intercalate {gap : String} (h : IsGap gap) (ws : List String) :
    Spaces ws (gap.intercalate ws) := by
  induction ws with
  | nil => exact .nil
  | cons word ws ih =>
      cases ws with
      | nil =>
          rw [String.intercalate_singleton]
          exact .last word
      | cons next ws =>
          rw [String.intercalate_cons_cons]
          exact .gap h word ih

theorem spaces_with_spaces (ws : List String) :
    Spaces ws (" ".intercalate ws) :=
  spaces_intercalate (by decide) ws

/-! ## Words are the longest runs without a blank -/

/-- A text is some words with blanks before, between and behind them. A word
goes on up to a blank or to the end, so no word could be longer. -/
inductive CutsInto : List Char → List String → Prop where
  | blanks {gap : List Char} (blank : ∀ c ∈ gap, isBlank c = true) :
      CutsInto gap []
  | word {gap rest : List Char} {word : String} {ws : List String}
      (blank : ∀ c ∈ gap, isBlank c = true) (isWord : IsWord word)
      (ends : ∀ c ∈ rest.head?, isBlank c = true) (cut : CutsInto rest ws) :
      CutsInto (gap ++ (word.toList ++ rest)) (word :: ws)

theorem runs_word_append {run rest : List Char} (hne : run ≠ [])
    (h : ∀ c ∈ run, isBlank c = false)
    (hends : ∀ c ∈ rest.head?, isBlank c = true) :
    runs (run ++ rest) = run :: runs rest := by
  cases rest with
  | nil => rw [List.append_nil, runs_of_not_blank hne h]; rfl
  | cons c rest =>
      have hc : ∀ d ∈ [c], isBlank d = true := by
        intro d hd
        rw [List.mem_singleton.1 hd]
        exact hends c rfl
      have hdrop := runs_blanks_append hc rest
      rw [List.singleton_append] at hdrop
      rw [runs_append_blank (hc c List.mem_cons_self), hdrop,
        runs_of_not_blank hne h]
      rfl

theorem CutsInto.runs_eq {text : List Char} {ws : List String}
    (h : CutsInto text ws) : (runs text).map String.ofList = ws := by
  induction h with
  | @blanks gap blank =>
      have hdrop := runs_blanks_append blank []
      rw [List.append_nil] at hdrop
      rw [hdrop]
      rfl
  | @word gap rest word ws blank isWord ends cut ih =>
      have hne : word.toList ≠ [] := by simpa using isWord.1
      rw [runs_blanks_append blank, runs_word_append hne isWord.2 ends,
        List.map_cons, ih, String.ofList_toList]

theorem head?_dropWhile {p : Char → Bool} {text : List Char} {c : Char}
    (h : c ∈ (text.dropWhile p).head?) : p c = false := by
  have hnot := List.head?_dropWhile_not p text
  rw [Option.mem_def.1 h] at hnot
  exact hnot

/-- The first word of a text that is not all blank, with what is around it. -/
theorem exists_first_word {text : List Char}
    (h : ¬ ∀ c ∈ text, isBlank c = true) :
    ∃ gap word rest, text = gap ++ (word.toList ++ rest) ∧
      (∀ c ∈ gap, isBlank c = true) ∧ IsWord word ∧
      ∀ c ∈ rest.head?, isBlank c = true := by
  obtain ⟨first, tail, htail⟩ : ∃ first tail,
      text.dropWhile isBlank = first :: tail :=
    List.exists_cons_of_ne_nil (mt List.dropWhile_eq_nil_iff.1 h)
  have hfirst : isBlank first = false :=
    head?_dropWhile (by rw [htail]; exact rfl)
  let run := tail.takeWhile fun c => !isBlank c
  let rest := tail.dropWhile fun c => !isBlank c
  have hrun : ∀ c ∈ first :: run, isBlank c = false := by
    intro c hc
    rcases List.mem_cons.1 hc with rfl | hc
    · exact hfirst
    · simpa using List.mem_takeWhile_imp hc
  refine ⟨text.takeWhile isBlank, String.ofList (first :: run), rest,
    ?_, fun c hc => List.mem_takeWhile_imp hc, ⟨?_, ?_⟩, ?_⟩
  · rw [String.toList_ofList, List.cons_append,
      List.takeWhile_append_dropWhile, ← htail,
      List.takeWhile_append_dropWhile]
  · intro hempty
    have hnil := congrArg String.toList hempty
    rw [String.toList_ofList] at hnil
    cases hnil
  · rw [String.toList_ofList]
    exact hrun
  · intro c hc
    simpa using head?_dropWhile hc

theorem exists_cutsInto (text : List Char) : ∃ ws, CutsInto text ws := by
  by_cases hblank : ∀ c ∈ text, isBlank c = true
  · exact ⟨[], .blanks hblank⟩
  · obtain ⟨gap, word, rest, htext, hgap, hword, hends⟩ :=
      exists_first_word hblank
    have hshorter : rest.length < text.length := by
      have hne : word.toList ≠ [] := by simpa using hword.1
      have hlength := List.length_pos_iff.2 hne
      rw [htext, List.length_append, List.length_append]
      omega
    obtain ⟨ws, hws⟩ := exists_cutsInto rest
    rw [htext]
    exact ⟨word :: ws, .word hgap hword hends hws⟩
termination_by text.length

theorem CutsInto.isWord_of_mem {text : List Char} {ws : List String}
    (h : CutsInto text ws) : ∀ word ∈ ws, IsWord word := by
  induction h with
  | blanks => exact List.forall_mem_nil _
  | word _ isWord _ _ ih => exact List.forall_mem_cons.2 ⟨isWord, ih⟩

/-- The words of a text are what its blanks cut it into. -/
theorem words_eq_iff {text : String} {ws : List String} :
    words text = ws ↔ CutsInto text.toList ws := by
  refine ⟨?_, CutsInto.runs_eq⟩
  intro h
  obtain ⟨ws', hcut⟩ := exists_cutsInto text.toList
  have hsame : words text = ws' := hcut.runs_eq
  rw [← h, hsame]
  exact hcut

theorem isWord_of_mem_words {text word : String} (h : word ∈ words text) :
    IsWord word :=
  (words_eq_iff.1 rfl).isWord_of_mem word h

end SetCalculator.Text
