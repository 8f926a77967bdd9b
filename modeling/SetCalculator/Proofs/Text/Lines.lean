import SetCalculator.Text.Lines

/-!
# Lines and the feeds that end them

A feed cuts a text in two: up to and with the feed there are only ended lines,
and what follows has lines of its own (`splitLines_feed`). So a text is its
first line, a feed and a shorter text, or it holds no feed and is one line if
it is anything at all, and facts about lines are proved by induction along
these cuts (`induction_on_lines`).

The other way round, lines that hold no feed and end in no return are read
back from a text that lists them, whichever ending each of them has.
-/

namespace SetCalculator.Text

section

variable {α : Type} {lf cr : α}

/-- Induction along the feeds of a text: it has none, or it is a line, a feed
and a text for which the claim holds. -/
theorem induction_on_lines {motive : List α → Prop}
    (last : ∀ line, lf ∉ line → motive line)
    (feed : ∀ line rest, lf ∉ line → motive rest →
      motive (line ++ lf :: rest)) (text : List α) : motive text := by
  by_cases h : lf ∈ text
  · obtain ⟨line, rest, htext, hline⟩ := List.eq_append_cons_of_mem h
    have hshorter : rest.length < text.length := by
      rw [htext, List.length_append, List.length_cons]
      omega
    rw [htext]
    exact feed line rest hline (induction_on_lines last feed rest)
  · exact last text h
termination_by text.length

variable [BEq α]

theorem splitLines_nil : splitLines lf cr [] = [] := by
  simp [splitLines, endedLines, unendedRest]

theorem mem_of_mem_dropReturn {a : α} {line : List α}
    (h : a ∈ dropReturn cr line) : a ∈ line := by
  rw [dropReturn] at h
  split at h
  · exact List.dropLast_subset line h
  · exact h

variable [LawfulBEq α]

theorem dropReturn_concat_return (line : List α) :
    dropReturn cr (line ++ [cr]) = line := by
  rw [dropReturn, List.getLast?_concat, List.dropLast_concat, if_pos]
  exact beq_self_eq_true cr

theorem dropReturn_of_getLast?_ne {line : List α}
    (h : line.getLast? ≠ some cr) : dropReturn cr line = line := by
  rw [dropReturn, if_neg]
  cases hlast : line.getLast? with
  | none => simp
  | some last =>
      rw [hlast] at h
      simpa using h

/-- Without a feed a text is one line, unless it is empty. -/
theorem splitLines_of_not_mem {line : List α} (h : lf ∉ line) :
    splitLines lf cr line = if line.isEmpty then [] else [line] := by
  rw [splitLines, endedLines, unendedRest, List.splitOn_eq_singleton h]
  rfl

theorem unendedRest_feed (before after : List α) :
    unendedRest lf (before ++ lf :: after) = unendedRest lf after := by
  have hlast := List.getLast?_eq_some_getLast (List.splitOn_ne_nil lf after)
  rw [unendedRest, unendedRest, List.splitOn_append_cons_self,
    List.getLastD_eq_getLast?, List.getLastD_eq_getLast?, List.getLast?_append,
    hlast, Option.some_or]

/-- A feed cuts a text in two. -/
theorem splitLines_feed (before after : List α) :
    splitLines lf cr (before ++ lf :: after) =
      (before.splitOn lf).map (dropReturn cr) ++ splitLines lf cr after := by
  have hne := List.splitOn_ne_nil lf after
  rw [splitLines, splitLines, endedLines, endedLines, unendedRest_feed,
    List.splitOn_append_cons_self, List.dropLast_append_of_ne_nil hne,
    List.map_append, List.append_assoc]

theorem splitLines_line {line : List α} (h : lf ∉ line) (rest : List α) :
    splitLines lf cr (line ++ lf :: rest) =
      dropReturn cr line :: splitLines lf cr rest := by
  rw [splitLines_feed, List.splitOn_eq_singleton h]
  rfl

/-- Behind what is empty or ends with a feed, lines start afresh. -/
theorem splitLines_append {before : List α}
    (h : before = [] ∨ ∃ text, before = text ++ [lf]) (after : List α) :
    splitLines lf cr (before ++ after) =
      splitLines lf cr before ++ splitLines lf cr after := by
  rcases h with rfl | ⟨text, rfl⟩
  · rw [splitLines_nil]
    rfl
  · rw [List.append_assoc, List.singleton_append, splitLines_feed,
      splitLines_feed, splitLines_nil, List.append_nil]

/-- No line holds a feed. -/
theorem not_mem_of_mem_splitLines {text line : List α}
    (h : line ∈ splitLines lf cr text) : lf ∉ line := by
  induction text using @induction_on_lines _ lf with
  | last text hfeed =>
      rw [splitLines_of_not_mem hfeed] at h
      split at h
      · cases h
      · rw [List.mem_singleton.1 h]
        exact hfeed
  | feed first rest hfirst ih =>
      rw [splitLines_line hfirst, List.mem_cons] at h
      rcases h with rfl | h
      · exact fun hmem => hfirst (mem_of_mem_dropReturn hmem)
      · exact ih h

end

theorem lines_append {before : String}
    (h : before.toList = [] ∨ ∃ text, before.toList = text ++ ['\n'])
    (after : String) :
    lines (before ++ after) = lines before ++ lines after := by
  rw [lines, String.toList_append, splitLines_append h, List.map_append]
  rfl

/-! ## Texts of one line -/

/-- A text in which no line ends. -/
def OneLine (text : String) : Prop := '\n' ∉ text.toList

instance (text : String) : Decidable (OneLine text) :=
  inferInstanceAs (Decidable ('\n' ∉ text.toList))

theorem oneLine_of_mem_lines {text line : String} (h : line ∈ lines text) :
    OneLine line := by
  obtain ⟨cs, hcs, rfl⟩ := List.mem_map.1 h
  rw [OneLine, String.toList_ofList]
  exact not_mem_of_mem_splitLines hcs

@[simp] theorem oneLine_append {x y : String} :
    OneLine (x ++ y) ↔ OneLine x ∧ OneLine y := by
  simp [OneLine, not_or]

theorem oneLine_intercalate {between : String} (h : OneLine between)
    {ws : List String} (hws : ∀ word ∈ ws, OneLine word) :
    OneLine (between.intercalate ws) := by
  induction ws with
  | nil => exact List.not_mem_nil
  | cons word ws ih =>
      obtain ⟨hword, hrest⟩ := List.forall_mem_cons.1 hws
      cases ws with
      | nil => rw [String.intercalate_singleton]; exact hword
      | cons next ws =>
          rw [String.intercalate_cons_cons, oneLine_append, oneLine_append]
          exact ⟨⟨hword, h⟩, ih hrest⟩

/-! ## Texts that list lines -/

/-- A text lists some lines: each is followed by a feed, with or without a
return before it, and the last may have no ending. -/
inductive Lists : List String → String → Prop where
  | nil : Lists [] ""
  | last {line : String} (nonempty : line ≠ "") : Lists [line] line
  | feed (line : String) {ls : List String} {text : String}
      (rest : Lists ls text) : Lists (line :: ls) (line ++ "\n" ++ text)
  | returnFeed (line : String) {ls : List String} {text : String}
      (rest : Lists ls text) : Lists (line :: ls) (line ++ "\r\n" ++ text)

theorem Lists.ended {ending : String} (h : ending = "\n" ∨ ending = "\r\n")
    (line : String) {ls : List String} {text : String} (rest : Lists ls text) :
    Lists (line :: ls) (line ++ ending ++ text) := by
  rcases h with rfl | rfl
  · exact .feed line rest
  · exact .returnFeed line rest

/-- The text of some lines, each with an ending behind it. -/
def endLines (entries : List (String × String)) : String :=
  String.join (entries.map fun entry => entry.1 ++ entry.2)

theorem Lists.endLines_append {entries : List (String × String)}
    (h : ∀ entry ∈ entries, entry.2 = "\n" ∨ entry.2 = "\r\n")
    {ls : List String} {text : String} (rest : Lists ls text) :
    Lists (entries.map Prod.fst ++ ls) (endLines entries ++ text) := by
  induction entries with
  | nil => simpa [endLines] using rest
  | cons entry entries ih =>
      obtain ⟨hentry, hentries⟩ := List.forall_mem_cons.1 h
      have htext : endLines (entry :: entries) ++ text =
          entry.1 ++ entry.2 ++ (endLines entries ++ text) := by
        rw [endLines, endLines, List.map_cons, String.join_cons,
          String.append_assoc]
      rw [htext]
      exact .ended hentry entry.1 (ih hentries)

theorem lists_endLines {entries : List (String × String)}
    (h : ∀ entry ∈ entries, entry.2 = "\n" ∨ entry.2 = "\r\n") :
    Lists (entries.map Prod.fst) (endLines entries) := by
  have hlists := Lists.endLines_append h .nil
  rwa [List.append_nil, String.append_empty] at hlists

/-- Lines with one and the same ending. -/
theorem lists_join {ending : String} (h : ending = "\n" ∨ ending = "\r\n")
    (ls : List String) :
    Lists ls (String.join (ls.map fun line => line ++ ending)) := by
  have hlists := @lists_endLines (ls.map fun line => (line, ending))
    (List.forall_mem_map.2 fun _ _ => h)
  simpa [endLines, Function.comp_def] using hlists

/-- Lines with one and the same ending between them, and none at the end. -/
theorem lists_intercalate {ending : String}
    (h : ending = "\n" ∨ ending = "\r\n") {ls : List String}
    (hne : ∀ line ∈ ls, line ≠ "") : Lists ls (ending.intercalate ls) := by
  induction ls with
  | nil => exact .nil
  | cons line ls ih =>
      obtain ⟨hline, hrest⟩ := List.forall_mem_cons.1 hne
      cases ls with
      | nil =>
          rw [String.intercalate_singleton]
          exact .last hline
      | cons next ls =>
          rw [String.intercalate_cons_cons]
          exact .ended h line (ih hrest)

/-- What can be told apart from the ending of a line: it holds no feed, and no
return stands at its end. -/
def IsPlainLine (line : String) : Prop :=
  OneLine line ∧ line.toList.getLast? ≠ some '\r'

instance (line : String) : Decidable (IsPlainLine line) :=
  inferInstanceAs
    (Decidable (OneLine line ∧ line.toList.getLast? ≠ some '\r'))

theorem lines_line {line : List Char} (h : '\n' ∉ line) (rest : String)
    {text : String} (htext : text.toList = line ++ '\n' :: rest.toList) :
    lines text = String.ofList (dropReturn '\r' line) :: lines rest := by
  rw [lines, htext, splitLines_line h]
  rfl

/-- Lines are read back from a text that lists them. -/
theorem Lists.lines_eq {ls : List String} {text : String}
    (h : Lists ls text) (hplain : ∀ line ∈ ls, IsPlainLine line) :
    lines text = ls := by
  induction h with
  | nil => rfl
  | @last line nonempty =>
      obtain ⟨hfeed, -⟩ := hplain line List.mem_cons_self
      rw [lines, splitLines_of_not_mem hfeed]
      simp [nonempty]
  | @feed line ls text rest ih =>
      obtain ⟨⟨hfeed, hreturn⟩, hrest⟩ := List.forall_mem_cons.1 hplain
      rw [lines_line hfeed text (by simp), ih hrest,
        dropReturn_of_getLast?_ne hreturn, String.ofList_toList]
  | @returnFeed line ls text rest ih =>
      obtain ⟨⟨hfeed, -⟩, hrest⟩ := List.forall_mem_cons.1 hplain
      have hnone : '\n' ∉ line.toList ++ ['\r'] := by
        rw [List.mem_append, not_or]
        exact ⟨hfeed, by decide⟩
      rw [lines_line hnone text (by simp), ih hrest, dropReturn_concat_return,
        String.ofList_toList]

end SetCalculator.Text
