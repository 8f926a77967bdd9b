import SetCalculator.Proofs.Source.Faults
import SetCalculator.Proofs.Source.NumeralLines
import SetCalculator.Source.Memory

/-!
# Texts put one behind the other

A text of plain lines, each with an ending of its own, is read back as these
lines, from a file and from memory alike. Where a text ends with a feed, nothing
of its last line is left to run into what is put behind it, so the lines of both
follow one another. Loading goes through them in that order: it stops where the
first text would have stopped it, and else it meets the second text with the
numbers moved by the lines before. Only a number can differ, since a line that
is no integer is all that can go wrong in a text.
-/

namespace SetCalculator.Source

/-- The loader has a text under a name, in a file or in memory. -/
inductive Keeps (name text : String) : Loader → Prop where
  | file {disk : Disk} {base? : Option String}
      (kept : disk (resolve base? name) = .ok ⟨encode text.toList, none⟩) :
      Keeps name text (fileLoader disk base?)
  | shelf {shelf : Shelf} (kept : shelf.get? name = some text) :
      Keeps name text shelf.loader

variable {loader first second : Loader} {name : String}

theorem Keeps.opened {text : String} (h : Keeps name text loader) :
    loader name = .ok ((Text.lines text).map .ok) := by
  cases h with
  | file kept => exact fileLoader_eq_ok_iff.2 ⟨_, kept, lines_of_encode text⟩
  | shelf kept => exact Shelf.loader_of_some kept

theorem Keeps.opened_of_lists {text : String} {ls : List String}
    (h : Keeps name text loader) (hlists : Text.Lists ls text)
    (hplain : ∀ line ∈ ls, Text.IsPlainLine line) :
    loader name = .ok (ls.map .ok) := by
  rw [h.opened, hlists.lines_eq hplain]

/-! ## Lines that are loaded -/

theorem oneLine_of_shelf {shelf : Shelf} {items : List LineItem} {line : String}
    (hopened : shelf.loader name = .ok items) (hline : .ok line ∈ items) :
    Text.OneLine line := by
  cases htext : shelf.get? name with
  | none =>
      rw [Shelf.loader_of_none htext] at hopened
      cases hopened
  | some text =>
      rw [Shelf.loader_of_some htext] at hopened
      cases hopened
      obtain ⟨line', hline', heq⟩ := List.mem_map.1 hline
      cases heq
      exact Text.oneLine_of_mem_lines hline'

/-! ## Loading items behind others -/

section

variable {items items' : List LineItem} {error : SourceError}

theorem mem_sum_combine {set set' : IntSet} {n : Int} :
    n ∈ SetFunction.sum.combine set set' ↔ n ∈ set ∨ n ∈ set' := by
  simp [SetFunction.keeps]

/-- The items of two sources, one behind the other, are the union of their
sets. -/
theorem load_append_of_ok (hopened : loader name = .ok (items ++ items'))
    (hfirst : first name = .ok items) (hsecond : second name = .ok items')
    {set set' : IntSet} (hset : load first name = .ok set)
    (hset' : load second name = .ok set') :
    load loader name = .ok (SetFunction.sum.combine set set') := by
  obtain ⟨hgood, hmem⟩ := (load_eq_ok_iff hfirst).1 hset
  obtain ⟨hgood', hmem'⟩ := (load_eq_ok_iff hsecond).1 hset'
  refine (load_eq_ok_iff hopened).2
    ⟨List.forall_mem_append.2 ⟨hgood, hgood'⟩, fun n => ?_⟩
  rw [mem_sum_combine, hmem, hmem']
  simp only [List.mem_append, or_and_right, exists_or]

theorem load_append_of_error (hopened : loader name = .ok (items ++ items'))
    (hfirst : first name = .ok items) (h : load first name = .error error) :
    load loader name = .error error :=
  load_append_of_refused hopened ((load_eq_error_iff_of_opened hfirst).1 h)

end

/-- Behind lines that hold integers, a line that does not is reported with a
number that counts them too. -/
theorem load_append_of_later_error {ls ls' : List String} {set : IntSet}
    {error : SourceError} (hopened : loader name = .ok ((ls ++ ls').map .ok))
    (hfirst : first name = .ok (ls.map .ok))
    (hsecond : second name = .ok (ls'.map .ok))
    (hset : load first name = .ok set) (h : load second name = .error error) :
    ∃ line number, error = .notAnInteger name line number ∧
      load loader name =
        .error (.notAnInteger name line (number + ls.length)) := by
  obtain ⟨hgood, -⟩ := (load_eq_ok_iff hfirst).1 hset
  obtain ⟨before, item, after, hitems, hgood', hbad, rfl⟩ :=
    (load_eq_refusal_iff hsecond).1 h
  have hmem : item ∈ ls'.map Except.ok := by simp [hitems]
  obtain ⟨line, -, rfl⟩ := List.mem_map.1 hmem
  refine ⟨line, before.length + 1, rfl, (load_eq_refusal_iff hopened).2
    ⟨ls.map .ok ++ before, .ok line, after, ?_,
      List.forall_mem_append.2 ⟨hgood, hgood'⟩, hbad, ?_⟩⟩
  · rw [List.map_append, hitems, List.append_assoc]
  · rw [refusal, List.length_append, List.length_map]
    congr 1
    omega

/-! ## Texts one behind the other -/

theorem Keeps.opened_append {before after : String}
    (hwhole : before = "" ∨ ∃ text, before = text ++ "\n")
    (h : Keeps name (before ++ after) loader) :
    loader name = .ok ((Text.lines before ++ Text.lines after).map .ok) := by
  rw [h.opened, Text.lines_append]
  rcases hwhole with rfl | ⟨text, rfl⟩
  · exact .inl rfl
  · exact .inr ⟨text.toList, String.toList_append⟩

/-- Plain lines are read back from the text in which each of them has an ending,
one or the other, and the last may have none unless it is empty; no line that is
read holds a feed. Behind a text that is empty or ends with a feed, another text
adds its lines to those of the first. Both loaded together are the union of
their sets if both have one, the error of the first is the error of both, and
the error of the second is so too if the first has none, with the lines of the
first counted in. -/
theorem loaders_read_back_lines :
    (∀ entries : List (String × String),
      (∀ entry ∈ entries, Text.IsPlainLine entry.1) →
      (∀ entry ∈ entries, entry.2 = "\n" ∨ entry.2 = "\r\n") →
      ∀ (loader : Loader) (name : String),
        (Keeps name (Text.endLines entries) loader →
          loader name = .ok ((entries.map Prod.fst).map .ok)) ∧
        ∀ last, Text.IsPlainLine last → last ≠ "" →
          Keeps name (Text.endLines entries ++ last) loader →
          loader name = .ok ((entries.map Prod.fst ++ [last]).map .ok)) ∧
    (∀ (name line : String) (items : List LineItem), .ok line ∈ items →
      (∀ shelf : Shelf, shelf.loader name = .ok items → Text.OneLine line) ∧
      ∀ disk base?, fileLoader disk base? name = .ok items →
        Text.OneLine line) ∧
    ∀ before after : String, (before = "" ∨ ∃ text, before = text ++ "\n") →
      ∀ (name : String) (first second loader : Loader),
        Keeps name before first → Keeps name after second →
        Keeps name (before ++ after) loader →
        ∃ ls ls' : List String, first name = .ok (ls.map .ok) ∧
          second name = .ok (ls'.map .ok) ∧
          loader name = .ok ((ls ++ ls').map .ok) ∧
          (∀ set set', load first name = .ok set →
            load second name = .ok set' →
            ∃ union, load loader name = .ok union ∧
              ∀ n, n ∈ union ↔ n ∈ set ∨ n ∈ set') ∧
          (∀ error, load first name = .error error →
            load loader name = .error error) ∧
          ∀ set error, load first name = .ok set →
            load second name = .error error →
            ∃ line number, error = .notAnInteger name line number ∧
              load loader name =
                .error (.notAnInteger name line (number + ls.length)) := by
  refine ⟨fun entries hplain hendings loader name => ⟨fun h => ?_, ?_⟩,
    fun name line items hline => ⟨?_, ?_⟩, ?_⟩
  · exact h.opened_of_lists (Text.lists_endLines hendings)
      (List.forall_mem_map.2 hplain)
  · intro last hlast hne h
    exact h.opened_of_lists (.endLines_append hendings (.last hne))
      (List.forall_mem_append.2
        ⟨List.forall_mem_map.2 hplain, List.forall_mem_singleton.2 hlast⟩)
  · exact fun shelf hopened => oneLine_of_shelf hopened hline
  · exact fun disk base? hopened => oneLine_of_fileLoader hopened hline
  · intro before after hwhole name first second loader hfirst hsecond h
    have hfirst := hfirst.opened
    have hsecond := hsecond.opened
    have hopened := h.opened_append hwhole
    have hitems := hopened
    rw [List.map_append] at hitems
    refine ⟨_, _, hfirst, hsecond, hopened, fun set set' hset hset' => ?_,
      fun error => load_append_of_error hitems hfirst,
      fun set error => load_append_of_later_error hopened hfirst hsecond⟩
    exact ⟨_, load_append_of_ok hitems hfirst hsecond hset hset',
      fun n => mem_sum_combine⟩

/-- A text with both endings, an empty line, a return inside of a line and no
ending at its end. A text with an empty line at its end, in a file and behind
another text in memory. -/
theorem loaders_read_back_mixed_endings :
    let shelf (text : String) : Shelf := .ofList [("a", text)]
    let disk : Disk := fun _ => .ok ⟨encode "8\r\n\n".toList, none⟩
    (shelf "7\r\n\n8\r9\nx").loader "a" =
        .ok [.ok "7", .ok "", .ok "8\r9", .ok "x"] ∧
      Text.OneLine "8\r9" ∧
      load (fileLoader disk none) "a" = .error (.notAnInteger "a" "" 2) ∧
      load (shelf "5\r\n7\n8\r\n\n").loader "a" =
        .error (.notAnInteger "a" "" 4) := by
  intro shelf disk
  obtain ⟨hread, hlines, happend⟩ := loaders_read_back_lines
  have hopened : (shelf "7\r\n\n8\r9\nx").loader "a" =
      .ok [.ok "7", .ok "", .ok "8\r9", .ok "x"] := by
    let entries := [("7", "\r\n"), ("", "\n"), ("8\r9", "\n")]
    have hplain : ∀ entry ∈ entries, Text.IsPlainLine entry.1 := by decide
    have hendings : ∀ entry ∈ entries, entry.2 = "\n" ∨ entry.2 = "\r\n" := by
      decide
    exact (hread entries hplain hendings _ "a").2 "x" (by decide) (by decide)
      (.shelf rfl)
  refine ⟨hopened, (hlines "a" "8\r9" _ (by simp)).1 _ hopened, ?_⟩
  have hfirst : load (shelf "5\r\n7\n").loader "a" = .ok (.ofList [5, 7]) :=
    load_of_readItems rfl (by decide +kernel :
      readItems "a" [.ok "5", .ok "7"] = .ok [5, 7])
  have hsecond : load (fileLoader disk none) "a" =
      .error (.notAnInteger "a" "" 2) :=
    (load_eq_error_iff_of_opened rfl).2 (by decide +kernel)
  have hkept : Keeps "a" "8\r\n\n" (fileLoader disk none) := .file rfl
  obtain ⟨ls, ls', hls, -, -, -, -, hlater⟩ := happend "5\r\n7\n" "8\r\n\n"
    (.inr ⟨"5\r\n7", rfl⟩) "a" (shelf "5\r\n7\n").loader
    (fileLoader disk none) (shelf "5\r\n7\n8\r\n\n").loader
    (.shelf rfl) hkept (.shelf rfl)
  obtain ⟨line, number, herror, hload⟩ := hlater _ _ hfirst hsecond
  cases herror
  have hlength : (ls.map Except.ok : List LineItem).length = 2 :=
    congrArg List.length (Except.ok.inj (hls.symm.trans rfl))
  rw [List.length_map] at hlength
  rw [hlength] at hload
  exact ⟨hsecond, hload⟩

end SetCalculator.Source
