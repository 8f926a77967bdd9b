import SetCalculator.CommandLine
import SetCalculator.Proofs.CanonicalText
import SetCalculator.Proofs.ProgramMeaning
import SetCalculator.Proofs.Text.Numerals
import SetCalculator.Source.Memory

/-!
# Printed values can be sources

What a program prints is a text that lists its values, and a shelf with that
text on it gives the values back: each line is what was written for one of
them, so it is read as that value, and putting the values of a set into a set
changes nothing. All that has to be known of the values is that they fit in 64
bits, and they do because each of them once stood on the line of a source.

A program that calls a function on that one source comes to the same values,
because a fold over one operand is the operand.
-/

namespace SetCalculator

theorem IntSet.ofList_toList (set : IntSet) : IntSet.ofList set.toList = set :=
  IntSet.ext fun _ => IntSet.mem_ofList

/-! ## Where values come from -/

theorem Source.Holds.fits {loader : Source.Loader} {name : String} {n : Int}
    (h : Source.Holds loader name n) :
    Text.Decimal.least ≤ n ∧ n ≤ Text.Decimal.greatest := by
  obtain ⟨_, _, -, -, hline⟩ := h
  exact (Text.Decimal.read?_eq_some_iff.1 hline).2

namespace Program

variable {registry : Registry} {loader : Source.Loader}

/-- The values of a program are the elements of a set, and fit in 64 bits. -/
theorem exists_set_of_run {source : String} {values : List Int}
    (h : (run registry loader source).outcome = .ok values) :
    ∃ set : IntSet, values = set.toList ∧
      ∀ n ∈ set, Text.Decimal.least ≤ n ∧ n ≤ Text.Decimal.greatest := by
  cases hcompile : compile registry source with
  | error problem =>
      rw [run_of_not_compile hcompile] at h
      cases h
  | ok e =>
      rw [run_of_compile hcompile, Execution.mapBoth] at h
      rcases e.evaluate_outcome loader with
        ⟨_, _, _, -, houtcome⟩ | ⟨-, set, houtcome, hset⟩
      · rw [houtcome] at h
        cases h
      · rw [houtcome] at h
        cases h
        refine ⟨set, rfl, fun n hn => ?_⟩
        obtain ⟨_, -, hholds⟩ :=
          Expr.exists_source_of_denotes ((hset n).1 hn)
        exact hholds.fits

end Program

/-! ## A text that lists a set -/

namespace Source

theorem readItems_written (name : String) {ns : List Int}
    (hfits : ∀ n ∈ ns, Text.Decimal.least ≤ n ∧ n ≤ Text.Decimal.greatest) :
    readItems name ((ns.map Text.Decimal.write).map .ok) = .ok ns := by
  rw [readItems_eq_ok_iff, List.map_map, List.forall₂_map_left_iff,
    List.forall₂_same]
  exact fun n hn => ⟨_, rfl, integer?_write (hfits n hn)⟩

/-- A source that lists the elements of a set has that set. -/
theorem load_listed (shelf : Shelf) (name : String) {text : String}
    {set : IntSet}
    (hfits : ∀ n ∈ set, Text.Decimal.least ≤ n ∧ n ≤ Text.Decimal.greatest)
    (hlists : Text.Lists (set.toList.map Text.Decimal.write) text) :
    load (shelf.insert name text).loader name = .ok set := by
  have hlines : Text.lines text = set.toList.map Text.Decimal.write := by
    refine hlists.lines_eq fun line hline => ?_
    obtain ⟨n, -, rfl⟩ := List.mem_map.1 hline
    exact (Text.Decimal.isWord_write n).isPlainLine
  have hopened : (shelf.insert name text).loader name = _ :=
    Shelf.loader_of_some (shelf.get?_insert name text)
  rw [hlines] at hopened
  rw [load_of_readItems hopened (readItems_written name hfits),
    set.ofList_toList]

end Source

/-! ## Programs on one source -/

namespace Expr

variable {registry : Registry} {name : String}

theorem text_load (name : String) : text (.load name) = name := by
  rw [text, words_load, String.intercalate_singleton]

theorem text_call_load (f : SetFunction) (name : String) :
    text (.call f [.load name]) = "[ " ++ f.name ++ " " ++ name ++ " ]" := by
  rw [text, words_call, ← String.toList_inj]
  simp [String.intercalate_cons_cons]

theorem wellFormed_load (hname : IsFileName name) :
    WellFormed registry (.load name) where
  named name' hmem := by
    rw [sources_load, List.mem_singleton] at hmem
    rw [hmem]
    exact hname
  applied f args hmem := by simp at hmem
  known f args hmem := by simp at hmem

theorem wellFormed_call_load {f : SetFunction} (hf : registry.holds f = true)
    (hname : IsFileName name) :
    WellFormed registry (.call f [.load name]) where
  named name' hmem := by
    have hmem : name' = name := by simpa using hmem
    rw [hmem]
    exact hname
  applied g args hmem := by
    simp at hmem
    simp [hmem.2]
  known g args hmem := by
    simp at hmem
    rw [hmem.1]
    exact hf

/-- A function of one operand is that operand. -/
theorem value_call_load (sets : String → IntSet) (f : SetFunction)
    (name : String) : value sets (.call f [.load name]) = sets name := by
  rw [value_call, List.map_singleton, value_load, SetFunction.apply,
    List.foldl_nil]

end Expr

namespace Program

variable {registry : Registry} {loader : Source.Loader}

theorem compile_text {e : Expr} (h : e.WellFormed registry) :
    compile registry e.text = .ok e :=
  compile_eq_ok_iff.2 ⟨e.tokens, h.ofText_text, h.ofTokens_tokens⟩

/-- A program on one source, whose value is that of the source. -/
theorem run_text_of_one_source {e : Expr} {name : String} {set : IntSet}
    (hwf : e.WellFormed registry) (hsources : e.sources = [name])
    (hvalue : e.value (Source.loaded loader) = Source.loaded loader name)
    (hload : Source.load loader name = .ok set) :
    run registry loader e.text = ⟨.ok set.toList, [name]⟩ := by
  have hloads : ∀ name' ∈ e.sources, Source.Loads loader name' := by
    intro name' hname'
    rw [hsources, List.mem_singleton] at hname'
    rw [hname']
    exact Source.loads_of_load hload
  rw [run_of_compile (compile_text hwf), Expr.evaluate_of_loads hloads, hvalue,
    Source.loaded_eq hload, hsources]
  rfl

theorem run_name (registry : Registry) {name : String} {set : IntSet}
    (hname : IsFileName name) (hload : Source.load loader name = .ok set) :
    run registry loader name = ⟨.ok set.toList, [name]⟩ := by
  have hrun : run registry loader (Expr.load name).text = _ :=
    run_text_of_one_source (Expr.wellFormed_load hname)
      (Expr.sources_load name) (Expr.value_load _ name) hload
  rw [Expr.text_load] at hrun
  exact hrun

theorem run_call_on_name {f : SetFunction} {name : String} {set : IntSet}
    (hf : registry.holds f = true) (hname : IsFileName name)
    (hload : Source.load loader name = .ok set) :
    run registry loader ("[ " ++ f.name ++ " " ++ name ++ " ]") =
      ⟨.ok set.toList, [name]⟩ := by
  have hrun : run registry loader (Expr.call f [.load name]).text = _ :=
    run_text_of_one_source (Expr.wellFormed_call_load hf hname)
      (by simp) (Expr.value_call_load _ f name) hload
  rw [Expr.text_call_load] at hrun
  exact hrun

/-- What a program prints lists its values, and so do these lines with returns
before the feeds, and either without the last ending. Under any name of a file,
whatever else is on the shelf, a text that lists them gives the values back: to
the program that is just the name, and to a call of any function on it. -/
theorem printed_values_run_again (registry registry' : Registry)
    (loader : Source.Loader) (source : String) (values : List Int)
    (hrun : (run registry loader source).outcome = .ok values)
    (shelf : Source.Shelf) (name : String) (hname : IsFileName name) :
    (∀ ending, ending = "\n" ∨ ending = "\r\n" →
      Text.Lists (values.map Text.Decimal.write) (String.join
        ((values.map Text.Decimal.write).map fun line => line ++ ending)) ∧
      Text.Lists (values.map Text.Decimal.write)
        (ending.intercalate (values.map Text.Decimal.write))) ∧
    Text.Lists (values.map Text.Decimal.write)
      (CommandLine.unlines (values.map Text.Decimal.write)) ∧
    ∀ text, Text.Lists (values.map Text.Decimal.write) text →
      run registry' (shelf.insert name text).loader name =
        ⟨.ok values, [name]⟩ ∧
      ∀ f, registry'.holds f = true →
        run registry' (shelf.insert name text).loader
          ("[ " ++ f.name ++ " " ++ name ++ " ]") = ⟨.ok values, [name]⟩ := by
  obtain ⟨set, rfl, hfits⟩ := exists_set_of_run hrun
  have hne : ∀ line ∈ set.toList.map Text.Decimal.write, line ≠ "" := by
    intro line hline
    obtain ⟨n, -, rfl⟩ := List.mem_map.1 hline
    exact (Text.Decimal.isWord_write n).1
  refine ⟨fun ending h => ⟨Text.lists_join h _, Text.lists_intercalate h hne⟩,
    Text.lists_join (.inl rfl) _, fun text hlists => ?_⟩
  have hload := Source.load_listed shelf name hfits hlists
  exact ⟨run_name registry' hname hload,
    fun f hf => run_call_on_name hf hname hload⟩

/-- A source that holds the limits of 64 bits in odd forms and in no order, with
its values printed and read again from lines with returns in between. -/
theorem printed_limits_run_again :
    let shelf := Source.Shelf.ofList
      [("a", "9223372036854775807\r\n7\n -9223372036854775808\n+007")]
    let values : List Int := [-9223372036854775808, 7, 9223372036854775807]
    let text := "-9223372036854775808\r\n7\r\n9223372036854775807"
    (run .builtin shelf.loader "[ SUM a ]").outcome = .ok values ∧
      IsFileName "x" ∧
      run .builtin (shelf.insert "x" text).loader "x" = ⟨.ok values, ["x"]⟩ ∧
      run .builtin (shelf.insert "x" text).loader "[ DIF x ]" =
        ⟨.ok values, ["x"]⟩ := by
  intro shelf values text
  have hname : ∀ name ∈ ["a", "x"], IsFileName name := by
    intro name h
    rw [← TokenKind.ofWord?_eq_fileName_iff]
    revert name
    decide +kernel
  have hascending : values.Pairwise (· < ·) := by decide +kernel
  have hload : Source.load shelf.loader "a" = .ok ⟨values, hascending⟩ := by
    have hread : Source.readItems "a" ((Text.lines
        "9223372036854775807\r\n7\n -9223372036854775808\n+007").map .ok) =
        .ok [9223372036854775807, 7, -9223372036854775808, 7] := by
      decide +kernel
    have hset :
        IntSet.ofList [9223372036854775807, 7, -9223372036854775808, 7] =
          ⟨values, hascending⟩ := by
      refine IntSet.ext fun n => ?_
      rw [IntSet.mem_ofList, IntSet.mem_def]
      simp only [values, List.mem_cons, List.not_mem_nil, or_false]
      omega
    rw [Source.load_of_readItems (Source.Shelf.loader_of_some rfl) hread, hset]
  have hsource : "[ " ++ SetFunction.sum.name ++ " " ++ "a" ++ " ]" =
      "[ SUM a ]" := rfl
  have hrun : run .builtin shelf.loader
      ("[ " ++ SetFunction.sum.name ++ " " ++ "a" ++ " ]") = _ :=
    run_call_on_name rfl (hname "a" (by decide)) hload
  rw [hsource] at hrun
  obtain ⟨hlists, -, hagain⟩ := printed_values_run_again .builtin .builtin
    shelf.loader "[ SUM a ]" values (congrArg Execution.outcome hrun) shelf "x"
    (hname "x" (by decide))
  obtain ⟨hagain, hcall⟩ := hagain text (hlists "\r\n" (.inr rfl)).2
  exact ⟨congrArg Execution.outcome hrun, hname "x" (by decide), hagain,
    hcall .dif rfl⟩

end Program

end SetCalculator
