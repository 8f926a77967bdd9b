import SetCalculator.Proofs.Evaluation.TwoLoaders
import SetCalculator.Proofs.Source.NumeralLines
import SetCalculator.Source.Memory

/-!
# Evaluation treats every integer on its own

Whether an integer is in the value of an expression is decided by which sources
have it, and by nothing else about it: another integer that other sources tell
alike is in their value exactly when this one is in the first. What is compared
is one integer with one, across two loaders, so keeping some integers only can
be done in the sources before evaluation or in the value after it.

In the sources it is done to lines. A line whose integer is not wanted is left
out, and one that holds no integer stays, so a source loads without the lines if
it loads with them.
-/

namespace SetCalculator

/-- The elements of a set for which a test holds. -/
def IntSet.filter (keep : Int → Bool) (set : IntSet) : IntSet :=
  ⟨set.toList.filter keep, set.ascending.filter keep⟩

theorem IntSet.mem_filter {keep : Int → Bool} {set : IntSet} {n : Int} :
    n ∈ set.filter keep ↔ n ∈ set ∧ keep n = true :=
  List.mem_filter

namespace Source

/-! ## Lines left out of sources -/

/-- Whether an item stays when some integers are kept only. What holds no
integer stays. -/
def staysWith (keep : Int → Bool) : LineItem → Bool
  | .ok line => (integer? line).all keep
  | .error _ => true

/-- The loader without the lines whose integers are not kept. -/
def keeping (keep : Int → Bool) (loader : Loader) : Loader := fun name =>
  (loader name).map fun items => items.filter (staysWith keep)

variable {keep : Int → Bool} {loader : Loader} {name : String} {set : IntSet}

theorem keeping_of_opened {items : List LineItem}
    (h : loader name = .ok items) :
    keeping keep loader name = .ok (items.filter (staysWith keep)) := by
  rw [keeping, h]
  rfl

theorem ItemHolds.staysWith_iff {item : LineItem} {n : Int}
    (h : ItemHolds item n) : staysWith keep item = true ↔ keep n = true := by
  obtain ⟨line, rfl, hline⟩ := itemHolds_iff.1 h
  rw [staysWith, hline, Option.all_some]

/-- Leaving out the lines of some integers takes these out of the set. -/
theorem load_keeping (h : load loader name = .ok set) :
    load (keeping keep loader) name = .ok (set.filter keep) := by
  obtain ⟨items, hopened⟩ := exists_opened_of_load h
  refine (load_eq_ok_iff (keeping_of_opened hopened)).2
    ⟨fun item hitem => ?_, fun n => ?_⟩
  · exact holdsInteger_of_load hopened h item (List.mem_filter.1 hitem).1
  · rw [IntSet.mem_filter, mem_load_iff_itemHolds hopened h]
    refine ⟨?_, ?_⟩
    · rintro ⟨⟨item, hitem, hholds⟩, hkeep⟩
      exact ⟨item, List.mem_filter.2 ⟨hitem, hholds.staysWith_iff.2 hkeep⟩,
        hholds⟩
    · rintro ⟨item, hitem, hholds⟩
      obtain ⟨hitem, hstays⟩ := List.mem_filter.1 hitem
      exact ⟨⟨item, hitem, hholds⟩, hholds.staysWith_iff.1 hstays⟩

/-- Sources that differ in lines of one integer only have the same other
integers. -/
theorem mem_iff_of_keeping_eq {loader' : Loader} {set' : IntSet} {v n : Int}
    (hload : load loader name = .ok set) (hload' : load loader' name = .ok set')
    (h : keeping (· != v) loader name = keeping (· != v) loader' name)
    (hn : n ≠ v) : n ∈ set ↔ n ∈ set' := by
  have hsame : load (keeping (· != v) loader) name =
      load (keeping (· != v) loader') name := load_congr h
  rw [load_keeping hload, load_keeping hload', Except.ok.injEq] at hsame
  have hmem : n ∈ set.filter (· != v) ↔ n ∈ set'.filter (· != v) := by
    rw [hsame]
  simpa [IntSet.mem_filter, hn] using hmem

end Source

namespace Expr

variable {e : Expr} {loader loader' : Source.Loader}
  {sets sets' : String → IntSet}

/-- Keeping some integers in the sets of the sources keeps them in the value. -/
theorem value_filter (keep : Int → Bool)
    (h : ∀ name ∈ e.sources, sets' name = (sets name).filter keep) :
    e.value sets' = (e.value sets).filter keep := by
  refine IntSet.ext fun n => ?_
  rw [IntSet.mem_filter]
  cases hkeep : keep n with
  | true =>
      rw [and_iff_left rfl]
      refine mem_value_congr fun name hname => ?_
      rw [h name hname, IntSet.mem_filter, and_iff_left hkeep]
  | false =>
      refine iff_of_false (fun hmem => ?_) fun hmem => nomatch hmem.2
      obtain ⟨name, hname, hmem⟩ := exists_source_of_mem_value hmem
      rw [h name hname, IntSet.mem_filter, hkeep] at hmem
      exact nomatch hmem.2

/-- With all sources loading under two loaders, an integer is in the one value
exactly when another, which the sources tell alike, is in the other; what is in
no source is in no value; lines of one integer decide on nothing but this
integer; and keeping some integers in the sources keeps them in the value. -/
theorem evaluate_is_integerwise
    (hloads : ∀ name ∈ e.sources, Source.load loader name = .ok (sets name))
    (hloads' : ∀ name ∈ e.sources,
      Source.load loader' name = .ok (sets' name)) :
    ∃ set set', e.evaluate loader = ⟨.ok set, e.sources⟩ ∧
      e.evaluate loader' = ⟨.ok set', e.sources⟩ ∧
      (∀ n m, (∀ name ∈ e.sources, n ∈ sets name ↔ m ∈ sets' name) →
        (n ∈ set ↔ m ∈ set')) ∧
      (∀ n, (∀ name ∈ e.sources, ¬ n ∈ sets name) → ¬ n ∈ set) ∧
      (∀ v, (∀ name ∈ e.sources, Source.keeping (· != v) loader name =
          Source.keeping (· != v) loader' name) →
        ∀ n, n ≠ v → (n ∈ set ↔ n ∈ set')) ∧
      (∀ keep, (∀ name ∈ e.sources, sets' name = (sets name).filter keep) →
        set' = set.filter keep) ∧
      ∀ keep, e.evaluate (Source.keeping keep loader) =
        ⟨.ok (set.filter keep), e.sources⟩ := by
  refine ⟨e.value sets, e.value sets', evaluate_of_sets hloads,
    evaluate_of_sets hloads', fun n m h => mem_value_congr h,
    fun n h hmem => ?_, fun v h n hn => ?_,
    fun keep h => value_filter keep h, fun keep => ?_⟩
  · obtain ⟨name, hname, hmem⟩ := exists_source_of_mem_value hmem
    exact h name hname hmem
  · exact mem_value_congr fun name hname => Source.mem_iff_of_keeping_eq
      (hloads name hname) (hloads' name hname) (h name hname) hn
  · rw [← value_filter keep fun _ _ => rfl]
    exact evaluate_of_sets fun name hname =>
      Source.load_keeping (hloads name hname)

/-- Sevens that come and go, in odd forms and among other lines. The seven of
the first run fares as the one of the second, and the other integers are the
same in both, and the same as with the sevens left out. -/
theorem evaluate_without_sevens :
    let e : Expr := .call .dif [.load "a", .call .int [.load "b", .load "a"]]
    let loader := (Source.Shelf.ofList [("a", "1\n7\n2"), ("b", "2")]).loader
    let loader' :=
      (Source.Shelf.ofList [("a", "1\n2"), ("b", " 007\n2\n+7")]).loader
    ∃ set set', e.evaluate loader = ⟨.ok set, ["a", "b", "a"]⟩ ∧
      e.evaluate loader' = ⟨.ok set', ["a", "b", "a"]⟩ ∧
      (7 ∈ set ↔ 1 ∈ set') ∧ ¬ 3 ∈ set ∧
      (∀ n, n ≠ 7 → (n ∈ set ↔ n ∈ set')) ∧
      e.evaluate (Source.keeping (· != 7) loader) =
        ⟨.ok (set.filter (· != 7)), ["a", "b", "a"]⟩ := by
  intro e loader loader'
  have hsources : e.sources = ["a", "b", "a"] := by simp [e]
  have hloads : ∀ name ∈ e.sources, Source.load loader name =
      .ok (IntSet.ofList (if name = "a" then [1, 7, 2] else [2])) := by
    rw [hsources]
    simp only [List.forall_mem_cons]
    exact ⟨rfl, rfl, rfl, List.forall_mem_nil _⟩
  have hloads' : ∀ name ∈ e.sources, Source.load loader' name =
      .ok (IntSet.ofList (if name = "a" then [1, 2] else [7, 2, 7])) := by
    rw [hsources]
    simp only [List.forall_mem_cons]
    exact ⟨rfl, rfl, rfl, List.forall_mem_nil _⟩
  obtain ⟨set, set', hrun, hrun', halike, hnowhere, hsevens, -, hkeeping⟩ :=
    evaluate_is_integerwise hloads hloads'
  rw [hsources] at hrun hrun' halike hnowhere hsevens hkeeping
  simp only [IntSet.mem_ofList] at halike hnowhere
  exact ⟨set, set', hrun, hrun', halike 7 1 (by decide), hnowhere 3 (by decide),
    hsevens 7 (by decide +kernel), hkeeping (· != 7)⟩

end Expr

end SetCalculator
