import SetCalculator.Expr.Meaning
import SetCalculator.Expr.Value
import SetCalculator.Proofs.Numbered
import SetCalculator.Proofs.SetAlgebra
import SetCalculator.Source.Integers

/-!
# Values are what expressions mean

The value of an expression comes out of folds over ordered lists; its meaning
is told integer by integer. `mem_value_iff` says that they agree, whatever the
sources hold. What a fold keeps is known by then, so the induction over the
expression only has to carry that from arguments to calls.
-/

namespace SetCalculator

/-! ## Expressions -/

namespace Expr

/-- The value of an expression holds what the expression means, where the
sets of its own sources hold what these sources do. -/
theorem mem_value_iff {sets : String → IntSet} {holds : String → Prop} {n : Int}
    (e : Expr) (h : ∀ name ∈ e.sources, n ∈ sets name ↔ holds name) :
    n ∈ e.value sets ↔ e.Denotes holds := by
  induction e with
  | load source =>
      rw [value_load, denotes_load]
      exact h source (by simp)
  | call f args ih =>
      have hargs : ∀ arg ∈ args, (n ∈ arg.value sets ↔ arg.Denotes holds) :=
        fun arg harg => ih arg harg fun name hname =>
          h name (mem_sources_of_mem_args harg hname)
      rw [value_call]
      -- A sum looks at its arguments all alike; the other two single out the
      -- first, and without one they mean nothing.
      cases f with
      | sum =>
          rw [SetFunction.mem_apply_sum, denotes_sum]
          simp only [List.mem_map, exists_exists_and_eq_and]
          exact exists_congr fun arg => and_congr_right fun h => hargs arg h
      | int =>
          cases args with
          | nil => simp [SetFunction.apply, Denotes]
          | cons first rest =>
              obtain ⟨hfirst, hrest⟩ := List.forall_mem_cons.1 hargs
              rw [List.map_cons, SetFunction.apply, SetFunction.mem_foldl_int,
                denotes_int_cons, List.forall_mem_map, hfirst]
              exact and_congr_right fun _ => forall₂_congr hrest
      | dif =>
          cases args with
          | nil => simp [SetFunction.apply, Denotes]
          | cons first rest =>
              obtain ⟨hfirst, hrest⟩ := List.forall_mem_cons.1 hargs
              rw [List.map_cons, SetFunction.mem_apply_dif_cons,
                denotes_dif_cons, hfirst]
              simp only [List.mem_map, exists_exists_and_eq_and]
              exact and_congr_right fun _ => not_congr <|
                exists_congr fun arg => and_congr_right fun h => hrest arg h

/-- An integer is in the value of an expression exactly when another is in its
value on other sets, if each source tells the two alike. -/
theorem mem_value_congr {sets sets' : String → IntSet} {n m : Int} {e : Expr}
    (h : ∀ name ∈ e.sources, n ∈ sets name ↔ m ∈ sets' name) :
    n ∈ e.value sets ↔ m ∈ e.value sets' :=
  (mem_value_iff e h).trans (mem_value_iff e fun _ _ => Iff.rfl).symm

/-- What an expression means is taken from its sources. -/
theorem exists_source_of_denotes {holds : String → Prop} {e : Expr}
    (h : e.Denotes holds) : ∃ name ∈ e.sources, holds name := by
  induction e with
  | load source =>
      rw [denotes_load] at h
      exact ⟨source, by simp, h⟩
  | call f args ih =>
      have hsome : ∃ arg ∈ args, arg.Denotes holds := by
        cases f with
        | sum => exact denotes_sum.1 h
        | int =>
            cases args with
            | nil => simp [Denotes] at h
            | cons first rest =>
                exact ⟨first, List.mem_cons_self, (denotes_int_cons.1 h).1⟩
        | dif =>
            cases args with
            | nil => simp [Denotes] at h
            | cons first rest =>
                exact ⟨first, List.mem_cons_self, (denotes_dif_cons.1 h).1⟩
      obtain ⟨arg, harg, hdenotes⟩ := hsome
      obtain ⟨name, hname, hholds⟩ := ih arg harg hdenotes
      exact ⟨name, mem_sources_of_mem_args harg hname, hholds⟩

theorem exists_source_of_mem_value {sets : String → IntSet} {n : Int}
    {e : Expr} (h : n ∈ e.value sets) : ∃ name ∈ e.sources, n ∈ sets name :=
  exists_source_of_denotes ((mem_value_iff e fun _ _ => Iff.rfl).1 h)

end Expr

/-! ## Sources -/

namespace Source

/-- An integer stands on a line of a source. -/
def Holds (loader : Loader) (name : String) (n : Int) : Prop :=
  ∃ items line, loader name = .ok items ∧ .ok line ∈ items ∧
    integer? line = some n

theorem readItem_eq_ok_iff {source : String} {number : Nat} {item : LineItem}
    {n : Int} :
    readItem source number item = .ok n ↔
      ∃ line, item = .ok line ∧ integer? line = some n := by
  cases item with
  | error fault => simp [readItem]
  | ok line =>
      rw [readItem]
      cases hline : integer? line <;> simp [hline]

/-- The items of a source are its integers, one for each line. -/
theorem readItems_eq_ok_iff {source : String} {items : List LineItem}
    {ns : List Int} :
    readItems source items = .ok ns ↔
      List.Forall₂ (fun item n => ∃ line, item = .ok line ∧
        integer? line = some n) items ns :=
  mapM_zipIdx_eq_ok_iff fun _ _ _ => readItem_eq_ok_iff

theorem mem_of_readItems {source : String} {items : List LineItem}
    {ns : List Int} {n : Int} (h : readItems source items = .ok ns) :
    n ∈ ns ↔ ∃ line, .ok line ∈ items ∧ integer? line = some n := by
  have honce : ∀ (item : LineItem) (n n' : Int),
      (∃ line, item = .ok line ∧ integer? line = some n) →
      (∃ line, item = .ok line ∧ integer? line = some n') → n = n' := by
    intro item n n' hn hn'
    obtain ⟨line, rfl, hline⟩ := hn
    obtain ⟨line', hsame, hline'⟩ := hn'
    cases hsame
    exact Option.some.inj (hline.symm.trans hline')
  rw [mem_iff_of_forall₂ honce (readItems_eq_ok_iff.1 h)]
  refine ⟨?_, ?_⟩
  · intro h
    obtain ⟨_, hmem, line, rfl, hline⟩ := h
    exact ⟨line, hmem, hline⟩
  · intro h
    obtain ⟨line, hmem, hline⟩ := h
    exact ⟨_, hmem, line, rfl, hline⟩

theorem load_of_opened {loader : Loader} {name : String}
    {items : List LineItem} (hopened : loader name = .ok items) :
    load loader name = (readItems name items).map IntSet.ofList := by
  rw [load, hopened]

theorem load_of_readItems {loader : Loader} {name : String}
    {items : List LineItem} {ns : List Int} (hopened : loader name = .ok items)
    (hread : readItems name items = .ok ns) :
    load loader name = .ok (IntSet.ofList ns) := by
  rw [load_of_opened hopened, hread]
  rfl

/-- A source that loads can be opened. -/
theorem exists_opened_of_load {loader : Loader} {name : String} {set : IntSet}
    (h : load loader name = .ok set) : ∃ items, loader name = .ok items := by
  rw [load] at h
  split at h
  · cases h
  · cases h
  · next items hopened => exact ⟨items, hopened⟩

/-- The set of a source holds the integers on its lines. -/
theorem mem_load_iff {loader : Loader} {name : String} {set : IntSet} {n : Int}
    (h : load loader name = .ok set) : n ∈ set ↔ Holds loader name n := by
  obtain ⟨items, hopened⟩ := exists_opened_of_load h
  rw [load_of_opened hopened] at h
  cases hread : readItems name items with
  | error error =>
      rw [hread] at h
      cases h
  | ok ns =>
      rw [hread] at h
      cases h
      rw [IntSet.mem_ofList, mem_of_readItems hread]
      simp [Holds, hopened]

end Source

end SetCalculator
