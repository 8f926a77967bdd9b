/-!
# Finite sets of integers

A set is the ascending list of its elements. The list holds no element twice, so
it is also the one way to write the set down: two sets with the same elements
are equal (`IntSet.ext`).

Every set operation of the calculator looks at one integer at a time and decides
by membership alone: the union keeps what is in either set, the intersection
what is in both, the difference what is in the first only. `IntSet.combine` is
that idea as one walk along two ascending lists, and `mem_combine` is its law.
-/

namespace SetCalculator

/-- A finite set of integers, as the ascending list of its elements. -/
structure IntSet where
  /-- The elements in ascending order. -/
  toList : List Int
  ascending : toList.Pairwise (· < ·)
  deriving DecidableEq

namespace IntSet

instance : Membership Int IntSet := ⟨fun s n => n ∈ s.toList⟩

theorem mem_def {n : Int} {s : IntSet} : n ∈ s ↔ n ∈ s.toList := Iff.rfl

instance (n : Int) (s : IntSet) : Decidable (n ∈ s) :=
  inferInstanceAs (Decidable (n ∈ s.toList))

/-- The set without elements. -/
def empty : IntSet := ⟨[], .nil⟩

instance : EmptyCollection IntSet := ⟨empty⟩

instance : Inhabited IntSet := ⟨empty⟩

@[simp] theorem not_mem_empty (n : Int) : ¬ n ∈ (∅ : IntSet) := List.not_mem_nil

@[simp] theorem toList_empty : (∅ : IntSet).toList = [] := rfl

private theorem eq_of_ascending : ∀ {xs ys : List Int}, xs.Pairwise (· < ·) →
    ys.Pairwise (· < ·) → (∀ n, n ∈ xs ↔ n ∈ ys) → xs = ys
  | [], [], _, _, _ => rfl
  | [], y :: _, _, _, h => absurd ((h y).2 List.mem_cons_self) List.not_mem_nil
  | x :: _, [], _, _, h => absurd ((h x).1 List.mem_cons_self) List.not_mem_nil
  | x :: xs, y :: ys, hx, hy, h => by
      obtain ⟨hx, hxs⟩ := List.pairwise_cons.1 hx
      obtain ⟨hy, hys⟩ := List.pairwise_cons.1 hy
      have hxy : x = y := by
        rcases List.mem_cons.1 ((h x).1 List.mem_cons_self) with e | m
        · exact e
        · rcases List.mem_cons.1 ((h y).2 List.mem_cons_self) with e | m'
          · exact e.symm
          · have := hx y m'
            have := hy x m
            omega
      subst hxy
      congr 1
      refine eq_of_ascending hxs hys fun n => ⟨fun m => ?_, fun m => ?_⟩
      · rcases List.mem_cons.1 ((h n).1 (List.mem_cons_of_mem _ m)) with e | m'
        · exact absurd (hx n m) (by omega)
        · exact m'
      · rcases List.mem_cons.1 ((h n).2 (List.mem_cons_of_mem _ m)) with e | m'
        · exact absurd (hy n m) (by omega)
        · exact m'

/-- Two sets with the same elements are equal. -/
theorem ext {s t : IntSet} (h : ∀ n, n ∈ s ↔ n ∈ t) : s = t := by
  cases s with
  | mk xs hx =>
      cases t with
      | mk ys hy =>
          have : xs = ys := eq_of_ascending hx hy h
          subst this
          rfl

/-! ## From a list in any order -/

/-- An element put before a sorted list, unless it is already there. -/
def consNew (n : Int) (sorted : List Int) : List Int :=
  if sorted.head? = some n then sorted else n :: sorted

theorem mem_consNew {m n : Int} {xs : List Int} :
    m ∈ consNew n xs ↔ m = n ∨ m ∈ xs := by
  unfold consNew
  split
  · next h =>
      have := List.mem_of_mem_head? (Option.mem_def.2 h)
      exact ⟨.inr, fun h => h.elim (fun e => e ▸ this) id⟩
  · exact List.mem_cons

private theorem mem_foldr_consNew {m : Int} (xs : List Int) :
    m ∈ xs.foldr consNew [] ↔ m ∈ xs := by
  induction xs with
  | nil => exact Iff.rfl
  | cons x xs ih => rw [List.foldr_cons, mem_consNew, ih, List.mem_cons]

theorem ascending_consNew {n : Int} {xs : List Int} (h : xs.Pairwise (· < ·))
    (hn : ∀ m ∈ xs, n ≤ m) : (consNew n xs).Pairwise (· < ·) := by
  unfold consNew
  split
  · exact h
  · next hne =>
      refine List.pairwise_cons.2 ⟨fun m hm => ?_, h⟩
      cases xs with
      | nil => cases hm
      | cons x xs =>
          have hnx : n ≠ x := fun e => hne (by rw [e]; rfl)
          have hle := hn x List.mem_cons_self
          rcases List.mem_cons.1 hm with e | m'
          · omega
          · have := (List.pairwise_cons.1 h).1 m m'
            omega

private theorem ascending_foldr_consNew {xs : List Int}
    (h : xs.Pairwise (· ≤ ·)) :
    (xs.foldr consNew []).Pairwise (· < ·) := by
  induction xs with
  | nil => exact .nil
  | cons x xs ih =>
      obtain ⟨hx, hxs⟩ := List.pairwise_cons.1 h
      exact ascending_consNew (ih hxs) fun m hm =>
        hx m ((mem_foldr_consNew xs).1 hm)

/-- The set of the elements of a list, which may repeat and stand in any
order. -/
def ofList (elements : List Int) : IntSet :=
  ⟨(elements.mergeSort).foldr consNew [], ascending_foldr_consNew <| by
    have h : (elements.mergeSort).Pairwise fun a b => decide (a ≤ b) = true :=
      List.pairwise_mergeSort
        (fun a b c hab hbc => by simp only [decide_eq_true_eq] at *; omega)
        (fun a b => by simp only [Bool.or_eq_true, decide_eq_true_eq]; omega)
        elements
    exact h.imp of_decide_eq_true⟩

@[simp] theorem mem_ofList {n : Int} {xs : List Int} : n ∈ ofList xs ↔ n ∈ xs :=
  (mem_foldr_consNew _).trans List.mem_mergeSort

/-! ## Combining two sets, one integer at a time -/

/-- Walks along two ascending lists and keeps, in order, each integer of which
`keep` holds, told whether the first list has it and whether the second has it.
What was kept so far stands in `kept`, latest first. -/
def combineFrom (keep : Bool → Bool → Bool) :
    List Int → List Int → List Int → List Int
  | [], ys, kept => kept.reverse ++ bif keep false true then ys else []
  | xs, [], kept => kept.reverse ++ bif keep true false then xs else []
  | x :: xs, y :: ys, kept =>
      if x < y then
        combineFrom keep xs (y :: ys)
          (bif keep true false then x :: kept else kept)
      else if y < x then
        combineFrom keep (x :: xs) ys
          (bif keep false true then y :: kept else kept)
      else combineFrom keep xs ys (bif keep true true then x :: kept else kept)
termination_by xs ys => xs.length + ys.length

private theorem mem_combineFrom {keep : Bool → Bool → Bool}
    (hff : keep false false = false) {n : Int} {xs ys kept : List Int}
    (hx : xs.Pairwise (· < ·)) (hy : ys.Pairwise (· < ·)) :
    n ∈ combineFrom keep xs ys kept ↔
      n ∈ kept ∨ keep (decide (n ∈ xs)) (decide (n ∈ ys)) = true := by
  fun_induction combineFrom keep xs ys kept with
  | case1 ys kept =>
      by_cases hn : n ∈ ys <;> cases hk : keep false true <;> simp [hn, hk, hff]
  | case2 xs kept hne =>
      by_cases hn : n ∈ xs <;> cases hk : keep true false <;> simp [hn, hk, hff]
  | case3 x xs y ys kept hlt ih =>
      obtain ⟨hxall, hxs⟩ := List.pairwise_cons.1 hx
      rw [ih hxs hy]
      by_cases hnx : n = x
      · subst hnx
        have h₁ : ¬ n ∈ xs := fun m => Int.lt_irrefl _ (hxall n m)
        have h₂ : ¬ n ∈ y :: ys := by
          intro m
          rcases List.mem_cons.1 m with e | m
          · omega
          · have := (List.pairwise_cons.1 hy).1 n m
            omega
        cases hk : keep true false <;> simp [h₁, h₂, hk, hff]
      · cases hk : keep true false <;> simp [hnx]
  | case4 x xs y ys kept hnlt hlt ih =>
      obtain ⟨hyall, hys⟩ := List.pairwise_cons.1 hy
      rw [ih hx hys]
      by_cases hny : n = y
      · subst hny
        have h₁ : ¬ n ∈ ys := fun m => Int.lt_irrefl _ (hyall n m)
        have h₂ : ¬ n ∈ x :: xs := by
          intro m
          rcases List.mem_cons.1 m with e | m
          · omega
          · have := (List.pairwise_cons.1 hx).1 n m
            omega
        cases hk : keep false true <;> simp [h₁, h₂, hk, hff]
      · cases hk : keep false true <;> simp [hny]
  | case5 x xs y ys kept hnlt hngt ih =>
      obtain ⟨hxall, hxs⟩ := List.pairwise_cons.1 hx
      obtain ⟨hyall, hys⟩ := List.pairwise_cons.1 hy
      have hxy : x = y := by omega
      subst hxy
      rw [ih hxs hys]
      by_cases hnx : n = x
      · subst hnx
        have h₁ : ¬ n ∈ xs := fun m => Int.lt_irrefl _ (hxall n m)
        have h₂ : ¬ n ∈ ys := fun m => Int.lt_irrefl _ (hyall n m)
        cases hk : keep true true <;> simp [h₁, h₂, hk, hff]
      · cases hk : keep true true <;> simp [hnx]

/-- What the walk needs of what it has kept: descending, and below all that is
still to come. -/
private def Below (kept rest : List Int) : Prop :=
  kept.Pairwise (· > ·) ∧ ∀ k ∈ kept, ∀ n ∈ rest, k < n

private theorem Below.keep {b : Bool} {x : Int} {kept rest rest' : List Int}
    (h : Below kept rest) (hx : x ∈ rest) (hsub : ∀ n ∈ rest', n ∈ rest)
    (hlt : ∀ n ∈ rest', x < n) :
    Below (bif b then x :: kept else kept) rest' := by
  cases b
  · exact ⟨h.1, fun k hk n hn => h.2 k hk n (hsub n hn)⟩
  · refine ⟨List.pairwise_cons.2 ⟨fun k hk => h.2 k hk x hx, h.1⟩,
      fun k hk n hn => ?_⟩
    rcases List.mem_cons.1 hk with e | hk
    · exact e ▸ hlt n hn
    · exact h.2 k hk n (hsub n hn)

private theorem Below.finish {b : Bool} {kept rest : List Int}
    (h : Below kept rest) (hr : rest.Pairwise (· < ·)) :
    (kept.reverse ++ bif b then rest else []).Pairwise (· < ·) := by
  cases b
  · simpa using List.pairwise_reverse.2 h.1
  · exact List.pairwise_append.2
      ⟨List.pairwise_reverse.2 h.1, hr,
        fun k hk => h.2 k (List.mem_reverse.1 hk)⟩

private theorem ascending_combineFrom {keep : Bool → Bool → Bool}
    {xs ys kept : List Int} (hx : xs.Pairwise (· < ·))
    (hy : ys.Pairwise (· < ·)) (hb : Below kept (xs ++ ys)) :
    (combineFrom keep xs ys kept).Pairwise (· < ·) := by
  fun_induction combineFrom keep xs ys kept with
  | case1 ys kept => exact hb.finish hy
  | case2 xs kept hne => exact Below.finish (by simpa using hb) hx
  | case3 x xs y ys kept hlt ih =>
      obtain ⟨hxall, hxs⟩ := List.pairwise_cons.1 hx
      refine ih hxs hy
        (hb.keep (by simp) (fun n hn => List.mem_cons_of_mem _ hn)
          fun n hn => ?_)
      rcases List.mem_append.1 hn with m | m
      · exact hxall n m
      · rcases List.mem_cons.1 m with e | m
        · omega
        · have := (List.pairwise_cons.1 hy).1 n m
          omega
  | case4 x xs y ys kept hnlt hlt ih =>
      obtain ⟨hyall, hys⟩ := List.pairwise_cons.1 hy
      refine ih hx hys (hb.keep (by simp) (fun n hn => ?_) fun n hn => ?_)
      · rcases List.mem_append.1 hn with m | m
        · exact List.mem_append_left _ m
        · exact List.mem_append_right _ (List.mem_cons_of_mem _ m)
      · rcases List.mem_append.1 hn with m | m
        · rcases List.mem_cons.1 m with e | m
          · omega
          · have := (List.pairwise_cons.1 hx).1 n m
            omega
        · exact hyall n m
  | case5 x xs y ys kept hnlt hngt ih =>
      obtain ⟨hxall, hxs⟩ := List.pairwise_cons.1 hx
      obtain ⟨hyall, hys⟩ := List.pairwise_cons.1 hy
      refine ih hxs hys (hb.keep (by simp) (fun n hn => ?_) fun n hn => ?_)
      · rcases List.mem_append.1 hn with m | m
        · exact List.mem_append_left _ (List.mem_cons_of_mem _ m)
        · exact List.mem_append_right _ (List.mem_cons_of_mem _ m)
      · rcases List.mem_append.1 hn with m | m
        · exact hxall n m
        · have := hyall n m
          omega

/-- The integers of which `keep` holds, told whether the first set has them and
whether the second has them. Only integers of one of the sets are looked at. -/
def combine (keep : Bool → Bool → Bool) (s t : IntSet) : IntSet :=
  ⟨combineFrom keep s.toList t.toList [],
    ascending_combineFrom s.ascending t.ascending
      ⟨.nil, fun _ hk => nomatch hk⟩⟩

/-- Membership in a combination is decided by membership in the two sets. -/
theorem mem_combine {keep : Bool → Bool → Bool}
    (hff : keep false false = false) {n : Int} {s t : IntSet} :
    n ∈ combine keep s t ↔ keep (decide (n ∈ s)) (decide (n ∈ t)) = true :=
  (mem_combineFrom hff s.ascending t.ascending).trans
    ⟨fun h => h.elim (fun m => nomatch m) id, .inr⟩

end IntSet

end SetCalculator
