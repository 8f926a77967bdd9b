import Mathlib.Data.List.Forall2

/-!
# Reading numbered items in order

The words of a program and the items of a source are read the same way: each
with its number, one after the other, until one is refused. When none is, what
was read matches the items one by one, and where the number only shows in
errors it drops out of that match.
-/

namespace SetCalculator

variable {α β ε : Type}

theorem mapM_eq_ok_iff {f : α → Except ε β} {xs : List α} {ys : List β} :
    xs.mapM f = .ok ys ↔ List.Forall₂ (fun x y => f x = .ok y) xs ys := by
  induction xs generalizing ys with
  | nil =>
      rw [List.mapM_nil, List.forall₂_nil_left_iff]
      exact ⟨fun h => by cases h; rfl, fun h => by rw [h]; rfl⟩
  | cons x xs ih =>
      rw [List.mapM_cons, List.forall₂_cons_left_iff]
      cases hx : f x with
      | error error =>
          refine ⟨?_, ?_⟩
          · intro h
            cases h
          · intro h
            obtain ⟨_, _, h, _⟩ := h
            cases h
      | ok y =>
          refine ⟨?_, ?_⟩
          · intro h
            cases hxs : xs.mapM f with
            | error error =>
                rw [hxs] at h
                cases h
            | ok rest =>
                rw [hxs] at h
                cases h
                exact ⟨y, rest, rfl, ih.1 hxs, rfl⟩
          · intro h
            obtain ⟨y', rest, hy, hrest, rfl⟩ := h
            cases hy
            rw [ih.2 hrest]
            rfl

/-- Items that are read whatever their number are matched without it. -/
theorem mapM_zipIdx_eq_ok_iff {f : α × Nat → Except ε β} {R : α → β → Prop}
    (h : ∀ x number y, f (x, number) = .ok y ↔ R x y) {xs : List α}
    {start : Nat} {ys : List β} :
    (xs.zipIdx start).mapM f = .ok ys ↔ List.Forall₂ R xs ys := by
  rw [mapM_eq_ok_iff]
  have hR : (fun x y => f x = .ok y) = fun x y => R (Prod.fst x) y := by
    funext x y
    exact propext (h x.1 x.2 y)
  rw [hR, ← List.forall₂_map_left_iff, List.zipIdx_map_fst]

theorem mapM_cons_eq_error_iff {f : α → Except ε β} {x : α} {xs : List α}
    {error : ε} :
    (x :: xs).mapM f = .error error ↔
      f x = .error error ∨ (∃ y, f x = .ok y) ∧ xs.mapM f = .error error := by
  rw [List.mapM_cons]
  cases hx : f x with
  | error refusal =>
      refine ⟨fun h => ?_, fun h => ?_⟩
      · cases h
        exact .inl rfl
      · rcases h with h | ⟨⟨_, h⟩, _⟩
        · cases h
          rfl
        · cases h
  | ok y =>
      cases hxs : xs.mapM f with
      | error refusal =>
          refine ⟨fun h => ?_, fun h => ?_⟩
          · cases h
            exact .inr ⟨⟨y, rfl⟩, rfl⟩
          · rcases h with h | ⟨_, h⟩ <;> cases h
            rfl
      | ok rest =>
          refine ⟨fun h => ?_, fun h => ?_⟩
          · cases h
          · rcases h with h | ⟨_, h⟩ <;> cases h

/-- A first item of some kind is the head, or it is the first of the tail and
the head is good. -/
theorem exists_first_cons_iff {Good : α → Prop} {Bad : Nat → α → Prop} {x : α}
    {xs : List α} :
    (∃ before y after, x :: xs = before ++ y :: after ∧
      (∀ z ∈ before, Good z) ∧ Bad before.length y) ↔
      Bad 0 x ∨ Good x ∧ ∃ before y after, xs = before ++ y :: after ∧
        (∀ z ∈ before, Good z) ∧ Bad (before.length + 1) y := by
  refine ⟨?_, ?_⟩
  · intro h
    obtain ⟨before, y, after, heq, hgood, hbad⟩ := h
    cases before with
    | nil =>
        cases heq
        exact .inl hbad
    | cons z before =>
        cases heq
        obtain ⟨hx, hbefore⟩ := List.forall_mem_cons.1 hgood
        exact .inr ⟨hx, before, y, after, rfl, hbefore, hbad⟩
  · intro h
    rcases h with hbad | ⟨hx, before, y, after, rfl, hbefore, hbad⟩
    · exact ⟨[], x, xs, rfl, List.forall_mem_nil _, hbad⟩
    · exact ⟨x :: before, y, after, rfl,
        List.forall_mem_cons.2 ⟨hx, hbefore⟩, hbad⟩

/-- The item that is refused is the first that is no good, and its number says
how many come before it. -/
theorem mapM_zipIdx_eq_error_iff {f : α × Nat → Except ε β} {Good : α → Prop}
    (h : ∀ x number, (∃ y, f (x, number) = .ok y) ↔ Good x) {xs : List α}
    {start : Nat} {error : ε} :
    (xs.zipIdx start).mapM f = .error error ↔
      ∃ before x after, xs = before ++ x :: after ∧ (∀ y ∈ before, Good y) ∧
        f (x, start + before.length) = .error error := by
  induction xs generalizing start with
  | nil =>
      refine ⟨fun h => ?_, fun h => ?_⟩
      · cases h
      · obtain ⟨before, x, after, heq, -⟩ := h
        cases before <;> cases heq
  | cons x xs ih =>
      rw [List.zipIdx_cons, mapM_cons_eq_error_iff, h, ih,
        @exists_first_cons_iff _ Good fun number y =>
          f (y, start + number) = .error error]
      simp only [Nat.add_zero, Nat.add_assoc, Nat.add_comm 1]

/-- Where an item is read in one way only, what was read is what was read of
some item. -/
theorem mem_iff_of_forall₂ {R : α → β → Prop} {xs : List α} {ys : List β}
    (hR : ∀ x y y', R x y → R x y' → y = y') (h : List.Forall₂ R xs ys)
    {y : β} : y ∈ ys ↔ ∃ x ∈ xs, R x y := by
  induction h with
  | nil => simp
  | @cons x y' xs ys hxy _ ih =>
      have hhead : y = y' ↔ R x y :=
        ⟨fun h => by rw [h]; exact hxy, fun h => hR x y y' h hxy⟩
      rw [List.mem_cons, List.exists_mem_cons_iff, hhead]
      exact or_congr_right ih

end SetCalculator
