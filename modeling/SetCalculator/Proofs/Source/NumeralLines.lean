import SetCalculator.Proofs.Evaluation.FirstFailure
import SetCalculator.Proofs.Text.Overflow

/-!
# A source is the set of the numerals on its lines

Once a source is open, what loading comes to depends on its items alone. Either
every one of them is a line with the numeral of an integer of 64 bits on it, and
then the source is the set of these integers; or there is a first item that is
no such line, and it is reported, in its own words and with its number. What
follows it is not looked at.

Nothing here knows how numerals are read: `Text.HoldsNumeral` says what has to
stand on a line, and `integer?_eq_some_iff` that this is what is read.
-/

namespace SetCalculator.Source

/-- The item is a line with the numeral of an integer of 64 bits on it. -/
def ItemHolds (item : LineItem) (n : Int) : Prop :=
  ∃ line, item = .ok line ∧ Text.HoldsNumeral line n ∧ Text.FitsIn64 n

theorem itemHolds_iff {item : LineItem} {n : Int} :
    ItemHolds item n ↔ ∃ line, item = .ok line ∧ integer? line = some n := by
  simp only [ItemHolds, integer?_eq_some_iff]

theorem exists_itemHolds_iff {item : LineItem} :
    (∃ n, ItemHolds item n) ↔ HoldsInteger item := by
  simp only [itemHolds_iff, HoldsInteger]
  exact exists_comm

/-! ## Loading an open source -/

variable {loader : Loader} {name : String} {items : List LineItem}

theorem holdsInteger_of_load (hopened : loader name = .ok items) {set : IntSet}
    (h : load loader name = .ok set) : ∀ item ∈ items, HoldsInteger item := by
  rw [load_of_opened hopened] at h
  cases hread : readItems name items with
  | ok ns => exact holdsInteger_of_readItems hread
  | error error =>
      rw [hread] at h
      cases h

theorem mem_load_iff_itemHolds (hopened : loader name = .ok items)
    {set : IntSet} (h : load loader name = .ok set) {n : Int} :
    n ∈ set ↔ ∃ item ∈ items, ItemHolds item n := by
  rw [mem_load_iff h]
  simp only [Holds, hopened, itemHolds_iff, Except.ok.injEq]
  refine ⟨?_, ?_⟩
  · intro h
    obtain ⟨_, line, rfl, hmem, hline⟩ := h
    exact ⟨_, hmem, line, rfl, hline⟩
  · intro h
    obtain ⟨_, hmem, line, rfl, hline⟩ := h
    exact ⟨items, line, rfl, hmem, hline⟩

/-- Where no item is refused there is a set, and its elements are known. -/
theorem load_eq_ok_iff (hopened : loader name = .ok items) {set : IntSet} :
    load loader name = .ok set ↔
      (∀ item ∈ items, HoldsInteger item) ∧
        ∀ n, n ∈ set ↔ ∃ item ∈ items, ItemHolds item n := by
  refine ⟨?_, ?_⟩
  · intro h
    exact ⟨holdsInteger_of_load hopened h,
      fun _ => mem_load_iff_itemHolds hopened h⟩
  · intro h
    obtain ⟨hall, hset⟩ := h
    cases hload : load loader name with
    | ok set' =>
        have hsame : set' = set := IntSet.ext fun n =>
          (mem_load_iff_itemHolds hopened hload).trans (hset n).symm
        rw [hsame]
    | error error =>
        obtain ⟨before, item, after, rfl, -, hbad, -⟩ :=
          (load_eq_refusal_iff hopened).1 hload
        exact absurd (hall item (by simp)) hbad

/-- What stands behind an item that is refused has no part in the answer. -/
theorem load_eq_of_same_start {loader' : Loader}
    {before after after' : List LineItem} {item : LineItem}
    (hopened : loader name = .ok (before ++ item :: after))
    (hopened' : loader' name = .ok (before ++ item :: after'))
    (hbad : ¬ HoldsInteger item) : load loader' name = load loader name := by
  rw [List.append_cons] at hopened hopened'
  cases hread : readItems name (before ++ [item]) with
  | ok ns => exact absurd (holdsInteger_of_readItems hread item (by simp)) hbad
  | error error =>
      rw [load_append_of_refused hopened hread,
        load_append_of_refused hopened' hread]

/-- An open source is the set of the numerals of 64 bits on its lines when each
of its items is a line with one, and otherwise the first item that is not is
reported and nothing behind it matters. Overflow on the way through a numeral
changes none of that. -/
theorem load_reads_numerals {loader : Loader} {name : String}
    {items : List LineItem} (opened : loader name = .ok items) :
    (∀ set, load loader name = .ok set ↔
      (∀ item ∈ items, ∃ n, ItemHolds item n) ∧
        ∀ n, n ∈ set ↔ ∃ item ∈ items, ItemHolds item n) ∧
    (∀ error, load loader name = .error error ↔
      ∃ before item after, items = before ++ item :: after ∧
        (∀ earlier ∈ before, ∃ n, ItemHolds earlier n) ∧
        (¬ ∃ n, ItemHolds item n) ∧
        error = refusal name (before.length + 1) item) ∧
    (∀ before item after, items = before ++ item :: after →
      (¬ ∃ n, ItemHolds item n) → ∀ (other : Loader) after',
      other name = .ok (before ++ item :: after') →
        load other name = load loader name) ∧
    (∀ numeral, Text.Decimal.readStepwise? numeral =
      Text.Decimal.read? numeral) := by
  simp only [exists_itemHolds_iff]
  refine ⟨fun _ => load_eq_ok_iff opened, fun _ => load_eq_refusal_iff opened,
    ?_, Text.Decimal.readStepwise?_eq_read?⟩
  intro before item after hitems hbad other after' hother
  rw [hitems] at opened
  exact load_eq_of_same_start opened hother hbad

/-- A wide blank, a sign and zeros in front of 7 are nothing against it. The
next line is one above the largest integer of 64 bits, and whether a fault
follows it cannot be told from the answer. -/
theorem load_stops_at_overflow :
    let seven : LineItem := .ok "\u3000+007 "
    let above : LineItem := .ok " 9223372036854775808"
    let loader : Loader := fun _ => .ok [seven, above, .error .notUtf8]
    let other : Loader := fun _ => .ok [seven, above]
    loader "a" = .ok [seven, above, .error .notUtf8] ∧
      (∃ n, ItemHolds seven n) ∧ (¬ ∃ n, ItemHolds above n) ∧
      load loader "a" =
        .error (.notAnInteger "a" " 9223372036854775808" 2) ∧
      load other "a" = load loader "a" := by
  intro seven above loader other
  have opened : loader "a" = .ok [seven, above, .error .notUtf8] := rfl
  have hseven : ∃ n, ItemHolds seven n :=
    exists_itemHolds_iff.2 ⟨_, 7, rfl, by decide⟩
  have habove : ¬ ∃ n, ItemHolds above n := by
    have hnone : integer? " 9223372036854775808" = none := by decide
    simp [exists_itemHolds_iff, HoldsInteger, above, hnone]
  obtain ⟨-, hrefused, hsame, -⟩ := load_reads_numerals opened
  refine ⟨opened, hseven, habove, ?_, ?_⟩
  · refine (hrefused _).2
      ⟨[seven], above, [.error .notUtf8], rfl, ?_, habove, rfl⟩
    intro earlier hmem
    rw [List.mem_singleton.1 hmem]
    exact hseven
  · exact hsame [seven] above [.error .notUtf8] rfl habove other [] rfl

end SetCalculator.Source
