import SetCalculator.Proofs.Evaluation.Meaning

/-!
# Why a source has no set of integers

A source is loaded item by item, and the first item that is no line with an
integer on it decides what is reported. Together with the two ways in which a
source cannot be opened this gives the four ways in which loading can fail, and
`load_eq_error_iff` says that there is no other. A source loads when none of the
four is met (`Loads`), and then it has a set (`loads_iff`).
-/

namespace SetCalculator.Source

/-- An item that is a line with an integer on it. -/
def HoldsInteger (item : LineItem) : Prop :=
  ∃ line n, item = .ok line ∧ integer? line = some n

/-- A source has no set of integers, for the reason that is reported. -/
inductive Fails (loader : Loader) (name : String) : SourceError → Prop where
  | absent (opened : loader name = .error .notFound) :
      Fails loader name (.notFound name)
  | unopened {fault : Fault} (opened : loader name = .error (.fault fault)) :
      Fails loader name (.unreadable name fault)
  /-- A fault stands in the place of a line. -/
  | unread {before after : List LineItem} {fault : Fault}
      (opened : loader name = .ok (before ++ .error fault :: after))
      (good : ∀ item ∈ before, HoldsInteger item) :
      Fails loader name (.unreadable name fault)
  /-- A line holds something else than an integer. -/
  | noInteger {before after : List LineItem} {line : String}
      (opened : loader name = .ok (before ++ .ok line :: after))
      (good : ∀ item ∈ before, HoldsInteger item)
      (bad : integer? line = none) :
      Fails loader name (.notAnInteger name line (before.length + 1))

/-- What is reported of an item that is no line with an integer on it. -/
def refusal (source : String) (number : Nat) : LineItem → SourceError
  | .error fault => .unreadable source fault
  | .ok line => .notAnInteger source line number

theorem not_holdsInteger_fault (fault : Fault) :
    ¬ HoldsInteger (.error fault) := by
  simp [HoldsInteger]

theorem not_holdsInteger_iff {line : String} :
    ¬ HoldsInteger (.ok line) ↔ integer? line = none := by
  cases hline : integer? line <;> simp [HoldsInteger, hline]

theorem readItem_eq_error_iff {source : String} {number : Nat}
    {item : LineItem} {error : SourceError} :
    readItem source number item = .error error ↔
      ¬ HoldsInteger item ∧ error = refusal source number item := by
  cases item with
  | error fault => simp [readItem, HoldsInteger, refusal, eq_comm]
  | ok line =>
      rw [readItem, not_holdsInteger_iff]
      cases integer? line <;> simp [refusal, eq_comm]

theorem exists_readItem_eq_ok_iff {source : String} {number : Nat}
    {item : LineItem} :
    (∃ n, readItem source number item = .ok n) ↔ HoldsInteger item := by
  simp only [readItem_eq_ok_iff, HoldsInteger]
  exact exists_comm

theorem holdsInteger_of_readItems {items : List LineItem} {ns : List Int}
    (h : readItems name items = .ok ns) :
    ∀ item ∈ items, HoldsInteger item := by
  have hread := readItems_eq_ok_iff.1 h
  clear h
  induction hread with
  | nil => exact List.forall_mem_nil _
  | cons hitem _ ih =>
      obtain ⟨line, hline⟩ := hitem
      exact List.forall_mem_cons.2 ⟨⟨line, _, hline⟩, ih⟩

/-- The first item that holds no integer is the one reported. -/
theorem readItems_eq_error_iff {source : String} {items : List LineItem}
    {error : SourceError} :
    readItems source items = .error error ↔
      ∃ before item after, items = before ++ item :: after ∧
        (∀ earlier ∈ before, HoldsInteger earlier) ∧
        readItem source (before.length + 1) item = .error error := by
  rw [readItems, mapM_zipIdx_eq_error_iff fun _ _ => exists_readItem_eq_ok_iff]
  simp only [Nat.add_comm 1]

section

variable {loader : Loader} {name : String} {items : List LineItem}
  {error : SourceError}

theorem load_eq_error_iff_of_opened (hopened : loader name = .ok items) :
    load loader name = .error error ↔ readItems name items = .error error := by
  rw [load_of_opened hopened]
  cases readItems name items <;> simp [Except.map]

/-- Loading an open source fails at its first item that holds no integer. -/
theorem load_eq_refusal_iff (hopened : loader name = .ok items) :
    load loader name = .error error ↔
      ∃ before item after, items = before ++ item :: after ∧
        (∀ earlier ∈ before, HoldsInteger earlier) ∧ ¬ HoldsInteger item ∧
        error = refusal name (before.length + 1) item := by
  rw [load_eq_error_iff_of_opened hopened, readItems_eq_error_iff]
  simp only [readItem_eq_error_iff]

/-- An item that holds no integer is reported, whatever follows it. -/
theorem load_append_of_refused {more : List LineItem}
    (hopened : loader name = .ok (items ++ more))
    (hrefused : readItems name items = .error error) :
    load loader name = .error error := by
  obtain ⟨before, item, after, rfl, hgood, hitem⟩ :=
    readItems_eq_error_iff.1 hrefused
  obtain ⟨hbad, herror⟩ := readItem_eq_error_iff.1 hitem
  rw [List.append_assoc, List.cons_append] at hopened
  exact (load_eq_refusal_iff hopened).2
    ⟨before, item, after ++ more, rfl, hgood, hbad, herror⟩

end

theorem load_of_fails {loader : Loader} {name : String} {error : SourceError}
    (h : Fails loader name error) : load loader name = .error error := by
  cases h with
  | absent opened => rw [load, opened]
  | unopened opened => rw [load, opened]
  | unread opened good =>
      exact (load_eq_refusal_iff opened).2
        ⟨_, _, _, rfl, good, not_holdsInteger_fault _, rfl⟩
  | noInteger opened good bad =>
      exact (load_eq_refusal_iff opened).2
        ⟨_, _, _, rfl, good, not_holdsInteger_iff.2 bad, rfl⟩

theorem load_eq_error_iff {loader : Loader} {name : String}
    {error : SourceError} :
    load loader name = .error error ↔ Fails loader name error := by
  refine ⟨?_, load_of_fails⟩
  intro h
  cases hopened : loader name with
  | error refused =>
      rw [load, hopened] at h
      cases refused with
      | notFound =>
          cases h
          exact .absent hopened
      | fault fault =>
          cases h
          exact .unopened hopened
  | ok items =>
      obtain ⟨before, item, after, rfl, hgood, hbad, rfl⟩ :=
        (load_eq_refusal_iff hopened).1 h
      cases item with
      | error fault => exact .unread hopened hgood
      | ok line => exact .noInteger hopened hgood (not_holdsInteger_iff.1 hbad)

/-! ## Sources that load -/

/-- There is no reason for which the source has no set of integers. -/
def Loads (loader : Loader) (name : String) : Prop :=
  ∀ error, ¬ Fails loader name error

theorem loads_iff {loader : Loader} {name : String} :
    Loads loader name ↔ ∃ set, load loader name = .ok set := by
  simp only [Loads, ← load_eq_error_iff]
  cases load loader name <;> simp

theorem loads_of_load {loader : Loader} {name : String} {set : IntSet}
    (h : load loader name = .ok set) : Loads loader name :=
  loads_iff.2 ⟨set, h⟩

end SetCalculator.Source
