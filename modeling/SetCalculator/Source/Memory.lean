import SetCalculator.Source.Loader
import SetCalculator.Text.Lines

/-!
# Sources held in memory

A shelf holds texts under names, and under no name more than one. A text put
under a name that is taken replaces the one that was there.
-/

namespace SetCalculator.Source

/-- Texts under names, latest first. -/
structure Shelf where
  texts : List (String × String)
  /-- No name is there twice. -/
  nodup_names : (texts.map Prod.fst).Nodup

namespace Shelf

def empty : Shelf := ⟨[], .nil⟩

private theorem nodup_names_insert {texts : List (String × String)}
    (h : (texts.map Prod.fst).Nodup) (name text : String) :
    (((name, text) :: texts.filter fun entry => entry.1 != name).map
      Prod.fst).Nodup := by
  rw [List.map_cons, List.nodup_cons]
  refine ⟨?_, h.sublist (List.filter_sublist.map Prod.fst)⟩
  intro hmem
  obtain ⟨entry, hentry, hname⟩ := List.mem_map.1 hmem
  exact bne_iff_ne.1 (List.mem_filter.1 hentry).2 hname

def insert (shelf : Shelf) (name text : String) : Shelf :=
  ⟨(name, text) :: shelf.texts.filter fun entry => entry.1 != name,
    nodup_names_insert shelf.nodup_names name text⟩

/-- The shelf of some texts, put there in order. -/
def ofList (texts : List (String × String)) : Shelf :=
  texts.foldl (fun shelf (name, text) => shelf.insert name text) empty

def get? (shelf : Shelf) (name : String) : Option String :=
  shelf.texts.lookup name

/-- The lines of the text under a name. They are all there to be read. -/
def loader (shelf : Shelf) : Loader := fun name =>
  match shelf.get? name with
  | some text => .ok ((Text.lines text).map .ok)
  | none => .error .notFound

theorem get?_insert (shelf : Shelf) (name text : String) :
    (shelf.insert name text).get? name = some text := by
  rw [get?, insert, List.lookup_cons, beq_self_eq_true]

private theorem lookup_eq_some_iff {texts : List (String × String)}
    (h : (texts.map Prod.fst).Nodup) {name text : String} :
    texts.lookup name = some text ↔ (name, text) ∈ texts := by
  induction texts with
  | nil => simp
  | cons entry rest ih =>
      obtain ⟨key, other⟩ := entry
      obtain ⟨hkey, hrest⟩ := List.nodup_cons.1 h
      rw [List.lookup_cons, List.mem_cons]
      by_cases hname : name = key
      · subst hname
        have hnot : (name, text) ∉ rest :=
          fun hmem => hkey (List.mem_map.2 ⟨_, hmem, rfl⟩)
        simp [hnot, eq_comm]
      · simp [hname, beq_eq_false_iff_ne.2 hname, ih hrest]

/-- What is found under a name is what lies there. -/
theorem get?_eq_some_iff {shelf : Shelf} {name text : String} :
    shelf.get? name = some text ↔ (name, text) ∈ shelf.texts :=
  lookup_eq_some_iff shelf.nodup_names

private theorem lookup_filter_ne {texts : List (String × String)}
    {name other : String} (h : other ≠ name) :
    (texts.filter fun entry => entry.1 != name).lookup other =
      texts.lookup other := by
  induction texts with
  | nil => rfl
  | cons entry rest ih =>
      obtain ⟨key, text⟩ := entry
      rw [List.lookup_cons]
      by_cases hkey : key = name
      · subst hkey
        simpa [beq_eq_false_iff_ne.2 h] using ih
      · simp [hkey, List.lookup_cons, ih]

/-- A text put under one name leaves the texts under other names alone. -/
theorem get?_insert_of_ne (shelf : Shelf) {name other : String}
    (h : other ≠ name) (text : String) :
    (shelf.insert name text).get? other = shelf.get? other := by
  rw [get?, insert, List.lookup_cons, beq_eq_false_iff_ne.2 h]
  exact lookup_filter_ne h

theorem loader_of_some {shelf : Shelf} {name text : String}
    (h : shelf.get? name = some text) :
    shelf.loader name = .ok ((Text.lines text).map .ok) := by
  rw [loader, h]

theorem loader_of_none {shelf : Shelf} {name : String}
    (h : shelf.get? name = none) : shelf.loader name = .error .notFound := by
  rw [loader, h]

end Shelf

end SetCalculator.Source
