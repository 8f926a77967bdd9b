import SetCalculator.SetFunction

/-!
# Registries

A registry says which functions a program may call. A function is always known
under its own name, so a registry is a set of functions, and looking a name up
answers a function of that very name or nothing.
-/

namespace SetCalculator

/-- The functions that a program may call. -/
structure Registry where
  /-- Whether a function may be called. -/
  holds : SetFunction → Bool

namespace Registry

def empty : Registry := ⟨fun _ => false⟩

def builtin : Registry := ⟨fun _ => true⟩

/-- The registry with one more function. -/
def insert (registry : Registry) (f : SetFunction) : Registry :=
  ⟨fun g => g = f || registry.holds g⟩

def ofList (functions : List SetFunction) : Registry :=
  functions.foldl insert empty

/-- The function that a name stands for, if the registry holds it. -/
def get? (registry : Registry) (name : String) : Option SetFunction :=
  (SetFunction.ofName? name).filter registry.holds

/-- Whether a name stands for a function of the registry. -/
def contains (registry : Registry) (name : String) : Bool :=
  (registry.get? name).isSome

/-- The functions of the registry, in the order of their names. -/
def functions (registry : Registry) : List SetFunction :=
  SetFunction.all.filter registry.holds

/-- The names of the functions of the registry, sorted. -/
def names (registry : Registry) : List String :=
  registry.functions.map SetFunction.name

def size (registry : Registry) : Nat :=
  registry.functions.length

def isEmpty (registry : Registry) : Bool :=
  registry.functions.isEmpty

/-- A name stands for exactly the function of the registry that bears it. -/
theorem get?_eq_some_iff {registry : Registry} {name : String}
    {f : SetFunction} :
    registry.get? name = some f ↔ f.name = name ∧ registry.holds f = true := by
  unfold get? SetFunction.ofName?
  constructor
  · intro h
    obtain ⟨hfind, hf⟩ := Option.filter_eq_some_iff.1 h
    exact ⟨by simpa using List.find?_some hfind, hf⟩
  · rintro ⟨rfl, hf⟩
    refine Option.filter_eq_some_iff.2 ⟨?_, hf⟩
    cases f <;> decide

theorem pairwise_names (registry : Registry) :
    registry.names.Pairwise (· < ·) := by
  have hall : (SetFunction.all.map SetFunction.name).Pairwise (· < ·) := by
    decide
  exact hall.sublist (List.filter_sublist.map SetFunction.name)

end Registry

end SetCalculator
