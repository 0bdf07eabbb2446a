/-
This file holds the table of the objects that a program can name.
-/

namespace Fluent

structure SymbolTable (Obj : Type) where
  entries : List (String × Obj)
  /-- Every name stands for one object. -/
  nodup : (entries.map Prod.fst).Nodup

namespace SymbolTable

variable {Obj : Type}

@[ext] theorem ext {first second : SymbolTable Obj} (same : first.entries = second.entries) :
    first = second := by
  cases first
  cases second
  congr

def empty : SymbolTable Obj :=
  ⟨[], List.nodup_nil⟩

def names (table : SymbolTable Obj) : List String :=
  table.entries.map Prod.fst

def get? (table : SymbolTable Obj) (name : String) : Option Obj :=
  table.entries.lookup name

def contains (table : SymbolTable Obj) (name : String) : Bool :=
  table.names.contains name

def size (table : SymbolTable Obj) : Nat :=
  table.entries.length

def isEmpty (table : SymbolTable Obj) : Bool :=
  table.entries.isEmpty

/-- Changes the object that a name stands for, if there is one. -/
def replace (table : SymbolTable Obj) (name : String) (object : Obj) : SymbolTable Obj where
  entries := table.entries.map fun entry =>
    if entry.1 = name then (entry.1, object) else entry
  nodup := by
    have same : (table.entries.map fun entry =>
        if entry.1 = name then (entry.1, object) else entry).map Prod.fst =
          table.entries.map Prod.fst := by
      rw [List.map_map]
      apply List.map_congr_left
      intro entry _
      simp only [Function.comp_apply]
      split <;> rfl
    rw [same]
    exact table.nodup

/-- Adds an object, or puts it in the place of the one of that name. -/
def insert (table : SymbolTable Obj) (name : String) (object : Obj) : SymbolTable Obj :=
  if absent : name ∉ table.names then
    { entries := table.entries ++ [(name, object)]
      nodup := by
        rw [List.map_append, List.nodup_append]
        refine ⟨table.nodup, by simp, ?_⟩
        intro other present last final
        simp only [List.map_cons, List.map_nil, List.mem_singleton] at final
        rintro rfl
        exact absent (final ▸ present) }
  else table.replace name object

def remove (table : SymbolTable Obj) (name : String) : SymbolTable Obj where
  entries := table.entries.filter fun entry => entry.1 ≠ name
  nodup := table.nodup.sublist (List.filter_sublist.map Prod.fst)

@[simp] theorem names_replace (table : SymbolTable Obj) (name : String) (object : Obj) :
    (table.replace name object).names = table.names := by
  simp only [names, replace, List.map_map]
  apply List.map_congr_left
  intro entry _
  simp only [Function.comp_apply]
  split <;> rfl

theorem get?_replace (table : SymbolTable Obj) (name other : String) (object : Obj) :
    (table.replace name object).get? other =
      if other = name then (table.get? other).map fun _ => object else table.get? other := by
  simp only [get?, replace]
  induction table.entries with
  | nil => simp
  | cons entry rest hypothesis =>
    obtain ⟨present, old⟩ := entry
    simp only [List.map_cons, List.lookup_cons]
    by_cases here : present = name
    · subst here
      by_cases same : other = present
      · simp [same]
      · have distinct : (other == present) = false := by simpa using same
        simpa [List.lookup_cons, distinct, same] using hypothesis
    · by_cases same : other = present
      · subst same
        simp [here]
      · have distinct : (other == present) = false := by simpa using same
        simpa [List.lookup_cons, here, distinct] using hypothesis

/-- A name stands for an object exactly if it is in the table. -/
theorem get?_eq_none_iff (table : SymbolTable Obj) (name : String) :
    table.get? name = none ↔ name ∉ table.names := by
  simp only [get?, names]
  induction table.entries with
  | nil => simp
  | cons entry rest hypothesis =>
    rw [List.lookup_cons, List.map_cons, List.mem_cons, not_or]
    by_cases same : name = entry.1
    · simp [same]
    · have distinct : (name == entry.1) = false := by simpa using same
      simp [distinct, same, hypothesis]

end SymbolTable

end Fluent
