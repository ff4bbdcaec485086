import SqlChain.Function.Arity
import SqlChain.Function.Form

/-!
# Tables of functions

A table lists its entries in the order of precedence. A name may have several entries, and the
first of them that accepts the number of arguments is the one that counts.
-/

namespace SqlChain

structure FunctionEntry where
  name : String
  arity : Arity
  form : SqlForm
deriving DecidableEq, Repr

/-- The answer to a name and a number of arguments. -/
inductive Lookup where
  | found (entry : FunctionEntry)
  /-- The name is known, with these arities, and none of them fits. -/
  | wrongArity (known : List Arity)
  | unknown
deriving DecidableEq, Repr

structure FunctionTable where
  entries : List FunctionEntry
deriving DecidableEq, Repr

namespace FunctionTable

def empty : FunctionTable := ⟨[]⟩

/-- The table with an entry that comes after all others. -/
def insert (table : FunctionTable) (entry : FunctionEntry) : FunctionTable :=
  ⟨table.entries ++ [entry]⟩

/-- The table with an entry that comes before all others. -/
def withEntry (table : FunctionTable) (entry : FunctionEntry) : FunctionTable :=
  ⟨entry :: table.entries⟩

def named (table : FunctionTable) (name : String) : List FunctionEntry :=
  table.entries.filter (·.name == name)

def lookup (table : FunctionTable) (name : String) (arity : Nat) : Lookup :=
  match table.named name with
  | [] => .unknown
  | entries =>
    match entries.find? (·.arity.accepts arity) with
    | some entry => .found entry
    | none => .wrongArity (entries.map (·.arity))

def form? (table : FunctionTable) (name : String) (arity : Nat) : Option SqlForm :=
  match table.lookup name arity with
  | .found entry => some entry.form
  | _ => none

theorem named_insert (table : FunctionTable) (entry : FunctionEntry) (name : String) :
    (table.insert entry).named name =
      table.named name ++ if entry.name = name then [entry] else [] := by
  by_cases h : entry.name = name <;> simp [named, insert, h]

theorem named_withEntry (table : FunctionTable) (entry : FunctionEntry) (name : String) :
    (table.withEntry entry).named name =
      (if entry.name = name then [entry] else []) ++ table.named name := by
  by_cases h : entry.name = name <;> simp [named, withEntry, h]

theorem name_eq_of_lookup_found {table : FunctionTable} {name : String} {arity : Nat}
    {entry : FunctionEntry} (h : table.lookup name arity = .found entry) :
    entry ∈ table.entries ∧ entry.name = name ∧ entry.arity.accepts arity = true := by
  unfold lookup at h
  split at h
  · cases h
  · split at h
    · next hf =>
      cases h
      have hm := List.mem_of_find?_eq_some hf
      have ha := List.find?_eq_some_iff_append.1 hf
      rw [named, List.mem_filter] at hm
      exact ⟨hm.1, by simpa using hm.2, ha.1⟩
    · cases h

end FunctionTable

end SqlChain
