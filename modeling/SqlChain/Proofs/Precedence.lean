import Mathlib.Data.List.Induction
import SqlChain.Function.Builtin

/-!
# Which entry of a table counts

Entries are inserted into a table, or a copy of it is made with one more entry. What a table answers
can be told from the additions it comes from. Of the entries that accept a call, the last one that a
copy was made with counts, and if there is none the first one that was inserted
(`lookup_afterCalls`).
-/

namespace SqlChain

/-- Whether the entry is one for calls of this name with so many arguments. -/
def FunctionEntry.fits (entry : FunctionEntry) (name : String) (arity : Nat) : Bool :=
  entry.name == name && entry.arity.accepts arity

/-! ## Answers -/

namespace FunctionTable

variable {table : FunctionTable} {name : String} {arity : Nat}

theorem find?_named (table : FunctionTable) (name : String) (arity : Nat) :
    (table.named name).find? (·.arity.accepts arity) =
      table.entries.find? (·.fits name arity) := by
  rw [named, List.find?_filter]
  congr 1
  funext entry
  rw [FunctionEntry.fits, Bool.decide_and, Bool.decide_eq_true, Bool.decide_eq_true]

/-- The three answers that there are. -/
theorem lookup_cases (table : FunctionTable) (name : String) (arity : Nat) :
    table.named name = [] ∧ table.entries.find? (·.fits name arity) = none ∧
        table.lookup name arity = .unknown ∨
      (∃ entry, table.named name ≠ [] ∧ table.entries.find? (·.fits name arity) = some entry ∧
        table.lookup name arity = .found entry) ∨
      table.named name ≠ [] ∧ table.entries.find? (·.fits name arity) = none ∧
        table.lookup name arity = .wrongArity ((table.named name).map (·.arity)) := by
  rw [← find?_named, lookup]
  cases hnamed : table.named name with
  | nil => exact .inl ⟨rfl, rfl, rfl⟩
  | cons first rest =>
      dsimp only
      cases hfind : (first :: rest).find? (·.arity.accepts arity) with
      | none => exact .inr (.inr ⟨nofun, rfl, rfl⟩)
      | some entry => exact .inr (.inl ⟨entry, nofun, rfl, rfl⟩)

theorem lookup_eq_found_iff {entry : FunctionEntry} :
    table.lookup name arity = .found entry ↔
      table.entries.find? (·.fits name arity) = some entry := by
  obtain ⟨-, hfind, hlookup⟩ | ⟨found, -, hfind, hlookup⟩ | ⟨-, hfind, hlookup⟩ :=
    table.lookup_cases name arity
  all_goals
    rw [hfind, hlookup]
    simp

theorem named_eq_nil_iff :
    table.named name = [] ↔ ∀ entry ∈ table.entries, entry.name ≠ name := by
  simp [named, List.filter_eq_nil_iff]

theorem lookup_eq_unknown_iff :
    table.lookup name arity = .unknown ↔ ∀ entry ∈ table.entries, entry.name ≠ name := by
  rw [← named_eq_nil_iff]
  obtain ⟨hnamed, -, hlookup⟩ | ⟨found, hnamed, -, hlookup⟩ | ⟨hnamed, -, hlookup⟩ :=
    table.lookup_cases name arity
  all_goals
    rw [hlookup]
    simp [hnamed]

theorem lookup_eq_wrongArity_iff {known : List Arity} :
    table.lookup name arity = .wrongArity known ↔
      (∃ entry ∈ table.entries, entry.name = name) ∧
      (∀ entry ∈ table.entries, entry.fits name arity = false) ∧
      known = (table.named name).map (·.arity) := by
  have hnone : (∀ entry ∈ table.entries, entry.fits name arity = false) ↔
      table.entries.find? (·.fits name arity) = none := by
    simp [List.find?_eq_none]
  have hsome : (∃ entry ∈ table.entries, entry.name = name) ↔ table.named name ≠ [] := by
    rw [ne_eq, named_eq_nil_iff]
    simp
  rw [hnone, hsome]
  obtain ⟨hnamed, hfind, hlookup⟩ | ⟨found, hnamed, hfind, hlookup⟩ | ⟨hnamed, hfind, hlookup⟩ :=
    table.lookup_cases name arity
  all_goals
    rw [hfind, hlookup]
    simp [hnamed, eq_comm]

/-- Only the entries of the name are looked at. -/
theorem lookup_congr {other : FunctionTable} (h : table.named name = other.named name) :
    table.lookup name arity = other.lookup name arity := by
  rw [lookup, lookup, h]

theorem form?_eq_some_iff {form : SqlForm} :
    table.form? name arity = some form ↔
      ∃ entry, table.lookup name arity = .found entry ∧ entry.form = form := by
  rw [form?]
  cases table.lookup name arity <;> simp

end FunctionTable

/-! ## Additions -/

/-- A way to add an entry. An insertion is into the table itself, and otherwise the entry is that of
a copy. -/
inductive Addition where
  | insert (entry : FunctionEntry)
  | withEntry (entry : FunctionEntry)
deriving DecidableEq, Repr

namespace Addition

def entry : Addition → FunctionEntry
  | .insert entry | .withEntry entry => entry

def inserted? : Addition → Option FunctionEntry
  | .insert entry => some entry
  | .withEntry _ => none

def preferred? : Addition → Option FunctionEntry
  | .insert _ => none
  | .withEntry entry => some entry

def extend (table : FunctionTable) : Addition → FunctionTable
  | .insert entry => table.insert entry
  | .withEntry entry => table.withEntry entry

theorem inserted?_eq_some_iff {a : Addition} {x : FunctionEntry} :
    a.inserted? = some x ↔ a = .insert x := by
  cases a <;> simp [inserted?]

theorem preferred?_eq_some_iff {a : Addition} {x : FunctionEntry} :
    a.preferred? = some x ↔ a = .withEntry x := by
  cases a <;> simp [preferred?]

end Addition

namespace FunctionTable

/-- The table that additions make out of the empty one. -/
def ofHistory (history : List Addition) : FunctionTable := history.foldl Addition.extend .empty

/-- All entries that were added, in the order in which they are looked at. -/
def precedence (history : List Addition) : List FunctionEntry :=
  (history.filterMap Addition.preferred?).reverse ++ history.filterMap Addition.inserted?

theorem entries_ofHistory (history : List Addition) :
    (ofHistory history).entries = precedence history := by
  induction history using List.reverseRecOn with
  | nil => rfl
  | append_singleton history a ih =>
      rw [ofHistory, List.foldl_append, ← ofHistory, precedence, List.filterMap_append,
        List.filterMap_append, List.reverse_append]
      cases a with
      | insert entry =>
          change (ofHistory history).entries ++ [entry] = _
          rw [ih, precedence, List.append_assoc]
          rfl
      | withEntry entry =>
          change entry :: (ofHistory history).entries = _
          rw [ih, precedence]
          simp [Addition.preferred?, Addition.inserted?]

theorem mem_entries_ofHistory {history : List Addition} {x : FunctionEntry} :
    x ∈ (ofHistory history).entries ↔ x ∈ history.map Addition.entry := by
  rw [entries_ofHistory, precedence, List.mem_append, List.mem_reverse, List.mem_filterMap,
    List.mem_filterMap, List.mem_map]
  simp only [Addition.preferred?_eq_some_iff, Addition.inserted?_eq_some_iff, exists_eq_right]
  constructor
  · rintro (h | h)
    · exact ⟨_, h, rfl⟩
    · exact ⟨_, h, rfl⟩
  · rintro ⟨a, ha, rfl⟩
    cases a with
    | insert entry => exact .inr ha
    | withEntry entry => exact .inl ha

/-- The entries known from the start, as if they had been inserted one by one. -/
theorem ofHistory_insert (entries : List FunctionEntry) :
    ofHistory (entries.map .insert) = ⟨entries⟩ := by
  have hentries := entries_ofHistory (entries.map .insert)
  rw [precedence, List.filterMap_map, List.filterMap_map] at hentries
  have hpreferred : entries.filterMap (Addition.preferred? ∘ .insert) = [] :=
    List.filterMap_eq_nil_iff.2 fun _ _ => rfl
  have hinserted : entries.filterMap (Addition.inserted? ∘ .insert) = entries :=
    List.filterMap_some
  rw [hpreferred, hinserted] at hentries
  exact congrArg FunctionTable.mk hentries

/-- The additions to other names may be left out. -/
theorem named_ofHistory_filter (history : List Addition) (name : String) :
    (ofHistory (history.filter (·.entry.name == name))).named name =
      (ofHistory history).named name := by
  have hfilter : ∀ f : Addition → Option FunctionEntry, (∀ a x, f a = some x → a.entry = x) →
      ((history.filter (·.entry.name == name)).filterMap f).filter (·.name == name) =
        (history.filterMap f).filter (·.name == name) := by
    intro f hf
    induction history with
    | nil => rfl
    | cons a history ih =>
        cases ha : f a with
        | none => by_cases hname : a.entry.name = name <;> simp_all
        | some x =>
            have hentry := hf a x ha
            by_cases hname : x.name = name <;> simp_all
  have hpreferred := hfilter Addition.preferred? fun a x h => by
    rw [Addition.preferred?_eq_some_iff.1 h, Addition.entry]
  have hinserted := hfilter Addition.inserted? fun a x h => by
    rw [Addition.inserted?_eq_some_iff.1 h, Addition.entry]
  rw [named, named, entries_ofHistory, entries_ofHistory, precedence, precedence,
    List.filter_append, List.filter_append, List.filter_reverse, List.filter_reverse, hpreferred,
    hinserted]

end FunctionTable

/-! ## The entry that counts -/

/-- The entry that counts for a call, given the additions in their order. -/
inductive Addition.Counts (name : String) (arity : Nat) (history : List Addition)
    (entry : FunctionEntry) : Prop
  /-- Copies were made with entries for the call, and this was the last of them. -/
  | latest {before after : List Addition} (hfits : entry.fits name arity = true)
      (hhistory : history = before ++ .withEntry entry :: after)
      (hlater : ∀ x, .withEntry x ∈ after → x.fits name arity = false)
  /-- All entries for the call were inserted, this one before the others. -/
  | earliest {before after : List Addition} (hfits : entry.fits name arity = true)
      (hinserted : ∀ x, .withEntry x ∈ history → x.fits name arity = false)
      (hhistory : history = before ++ .insert entry :: after)
      (hearlier : ∀ x, .insert x ∈ before → x.fits name arity = false)

/-- The first of the members of the form `g y` for which `p` holds. -/
theorem find?_filterMap_eq_some_iff {α β : Type} {f : α → Option β} {g : β → α}
    (hf : ∀ a b, f a = some b ↔ a = g b) {p : β → Bool} {xs : List α} {y : β} :
    (xs.filterMap f).find? p = some y ↔
      p y = true ∧ ∃ before after, xs = before ++ g y :: after ∧
        ∀ x, g x ∈ before → p x = false := by
  have hself : ∀ x, f (g x) = some x := fun x => (hf _ _).2 rfl
  have hbefore : ∀ before : List α,
      (∀ a ∈ before, (f a).any p = false) ↔ ∀ x, g x ∈ before → p x = false := by
    intro before
    constructor
    · intro h x hx
      have hnone := h (g x) hx
      rwa [hself, Option.any_some] at hnone
    · intro h a ha
      cases hfa : f a with
      | none => rfl
      | some x =>
          rw [(hf a x).1 hfa] at ha
          exact h x ha
  rw [List.find?_filterMap, Option.bind_eq_some_iff]
  simp only [hf, exists_eq_right, List.find?_eq_some_iff_append, hself, Option.any_some,
    Bool.not_eq_true', hbefore]

theorem FunctionTable.find?_precedence_iff {history : List Addition} {name : String} {arity : Nat}
    {entry : FunctionEntry} :
    (precedence history).find? (·.fits name arity) = some entry ↔
      Addition.Counts name arity history entry := by
  have hnone : (history.reverse.filterMap Addition.preferred?).find? (·.fits name arity) = none ↔
      ∀ x, .withEntry x ∈ history → x.fits name arity = false := by
    simp [List.find?_eq_none, Addition.preferred?_eq_some_iff]
  rw [precedence, List.find?_append, ← List.filterMap_reverse, Option.or_eq_some_iff, hnone,
    find?_filterMap_eq_some_iff fun _ _ => Addition.preferred?_eq_some_iff,
    find?_filterMap_eq_some_iff fun _ _ => Addition.inserted?_eq_some_iff]
  constructor
  · rintro (⟨hfits, before, after, hhistory, hbefore⟩ | ⟨hinserted, hfits, before, after, hhistory,
      hearlier⟩)
    · have hturned : history = after.reverse ++ .withEntry entry :: before.reverse := by
        rw [← history.reverse_reverse, hhistory]
        simp
      exact .latest hfits hturned fun x hx => hbefore x (List.mem_reverse.1 hx)
    · exact .earliest hfits hinserted hhistory hearlier
  · rintro (@⟨before, after, hfits, rfl, hlater⟩ | ⟨hfits, hinserted, hhistory, hearlier⟩)
    · refine .inl ⟨hfits, after.reverse, before.reverse, by simp, fun x hx => ?_⟩
      exact hlater x (List.mem_reverse.1 hx)
    · exact .inr ⟨hinserted, hfits, _, _, hhistory, hearlier⟩

/-! ## Several tables -/

/-- A call on one of several tables, which are numbered. -/
structure TableCall where
  table : Nat
  addition : Addition

namespace TableCall

variable {α β : Type}

/-- An insertion changes the table that it is called on, and any other addition puts a new table
behind those that are there. Here `extend` tells what one more addition makes out of whatever is
kept for a table. -/
def perform (extend : α → Addition → α) (tables : List α) (call : TableCall) : List α :=
  match call.addition with
  | .insert _ => tables.modify call.table (extend · call.addition)
  | .withEntry _ => tables ++ (tables[call.table]?.map (extend · call.addition)).toList

theorem map_perform {f : α → β} {extend : α → Addition → α} {extend' : β → Addition → β}
    (hf : ∀ x a, f (extend x a) = extend' (f x) a) (tables : List α) (call : TableCall) :
    (call.perform extend tables).map f = call.perform extend' (tables.map f) := by
  obtain ⟨i, a⟩ := call
  cases a with
  | insert entry =>
      rw [perform, perform]
      refine List.ext_getElem? fun j => ?_
      simp only [List.getElem?_map, List.getElem?_modify]
      cases tables[j]? with
      | none => rfl
      | some x => by_cases hij : i = j <;> simp [hij, hf]
  | withEntry entry =>
      rw [perform, perform, List.map_append, List.getElem?_map]
      cases tables[i]? with
      | none => rfl
      | some x => exact congrArg (tables.map f ++ [·]) (hf x _)

end TableCall

namespace FunctionTable

/-- The tables that there are after some calls, beginning with the empty one and the one that is
known from the start. -/
def afterCalls (calls : List TableCall) : List FunctionTable :=
  calls.foldl (TableCall.perform Addition.extend) [.empty, .builtin]

/-- The additions that each of the tables comes from, in their order. -/
def histories (calls : List TableCall) : List (List Addition) :=
  calls.foldl (TableCall.perform fun history a => history ++ [a])
    [[], builtin.entries.map .insert]

theorem ofHistory_concat (history : List Addition) (a : Addition) :
    ofHistory (history ++ [a]) = a.extend (ofHistory history) := by
  rw [ofHistory, List.foldl_append]
  rfl

theorem afterCalls_concat (calls : List TableCall) (call : TableCall) :
    afterCalls (calls ++ [call]) = call.perform Addition.extend (afterCalls calls) := by
  rw [afterCalls, List.foldl_append]
  rfl

theorem histories_concat (calls : List TableCall) (call : TableCall) :
    histories (calls ++ [call]) =
      call.perform (fun history a => history ++ [a]) (histories calls) := by
  rw [histories, List.foldl_append]
  rfl

theorem afterCalls_eq (calls : List TableCall) :
    afterCalls calls = (histories calls).map ofHistory := by
  induction calls using List.reverseRecOn with
  | nil =>
      change [empty, builtin] = [ofHistory [], ofHistory (builtin.entries.map .insert)]
      rw [ofHistory_insert]
      rfl
  | append_singleton calls call ih =>
      rw [afterCalls_concat, ih, histories_concat, TableCall.map_perform ofHistory_concat]

/-- Whatever is called on several tables, every one of them answers as the additions say that it
comes from itself. The entries of other names play no part in that, and the form of a call is that
of the entry which is found. Making a copy with one more entry leaves all tables as they are. -/
theorem lookup_afterCalls (calls : List TableCall) {i : Nat} {table : FunctionTable}
    (htable : (afterCalls calls)[i]? = some table) :
    ∃ history, (histories calls)[i]? = some history ∧
      (∀ name arity,
        (∀ entry, table.lookup name arity = .found entry ↔
          Addition.Counts name arity history entry) ∧
        (∀ known, table.lookup name arity = .wrongArity known ↔
          (∃ a ∈ history, a.entry.name = name) ∧
          (∀ a ∈ history, a.entry.fits name arity = false) ∧
          known = ((precedence history).filter (·.name == name)).map (·.arity)) ∧
        (table.lookup name arity = .unknown ↔ ∀ a ∈ history, a.entry.name ≠ name) ∧
        table.lookup name arity =
          (ofHistory (history.filter (·.entry.name == name))).lookup name arity ∧
        ∀ form, table.form? name arity = some form ↔
          ∃ entry, table.lookup name arity = .found entry ∧ entry.form = form) ∧
      ∀ entry, afterCalls (calls ++ [⟨i, .withEntry entry⟩]) =
        afterCalls calls ++ [table.withEntry entry] := by
  have hhistory := htable
  rw [afterCalls_eq, List.getElem?_map, Option.map_eq_some_iff] at hhistory
  obtain ⟨history, hhistory, rfl⟩ := hhistory
  have hall : ∀ P : FunctionEntry → Prop,
      (∀ entry ∈ (ofHistory history).entries, P entry) ↔ ∀ a ∈ history, P a.entry := by
    simp [mem_entries_ofHistory]
  have hname : ∀ name, (∃ entry ∈ (ofHistory history).entries, entry.name = name) ↔
      ∃ a ∈ history, a.entry.name = name := by
    simp [mem_entries_ofHistory]
  refine ⟨history, hhistory, fun name arity => ⟨fun entry => ?_, fun known => ?_, ?_, ?_, ?_⟩,
    fun entry => ?_⟩
  · rw [lookup_eq_found_iff, entries_ofHistory, find?_precedence_iff]
  · rw [lookup_eq_wrongArity_iff, hname, hall (·.fits name arity = false), named,
      entries_ofHistory]
  · rw [lookup_eq_unknown_iff, hall (·.name ≠ name)]
  · exact lookup_congr (named_ofHistory_filter history name).symm
  · exact fun form => form?_eq_some_iff
  · rw [afterCalls_concat, TableCall.perform, htable]
    rfl

/-- Logarithms for one argument or more and for two, in copies that were made one after the other,
and one for two or three arguments that is inserted in between. -/
def logarithmCalls : List TableCall := [
  ⟨1, .withEntry ⟨"log", .atLeast 1, .scalar "LOG1P"⟩⟩,
  ⟨2, .insert ⟨"log", .range 2 3, .scalar "LOG3"⟩⟩,
  ⟨2, .withEntry ⟨"log", .exact 2, .scalar "LOG2"⟩⟩]

theorem lookup_afterCalls_logarithms :
    (afterCalls logarithmCalls)[3]? =
        some (((builtin.withEntry ⟨"log", .atLeast 1, .scalar "LOG1P"⟩).insert
          ⟨"log", .range 2 3, .scalar "LOG3"⟩).withEntry ⟨"log", .exact 2, .scalar "LOG2"⟩) ∧
      ∃ history, (histories logarithmCalls)[3]? = some history ∧
        Addition.Counts "log" 2 history ⟨"log", .exact 2, .scalar "LOG2"⟩ ∧
        Addition.Counts "log" 3 history ⟨"log", .atLeast 1, .scalar "LOG1P"⟩ ∧
        (∀ a ∈ history, a.entry.fits "log" 0 = false) := by
  obtain ⟨history, hhistory, hanswers, -⟩ := lookup_afterCalls logarithmCalls (i := 3) rfl
  refine ⟨rfl, history, hhistory, ?_, ?_, ?_⟩
  · exact ((hanswers "log" 2).1 _).1 (by decide +kernel)
  · exact ((hanswers "log" 3).1 _).1 (by decide +kernel)
  · exact (((hanswers "log" 0).2.1 [.exact 2, .atLeast 1, .exact 1, .exact 2, .range 2 3]).1
      (by decide +kernel)).2.1

end FunctionTable

end SqlChain
