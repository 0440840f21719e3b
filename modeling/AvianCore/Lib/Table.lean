import Mathlib

/-!
A keyed table is Mathlib's association list with distinct keys. Three operations are added: an
update in place of one value, an update of every value, and the total weight of
the entries. Properties of every entry follow the operations.
-/

namespace AvianCore.Lib
open List AList

abbrev Table (α β : Type) := AList (fun _ : α => β)

namespace Table
variable {α β : Type} [DecidableEq α]

def modify (table : Table α β) (key : α) (change : β → β) : Table α β :=
  match table.lookup key with
  | none => table
  | some value => table.replace key (change value)

def mapValues (table : Table α β) (change : α → β → β) : Table α β :=
  ⟨table.entries.map (fun entry => ⟨entry.1, change entry.1 entry.2⟩), by
    have keys : (table.entries.map fun entry : (_ : α) × β =>
        (⟨entry.1, change entry.1 entry.2⟩ : (_ : α) × β)).keys = table.entries.keys := by
      simp [List.keys, Function.comp_def]
    rw [List.NodupKeys, keys]
    exact table.nodupKeys⟩

def total (table : Table α β) (weight : α → β → Nat) : Nat :=
  (table.entries.map fun entry => weight entry.1 entry.2).sum

theorem dlookup_kreplace (key other : α) (value : β) (entries : List ((_ : α) × β)) :
    (entries.kreplace key value).dlookup other =
      if other = key then (entries.dlookup key).map (fun _ => value) else entries.dlookup other := by
  induction entries with
  | nil => simp [List.kreplace]
  | cons entry rest ih =>
    obtain ⟨head, content⟩ := entry
    by_cases here : key = head
    · subst here
      have replaced : List.kreplace key value (⟨key, content⟩ :: rest) = ⟨key, value⟩ :: rest := by
        simp [List.kreplace, lookmap_cons_some]
      rw [replaced]
      by_cases same : other = key
      · subst same
        simp
      · rw [if_neg same, dlookup_cons_ne _ _ same, dlookup_cons_ne _ _ same]
    · have kept : List.kreplace key value (⟨head, content⟩ :: rest) =
          ⟨head, content⟩ :: List.kreplace key value rest := by
        rw [List.kreplace, lookmap_cons_none _ _ (by simp [here])]
      rw [kept]
      by_cases same : other = head
      · subst same
        have differs : other ≠ key := fun equal => here equal.symm
        simp [differs]
      · have apart : other ≠ (⟨head, content⟩ : (_ : α) × β).1 := same
        have apart' : key ≠ (⟨head, content⟩ : (_ : α) × β).1 := here
        rw [dlookup_cons_ne _ _ apart, ih, dlookup_cons_ne _ _ apart, dlookup_cons_ne _ _ apart']

variable (table : Table α β)

theorem lookup_modify (key other : α) (change : β → β) : (table.modify key change).lookup other =
    if other = key then (table.lookup key).map change else table.lookup other := by
  unfold modify
  cases found : table.lookup key with
  | none =>
    by_cases same : other = key
    · subst same
      simp [found]
    · simp [same]
  | some value =>
    have replaced := dlookup_kreplace key other (change value) table.entries
    change (table.entries.kreplace key (change value)).dlookup other = _
    rw [replaced]
    have found' : table.entries.dlookup key = some value := found
    simp only [found', Option.map_some]
    rfl

@[simp] theorem lookup_modify_self (key : α) (change : β → β) :
    (table.modify key change).lookup key = (table.lookup key).map change := by
  simp [lookup_modify]

theorem lookup_modify_ne {key other : α} (differs : other ≠ key)
    (change : β → β) : (table.modify key change).lookup other = table.lookup other := by
  simp [lookup_modify, differs]

theorem modify_eq_self (key : α) (change : β → β)
    (fixed : ∀ value, table.lookup key = some value → change value = value) :
    table.modify key change = table := by
  unfold modify
  cases found : table.lookup key with
  | none => rfl
  | some value =>
    apply AList.ext
    change table.entries.kreplace key (change value) = table.entries
    rw [fixed value found]
    exact kreplace_self table.nodupKeys (mem_lookup_iff.mp found)

theorem modify_absent (key : α) (change : β → β)
    (absent : table.lookup key = none) : table.modify key change = table := by
  simp [modify, absent]

theorem modify_const (key : α) (change : β → β) (value : β) (found : table.lookup key = some value) :
    table.modify key change = table.modify key fun _ => change value := by
  simp [modify, found]

@[simp] theorem keys_modify (key : α) (change : β → β) : (table.modify key change).keys = table.keys := by
  unfold modify
  split
  · rfl
  · exact keys_replace _ _ _

variable (change : α → β → β)

omit [DecidableEq α] in
@[simp] theorem keys_mapValues :
    (table.mapValues change).keys = table.keys := by
  simp [AList.keys, mapValues, List.keys, Function.comp_def]

theorem lookup_mapValues (key : α) : (table.mapValues change).lookup key = (table.lookup key).map (change key) :=
  dlookup_map₂ key

variable (weight : α → β → Nat)

theorem total_insert_fresh (key : α) (value : β) (fresh : table.lookup key = none) :
    total (table.insert key value) weight = weight key value + table.total weight := by
  have absent : key ∉ table := lookup_eq_none.mp fresh
  unfold total
  rw [entries_insert_of_notMem absent, map_cons, sum_cons]

theorem total_erase (key : α) (value : β) (found : table.lookup key = some value) :
    weight key value + total (table.erase key) weight = table.total weight := by
  obtain ⟨entries, distinct⟩ := table
  change weight key value + ((entries.kerase key).map _).sum = (entries.map _).sum
  have present : entries.dlookup key = some value := found
  clear found
  induction entries with
  | nil => simp at present
  | cons entry rest ih =>
    obtain ⟨head, content⟩ := entry
    by_cases here : key = head
    · subst here
      simp only [dlookup_cons_eq, Option.some.injEq] at present
      subst present
      simp
    rw [dlookup_cons_ne _ _ here] at present
    rw [kerase_cons_ne here]
    have tail := ih (nodupKeys_cons.mp distinct).2 present
    simp only [map_cons, sum_cons]
    omega

theorem total_kreplace (key : α) (old new : β) (entries : List ((_ : α) × β)) (found : entries.dlookup key = some old) :
    ((entries.kreplace key new).map fun entry => weight entry.1 entry.2).sum + weight key old =
      (entries.map fun entry => weight entry.1 entry.2).sum + weight key new := by
  induction entries with
  | nil => simp at found
  | cons entry rest ih =>
    obtain ⟨head, content⟩ := entry
    by_cases here : key = head
    · subst here
      have replaced : List.kreplace key new (⟨key, content⟩ :: rest) = ⟨key, new⟩ :: rest := by
        simp [List.kreplace, lookmap_cons_some]
      simp only [dlookup_cons_eq, Option.some.injEq] at found
      subst found
      simp only [replaced, map_cons, sum_cons]
      omega
    · have kept : List.kreplace key new (⟨head, content⟩ :: rest) = ⟨head, content⟩ :: List.kreplace key new rest := by
        rw [List.kreplace, lookmap_cons_none _ _ (by simp [here])]
      rw [dlookup_cons_ne _ _ here] at found
      have tail := ih found
      simp only [kept, map_cons, sum_cons]
      omega

theorem total_modify (key : α) (change : β → β) (value : β) (found : table.lookup key = some value) :
    (table.modify key change).total weight + weight key value = table.total weight + weight key (change value) := by
  unfold modify
  rw [found]
  exact total_kreplace weight key value (change value) table.entries found

omit [DecidableEq α] in
theorem total_mapValues_same
    (kept : ∀ key value, weight key (change key value) = weight key value) :
    (table.mapValues change).total weight = table.total weight := by
  simp [total, mapValues, Function.comp_def, kept]

def Each (table : Table α β) (holds : α → β → Prop) : Prop :=
  ∀ key value, table.lookup key = some value → holds key value

variable {table : Table α β} {holds holds' : α → β → Prop}

theorem Each.empty : Each (∅ : Table α β) holds := by
  intro key value found
  rw [lookup_empty] at found
  cases found

theorem Each.mono (each : Each table holds) (weaker : ∀ key value, holds key value → holds' key value) :
    Each table holds' :=
  fun key value found => weaker key value (each key value found)

variable {key : α}

theorem Each.modify {change : β → β} (each : Each table holds)
    (changed : ∀ value, table.lookup key = some value → holds key (change value)) :
    Each (table.modify key change) holds := by
  intro other value found
  by_cases same : other = key
  · subst same
    rw [lookup_modify_self] at found
    obtain ⟨old, present, rfl⟩ := Option.map_eq_some_iff.mp found
    exact changed old present
  · rw [lookup_modify_ne _ same] at found
    exact each other value found

theorem Each.insert_others {value : β}
    (others : ∀ other value', other ≠ key → table.lookup other = some value' → holds other value')
    (new : holds key value) : Each (AList.insert key value table) holds := by
  intro other found present
  by_cases same : other = key
  · subst same
    rw [lookup_insert] at present
    cases present
    exact new
  · rw [lookup_insert_ne same] at present
    exact others other found same present

theorem Each.insert {value : β} (each : Each table holds) (new : holds key value) :
    Each (AList.insert key value table) holds :=
  Each.insert_others (fun other value' _ present => each other value' present) new

theorem Each.erase_others (others : ∀ other value, other ≠ key → table.lookup other = some value → holds other value) :
    Each (AList.erase key table) holds := by
  intro other value found
  by_cases same : other = key
  · subst same
    rw [lookup_erase] at found
    cases found
  · rw [lookup_erase_ne same] at found
    exact others other value same found

theorem Each.erase (each : Each table holds) : Each (AList.erase key table) holds :=
  Each.erase_others fun other value _ found => each other value found

theorem Each.mapValues {change : α → β → β} (each : Each table holds)
    (changed : ∀ key value, holds key value → holds key (change key value)) :
    Each (table.mapValues change) holds := by
  intro key value found
  rw [lookup_mapValues] at found
  obtain ⟨old, present, rfl⟩ := Option.map_eq_some_iff.mp found
  exact changed key old (each key old present)

end Table
end AvianCore.Lib
