import Mathlib.Data.List.Nodup

/-!
# Keyed collections

A finite collection in which a key belongs to one entry at most, as a
directory of files or a table with a primary key.
-/

namespace PpcLab

variable {α κ : Type} [DecidableEq κ]

/-- Entries with pairwise different keys. -/
structure Keyed (key : α → κ) where
  entries : List α
  nodup : (entries.map key).Nodup

namespace Keyed

variable {key : α → κ}

def empty : Keyed key :=
  ⟨[], List.nodup_nil⟩

def keys (table : Keyed key) : List κ :=
  table.entries.map key

def lookup (table : Keyed key) (wanted : κ) : Option α :=
  table.entries.find? fun entry => key entry == wanted

/-- The collection without a key. -/
def erase (table : Keyed key) (unwanted : κ) : Keyed key :=
  ⟨table.entries.filter fun entry => key entry != unwanted,
    table.nodup.sublist (List.filter_sublist.map key)⟩

private theorem nodup_cons_erase (table : Keyed key) (entry : α) :
    ((entry :: (table.erase (key entry)).entries).map key).Nodup := by
  rw [List.map_cons, List.nodup_cons]
  refine ⟨?_, (table.erase (key entry)).nodup⟩
  intro member
  obtain ⟨old, kept, same⟩ := List.mem_map.mp member
  have different := (List.mem_filter.mp kept).2
  rw [same] at different
  simp at different

/-- The entry takes the place of the one with its key. -/
def put (table : Keyed key) (entry : α) : Keyed key :=
  ⟨entry :: (table.erase (key entry)).entries, nodup_cons_erase table entry⟩

theorem key_of_lookup {table : Keyed key} {wanted : κ} {entry : α}
    (found : table.lookup wanted = some entry) : key entry = wanted := by
  simpa using List.find?_some found

theorem mem_of_lookup {table : Keyed key} {wanted : κ} {entry : α}
    (found : table.lookup wanted = some entry) : entry ∈ table.entries :=
  List.mem_of_find?_eq_some found

theorem lookup_of_mem {table : Keyed key} {entry : α}
    (member : entry ∈ table.entries) :
    table.lookup (key entry) = some entry := by
  cases found : table.lookup (key entry) with
  | none =>
      have absent := List.find?_eq_none.mp found entry member
      simp at absent
  | some other =>
      have sameKey := key_of_lookup found
      have same := List.inj_on_of_nodup_map table.nodup (mem_of_lookup found)
        member sameKey
      rw [same]

theorem mem_iff_lookup {table : Keyed key} {entry : α} :
    entry ∈ table.entries ↔ table.lookup (key entry) = some entry :=
  ⟨lookup_of_mem, mem_of_lookup⟩

@[simp] theorem lookup_erase_self (table : Keyed key) (unwanted : κ) :
    (table.erase unwanted).lookup unwanted = none := by
  simp [erase, lookup]

theorem lookup_erase_of_ne (table : Keyed key) {unwanted wanted : κ}
    (different : wanted ≠ unwanted) :
    (table.erase unwanted).lookup wanted = table.lookup wanted := by
  have others : ∀ old, (!decide (key old = unwanted) &&
      decide (key old = wanted)) = (key old == wanted) := by
    intro old
    by_cases same : key old = wanted
    · simp [same, different]
    · simp [same]
  simp [erase, lookup, List.find?_filter, others]

@[simp] theorem lookup_put_self (table : Keyed key) (entry : α) :
    (table.put entry).lookup (key entry) = some entry := by
  simp [put, lookup]

theorem lookup_put_of_ne (table : Keyed key) {entry : α} {wanted : κ}
    (different : wanted ≠ key entry) :
    (table.put entry).lookup wanted = table.lookup wanted := by
  rw [← lookup_erase_of_ne table different]
  have skipped : ¬ key entry = wanted := fun same => different same.symm
  simp [put, lookup, skipped]

/-- The entry comes in if its key is free. -/
def putNew (table : Keyed key) (entry : α) : Keyed key :=
  if (table.lookup (key entry)).isSome then table else table.put entry

theorem lookup_putNew (table : Keyed key) (entry : α) (wanted : κ) :
    (table.putNew entry).lookup wanted =
      (table.lookup wanted).or
        (if key entry = wanted then some entry else none) := by
  unfold putNew
  by_cases same : key entry = wanted
  · subst same
    cases found : table.lookup (key entry) with
    | none => simp
    | some old => simp [found]
  · have other : wanted ≠ key entry := fun equal => same equal.symm
    split
    · simp
    · simp [lookup_put_of_ne table other]

theorem mem_keys_iff {table : Keyed key} {wanted : κ} :
    wanted ∈ table.keys ↔ (table.lookup wanted).isSome := by
  constructor
  · intro member
    obtain ⟨entry, held, rfl⟩ := List.mem_map.mp member
    simp [lookup_of_mem held]
  · intro found
    obtain ⟨entry, found⟩ := Option.isSome_iff_exists.mp found
    rw [← key_of_lookup found]
    exact List.mem_map_of_mem (mem_of_lookup found)

end Keyed

end PpcLab
