import Mathlib.Data.List.Basic
import PpcLab.Library.Json

/-!
# Dictionaries

Association lists in the order in which their keys were first assigned.

What an object has for a key after an assignment.
-/

namespace PpcLab.Dictionary

variable {κ α : Type} [DecidableEq κ]

/-- `dictionary[key] = value`: a key that is there keeps its place. -/
def assign (dictionary : List (κ × α)) (entry : κ × α) : List (κ × α) :=
  if dictionary.any (·.1 == entry.1) then
    dictionary.map fun old => if old.1 = entry.1 then entry else old
  else dictionary ++ [entry]

theorem mem_assign {dictionary : List (κ × α)} {entry held : κ × α}
    (member : held ∈ assign dictionary entry) :
    held ∈ dictionary ∨ held = entry := by
  unfold assign at member
  split at member
  · obtain ⟨old, kept, rfl⟩ := List.mem_map.mp member
    split
    · exact .inr rfl
    · exact .inl kept
  · simpa using member

/-- Nothing is in a dictionary but what was assigned. -/
theorem mem_foldl_assign {dictionary entries : List (κ × α)} {held : κ × α}
    (member : held ∈ entries.foldl assign dictionary) :
    held ∈ dictionary ∨ held ∈ entries := by
  induction entries generalizing dictionary with
  | nil => exact .inl member
  | cons entry entries induction =>
      rcases induction member with before | later
      · rcases mem_assign before with old | rfl
        · exact .inl old
        · exact .inr List.mem_cons_self
      · exact .inr (List.mem_cons_of_mem _ later)

theorem filter_assign (wanted : κ → Bool) (dictionary : List (κ × α))
    (entry : κ × α) :
    (assign dictionary entry).filter (wanted ·.1) =
      if wanted entry.1 then
        assign (dictionary.filter (wanted ·.1)) entry
      else dictionary.filter (wanted ·.1) := by
  have keeps (old : κ × α) :
      wanted (if old.1 = entry.1 then entry else old).1 = wanted old.1 := by
    split
    · rename_i same
      rw [same]
    · rfl
  have replaced :
      (dictionary.map fun old => if old.1 = entry.1 then entry else old).filter
        (wanted ·.1) =
      (dictionary.filter (wanted ·.1)).map fun old =>
        if old.1 = entry.1 then entry else old := by
    rw [List.filter_map]
    congr 1
    exact List.filter_congr fun old _ => keeps old
  by_cases want : wanted entry.1 = true
  · have found : (dictionary.filter (wanted ·.1)).any (·.1 == entry.1) =
        dictionary.any (·.1 == entry.1) := by
      rw [List.any_filter]
      congr 1
      funext old
      by_cases same : old.1 = entry.1
      · simp [same, want]
      · simp [same]
    rw [if_pos want, assign, assign, found]
    split
    · exact replaced
    · simp [want]
  · rw [if_neg want, assign]
    split
    · rw [replaced]
      refine (List.map_congr_left ?_).trans (List.map_id _)
      intro old kept
      have other : old.1 ≠ entry.1 := by
        intro same
        apply want
        rw [← same]
        exact (List.mem_filter.mp kept).2
      rw [if_neg other]
      rfl
    · simp [want]

/-- New keys are put at the end. -/
theorem assign_of_new {dictionary : List (κ × α)} {entry : κ × α}
    (new : entry.1 ∉ dictionary.map (·.1)) :
    assign dictionary entry = dictionary ++ [entry] := by
  refine if_neg ?_
  rw [List.any_eq_true]
  rintro ⟨old, member, same⟩
  apply new
  exact List.mem_map.mpr ⟨old, member, eq_of_beq same⟩

/-- Assignments to different keys give the list of the assignments. -/
theorem foldl_assign_of_nodup {dictionary entries : List (κ × α)}
    (distinct : ((dictionary ++ entries).map (·.1)).Nodup) :
    entries.foldl assign dictionary = dictionary ++ entries := by
  induction entries generalizing dictionary with
  | nil => exact (List.append_nil _).symm
  | cons entry entries induction =>
      have new : entry.1 ∉ dictionary.map (·.1) := by
        rw [List.map_append, List.nodup_append] at distinct
        intro member
        exact distinct.2.2 _ member _ List.mem_cons_self rfl
      rw [List.foldl_cons, assign_of_new new, induction]
      · rw [List.append_assoc]
        rfl
      · rw [List.append_assoc]
        exact distinct

theorem keys_assign (dictionary : List (κ × α)) (entry : κ × α) :
    (assign dictionary entry).map (·.1) =
      if entry.1 ∈ dictionary.map (·.1) then dictionary.map (·.1)
      else dictionary.map (·.1) ++ [entry.1] := by
  by_cases there : entry.1 ∈ dictionary.map (·.1)
  · have found : dictionary.any (·.1 == entry.1) := by
      obtain ⟨old, member, same⟩ := List.mem_map.mp there
      exact List.any_eq_true.mpr ⟨old, member, beq_iff_eq.mpr same⟩
    rw [if_pos there, assign, if_pos found, List.map_map]
    apply List.map_congr_left
    intro old _
    rw [Function.comp_apply]
    split
    · rename_i same
      exact same.symm
    · rfl
  · rw [if_neg there, assign_of_new there, List.map_append]
    rfl

/-- A dictionary has no key twice. -/
theorem nodup_foldl_assign {dictionary : List (κ × α)}
    (distinct : (dictionary.map (·.1)).Nodup) (entries : List (κ × α)) :
    ((entries.foldl assign dictionary).map (·.1)).Nodup := by
  induction entries generalizing dictionary with
  | nil => exact distinct
  | cons entry entries induction =>
      apply induction
      rw [keys_assign]
      split
      · exact distinct
      · rename_i new
        refine List.nodup_append.mpr ⟨distinct, List.pairwise_singleton _ _, ?_⟩
        rintro key before _ last rfl
        rw [List.mem_singleton.mp last] at before
        exact new before

section Lookup

variable {κ α : Type} [BEq κ] [LawfulBEq κ] {dictionary : List (κ × α)}
  {key : κ}

theorem lookup_isSome_iff :
    (dictionary.lookup key).isSome ↔ key ∈ dictionary.map Prod.fst := by
  rw [List.lookup_isSome_iff, List.mem_map]
  constructor
  · intro found
    obtain ⟨entry, member, same⟩ := found
    exact ⟨entry, member, (eq_of_beq same).symm⟩
  · intro found
    obtain ⟨entry, member, same⟩ := found
    exact ⟨entry, member, beq_iff_eq.mpr same.symm⟩

theorem lookup_eq_none_iff :
    dictionary.lookup key = none ↔ key ∉ dictionary.map Prod.fst := by
  rw [← lookup_isSome_iff, Option.not_isSome_iff_eq_none]

theorem lookup_of_mem {value : α} (nodup : (dictionary.map Prod.fst).Nodup)
    (member : (key, value) ∈ dictionary) :
    dictionary.lookup key = some value := by
  induction dictionary with
  | nil => cases member
  | cons head dictionary induction =>
      obtain ⟨absent, nodup⟩ := List.nodup_cons.mp nodup
      rw [List.lookup_cons]
      rcases List.mem_cons.mp member with rfl | later
      · simp
      · have different : key ≠ head.1 := by
          intro same
          apply absent
          rw [← same]
          exact List.mem_map_of_mem later
        rw [beq_eq_false_iff_ne.mpr different]
        exact induction nodup later

end Lookup

section Assigned

variable {κ α : Type}

/-- An entry is there, and no other has its key. -/
structure Assigned (dictionary : List (κ × α)) (entry : κ × α) : Prop where
  held : entry ∈ dictionary
  only : ∀ other ∈ dictionary, other.1 = entry.1 → other = entry

theorem Assigned.lookup_eq [BEq κ] [LawfulBEq κ] {dictionary : List (κ × α)}
    {entry : κ × α} (assigned : Assigned dictionary entry) :
    dictionary.lookup entry.1 = some entry.2 := by
  cases found : dictionary.lookup entry.1 with
  | none =>
      exact absurd (List.mem_map_of_mem assigned.held)
        (lookup_eq_none_iff.mp found)
  | some value =>
      obtain ⟨first, second, split, -⟩ := List.lookup_eq_some_iff.mp found
      have member : (entry.1, value) ∈ dictionary := by
        rw [split]
        exact List.mem_append_right _ List.mem_cons_self
      rw [← assigned.only _ member rfl]

variable [DecidableEq κ] {dictionary : List (κ × α)} {entry other : κ × α}

theorem assigned_assign : Assigned (assign dictionary entry) entry := by
  unfold assign
  split
  · rename_i there
    obtain ⟨old, member, same⟩ := List.any_eq_true.mp there
    constructor
    · refine List.mem_map.mpr ⟨old, member, ?_⟩
      rw [if_pos (eq_of_beq same)]
    · intro held mapped sameKey
      obtain ⟨before, -, rfl⟩ := List.mem_map.mp mapped
      by_cases here : before.1 = entry.1
      · rw [if_pos here]
      · rw [if_neg here] at sameKey
        exact absurd sameKey here
  · rename_i missing
    constructor
    · exact List.mem_append_right _ List.mem_cons_self
    · intro held member sameKey
      rcases List.mem_append.mp member with before | last
      · exact absurd (List.any_eq_true.mpr ⟨held, before, by simpa⟩) missing
      · exact List.mem_singleton.mp last

/-- An assignment to another key leaves it. -/
theorem Assigned.assign (assigned : Assigned dictionary entry)
    (differ : entry.1 ≠ other.1) :
    Assigned (Dictionary.assign dictionary other) entry := by
  constructor
  · unfold Dictionary.assign
    split
    · refine List.mem_map.mpr ⟨entry, assigned.held, ?_⟩
      rw [if_neg differ]
    · exact List.mem_append_left _ assigned.held
  · intro held member sameKey
    rcases mem_assign member with before | rfl
    · exact assigned.only held before sameKey
    · exact absurd sameKey.symm differ

/-- The same assignment again changes nothing. -/
theorem Assigned.assign_eq (assigned : Assigned dictionary entry) :
    Dictionary.assign dictionary entry = dictionary := by
  have there : dictionary.any (·.1 == entry.1) = true :=
    List.any_eq_true.mpr ⟨entry, assigned.held, beq_self_eq_true _⟩
  rw [Dictionary.assign, if_pos there]
  refine (List.map_congr_left ?_).trans (List.map_id _)
  intro held member
  by_cases here : held.1 = entry.1
  · rw [if_pos here, assigned.only held member here]
    rfl
  · rw [if_neg here]
    rfl

theorem lookup_assign_of_ne [BEq κ] [LawfulBEq κ] {key : κ}
    (differ : key ≠ entry.1) :
    (assign dictionary entry).lookup key = dictionary.lookup key := by
  have missing : (key == entry.1) = false := beq_eq_false_iff_ne.mpr differ
  unfold assign
  split
  · clear * - missing
    induction dictionary with
    | nil => rfl
    | cons head dictionary induction =>
        rw [List.map_cons, List.lookup_cons, List.lookup_cons, induction]
        by_cases here : head.1 = entry.1
        · rw [if_pos here, here, missing]
        · rw [if_neg here]
  · rw [List.lookup_append]
    rw [List.lookup_cons, missing]
    simp

end Assigned

end PpcLab.Dictionary

namespace PpcLab.Json

variable {fields : Fields} {key other : Str} {value : Json}

private theorem find?_of_filter {first second : Fields}
    (same : first.filter (·.1 == key) = second.filter (·.1 == key)) :
    find? first key = find? second key := by
  rw [find?, find?, ← List.head?_filter, ← List.head?_filter, same]

theorem find?_assign_of_ne (differ : key ≠ other) :
    find? (Dictionary.assign fields (key, value)) other = find? fields other := by
  apply find?_of_filter
  have filtered := Dictionary.filter_assign (· == other) fields (key, value)
  rw [if_neg (by simpa using differ)] at filtered
  exact filtered

theorem find?_assign_self :
    find? (Dictionary.assign fields (key, value)) key = some value := by
  unfold Dictionary.assign
  split
  · rename_i there
    obtain ⟨member, held, same⟩ := List.any_eq_true.mp there
    clear there
    induction fields with
    | nil => cases held
    | cons first fields induction =>
        rw [List.map_cons]
        by_cases here : first.1 = key
        · simp [find?, here]
        · rcases List.mem_cons.mp held with rfl | later
          · exact absurd (eq_of_beq same) here
          · have found := induction later
            unfold find? at found ⊢
            rw [if_neg here, List.find?_cons_of_neg (by simpa using here)]
            exact found
  · rename_i missing
    have absent : fields.find? (·.1 == key) = none := by
      rw [List.find?_eq_none]
      intro member held same
      apply missing
      refine List.any_eq_true.mpr ⟨member, held, ?_⟩
      simpa using same
    rw [find?, List.find?_append, absent]
    simp

theorem get_assign_of_ne (differ : key ≠ other) :
    get (Dictionary.assign fields (key, value)) other = get fields other := by
  rw [get, get, find?_assign_of_ne differ]

theorem get_assign_self :
    get (Dictionary.assign fields (key, value)) key = value := by
  rw [get, find?_assign_self]
  rfl

theorem get_of_mem (distinct : (fields.map (·.1)).Nodup)
    {member : Str × Json} (held : member ∈ fields) :
    get fields member.1 = member.2 := by
  induction fields with
  | nil => cases held
  | cons first fields induction =>
      obtain ⟨key, value⟩ := first
      obtain ⟨new, distinct⟩ := List.nodup_cons.mp distinct
      rw [get_cons]
      rcases List.mem_cons.mp held with rfl | later
      · rw [if_pos rfl]
      · rw [if_neg, induction distinct later]
        rintro rfl
        exact new (List.mem_map.mpr ⟨member, later, rfl⟩)

end PpcLab.Json
