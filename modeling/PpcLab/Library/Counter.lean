import Mathlib.Algebra.BigOperators.Group.List.Basic
import Mathlib.Algebra.GroupWithZero.Nat
import Mathlib.Data.List.Sort

/-!
# Counters

A counter tells how often each key has been counted, in the order in which the
keys came first, and keeps the first item with each key.  What all the items
weigh together can be read off the counter.
-/

namespace PpcLab.Counter

variable {α κ : Type}

section

variable [DecidableEq κ] (key : α → κ)

def count : List (α × Nat) → α → List (α × Nat)
  | [], item => [(item, 1)]
  | entry :: counter, item =>
      if key entry.1 = key item then (entry.1, entry.2 + 1) :: counter
      else entry :: count counter item

/-- `Counter` of the keys. -/
def counted (items : List α) : List (α × Nat) :=
  items.foldl (count key) []

end

/-- What the counted items weigh together. -/
def weight (weigh : α → Nat) (counter : List (α × Nat)) : Nat :=
  (counter.map fun entry => entry.2 * weigh entry.1).sum

def total (counter : List (α × Nat)) : Nat :=
  (counter.map Prod.snd).sum

theorem total_eq_weight (counter : List (α × Nat)) :
    total counter = weight (fun _ => 1) counter := by
  unfold total weight
  congr 1
  apply List.map_congr_left
  intro entry _
  exact (Nat.mul_one entry.2).symm

theorem total_perm {left right : List (α × Nat)} (same : left.Perm right) :
    total left = total right :=
  (same.map Prod.snd).sum_eq

theorem weight_perm (weigh : α → Nat) {left right : List (α × Nat)}
    (same : left.Perm right) : weight weigh left = weight weigh right :=
  (same.map _).sum_eq

section

variable [DecidableEq κ] {key : α → κ}

/-- Counting adds the weight of the item, when the key decides the weight. -/
theorem weight_count {weigh : α → Nat}
    (decided : ∀ first second, key first = key second →
      weigh first = weigh second)
    (counter : List (α × Nat)) (item : α) :
    weight weigh (count key counter item) =
      weight weigh counter + weigh item := by
  induction counter with
  | nil => simp [count, weight]
  | cons entry counter induction =>
      rw [count]
      split
      · rename_i same
        have equal : weigh entry.1 = weigh item := decided _ _ same
        simp only [weight, List.map_cons, List.sum_cons, ← equal]
        rw [Nat.add_mul, Nat.one_mul]
        omega
      · unfold weight at induction ⊢
        rw [List.map_cons, List.map_cons, List.sum_cons, List.sum_cons,
          induction, Nat.add_assoc]

theorem weight_counted {weigh : α → Nat}
    (decided : ∀ first second, key first = key second →
      weigh first = weigh second)
    (items : List α) :
    weight weigh (counted key items) = (items.map weigh).sum := by
  have counting (counter : List (α × Nat)) :
      weight weigh (items.foldl (count key) counter) =
        weight weigh counter + (items.map weigh).sum := by
    induction items generalizing counter with
    | nil => rfl
    | cons item items induction =>
        rw [List.foldl_cons, induction, weight_count decided, List.map_cons,
          List.sum_cons, Nat.add_assoc]
  have whole := counting []
  rw [show weight weigh [] = 0 from rfl, Nat.zero_add] at whole
  exact whole

theorem total_counted (items : List α) :
    total (counted key items) = items.length := by
  rw [total_eq_weight, weight_counted (fun _ _ _ => rfl)]
  simp

theorem keys_count (counter : List (α × Nat)) (item : α) :
    (count key counter item).map (fun entry => key entry.1) =
      if key item ∈ counter.map (fun entry => key entry.1) then
        counter.map fun entry => key entry.1
      else counter.map (fun entry => key entry.1) ++ [key item] := by
  induction counter with
  | nil => simp [count]
  | cons entry counter induction =>
      rw [count]
      by_cases same : key entry.1 = key item
      · rw [if_pos same, if_pos]
        · rfl
        · rw [List.map_cons, same]
          exact List.mem_cons_self
      · rw [if_neg same, List.map_cons, induction, List.map_cons]
        by_cases member : key item ∈ counter.map fun entry => key entry.1
        · rw [if_pos member, if_pos (List.mem_cons_of_mem _ member)]
        · rw [if_neg member, if_neg]
          · rfl
          · intro there
            rcases List.mem_cons.mp there with here | rest
            · exact same here.symm
            · exact member rest

theorem mem_keys_counted {items : List α} {wanted : κ} :
    wanted ∈ (counted key items).map (fun entry => key entry.1) ↔
      ∃ item ∈ items, key item = wanted := by
  have counting (counter : List (α × Nat)) :
      wanted ∈ (items.foldl (count key) counter).map
          (fun entry => key entry.1) ↔
        wanted ∈ counter.map (fun entry => key entry.1) ∨
          ∃ item ∈ items, key item = wanted := by
    induction items generalizing counter with
    | nil => simp
    | cons item items induction =>
        rw [List.foldl_cons, induction, keys_count]
        split
        · rename_i known
          constructor
          · rintro (there | ⟨other, member, same⟩)
            · exact .inl there
            · exact .inr ⟨other, List.mem_cons_of_mem _ member, same⟩
          · rintro (there | ⟨other, member, same⟩)
            · exact .inl there
            · rcases List.mem_cons.mp member with rfl | later
              · exact .inl (same ▸ known)
              · exact .inr ⟨other, later, same⟩
        · rw [List.mem_append, List.mem_singleton, List.exists_mem_cons_iff,
            or_assoc, eq_comm (a := wanted)]
  refine (counting []).trans ?_
  simp

end

section

variable [DecidableEq α]

end

/-- `most_common()` -/
def mostCommon (counter : List (α × Nat)) : List (α × Nat) :=
  counter.insertionSort fun first second => second.2 ≤ first.2

theorem perm_mostCommon (counter : List (α × Nat)) :
    (mostCommon counter).Perm counter :=
  List.perm_insertionSort _ counter

end PpcLab.Counter
