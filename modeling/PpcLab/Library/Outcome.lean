import Mathlib.Data.List.Basic

/-!
# Steps that can fail

A sequence of steps succeeds exactly when every one does, and so does a step for
every element of a list.
-/

namespace PpcLab.Outcome

variable {ε α β : Type}

theorem bind_eq_ok {first : Except ε α} {next : α → Except ε β} {result : β} :
    (first >>= next) = .ok result ↔
      ∃ value, first = .ok value ∧ next value = .ok result := by
  cases first with
  | error failure =>
      constructor
      · intro succeeded
        cases succeeded
      · intro ⟨_, failed, _⟩
        cases failed
  | ok value =>
      constructor
      · intro succeeded
        exact ⟨value, rfl, succeeded⟩
      · intro ⟨_, same, succeeded⟩
        cases same
        exact succeeded

theorem mapM_eq_ok {step : α → Except ε β} {result : α → β} {items : List α}
    (succeeds : ∀ item ∈ items, step item = .ok (result item)) :
    items.mapM step = .ok (items.map result) := by
  induction items with
  | nil => rfl
  | cons item items induction =>
      have rest := induction fun other member => succeeds other (by simp [member])
      rw [List.mapM_cons, succeeds item (by simp), rest]
      rfl

theorem length_of_mapM {step : α → Except ε β} {items : List α}
    {results : List β} (succeeded : items.mapM step = .ok results) :
    results.length = items.length := by
  induction items generalizing results with
  | nil =>
      cases succeeded
      rfl
  | cons item items induction =>
      rw [List.mapM_cons] at succeeded
      obtain ⟨result, _, succeeded⟩ := bind_eq_ok.mp succeeded
      obtain ⟨rest, others, succeeded⟩ := bind_eq_ok.mp succeeded
      cases succeeded
      rw [List.length_cons, List.length_cons, induction others]

theorem exists_of_mem_mapM {step : α → Except ε β} {items : List α}
    {results : List β} (succeeded : items.mapM step = .ok results) :
    ∀ result ∈ results, ∃ item ∈ items, step item = .ok result := by
  induction items generalizing results with
  | nil =>
      cases succeeded
      intro result absent
      cases absent
  | cons item items induction =>
      rw [List.mapM_cons] at succeeded
      obtain ⟨first, isFirst, succeeded⟩ := bind_eq_ok.mp succeeded
      obtain ⟨rest, others, succeeded⟩ := bind_eq_ok.mp succeeded
      cases succeeded
      intro result member
      rcases List.mem_cons.mp member with here | later
      · rw [here]
        exact ⟨item, List.mem_cons_self, isFirst⟩
      · obtain ⟨other, inItems, isResult⟩ := induction others result later
        exact ⟨other, List.mem_cons_of_mem _ inItems, isResult⟩

/-- Where all steps were taken each of them was. -/
theorem ok_of_mapM {step : α → Except ε β} {items : List α} {results : List β}
    (succeeded : items.mapM step = .ok results) :
    ∀ item ∈ items, ∃ result, step item = .ok result := by
  induction items generalizing results with
  | nil => simp
  | cons first items induction =>
      rw [List.mapM_cons] at succeeded
      obtain ⟨result, isFirst, rest⟩ := bind_eq_ok.mp succeeded
      obtain ⟨others, isRest, _⟩ := bind_eq_ok.mp rest
      exact List.forall_mem_cons.mpr ⟨⟨result, isFirst⟩, induction isRest⟩

/-- The result of every step is among the results. -/
theorem exists_mem_of_mapM {step : α → Except ε β} {items : List α}
    {results : List β} (succeeded : items.mapM step = .ok results) :
    ∀ item ∈ items, ∃ result ∈ results, step item = .ok result := by
  induction items generalizing results with
  | nil => simp
  | cons first items induction =>
      rw [List.mapM_cons] at succeeded
      obtain ⟨result, isFirst, rest⟩ := bind_eq_ok.mp succeeded
      obtain ⟨others, isRest, same⟩ := bind_eq_ok.mp rest
      cases same
      refine List.forall_mem_cons.mpr
        ⟨⟨result, List.mem_cons_self, isFirst⟩, ?_⟩
      intro item listed
      obtain ⟨other, inside, stepped⟩ := induction isRest item listed
      exact ⟨other, List.mem_cons_of_mem _ inside, stepped⟩

/-- A step that succeeds for every item gives a list of results, item by
item. -/
theorem mapM_forall₂ {step : α → Except ε β} {relation : α → β → Prop}
    {items : List α}
    (succeeds : ∀ item ∈ items, ∃ result, step item = .ok result ∧
      relation item result) :
    ∃ results, items.mapM step = .ok results ∧
      List.Forall₂ relation items results := by
  induction items with
  | nil => exact ⟨[], rfl, .nil⟩
  | cons item items induction =>
      obtain ⟨first, isFirst, related⟩ := succeeds item List.mem_cons_self
      obtain ⟨rest, others, relatedRest⟩ := induction fun other member =>
        succeeds other (List.mem_cons_of_mem _ member)
      refine ⟨first :: rest, ?_, .cons related relatedRest⟩
      rw [List.mapM_cons, isFirst, others]
      rfl

/-- A step fails in no other ways than the allowed ones. -/
def RaisesOnly (allowed : ε → Prop) (outcome : Except ε α) : Prop :=
  ∀ failure, outcome = .error failure → allowed failure

variable {allowed : ε → Prop}

theorem raisesOnly_ok (value : α) :
    RaisesOnly allowed (.ok value : Except ε α) := by
  intro failure failed
  cases failed

theorem raisesOnly_error {failure : ε} :
    RaisesOnly allowed (.error failure : Except ε α) ↔ allowed failure := by
  constructor
  · intro raises
    exact raises failure rfl
  · intro fine other same
    cases same
    exact fine

theorem raisesOnly_bind {first : Except ε α} {next : α → Except ε β} :
    RaisesOnly allowed (first >>= next) ↔ RaisesOnly allowed first ∧
      ∀ value, first = .ok value → RaisesOnly allowed (next value) := by
  cases first with
  | error failure =>
      constructor
      · intro raises
        refine ⟨raisesOnly_error.mpr (raises failure rfl), ?_⟩
        intro value same
        cases same
      · intro raises other same
        cases same
        exact raises.1 failure rfl
  | ok value =>
      constructor
      · intro raises
        refine ⟨raisesOnly_ok value, ?_⟩
        intro other same
        cases same
        exact raises
      · intro raises
        exact raises.2 value rfl

theorem raisesOnly_map {outcome : Except ε α} (change : α → β) :
    RaisesOnly allowed (outcome.map change) ↔ RaisesOnly allowed outcome := by
  cases outcome with
  | error failure => rw [Except.map, raisesOnly_error, raisesOnly_error]
  | ok value => exact ⟨fun _ => raisesOnly_ok _, fun _ => raisesOnly_ok _⟩

/-- The first step that fails is allowed to. -/
def LoopRaisesOnly (allowed : ε → Prop) (step : α → Except ε β)
    (items : List α) : Prop :=
  ∀ before item after, items = before ++ item :: after →
    (∀ earlier ∈ before, ∃ result, step earlier = .ok result) →
    RaisesOnly allowed (step item)

theorem raisesOnly_mapM {step : α → Except ε β} {items : List α} :
    RaisesOnly allowed (items.mapM step) ↔
      LoopRaisesOnly allowed step items := by
  induction items with
  | nil =>
      constructor
      · intro _ before item after split
        cases before <;> cases split
      · intro _
        exact raisesOnly_ok []
  | cons first items induction =>
      rw [List.mapM_cons, raisesOnly_bind]
      have tail (result : β) :
          RaisesOnly allowed (do
            let results ← items.mapM step
            return result :: results) ↔ RaisesOnly allowed (items.mapM step) := by
        rw [raisesOnly_bind]
        exact ⟨fun both => both.1, fun here => ⟨here, fun _ _ => raisesOnly_ok _⟩⟩
      constructor
      · rintro ⟨here, rest⟩ before item after split fine
        cases before with
        | nil =>
            cases split
            exact here
        | cons head before =>
            cases split
            obtain ⟨⟨result, isResult⟩, fine⟩ := List.forall_mem_cons.mp fine
            exact (induction.mp ((tail result).mp (rest result isResult)))
              before item after rfl fine
      · intro loop
        refine ⟨loop [] first items rfl (by simp), ?_⟩
        intro result isResult
        apply (tail result).mpr
        apply induction.mpr
        intro before item after split fine
        apply loop (first :: before) item after
        · rw [split]
          rfl
        · exact List.forall_mem_cons.mpr ⟨⟨result, isResult⟩, fine⟩

/-- The first step that fails, each after the ones before it, is allowed to. -/
def FoldRaisesOnly (allowed : ε → Prop) (step : β → α → Except ε β)
    (start : β) (items : List α) : Prop :=
  ∀ before item after state, items = before ++ item :: after →
    before.foldlM step start = .ok state →
    RaisesOnly allowed (step state item)

theorem raisesOnly_foldlM {step : β → α → Except ε β} {start : β}
    {items : List α} :
    RaisesOnly allowed (items.foldlM step start) ↔
      FoldRaisesOnly allowed step start items := by
  induction items generalizing start with
  | nil =>
      constructor
      · intro _ before item after state split
        cases before <;> cases split
      · intro _
        exact raisesOnly_ok start
  | cons first items induction =>
      rw [List.foldlM_cons, raisesOnly_bind]
      constructor
      · rintro ⟨here, rest⟩ before item after state split reached
        cases before with
        | nil =>
            cases split
            cases reached
            exact here
        | cons head before =>
            cases split
            rw [List.foldlM_cons] at reached
            obtain ⟨next, stepped, reached⟩ := bind_eq_ok.mp reached
            exact induction.mp (rest next stepped) before item after state rfl
              reached
      · intro fold
        refine ⟨fold [] first items start rfl rfl, ?_⟩
        intro next stepped
        apply induction.mpr
        intro before item after state split reached
        apply fold (first :: before) item after state
        · rw [split]
          rfl
        · rw [List.foldlM_cons, stepped]
          exact reached

end PpcLab.Outcome
