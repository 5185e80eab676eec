import Mathlib.Data.List.MinMax
import Mathlib.Logic.Basic
import Mathlib.Logic.Function.Basic

/-!
# Runs of a step function

A system takes one input after the other; an input that does not fit the state
is refused.  What one step keeps under a condition on the state it is taken
in, every run keeps whose steps all meet the condition.

A loop over keys that changes only the slot of the key, and stops at the first
failure.

`min` with a key, over an order that decides every comparison.
-/

namespace PpcLab

variable {σ ι : Type}

/-- The state after a list of inputs. -/
def follow (step : σ → ι → Option σ) : σ → List ι → Option σ
  | state, [] => some state
  | state, input :: inputs =>
      (step state input).bind fun next => follow step next inputs

/-- Every input meets a condition in the state it is taken in. -/
def Along (step : σ → ι → Option σ) (condition : σ → ι → Prop) :
    σ → List ι → Prop
  | _, [] => True
  | state, input :: inputs =>
      condition state input ∧
        ∀ next ∈ step state input, Along step condition next inputs

instance Along.decidable (step : σ → ι → Option σ)
    (condition : σ → ι → Prop)
    [∀ state input, Decidable (condition state input)] :
    (state : σ) → (inputs : List ι) →
      Decidable (Along step condition state inputs)
  | _, [] => .isTrue trivial
  | state, input :: inputs =>
      let _ next := Along.decidable step condition next inputs
      inferInstanceAs (Decidable (condition state input ∧
        ∀ next ∈ step state input, Along step condition next inputs))

theorem along_of_forall {step : σ → ι → Option σ} {condition : σ → ι → Prop}
    (always : ∀ state input, condition state input) (state : σ)
    (inputs : List ι) : Along step condition state inputs := by
  induction inputs generalizing state with
  | nil => exact trivial
  | cons input inputs induction =>
      exact ⟨always state input, fun next _ => induction next⟩

theorem along_cons {step : σ → ι → Option σ} {condition : σ → ι → Prop}
    {state next : σ} {input : ι} {inputs : List ι}
    (stepped : step state input = some next) (here : condition state input)
    (rest : Along step condition next inputs) :
    Along step condition state (input :: inputs) := by
  refine ⟨here, ?_⟩
  intro other same
  rw [stepped] at same
  cases same
  exact rest

/-- A condition that the inputs of a run meet in every state. -/
theorem along_of_mem {step : σ → ι → Option σ} {condition : σ → ι → Prop}
    {inputs : List ι} (each : ∀ state, ∀ input ∈ inputs, condition state input)
    (state : σ) : Along step condition state inputs := by
  induction inputs generalizing state with
  | nil => exact trivial
  | cons input inputs induction =>
      refine ⟨each state input List.mem_cons_self, ?_⟩
      intro next _
      exact induction (fun other later member =>
        each other later (List.mem_cons_of_mem _ member)) next

theorem Along.and {step : σ → ι → Option σ} {first second : σ → ι → Prop}
    {state : σ} {inputs : List ι} (left : Along step first state inputs)
    (right : Along step second state inputs) :
    Along step (fun state input => first state input ∧ second state input)
      state inputs := by
  induction inputs generalizing state with
  | nil => exact trivial
  | cons input inputs induction =>
      refine ⟨⟨left.1, right.1⟩, ?_⟩
      intro next stepped
      exact induction (left.2 next stepped) (right.2 next stepped)

theorem along_append {step : σ → ι → Option σ} {condition : σ → ι → Prop}
    {state middle : σ} {first second : List ι}
    (along : Along step condition state (first ++ second))
    (reached : follow step state first = some middle) :
    Along step condition state first ∧
      Along step condition middle second := by
  induction first generalizing state with
  | nil =>
      cases reached
      exact ⟨trivial, along⟩
  | cons input first induction =>
      obtain ⟨next, stepped, rest⟩ := Option.bind_eq_some_iff.mp reached
      obtain ⟨before, after⟩ := induction (along.2 next stepped) rest
      refine ⟨⟨along.1, ?_⟩, after⟩
      intro other otherStepped
      rw [stepped] at otherStepped
      cases otherStepped
      exact before

theorem follow_append (step : σ → ι → Option σ) (state : σ)
    (first second : List ι) :
    follow step state (first ++ second) =
      (follow step state first).bind fun next => follow step next second := by
  induction first generalizing state with
  | nil => rfl
  | cons input first induction =>
      rw [List.cons_append, follow, follow]
      cases step state input with
      | none => rfl
      | some next => exact induction next

/-- What every admitted step keeps, an admitted run keeps. -/
theorem follow_keeps {step : σ → ι → Option σ} {condition : σ → ι → Prop}
    {invariant : σ → Prop}
    (kept : ∀ state input next, invariant state → condition state input →
      step state input = some next → invariant next)
    {state final : σ} {inputs : List ι} (start : invariant state)
    (admitted : Along step condition state inputs)
    (ran : follow step state inputs = some final) : invariant final := by
  induction inputs generalizing state with
  | nil =>
      cases ran
      exact start
  | cons input inputs induction =>
      obtain ⟨next, stepped, rest⟩ := Option.bind_eq_some_iff.mp ran
      exact induction (kept state input next start admitted.1 stepped)
        (admitted.2 next stepped) rest

/-- What every step keeps, a run keeps. -/
theorem follow_preserves {step : σ → ι → Option σ} {invariant : σ → Prop}
    (kept : ∀ state input next, invariant state →
      step state input = some next → invariant next)
    {state final : σ} {inputs : List ι} (start : invariant state)
    (ran : follow step state inputs = some final) : invariant final :=
  follow_keeps (fun state input next held _ => kept state input next held)
    start (along_of_forall (fun _ _ => trivial) state inputs) ran

/-- Conditions that agree in the states that an admitted run can reach. -/
theorem along_iff {step : σ → ι → Option σ}
    {condition first second : σ → ι → Prop} {invariant : σ → Prop}
    (kept : ∀ state input next, invariant state → condition state input →
      step state input = some next → invariant next)
    (agree : ∀ state input, invariant state → condition state input →
      (first state input ↔ second state input))
    {state : σ} {inputs : List ι} (start : invariant state)
    (admitted : Along step condition state inputs) :
    Along step first state inputs ↔ Along step second state inputs := by
  induction inputs generalizing state with
  | nil => exact Iff.rfl
  | cons input inputs induction =>
      apply and_congr (agree state input start admitted.1)
      apply forall₂_congr
      intro next stepped
      exact induction (kept state input next start admitted.1 stepped)
        (admitted.2 next stepped)

/-- A preorder that every step respects relates the ends of a run. -/
theorem follow_relates {step : σ → ι → Option σ} {invariant : σ → Prop}
    {related : σ → σ → Prop} (reflexive : ∀ state, related state state)
    (transitive : ∀ {first second third}, related first second →
      related second third → related first third)
    (kept : ∀ state input next, invariant state →
      step state input = some next → invariant next ∧ related state next)
    {state final : σ} {inputs : List ι} (start : invariant state)
    (ran : follow step state inputs = some final) : related state final := by
  induction inputs generalizing state with
  | nil =>
      cases ran
      exact reflexive _
  | cons input inputs induction =>
      obtain ⟨next, stepped, rest⟩ := Option.bind_eq_some_iff.mp ran
      obtain ⟨nextKept, nextRelated⟩ := kept state input next start stepped
      exact transitive nextRelated (induction nextKept rest)

end PpcLab

namespace PpcLab

variable {κ σ : Type} [DecidableEq κ]

def sweep (step : κ → σ → Except σ σ) : List κ → (κ → σ) →
    Except (κ → σ) (κ → σ)
  | [], slots => .ok slots
  | key :: keys, slots =>
      match step key (slots key) with
      | .error slot => .error (Function.update slots key slot)
      | .ok slot => sweep step keys (Function.update slots key slot)

variable {step : κ → σ → Except σ σ} {keys : List κ} {slots final : κ → σ}

/-- A step that is done again does nothing or fails. -/
def Stable (step : κ → σ → Except σ σ) : Prop :=
  ∀ key slot next, step key slot = .ok next →
    step key next = .ok next ∨ ∃ failed, step key next = .error failed

theorem sweep_cons_eq_ok {first : κ}
    (ran : sweep step (first :: keys) slots = .ok final) :
    ∃ slot, step first (slots first) = .ok slot ∧
      sweep step keys (Function.update slots first slot) = .ok final := by
  unfold sweep at ran
  cases stepped : step first (slots first) with
  | error slot =>
      rw [stepped] at ran
      cases ran
  | ok slot =>
      rw [stepped] at ran
      exact ⟨slot, rfl, ran⟩

theorem sweep_of_not_mem (ran : sweep step keys slots = .ok final) {key : κ}
    (other : key ∉ keys) : final key = slots key := by
  induction keys generalizing slots with
  | nil =>
      cases ran
      rfl
  | cons first keys induction =>
      rw [List.mem_cons, not_or] at other
      obtain ⟨differ, other⟩ := other
      obtain ⟨slot, _, ran⟩ := sweep_cons_eq_ok ran
      rw [induction ran other, Function.update_of_ne differ]

/-- What a loop that ends has done to each slot. -/
theorem sweep_of_mem (stable : Stable step)
    (ran : sweep step keys slots = .ok final) {key : κ} (member : key ∈ keys) :
    step key (slots key) = .ok (final key) := by
  induction keys generalizing slots with
  | nil => cases member
  | cons first keys induction =>
      obtain ⟨slot, stepped, ran⟩ := sweep_cons_eq_ok ran
      by_cases here : key = first
      · subst here
        by_cases again : key ∈ keys
        · have later := induction ran again
          rw [Function.update_self] at later
          rcases stable key _ slot stepped with same | ⟨failed, fails⟩
          · rw [stepped, ← later, same]
          · rw [fails] at later
            cases later
        · rw [sweep_of_not_mem ran again, Function.update_self]
          exact stepped
      · have later := induction ran
          ((List.mem_cons.mp member).resolve_left here)
        rwa [Function.update_of_ne here] at later

/-- Where a loop stops, and what was done before. -/
theorem sweep_eq_error (ran : sweep step keys slots = .error final) :
    ∃ before key after middle slot, keys = before ++ key :: after ∧
      sweep step before slots = .ok middle ∧
      step key (middle key) = .error slot ∧
      final = Function.update middle key slot := by
  induction keys generalizing slots with
  | nil => cases ran
  | cons first keys induction =>
      unfold sweep at ran
      cases stepped : step first (slots first) with
      | error slot =>
          rw [stepped] at ran
          cases ran
          exact ⟨[], first, keys, slots, slot, rfl, rfl, stepped, rfl⟩
      | ok slot =>
          rw [stepped] at ran
          obtain ⟨before, key, after, middle, failed, split, rest⟩ :=
            induction ran
          refine ⟨first :: before, key, after, middle, failed, ?_, ?_⟩
          · rw [split]
            rfl
          · unfold sweep
            rw [stepped]
            exact rest

theorem sweep_stops {before : List κ} (after : List κ) {key : κ}
    {middle : κ → σ} {slot : σ} (done : sweep step before slots = .ok middle)
    (failed : step key (middle key) = .error slot) :
    sweep step (before ++ key :: after) slots =
      .error (Function.update middle key slot) := by
  induction before generalizing slots with
  | nil =>
      cases done
      rw [List.nil_append, sweep, failed]
  | cons first before induction =>
      obtain ⟨next, stepped, done⟩ := sweep_cons_eq_ok done
      rw [List.cons_append, sweep, stepped]
      exact induction done

/-- Where a loop over different keys stops: the steps before are done, and
nothing has happened to the other keys. -/
theorem sweep_stopped (stable : Stable step) (nodup : keys.Nodup)
    (ran : sweep step keys slots = .error final) :
    ∃ before key after, keys = before ++ key :: after ∧
      step key (slots key) = .error (final key) ∧
      (∀ other ∈ before, other ≠ key ∧
        step other (slots other) = .ok (final other)) ∧
      ∀ other, other ∉ before → other ≠ key → final other = slots other := by
  obtain ⟨before, key, after, middle, slot, rfl, done, failed, rfl⟩ :=
    sweep_eq_error ran
  have apart : ∀ other ∈ before, other ≠ key := fun other earlier =>
    (List.nodup_append.mp nodup).2.2 other earlier key List.mem_cons_self
  have new : key ∉ before := fun earlier => apart key earlier rfl
  rw [sweep_of_not_mem done new] at failed
  refine ⟨before, key, after, rfl, ?_, ?_, ?_⟩
  · rw [Function.update_self]
    exact failed
  · intro other earlier
    rw [Function.update_of_ne (apart other earlier)]
    exact ⟨apart other earlier, sweep_of_mem stable done earlier⟩
  · intro other missing differ
    rw [Function.update_of_ne differ, sweep_of_not_mem done missing]

/-- Keys whose steps fail when they are done again occur once in a loop that
ends. -/
theorem nodup_of_sweep (stable : Stable step)
    (once : ∀ key slot next, step key slot = .ok next →
      ∃ failed, step key next = .error failed)
    (ran : sweep step keys slots = .ok final) : keys.Nodup := by
  induction keys generalizing slots with
  | nil => exact List.nodup_nil
  | cons first keys induction =>
      obtain ⟨slot, stepped, ran⟩ := sweep_cons_eq_ok ran
      refine List.nodup_cons.mpr ⟨?_, induction ran⟩
      intro again
      have later := sweep_of_mem stable ran again
      obtain ⟨failed, fails⟩ := once first _ slot stepped
      rw [Function.update_self, fails] at later
      cases later

/-- A loop ends if every step can be done, and no second time is a failure. -/
theorem sweep_isOk (stable : Stable step)
    (each : ∀ key ∈ keys, ∃ next, step key (slots key) = .ok next ∧
      (keys.Nodup ∨ step key next = .ok next)) :
    ∃ final, sweep step keys slots = .ok final := by
  cases ran : sweep step keys slots with
  | ok final => exact ⟨final, rfl⟩
  | error stopped =>
      obtain ⟨before, key, after, middle, slot, split, done, failed, -⟩ :=
        sweep_eq_error ran
      have member : key ∈ keys := by
        rw [split]
        exact List.mem_append_right _ List.mem_cons_self
      obtain ⟨next, stepped, rest⟩ := each key member
      by_cases earlier : key ∈ before
      · have first := sweep_of_mem stable done earlier
        rw [stepped] at first
        cases first
        rcases rest with nodup | again
        · rw [split] at nodup
          have apart := (List.nodup_append.mp nodup).2.2
          exact absurd rfl (apart key earlier key List.mem_cons_self)
        · rw [failed] at again
          cases again
      · rw [sweep_of_not_mem done earlier, stepped] at failed
        cases failed

end PpcLab

namespace PpcLab

variable {α β : Type} [LinearOrder β]

def least (key : α → β) (entries : List α) : Option α :=
  entries.argmin key

variable {key : α → β} {entries : List α} {entry : α}

theorem least_mem (found : least key entries = some entry) :
    entry ∈ entries :=
  List.argmin_mem found

theorem least_le (found : least key entries = some entry) {other : α}
    (member : other ∈ entries) : key entry ≤ key other :=
  List.le_of_mem_argmin member found

theorem least_eq_none : least key entries = none ↔ entries = [] :=
  List.argmin_eq_none

end PpcLab
