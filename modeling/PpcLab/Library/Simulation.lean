import Mathlib.Data.List.Forall2
import Mathlib.Logic.Basic

/-!
# Simulation of programs that may fail

A program reads and changes a state, and either returns a value or fails with
an error; the state it reached stays visible either way.  One program simulates
another when related states lead to the same kind of outcome with related
states, equal errors and related values.  Simulations compose along the
structure of the programs.

Two programs end alike when from every state both succeed with one value or
both fail, and the state they leave is the same.  What an error says does not
count.  Ending alike is kept by the structure of the programs, also between a
loop and its iterations written out.
-/

namespace PpcLab

variable {ε σ τ α β γ δ : Type}

/-- The two outcomes are of one kind, with related values and states. -/
def SameOutcome (states : σ → τ → Prop) (values : α → β → Prop) :
    EStateM.Result ε σ α → EStateM.Result ε τ β → Prop
  | .ok value state, .ok value' state' =>
      values value value' ∧ states state state'
  | .error message state, .error message' state' =>
      message = message' ∧ states state state'
  | _, _ => False

/-- The state a program ended in, whether it failed or not. -/
def stateOf : EStateM.Result ε σ α → σ
  | .ok _ state => state
  | .error _ state => state

/-- The error a program failed with. -/
def failure : EStateM.Result ε σ α → Option ε
  | .ok _ _ => none
  | .error message _ => some message

theorem SameOutcome.failure_and_state {states : σ → τ → Prop}
    {values : α → β → Prop} {first : EStateM.Result ε σ α}
    {second : EStateM.Result ε τ β}
    (related : SameOutcome states values first second) :
    failure second = failure first ∧
      states (stateOf first) (stateOf second) := by
  cases first with
  | ok value state =>
      cases second with
      | ok value' state' => exact ⟨rfl, related.2⟩
      | error message' state' => exact related.elim
  | error message state =>
      cases second with
      | ok value' state' => exact related.elim
      | error message' state' =>
          exact ⟨congrArg some related.1.symm, related.2⟩

def Simulates (states : σ → τ → Prop) (values : α → β → Prop)
    (first : EStateM ε σ α) (second : EStateM ε τ β) : Prop :=
  ∀ state state', states state state' →
    SameOutcome states values (first state) (second state')

namespace Simulates

variable {states : σ → τ → Prop}

theorem pure {values : α → β → Prop} {value : α} {value' : β}
    (related : values value value') :
    Simulates (ε := ε) states values (Pure.pure value) (Pure.pure value') := by
  intro state state' relatedStates
  exact ⟨related, relatedStates⟩

theorem throw {values : α → β → Prop} (message : ε) :
    Simulates states values (MonadExcept.throw message : EStateM ε σ α)
      (MonadExcept.throw message : EStateM ε τ β) := by
  intro state state' relatedStates
  exact ⟨rfl, relatedStates⟩

theorem bind {values : α → β → Prop} {results : γ → δ → Prop}
    {first : EStateM ε σ α} {second : EStateM ε τ β}
    {next : α → EStateM ε σ γ} {next' : β → EStateM ε τ δ}
    (head : Simulates states values first second)
    (tail : ∀ value value', values value value' →
      Simulates states results (next value) (next' value')) :
    Simulates states results (first >>= next) (second >>= next') := by
  intro state state' relatedStates
  have outcome := head state state' relatedStates
  show SameOutcome states results (EStateM.bind first next state)
    (EStateM.bind second next' state')
  unfold EStateM.bind
  cases firstRun : first state with
  | ok value after =>
      cases secondRun : second state' with
      | ok value' after' =>
          rw [firstRun, secondRun] at outcome
          exact tail value value' outcome.1 after after' outcome.2
      | error message after' =>
          rw [firstRun, secondRun] at outcome
          exact outcome.elim
  | error message after =>
      cases secondRun : second state' with
      | ok value' after' =>
          rw [firstRun, secondRun] at outcome
          exact outcome.elim
      | error message' after' =>
          rw [firstRun, secondRun] at outcome
          exact outcome

/-- Sequencing when the first part returns nothing of interest. -/
theorem andThen {results : γ → δ → Prop}
    {first : EStateM ε σ Unit} {second : EStateM ε τ Unit}
    {next : EStateM ε σ γ} {next' : EStateM ε τ δ}
    (head : Simulates states (fun _ _ => True) first second)
    (tail : Simulates states results next next') :
    Simulates states results (first >>= fun _ => next)
      (second >>= fun _ => next') :=
  bind head fun _ _ _ => tail

theorem modify {change : σ → σ} {change' : τ → τ}
    (related : ∀ state state', states state state' →
      states (change state) (change' state')) :
    Simulates (ε := ε) states (fun _ _ => True) (modifyThe σ change)
      (modifyThe τ change') := by
  intro state state' relatedStates
  exact ⟨trivial, related state state' relatedStates⟩

/-- Both programs read related states. -/
theorem get :
    Simulates (ε := ε) states states MonadState.get MonadState.get := by
  intro state state' relatedStates
  exact ⟨relatedStates, relatedStates⟩

end Simulates

/-- `for (r = 0; r < count; ++r) body` -/
def times (body : EStateM ε σ Unit) : Nat → EStateM ε σ Unit
  | 0 => Pure.pure ()
  | count + 1 => do
      body
      times body count

theorem Simulates.times {states : σ → τ → Prop}
    {body : EStateM ε σ Unit} {body' : EStateM ε τ Unit}
    (step : Simulates states (fun _ _ => True) body body') (count : Nat) :
    Simulates states (fun _ _ => True) (times body count)
      (times body' count) := by
  induction count with
  | zero => exact .pure trivial
  | succ count induction => exact .andThen step induction

/-- Run a program for each item of a list, in order. -/
def inOrder (body : γ → EStateM ε σ Unit) : List γ → EStateM ε σ Unit
  | [] => Pure.pure ()
  | item :: items => do
      body item
      inOrder body items

theorem Simulates.inOrder {states : σ → τ → Prop}
    {body : γ → EStateM ε σ Unit} {body' : γ → EStateM ε τ Unit}
    {items : List γ}
    (step : ∀ item ∈ items,
      Simulates states (fun _ _ => True) (body item) (body' item)) :
    Simulates states (fun _ _ => True) (inOrder body items)
      (inOrder body' items) := by
  induction items with
  | nil => exact .pure trivial
  | cons item items induction =>
      apply Simulates.andThen
      · exact step item List.mem_cons_self
      · apply induction
        intro later member
        exact step later (List.mem_cons_of_mem _ member)

end PpcLab

namespace PpcLab

variable {ε σ α β γ δ : Type}

/-- What a program came to: its value unless it failed, and the state. -/
def fate : EStateM.Result ε σ α → Option α × σ
  | .ok value state => (some value, state)
  | .error _ state => (none, state)

def SameFate (first second : EStateM ε σ α) : Prop :=
  ∀ state, fate (first state) = fate (second state)

namespace SameFate

variable {first second third : EStateM ε σ α}

theorem of_eq (same : first = second) : SameFate first second := by
  intro state
  rw [same]

theorem refl : SameFate first first :=
  of_eq rfl

theorem throw (message message' : ε) :
    SameFate (MonadExcept.throw message : EStateM ε σ α)
      (MonadExcept.throw message') := by
  intro state
  rfl

theorem bind {next next' : α → EStateM ε σ β}
    (head : SameFate first second)
    (tail : ∀ value, SameFate (next value) (next' value)) :
    SameFate (first >>= next) (second >>= next') := by
  intro state
  have alike := head state
  show fate (EStateM.bind first next state) =
    fate (EStateM.bind second next' state)
  unfold EStateM.bind
  cases firstRun : first state with
  | ok value after =>
      cases secondRun : second state with
      | ok value' after' =>
          rw [firstRun, secondRun] at alike
          cases alike
          exact tail value after
      | error message after' =>
          rw [firstRun, secondRun] at alike
          cases alike
  | error message after =>
      cases secondRun : second state with
      | ok value' after' =>
          rw [firstRun, secondRun] at alike
          cases alike
      | error message' after' =>
          rw [firstRun, secondRun] at alike
          cases alike
          rfl

theorem times {first second : EStateM ε σ Unit}
    (alike : SameFate first second) (count : Nat) :
    SameFate (times first count) (times second count) := by
  induction count with
  | zero => exact refl
  | succ count induction => exact bind alike fun _ => induction

/-- Two lists of items whose bodies end alike one by one. -/
theorem inOrder {body : γ → EStateM ε σ Unit} {body' : δ → EStateM ε σ Unit}
    {items : List γ} {items' : List δ}
    (alike : List.Forall₂ (fun item item' => SameFate (body item) (body' item'))
      items items') :
    SameFate (inOrder body items) (inOrder body' items') := by
  induction alike with
  | nil => exact refl
  | cons head _ induction => exact bind head fun _ => induction

end SameFate

theorem inOrder_singleton (body : γ → EStateM ε σ Unit) (item : γ) :
    inOrder body [item] = body item :=
  bind_pure_unit

theorem inOrder_append (body : γ → EStateM ε σ Unit) (items later : List γ) :
    inOrder body (items ++ later) =
      (inOrder body items >>= fun _ => inOrder body later) := by
  induction items with
  | nil => rfl
  | cons item items induction =>
      show (body item >>= fun _ => inOrder body (items ++ later)) = _
      rw [induction]
      exact (bind_assoc _ _ _).symm

end PpcLab
