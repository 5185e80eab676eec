import Mathlib.Logic.Basic

/-!
# Transfers that may fail half-way

A transfer performs numbered items one after another and gives up at the first
item that fails.  When the items do not interfere, both the failure and the
question whether a failed transfer has changed anything are decided by the
state in which it started.
-/

namespace PpcLab

variable {State : Type} {item : Nat → State → Option State}

/-- Perform `count` items from number `start` on, up to the first that
fails. -/
def transfer (item : Nat → State → Option State) :
    Nat → Nat → State → Bool × State
  | 0, _, state => (true, state)
  | count + 1, start, state =>
      match item start state with
      | none => (false, state)
      | some following => transfer item count (start + 1) following

/-- Items below `bound` do not interfere: performing one changes neither
whether another can be performed nor whether that would change anything, and
performing one twice is performing it once. -/
structure NonInterfering (item : Nat → State → Option State) (bound : Nat) :
    Prop where
  available : ∀ {first second : Nat} {state following : State},
    item second state = some following →
    (item first following).isSome = (item first state).isSome
  settled : ∀ {number : Nat} {state following : State},
    item number state = some following →
    item number following = some following
  apart : ∀ {first second : Nat} {state following : State},
    first < bound → second < bound → first ≠ second →
    item second state = some following →
    (item first following = some following ↔ item first state = some state)

namespace transfer

theorem succ_of_none {state : State} {start : Nat} (count : Nat)
    (failed : item start state = none) :
    transfer item (count + 1) start state = (false, state) := by
  simp [transfer, failed]

theorem succ_of_some {state following : State} {start : Nat} (count : Nat)
    (performed : item start state = some following) :
    transfer item (count + 1) start state =
      transfer item count (start + 1) following := by
  simp [transfer, performed]

/-- A relation that every item respects relates the two ends of a transfer. -/
theorem relates (relation : State → State → Prop)
    (reflexive : ∀ state, relation state state)
    (transitive : ∀ {first second third},
      relation first second → relation second third → relation first third)
    (respected : ∀ {number state following},
      item number state = some following → relation state following)
    (count start : Nat) (state : State) :
    relation state (transfer item count start state).2 := by
  induction count generalizing start state with
  | zero => exact reflexive state
  | succ count induction =>
      cases performed : item start state with
      | none =>
          rw [succ_of_none count performed]
          exact reflexive state
      | some following =>
          rw [succ_of_some count performed]
          exact transitive (respected performed)
            (induction (start + 1) following)

/-- The first `count` items from `start` on are available up to number
`start + reached`, and that one is not. -/
def FailsAt (item : Nat → State → Option State) (count start : Nat)
    (state : State) (reached : Nat) : Prop :=
  reached < count ∧
    (∀ index < reached, (item (start + index) state).isSome = true) ∧
    item (start + reached) state = none

theorem failsAt_succ {bound : Nat} (apart : NonInterfering item bound)
    {state following : State} {start : Nat} (count reached : Nat)
    (performed : item start state = some following) :
    FailsAt item (count + 1) start state (reached + 1) ↔
      FailsAt item count (start + 1) following reached := by
  have shift (index : Nat) : start + (index + 1) = start + 1 + index := by
    omega
  have sameAvailable (index : Nat) :
      (item index following).isSome = (item index state).isSome :=
    apart.available performed
  have sameFailure (index : Nat) :
      item index following = none ↔ item index state = none := by
    rw [← Option.isNone_iff_eq_none, ← Option.isNone_iff_eq_none,
      ← Option.not_isSome, ← Option.not_isSome, sameAvailable]
  constructor
  · rintro ⟨bounded, before, failed⟩
    refine ⟨Nat.lt_of_succ_lt_succ bounded, ?_, ?_⟩
    · intro index smaller
      rw [sameAvailable, ← shift]
      exact before (index + 1) (Nat.succ_lt_succ smaller)
    · rw [sameFailure, ← shift]
      exact failed
  · rintro ⟨bounded, before, failed⟩
    refine ⟨Nat.succ_lt_succ bounded, ?_, ?_⟩
    · intro index smaller
      cases index with
      | zero => simp [performed]
      | succ index =>
          rw [shift, ← sameAvailable]
          exact before index (Nat.lt_of_succ_lt_succ smaller)
    · rw [shift, ← sameFailure]
      exact failed

theorem not_failsAt_zero {state following : State} {start : Nat}
    (count : Nat) (performed : item start state = some following) :
    ¬ FailsAt item count start state 0 := by
  rintro ⟨_, _, failed⟩
  simp [performed] at failed

theorem failed_iff {bound : Nat} (apart : NonInterfering item bound)
    (count start : Nat) (state : State) :
    (transfer item count start state).1 = false ↔
      ∃ reached, FailsAt item count start state reached := by
  induction count generalizing start state with
  | zero => simp [transfer, FailsAt]
  | succ count induction =>
      cases performed : item start state with
      | none =>
          rw [succ_of_none count performed]
          refine ⟨fun _ => ⟨0, Nat.succ_pos count, ?_, performed⟩, fun _ => rfl⟩
          intro index impossible
          omega
      | some following =>
          rw [succ_of_some count performed, induction]
          constructor
          · rintro ⟨reached, fails⟩
            exact ⟨reached + 1,
              (failsAt_succ apart count reached performed).mpr fails⟩
          · rintro ⟨reached, fails⟩
            cases reached with
            | zero => exact absurd fails (not_failsAt_zero _ performed)
            | succ reached =>
                exact ⟨reached,
                  (failsAt_succ apart count reached performed).mp fails⟩

/-- Items after `number` leave it settled. -/
theorem settled_later {bound number : Nat}
    (apart : NonInterfering item bound) (count start : Nat) (state : State)
    (later : number < start) (bounded : start + count ≤ bound)
    (settled : item number state = some state) :
    item number (transfer item count start state).2 =
      some (transfer item count start state).2 := by
  induction count generalizing start state with
  | zero => exact settled
  | succ count induction =>
      cases performed : item start state with
      | none =>
          rw [succ_of_none count performed]
          exact settled
      | some following =>
          rw [succ_of_some count performed]
          refine induction (start + 1) following (by omega) (by omega) ?_
          exact (apart.apart (by omega) (by omega) (by omega)
            performed).mpr settled

/-- A completed transfer has settled its items. -/
theorem settled_of_completed {bound : Nat} (apart : NonInterfering item bound)
    (count start : Nat) (state : State) (bounded : start + count ≤ bound)
    (done : (transfer item count start state).1 = true) (number : Nat)
    (lower : start ≤ number) (upper : number < start + count) :
    item number (transfer item count start state).2 =
      some (transfer item count start state).2 := by
  induction count generalizing start state with
  | zero => omega
  | succ count induction =>
      cases performed : item start state with
      | none => simp [succ_of_none count performed] at done
      | some following =>
          rw [succ_of_some count performed] at done ⊢
          by_cases here : number = start
          · exact settled_later apart count (start + 1) following (by omega)
              (by omega) (here ▸ apart.settled performed)
          · exact induction (start + 1) following (by omega) done (by omega)
              (by omega)

/-- The transfer fails after an item that changes something. -/
def Torn (item : Nat → State → Option State) (count start : Nat)
    (state : State) : Prop :=
  ∃ reached, FailsAt item count start state reached ∧
    ∃ index < reached, item (start + index) state ≠ some state

private theorem torn_succ_of_changed {bound : Nat}
    (apart : NonInterfering item bound) {state following : State}
    {start : Nat} (count : Nat) (bounded : start + (count + 1) ≤ bound)
    (performed : item start state = some following)
    (changed : following ≠ state) :
    Torn item (count + 1) start state ↔
      (transfer item count (start + 1) following).1 = false ∧
        (transfer item count (start + 1) following).2 ≠ state := by
  have different : (transfer item count (start + 1) following).2 ≠ state := by
    intro same
    have settled := settled_later apart count (start + 1) following
      (Nat.lt_succ_self start) (by omega) (apart.settled performed)
    rw [same, performed] at settled
    exact changed (Option.some.inj settled)
  simp only [different, ne_eq, not_false_eq_true, and_true,
    failed_iff apart count (start + 1) following]
  constructor
  · rintro ⟨reached, fails, _⟩
    cases reached with
    | zero => exact absurd fails (not_failsAt_zero _ performed)
    | succ reached =>
        exact ⟨reached,
          (failsAt_succ apart count reached performed).mp fails⟩
  · rintro ⟨reached, fails⟩
    refine ⟨reached + 1,
      (failsAt_succ apart count reached performed).mpr fails,
      0, Nat.succ_pos reached, ?_⟩
    rw [Nat.add_zero, performed]
    exact fun same => changed (Option.some.inj same)

private theorem torn_succ_of_unchanged {bound : Nat}
    (apart : NonInterfering item bound) {state : State} {start : Nat}
    (count : Nat) (performed : item start state = some state) :
    Torn item (count + 1) start state ↔
      Torn item count (start + 1) state := by
  have shift (index : Nat) : start + (index + 1) = start + 1 + index := by
    omega
  constructor
  · rintro ⟨reached, fails, index, smaller, changes⟩
    cases reached with
    | zero => omega
    | succ reached =>
        refine ⟨reached,
          (failsAt_succ apart count reached performed).mp fails, ?_⟩
        cases index with
        | zero => exact absurd performed changes
        | succ index =>
            rw [shift] at changes
            exact ⟨index, Nat.lt_of_succ_lt_succ smaller, changes⟩
  · rintro ⟨reached, fails, index, smaller, changes⟩
    refine ⟨reached + 1,
      (failsAt_succ apart count reached performed).mpr fails,
      index + 1, Nat.succ_lt_succ smaller, ?_⟩
    rw [shift]
    exact changes

/-- A torn transfer is one that failed and left a different state. -/
theorem torn_iff {bound : Nat} (apart : NonInterfering item bound)
    (count start : Nat) (state : State) (bounded : start + count ≤ bound) :
    Torn item count start state ↔
      (transfer item count start state).1 = false ∧
        (transfer item count start state).2 ≠ state := by
  induction count generalizing start state with
  | zero => simp [Torn, FailsAt, transfer]
  | succ count induction =>
      cases performed : item start state with
      | none =>
          rw [succ_of_none count performed]
          constructor
          · rintro ⟨reached, ⟨_, before, _⟩, index, smaller, _⟩
            have available := before 0 (by omega)
            simp [performed] at available
          · rintro ⟨_, different⟩
            exact absurd rfl different
      | some following =>
          rw [succ_of_some count performed]
          by_cases same : following = state
          · subst same
            rw [torn_succ_of_unchanged apart count performed]
            exact induction (start + 1) following (by omega)
          · exact torn_succ_of_changed apart count bounded performed same

end transfer

end PpcLab
