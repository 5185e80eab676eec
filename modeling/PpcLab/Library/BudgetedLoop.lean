import Mathlib.Logic.Basic

/-!
# Loops with an iteration budget

A loop body either asks for another turn or returns.  Running it under a
budget counts the turns that asked for another one, and stops without a result
when the budget is spent.  A budget may be split at any point: the second part
resumes from the state the first part left.
-/

namespace PpcLab

/-- One turn of a loop body: go round again, or return from the loop. -/
inductive Turn (State Result : Type) where
  | next (state : State)
  | stop (state : State) (result : Result)

namespace Turn

variable {State Result : Type}

/-- The state in which a turn leaves the loop body. -/
def state : Turn State Result → State
  | .next state => state
  | .stop state _ => state

@[simp] theorem state_next (state : State) :
    (Turn.next state : Turn State Result).state = state := rfl

@[simp] theorem state_stop (state : State) (result : Result) :
    (Turn.stop state result).state = state := rfl

/-- Change what a returning turn reports, and nothing else. -/
def mapResult {Other : Type} (function : Result → Other) :
    Turn State Result → Turn State Other
  | .next state => .next state
  | .stop state result => .stop state (function result)

@[simp] theorem state_mapResult {Other : Type} (function : Result → Other)
    (turn : Turn State Result) :
    (turn.mapResult function).state = turn.state := by
  cases turn <;> rfl

end Turn

/-- How a budgeted loop ended.  `result` is absent when the budget ran out. -/
structure LoopExit (State Result : Type) where
  state : State
  turns : Nat
  result : Option Result

namespace LoopExit

variable {State Result : Type}

/-- Account for one more turn in front of a finished loop. -/
def addTurn (finish : LoopExit State Result) : LoopExit State Result :=
  { finish with turns := finish.turns + 1 }

/-- Account for a block of turns in front of a finished loop. -/
def addTurns (count : Nat) (finish : LoopExit State Result) :
    LoopExit State Result :=
  { finish with turns := count + finish.turns }

end LoopExit

/-- `for (count = 0; count < budget; ++count) body` -/
def budgetedLoop {State Result : Type} (body : State → Turn State Result) :
    Nat → State → LoopExit State Result
  | 0, state => ⟨state, 0, none⟩
  | budget + 1, state =>
      match body state with
      | .next following => (budgetedLoop body budget following).addTurn
      | .stop final result => ⟨final, 0, some result⟩

namespace budgetedLoop

variable {State Result : Type} {body : State → Turn State Result}

@[simp] theorem zero (body : State → Turn State Result) (state : State) :
    budgetedLoop body 0 state = ⟨state, 0, none⟩ := rfl

theorem succ_of_next {state following : State} (budget : Nat)
    (turn : body state = .next following) :
    budgetedLoop body (budget + 1) state =
      (budgetedLoop body budget following).addTurn := by
  simp [budgetedLoop, turn]

theorem succ_of_stop {state final : State} {result : Result} (budget : Nat)
    (turn : body state = .stop final result) :
    budgetedLoop body (budget + 1) state = ⟨final, 0, some result⟩ := by
  simp [budgetedLoop, turn]

/-- A loop that returned did so before its budget was spent, so a larger
budget changes nothing. -/
theorem add_of_some {result : Result} (first second : Nat) (state : State)
    (returned : (budgetedLoop body first state).result = some result) :
    budgetedLoop body (first + second) state =
      budgetedLoop body first state := by
  induction first generalizing state with
  | zero => simp at returned
  | succ first induction =>
      rw [Nat.add_right_comm first 1 second]
      cases turn : body state with
      | next following =>
          rw [succ_of_next _ turn] at returned ⊢
          rw [succ_of_next _ turn, induction following returned]
      | stop final other =>
          rw [succ_of_stop _ turn, succ_of_stop _ turn]

/-- A loop that spent its budget continues from where it stood. -/
theorem add_of_none (first second : Nat) (state : State)
    (spent : (budgetedLoop body first state).result = none) :
    budgetedLoop body (first + second) state =
      (budgetedLoop body second
        (budgetedLoop body first state).state).addTurns first := by
  induction first generalizing state with
  | zero => simp [LoopExit.addTurns]
  | succ first induction =>
      rw [Nat.add_right_comm first 1 second]
      cases turn : body state with
      | next following =>
          rw [succ_of_next _ turn] at spent ⊢
          rw [succ_of_next _ turn, induction following spent]
          simp [LoopExit.addTurn, LoopExit.addTurns, Nat.add_right_comm]
      | stop final result =>
          rw [succ_of_stop _ turn] at spent
          simp at spent

/-- A relation that every turn respects relates the two ends of every run. -/
theorem relates (relation : State → State → Prop)
    (reflexive : ∀ state, relation state state)
    (transitive : ∀ {first second third},
      relation first second → relation second third → relation first third)
    (respected : ∀ state, relation state (body state).state)
    (budget : Nat) (state : State) :
    relation state (budgetedLoop body budget state).state := by
  induction budget generalizing state with
  | zero => exact reflexive state
  | succ budget induction =>
      have turnRespected := respected state
      cases turn : body state with
      | next following =>
          rw [turn] at turnRespected
          rw [succ_of_next _ turn]
          exact transitive turnRespected (induction following)
      | stop final result =>
          rw [turn] at turnRespected
          rw [succ_of_stop _ turn]
          exact turnRespected

/-- The last turn of a loop that returned: the turns before it are exactly the
run with that smaller budget. -/
theorem last_turn {result : Result} (budget : Nat) (state : State)
    (returned : (budgetedLoop body budget state).result = some result) :
    ∃ before,
      budgetedLoop body (budgetedLoop body budget state).turns state =
          ⟨before, (budgetedLoop body budget state).turns, none⟩ ∧
        (budgetedLoop body budget state).turns < budget ∧
        body before = .stop (budgetedLoop body budget state).state result := by
  induction budget generalizing state with
  | zero => simp at returned
  | succ budget induction =>
      cases turn : body state with
      | next following =>
          rw [succ_of_next _ turn] at returned ⊢
          obtain ⟨before, prefixRun, bounded, lastTurn⟩ :=
            induction following returned
          refine ⟨before, ?_, ?_, lastTurn⟩
          · change budgetedLoop body
              ((budgetedLoop body budget following).turns + 1) state = _
            rw [succ_of_next _ turn, prefixRun]
            rfl
          · exact Nat.succ_lt_succ bounded
      | stop final other =>
          rw [succ_of_stop _ turn] at returned ⊢
          cases returned
          exact ⟨state, rfl, Nat.succ_pos budget, turn⟩

end budgetedLoop

end PpcLab
