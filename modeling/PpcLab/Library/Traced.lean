import PpcLab.Library.Outcome

/-!
# Programs whose steps are recorded

A program takes steps and comes to a value or an error.  `Every` says that all
of its steps have a property, and its value another one; it is proved along
the structure of the program, with an invariant for a loop.
-/

namespace PpcLab

/-- The steps a program took, and what it came to. -/
structure Traced (ω ε α : Type) where
  steps : List ω
  result : Except ε α

namespace Traced

variable {ω ε α β ι : Type}

instance : Monad (Traced ω ε) where
  pure value := ⟨[], .ok value⟩
  bind first next :=
    match first.result with
    | .error error => ⟨first.steps, .error error⟩
    | .ok value => ⟨first.steps ++ (next value).steps, (next value).result⟩

def fail (error : ε) : Traced ω ε α :=
  ⟨[], .error error⟩

/-- `if (condition) { error = ...; return false; }` -/
def reject (condition : Bool) (error : ε) : Traced ω ε Unit :=
  if condition then fail error else pure ()

/-- A part that takes no steps. -/
def ofExcept (outcome : Except ε α) : Traced ω ε α :=
  ⟨[], outcome⟩

/-- A loop that appends a value for each item. -/
def collect (read : ι → Traced ω ε α) : List ι → Traced ω ε (List α)
  | [] => pure []
  | item :: items => do
      let value ← read item
      let values ← collect read items
      return value :: values

/-- A loop that carries a state over the items. -/
def fold (step : α → ι → Traced ω ε α) : α → List ι → Traced ω ε α
  | state, [] => pure state
  | state, item :: items => do
      let state ← step state item
      fold step state items

theorem bind_of_ok {first : Traced ω ε α} {next : α → Traced ω ε β} {value : α}
    (succeeded : first.result = .ok value) :
    first >>= next =
      ⟨first.steps ++ (next value).steps, (next value).result⟩ := by
  show (match first.result with
    | .error error => (⟨first.steps, .error error⟩ : Traced ω ε β)
    | .ok value => ⟨first.steps ++ (next value).steps, (next value).result⟩) = _
  rw [succeeded]

theorem bind_of_error {first : Traced ω ε α} {next : α → Traced ω ε β}
    {error : ε} (failed : first.result = .error error) :
    first >>= next = ⟨first.steps, .error error⟩ := by
  show (match first.result with
    | .error error => (⟨first.steps, .error error⟩ : Traced ω ε β)
    | .ok value => ⟨first.steps ++ (next value).steps, (next value).result⟩) = _
  rw [failed]

/-- Only what follows a value that is reached matters. -/
theorem bind_congr_ok {first : Traced ω ε α} {next other : α → Traced ω ε β}
    (same : ∀ value, first.result = .ok value → next value = other value) :
    first >>= next = first >>= other := by
  cases outcome : first.result with
  | ok value => rw [bind_of_ok outcome, bind_of_ok outcome, same value outcome]
  | error error => rw [bind_of_error outcome, bind_of_error outcome]

theorem accepted_of_reject {condition : Bool} {error : ε} {value : Unit}
    (accepted : (reject condition error : Traced ω ε Unit).result =
      .ok value) : condition = false := by
  cases condition with
  | true => cases accepted
  | false => rfl

theorem result_bind (first : Traced ω ε α) (next : α → Traced ω ε β) :
    (first >>= next).result =
      (first.result >>= fun value => (next value).result) := by
  cases outcome : first.result with
  | ok value =>
      rw [bind_of_ok outcome]
      rfl
  | error error =>
      rw [bind_of_error outcome]
      rfl

/-- The steps of a sequence are those of its parts, as far as it comes. -/
theorem forall_steps_bind {property : ω → Prop} {first : Traced ω ε α}
    {next : α → Traced ω ε β} :
    (∀ step ∈ (first >>= next).steps, property step) ↔
      (∀ step ∈ first.steps, property step) ∧
        ∀ value, first.result = .ok value →
          ∀ step ∈ (next value).steps, property step := by
  cases outcome : first.result with
  | ok value =>
      rw [bind_of_ok outcome]
      constructor
      · intro every
        refine ⟨fun step member => every step (List.mem_append_left _ member),
          ?_⟩
        intro other same step member
        cases same
        exact every step (List.mem_append_right _ member)
      · intro parts step member
        rcases List.mem_append.mp member with early | late
        · exact parts.1 step early
        · exact parts.2 value rfl step late
  | error error =>
      rw [bind_of_error outcome]
      constructor
      · intro every
        refine ⟨every, ?_⟩
        intro value same
        cases same
      · intro parts
        exact parts.1

/-- What follows without steps of its own adds none. -/
theorem forall_steps_bind_iff {property : ω → Prop} {first : Traced ω ε α}
    {next : α → Traced ω ε β} (noSteps : ∀ value, (next value).steps = []) :
    (∀ step ∈ (first >>= next).steps, property step) ↔
      ∀ step ∈ first.steps, property step := by
  rw [forall_steps_bind]
  apply and_iff_left
  intro value succeeded step member
  rw [noSteps value] at member
  cases member

/-- Every step has a property, and so has the value. -/
structure Every (property : ω → Prop) (program : Traced ω ε α)
    (post : α → Prop) : Prop where
  steps : ∀ step ∈ program.steps, property step
  value : ∀ value, program.result = .ok value → post value

namespace Every

variable {property : ω → Prop} {post : α → Prop} {after : β → Prop}

theorem mono {program : Traced ω ε α} {weaker : α → Prop}
    (every : Every property program post)
    (weaken : ∀ value, post value → weaker value) :
    Every property program weaker :=
  ⟨every.steps, fun value succeeded =>
    weaken value (every.value value succeeded)⟩

theorem imp {weaker : ω → Prop} {program : Traced ω ε α}
    (every : Every property program post)
    (weaken : ∀ step, property step → weaker step) :
    Every weaker program post :=
  ⟨fun step member => weaken step (every.steps step member), every.value⟩

theorem pure {value : α} (holds : post value) :
    Every (ε := ε) property (Pure.pure value) post := by
  constructor
  · intro step member
    cases member
  · intro other same
    cases same
    exact holds

theorem fail (error : ε) : Every property (Traced.fail error) post := by
  constructor
  · intro step member
    cases member
  · intro value same
    cases same

theorem ofExcept {outcome : Except ε α}
    (holds : ∀ value, outcome = .ok value → post value) :
    Every property (Traced.ofExcept outcome) post := by
  constructor
  · intro step member
    cases member
  · exact holds

theorem bind {first : Traced ω ε α} {next : α → Traced ω ε β}
    (head : Every property first post)
    (tail : ∀ value, post value → Every property (next value) after) :
    Every property (first >>= next) after := by
  constructor
  · rw [forall_steps_bind]
    exact ⟨head.steps, fun value succeeded =>
      (tail value (head.value value succeeded)).steps⟩
  · intro value succeeded
    rw [result_bind] at succeeded
    obtain ⟨middle, first, second⟩ := Outcome.bind_eq_ok.mp succeeded
    exact (tail middle (head.value middle first)).value value second

theorem reject {condition : Bool} {error : ε} {next : Unit → Traced ω ε β}
    (tail : condition = false → Every property (next ()) after) :
    Every property (Traced.reject condition error >>= next) after := by
  cases condition with
  | true =>
      have refused : Every property (Traced.fail error : Traced ω ε Unit)
          fun _ => False := fail error
      exact bind refused fun value absurd => absurd.elim
  | false =>
      have accepted : Every property (Pure.pure () : Traced ω ε Unit)
          fun _ => True := pure trivial
      exact bind accepted fun value holds => tail rfl

/-- Both branches of a decision. -/
theorem ite {condition : Prop} [Decidable condition]
    {first second : Traced ω ε α}
    (whenTrue : condition → Every property first post)
    (whenFalse : ¬ condition → Every property second post) :
    Every property (if condition then first else second) post := by
  split
  · rename_i holds
    exact whenTrue holds
  · rename_i fails
    exact whenFalse fails

theorem collect {read : ι → Traced ω ε α} {items : List ι}
    (each : ∀ item ∈ items, Every property (read item) post) :
    Every property (Traced.collect read items)
      fun values => ∀ value ∈ values, post value := by
  induction items with
  | nil =>
      apply pure
      intro value member
      cases member
  | cons item items induction =>
      apply bind (each item List.mem_cons_self)
      intro value holds
      apply bind (induction fun other member =>
        each other (List.mem_cons_of_mem _ member))
      intro values others
      apply pure
      intro other member
      rcases List.mem_cons.mp member with here | later
      · rw [here]
        exact holds
      · exact others other later

/-- An invariant of the carried state. -/
theorem fold {step : α → ι → Traced ω ε α} {items : List ι} {state : α}
    (initial : post state)
    (each : ∀ item ∈ items, ∀ state, post state →
      Every property (step state item) post) :
    Every property (Traced.fold step state items) post := by
  induction items generalizing state with
  | nil => exact pure initial
  | cons item items induction =>
      apply bind (each item List.mem_cons_self state initial)
      intro next holds
      exact induction holds fun other member =>
        each other (List.mem_cons_of_mem _ member)

end Every

/-- A program whose steps have a property comes to what a plain computation
comes to, seen through a view of its values. -/
structure Mirrors (property : ω → Prop) (program : Traced ω ε α)
    (view : α → β) (plain : Except ε β) (post : α → Prop) : Prop where
  every : Every property program post
  same : program.result.map view = plain

namespace Mirrors

variable {property : ω → Prop} {γ δ : Type} {view : α → β} {other : γ → δ}
  {post : α → Prop} {after : γ → Prop}

theorem pure {value : α} (holds : post value) :
    Mirrors (ε := ε) property (Pure.pure value) view (.ok (view value)) post :=
  ⟨.pure holds, rfl⟩

theorem fail (error : ε) :
    Mirrors property (Traced.fail error) view (.error error) post :=
  ⟨.fail error, rfl⟩

theorem bind {first : Traced ω ε α} {next : α → Traced ω ε γ}
    {plain : Except ε β} {plainNext : β → Except ε δ}
    (head : Mirrors property first view plain post)
    (tail : ∀ value, post value →
      Mirrors property (next value) other (plainNext (view value)) after) :
    Mirrors property (first >>= next) other (plain >>= plainNext) after := by
  refine ⟨head.every.bind fun value holds => (tail value holds).every, ?_⟩
  rw [result_bind, ← head.same]
  cases outcome : first.result with
  | error error => rfl
  | ok value => exact (tail value (head.every.value value outcome)).same

theorem ofExcept (outcome : Except ε α) :
    Mirrors property (Traced.ofExcept outcome) id outcome fun _ => True := by
  refine ⟨.ofExcept fun value succeeded => trivial, ?_⟩
  cases outcome with
  | error error => rfl
  | ok value => rfl

/-- A step that gives its value to what follows. -/
theorem step {first : Traced ω ε α} {next : α → Traced ω ε γ} {value : α}
    {plain : Except ε δ} (succeeded : first.result = .ok value)
    (steps : ∀ step ∈ first.steps, property step)
    (tail : Mirrors property (next value) other plain after) :
    Mirrors property (first >>= next) other plain after := by
  have head : Every property first fun given => given = value := by
    refine ⟨steps, ?_⟩
    intro given isGiven
    rw [succeeded] at isGiven
    exact (Except.ok.inj isGiven).symm
  refine ⟨head.bind ?_, ?_⟩
  · intro given same
    rw [same]
    exact tail.every
  · rw [result_bind, succeeded]
    exact tail.same

theorem reject {condition : Bool} {refused : Prop} [Decidable refused]
    {error : ε} {next : Unit → Traced ω ε γ} {plain : Except ε δ}
    (same : condition = true ↔ refused)
    (tail : condition = false →
      Mirrors property (next ()) other plain after) :
    Mirrors property (Traced.reject condition error >>= next) other
      (if refused then .error error else plain) after := by
  cases condition with
  | true =>
      rw [if_pos (same.mp rfl)]
      refine ⟨.reject fun accepted => ?_, rfl⟩
      cases accepted
  | false =>
      rw [if_neg (fun holds => by cases same.mpr holds)]
      refine ⟨.reject fun _ => (tail rfl).every, ?_⟩
      rw [result_bind]
      exact (tail rfl).same

theorem ite {condition : Prop} [Decidable condition]
    {first second : Traced ω ε α} {plain plainSecond : Except ε β}
    (whenTrue : condition → Mirrors property first view plain post)
    (whenFalse : ¬ condition →
      Mirrors property second view plainSecond post) :
    Mirrors property (if condition then first else second) view
      (if condition then plain else plainSecond) post := by
  split
  · rename_i holds
    exact whenTrue holds
  · rename_i fails
    exact whenFalse fails

/-- A loop whose every round gives a value of its own. -/
theorem collect {read : ι → Traced ω ε α} {value : ι → α} {items : List ι}
    (each : ∀ item ∈ items, (read item).result = .ok (value item) ∧
      ∀ step ∈ (read item).steps, property step) :
    Mirrors property (Traced.collect read items) id
      (.ok (items.map value)) fun _ => True := by
  induction items with
  | nil => exact .pure trivial
  | cons item items induction =>
      have here := each item List.mem_cons_self
      have later := induction fun other member =>
        each other (List.mem_cons_of_mem _ member)
      apply Mirrors.step here.1 here.2
      show Mirrors property _ id
        ((.ok (items.map value) : Except ε (List α)) >>= fun values =>
          .ok (value item :: values)) _
      apply Mirrors.bind later
      intro values holds
      exact .pure trivial

theorem imp {weaker : ω → Prop} {program : Traced ω ε α}
    {plain : Except ε β} (mirrors : Mirrors property program view plain post)
    (weaken : ∀ step, property step → weaker step) :
    Mirrors weaker program view plain post :=
  ⟨mirrors.every.imp weaken, mirrors.same⟩

theorem result_eq {program : Traced ω ε α} {plain : Except ε α}
    (mirrors : Mirrors property program id plain post) :
    program.result = plain := by
  rw [← mirrors.same]
  cases program.result with
  | error error => rfl
  | ok value => rfl

end Mirrors

end Traced

end PpcLab
