import PpcLab.Control.Submissions

/-!
# Default names

A submission without a name is named after the number it has read.  The
counter moves on only when a submission succeeds, so an item that was given
the name of a later number by hand is in the way of the default name once the
counter has come there, and stays in its way.
-/

namespace PpcLab.Control

theorem toList_runId (seq : Nat) :
    (runId seq).toList =
      ['r', 'u', 'n', '-'] ++
        (List.replicate (6 - (Nat.toDigits 10 seq).length) '0' ++
          Nat.toDigits 10 seq) := by
  have digits : (toString seq).toList = Nat.toDigits 10 seq := by
    rw [Nat.toString_eq_ofList_toDigits, String.toList_ofList]
  have short : "run-".toList = ['r', 'u', 'n', '-'] := by decide
  have length : (toString seq).length = (Nat.toDigits 10 seq).length := by
    rw [← digits, String.length_toList]
  simp only [runId, String.toList_append, String.toList_ofList, digits, short,
    length, List.append_assoc]

/-- The number a name is the default name of. -/
def runNumber (id : String) : Option Nat :=
  let seq := Nat.ofDigitChars 10 (id.toList.drop 4) 0
  if id = runId seq then some seq else none

theorem runNumber_runId (seq : Nat) : runNumber (runId seq) = some seq := by
  have read : Nat.ofDigitChars 10 ((runId seq).toList.drop 4) 0 = seq := by
    rw [toList_runId]
    simp [Nat.ofDigitChars_append]
  simp only [runNumber, read, if_true]

theorem runNumber_eq_some {id : String} {seq : Nat} :
    runNumber id = some seq ↔ id = runId seq := by
  constructor
  · intro read
    simp only [runNumber, Option.ite_none_right_eq_some,
      Option.some.injEq] at read
    rw [← read.2]
    exact read.1
  · intro named
    rw [named, runNumber_runId]

/-- The default name is a valid name. -/
theorem validateId_runId (seq : Nat) : validateId (runId seq) := by
  have portable : ∀ character ∈ (runId seq).toList,
      character.isAlphanum || character ∈ ['.', '_', '-'] := by
    intro character member
    rw [toList_runId, List.mem_append, List.mem_append] at member
    rcases member with name | zero | digit
    · simp only [List.mem_cons, List.not_mem_nil, or_false] at name
      rcases name with rfl | rfl | rfl | rfl <;> decide
    · rw [(List.mem_replicate.mp zero).2]
      decide
    · have isDigit := Nat.isDigit_of_mem_toDigits (by omega) (by omega) digit
      simp [Char.isAlphanum, isDigit]
  have named : runId seq ≠ "" := by
    intro empty
    have listed := toList_runId seq
    rw [empty] at listed
    cases listed
  unfold validateId
  rw [Bool.and_eq_true, List.all_eq_true]
  exact ⟨by simpa using named, portable⟩

/-- A name is not the default name of a later number. -/
def NotAhead (id : String) (seq : Nat) : Prop :=
  ∀ later, id = runId later → later ≤ seq

instance (id : String) (seq : Nat) : Decidable (NotAhead id seq) :=
  decidable_of_iff (∀ later ∈ runNumber id, later ≤ seq) <| by
    simp only [NotAhead, Option.mem_def, runNumber_eq_some]

/-- The name a submission is about to take, and the number it has read. -/
def Point.naming : Point → Option (String × Nat)
  | .submitExists submission seq => some (submission.itemId seq, seq)
  | _ => none

/-- Submissions take turns, and none takes the default name of a later
number. -/
def SubmitsInOrder (world : World) : Input → Prop
  | .advance pid answer =>
      SubmitsApart world (.advance pid answer) ∧
        ∀ process ∈ world.process pid, ∀ named ∈ process.point.naming,
          NotAhead named.1 named.2
  | input => SubmitsApart world input

instance (world : World) :
    (input : Input) → Decidable (SubmitsInOrder world input)
  | .advance pid answer =>
      inferInstanceAs (Decidable (SubmitsApart world (.advance pid answer) ∧
        ∀ process ∈ world.process pid, ∀ named ∈ process.point.naming,
          NotAhead named.1 named.2))
  | .start pid command =>
      inferInstanceAs (Decidable (SubmitsApart world (.start pid command)))
  | .signal pid => inferInstanceAs (Decidable (SubmitsApart world (.signal pid)))
  | .die pid => inferInstanceAs (Decidable (SubmitsApart world (.die pid)))

theorem SubmitsInOrder.apart {world : World} {input : Input}
    (inOrder : SubmitsInOrder world input) : SubmitsApart world input := by
  cases input with
  | advance pid answer => exact inOrder.1
  | start | signal | die => exact inOrder

/-- Nobody has the default name of a number the counter has yet to reach. -/
structure DefaultInvariant (world : World) : Prop where
  submits : SubmitInvariant (fun _ _ => True) world
  stored : ∀ id item, world.root.stored id = some item →
    NotAhead id item.seq
  chosen : ∀ pid process item, world.process pid = some process →
    process.point = .submitted item → NotAhead item.id item.seq

theorem defaultInvariant_idle :
    DefaultInvariant (World.idle .initialized) := by
  refine ⟨submitInvariant_idle _, ?_, ?_⟩
  · intro id item stored
    cases stored
  · intro pid process item alive
    cases alive

section Step

variable {world next : World}

private theorem point_command {command : Command} {process : Process}
    (entry : command.process = .ok process) {item : Item} :
    process.point ≠ .submitted item := by
  cases command with
  | serve maxActive untilIdle =>
      cases process_of_serve entry
      simp
  | _ =>
      cases entry
      simp

/-- A saved item has the number of the one it replaces, or is the one a
submission has chosen. -/
private theorem DefaultInvariant.saved (invariant : DefaultInvariant world)
    {pid : Pid} {process : Process} {pending : List Write}
    {seen : Option Item} {item : Item} (alive : world.process pid = some process)
    (pendingNext : process.pending = .saveItem seen item :: pending) :
    NotAhead item.id item.seq := by
  have known : Known world.root.stored item →
      NotAhead item.id item.seq := by
    intro held
    obtain ⟨old, isStored, same⟩ := held
    rw [← seq_of_origin same]
    exact invariant.stored item.id old isStored
  cases invariant.submits.stage pid process alive with
  | outside idle writes loaded submitted =>
      apply known
      have kept := writes (.saveItem seen item) (by simp [pendingNext])
      exact kept
  | counted => cases pendingNext
  | chosen missing =>
      cases pendingNext
      exact invariant.chosen pid _ item alive rfl
  | saved => cases pendingNext

private theorem DefaultInvariant.performed (invariant : DefaultInvariant world)
    {pid : Pid} {process : Process} {action : Write} {pending : List Write}
    (alive : world.process pid = some process)
    (pendingNext : process.pending = action :: pending) {id : String}
    {item : Item} (isStored : (world.write pid action).root.stored id = some item) :
    NotAhead id item.seq := by
  rw [show (world.write pid action).root.stored = _ from
    stored_perform pid world.root action] at isStored
  cases action with
  | saveItem seen saved =>
      by_cases same : id = saved.id
      · subst same
        simp only [Write.store, Function.update_self,
          Option.some.injEq] at isStored
        subst isStored
        exact invariant.saved alive pendingNext
      · simp only [Write.store, Function.update_of_ne same] at isStored
        exact invariant.stored id item isStored
  | _ => exact invariant.stored id item isStored

theorem DefaultInvariant.step {input : Input}
    (invariant : DefaultInvariant world)
    (inOrder : SubmitsInOrder world input)
    (stepped : Control.step world input = some next) :
    DefaultInvariant next := by
  have asking : Asking (fun _ _ => True) world input := by
    cases input with
    | start pid command => cases command <;> exact trivial
    | _ => exact trivial
  have submits := invariant.submits.step inOrder.apart asking stepped
  cases stepped_of_step stepped with
  | @begun pid command process positive free entry =>
      refine ⟨submits, invariant.stored, ?_⟩
      intro name after item found here
      by_cases same : name = pid
      · subst same
        rw [World.process_set_self] at found
        cases found
        exact absurd here (point_command entry)
      · rw [World.process_set_of_ne _ _ same] at found
        exact invariant.chosen name after item found here
  | refused => exact ⟨submits, invariant.stored, invariant.chosen⟩
  | @wrote pid answer process action pending alive pendingNext =>
      refine ⟨submits, ?_, ?_⟩
      · intro id item isStored
        exact invariant.performed alive pendingNext isStored
      · intro name after item found here
        by_cases same : name = pid
        · subst same
          rw [World.process_set_self] at found
          cases found
          exact invariant.chosen name process item alive here
        · rw [World.process_set_of_ne _ _ same] at found
          exact invariant.chosen name after item found here
  | @read pid answer process alive idle =>
      refine ⟨submits, ?_, ?_⟩
      · intro id item isStored
        rw [stored_follow] at isStored
        exact invariant.stored id item isStored
      · intro name after item found here
        by_cases same : name = pid
        · subst same
          rw [World.process_follow_self] at found
          have forward := forward_proceed found
          rw [here] at forward
          generalize there : process.point = before at forward
          cases forward with
          | outside submitting => cases submitting
          | @chooses submission seq answer =>
              exact inOrder.2 process alive _ (by rw [there]; rfl)
        · rw [World.process_follow_of_ne _ _ same] at found
          exact invariant.chosen name after item found here
  | @signalled pid process alive serves =>
      refine ⟨submits, invariant.stored, ?_⟩
      intro name after item found here
      by_cases same : name = pid
      · subst same
        rw [World.process_set_self] at found
        cases found
        exact invariant.chosen name process item alive here
      · rw [World.process_set_of_ne _ _ same] at found
        exact invariant.chosen name after item found here
  | @died pid process alive =>
      refine ⟨submits, invariant.stored, ?_⟩
      intro name after item found here
      by_cases same : name = pid
      · subst same
        rw [World.process_exit_self] at found
        cases found
      · rw [World.process_exit_of_ne _ same] at found
        exact invariant.chosen name after item found here

end Step

/-- A submission from its start to its end, with whatever the operating system
answers in between. -/
def submitsAlone (pid : Pid) (submission : Submission)
    (answers : Fin 5 → Answer) : List Input :=
  .start pid (.submit submission) ::
    (List.ofFn answers).map (.advance pid)

/-- A submission that runs alone ends well: its item has the number and the
name it was to have, was not in the queue before and is there now, and nothing
else is different. -/
structure Submitted (world : World) (pid : Pid) (submission : Submission)
    (final : World) : Prop where
  gone : final.process pid = none
  saved : ∃ answer,
    final.results = world.results ++
        [(pid, .submitted (submission.item world.root.nextSeq answer))] ∧
      final.root.stored = Function.update world.root.stored
        (submission.itemId world.root.nextSeq)
        (some (submission.item world.root.nextSeq answer))
  fresh : world.root.stored (submission.itemId world.root.nextSeq) = none
  counted : final.root.nextSeq = world.root.nextSeq + 1

/-- Nobody has read the counter and has still to write it back. -/
def Quiet (world : World) : Prop :=
  ∀ entry ∈ world.processes.entries, entry.2.submits = none

instance (world : World) : Decidable (Quiet world) :=
  inferInstanceAs (Decidable (∀ entry ∈ world.processes.entries, _))

/-- A submission without a name can be made. -/
def DefaultSubmits (world : World) : Prop :=
  ∀ pid submission answers, pid ≠ 0 → world.process pid = none →
    submission.id.getD "" = "" →
    ∃ final, follow step world (submitsAlone pid submission answers) =
        some final ∧
      submission.itemId world.root.nextSeq = runId world.root.nextSeq ∧
      Submitted world pid submission final

theorem itemId_default {submission : Submission}
    (default : submission.id.getD "" = "") (seq : Nat) :
    submission.itemId seq = runId seq := by
  unfold Submission.itemId
  cases named : submission.id with
  | none => rfl
  | some id =>
      rw [named] at default
      cases default
      rfl

section Alone

variable {world : World} {pid : Pid} {process after : Process} {answer : Answer}

section Choice

variable {live : Pid → Bool} {root : Root} {submission : Submission}
  {seq : Nat}

private theorem proceed_of_free (here : process.point =
      .submitExists submission seq)
    (valid : validateId (submission.itemId seq))
    (free : root.stored (submission.itemId seq) = none) :
    proceed live root process answer =
      process.writeThen
        [.saveItem none (submission.item seq answer), .saveControl (seq + 1)]
        (.submitted (submission.item seq answer)) := by
  have absent : root.queue.lookup (submission.itemId seq) = none := free
  simp [proceed, here, valid, absent]

end Choice

/-- The six steps of a submission whose name is free. -/
theorem submitted_of_free {submission : Submission} (positive : pid ≠ 0)
    (unused : world.process pid = none)
    (valid : validateId (submission.itemId world.root.nextSeq))
    (free : world.root.stored (submission.itemId world.root.nextSeq) = none)
    (answers : Fin 5 → Answer) :
    ∃ final, follow step world (submitsAlone pid submission answers) =
      some final ∧ Submitted world pid submission final := by
  let seq := world.root.nextSeq
  let item := submission.item seq (answers 1)
  let begun := world.set pid { point := .submitState submission }
  let counting := begun.set pid { point := .submitExists submission seq }
  let saving := counting.set pid
    { pending := [.saveItem none item, .saveControl (seq + 1)]
      point := .submitted item }
  let saved := (saving.write pid (.saveItem none item)).set pid
    { pending := [.saveControl (seq + 1)], point := .submitted item }
  let counted := (saved.write pid (.saveControl (seq + 1))).set pid
    { pending := [], point := .submitted item }
  have starts : step world (.start pid (.submit submission)) =
      some begun := by
    simp [step, positive, World.live, unused, Command.process, begun]
  have counts : step begun (.advance pid (answers 0)) = some counting :=
    step_go (World.process_set_self _ _ _) rfl rfl
  have chooses : step counting (.advance pid (answers 1)) = some saving :=
    step_go (World.process_set_self _ _ _) rfl (proceed_of_free rfl valid free)
  have saves : step saving (.advance pid (answers 2)) = some saved :=
    step_write (World.process_set_self _ _ _) rfl
  have hands : step saved (.advance pid (answers 3)) = some counted :=
    step_write (World.process_set_self _ _ _) rfl
  have leaves : step counted (.advance pid (answers 4)) =
      some ((counted.exit pid).report pid (.submitted item)) :=
    step_leave (World.process_set_self _ _ _) rfl rfl
  refine ⟨(counted.exit pid).report pid (.submitted item), ?_, ?_⟩
  · simp [submitsAlone, follow, starts, counts, chooses, saves, hands, leaves]
  · refine ⟨?_, ⟨answers 1, rfl, ?_⟩, free, rfl⟩
    · rw [World.process_report, World.process_exit_self]
    · exact stored_perform pid world.root (.saveItem none item)

end Alone

/-- A submission without a name can be made exactly when nobody has the
default name of the next number. -/
theorem defaultSubmits_iff (world : World) (pid : Pid) (positive : pid ≠ 0)
    (unused : world.process pid = none) :
    DefaultSubmits world ↔
      world.root.stored (runId world.root.nextSeq) = none := by
  constructor
  · intro submits
    obtain ⟨final, _, named, submitted⟩ :=
      submits pid ⟨"", "", none, 0⟩ (fun _ => {}) positive unused rfl
    rw [← named]
    exact submitted.fresh
  · intro free name submission answers named absent default
    have same := itemId_default default world.root.nextSeq
    rw [← same] at free
    obtain ⟨final, ran, submitted⟩ := submitted_of_free named absent
      (same ▸ validateId_runId world.root.nextSeq) free answers
    exact ⟨final, ran, same, submitted⟩

/-- In every run from a fresh control root in which submissions take turns and
none takes the default name of a later number than it has read, every
submission without a name that runs alone after it creates an item with a
fresh name. -/
theorem default_submits_of_inOrder (inputs : List Input) (final : World)
    (inOrder : Along step SubmitsInOrder (World.idle .initialized) inputs)
    (ran : follow step (World.idle .initialized) inputs = some final)
    (quiet : Quiet final) : DefaultSubmits final := by
  have invariant := follow_keeps
    (fun world input next sound condition stepped =>
      DefaultInvariant.step sound condition stepped)
    defaultInvariant_idle inOrder ran
  intro pid submission answers positive unused default
  have free : final.root.stored (runId final.root.nextSeq) = none := by
    apply Option.eq_none_iff_forall_ne_some.mpr
    intro item stored
    have reached : final.root.nextSeq ≤ item.seq :=
      invariant.stored _ item stored _ rfl
    rcases invariant.submits.below _ item stored with less | ⟨_, name, process,
      alive, saving⟩
    · omega
    · exact submits_of_saving saving
        (quiet _ (World.mem_processes.mpr alive))
  exact (defaultSubmits_iff final pid positive unused).mpr free pid submission
    answers positive unused default

/-- After a submission with a name of its own and one without. -/
theorem default_submits_of_inOrder_named :
    ∃ final, follow step (World.idle .initialized)
        (.start 1 (.submit ⟨"nightly.json", "", some "run-000001", 0⟩) ::
          advances 1 5 ++
          .start 2 (.submit ⟨"weekly.json", "", none, 0⟩) :: advances 2 5) =
        some final ∧
      final.root.queue.entries.map (·.id) = ["run-000002", "run-000001"] ∧
      DefaultSubmits final := by
  refine ⟨_, rfl, rfl, ?_⟩
  apply default_submits_of_inOrder
    (.start 1 (.submit ⟨"nightly.json", "", some "run-000001", 0⟩) ::
      advances 1 5 ++
      .start 2 (.submit ⟨"weekly.json", "", none, 0⟩) :: advances 2 5)
  · decide
  · rfl
  · decide

/-- The name of the second number is given away by hand; the next submission
without a name is refused, and the control root is as it was before it. -/
theorem default_submission_blocked :
    ∃ blocked, follow step (World.idle .initialized)
        (.start 1 (.submit ⟨"nightly.json", "", some "run-000002", 0⟩) ::
          advances 1 5) = some blocked ∧
      Along step SubmitsApart (World.idle .initialized)
        (.start 1 (.submit ⟨"nightly.json", "", some "run-000002", 0⟩) ::
          advances 1 5) ∧
      Quiet blocked ∧ ¬ DefaultSubmits blocked ∧
      ∃ final, follow step blocked
          (.start 2 (.submit ⟨"weekly.json", "", none, 0⟩) :: advances 2 2) =
          some final ∧
        final.root = blocked.root ∧
        final.results = blocked.results ++
          [(2, .error "queue item already exists: run-000002")] := by
  refine ⟨_, rfl, by decide, by decide, ?_, _, rfl, rfl, rfl⟩
  intro submits
  have free := (defaultSubmits_iff _ 2 (by decide) rfl).mp submits
  cases free

end PpcLab.Control
