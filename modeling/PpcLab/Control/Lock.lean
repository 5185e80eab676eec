import PpcLab.Control.LockMoves

/-!
# The lock of the supervisor

At most one supervisor is at work in every run in which the removal of a stale
lock is not interrupted by the creation of a new one and no lock is read before
it is written.
-/

namespace PpcLab.Control

/-- The protocol is safe, and every process is where it can be. -/
structure LockInvariant (world : World) : Prop where
  tidy : ∀ pid process, world.process pid = some process →
    process.LockTidy ∧ pid ≠ 0
  safe : LockSafe world.lockPhase world.root.lock

/-- The process has found the lock stale and has still to remove it. -/
def Process.removesLock (process : Process) : Bool :=
  process.point == .lockCreate && !process.pending.isEmpty

/-- No lock is read before its live creator has written it, and none is
created while another process has still to remove the one it found stale. -/
def LockUndisturbed (world : World) : Input → Prop
  | .advance pid _ =>
      ∀ process ∈ world.process pid, process.pending = [] →
        (process.point = .lockRead → ∀ file ∈ world.root.lock,
          ∀ creator ∈ world.process file.creator,
            .writeLock ∉ creator.pending) ∧
        (process.point = .lockCreate → world.root.lock = none →
          ∀ entry ∈ world.processes.entries, entry.2.removesLock = false)
  | _ => True

instance (world : World) :
    (input : Input) → Decidable (LockUndisturbed world input)
  | .advance pid _ =>
      inferInstanceAs (Decidable (∀ process ∈ world.process pid,
        process.pending = [] → _ ∧ _))
  | .start _ _ => .isTrue trivial
  | .signal _ => .isTrue trivial
  | .die _ => .isTrue trivial

section Step

variable {world : World} {pid : Pid} {process : Process}

private theorem lockPhase_of_process (alive : world.process pid = some process) :
    world.lockPhase pid = process.lockPhase := by
  simp [World.lockPhase, alive]

private theorem lockPhase_follow (next : Next) :
    (world.follow pid next).lockPhase pid = next.lockPhase := by
  simp [World.lockPhase, World.process_follow_self, Next.lockPhase]

private theorem lockPhase_congr {other : World} {name : Pid}
    (same : other.process name = world.process name) :
    other.lockPhase name = world.lockPhase name := by
  simp [World.lockPhase, same]

private theorem lock_follow (next : Next) :
    (world.follow pid next).root.lock = next.lock pid world.root.lock := by
  cases next <;> rfl

private theorem alive_of_owns (invariant : LockInvariant world)
    (answer : Answer) (owner : Pid) (owns : (world.lockPhase owner).owns) :
    procAlive world.live answer owner := by
  cases held : world.process owner with
  | none => simp [World.lockPhase, held, LockPhase.owns] at owns
  | some process =>
      have positive := (invariant.tidy owner process held).2
      simp [procAlive, World.live, held, positive]

private theorem LockInvariant.moved (invariant : LockInvariant world)
    {next : World} {alive : Pid → Bool}
    (living : ∀ owner, (world.lockPhase owner).owns → alive owner)
    (others : ∀ other, other ≠ pid →
      next.process other = world.process other)
    (orderly : LockOrderly world.lockPhase world.root.lock pid
      (next.lockPhase pid))
    (moved : LockMove pid alive (world.lockPhase pid) world.root.lock
      (next.lockPhase pid) next.root.lock)
    (tidy : ∀ process, next.process pid = some process →
      process.LockTidy ∧ pid ≠ 0) : LockInvariant next := by
  constructor
  · intro name process alive
    by_cases same : name = pid
    · subst same
      exact tidy process alive
    · rw [others name same] at alive
      exact invariant.tidy name process alive
  · exact invariant.safe.move living orderly
      (fun other different => lockPhase_congr (others other different)) moved

/-- A move that takes nobody from outside to removing or from creating to
writing interferes with nobody. -/
private theorem orderly_of_phase {after : LockPhase}
    (notRemoving : world.lockPhase pid = .outside → after ≠ .removing)
    (notWriting : world.lockPhase pid = .creating → after ≠ .writing) :
    LockOrderly world.lockPhase world.root.lock pid after :=
  ⟨fun before later => absurd later (notRemoving before),
    fun before later => absurd later (notWriting before)⟩

private theorem command_outside {command : Command}
    (entry : command.process = .ok process) :
    process.lockPhase = .outside ∧ process.LockTidy := by
  cases command with
  | serve maxActive untilIdle =>
      cases process_of_serve entry
      simp [Process.lockPhase, Process.LockTidy, Point.supervises]
  | _ =>
      cases entry
      simp [Process.lockPhase, Process.LockTidy, Point.supervises,
        Write.isLock]

private theorem PlainStep.lockPhase_cases {supervises : Bool} {next : Next}
    (plain : PlainStep supervises next) :
    next.lockPhase = .holding ∨ next.lockPhase = .outside := by
  cases plain with
  | @go after free afterPlain same =>
      change after.lockPhase = _ ∨ after.lockPhase = _
      rw [lockPhase_of_plain free (.inl afterPlain)]
      split <;> simp
  | @start id after free afterPlain same =>
      change after.lockPhase = _ ∨ after.lockPhase = _
      rw [lockPhase_of_plain free (.inl afterPlain)]
      split <;> simp
  | release after isSupervisor => exact .inl rfl
  | leave result => exact .inr rfl

/-- Only a lock that is found stale is going to be removed. -/
private theorem lockRead_of_removing {live : Pid → Bool} {root : Root}
    {answer : Answer} (idle : process.pending = [])
    (outside : process.lockPhase = .outside)
    (removing : (proceed live root process answer).lockPhase = .removing) :
    process.point = .lockRead := by
  by_cases plain : process.point.isPlain ∨ process.point = .names .recover
  · have stepped : PlainStep process.point.supervises
        (proceed live root process answer) := plain_proceed idle plain
    rcases stepped.lockPhase_cases with holding | left
    · rw [holding] at removing
      cases removing
    · rw [left] at removing
      cases removing
  · cases here : process.point with
    | lockRead => rfl
    | lockExists =>
        simp only [proceed, here] at removing
        split at removing
        · simp [Process.goTo, Next.lockPhase, Next.process, Process.lockPhase,
            Point.supervises] at removing
        · simp [Process.goTo, Next.lockPhase, Next.process, Process.lockPhase,
            idle] at removing
    | lockCreate => simp [Process.lockPhase, here, idle] at outside
    | released =>
        simp only [proceed, here] at removing
        cases removing
    | names purpose =>
        cases purpose <;> simp [here, Point.isPlain] at plain
    | _ => simp [here, Point.isPlain] at plain

/-- Only an absent lock is created. -/
private theorem lockCreate_of_creating (idle : process.pending = [])
    (creating : process.lockPhase = .creating) :
    process.point = .lockCreate := by
  unfold Process.lockPhase at creating
  split at creating
  · assumption
  · simp [idle] at creating
  · split at creating
    · simp [idle] at creating
    · cases creating

private theorem absent_of_writing {live : Pid → Bool} {root : Root}
    {answer : Answer} (here : process.point = .lockCreate)
    (writing : (proceed live root process answer).lockPhase = .writing) :
    root.lock = none := by
  simp only [proceed, here] at writing
  split at writing
  · cases writing
  · simpa using ‹¬ root.lock.isSome = true›

private theorem removing_iff :
    process.lockPhase = .removing ↔
      process.point = .lockCreate ∧ process.pending ≠ [] := by
  constructor
  · intro removing
    unfold Process.lockPhase at removing
    split at removing
    · rename_i here
      split at removing
      · cases removing
      · rename_i busy
        exact ⟨here, by simpa using busy⟩
    · split at removing <;> cases removing
    · split at removing
      · split at removing <;> cases removing
      · cases removing
  · intro ⟨here, busy⟩
    simp [Process.lockPhase, here, busy]

private theorem writes_of_phase (writing : process.lockPhase = .writing) :
    .writeLock ∈ process.pending := by
  unfold Process.lockPhase at writing
  split at writing
  · split at writing <;> cases writing
  · split at writing <;> cases writing
  · split at writing
    · split at writing
      · rename_i contained
        simpa using contained
      · cases writing
    · cases writing

private theorem orderly_of_read {answer : Answer}
    (alive : world.process pid = some process) (idle : process.pending = [])
    (undisturbed : LockUndisturbed world (.advance pid answer)) :
    LockOrderly world.lockPhase world.root.lock pid
      (proceed world.live world.root process answer).lockPhase := by
  obtain ⟨written, removed⟩ := undisturbed process alive idle
  constructor
  · intro outside removing file found writing
    rw [lockPhase_of_process alive] at outside
    have reading := lockRead_of_removing idle outside removing
    cases creating : world.process file.creator with
    | none => simp [World.lockPhase, creating] at writing
    | some creator =>
        rw [lockPhase_of_process creating] at writing
        exact written reading file found creator creating
          (writes_of_phase writing)
  · intro creating writing other removing
    rw [lockPhase_of_process alive] at creating
    have here := lockCreate_of_creating idle creating
    cases held : world.process other with
    | none => simp [World.lockPhase, held] at removing
    | some remover =>
        rw [lockPhase_of_process held] at removing
        have stays := removed here (absent_of_writing here writing)
          (other, remover) (World.mem_processes.mpr held)
        simp [Process.removesLock, removing_iff.mp removing] at stays

private theorem orderly_of_write {action : Write} {pending : List Write}
    (alive : world.process pid = some process)
    (next : process.pending = action :: pending) :
    LockOrderly world.lockPhase world.root.lock pid
      ({ process with pending } : Process).lockPhase := by
  apply orderly_of_phase
  · intro outside removing
    have here := (removing_iff.mp removing).1
    have before : process.lockPhase = .removing :=
      removing_iff.mpr ⟨here, by simp [next]⟩
    rw [lockPhase_of_process alive, before] at outside
    cases outside
  · intro creating writing
    have here : process.point ≠ .lockCreate := by
      intro here
      simp [Process.lockPhase, here] at writing
      split at writing <;> cases writing
    rw [lockPhase_of_process alive] at creating
    unfold Process.lockPhase at creating
    split at creating
    · contradiction
    · split at creating <;> cases creating
    · split at creating
      · split at creating <;> cases creating
      · cases creating

theorem LockInvariant.step {next : World} {input : Input}
    (invariant : LockInvariant world)
    (undisturbed : LockUndisturbed world input)
    (stepped : Control.step world input = some next) :
    LockInvariant next := by
  cases stepped_of_step stepped with
  | @begun pid command process positive free entry =>
      obtain ⟨outside, tidy⟩ := command_outside entry
      have before : world.lockPhase pid = .outside := by
        simp [World.lockPhase, free]
      have after : (world.set pid process).lockPhase pid = .outside := by
        simp [World.lockPhase, outside]
      refine invariant.moved (alive_of_owns invariant {})
        (fun other different => World.process_set_of_ne world process different)
        (orderly_of_phase ?_ ?_) ?_ ?_
      · simp [after]
      · simp [before]
      · rw [before, after]
        exact .stay _ _
      · intro other found
        rw [World.process_set_self] at found
        cases found
        exact ⟨tidy, positive⟩
  | refused => exact ⟨invariant.tidy, invariant.safe⟩
  | @wrote pid answer process action pending alive pendingNext =>
      have known := invariant.tidy pid process alive
      obtain ⟨moved, tidy⟩ := move_of_write pid
        (procAlive world.live answer) world.root known.1 pendingNext
      have after : ((world.write pid action).set pid
          { process with pending }).lockPhase pid =
            ({ process with pending } : Process).lockPhase :=
        lockPhase_of_process (World.process_set_self _ _ _)
      refine invariant.moved (alive_of_owns invariant answer)
        (fun other different => World.process_set_of_ne _ _ different) ?_ ?_ ?_
      · rw [after]
        exact orderly_of_write alive pendingNext
      · rw [after, lockPhase_of_process alive]
        exact moved
      · intro other found
        rw [World.process_set_self] at found
        cases found
        exact ⟨tidy, known.2⟩
  | @read pid answer process alive idle =>
      have known := invariant.tidy pid process alive
      obtain ⟨moved, tidy⟩ := move_of_read pid world.live world.root process
        answer idle
      refine invariant.moved (alive_of_owns invariant answer)
        (fun other different => World.process_follow_of_ne _ _ different)
        ?_ ?_ ?_
      · rw [lockPhase_follow]
        exact orderly_of_read alive idle undisturbed
      · rw [lockPhase_follow, lock_follow, lockPhase_of_process alive]
        exact moved
      · intro other found
        rw [World.process_follow_self] at found
        exact ⟨tidy other found, known.2⟩
  | @signalled pid process alive serves =>
      have known := invariant.tidy pid process alive
      have before := lockPhase_of_process alive
      have after : ((world.write pid (.touch .drain)).set pid
          (onSignal process)).lockPhase pid = process.lockPhase :=
        (lockPhase_of_process (World.process_set_self _ _ _)).trans rfl
      have holding := Process.lockPhase_of_serves serves
      refine invariant.moved (alive_of_owns invariant {})
        (fun other different => World.process_set_of_ne _ _ different)
        (orderly_of_phase ?_ ?_) ?_ ?_
      · simp [after, holding]
      · simp [after, holding]
      · rw [after, before]
        exact .stay _ _
      · intro other found
        rw [World.process_set_self] at found
        cases found
        exact known
  | @died pid process alive =>
      have after : (world.exit pid).lockPhase pid = .outside := by
        simp [World.lockPhase]
      refine invariant.moved (alive_of_owns invariant {})
        (fun other different => World.process_exit_of_ne _ different)
        (orderly_of_phase ?_ ?_) ?_ ?_
      · simp [after]
      · simp [after]
      · rw [after]
        exact .leave _ _
      · intro other found
        rw [World.process_exit_self] at found
        cases found

theorem lockInvariant_idle (root : Root) : LockInvariant (World.idle root) := by
  constructor
  · intro pid process alive
    cases alive
  · exact LockSafe.outside fun pid => rfl

end Step

/-- At most one process is between a successful `acquire_lock` and its
release. -/
def SingleSupervisor (world : World) : Prop :=
  ∀ first second firstProcess secondProcess,
    world.process first = some firstProcess →
    world.process second = some secondProcess →
    firstProcess.serves → secondProcess.serves → first = second

theorem LockInvariant.single {world : World}
    (invariant : LockInvariant world) : SingleSupervisor world := by
  intro first second firstProcess secondProcess firstAlive secondAlive
    firstServes secondServes
  apply invariant.safe.exclusive
  · rw [lockPhase_of_process firstAlive,
      Process.lockPhase_of_serves firstServes]
    rfl
  · rw [lockPhase_of_process secondAlive,
      Process.lockPhase_of_serves secondServes]
    rfl

/-- In every run in which no lock is read before its live creator has written
it, and none is created while another process has still to remove the one it
found stale, there is one supervisor at most. -/
theorem single_supervisor_of_lockUndisturbed (root : Root)
    (inputs : List Input) (final : World)
    (undisturbed : Along step LockUndisturbed (World.idle root) inputs)
    (ran : follow step (World.idle root) inputs = some final) :
    SingleSupervisor final := by
  have kept := follow_keeps
    (fun world input next (invariant : LockInvariant world) orderly stepped =>
      invariant.step orderly stepped)
    (lockInvariant_idle root) undisturbed ran
  exact kept.single

/-- A process that is gone has left its lock behind. -/
def staleRoot : Root :=
  { Root.initialized with lock := some ⟨9, some 9⟩ }

/-- The first supervisor replaces the stale lock, and the second one is
turned away. -/
theorem single_supervisor_of_lockUndisturbed_stale :
    ∃ final, follow step (World.idle staleRoot)
        (.start 1 (.serve 1 false) :: advances 1 5 ++
          .start 2 (.serve 1 false) :: advances 2 2) = some final ∧
      (final.process 1).any Process.serves ∧ final.process 2 = none ∧
      SingleSupervisor final := by
  have ran : ((follow step (World.idle staleRoot)
      (.start 1 (.serve 1 false) :: advances 1 5 ++
        .start 2 (.serve 1 false) :: advances 2 2)).map fun world =>
          ((world.process 1).any Process.serves, world.process 2)) =
      some (true, none) := by
    decide
  obtain ⟨final, reached, seen⟩ := Option.map_eq_some_iff.mp ran
  obtain ⟨serves, gone⟩ := Prod.mk.inj seen
  refine ⟨final, reached, serves, gone, ?_⟩
  exact single_supervisor_of_lockUndisturbed staleRoot _ final
    (by decide) reached

/-- Two processes find the lock stale; the second removes the new lock of the
first. -/
theorem stale_lock_replaced_twice :
    ∃ final, follow step (World.idle staleRoot)
        ([.start 1 (.serve 1 false), .start 2 (.serve 1 false)] ++
          advances 1 2 ++ advances 2 2 ++ advances 1 3 ++ advances 2 3) =
        some final ∧
      ¬ SingleSupervisor final := by
  refine ⟨_, rfl, ?_⟩
  intro single
  have same := single 1 2 _ _ rfl rfl rfl rfl
  cases same

end PpcLab.Control
