import PpcLab.Control.Plane

/-!
# What a step of the control plane does

A step begins a command, performs the first pending write of a process, lets a
process read, delivers a signal or ends a process.  Only writes change files,
except that a process may create the lock.

The steps of `acquire_lock` and of the release are moves of a lock file, and
no other step of any command touches it.
-/

namespace PpcLab.Control

namespace World

variable {world : World} {pid other : Pid} {process : Process}

@[simp] theorem process_set_self (world : World) (pid : Pid)
    (process : Process) :
    (world.set pid process).process pid = some process := by
  simp [World.process, set, Keyed.lookup_put_self world.processes (pid, process)]

theorem process_set_of_ne (world : World) (process : Process)
    (different : other ≠ pid) :
    (world.set pid process).process other = world.process other := by
  unfold World.process set
  rw [Keyed.lookup_put_of_ne world.processes different]

@[simp] theorem process_exit_self (world : World) (pid : Pid) :
    (world.exit pid).process pid = none := by
  simp [World.process, exit]

theorem process_exit_of_ne (world : World) (different : other ≠ pid) :
    (world.exit pid).process other = world.process other := by
  unfold World.process exit
  rw [Keyed.lookup_erase_of_ne world.processes different]

@[simp] theorem process_report (world : World) (pid other : Pid)
    (result : Result) :
    (world.report pid result).process other = world.process other := rfl

@[simp] theorem process_write (world : World) (pid other : Pid)
    (action : Write) :
    (world.write pid action).process other = world.process other := rfl

theorem mem_processes :
    (pid, process) ∈ world.processes.entries ↔
      world.process pid = some process := by
  rw [Keyed.mem_iff_lookup, World.process]
  constructor
  · intro found
    simp [found]
  · intro found
    obtain ⟨⟨key, value⟩, held, same⟩ := Option.map_eq_some_iff.mp found
    have sameKey : key = pid := Keyed.key_of_lookup held
    have sameValue : value = process := same
    rw [held, sameKey, sameValue]

end World

theorem process_of_serve {maxActive : Nat} {untilIdle : Bool}
    {process : Process}
    (entry : (Command.serve maxActive untilIdle).process = .ok process) :
    process =
      { point := .lockExists, supervisor := { maxActive, untilIdle } } := by
  simp only [Command.process] at entry
  split at entry
  · cases entry
  · cases entry
    rfl

/-- The process that a step of a process without writes leads to. -/
def Next.process : Next → Option Process
  | .go process | .create process | .start _ process => some process
  | .leave _ => none

theorem World.process_follow_self (world : World) (pid : Pid) (next : Next) :
    (world.follow pid next).process pid = next.process := by
  cases next with
  | go process => exact process_set_self world pid process
  | create process => exact process_set_self world pid process
  | start id process => exact process_set_self world pid process
  | leave result => exact process_exit_self world pid

theorem World.process_follow_of_ne (world : World) {pid other : Pid}
    (next : Next) (different : other ≠ pid) :
    (world.follow pid next).process other = world.process other := by
  cases next with
  | go process => exact process_set_of_ne world process different
  | create process => exact process_set_of_ne world process different
  | start id process => exact process_set_of_ne world process different
  | leave result => exact process_exit_of_ne world different

/-- What a step can be. -/
inductive Stepped (world : World) : Input → World → Prop where
  | begun {pid : Pid} {command : Command} {process : Process} :
      pid ≠ 0 → world.process pid = none → command.process = .ok process →
      Stepped world (.start pid command) (world.set pid process)
  | refused {pid : Pid} {command : Command} {message : String} :
      Stepped world (.start pid command) (world.report pid (.error message))
  | wrote {pid : Pid} {answer : Answer} {process : Process} {action : Write}
      {pending : List Write} :
      world.process pid = some process → process.pending = action :: pending →
      Stepped world (.advance pid answer)
        ((world.write pid action).set pid { process with pending })
  | read {pid : Pid} {answer : Answer} {process : Process} :
      world.process pid = some process → process.pending = [] →
      Stepped world (.advance pid answer)
        (world.follow pid (proceed world.live world.root process answer))
  | signalled {pid : Pid} {process : Process} :
      world.process pid = some process → process.serves →
      Stepped world (.signal pid)
        ((world.write pid (.touch .drain)).set pid (onSignal process))
  | died {pid : Pid} {process : Process} :
      world.process pid = some process →
      Stepped world (.die pid) (world.exit pid)

theorem stepped_of_step {world next : World} {input : Input}
    (stepped : step world input = some next) : Stepped world input next := by
  cases input with
  | start pid command =>
      simp only [step] at stepped
      by_cases taken : pid = 0 || world.live pid
      · simp [taken] at stepped
      · rw [if_neg taken] at stepped
        have free : pid ≠ 0 ∧ world.process pid = none := by
          simpa [World.live] using taken
        cases entry : command.process with
        | error message =>
            rw [entry] at stepped
            cases stepped
            exact .refused
        | ok process =>
            rw [entry] at stepped
            cases stepped
            exact .begun free.1 free.2 entry
  | advance pid answer =>
      obtain ⟨process, alive, advanced⟩ := Option.map_eq_some_iff.mp stepped
      subst advanced
      unfold advance
      cases pending : process.pending with
      | nil => exact .read alive pending
      | cons action rest => exact .wrote alive pending
  | signal pid =>
      simp only [step] at stepped
      cases alive : world.process pid with
      | none => simp [alive] at stepped
      | some process =>
          simp only [alive] at stepped
          by_cases serves : process.serves
          · rw [if_pos serves] at stepped
            cases stepped
            exact .signalled alive serves
          · rw [if_neg serves] at stepped
            cases stepped
  | die pid =>
      obtain ⟨process, alive, exited⟩ := Option.map_eq_some_iff.mp stepped
      subst exited
      exact .died alive

section Advance

variable {world : World} {pid : Pid} {process after : Process} {answer : Answer}

theorem step_go (alive : world.process pid = some process)
    (idle : process.pending = [])
    (next : proceed world.live world.root process answer = .go after) :
    step world (.advance pid answer) = some (world.set pid after) := by
  simp only [step, alive, Option.map_some, advance, idle, next, World.follow]

theorem step_leave {result : Result}
    (alive : world.process pid = some process) (idle : process.pending = [])
    (next : proceed world.live world.root process answer = .leave result) :
    step world (.advance pid answer) =
      some ((world.exit pid).report pid result) := by
  simp only [step, alive, Option.map_some, advance, idle, next, World.follow]

theorem step_write {action : Write} {pending : List Write}
    (alive : world.process pid = some process)
    (pendingNext : process.pending = action :: pending) :
    step world (.advance pid answer) =
      some ((world.write pid action).set pid { process with pending }) := by
  simp only [step, alive, Option.map_some, advance, pendingNext]

end Advance

def Process.lockPhase (process : Process) : LockPhase :=
  match process.point with
  | .lockCreate => if process.pending.isEmpty then .creating else .removing
  | .released => if process.pending.isEmpty then .outside else .holding
  | point =>
      if point.supervises then
        if process.pending.contains .writeLock then .writing else .holding
      else .outside

def World.lockPhase (world : World) (pid : Pid) : LockPhase :=
  ((world.process pid).map Process.lockPhase).getD .outside

def Write.isLock : Write → Bool
  | .writeLock | .unlinkLock => true
  | _ => false

/-- The lock is written right after its creation, and removed only before a
creation and in the end. -/
def Process.LockTidy (process : Process) : Prop :=
  match process.point with
  | .lockCreate | .released =>
      process.pending = [] ∨ process.pending = [.unlinkLock]
  | .names .recover =>
      process.pending = [] ∨ process.pending = [.writeLock]
  | _ => ∀ action ∈ process.pending, action.isLock = false

def Next.lockPhase (next : Next) : LockPhase :=
  (next.process.map Process.lockPhase).getD .outside

/-- The lock after a step without writes. -/
def Next.lock (pid : Pid) (lock : Option (LockFile Pid)) :
    Next → Option (LockFile Pid)
  | .create _ => some ⟨pid, none⟩
  | .go _ | .start _ _ | .leave _ => lock

theorem Process.lockPhase_of_serves {process : Process}
    (serves : process.serves) : process.lockPhase = .holding := by
  obtain ⟨pending, point, supervisor⟩ := process
  cases point with
  | released =>
      cases pending with
      | nil => simp [Process.serves, Point.supervises] at serves
      | cons action pending => rfl
  | names purpose | load purpose _ _ | each purpose _ =>
      cases purpose <;>
        simp_all [Process.serves, lockPhase, Point.supervises]
  | _ => simp_all [Process.serves, lockPhase, Point.supervises]

/-- Apart from the points at which the lock is taken or given back, the phase
says whether the process is a supervisor. -/
private theorem lockPhase_of_free {process : Process}
    (free : ∀ action ∈ process.pending, action.isLock = false)
    (notCreating : process.point ≠ .lockCreate)
    (notReleased : process.point ≠ .released) :
    process.lockPhase =
      if process.point.supervises then .holding else .outside := by
  have noWrite : .writeLock ∉ process.pending := by
    intro contained
    have isLock := free .writeLock contained
    cases isLock
  unfold Process.lockPhase
  split
  · contradiction
  · contradiction
  · simp [noWrite]

private theorem free_archiveTerminal (item : Item) (answer : Answer) :
    ∀ action ∈ archiveTerminal item answer, action.isLock = false := by
  unfold archiveTerminal
  split <;> simp [Write.isLock]

private theorem free_saveTerminal (seen item : Item) (answer : Answer) :
    ∀ action ∈ saveTerminal seen item answer, action.isLock = false := by
  intro action member
  rcases List.mem_cons.mp member with rfl | archived
  · rfl
  · exact free_archiveTerminal item answer action archived

private theorem free_cancelWrites (item : Item) (answer : Answer) :
    ∀ action ∈ cancelWrites item answer, action.isLock = false := by
  unfold cancelWrites
  split
  · exact free_saveTerminal _ _ _
  · simp [Write.isLock]
  · exact free_saveTerminal _ _ _
  · simp

private theorem free_cancelAllWrites (item : Item) (answer : Answer) :
    ∀ action ∈ cancelAllWrites item answer, action.isLock = false := by
  unfold cancelAllWrites
  split
  · exact free_saveTerminal _ _ _
  · simp [Write.isLock]
  · simp

private theorem free_passWrites (live : Pid → Bool) (item : Item)
    (answer : Answer) (purpose : Purpose) :
    ∀ action ∈ passWrites live item answer purpose,
      action.isLock = false := by
  cases purpose with
  | cancelAll => exact free_cancelAllWrites item answer
  | recover =>
      simp only [passWrites, recoverWrites]
      split
      · split <;> simp [Write.isLock]
      · simp
  | globalCancel =>
      simp only [passWrites, globalCancelWrites]
      split
      · exact free_saveTerminal _ _ _
      · exact free_cancelAllWrites item answer
  | choose | telemetry => simp [passWrites]

/-- A point at which neither the lock is taken nor given back. -/
def Point.isPlain : Point → Bool
  | .lockExists | .lockRead | .lockCreate | .released | .names .recover =>
      false
  | _ => true

/-- A step that leaves the lock alone: the process stays what it is, begins to
release the lock if it has it, or ends without it. -/
inductive PlainStep (supervises : Bool) : Next → Prop where
  | go {process : Process} :
      (∀ action ∈ process.pending, action.isLock = false) →
      process.point.isPlain → process.point.supervises = supervises →
      PlainStep supervises (.go process)
  | start {id : String} {process : Process} :
      (∀ action ∈ process.pending, action.isLock = false) →
      process.point.isPlain → process.point.supervises = supervises →
      PlainStep supervises (.start id process)
  | release (process : Process) :
      supervises = true → PlainStep supervises process.release
  | leave (result : Result) :
      supervises = false → PlainStep supervises (.leave result)

section Proceed

variable {live : Pid → Bool} {root : Root} {process : Process}
  {answer : Answer}

private theorem plain_goTo (idle : process.pending = []) {point : Point}
    (plain : point.isPlain) {supervises : Bool}
    (same : point.supervises = supervises) :
    PlainStep supervises (process.goTo point) := by
  refine .go ?_ plain same
  simp [idle]

private theorem plain_raise (process : Process) (message : String) :
    PlainStep process.point.supervises (process.raise message) := by
  unfold Process.raise
  split
  · rename_i supervises
    exact .release process supervises
  · rename_i client
    exact .leave _ (Bool.eq_false_iff.mpr client)

private theorem plain_afterLoad (idle : process.pending = [])
    {purpose : Purpose} {loaded : List Item}
    (loading : process.point = .load purpose [] loaded) :
    PlainStep process.point.supervises
      (afterLoad process loaded purpose) := by
  rw [loading]
  cases purpose with
  | choose =>
      simp only [afterLoad]
      split
      · exact plain_goTo idle rfl rfl
      · exact plain_goTo idle rfl rfl
  | telemetry =>
      simp only [afterLoad]
      split
      · exact .release process rfl
      · exact plain_goTo idle rfl rfl
  | cancelAll | recover | globalCancel => exact plain_goTo idle rfl rfl

/-- A step of a process that is not concerned with the lock. -/
theorem plain_proceed (idle : process.pending = [])
    (plain : process.point.isPlain ∨ process.point = .names .recover) :
    PlainStep process.point.supervises
      (proceed live root process answer) := by
  cases here : process.point with
  | submitState submission =>
      simp only [proceed, here]
      exact plain_goTo idle rfl rfl
  | submitExists submission seq =>
      simp only [proceed, here]
      split
      · exact .leave _ rfl
      · split
        · exact .leave _ rfl
        · exact .go (by simp [Write.isLock]) rfl rfl
  | submitted item | printed text =>
      simp only [proceed, here]
      exact .leave _ rfl
  | cancelItem id =>
      simp only [proceed, here]
      split
      · exact .leave _ rfl
      · split
        · exact .leave _ rfl
        · split
          · exact .leave _ rfl
          · exact .go (free_cancelWrites _ _) rfl rfl
  | names purpose =>
      simp only [proceed, here]
      exact plain_goTo idle rfl rfl
  | load purpose names loaded =>
      rw [← here]
      cases names with
      | nil =>
          simp only [proceed, here]
          rw [← here]
          exact plain_afterLoad idle here
      | cons name names =>
          simp only [proceed, here]
          rw [← here]
          split
          · exact plain_raise process _
          · refine plain_goTo idle rfl ?_
            rw [here]
            rfl
  | each purpose items =>
      cases items with
      | nil =>
          simp only [proceed, here]
          cases purpose <;> exact plain_goTo idle rfl rfl
      | cons item items =>
          simp only [proceed, here]
          exact .go (free_passWrites _ _ _ _) rfl rfl
  | lockExists | lockRead | lockCreate | released =>
      rw [here] at plain
      simp [Point.isPlain] at plain
  | readCancel | readPause =>
      simp only [proceed, here]
      exact .go (by simp [idle]) rfl rfl
  | readDrain =>
      simp only [proceed, here]
      split
      · exact .go (by simp [idle]) rfl rfl
      · exact .go (by simp [idle]) rfl rfl
  | poll ids =>
      cases ids with
      | nil =>
          simp only [proceed, here]
          exact plain_goTo idle rfl rfl
      | cons id ids =>
          simp only [proceed, here]
          split
          · exact plain_goTo idle rfl rfl
          · exact plain_goTo idle rfl rfl
  | reap id returncode ids =>
      simp only [proceed, here]
      split
      · have raised := plain_raise process
          ("cannot read queue item " ++ id)
        rw [here] at raised
        exact raised
      · exact .go (free_saveTerminal _ _ _) rfl rfl
  | dispatch =>
      simp only [proceed, here]
      split
      · exact plain_goTo idle rfl rfl
      · exact plain_goTo idle rfl rfl
  | verify item =>
      simp only [proceed, here]
      split
      · exact .go (free_saveTerminal _ _ _) rfl rfl
      · exact plain_goTo idle rfl rfl
  | spawn item =>
      simp only [proceed, here]
      exact .start (by simp [Write.isLock]) rfl rfl

private theorem tidy_of_plain
    (free : ∀ action ∈ process.pending, action.isLock = false)
    (plain : process.point.isPlain) : process.LockTidy := by
  unfold Process.LockTidy
  split
  all_goals
    first
      | exact free
      | (rename_i here
         rw [here] at plain
         cases plain)

theorem lockPhase_of_plain
    (free : ∀ action ∈ process.pending, action.isLock = false)
    (plain : process.point.isPlain ∨ process.point = .names .recover) :
    process.lockPhase =
      if process.point.supervises then .holding else .outside := by
  apply lockPhase_of_free free
  · intro here
    simp [here, Point.isPlain] at plain
  · intro here
    simp [here, Point.isPlain] at plain

private theorem move_of_plain {pid : Pid} {alive : Pid → Bool}
    {lock : Option (LockFile Pid)} {next : Next}
    (idle : process.pending = [])
    (plain : process.point.isPlain ∨ process.point = .names .recover)
    (stepped : PlainStep process.point.supervises next) :
    LockMove pid alive process.lockPhase lock next.lockPhase
        (next.lock pid lock) ∧
      ∀ after ∈ next.process, after.LockTidy := by
  have free : ∀ action ∈ process.pending, action.isLock = false := by
    simp [idle]
  have before := lockPhase_of_plain free plain
  cases stepped with
  | @go after afterFree afterPlain same =>
      refine ⟨?_, ?_⟩
      · have later := lockPhase_of_plain afterFree (.inl afterPlain)
        rw [same, ← before] at later
        change LockMove pid alive process.lockPhase lock after.lockPhase lock
        rw [later]
        exact .stay _ _
      · rintro _ ⟨⟩
        exact tidy_of_plain afterFree afterPlain
  | @start id after afterFree afterPlain same =>
      refine ⟨?_, ?_⟩
      · have later := lockPhase_of_plain afterFree (.inl afterPlain)
        rw [same, ← before] at later
        change LockMove pid alive process.lockPhase lock after.lockPhase lock
        rw [later]
        exact .stay _ _
      · rintro _ ⟨⟩
        exact tidy_of_plain afterFree afterPlain
  | release process supervises =>
      rw [before, supervises]
      refine ⟨.stay _ _, ?_⟩
      rintro _ ⟨⟩
      exact .inr rfl
  | leave result =>
      refine ⟨.leave _ _, ?_⟩
      rintro _ ⟨⟩

/-- A reading step is a move of the lock. -/
theorem move_of_read (pid : Pid) (live : Pid → Bool) (root : Root)
    (process : Process) (answer : Answer) (idle : process.pending = []) :
    LockMove pid (procAlive live answer) process.lockPhase root.lock
        (proceed live root process answer).lockPhase
        ((proceed live root process answer).lock pid root.lock) ∧
      ∀ after ∈ (proceed live root process answer).process,
        after.LockTidy := by
  by_cases plain : process.point.isPlain ∨ process.point = .names .recover
  · exact move_of_plain idle plain (plain_proceed idle plain)
  · cases here : process.point with
    | lockExists =>
        have outside : process.lockPhase = .outside := by
          simp [Process.lockPhase, here, Point.supervises]
        simp only [proceed, here, outside]
        cases held : root.lock with
        | none =>
            refine ⟨?_, ?_⟩
            · simp only [Process.goTo, Next.lockPhase, Next.process, Next.lock,
                idle]
              exact .absent
            · rintro _ ⟨⟩
              exact .inl idle
        | some file =>
            refine ⟨.leave _ _, ?_⟩
            rintro _ ⟨⟩
            simp [Process.LockTidy, idle]
    | lockRead =>
        have outside : process.lockPhase = .outside := by
          simp [Process.lockPhase, here, Point.supervises]
        simp only [proceed, here, outside]
        split
        · refine ⟨.leave _ _, ?_⟩
          rintro _ ⟨⟩
        · rename_i dead
          refine ⟨.stale _ ?_, ?_⟩
          · intro file found owner named
            have present : root.lock = some file := found
            have content : file.content = some owner := named
            simpa [present, content] using dead
          · rintro _ ⟨⟩
            exact .inr rfl
    | lockCreate =>
        have creating : process.lockPhase = .creating := by
          simp [Process.lockPhase, here, idle]
        simp only [proceed, here, creating]
        cases held : root.lock with
        | none =>
            refine ⟨.create, ?_⟩
            rintro _ ⟨⟩
            exact .inr rfl
        | some file =>
            refine ⟨.leave _ _, ?_⟩
            rintro _ ⟨⟩
    | released =>
        simp only [proceed, here]
        refine ⟨.leave _ _, ?_⟩
        rintro _ ⟨⟩
    | names purpose =>
        cases purpose <;> simp [here, Point.isPlain] at plain
    | _ => simp [here, Point.isPlain] at plain

private theorem lock_perform_of_free (pid : Pid) (root : Root)
    {action : Write} (free : action.isLock = false) :
    (action.perform pid root).lock = root.lock := by
  cases action with
  | writeLock | unlinkLock => cases free
  | _ => rfl

/-- A write is a move of the lock. -/
theorem move_of_write (pid : Pid) (alive : Pid → Bool) (root : Root)
    {action : Write} {pending : List Write} (tidy : process.LockTidy)
    (next : process.pending = action :: pending) :
    LockMove pid alive process.lockPhase root.lock
        ({ process with pending } : Process).lockPhase
        (action.perform pid root).lock ∧
      ({ process with pending } : Process).LockTidy := by
  unfold Process.LockTidy at tidy
  split at tidy
  · rename_i here
    rw [next] at tidy
    simp only [List.cons_ne_nil, false_or] at tidy
    cases tidy
    simp only [Process.lockPhase, here, next, Process.LockTidy]
    exact ⟨.remove _, .inl trivial⟩
  · rename_i here
    rw [next] at tidy
    simp only [List.cons_ne_nil, false_or] at tidy
    cases tidy
    simp only [Process.lockPhase, here, next, Process.LockTidy]
    exact ⟨.release _, .inl trivial⟩
  · rename_i here
    rw [next] at tidy
    simp only [List.cons_ne_nil, false_or] at tidy
    cases tidy
    simp only [Process.lockPhase, here, next, Process.LockTidy]
    exact ⟨.write _, .inl trivial⟩
  · rename_i notCreating notReleased notRecover
    have free : ∀ later ∈ pending, later.isLock = false := by
      intro later member
      apply tidy later
      rw [next]
      exact List.mem_cons_of_mem _ member
    have actionFree : action.isLock = false := by
      apply tidy action
      rw [next]
      exact List.mem_cons_self
    have later : ({ process with pending } : Process).lockPhase =
        if process.point.supervises then .holding else .outside :=
      lockPhase_of_free free notCreating notReleased
    rw [lock_perform_of_free pid root actionFree,
      lockPhase_of_free tidy notCreating notReleased, later]
    refine ⟨.stay _ _, ?_⟩
    unfold Process.LockTidy
    split
    all_goals first | contradiction | exact free

end Proceed

end PpcLab.Control
