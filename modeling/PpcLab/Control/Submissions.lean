import PpcLab.Control.Origins
import PpcLab.Control.SectionSafety

/-!
# Submissions

A submission reads the counter, looks whether the name is free, saves its item
and writes the counter back.  As long as no other submission reads the counter
between the first and the last of these and no submission dies between the last
two, no submission is lost and every item has a number of its own.
-/

namespace PpcLab.Control

/-- About to read the counter. -/
def Point.counts : Point → Bool
  | .submitState _ => true
  | _ => false

/-- The write that hands a number out. -/
def Write.isCount : Write → Bool
  | .saveControl _ => true
  | _ => false

/-- No submission reads the counter while another has read it and has still to
write it back, and none dies between saving its item and writing the counter
back. -/
def SubmitsApart (world : World) : Input → Prop
  | .advance pid _ =>
      ∀ process ∈ world.process pid,
        process.pending = [] → process.point.counts →
        ∀ entry ∈ world.processes.entries, entry.2.submits = none
  | .die pid =>
      ∀ process ∈ world.process pid,
        ∀ action ∈ process.pending.head?, action.isCount = false
  | _ => True

instance (world : World) :
    (input : Input) → Decidable (SubmitsApart world input)
  | .advance pid _ =>
      inferInstanceAs (Decidable (∀ process ∈ world.process pid,
        process.pending = [] → process.point.counts →
        ∀ entry ∈ world.processes.entries, entry.2.submits = none))
  | .die pid =>
      inferInstanceAs (Decidable (∀ process ∈ world.process pid,
        ∀ action ∈ process.pending.head?, action.isCount = false))
  | .start _ _ => .isTrue trivial
  | .signal _ => .isTrue trivial

/-- What a process submits is what it was asked to submit. -/
def Point.Asked (asked : Submission → Prop) : Point → Prop
  | .submitState submission | .submitExists submission _ => asked submission
  | .submitted item =>
      ∃ submission answer, asked submission ∧
        item = submission.item item.seq answer
  | _ => True

theorem Forward.asked {root : Root} {before after : Point}
    {asked : Submission → Prop} (forward : Forward root before after)
    (known : before.Asked asked) : after.Asked asked := by
  cases forward with
  | outside neither notFirst =>
      cases after with
      | submitState submission => exact absurd rfl (notFirst submission)
      | submitExists | submitted => cases neither
      | _ => exact trivial
  | counts => exact known
  | @chooses submission seq answer => exact ⟨submission, answer, known, rfl⟩

/-- The item whose number is not yet written back. -/
def Process.saving (process : Process) : Option String :=
  match process.point, process.pending with
  | .submitted item, [.saveControl _] => some item.id
  | _, _ => none

structure SubmitInvariant (asked : Pid → Submission → Prop) (world : World) :
    Prop where
  stage : ∀ pid process, world.process pid = some process →
    Stage world.root.stored process
  asks : ∀ pid process, world.process pid = some process →
    process.point.Asked (asked pid)
  number : ∀ pid process seq, world.process pid = some process →
    process.submits = some seq → seq = world.root.nextSeq
  alone : ∀ pid other process otherProcess,
    world.process pid = some process →
    world.process other = some otherProcess →
    process.submits ≠ none → otherProcess.submits ≠ none → pid = other
  below : ∀ id item, world.root.stored id = some item →
    item.seq < world.root.nextSeq ∨
      item.seq = world.root.nextSeq ∧
        ∃ pid process, world.process pid = some process ∧
          process.saving = some id
  distinct : ∀ id other item otherItem, world.root.stored id = some item →
    world.root.stored other = some otherItem → item.seq = otherItem.seq →
    id = other
  reported : ∀ pid item, (pid, .submitted item) ∈ world.results →
    Known world.root.stored item ∧
      ∃ submission answer, asked pid submission ∧
        item = submission.item item.seq answer

theorem submitInvariant_idle (asked : Pid → Submission → Prop) :
    SubmitInvariant asked (World.idle .initialized) := by
  refine ⟨?_, ?_, ?_, ?_, ?_, ?_, ?_⟩
  · intro pid process alive
    cases alive
  · intro pid process alive
    cases alive
  · intro pid process seq alive
    cases alive
  · intro pid other process otherProcess alive
    cases alive
  · intro id item stored
    cases stored
  · intro id other item otherItem stored
    cases stored
  · intro pid item reported
    cases reported

section Step

variable {asked : Pid → Submission → Prop} {world next : World} {pid : Pid}
  {process : Process}

theorem submits_of_saving {id : String}
    (saving : process.saving = some id) : process.submits ≠ none := by
  unfold Process.saving at saving
  split at saving
  · rename_i item nextSeq here pending
    simp [Process.submits, here, pending]
  · cases saving

private theorem pending_of_saving {id : String}
    (saving : process.saving = some id) :
    ∃ item nextSeq, process.point = .submitted item ∧
      process.pending = [.saveControl nextSeq] ∧ item.id = id := by
  unfold Process.saving at saving
  split at saving
  · rename_i item nextSeq here pending
    exact ⟨item, nextSeq, here, pending, Option.some.inj saving⟩
  · cases saving

/-- Every item is still there with what its submission has put into it, and
there is no other. -/
def SameOrigins (before after : Store) : Prop :=
  ∀ id, (after id).map Item.origin = (before id).map Item.origin

private theorem SameOrigins.keeps {before after : Store}
    (same : SameOrigins before after) : Keeps before after := by
  intro id item stored
  have here := same id
  rw [stored] at here
  exact Option.map_eq_some_iff.mp here

private theorem SameOrigins.earlier {before after : Store}
    (same : SameOrigins before after) {id : String} {item : Item}
    (stored : after id = some item) :
    ∃ earlier, before id = some earlier ∧ earlier.origin = item.origin := by
  have here := same id
  rw [stored] at here
  exact Option.map_eq_some_iff.mp here.symm

private theorem SameOrigins.absent {before after : Store}
    (same : SameOrigins before after) {id : String}
    (missing : before id = none) : after id = none := by
  have here := same id
  rw [missing] at here
  exact Option.map_eq_none_iff.mp here

private theorem sameOrigins_of_keepsOrigin {stored : Store} {action : Write}
    (keeps : action.KeepsOrigin stored) :
    SameOrigins stored (action.store stored) := by
  intro id
  cases action with
  | saveItem seen item =>
      obtain ⟨old, isStored, same⟩ := keeps
      by_cases here : id = item.id
      · subst here
        simp [Write.store, isStored, same]
      · simp [Write.store, here]
  | _ => rfl

/-- No number is handed out and no item comes or goes; one process moves on. -/
private theorem SubmitInvariant.moved (invariant : SubmitInvariant asked world)
    (others : ∀ other, other ≠ pid → next.process other = world.process other)
    (origins : SameOrigins world.root.stored next.root.stored)
    (sameCount : next.root.nextSeq = world.root.nextSeq)
    (after : ∀ process, next.process pid = some process →
      Stage next.root.stored process ∧ process.point.Asked (asked pid) ∧
        (process.submits = none ∨
          (∃ before, world.process pid = some before ∧
            before.submits = process.submits) ∨
          process.submits = some world.root.nextSeq ∧
            ∀ other otherProcess, other ≠ pid →
              world.process other = some otherProcess →
              otherProcess.submits = none))
    (saves : ∀ before id, world.process pid = some before →
      before.saving = some id →
      ∃ process, next.process pid = some process ∧ process.saving = some id)
    (reports : ∀ name item, (name, .submitted item) ∈ next.results →
      (name, .submitted item) ∈ world.results ∨
        Known world.root.stored item ∧
          ∃ submission answer, asked name submission ∧
            item = submission.item item.seq answer) :
    SubmitInvariant asked next := by
  have apart : ∀ process other otherProcess, next.process pid = some process →
      other ≠ pid → next.process other = some otherProcess →
      process.submits ≠ none → otherProcess.submits ≠ none → False := by
    intro process other otherProcess alive different otherAlive here there
    rw [others other different] at otherAlive
    rcases (after process alive).2.2 with outside | ⟨before, was, same⟩ | first
    · exact here outside
    · rw [← same] at here
      exact different (invariant.alone pid other before otherProcess was
        otherAlive here there).symm
    · exact there (first.2 other otherProcess different otherAlive)
  refine ⟨?_, ?_, ?_, ?_, ?_, ?_, ?_⟩
  · intro name process alive
    by_cases same : name = pid
    · subst same
      exact (after process alive).1
    · rw [others name same] at alive
      exact (invariant.stage name process alive).keeps origins.keeps
        fun _ missing _ => origins.absent missing
  · intro name process alive
    by_cases same : name = pid
    · subst same
      exact (after process alive).2.1
    · rw [others name same] at alive
      exact invariant.asks name process alive
  · intro name process seq alive has
    rw [sameCount]
    by_cases same : name = pid
    · subst same
      rcases (after process alive).2.2 with outside | ⟨before, was, same⟩ | first
      · rw [outside] at has
        cases has
      · exact invariant.number name before seq was (same.trans has)
      · rw [first.1] at has
        exact (Option.some.inj has).symm
    · rw [others name same] at alive
      exact invariant.number name process seq alive has
  · intro name other process otherProcess alive otherAlive here there
    by_cases same : name = pid
    · subst same
      by_contra different
      exact apart process other otherProcess alive (Ne.symm different)
        otherAlive here there
    · by_cases otherSame : other = pid
      · subst otherSame
        exact (apart otherProcess name process otherAlive same alive there
          here).elim
      · rw [others name same] at alive
        rw [others other otherSame] at otherAlive
        exact invariant.alone name other process otherProcess alive otherAlive
          here there
  · intro id item stored
    obtain ⟨earlier, wasStored, sameOrigin⟩ := origins.earlier stored
    rw [sameCount, ← seq_of_origin sameOrigin]
    rcases invariant.below id earlier wasStored with less | ⟨equal, name,
      before, was, saving⟩
    · exact .inl less
    · refine .inr ⟨equal, ?_⟩
      by_cases same : name = pid
      · subst same
        exact ⟨name, saves before id was saving⟩
      · exact ⟨name, before, (others name same).trans was, saving⟩
  · intro id other item otherItem stored otherStored same
    obtain ⟨earlier, wasStored, sameOrigin⟩ := origins.earlier stored
    obtain ⟨otherEarlier, otherWas, otherOrigin⟩ :=
      origins.earlier otherStored
    apply invariant.distinct id other earlier otherEarlier wasStored otherWas
    rw [seq_of_origin sameOrigin, seq_of_origin otherOrigin, same]
  · intro name item reported
    rcases reports name item reported with before | ⟨known, asks⟩
    · obtain ⟨known, asks⟩ := invariant.reported name item before
      exact ⟨known.keeps origins.keeps, asks⟩
    · exact ⟨known.keeps origins.keeps, asks⟩

section Written

variable {item : Item} {supervisor : Supervisor}

/-- Everybody else when a process is submitting. -/
private theorem SubmitInvariant.idle_of_alone
    (invariant : SubmitInvariant asked world)
    (alive : world.process pid = some process)
    (submits : process.submits ≠ none) {other : Pid} {otherProcess : Process}
    (different : other ≠ pid)
    (otherAlive : world.process other = some otherProcess) :
    otherProcess.submits = none := by
  by_contra there
  exact different (invariant.alone pid other process otherProcess alive
    otherAlive submits there).symm

/-- A submission saves its item. -/
private theorem SubmitInvariant.saved (invariant : SubmitInvariant asked world)
    (missing : world.root.stored item.id = none)
    (alive : world.process pid = some
      { pending := [.saveItem none item, .saveControl (item.seq + 1)]
        point := .submitted item
        supervisor }) :
    SubmitInvariant asked ((world.write pid (.saveItem none item)).set pid
      { pending := [.saveControl (item.seq + 1)]
        point := .submitted item
        supervisor }) := by
  have mine : item.seq = world.root.nextSeq :=
    invariant.number pid _ item.seq alive rfl
  have asks : (Point.submitted item).Asked (asked pid) :=
    invariant.asks pid _ alive
  have quiet : ∀ other otherProcess, other ≠ pid →
      world.process other = some otherProcess →
      otherProcess.submits = none := fun other otherProcess different =>
    invariant.idle_of_alone alive (by simp [Process.submits]) different
  have items : ((world.write pid (.saveItem none item)).set pid
      { pending := [.saveControl (item.seq + 1)]
        point := .submitted item
        supervisor }).root.stored =
        Function.update world.root.stored item.id (some item) :=
    stored_perform pid world.root (.saveItem none item)
  have keeps : Keeps world.root.stored
      (Function.update world.root.stored item.id (some item)) := by
    intro id old stored
    have different : id ≠ item.id := by
      rintro rfl
      rw [missing] at stored
      cases stored
    exact ⟨old, by simp [different, stored], rfl⟩
  have earlier : ∀ id old, world.root.stored id = some old →
      old.seq < item.seq := by
    intro id old stored
    rcases invariant.below id old stored with less | ⟨_, name, before, was,
      saving⟩
    · rw [mine]
      exact less
    · exfalso
      have here : name = pid := invariant.alone name pid before _ was alive
        (submits_of_saving saving) (by simp [Process.submits])
      subst here
      rw [alive] at was
      cases was
      cases saving
  refine ⟨?_, ?_, ?_, ?_, ?_, ?_, ?_⟩
  · intro name process found
    rw [items]
    by_cases same : name = pid
    · subst same
      rw [World.process_set_self] at found
      cases found
      exact .saved ⟨item, by simp, rfl⟩
    · rw [World.process_set_of_ne _ _ same] at found
      exact (invariant.stage name process found).keeps keeps
        fun _ _ submits => absurd (quiet name process same found) submits
  · intro name process found
    by_cases same : name = pid
    · subst same
      rw [World.process_set_self] at found
      cases found
      exact asks
    · rw [World.process_set_of_ne _ _ same] at found
      exact invariant.asks name process found
  · intro name process seq found has
    by_cases same : name = pid
    · subst same
      rw [World.process_set_self] at found
      cases found
      exact (Option.some.inj has).symm.trans mine
    · rw [World.process_set_of_ne _ _ same] at found
      exact invariant.number name process seq found has
  · intro name other process otherProcess found otherFound here there
    by_cases same : name = pid
    · by_cases otherSame : other = pid
      · exact same.trans otherSame.symm
      · rw [World.process_set_of_ne _ _ otherSame] at otherFound
        exact absurd (quiet other otherProcess otherSame otherFound) there
    · rw [World.process_set_of_ne _ _ same] at found
      exact absurd (quiet name process same found) here
  · intro id old stored
    rw [items] at stored
    by_cases same : id = item.id
    · subst same
      rw [Function.update_self] at stored
      cases stored
      exact .inr ⟨mine, pid, _, World.process_set_self _ _ _, rfl⟩
    · rw [Function.update_of_ne same] at stored
      have less := earlier id old stored
      rw [mine] at less
      exact .inl less
  · intro id other old otherOld stored otherStored same
    rw [items] at stored otherStored
    by_cases here : id = item.id
    · by_cases there : other = item.id
      · exact here.trans there.symm
      · subst here
        rw [Function.update_self] at stored
        rw [Function.update_of_ne there] at otherStored
        cases stored
        have less := earlier other otherOld otherStored
        omega
    · by_cases there : other = item.id
      · subst there
        rw [Function.update_self] at otherStored
        rw [Function.update_of_ne here] at stored
        cases otherStored
        have less := earlier id old stored
        omega
      · rw [Function.update_of_ne here] at stored
        rw [Function.update_of_ne there] at otherStored
        exact invariant.distinct id other old otherOld stored otherStored same
  · intro name reportedItem reported
    obtain ⟨known, asks⟩ := invariant.reported name reportedItem reported
    rw [items]
    exact ⟨known.keeps keeps, asks⟩

/-- A submission writes the counter back. -/
private theorem SubmitInvariant.counted
    (invariant : SubmitInvariant asked world)
    (known : Known world.root.stored item)
    (alive : world.process pid = some
      { pending := [.saveControl (item.seq + 1)]
        point := .submitted item
        supervisor }) :
    SubmitInvariant asked
      ((world.write pid (.saveControl (item.seq + 1))).set pid
        { pending := [], point := .submitted item, supervisor }) := by
  have mine : item.seq = world.root.nextSeq :=
    invariant.number pid _ item.seq alive rfl
  have asks : (Point.submitted item).Asked (asked pid) :=
    invariant.asks pid _ alive
  have quiet : ∀ other otherProcess, other ≠ pid →
      world.process other = some otherProcess →
      otherProcess.submits = none := fun other otherProcess different =>
    invariant.idle_of_alone alive (by simp [Process.submits]) different
  have nobody : ∀ name process,
      ((world.write pid (.saveControl (item.seq + 1))).set pid
        { pending := [], point := .submitted item, supervisor }).process name =
          some process → process.submits = none := by
    intro name process found
    by_cases same : name = pid
    · subst same
      rw [World.process_set_self] at found
      cases found
      rfl
    · rw [World.process_set_of_ne _ _ same] at found
      exact quiet name process same found
  refine ⟨?_, ?_, ?_, ?_, ?_, invariant.distinct, invariant.reported⟩
  · intro name process found
    by_cases same : name = pid
    · subst same
      rw [World.process_set_self] at found
      cases found
      refine .outside rfl (by simp) (by simp [Point.loaded]) ?_
      intro other here
      cases here
      exact known
    · rw [World.process_set_of_ne _ _ same] at found
      exact invariant.stage name process found
  · intro name process found
    by_cases same : name = pid
    · subst same
      rw [World.process_set_self] at found
      cases found
      exact asks
    · rw [World.process_set_of_ne _ _ same] at found
      exact invariant.asks name process found
  · intro name process seq found has
    rw [nobody name process found] at has
    cases has
  · intro name other process otherProcess found otherFound here
    exact absurd (nobody name process found) here
  · intro id old stored
    have most : old.seq ≤ world.root.nextSeq := by
      rcases invariant.below id old stored with less | ⟨equal, _⟩
      · exact Nat.le_of_lt less
      · exact Nat.le_of_eq equal
    rw [← mine] at most
    exact .inl (Nat.lt_succ_of_le most)

end Written

/-- A write of a process that is in no submission. -/
private theorem SubmitInvariant.wrote (invariant : SubmitInvariant asked world)
    {action : Write} {pending : List Write}
    (alive : world.process pid = some process)
    (pendingNext : process.pending = action :: pending)
    (outside : process.submits = none)
    (writes : ∀ write ∈ process.pending, write.KeepsOrigin world.root.stored)
    (loaded : ∀ copy ∈ process.point.loaded, Known world.root.stored copy) :
    SubmitInvariant asked
      ((world.write pid action).set pid { process with pending }) := by
  have keepsOrigin : action.KeepsOrigin world.root.stored := by
    apply writes
    rw [pendingNext]
    exact List.mem_cons_self
  have elsewhere : process.point.submits = false := by
    cases here : process.point with
    | submitExists | submitted => simp [Process.submits, here, pendingNext] at outside
    | _ => rfl
  have origins : SameOrigins world.root.stored
      (action.perform pid world.root).stored := by
    rw [stored_perform]
    exact sameOrigins_of_keepsOrigin keepsOrigin
  refine invariant.moved
    (fun other different => World.process_set_of_ne _ _ different) origins ?_
    ?_ ?_ (fun name item reported => .inl reported)
  · cases action with
    | saveControl => exact keepsOrigin.elim
    | _ => rfl
  · intro after found
    rw [World.process_set_self] at found
    cases found
    have still : Process.submits { process with pending } = none :=
      Process.submits_of_point elsewhere
    refine ⟨.outside still ?_ ?_ ?_, invariant.asks pid process alive,
      .inl still⟩
    · intro write member
      have kept := writes write (pendingNext ▸ List.mem_cons_of_mem _ member)
      cases write with
      | saveItem seen item => exact Known.keeps kept origins.keeps
      | saveControl => exact kept
      | _ => exact trivial
    · exact fun copy held => (loaded copy held).keeps origins.keeps
    · intro item here
      have submitted : process.point = .submitted item := here
      rw [submitted] at elsewhere
      cases elsewhere
  · intro before id was saving
    rw [alive] at was
    cases was
    exact absurd outside (submits_of_saving saving)

private theorem stage_onSignal {stored : Store}
    (stage : Stage stored process) : Stage stored (onSignal process) := by
  cases stage with
  | outside idle writes loaded submitted =>
      exact .outside idle writes loaded submitted
  | counted => exact .counted
  | chosen missing => exact .chosen missing
  | saved known => exact .saved known

private theorem stage_command {stored : Store} {command : Command}
    (entry : command.process = .ok process) : Stage stored process := by
  cases command with
  | serve maxActive untilIdle =>
      cases process_of_serve entry
      exact .outside rfl (by simp) (by simp [Point.loaded]) (by simp)
  | _ =>
      cases entry
      exact .outside rfl (by simp [Write.KeepsOrigin]) (by simp [Point.loaded])
        (by simp)

/-- What a process was asked to submit is what its command says. -/
def Asking (asked : Pid → Submission → Prop) (_ : World) : Input → Prop
  | .start pid (.submit submission) => asked pid submission
  | _ => True

private theorem submits_command {command : Command}
    (entry : command.process = .ok process) : process.submits = none := by
  cases command with
  | serve maxActive untilIdle =>
      cases process_of_serve entry
      rfl
  | _ =>
      cases entry
      rfl

private theorem asked_command {command : Command}
    (asking : Asking asked world (.start pid command))
    (entry : command.process = .ok process) :
    process.point.Asked (asked pid) := by
  cases command with
  | submit submission =>
      cases entry
      exact asking
  | serve maxActive untilIdle =>
      cases process_of_serve entry
      exact trivial
  | _ =>
      cases entry
      exact trivial

/-- Only a submission that is through reports an item. -/
private theorem submitted_of_leave {live : Pid → Bool} {root : Root}
    {answer : Answer} {item : Item}
    (left : proceed live root process answer = .leave (.submitted item)) :
    process.point = .submitted item := by
  unfold proceed at left
  split at left
  all_goals
    try simp only [Process.goTo, Process.writeThen, Process.raise,
      Process.release, afterLoad] at left
  all_goals
    repeat' split at left
  all_goals cases left
  assumption

theorem SubmitInvariant.step {input : Input}
    (invariant : SubmitInvariant asked world)
    (apart : SubmitsApart world input) (asking : Asking asked world input)
    (stepped : Control.step world input = some next) :
    SubmitInvariant asked next := by
  cases stepped_of_step stepped with
  | @begun pid command process positive free entry =>
      refine invariant.moved
        (fun other different => World.process_set_of_ne _ _ different)
        (fun _ => rfl) rfl ?_ ?_ (fun name item reported => .inl reported)
      · intro after found
        rw [World.process_set_self] at found
        cases found
        exact ⟨stage_command entry, asked_command asking entry,
          .inl (submits_command entry)⟩
      · intro before id was
        rw [free] at was
        cases was
  | refused =>
      refine ⟨invariant.stage, invariant.asks, invariant.number,
        invariant.alone, invariant.below, invariant.distinct, ?_⟩
      intro name item reported
      rcases List.mem_append.mp reported with before | last
      · exact invariant.reported name item before
      · simp at last
  | @wrote pid answer process action pending alive pendingNext =>
      cases invariant.stage pid process alive with
      | outside idle writes loaded submitted =>
          exact invariant.wrote alive pendingNext idle writes loaded
      | counted => cases pendingNext
      | chosen missing =>
          cases pendingNext
          exact invariant.saved missing alive
      | saved known =>
          cases pendingNext
          exact invariant.counted known alive
  | @read pid answer process alive idle =>
      have stage := invariant.stage pid process alive
      refine invariant.moved
        (fun other different => World.process_follow_of_ne _ _ different)
        ?_ ?_ ?_ ?_ ?_
      · rw [stored_follow]
        exact fun _ => rfl
      · cases proceed world.live world.root process answer <;> rfl
      · intro after found
        rw [World.process_follow_self] at found
        have nextStage := stage_proceed stage idle found
        have forward := forward_proceed found
        rw [stored_follow]
        refine ⟨nextStage, forward.asked (invariant.asks pid process alive), ?_⟩
        generalize here : process.point = before at forward
        generalize there : after.point = point at forward
        cases forward with
        | outside neither _ =>
            rw [← there] at neither
            exact .inl (Process.submits_of_point neither)
        | counts =>
            refine .inr (.inr ⟨by simp [Process.submits, there], ?_⟩)
            intro other otherProcess different otherAlive
            exact apart process alive idle (by rw [here]; rfl) (other, otherProcess)
              (World.mem_processes.mpr otherAlive)
        | @chooses submission seq =>
            by_cases quiet : after.pending = []
            · exact .inl (by simp [Process.submits, there, quiet])
            · refine .inr (.inl ⟨process, alive, ?_⟩)
              simp [Process.submits, here, there, quiet, Submission.item]
      · intro before id was saving
        rw [alive] at was
        cases was
        obtain ⟨item, nextSeq, _, pending, _⟩ := pending_of_saving saving
        rw [idle] at pending
        cases pending
      · intro name item reported
        generalize left : proceed world.live world.root process answer = result
          at reported
        cases result with
        | leave result =>
            rcases List.mem_append.mp reported with before | last
            · exact .inl before
            · obtain ⟨rfl, rfl⟩ := Prod.mk.inj (List.mem_singleton.mp last)
              have here := submitted_of_leave left
              have asks := invariant.asks name process alive
              rw [here] at asks
              exact .inr ⟨known_of_submitted stage idle here, asks⟩
        | _ => exact .inl reported
  | @signalled pid process alive serves =>
      refine invariant.moved
        (fun other different => World.process_set_of_ne _ _ different)
        (fun _ => rfl) rfl ?_ ?_ (fun name item reported => .inl reported)
      · intro after found
        rw [World.process_set_self] at found
        cases found
        exact ⟨stage_onSignal (invariant.stage pid process alive),
          invariant.asks pid process alive, .inr (.inl ⟨process, alive, rfl⟩)⟩
      · intro before id was saving
        rw [alive] at was
        cases was
        exact ⟨onSignal process, World.process_set_self _ _ _, saving⟩
  | @died pid process alive =>
      refine invariant.moved
        (fun other different => World.process_exit_of_ne _ different)
        (fun _ => rfl) rfl ?_ ?_ (fun name item reported => .inl reported)
      · intro after found
        rw [World.process_exit_self] at found
        cases found
      · intro before id was saving
        obtain ⟨item, nextSeq, _, pending, _⟩ := pending_of_saving saving
        have silent := apart before was (.saveControl nextSeq)
        rw [pending] at silent
        cases silent rfl

end Step

/-- No submission is lost and no number is used twice. -/
structure SubmissionsKept (inputs : List Input) (world : World) : Prop where
  kept : ∀ pid item, (pid, .submitted item) ∈ world.results →
    ∃ submission answer, .start pid (.submit submission) ∈ inputs ∧
      item = submission.item item.seq answer ∧
      Known world.root.stored item
  distinct : ∀ id other item otherItem, world.root.stored id = some item →
    world.root.stored other = some otherItem → item.seq = otherItem.seq →
    id = other
  greater : ∀ id item, world.root.stored id = some item →
    item.seq < world.root.nextSeq ∨
      ∃ pid process, world.process pid = some process ∧
        process.submits = some item.seq

/-- In every run from a fresh control root in which no submission reads the
counter while another is about to write it back and none dies between saving
its item and writing the counter back, every reported item is in the queue as
it was submitted, no two items share a number, and the counter is greater than
every number but that of a submission that has still to write it back. -/
theorem submissions_kept_of_submitsApart (inputs : List Input) (final : World)
    (apart : Along step SubmitsApart (World.idle .initialized) inputs)
    (ran : follow step (World.idle .initialized) inputs = some final) :
    SubmissionsKept inputs final := by
  have asking : Along step
      (Asking fun pid submission => .start pid (.submit submission) ∈ inputs)
      (World.idle .initialized) inputs := by
    apply along_of_mem
    intro world input member
    cases input with
    | start pid command =>
        cases command with
        | submit submission => exact member
        | _ => exact trivial
    | _ => exact trivial
  have kept := follow_keeps
    (fun world input next sound conditions stepped =>
      SubmitInvariant.step sound conditions.1 conditions.2 stepped)
    (submitInvariant_idle _) (apart.and asking) ran
  refine ⟨?_, kept.distinct, ?_⟩
  · intro pid item reported
    obtain ⟨known, submission, answer, asked, same⟩ :=
      kept.reported pid item reported
    exact ⟨submission, answer, asked, same, known⟩
  · intro id item stored
    rcases kept.below id item stored with less | ⟨equal, pid, process, alive,
      saving⟩
    · exact .inl less
    · have submits := submits_of_saving saving
      obtain ⟨seq, has⟩ := Option.ne_none_iff_exists'.mp submits
      refine .inr ⟨pid, process, alive, ?_⟩
      rw [has, equal, kept.number pid process seq alive has]

/-- Two submissions, one after the other. -/
theorem submissions_kept_of_submitsApart_twice :
    ∃ final, follow step (World.idle .initialized)
        (.start 1 (.submit ⟨"nightly.json", "", none, 0⟩) :: advances 1 5 ++
          .start 2 (.submit ⟨"weekly.json", "", none, 0⟩) :: advances 2 5) =
        some final ∧
      final.root.queue.entries.map (fun item => (item.id, item.manifest)) =
        [("run-000002", "weekly.json"), ("run-000001", "nightly.json")] ∧
      SubmissionsKept
        (.start 1 (.submit ⟨"nightly.json", "", none, 0⟩) :: advances 1 5 ++
          .start 2 (.submit ⟨"weekly.json", "", none, 0⟩) :: advances 2 5)
        final :=
  ⟨_, rfl, rfl, submissions_kept_of_submitsApart _ _ (by decide) rfl⟩

/-- Two submissions read the same number; both report success, and the item of
the first is lost. -/
theorem concurrent_submissions_lose_item :
    ∃ final, follow step (World.idle .initialized)
        (.start 1 (.submit ⟨"nightly.json", "", none, 0⟩) ::
          .start 2 (.submit ⟨"weekly.json", "", none, 0⟩) ::
          advances 1 2 ++ advances 2 2 ++ advances 1 3 ++ advances 2 3) =
        some final ∧
      final.results.map Prod.fst = [1, 2] ∧
      final.root.queue.entries.map (·.manifest) = ["weekly.json"] ∧
      ¬ SubmissionsKept
        (.start 1 (.submit ⟨"nightly.json", "", none, 0⟩) ::
          .start 2 (.submit ⟨"weekly.json", "", none, 0⟩) ::
          advances 1 2 ++ advances 2 2 ++ advances 1 3 ++ advances 2 3)
        final := by
  refine ⟨_, rfl, rfl, rfl, ?_⟩
  intro kept
  obtain ⟨_, _, _, _, _, stored, origin⟩ := kept.kept 1 _ List.mem_cons_self
  cases stored
  exact absurd (congrArg Origin.manifest origin) (by decide)

end PpcLab.Control
