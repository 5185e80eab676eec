import PpcLab.Control.SectionReads

/-!
# Sections that do not overlap

Every copy in a section is the stored one: the process that is in the section
is the only one that may replace it.  The items whose scheduler runs under a
supervisor are not in a section, but nobody except the supervisor changes their
status.
-/

namespace PpcLab.Control

section Wrote

variable {stored : Store} {process : Process} {action : Write}
  {pending : List Write}

theorem mem_savedIds_cons {id : String} :
    id ∈ savedIds (action :: pending) ↔
      action.savedId = some id ∨ id ∈ savedIds pending := by
  unfold savedIds
  rw [List.filterMap_cons]
  cases saved : action.savedId with
  | none => simp
  | some name => simp [eq_comm]

private theorem Write.store_isSome {id : String}
    (present : (stored id).isSome) : (action.store stored id).isSome := by
  by_cases saved : action.savedId = some id
  · cases action with
    | saveItem seen item =>
        have same : item.id = id := Option.some.inj saved
        simp [Write.store, ← same]
    | _ => cases saved
  · rw [Write.store_of_ne saved]
    exact present

/-- The process itself performs its first pending write. -/
theorem Proper.wrote (proper : Proper stored process)
    (next : process.pending = action :: pending) :
    Proper (action.store stored) { process with pending } := by
  have legal := proper.legal
  have apart := proper.apart
  rw [next] at legal apart
  refine ⟨legal.2, ?_, ?_, proper.tidy, proper.polled, proper.resting, ?_, ?_,
    fun name member => Write.store_isSome (proper.listed name member)⟩
  · intro copy member
    rw [Write.store_of_ne]
    · exact proper.current copy member
    · intro saved
      exact apart copy member (mem_savedIds_cons.mpr (.inl saved))
  · intro copy member saved
    exact apart copy member (mem_savedIds_cons.mpr (.inr saved))
  · intro working
    obtain ⟨nodup, runs⟩ := proper.active working
    refine ⟨nodup, ?_⟩
    intro id member
    rcases runs id member with ⟨unsaved, item, isStored, running⟩ | starting
    · rw [next] at unsaved
      left
      constructor
      · intro saved
        exact unsaved (mem_savedIds_cons.mpr (.inr saved))
      · refine ⟨item, ?_, running⟩
        rw [Write.store_of_ne]
        · exact isStored
        · intro saved
          exact unsaved (mem_savedIds_cons.mpr (.inl saved))
    · obtain ⟨seen, item, alone, same, running⟩ := starting
      rw [next] at alone
      cases alone
      left
      subst same
      refine ⟨by simp [savedIds], item, ?_, running⟩
      simp [Write.store]
  · intro done
    have unsaved := proper.released done
    rw [next] at unsaved
    rw [List.eq_nil_iff_forall_not_mem] at unsaved ⊢
    intro id saved
    exact unsaved id (mem_savedIds_cons.mpr (.inr saved))

/-- Another process leaves alone what the process holds, and the status of what
runs under it. -/
theorem Proper.undisturbed {after : Store} (proper : Proper stored process)
    (agree : ∀ id ∈ process.holds, stored id = after id)
    (running : process.point.atWork → ∀ id ∈ process.supervisor.active,
      ∀ item, stored id = some item → item.status = .running →
        ∃ later, after id = some later ∧ later.status = .running)
    (kept : ∀ id, (stored id).isSome → (after id).isSome) :
    Proper after process := by
  refine ⟨?_, ?_, proper.apart, proper.tidy, proper.polled, proper.resting, ?_,
    proper.released, fun name member => kept name (proper.listed name member)⟩
  · apply proper.legal.congr
    intro id saved
    exact agree id (List.mem_append_left _ saved)
  · intro copy member
    rw [← agree copy.id (List.mem_append_right _
      (List.mem_map_of_mem member))]
    exact proper.current copy member
  · intro working
    obtain ⟨nodup, runs⟩ := proper.active working
    refine ⟨nodup, ?_⟩
    intro id member
    rcases runs id member with ⟨unsaved, item, isStored, status⟩ | starting
    · exact .inl ⟨unsaved, running working id member item isStored status⟩
    · exact .inr starting

end Wrote

/-- Every process fits the queue, and no item is in two sections. -/
structure SectionInvariant (world : World) : Prop where
  proper : ∀ pid process, world.process pid = some process →
    Proper world.root.stored process
  apart : ∀ first second firstProcess secondProcess,
    world.process first = some firstProcess →
    world.process second = some secondProcess → first ≠ second →
    ∀ id ∈ firstProcess.holds, id ∉ secondProcess.holds

/-- There is one supervisor at most. -/
def OneAtWork (world : World) : Prop :=
  ∀ first second firstProcess secondProcess,
    world.process first = some firstProcess →
    world.process second = some secondProcess →
    firstProcess.point.atWork → secondProcess.point.atWork → first = second

theorem sectionInvariant_idle (root : Root) :
    SectionInvariant (World.idle root) := by
  constructor
  · intro pid process alive
    cases alive
  · intro first second firstProcess secondProcess alive
    cases alive

section Step

variable {world : World} {pid : Pid} {process : Process}

theorem stored_follow (next : Next) :
    (world.follow pid next).root.stored = world.root.stored := by
  cases next <;> rfl

/-- Only one process and the items it holds change. -/
private theorem SectionInvariant.moved (invariant : SectionInvariant world)
    {next : World}
    (others : ∀ other, other ≠ pid → next.process other = world.process other)
    (undisturbed : ∀ other process, other ≠ pid →
      world.process other = some process → Proper next.root.stored process)
    (after : ∀ process, next.process pid = some process →
      Proper next.root.stored process ∧
        ∀ id ∈ process.holds, ∀ other otherProcess, other ≠ pid →
          world.process other = some otherProcess →
          id ∉ otherProcess.holds) : SectionInvariant next := by
  constructor
  · intro name process alive
    by_cases same : name = pid
    · subst same
      exact (after process alive).1
    · rw [others name same] at alive
      exact undisturbed name process same alive
  · intro first second firstProcess secondProcess firstAlive secondAlive
      different id firstHolds secondHolds
    by_cases firstSame : first = pid
    · subst firstSame
      rw [others second different.symm] at secondAlive
      exact (after firstProcess firstAlive).2 id firstHolds second
        secondProcess different.symm secondAlive secondHolds
    · rw [others first firstSame] at firstAlive
      by_cases secondSame : second = pid
      · subst secondSame
        exact (after secondProcess secondAlive).2 id secondHolds first
          firstProcess different firstAlive firstHolds
      · rw [others second secondSame] at secondAlive
        exact invariant.apart first second firstProcess secondProcess
          firstAlive secondAlive different id firstHolds secondHolds

/-- A client that has read nothing yet. -/
private theorem proper_fresh {stored : Store} {pending : List Write}
    {point : Point} {supervisor : Supervisor}
    (unsaved : savedIds pending = []) (noCopies : point.copies = [])
    (tidy : point.Tidy) (unpolled : point.polled = [])
    (client : point.supervises = false) (inactive : supervisor.active = [])
    (unlisted : point.unread = []) :
    Proper stored { pending, point, supervisor } ∧
      ({ pending, point, supervisor } : Process).holds = [] := by
  constructor
  · refine ⟨legal_of_unsaved unsaved, ?_, ?_, tidy, ?_, fun _ => inactive, ?_,
      fun _ => unsaved, by simp [unlisted]⟩
    · simp [noCopies]
    · simp [noCopies]
    · simp [unpolled]
    · intro working
      simp [Point.atWork, client] at working
  · simp [Process.holds, unsaved, noCopies]

private theorem proper_command {stored : Store} {command : Command}
    (entry : command.process = .ok process) :
    Proper stored process ∧ process.holds = [] := by
  cases command with
  | serve maxActive untilIdle =>
      cases process_of_serve entry
      refine proper_fresh rfl rfl ?_ rfl rfl rfl rfl
      exact trivial
  | _ =>
      cases entry
      refine proper_fresh rfl rfl ?_ rfl rfl rfl rfl
      exact trivial

/-- What the writing process saves, no other process holds, and a client does
not change the status of a running item. -/
private theorem undisturbed_of_wrote (invariant : SectionInvariant world)
    (one : OneAtWork world) {action : Write} {pending : List Write}
    (alive : world.process pid = some process)
    (next : process.pending = action :: pending) {other : Pid}
    {otherProcess : Process} (different : other ≠ pid)
    (otherAlive : world.process other = some otherProcess) :
    Proper (action.store world.root.stored) otherProcess := by
  have proper := invariant.proper pid process alive
  have legal := proper.legal
  rw [next] at legal
  have savedHeld : ∀ id, action.savedId = some id → id ∈ process.holds := by
    intro id saved
    apply List.mem_append_left
    rw [next]
    exact mem_savedIds_cons.mpr (.inl saved)
  apply (invariant.proper other otherProcess otherAlive).undisturbed
  · intro id held
    rw [Write.store_of_ne]
    intro saved
    exact invariant.apart pid other process otherProcess alive otherAlive
      different.symm id (savedHeld id saved) held
  · intro working id _ item isStored running
    by_cases saved : action.savedId = some id
    · cases action with
      | saveItem seen after =>
          have sameId : after.id = id := Option.some.inj saved
          obtain ⟨seenStored, moves, _⟩ := legal.1
          rw [sameId, isStored] at seenStored
          subst seenStored
          have client : process.point.supervises = false := by
            rw [Bool.eq_false_iff]
            intro supervises
            have notReleased : process.point ≠ .released := by
              intro done
              have unsaved := proper.released done
              rw [next] at unsaved
              cases unsaved
            have writing : process.point.atWork := by
              simp [Point.atWork, supervises, notReleased]
            exact different (one other pid otherProcess process otherAlive
              alive working writing)
          refine ⟨after, by simp [Write.store, sameId], ?_⟩
          exact (moves item rfl).running (by simp [client]) running
      | _ => cases saved
    · refine ⟨item, ?_, running⟩
      rw [Write.store_of_ne saved]
      exact isStored
  · intro id present
    exact Write.store_isSome present

theorem SectionInvariant.step {next : World} {input : Input}
    (invariant : SectionInvariant world) (apart : SectionsApart world input)
    (one : OneAtWork world) (stepped : Control.step world input = some next) :
    SectionInvariant next := by
  cases stepped_of_step stepped with
  | @begun pid command process positive free entry =>
      obtain ⟨proper, noHolds⟩ := proper_command entry
      refine invariant.moved
        (fun other different => World.process_set_of_ne world process different)
        ?_ ?_
      · intro other otherProcess _ alive
        exact invariant.proper other otherProcess alive
      · intro after found
        rw [World.process_set_self] at found
        cases found
        refine ⟨proper, ?_⟩
        intro id member
        rw [noHolds] at member
        cases member
  | refused => exact ⟨invariant.proper, invariant.apart⟩
  | @wrote pid answer process action pending alive pendingNext =>
      have proper := invariant.proper pid process alive
      have stored : ((world.write pid action).set pid
          { process with pending }).root.stored =
            action.store world.root.stored :=
        stored_perform pid world.root action
      refine invariant.moved
        (fun other different => World.process_set_of_ne _ _ different) ?_ ?_
      · intro other otherProcess different otherAlive
        rw [stored]
        exact undisturbed_of_wrote invariant one alive pendingNext different
          otherAlive
      · intro after found
        rw [World.process_set_self] at found
        cases found
        rw [stored]
        refine ⟨proper.wrote pendingNext, ?_⟩
        intro id held other otherProcess different otherAlive
        apply invariant.apart pid other process otherProcess alive otherAlive
          different.symm id
        rcases List.mem_append.mp held with saved | copied
        · apply List.mem_append_left
          rw [pendingNext]
          exact mem_savedIds_cons.mpr (.inr saved)
        · exact List.mem_append_right _ copied
  | @read pid answer process alive idle =>
      have proper := invariant.proper pid process alive
      refine invariant.moved
        (fun other different => World.process_follow_of_ne _ _ different) ?_ ?_
      · intro other otherProcess _ otherAlive
        rw [stored_follow]
        exact invariant.proper other otherProcess otherAlive
      · intro after found
        rw [World.process_follow_self] at found
        obtain ⟨afterProper, onward⟩ := onward_proceed proper idle after found
        rw [stored_follow]
        refine ⟨afterProper, ?_⟩
        intro id held other otherProcess different otherAlive
        rcases onward id held with before | taken
        · exact invariant.apart pid other process otherProcess alive
            otherAlive different.symm id before
        · exact apart process alive idle id taken (other, otherProcess)
            (World.mem_processes.mpr otherAlive) different
  | @signalled pid process alive serves =>
      have proper := invariant.proper pid process alive
      refine invariant.moved
        (fun other different => World.process_set_of_ne _ _ different) ?_ ?_
      · intro other otherProcess _ otherAlive
        exact invariant.proper other otherProcess otherAlive
      · intro after found
        rw [World.process_set_self] at found
        cases found
        refine ⟨⟨proper.legal, proper.current, proper.apart, proper.tidy,
          proper.polled, proper.resting, proper.active, proper.released,
          proper.listed⟩, ?_⟩
        intro id held other otherProcess different otherAlive
        exact invariant.apart pid other process otherProcess alive otherAlive
          different.symm id held
  | @died pid process alive =>
      refine invariant.moved
        (fun other different => World.process_exit_of_ne _ different) ?_ ?_
      · intro other otherProcess _ otherAlive
        exact invariant.proper other otherProcess otherAlive
      · intro after found
        rw [World.process_exit_self] at found
        cases found

end Step

end PpcLab.Control
