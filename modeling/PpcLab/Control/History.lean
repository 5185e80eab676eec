import PpcLab.Control.Lock
import PpcLab.Control.Scripts
import PpcLab.Control.SectionSafety

/-!
# The history

Ending an item is three writes: the item, the line of the history, and the mark
in the item that the line is written.  The line is there exactly once for every
item that has ended, as long as no process dies between the first two writes
and the sections of different processes on one item do not overlap.
-/

namespace PpcLab.Control

/-- The statuses of the records of an item. -/
abbrev Ledger := String → List Status

def Root.ledger (root : Root) : Ledger := fun id =>
  (root.history.filter (·.id == id)).map (·.status)

def Write.enter (ledger : Ledger) : Write → Ledger
  | .appendHistory record =>
      Function.update ledger record.id (ledger record.id ++ [record.status])
  | _ => ledger

/-- An item that has ended has one record, with its status, and any other has
none. -/
def Settled (stored : Option Item) (statuses : List Status) : Prop :=
  match stored with
  | none => statuses = []
  | some item =>
      if item.status.isTerminal then statuses = [item.status]
      else statuses = [] ∧ item.historyWritten = false

/-- Between any two of the writes the item is settled, or its record is what
is written next. -/
def Orderly (id : String) : Store → Ledger → List Write → Prop
  | stored, ledger, [] => Settled (stored id) (ledger id)
  | stored, ledger, action :: pending =>
      (Settled (stored id) (ledger id) ∨ action.appendedId = some id) ∧
        Orderly id (action.store stored) (action.enter ledger) pending

/-- A record is appended before the item is saved for the last time. -/
def AppendsFirst : List Write → Prop
  | [] => True
  | action :: pending =>
      (∀ id, action.appendedId = some id → id ∈ savedIds pending) ∧
        AppendsFirst pending

theorem ledger_perform (pid : Pid) (root : Root) (action : Write) :
    (action.perform pid root).ledger = action.enter root.ledger := by
  cases action with
  | appendHistory record =>
      funext id
      by_cases same : record.id = id
      · subst same
        simp [Write.perform, Write.enter, Root.ledger, List.filter_append]
      · have different : id ≠ record.id := fun equal => same equal.symm
        simp [Write.perform, Write.enter, Root.ledger, List.filter_append,
          same, different]
  | _ => rfl

theorem Write.enter_of_ne {action : Write} {ledger : Ledger} {id : String}
    (different : action.appendedId ≠ some id) :
    action.enter ledger id = ledger id := by
  cases action with
  | appendHistory record =>
      have other : id ≠ record.id := by
        intro same
        exact different (congrArg some same.symm)
      simp [Write.enter, other]
  | _ => rfl

theorem Orderly.congr {id : String} {stored otherStored : Store}
    {ledger otherLedger : Ledger} {pending : List Write}
    (orderly : Orderly id stored ledger pending)
    (sameItem : stored id = otherStored id)
    (sameRecords : ledger id = otherLedger id) :
    Orderly id otherStored otherLedger pending := by
  induction pending generalizing stored otherStored ledger otherLedger with
  | nil =>
      unfold Orderly at orderly ⊢
      rw [← sameItem, ← sameRecords]
      exact orderly
  | cons action pending induction =>
      obtain ⟨now, later⟩ := orderly
      rw [sameItem, sameRecords] at now
      refine ⟨now, induction later ?_ ?_⟩
      · by_cases saved : action.savedId = some id
        · cases action with
          | saveItem seen item =>
              have sameId : item.id = id := Option.some.inj saved
              simp [Write.store, ← sameId]
          | _ => cases saved
        · rw [Write.store_of_ne saved, Write.store_of_ne saved, sameItem]
      · by_cases appended : action.appendedId = some id
        · cases action with
          | appendHistory record =>
              have sameId : record.id = id := Option.some.inj appended
              simp [Write.enter, sameId, sameRecords]
          | _ => cases appended
        · rw [Write.enter_of_ne appended, Write.enter_of_ne appended,
            sameRecords]

section Scripts

variable {stored : Store} {ledger : Ledger} {id : String}
  {pending : List Write}

private theorem settled_open {item : Item}
    (open_ : item.status.isTerminal = false) {statuses : List Status} :
    Settled (some item) statuses ↔
      statuses = [] ∧ item.historyWritten = false := by
  simp [Settled, open_]

private theorem settled_ended {item : Item} (ended : item.status.isTerminal)
    {statuses : List Status} :
    Settled (some item) statuses ↔ statuses = [item.status] := by
  simp [Settled, ended]

private theorem orderly_finish {seen item : Item} {answer : Answer}
    (isStored : stored seen.id = some seen) (sameId : item.id = seen.id)
    (open_ : seen.status.isTerminal = false) (ended : item.status.isTerminal)
    (sameMark : item.historyWritten = seen.historyWritten)
    (settled : Settled (stored seen.id) (ledger seen.id)) :
    Orderly seen.id stored ledger (saveTerminal seen item answer) := by
  have known := settled
  rw [isStored, settled_open open_] at known
  obtain ⟨noRecords, unmarked⟩ := known
  have itemUnmarked : item.historyWritten = false := by
    rw [sameMark, unmarked]
  have script : archiveTerminal item answer =
      [.appendHistory (recordOf item answer.summary),
        .saveRecord (recordOf item answer.summary),
        .saveItem (some item) { item with historyWritten := true }] := by
    simp [archiveTerminal, itemUnmarked]
  rw [saveTerminal, script]
  refine ⟨.inl settled, .inr ?_, .inl ?_, .inl ?_, ?_⟩
  · exact congrArg some sameId
  all_goals
    simp [Orderly, Write.store, Write.enter, recordOf, sameId, noRecords,
      Settled, ended]

private theorem appendsFirst_archiveTerminal (item : Item)
    (answer : Answer) : AppendsFirst (archiveTerminal item answer) := by
  unfold archiveTerminal
  split
  · exact trivial
  · refine ⟨?_, ?_, ?_, trivial⟩
    · rintro appended ⟨⟩
      simp [savedIds, Write.savedId, recordOf]
    · rintro appended ⟨⟩
    · rintro appended ⟨⟩

private theorem appendsFirst_of_silent
    (silent : ∀ action ∈ pending, action.appendedId = none) :
    AppendsFirst pending := by
  induction pending with
  | nil => exact trivial
  | cons action pending induction =>
      refine ⟨?_, induction fun later member =>
        silent later (List.mem_cons_of_mem _ member)⟩
      intro appended appends
      rw [silent action List.mem_cons_self] at appends
      cases appends

theorem Script.appendsFirst (script : Script stored pending) :
    AppendsFirst pending := by
  induction script with
  | quiet silent =>
      exact appendsFirst_of_silent fun action member =>
        (silent action member).2
  | submit | change =>
      apply appendsFirst_of_silent
      simp [Write.appendedId]
  | touchRun _ induction =>
      refine ⟨?_, induction⟩
      rintro appended ⟨⟩
  | finish =>
      refine ⟨?_, appendsFirst_archiveTerminal _ _⟩
      rintro appended ⟨⟩

/-- An item that is not going to be saved any more is settled. -/
private theorem settled_of_orderly (orderly : Orderly id stored ledger pending)
    (first : AppendsFirst pending) (unsaved : id ∉ savedIds pending) :
    Settled (stored id) (ledger id) := by
  cases pending with
  | nil => exact orderly
  | cons action pending =>
      rcases orderly.1 with settled | appends
      · exact settled
      · exfalso
        exact unsaved (mem_savedIds_cons.mpr (.inr (first.1 id appends)))

/-- A script of a process that has an item for itself is orderly. -/
theorem Script.orderly (script : Script stored pending)
    (held : id ∈ savedIds pending)
    (settled : Settled (stored id) (ledger id)) :
    Orderly id stored ledger pending := by
  induction script with
  | quiet silent =>
      obtain ⟨action, member, saved⟩ := List.mem_filterMap.mp held
      rw [(silent action member).1] at saved
      cases saved
  | @submit item nextSeq absent queued unmarked =>
      have same : id = item.id := by
        simpa [savedIds, Write.savedId, eq_comm] using held
      subst same
      have noRecords : ledger item.id = [] := by
        rw [absent] at settled
        exact settled
      refine ⟨.inl settled, .inl ?_, ?_⟩
      all_goals
        simp [Orderly, Write.store, Write.enter, Settled, queued,
          Status.isTerminal, noRecords, unmarked]
  | @change seen item current sameId seenOpen open_ sameMark =>
      have same : id = seen.id := by
        simpa [savedIds, Write.savedId, eq_comm, sameId] using held
      subst same
      have known := settled
      rw [current, settled_open seenOpen] at known
      refine ⟨.inl settled, ?_⟩
      simp [Orderly, Write.store, Write.enter, Settled, open_, sameId, known.1,
        sameMark, known.2]
  | @touchRun runOut pending _ induction =>
      exact ⟨.inl settled, induction held⟩
  | @finish seen item answer current sameId open_ ended sameMark =>
      have same : id = seen.id := (savedIds_saveTerminal held).trans sameId
      subst same
      exact orderly_finish current sameId open_ ended sameMark settled

end Scripts

/-- The items nobody saves are settled, and the others are going to be. -/
structure HistoryInvariant (world : World) : Prop where
  orderly : ∀ pid process, world.process pid = some process →
    ∀ id ∈ savedIds process.pending,
      Orderly id world.root.stored world.root.ledger process.pending
  first : ∀ pid process, world.process pid = some process →
    AppendsFirst process.pending
  settled : ∀ id, (∀ pid process, world.process pid = some process →
      id ∉ savedIds process.pending) →
    Settled (world.root.stored id) (world.root.ledger id)

/-- No process dies whose next write is a line of the history. -/
def CleanDeath (world : World) : Input → Prop
  | .die pid =>
      ∀ process ∈ world.process pid,
        ∀ action ∈ process.pending.head?, action.appendedId = none
  | _ => True

instance (world : World) :
    (input : Input) → Decidable (CleanDeath world input)
  | .die pid =>
      inferInstanceAs (Decidable (∀ process ∈ world.process pid,
        ∀ action ∈ process.pending.head?, action.appendedId = none))
  | .start _ _ => .isTrue trivial
  | .advance _ _ => .isTrue trivial
  | .signal _ => .isTrue trivial

section Step

variable {world next : World} {pid : Pid} {process : Process}

private theorem settled_initialized (id : String) :
    Settled (Root.initialized.stored id) (Root.initialized.ledger id) := rfl

theorem historyInvariant_idle {root : Root}
    (settled : ∀ id, Settled (root.stored id) (root.ledger id)) :
    HistoryInvariant (World.idle root) := by
  refine ⟨?_, ?_, fun id _ => settled id⟩
  · intro pid process alive
    cases alive
  · intro pid process alive
    cases alive

/-- Nothing is written, and the process goes on with a script of its own, or
ends. -/
private theorem HistoryInvariant.moved (invariant : HistoryInvariant world)
    (others : ∀ other, other ≠ pid → next.process other = world.process other)
    (sameItems : next.root.stored = world.root.stored)
    (sameRecords : next.root.ledger = world.root.ledger)
    (after : ∀ process, next.process pid = some process →
      AppendsFirst process.pending ∧ ∀ id ∈ savedIds process.pending,
        Orderly id world.root.stored world.root.ledger process.pending)
    (dropped : ∀ before, world.process pid = some before →
      ∀ id ∈ savedIds before.pending,
        (∀ process, next.process pid = some process →
          id ∉ savedIds process.pending) →
        Settled (world.root.stored id) (world.root.ledger id)) :
    HistoryInvariant next := by
  refine ⟨?_, ?_, ?_⟩
  · intro name process alive
    rw [sameItems, sameRecords]
    by_cases same : name = pid
    · subst same
      exact (after process alive).2
    · rw [others name same] at alive
      exact invariant.orderly name process alive
  · intro name process alive
    by_cases same : name = pid
    · subst same
      exact (after process alive).1
    · rw [others name same] at alive
      exact invariant.first name process alive
  · intro id unsaved
    rw [sameItems, sameRecords]
    by_cases held : ∃ before, world.process pid = some before ∧
        id ∈ savedIds before.pending
    · obtain ⟨before, alive, saved⟩ := held
      exact dropped before alive id saved (unsaved pid)
    · apply invariant.settled
      intro name process alive saved
      by_cases same : name = pid
      · subst same
        exact held ⟨process, alive, saved⟩
      · rw [← others name same] at alive
        exact unsaved name process alive saved

/-- A write of a process whose items no other process saves. -/
private theorem HistoryInvariant.wrote (invariant : HistoryInvariant world)
    (sections : SectionInvariant world) {action : Write}
    {pending : List Write} (alive : world.process pid = some process)
    (pendingNext : process.pending = action :: pending)
    (others : ∀ other, other ≠ pid → next.process other = world.process other)
    (self : next.process pid = some { process with pending })
    (items : next.root.stored = action.store world.root.stored)
    (records : next.root.ledger = action.enter world.root.ledger) :
    HistoryInvariant next := by
  have first := invariant.first pid process alive
  have orderly := invariant.orderly pid process alive
  rw [pendingNext] at first orderly
  have mine : ∀ id, action.savedId = some id ∨ action.appendedId = some id →
      id ∈ savedIds process.pending := by
    intro id touched
    rw [pendingNext, mem_savedIds_cons]
    rcases touched with saved | appended
    · exact .inl saved
    · exact .inr (first.1 id appended)
  have untouched : ∀ id, id ∉ savedIds process.pending →
      world.root.stored id = next.root.stored id ∧
        world.root.ledger id = next.root.ledger id := by
    intro id unsaved
    rw [items, records, Write.store_of_ne, Write.enter_of_ne]
    · exact ⟨rfl, rfl⟩
    · exact fun appended => unsaved (mine id (.inr appended))
    · exact fun saved => unsaved (mine id (.inl saved))
  have apart : ∀ other otherProcess, other ≠ pid →
      world.process other = some otherProcess →
      ∀ id ∈ savedIds otherProcess.pending, id ∉ savedIds process.pending := by
    intro other otherProcess different otherAlive id saved mineSaved
    exact sections.apart other pid otherProcess process otherAlive alive
      different id (List.mem_append_left _ saved)
      (List.mem_append_left _ mineSaved)
  refine ⟨?_, ?_, ?_⟩
  · intro name other otherAlive id saved
    by_cases same : name = pid
    · subst same
      rw [self] at otherAlive
      cases otherAlive
      rw [items, records]
      exact (orderly id (mem_savedIds_cons.mpr (.inr saved))).2
    · rw [others name same] at otherAlive
      obtain ⟨sameItem, sameRecords⟩ := untouched id
        (apart name other same otherAlive id saved)
      exact (invariant.orderly name other otherAlive id saved).congr sameItem
        sameRecords
  · intro name other otherAlive
    by_cases same : name = pid
    · subst same
      rw [self] at otherAlive
      cases otherAlive
      exact first.2
    · rw [others name same] at otherAlive
      exact invariant.first name other otherAlive
  · intro id unsaved
    have gone : id ∉ savedIds pending := unsaved pid _ self
    by_cases saved : id ∈ savedIds process.pending
    · rw [items, records]
      rw [pendingNext] at saved
      exact settled_of_orderly (orderly id saved).2 first.2 gone
    · obtain ⟨sameItem, sameRecords⟩ := untouched id saved
      rw [← sameItem, ← sameRecords]
      apply invariant.settled
      intro name other otherAlive otherSaved
      by_cases same : name = pid
      · subst same
        rw [alive] at otherAlive
        cases otherAlive
        exact saved otherSaved
      · rw [← others name same] at otherAlive
        exact unsaved name other otherAlive otherSaved

private theorem ledger_follow (result : Next) :
    (world.follow pid result).root.ledger = world.root.ledger := by
  cases result <;> rfl

private theorem quiet_command {command : Command}
    (entry : command.process = .ok process) :
    savedIds process.pending = [] ∧ AppendsFirst process.pending := by
  cases command with
  | serve maxActive untilIdle =>
      cases process_of_serve entry
      exact ⟨rfl, trivial⟩
  | _ =>
      cases entry
      refine ⟨rfl, appendsFirst_of_silent ?_⟩
      simp [Write.appendedId]

theorem HistoryInvariant.step {input : Input}
    (invariant : HistoryInvariant world) (sections : SectionInvariant world)
    (nextSections : SectionInvariant next) (clean : CleanDeath world input)
    (stepped : Control.step world input = some next) :
    HistoryInvariant next := by
  cases stepped_of_step stepped with
  | @begun pid command process positive free entry =>
      obtain ⟨unsaved, first⟩ := quiet_command entry
      refine invariant.moved
        (fun other different => World.process_set_of_ne world process different)
        rfl rfl ?_ ?_
      · intro after found
        rw [World.process_set_self] at found
        cases found
        refine ⟨first, ?_⟩
        simp [unsaved]
      · intro before alive
        rw [free] at alive
        cases alive
  | refused => exact ⟨invariant.orderly, invariant.first, invariant.settled⟩
  | @wrote pid answer process action pending alive pendingNext =>
      exact invariant.wrote sections alive pendingNext
        (fun other different => World.process_set_of_ne _ _ different)
        (World.process_set_self _ _ _) (stored_perform pid world.root action)
        (ledger_perform pid world.root action)
  | @read pid answer process alive idle =>
      have proper := sections.proper pid process alive
      refine invariant.moved
        (fun other different => World.process_follow_of_ne _ _ different)
        (stored_follow _) (ledger_follow _) ?_ ?_
      · intro after found
        have foundNext := found
        rw [World.process_follow_self] at found
        have script := script_proceed proper idle after found
        refine ⟨script.appendsFirst, ?_⟩
        intro id saved
        apply script.orderly saved
        apply invariant.settled
        intro other otherProcess otherAlive otherSaved
        by_cases same : other = pid
        · subst same
          rw [alive] at otherAlive
          cases otherAlive
          rw [idle] at otherSaved
          cases otherSaved
        · rw [← World.process_follow_of_ne world _ same] at otherAlive
          exact nextSections.apart pid other after otherProcess foundNext
            otherAlive (fun equal => same equal.symm) id
            (List.mem_append_left _ saved) (List.mem_append_left _ otherSaved)
      · intro before beforeAlive id saved
        rw [alive] at beforeAlive
        cases beforeAlive
        rw [idle] at saved
        cases saved
  | @signalled pid process alive serves =>
      refine invariant.moved
        (fun other different => World.process_set_of_ne _ _ different)
        rfl rfl ?_ ?_
      · intro after found
        rw [World.process_set_self] at found
        cases found
        exact ⟨invariant.first pid process alive,
          invariant.orderly pid process alive⟩
      · intro before beforeAlive id saved gone
        rw [alive] at beforeAlive
        cases beforeAlive
        exact absurd saved (gone (onSignal process)
          (World.process_set_self _ _ _))
  | @died pid process alive =>
      refine invariant.moved
        (fun other different => World.process_exit_of_ne _ different)
        rfl rfl ?_ ?_
      · intro after found
        rw [World.process_exit_self] at found
        cases found
      · intro before beforeAlive id saved _
        have orderly := invariant.orderly pid before beforeAlive id saved
        have silent := clean before beforeAlive
        cases pending : before.pending with
        | nil =>
            rw [pending] at saved
            cases saved
        | cons action rest =>
            rw [pending] at orderly silent
            rcases orderly.1 with settled | appends
            · exact settled
            · rw [silent action rfl] at appends
              cases appends

end Step

/-- Every item that has ended has exactly one record, and the record has its
status. -/
def ExactlyOnce (root : Root) : Prop :=
  ∀ id item, root.stored id = some item → item.status.isTerminal →
    (root.history.filter (·.id == id)).map (·.status) = [item.status]

private theorem owns_of_atWork {process : Process}
    (working : process.point.atWork) : process.lockPhase.owns := by
  simp only [Point.atWork, Bool.and_eq_true, bne_iff_ne] at working
  unfold Process.lockPhase
  split
  · rename_i here
    simp [here, Point.supervises] at working
  · rename_i here
    exact absurd here working.2
  · rw [if_pos working.1]
    split <;> rfl

theorem oneAtWork_of_lockInvariant {world : World}
    (invariant : LockInvariant world) : OneAtWork world := by
  intro first second firstProcess secondProcess firstAlive secondAlive
    firstWorks secondWorks
  apply invariant.safe.exclusive
  · simpa [World.lockPhase, firstAlive] using owns_of_atWork firstWorks
  · simpa [World.lockPhase, secondAlive] using owns_of_atWork secondWorks

/-- In every run from a fresh control root in which no process dies between
ending an item and appending its record, the sections of two processes on an
item do not overlap and the lock is not disturbed, the history is exactly-once
whenever no command is in progress. -/
theorem history_exactly_once_of_cleanDeath (inputs : List Input)
    (final : World)
    (clean : Along step CleanDeath (World.idle .initialized) inputs)
    (apart : Along step SectionsApart (World.idle .initialized) inputs)
    (undisturbed : Along step LockUndisturbed (World.idle .initialized) inputs)
    (ran : follow step (World.idle .initialized) inputs = some final)
    (quiet : final.processes.entries = []) : ExactlyOnce final.root := by
  have kept := follow_keeps
    (fun world input next
        (sound : LockInvariant world ∧ SectionInvariant world ∧
          HistoryInvariant world) conditions stepped =>
      have one := oneAtWork_of_lockInvariant sound.1
      have sections := sound.2.1.step conditions.1.2 one stepped
      ⟨sound.1.step conditions.2 stepped, sections,
        sound.2.2.step sound.2.1 sections conditions.1.1 stepped⟩)
    ⟨lockInvariant_idle _, sectionInvariant_idle _,
      historyInvariant_idle settled_initialized⟩
    ((clean.and apart).and undisturbed) ran
  intro id item stored ended
  have settled := kept.2.2.settled id (by
    intro pid process alive
    have member := World.mem_processes.mpr alive
    rw [quiet] at member
    cases member)
  rw [stored, settled_ended ended] at settled
  exact settled

/-- An item is submitted, cancelled and recorded; a supervisor comes and dies. -/
theorem history_exactly_once_of_cleanDeath_cancelled :
    ∃ final, follow step (World.idle .initialized)
        (.start 1 (.submit ⟨"nightly.json", "", some "nightly", 0⟩) ::
          advances 1 5 ++ .start 2 (.cancel "nightly") :: advances 2 6 ++
          .start 3 (.serve 1 false) :: advances 3 20 ++ [.die 3]) =
        some final ∧
      (final.root.stored "nightly").map (·.status) = some .cancelled ∧
      ExactlyOnce final.root := by
  refine ⟨_, rfl, rfl, ?_⟩
  apply history_exactly_once_of_cleanDeath
    (.start 1 (.submit ⟨"nightly.json", "", some "nightly", 0⟩) ::
      advances 1 5 ++ .start 2 (.cancel "nightly") :: advances 2 6 ++
      .start 3 (.serve 1 false) :: advances 3 20 ++ [.die 3])
  · decide
  · decide
  · decide
  · rfl
  · rfl

/-- The cancelling process dies after it has ended the item; the record is
never written. -/
theorem cancelled_item_without_record :
    ∃ final, follow step (World.idle .initialized)
        (.start 1 (.submit ⟨"nightly.json", "", some "nightly", 0⟩) ::
          advances 1 5 ++ .start 2 (.cancel "nightly") :: advances 2 2 ++
          .die 2 :: .start 3 (.serve 1 true) :: advances 3 21) =
        some final ∧
      final.processes.entries = [] ∧ final.root.history = [] ∧
      ¬ ExactlyOnce final.root := by
  refine ⟨_, rfl, rfl, rfl, ?_⟩
  intro exact_
  have recorded := exact_ "nightly" _ rfl rfl
  cases recorded

end PpcLab.Control
