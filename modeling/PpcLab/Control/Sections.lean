import PpcLab.Control.LockMoves

/-!
# Sections

From its reading of an item that it is going to write back to its last write
of the item, a process is in a section on the item.  As long as the sections of
different processes on one item do not overlap, every copy a process acts on is
the stored one.
-/

namespace PpcLab.Control

/-- The queue by the names of its items. -/
abbrev Store := String → Option Item

def Root.stored (root : Root) : Store :=
  root.queue.lookup

def Write.savedId : Write → Option String
  | .saveItem _ item => some item.id
  | _ => none

/-- The names of the items that are still to be saved. -/
def savedIds (pending : List Write) : List String :=
  pending.filterMap Write.savedId

/-- The items a pass over the queue may write back. -/
def Purpose.acts (item : Item) : Purpose → Bool
  | .cancelAll | .choose => item.status == .queued
  | .recover => item.status == .running
  | .globalCancel => item.status == .queued || item.status == .orphaned
  | .telemetry => false

/-- The copies a process has read and may still write back. -/
def Point.copies : Point → List Item
  | .load purpose _ loaded => loaded.filter fun item => purpose.acts item
  | .each purpose items => items.filter fun item => purpose.acts item
  | .verify item | .spawn item => [item]
  | _ => []

/-- The items on which a process is in a section. -/
def Process.holds (process : Process) : List String :=
  savedIds process.pending ++ process.point.copies.map (·.id)

/-- The items whose sections a reading step begins. -/
def takes (root : Root) : Point → List String
  | .submitExists submission seq =>
      let id := submission.itemId seq
      if validateId id && (root.stored id).isNone then [id] else []
  | .cancelItem id =>
      if validateId id &&
          (root.stored id).any fun item => !item.status.isTerminal then [id]
      else []
  | .load purpose (name :: _) _ =>
      if (root.stored name).any fun item => purpose.acts item then [name]
      else []
  | .reap id _ _ => [id]
  | _ => []

/-- No process begins a section on an item while another process is in one. -/
def SectionsApart (world : World) : Input → Prop
  | .advance pid _ =>
      ∀ process ∈ world.process pid, process.pending = [] →
        ∀ id ∈ takes world.root process.point,
          ∀ entry ∈ world.processes.entries, entry.1 ≠ pid →
            id ∉ entry.2.holds
  | _ => True

instance (world : World) :
    (input : Input) → Decidable (SectionsApart world input)
  | .advance pid _ =>
      inferInstanceAs (Decidable (∀ process ∈ world.process pid,
        process.pending = [] → ∀ id ∈ takes world.root process.point, _))
  | .start _ _ => .isTrue trivial
  | .signal _ => .isTrue trivial
  | .die _ => .isTrue trivial

/-- What a process makes of an item.  A client leaves a running item running
and ends a queued one. -/
structure Moves (client : Bool) (seen item : Item) : Prop where
  same : item.id = seen.id
  terminal : seen.status.isTerminal → item.status = seen.status
  running : client → seen.status = .running → item.status = .running
  queued : client → seen.status = .queued → item.status.isTerminal

/-- The saved item was computed from what is stored. -/
def Fits (client : Bool) (stored : Store) : Write → Prop
  | .saveItem seen item =>
      stored item.id = seen ∧ (∀ old ∈ seen, Moves client old item) ∧
        (seen = none → item.status = .queued)
  | _ => True

def Write.store (stored : Store) : Write → Store
  | .saveItem _ item => Function.update stored item.id (some item)
  | _ => stored

/-- The writes fit one after the other, if nobody interferes. -/
def Legal (client : Bool) : Store → List Write → Prop
  | _, [] => True
  | stored, action :: pending =>
      Fits client stored action ∧ Legal client (action.store stored) pending

theorem stored_perform (pid : Pid) (root : Root) (action : Write) :
    (action.perform pid root).stored = action.store root.stored := by
  cases action with
  | saveItem seen item =>
      funext id
      by_cases same : id = item.id
      · subst same
        simp [Write.perform, Write.store, Root.stored]
      · simp [Write.perform, Write.store, Root.stored, same,
          Keyed.lookup_put_of_ne root.queue same]
  | _ => rfl

theorem Write.store_of_ne {action : Write} {stored : Store} {id : String}
    (different : action.savedId ≠ some id) :
    action.store stored id = stored id := by
  cases action with
  | saveItem seen item =>
      have other : id ≠ item.id := by
        intro same
        exact different (congrArg some same.symm)
      simp [Write.store, other]
  | _ => rfl

theorem Legal.congr {client : Bool} {stored other : Store}
    {pending : List Write} (legal : Legal client stored pending)
    (same : ∀ id ∈ savedIds pending, stored id = other id) :
    Legal client other pending := by
  induction pending generalizing stored other with
  | nil => exact trivial
  | cons action pending induction =>
      obtain ⟨fits, rest⟩ := legal
      have later : ∀ id ∈ savedIds pending,
          action.store stored id = action.store other id := by
        intro id member
        by_cases saved : action.savedId = some id
        · cases action with
          | saveItem seen item =>
              have sameId : id = item.id := (Option.some.inj saved).symm
              simp [Write.store, sameId]
          | _ => cases saved
        · rw [Write.store_of_ne saved, Write.store_of_ne saved]
          apply same
          simp only [savedIds, List.filterMap_cons]
          split
          · exact member
          · exact List.mem_cons_of_mem _ member
      refine ⟨?_, induction rest later⟩
      cases action with
      | saveItem seen item =>
          have agree : stored item.id = other item.id :=
            same item.id (by simp [savedIds, Write.savedId])
          obtain ⟨stale, moves, fresh⟩ := fits
          exact ⟨agree.symm.trans stale, moves, fresh⟩
      | _ => exact trivial

section Writes

variable {client : Bool} {stored : Store} {seen item : Item}
  {answer : Answer}

private theorem legal_archiveTerminal
    (current : stored item.id = some item)
    (ended : item.status.isTerminal) :
    Legal client stored (archiveTerminal item answer) := by
  unfold archiveTerminal
  split
  · exact trivial
  · refine ⟨trivial, trivial, ⟨current, ?_, ?_⟩, trivial⟩
    · rintro old ⟨⟩
      refine ⟨rfl, fun _ => rfl, ?_, fun _ _ => ended⟩
      intro _ running
      exact running
    · intro absent
      cases absent

/-- An item that is ended and archived. -/
theorem legal_saveTerminal (current : stored seen.id = some seen)
    (moves : Moves client seen item) (ended : item.status.isTerminal) :
    Legal client stored (saveTerminal seen item answer) := by
  refine ⟨⟨?_, ?_, ?_⟩, legal_archiveTerminal ?_ ended⟩
  · rw [moves.same]
    exact current
  · rintro old ⟨⟩
    exact moves
  · intro absent
    cases absent
  · simp [Write.store]

theorem savedIds_archiveTerminal {id : String}
    (member : id ∈ savedIds (archiveTerminal item answer)) :
    id = item.id := by
  unfold archiveTerminal at member
  split at member
  · cases member
  · simpa [savedIds, Write.savedId, eq_comm] using member

theorem savedIds_saveTerminal {id : String}
    (member : id ∈ savedIds (saveTerminal seen item answer)) :
    id = item.id := by
  rcases List.mem_cons.mp member with same | archived
  · exact same
  · exact savedIds_archiveTerminal archived

private theorem moves_cancelled {reason : String}
    (open_ : seen.status.isTerminal = false)
    (stopped : seen.status ≠ .running) :
    Moves client seen (cancelled seen reason answer) := by
  refine ⟨rfl, ?_, ?_, fun _ _ => rfl⟩
  · intro terminal
    rw [open_] at terminal
    cases terminal
  · intro _ running
    exact absurd running stopped

/-- A queued or orphaned item that is cancelled. -/
theorem legal_cancelled {reason : String}
    (current : stored seen.id = some seen)
    (open_ : seen.status.isTerminal = false)
    (stopped : seen.status ≠ .running) :
    Legal client stored
      (saveTerminal seen (cancelled seen reason answer) answer) :=
  legal_saveTerminal current (moves_cancelled open_ stopped) rfl

theorem legal_cancelWrites (current : stored item.id = some item) :
    Legal client stored (cancelWrites item answer) := by
  unfold cancelWrites
  split
  · rename_i queued
    apply legal_cancelled current <;> simp [queued, Status.isTerminal]
  · rename_i running
    refine ⟨trivial, ⟨current, ?_, ?_⟩, trivial⟩
    · rintro old ⟨⟩
      refine ⟨rfl, fun _ => rfl, fun _ same => same, ?_⟩
      intro _ queued
      rw [running] at queued
      cases queued
    · intro absent
      cases absent
  · rename_i orphaned
    apply legal_cancelled current <;> simp [orphaned, Status.isTerminal]
  · exact trivial

theorem savedIds_cancelWrites {id : String}
    (member : id ∈ savedIds (cancelWrites item answer)) :
    id = item.id ∧ item.status.isTerminal = false := by
  unfold cancelWrites at member
  split at member
  · rename_i queued
    exact ⟨(savedIds_saveTerminal member).trans rfl, by rw [queued]; rfl⟩
  · rename_i running
    refine ⟨by simpa [savedIds, Write.savedId, eq_comm] using member, ?_⟩
    rw [running]
    rfl
  · rename_i orphaned
    exact ⟨(savedIds_saveTerminal member).trans rfl, by rw [orphaned]; rfl⟩
  · cases member

private theorem legal_cancelAllWrites (current : stored item.id = some item) :
    Legal client stored (cancelAllWrites item answer) := by
  unfold cancelAllWrites
  split
  · rename_i queued
    apply legal_cancelled current <;> simp [queued, Status.isTerminal]
  · exact ⟨trivial, trivial⟩
  · exact trivial

private theorem savedIds_cancelAllWrites {id : String}
    (member : id ∈ savedIds (cancelAllWrites item answer)) :
    id = item.id ∧ item.status = .queued := by
  unfold cancelAllWrites at member
  split at member
  · exact ⟨(savedIds_saveTerminal member).trans rfl, ‹_›⟩
  · cases member
  · cases member

private theorem legal_recoverWrites {live : Pid → Bool}
    (current : stored item.id = some item) :
    Legal false stored (recoverWrites live item answer) := by
  unfold recoverWrites
  split
  · rename_i running
    have moved : ∀ after : Item, after.id = item.id →
        Moves false item after := by
      intro after same
      refine ⟨same, ?_, ?_, ?_⟩
      · intro terminal
        rw [running] at terminal
        cases terminal
      · intro client
        cases client
      · intro client
        cases client
    split
    · refine ⟨⟨current, ?_, ?_⟩, trivial⟩
      · rintro old ⟨⟩
        exact moved _ rfl
      · intro absent
        cases absent
    · refine ⟨⟨current, ?_, ?_⟩, trivial⟩
      · rintro old ⟨⟩
        exact moved _ rfl
      · intro absent
        cases absent
  · exact trivial

private theorem savedIds_recoverWrites {live : Pid → Bool} {id : String}
    (member : id ∈ savedIds (recoverWrites live item answer)) :
    id = item.id ∧ item.status = .running := by
  unfold recoverWrites at member
  split at member
  · rename_i running
    split at member
    · exact ⟨by simpa [savedIds, Write.savedId, eq_comm] using member, running⟩
    · exact ⟨by simpa [savedIds, Write.savedId, eq_comm] using member, running⟩
  · cases member

theorem savedIds_passWrites {live : Pid → Bool} {purpose : Purpose}
    {id : String}
    (member : id ∈ savedIds (passWrites live item answer purpose)) :
    id = item.id ∧ purpose.acts item := by
  cases purpose with
  | cancelAll =>
      obtain ⟨same, queued⟩ := savedIds_cancelAllWrites member
      exact ⟨same, by simp [Purpose.acts, queued]⟩
  | recover =>
      obtain ⟨same, running⟩ := savedIds_recoverWrites member
      exact ⟨same, by simp [Purpose.acts, running]⟩
  | globalCancel =>
      simp only [passWrites, globalCancelWrites] at member
      split at member
      · rename_i orphaned
        exact ⟨(savedIds_saveTerminal member).trans rfl,
          by simp [Purpose.acts, orphaned]⟩
      · obtain ⟨same, queued⟩ := savedIds_cancelAllWrites member
        exact ⟨same, by simp [Purpose.acts, queued]⟩
  | choose | telemetry => cases member

theorem legal_of_unsaved {pending : List Write}
    (unsaved : savedIds pending = []) :
    Legal client stored pending := by
  induction pending generalizing stored with
  | nil => exact trivial
  | cons action pending induction =>
      cases action with
      | saveItem seen item =>
          cases unsaved
      | _ => exact ⟨trivial, induction unsaved⟩

theorem legal_passWrites {live : Pid → Bool} {purpose : Purpose}
    (current : purpose.acts item → stored item.id = some item) :
    Legal (!(purpose != .cancelAll)) stored
      (passWrites live item answer purpose) := by
  by_cases acts : purpose.acts item
  · cases purpose with
    | cancelAll => exact legal_cancelAllWrites (current acts)
    | recover => exact legal_recoverWrites (current acts)
    | globalCancel =>
        simp only [passWrites, globalCancelWrites]
        split
        · rename_i orphaned
          apply legal_cancelled (current acts) <;>
            simp [orphaned, Status.isTerminal]
        · exact legal_cancelAllWrites (current acts)
    | choose | telemetry => exact trivial
  · apply legal_of_unsaved
    rw [List.eq_nil_iff_forall_not_mem]
    intro id member
    exact acts (savedIds_passWrites member).2

end Writes

end PpcLab.Control
