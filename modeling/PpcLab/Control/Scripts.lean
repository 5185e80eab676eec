import PpcLab.Control.SectionReads

/-!
# The scripts of the commands

Whatever a process has read, what it sets out to write next is one of a few
scripts: it submits an item, changes an open item, ends an open item and
archives it, or leaves the items alone.
-/

namespace PpcLab.Control

def Write.appendedId : Write → Option String
  | .appendHistory record => some record.id
  | _ => none

/-- What a process writes after it has read. -/
inductive Script (stored : Store) : List Write → Prop where
  | quiet {pending : List Write} :
      (∀ action ∈ pending, action.savedId = none ∧ action.appendedId = none) →
      Script stored pending
  | submit {item : Item} {nextSeq : Nat} :
      stored item.id = none → item.status = .queued →
      item.historyWritten = false →
      Script stored [.saveItem none item, .saveControl nextSeq]
  | change {seen item : Item} :
      stored seen.id = some seen → item.id = seen.id →
      seen.status.isTerminal = false → item.status.isTerminal = false →
      item.historyWritten = seen.historyWritten →
      Script stored [.saveItem (some seen) item]
  | touchRun {runOut : String} {pending : List Write} :
      Script stored pending → Script stored (.touchRun runOut :: pending)
  | finish {seen item : Item} {answer : Answer} :
      stored seen.id = some seen → item.id = seen.id →
      seen.status.isTerminal = false → item.status.isTerminal →
      item.historyWritten = seen.historyWritten →
      Script stored (saveTerminal seen item answer)

section Scripts

variable {stored : Store} {item : Item} {answer : Answer}

private theorem script_cancelled {reason : String}
    (current : stored item.id = some item)
    (open_ : item.status.isTerminal = false) :
    Script stored
      (saveTerminal item (cancelled item reason answer) answer) :=
  .finish current rfl open_ rfl rfl

private theorem script_nil : Script stored [] := by
  apply Script.quiet
  intro action member
  cases member

private theorem script_cancelWrites (current : stored item.id = some item) :
    Script stored (cancelWrites item answer) := by
  unfold cancelWrites
  split
  · rename_i queued
    exact script_cancelled current (by rw [queued]; rfl)
  · rename_i running
    have open_ : item.status.isTerminal = false := by
      rw [running]
      rfl
    exact .touchRun (.change current rfl open_ open_ rfl)
  · rename_i orphaned
    exact script_cancelled current (by rw [orphaned]; rfl)
  · exact script_nil

private theorem script_cancelAllWrites
    (current : item.status = .queued → stored item.id = some item) :
    Script stored (cancelAllWrites item answer) := by
  unfold cancelAllWrites
  split
  · rename_i queued
    exact script_cancelled (current queued) (by rw [queued]; rfl)
  · exact .touchRun script_nil
  · exact script_nil

private theorem script_passWrites {live : Pid → Bool} {purpose : Purpose}
    (current : purpose.acts item → stored item.id = some item) :
    Script stored (passWrites live item answer purpose) := by
  cases purpose with
  | cancelAll =>
      apply script_cancelAllWrites
      intro queued
      exact current (by simp [Purpose.acts, queued])
  | recover =>
      simp only [passWrites, recoverWrites]
      split
      · rename_i running
        have isStored := current (by simp [Purpose.acts, running])
        have open_ : item.status.isTerminal = false := by
          rw [running]
          rfl
        split
        · exact .change isStored rfl open_ rfl rfl
        · exact .change isStored rfl open_ rfl rfl
      · exact script_nil
  | globalCancel =>
      simp only [passWrites, globalCancelWrites]
      split
      · rename_i orphaned
        exact script_cancelled
          (current (by simp [Purpose.acts, orphaned])) (by rw [orphaned]; rfl)
      · apply script_cancelAllWrites
        intro queued
        exact current (by simp [Purpose.acts, queued])
  | choose | telemetry => exact script_nil

variable {live : Pid → Bool} {root : Root} {process : Process}

private theorem script_release (after : Process)
    (next : after ∈ process.release.process) :
    Script root.stored after.pending := by
  cases next
  apply Script.quiet
  simp [Write.savedId, Write.appendedId]

private theorem script_raise {message : String} (after : Process)
    (next : after ∈ (process.raise message).process) :
    Script root.stored after.pending := by
  unfold Process.raise at next
  split at next
  · exact script_release after next
  · cases next

private theorem script_idle (idle : process.pending = []) :
    Script stored process.pending := by
  rw [idle]
  exact script_nil

private theorem script_afterLoad (idle : process.pending = [])
    {purpose : Purpose} {loaded : List Item} (after : Process)
    (next : after ∈ (afterLoad process loaded purpose).process) :
    Script root.stored after.pending := by
  cases purpose with
  | choose =>
      simp only [afterLoad] at next
      split at next
      all_goals
        cases next
        exact script_idle idle
  | telemetry =>
      simp only [afterLoad] at next
      split at next
      · exact script_release after next
      · cases next
        exact script_idle idle
  | cancelAll | recover | globalCancel =>
      cases next
      exact script_idle idle

/-- What follows a reading step. -/
theorem script_proceed (proper : Proper root.stored process)
    (idle : process.pending = []) (after : Process)
    (next : after ∈ (proceed live root process answer).process) :
    Script root.stored after.pending := by
  have current := proper.current
  have tidy := proper.tidy
  cases here : process.point with
  | submitExists submission seq =>
      simp only [proceed, here] at next
      split at next
      · cases next
      · split at next
        · cases next
        · rename_i absent
          cases next
          exact .submit (Option.not_isSome_iff_eq_none.mp absent) rfl rfl
  | cancelItem id =>
      simp only [proceed, here] at next
      split at next
      · cases next
      · split at next
        · cases next
        · split at next
          · cases next
          · rename_i item found
            cases next
            apply script_cancelWrites
            rw [Keyed.key_of_lookup found]
            exact found
  | load purpose names loaded =>
      cases names with
      | nil =>
          simp only [proceed, here] at next
          exact script_afterLoad idle after next
      | cons name names =>
          simp only [proceed, here] at next
          split at next
          · exact script_raise after next
          · cases next
            exact script_idle idle
  | each purpose items =>
      cases items with
      | nil =>
          simp only [proceed, here] at next
          cases next
          exact script_idle idle
      | cons item items =>
          simp only [proceed, here] at next
          cases next
          apply script_passWrites
          intro acts
          rw [here] at current
          exact current item
            (List.mem_filter.mpr ⟨List.mem_cons_self, acts⟩)
  | lockRead =>
      simp only [proceed, here] at next
      split at next
      · cases next
      · cases next
        apply Script.quiet
        simp [Write.savedId, Write.appendedId]
  | lockCreate =>
      simp only [proceed, here] at next
      split at next
      · cases next
      · cases next
        apply Script.quiet
        simp [Write.savedId, Write.appendedId]
  | reap id returncode ids =>
      simp only [proceed, here] at next
      split at next
      · exact script_raise after next
      · rename_i item found
        have running := running_of_reap proper idle here found
        cases next
        refine .finish ?_ rfl ?_ (isTerminal_finishStatus _ _ _ _) rfl
        · rw [Keyed.key_of_lookup found]
          exact found
        · rw [running]
          rfl
  | verify item =>
      rw [here] at current tidy
      have queued : item.status = .queued := tidy
      simp only [proceed, here] at next
      split at next
      · cases next
        refine .finish (current item List.mem_cons_self) rfl ?_ rfl rfl
        rw [queued]
        rfl
      · cases next
        exact script_idle idle
  | spawn item =>
      rw [here] at current tidy
      have queued : item.status = .queued := tidy
      simp only [proceed, here] at next
      cases next
      refine .change (current item List.mem_cons_self) rfl ?_ rfl rfl
      rw [queued]
      rfl
  | submitted item | printed text | released =>
      simp only [proceed, here] at next
      cases next
  | poll ids =>
      cases ids with
      | nil =>
          simp only [proceed, here] at next
          cases next
          exact script_idle idle
      | cons id ids =>
          simp only [proceed, here] at next
          split at next
          all_goals
            cases next
            exact script_idle idle
  | lockExists | dispatch =>
      simp only [proceed, here] at next
      split at next
      all_goals
        cases next
        exact script_idle idle
  | submitState submission | names purpose | readCancel | readPause
  | readDrain =>
      simp only [proceed, here] at next
      cases next
      exact script_idle idle

end Scripts

end PpcLab.Control
