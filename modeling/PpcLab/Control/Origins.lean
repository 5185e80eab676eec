import PpcLab.Control.Sections

/-!
# Where items come from

What a submission has put into an item never changes: whatever copy a command
works on, the item it saves has the number, the manifest and the name of the
item it has read.  A submission itself goes through three stages between its
reading of the counter and its writing it back.
-/

namespace PpcLab.Control

/-- What a submission determines. -/
structure Origin where
  id : String
  seq : Nat
  priority : Int
  manifest : String
  manifestSha256 : String
  runOut : String
  submittedUnix : Time
  deriving DecidableEq, Repr

def Item.origin (item : Item) : Origin :=
  { id := item.id
    seq := item.seq
    priority := item.priority
    manifest := item.manifest
    manifestSha256 := item.manifestSha256
    runOut := item.runOut
    submittedUnix := item.submittedUnix }

/-- An item of the same origin is in the queue. -/
def Known (stored : Store) (copy : Item) : Prop :=
  ∃ item, stored copy.id = some item ∧ item.origin = copy.origin

theorem id_of_origin {first second : Item}
    (same : first.origin = second.origin) : first.id = second.id :=
  congrArg Origin.id same

theorem seq_of_origin {first second : Item}
    (same : first.origin = second.origin) : first.seq = second.seq :=
  congrArg Origin.seq same

theorem Known.of_origin {stored : Store} {copy other : Item}
    (known : Known stored copy) (same : other.origin = copy.origin) :
    Known stored other := by
  obtain ⟨item, isStored, origin⟩ := known
  refine ⟨item, ?_, origin.trans same.symm⟩
  rw [id_of_origin same]
  exact isStored

/-- No item leaves the queue or changes its origin. -/
def Keeps (before after : Store) : Prop :=
  ∀ id item, before id = some item →
    ∃ later, after id = some later ∧ later.origin = item.origin

theorem Known.keeps {before after : Store} {copy : Item}
    (known : Known before copy) (keeps : Keeps before after) :
    Known after copy := by
  obtain ⟨item, isStored, origin⟩ := known
  obtain ⟨later, isLater, same⟩ := keeps copy.id item isStored
  exact ⟨later, isLater, same.trans origin⟩

/-- A write that neither submits an item nor counts. -/
def Write.KeepsOrigin (stored : Store) : Write → Prop
  | .saveItem _ item => Known stored item
  | .saveControl _ => False
  | _ => True

section Writes

variable {stored : Store} {item : Item} {answer : Answer}

private theorem keepsOrigin_archiveTerminal (known : Known stored item) :
    ∀ action ∈ archiveTerminal item answer, action.KeepsOrigin stored := by
  unfold archiveTerminal
  split
  · simp
  · intro action member
    simp only [List.mem_cons, List.not_mem_nil, or_false] at member
    rcases member with rfl | rfl | rfl
    · exact trivial
    · exact trivial
    · exact known.of_origin rfl

private theorem keepsOrigin_saveTerminal {seen : Item}
    (known : Known stored seen) (same : item.origin = seen.origin) :
    ∀ action ∈ saveTerminal seen item answer, action.KeepsOrigin stored := by
  intro action member
  rcases List.mem_cons.mp member with rfl | archived
  · exact known.of_origin same
  · exact keepsOrigin_archiveTerminal (known.of_origin same) action archived

private theorem keepsOrigin_cancelWrites (known : Known stored item) :
    ∀ action ∈ cancelWrites item answer, action.KeepsOrigin stored := by
  unfold cancelWrites
  split
  · exact keepsOrigin_saveTerminal known rfl
  · intro action member
    simp only [List.mem_cons, List.not_mem_nil, or_false] at member
    rcases member with rfl | rfl
    · exact trivial
    · exact known.of_origin rfl
  · exact keepsOrigin_saveTerminal known rfl
  · simp

private theorem keepsOrigin_cancelAllWrites (known : Known stored item) :
    ∀ action ∈ cancelAllWrites item answer, action.KeepsOrigin stored := by
  unfold cancelAllWrites
  split
  · exact keepsOrigin_saveTerminal known rfl
  · simp [Write.KeepsOrigin]
  · simp

private theorem keepsOrigin_passWrites {live : Pid → Bool}
    (known : Known stored item) (purpose : Purpose) :
    ∀ action ∈ passWrites live item answer purpose,
      action.KeepsOrigin stored := by
  cases purpose with
  | cancelAll => exact keepsOrigin_cancelAllWrites known
  | recover =>
      simp only [passWrites, recoverWrites]
      split
      · split
        all_goals
          intro action member
          rw [List.mem_singleton.mp member]
          exact known.of_origin rfl
      · simp
  | globalCancel =>
      simp only [passWrites, globalCancelWrites]
      split
      · exact keepsOrigin_saveTerminal known rfl
      · exact keepsOrigin_cancelAllWrites known
  | choose | telemetry => simp [passWrites]

end Writes

/-- The items a process has in its hands. -/
def Point.loaded : Point → List Item
  | .load _ _ loaded => loaded
  | .each _ items => items
  | .verify item | .spawn item => [item]
  | _ => []

/-- The number that a submission has read and not yet written back. -/
def Process.submits (process : Process) : Option Nat :=
  match process.point with
  | .submitExists _ seq => some seq
  | .submitted item => if process.pending.isEmpty then none else some item.seq
  | _ => none

/-- How far a process is with a submission. -/
inductive Stage (stored : Store) : Process → Prop where
  | outside {process : Process} :
      process.submits = none →
      (∀ action ∈ process.pending, action.KeepsOrigin stored) →
      (∀ copy ∈ process.point.loaded, Known stored copy) →
      (∀ item, process.point = .submitted item → Known stored item) →
      Stage stored process
  | counted {submission : Submission} {seq : Nat} {supervisor : Supervisor} :
      Stage stored
        { pending := [], point := .submitExists submission seq, supervisor }
  | chosen {item : Item} {supervisor : Supervisor} :
      stored item.id = none →
      Stage stored
        { pending := [.saveItem none item, .saveControl (item.seq + 1)]
          point := .submitted item
          supervisor }
  | saved {item : Item} {supervisor : Supervisor} :
      Known stored item →
      Stage stored
        { pending := [.saveControl (item.seq + 1)]
          point := .submitted item
          supervisor }

/-- Another process does not leave its stage when items are replaced, unless
it is about to save a new one. -/
theorem Stage.keeps {before after : Store} {process : Process}
    (stage : Stage before process) (keeps : Keeps before after)
    (absent : ∀ id, before id = none → process.submits ≠ none →
      after id = none) : Stage after process := by
  cases stage with
  | outside idle writes loaded submitted =>
      refine .outside idle ?_ ?_ ?_
      · intro action member
        have kept := writes action member
        cases action with
        | saveItem seen item => exact Known.keeps kept keeps
        | saveControl => exact kept
        | _ => exact trivial
      · exact fun copy member => (loaded copy member).keeps keeps
      · exact fun item here => (submitted item here).keeps keeps
  | counted => exact .counted
  | chosen missing =>
      refine .chosen (absent _ missing ?_)
      simp [Process.submits]
  | saved known => exact .saved (known.keeps keeps)

section Read

variable {live : Pid → Bool} {root : Root} {process after : Process}
  {answer : Answer}

private theorem stage_writes {pending : List Write} {point : Point}
    {supervisor : Supervisor} {stored : Store}
    (writes : ∀ action ∈ pending, action.KeepsOrigin stored)
    (loaded : ∀ copy ∈ point.loaded, Known stored copy)
    (other : (∃ submission seq, point = .submitExists submission seq) ∨
      (∃ item, point = .submitted item) → False) :
    Stage stored { pending, point, supervisor } := by
  refine .outside ?_ writes loaded ?_
  · unfold Process.submits
    split
    · rename_i submission seq here
      exact (other (.inl ⟨submission, seq, here⟩)).elim
    · rename_i item here
      exact (other (.inr ⟨item, here⟩)).elim
    · rfl
  · intro item here
    exact (other (.inr ⟨item, here⟩)).elim

/-- A step that does not begin to write. -/
private theorem stage_goTo (idle : process.pending = []) {point : Point}
    {supervisor : Supervisor}
    (loaded : ∀ copy ∈ point.loaded, Known root.stored copy)
    (other : (∃ submission seq, point = .submitExists submission seq) ∨
      (∃ item, point = .submitted item) → False) :
    Stage root.stored { pending := process.pending, point, supervisor } := by
  refine stage_writes ?_ loaded other
  simp [idle]

private theorem known_of_lookup {name : String} {item : Item}
    (found : root.queue.lookup name = some item) :
    Known root.stored item := by
  refine ⟨item, ?_, rfl⟩
  rw [Keyed.key_of_lookup found]
  exact found

private theorem stage_release
    (next : after ∈ process.release.process) : Stage root.stored after := by
  cases next
  refine stage_writes ?_ ?_ ?_
  · simp [Write.KeepsOrigin]
  · simp [Point.loaded]
  · simp

private theorem stage_raise {message : String}
    (next : after ∈ (process.raise message).process) :
    Stage root.stored after := by
  unfold Process.raise at next
  split at next
  · exact stage_release next
  · cases next

private theorem stage_afterLoad (idle : process.pending = [])
    {purpose : Purpose} {loaded : List Item}
    (known : ∀ copy ∈ loaded, Known root.stored copy)
    (next : after ∈ (afterLoad process loaded purpose).process) :
    Stage root.stored after := by
  cases purpose with
  | choose =>
      simp only [afterLoad] at next
      split at next
      · cases next
        exact stage_goTo idle (by simp [Point.loaded]) (by simp)
      · rename_i item chosen
        have picked := least_mem chosen
        cases next
        refine stage_goTo idle ?_ (by simp)
        intro copy member
        rw [List.mem_singleton.mp member]
        exact known item (List.mem_filter.mp picked).1
  | telemetry =>
      simp only [afterLoad] at next
      split at next
      · exact stage_release next
      · cases next
        exact stage_goTo idle (by simp [Point.loaded]) (by simp)
  | cancelAll | recover | globalCancel =>
      cases next
      exact stage_goTo idle known (by simp)

/-- The copies of an idle process are known. -/
private theorem known_of_stage (stage : Stage root.stored process)
    {copy : Item} (held : copy ∈ process.point.loaded) :
    Known root.stored copy := by
  cases stage with
  | outside _ _ loaded _ => exact loaded copy held
  | counted => cases held
  | chosen => cases held
  | saved => cases held

/-- A submission whose writes are done has saved its item. -/
theorem known_of_submitted (stage : Stage root.stored process)
    (idle : process.pending = []) {item : Item}
    (here : process.point = .submitted item) : Known root.stored item := by
  cases stage with
  | outside _ _ _ submitted => exact submitted item here
  | counted => cases here
  | chosen => cases idle
  | saved => cases idle

/-- A reading step leads from one stage to another. -/
theorem stage_proceed (stage : Stage root.stored process)
    (idle : process.pending = [])
    (next : after ∈ (proceed live root process answer).process) :
    Stage root.stored after := by
  have known : ∀ copy ∈ process.point.loaded, Known root.stored copy :=
    fun copy held => known_of_stage stage held
  cases here : process.point with
  | submitState submission =>
      simp only [proceed, here] at next
      cases next
      rw [idle]
      exact .counted
  | submitExists submission seq =>
      simp only [proceed, here] at next
      split at next
      · cases next
      · split at next
        · cases next
        · rename_i absent
          cases next
          exact .chosen (Option.not_isSome_iff_eq_none.mp absent)
  | submitted item | printed text | released =>
      simp only [proceed, here] at next
      cases next
  | cancelItem id =>
      simp only [proceed, here] at next
      split at next
      · cases next
      · split at next
        · cases next
        · split at next
          · cases next
          · rename_i item found
            cases next
            exact stage_writes
              (keepsOrigin_cancelWrites (known_of_lookup found))
              (by simp [Point.loaded]) (by simp)
  | names purpose =>
      simp only [proceed, here] at next
      cases next
      exact stage_goTo idle (by simp [Point.loaded]) (by simp)
  | load purpose names loaded =>
      rw [here] at known
      cases names with
      | nil =>
          simp only [proceed, here] at next
          exact stage_afterLoad idle known next
      | cons name names =>
          simp only [proceed, here] at next
          split at next
          · exact stage_raise next
          · rename_i item found
            cases next
            refine stage_goTo idle ?_ (by simp)
            intro copy member
            rcases List.mem_append.mp member with before | last
            · exact known copy before
            · rw [List.mem_singleton.mp last]
              exact known_of_lookup found
  | each purpose items =>
      rw [here] at known
      cases items with
      | nil =>
          simp only [proceed, here] at next
          cases next
          cases purpose <;>
            exact stage_goTo idle (by simp [afterPass, Point.loaded])
              (by simp [afterPass])
      | cons item items =>
          simp only [proceed, here] at next
          cases next
          refine stage_writes
            (keepsOrigin_passWrites (known item List.mem_cons_self) purpose)
            ?_ (by simp)
          intro copy member
          exact known copy (List.mem_cons_of_mem _ member)
  | lockExists | dispatch =>
      simp only [proceed, here] at next
      split at next
      all_goals
        cases next
        exact stage_goTo idle (by simp [Point.loaded]) (by simp)
  | lockRead | lockCreate =>
      simp only [proceed, here] at next
      split at next
      · cases next
      · cases next
        exact stage_writes (by simp [Write.KeepsOrigin])
          (by simp [Point.loaded]) (by simp)
  | readCancel | readPause =>
      simp only [proceed, here] at next
      cases next
      exact stage_goTo idle (by simp [Point.loaded]) (by simp)
  | readDrain =>
      simp only [proceed, here] at next
      cases next
      split
      all_goals exact stage_goTo idle (by simp [Point.loaded]) (by simp)
  | poll ids =>
      cases ids with
      | nil =>
          simp only [proceed, here] at next
          cases next
          exact stage_goTo idle (by simp [Point.loaded]) (by simp)
      | cons id ids =>
          simp only [proceed, here] at next
          split at next
          all_goals
            cases next
            exact stage_goTo idle (by simp [Point.loaded]) (by simp)
  | reap id returncode ids =>
      simp only [proceed, here] at next
      split at next
      · exact stage_raise next
      · rename_i item found
        cases next
        exact stage_writes
          (keepsOrigin_saveTerminal (known_of_lookup found) rfl)
          (by simp [Point.loaded]) (by simp)
  | verify item =>
      rw [here] at known
      simp only [proceed, here] at next
      split at next
      · cases next
        exact stage_writes
          (keepsOrigin_saveTerminal (known item List.mem_cons_self) rfl)
          (by simp [Point.loaded]) (by simp)
      · cases next
        exact stage_goTo idle known (by simp)
  | spawn item =>
      rw [here] at known
      simp only [proceed, here] at next
      cases next
      refine stage_writes ?_ (by simp [Point.loaded]) (by simp)
      intro action member
      rw [List.mem_singleton.mp member]
      exact (known item List.mem_cons_self).of_origin rfl

/-- In a submission, from the reading of the counter on. -/
def Point.submits : Point → Bool
  | .submitExists _ _ | .submitted _ => true
  | _ => false

/-- How a reading step leads into a submission or on in one. -/
inductive Forward (root : Root) : Point → Point → Prop where
  | outside {before after : Point} : after.submits = false →
      (∀ submission, after ≠ .submitState submission) →
      Forward root before after
  | counts {submission : Submission} :
      Forward root (.submitState submission)
        (.submitExists submission root.nextSeq)
  | chooses {submission : Submission} {seq : Nat} {answer : Answer} :
      Forward root (.submitExists submission seq)
        (.submitted (submission.item seq answer))

private theorem forward_release
    (next : after ∈ process.release.process) :
    Forward root process.point after.point := by
  cases next
  exact .outside rfl (by simp)

private theorem forward_raise {message : String}
    (next : after ∈ (process.raise message).process) :
    Forward root process.point after.point := by
  unfold Process.raise at next
  split at next
  · exact forward_release next
  · cases next

private theorem forward_afterLoad {purpose : Purpose} {loaded : List Item}
    (next : after ∈ (afterLoad process loaded purpose).process) :
    Forward root process.point after.point := by
  cases purpose with
  | choose | telemetry =>
      simp only [afterLoad] at next
      split at next
      all_goals
        cases next
        exact .outside rfl (by simp)
  | cancelAll | recover | globalCancel =>
      cases next
      exact .outside rfl (by simp)

theorem forward_proceed
    (next : after ∈ (proceed live root process answer).process) :
    Forward root process.point after.point := by
  cases here : process.point with
  | submitState submission =>
      simp only [proceed, here] at next
      cases next
      exact .counts
  | submitExists submission seq =>
      simp only [proceed, here] at next
      split at next
      · cases next
      · split at next
        · cases next
        · cases next
          exact .chooses
  | submitted item | printed text | released =>
      simp only [proceed, here] at next
      cases next
  | cancelItem id =>
      simp only [proceed, here] at next
      split at next
      · cases next
      · split at next
        · cases next
        · split at next
          all_goals
            cases next
          exact .outside rfl (by simp)
  | load purpose names loaded =>
      rw [← here]
      cases names with
      | nil =>
          simp only [proceed, here] at next
          exact forward_afterLoad next
      | cons name names =>
          simp only [proceed, here] at next
          split at next
          · exact forward_raise next
          · cases next
            exact .outside rfl (by simp)
  | each purpose items =>
      cases items with
      | nil =>
          simp only [proceed, here] at next
          cases next
          cases purpose <;> exact .outside rfl (by simp [afterPass])
      | cons item items =>
          simp only [proceed, here] at next
          cases next
          exact .outside rfl (by simp)
  | lockExists | dispatch | lockRead | lockCreate | verify item =>
      simp only [proceed, here] at next
      split at next
      all_goals
        cases next
      all_goals
        exact .outside rfl (by simp)
  | names purpose | readCancel | readPause | spawn item =>
      simp only [proceed, here] at next
      cases next
      exact .outside rfl (by simp)
  | readDrain =>
      simp only [proceed, here] at next
      cases next
      split
      all_goals exact .outside rfl (by simp)
  | poll ids =>
      cases ids with
      | nil =>
          simp only [proceed, here] at next
          cases next
          exact .outside rfl (by simp)
      | cons id ids =>
          simp only [proceed, here] at next
          split at next
          all_goals
            cases next
            exact .outside rfl (by simp)
  | reap id returncode ids =>
      rw [← here]
      simp only [proceed, here] at next
      split at next
      · exact forward_raise next
      · cases next
        exact .outside rfl (by simp)

end Read

theorem Process.submits_of_point {process : Process}
    (outside : process.point.submits = false) : process.submits = none := by
  unfold Process.submits
  split
  · rename_i here
    rw [here] at outside
    cases outside
  · rename_i here
    rw [here] at outside
    cases outside
  · rfl

end PpcLab.Control
