import PpcLab.Explore.Search

/-!
# What a guided search reaches

A guided or adaptive search that ends by itself has evaluated the baseline and
every assignment that differs from a novel one in a single value.  It leaves
values out that are equal to the one they would replace; this is harmless as
long as they are the same JSON, too.
-/

namespace PpcLab.Explore

/-- A change makes another assignment of an assignment. -/
def Replaces (assignment : Fields) (change : Str × Json) : Prop :=
  assignmentKey (Dictionary.assign assignment change) ≠ assignmentKey assignment

/-- The least set with the baseline and the neighbours of every novel case. -/
inductive Demanded (manifest : Manifest) (rows : List Row) : Fields → Prop where
  | baseline : Demanded manifest rows (baseline manifest)
  | replaced {row : Row} {change : Str × Json} :
      row ∈ rows → row.novel → Demanded manifest rows row.assignment →
      change ∈ changes manifest.axes → Replaces row.assignment change →
      Demanded manifest rows (Dictionary.assign row.assignment change)

def Row.key (row : Row) : Str :=
  assignmentKey row.assignment

/-- A case is the first one, or it shows something that no earlier one has
shown. -/
def Shows (before : List Row) (row : Row) : Prop :=
  before = [] ∨ (∃ pc ∈ row.pcs, ∀ earlier ∈ before, pc ∉ earlier.pcs) ∨
    ∀ earlier ∈ before, earlier.behavior ≠ row.behavior

/-- The cases are those that the search has to reach, once each. -/
structure Closed (manifest : Manifest) (rows : List Row) : Prop where
  sound : ∀ row ∈ rows, Demanded manifest rows row.assignment
  complete : ∀ assignment, Demanded manifest rows assignment →
    assignmentKey assignment ∈ rows.map Row.key
  once : (rows.map Row.key).Nodup
  novel : ∀ before row after, rows = before ++ row :: after →
    (row.novel ↔ Shows before row)

/-- Values that are equal to those of a case are the same JSON. -/
def ToldApart (session : Session) (manifest : Manifest) (row : Row) : Prop :=
  ∀ change ∈ changes manifest.axes,
    session.setting.doubles.equal (Json.get row.assignment change.1) change.2 →
    ¬ Replaces row.assignment change

theorem Demanded.mono {manifest : Manifest} {rows more : List Row}
    {assignment : Fields} (within : rows ⊆ more)
    (demanded : Demanded manifest rows assignment) :
    Demanded manifest more assignment := by
  induction demanded with
  | baseline => exact .baseline
  | replaced member novel _ listed replaces induction =>
      exact .replaced (within member) novel induction listed replaces

/-- What an exploration remembers of its rows. -/
structure Recorded (progress : Progress) : Prop where
  keys : ∀ key, key ∈ progress.evaluated ↔ key ∈ progress.rows.map Row.key
  once : (progress.rows.map Row.key).Nodup
  pcs : ∀ pc, pc ∈ progress.seenPcs ↔ ∃ row ∈ progress.rows, pc ∈ row.pcs
  behaviors : ∀ behavior, behavior ∈ progress.seenBehaviors ↔
    ∃ row ∈ progress.rows, row.behavior = behavior
  novel : ∀ before row after, progress.rows = before ++ row :: after →
    (row.novel ↔ Shows before row)

section

variable {session : Session} {baseJob : Fields} {progress : Progress}
  {candidate : Candidate} {row final : Row}

/-- A row shows what its candidate is and whether it is novel. -/
structure Examined (progress : Progress) (candidate : Candidate) (row : Row) :
    Prop where
  assignment : row.assignment = candidate.assignment
  novel : row.novel ↔ progress.rows = [] ∨
    (∃ pc ∈ row.pcs, pc ∉ progress.seenPcs) ∨
    row.behavior ∉ progress.seenBehaviors

private theorem isNovel_iff (pcs seen seenBehaviors : List Str)
    (behavior : Str) (rows : List Row) :
    (!(pcs.filter fun pc => !isAmong seen pc).isEmpty ||
      !isAmong seenBehaviors behavior || rows.isEmpty) = true ↔
      rows = [] ∨ (∃ pc ∈ pcs, pc ∉ seen) ∨ behavior ∉ seenBehaviors := by
  have known (texts : List Str) (text : Str) :
      isAmong texts text = false ↔ text ∉ texts := by
    rw [← Bool.not_eq_true, isAmong_iff]
  have some : (pcs.filter fun pc => !isAmong seen pc).isEmpty = false ↔
      ∃ pc ∈ pcs, pc ∉ seen := by
    simp [known]
  rw [Bool.or_eq_true, Bool.or_eq_true, Bool.not_eq_true', Bool.not_eq_true',
    List.isEmpty_iff, some, known]
  exact or_comm

theorem examined_of_examine
    (examines : examine session baseJob progress candidate = .ok row) :
    Examined progress candidate row := by
  obtain ⟨_, _, examines⟩ := Outcome.bind_eq_ok.mp examines
  obtain ⟨_, _, examines⟩ := Outcome.bind_eq_ok.mp examines
  obtain ⟨response, _, examines⟩ := Outcome.bind_eq_ok.mp examines
  cases response with
  | object response =>
      cases examines
      exact ⟨rfl, isNovel_iff _ _ _ _ _⟩
  | null | bool | int | float | string | array => cases examines

theorem examined_of_promote (examined : Examined progress candidate row)
    (promotes : promote session row = .ok (some final)) :
    Examined progress candidate final := by
  unfold promote at promotes
  split at promotes
  · cases promotes
  · split at promotes
    · obtain ⟨_, _, promotes⟩ := Outcome.bind_eq_ok.mp promotes
      split at promotes
      · cases promotes
        exact ⟨examined.assignment, examined.novel⟩
      · cases promotes
    · cases promotes

/-- What was seen before a row has been shown by an earlier one. -/
theorem shows_iff (recorded : Recorded progress)
    (examined : Examined progress candidate row) :
    row.novel ↔ Shows progress.rows row := by
  rw [examined.novel, Shows]
  simp only [recorded.pcs, recorded.behaviors, not_exists, not_and, ne_eq]

private theorem seen_of_not_novel (examined : Examined progress candidate row)
    (known : ¬ row.novel) :
    (∀ pc ∈ row.pcs, pc ∈ progress.seenPcs) ∧
      row.behavior ∈ progress.seenBehaviors := by
  rw [examined.novel] at known
  push Not at known
  exact known.2

private theorem mem_seenPcs_record (examined : Examined progress candidate row)
    (pc : Str) :
    pc ∈ (progress.record candidate row).seenPcs ↔
      pc ∈ progress.seenPcs ∨ pc ∈ row.pcs := by
  change pc ∈ (if row.novel then row.pcs ++ progress.seenPcs
    else progress.seenPcs) ↔ _
  split
  · rw [List.mem_append, or_comm]
  · rename_i known
    have held := (seen_of_not_novel examined known).1
    constructor
    · exact .inl
    · rintro (seen | here)
      · exact seen
      · exact held pc here

private theorem mem_seenBehaviors_record
    (examined : Examined progress candidate row) (behavior : Str) :
    behavior ∈ (progress.record candidate row).seenBehaviors ↔
      behavior ∈ progress.seenBehaviors ∨ row.behavior = behavior := by
  change behavior ∈ (if row.novel then row.behavior :: progress.seenBehaviors
    else progress.seenBehaviors) ↔ _
  split
  · rw [List.mem_cons, or_comm, eq_comm]
  · rename_i known
    have held := (seen_of_not_novel examined known).2
    constructor
    · exact .inl
    · rintro (seen | rfl)
      · exact seen
      · exact held

theorem recorded_record (recorded : Recorded progress)
    (fresh : ¬ isAmong progress.evaluated (assignmentKey candidate.assignment))
    (examined : Examined progress candidate row) :
    Recorded (progress.record candidate row) := by
  have isKey : row.key = assignmentKey candidate.assignment := by
    rw [Row.key, examined.assignment]
  have rows : (progress.record candidate row).rows = progress.rows ++ [row] := rfl
  rw [isAmong_iff, recorded.keys, ← isKey] at fresh
  constructor
  · intro key
    rw [rows, List.map_append, List.mem_append, ← recorded.keys]
    change key ∈ assignmentKey candidate.assignment :: progress.evaluated ↔ _
    rw [← isKey, List.mem_cons, List.map_singleton, List.mem_singleton]
    exact or_comm
  · rw [rows, List.map_append, List.nodup_append]
    refine ⟨recorded.once, List.nodup_singleton _, ?_⟩
    rintro key held _ new rfl
    exact fresh (List.mem_singleton.mp new ▸ held)
  · intro pc
    rw [mem_seenPcs_record examined, recorded.pcs, rows]
    simp [or_and_right, exists_or]
  · intro behavior
    rw [mem_seenBehaviors_record examined, recorded.behaviors, rows]
    simp [or_and_right, exists_or]
  · intro before other after split
    rw [rows] at split
    rcases List.eq_nil_or_concat after with rfl | ⟨others, last, rfl⟩
    · obtain ⟨rfl, same⟩ := List.append_inj' split rfl
      cases same
      exact shows_iff recorded examined
    · rw [List.concat_eq_append, ← List.cons_append, ← List.append_assoc]
        at split
      obtain ⟨same, _⟩ := List.append_inj' split rfl
      exact recorded.novel before other others same

theorem recorded_evaluate {state next : State} {outcome : Option Row}
    (recorded : Recorded state.progress)
    (result : evaluate session baseJob state candidate = .ok (outcome, next)) :
    Recorded next.progress := by
  cases evaluated_of_evaluate result with
  | repeated => exact recorded
  | kept fresh examines =>
      exact recorded_record recorded fresh (examined_of_examine examines)
  | promoted fresh examines promotes =>
      exact recorded_record recorded fresh
        (examined_of_promote (examined_of_examine examines) promotes)

end

/-- The assignment of a change. -/
def childKey (parent : Row) (change : Str × Json) : Str :=
  assignmentKey (Dictionary.assign parent.assignment change)

/-- Some changes of a row have been offered to a queue. -/
structure Grown (session : Session) (evaluated : List Str) (parent : Row)
    (listed : List (Str × Json)) (queue grown : Queue) : Prop where
  waiting : queue.waiting ⊆ grown.waiting
  queued : queue.queued ⊆ grown.queued
  offered : ∀ candidate ∈ grown.waiting, candidate ∈ queue.waiting ∨
    ∃ change ∈ listed,
      candidate.assignment = Dictionary.assign parent.assignment change ∧
      childKey parent change ∉ evaluated
  covered : ∀ key ∈ grown.queued, key ∈ queue.queued ∨
    ∃ candidate ∈ grown.waiting, assignmentKey candidate.assignment = key
  known : ∀ change ∈ listed,
    session.setting.doubles.equal (Json.get parent.assignment change.1)
        change.2 ∨
      childKey parent change ∈ evaluated ∨
      childKey parent change ∈ grown.queued

section

variable {session : Session} {evaluated : List Str} {parent : Row}
  {listed others : List (Str × Json)} {change : Str × Json}
  {queue grown further : Queue}

theorem Grown.refl : Grown session evaluated parent [] queue queue where
  waiting := List.Subset.refl _
  queued := List.Subset.refl _
  offered _ member := .inl member
  covered _ member := .inl member
  known _ absent := absurd absent List.not_mem_nil

theorem Grown.trans (first : Grown session evaluated parent listed queue grown)
    (second : Grown session evaluated parent others grown further) :
    Grown session evaluated parent (listed ++ others) queue further where
  waiting := List.Subset.trans first.waiting second.waiting
  queued := List.Subset.trans first.queued second.queued
  offered candidate member := by
    rcases second.offered candidate member with earlier | ⟨change, here, fresh⟩
    · rcases first.offered candidate earlier with old | ⟨change, here, fresh⟩
      · exact .inl old
      · exact .inr ⟨change, List.mem_append_left _ here, fresh⟩
    · exact .inr ⟨change, List.mem_append_right _ here, fresh⟩
  covered key member := by
    rcases second.covered key member with earlier | later
    · rcases first.covered key earlier with old | ⟨candidate, held, same⟩
      · exact .inl old
      · exact .inr ⟨candidate, second.waiting held, same⟩
    · exact .inr later
  known change member := by
    rcases List.mem_append.mp member with early | late
    · rcases first.known change early with equal | done | queued
      · exact .inl equal
      · exact .inr (.inl done)
      · exact .inr (.inr (second.queued queued))
    · exact second.known change late

/-- An offer that changes nothing is of a value or an assignment that is
known. -/
private theorem grown_of_known
    (known : session.setting.doubles.equal
        (Json.get parent.assignment change.1) change.2 ∨
      childKey parent change ∈ evaluated ∨
      childKey parent change ∈ queue.queued) :
    Grown session evaluated parent [change] queue queue where
  waiting := List.Subset.refl _
  queued := List.Subset.refl _
  offered _ member := .inl member
  covered _ member := .inl member
  known other member := by
    rw [List.mem_singleton.mp member]
    exact known

theorem grown_offer : Grown session evaluated parent [change] queue
    (offer session evaluated parent queue change) := by
  unfold offer
  split
  · rename_i equal
    exact grown_of_known (.inl equal)
  · dsimp only
    split
    · rename_i known
      rw [Bool.or_eq_true, isAmong_iff, isAmong_iff] at known
      exact grown_of_known (.inr known)
    · rename_i fresh
      rw [Bool.or_eq_true, isAmong_iff, isAmong_iff, not_or] at fresh
      refine ⟨List.subset_append_left _ _, List.subset_cons_self _ _, ?_, ?_, ?_⟩
      · intro candidate member
        rcases List.mem_append.mp member with old | new
        · exact .inl old
        · rw [List.mem_singleton.mp new]
          exact .inr ⟨change, List.mem_singleton_self _, rfl, fresh.1⟩
      · intro key member
        rcases List.mem_cons.mp member with rfl | old
        · exact .inr ⟨_, List.mem_append_right _ (List.mem_singleton_self _),
            rfl⟩
        · exact .inl old
      · intro other member
        rw [List.mem_singleton.mp member]
        exact .inr (.inr List.mem_cons_self)

theorem grown_offers : Grown session evaluated parent listed queue
    (listed.foldl (offer session evaluated parent) queue) := by
  induction listed generalizing queue with
  | nil => exact .refl
  | cons change listed induction => exact grown_offer.trans induction

end

/-- The best candidate and the other ones are those that were there. -/
theorem perm_pick (worse : Candidate → Candidate → Bool) (first : Candidate)
    (others : List Candidate) :
    ((pick worse first others).1 :: (pick worse first others).2).Perm
      (first :: others) := by
  induction others generalizing first with
  | nil => exact .refl _
  | cons second others induction =>
      rw [pick]
      dsimp only
      split
      · exact (List.Perm.swap _ _ _).trans ((induction second).cons first)
      · exact .refl _

/-- What is waiting has to be reached, and what has to be reached is waiting
unless it has been evaluated. -/
structure Pending (session : Session) (manifest : Manifest) (queue : Queue)
    (progress : Progress) : Prop where
  sound : ∀ row ∈ progress.rows,
    Demanded manifest progress.rows row.assignment
  waiting : ∀ candidate ∈ queue.waiting,
    Demanded manifest progress.rows candidate.assignment
  covered : ∀ key ∈ queue.queued, key ∈ progress.evaluated ∨
    ∃ candidate ∈ queue.waiting, assignmentKey candidate.assignment = key
  start : assignmentKey (baseline manifest) ∈ queue.queued
  expanded : ∀ row ∈ progress.rows, row.novel →
    ∀ change ∈ changes manifest.axes,
      session.setting.doubles.equal (Json.get row.assignment change.1)
          change.2 ∨
        childKey row change ∈ progress.evaluated ∨
        childKey row change ∈ queue.queued

variable {session : Session} {manifest : Manifest} {queue : Queue}

/-- The candidate that is evaluated leaves the queue. -/
private theorem covered_of_picked {progress next : Progress}
    {first : Candidate} {others : List Candidate}
    (worse : Candidate → Candidate → Bool)
    (there : queue.waiting = first :: others)
    (covered : ∀ key ∈ queue.queued, key ∈ progress.evaluated ∨
      ∃ candidate ∈ queue.waiting, assignmentKey candidate.assignment = key)
    (more : progress.evaluated ⊆ next.evaluated)
    (done : assignmentKey (pick worse first others).1.assignment ∈
      next.evaluated) :
    ∀ key ∈ queue.queued, key ∈ next.evaluated ∨
      ∃ candidate ∈ (pick worse first others).2,
        assignmentKey candidate.assignment = key := by
  intro key member
  rcases covered key member with early | ⟨candidate, held, rfl⟩
  · exact .inl (more early)
  · rw [there] at held
    rcases List.mem_cons.mp ((perm_pick worse first others).mem_iff.mpr held)
      with rfl | later
    · exact .inl done
    · exact .inr ⟨candidate, later, rfl⟩

/-- What an evaluation that succeeds says about the progress. -/
theorem progress_of_evaluate {baseJob : Fields} {state next : State}
    {candidate : Candidate} {outcome : Option Row}
    (result : evaluate session baseJob state candidate = .ok (outcome, next)) :
    (outcome = none ∧ next = state ∧
        assignmentKey candidate.assignment ∈ state.progress.evaluated) ∨
      ∃ row, outcome = some row ∧ Examined state.progress candidate row ∧
        next.progress = state.progress.record candidate row := by
  cases evaluated_of_evaluate result with
  | repeated known => exact .inl ⟨rfl, rfl, isAmong_iff.mp known⟩
  | kept fresh examines =>
      exact .inr ⟨_, rfl, examined_of_examine examines, rfl⟩
  | promoted fresh examines promotes =>
      exact .inr ⟨_, rfl,
        examined_of_promote (examined_of_examine examines) promotes, rfl⟩

/-- One turn with a new row, some changes of which are offered. -/
private theorem pending_record {progress : Progress} {candidate : Candidate}
    {row : Row} {listed : List (Str × Json)} {rest grown : Queue}
    (pending : Pending session manifest queue progress)
    (examined : Examined progress candidate row)
    (demanded : Demanded manifest progress.rows candidate.assignment)
    (same : rest.queued = queue.queued)
    (fewer : ∀ other ∈ rest.waiting, other ∈ queue.waiting)
    (covered : ∀ key ∈ rest.queued,
      key ∈ (progress.record candidate row).evaluated ∨
        ∃ other ∈ rest.waiting, assignmentKey other.assignment = key)
    (offers : ∀ change ∈ listed, row.novel ∧ change ∈ changes manifest.axes)
    (all : row.novel → listed = changes manifest.axes)
    (grows : Grown session (progress.record candidate row).evaluated row listed
      rest grown) :
    Pending session manifest grown (progress.record candidate row) := by
  have within : progress.rows ⊆ (progress.record candidate row).rows :=
    List.subset_append_left _ _
  have more : progress.evaluated ⊆
      (progress.record candidate row).evaluated :=
    List.subset_cons_self _ _
  have here : row ∈ (progress.record candidate row).rows :=
    List.mem_append_right _ (List.mem_singleton_self _)
  have rowDemanded : Demanded manifest (progress.record candidate row).rows
      row.assignment := by
    rw [examined.assignment]
    exact demanded.mono within
  constructor
  · intro other member
    rcases List.mem_append.mp member with old | new
    · exact (pending.sound other old).mono within
    · rw [List.mem_singleton.mp new]
      exact rowDemanded
  · intro other member
    rcases grows.offered other member with old | ⟨change, inListed, isChild, fresh⟩
    · exact (pending.waiting other (fewer other old)).mono within
    · obtain ⟨novel, isChange⟩ := offers change inListed
      rw [isChild]
      refine .replaced here novel rowDemanded isChange ?_
      intro unchanged
      apply fresh
      rw [childKey, unchanged, examined.assignment]
      exact List.mem_cons_self
  · intro key member
    rcases grows.covered key member with old | new
    · rcases covered key old with done | ⟨other, held, isKey⟩
      · exact .inl done
      · exact .inr ⟨other, grows.waiting held, isKey⟩
    · exact .inr new
  · exact grows.queued (same ▸ pending.start)
  · intro other member novel change isChange
    rcases List.mem_append.mp member with old | new
    · rcases pending.expanded other old novel change isChange with
        equal | done | queued
      · exact .inl equal
      · exact .inr (.inl (more done))
      · exact .inr (.inr (grows.queued (same ▸ queued)))
    · cases List.mem_singleton.mp new
      exact grows.known change (all novel ▸ isChange)

/-- One turn of a search. -/
theorem pending_turn {state next : State} {first : Candidate}
    {others : List Candidate} {outcome : Option Row}
    (worse : Candidate → Candidate → Bool)
    (pending : Pending session manifest queue state.progress)
    (there : queue.waiting = first :: others)
    (result : evaluate session manifest.baseJob state
      (pick worse first others).1 = .ok (outcome, next)) :
    Pending session manifest
      (expand session manifest next.progress
        { queue with waiting := (pick worse first others).2 } outcome)
      next.progress := by
  have perm := perm_pick worse first others
  have inQueue : ∀ other ∈ (pick worse first others).2,
      other ∈ queue.waiting := by
    intro other member
    rw [there]
    exact perm.mem_iff.mp (List.mem_cons_of_mem _ member)
  have picked : (pick worse first others).1 ∈ queue.waiting := by
    rw [there]
    exact perm.mem_iff.mp List.mem_cons_self
  rcases progress_of_evaluate result with
    ⟨rfl, rfl, known⟩ | ⟨row, rfl, examined, recorded⟩
  · have covered := covered_of_picked worse there pending.covered
      (List.Subset.refl _) known
    exact ⟨pending.sound, fun other member =>
      pending.waiting other (inQueue other member), covered, pending.start,
      pending.expanded⟩
  · rw [recorded]
    generalize isNext : state.progress.record (pick worse first others).1 row =
      progress
    have more : state.progress.evaluated ⊆ progress.evaluated :=
      isNext ▸ List.subset_cons_self _ _
    have done : assignmentKey (pick worse first others).1.assignment ∈
        progress.evaluated :=
      isNext ▸ List.mem_cons_self
    have covered := covered_of_picked worse there pending.covered more done
    have demanded := pending.waiting _ picked
    generalize isRest : { queue with waiting := (pick worse first others).2 } =
      rest
    have same : rest.queued = queue.queued := isRest ▸ rfl
    have fewer : ∀ other ∈ rest.waiting, other ∈ queue.waiting :=
      isRest ▸ inQueue
    have left : ∀ key ∈ rest.queued, key ∈ progress.evaluated ∨
        ∃ other ∈ rest.waiting, assignmentKey other.assignment = key :=
      isRest ▸ covered
    subst isNext
    rw [expand]
    split
    · rename_i novel
      exact pending_record pending examined demanded same fewer left
        (fun _ isChange => ⟨novel, isChange⟩) (fun _ => rfl) grown_offers
    · rename_i known
      exact pending_record pending examined demanded same fewer left
        (fun _ absent => absurd absent List.not_mem_nil)
        (fun novel => absurd novel known) .refl

/-- Nothing is waiting any more. -/
theorem closed_of_pending {progress : Progress}
    (pending : Pending session manifest queue progress)
    (recorded : Recorded progress) (empty : queue.waiting = [])
    (apart : ∀ row ∈ progress.rows, row.novel →
      ToldApart session manifest row) :
    Closed manifest progress.rows := by
  have done {key : Str} (queued : key ∈ queue.queued) :
      key ∈ progress.rows.map Row.key := by
    rcases pending.covered key queued with evaluated | ⟨candidate, waits, _⟩
    · exact (recorded.keys key).mp evaluated
    · rw [empty] at waits
      exact absurd waits List.not_mem_nil
  refine ⟨pending.sound, ?_, recorded.once, recorded.novel⟩
  intro assignment demanded
  cases demanded with
  | baseline => exact done pending.start
  | @replaced row change member novel _ isChange replaces =>
      rcases pending.expanded row member novel change isChange with
        equal | evaluated | queued
      · exact absurd replaces (apart row member novel change isChange equal)
      · exact (recorded.keys _).mp evaluated
      · exact done queued

theorem closed_of_search {worse : Progress → Candidate → Candidate → Bool}
    {stops : Progress → Bool} {state final : State}
    (pending : Pending session manifest queue state.progress)
    (recorded : Recorded state.progress)
    (ran : search session manifest worse stops queue state =
      .ok (false, final))
    (space : final.progress.rows.length < manifest.maxCases)
    (apart : ∀ row ∈ final.progress.rows, row.novel →
      ToldApart session manifest row) :
    Closed manifest final.progress.rows := by
  induction queue, state using search.induct session manifest worse stops with
  | case1 queue state empty =>
      rw [search_empty empty] at ran
      cases ran
      exact closed_of_pending pending recorded empty apart
  | case2 queue state first others waiting space picked failure =>
      rename_i failed
      rw [search_cons waiting space, failed] at ran
      cases ran
  | case3 queue state first others waiting space picked row next succeeded =>
      rename_i stop
      rw [search_cons waiting space, succeeded] at ran
      have here := (if_pos stop).symm.trans ran
      cases here
  | case4 queue state first others waiting space picked row next succeeded
      stop =>
      rename_i induction
      rw [search_cons waiting space, succeeded] at ran
      have rest := (if_neg stop).symm.trans ran
      exact induction (pending_turn _ pending waiting succeeded)
        (recorded_evaluate recorded succeeded) rest
  | case5 queue state first others waiting full =>
      rw [search_full full] at ran
      cases ran
      exact absurd space full

theorem pending_start : Pending session manifest (Queue.start manifest)
    (Progress.start manifest.paths) where
  sound _ absent := absurd absent List.not_mem_nil
  waiting candidate member := by
    rw [List.mem_singleton.mp member]
    exact .baseline
  covered key member := by
    rw [List.mem_singleton.mp member]
    exact .inr ⟨_, List.mem_singleton_self _, rfl⟩
  start := List.mem_singleton_self _
  expanded _ absent := absurd absent List.not_mem_nil

theorem recorded_start : Recorded (Progress.start manifest.paths) where
  keys key := by simp [Progress.start]
  once := List.nodup_nil
  pcs pc := by simp [Progress.start]
  behaviors behavior := by simp [Progress.start]
  novel before row after split := by simp [Progress.start] at split

/-- A guided or adaptive exploration that neither stops nor runs out of cases
has evaluated what it has to reach, if it never leaves out a value that is
equal to the one it would replace and yet not the same JSON. -/
theorem explore_closes {cases : Cases} {final : State}
    (strategy : manifest.strategy ≠ .cartesian)
    (ran : explore session manifest cases = .ok (false, final))
    (space : final.progress.rows.length < manifest.maxCases)
    (apart : ∀ row ∈ final.progress.rows, row.novel →
      ToldApart session manifest row) :
    Closed manifest final.progress.rows := by
  unfold explore at ran
  cases isStrategy : manifest.strategy with
  | cartesian => exact absurd isStrategy strategy
  | guided =>
      rw [isStrategy] at ran
      exact closed_of_search pending_start recorded_start ran space apart
  | adaptive =>
      rw [isStrategy] at ran
      exact closed_of_search pending_start recorded_start ran space apart

/-- A laboratory whose answers are all the same. -/
private def monotone : Session where
  setting := ⟨.ascii, .none, fun _ => .zero, fun _ _ => .zero⟩
  files := ⟨some, fun _ => true, fun _ => 0, fun _ => []⟩
  base := str "/lab"
  root := str "/lab"
  worker _ _ := .ok (.object [(str "ok", .bool true)])
  promotion := none

private theorem rate_bounds :
    Doubles.notAbove 0 0 ∧ Doubles.notAbove 0 Doubles.one := by
  decide +kernel

/-- A guided exploration of a register that begins with one. -/
def registerManifest (others : List Json) : Manifest where
  baseJob := [(str "schema", .string (str "ppc-lab-job-v1"))]
  axes := [⟨str "registers.r3", .int 1 :: others, by decide, by decide,
    List.cons_ne_nil _ _⟩]
  strategy := .guided
  plateau := ⟨8, 0, 8, by decide, by decide, rate_bounds.1, rate_bounds.2⟩
  maxCases := 64
  isJob := by decide
  axes_ne_nil := List.cons_ne_nil _ _
  distinct := List.nodup_singleton _
  maxCases_pos := by decide
  maxCases_le := by decide

/-- The first turns of a guided search, if it ends with them. -/
private def endsWithin (others : List Json) :
    Nat → Queue → State → Option State
  | 0, _, _ => none
  | count + 1, queue, state =>
      match queue.waiting with
      | [] => some state
      | first :: rest =>
          if state.progress.rows.length < (registerManifest others).maxCases then
            match evaluate monotone (registerManifest others).baseJob state
                (pick (fun _ _ => false) first rest).1 with
            | .error _ => none
            | .ok (row, next) =>
                endsWithin others count
                  (expand monotone (registerManifest others) next.progress
                    { queue with
                      waiting := (pick (fun _ _ => false) first rest).2 } row)
                  next
          else none

private theorem search_of_endsWithin {others : List Json} {count : Nat}
    {queue : Queue} {state final : State}
    (ends : endsWithin others count queue state = some final) :
    search monotone (registerManifest others) (fun _ _ _ => false)
      (fun _ => false) queue state = .ok (false, final) := by
  induction count generalizing queue state with
  | zero => cases ends
  | succ count induction =>
      rw [endsWithin] at ends
      split at ends
      · rename_i empty
        cases ends
        exact search_empty empty
      · rename_i first rest waiting
        obtain ⟨space, ends⟩ := Option.ite_none_right_eq_some.mp ends
        rw [search_cons waiting space]
        split at ends
        · cases ends
        · rename_i row next ran
          rw [ran]
          exact induction ends

/-- Within three turns the search has examined some assignments. -/
private def examines (others : List Json) (assignments : List Fields) : Bool :=
  (endsWithin others 3 (Queue.start (registerManifest others))
      ⟨.start (registerManifest others).paths, Keyed.empty⟩).any fun final =>
    decide (final.progress.rows.map (·.assignment) = assignments) &&
      (final.progress.rows.head?).any (·.novel)

private theorem explore_of_examines {others : List Json}
    {assignments : List Fields} (seen : examines others assignments = true) :
    ∃ final, explore monotone (registerManifest others) Keyed.empty =
        .ok (false, final) ∧
      final.progress.rows.map (·.assignment) = assignments ∧
      ∃ row, final.progress.rows.head? = some row ∧ row.novel := by
  obtain ⟨final, ends, seen⟩ := (Option.any_eq_true _ _).mp seen
  rw [Bool.and_eq_true, decide_eq_true_eq, Option.any_eq_true] at seen
  exact ⟨final, search_of_endsWithin ends, seen.1, seen.2⟩

private def registerOne : Fields :=
  [(str "registers.r3", .int 1)]

private def registerTwo : Fields :=
  [(str "registers.r3", .int 2)]

/-- A register with the values one and two. -/
theorem explore_closes_two :
    ∃ final, explore monotone (registerManifest [.int 2]) Keyed.empty =
        .ok (false, final) ∧
      final.progress.rows.map (·.assignment) = [registerOne, registerTwo] ∧
      Closed (registerManifest [.int 2]) final.progress.rows := by
  have seen : examines [.int 2] [registerOne, registerTwo] = true := by
    decide +kernel
  obtain ⟨final, ran, assignments, _⟩ := explore_of_examines seen
  refine ⟨final, ran, assignments, explore_closes (by decide) ran ?_ ?_⟩
  · have two := congrArg List.length assignments
    rw [List.length_map] at two
    rw [two]
    decide
  · intro row member _ change isChange equal
    have apart : [registerOne, registerTwo].all (fun assignment =>
        (changes (registerManifest [.int 2]).axes).all fun change =>
          !monotone.setting.doubles.equal (Json.get assignment change.1)
            change.2 ||
          assignmentKey (Dictionary.assign assignment change) ==
            assignmentKey assignment) = true := by
      decide +kernel
    have listed : row.assignment ∈ [registerOne, registerTwo] := by
      rw [← assignments]
      exact List.mem_map_of_mem member
    have same := List.all_eq_true.mp
      (List.all_eq_true.mp apart _ listed) change isChange
    rw [equal, Bool.not_true, Bool.false_or, beq_iff_eq] at same
    exact not_not_intro same

/-- A register that is to be one and true: both are equal, so that the second
value is left out. -/
theorem explore_leaves_out_true :
    ∃ final, explore monotone (registerManifest [.bool true]) Keyed.empty =
        .ok (false, final) ∧
      final.progress.rows.length <
        (registerManifest [.bool true]).maxCases ∧
      ¬ Closed (registerManifest [.bool true]) final.progress.rows := by
  have seen : examines [.bool true] [registerOne] = true := by
    decide +kernel
  obtain ⟨final, ran, assignments, only, first, novel⟩ :=
    explore_of_examines seen
  obtain ⟨rest, rows⟩ := List.head?_eq_some_iff.mp first
  rw [rows, List.map_cons, List.cons_eq_cons, List.map_eq_nil_iff]
    at assignments
  obtain ⟨isOne, rfl⟩ := assignments
  refine ⟨final, ran, ?_, ?_⟩
  · rw [rows]
    exact (by decide : 1 < 64)
  · intro closed
    have here : only ∈ final.progress.rows := by
      rw [rows]
      exact List.mem_singleton_self _
    have differs : assignmentKey (Dictionary.assign registerOne
        (str "registers.r3", .bool true)) ≠ assignmentKey registerOne := by
      decide +kernel
    have listed : (str "registers.r3", Json.bool true) ∈
        changes (registerManifest [.bool true]).axes := by
      decide +kernel
    have demanded := Demanded.replaced here novel
      (closed.sound only here) listed (isOne ▸ differs)
    have reached := closed.complete _ demanded
    rw [rows, List.map_singleton, List.mem_singleton, Row.key, isOne] at reached
    exact differs reached

end PpcLab.Explore
