import PpcLab.Control.Sections

/-!
# Reading in a section

A reading step of a process whose copies are the stored ones leads to writes
that fit the queue, and to copies that are again the stored ones.
-/

namespace PpcLab.Control

/-- In the loop of a supervisor, or in the recovery before it. -/
def Point.atWork (point : Point) : Bool :=
  point.supervises && point != .released

/-- No scheduler was started yet. -/
def Point.rests : Point → Bool
  | .names purpose | .load purpose _ _ | .each purpose _ =>
      purpose == .cancelAll || purpose == .recover
  | .readCancel | .readPause | .readDrain | .poll _ | .reap _ _ _
  | .dispatch | .verify _ | .spawn _ | .released => false
  | _ => true

/-- The schedulers a supervisor is going to look after in this round. -/
def Point.polled : Point → List String
  | .poll ids => ids
  | .reap id _ ids => id :: ids
  | _ => []

/-- No item is loaded twice, and only queued items are started. -/
def Point.Tidy : Point → Prop
  | .load _ unread loaded => (loaded.map (·.id) ++ unread).Nodup
  | .each _ items => (items.map (·.id)).Nodup
  | .verify item | .spawn item => item.status = .queued
  | _ => True

/-- The names of the items that are still to be loaded. -/
def Point.unread : Point → List String
  | .load _ unread _ => unread
  | _ => []

/-- The item of a running scheduler is running, or is about to be. -/
def Runs (stored : Store) (pending : List Write) (id : String) : Prop :=
  (id ∉ savedIds pending ∧
      ∃ item, stored id = some item ∧ item.status = .running) ∨
    ∃ seen item, pending = [.saveItem seen item] ∧ item.id = id ∧
      item.status = .running

/-- What is known of a process whose sections nobody disturbs. -/
structure Proper (stored : Store) (process : Process) : Prop where
  legal : Legal (!process.point.supervises) stored process.pending
  current : ∀ copy ∈ process.point.copies, stored copy.id = some copy
  apart : ∀ copy ∈ process.point.copies, copy.id ∉ savedIds process.pending
  tidy : process.point.Tidy
  polled : process.point.polled.Nodup ∧
    ∀ id ∈ process.point.polled, id ∈ process.supervisor.active
  resting : process.point.rests → process.supervisor.active = []
  active : process.point.atWork → process.supervisor.active.Nodup ∧
    ∀ id ∈ process.supervisor.active, Runs stored process.pending id
  released : process.point = .released → savedIds process.pending = []
  listed : ∀ name ∈ process.point.unread, (stored name).isSome

/-- The process after a reading step fits the queue, and holds nothing but
what it held or took. -/
def Onward (root : Root) (process : Process) (next : Next) : Prop :=
  ∀ after ∈ next.process, Proper root.stored after ∧
    ∀ id ∈ after.holds, id ∈ process.holds ∨ id ∈ takes root process.point

section Read

variable {live : Pid → Bool} {root : Root} {process : Process}
  {answer : Answer}

private theorem onward_leave (result : Result) :
    Onward root process (.leave result) := by
  rintro after ⟨⟩

/-- The supervisor gives the lock back. -/
private theorem onward_release : Onward root process process.release := by
  rintro after ⟨⟩
  constructor
  · refine ⟨⟨trivial, trivial⟩, ?_, ?_, ?_, ?_, ?_, ?_, fun _ => rfl, ?_⟩
    · intro copy member
      cases member
    · intro copy member
      cases member
    · exact trivial
    · simp [Point.polled]
    · intro resting
      cases resting
    · intro working
      cases working
    · simp [Point.unread]
  · intro id member
    cases member

private theorem onward_raise (message : String) :
    Onward root process (process.raise message) := by
  unfold Process.raise
  split
  · exact onward_release
  · exact onward_leave _

theorem nodup_queuePaths (root : Root) : root.queuePaths.Nodup :=
  (List.perm_insertionSort _ _).nodup_iff.mpr root.queue.nodup

/-- A running item is none that is about to be saved. -/
private theorem runs_of_other {stored : Store} {pending : List Write}
    {item : Item} {id : String} (current : stored item.id = some item)
    (stopped : item.status ≠ .running)
    (saved : ∀ other ∈ savedIds pending, other = item.id)
    (running : ∃ found, stored id = some found ∧ found.status = .running) :
    Runs stored pending id := by
  refine .inl ⟨?_, running⟩
  intro member
  rw [saved id member] at running
  obtain ⟨found, stored, status⟩ := running
  rw [current] at stored
  cases stored
  exact stopped status

theorem isTerminal_finishStatus (item : Item) (globalCancel : Bool)
    (returncode : Int) (schedulerStatus : Option String) :
    (finishStatus item globalCancel returncode
      schedulerStatus).isTerminal := by
  unfold finishStatus
  split
  · rfl
  · split <;> rfl

/-- An open item that a supervisor changes. -/
private theorem moves_supervisor {seen item : Item} (same : item.id = seen.id)
    (open_ : seen.status.isTerminal = false) : Moves false seen item := by
  refine ⟨same, ?_, ?_, ?_⟩
  · intro terminal
    rw [open_] at terminal
    cases terminal
  · intro client
    cases client
  · intro client
    cases client

section Proper

variable (proper : Proper root.stored process)

include proper

/-- A client has computed what it writes. -/
private theorem onward_client
    (resting : process.point.rests) {pending : List Write} {point : Point}
    (legal : Legal true root.stored pending)
    (taken : ∀ id ∈ savedIds pending, id ∈ takes root process.point)
    (noCopies : point.copies = []) (tidy : point.Tidy)
    (unpolled : point.polled = []) (client : point.supervises = false)
    (unlisted : point.unread = []) :
    Onward root process (process.writeThen pending point) := by
  have inactive := proper.resting resting
  rintro after ⟨⟩
  constructor
  · refine ⟨?_, ?_, ?_, tidy, ?_, fun _ => inactive, ?_, ?_,
      by simp [unlisted]⟩
    · rw [client]
      exact legal
    · simp [noCopies]
    · simp [noCopies]
    · simp [unpolled]
    · intro working
      simp [Point.atWork, client] at working
    · intro done
      have released : point = .released := done
      rw [released] at client
      cases client
  · intro id member
    right
    apply taken id
    simpa [Process.holds, noCopies] using member

private theorem onward_cancel
    {id : String} {item : Item} {text : String} (valid : validateId id)
    (here : process.point = .cancelItem id)
    (found : root.queue.lookup id = some item) :
    Onward root process
      (process.writeThen (cancelWrites item answer) (.printed text)) := by
  have sameId : item.id = id := Keyed.key_of_lookup found
  have stored : root.stored id = some item := found
  apply onward_client proper
  · rw [here]
    rfl
  · apply legal_cancelWrites
    rw [sameId]
    exact stored
  · intro other member
    obtain ⟨same, open_⟩ := savedIds_cancelWrites member
    simp [here, takes, valid, stored, open_, same, sameId]
  · rfl
  · exact trivial
  · rfl
  · rfl
  · rfl

private theorem onward_submit {submission : Submission} {seq : Nat}
    (here : process.point = .submitExists submission seq)
    (valid : validateId (submission.itemId seq))
    (absent : root.stored (submission.itemId seq) = none) :
    Onward root process
      (process.writeThen
        [.saveItem none (submission.item seq answer), .saveControl (seq + 1)]
        (.submitted (submission.item seq answer))) := by
  apply onward_client proper
  · rw [here]
    rfl
  · refine ⟨⟨absent, ?_, fun _ => rfl⟩, trivial, trivial⟩
    rintro old ⟨⟩
  · intro id member
    have same : id = submission.itemId seq := by
      simpa [savedIds, Write.savedId, Submission.item, eq_comm] using member
    simp [here, takes, valid, absent, same]
  · rfl
  · exact trivial
  · rfl
  · rfl
  · rfl

private theorem onward_submitExists {submission : Submission} {seq : Nat}
    (here : process.point = .submitExists submission seq) :
    Onward root process (proceed live root process answer) := by
  simp only [proceed, here]
  split
  · exact onward_leave _
  · rename_i valid
    split
    · exact onward_leave _
    · rename_i absent
      exact onward_submit proper here (by simpa using valid)
        (by simpa [Root.stored] using absent)

private theorem onward_cancelItem {id : String}
    (here : process.point = .cancelItem id) :
    Onward root process (proceed live root process answer) := by
  simp only [proceed, here]
  split
  · exact onward_leave _
  · split
    · exact onward_leave _
    · rename_i valid
      split
      · exact onward_leave _
      · rename_i item found
        exact onward_cancel proper (by simpa using valid) here found

private theorem onward_lockRead (here : process.point = .lockRead) :
    Onward root process (proceed live root process answer) := by
  simp only [proceed, here]
  split
  · exact onward_leave _
  · apply onward_client proper
    · rw [here]
      rfl
    · exact ⟨trivial, trivial⟩
    · intro id member
      cases member
    · rfl
    · exact trivial
    · rfl
    · rfl
    · rfl

/-- The lock is created by a process that has yet to start anything. -/
private theorem onward_lockCreate (here : process.point = .lockCreate) :
    Onward root process (proceed live root process answer) := by
  have inactive := proper.resting (by rw [here]; rfl)
  simp only [proceed, here]
  split
  · exact onward_leave _
  · rintro after ⟨⟩
    constructor
    · refine ⟨⟨trivial, trivial⟩, ?_, ?_, ?_, ?_, fun _ => inactive, ?_, ?_,
        by simp [Point.unread]⟩
      · intro copy member
        cases member
      · intro copy member
        cases member
      · exact trivial
      · simp [Point.polled]
      · intro _
        simp [inactive]
      · intro done
        cases done
    · intro id member
      cases member

variable (idle : process.pending = [])

include idle

/-- Every running scheduler of an idle process has a running item. -/
private theorem running_of_active (working : process.point.atWork)
    {id : String} (member : id ∈ process.supervisor.active) :
    ∃ item, root.stored id = some item ∧ item.status = .running := by
  rcases (proper.active working).2 id member with ⟨_, running⟩ | starting
  · exact running
  · obtain ⟨seen, item, pending, _⟩ := starting
    rw [idle] at pending
    cases pending

/-- A step that only moves on. -/
private theorem proper_moved {point : Point} {supervisor : Supervisor}
    (sameActive : supervisor.active = process.supervisor.active)
    (current : ∀ copy ∈ point.copies, root.stored copy.id = some copy)
    (tidy : point.Tidy)
    (polled : point.polled.Nodup ∧
      ∀ id ∈ point.polled, id ∈ process.supervisor.active)
    (rests : point.rests → process.point.rests)
    (work : point.atWork → process.point.atWork ∨ process.point.rests)
    (listed : ∀ name ∈ point.unread, (root.stored name).isSome) :
    Proper root.stored { pending := process.pending, point, supervisor } := by
  refine ⟨?_, current, ?_, tidy, ?_, ?_, ?_, ?_, listed⟩
  · rw [idle]
    exact trivial
  · intro copy _
    simp [idle, savedIds]
  · rw [sameActive]
    exact polled
  · intro resting
    rw [sameActive]
    exact proper.resting (rests resting)
  · intro working
    rw [sameActive]
    rcases work working with before | resting
    · exact proper.active before
    · simp [proper.resting resting]
  · intro _
    simp [idle, savedIds]

/-- A step that only looks at something and moves on. -/
private theorem onward_look {point : Point} {supervisor : Supervisor}
    (sameActive : supervisor.active = process.supervisor.active)
    (noCopies : point.copies = []) (tidy : point.Tidy)
    (polled : point.polled.Nodup ∧
      ∀ id ∈ point.polled, id ∈ process.supervisor.active)
    (rests : point.rests → process.point.rests)
    (work : point.atWork → process.point.atWork ∨ process.point.rests)
    (listed : ∀ name ∈ point.unread, (root.stored name).isSome) :
    Onward root process
      (.go { pending := process.pending, point, supervisor }) := by
  rintro after ⟨⟩
  constructor
  · refine proper_moved proper idle sameActive ?_ tidy polled rests work listed
    simp [noCopies]
  · intro id member
    simp [Process.holds, idle, noCopies, savedIds] at member

private theorem onward_goTo {point : Point}
    (noCopies : point.copies = []) (tidy : point.Tidy)
    (unpolled : point.polled = [])
    (rests : point.rests → process.point.rests)
    (work : point.atWork → process.point.atWork ∨ process.point.rests)
    (listed : ∀ name ∈ point.unread, (root.stored name).isSome) :
    Onward root process (process.goTo point) := by
  refine onward_look proper idle rfl noCopies tidy ?_ rests work listed
  simp [unpolled]

/-- A step inside the loop of a supervisor. -/
private theorem onward_loop (working : process.point.atWork)
    {point : Point} {supervisor : Supervisor}
    (sameActive : supervisor.active = process.supervisor.active)
    (noCopies : point.copies = []) (tidy : point.Tidy)
    (polled : point.polled.Nodup ∧
      ∀ id ∈ point.polled, id ∈ process.supervisor.active)
    (started : point.rests = false) (unlisted : point.unread = []) :
    Onward root process
      (.go { pending := process.pending, point, supervisor }) := by
  refine onward_look proper idle sameActive noCopies tidy polled ?_ ?_ ?_
  · intro resting
    rw [started] at resting
    cases resting
  · intro _
    exact .inl working
  · simp [unlisted]

private theorem onward_names {purpose : Purpose}
    (here : process.point = .names purpose) :
    Onward root process (process.goTo (.load purpose root.queuePaths [])) := by
  apply onward_goTo proper idle
  · rfl
  · exact nodup_queuePaths root
  · rfl
  · rw [here]
    exact id
  · rw [here]
    exact Or.inl
  · intro name member
    rw [Point.unread, Root.queuePaths, List.mem_insertionSort] at member
    exact Keyed.mem_keys_iff.mp member

/-- One more item is loaded. -/
private theorem onward_load {purpose : Purpose} {name : String}
    {names : List String} {loaded : List Item} {item : Item}
    (here : process.point = .load purpose (name :: names) loaded)
    (found : root.queue.lookup name = some item) :
    Onward root process
      (process.goTo (.load purpose names (loaded ++ [item]))) := by
  have sameName : item.id = name := Keyed.key_of_lookup found
  have loadedCurrent := proper.current
  have tidy := proper.tidy
  have listed := proper.listed
  rw [here] at loadedCurrent tidy listed
  rintro after ⟨⟩
  constructor
  · refine proper_moved proper idle rfl ?_ ?_ ?_ ?_ ?_ ?_
    · intro copy member
      obtain ⟨member, acts⟩ := List.mem_filter.mp member
      rcases List.mem_append.mp member with before | last
      · exact loadedCurrent copy (List.mem_filter.mpr ⟨before, acts⟩)
      · rw [List.mem_singleton.mp last, sameName]
        exact found
    · simpa [Point.Tidy, sameName] using tidy
    · exact ⟨List.nodup_nil, by simp [Point.polled]⟩
    · rw [here]
      exact id
    · rw [here]
      exact Or.inl
    · intro other member
      exact listed other (List.mem_cons_of_mem _ member)
  · intro id member
    rw [Process.holds, idle] at member
    obtain ⟨copy, held, same⟩ := List.mem_map.mp member
    obtain ⟨held, acts⟩ := List.mem_filter.mp held
    rcases List.mem_append.mp held with before | last
    · left
      rw [Process.holds, idle, here]
      exact List.mem_map.mpr ⟨copy, List.mem_filter.mpr ⟨before, acts⟩, same⟩
    · right
      rw [List.mem_singleton] at last
      subst last
      have stored : root.stored name = some copy := found
      simp [takes, here, stored, acts, ← same, sameName]

/-- The loaded items are put to their use. -/
private theorem onward_afterLoad {purpose : Purpose} {loaded : List Item}
    (here : process.point = .load purpose [] loaded) :
    Onward root process (afterLoad process loaded purpose) := by
  have loadedCurrent := proper.current
  have tidy := proper.tidy
  rw [here] at loadedCurrent tidy
  have pass : purpose ≠ .choose → purpose ≠ .telemetry →
      Onward root process (process.goTo (.each purpose loaded)) := by
    intro notChoose notTelemetry
    rintro after ⟨⟩
    constructor
    · refine proper_moved proper idle rfl loadedCurrent ?_ ?_ ?_ ?_ ?_
      · simpa [Point.Tidy] using tidy
      · exact ⟨List.nodup_nil, by simp [Point.polled]⟩
      · rw [here]
        exact id
      · rw [here]
        exact Or.inl
      · simp [Point.unread]
    · intro id member
      left
      rw [Process.holds, here]
      exact member
  cases purpose with
  | choose =>
      simp only [afterLoad]
      split
      · refine onward_goTo proper idle rfl ?_ rfl ?_ ?_ ?_
        · exact trivial
        · rw [here]
          exact id
        · rw [here]
          exact Or.inl
        · simp [Point.unread]
      · rename_i item chosen
        have picked : item ∈ loaded.filter (·.status == .queued) :=
          least_mem chosen
        have queued : item.status = .queued := by
          simpa using (List.mem_filter.mp picked).2
        rintro after ⟨⟩
        constructor
        · refine proper_moved proper idle rfl ?_ queued ?_ ?_ ?_ ?_
          · intro copy member
            rw [List.mem_singleton.mp member]
            exact loadedCurrent item picked
          · exact ⟨List.nodup_nil, by simp [Point.polled]⟩
          · intro resting
            cases resting
          · rw [here]
            exact Or.inl
          · simp [Point.unread]
        · intro id member
          left
          rw [Process.holds, idle] at member ⊢
          rw [here]
          have same : id = item.id := by
            simpa [savedIds, Point.copies] using member
          exact List.mem_map.mpr ⟨item, picked, same.symm⟩
  | telemetry =>
      simp only [afterLoad]
      split
      · exact onward_release
      · refine onward_goTo proper idle rfl ?_ rfl ?_ ?_ ?_
        · exact trivial
        · intro resting
          cases resting
        · rw [here]
          exact Or.inl
        · simp [Point.unread]
  | cancelAll | recover | globalCancel =>
      apply pass
      · simp
      · simp

/-- The next item of a pass over the queue. -/
private theorem onward_each {purpose : Purpose} {item : Item}
    {items : List Item} (here : process.point = .each purpose (item :: items)) :
    Onward root process
      (process.writeThen (passWrites live item answer purpose)
        (.each purpose items)) := by
  have allCurrent := proper.current
  have tidy := proper.tidy
  rw [here] at allCurrent tidy
  have tidyItems := List.nodup_cons.mp tidy
  have itemCurrent : purpose.acts item → root.stored item.id = some item := by
    intro acts
    apply allCurrent item
    exact List.mem_filter.mpr ⟨List.mem_cons_self, acts⟩
  rintro after ⟨⟩
  constructor
  · refine ⟨legal_passWrites itemCurrent, ?_, ?_, tidyItems.2, ?_, ?_, ?_, ?_,
      by simp [Point.unread]⟩
    · intro copy member
      obtain ⟨member, acts⟩ := List.mem_filter.mp member
      apply allCurrent copy
      exact List.mem_filter.mpr ⟨List.mem_cons_of_mem _ member, acts⟩
    · intro copy member saved
      obtain ⟨member, _⟩ := List.mem_filter.mp member
      have same : copy.id = item.id := (savedIds_passWrites saved).1
      exact tidyItems.1 (List.mem_map.mpr ⟨copy, member, same⟩)
    · simp [Point.polled]
    · intro resting
      apply proper.resting
      rw [here]
      exact resting
    · intro working
      have before : process.point.atWork := by
        rw [here]
        exact working
      refine ⟨(proper.active before).1, ?_⟩
      intro id member
      by_cases recovering : purpose = .recover
      · have empty := proper.resting (by rw [here, recovering]; rfl)
        rw [empty] at member
        cases member
      · have running := running_of_active proper idle before member
        by_cases acts : purpose.acts item
        · refine runs_of_other (itemCurrent acts) ?_ ?_ running
          · intro status
            cases purpose <;> simp_all [Purpose.acts]
          · intro other saved
            exact (savedIds_passWrites saved).1
        · refine .inl ⟨?_, running⟩
          intro saved
          exact acts (savedIds_passWrites saved).2
    · intro done
      cases done
  · intro id member
    left
    rw [Process.holds, here, idle]
    rcases List.mem_append.mp member with saved | copied
    · obtain ⟨same, acts⟩ := savedIds_passWrites saved
      rw [same]
      refine List.mem_map_of_mem (List.mem_filter.mpr ⟨?_, acts⟩)
      exact List.mem_cons_self
    · obtain ⟨copy, member, same⟩ := List.mem_map.mp copied
      obtain ⟨member, acts⟩ := List.mem_filter.mp member
      refine List.mem_map.mpr ⟨copy, List.mem_filter.mpr ⟨?_, acts⟩, same⟩
      exact List.mem_cons_of_mem _ member

private theorem onward_afterPass {purpose : Purpose}
    (here : process.point = .each purpose []) :
    Onward root process
      (process.goTo (afterPass process.supervisor purpose)) := by
  cases purpose with
  | globalCancel =>
      have working : process.point.atWork := by
        rw [here]
        rfl
      rintro after ⟨⟩
      constructor
      · refine proper_moved proper idle rfl ?_ trivial ?_ ?_ ?_ ?_
        · intro copy member
          cases member
        · exact ⟨(proper.active working).1, fun id member => member⟩
        · intro resting
          cases resting
        · intro _
          exact .inl working
        · simp [afterPass, Point.unread]
      · intro id member
        simp [Process.holds, idle, savedIds, afterPass, Point.copies] at member
  | cancelAll | recover | choose | telemetry =>
      refine onward_goTo proper idle rfl ?_ rfl ?_ ?_ ?_
      · exact trivial
      · rw [here]
        simp [afterPass, Point.rests]
      · rw [here]
        simp [afterPass, Point.atWork, Point.supervises, Point.rests]
      · simp [afterPass, Point.unread]

/-- The item of a scheduler that has ended is a running one. -/
theorem running_of_reap {id : String} {returncode : Int}
    {ids : List String} {item : Item}
    (here : process.point = .reap id returncode ids)
    (found : root.queue.lookup id = some item) : item.status = .running := by
  have working : process.point.atWork := by
    rw [here]
    rfl
  have polled := proper.polled
  rw [here] at polled
  obtain ⟨other, isStored, status⟩ := running_of_active proper idle working
    (polled.2 id List.mem_cons_self)
  have same : some other = some item := isStored.symm.trans found
  cases same
  exact status

/-- The scheduler of an item has ended. -/
private theorem onward_reap {id : String} {returncode : Int}
    {ids : List String} {item : Item}
    (here : process.point = .reap id returncode ids)
    (found : root.queue.lookup id = some item) :
    Onward root process
      (.go
        { pending := saveTerminal item
            (finished item process.supervisor.globalCancel returncode answer)
            answer
          point := .poll ids
          supervisor :=
            { process.supervisor with
              active := process.supervisor.active.erase id } }) := by
  have sameId : item.id = id := Keyed.key_of_lookup found
  have stored : root.stored item.id = some item := by
    rw [sameId]
    exact found
  have working : process.point.atWork := by
    rw [here]
    rfl
  have polled := proper.polled
  rw [here] at polled
  have distinct := List.nodup_cons.mp polled.1
  have activeNodup := (proper.active working).1
  have running := running_of_reap proper idle here found
  have saved : ∀ other ∈ savedIds (saveTerminal item
      (finished item process.supervisor.globalCancel returncode answer)
      answer), other = id := by
    intro other member
    exact (savedIds_saveTerminal member).trans sameId
  rintro after ⟨⟩
  constructor
  · refine ⟨?_, ?_, ?_, trivial, ⟨distinct.2, ?_⟩, ?_, ?_, ?_,
      by simp [Point.unread]⟩
    · refine legal_saveTerminal stored (moves_supervisor rfl ?_) ?_
      · rw [running]
        rfl
      · exact isTerminal_finishStatus _ _ _ _
    · intro copy member
      cases member
    · intro copy member
      cases member
    · intro other member
      have different : other ≠ id := by
        intro same
        subst same
        exact distinct.1 member
      exact (List.mem_erase_of_ne different).mpr
        (polled.2 other (List.mem_cons_of_mem _ member))
    · intro resting
      cases resting
    · intro _
      refine ⟨activeNodup.erase id, ?_⟩
      intro other member
      obtain ⟨different, before⟩ := activeNodup.mem_erase_iff.mp member
      refine .inl ⟨?_, running_of_active proper idle working before⟩
      intro isSaved
      exact different (saved other isSaved)
    · intro done
      cases done
  · intro other member
    right
    rw [here]
    rcases List.mem_append.mp member with isSaved | copied
    · rw [saved other isSaved]
      exact List.mem_cons_self
    · cases copied

/-- A queued item whose manifest is not the submitted one. -/
private theorem onward_fault {item : Item} {reason : String}
    (here : process.point = .verify item) :
    Onward root process
      (process.writeThen (saveTerminal item (failed item reason answer) answer)
        .dispatch) := by
  have working : process.point.atWork := by
    rw [here]
    rfl
  have stored := proper.current
  have queued := proper.tidy
  rw [here] at stored queued
  have stored := stored item List.mem_cons_self
  have queued : item.status = .queued := queued
  have saved : ∀ other ∈ savedIds (saveTerminal item
      (failed item reason answer) answer), other = item.id := by
    intro other member
    exact (savedIds_saveTerminal member).trans rfl
  rintro after ⟨⟩
  constructor
  · refine ⟨?_, ?_, ?_, trivial, ?_, ?_, ?_, ?_, by simp [Point.unread]⟩
    · refine legal_saveTerminal stored (moves_supervisor rfl ?_) rfl
      rw [queued]
      rfl
    · intro copy member
      cases member
    · intro copy member
      cases member
    · simp [Point.polled]
    · intro resting
      cases resting
    · intro _
      refine ⟨(proper.active working).1, ?_⟩
      intro id member
      refine runs_of_other stored ?_ saved
        (running_of_active proper idle working member)
      simp [queued]
    · intro done
      cases done
  · intro id member
    left
    rw [Process.holds, here, idle]
    rcases List.mem_append.mp member with isSaved | copied
    · rw [saved id isSaved]
      exact List.mem_cons_self
    · cases copied

/-- A queued item is started. -/
private theorem onward_spawn {item : Item}
    (here : process.point = .spawn item) :
    Onward root process
      (.start item.id
        { pending := [.saveItem (some item) (launched item answer)]
          point := .dispatch
          supervisor :=
            { process.supervisor with
              active := process.supervisor.active ++ [item.id] } }) := by
  have working : process.point.atWork := by
    rw [here]
    rfl
  have stored := proper.current
  have queued := proper.tidy
  rw [here] at stored queued
  have stored := stored item List.mem_cons_self
  have queued : item.status = .queued := queued
  have running : ∀ id ∈ process.supervisor.active,
      ∃ found, root.stored id = some found ∧ found.status = .running :=
    fun id member => running_of_active proper idle working member
  have notActive : ∀ id ∈ process.supervisor.active, id ≠ item.id := by
    intro id member same
    obtain ⟨other, isStored, status⟩ := running id member
    rw [same, stored] at isStored
    cases isStored
    rw [queued] at status
    cases status
  rintro after ⟨⟩
  constructor
  · refine ⟨⟨⟨stored, ?_, ?_⟩, trivial⟩, ?_, ?_, trivial, ?_, ?_, ?_, ?_,
      by simp [Point.unread]⟩
    · rintro old ⟨⟩
      refine moves_supervisor rfl ?_
      rw [queued]
      rfl
    · intro absent
      cases absent
    · intro copy member
      cases member
    · intro copy member
      cases member
    · simp [Point.polled]
    · intro resting
      cases resting
    · intro _
      constructor
      · apply (proper.active working).1.append (List.nodup_singleton _)
        intro id member same
        exact notActive id member (List.mem_singleton.mp same)
      · intro id member
        rcases List.mem_append.mp member with before | last
        · refine .inl ⟨?_, running id before⟩
          simpa [savedIds, Write.savedId, launched, eq_comm] using
            notActive id before
        · rw [List.mem_singleton.mp last]
          exact .inr ⟨_, _, rfl, rfl, rfl⟩
    · intro done
      cases done
  · intro id member
    left
    rw [Process.holds, here, idle]
    simpa [Process.holds, savedIds, Write.savedId, launched, Point.copies,
      eq_comm] using member

private theorem onward_lockExists (here : process.point = .lockExists) :
    Onward root process (proceed live root process answer) := by
  simp only [proceed, here]
  split
  all_goals
    refine onward_goTo proper idle rfl ?_ rfl ?_ ?_ ?_
    · exact trivial
    · rw [here]
      exact id
    · intro working
      cases working
    · simp [Point.unread]

private theorem onward_readDrain (here : process.point = .readDrain) :
    Onward root process (proceed live root process answer) := by
  have working : process.point.atWork := by
    rw [here]
    rfl
  simp only [proceed, here]
  split
  · refine onward_loop proper idle working rfl rfl ?_ ?_ rfl rfl
    · exact trivial
    · simp [Point.polled]
  · refine onward_loop proper idle working rfl rfl ?_ ?_ rfl rfl
    · exact trivial
    · exact ⟨(proper.active working).1, fun id member => member⟩

private theorem onward_poll {ids : List String}
    (here : process.point = .poll ids) :
    Onward root process (proceed live root process answer) := by
  have working : process.point.atWork := by
    rw [here]
    rfl
  have polled := proper.polled
  rw [here] at polled
  cases ids with
  | nil =>
      simp only [proceed, here]
      refine onward_loop proper idle working rfl rfl ?_ ?_ rfl rfl
      · exact trivial
      · simp [Point.polled]
  | cons id ids =>
      simp only [proceed, here]
      split
      · refine onward_loop proper idle working rfl rfl ?_ ?_ rfl rfl
        · exact trivial
        · exact ⟨(List.nodup_cons.mp polled.1).2, fun other member =>
            polled.2 other (List.mem_cons_of_mem _ member)⟩
      · refine onward_loop proper idle working rfl rfl ?_ polled rfl rfl
        exact trivial

private theorem onward_dispatch (here : process.point = .dispatch) :
    Onward root process (proceed live root process answer) := by
  have working : process.point.atWork := by
    rw [here]
    rfl
  simp only [proceed, here]
  split
  all_goals
    refine onward_loop proper idle working rfl rfl ?_ ?_ rfl rfl
    · exact trivial
    · simp [Point.polled]

private theorem onward_verify {item : Item}
    (here : process.point = .verify item) :
    Onward root process (proceed live root process answer) := by
  simp only [proceed, here]
  split
  · exact onward_fault proper idle here
  · have current := proper.current
    have tidy := proper.tidy
    rw [here] at current tidy
    rintro after ⟨⟩
    constructor
    · refine proper_moved proper idle rfl current tidy ?_ ?_ ?_ ?_
      · simp [Point.polled]
      · intro resting
        cases resting
      · intro _
        rw [here]
        exact .inl rfl
      · simp [Point.unread]
    · intro id member
      left
      rw [Process.holds, here]
      exact member

/-- A reading step of a process that fits the queue. -/
theorem onward_proceed :
    Onward root process (proceed live root process answer) := by
  cases here : process.point with
  | submitState submission =>
      simp only [proceed, here]
      refine onward_goTo proper idle rfl ?_ rfl ?_ ?_ ?_
      · exact trivial
      · rw [here]
        exact id
      · intro working
        cases working
      · simp [Point.unread]
  | submitExists submission seq => exact onward_submitExists proper here
  | submitted item | printed text | released =>
      simp only [proceed, here]
      exact onward_leave _
  | cancelItem id => exact onward_cancelItem proper here
  | names purpose =>
      simp only [proceed, here]
      exact onward_names proper idle here
  | load purpose names loaded =>
      cases names with
      | nil =>
          simp only [proceed, here]
          exact onward_afterLoad proper idle here
      | cons name names =>
          simp only [proceed, here]
          split
          · exact onward_raise _
          · rename_i item found
            exact onward_load proper idle here found
  | each purpose items =>
      cases items with
      | nil =>
          simp only [proceed, here]
          exact onward_afterPass proper idle here
      | cons item items =>
          simp only [proceed, here]
          exact onward_each proper idle here
  | lockExists => exact onward_lockExists proper idle here
  | lockRead => exact onward_lockRead proper here
  | lockCreate => exact onward_lockCreate proper here
  | readCancel | readPause =>
      simp only [proceed, here]
      refine onward_loop proper idle ?_ rfl rfl ?_ ?_ rfl rfl
      · rw [here]
        rfl
      · exact trivial
      · simp [Point.polled]
  | readDrain => exact onward_readDrain proper idle here
  | poll ids => exact onward_poll proper idle here
  | reap id returncode ids =>
      simp only [proceed, here]
      split
      · exact onward_raise _
      · rename_i item found
        exact onward_reap proper idle here found
  | dispatch => exact onward_dispatch proper idle here
  | verify item => exact onward_verify proper idle here
  | spawn item =>
      simp only [proceed, here]
      exact onward_spawn proper idle here

end Proper

end Read

end PpcLab.Control
