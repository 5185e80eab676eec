import Mathlib.Logic.Relation
import PpcLab.Control.LostUpdate
import PpcLab.Control.Origins

/-!
# Recovery

A supervisor begins with a pass over what another one has left behind.  The
pass looks at the items that are recorded as running and at nothing else: an
item that was orphaned earlier stays so, whether or not its process is still
there.
-/

namespace PpcLab.Control

/-- What recovery makes of an item when these processes are alive. -/
def recoverItem (alive : Pid → Bool) (item : Item) : Item :=
  if item.status = .running then
    if item.pid.any alive then
      { item with status := .orphaned, orphanPid := item.pid }
    else { item with status := .queued, pid := none }
  else item

theorem id_recoverItem (alive : Pid → Bool) (item : Item) :
    (recoverItem alive item).id = item.id := by
  unfold recoverItem
  split
  · split
    all_goals rfl
  · rfl

/-- The processes a program can find when the operating system answers for
these. -/
def World.found (world : World) (alive : Pid → Bool) (pid : Pid) : Bool :=
  pid != 0 && (world.live pid || alive pid)

theorem recoverWrites_eq {world : World} {alive : Pid → Bool} {item : Item}
    {answer : Answer} (answers : ∀ pid ∈ item.pid, answer.alive = alive pid) :
    recoverWrites world.live item answer =
      if item.status = .running then
        [.saveItem (some item) (recoverItem (world.found alive) item)]
      else [] := by
  have same : item.pid.any (procAlive world.live answer) =
      item.pid.any (world.found alive) := by
    cases named : item.pid with
    | none => rfl
    | some pid => simp [procAlive, World.found, answers pid named]
  unfold recoverWrites recoverItem
  rw [same]
  split
  · split
    all_goals rfl
  · rfl

/-- One process takes one step after the other; the operating system may look
at the state before it answers. -/
def GoesOn (system : World → Answer) (pid : Pid) : World → World → Prop :=
  Relation.ReflTransGen fun before after =>
    step before (.advance pid (system before)) = some after

/-- Asked about the process of an item, the operating system answers for a set
of processes. -/
def AnswersFor (alive : Pid → Bool) (pid : Pid) (system : World → Answer) :
    Prop :=
  ∀ world process item items number, world.process pid = some process →
    process.point = .each .recover (item :: items) →
    item.pid = some number → (system world).alive = alive number

/-- The process is at a point of its own with nothing to write; files and
processes are otherwise as given. -/
structure Stands (world : World) (pid : Pid) (process : Process) (root : Root)
    (point : Point) (now : World) : Prop where
  here : now.process pid = some { process with pending := [], point }
  root : now.root = root
  live : ∀ other, now.live other = world.live other

section Alone

variable {system : World → Answer} {world now : World} {pid : Pid}
  {process : Process} {root : Root}

theorem Stands.found {point : Point}
    (stands : Stands world pid process root point now) (alive : Pid → Bool) :
    now.found alive = world.found alive := by
  funext other
  rw [World.found, stands.live, World.found]

private theorem live_set {point : Point} (running : world.live pid)
    (stands : Stands world pid process root point now) (after : Process)
    (other : Pid) : (now.set pid after).live other = world.live other := by
  by_cases same : other = pid
  · subst same
    rw [World.live, World.process_set_self, running]
    rfl
  · rw [← stands.live other, World.live, World.process_set_of_ne _ _ same,
      World.live]

/-- A step that only reads. -/
private theorem Stands.reads {point next : Point} (running : world.live pid)
    (stands : Stands world pid process root point now)
    (reads : proceed now.live root { process with pending := [], point }
      (system now) = .go { process with pending := [], point := next }) :
    ∃ later, GoesOn system pid now later ∧
      Stands world pid process root next later := by
  rw [← stands.root] at reads
  refine ⟨_, .single (step_go stands.here rfl reads), ?_⟩
  exact ⟨World.process_set_self _ _ _, stands.root, live_set running stands _⟩

/-- A step that saves an item, and the saving. -/
private theorem Stands.saves {point next : Point} {seen : Option Item}
    {item : Item} (running : world.live pid)
    (stands : Stands world pid process root point now)
    (reads : proceed now.live root { process with pending := [], point }
      (system now) = .go
        { process with pending := [.saveItem seen item], point := next }) :
    ∃ later, GoesOn system pid now later ∧
      Stands world pid process { root with queue := root.queue.put item } next
        later := by
  rw [← stands.root] at reads
  let saving := now.set pid
    { process with pending := [.saveItem seen item], point := next }
  have chosen := step_go stands.here rfl reads
  have saved : step saving (.advance pid (system saving)) = _ :=
    step_write (World.process_set_self _ _ _) rfl
  refine ⟨_, Relation.ReflTransGen.trans (.single chosen) (.single saved), ?_⟩
  refine ⟨World.process_set_self _ _ _, ?_, ?_⟩
  · exact congrArg (fun root : Root =>
      { root with queue := root.queue.put item }) stands.root
  · intro other
    by_cases same : other = pid
    · subst same
      rw [World.live, World.process_set_self, running]
      rfl
    · rw [World.live, World.process_set_of_ne _ _ same, World.process_write,
        World.process_set_of_ne _ _ same, ← World.live, stands.live]

/-- All items are loaded in the order of their names. -/
private theorem Stands.loads (running : world.live pid) {names : List String}
    {items : List Item} {loaded : List Item}
    (found : List.Forall₂ (fun name item => root.stored name = some item)
      names items)
    (stands : Stands world pid process root (.load .recover names loaded)
      now) :
    ∃ later, GoesOn system pid now later ∧
      Stands world pid process root (.each .recover (loaded ++ items))
        later := by
  induction found generalizing now loaded with
  | nil =>
      rw [List.append_nil]
      exact stands.reads running rfl
  | @cons name item names items isStored _ induction =>
      have present : root.queue.lookup name = some item := isStored
      have reads : proceed now.live root
          { process with
            pending := []
            point := .load .recover (name :: names) loaded } (system now) =
          .go
            { process with
              pending := []
              point := .load .recover names (loaded ++ [item]) } := by
        simp [proceed, present, Process.goTo]
      obtain ⟨next, goes, loads⟩ := stands.reads running reads
      obtain ⟨later, goesOn, arrived⟩ := induction loads
      rw [List.append_assoc] at arrived
      exact ⟨later, goes.trans goesOn, arrived⟩

/-- What a pass over items makes of the queue. -/
def recoverAll (alive : Pid → Bool) (root : Root) (items : List Item) : Root :=
  items.foldl (fun root item =>
    if item.status = .running then
      { root with queue := root.queue.put (recoverItem alive item) }
    else root) root

/-- The items are gone through one by one. -/
private theorem Stands.passes (running : world.live pid)
    {alive : Pid → Bool} (answers : AnswersFor alive pid system)
    (items : List Item)
    (stands : Stands world pid process root (.each .recover items) now) :
    ∃ later, GoesOn system pid now later ∧
      Stands world pid process (recoverAll (world.found alive) root items)
        .readCancel later := by
  induction items generalizing now root with
  | nil => exact stands.reads running rfl
  | cons item items induction =>
      have answered : ∀ number ∈ item.pid,
          (system now).alive = alive number := fun number named =>
        answers now _ item items number stands.here rfl named
      have writes : proceed now.live root
          { process with
            pending := []
            point := .each .recover (item :: items) } (system now) =
          .go
            { process with
              pending := recoverWrites now.live item (system now)
              point := .each .recover items } := rfl
      rw [recoverWrites_eq answered, stands.found] at writes
      by_cases isRunning : item.status = .running
      · rw [if_pos isRunning] at writes
        obtain ⟨next, goes, saved⟩ := stands.saves running writes
        obtain ⟨later, goesOn, arrived⟩ := induction saved
        refine ⟨later, goes.trans goesOn, ?_⟩
        rw [recoverAll, List.foldl_cons, if_pos isRunning]
        exact arrived
      · rw [if_neg isRunning] at writes
        obtain ⟨next, goes, left⟩ := stands.reads running writes
        obtain ⟨later, goesOn, arrived⟩ := induction left
        refine ⟨later, goes.trans goesOn, ?_⟩
        rw [recoverAll, List.foldl_cons, if_neg isRunning]
        exact arrived

end Alone

private theorem recoverItem_of_settled {alive : Pid → Bool} {item : Item}
    (settled : item.status ≠ .running) : recoverItem alive item = item :=
  if_neg settled

theorem stored_recoverAll (alive : Pid → Bool) (root : Root)
    (items : List Item)
    (held : ∀ item ∈ items, root.stored item.id = some item)
    (nodup : (items.map Item.id).Nodup) (id : String) :
    (recoverAll alive root items).stored id =
      if id ∈ items.map Item.id then
        (root.stored id).map (recoverItem alive)
      else root.stored id := by
  induction items generalizing root with
  | nil => rfl
  | cons item items induction =>
      obtain ⟨absent, nodup⟩ := List.nodup_cons.mp nodup
      let next : Root :=
        if item.status = .running then
          { root with queue := root.queue.put (recoverItem alive item) }
        else root
      have mine : next.stored item.id = some (recoverItem alive item) := by
        by_cases isRunning : item.status = .running
        · simp only [next, if_pos isRunning, Root.stored]
          rw [← id_recoverItem alive item, Keyed.lookup_put_self]
        · simp only [next, if_neg isRunning]
          rw [recoverItem_of_settled isRunning, held item List.mem_cons_self]
      have others : ∀ other, other ≠ item.id →
          next.stored other = root.stored other := by
        intro other different
        by_cases isRunning : item.status = .running
        · simp only [next, if_pos isRunning, Root.stored]
          rw [← id_recoverItem alive item] at different
          exact Keyed.lookup_put_of_ne root.queue different
        · simp only [next, if_neg isRunning]
      have heldNext : ∀ copy ∈ items, next.stored copy.id = some copy := by
        intro copy member
        rw [others]
        · exact held copy (List.mem_cons_of_mem _ member)
        · intro same
          exact absent (same ▸ List.mem_map_of_mem member)
      have rest := induction next heldNext nodup
      rw [recoverAll, List.foldl_cons]
      change (recoverAll alive next items).stored id = _
      rw [rest]
      by_cases same : id = item.id
      · subst same
        rw [if_neg absent, mine, if_pos (by simp), held item List.mem_cons_self,
          Option.map_some]
      · simp only [others id same, List.map_cons, List.mem_cons, same,
          false_or]

theorem recoverAll_files (alive : Pid → Bool) (root : Root)
    (items : List Item) :
    recoverAll alive root items =
      { root with queue := (recoverAll alive root items).queue } := by
  induction items generalizing root with
  | nil => rfl
  | cons item items induction =>
      rw [recoverAll, List.foldl_cons]
      by_cases isRunning : item.status = .running
      · rw [if_pos isRunning]
        exact induction _
      · rw [if_neg isRunning]
        exact induction _

/-- The queue in the order in which it is read. -/
def Root.items (root : Root) : List Item :=
  root.queuePaths.filterMap root.stored

theorem forall₂_items (root : Root) :
    List.Forall₂ (fun name item => root.stored name = some item)
      root.queuePaths root.items := by
  have present : ∀ name ∈ root.queuePaths, (root.stored name).isSome := by
    intro name member
    rw [Root.queuePaths, List.mem_insertionSort] at member
    exact Keyed.mem_keys_iff.mp member
  unfold Root.items
  generalize root.queuePaths = names at present ⊢
  induction names with
  | nil => exact .nil
  | cons name names induction =>
      obtain ⟨item, isStored⟩ :=
        Option.isSome_iff_exists.mp (present name List.mem_cons_self)
      rw [List.filterMap_cons_some isStored]
      exact .cons isStored (induction fun other member =>
        present other (List.mem_cons_of_mem _ member))

theorem map_id_items (root : Root) :
    root.items.map Item.id = root.queuePaths := by
  have named := forall₂_items root
  generalize root.items = items, root.queuePaths = names at named ⊢
  induction named with
  | nil => rfl
  | cons isStored _ induction =>
      rw [List.map_cons, induction, Keyed.key_of_lookup isStored]

theorem stored_of_mem_items {root : Root} {item : Item}
    (member : item ∈ root.items) : root.stored item.id = some item := by
  obtain ⟨name, _, isStored⟩ := List.mem_filterMap.mp member
  rw [Keyed.key_of_lookup isStored]
  exact isStored

/-- The pass over the whole queue recovers every item of it. -/
theorem stored_recoverAll_items (alive : Pid → Bool) (root : Root)
    (id : String) :
    (recoverAll alive root root.items).stored id =
      (root.stored id).map (recoverItem alive) := by
  rw [stored_recoverAll alive root root.items
    (fun item member => stored_of_mem_items member)]
  · rw [map_id_items]
    split
    · rfl
    · rename_i absent
      rw [Root.queuePaths, List.mem_insertionSort, Keyed.mem_keys_iff,
        Option.not_isSome_iff_eq_none] at absent
      rw [Root.stored, absent]
      rfl
  · rw [map_id_items]
    exact nodup_queuePaths root

/-- After recovery nothing is recorded as running.  What was recorded so is
queued again, or orphaned with its process alive; everything else is as it
was. -/
structure Recovered (alive : Pid → Bool) (before after : Root) : Prop where
  settled : ∀ id item, after.stored id = some item →
    item.status = .queued ∨ item.status.isTerminal ∨ item.status = .orphaned
  retried : ∀ id item, before.stored id = some item →
    item.status = .running → item.pid.any alive = false →
    after.stored id = some { item with status := .queued, pid := none }
  orphaned : ∀ id item pid, before.stored id = some item →
    item.status = .running → item.pid = some pid → alive pid →
    after.stored id =
      some { item with status := .orphaned, orphanPid := some pid }
  others : ∀ id item, before.stored id = some item →
    item.status ≠ .running → after.stored id = some item
  absent : ∀ id, before.stored id = none → after.stored id = none
  files : after = { before with queue := after.queue }

theorem recovered_recoverAll (alive : Pid → Bool) (root : Root) :
    Recovered alive root (recoverAll alive root root.items) := by
  refine ⟨?_, ?_, ?_, ?_, ?_, recoverAll_files alive root _⟩
  · intro id item isStored
    rw [stored_recoverAll_items] at isStored
    obtain ⟨old, _, rfl⟩ := Option.map_eq_some_iff.mp isStored
    unfold recoverItem
    split
    · split
      · exact .inr (.inr rfl)
      · exact .inl rfl
    · rename_i idle
      cases status : old.status with
      | running => exact absurd status idle
      | queued => exact .inl rfl
      | orphaned => exact .inr (.inr rfl)
      | complete | failed | cancelled | quotaBlocked => exact .inr (.inl rfl)
  · intro id item isStored isRunning dead
    simp [stored_recoverAll_items, isStored, recoverItem, isRunning, dead]
  · intro id item pid isStored isRunning named isAlive
    simp [stored_recoverAll_items, isStored, recoverItem, isRunning, named,
      isAlive]
  · intro id item isStored idle
    rw [stored_recoverAll_items, isStored, Option.map_some,
      recoverItem_of_settled idle]
  · intro id missing
    rw [stored_recoverAll_items, missing]
    rfl

/-- Whatever files a supervisor finds and whatever processes are alive, its
recovery comes to an end, and every item that was recorded as running is queued
again if its process is dead, and orphaned otherwise. -/
theorem recovered_of_goesOn (world : World) (pid : Pid) (process : Process)
    (alive : Pid → Bool) (system : World → Answer)
    (there : world.process pid = some process)
    (here : process.point = .names .recover) (idle : process.pending = [])
    (answers : AnswersFor alive pid system) :
    ∃ final, GoesOn system pid world final ∧
      final.process pid = some { process with point := .readCancel } ∧
      Recovered (world.found alive) world.root final.root := by
  have running : world.live pid := by
    rw [World.live, there]
    rfl
  have begins : Stands world pid process world.root (.names .recover)
      world := by
    refine ⟨?_, rfl, fun _ => rfl⟩
    rw [there, ← here, ← idle]
  obtain ⟨listed, lists, names⟩ := begins.reads running rfl
  obtain ⟨loaded, loads, items⟩ :=
    names.loads running (forall₂_items world.root)
  obtain ⟨final, passes, arrived⟩ := items.passes running answers
  refine ⟨final, (lists.trans loads).trans passes, ?_, ?_⟩
  · rw [arrived.here, idle]
  · rw [arrived.root]
    exact recovered_recoverAll _ world.root

/-- The operating system that answers for a set of processes. -/
def answering (alive : Pid → Bool) (pid : Pid) (world : World) : Answer :=
  match (world.process pid).map Process.point with
  | some (.each _ (item :: _)) => { alive := item.pid.any alive }
  | _ => {}

theorem answersFor_answering (alive : Pid → Bool) (pid : Pid) :
    AnswersFor alive pid (answering alive pid) := by
  intro world process item items number there here named
  simp [answering, there, here, named]

/-- A supervisor starts the item as process 7 and dies; the next one comes to
its recovery. -/
def abandoned : List Input :=
  (.start 1 (.serve 1 false) ::
      List.replicate 26 (.advance 1 { child := 7 })) ++
    .die 1 :: .start 2 (.serve 1 false) :: advances 2 5

/-- Process 7 is dead: the item is queued again. -/
theorem recovered_of_goesOn_dead :
    ∃ world final, follow step (World.idle oneQueued) abandoned =
        some world ∧
      HasStatus .running "nightly" world ∧
      GoesOn (answering (fun _ => false) 2) 2 world final ∧
      HasStatus .queued "nightly" final := by
  obtain ⟨final, goes, _, recovered⟩ := recovered_of_goesOn
    ((follow step (World.idle oneQueued) abandoned).get rfl) 2 _
    (fun _ => false) _ rfl rfl rfl (answersFor_answering _ 2)
  exact ⟨_, final, rfl, ⟨_, rfl, rfl⟩, goes, _,
    recovered.retried "nightly" _ rfl rfl rfl, rfl⟩

/-- Nothing is left for the operator to look at. -/
def FullyRecovered (alive : Pid → Bool) (root : Root) : Prop :=
  ∀ id item, root.stored id = some item →
    item.status = .queued ∨ item.status.isTerminal ∨
      item.status = .orphaned ∧ item.orphanPid.any alive

/-- The second supervisor orphans the item, as process 7 is alive, and dies;
so does process 7. -/
def orphanedEarlier : List Input :=
  abandoned ++ List.replicate 6 (.advance 2 { alive := true }) ++
    .die 2 :: .start 3 (.serve 1 false) :: advances 3 5

/-- A signal ends the scheduler of the item and then the supervisor; the next
one comes to its recovery. -/
def signalled : List Input :=
  (.start 1 (.serve 1 false) ::
      List.replicate 26 (.advance 1 { child := 7 })) ++
    .signal 1 :: .advance 1 { returncode := some (-15) } :: advances 1 23 ++
    .start 3 (.serve 1 false) :: advances 3 3

/-- An item that was orphaned earlier stays orphaned when its process is dead,
and one whose scheduler was ended by a signal is not queued again. -/
theorem recovery_leaves_orphan_and_signalled :
    (∃ world final, follow step (World.idle oneQueued) orphanedEarlier =
        some world ∧
      world.process 3 = some
        { point := .names .recover
          supervisor := { maxActive := 1, untilIdle := false } } ∧
      follow step world (advances 3 5) = some final ∧
      final.process 3 = some
        { point := .readCancel
          supervisor := { maxActive := 1, untilIdle := false } } ∧
      ¬ FullyRecovered (final.found fun _ => false) final.root) ∧
    ∃ world final, follow step (World.idle oneQueued) signalled =
        some world ∧
      world.process 3 = some
        { point := .names .recover
          supervisor := { maxActive := 1, untilIdle := false } } ∧
      follow step world (advances 3 5) = some final ∧
      final.process 3 = some
        { point := .readCancel
          supervisor := { maxActive := 1, untilIdle := false } } ∧
      HasStatus .failed "nightly" final := by
  constructor
  · refine ⟨_, _, rfl, rfl, rfl, rfl, ?_⟩
    intro recovered
    exact absurd (recovered "nightly" _ rfl) (by decide)
  · exact ⟨_, _, rfl, rfl, rfl, rfl, _, rfl, rfl⟩

end PpcLab.Control
