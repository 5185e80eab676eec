import PpcLab.Control.SectionSafety

/-!
# No lost update

One supervisor and any number of clients read and replace the items of one
queue.  If their sections on an item do not overlap, an item that has ended
stays ended, an item that a cancellation has seen queued is not started any
more, and nothing is overwritten by what was computed from an older copy.
-/

namespace PpcLab.Control

/-- A process of the `serve` command. -/
def Process.isServe (process : Process) : Bool :=
  match process.point with
  | .lockExists | .lockRead | .lockCreate => true
  | point => point.supervises

/-- A supervisor is started only when there is none, and nobody dies. -/
def OneSupervisor (world : World) : Input → Prop
  | .start _ (.serve _ _) =>
      ∀ entry ∈ world.processes.entries, entry.2.isServe = false
  | .die _ => False
  | _ => True

instance (world : World) :
    (input : Input) → Decidable (OneSupervisor world input)
  | .start _ (.serve _ _) =>
      inferInstanceAs (Decidable (∀ entry ∈ world.processes.entries, _ = _))
  | .start _ (.submit _) => .isTrue trivial
  | .start _ (.cancel _) => .isTrue trivial
  | .start _ .cancelAll => .isTrue trivial
  | .start _ .pause => .isTrue trivial
  | .start _ .drain => .isTrue trivial
  | .start _ .resume => .isTrue trivial
  | .advance _ _ => .isTrue trivial
  | .signal _ => .isTrue trivial
  | .die _ => .isFalse id

def OneServe (world : World) : Prop :=
  ∀ first second firstProcess secondProcess,
    world.process first = some firstProcess →
    world.process second = some secondProcess →
    firstProcess.isServe → secondProcess.isServe → first = second

section Serve

variable {world : World} {pid : Pid} {process : Process}

private theorem isServe_of_atWork (working : process.point.atWork) :
    process.isServe := by
  have supervises : process.point.supervises := by
    simp only [Point.atWork, Bool.and_eq_true] at working
    exact working.1
  unfold Process.isServe
  split
  · rfl
  · rfl
  · rfl
  · exact supervises

theorem OneServe.oneAtWork (one : OneServe world) : OneAtWork world := by
  intro first second firstProcess secondProcess firstAlive secondAlive
    firstWorks secondWorks
  exact one first second firstProcess secondProcess firstAlive secondAlive
    (isServe_of_atWork firstWorks) (isServe_of_atWork secondWorks)

/-- A client does not become a supervisor. -/
private theorem isServe_of_next {live : Pid → Bool} {root : Root}
    {answer : Answer} (idle : process.pending = []) {after : Process}
    (next : after ∈ (proceed live root process answer).process)
    (serves : after.isServe) : process.isServe := by
  by_cases client : process.isServe
  · exact client
  · exfalso
    have notSupervises : process.point.supervises = false := by
      rw [Bool.eq_false_iff]
      intro supervises
      apply client
      unfold Process.isServe
      split <;> first | rfl | exact supervises
    have plain : process.point.isPlain := by
      unfold Process.isServe at client
      cases here : process.point with
      | lockExists | lockRead | lockCreate | released =>
          simp [here, Point.supervises] at client
      | names purpose =>
          cases purpose <;>
            simp_all [Point.isPlain, Point.supervises]
      | _ => rfl
    have stepped : PlainStep process.point.supervises
        (proceed live root process answer) := plain_proceed idle (.inl plain)
    have unserving : ∀ other : Process, other.point.isPlain →
        other.point.supervises = process.point.supervises →
        ¬ other.isServe := by
      intro other otherPlain same otherServes
      rw [notSupervises] at same
      unfold Process.isServe at otherServes
      split at otherServes
      · simp_all [Point.isPlain]
      · simp_all [Point.isPlain]
      · simp_all [Point.isPlain]
      · rw [same] at otherServes
        cases otherServes
    generalize proceed live root process answer = result at stepped next
    cases stepped with
    | go _ afterPlain same =>
        cases next
        exact unserving _ afterPlain same serves
    | start _ afterPlain same =>
        cases next
        exact unserving _ afterPlain same serves
    | release _ supervises =>
        rw [notSupervises] at supervises
        cases supervises
    | leave => cases next

private theorem OneServe.moved (one : OneServe world) {next : World}
    (others : ∀ other, other ≠ pid → next.process other = world.process other)
    (kept : ∀ after, next.process pid = some after → after.isServe →
      (∃ before, world.process pid = some before ∧ before.isServe) ∨
        ∀ other otherProcess, world.process other = some otherProcess →
          otherProcess.isServe = false) : OneServe next := by
  intro first second firstProcess secondProcess firstAlive secondAlive
    firstServes secondServes
  by_cases firstSame : first = pid
  · subst firstSame
    by_cases secondSame : second = first
    · exact secondSame.symm
    · rw [others second secondSame] at secondAlive
      rcases kept firstProcess firstAlive firstServes with before | alone
      · obtain ⟨before, alive, serves⟩ := before
        exact one first second before secondProcess alive secondAlive serves
          secondServes
      · rw [alone second secondProcess secondAlive] at secondServes
        cases secondServes
  · rw [others first firstSame] at firstAlive
    by_cases secondSame : second = pid
    · subst secondSame
      rcases kept secondProcess secondAlive secondServes with before | alone
      · obtain ⟨before, alive, serves⟩ := before
        exact one first second firstProcess before firstAlive alive
          firstServes serves
      · rw [alone first firstProcess firstAlive] at firstServes
        cases firstServes
    · rw [others second secondSame] at secondAlive
      exact one first second firstProcess secondProcess firstAlive secondAlive
        firstServes secondServes

theorem OneServe.step {next : World} {input : Input} (one : OneServe world)
    (supervised : OneSupervisor world input)
    (stepped : Control.step world input = some next) : OneServe next := by
  cases stepped_of_step stepped with
  | @begun pid command process positive free entry =>
      refine one.moved
        (fun other different => World.process_set_of_ne world process different)
        ?_
      intro after found serves
      rw [World.process_set_self] at found
      cases found
      right
      intro other otherProcess alive
      cases command with
      | serve maxActive untilIdle =>
          exact supervised (other, otherProcess)
            (World.mem_processes.mpr alive)
      | _ =>
          cases entry
          cases serves
  | refused => exact one
  | @wrote pid answer process action pending alive pendingNext =>
      refine one.moved
        (fun other different => World.process_set_of_ne _ _ different) ?_
      intro after found serves
      rw [World.process_set_self] at found
      cases found
      exact .inl ⟨process, alive, serves⟩
  | @read pid answer process alive idle =>
      refine one.moved
        (fun other different => World.process_follow_of_ne _ _ different) ?_
      intro after found serves
      rw [World.process_follow_self] at found
      exact .inl ⟨process, alive, isServe_of_next idle found serves⟩
  | @signalled pid process alive serves =>
      refine one.moved
        (fun other different => World.process_set_of_ne _ _ different) ?_
      intro after found serves
      rw [World.process_set_self] at found
      cases found
      exact .inl ⟨process, alive, serves⟩
  | died => exact supervised.elim

end Serve

/-- The copy from which the first pending save was computed. -/
def firstSeen : List Write → List Item
  | [] => []
  | .saveItem seen _ :: _ => seen.toList
  | _ :: pending => firstSeen pending

/-- The copies a process acts on or is going to act on. -/
def Process.copies (process : Process) : List Item :=
  firstSeen process.pending ++ process.point.copies

/-- A cancellation has read the item, and it was queued. -/
def CancelSawQueued (world : World) (pid : Pid) (id : String) : Prop :=
  ∃ process copy, world.process pid = some process ∧
    process.point.supervises = false ∧ copy ∈ process.copies ∧
    copy.id = id ∧ copy.status = .queued

/-- What holds of a state and any later one. -/
structure NoLostUpdate (middle final : World) : Prop where
  terminal : ∀ id item, middle.root.stored id = some item →
    item.status.isTerminal →
    ∃ later, final.root.stored id = some later ∧ later.status = item.status
  cancelled : ∀ pid id, CancelSawQueued middle pid id →
    final.started.count id = middle.started.count id
  current : ∀ pid process seen item pending,
    final.process pid = some process →
    process.pending = .saveItem seen item :: pending →
    final.root.stored item.id = seen

/-- The item has the status. -/
def HasStatus (status : Status) (id : String) (world : World) : Prop :=
  ∃ item, world.root.stored id = some item ∧ item.status = status

section Step

variable {world next : World} {input : Input} {id : String}

/-- The first pending save of a process fits the queue. -/
private theorem fits_of_pending (invariant : SectionInvariant world)
    {pid : Pid} {process : Process} {action : Write} {pending : List Write}
    (alive : world.process pid = some process)
    (pendingNext : process.pending = action :: pending) :
    Fits (!process.point.supervises) world.root.stored action := by
  have legal := (invariant.proper pid process alive).legal
  rw [pendingNext] at legal
  exact legal.1

/-- An item that has ended keeps its status. -/
theorem hasStatus_step (invariant : SectionInvariant world)
    (stepped : step world input = some next) {status : Status}
    (ended : status.isTerminal) (has : HasStatus status id world) :
    HasStatus status id next := by
  obtain ⟨item, stored, same⟩ := has
  cases stepped_of_step stepped with
  | begun => exact ⟨item, stored, same⟩
  | refused => exact ⟨item, stored, same⟩
  | @wrote pid answer process action pending alive pendingNext =>
      have fits := fits_of_pending invariant alive pendingNext
      have after : ((world.write pid action).set pid
          { process with pending }).root.stored =
            action.store world.root.stored :=
        stored_perform pid world.root action
      by_cases saved : action.savedId = some id
      · cases action with
        | saveItem seen written =>
            have sameId : written.id = id := Option.some.inj saved
            obtain ⟨seenStored, moves, _⟩ := fits
            rw [sameId, stored] at seenStored
            subst seenStored
            refine ⟨written, ?_, ?_⟩
            · rw [after]
              simp [Write.store, sameId]
            · rw [(moves item rfl).terminal (by rw [same]; exact ended), same]
        | _ => cases saved
      · refine ⟨item, ?_, same⟩
        rw [after, Write.store_of_ne saved]
        exact stored
  | read =>
      refine ⟨item, ?_, same⟩
      rw [stored_follow]
      exact stored
  | signalled => exact ⟨item, stored, same⟩
  | died => exact ⟨item, stored, same⟩

/-- The item has ended, or the cancellation that saw it queued is under way. -/
def Doomed (id : String) (world : World) : Prop :=
  (∃ item, world.root.stored id = some item ∧ item.status.isTerminal) ∨
    ∃ pid, CancelSawQueued world pid id

/-- The cancellation of everything turns to an item that was queued. -/
private theorem copies_of_pass (live : Pid → Bool) (answer : Answer)
    {item copy : Item} {items : List Item}
    (held : copy ∈ (Point.each .cancelAll (item :: items)).copies) :
    copy ∈ firstSeen (passWrites live item answer .cancelAll) ∨
      copy ∈ (Point.each .cancelAll items).copies := by
  obtain ⟨member, acts⟩ := List.mem_filter.mp held
  rcases List.mem_cons.mp member with same | later
  · left
    subst same
    have queued : copy.status = .queued := by
      simpa [Purpose.acts] using acts
    simp [passWrites, cancelAllWrites, queued, saveTerminal, firstSeen]
  · exact .inr (List.mem_filter.mpr ⟨later, acts⟩)

/-- The cancellation goes on reading, or has computed what it writes. -/
private theorem copies_of_next {live : Pid → Bool} {root : Root}
    {process : Process} {answer : Answer}
    (proper : Proper root.stored process) (idle : process.pending = [])
    (client : process.point.supervises = false) {copy : Item}
    (held : copy ∈ process.copies) :
    ∃ after, (proceed live root process answer).process = some after ∧
      after.point.supervises = false ∧ copy ∈ after.copies := by
  have copied : copy ∈ process.point.copies := by
    simpa [Process.copies, idle, firstSeen] using held
  cases here : process.point with
  | load purpose names loaded =>
      rw [here] at client copied
      have everything : purpose = .cancelAll := by
        simpa [Point.supervises] using client
      subst everything
      cases names with
      | nil =>
          simp only [proceed, here]
          refine ⟨_, rfl, rfl, ?_⟩
          exact List.mem_append_right _ copied
      | cons name names =>
          have listed := proper.listed
          rw [here] at listed
          obtain ⟨item, found⟩ := Option.isSome_iff_exists.mp
            (listed name List.mem_cons_self)
          have lookup : root.queue.lookup name = some item := found
          simp only [proceed, here, lookup]
          refine ⟨_, rfl, rfl, ?_⟩
          apply List.mem_append_right
          obtain ⟨member, acts⟩ := List.mem_filter.mp copied
          exact List.mem_filter.mpr ⟨List.mem_append_left _ member, acts⟩
  | each purpose items =>
      rw [here] at client copied
      have everything : purpose = .cancelAll := by
        simpa [Point.supervises] using client
      subst everything
      cases items with
      | nil => cases copied
      | cons item items =>
          simp only [proceed, here]
          refine ⟨_, rfl, rfl, ?_⟩
          exact List.mem_append.mpr (copies_of_pass live answer copied)
  | verify item | spawn item =>
      rw [here] at client
      cases client
  | _ =>
      rw [here] at copied
      cases copied

/-- The copy that a process saves first, or one it still has. -/
private theorem copies_of_wrote {process : Process} {action : Write}
    {pending : List Write} (next : process.pending = action :: pending)
    {copy : Item} (held : copy ∈ process.copies) :
    (∃ item, action = .saveItem (some copy) item) ∨
      copy ∈ ({ process with pending } : Process).copies := by
  rcases List.mem_append.mp held with seen | copied
  · rw [next] at seen
    cases action with
    | saveItem old item =>
        left
        have same : old = some copy := by
          simpa [firstSeen] using seen
        exact ⟨item, by rw [same]⟩
    | _ => exact .inr (List.mem_append_left _ seen)
  · exact .inr (List.mem_append_right _ copied)

private theorem stored_of_firstSeen {client : Bool} {stored : Store}
    {pending : List Write} (legal : Legal client stored pending) {copy : Item}
    (seen : copy ∈ firstSeen pending) :
    stored copy.id = some copy ∧ copy.id ∈ savedIds pending := by
  induction pending with
  | nil => cases seen
  | cons action pending induction =>
      cases action with
      | saveItem old item =>
          have same : old = some copy := by
            simpa [firstSeen] using seen
          subst same
          obtain ⟨stored, moves, _⟩ := legal.1
          have sameId := (moves copy rfl).same
          rw [← sameId]
          exact ⟨stored, List.mem_cons_self⟩
      | _ => exact induction legal.2 seen

/-- A held copy is the stored one. -/
private theorem stored_of_copies {stored : Store} {process : Process}
    (proper : Proper stored process) {copy : Item}
    (held : copy ∈ process.copies) :
    stored copy.id = some copy ∧ copy.id ∈ process.holds := by
  rcases List.mem_append.mp held with seen | copied
  · obtain ⟨isStored, saved⟩ := stored_of_firstSeen proper.legal seen
    exact ⟨isStored, List.mem_append_left _ saved⟩
  · exact ⟨proper.current copy copied,
      List.mem_append_right _ (List.mem_map_of_mem copied)⟩

/-- Only the point before the start of a scheduler starts one. -/
private theorem spawn_of_start {live : Pid → Bool} {root : Root}
    {process after : Process} {answer : Answer} {started : String}
    (starts : proceed live root process answer = .start started after) :
    ∃ item, process.point = .spawn item ∧ started = item.id := by
  cases here : process.point with
  | spawn item =>
      simp only [proceed, here] at starts
      cases starts
      exact ⟨item, rfl, rfl⟩
  | load purpose names loaded =>
      cases names <;> cases purpose <;>
        simp only [proceed, here, afterLoad, Process.goTo, Process.release,
          Process.writeThen, Process.raise] at starts
      all_goals
        repeat' split at starts
        all_goals cases starts
  | each purpose items | poll items =>
      cases items <;>
        simp only [proceed, here, Process.goTo, Process.writeThen] at starts
      all_goals
        repeat' split at starts
        all_goals cases starts
  | _ =>
      simp only [proceed, here, Process.goTo, Process.writeThen,
        Process.raise, Process.release] at starts
      repeat' split at starts
      all_goals cases starts

/-- A step starts the scheduler of no item, or of one that its process holds
and has found queued. -/
private theorem started_step (invariant : SectionInvariant world)
    (stepped : step world input = some next) :
    next.started = world.started ∨
      ∃ pid process item, world.process pid = some process ∧
        process.point.supervises ∧ item.id ∈ process.holds ∧
        world.root.stored item.id = some item ∧ item.status = .queued ∧
        next.started = world.started ++ [item.id] := by
  cases stepped_of_step stepped with
  | @read pid answer process alive idle =>
      cases result : proceed world.live world.root process answer with
      | start started after =>
          right
          obtain ⟨item, here, same⟩ := spawn_of_start result
          have proper := invariant.proper pid process alive
          have tidy := proper.tidy
          rw [here] at tidy
          have copied : item ∈ process.point.copies := by
            rw [here]
            exact List.mem_cons_self
          refine ⟨pid, process, item, alive, ?_, ?_,
            proper.current item copied, tidy, ?_⟩
          · rw [here]
            rfl
          · exact List.mem_append_right _ (List.mem_map_of_mem copied)
          · rw [← same]
            rfl
      | _ => exact .inl rfl
  | _ => exact .inl rfl

/-- A doomed item is not started. -/
private theorem started_of_doomed (invariant : SectionInvariant world)
    (stepped : step world input = some next) (doomed : Doomed id world) :
    next.started.count id = world.started.count id := by
  rcases started_step invariant stepped with same | started
  · rw [same]
  · obtain ⟨pid, process, item, alive, supervises, held, stored, queued,
      grown⟩ := started
    have different : item.id ≠ id := by
      intro same
      subst same
      rcases doomed with ended | cancelling
      · obtain ⟨other, isStored, terminal⟩ := ended
        rw [stored] at isStored
        cases isStored
        rw [queued] at terminal
        cases terminal
      · obtain ⟨canceller, clientProcess, copy, clientAlive, client, copied,
          same, _⟩ := cancelling
        have clientHolds := (stored_of_copies
          (invariant.proper canceller clientProcess clientAlive) copied).2
        have others : canceller ≠ pid := by
          intro samePid
          rw [samePid, alive] at clientAlive
          cases clientAlive
          rw [client] at supervises
          cases supervises
        rw [same] at clientHolds
        exact invariant.apart canceller pid clientProcess process clientAlive
          alive others item.id clientHolds held
    rw [grown, List.count_append]
    simp [different]

/-- A doomed item stays doomed, as long as nobody dies. -/
private theorem doomed_step (invariant : SectionInvariant world)
    (supervised : OneSupervisor world input)
    (stepped : step world input = some next) (doomed : Doomed id world) :
    Doomed id next := by
  rcases doomed with ended | cancelling
  · obtain ⟨item, stored, terminal⟩ := ended
    obtain ⟨later, isStored, same⟩ := hasStatus_step invariant stepped terminal
      ⟨item, stored, rfl⟩
    exact .inl ⟨later, isStored, by rw [same]; exact terminal⟩
  · obtain ⟨canceller, process, copy, alive, client, held, sameId, queued⟩ :=
      cancelling
    have unchanged : next.process canceller = world.process canceller →
        Doomed id next := by
      intro same
      rw [← same] at alive
      exact .inr ⟨canceller, process, copy, alive, client, held, sameId,
        queued⟩
    cases stepped_of_step stepped with
    | @begun pid command fresh positive free entry =>
        apply unchanged
        apply World.process_set_of_ne
        intro same
        rw [same, free] at alive
        cases alive
    | refused => exact unchanged rfl
    | @wrote pid answer writer action pending writerAlive pendingNext =>
        by_cases same : canceller = pid
        · subst same
          rw [alive] at writerAlive
          cases writerAlive
          rcases copies_of_wrote pendingNext held with saved | kept
          · obtain ⟨item, saves⟩ := saved
            subst saves
            obtain ⟨_, moves, _⟩ := fits_of_pending invariant alive pendingNext
            have moved := moves copy rfl
            have after : ((world.write canceller
                (.saveItem (some copy) item)).set canceller
                  { process with pending }).root.stored =
                Write.store world.root.stored
                  (.saveItem (some copy) item) :=
              stored_perform canceller world.root _
            refine .inl ⟨item, ?_, moved.queued (by simp [client]) queued⟩
            rw [after, ← sameId, ← moved.same]
            simp [Write.store]
          · exact .inr ⟨canceller, { process with pending }, copy,
              World.process_set_self _ _ _, client, kept, sameId, queued⟩
        · exact unchanged (World.process_set_of_ne _ _ same)
    | @read pid answer reader readerAlive idle =>
        by_cases same : canceller = pid
        · subst same
          rw [alive] at readerAlive
          cases readerAlive
          obtain ⟨after, isNext, afterClient, kept⟩ :=
            copies_of_next (invariant.proper canceller process alive) idle
              client held
          refine .inr ⟨canceller, after, copy, ?_, afterClient, kept, sameId,
            queued⟩
          rw [World.process_follow_self]
          exact isNext
        · exact unchanged (World.process_follow_of_ne _ _ same)
    | @signalled pid server serverAlive serves =>
        apply unchanged
        apply World.process_set_of_ne
        intro same
        rw [same, serverAlive] at alive
        cases alive
        simp [Process.serves, client] at serves
    | died => exact supervised.elim

end Step

/-- In every run with one supervisor whose sections on an item do not overlap,
no update is lost. -/
theorem no_lost_update_of_sectionsApart (root : Root)
    (first second : List Input) (middle final : World)
    (supervised : Along step OneSupervisor (World.idle root) (first ++ second))
    (apart : Along step SectionsApart (World.idle root) (first ++ second))
    (reached : follow step (World.idle root) first = some middle)
    (ran : follow step middle second = some final) :
    NoLostUpdate middle final := by
  let Sound := fun world => SectionInvariant world ∧ OneServe world
  have keeps : ∀ world input next, Sound world →
      (OneSupervisor world input ∧ SectionsApart world input) →
      step world input = some next → Sound next := by
    intro world input next ⟨invariant, one⟩ ⟨supervised, apart⟩ stepped
    exact ⟨invariant.step apart one.oneAtWork stepped,
      one.step supervised stepped⟩
  obtain ⟨before, after⟩ := along_append (supervised.and apart) reached
  have start : Sound (World.idle root) := by
    refine ⟨sectionInvariant_idle root, ?_⟩
    intro first second firstProcess secondProcess alive
    cases alive
  have sound := follow_keeps keeps start before reached
  constructor
  · intro id item stored ended
    have kept := follow_keeps
      (fun world input next
          (both : Sound world ∧ HasStatus item.status id world) conditions
          stepped =>
        ⟨keeps world input next both.1 conditions stepped,
          hasStatus_step both.1.1 stepped ended both.2⟩)
      ⟨sound, item, stored, rfl⟩ after ran
    exact kept.2
  · intro pid id saw
    have kept := follow_keeps
      (fun world input next
          (both : Sound world ∧ Doomed id world ∧
            world.started.count id = middle.started.count id) conditions
          stepped =>
        ⟨keeps world input next both.1 conditions stepped,
          doomed_step both.1.1 conditions.1 stepped both.2.1,
          (started_of_doomed both.1.1 stepped both.2.1).trans both.2.2⟩)
      ⟨sound, .inr ⟨pid, saw⟩, rfl⟩ after ran
    exact kept.2.2
  · intro pid process seen item pending alive next
    have finalSound := follow_keeps keeps sound after ran
    exact (fits_of_pending finalSound.1 alive next).1

/-- A control root with one queued item. -/
def oneQueued : Root :=
  { Root.initialized with
    nextSeq := 2
    queue := Keyed.empty.put
      ((⟨"nightly.json", "", some "nightly", 0⟩ : Submission).item 1 {}) }

/-- The item is cancelled after it was read, and the supervisor that comes
later leaves it alone. -/
theorem no_lost_update_of_sectionsApart_cancelled :
    ∃ middle final,
      follow step (World.idle oneQueued)
        (.start 2 (.cancel "nightly") :: advances 2 1) = some middle ∧
      CancelSawQueued middle 2 "nightly" ∧
      follow step middle
        (advances 2 5 ++ .start 1 (.serve 1 false) :: advances 1 20) =
          some final ∧
      HasStatus .cancelled "nightly" final ∧ final.started = [] ∧
      NoLostUpdate middle final :=
  ⟨_, _, rfl, ⟨_, _, rfl, rfl, List.mem_cons_self, rfl, rfl⟩, rfl,
    ⟨_, rfl, rfl⟩, rfl, no_lost_update_of_sectionsApart oneQueued
      (.start 2 (.cancel "nightly") :: advances 2 1)
      (advances 2 5 ++ .start 1 (.serve 1 false) :: advances 1 20) _ _
      (by decide) (by decide) rfl rfl⟩

/-- A cancellation reads the running item, the supervisor ends it, and the
cancellation writes it back as running. -/
theorem cancellation_revives_ended_item :
    ∃ middle final,
      follow step (World.idle oneQueued)
        (.start 1 (.serve 1 false) :: advances 1 26 ++
          .start 2 (.cancel "nightly") :: advances 2 1 ++
          .advance 1 { returncode := some 0 } :: advances 1 2) =
        some middle ∧
      follow step middle (advances 2 2) = some final ∧
      HasStatus .complete "nightly" middle ∧
      HasStatus .running "nightly" final ∧
      Along step OneSupervisor (World.idle oneQueued)
        ((.start 1 (.serve 1 false) :: advances 1 26 ++
          .start 2 (.cancel "nightly") :: advances 2 1 ++
          .advance 1 { returncode := some 0 } :: advances 1 2) ++
            advances 2 2) ∧
      ¬ NoLostUpdate middle final := by
  refine ⟨_, _, rfl, rfl, ⟨_, rfl, rfl⟩, ⟨_, rfl, rfl⟩, by decide, ?_⟩
  intro kept
  obtain ⟨_, stored, same⟩ := kept.terminal "nightly" _ rfl rfl
  cases stored
  cases same

end PpcLab.Control
