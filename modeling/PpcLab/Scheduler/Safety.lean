import PpcLab.Scheduler.Slots

/-!
# Scheduler safety

Whatever the markers, exits and crashes, every checkpoint respects the slots
and budgets of the manifest, ended campaigns stay ended, a process that has
seen a stop request starts nothing, and the dispatch loop never finds itself
stuck.
-/

namespace PpcLab.Scheduler

variable {manifest : Manifest}

/-- After every stop request a new process was begun. -/
def Restarted (history : List Event) : Prop :=
  ∀ before after, history = before ++ .stopSeen :: after → .begun ∈ after

/-- Between a stop request and the next start a new process was begun. -/
def StopsRespected (history : List Event) : Prop :=
  ∀ before between after launch,
    history = before ++ .stopSeen :: (between ++ .started launch :: after) →
      .begun ∈ between

/-- The last event of a history either is the one at a split or comes after
it. -/
private theorem split_last {history before after : List Event}
    {event mark : Event} (split : history ++ [event] = before ++ mark :: after) :
    (after = [] ∧ event = mark ∧ history = before) ∨
      ∃ init, after = init ++ [event] ∧ history = before ++ mark :: init := by
  rcases List.eq_nil_or_concat after with rfl | ⟨init, last, rfl⟩
  · obtain ⟨same, ends⟩ := List.append_inj' split rfl
    exact .inl ⟨rfl, List.head_eq_of_cons_eq ends, same⟩
  · rw [List.concat_eq_append, ← List.cons_append, ← List.append_assoc] at split
    obtain ⟨same, ends⟩ := List.append_inj' split rfl
    rw [List.head_eq_of_cons_eq ends]
    exact .inr ⟨init, List.concat_eq_append, same⟩

theorem restarted_begun (history : List Event) :
    Restarted (history ++ [.begun]) := by
  intro before after split
  rcases split_last split with ⟨_, impossible, _⟩ | ⟨init, rfl, _⟩
  · cases impossible
  · simp

theorem Restarted.append {history : List Event}
    (restarted : Restarted history) {event : Event}
    (quiet : event ≠ .stopSeen) : Restarted (history ++ [event]) := by
  intro before after split
  rcases split_last split with ⟨_, seen, _⟩ | ⟨init, rfl, same⟩
  · exact absurd seen quiet
  · exact List.mem_append_left _ (restarted before init same)

theorem StopsRespected.append {history : List Event}
    (respected : StopsRespected history) {event : Event}
    (started : ∀ launch, event = .started launch → Restarted history) :
    StopsRespected (history ++ [event]) := by
  intro before between after launch split
  rw [← List.cons_append, ← List.append_assoc] at split
  rcases split_last split with ⟨_, now, same⟩ | ⟨init, rfl, same⟩
  · exact started launch now before between same
  · rw [List.append_assoc] at same
    exact respected before between init launch same

structure World.Sound (manifest : Manifest) (world : World) : Prop where
  checkpoint : ∀ state ∈ world.checkpoint,
    Accounted manifest state ∧ Safe manifest state
  process : ∀ process ∈ world.process,
    world.checkpoint = some process.state ∧ process.Sound manifest
  respected : StopsRespected world.history
  restarted : ∀ process ∈ world.process,
    process.drained = false → Restarted world.history
  busy : ∀ process ∈ world.process, process.drained = true →
    ∀ launched, process.phase = .dispatch launched → process.running ≠ []
  unstuck : .deadlock ∉ world.history

/-- What is on record of ended campaigns stays on record. -/
def EndsRecorded (manifest : Manifest) (before after : World) : Prop :=
  ∀ state ∈ before.checkpoint, ∃ later ∈ after.checkpoint,
    EndsKept manifest state later

theorem EndsRecorded.refl (world : World) :
    EndsRecorded manifest world world := by
  intro state recorded
  exact ⟨state, recorded, fun _ _ _ => rfl⟩

theorem EndsRecorded.trans {first second third : World}
    (left : EndsRecorded manifest first second)
    (right : EndsRecorded manifest second third) :
    EndsRecorded manifest first third := by
  intro state recorded
  obtain ⟨middle, middleRecorded, firstKept⟩ := left state recorded
  obtain ⟨later, laterRecorded, secondKept⟩ := right middle middleRecorded
  exact ⟨later, laterRecorded, firstKept.trans secondKept⟩

/-- What every step of the scheduler keeps. -/
structure Kept (manifest : Manifest) (before after : World) : Prop where
  sound : after.Sound manifest
  recorded : EndsRecorded manifest before after

theorem World.fresh_sound : World.Sound manifest World.fresh := by
  constructor
  · rintro state ⟨⟩
  · rintro process ⟨⟩
  · intro before between after launch split
    simp [World.fresh] at split
  · rintro process ⟨⟩
  · rintro process ⟨⟩
  · simp [World.fresh]

section Steps

variable {world : World} {process : Process}

/-- The process stops where it is. -/
private theorem kept_ended (sound : world.Sound manifest) :
    Kept manifest world world.ended := by
  refine ⟨⟨sound.checkpoint, ?_, sound.respected, ?_, ?_, sound.unstuck⟩, ?_⟩
  · rintro other ⟨⟩
  · rintro other ⟨⟩
  · rintro other ⟨⟩
  · exact EndsRecorded.refl world

/-- The process notes an event and stops. -/
private theorem kept_noteEnded (sound : world.Sound manifest)
    (alive : world.process = some process) (event : Event)
    (started : ∀ launch, event = .started launch → Restarted world.history)
    (unstuck : event ≠ .deadlock) {state : State}
    (accounted : Accounted manifest state) (safe : Safe manifest state)
    (ends : EndsKept manifest process.state state) :
    Kept manifest world
      { checkpoint := some state
        process := none
        history := world.history ++ [event] } := by
  refine ⟨⟨?_, ?_, sound.respected.append started, ?_, ?_, ?_⟩, ?_⟩
  · rintro other ⟨⟩
    exact ⟨accounted, safe⟩
  · rintro other ⟨⟩
  · rintro other ⟨⟩
  · rintro other ⟨⟩
  · intro member
    rcases List.mem_append.mp member with before | now
    · exact sound.unstuck before
    · exact unstuck (List.mem_singleton.mp now).symm
  · intro other recorded
    rw [(sound.process process alive).1] at recorded
    cases recorded
    exact ⟨state, rfl, ends⟩

/-- The process goes on with a state it has written. -/
private theorem kept_advance (sound : world.Sound manifest)
    (alive : world.process = some process) {next : Process}
    (nextSound : next.Sound manifest)
    (ends : EndsKept manifest process.state next.state)
    (drained : next.drained = false → process.drained = false)
    (busy : next.drained = true → ∀ launched,
      next.phase = .dispatch launched → next.running ≠ []) :
    Kept manifest world
      { world with checkpoint := some next.state, process := some next } := by
  refine ⟨⟨?_, ?_, sound.respected, ?_, ?_, sound.unstuck⟩, ?_⟩
  · rintro state ⟨⟩
    exact ⟨nextSound.accounted, nextSound.safe⟩
  · rintro other ⟨⟩
    exact ⟨rfl, nextSound⟩
  · rintro other ⟨⟩ undrained
    exact sound.restarted process alive (drained undrained)
  · rintro other ⟨⟩
    exact busy
  · intro state recorded
    rw [(sound.process process alive).1] at recorded
    cases recorded
    exact ⟨next.state, rfl, ends⟩

/-- The process notes an event that is no stuck loop and goes on. -/
private theorem kept_noteAdvance (sound : world.Sound manifest)
    (alive : world.process = some process) (event : Event) {next : Process}
    (started : ∀ launch, event = .started launch → Restarted world.history)
    (unstuck : event ≠ .deadlock) (nextSound : next.Sound manifest)
    (ends : EndsKept manifest process.state next.state)
    (restarted : next.drained = false →
      Restarted (world.history ++ [event]))
    (busy : next.drained = true → ∀ launched,
      next.phase = .dispatch launched → next.running ≠ []) :
    Kept manifest world
      { checkpoint := some next.state
        process := some next
        history := world.history ++ [event] } := by
  obtain ⟨⟨checkpoint, -, respected, -, -, quiet⟩, recorded⟩ :=
    kept_noteEnded sound alive event started unstuck nextSound.accounted
      nextSound.safe ends
  refine ⟨⟨checkpoint, ?_, respected, ?_, ?_, quiet⟩, recorded⟩
  · rintro other ⟨⟩
    exact ⟨rfl, nextSound⟩
  · rintro other ⟨⟩
    exact restarted
  · rintro other ⟨⟩
    exact busy

/-- The process goes on with the state it had. -/
private theorem kept_goOn (sound : world.Sound manifest)
    (alive : world.process = some process) {phase : Phase}
    (left : ∀ left, phase = .poll left →
      left.Nodup ∧ ∀ campaign ∈ left, campaign ∈ process.running)
    (busy : process.drained = true → ∀ launched,
      phase = .dispatch launched → process.running ≠ []) :
    Kept manifest world (world.goOn process phase) := by
  obtain ⟨inStep, processSound⟩ := sound.process process alive
  have kept := kept_advance sound alive
    (processSound.inPhase process.drained left) (fun _ _ _ => rfl) id busy
  rw [← inStep] at kept
  exact kept

private theorem kept_cancelMarker (sound : world.Sound manifest)
    (alive : world.process = some process) (exits : String → Exit) :
    Kept manifest world ((world.note .stopSeen).write
      (cancelAll manifest process.state process.running exits)).ended := by
  have processSound := (sound.process process alive).2
  apply kept_noteEnded sound alive .stopSeen
  · rintro launch ⟨⟩
  · rintro ⟨⟩
  · exact accounted_cancelAll processSound.accounted _ exits
  · exact safe_cancelAll processSound exits
  · exact endsKept_cancelAll processSound exits

private theorem afterPoll_isTerminal {campaign : Campaign} {marker : Bool}
    {clock : Double} {exit : Exit} {status : Status}
    (ending : afterPoll campaign marker clock exit = some status) :
    status.isTerminal = true := by
  unfold afterPoll at ending
  split at ending
  · cases ending
    rfl
  · obtain ⟨code, -, rfl⟩ := Option.map_eq_some_iff.mp ending
    split
    · rfl
    · rfl

private theorem kept_pollStep (sound : world.Sound manifest)
    (alive : world.process = some process) {campaign : Campaign}
    {left : List Campaign} (polling : process.phase = .poll (campaign :: left))
    (marker : Bool) (clock : Double) (exit : Exit) :
    Kept manifest world
      (pollStep world process campaign left marker clock exit) := by
  have processSound := (sound.process process alive).2
  obtain ⟨leftNodup, leftRunning⟩ := processSound.left _ polling
  unfold pollStep
  cases ending : afterPoll campaign marker clock exit with
  | none =>
      apply kept_goOn sound alive
      · rintro rest ⟨rfl⟩
        refine ⟨(List.nodup_cons.mp leftNodup).2, ?_⟩
        intro other member
        exact leftRunning other (List.mem_cons_of_mem _ member)
      · rintro _ launched ⟨⟩
  | some status =>
      have running := leftRunning campaign List.mem_cons_self
      have wasRunning := (processSound.status campaign
        (processSound.member campaign running)).mpr running
      apply kept_advance sound alive
        (processSound.finish polling (afterPoll_isTerminal ending) exit)
      · apply endsKept_of_status campaign
        · rw [wasRunning]
          rfl
        · intro other different
          rw [status_finish, if_neg different]
      · exact id
      · rintro _ launched ⟨⟩

private theorem kept_drainStep (sound : world.Sound manifest)
    (alive : world.process = some process) (present : Bool) :
    Kept manifest world (drainStep world process present) := by
  obtain ⟨inStep, processSound⟩ := sound.process process alive
  have noPoll : ∀ left, Phase.dispatch false = .poll left →
      left.Nodup ∧ ∀ campaign ∈ left, campaign ∈ process.running := by
    rintro left ⟨⟩
  unfold drainStep
  cases present with
  | false =>
      simp only [Bool.false_eq_true, if_false, Bool.or_false]
      by_cases ending : (process.drained && process.running.isEmpty) = true
      · rw [if_pos ending]
        exact kept_ended sound
      · rw [if_neg ending]
        apply kept_goOn sound alive noPoll
        intro drained launched _ idle
        simp [drained, idle] at ending
  | true =>
      simp only [if_true, Bool.or_true, Bool.true_and]
      by_cases idle : process.running.isEmpty = true
      · have kept := kept_noteEnded sound alive .stopSeen
          (by rintro launch ⟨⟩) (by rintro ⟨⟩) processSound.accounted
          processSound.safe (fun _ _ _ => rfl)
        rw [← inStep] at kept
        rw [if_pos idle]
        exact kept
      · have kept := kept_noteAdvance sound alive .stopSeen
          (by rintro launch ⟨⟩) (by rintro ⟨⟩)
          (processSound.inPhase true noPoll) (fun _ _ _ => rfl)
          (by rintro ⟨⟩) (by simpa using idle)
        rw [← inStep] at kept
        rw [if_neg idle]
        exact kept

private theorem kept_leaveDispatch (sound : world.Sound manifest)
    (alive : world.process = some process) (launched : Bool)
    (settled : process.running = [] →
      anyPending manifest process.state = false) :
    Kept manifest world (leaveDispatch manifest world process launched) := by
  have onTop : Kept manifest world (world.goOn process .top) := by
    apply kept_goOn sound alive
    · rintro left ⟨⟩
    · rintro _ other ⟨⟩
  unfold leaveDispatch
  by_cases idle : process.running.isEmpty = true
  · have nothing := settled (List.isEmpty_iff.mp idle)
    rw [if_pos idle, nothing]
    exact kept_ended sound
  · rw [if_neg idle]
    exact onTop

private theorem kept_refuse (sound : world.Sound manifest)
    (alive : world.process = some process) {launched : Bool}
    (dispatching : process.phase = .dispatch launched) {campaign : Campaign}
    (pending : process.state.status campaign = .pending)
    {change : CampaignState → CampaignState}
    (kept : ∀ record, (change record).project = record.project)
    (ended : ∀ record, (change record).status.isTerminal = true) :
    Kept manifest world
      ((world.write (process.state.setCampaign campaign.id change)).goOn
        { process with
          state := process.state.setCampaign campaign.id change }
        (.dispatch launched)) := by
  have processSound := (sound.process process alive).2
  apply kept_advance sound alive
    (processSound.refuse pending kept ended launched)
  · apply endsKept_of_status campaign
    · rw [pending]
      rfl
    · intro other different
      rw [State.status_setCampaign, if_neg different]
  · exact id
  · intro drained _ _
    exact sound.busy process alive drained launched dispatching

private theorem kept_admitChosen (sound : world.Sound manifest)
    (alive : world.process = some process) {launched : Bool}
    (dispatching : process.phase = .dispatch launched)
    (undrained : process.drained = false)
    (free : process.running.length < manifest.globalMax)
    {campaign : Campaign}
    (chosen : Chosen manifest process.state process.running campaign)
    (marker survives : Bool) :
    Kept manifest world
      (admitChosen manifest world process launched campaign marker survives) := by
  obtain ⟨inStep, processSound⟩ := sound.process process alive
  have restarted := sound.restarted process alive undrained
  unfold admitChosen
  cases marker with
  | true =>
      exact kept_refuse sound alive dispatching chosen.pending (fun _ => rfl)
        (fun _ => rfl)
  | false =>
      simp only [Bool.false_eq_true, if_false]
      split
      · exact kept_refuse sound alive dispatching chosen.pending
          (fun _ => rfl) (fun _ => rfl)
      · next allowed =>
          cases survives with
          | true =>
              apply kept_noteAdvance sound alive (.started _)
                (fun _ _ => restarted) (by rintro ⟨⟩)
                (processSound.launch chosen free allowed)
              · apply endsKept_of_status campaign
                · rw [chosen.pending]
                  rfl
                · intro other different
                  rw [status_launch, if_neg different]
              · intro _
                exact restarted.append (by rintro ⟨⟩)
              · simp
          | false =>
              have kept := kept_noteEnded sound alive
                (.started ⟨campaign, process.state, process.running⟩)
                (fun _ _ => restarted) (by rintro ⟨⟩) processSound.accounted
                processSound.safe (fun _ _ _ => rfl)
              rw [← inStep] at kept
              exact kept

private theorem kept_dispatchStep (sound : world.Sound manifest)
    (alive : world.process = some process) {launched : Bool}
    (dispatching : process.phase = .dispatch launched)
    (marker survives : Bool) :
    Kept manifest world
      (dispatchStep manifest world process launched marker survives) := by
  unfold dispatchStep
  by_cases closed : (process.drained ||
      decide (manifest.globalMax ≤ process.running.length)) = true
  · rw [if_pos closed]
    apply kept_leaveDispatch sound alive
    intro idle
    have drained : process.drained = true := by
      have := manifest.globalMax_pos
      simpa [idle, Nat.not_le_of_gt this] using closed
    exact absurd idle (sound.busy process alive drained launched dispatching)
  · rw [if_neg closed]
    obtain ⟨undrained, free⟩ : process.drained = false ∧
        process.running.length < manifest.globalMax := by
      simpa using closed
    split
    · exact kept_ended sound
    · next nothing =>
        apply kept_leaveDispatch sound alive
        intro idle
        apply anyPending_of_idle
        rw [← idle]
        exact chooseNext_none nothing
    · next campaign chosen =>
        exact kept_admitChosen sound alive dispatching undrained free
          (chooseNext_some chosen) marker survives

private theorem kept_processStep (sound : world.Sound manifest)
    (alive : world.process = some process) {input : Input} {next : World}
    (stepped : processStep manifest world process process.phase input =
      some next) : Kept manifest world next := by
  have processSound := (sound.process process alive).2
  unfold processStep at stepped
  split at stepped
  · next present exits phase =>
      split at stepped
      · cases stepped
        exact kept_cancelMarker sound alive exits
      · cases stepped
        apply kept_goOn sound alive
        · rintro left ⟨rfl⟩
          exact ⟨processSound.nodup, fun _ member => member⟩
        · rintro _ launched ⟨⟩
  · next campaign left marker clock exit phase =>
      cases stepped
      exact kept_pollStep sound alive phase marker clock exit
  · next present phase =>
      cases stepped
      exact kept_drainStep sound alive present
  · next launched marker survives phase =>
      cases stepped
      exact kept_dispatchStep sound alive phase marker survives
  · cases stepped
    exact kept_ended sound
  · cases stepped

/-- A new process takes ending from the checkpoint. -/
private theorem kept_startStep (sound : world.Sound manifest)
    (resume : Bool) :
    Kept manifest world (startStep manifest world resume) := by
  unfold startStep
  cases loaded : loadState manifest world.checkpoint resume with
  | error message => exact ⟨sound, EndsRecorded.refl world⟩
  | ok state =>
      obtain ⟨accounted, idle, recorded⟩ : Accounted manifest state ∧
          (∀ campaign, state.status campaign ≠ .running) ∧
          ∀ before ∈ world.checkpoint, EndsKept manifest before state := by
        unfold loadState at loaded
        cases saved : world.checkpoint with
        | none =>
            rw [saved] at loaded
            cases resume with
            | true => cases loaded
            | false =>
                cases loaded
                refine ⟨accounted_newState, ?_, ?_⟩
                · rintro campaign ⟨⟩
                · rintro before ⟨⟩
        | some before =>
            rw [saved] at loaded
            cases resume with
            | false => cases loaded
            | true =>
                cases loaded
                refine ⟨accounted_resumed (sound.checkpoint before saved).1,
                  ?_, ?_⟩
                · intro campaign
                  rw [status_resumed]
                  split
                  · rintro ⟨⟩
                  · assumption
                · rintro other ⟨⟩
                  exact endsKept_resumed
      have processSound := Process.sound_start accounted
        (fun campaign _ => idle campaign)
      refine ⟨⟨?_, ?_, ?_, ?_, ?_, ?_⟩, ?_⟩
      · rintro other ⟨⟩
        exact ⟨accounted, processSound.safe⟩
      · rintro other ⟨⟩
        exact ⟨rfl, processSound⟩
      · apply sound.respected.append
        rintro launch ⟨⟩
      · rintro other ⟨⟩ _
        exact restarted_begun world.history
      · rintro other ⟨⟩ _ launched ⟨⟩
      · simp [sound.unstuck]
      · intro before saved
        exact ⟨state, rfl, recorded before saved⟩

/-- Every step keeps the scheduler sound, and ended campaigns ended. -/
theorem step_kept {input : Input} {next : World}
    (sound : world.Sound manifest)
    (stepped : step manifest world input = some next) :
    Kept manifest world next := by
  unfold step at stepped
  split at stepped
  · next process alive => exact kept_processStep sound alive stepped
  · split at stepped
    · cases stepped
      exact kept_startStep sound _
    · cases stepped

end Steps

/-- Scheduler safety of a run that has come to a world: its checkpoint
respects the manifest, no stop request is followed by a start of the same
process, the dispatch loop has not been stuck, and the campaigns that had
ended at an earlier point of the run are still as they were. -/
structure SafeRun (manifest : Manifest) (inputs : List Input)
    (world : World) : Prop where
  checkpoint : ∀ state ∈ world.checkpoint, Safe manifest state
  stops : StopsRespected world.history
  unstuck : .deadlock ∉ world.history
  ended : ∀ first rest earlier, inputs = first ++ rest →
    follow (step manifest) World.fresh first = some earlier →
      ∀ before ∈ earlier.checkpoint, ∀ after ∈ world.checkpoint,
        EndsKept manifest before after

theorem follow_sound {inputs : List Input} {world : World}
    (ran : follow (step manifest) World.fresh inputs = some world) :
    world.Sound manifest :=
  follow_preserves (fun _ _ _ sound stepped => (step_kept sound stepped).sound)
    World.fresh_sound ran

/-- Every run of the scheduler is safe, whatever it meets. -/
theorem scheduler_safe (manifest : Manifest) (inputs : List Input)
    (world : World)
    (ran : follow (step manifest) World.fresh inputs = some world) :
    SafeRun manifest inputs world := by
  have sound := follow_sound ran
  constructor
  · intro state saved
    exact (sound.checkpoint state saved).2
  · exact sound.respected
  · exact sound.unstuck
  · intro first rest earlier split early before saved after recorded
    rw [split, follow_append, early] at ran
    have kept : EndsRecorded manifest earlier world :=
      follow_relates EndsRecorded.refl EndsRecorded.trans
        (fun _ _ _ sound stepped =>
          ⟨(step_kept sound stepped).sound, (step_kept sound stepped).recorded⟩)
        (follow_sound early) ran
    obtain ⟨later, found, ends⟩ := kept before saved
    rw [found] at recorded
    cases recorded
    exact ends

def Event.isStop : Event → Bool
  | .stopSeen => true
  | _ => false

def Event.isStart : Event → Bool
  | .started _ => true
  | _ => false

/-- No campaign is started after the first stop request, by any process. -/
def quietAfterStop (history : List Event) : Bool :=
  (history.dropWhile (!·.isStop)).all (!·.isStart)

/-- Two campaigns that share one slot. -/
def twoCampaigns : Manifest :=
  { projects := [⟨"lab", 0, 1, 1, none, none⟩]
    campaigns := [⟨"first", "lab", "first.json", "first", 1, 0, none, 0⟩,
      ⟨"second", "lab", "second.json", "second", 0, 0, none, 1⟩]
    globalMax := 1
    globalMax_pos := by simp
    weight_pos := by simp
    slots_pos := by simp
    projects_nodup := by simp
    campaigns_nodup := by simp
    projects_order := rfl
    campaigns_order := rfl
    project_known := by simp }

/-- The first campaign is started, the scheduler is drained, and after the
marker is gone it is resumed. -/
def drainedAndResumed : List Input :=
  let noCancel : Input := .cancelMarker false fun _ => ⟨0, none⟩
  [.start false, noCancel, .drainMarker false, .dispatch false true,
    .dispatch false true, noCancel, .poll false 0 ⟨0, some 0⟩,
    .drainMarker true, .start true, noCancel, .drainMarker false,
    .dispatch false true]

theorem scheduler_safe_resumed :
    ∃ world, follow (step twoCampaigns) World.fresh drainedAndResumed =
        some world ∧
      SafeRun twoCampaigns drainedAndResumed world := by
  have ran : (follow (step twoCampaigns) World.fresh
      drainedAndResumed).isSome = true := by
    decide
  obtain ⟨world, reached⟩ := Option.isSome_iff_exists.mp ran
  exact ⟨world, reached,
    scheduler_safe twoCampaigns drainedAndResumed world reached⟩

/-- The resumed scheduler takes up the pending campaign. -/
theorem resumed_scheduler_starts_after_drain :
    ∃ world, follow (step twoCampaigns) World.fresh drainedAndResumed =
        some world ∧
      quietAfterStop world.history = false := by
  have ran : ((follow (step twoCampaigns) World.fresh
      drainedAndResumed).map fun world => quietAfterStop world.history) =
      some false := by
    decide
  exact Option.map_eq_some_iff.mp ran

end PpcLab.Scheduler
