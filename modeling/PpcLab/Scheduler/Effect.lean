import PpcLab.Scheduler.Safety

/-!
# What a scheduler step does

Seen from the checkpoint and from the processes it has started, every step of
the scheduler is one of a few effects.
-/

namespace PpcLab.Scheduler

/-- The campaign processes started so far. -/
def launchesOf (history : List Event) : List Launch :=
  history.filterMap fun
    | .started launch => some launch
    | _ => none

@[simp] theorem launchesOf_append (first second : List Event) :
    launchesOf (first ++ second) = launchesOf first ++ launchesOf second :=
  List.filterMap_append

@[simp] theorem launchesOf_begun : launchesOf [.begun] = [] := rfl

@[simp] theorem launchesOf_stopSeen : launchesOf [.stopSeen] = [] := rfl

@[simp] theorem launchesOf_deadlock : launchesOf [.deadlock] = [] := rfl

@[simp] theorem launchesOf_started (launch : Launch) :
    launchesOf [.started launch] = [launch] := rfl

/-- The campaign whose admission the dispatch loop examines next. -/
def examined (manifest : Manifest) (process : Process) : Option Campaign :=
  if process.drained || decide (manifest.globalMax ≤ process.running.length) then
    none
  else
    match chooseNext manifest process.state process.running with
    | .ok campaign => campaign
    | .error _ => none

inductive Effect (manifest : Manifest) (world : World) (input : Input)
    (next : World) : Prop where
  /-- Nothing is started and nothing changes on disk. -/
  | quiet (same : next.checkpoint = world.checkpoint)
      (none : launchesOf next.history = launchesOf world.history)
  | created (absent : world.checkpoint = Option.none)
      (saved : next.checkpoint = some (newState manifest))
      (none : launchesOf next.history = launchesOf world.history)
  | resumed (state : State) (before : world.checkpoint = some state)
      (saved : next.checkpoint = some (Scheduler.resumed state))
      (none : launchesOf next.history = launchesOf world.history)
  | finished (state : State) (campaign : Campaign) (status : Status)
      (exit : Exit) (before : world.checkpoint = some state)
      (notBlocked : status ≠ .quotaBlocked)
      (saved : next.checkpoint = some (finish state campaign status exit))
      (none : launchesOf next.history = launchesOf world.history)
  | cancelled (process : Process) (exits : String → Exit)
      (before : world.checkpoint = some process.state)
      (sound : process.Sound manifest)
      (saved : next.checkpoint = some
        (cancelAll manifest process.state process.running exits))
      (none : launchesOf next.history = launchesOf world.history)
  | withdrawn (state : State) (campaign : Campaign)
      (before : world.checkpoint = some state)
      (saved : next.checkpoint = some (state.setCampaign campaign.id
        fun record => { record with status := .cancelled }))
      (none : launchesOf next.history = launchesOf world.history)
  | blocked (process : Process) (campaign : Campaign) (reason : Option String)
      (survives : Bool) (taken : input = .dispatch false survives)
      (alive : world.process = some process)
      (before : world.checkpoint = some process.state)
      (examining : examined manifest process = some campaign)
      (chosen : Chosen manifest process.state process.running campaign)
      (refused : quotaAllows manifest campaign process.state = (false, reason))
      (saved : next.checkpoint = some (process.state.setCampaign campaign.id
        fun record => { record with status := .quotaBlocked, reason }))
      (none : launchesOf next.history = launchesOf world.history)
  | launched (process : Process) (campaign : Campaign)
      (reason : Option String) (survives : Bool)
      (taken : input = .dispatch false survives)
      (alive : world.process = some process)
      (before : world.checkpoint = some process.state)
      (examining : examined manifest process = some campaign)
      (chosen : Chosen manifest process.state process.running campaign)
      (allowed : quotaAllows manifest campaign process.state = (true, reason))
      (saved : next.checkpoint =
        some (if survives then launch process.state campaign
          else process.state))
      (one : launchesOf next.history = launchesOf world.history ++
        [⟨campaign, process.state, process.running⟩])

section Steps

variable {manifest : Manifest} {world : World} {process : Process}
    {input : Input}

private theorem effect_leaveDispatch (launched : Bool) :
    Effect manifest world input
      (leaveDispatch manifest world process launched) := by
  unfold leaveDispatch
  split
  · split
    · exact .quiet rfl rfl
    · split
      · exact .quiet rfl (by simp [World.ended, World.note])
      · exact .quiet rfl rfl
  · exact .quiet rfl rfl

private theorem effect_pollStep (sound : world.Sound manifest)
    (alive : world.process = some process) (campaign : Campaign)
    (left : List Campaign) (marker : Bool) (clock : Double) (exit : Exit) :
    Effect manifest world input
      (pollStep world process campaign left marker clock exit) := by
  unfold pollStep
  cases ending : afterPoll campaign marker clock exit with
  | none => exact .quiet rfl rfl
  | some status =>
      have notBlocked : status ≠ .quotaBlocked := by
        rintro rfl
        unfold afterPoll at ending
        split at ending
        · cases ending
        · obtain ⟨code, -, coded⟩ := Option.map_eq_some_iff.mp ending
          split at coded
          · cases coded
          · cases coded
      exact .finished process.state campaign status exit
        (sound.process process alive).1 notBlocked rfl rfl

private theorem effect_drainStep (present : Bool) :
    Effect manifest world input (drainStep world process present) := by
  unfold drainStep
  cases present with
  | true =>
      simp only [if_true]
      split
      · exact .quiet rfl (by simp [World.ended, World.note])
      · exact .quiet rfl (by simp [World.goOn, World.note])
  | false =>
      simp only [Bool.false_eq_true, if_false]
      split
      · exact .quiet rfl rfl
      · exact .quiet rfl rfl

private theorem effect_admitChosen (sound : world.Sound manifest)
    (alive : world.process = some process) (launched : Bool)
    {campaign : Campaign} (examining : examined manifest process = some campaign)
    (chosen : Chosen manifest process.state process.running campaign)
    (marker survives : Bool) :
    Effect manifest world (.dispatch marker survives)
      (admitChosen manifest world process launched campaign marker survives) := by
  have before := (sound.process process alive).1
  unfold admitChosen
  cases marker with
  | true => exact .withdrawn process.state campaign before rfl rfl
  | false =>
      simp only [Bool.false_eq_true, if_false]
      split
      · next refused =>
          exact .blocked process campaign _ survives rfl alive before examining
            chosen refused rfl rfl
      · next allowed =>
          refine .launched process campaign _ survives rfl alive before
            examining chosen allowed ?_ ?_
          · cases survives with
            | true => rfl
            | false => exact before
          · cases survives with
            | true => simp [World.goOn, World.write, World.note]
            | false => simp [World.ended, World.note]

private theorem effect_dispatchStep (sound : world.Sound manifest)
    (alive : world.process = some process) (launched marker survives : Bool) :
    Effect manifest world (.dispatch marker survives)
      (dispatchStep manifest world process launched marker survives) := by
  unfold dispatchStep
  split
  · exact effect_leaveDispatch launched
  · next opened =>
      split
      · exact .quiet rfl rfl
      · exact effect_leaveDispatch launched
      · next campaign chosen =>
          refine effect_admitChosen sound alive launched ?_ (chooseNext_some chosen)
            marker survives
          rw [examined, if_neg opened, chosen]

private theorem effect_processStep (sound : world.Sound manifest)
    (alive : world.process = some process) {next : World}
    (stepped : processStep manifest world process process.phase input =
      some next) : Effect manifest world input next := by
  obtain ⟨before, processSound⟩ := sound.process process alive
  unfold processStep at stepped
  split at stepped
  · next exits _ =>
      split at stepped
      · cases stepped
        exact .cancelled process exits before processSound rfl
          (by simp [World.ended, World.write, World.note])
      · cases stepped
        exact .quiet rfl rfl
  · cases stepped
    exact effect_pollStep sound alive _ _ _ _ _
  · cases stepped
    exact effect_drainStep _
  · cases stepped
    exact effect_dispatchStep sound alive _ _ _
  · cases stepped
    exact .quiet rfl rfl
  · cases stepped

private theorem effect_startStep (resume : Bool) :
    Effect manifest world input (startStep manifest world resume) := by
  unfold startStep
  cases loaded : loadState manifest world.checkpoint resume with
  | error message => exact .quiet rfl rfl
  | ok state =>
      unfold loadState at loaded
      cases saved : world.checkpoint with
      | none =>
          rw [saved] at loaded
          cases resume with
          | true => cases loaded
          | false =>
              cases loaded
              exact .created saved rfl (by simp)
      | some before =>
          rw [saved] at loaded
          cases resume with
          | false => cases loaded
          | true =>
              cases loaded
              exact .resumed before saved rfl (by simp)

/-- Every step has one of the effects. -/
theorem step_effect (sound : world.Sound manifest) {next : World}
    (stepped : step manifest world input = some next) :
    Effect manifest world input next := by
  unfold step at stepped
  split at stepped
  · next process alive => exact effect_processStep sound alive stepped
  · split at stepped
    · cases stepped
      exact effect_startStep _
    · cases stepped

end Steps

end PpcLab.Scheduler
