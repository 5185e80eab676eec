import PpcLab.Scheduler.Selection
import Mathlib.Data.List.Perm.Basic

/-!
# Slots and budgets

Every change the scheduler makes to its state is one of a few: a campaign
ends, is refused, is launched, or everything is cancelled.  None of them takes
a slot or a reservation that the manifest does not grant, and none touches a
campaign that has ended.
-/

namespace PpcLab.Scheduler

open Ieee754

namespace State

theorem status_setCampaign (state : State) (id : String)
    (change : CampaignState → CampaignState) (campaign : Campaign) :
    (state.setCampaign id change).status campaign =
      if campaign.id = id then (change (state.campaigns id)).status
      else state.status campaign := by
  unfold status setCampaign
  by_cases same : campaign.id = id
  · simp [same]
  · simp [same]

@[simp] theorem status_setProject (state : State) (id : String)
    (change : ProjectState → ProjectState) (campaign : Campaign) :
    (state.setProject id change).status campaign = state.status campaign :=
  rfl

@[simp] theorem projects_setCampaign (state : State) (id : String)
    (change : CampaignState → CampaignState) :
    (state.setCampaign id change).projects = state.projects := rfl

@[simp] theorem campaigns_setProject (state : State) (id : String)
    (change : ProjectState → ProjectState) :
    (state.setProject id change).campaigns = state.campaigns := rfl

/-- A change that leaves the project of a record alone. -/
theorem project_setCampaign (state : State) (id : String)
    {change : CampaignState → CampaignState}
    (kept : ∀ record, (change record).project = record.project)
    (other : String) :
    ((state.setCampaign id change).campaigns other).project =
      (state.campaigns other).project := by
  unfold setCampaign
  by_cases same : other = id
  · subst same
    simp [kept]
  · simp [Function.update_of_ne same]

end State

/-- The records belong to the projects of the manifest, and no project has
reserved more than its budget. -/
structure Accounted (manifest : Manifest) (state : State) : Prop where
  project : ∀ campaign ∈ manifest.campaigns,
    (state.campaigns campaign.id).project = campaign.project
  budget : ∀ project ∈ manifest.projects, ∀ budget ∈ project.caseBudget,
    (state.projects project.id).reservedCases ≤ budget

/-- A campaign that has ended keeps its status. -/
def EndsKept (manifest : Manifest) (before after : State) : Prop :=
  ∀ campaign ∈ manifest.campaigns,
    (before.status campaign).isTerminal = true →
      after.status campaign = before.status campaign

theorem EndsKept.trans {manifest : Manifest} {first second third : State}
    (left : EndsKept manifest first second)
    (right : EndsKept manifest second third) :
    EndsKept manifest first third := by
  intro campaign member ended
  have kept := left campaign member ended
  rw [right campaign member (by rwa [kept]), kept]

section Changes

variable {manifest : Manifest} {state : State} {campaign : Campaign}

theorem accounted_setCampaign (accounted : Accounted manifest state)
    (id : String) {change : CampaignState → CampaignState}
    (kept : ∀ record, (change record).project = record.project) :
    Accounted manifest (state.setCampaign id change) := by
  constructor
  · intro other member
    rw [state.project_setCampaign id kept]
    exact accounted.project other member
  · exact accounted.budget

theorem accounted_setProject (accounted : Accounted manifest state)
    {id : String} {change : ProjectState → ProjectState}
    (within : ∀ project ∈ manifest.projects, project.id = id →
      ∀ budget ∈ project.caseBudget,
        (change (state.projects id)).reservedCases ≤ budget) :
    Accounted manifest (state.setProject id change) := by
  constructor
  · exact accounted.project
  · intro project member budget limited
    unfold State.setProject
    by_cases same : project.id = id
    · simp only [same, Function.update_self]
      exact within project member same budget limited
    · simp only [Function.update_of_ne same]
      exact accounted.budget project member budget limited

/-- A change of one campaign that had not ended. -/
theorem endsKept_of_status (campaign : Campaign) {after : State}
    (unended : (state.status campaign).isTerminal = false)
    (others : ∀ other, other.id ≠ campaign.id →
      after.status other = state.status other) :
    EndsKept manifest state after := by
  intro other member ended
  apply others
  intro same
  have equal : state.status other = state.status campaign := by
    rw [State.status, State.status, same]
  rw [equal, unended] at ended
  cases ended

theorem status_finish (status : Status) (exit : Exit) (other : Campaign) :
    (finish state campaign status exit).status other =
      if other.id = campaign.id then status else state.status other := by
  rw [finish, State.status_setProject, State.status_setCampaign]

theorem accounted_finish (accounted : Accounted manifest state)
    (status : Status) (exit : Exit) :
    Accounted manifest (finish state campaign status exit) := by
  refine accounted_setProject (accounted_setCampaign accounted _ ?_) ?_
  · intro record
    rfl
  · intro project member same budget limited
    rw [← same]
    exact accounted.budget project member budget limited

theorem status_launch (other : Campaign) :
    (launch state campaign).status other =
      if other.id = campaign.id then .running else state.status other := by
  rw [launch, State.status_setProject, State.status_setCampaign]

theorem accounted_launch (accounted : Accounted manifest state)
    {reason : Option String}
    (allowed : quotaAllows manifest campaign state = (true, reason)) :
    Accounted manifest (launch state campaign) := by
  refine accounted_setProject (accounted_setCampaign accounted _ ?_) ?_
  · intro record
    rfl
  · intro project member same budget limited
    have fits := quotaAllows_true allowed member same limited
    rw [same] at fits
    exact fits

theorem status_resumed (other : Campaign) :
    (resumed state).status other =
      if state.status other = .running then .pending
      else state.status other :=
  apply_ite CampaignState.status _ _ _

theorem accounted_resumed (accounted : Accounted manifest state) :
    Accounted manifest (resumed state) := by
  constructor
  · intro other member
    rw [← accounted.project other member]
    simp only [resumed]
    split
    · rfl
    · rfl
  · exact accounted.budget

theorem endsKept_resumed : EndsKept manifest state (resumed state) := by
  intro other _ ended
  rw [status_resumed]
  apply if_neg
  intro running
  rw [running] at ended
  cases ended

theorem accounted_newState : Accounted manifest (newState manifest) := by
  constructor
  · intro other member
    have found : manifest.campaigns.find? (·.id == other.id) = some other := by
      cases found : manifest.campaigns.find? (·.id == other.id) with
      | none =>
          have absent := List.find?_eq_none.mp found other member
          simp at absent
      | some first =>
          rw [Manifest.campaign_ext (List.mem_of_find?_eq_some found) member
            (by simpa using List.find?_some found)]
    simp [newState, projectOf, found]
  · intro project _ budget _
    exact Nat.zero_le budget

end Changes

/-- The slots and budgets of the manifest are respected. -/
structure Safe (manifest : Manifest) (state : State) : Prop where
  total : manifest.campaigns.countP (state.status · == .running) ≤
    manifest.globalMax
  perProject : ∀ project ∈ manifest.projects,
    manifest.campaigns.countP (fun campaign =>
      campaign.project == project.id && state.status campaign == .running) ≤
        project.maxConcurrent
  budget : ∀ project ∈ manifest.projects, ∀ budget ∈ project.caseBudget,
    (state.projects project.id).reservedCases ≤ budget

/-- The process knows its running campaigns, and they fit the slots. -/
structure Process.Sound (manifest : Manifest) (process : Process) : Prop where
  accounted : Accounted manifest process.state
  member : ∀ campaign ∈ process.running, campaign ∈ manifest.campaigns
  nodup : process.running.Nodup
  status : ∀ campaign ∈ manifest.campaigns,
    process.state.status campaign = .running ↔ campaign ∈ process.running
  total : process.running.length ≤ manifest.globalMax
  perProject : ∀ project ∈ manifest.projects,
    process.running.countP (·.project == project.id) ≤ project.maxConcurrent
  left : ∀ left, process.phase = .poll left →
    left.Nodup ∧ ∀ campaign ∈ left, campaign ∈ process.running

variable {manifest : Manifest}

theorem Manifest.nodup_campaigns (manifest : Manifest) :
    manifest.campaigns.Nodup :=
  List.Nodup.of_map _ manifest.campaigns_nodup

theorem Process.Sound.safe {process : Process}
    (sound : process.Sound manifest) : Safe manifest process.state := by
  have same : process.running.Perm
      (manifest.campaigns.filter (process.state.status · == .running)) := by
    rw [List.perm_ext_iff_of_nodup sound.nodup
      (manifest.nodup_campaigns.filter _)]
    intro campaign
    rw [List.mem_filter]
    constructor
    · intro running
      have member := sound.member campaign running
      exact ⟨member, by simpa using (sound.status campaign member).mpr running⟩
    · intro found
      exact (sound.status campaign found.1).mp (by simpa using found.2)
  constructor
  · rw [List.countP_eq_length_filter, ← same.length_eq]
    exact sound.total
  · intro project member
    rw [← List.countP_filter, ← same.countP_eq]
    exact sound.perProject project member
  · exact sound.accounted.budget

theorem runningByProject_eq {process : Process}
    (sound : process.Sound manifest) (project : String) :
    runningByProject process.state process.running project =
      process.running.countP (·.project == project) := by
  apply List.countP_congr
  intro campaign running
  rw [sound.accounted.project campaign (sound.member campaign running)]

/-- A campaign that ended leaves its slot. -/
theorem Process.Sound.finish {process : Process}
    (sound : process.Sound manifest) {campaign : Campaign}
    {left : List Campaign} (polling : process.phase = .poll (campaign :: left))
    {status : Status} (ended : status.isTerminal = true) (exit : Exit) :
    Process.Sound manifest
      { process with
        state := Scheduler.finish process.state campaign status exit
        running := process.running.filter (·.id != campaign.id)
        phase := .poll left } := by
  obtain ⟨leftNodup, leftRunning⟩ := sound.left _ polling
  have running := leftRunning campaign List.mem_cons_self
  have member := sound.member campaign running
  have notRunning : status ≠ .running := by
    rintro rfl
    cases ended
  constructor
  · exact accounted_finish sound.accounted status exit
  · intro other otherRunning
    exact sound.member other (List.mem_of_mem_filter otherRunning)
  · exact sound.nodup.filter _
  · intro other otherMember
    rw [status_finish, List.mem_filter]
    by_cases same : other.id = campaign.id
    · simp [same, notRunning]
    · simp [same, sound.status other otherMember]
  · exact (List.length_filter_le _ _).trans sound.total
  · intro project projectMember
    exact (List.filter_sublist.countP_le).trans
      (sound.perProject project projectMember)
  · rintro other ⟨rfl⟩
    refine ⟨(List.nodup_cons.mp leftNodup).2, ?_⟩
    intro later laterLeft
    have laterRunning := leftRunning later (List.mem_cons_of_mem _ laterLeft)
    refine List.mem_filter.mpr ⟨laterRunning, ?_⟩
    simp only [bne_iff_ne]
    intro same
    have equal :=
      Manifest.campaign_ext (sound.member later laterRunning) member same
    subst equal
    exact (List.nodup_cons.mp leftNodup).1 laterLeft

/-- Cancelling or refusing a pending campaign takes no slot. -/
theorem Process.Sound.refuse {process : Process}
    (sound : process.Sound manifest) {campaign : Campaign}
    (pending : process.state.status campaign = .pending)
    {change : CampaignState → CampaignState}
    (kept : ∀ record, (change record).project = record.project)
    (ended : ∀ record, (change record).status.isTerminal = true)
    (launched : Bool) :
    Process.Sound manifest
      { process with
        state := process.state.setCampaign campaign.id change
        phase := .dispatch launched } := by
  constructor
  · exact accounted_setCampaign sound.accounted _ kept
  · exact sound.member
  · exact sound.nodup
  · intro other member
    rw [State.status_setCampaign, ← sound.status other member]
    by_cases same : other.id = campaign.id
    · have before : process.state.status other = .pending := by
        rw [← pending, State.status, State.status, same]
      have after := ended (process.state.campaigns campaign.id)
      rw [if_pos same, before]
      constructor
      · intro running
        rw [running] at after
        cases after
      · intro running
        cases running
    · rw [if_neg same]
  · exact sound.total
  · exact sound.perProject
  · rintro left ⟨⟩

/-- A launched campaign takes a free slot of its project. -/
theorem Process.Sound.launch {process : Process}
    (sound : process.Sound manifest) {campaign : Campaign}
    (chosen : Chosen manifest process.state process.running campaign)
    (free : process.running.length < manifest.globalMax)
    {reason : Option String}
    (allowed : quotaAllows manifest campaign process.state = (true, reason)) :
    Process.Sound manifest
      { process with
        state := Scheduler.launch process.state campaign
        running := process.running ++ [campaign]
        phase := .dispatch true } := by
  obtain ⟨member, pending, fair, -⟩ := chosen
  have fresh : campaign ∉ process.running := by
    intro running
    rw [(sound.status campaign member).mpr running] at pending
    cases pending
  constructor
  · exact accounted_launch sound.accounted allowed
  · intro other running
    rcases List.mem_append.mp running with before | now
    · exact sound.member other before
    · rw [List.mem_singleton.mp now]
      exact member
  · exact List.Nodup.append sound.nodup (List.nodup_singleton _)
      (by simpa using fresh)
  · intro other otherMember
    rw [status_launch, List.mem_append, List.mem_singleton,
      ← sound.status other otherMember]
    by_cases same : other.id = campaign.id
    · simp [Manifest.campaign_ext otherMember member same]
    · have different : other ≠ campaign := by
        rintro rfl
        exact same rfl
      simp [same, different]
  · rw [List.length_append]
    exact free
  · intro project projectMember
    rw [List.countP_append, List.countP_singleton]
    by_cases same : campaign.project = project.id
    · obtain ⟨chosenProject, eligible, sameId, -⟩ := fair
      obtain ⟨chosenMember, slot, -⟩ := mem_eligibleProjects.mp eligible
      have equal : chosenProject = project :=
        List.inj_on_of_nodup_map manifest.projects_nodup chosenMember
          projectMember (sameId.trans same)
      subst equal
      rw [runningByProject_eq sound] at slot
      simp only [same, beq_self_eq_true, if_true]
      exact slot
    · simpa [same] using sound.perProject project projectMember
  · rintro left ⟨⟩

/-- Nothing changes but the phase. -/
theorem Process.Sound.inPhase {process : Process}
    (sound : process.Sound manifest) (drained : Bool) {phase : Phase}
    (left : ∀ left, phase = .poll left →
      left.Nodup ∧ ∀ campaign ∈ left, campaign ∈ process.running) :
    Process.Sound manifest { process with drained, phase } :=
  { sound with left }

/-- A process that has just loaded its state runs nothing. -/
theorem Process.sound_start {state : State}
    (accounted : Accounted manifest state)
    (idle : ∀ campaign ∈ manifest.campaigns, state.status campaign ≠ .running) :
    Process.Sound manifest
      { state, running := [], drained := false, phase := .top } := by
  constructor
  · exact accounted
  · simp
  · exact .nil
  · intro campaign member
    simpa using idle campaign member
  · exact Nat.zero_le _
  · intro project _
    exact Nat.zero_le _
  · rintro left ⟨⟩

private theorem status_stopped (exits : String → Exit)
    (running : List Campaign) (state : State) (other : Campaign) :
    (running.foldl (fun state campaign =>
      finish state campaign .cancelled (exits campaign.id)) state).status other =
      if ∃ campaign ∈ running, other.id = campaign.id then .cancelled
      else state.status other := by
  induction running generalizing state with
  | nil => simp
  | cons campaign running induction =>
      rw [List.foldl_cons, induction, status_finish]
      by_cases later : ∃ campaign ∈ running, other.id = campaign.id
      · simp [later]
      · by_cases same : other.id = campaign.id
        · simp [same]
        · simp [later, same]

private theorem accounted_stopped (exits : String → Exit)
    (running : List Campaign) {state : State}
    (accounted : Accounted manifest state) :
    Accounted manifest (running.foldl (fun state campaign =>
      finish state campaign .cancelled (exits campaign.id)) state) := by
  induction running generalizing state with
  | nil => exact accounted
  | cons campaign running induction =>
      exact induction (accounted_finish accounted _ _)

private theorem status_cancelPending (campaigns : List Campaign)
    (state : State) (other : Campaign) :
    (campaigns.foldl (fun state campaign =>
      if state.status campaign = .pending then
        state.setCampaign campaign.id fun record =>
          { record with status := .cancelled }
      else state) state).status other =
      if other.id ∈ campaigns.map (·.id) ∧ state.status other = .pending then
        .cancelled
      else state.status other := by
  induction campaigns generalizing state with
  | nil => simp
  | cons campaign campaigns induction =>
      rw [List.foldl_cons, induction]
      by_cases pending : state.status campaign = .pending
      · rw [if_pos pending, State.status_setCampaign]
        by_cases same : other.id = campaign.id
        · have alike : state.status other = .pending := by
            rw [← pending, State.status, State.status, same]
          simp [same, alike]
        · simp [same]
      · rw [if_neg pending]
        by_cases same : other.id = campaign.id
        · have alike : state.status other ≠ .pending := by
            rwa [State.status, same]
          simp [alike]
        · simp [same]

private theorem accounted_cancelPending (campaigns : List Campaign)
    {state : State} (accounted : Accounted manifest state) :
    Accounted manifest (campaigns.foldl (fun state campaign =>
      if state.status campaign = .pending then
        state.setCampaign campaign.id fun record =>
          { record with status := .cancelled }
      else state) state) := by
  induction campaigns generalizing state with
  | nil => exact accounted
  | cons campaign campaigns induction =>
      rw [List.foldl_cons]
      apply induction
      by_cases pending : state.status campaign = .pending
      · rw [if_pos pending]
        exact accounted_setCampaign accounted _ fun _ => rfl
      · rw [if_neg pending]
        exact accounted

theorem status_cancelAll {process : Process}
    (sound : process.Sound manifest) (exits : String → Exit)
    {campaign : Campaign} (member : campaign ∈ manifest.campaigns) :
    (cancelAll manifest process.state process.running exits).status campaign =
      if (process.state.status campaign).isTerminal then
        process.state.status campaign
      else .cancelled := by
  have known : campaign.id ∈ manifest.campaigns.map (·.id) :=
    List.mem_map_of_mem member
  have running : (∃ other ∈ process.running, campaign.id = other.id) ↔
      process.state.status campaign = .running := by
    rw [sound.status campaign member]
    constructor
    · rintro ⟨other, otherRunning, same⟩
      rwa [Manifest.campaign_ext member (sound.member other otherRunning) same]
    · intro campaignRunning
      exact ⟨campaign, campaignRunning, rfl⟩
  rw [cancelAll, status_cancelPending, status_stopped]
  simp only [running, known, true_and]
  cases process.state.status campaign <;> simp [Status.isTerminal]

theorem accounted_cancelAll {state : State}
    (accounted : Accounted manifest state) (running : List Campaign)
    (exits : String → Exit) :
    Accounted manifest (cancelAll manifest state running exits) :=
  accounted_cancelPending _ (accounted_stopped exits running accounted)

/-- After a global cancel nothing runs. -/
theorem safe_cancelAll {process : Process} (sound : process.Sound manifest)
    (exits : String → Exit) :
    Safe manifest
      (cancelAll manifest process.state process.running exits) := by
  have idle : ∀ campaign ∈ manifest.campaigns,
      (cancelAll manifest process.state process.running exits).status
        campaign ≠ .running := by
    intro campaign member
    rw [status_cancelAll sound exits member]
    cases process.state.status campaign <;> simp [Status.isTerminal]
  exact (Process.sound_start
    (accounted_cancelAll sound.accounted _ exits) idle).safe

theorem endsKept_cancelAll {process : Process}
    (sound : process.Sound manifest) (exits : String → Exit) :
    EndsKept manifest process.state
      (cancelAll manifest process.state process.running exits) := by
  intro campaign member ended
  rw [status_cancelAll sound exits member, if_pos ended]

end PpcLab.Scheduler
