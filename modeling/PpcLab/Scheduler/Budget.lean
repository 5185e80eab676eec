import PpcLab.Scheduler.Effect

/-!
# Reservations

Admission charges a project once for every process it starts.  A campaign that
was interrupted is admitted again, so its reservation is charged again, or
keeps it out.  As long as no campaign with a reservation is admitted a second
time, the account of a project is the sum over the campaigns it has started.
-/

namespace PpcLab.Scheduler

/-- The campaigns that have ever been started. -/
def startedIds (history : List Event) : List String :=
  (launchesOf history).map (·.campaign.id)

/-- The reservations of the started campaigns of a project, each once. -/
def reservedOnce (manifest : Manifest) (started : List String)
    (project : String) : Nat :=
  (manifest.campaigns.map fun campaign =>
    if campaign.project = project ∧ campaign.id ∈ started then
      campaign.reserveCases
    else 0).sum

/-- Refused because the budget has no room for the reservation. -/
def refusedByBudget (state : State) (campaign : Campaign) : Prop :=
  state.status campaign = .quotaBlocked ∧
    (state.campaigns campaign.id).reason = some "project-case-budget"

/-- Resume is exact on budgets. -/
structure ExactBudgets (manifest : Manifest) (started : List String)
    (state : State) : Prop where
  reserved : ∀ project ∈ manifest.projects,
    (state.projects project.id).reservedCases =
      reservedOnce manifest started project.id
  admitted : ∀ campaign ∈ manifest.campaigns, campaign.id ∈ started →
    ¬ refusedByBudget state campaign

/-- The step does not admit a campaign with a reservation a second time, and
no process dies between starting such a campaign and recording it. -/
def AdmitsOnce (manifest : Manifest) (world : World) : Input → Prop
  | .dispatch false survives =>
      ∀ process ∈ world.process, ∀ campaign ∈ examined manifest process,
        0 < campaign.reserveCases →
          (campaign.id ∈ startedIds world.history →
            quotaAllows manifest campaign process.state =
              (false, some "project-wall-budget")) ∧
          (survives = false →
            (quotaAllows manifest campaign process.state).1 = false)
  | _ => True

instance (manifest : Manifest) (world : World) :
    (input : Input) → Decidable (AdmitsOnce manifest world input)
  | .dispatch false _ =>
      inferInstanceAs (Decidable (∀ process ∈ world.process,
        ∀ campaign ∈ examined manifest process,
          0 < campaign.reserveCases → _ ∧ _))
  | .dispatch true _ => .isTrue trivial
  | .start _ => .isTrue trivial
  | .cancelMarker _ _ => .isTrue trivial
  | .poll _ _ _ => .isTrue trivial
  | .drainMarker _ => .isTrue trivial
  | .die => .isTrue trivial

private theorem sum_charge {campaigns : List Campaign} {campaign : Campaign}
    {started : List String} (nodup : (campaigns.map (·.id)).Nodup)
    (member : campaign ∈ campaigns) (fresh : campaign.id ∉ started)
    (project : String) :
    (campaigns.map fun other =>
      if other.project = project ∧ other.id ∈ started ++ [campaign.id] then
        other.reserveCases
      else 0).sum =
    (campaigns.map fun other =>
      if other.project = project ∧ other.id ∈ started then other.reserveCases
      else 0).sum +
      if campaign.project = project then campaign.reserveCases else 0 := by
  induction campaigns with
  | nil => cases member
  | cons first rest induction =>
      obtain ⟨firstFresh, restNodup⟩ := List.nodup_cons.mp nodup
      rw [List.map_cons, List.map_cons, List.sum_cons, List.sum_cons]
      rcases List.mem_cons.mp member with rfl | later
      · have untouched : ∀ other ∈ rest, other.id ≠ campaign.id := by
          intro other otherMember same
          exact firstFresh (List.mem_map.mpr ⟨other, otherMember, same⟩)
        have sameRest : (rest.map fun other =>
            if other.project = project ∧
                other.id ∈ started ++ [campaign.id] then
              other.reserveCases
            else 0) = rest.map fun other =>
              if other.project = project ∧ other.id ∈ started then
                other.reserveCases
              else 0 := by
          apply List.map_congr_left
          intro other otherMember
          simp [untouched other otherMember]
        rw [sameRest]
        by_cases here : campaign.project = project
        · simp [here, fresh]
          omega
        · simp [here]
      · have different : first.id ≠ campaign.id := by
          intro same
          exact firstFresh (List.mem_map.mpr ⟨campaign, later, same.symm⟩)
        rw [induction restNodup later]
        simp only [List.mem_append, List.mem_singleton, different, or_false]
        omega

private theorem reservedOnce_fresh {manifest : Manifest} {campaign : Campaign}
    {started : List String} (member : campaign ∈ manifest.campaigns)
    (fresh : campaign.id ∉ started) (project : String) :
    reservedOnce manifest (started ++ [campaign.id]) project =
      reservedOnce manifest started project +
        if campaign.project = project then campaign.reserveCases else 0 :=
  sum_charge manifest.campaigns_nodup member fresh project

private theorem reservedOnce_again {manifest : Manifest} {id : String}
    {started : List String} (already : id ∈ started) (project : String) :
    reservedOnce manifest (started ++ [id]) project =
      reservedOnce manifest started project := by
  have same : ∀ other, other ∈ started ++ [id] ↔ other ∈ started := by
    intro other
    rw [List.mem_append, List.mem_singleton]
    constructor
    · rintro (before | rfl)
      · exact before
      · exact already
    · exact .inl
  simp only [reservedOnce, same]

/-- A start that is charged nothing leaves the sum. -/
private theorem reservedOnce_free {manifest : Manifest} {campaign : Campaign}
    {started : List String} (member : campaign ∈ manifest.campaigns)
    (free : campaign.reserveCases = 0) (project : String) :
    reservedOnce manifest (started ++ [campaign.id]) project =
      reservedOnce manifest started project := by
  by_cases already : campaign.id ∈ started
  · exact reservedOnce_again already project
  · rw [reservedOnce_fresh member already, free, ite_self, Nat.add_zero]

/-- The accounts and the reasons of refusals are as they were. -/
structure SameCharges (before after : State) : Prop where
  reserved : ∀ id, (after.projects id).reservedCases =
    (before.projects id).reservedCases
  reason : ∀ id, (after.campaigns id).reason = (before.campaigns id).reason

section Effects

variable {manifest : Manifest} {state : State} {started : List String}

private theorem SameCharges.trans {first second third : State}
    (left : SameCharges first second) (right : SameCharges second third) :
    SameCharges first third :=
  ⟨fun id => (right.reserved id).trans (left.reserved id),
    fun id => (right.reason id).trans (left.reason id)⟩

private theorem sameCharges_setCampaign (state : State) (id : String)
    (change : CampaignState → CampaignState)
    (kept : ∀ record, (change record).reason = record.reason) :
    SameCharges state (state.setCampaign id change) := by
  constructor
  · intro other
    rfl
  · intro other
    unfold State.setCampaign
    by_cases same : other = id
    · subst same
      simp [kept]
    · simp [Function.update_of_ne same]

private theorem sameCharges_setProject (state : State) (id : String)
    (change : ProjectState → ProjectState)
    (kept : ∀ account, (change account).reservedCases =
      account.reservedCases) :
    SameCharges state (state.setProject id change) := by
  constructor
  · intro other
    unfold State.setProject
    by_cases same : other = id
    · subst same
      simp [kept]
    · simp [Function.update_of_ne same]
  · intro other
    rfl

private theorem sameCharges_finish (state : State) (campaign : Campaign)
    (status : Status) (exit : Exit) :
    SameCharges state (finish state campaign status exit) := by
  have record := sameCharges_setCampaign state campaign.id
    (fun record => { record with status, returncode := exit.returncode })
    (fun _ => rfl)
  apply record.trans
  apply sameCharges_setProject
  intro account
  rfl

private theorem sameCharges_foldl {α : Type} {change : State → α → State}
    (kept : ∀ state item, SameCharges state (change state item))
    (items : List α) (state : State) :
    SameCharges state (items.foldl change state) := by
  induction items generalizing state with
  | nil => exact ⟨fun _ => rfl, fun _ => rfl⟩
  | cons item items induction =>
      exact (kept state item).trans (induction (change state item))

private theorem sameCharges_cancelAll (state : State)
    (running : List Campaign) (exits : String → Exit) :
    SameCharges state (cancelAll manifest state running exits) := by
  have stopped := sameCharges_foldl (fun state campaign =>
    sameCharges_finish state campaign .cancelled (exits campaign.id))
    running state
  apply stopped.trans
  apply sameCharges_foldl
  intro before campaign
  split
  · apply sameCharges_setCampaign
    intro record
    rfl
  · exact ⟨fun _ => rfl, fun _ => rfl⟩

private theorem sameCharges_resumed (state : State) :
    SameCharges state (resumed state) := by
  constructor
  · intro id
    rfl
  · intro id
    simp only [resumed]
    split
    · rfl
    · rfl

/-- A change that charges nothing and blocks nobody. -/
private theorem ExactBudgets.of_sameCharges {after : State}
    (budgets : ExactBudgets manifest started state)
    (charges : SameCharges state after)
    (blocked : ∀ campaign ∈ manifest.campaigns,
      after.status campaign = .quotaBlocked →
        state.status campaign = .quotaBlocked) :
    ExactBudgets manifest started after := by
  constructor
  · intro project member
    rw [charges.reserved]
    exact budgets.reserved project member
  · rintro campaign member wasStarted ⟨status, reason⟩
    rw [charges.reason] at reason
    exact budgets.admitted campaign member wasStarted
      ⟨blocked campaign member status, reason⟩

private theorem quotaAllows_budget {campaign : Campaign}
    (refused : quotaAllows manifest campaign state =
      (false, some "project-case-budget")) :
    ∃ project ∈ manifest.projects, ∃ budget ∈ project.caseBudget,
      project.id = campaign.project ∧
        budget < (state.projects project.id).reservedCases +
          campaign.reserveCases := by
  unfold quotaAllows at refused
  split at refused
  · cases refused
  · next project found =>
      have sameId : project.id = campaign.project := by
        simpa using List.find?_some found
      by_cases exceeding : exceedsBudget project.caseBudget
          ((state.projects campaign.project).reservedCases +
            campaign.reserveCases) = true
      · rw [exceedsBudget, Option.any_eq_true] at exceeding
        obtain ⟨budget, limited, exceeded⟩ := exceeding
        refine ⟨project, List.mem_of_find?_eq_some found, budget, limited,
          sameId, ?_⟩
        rw [sameId]
        exact of_decide_eq_true exceeded
      · simp only [if_neg exceeding] at refused
        split at refused
        · simp at refused
        · simp at refused

/-- Nobody who has been started is refused by the budget. -/
private theorem ExactBudgets.blocked {campaign : Campaign}
    {reason : Option String} (budgets : ExactBudgets manifest started state)
    (accounted : Accounted manifest state)
    (refused : quotaAllows manifest campaign state = (false, reason))
    (once : 0 < campaign.reserveCases → campaign.id ∈ started →
      quotaAllows manifest campaign state =
        (false, some "project-wall-budget")) :
    ExactBudgets manifest started (state.setCampaign campaign.id fun record =>
      { record with status := .quotaBlocked, reason }) := by
  constructor
  · exact budgets.reserved
  · intro other member wasStarted byBudget
    by_cases same : other.id = campaign.id
    · have why : reason = some "project-case-budget" := by
        have := byBudget.2
        rw [same] at this
        simpa [State.setCampaign] using this
      rw [why] at refused
      rcases Nat.eq_zero_or_pos campaign.reserveCases with free | charged
      · obtain ⟨project, projectMember, budget, limited, -, exceeding⟩ :=
          quotaAllows_budget refused
        have within := accounted.budget project projectMember budget limited
        omega
      · rw [once charged (same ▸ wasStarted)] at refused
        simp at refused
    · apply budgets.admitted other member wasStarted
      constructor
      · have := byBudget.1
        rwa [State.status_setCampaign, if_neg same] at this
      · have := byBudget.2
        simpa [State.setCampaign, Function.update_of_ne same] using this

private theorem ExactBudgets.launched {campaign : Campaign}
    (budgets : ExactBudgets manifest started state)
    (member : campaign ∈ manifest.campaigns)
    (once : 0 < campaign.reserveCases → campaign.id ∉ started) :
    ExactBudgets manifest (started ++ [campaign.id])
      (launch state campaign) := by
  constructor
  · intro project projectMember
    have charged : reservedOnce manifest (started ++ [campaign.id])
        project.id = reservedOnce manifest started project.id +
          if campaign.project = project.id then campaign.reserveCases
          else 0 := by
      rcases Nat.eq_zero_or_pos campaign.reserveCases with free | positive
      · rw [reservedOnce_free member free, free, ite_self, Nat.add_zero]
      · exact reservedOnce_fresh member (once positive) project.id
    rw [charged, ← budgets.reserved project projectMember]
    unfold launch State.setProject
    by_cases same : campaign.project = project.id
    · simp [same]
    · simp [Function.update_of_ne (Ne.symm same), same]
  · intro other otherMember wasStarted byBudget
    by_cases same : other.id = campaign.id
    · have status := byBudget.1
      rw [status_launch, if_pos same] at status
      cases status
    · have before : other.id ∈ started := by
        simpa [same] using wasStarted
      apply budgets.admitted other otherMember before
      constructor
      · have := byBudget.1
        rwa [status_launch, if_neg same] at this
      · have := byBudget.2
        simpa [launch, State.setCampaign, Function.update_of_ne same] using this

/-- A start that was never recorded. -/
private theorem ExactBudgets.lost {campaign : Campaign}
    (budgets : ExactBudgets manifest started state)
    (member : campaign ∈ manifest.campaigns)
    (pending : state.status campaign = .pending)
    (free : campaign.reserveCases = 0) :
    ExactBudgets manifest (started ++ [campaign.id]) state := by
  constructor
  · intro project projectMember
    rw [reservedOnce_free member free]
    exact budgets.reserved project projectMember
  · intro other otherMember wasStarted byBudget
    by_cases same : other.id = campaign.id
    · rw [Manifest.campaign_ext otherMember member same] at byBudget
      have status := byBudget.1
      rw [pending] at status
      cases status
    · have before : other.id ∈ started := by
        simpa [same] using wasStarted
      exact budgets.admitted other otherMember before byBudget

end Effects

/-- The scheduler is sound, and exact on its budgets. -/
private structure BudgetInvariant (manifest : Manifest) (world : World) :
    Prop where
  sound : world.Sound manifest
  budgets : ∀ state ∈ world.checkpoint,
    ExactBudgets manifest (startedIds world.history) state
  unstarted : world.checkpoint = none → startedIds world.history = []

private theorem exactBudgets_newState (manifest : Manifest) :
    ExactBudgets manifest [] (newState manifest) := by
  constructor
  · intro project _
    simp [newState, reservedOnce]
  · intro campaign _ wasStarted
    cases wasStarted

private theorem budgetInvariant_step {manifest : Manifest} {world next : World}
    {input : Input} (invariant : BudgetInvariant manifest world)
    (once : AdmitsOnce manifest world input)
    (stepped : step manifest world input = some next) :
    BudgetInvariant manifest next := by
  obtain ⟨sound, budgets, unstarted⟩ := invariant
  have ids : ∀ {launches : List Launch},
      launchesOf next.history = launches →
        startedIds next.history = launches.map (·.campaign.id) := by
    intro launches same
    rw [startedIds, same]
  refine ⟨(step_kept sound stepped).sound, ?_, ?_⟩
  · intro state recorded
    cases step_effect sound stepped with
    | quiet same none =>
        rw [ids none]
        exact budgets state (same ▸ recorded)
    | created absent saved none =>
        rw [saved] at recorded
        cases recorded
        have nobody := unstarted absent
        rw [ids none]
        rw [startedIds] at nobody
        rw [nobody]
        exact exactBudgets_newState manifest
    | resumed old before saved none =>
        rw [saved] at recorded
        cases recorded
        rw [ids none]
        apply (budgets old before).of_sameCharges (sameCharges_resumed old)
        intro campaign _ blocked
        rw [status_resumed] at blocked
        split at blocked
        · cases blocked
        · exact blocked
    | finished old campaign status exit before notBlocked saved none =>
        rw [saved] at recorded
        cases recorded
        rw [ids none]
        apply (budgets old before).of_sameCharges
          (sameCharges_finish old campaign status exit)
        intro other _ blocked
        rw [status_finish] at blocked
        split at blocked
        · exact absurd blocked notBlocked
        · exact blocked
    | cancelled process exits before processSound saved none =>
        rw [saved] at recorded
        cases recorded
        rw [ids none]
        apply (budgets _ before).of_sameCharges
          (sameCharges_cancelAll process.state process.running exits)
        intro other member blocked
        rw [status_cancelAll processSound exits member] at blocked
        split at blocked
        · exact blocked
        · cases blocked
    | withdrawn old campaign before saved none =>
        rw [saved] at recorded
        cases recorded
        rw [ids none]
        apply (budgets old before).of_sameCharges
          (sameCharges_setCampaign old campaign.id
            (fun record => { record with status := .cancelled }) fun _ => rfl)
        intro other _ blocked
        rw [State.status_setCampaign] at blocked
        split at blocked
        · cases blocked
        · exact blocked
    | blocked process campaign reason survives taken alive before examining
        chosen refused saved none =>
        subst taken
        rw [saved] at recorded
        cases recorded
        rw [ids none]
        apply (budgets _ before).blocked
          (sound.checkpoint _ before).1 refused
        intro charged wasStarted
        exact (once process alive campaign examining charged).1 wasStarted
    | launched process campaign reason survives taken alive before examining
        chosen allowed saved one =>
        subst taken
        rw [saved] at recorded
        rw [ids one, List.map_append]
        have charges := once process alive campaign examining
        cases survives with
        | true =>
            cases recorded
            apply (budgets _ before).launched chosen.member
            intro charged wasStarted
            have refused := (charges charged).1 wasStarted
            rw [allowed] at refused
            cases refused
        | false =>
            cases recorded
            apply (budgets _ before).lost chosen.member chosen.pending
            rcases Nat.eq_zero_or_pos campaign.reserveCases with free | charged
            · exact free
            · have refused := (charges charged).2 rfl
              rw [allowed] at refused
              cases refused
  · intro absent
    cases step_effect sound stepped with
    | quiet same none =>
        rw [ids none]
        exact unstarted (same ▸ absent)
    | created _ saved _ => rw [saved] at absent; cases absent
    | resumed _ _ saved _ => rw [saved] at absent; cases absent
    | finished _ _ _ _ _ _ saved _ => rw [saved] at absent; cases absent
    | cancelled _ _ _ _ saved _ => rw [saved] at absent; cases absent
    | withdrawn _ _ _ saved _ => rw [saved] at absent; cases absent
    | blocked _ _ _ _ _ _ _ _ _ _ saved _ => rw [saved] at absent; cases absent
    | launched _ _ _ _ _ _ _ _ _ _ saved _ => rw [saved] at absent; cases absent

/-- In every run that admits no campaign with a reservation twice, the account
of a project is the sum over the campaigns it has started, and no started
campaign is refused by the budget. -/
theorem exact_budgets_of_admitsOnce (manifest : Manifest)
    (inputs : List Input) (world : World)
    (once : Along (step manifest) (AdmitsOnce manifest) World.fresh inputs)
    (ran : follow (step manifest) World.fresh inputs = some world)
    (state : State) (recorded : world.checkpoint = some state) :
    ExactBudgets manifest (startedIds world.history) state := by
  have start : BudgetInvariant manifest World.fresh := by
    refine ⟨World.fresh_sound, ?_, fun _ => rfl⟩
    rintro other ⟨⟩
  have invariant := follow_keeps
    (fun _ _ _ invariant once stepped =>
      budgetInvariant_step invariant once stepped) start once ran
  exact invariant.budgets state recorded

private theorem nightly_known (budget : Nat) :
    ∀ campaign ∈ ([⟨"nightly", "lab", "nightly.json", "out", 0, 4, none, 0⟩] :
        List Campaign),
      ∃ project ∈ ([⟨"lab", 0, 1, 1, some budget, none⟩] : List Project),
        project.id = campaign.project := by
  simp

private theorem lab_weight (budget : Nat) :
    ∀ project ∈ ([⟨"lab", 0, 1, 1, some budget, none⟩] : List Project),
      0 < project.weight := by
  simp

private theorem lab_slots (budget : Nat) :
    ∀ project ∈ ([⟨"lab", 0, 1, 1, some budget, none⟩] : List Project),
      0 < project.maxConcurrent := by
  simp

/-- One campaign that reserves four cases of a budget. -/
def oneCampaign (budget : Nat) : Manifest :=
  { projects := [⟨"lab", 0, 1, 1, some budget, none⟩]
    campaigns := [⟨"nightly", "lab", "nightly.json", "out", 0, 4, none, 0⟩]
    globalMax := 1
    globalMax_pos := Nat.one_pos
    weight_pos := lab_weight budget
    slots_pos := lab_slots budget
    projects_nodup := List.nodup_singleton "lab"
    campaigns_nodup := List.nodup_singleton "nightly"
    projects_order := rfl
    campaigns_order := rfl
    project_known := nightly_known budget }

/-- The scheduler comes to the dispatch loop and takes one turn. -/
def dispatchOnce (resume : Bool) : List Input :=
  [.start resume, .cancelMarker false fun _ => ⟨0, none⟩, .drainMarker false,
    .dispatch false true]

/-- A scheduler that dies while its campaign runs, and is not sent into the
dispatch loop again. -/
theorem exact_budgets_of_admitsOnce_interrupted :
    ∃ world state,
      follow (step (oneCampaign 5)) World.fresh
        (dispatchOnce false ++ [.die, .start true]) = some world ∧
      world.checkpoint = some state ∧
      startedIds world.history = ["nightly"] ∧
      ExactBudgets (oneCampaign 5) (startedIds world.history) state :=
  ⟨_, _, rfl, rfl, rfl, exact_budgets_of_admitsOnce (oneCampaign 5)
    (dispatchOnce false ++ [.die, .start true]) _ (by decide) rfl _ rfl⟩

/-- After an interruption the campaign is charged again, or refused because of
its own reservation. -/
theorem resumed_campaign_charged_again :
    (∃ world state, follow (step (oneCampaign 10)) World.fresh
        (dispatchOnce false ++ .die :: dispatchOnce true) = some world ∧
      world.checkpoint = some state ∧
      (state.projects "lab").reservedCases = 8 ∧
      reservedOnce (oneCampaign 10) (startedIds world.history) "lab" = 4) ∧
    ∃ world state, follow (step (oneCampaign 5)) World.fresh
        (dispatchOnce false ++ .die :: dispatchOnce true) = some world ∧
      world.checkpoint = some state ∧
      "nightly" ∈ startedIds world.history ∧
      ∀ campaign ∈ (oneCampaign 5).campaigns,
        refusedByBudget state campaign := by
  refine ⟨⟨_, _, rfl, rfl, rfl, rfl⟩, _, _, rfl, rfl, List.mem_cons_self, ?_⟩
  intro campaign member
  rw [List.mem_singleton.mp member]
  exact ⟨rfl, rfl⟩

end PpcLab.Scheduler
