import PpcLab.Scheduler.Effect
import Mathlib.Data.Rat.Defs
import Mathlib.Algebra.Order.Field.Rat
import Mathlib.Algebra.Order.Field.Basic

/-!
# Weighted fair share

The dispatch loop always serves an eligible project whose quotient of
dispatches and weight is least.  Where the quotients, which are rounded, order
the eligible projects as the exact ones do, no project is ever more than one
dispatch ahead of another that could have been served all along.
-/

namespace PpcLab.Scheduler

open Ieee754

variable {manifest : Manifest}

def dispatchedOf (state : State) (project : Project) : Nat :=
  (state.projects project.id).dispatched

/-- The project could have been served when the process was started. -/
def EligibleAt (manifest : Manifest) (launch : Launch) (project : Project) :
    Prop :=
  project ∈ eligibleProjects manifest launch.state launch.running

/-- Among the projects that could be served, the rounded quotients are ordered
as the exact ones. -/
def RatiosExact (manifest : Manifest) (launch : Launch) : Prop :=
  ∀ first second, EligibleAt manifest launch first →
    EligibleAt manifest launch second → RatioLe launch.state first second →
      dispatchedOf launch.state first * second.weight ≤
        dispatchedOf launch.state second * first.weight

/-- No project is more than one dispatch ahead of another that was eligible at
every dispatch so far, and each project starts its campaigns in order. -/
structure FairShare (manifest : Manifest) (launches : List Launch)
    (state : State) : Prop where
  share : ∀ first ∈ manifest.projects, ∀ second ∈ manifest.projects,
    (∀ launch ∈ launches, EligibleAt manifest launch first ∧
      EligibleAt manifest launch second) →
    (dispatchedOf state first : ℚ) / first.weight ≤
      dispatchedOf state second / second.weight + 1 / first.weight
  order : ∀ launch ∈ launches,
    ∀ other ∈ pendingOf manifest launch.state launch.campaign.project,
      other.priority < launch.campaign.priority ∨
        other.priority = launch.campaign.priority ∧
          launch.campaign.order ≤ other.order

/-- The bound, multiplied out. -/
def WithinOne (state : State) (first second : Project) : Prop :=
  dispatchedOf state first * second.weight ≤
    dispatchedOf state second * first.weight + second.weight

private theorem withinOne_iff {state : State} {first second : Project}
    (firstPositive : 0 < first.weight) (secondPositive : 0 < second.weight) :
    (dispatchedOf state first : ℚ) / first.weight ≤
        dispatchedOf state second / second.weight + 1 / first.weight ↔
      WithinOne state first second := by
  have left : (0 : ℚ) < first.weight := by exact_mod_cast firstPositive
  have right : (0 : ℚ) < second.weight := by exact_mod_cast secondPositive
  rw [div_add_div _ _ (ne_of_gt right) (ne_of_gt left),
    div_le_div_iff₀ left (mul_pos right left), mul_one, ← mul_assoc,
    mul_le_mul_iff_of_pos_right left, WithinOne]
  norm_cast

theorem campaignKey_le {first second : Campaign}
    (before : campaignKey first ≤ campaignKey second) :
    second.priority < first.priority ∨
      second.priority = first.priority ∧ first.order ≤ second.order := by
  rcases Prod.Lex.toLex_le_toLex.mp before with higher | ⟨same, rest⟩
  · exact .inl (Int.neg_lt_neg_iff.mp higher)
  · refine .inr ⟨(Int.neg_inj.mp same).symm, ?_⟩
    rcases Prod.Lex.toLex_le_toLex.mp rest with earlier | ⟨equal, _⟩
    · exact le_of_lt earlier
    · exact le_of_eq equal

private theorem dispatchedOf_launch (state : State) (campaign : Campaign)
    (project : Project) :
    dispatchedOf (launch state campaign) project =
      dispatchedOf state project +
        if project.id = campaign.project then 1 else 0 := by
  unfold dispatchedOf launch State.setProject
  by_cases same : project.id = campaign.project
  · simp [same]
  · simp [same]

/-- The dispatches are those of an earlier state. -/
private def SameDispatches (before after : State) : Prop :=
  ∀ id, (after.projects id).dispatched = (before.projects id).dispatched

private theorem sameDispatches_finish (state : State) (campaign : Campaign)
    (status : Status) (exit : Exit) :
    SameDispatches state (finish state campaign status exit) := by
  intro id
  unfold finish State.setProject
  by_cases same : id = (state.campaigns campaign.id).project
  · subst same
    simp
  · simp [Function.update_of_ne same]

private theorem sameDispatches_foldl {change : State → Campaign → State}
    (kept : ∀ state campaign, SameDispatches state (change state campaign))
    (campaigns : List Campaign) (state : State) :
    SameDispatches state (campaigns.foldl change state) := by
  induction campaigns generalizing state with
  | nil => exact fun _ => rfl
  | cons campaign campaigns induction =>
      intro id
      exact (induction (change state campaign) id).trans
        (kept state campaign id)

private theorem sameDispatches_cancelAll (state : State)
    (running : List Campaign) (exits : String → Exit) :
    SameDispatches state (cancelAll manifest state running exits) := by
  have stopped := sameDispatches_foldl (fun state campaign =>
    sameDispatches_finish state campaign .cancelled (exits campaign.id))
    running state
  intro id
  refine Eq.trans ?_ (stopped id)
  apply sameDispatches_foldl
  intro before campaign other
  split
  · rfl
  · rfl

/-- Between two steps: every start was of a chosen campaign, and the bound
holds wherever the exact quotients decided. -/
private structure ShareInvariant (manifest : Manifest) (world : World) :
    Prop where
  sound : world.Sound manifest
  chosen : ∀ launch ∈ launchesOf world.history,
    Chosen manifest launch.state launch.running launch.campaign
  share : (∀ launch ∈ launchesOf world.history,
      RatiosExact manifest launch) →
    ∀ state ∈ world.checkpoint,
      ∀ first ∈ manifest.projects, ∀ second ∈ manifest.projects,
        (∀ launch ∈ launchesOf world.history,
          EligibleAt manifest launch first ∧
            EligibleAt manifest launch second) →
        WithinOne state first second

/-- A start serves a project with the least quotient. -/
private theorem withinOne_launch {state : State} {running : List Campaign}
    {campaign : Campaign} (chosen : Chosen manifest state running campaign)
    (ratios : RatiosExact manifest ⟨campaign, state, running⟩)
    {first second : Project} (firstMember : first ∈ manifest.projects)
    (eligible : EligibleAt manifest ⟨campaign, state, running⟩ second)
    (before : WithinOne state first second) :
    WithinOne (launch state campaign) first second := by
  unfold WithinOne at before ⊢
  rw [dispatchedOf_launch, dispatchedOf_launch]
  by_cases served : first.id = campaign.project
  · obtain ⟨project, projectEligible, sameId, least⟩ := chosen.fair
    have same : project = first :=
      List.inj_on_of_nodup_map manifest.projects_nodup
        (mem_eligibleProjects.mp projectEligible).1 firstMember
        (sameId.trans served.symm)
    subst same
    have ordered := ratios project second projectEligible eligible
      (least second eligible)
    rw [if_pos served, Nat.add_mul, Nat.add_mul]
    simp only at ordered
    omega
  · rw [if_neg served, Nat.add_zero, Nat.add_mul]
    omega

private theorem shareInvariant_step {world next : World} {input : Input}
    (invariant : ShareInvariant manifest world)
    (stepped : step manifest world input = some next) :
    ShareInvariant manifest next := by
  obtain ⟨sound, chosen, share⟩ := invariant
  have unstarted : launchesOf next.history = launchesOf world.history →
      (∀ state ∈ next.checkpoint, (∀ id, (state.projects id).dispatched = 0) ∨
        ∃ before ∈ world.checkpoint, SameDispatches before state) →
      ShareInvariant manifest next := by
    intro same states
    refine ⟨(step_kept sound stepped).sound, same ▸ chosen, ?_⟩
    rw [same]
    intro exactly state recorded first firstMember second secondMember eligible
    rcases states state recorded with unused | ⟨before, was, dispatches⟩
    · rw [WithinOne, dispatchedOf, unused, Nat.zero_mul]
      exact Nat.zero_le _
    · have bound :=
        share exactly before was first firstMember second secondMember eligible
      rwa [WithinOne, dispatchedOf, dispatchedOf, dispatches, dispatches]
  cases step_effect sound stepped with
  | quiet same none =>
      apply unstarted none
      intro state recorded
      exact .inr ⟨state, same ▸ recorded, fun _ => rfl⟩
  | created absent saved none =>
      apply unstarted none
      intro state recorded
      rw [saved] at recorded
      cases recorded
      exact .inl fun _ => rfl
  | resumed old before saved none =>
      apply unstarted none
      intro state recorded
      rw [saved] at recorded
      cases recorded
      exact .inr ⟨old, before, fun _ => rfl⟩
  | finished old campaign status exit before notBlocked saved none =>
      apply unstarted none
      intro state recorded
      rw [saved] at recorded
      cases recorded
      exact .inr ⟨old, before, sameDispatches_finish old campaign status exit⟩
  | cancelled process exits before processSound saved none =>
      apply unstarted none
      intro state recorded
      rw [saved] at recorded
      cases recorded
      exact .inr ⟨_, before,
        sameDispatches_cancelAll process.state process.running exits⟩
  | withdrawn old campaign before saved none =>
      apply unstarted none
      intro state recorded
      rw [saved] at recorded
      cases recorded
      exact .inr ⟨old, before, fun _ => rfl⟩
  | blocked process campaign reason survives taken alive before examining
      wasChosen refused saved none =>
      apply unstarted none
      intro state recorded
      rw [saved] at recorded
      cases recorded
      exact .inr ⟨_, before, fun _ => rfl⟩
  | launched process campaign reason survives taken alive before examining
      wasChosen allowed saved one =>
      refine ⟨(step_kept sound stepped).sound, ?_, ?_⟩
      · rw [one]
        intro launch member
        rcases List.mem_append.mp member with earlier | now
        · exact chosen launch earlier
        · rw [List.mem_singleton.mp now]
          exact wasChosen
      · rw [one]
        intro exactly state recorded first firstMember second secondMember
          eligible
        have bound := share
          (fun launch member => exactly launch (List.mem_append_left _ member))
          process.state before first firstMember second secondMember
          (fun launch member => eligible launch (List.mem_append_left _ member))
        rw [saved] at recorded
        cases survives with
        | false =>
            cases recorded
            exact bound
        | true =>
            cases recorded
            exact withinOne_launch wasChosen (exactly _ (by simp)) firstMember
              (eligible _ (by simp)).2 bound

/-- In every run whose starts were decided as by the exact quotients, the
dispatches are shared by weight. -/
theorem fair_share_of_ratiosExact (manifest : Manifest)
    (inputs : List Input) (world : World)
    (ran : follow (step manifest) World.fresh inputs = some world)
    (exactly : ∀ launch ∈ launchesOf world.history,
      RatiosExact manifest launch)
    (state : State) (recorded : world.checkpoint = some state) :
    FairShare manifest (launchesOf world.history) state := by
  have start : ShareInvariant manifest World.fresh := by
    refine ⟨World.fresh_sound, ?_, ?_⟩
    · rintro launch ⟨⟩
    · rintro _ other ⟨⟩
  have invariant := follow_preserves
    (fun _ _ _ invariant stepped => shareInvariant_step invariant stepped)
    start ran
  constructor
  · intro first firstMember second secondMember eligible
    rw [withinOne_iff (manifest.weight_pos first firstMember)
      (manifest.weight_pos second secondMember)]
    exact invariant.share exactly state recorded first firstMember second
      secondMember eligible
  · intro launch member other pending
    exact campaignKey_le
      ((invariant.chosen launch member).first other pending)

/-- Weights and counts so small that different quotients round apart. -/
def SmallCounts (manifest : Manifest) (launch : Launch) : Prop :=
  ∀ first ∈ eligibleProjects manifest launch.state launch.running,
    first.weight < 2 ^ 53 ∧ dispatchedOf launch.state first < 2 ^ 53 ∧
      ∀ second ∈ eligibleProjects manifest launch.state launch.running,
        3 * (dispatchedOf launch.state first * second.weight) < 2 ^ 53

instance (manifest : Manifest) (launch : Launch) :
    Decidable (SmallCounts manifest launch) :=
  inferInstanceAs (Decidable (∀ first ∈ eligibleProjects _ _ _, _ ∧ _ ∧ _))

private theorem toFloat_eq {value : Nat} {bits : Double}
    (converted : toFloat value = .ok bits) : bits = ofInt binary64 value := by
  unfold toFloat at converted
  dsimp only at converted
  split at converted
  · cases converted
  · exact (Except.ok.inj converted).symm

private theorem orderKey_serviceRatio {state : State} {project : Project}
    {ratio : Double} (served : serviceRatio state project = .ok ratio) :
    orderKey binary64 ratio =
      quotientKey (dispatchedOf state project) project.weight := by
  unfold serviceRatio at served
  cases weight : toFloat project.weight with
  | error message =>
      rw [weight] at served
      cases served
  | ok weightBits =>
      cases dispatched : toFloat (state.projects project.id).dispatched with
      | error message =>
          rw [weight, dispatched] at served
          cases served
      | ok dispatchedBits =>
          rw [weight, dispatched] at served
          cases served
          rw [toFloat_eq weight, toFloat_eq dispatched]
          rfl

theorem ratiosExact_of_small {launch : Launch}
    (small : SmallCounts manifest launch) : RatiosExact manifest launch := by
  rintro first second firstEligible secondEligible
    ⟨ratio, other, firstServed, secondServed, order⟩
  rw [orderKey_serviceRatio firstServed,
    orderKey_serviceRatio secondServed] at order
  by_contra reversed
  have less := Nat.lt_of_not_le reversed
  obtain ⟨firstWeight, firstCount, -⟩ := small first firstEligible
  obtain ⟨secondWeight, secondCount, apart⟩ := small second secondEligible
  have firstPositive :=
    manifest.weight_pos first (mem_eligibleProjects.mp firstEligible).1
  have secondPositive :=
    manifest.weight_pos second (mem_eligibleProjects.mp secondEligible).1
  have served : 0 < dispatchedOf launch.state first := by
    rcases Nat.eq_zero_or_pos (dispatchedOf launch.state first) with
      none | some
    · rw [none, Nat.zero_mul] at less
      cases less
    · exact some
  have ordered : quotientKey (dispatchedOf launch.state second) second.weight <
      quotientKey (dispatchedOf launch.state first) first.weight := by
    rcases Nat.eq_zero_or_pos (dispatchedOf launch.state second) with
      none | some
    · rw [none, quotientKey_zero secondPositive secondWeight]
      exact quotientKey_pos served firstCount firstPositive firstWeight
    · exact quotientKey_lt some secondCount secondPositive secondWeight served
        firstCount firstPositive firstWeight less (apart first firstEligible)
  exact absurd order (not_le_of_gt ordered)

private theorem pair_weight {left right : Nat} (leftPositive : 0 < left)
    (rightPositive : 0 < right) :
    ∀ project ∈ ([⟨"left", 0, left, 1, none, none⟩,
        ⟨"right", 1, right, 1, none, none⟩] : List Project),
      0 < project.weight := by
  simp [leftPositive, rightPositive]

private theorem pair_slots (left right : Nat) :
    ∀ project ∈ ([⟨"left", 0, left, 1, none, none⟩,
        ⟨"right", 1, right, 1, none, none⟩] : List Project),
      0 < project.maxConcurrent := by
  simp

private theorem pair_nodup : ["left", "right"].Nodup := by
  simp

private theorem four_nodup : ["l1", "l2", "r1", "r2"].Nodup := by
  simp

private theorem four_known (left right : Nat) :
    ∀ campaign ∈ ([⟨"l1", "left", "l1.json", "l1", 0, 0, none, 0⟩,
        ⟨"l2", "left", "l2.json", "l2", 5, 0, none, 1⟩,
        ⟨"r1", "right", "r1.json", "r1", 0, 0, none, 2⟩,
        ⟨"r2", "right", "r2.json", "r2", 0, 0, none, 3⟩] : List Campaign),
      ∃ project ∈ ([⟨"left", 0, left, 1, none, none⟩,
        ⟨"right", 1, right, 1, none, none⟩] : List Project),
        project.id = campaign.project := by
  simp

/-- Two projects with two campaigns each, and one slot. -/
def twoProjects (left right : Nat) (leftPositive : 0 < left)
    (rightPositive : 0 < right) : Manifest :=
  { projects := [⟨"left", 0, left, 1, none, none⟩,
      ⟨"right", 1, right, 1, none, none⟩]
    campaigns := [⟨"l1", "left", "l1.json", "l1", 0, 0, none, 0⟩,
      ⟨"l2", "left", "l2.json", "l2", 5, 0, none, 1⟩,
      ⟨"r1", "right", "r1.json", "r1", 0, 0, none, 2⟩,
      ⟨"r2", "right", "r2.json", "r2", 0, 0, none, 3⟩]
    globalMax := 1
    globalMax_pos := Nat.one_pos
    weight_pos := pair_weight leftPositive rightPositive
    slots_pos := pair_slots left right
    projects_nodup := pair_nodup
    campaigns_nodup := four_nodup
    projects_order := rfl
    campaigns_order := rfl
    project_known := four_known left right }

def lightProjects : Manifest :=
  twoProjects 2 1 Nat.two_pos Nat.one_pos

/-- Weights that are too large for a double. -/
def heavyProjects : Manifest :=
  twoProjects (2 ^ 53) (2 ^ 53 + 1) (by simp) (by simp)

/-- Campaigns are started one after the other. -/
def oneByOne (count : Nat) : List Input :=
  let noCancel : Input := .cancelMarker false fun _ => ⟨0, none⟩
  [.start false, noCancel, .drainMarker false] ++
    (List.replicate count [.dispatch false true, .dispatch false true,
      noCancel, .poll false 0 ⟨0, some 0⟩, .drainMarker false]).flatten

theorem fair_share_of_ratiosExact_light :
    ∃ world state,
      follow (step lightProjects) World.fresh (oneByOne 3) = some world ∧
      world.checkpoint = some state ∧
      (launchesOf world.history).map (·.campaign.id) = ["l2", "r1", "l1"] ∧
      FairShare lightProjects (launchesOf world.history) state := by
  refine ⟨_, _, rfl, rfl, rfl, ?_⟩
  apply fair_share_of_ratiosExact lightProjects (oneByOne 3) _ rfl
  · intro launch member
    exact ratiosExact_of_small ((by decide : ∀ launch ∈ launchesOf _,
      SmallCounts lightProjects launch) launch member)
  · rfl

/-- The double of `2 ^ 53 + 1` is that of `2 ^ 53`, so the project with the
smaller weight is served although the other one is behind. -/
theorem rounded_weights_break_fair_share :
    ∃ world state,
      follow (step heavyProjects) World.fresh (oneByOne 3) = some world ∧
      world.checkpoint = some state ∧
      ¬ FairShare heavyProjects (launchesOf world.history) state := by
  refine ⟨_, _, rfl, rfl, ?_⟩
  intro fair
  have bound := (withinOne_iff (by simp) (by simp)).mp <|
    fair.share ⟨"left", 0, 2 ^ 53, 1, none, none⟩ List.mem_cons_self
      ⟨"right", 1, 2 ^ 53 + 1, 1, none, none⟩
      (List.mem_cons_of_mem _ List.mem_cons_self) fun launch member =>
        (by decide : ∀ launch ∈ launchesOf _,
          _ ∈ eligibleProjects heavyProjects launch.state launch.running ∧
            _ ∈ eligibleProjects heavyProjects launch.state launch.running)
          launch member
  exact absurd bound (by unfold WithinOne; decide)

end PpcLab.Scheduler
