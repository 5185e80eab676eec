import PpcLab.Scheduler.Schedule
import Mathlib.Data.List.Nodup

/-!
# What the scheduler selects

The campaign that is chosen is pending, belongs to an eligible project with
the least quotient, and comes first in its project.  Nothing is chosen only
when no project is eligible.
-/

namespace PpcLab.Scheduler

open Ieee754

variable {manifest : Manifest} {state : State} {running : List Campaign}

theorem Manifest.campaign_ext {first second : Campaign}
    (firstMember : first ∈ manifest.campaigns)
    (secondMember : second ∈ manifest.campaigns)
    (same : first.id = second.id) : first = second :=
  List.inj_on_of_nodup_map manifest.campaigns_nodup firstMember secondMember
    same

theorem Manifest.find_project {project : Project}
    (member : project ∈ manifest.projects) :
    manifest.projects.find? (·.id == project.id) = some project := by
  cases found : manifest.projects.find? (·.id == project.id) with
  | none =>
      have absent := List.find?_eq_none.mp found project member
      simp at absent
  | some other =>
      have sameId : other.id = project.id := by
        simpa using List.find?_some found
      rw [List.inj_on_of_nodup_map manifest.projects_nodup
        (List.mem_of_find?_eq_some found) member sameId]

theorem mem_pendingOf {project : String} {campaign : Campaign} :
    campaign ∈ pendingOf manifest state project ↔
      campaign ∈ manifest.campaigns ∧ campaign.project = project ∧
        state.status campaign = .pending := by
  simp [pendingOf]

theorem mem_eligibleProjects {project : Project} :
    project ∈ eligibleProjects manifest state running ↔
      project ∈ manifest.projects ∧
        runningByProject state running project.id < project.maxConcurrent ∧
        pendingOf manifest state project.id ≠ [] := by
  simp [eligibleProjects]

private theorem mapM_ratio {projects : List Project}
    {entries : List (Double × Project)}
    (mapped : projects.mapM (fun project => do
      let ratio ← serviceRatio state project
      return (ratio, project)) = .ok entries) :
    List.Forall₂ (fun project entry =>
      entry.2 = project ∧ serviceRatio state project = .ok entry.1)
      projects entries := by
  induction projects generalizing entries with
  | nil =>
      cases mapped
      exact .nil
  | cons project projects induction =>
      rw [List.mapM_cons] at mapped
      cases ratio : serviceRatio state project with
      | error message =>
          rw [ratio] at mapped
          cases mapped
      | ok value =>
          rw [ratio] at mapped
          cases rest : projects.mapM (fun project => do
              let ratio ← serviceRatio state project
              return (ratio, project)) with
          | error message =>
              rw [rest] at mapped
              cases mapped
          | ok others =>
              rw [rest] at mapped
              cases mapped
              exact .cons ⟨rfl, ratio⟩ (induction rest)

/-- The first project's quotient does not come after the second's. -/
def RatioLe (state : State) (first second : Project) : Prop :=
  ∃ ratio other, serviceRatio state first = .ok ratio ∧
    serviceRatio state second = .ok other ∧
    orderKey binary64 ratio ≤ orderKey binary64 other

/-- What is known of a chosen campaign. -/
structure Chosen (manifest : Manifest) (state : State)
    (running : List Campaign) (campaign : Campaign) : Prop where
  member : campaign ∈ manifest.campaigns
  pending : state.status campaign = .pending
  fair : ∃ project ∈ eligibleProjects manifest state running,
    project.id = campaign.project ∧
      ∀ other ∈ eligibleProjects manifest state running,
        RatioLe state project other
  first : ∀ other ∈ pendingOf manifest state campaign.project,
    campaignKey campaign ≤ campaignKey other

private theorem entries_of_ratios {projects : List Project}
    {entries : List (Double × Project)}
    (ratios : List.Forall₂ (fun project entry =>
      entry.2 = project ∧ serviceRatio state project = .ok entry.1)
      projects entries) :
    (∀ entry ∈ entries, entry.2 ∈ projects ∧
        serviceRatio state entry.2 = .ok entry.1) ∧
      ∀ project ∈ projects, ∃ entry ∈ entries, entry.2 = project := by
  induction ratios with
  | nil => simp
  | @cons project entry projects entries head _ induction =>
      obtain ⟨forward, backward⟩ := induction
      constructor
      · intro other member
        rcases List.mem_cons.mp member with rfl | later
        · rw [head.1]
          exact ⟨List.mem_cons_self, head.2⟩
        · exact ⟨List.mem_cons_of_mem _ (forward other later).1,
            (forward other later).2⟩
      · intro other member
        rcases List.mem_cons.mp member with rfl | later
        · exact ⟨entry, List.mem_cons_self, head.1⟩
        · obtain ⟨found, foundMember, same⟩ := backward other later
          exact ⟨found, List.mem_cons_of_mem _ foundMember, same⟩

private theorem bind_ok {α β : Type} (value : α)
    (next : α → Except String β) : (Except.ok value >>= next) = next value :=
  rfl

theorem chooseNext_some {campaign : Campaign}
    (chosen : chooseNext manifest state running = .ok (some campaign)) :
    Chosen manifest state running campaign := by
  rw [chooseNext] at chosen
  cases mapped : (eligibleProjects manifest state running).mapM
      (fun project => do
        let ratio ← serviceRatio state project
        return (ratio, project)) with
  | error message =>
      rw [mapped] at chosen
      cases chosen
  | ok entries =>
      obtain ⟨forward, backward⟩ := entries_of_ratios (mapM_ratio mapped)
      rw [mapped, bind_ok] at chosen
      cases chosenEntry : least projectKey entries with
      | none =>
          rw [chosenEntry] at chosen
          cases chosen
      | some entry =>
          rw [chosenEntry] at chosen
          have picked := Except.ok.inj chosen
          obtain ⟨eligible, ratio⟩ := forward entry (least_mem chosenEntry)
          have pending := mem_pendingOf.mp (least_mem picked)
          constructor
          · exact pending.1
          · exact pending.2.2
          · refine ⟨entry.2, eligible, pending.2.1.symm, ?_⟩
            intro other otherEligible
            obtain ⟨found, member, rfl⟩ := backward other otherEligible
            refine ⟨_, _, ratio, (forward found member).2, ?_⟩
            have order := least_le chosenEntry member
            rcases Prod.Lex.toLex_le_toLex.mp order with before | same
            · exact le_of_lt before
            · exact le_of_eq same.1
          · intro other otherPending
            rw [pending.2.1] at otherPending
            exact least_le picked otherPending

theorem chooseNext_none
    (chosen : chooseNext manifest state running = .ok none) :
    eligibleProjects manifest state running = [] := by
  rw [chooseNext] at chosen
  cases mapped : (eligibleProjects manifest state running).mapM
      (fun project => do
        let ratio ← serviceRatio state project
        return (ratio, project)) with
  | error message =>
      rw [mapped] at chosen
      cases chosen
  | ok entries =>
      have ratios := mapM_ratio mapped
      rw [mapped, bind_ok] at chosen
      cases chosenEntry : least projectKey entries with
      | none =>
          rw [least_eq_none] at chosenEntry
          rw [chosenEntry] at ratios
          exact List.forall₂_nil_right_iff.mp ratios
      | some entry =>
          rw [chosenEntry] at chosen
          have nothing := least_eq_none.mp (Except.ok.inj chosen)
          have eligible :=
            ((entries_of_ratios ratios).1 entry (least_mem chosenEntry)).1
          exact absurd nothing (mem_eligibleProjects.mp eligible).2.2

/-- Without running campaigns something can be chosen as long as something is
pending. -/
theorem anyPending_of_idle
    (idle : eligibleProjects manifest state [] = []) :
    anyPending manifest state = false := by
  rw [anyPending, List.any_eq_false]
  intro campaign member pending
  obtain ⟨project, projectMember, sameId⟩ :=
    manifest.project_known campaign member
  have eligible : project ∈ eligibleProjects manifest state [] := by
    refine mem_eligibleProjects.mpr ⟨projectMember, ?_, ?_⟩
    · exact manifest.slots_pos project projectMember
    · apply List.ne_nil_of_mem (a := campaign)
      exact mem_pendingOf.mpr ⟨member, sameId.symm, by simpa using pending⟩
  rw [idle] at eligible
  cases eligible

/-- An admitted campaign fits the budget of its project. -/
theorem quotaAllows_true {campaign : Campaign} {reason : Option String}
    (allowed : quotaAllows manifest campaign state = (true, reason))
    {project : Project} (member : project ∈ manifest.projects)
    (sameId : project.id = campaign.project) {budget : Nat}
    (limited : project.caseBudget = some budget) :
    (state.projects project.id).reservedCases + campaign.reserveCases ≤
      budget := by
  rw [quotaAllows, ← sameId, Manifest.find_project member] at allowed
  simp only [limited, exceedsBudget, Option.any_some] at allowed
  by_cases exceeding : budget <
      (state.projects project.id).reservedCases + campaign.reserveCases
  · simp [exceeding] at allowed
  · exact Nat.le_of_not_lt exceeding

end PpcLab.Scheduler
