import Mathlib.Algebra.Order.Field.Basic
import Mathlib.Algebra.Order.Floor.Ring
import Mathlib.Data.Rat.Floor
import PpcLab.Explore.Evaluate

/-!
# Health of a control plane

Observations of a control plane are summed up in a report, and the report is
judged by a policy.  The time that the backlog needs is estimated from the jobs
that were completed in the window, or from the slots and the median run time
when none was.  Numbers are exact.
-/

namespace PpcLab.Observe

open Explore (Failure)

/-- What the control plane has counted; a count can be absent. -/
structure Counts where
  complete : Option Nat
  failed : Option Nat
  cancelled : Option Nat

structure Runtime where
  count : Nat
  mean : Option ℚ
  p50 : Option ℚ
  p95 : Option ℚ
  max : Option ℚ

structure Observation where
  unix : ℚ
  queueDepth : Nat
  activeCount : Nat
  counts : Counts
  configuredSlots : Option Int
  runtimeSeconds : Runtime
  loadOnePerCpu : Option ℚ
  memoryAvailableRatio : Option ℚ
  diskFreeRatios : List (Option ℚ)

/-- The value below which a fraction of the values is, between two of them. -/
def percentile (values : List ℚ) (fraction : ℚ) : Option ℚ :=
  match values.insertionSort fun first second => first ≤ second with
  | [] => none
  | [value] => some value
  | sorted =>
      let position : ℚ := (sorted.length - 1 : ℕ) * fraction
      if ⌊position⌋ = ⌈position⌉ then sorted[⌊position⌋.toNat]?
      else do
        let low ← sorted[⌊position⌋.toNat]?
        let high ← sorted[⌈position⌉.toNat]?
        return low + (high - low) * (position - ⌊position⌋)

structure StatSummary where
  count : Nat
  mean : Option ℚ
  p50 : Option ℚ
  p95 : Option ℚ
  max : Option ℚ
  min : Option ℚ

def statSummary (values : List ℚ) : StatSummary where
  count := values.length
  mean := if values.isEmpty then none else some (values.sum / values.length)
  p50 := percentile values (1 / 2)
  p95 := percentile values (19 / 20)
  max := values.max?
  min := values.min?

def countDelta (first last : Observation) (key : Counts → Option Nat) : Nat :=
  (key last.counts).getD 0 - (key first.counts).getD 0

structure Report where
  samples : Nat
  startUnix : ℚ
  endUnix : ℚ
  elapsedSeconds : ℚ
  queue : StatSummary
  nonzeroFraction : ℚ
  latestQueue : Nat
  active : StatSummary
  latestActive : Nat
  completeDelta : Nat
  failedDelta : Nat
  cancelledDelta : Nat
  terminalDelta : Nat
  completedPerHour : Option ℚ
  failureRate : ℚ
  loadPerCpu : StatSummary
  memoryAvailableRatio : StatSummary
  diskFreeRatio : StatSummary
  serviceTimeSeconds : Runtime
  configuredSlots : Option Int
  theoreticalCompletedPerHour : Option ℚ
  estimatedBacklogClearHours : Option ℚ

def elapsedSeconds (first last : Observation) : ℚ :=
  max 0 (last.unix - first.unix)

def slotsOf (last : Observation) : Option Int :=
  last.configuredSlots.filter fun slots => 0 < slots

/-- The jobs an hour that the slots complete when every job takes the median
time. -/
def theoreticalRate (last : Observation) : Option ℚ :=
  match slotsOf last, last.runtimeSeconds.p50 with
  | some slots, some p50 => if 0 < p50 then some (slots * 3600 / p50) else none
  | _, _ => none

def throughputOf (completed : Nat) (elapsed : ℚ) : Option ℚ :=
  let hours := elapsed / 3600
  if 0 < hours then some (completed / hours) else none

def failureRateOf (completed failed cancelled : Nat) : ℚ :=
  if completed + failed + cancelled = 0 then 0
  else failed / (completed + failed + cancelled : ℕ)

def nonzeroFractionOf (queues : List ℚ) : ℚ :=
  if queues.isEmpty then 0
  else (queues.filter fun depth => 0 < depth).length / queues.length

/-- `effective_rate` -/
def effectiveRate (throughput theoretical : Option ℚ) : Option ℚ :=
  match throughput with
  | some rate => if 0 < rate then some rate else theoretical
  | none => theoretical

/-- The hours that a backlog takes at a rate. -/
def clearHours (queue : Nat) (rate : Option ℚ) : Option ℚ :=
  match rate.filter fun rate => 0 < rate with
  | some rate => some (queue / rate)
  | none => if queue = 0 then some 0 else none

/-- The report of a window that has a first and a last observation. -/
def reportOf (samples : List Observation) (first last : Observation) :
    Report :=
  let queues := samples.map fun sample => (sample.queueDepth : ℚ)
  let completed := countDelta first last Counts.complete
  let failed := countDelta first last Counts.failed
  let cancelled := countDelta first last Counts.cancelled
  let throughput := throughputOf completed (elapsedSeconds first last)
  { samples := samples.length
    startUnix := first.unix
    endUnix := last.unix
    elapsedSeconds := elapsedSeconds first last
    queue := statSummary queues
    nonzeroFraction := nonzeroFractionOf queues
    latestQueue := last.queueDepth
    active := statSummary (samples.map fun sample => (sample.activeCount : ℚ))
    latestActive := last.activeCount
    completeDelta := completed
    failedDelta := failed
    cancelledDelta := cancelled
    terminalDelta := completed + failed + cancelled
    completedPerHour := throughput
    failureRate := failureRateOf completed failed cancelled
    loadPerCpu := statSummary (samples.filterMap Observation.loadOnePerCpu)
    memoryAvailableRatio :=
      statSummary (samples.filterMap Observation.memoryAvailableRatio)
    diskFreeRatio := statSummary
      (samples.flatMap fun sample => sample.diskFreeRatios.filterMap id)
    serviceTimeSeconds := last.runtimeSeconds
    configuredSlots := slotsOf last
    theoreticalCompletedPerHour := theoreticalRate last
    estimatedBacklogClearHours := clearHours last.queueDepth
      (effectiveRate throughput (theoreticalRate last)) }

def buildReport (samples : List Observation) : Except Failure Report :=
  match samples.head?, samples.getLast? with
  | some first, some last => .ok (reportOf samples first last)
  | _, _ => .error (.reported (str "no observations in selected window"))

structure Bounds where
  warn : ℚ
  critical : ℚ

structure Policy where
  minSamples : Int
  queueDepth : Bounds
  queueNonzeroFractionWarn : ℚ
  failureRate : Bounds
  loadPerCpu : Bounds
  memoryAvailableRatio : Bounds
  diskFreeRatio : Bounds
  backlogClearHours : Bounds

def defaultPolicy : Policy where
  minSamples := 3
  queueDepth := ⟨4, 16⟩
  queueNonzeroFractionWarn := 1 / 2
  failureRate := ⟨1 / 10, 1 / 4⟩
  loadPerCpu := ⟨17 / 20, 5 / 4⟩
  memoryAvailableRatio := ⟨3 / 20, 2 / 25⟩
  diskFreeRatio := ⟨3 / 20, 2 / 25⟩
  backlogClearHours := ⟨2, 8⟩

inductive Severity where
  | ok
  | warning
  | critical
  deriving DecidableEq

def Severity.rank : Severity → Nat
  | .ok => 0
  | .warning => 1
  | .critical => 2

structure Alert where
  severity : Severity
  metric : Str
  value : ℚ
  threshold : ℚ
  message : Option Str

/-- An alert where a value is not below a bound. -/
def upper (metric : String) (value : Option ℚ) (bounds : Bounds) :
    List Alert :=
  match value with
  | none => []
  | some value =>
      if bounds.critical ≤ value then
        [⟨.critical, str metric, value, bounds.critical, none⟩]
      else if bounds.warn ≤ value then
        [⟨.warning, str metric, value, bounds.warn, none⟩]
      else []

/-- An alert where a value is not above a bound. -/
def lower (metric : String) (value : Option ℚ) (bounds : Bounds) :
    List Alert :=
  match value with
  | none => []
  | some value =>
      if value ≤ bounds.critical then
        [⟨.critical, str metric, value, bounds.critical, none⟩]
      else if value ≤ bounds.warn then
        [⟨.warning, str metric, value, bounds.warn, none⟩]
      else []

def samplesAlerts (report : Report) (policy : Policy) : List Alert :=
  if (report.samples : Int) < policy.minSamples then
    [⟨.warning, str "samples", report.samples, policy.minSamples,
      some (str "insufficient samples for stable trend judgement")⟩]
  else []

def fractionAlerts (report : Report) (policy : Policy) : List Alert :=
  if policy.queueNonzeroFractionWarn ≤ report.nonzeroFraction then
    [⟨.warning, str "queue.nonzero_fraction", report.nonzeroFraction,
      policy.queueNonzeroFractionWarn, none⟩]
  else []

/-- The alerts about the queue and the number of observations. -/
def queueAlerts (report : Report) (policy : Policy) : List Alert :=
  samplesAlerts report policy ++
    upper "queue.latest" (some report.latestQueue) policy.queueDepth ++
    fractionAlerts report policy

def failureAlerts (report : Report) (policy : Policy) : List Alert :=
  upper "throughput.failure_rate" (some report.failureRate) policy.failureRate

def hostAlerts (report : Report) (policy : Policy) : List Alert :=
  upper "host.load_per_cpu.p95" report.loadPerCpu.p95 policy.loadPerCpu ++
    lower "host.memory_available_ratio.min" report.memoryAvailableRatio.min
      policy.memoryAvailableRatio ++
    lower "host.disk_free_ratio.min" report.diskFreeRatio.min
      policy.diskFreeRatio

def backlogAlerts (report : Report) (policy : Policy) : List Alert :=
  upper "capacity.estimated_backlog_clear_hours"
    report.estimatedBacklogClearHours policy.backlogClearHours

def severityOf (alerts : List Alert) : Severity :=
  if alerts.any fun alert => alert.severity = .critical then .critical
  else if alerts.isEmpty then .ok
  else .warning

structure Check where
  status : Severity
  ok : Bool
  alerts : List Alert
  report : Report

def healthCheck (report : Report) (policy : Policy) : Check :=
  let alerts := queueAlerts report policy ++ failureAlerts report policy ++
    hostAlerts report policy ++ backlogAlerts report policy
  let severity := severityOf alerts
  ⟨severity, severity ≠ .critical, alerts, report⟩

/-- The severity that is reported for observations. -/
def severity (policy : Policy) (samples : List Observation) :
    Except Failure Severity := do
  let report ← buildReport samples
  return (healthCheck report policy).status

theorem rank_severityOf_append (first second : List Alert) :
    (severityOf (first ++ second)).rank =
      max (severityOf first).rank (severityOf second).rank := by
  have bounded (severity : Severity) : severity.rank ≤ 2 := by
    cases severity <;> decide
  by_cases left : first.any fun alert => alert.severity = .critical
  · have whole : severityOf (first ++ second) = .critical := by
      simp only [severityOf, List.any_append, left, Bool.true_or, if_true]
    have one : severityOf first = .critical := by
      simp only [severityOf, left, if_true]
    rw [whole, one]
    exact (max_eq_left (bounded _)).symm
  · by_cases right : second.any fun alert => alert.severity = .critical
    · have whole : severityOf (first ++ second) = .critical := by
        simp only [severityOf, List.any_append, right, Bool.or_true, if_true]
      have one : severityOf second = .critical := by
        simp only [severityOf, right, if_true]
      rw [whole, one]
      exact (max_eq_right (bounded _)).symm
    · have none : ¬(first ++ second).any fun alert =>
          alert.severity = .critical := by
        simpa only [List.any_append, Bool.or_eq_true, not_or] using
          ⟨left, right⟩
      simp only [severityOf, left, right, none]
      cases first <;> cases second <;> rfl

def completed (sample : Observation) : Nat :=
  sample.counts.complete.getD 0

/-- An observation with another number of completed jobs. -/
def Observation.withCompleted (sample : Observation) (count : Nat) :
    Observation :=
  { sample with counts := { sample.counts with complete := some count } }

/-- The first observation of a window. -/
def firstOf (earlier : List Observation) (last : Observation) : Observation :=
  earlier.headD last

/-- The report of a window with a last observation. -/
def windowReport (earlier : List Observation) (last : Observation) : Report :=
  reportOf (earlier ++ [last]) (firstOf earlier last) last

/-- The later observations are not reported as healthier. -/
def NotHealthier (policy : Policy) (before after : List Observation) : Prop :=
  ∀ severe later, severity policy before = .ok severe →
    severity policy after = .ok later → severe.rank ≤ later.rank

/-- How severe a value is that should be below its bounds. -/
def levelAbove (bounds : Bounds) : Option ℚ → Nat
  | none => 0
  | some value =>
      if bounds.critical ≤ value then 2 else if bounds.warn ≤ value then 1
      else 0

/-- How severe a value is that should be above its bounds. -/
def levelBelow (bounds : Bounds) : Option ℚ → Nat
  | none => 0
  | some value =>
      if value ≤ bounds.critical then 2 else if value ≤ bounds.warn then 1
      else 0

def queueLevel (policy : Policy) (report : Report) : Nat :=
  max (max (if (report.samples : Int) < policy.minSamples then 1 else 0)
      (levelAbove policy.queueDepth (some report.latestQueue)))
    (if policy.queueNonzeroFractionWarn ≤ report.nonzeroFraction then 1 else 0)

def hostLevel (policy : Policy) (report : Report) : Nat :=
  max (max (levelAbove policy.loadPerCpu report.loadPerCpu.p95)
      (levelBelow policy.memoryAvailableRatio report.memoryAvailableRatio.min))
    (levelBelow policy.diskFreeRatio report.diskFreeRatio.min)

/-- The time for the backlog is no more severe than the time that the slots and
the median run time give, or than what else is known of a window in which
nothing is completed: its queue, its host and its failures. -/
def StallShows (policy : Policy) (report : Report) : Prop :=
  levelAbove policy.backlogClearHours report.estimatedBacklogClearHours ≤
    max (levelAbove policy.backlogClearHours
        (clearHours report.latestQueue report.theoreticalCompletedPerHour))
      (max (max (queueLevel policy report) (hostLevel policy report))
        (levelAbove policy.failureRate (some
          (failureRateOf 0 report.failedDelta report.cancelledDelta))))

/-- A report with another number of completed jobs. -/
def Report.withCompleted (report : Report) (count : Nat) : Report :=
  let throughput := throughputOf count report.elapsedSeconds
  { report with
    completeDelta := count
    terminalDelta := count + report.failedDelta + report.cancelledDelta
    completedPerHour := throughput
    failureRate :=
      failureRateOf count report.failedDelta report.cancelledDelta
    estimatedBacklogClearHours := clearHours report.latestQueue
      (effectiveRate throughput report.theoreticalCompletedPerHour) }

section

variable {policy : Policy} {earlier : List Observation} {last : Observation}
  {count : Nat}

theorem rank_upper (metric : String) (value : Option ℚ) (bounds : Bounds) :
    (severityOf (upper metric value bounds)).rank = levelAbove bounds value := by
  cases value with
  | none => rfl
  | some value =>
      unfold upper levelAbove
      dsimp only
      split
      · rfl
      · split <;> rfl

theorem rank_lower (metric : String) (value : Option ℚ) (bounds : Bounds) :
    (severityOf (lower metric value bounds)).rank = levelBelow bounds value := by
  cases value with
  | none => rfl
  | some value =>
      unfold lower levelBelow
      dsimp only
      split
      · rfl
      · split <;> rfl

theorem rank_queueAlerts (report : Report) (policy : Policy) :
    (severityOf (queueAlerts report policy)).rank =
      queueLevel policy report := by
  rw [queueAlerts, rank_severityOf_append, rank_severityOf_append, rank_upper,
    queueLevel, samplesAlerts, fractionAlerts]
  split <;> split <;> rfl

theorem rank_hostAlerts (report : Report) (policy : Policy) :
    (severityOf (hostAlerts report policy)).rank = hostLevel policy report := by
  rw [hostAlerts, rank_severityOf_append, rank_severityOf_append, rank_upper,
    rank_lower, rank_lower, hostLevel]

/-- A higher value is at least as severe. -/
theorem levelAbove_mono (bounds : Bounds) {less more : ℚ} (le : less ≤ more) :
    levelAbove bounds (some less) ≤ levelAbove bounds (some more) := by
  unfold levelAbove
  dsimp only
  by_cases critical : bounds.critical ≤ less
  · rw [if_pos critical, if_pos (critical.trans le)]
  · rw [if_neg critical]
    by_cases warned : bounds.warn ≤ less
    · rw [if_pos warned, if_pos (warned.trans le)]
      split
      · exact Nat.le_succ 1
      · exact le_refl _
    · rw [if_neg warned]
      exact Nat.zero_le _

theorem severity_eq (policy : Policy) (earlier : List Observation)
    (last : Observation) :
    severity policy (earlier ++ [last]) =
      .ok (healthCheck (windowReport earlier last) policy).status := by
  have first : (earlier ++ [last]).head? = some (firstOf earlier last) := by
    cases earlier <;> rfl
  have final : (earlier ++ [last]).getLast? = some last :=
    List.getLast?_concat
  rw [severity, buildReport, first, final]
  rfl

/-- Only what is made of the completed jobs changes with their number. -/
theorem windowReport_withCompleted
    (notBelow : completed (firstOf earlier last) ≤ count)
    (less : count ≤ completed last) :
    windowReport earlier (last.withCompleted count) =
      (windowReport earlier last).withCompleted
        (count - completed (firstOf earlier last)) := by
  cases earlier with
  | nil =>
      have same : count - completed last = 0 := by omega
      simp only [windowReport, firstOf, List.headD_nil, List.nil_append, same]
      simp [reportOf, Report.withCompleted, countDelta,
        Observation.withCompleted, elapsedSeconds, theoreticalRate, slotsOf,
        List.filterMap_cons]
  | cons first rest =>
      simp [windowReport, firstOf, reportOf, Report.withCompleted, countDelta,
        Observation.withCompleted, elapsedSeconds, theoreticalRate, slotsOf,
        completed, List.filterMap_cons]

theorem failureRateOf_anti (failed cancelled : Nat) {less more : Nat}
    (le : less ≤ more) :
    failureRateOf more failed cancelled ≤
      failureRateOf less failed cancelled := by
  unfold failureRateOf
  by_cases none : less + failed + cancelled = 0
  · have nothing : failed = 0 := by omega
    rw [if_pos none, nothing]
    split
    · exact le_refl _
    · simp
  · have some : more + failed + cancelled ≠ 0 := by omega
    rw [if_neg none, if_neg some]
    apply div_le_div_of_nonneg_left
    · exact Nat.cast_nonneg _
    · exact Nat.cast_pos.mpr (Nat.pos_of_ne_zero none)
    · exact Nat.cast_le.mpr (by omega)

/-- Fewer completed jobs, if there are any, mean a longer time for the
backlog. -/
theorem clearHours_anti (queue : Nat) (elapsed : ℚ) (theoretical : Option ℚ)
    {less more : Nat} (some : 0 < less) (le : less ≤ more) :
    clearHours queue (effectiveRate (throughputOf more elapsed) theoretical) =
        clearHours queue
          (effectiveRate (throughputOf less elapsed) theoretical) ∨
      ∃ shorter longer, shorter ≤ longer ∧
        clearHours queue (effectiveRate (throughputOf more elapsed)
          theoretical) = .some shorter ∧
        clearHours queue (effectiveRate (throughputOf less elapsed)
          theoretical) = .some longer := by
  by_cases spans : 0 < elapsed / 3600
  · have rate {count : Nat} (positive : 0 < count) :
        clearHours queue (effectiveRate (throughputOf count elapsed)
          theoretical) = .some (queue / (count / (elapsed / 3600))) := by
      have above : 0 < (count : ℚ) / (elapsed / 3600) :=
        div_pos (Nat.cast_pos.mpr positive) spans
      simp only [throughputOf, spans, if_true, effectiveRate, above,
        clearHours, Option.filter_some, decide_true]
    refine .inr ⟨_, _, ?_, rate (some.trans_le le), rate some⟩
    apply div_le_div_of_nonneg_left
    · exact Nat.cast_nonneg _
    · exact div_pos (Nat.cast_pos.mpr some) spans
    · exact div_le_div_of_nonneg_right (Nat.cast_le.mpr le) spans.le
  · left
    simp only [throughputOf, spans, if_false]

theorem effectiveRate_zero (elapsed : ℚ) (theoretical : Option ℚ) :
    effectiveRate (throughputOf 0 elapsed) theoretical = theoretical := by
  unfold throughputOf
  dsimp only
  split
  · simp [effectiveRate]
  · rfl

/-- The worst level of the parts of a report. -/
theorem rank_status (report : Report) (policy : Policy) :
    (healthCheck report policy).status.rank =
      max (max (queueLevel policy report)
          (levelAbove policy.failureRate (some report.failureRate)))
        (max (hostLevel policy report)
          (levelAbove policy.backlogClearHours
            report.estimatedBacklogClearHours)) := by
  rw [healthCheck]
  dsimp only
  rw [rank_severityOf_append, rank_severityOf_append, rank_severityOf_append,
    rank_queueAlerts, rank_hostAlerts, failureAlerts, rank_upper, backlogAlerts,
    rank_upper, max_assoc]

/-- Fewer completed jobs are not reported as healthier exactly if some are left
or the report of none shows it. -/
theorem health_monotone_iff (policy : Policy) (earlier : List Observation)
    (last : Observation) (count : Nat)
    (notBelow : completed (firstOf earlier last) ≤ count)
    (less : count ≤ completed last) :
    NotHealthier policy (earlier ++ [last])
        (earlier ++ [last.withCompleted count]) ↔
      completed (firstOf earlier last) < count ∨
        StallShows policy (windowReport earlier last) := by
  let report := windowReport earlier last
  let left := count - completed (firstOf earlier last)
  have done : report.completeDelta =
      completed last - completed (firstOf earlier last) := rfl
  have fewer : left ≤ report.completeDelta := by omega
  have failures : levelAbove policy.failureRate (some report.failureRate) ≤
      levelAbove policy.failureRate
        (some (report.withCompleted left).failureRate) :=
    levelAbove_mono _ (failureRateOf_anti _ _ fewer)
  have ranks : NotHealthier policy (earlier ++ [last])
      (earlier ++ [last.withCompleted count]) ↔
        (healthCheck report policy).status.rank ≤
          (healthCheck (report.withCompleted left) policy).status.rank := by
    unfold NotHealthier
    rw [severity_eq, severity_eq, windowReport_withCompleted notBelow less]
    constructor
    · intro all
      exact all _ _ rfl rfl
    · intro here severe later isSevere isLater
      cases isSevere
      cases isLater
      exact here
  have queues : queueLevel policy (report.withCompleted left) =
      queueLevel policy report := rfl
  have hosts : hostLevel policy (report.withCompleted left) =
      hostLevel policy report := rfl
  rw [ranks, rank_status, rank_status, queues, hosts]
  by_cases some : completed (firstOf earlier last) < count
  · have backlog : levelAbove policy.backlogClearHours
          report.estimatedBacklogClearHours ≤
        levelAbove policy.backlogClearHours
          (report.withCompleted left).estimatedBacklogClearHours := by
      rcases clearHours_anti report.latestQueue report.elapsedSeconds
          report.theoreticalCompletedPerHour (Nat.sub_pos_of_lt some) fewer with
        same | ⟨shorter, longer, le, isShorter, isLonger⟩
      · exact le_of_eq (congrArg (levelAbove policy.backlogClearHours) same)
      · have before : report.estimatedBacklogClearHours = .some shorter :=
          isShorter
        have after : (report.withCompleted left).estimatedBacklogClearHours =
            .some longer := isLonger
        rw [before, after]
        exact levelAbove_mono _ le
    refine iff_of_true ?_ (.inl some)
    omega
  · have none : left = 0 := by omega
    have hours : (report.withCompleted left).estimatedBacklogClearHours =
        clearHours report.latestQueue report.theoreticalCompletedPerHour := by
      rw [none, Report.withCompleted]
      dsimp only
      rw [effectiveRate_zero]
    have failing : (report.withCompleted left).failureRate =
        failureRateOf 0 report.failedDelta report.cancelledDelta := by
      rw [none, Report.withCompleted]
    rw [hours]
    rw [failing] at failures ⊢
    rw [or_iff_right some]
    change _ ↔ StallShows policy report
    rw [StallShows]
    omega

end

/-- A service with three jobs in its queue and no run times. -/
def waiting (unix : ℚ) (complete : Nat) : Observation where
  unix := unix
  queueDepth := 3
  activeCount := 0
  counts := ⟨some complete, none, none⟩
  configuredSlots := none
  runtimeSeconds := ⟨0, none, none, none, none⟩
  loadOnePerCpu := none
  memoryAvailableRatio := none
  diskFreeRatios := []

/-- With one of two completed jobs fewer the service is still critical. -/
theorem slower_is_not_healthier :
    NotHealthier defaultPolicy [waiting 0 0, waiting 36000 1, waiting 72000 2]
      [waiting 0 0, waiting 36000 1, waiting 72000 1] :=
  (health_monotone_iff defaultPolicy [waiting 0 0, waiting 36000 1]
    (waiting 72000 2) 1 (by decide) (by decide)).mpr (.inl (by decide))

/-- A service that completes a job in ten hours is critical, one that completes
none is not. -/
theorem stalled_is_healthier :
    ¬NotHealthier defaultPolicy [waiting 0 0, waiting 18000 0, waiting 36000 1]
      [waiting 0 0, waiting 18000 0, (waiting 36000 1).withCompleted 0] := by
  intro monotone
  have slow : severity defaultPolicy
      [waiting 0 0, waiting 18000 0, waiting 36000 1] = .ok .critical := by
    decide +kernel
  have stalled : severity defaultPolicy
      [waiting 0 0, waiting 18000 0, (waiting 36000 1).withCompleted 0] =
        .ok .warning := by
    decide +kernel
  exact absurd (monotone _ _ slow stalled) (by decide)

end PpcLab.Observe
