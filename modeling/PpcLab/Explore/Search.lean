import PpcLab.Explore.Evaluate
import PpcLab.Library.Outcome

/-!
# Strategies

A cartesian exploration evaluates every combination of the values.  The other
strategies begin with the values of the base job and change one axis of a novel
case at a time: in the order of discovery, or where the axis has yielded most,
until nothing new turns up.

The tool checks its manifest, explores and writes a summary beside the
directory of the cases.
-/

namespace PpcLab.Explore

section

variable {session : Session} {baseJob : Fields} {state next : State}
  {candidate : Candidate} {row : Option Row}

/-- What an evaluation that succeeds does. -/
inductive Evaluated (session : Session) (baseJob : Fields) (state : State)
    (candidate : Candidate) : Option Row → State → Prop where
  | repeated :
      isAmong state.progress.evaluated
        (assignmentKey candidate.assignment) →
      Evaluated session baseJob state candidate none state
  | kept {row : Row} {cases : Cases} :
      ¬ isAmong state.progress.evaluated
        (assignmentKey candidate.assignment) →
      examine session baseJob state.progress candidate = .ok row →
      promote session row = .ok none →
      writeJson state.cases (Row.fileName row.index) row.written = .ok cases →
      Evaluated session baseJob state candidate (some row)
        ⟨state.progress.record candidate row, cases⟩
  | promoted {row final : Row} {cases written : Cases} :
      ¬ isAmong state.progress.evaluated
        (assignmentKey candidate.assignment) →
      examine session baseJob state.progress candidate = .ok row →
      promote session row = .ok (some final) →
      writeJson state.cases (Row.fileName row.index) row.written = .ok cases →
      writeJson cases (Row.fileName row.index) final.written = .ok written →
      Evaluated session baseJob state candidate (some final)
        ⟨state.progress.record candidate final, written⟩

theorem evaluated_of_evaluate
    (result : evaluate session baseJob state candidate = .ok (row, next)) :
    Evaluated session baseJob state candidate row next := by
  unfold evaluate at result
  split at result
  · rename_i known
    cases result
    exact .repeated known
  · rename_i fresh
    obtain ⟨first, examined, result⟩ := Outcome.bind_eq_ok.mp result
    obtain ⟨cases, wrote, result⟩ := Outcome.bind_eq_ok.mp result
    obtain ⟨final, promotes, result⟩ := Outcome.bind_eq_ok.mp result
    cases final with
    | none =>
        cases result
        exact .kept fresh examined promotes wrote
    | some final =>
        obtain ⟨written, again, result⟩ := Outcome.bind_eq_ok.mp result
        cases result
        exact .promoted fresh examined promotes wrote again

theorem evaluate_of_evaluated
    (evaluated : Evaluated session baseJob state candidate row next) :
    evaluate session baseJob state candidate = .ok (row, next) := by
  cases evaluated with
  | repeated known => exact if_pos known
  | kept fresh examined promotes wrote =>
      refine (if_neg fresh).trans ?_
      refine Outcome.bind_eq_ok.mpr ⟨_, examined, ?_⟩
      refine Outcome.bind_eq_ok.mpr ⟨_, wrote, ?_⟩
      exact Outcome.bind_eq_ok.mpr ⟨_, promotes, rfl⟩
  | promoted fresh examined promotes wrote again =>
      refine (if_neg fresh).trans ?_
      refine Outcome.bind_eq_ok.mpr ⟨_, examined, ?_⟩
      refine Outcome.bind_eq_ok.mpr ⟨_, wrote, ?_⟩
      refine Outcome.bind_eq_ok.mpr ⟨_, promotes, ?_⟩
      exact Outcome.bind_eq_ok.mpr ⟨_, again, rfl⟩

theorem rows_of_evaluate
    (result : evaluate session baseJob state candidate = .ok (row, next)) :
    (row = none ∧ next = state) ∨
      next.progress.rows.length = state.progress.rows.length + 1 := by
  cases evaluated_of_evaluate result with
  | repeated => exact .inl ⟨rfl, rfl⟩
  | kept | promoted => right; simp [Progress.record]

end

variable (session : Session) (manifest : Manifest)

/-- `axis.path` of the base job, or else the first value of the axis. -/
def baseValue (baseJob : Fields) (axis : Axis) : Json :=
  let (first, second) := splitPath axis.path
  let held :=
    match (Json.find? baseJob first).getD (.object []) with
    | .object fields => Json.find? fields second
    | _ => none
  held.getD (axis.values.head axis.nonempty)

def baseline : Fields :=
  manifest.axes.map fun axis => (axis.path, baseValue manifest.baseJob axis)

/-- `itertools.product` -/
def assignments : List Axis → List Fields
  | [] => [[]]
  | axis :: axes => axis.values.flatMap fun value =>
      (assignments axes).map fun rest => (axis.path, value) :: rest

/-- Candidates in the order in which they were found, and the assignments that
have ever been candidates. -/
structure Queue where
  waiting : List Candidate
  queued : List Str

def Queue.start : Queue where
  waiting := [⟨baseline manifest, none, none⟩]
  queued := [assignmentKey (baseline manifest)]

/-- A change of one axis becomes a candidate, unless it is known. -/
def offer (evaluated : List Str) (parent : Row) (queue : Queue)
    (change : Str × Json) : Queue :=
  if session.setting.doubles.equal (Json.get parent.assignment change.1)
      change.2 then queue
  else
    let child := Dictionary.assign parent.assignment change
    let key := assignmentKey child
    if isAmong evaluated key || isAmong queue.queued key then queue
    else
      { waiting := queue.waiting ++ [⟨child, some parent.index, some change.1⟩]
        queued := key :: queue.queued }

def changes (axes : List Axis) : List (Str × Json) :=
  axes.flatMap fun axis => axis.values.map fun value => (axis.path, value)

/-- The changes of a novel case become candidates. -/
def expand (progress : Progress) (queue : Queue) : Option Row → Queue
  | none => queue
  | some row =>
      if row.novel then
        (changes manifest.axes).foldl (offer session progress.evaluated row)
          queue
      else queue

/-- The first candidate that none is better than, and the other ones. -/
def pick (worse : Candidate → Candidate → Bool) :
    Candidate → List Candidate → Candidate × List Candidate
  | first, [] => (first, [])
  | first, second :: others =>
      let (best, rest) := pick worse second others
      if worse first best then (best, first :: rest)
      else (first, second :: others)

theorem length_pick (worse : Candidate → Candidate → Bool) (first : Candidate)
    (others : List Candidate) :
    (pick worse first others).2.length = others.length := by
  induction others generalizing first with
  | nil => rfl
  | cons second others induction =>
      rw [pick]
      dsimp only
      split
      · rw [List.length_cons, List.length_cons, induction]
      · rfl

/-- The search of the guided and the adaptive strategy: which candidate is next
and whether to stop is up to them.  The result tells whether it stopped. -/
def search (worse : Progress → Candidate → Candidate → Bool)
    (stops : Progress → Bool) (queue : Queue) (state : State) :
    Except Failure (Bool × State) :=
  match _ : queue.waiting with
  | [] => .ok (false, state)
  | first :: others =>
      if state.progress.rows.length < manifest.maxCases then
        let picked := pick (worse state.progress) first others
        match _ : evaluate session manifest.baseJob state picked.1 with
        | .error failure => .error failure
        | .ok (row, next) =>
            if stops next.progress then .ok (true, next)
            else
              search worse stops
                (expand session manifest next.progress
                  { queue with waiting := picked.2 } row)
                next
      else .ok (false, state)
termination_by
  (manifest.maxCases - state.progress.rows.length, queue.waiting.length)
decreasing_by
  rcases rows_of_evaluate (by assumption) with ⟨rfl, rfl⟩ | longer
  · apply Prod.Lex.right
    rw [expand, ‹queue.waiting = first :: others›, length_pick]
    exact Nat.lt_succ_self _
  · apply Prod.Lex.left
    omega

def guided : State → Except Failure (Bool × State) :=
  search session manifest (fun _ _ _ => false) (fun _ => false)
    (Queue.start manifest)

def thousand : Nat :=
  Ieee754.ofInt Ieee754.binary64 1000

/-- `1e9` -/
def billion : Nat :=
  Ieee754.ofInt Ieee754.binary64 1000000000

/-- `(novel + 1.0) / (attempts + 2.0) +
min(new_pcs / (attempts + 1.0), 1000.0) * 0.01` -/
def AxisStats.priority (stats : AxisStats) : Nat :=
  let novelty := Doubles.quotient (stats.novel + 1) (stats.attempts + 2)
  let coverage := Doubles.quotient stats.newPcs (stats.attempts + 1)
  let limited :=
    if Ieee754.lt Ieee754.binary64 thousand coverage then thousand else coverage
  Ieee754.add Ieee754.binary64 0 novelty
    (Ieee754.mul Ieee754.binary64 0 limited (Doubles.quotient 1 100))

def axisPriority (progress : Progress) : Option Str → Nat
  | none => billion
  | some path =>
      ((progress.axisStats.lookup path).map AxisStats.priority).getD billion

/-- Among equal candidates the one that was found first is the better one. -/
def lessPromising (progress : Progress) (first second : Candidate) : Bool :=
  Ieee754.lt Ieee754.binary64 (axisPriority progress first.axis)
    (axisPriority progress second.axis)

def novelRows (rows : List Row) : Nat :=
  rows.countP (·.novel)

/-- The last rows, as many as there are in a window. -/
def lastRows (window : Nat) (rows : List Row) : List Row :=
  rows.drop (rows.length - window)

/-- The last window of rows has too few novel ones. -/
def onPlateau (plateau : Plateau) (progress : Progress) : Bool :=
  decide (plateau.minCases ≤ progress.rows.length) &&
  decide (plateau.window ≤ progress.rows.length) &&
  Doubles.notAbove
    (Doubles.quotient (novelRows (lastRows plateau.window progress.rows))
      plateau.window)
    plateau.rate

def adaptive : State → Except Failure (Bool × State) :=
  search session manifest lessPromising (onPlateau manifest.plateau)
    (Queue.start manifest)

def cartesian : List Fields → State → Except Failure (Bool × State)
  | [], state => .ok (false, state)
  | assignment :: others, state =>
      if state.progress.rows.length < manifest.maxCases then
        match evaluate session manifest.baseJob state
            ⟨assignment, none, none⟩ with
        | .error failure => .error failure
        | .ok (_, next) => cartesian others next
      else .ok (false, state)

def Progress.start (paths : List Str) : Progress where
  evaluated := []
  seenPcs := []
  seenBehaviors := []
  rows := []
  promoted := 0
  axisStats := paths.map fun path => (path, ⟨0, 0, 0⟩)

/-- An exploration with the strategy of its manifest, and whether it stopped
early. -/
def explore (cases : Cases) : Except Failure (Bool × State) :=
  let state : State := ⟨.start manifest.paths, cases⟩
  match manifest.strategy with
  | .cartesian => cartesian session manifest (assignments manifest.axes) state
  | .guided => guided session manifest state
  | .adaptive => adaptive session manifest state

variable {session manifest}

/-- Evaluations that are started from related states and succeed from one
succeed from the other one, with the same row and related states. -/
def Respects (session : Session) (manifest : Manifest)
    (related : State → State → Prop) : Prop :=
  ∀ {state other next : State} {candidate : Candidate} {row : Option Row},
    related state other →
    state.progress.rows.length < manifest.maxCases →
    evaluate session manifest.baseJob state candidate = .ok (row, next) →
    ∃ otherNext,
      evaluate session manifest.baseJob other candidate =
        .ok (row, otherNext) ∧
      related next otherNext

section

variable {worse : Progress → Candidate → Candidate → Bool}
  {stops : Progress → Bool} {queue : Queue} {state next : State}
  {first : Candidate} {others : List Candidate} {row : Option Row}

theorem search_empty (waiting : queue.waiting = []) :
    search session manifest worse stops queue state = .ok (false, state) := by
  rw [search.eq_def]
  split
  · rfl
  · rename_i there
    rw [waiting] at there
    cases there

theorem search_full (full : ¬ state.progress.rows.length < manifest.maxCases) :
    search session manifest worse stops queue state = .ok (false, state) := by
  rw [search.eq_def]
  split
  · rfl
  · rw [if_neg full]

/-- One turn of a search. -/
theorem search_cons (waiting : queue.waiting = first :: others)
    (space : state.progress.rows.length < manifest.maxCases) :
    search session manifest worse stops queue state =
      (evaluate session manifest.baseJob state
        (pick (worse state.progress) first others).1 >>= fun result =>
      if stops result.2.progress then .ok (true, result.2)
      else
        search session manifest worse stops
          (expand session manifest result.2.progress
            { queue with
              waiting := (pick (worse state.progress) first others).2 }
            result.1)
          result.2) := by
  rw [search.eq_def]
  split
  · rename_i empty
    rw [waiting] at empty
    cases empty
  · rename_i there
    rw [waiting] at there
    cases there
    rw [if_pos space]
    dsimp only
    split
    · rename_i failed
      rw [failed]
      rfl
    · rename_i succeeded
      rw [succeeded]
      rfl

end

private theorem search_relates {related : State → State → Prop}
    (respects : Respects session manifest related)
    (same : ∀ {state other}, related state other →
      state.progress = other.progress)
    {worse : Progress → Candidate → Candidate → Bool}
    {stops : Progress → Bool} {queue : Queue} {state other final : State}
    {stopped : Bool} (start : related state other)
    (ran : search session manifest worse stops queue state =
      .ok (stopped, final)) :
    ∃ otherFinal,
      search session manifest worse stops queue other =
        .ok (stopped, otherFinal) ∧
      related final otherFinal := by
  induction queue, state using search.induct session manifest worse stops
    generalizing other with
  | case1 queue state waiting =>
      rw [search_empty waiting] at ran
      cases ran
      exact ⟨other, search_empty waiting, start⟩
  | case2 queue state first others waiting space picked failure =>
      rename_i failed
      rw [search_cons waiting space, failed] at ran
      cases ran
  | case3 queue state first others waiting space picked row next succeeded =>
      rename_i stop
      obtain ⟨otherNext, otherSucceeded, after⟩ := respects start space succeeded
      rw [search_cons waiting space, succeeded] at ran
      rw [search_cons waiting (same start ▸ space), ← same start, otherSucceeded]
      have here : (.ok (true, next) : Except Failure _) = .ok (stopped, final) := by
        rw [← ran]
        exact (if_pos stop).symm
      cases here
      refine ⟨otherNext, ?_, after⟩
      exact if_pos (same after ▸ stop)
  | case4 queue state first others waiting space picked row next succeeded
      stop =>
      rename_i induction
      obtain ⟨otherNext, otherSucceeded, after⟩ := respects start space succeeded
      rw [search_cons waiting space, succeeded] at ran
      rw [search_cons waiting (same start ▸ space), ← same start, otherSucceeded]
      have rest := (if_neg stop).symm.trans ran
      obtain ⟨otherFinal, otherRan, ended⟩ := induction after rest
      refine ⟨otherFinal, ?_, ended⟩
      refine (if_neg (same after ▸ stop)).trans ?_
      rw [← same after]
      exact otherRan
  | case5 queue state first others waiting full =>
      rw [search_full full] at ran
      cases ran
      exact ⟨other, search_full (same start ▸ full), start⟩

private theorem cartesian_relates {related : State → State → Prop}
    (respects : Respects session manifest related)
    (same : ∀ {state other}, related state other →
      state.progress = other.progress)
    {combinations : List Fields} {state other final : State}
    {stopped : Bool} (start : related state other)
    (ran : cartesian session manifest combinations state =
      .ok (stopped, final)) :
    ∃ otherFinal,
      cartesian session manifest combinations other =
        .ok (stopped, otherFinal) ∧
      related final otherFinal := by
  induction combinations generalizing state other with
  | nil =>
      cases ran
      exact ⟨other, rfl, start⟩
  | cons assignment combinations induction =>
      rw [cartesian] at ran ⊢
      by_cases space : state.progress.rows.length < manifest.maxCases
      · rw [if_pos space] at ran
        rw [← same start, if_pos space]
        cases result : evaluate session manifest.baseJob state
            ⟨assignment, none, none⟩ with
        | error failure =>
            rw [result] at ran
            cases ran
        | ok outcome =>
            obtain ⟨row, next⟩ := outcome
            obtain ⟨otherNext, otherResult, after⟩ := respects start space result
            rw [result] at ran
            rw [otherResult]
            exact induction after ran
      · rw [if_neg space] at ran
        cases ran
        rw [← same start, if_neg space]
        exact ⟨other, rfl, start⟩

/-- Explorations of directories that are related at the beginning and after
every evaluation. -/
theorem explore_relates {related : State → State → Prop}
    (respects : Respects session manifest related)
    (same : ∀ {state other}, related state other →
      state.progress = other.progress)
    {cases others : Cases} {final : State} {stopped : Bool}
    (start : related ⟨.start manifest.paths, cases⟩
      ⟨.start manifest.paths, others⟩)
    (ran : explore session manifest cases = .ok (stopped, final)) :
    ∃ otherFinal,
      explore session manifest others = .ok (stopped, otherFinal) ∧
      related final otherFinal := by
  unfold explore at ran ⊢
  cases strategy : manifest.strategy with
  | cartesian =>
      rw [strategy] at ran
      exact cartesian_relates respects same start ran
  | guided =>
      rw [strategy] at ran
      exact search_relates respects same start ran
  | adaptive =>
      rw [strategy] at ran
      exact search_relates respects same start ran

/-- Every evaluation preserves an invariant. -/
def Keeps (session : Session) (manifest : Manifest) (invariant : State → Prop) :
    Prop :=
  ∀ {state next : State} {candidate : Candidate} {row : Option Row},
    invariant state →
    state.progress.rows.length < manifest.maxCases →
    evaluate session manifest.baseJob state candidate = .ok (row, next) →
    invariant next

private theorem respects_of_keeps {invariant : State → Prop}
    (keeps : Keeps session manifest invariant) :
    Respects session manifest fun state other =>
      state = other ∧ invariant state := by
  intro state other next candidate row ⟨same, holds⟩ space result
  cases same
  exact ⟨next, result, rfl, keeps holds space result⟩

/-- What every evaluation preserves holds after an exploration. -/
theorem explore_keeps {invariant : State → Prop}
    (keeps : Keeps session manifest invariant) {cases : Cases} {final : State}
    {stopped : Bool} (start : invariant ⟨.start manifest.paths, cases⟩)
    (ran : explore session manifest cases = .ok (stopped, final)) :
    invariant final := by
  obtain ⟨_, _, _, holds⟩ := explore_relates (respects_of_keeps keeps)
    (fun related => congrArg State.progress related.1) ⟨rfl, start⟩ ran
  exact holds

private def HasRows (state : State) : Prop :=
  state.progress.rows ≠ []

private theorem hasRows_of_evaluate {state next : State}
    {candidate : Candidate} {row : Option Row}
    (fresh : ¬ isAmong state.progress.evaluated
        (assignmentKey candidate.assignment))
    (result : evaluate session manifest.baseJob state candidate =
      .ok (row, next)) : HasRows next := by
  cases evaluated_of_evaluate result with
  | repeated known => exact absurd known fresh
  | kept | promoted => simp [HasRows, Progress.record]

private theorem keeps_hasRows : Keeps session manifest HasRows := by
  intro state next candidate row holds space result
  cases evaluated_of_evaluate result with
  | repeated => exact holds
  | kept | promoted => simp [HasRows, Progress.record]

private theorem hasRows_search {worse : Progress → Candidate → Candidate → Bool}
    {stops : Progress → Bool} {state final : State} {stopped : Bool}
    (fresh : state.progress.evaluated = [])
    (space : state.progress.rows.length < manifest.maxCases)
    (ran : search session manifest worse stops (Queue.start manifest) state =
      .ok (stopped, final)) : HasRows final := by
  rw [search_cons rfl space] at ran
  obtain ⟨⟨row, next⟩, result, ran⟩ := Outcome.bind_eq_ok.mp ran
  have first : HasRows next :=
    hasRows_of_evaluate (by simp [fresh, isAmong]) result
  dsimp only at ran
  split at ran
  · cases ran
    exact first
  · obtain ⟨_, _, _, holds⟩ := search_relates
      (respects_of_keeps keeps_hasRows)
      (fun related => congrArg State.progress related.1) ⟨rfl, first⟩ ran
    exact holds

theorem assignments_ne_nil (axes : List Axis) : assignments axes ≠ [] := by
  induction axes with
  | nil => exact List.cons_ne_nil _ _
  | cons axis axes induction =>
      intro empty
      obtain ⟨value, values, some⟩ := List.exists_cons_of_ne_nil axis.nonempty
      rw [assignments, some, List.flatMap_cons] at empty
      exact induction (List.map_eq_nil_iff.mp (List.append_eq_nil_iff.mp empty).1)

private theorem hasRows_cartesian {combinations : List Fields}
    {state final : State} {stopped : Bool} (some : combinations ≠ [])
    (fresh : state.progress.evaluated = [])
    (space : state.progress.rows.length < manifest.maxCases)
    (ran : cartesian session manifest combinations state =
      .ok (stopped, final)) : HasRows final := by
  obtain ⟨assignment, others, rfl⟩ := List.exists_cons_of_ne_nil some
  rw [cartesian, if_pos space] at ran
  split at ran
  · cases ran
  · rename_i row next result
    have first : HasRows next :=
      hasRows_of_evaluate (by simp [fresh, isAmong]) result
    obtain ⟨_, _, _, holds⟩ := cartesian_relates
      (respects_of_keeps keeps_hasRows)
      (fun related => congrArg State.progress related.1) ⟨rfl, first⟩ ran
    exact holds

theorem rows_ne_nil {cases : Cases} {final : State} {stopped : Bool}
    (ran : explore session manifest cases = .ok (stopped, final)) :
    final.progress.rows ≠ [] := by
  have space : (Progress.start manifest.paths).rows.length <
      manifest.maxCases := manifest.maxCases_pos
  unfold explore at ran
  cases strategy : manifest.strategy with
  | cartesian =>
      rw [strategy] at ran
      exact hasRows_cartesian (assignments_ne_nil _) rfl space ran
  | guided =>
      rw [strategy] at ran
      exact hasRows_search rfl space ran
  | adaptive =>
      rw [strategy] at ran
      exact hasRows_search rfl space ran

/-- The directory that a tool writes into. -/
structure Output where
  summary : Option Content
  cases : Cases

def Output.empty : Output :=
  ⟨none, Keyed.empty⟩

variable (session manifest)

def Input.json (input : Input) : Json :=
  .object
    [(str "field", .string input.field), (str "path", .string input.path),
      (str "size", number input.size), (str "sha256", .string input.sha256)]

def Row.brief (row : Row) : Json :=
  .object
    ([(str "index", number row.index),
      (str "parent", row.parent.elim .null number),
      (str "novel", .bool row.novel),
      (str "behavior_sha256", .string row.behavior),
      (str "new_pc_count", number row.newPcs.length)] ++
    row.promotedCase.elim [] fun case => [(str "promoted_case", .string case)])

/-- `round(dividend / attempts, 6) if attempts else 0.0` -/
def perAttempt (dividend attempts : Nat) : Json :=
  .float (if attempts = 0 then .zero
    else session.setting.rate dividend attempts)

def AxisStats.json (stats : AxisStats) : Json :=
  .object
    [(str "attempts", number stats.attempts), (str "novel", number stats.novel),
      (str "new_pcs", number stats.newPcs),
      (str "novelty_rate", perAttempt session stats.novel stats.attempts),
      (str "new_pcs_per_case", perAttempt session stats.newPcs stats.attempts)]

def adaptiveFields (stopped : Bool) (rows : List Row) : Fields :=
  let plateau := manifest.plateau
  let tail := lastRows plateau.window rows
  [(str "plateau_window", number plateau.window),
    (str "plateau_novelty_rate", .float (session.setting.printed plateau.rate)),
    (str "min_cases", number plateau.minCases),
    (str "stopped_early", .bool stopped),
    (str "stop_reason",
      if stopped then .string (str "novelty-plateau") else .null),
    (str "tail_novelty_rate",
      perAttempt session (novelRows tail) tail.length),
    (str "unused_case_budget", number (manifest.maxCases - rows.length))]

def summaryFields (manifestPath : Str) (inputs : List Input) (stopped : Bool)
    (progress : Progress) : Fields :=
  [(str "schema", .string (str "ppc-lab-exploration-summary-v1")),
    (str "strategy", .string manifest.strategy.name),
    (str "manifest", .string manifestPath),
    (str "max_cases", number manifest.maxCases),
    (str "evaluated_cases", number progress.rows.length),
    (str "novel_cases", number (novelRows progress.rows)),
    (str "successful_cases", number (progress.rows.countP (·.succeeded))),
    (str "unique_pcs", number progress.seenPcs.dedup.length),
    (str "unique_behaviors", number progress.seenBehaviors.dedup.length),
    (str "promoted_cases", number progress.promoted),
    (str "input_provenance", .array (inputs.map Input.json)),
    (str "cases", .array (progress.rows.map Row.brief)),
    (str "axis_yield", .object (progress.axisStats.map fun entry =>
      (entry.1, entry.2.json session)))] ++
  if manifest.strategy = .adaptive then
    [(str "adaptive", .object
      (adaptiveFields session manifest stopped progress.rows))]
  else []

/-- What an exploration leaves. -/
structure Result where
  summary : Fields
  progress : Progress
  output : Output

/-- `main`, for the text of a manifest that is JSON. -/
def main (manifestPath out : Str) (document : Json) (before : Output) :
    Except Failure Result := do
  let manifest ← validate session.setting document
  let inputs ←
    resolveInputs session.files session.base session.root manifest.baseJob
  if out = session.root then
    throw (.reported
      (str "--out cannot be the exploration input root itself"))
  else
    let (stopped, final) ← explore session manifest before.cases
    let summary := Json.sortedObject
      (summaryFields session manifest manifestPath inputs stopped final.progress)
    match before.summary with
    | some .directory => throw .unreadable
    | _ => return {
        summary := summary
        progress := final.progress
        output := ⟨some (.json (.object summary)), final.cases⟩ }

variable {session manifest}

/-- What an exploration that succeeds has done. -/
theorem explored_of_main {manifestPath out : Str} {document : Json}
    {before : Output} {result : Result}
    (ran : main session manifestPath out document before = .ok result) :
    ∃ manifest inputs stopped,
      validate session.setting document = .ok manifest ∧
      resolveInputs session.files session.base session.root manifest.baseJob =
        .ok inputs ∧
      out ≠ session.root ∧
      explore session manifest before.cases =
        .ok (stopped, ⟨result.progress, result.output.cases⟩) ∧
      result.summary = Json.sortedObject (summaryFields session manifest
        manifestPath inputs stopped result.progress) ∧
      result.output.summary = some (.json (.object result.summary)) := by
  obtain ⟨manifest, valid, ran⟩ := Outcome.bind_eq_ok.mp ran
  obtain ⟨inputs, resolved, ran⟩ := Outcome.bind_eq_ok.mp ran
  refine ⟨manifest, inputs, ?_⟩
  by_cases root : out = session.root
  · rw [if_pos root] at ran
    cases ran
  · rw [if_neg root] at ran
    obtain ⟨⟨stopped, final⟩, explored, ran⟩ := Outcome.bind_eq_ok.mp ran
    refine ⟨stopped, valid, resolved, root, ?_⟩
    dsimp only at ran
    generalize summarized : Json.sortedObject (summaryFields session manifest
      manifestPath inputs stopped final.progress) = summary at ran
    cases there : before.summary with
    | none =>
        rw [there] at ran
        cases ran
        exact ⟨explored, summarized.symm, rfl⟩
    | some content =>
        rw [there] at ran
        cases content with
        | directory => cases ran
        | json | other =>
            cases ran
            exact ⟨explored, summarized.symm, rfl⟩

/-- An exploration succeeds when its parts do. -/
theorem main_eq_ok (manifestPath : Str) {out : Str} {document : Json}
    {before : Output} {inputs : List Input} {stopped : Bool} {final : State}
    (valid : validate session.setting document = .ok manifest)
    (resolved : resolveInputs session.files session.base session.root
      manifest.baseJob = .ok inputs)
    (differ : out ≠ session.root)
    (explored : explore session manifest before.cases = .ok (stopped, final))
    (fresh : before.summary = none) :
    ∃ result, main session manifestPath out document before = .ok result ∧
      result.progress = final.progress ∧ result.output.cases = final.cases := by
  unfold main
  rw [valid]
  dsimp only [Bind.bind, Except.bind]
  rw [resolved]
  dsimp only [Bind.bind, Except.bind]
  rw [if_neg differ, explored]
  dsimp only [Bind.bind, Except.bind]
  rw [fresh]
  exact ⟨_, rfl, rfl, rfl⟩

end PpcLab.Explore
