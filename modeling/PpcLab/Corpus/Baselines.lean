import PpcLab.Corpus.Commands
import PpcLab.Library.Runs

/-!
# Baselines

The job, the inputs and the expectation of a case are its baseline.  A
promotion writes the file of its id whether there is one or not, so baselines
stay in place along the runs whose promotions do not reuse an id for something
else.
-/

namespace PpcLab.Corpus

open Explore (Failure Setting Content Cases readJson writeJson)

/-- The case in a file of the corpus. -/
def stored (corpus : CaseStore) (name : Str) : Option Fields :=
  match corpus.cases.lookup name with
  | some (_, .json (.object case)) => some case
  | _ => none

structure Baseline where
  job : Json
  inputs : Json
  expectation : Json
  deriving DecidableEq

/-- The baseline of a case, up to the order of members. -/
def baseline (case : Fields) : Baseline where
  job := (Json.get case (str "job")).sorted
  inputs := (Json.get case (str "inputs")).sorted
  expectation := (Json.get case (str "expectation")).sorted

theorem baseline_sorted (case : Fields) :
    baseline (Json.sortedObject case) = baseline case := by
  simp only [baseline, Json.get_sorted, Json.sorted_sorted]

variable {setting : Setting} {tool : Tool} {corpus after : CaseStore}
  {command : Command} {name : Str} {case fields : Fields}

theorem stored_write_self
    (wrote : write corpus (.caseFile name) fields = .ok after) :
    stored after name = some (Json.sortedObject fields) := by
  obtain ⟨cases, put, wrote⟩ := Outcome.bind_eq_ok.mp wrote
  cases wrote
  cases Explore.cases_of_writeJson put
  simp only [stored]
  rw [Keyed.lookup_put_self corpus.cases
    (name, Content.json (.object (Json.sortedObject fields)))]

theorem stored_write_of_ne {other : Str} (differ : other ≠ name)
    (wrote : write corpus (.caseFile name) fields = .ok after) :
    stored after other = stored corpus other := by
  obtain ⟨cases, put, wrote⟩ := Outcome.bind_eq_ok.mp wrote
  cases wrote
  cases Explore.cases_of_writeJson put
  simp only [stored]
  rw [Explore.lookup_put_of_ne corpus.cases
    (name, Content.json (.object (Json.sortedObject fields))) differ]

theorem stored_opened (begun : opened corpus command = .ok after) (name : Str) :
    stored after name = stored corpus name := by
  have kept : after.cases = corpus.cases := by
    unfold opened at begun
    have inited {other : CaseStore} (made : initCorpus corpus = .ok other) :
        other.cases = corpus.cases := by
      unfold initCorpus at made
      split at made
      · cases made
        rfl
      · obtain ⟨_, _, made⟩ := Outcome.bind_eq_ok.mp made
        cases made
        rfl
    split at begun
    · exact inited begun
    · exact inited begun
    · obtain ⟨_, _, begun⟩ := Outcome.bind_eq_ok.mp begun
      cases begun
      rfl
  rw [stored, stored, kept]

private theorem object_of_read {content : Content}
    (read : (readJson content >>= asFields) = .ok case) :
    content = .json (.object case) := by
  obtain ⟨value, isJson, fields⟩ := Outcome.bind_eq_ok.mp read
  cases content with
  | json held =>
      cases isJson
      cases value with
      | object held =>
          cases fields
          rfl
      | null | bool | int | float | string | array => cases fields
  | other | directory => cases isJson

theorem stored_of_loadCase {id : Str}
    (loaded : loadCase corpus id = .ok case) :
    stored corpus (fileName id) = some case := by
  unfold loadCase at loaded
  split at loaded
  · cases loaded
  · cases loaded
  · rename_i content _ found
    have regroup : (readJson content >>= asFields) >>= (fun loadedCase =>
        if Json.get loadedCase (str "schema") = caseSchema then
          (pure loadedCase : Except Failure Fields)
        else throw (.reported (str "case schema mismatch: " ++ id))) =
        .ok case := by
      rw [bind_assoc]
      exact loaded
    obtain ⟨held, read, loaded⟩ := Outcome.bind_eq_ok.mp regroup
    split at loaded
    · cases loaded
      simp only [stored]
      rw [found, object_of_read read]
    · cases loaded

private theorem assigned_keys :
    [str "expectation", str "blessed_with"].all (fun key =>
      key ≠ str "job" ∧ key ≠ str "inputs") = true := by
  decide

/-- A blessing leaves the job and the inputs. -/
theorem baseline_blessed {bless : Bless}
    (succeeded : blessed setting tool corpus bless = .ok fields) :
    bless.yes = true ∧ ∃ case, stored corpus (fileName bless.case) = some case ∧
      (baseline fields).job = (baseline case).job ∧
      (baseline fields).inputs = (baseline case).inputs := by
  obtain ⟨sources, _, succeeded⟩ := Outcome.bind_eq_ok.mp succeeded
  obtain ⟨case, loaded, succeeded⟩ := Outcome.bind_eq_ok.mp succeeded
  split at succeeded
  · rename_i yes
    obtain ⟨_, _, succeeded⟩ := Outcome.bind_eq_ok.mp succeeded
    obtain ⟨_, _, succeeded⟩ := Outcome.bind_eq_ok.mp succeeded
    obtain ⟨_, _, succeeded⟩ := Outcome.bind_eq_ok.mp succeeded
    have keys := assigned_keys
    simp only [List.all_cons, List.all_nil, Bool.and_true, Bool.and_eq_true,
      decide_eq_true_eq] at keys
    cases succeeded
    refine ⟨yes, case, stored_of_loadCase loaded, ?_, ?_⟩
    · simp only [baseline]
      rw [Json.get_assign_of_ne keys.2.1, Json.get_assign_of_ne keys.1.1]
    · simp only [baseline]
      rw [Json.get_assign_of_ne keys.2.2, Json.get_assign_of_ne keys.1.2]
  · cases succeeded

/-- A command with the programs and files that it meets. -/
abbrev Input := Tool × Command

/-- A command that is meant to replace the expectation of a case. -/
def Blesses (name : Str) (input : Input) : Prop :=
  ∃ bless, input.2 = .bless bless ∧ bless.yes = true ∧
    fileName bless.case = name

/-- A promotion of an id that the corpus has promotes the same again; reports
and minimized cases go elsewhere. -/
def Careful (corpus : CaseStore) (input : Input) : Prop :=
  match input.2 with
  | .promote promotion => ∀ case promoted,
      stored corpus (fileName promotion.id) = some case →
      promotedCase input.1 promotion = .ok promoted →
      baseline promoted = baseline case
  | .replay replay => ∀ name, replay.report = some (.caseFile name) →
      stored corpus name = none
  | .minimize minimize => minimize.output = .elsewhere
  | .init | .list | .verify | .bless _ => True

/-- A case is still there with its job and its inputs, and with its
expectation unless it was blessed. -/
structure Kept (blessed : Prop) (before after : Fields) : Prop where
  job : (baseline after).job = (baseline before).job
  inputs : (baseline after).inputs = (baseline before).inputs
  expectation : ¬ blessed →
    (baseline after).expectation = (baseline before).expectation

theorem Kept.refl (blessed : Prop) (case : Fields) : Kept blessed case case :=
  ⟨rfl, rfl, fun _ => rfl⟩

theorem kept_of_baseline {blessed : Prop} {before after : Fields}
    (same : baseline after = baseline before) : Kept blessed before after := by
  constructor
  · rw [same]
  · rw [same]
  · intro _
    rw [same]

private theorem kept_write {place : Place} {wanted : Str}
    {blessed : Prop} (held : stored corpus wanted = some case)
    (wrote : write corpus place fields = .ok after)
    (here : place = .caseFile wanted → Kept blessed case (Json.sortedObject fields)) :
    ∃ now, stored after wanted = some now ∧ Kept blessed case now := by
  cases place with
  | elsewhere =>
      cases wrote
      exact ⟨case, held, .refl blessed case⟩
  | caseFile name =>
      by_cases same : wanted = name
      · subst same
        exact ⟨_, stored_write_self wrote, here rfl⟩
      · rw [stored_write_of_ne same wrote]
        exact ⟨case, held, .refl blessed case⟩

private theorem kept_sorted {blessed : Prop} {before after : Fields}
    (kept : Kept blessed before after) :
    Kept blessed before (Json.sortedObject after) := by
  constructor
  · rw [baseline_sorted]
    exact kept.job
  · rw [baseline_sorted]
    exact kept.inputs
  · rw [baseline_sorted]
    exact kept.expectation

private theorem kept_written {wanted : Str}
    (careful : Careful corpus (tool, command))
    (held : stored corpus wanted = some case)
    (wrote : written setting tool corpus command = .ok after) :
    ∃ now, stored after wanted = some now ∧
      Kept (Blesses wanted (tool, command)) case now := by
  cases command with
  | init =>
      cases wrote
      exact ⟨case, held, .refl _ case⟩
  | promote promotion =>
      obtain ⟨promoted, made, wrote⟩ := Outcome.bind_eq_ok.mp wrote
      refine kept_write held wrote ?_
      intro here
      cases here
      exact kept_sorted (kept_of_baseline (careful case promoted held made))
  | list | verify =>
      obtain ⟨_, _, wrote⟩ := Outcome.bind_eq_ok.mp wrote
      cases wrote
      exact ⟨case, held, .refl _ case⟩
  | replay replay =>
      obtain ⟨summary, _, wrote⟩ := Outcome.bind_eq_ok.mp wrote
      cases report : replay.report with
      | none =>
          rw [report] at wrote
          cases wrote
          exact ⟨case, held, .refl _ case⟩
      | some place =>
          rw [report] at wrote
          refine kept_write held wrote ?_
          intro here
          have free := careful wanted (report.trans (congrArg some here))
          rw [held] at free
          cases free
  | bless bless =>
      obtain ⟨fields, succeeded, wrote⟩ := Outcome.bind_eq_ok.mp wrote
      obtain ⟨yes, old, there, job, inputs⟩ := baseline_blessed succeeded
      refine kept_write held wrote ?_
      intro here
      cases here
      rw [held] at there
      cases there
      refine kept_sorted ⟨job, inputs, ?_⟩
      intro notBlessed
      exact absurd ⟨bless, rfl, yes, rfl⟩ notBlessed
  | minimize minimize =>
      obtain ⟨fields, _, wrote⟩ := Outcome.bind_eq_ok.mp wrote
      refine kept_write held wrote ?_
      intro here
      have outside : minimize.output = .elsewhere := careful
      rw [outside] at here
      cases here

private theorem careful_opened (begun : opened corpus command = .ok after)
    (careful : Careful corpus (tool, command)) :
    Careful after (tool, command) := by
  cases command with
  | promote promotion =>
      intro case promoted held
      rw [stored_opened begun] at held
      exact careful case promoted held
  | replay replay =>
      intro name report
      rw [stored_opened begun]
      exact careful name report
  | minimize minimize => exact careful
  | init | list | verify | bless => trivial

theorem kept_run (setting : Setting) {wanted : Str}
    (careful : Careful corpus (tool, command))
    (held : stored corpus wanted = some case) :
    ∃ now, stored (run setting tool corpus command) wanted = some now ∧
      Kept (Blesses wanted (tool, command)) case now := by
  unfold run
  cases begun : opened corpus command with
  | error failure => exact ⟨case, held, .refl _ case⟩
  | ok ready =>
      have there : stored ready wanted = some case := by
        rw [stored_opened begun, held]
      dsimp only
      cases wrote : written setting tool ready command with
      | error failure => exact ⟨case, there, .refl _ case⟩
      | ok after => exact kept_written (careful_opened begun careful) there wrote

/-- Commands always return, and leave a corpus. -/
def step (setting : Setting) (corpus : CaseStore) (input : Input) :
    Option CaseStore :=
  some (run setting input.1 corpus input.2)

theorem Kept.trans {first second : Prop} {before middle after : Fields}
    (left : Kept first before middle) (right : Kept second middle after) :
    Kept (first ∨ second) before after := by
  constructor
  · exact right.job.trans left.job
  · exact right.inputs.trans left.inputs
  · intro neither
    rw [not_or] at neither
    exact (right.expectation neither.2).trans (left.expectation neither.1)

theorem Kept.imp {first second : Prop} {before after : Fields}
    (kept : Kept first before after) (weaker : first → second) :
    Kept second before after :=
  ⟨kept.job, kept.inputs, fun neither =>
    kept.expectation fun holds => neither (weaker holds)⟩

private theorem kept_follow {corpus final : CaseStore} {inputs : List Input}
    {wanted : Str} {case : Fields}
    (careful : Along (step setting) Careful corpus inputs)
    (ran : follow (step setting) corpus inputs = some final)
    (held : stored corpus wanted = some case) :
    ∃ now, stored final wanted = some now ∧
      Kept (∃ input ∈ inputs, Blesses wanted input) case now := by
  induction inputs generalizing corpus case with
  | nil =>
      cases ran
      exact ⟨case, held, .refl _ case⟩
  | cons input inputs induction =>
      obtain ⟨next, stepped, ran⟩ := Option.bind_eq_some_iff.mp ran
      obtain ⟨middle, there, first⟩ := kept_run setting careful.1 held
      cases stepped
      obtain ⟨now, here, rest⟩ := induction (careful.2 _ rfl) ran there
      refine ⟨now, here, (first.trans rest).imp ?_⟩
      intro blessed
      rcases blessed with now | ⟨later, member, blesses⟩
      · exact ⟨input, List.mem_cons_self, now⟩
      · exact ⟨later, List.mem_cons_of_mem _ member, blesses⟩

/-- Along a run whose promotions do not reuse an id for something else, a case
that is stored in any state is stored in every later one, with the same job and
inputs, and with the same expectation unless it was blessed. -/
theorem baselines_kept {corpus middle final : CaseStore}
    {before after : List Input} {wanted : Str} {case : Fields}
    (careful : Along (step setting) Careful corpus (before ++ after))
    (reached : follow (step setting) corpus before = some middle)
    (ended : follow (step setting) middle after = some final)
    (held : stored middle wanted = some case) :
    ∃ now, stored final wanted = some now ∧
      Kept (∃ input ∈ after, Blesses wanted input) case now :=
  kept_follow (along_append careful reached).2 ended held

/-- The command by which an exploration promotes a row, for the directory that
it puts the job into. -/
def promotionOf (session : Explore.Session) (base : Str) (row : Explore.Row) :
    Option Promotion := do
  let id ← row.promotedCase
  let job ← (Explore.absoluteJobInputs session.files session.base session.root
    row.job).toOption
  return {
    id := id
    job := .json (.object (Json.sortedObject job))
    base := base
    description := str "Promoted by PPC Lab guided exploration"
    tags := [str "exploration", str "novel"]
    embedInput := false
    allowFailed := false }

/-- The promotions of an exploration in their order. -/
def promotions (session : Explore.Session) (base : Str)
    (result : Explore.Result) : List Promotion :=
  result.progress.rows.filterMap (promotionOf session base)

private def plainSetting : Setting :=
  ⟨.ascii, .none, fun _ => .zero, fun _ _ => .zero⟩

private def answer : Json :=
  .object [(str "ok", .bool true)]

/-- A laboratory in which every job succeeds and promotions do, too. -/
def promoting : Explore.Session where
  setting := plainSetting
  files := ⟨some, fun _ => true, fun _ => 0, fun _ => []⟩
  base := str "/lab"
  root := str "/lab"
  worker _ _ := .ok answer
  promotion := some fun _ _ => .ok ()

/-- Files that are told apart by their names. -/
def plainTool : Tool where
  world := ⟨id, fun _ => true, fun _ => 1, id, fun _ => []⟩
  engine := ⟨fun _ _ => .ok answer, .ok (str "3.8")⟩

/-- A manifest that varies one register of a job for an image. -/
def manifestFor (image : String) : Json :=
  .object
    [(str "schema", .string (str "ppc-lab-exploration-v1")),
      (str "base_job", .object
        [(str "schema", .string (str "ppc-lab-job-v1")),
          (str "image", .object [(str "path", .string (str image))])]),
      (str "axes", .array [.object
        [(str "path", .string (str "registers.r3")),
          (str "values", .array [.int 1])]]),
      (str "strategy", .string (str "cartesian"))]

/-- The promotions of an exploration of an image. -/
def imagePromotions (image : String) : List Input :=
  match Explore.main promoting (str "/lab/m.json") (str "/lab/out")
      (manifestFor image) .empty with
  | .ok result => (promotions promoting (str "/tmp") result).map fun promotion =>
      (plainTool, .promote promotion)
  | .error _ => []

def noCorpus : CaseStore :=
  ⟨str "/lab/corpus", none, Keyed.empty⟩

private def inputsOf (corpus : CaseStore) (name : Str) : Option Json :=
  (stored corpus name).map fun case => (baseline case).inputs

private def corpusAfter (inputs : List Input) : CaseStore :=
  inputs.foldl (fun corpus input => run plainSetting input.1 corpus input.2)
    noCorpus

/-- The id of the first case shows its number and its behaviour, and both
explorations have it. -/
def sharedName : Str :=
  str "explore-00000-0b621e361ec6.json"

private theorem inputs_change :
    (inputsOf (corpusAfter (imagePromotions "one")) sharedName).isSome ∧
      (inputsOf (corpusAfter (imagePromotions "one" ++ imagePromotions "two"))
        sharedName).isSome ∧
      inputsOf (corpusAfter (imagePromotions "one")) sharedName ≠
        inputsOf (corpusAfter (imagePromotions "one" ++ imagePromotions "two"))
          sharedName := by
  decide +kernel

private theorem follow_eq (corpus : CaseStore) (inputs : List Input) :
    follow (step plainSetting) corpus inputs =
      some (inputs.foldl
        (fun corpus input => run plainSetting input.1 corpus input.2) corpus) := by
  induction inputs generalizing corpus with
  | nil => rfl
  | cons input inputs induction => exact induction _

private theorem not_blesses_imagePromotions {image : String} {input : Input}
    (member : input ∈ imagePromotions image) (name : Str) :
    ¬ Blesses name input := by
  intro ⟨bless, isBless, _⟩
  unfold imagePromotions at member
  split at member
  · obtain ⟨promotion, _, rfl⟩ := List.mem_map.mp member
    cases isBless
  · cases member

/-- An exploration of one image and then of another one, without a blessing:
the case of the first has the inputs of the second. -/
theorem explorations_replace_baseline :
    ∃ first second case now,
      follow (step plainSetting) noCorpus (imagePromotions "one") = some first ∧
      follow (step plainSetting) first (imagePromotions "two") = some second ∧
      stored first sharedName = some case ∧
      stored second sharedName = some now ∧
      (baseline now).inputs ≠ (baseline case).inputs ∧
      ∀ input ∈ imagePromotions "one" ++ imagePromotions "two",
        ¬ Blesses sharedName input := by
  obtain ⟨there, still, differ⟩ := inputs_change
  have joined : corpusAfter (imagePromotions "one" ++ imagePromotions "two") =
      (imagePromotions "two").foldl
        (fun corpus input => run plainSetting input.1 corpus input.2)
        (corpusAfter (imagePromotions "one")) := List.foldl_append
  unfold inputsOf at there still differ
  rw [Option.isSome_map] at there still
  obtain ⟨case, held⟩ := Option.isSome_iff_exists.mp there
  obtain ⟨now, here⟩ := Option.isSome_iff_exists.mp still
  rw [held, here] at differ
  rw [joined] at here
  refine ⟨_, _, case, now, follow_eq _ _, follow_eq _ _, held, here, ?_, ?_⟩
  · intro same
    exact differ (congrArg some same.symm)
  · intro input member
    rcases List.mem_append.mp member with one | two
    · exact not_blesses_imagePromotions one _
    · exact not_blesses_imagePromotions two _

/-- A promotion by hand. -/
def leaf : Promotion where
  id := str "leaf"
  job := .json (.object [(str "schema", .string (str "ppc-lab-job-v1"))])
  base := str "/lab"
  description := []
  tags := []
  embedInput := false
  allowFailed := false

/-- The programs after a change, with another answer. -/
def changedTool : Tool :=
  { plainTool with
    engine := ⟨fun _ _ => .ok (.object [(str "ok", .bool false)]),
      .ok (str "3.9")⟩ }

def blessing : Bless :=
  ⟨str "leaf", ⟨[], []⟩, none, true⟩

private def baselineAfter (inputs : List Input) : Option Baseline :=
  (stored (corpusAfter inputs) (fileName leaf.id)).map baseline

private theorem promoted_leaf :
    let once := [(plainTool, Command.promote leaf)]
    (promotedCase plainTool leaf).toOption.map baseline =
        baselineAfter once ∧
      baselineAfter once = baselineAfter (once ++ once) ∧
      (baselineAfter once).isSome ∧
      (baselineAfter (once ++ once)).map (·.expectation) ≠
        (baselineAfter (once ++ once ++ once ++
          [(changedTool, .bless blessing)])).map (·.expectation) := by
  decide +kernel

/-- A case that is promoted three times and then blessed. -/
theorem leaf_kept :
    ∃ middle final case now,
      follow (step plainSetting) noCorpus
        [(plainTool, .promote leaf), (plainTool, .promote leaf)] =
          some middle ∧
      follow (step plainSetting) middle
        [(plainTool, .promote leaf), (changedTool, .bless blessing)] =
          some final ∧
      stored middle (fileName leaf.id) = some case ∧
      stored final (fileName leaf.id) = some now ∧
      (baseline now).expectation ≠ (baseline case).expectation ∧
      Kept (∃ input ∈ [(plainTool, .promote leaf),
          (changedTool, .bless blessing)], Blesses (fileName leaf.id) input)
        case now := by
  obtain ⟨promoted, again, there, differ⟩ := promoted_leaf
  have same {inputs : List Input} {case fields : Fields}
      (known : baselineAfter inputs =
        baselineAfter [(plainTool, .promote leaf)])
      (held : stored (corpusAfter inputs) (fileName leaf.id) = some case)
      (fits : promotedCase plainTool leaf = .ok fields) :
      baseline fields = baseline case := by
    rw [fits, ← known, baselineAfter, held] at promoted
    exact Option.some.inj promoted
  have careful : Along (step plainSetting) Careful noCorpus
      ([(plainTool, .promote leaf), (plainTool, .promote leaf)] ++
        [(plainTool, .promote leaf), (changedTool, .bless blessing)]) := by
    refine along_cons rfl ?_ (along_cons rfl ?_ (along_cons rfl ?_
      (along_cons rfl trivial trivial)))
    · intro case fields held
      cases held
    · intro case fields held
      exact same rfl held
    · intro case fields held
      exact same again.symm held
  rw [again, baselineAfter, Option.isSome_map] at there
  obtain ⟨case, held⟩ := Option.isSome_iff_exists.mp there
  obtain ⟨now, here, kept⟩ := baselines_kept careful (follow_eq _ _)
    (follow_eq _ _) held
  refine ⟨_, _, case, now, follow_eq _ _, follow_eq _ _, held, here, ?_, kept⟩
  intro equal
  apply differ
  have last : stored (corpusAfter ([(plainTool, .promote leaf)] ++
      [(plainTool, .promote leaf)] ++ [(plainTool, .promote leaf)] ++
        [(changedTool, .bless blessing)])) (fileName leaf.id) = some now := here
  have first : stored (corpusAfter ([(plainTool, .promote leaf)] ++
      [(plainTool, .promote leaf)])) (fileName leaf.id) = some case := held
  simp only [baselineAfter, first, last, Option.map_some, equal]

end PpcLab.Corpus
