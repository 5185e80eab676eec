import PpcLab.Explore.Readers

/-!
# Cases of earlier explorations

The readers see exactly the cases of the last exploration if and only if the
directory held no other JSON files before it.
-/

namespace PpcLab.Explore

/-- What the three tools load are the cases that the summary counts, one for
each number. -/
structure SeesOnly (exploration : Str) (result : Result) : Prop where
  counted : Json.get result.summary (str "evaluated_cases") =
    number result.progress.rows.length
  indices : result.progress.rows.map (·.index) =
    List.range result.progress.rows.length
  ranked : loadCases exploration result.output =
    .ok (result.summary, result.progress.rows.map Row.written)
  analysed : 2 ≤ result.progress.rows.length →
    loadExploration exploration result.output =
      .ok (result.summary, result.progress.rows.map fun row =>
        sourced exploration (Row.fileName row.index) row.written)
  triaged : ∀ selection : Selection,
    triageCandidates selection result.output.cases =
      .ok ((result.progress.rows.map Row.written).filter selection.takes)

/-- The names that an exploration writes into an empty directory. -/
def namesWritten (session : Session) (manifestPath out : Str)
    (document : Json) : List Str :=
  match main session manifestPath out document .empty with
  | .ok result => result.output.cases.keys
  | .error _ => []

variable {session : Session} {manifest : Manifest} {manifestPath out : Str}
  {document : Json} {before : Output} {result : Result}

private theorem schema_written (row : Row) :
    Json.get row.written (str "schema") =
      .string (str "ppc-lab-exploration-case-v1") := by
  rw [Row.written, Json.get_sorted, Row.fields, List.cons_append,
    Json.get_cons, if_pos rfl]
  rfl

private theorem readCase_entry (exploration : Str) (row : Row) :
    readCase exploration row.entry = .ok row.written := by
  unfold readCase
  dsimp only [Row.entry, readJson, Bind.bind, Except.bind]
  rw [if_pos (schema_written row)]
  rfl

private theorem readRow_entry (row : Row) : readRow row.entry = .ok row.written :=
  rfl

private theorem readSummary_of_main (exploration : Str)
    (ran : main session manifestPath out document before = .ok result) :
    readSummary exploration result.output = .ok result.summary := by
  obtain ⟨manifest, inputs, stopped, _, _, _, _, summarized, written⟩ :=
    explored_of_main ran
  have schema : Json.get result.summary (str "schema") =
      .string (str "ppc-lab-exploration-summary-v1") := by
    rw [summarized, Json.get_sorted, summaryFields, List.cons_append,
      Json.get_cons, if_pos rfl]
    rfl
  unfold readSummary
  rw [written]
  dsimp only [readJson, Bind.bind, Except.bind]
  rw [if_pos schema]
  rfl

private theorem counted_of_main
    (ran : main session manifestPath out document before = .ok result) :
    Json.get result.summary (str "evaluated_cases") =
      number result.progress.rows.length := by
  obtain ⟨manifest, inputs, stopped, _, _, _, _, summarized, _⟩ :=
    explored_of_main ran
  have others : [str "schema", str "strategy", str "manifest",
      str "max_cases"].all (· ≠ str "evaluated_cases") = true := by
    decide
  simp only [List.all_cons, List.all_nil, Bool.and_true, Bool.and_eq_true,
    decide_eq_true_eq] at others
  rw [summarized, Json.get_sorted, summaryFields]
  simp only [List.cons_append]
  rw [Json.get_cons, if_neg others.1, Json.get_cons, if_neg others.2.1,
    Json.get_cons, if_neg others.2.2.1, Json.get_cons, if_neg others.2.2.2,
    Json.get_cons, if_pos rfl]
  rfl

private theorem mapM_entries {α : Type}
    {step : Str × Content → Except Failure α} {found : Row → α}
    (reads : ∀ row : Row, step row.entry = .ok (found row)) (rows : List Row) :
    (rows.map Row.entry).mapM step = .ok (rows.map found) := by
  rw [List.mapM_map]
  exact Outcome.mapM_eq_ok fun row _ => reads row

private theorem seesOnly_of_onlyRows (exploration : Str)
    (ran : main session manifestPath out document before = .ok result)
    (only : OnlyRows before.cases result.progress.rows) :
    SeesOnly exploration result := by
  obtain ⟨manifest, inputs, stopped, _, _, _, explored, _⟩ :=
    explored_of_main ran
  have stored := stored_explore explored
  have files : caseFiles result.output.cases =
      result.progress.rows.map Row.entry := caseFiles_of_onlyRows stored only
  have nonempty : result.progress.rows ≠ [] := rows_ne_nil explored
  have summary := readSummary_of_main exploration ran
  refine ⟨counted_of_main ran, stored.indices, ?_, ?_, ?_⟩
  · unfold loadCases
    rw [summary, files, mapM_entries (readCase_entry exploration)]
    refine if_neg ?_
    simpa using nonempty
  · intro several
    unfold loadExploration
    have reads : ∀ row : Row, (do
        return sourced exploration row.entry.1
          (← readCase exploration row.entry)) =
        Except.ok (sourced exploration (Row.fileName row.index) row.written) := by
      intro row
      rw [readCase_entry exploration row]
      rfl
    rw [summary, files, mapM_entries reads]
    refine if_neg ?_
    rw [List.length_map]
    exact Nat.not_lt.mpr several
  · intro selection
    unfold triageCandidates
    rw [files, mapM_entries readRow_entry]
    rfl

private theorem length_of_seesOnly {exploration : Str}
    (sees : SeesOnly exploration result) :
    (caseFiles result.output.cases).length = result.progress.rows.length := by
  have ranked := sees.ranked
  obtain ⟨_, _, ranked⟩ := Outcome.bind_eq_ok.mp ranked
  obtain ⟨rows, loaded, ranked⟩ := Outcome.bind_eq_ok.mp ranked
  have lengths := Outcome.length_of_mapM loaded
  split at ranked
  · cases ranked
  · have same := congrArg Prod.snd (Except.ok.inj ranked)
    dsimp only at same
    rw [same, List.length_map] at lengths
    exact lengths.symm

private theorem onlyRows_of_seesOnly {exploration : Str}
    (ran : main session manifestPath out document before = .ok result)
    (sees : SeesOnly exploration result) :
    OnlyRows before.cases result.progress.rows := by
  by_contra foreign
  obtain ⟨manifest, inputs, stopped, _, _, _, explored, _⟩ :=
    explored_of_main ran
  have longer := length_lt_of_not_onlyRows (stored_explore explored) foreign
  exact absurd (length_of_seesOnly sees) longer.ne'

private def NoDirectories (cases : Cases) : Prop :=
  ∀ name, cases.lookup name ≠ some (name, .directory)

private theorem writeJson_eq_ok {cases : Cases} (plain : NoDirectories cases)
    (name : Str) (fields : Fields) :
    writeJson cases name fields =
      .ok (cases.put (name, .json (.object fields))) := by
  unfold writeJson
  split
  · rename_i other found
    cases Keyed.key_of_lookup found
    exact absurd found (plain _)
  · rfl

private theorem noDirectories_put {cases : Cases} (plain : NoDirectories cases)
    (name : Str) (value : Json) : NoDirectories (cases.put (name, .json value)) := by
  intro wanted
  by_cases here : wanted = name
  · subst here
    rw [Keyed.lookup_put_self cases (wanted, Content.json value)]
    simp
  · rw [lookup_put_of_ne cases (name, Content.json value) here]
    exact plain wanted

/-- Explorations of any directory and of one without directories. -/
private def Alike (state other : State) : Prop :=
  state.progress = other.progress ∧ NoDirectories other.cases

private theorem respects_alike : Respects session manifest Alike := by
  intro state other next candidate row ⟨same, plain⟩ space result
  cases evaluated_of_evaluate result with
  | repeated known =>
      exact ⟨other, evaluate_of_evaluated (.repeated (same ▸ known)), same, plain⟩
  | kept fresh examined promotes wrote =>
      rename_i row cases
      have again := writeJson_eq_ok plain (Row.fileName row.index) row.written
      refine ⟨⟨other.progress.record candidate row, _⟩,
        evaluate_of_evaluated (.kept (same ▸ fresh) (same ▸ examined) promotes
          again), ?_, ?_⟩
      · rw [same]
      · exact noDirectories_put plain _ _
  | promoted fresh examined promotes wrote rewrote =>
      rename_i row final cases written
      have first := writeJson_eq_ok plain (Row.fileName row.index) row.written
      have still := noDirectories_put plain (Row.fileName row.index)
        (.object row.written)
      have second := writeJson_eq_ok still (Row.fileName row.index) final.written
      refine ⟨⟨other.progress.record candidate final, _⟩,
        evaluate_of_evaluated (.promoted (same ▸ fresh) (same ▸ examined)
          promotes first second), ?_, ?_⟩
      · rw [same]
      · exact noDirectories_put still _ _

private theorem mem_namesWritten {name : Str}
    (ran : main session manifestPath out document before = .ok result) :
    name ∈ namesWritten session manifestPath out document ↔
      ∃ row ∈ result.progress.rows, name = Row.fileName row.index := by
  obtain ⟨manifest, inputs, stopped, valid, resolved, differ, explored, _⟩ :=
    explored_of_main ran
  have start : Alike ⟨.start manifest.paths, before.cases⟩
      ⟨.start manifest.paths, Output.empty.cases⟩ := by
    refine ⟨rfl, ?_⟩
    intro name found
    cases found
  obtain ⟨final, freshly, same, _⟩ :=
    explore_relates respects_alike (fun alike => alike.1) start explored
  obtain ⟨fresh, freshRan, progress, cases⟩ :=
    main_eq_ok manifestPath valid resolved differ freshly rfl
  have stored := stored_explore freshly
  have names : namesWritten session manifestPath out document =
      final.cases.keys := by
    rw [namesWritten, freshRan, ← cases]
  rw [names, Keyed.mem_keys_iff]
  dsimp only at same
  rw [same]
  constructor
  · intro found
    by_contra foreign
    simp only [not_exists, not_and] at foreign
    rw [stored.others name foreign] at found
    cases found
  · intro ⟨row, member, here⟩
    rw [here, stored.files row member]
    rfl

/-- The readers see the cases of an exploration and no others exactly if every
JSON file that was in the directory of the cases has the name of one that the
exploration writes into an empty directory. -/
theorem readers_see_only_iff (exploration : Str)
    (ran : main session manifestPath out document before = .ok result) :
    SeesOnly exploration result ↔
      ∀ entry ∈ before.cases.entries, isJsonName entry.1 →
        entry.1 ∈ namesWritten session manifestPath out document := by
  have only : OnlyRows before.cases result.progress.rows ↔
      ∀ entry ∈ before.cases.entries, isJsonName entry.1 →
        entry.1 ∈ namesWritten session manifestPath out document := by
    simp only [mem_namesWritten ran, OnlyRows]
  rw [← only]
  exact ⟨onlyRows_of_seesOnly ran, seesOnly_of_onlyRows exploration ran⟩

/-- A laboratory in which every job succeeds. -/
def calm : Session where
  setting := ⟨.ascii, .none, fun _ => .zero, fun _ _ => .zero⟩
  files := ⟨some, fun _ => true, fun _ => 0, fun _ => []⟩
  base := str "/lab"
  root := str "/lab"
  worker _ _ := .ok (.object [(str "ok", .bool true)])
  promotion := none

/-- A manifest with some values for one register. -/
def registerValues (values : List Int) : Json :=
  .object
    [(str "schema", .string (str "ppc-lab-exploration-v1")),
      (str "base_job", .object
        [(str "schema", .string (str "ppc-lab-job-v1")),
          (str "image", .object [(str "path", .string (str "a"))])]),
      (str "axes", .array [.object
        [(str "path", .string (str "registers.r3")),
          (str "values", .array (values.map .int))]]),
      (str "strategy", .string (str "cartesian"))]

/-- The exploration of some values into a directory. -/
def exploration (values : List Int) (before : Output) :
    Except Failure Result :=
  main calm (str "/lab/m.json") (str "/lab/out") (registerValues values) before

/-- After an exploration of two values and one of a single value the readers
take two files. -/
theorem stale_case_is_read :
    ∃ first second, exploration [1, 2] .empty = .ok first ∧
      exploration [1] first.output = .ok second ∧
      second.progress.rows.length = 1 ∧
      ¬ SeesOnly (str "/lab/out") second := by
  refine ⟨_, _, rfl, rfl, rfl, ?_⟩
  intro sees
  exact absurd (length_of_seesOnly sees) (by decide)

/-- An exploration of one value and then of two: the second one writes the file
of the first one again. -/
theorem repeated_exploration_is_read :
    ∃ first second, exploration [1] .empty = .ok first ∧
      first.output.cases.keys ≠ [] ∧
      exploration [1, 2] first.output = .ok second ∧
      SeesOnly (str "/lab/out") second := by
  refine ⟨_, _, rfl, by decide, rfl, ?_⟩
  have ran : exploration [1, 2]
      ((exploration [1] .empty).toOption.get rfl).output = .ok _ := rfl
  apply (readers_see_only_iff (str "/lab/out") ran).mpr
  intro entry member _
  revert entry
  decide

end PpcLab.Explore
