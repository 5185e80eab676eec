import PpcLab.Explore.Search

/-!
# Readers of an exploration

Three tools read the cases of an exploration back: one ranks them, one looks
for hypotheses and one selects cases for triage.  Each takes every file in the
directory of the cases whose name ends in `.json`, in the order of the names,
and none asks which of them the summary counts.  They see exactly the cases of
the last exploration when it wrote every such file.
-/

namespace PpcLab.Explore

def isJsonName (name : Str) : Bool :=
  (str ".json").isSuffixOf name

def notAfterEntry (first second : Str × Content) : Prop :=
  Json.notAfter first.1 second.1

instance : DecidableRel notAfterEntry :=
  fun first second => inferInstanceAs (Decidable (Json.notAfter first.1 second.1))

instance : Std.Total notAfterEntry where
  total first second := by
    rw [notAfterEntry, notAfterEntry, Json.notAfter_iff, Json.notAfter_iff]
    exact le_total _ _

instance : IsTrans (Str × Content) notAfterEntry where
  trans first second third := by
    simp only [notAfterEntry, Json.notAfter_iff]
    exact le_trans

/-- `sorted(cases_dir.glob("*.json"))` -/
def caseFiles (cases : Cases) : List (Str × Content) :=
  (cases.entries.filter fun entry => isJsonName entry.1).insertionSort
    notAfterEntry

def readJson : Content → Except Failure Json
  | .json value => .ok value
  | .other | .directory => .error .unreadable

def readSummary (exploration : Str) (output : Output) :
    Except Failure Fields :=
  match output.summary with
  | none | some .directory => .error (.reported
      (str "not a PPC Lab exploration directory: " ++ exploration))
  | some content => do
      match ← readJson content with
      | .object summary =>
          if Json.get summary (str "schema") =
              .string (str "ppc-lab-exploration-summary-v1") then
            return summary
          else throw (.reported (str "exploration summary schema mismatch"))
      | _ => throw (.reported (str "exploration summary schema mismatch"))

def casePath (exploration name : Str) : Str :=
  joined exploration (str "cases/" ++ name)

def readCase (exploration : Str) (entry : Str × Content) :
    Except Failure Fields := do
  let mismatch := Failure.reported
    (str "case schema mismatch: " ++ casePath exploration entry.1)
  match ← readJson entry.2 with
  | .object row =>
      if Json.get row (str "schema") =
          .string (str "ppc-lab-exploration-case-v1") then
        return row
      else throw mismatch
  | _ => throw mismatch

/-- `load_cases` of the ranking. -/
def loadCases (exploration : Str) (output : Output) :
    Except Failure (Fields × List Fields) := do
  let summary ← readSummary exploration output
  let rows ← (caseFiles output.cases).mapM (readCase exploration)
  if rows.isEmpty then
    throw (.reported (str "exploration contains no cases"))
  else return (summary, rows)

def sha256Json (value : Json) : Str :=
  Sha256.hexdigest (Security.canonical value ++ [0x0a])

/-- A row with the file that it came from. -/
def sourced (exploration : Str) (name : Str) (row : Fields) : Fields :=
  let named := Dictionary.assign row
    (str "_source", .string (casePath exploration name))
  let own := named.filter fun member => member.1.head? ≠ some 0x5f
  Dictionary.assign named (str "_sha256", .string (sha256Json (.object own)))

/-- `load_exploration` of the hypotheses. -/
def loadExploration (exploration : Str) (output : Output) :
    Except Failure (Fields × List Fields) := do
  let summary ← readSummary exploration output
  let rows ← (caseFiles output.cases).mapM fun entry => do
    return sourced exploration entry.1 (← readCase exploration entry)
  if rows.length < 2 then
    throw (.reported
      (str "hypothesis analysis requires at least two exploration cases"))
  else return (summary, rows)

/-- Which cases a campaign takes for triage. -/
inductive Selection where
  | all
  | novel
  | failed
  | novelOrFailed
  deriving DecidableEq

def Selection.takes (selection : Selection) (row : Fields) : Bool :=
  let worker := Json.dict (Json.get row (str "worker"))
  let novel := Security.truthy (Json.get row (str "novel"))
  let failed := !Security.truthy (Json.get worker (str "ok"))
  match selection with
  | .all => true
  | .novel => novel
  | .failed => failed
  | .novelOrFailed => novel || failed

/-- A row whose members are asked for. -/
def readRow (entry : Str × Content) : Except Failure Fields := do
  match ← readJson entry.2 with
  | .object row => return row
  | _ => throw .raised

/-- The candidates of the triage stage. -/
def triageCandidates (selection : Selection) (cases : Cases) :
    Except Failure (List Fields) := do
  let rows ← (caseFiles cases).mapM readRow
  return rows.filter selection.takes

section

variable {session : Session} {manifest : Manifest}

theorem cases_of_writeJson {cases written : Cases} {name : Str}
    {fields : Fields} (wrote : writeJson cases name fields = .ok written) :
    written = cases.put (name, .json (.object fields)) := by
  unfold writeJson at wrote
  split at wrote
  · cases wrote
  · exact (Except.ok.inj wrote).symm

theorem lookup_put_of_ne (cases : Cases) (entry : Str × Content)
    {name : Str} (differ : name ≠ entry.1) :
    (cases.put entry).lookup name = cases.lookup name :=
  Keyed.lookup_put_of_ne cases differ

theorem index_of_examine {baseJob : Fields} {progress : Progress}
    {candidate : Candidate} {row : Row}
    (examined : examine session baseJob progress candidate = .ok row) :
    row.index = progress.rows.length := by
  obtain ⟨_, _, examined⟩ := Outcome.bind_eq_ok.mp examined
  obtain ⟨_, _, examined⟩ := Outcome.bind_eq_ok.mp examined
  obtain ⟨response, _, examined⟩ := Outcome.bind_eq_ok.mp examined
  cases response with
  | object response =>
      cases examined
      rfl
  | null | bool | int | float | string | array => cases examined

theorem index_of_promote {row final : Row}
    (promotes : promote session row = .ok (some final)) :
    final.index = row.index := by
  unfold promote at promotes
  split at promotes
  · cases promotes
  · split at promotes
    · obtain ⟨_, _, promotes⟩ := Outcome.bind_eq_ok.mp promotes
      split at promotes
      · cases promotes
        rfl
      · cases promotes
    · cases promotes

/-- The file of a row. -/
def Row.entry (row : Row) : Str × Content :=
  (Row.fileName row.index, .json (.object row.written))

/-- The rows are numbered and have their files; the other files are those
that were there. -/
structure Stored (manifest : Manifest) (before : Cases) (state : State) :
    Prop where
  indices : state.progress.rows.map (·.index) =
    List.range state.progress.rows.length
  bound : state.progress.rows.length ≤ manifest.maxCases
  files : ∀ row ∈ state.progress.rows,
    state.cases.lookup (Row.fileName row.index) = some row.entry
  others : ∀ name, (∀ row ∈ state.progress.rows,
    name ≠ Row.fileName row.index) →
    state.cases.lookup name = before.lookup name

theorem fileName_lt {first second : Nat} (less : first < second)
    (bound : second < 100000) : Row.fileName first < Row.fileName second :=
  Text.padded_lt (by decide) bound less _ _

theorem fileName_injective {first second : Nat} (small : first < 100000)
    (otherSmall : second < 100000)
    (same : Row.fileName first = Row.fileName second) : first = second := by
  rcases lt_trichotomy first second with less | equal | greater
  · exact absurd same (fileName_lt less otherSmall).ne
  · exact equal
  · exact absurd same.symm (fileName_lt greater small).ne

private theorem index_lt {before : Cases} {state : State}
    (stored : Stored manifest before state) {row : Row}
    (member : row ∈ state.progress.rows) :
    row.index < state.progress.rows.length := by
  have listed := List.mem_map_of_mem (f := (·.index)) member
  rw [stored.indices] at listed
  exact List.mem_range.mp listed

/-- A row with the next number is added, and its file is the last one that was
written. -/
private theorem stored_record {before : Cases} {state : State}
    {candidate : Candidate} {row : Row} {cases : Cases}
    (stored : Stored manifest before state)
    (space : state.progress.rows.length < manifest.maxCases)
    (next : row.index = state.progress.rows.length)
    (here : cases.lookup (Row.fileName row.index) = some row.entry)
    (elsewhere : ∀ name, name ≠ Row.fileName row.index →
      cases.lookup name = state.cases.lookup name) :
    Stored manifest before ⟨state.progress.record candidate row, cases⟩ := by
  have small := manifest.maxCases_le
  constructor
  · simp only [Progress.record, List.map_append, List.map_cons, List.map_nil,
      List.length_append, List.length_singleton, stored.indices, next,
      List.range_succ]
  · simpa [Progress.record] using Nat.succ_le_of_lt space
  · intro other member
    rcases List.mem_append.mp member with old | new
    · rw [elsewhere, stored.files other old]
      intro same
      have less := index_lt stored old
      have equal := fileName_injective (by omega) (by omega) same
      omega
    · rw [List.mem_singleton.mp new]
      exact here
  · intro name distinct
    rw [elsewhere name (distinct row (by simp [Progress.record]))]
    apply stored.others
    intro other member
    exact distinct other (by simp [Progress.record, member])

theorem stored_evaluate {before : Cases} {state next : State}
    {candidate : Candidate} {row : Option Row}
    (stored : Stored manifest before state)
    (space : state.progress.rows.length < manifest.maxCases)
    (result : evaluate session manifest.baseJob state candidate =
      .ok (row, next)) :
    Stored manifest before next := by
  cases evaluated_of_evaluate result with
  | repeated => exact stored
  | kept fresh examined promotes wrote =>
      cases cases_of_writeJson wrote
      refine stored_record stored space (index_of_examine examined) ?_ ?_
      · exact Keyed.lookup_put_self _ _
      · intro name differ
        exact Keyed.lookup_put_of_ne _ differ
  | promoted fresh examined promotes wrote again =>
      rename_i row final cases written
      cases cases_of_writeJson wrote
      cases cases_of_writeJson again
      have numbered := index_of_promote promotes
      refine stored_record stored space
        (numbered.trans (index_of_examine examined)) ?_ ?_
      · rw [← numbered]
        exact Keyed.lookup_put_self _ (Row.fileName final.index, _)
      · intro name differ
        have other : name ≠ Row.fileName row.index := numbered ▸ differ
        exact (lookup_put_of_ne _ (Row.fileName row.index, _) other).trans
          (lookup_put_of_ne _ (Row.fileName row.index, _) other)

theorem stored_explore {cases : Cases} {final : State} {stopped : Bool}
    (ran : explore session manifest cases = .ok (stopped, final)) :
    Stored manifest cases final := by
  have keeps : Keeps session manifest (Stored manifest cases) :=
    fun stored space result => stored_evaluate stored space result
  refine explore_keeps keeps ?_ ran
  constructor
  · rfl
  · exact Nat.zero_le _
  · intro row member
    cases member
  · intro name _
    rfl

end

variable {session : Session} {manifest : Manifest} {before : Cases}
  {state : State}

private theorem isJsonName_fileName (index : Nat) :
    isJsonName (Row.fileName index) :=
  List.isSuffixOf_iff_suffix.mpr (List.suffix_append _ _)

private theorem entries_nodup (cases : Cases) : cases.entries.Nodup :=
  List.Nodup.of_map _ cases.nodup

private theorem rows_pairwise (stored : Stored manifest before state) :
    (state.progress.rows.map Row.entry).Pairwise fun first second =>
      first.1 < second.1 := by
  have small := manifest.maxCases_le
  have bound := stored.bound
  have ascending : (state.progress.rows.map (·.index)).Pairwise (· < ·) := by
    rw [stored.indices]
    exact List.pairwise_lt_range
  rw [List.pairwise_map] at ascending ⊢
  refine List.Pairwise.imp_of_mem ?_ ascending
  intro first second _ member less
  have last := index_lt stored member
  exact fileName_lt less (by omega)

private theorem entry_mem (stored : Stored manifest before state) {row : Row}
    (member : row ∈ state.progress.rows) :
    row.entry ∈ state.cases.entries.filter fun entry => isJsonName entry.1 := by
  refine List.mem_filter.mpr ⟨?_, isJsonName_fileName row.index⟩
  exact Keyed.mem_of_lookup (stored.files row member)

/-- Every file that the readers take is one of a row. -/
def OnlyRows (before : Cases) (rows : List Row) : Prop :=
  ∀ entry ∈ before.entries, isJsonName entry.1 →
    ∃ row ∈ rows, entry.1 = Row.fileName row.index

private theorem mem_of_onlyRows (stored : Stored manifest before state)
    (only : OnlyRows before state.progress.rows) {entry : Str × Content}
    (member : entry ∈ state.cases.entries.filter fun entry =>
      isJsonName entry.1) :
    entry ∈ state.progress.rows.map Row.entry := by
  obtain ⟨held, isJson⟩ := List.mem_filter.mp member
  have found := Keyed.lookup_of_mem held
  by_cases own : ∃ row ∈ state.progress.rows, entry.1 = Row.fileName row.index
  · obtain ⟨row, kept, same⟩ := own
    have stores := stored.files row kept
    rw [← same, found] at stores
    rw [Option.some.inj stores]
    exact List.mem_map_of_mem kept
  · have stale := stored.others entry.1 fun row kept same => own ⟨row, kept, same⟩
    rw [stale] at found
    exact absurd (only entry (Keyed.mem_of_lookup found) isJson) own

/-- Without other files the readers take the files of the rows. -/
theorem caseFiles_of_onlyRows (stored : Stored manifest before state)
    (only : OnlyRows before state.progress.rows) :
    caseFiles state.cases = state.progress.rows.map Row.entry := by
  have ascending := rows_pairwise stored
  have permutation : (caseFiles state.cases).Perm
      (state.progress.rows.map Row.entry) := by
    refine (List.perm_insertionSort _ _).trans ?_
    refine (List.perm_ext_iff_of_nodup ((entries_nodup _).filter _) ?_).mpr ?_
    · refine List.Pairwise.imp ?_ ascending
      intro first second less same
      exact absurd (same ▸ less) (lt_irrefl _)
    · intro entry
      constructor
      · exact mem_of_onlyRows stored only
      · intro member
        obtain ⟨row, kept, rfl⟩ := List.mem_map.mp member
        exact entry_mem stored kept
  have files : (caseFiles state.cases).Pairwise notAfterEntry :=
    List.pairwise_insertionSort _ _
  refine permutation.eq_of_pairwise ?_ files ?_
  · intro first second listed member below above
    have same : first.1 = second.1 :=
      le_antisymm ((Json.notAfter_iff _ _).mp below)
        ((Json.notAfter_iff _ _).mp above)
    have held := (List.mem_filter.mp ((List.mem_insertionSort _).mp listed)).1
    obtain ⟨row, kept, rfl⟩ := List.mem_map.mp member
    have stores := stored.files row kept
    rw [show Row.fileName row.index = first.1 from same.symm,
      Keyed.lookup_of_mem held] at stores
    exact Option.some.inj stores
  · refine List.Pairwise.imp ?_ ascending
    intro first second less
    exact (Json.notAfter_iff _ _).mpr less.le

/-- A file that is no row's is taken in addition to those of the rows. -/
theorem length_lt_of_not_onlyRows (stored : Stored manifest before state)
    (foreign : ¬ OnlyRows before state.progress.rows) :
    state.progress.rows.length < (caseFiles state.cases).length := by
  simp only [OnlyRows, not_forall, not_exists, not_and] at foreign
  obtain ⟨stale, held, isJson, distinct⟩ := foreign
  have kept : state.cases.lookup stale.1 = some stale := by
    rw [stored.others stale.1 distinct]
    exact Keyed.lookup_of_mem held
  have nodup : (stale :: state.progress.rows.map Row.entry).Nodup := by
    refine List.nodup_cons.mpr ⟨?_, ?_⟩
    · intro member
      obtain ⟨row, stores, same⟩ := List.mem_map.mp member
      exact distinct row stores (same ▸ rfl)
    · refine List.Pairwise.imp ?_ (rows_pairwise stored)
      intro first second less same
      exact absurd (same ▸ less) (lt_irrefl _)
  have inside : stale :: state.progress.rows.map Row.entry ⊆
      state.cases.entries.filter fun entry => isJsonName entry.1 := by
    intro entry member
    rcases List.mem_cons.mp member with rfl | own
    · exact List.mem_filter.mpr ⟨Keyed.mem_of_lookup kept, isJson⟩
    · obtain ⟨row, stores, rfl⟩ := List.mem_map.mp own
      exact entry_mem stored stores
  have lengths := (nodup.subperm inside).length_le
  rw [List.length_cons, List.length_map] at lengths
  rw [caseFiles, List.length_insertionSort]
  exact lengths

end PpcLab.Explore
