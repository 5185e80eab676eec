import PpcLab.Corpus.Commands

/-!
# Minimized cases

A minimization goes once through the entries of the job's setup and takes out
those without which a mismatch of the case stays.  What is left shows such a
mismatch, and every entry that is left was needed when its turn came; later
deletions can make it superfluous.
-/

namespace PpcLab.Corpus

open Explore (Failure Setting found? getOr)

/-- The entries of a field that is an object. -/
def entriesAt (job : Fields) (field : Str) : Fields :=
  match Json.find? job field with
  | some (.object entries) => entries
  | _ => []

def withoutEntry (job : Fields) (field key : Str) : Fields :=
  Dictionary.assign job
    (field, .object ((entriesAt job field).filter fun entry => entry.1 ≠ key))

/-- A value is kept, or it is an object that loses members. -/
inductive Shrunk : Option Json → Option Json → Prop where
  | kept (value : Option Json) : Shrunk value value
  | deleted {entries rest : Fields} (part : rest.Sublist entries) :
      Shrunk (some (.object entries)) (some (.object rest))

theorem Shrunk.trans {first second third : Option Json}
    (before : Shrunk first second) (after : Shrunk second third) :
    Shrunk first third := by
  cases before with
  | kept => exact after
  | deleted part =>
      cases after with
      | kept => exact .deleted part
      | deleted more => exact .deleted (more.trans part)

/-- A job differs from another one by deleted entries of its setup. -/
structure Deletes (job other : Fields) : Prop where
  keys : other.map Prod.fst = job.map Prod.fst
  outside : ∀ key, (∀ field ∈ setupFields, key ≠ str field) →
    Json.find? other key = Json.find? job key
  setup : ∀ field ∈ setupFields,
    Shrunk (Json.find? job (str field)) (Json.find? other (str field))

namespace Deletes

theorem refl (job : Fields) : Deletes job job :=
  ⟨rfl, fun _ _ => rfl, fun _ _ => .kept _⟩

theorem trans {first second third : Fields} (before : Deletes first second)
    (after : Deletes second third) : Deletes first third where
  keys := after.keys.trans before.keys
  outside key other := (after.outside key other).trans (before.outside key other)
  setup field member := (before.setup field member).trans
    (after.setup field member)

theorem entries {job other : Fields} (deletes : Deletes job other)
    {field : String} (member : field ∈ setupFields) :
    (entriesAt other (str field)).Sublist (entriesAt job (str field)) := by
  unfold entriesAt
  have shrunk := deletes.setup field member
  revert shrunk
  generalize Json.find? job (str field) = before
  generalize Json.find? other (str field) = after
  intro shrunk
  cases shrunk with
  | kept => exact List.Sublist.refl _
  | deleted part => exact part

end Deletes

theorem entriesAt_withoutEntry (job : Fields) (field key : Str) :
    entriesAt (withoutEntry job field key) field =
      (entriesAt job field).filter fun entry => entry.1 ≠ key := by
  conv_lhs => rw [entriesAt, withoutEntry, Json.find?_assign_self]

theorem deletes_withoutEntry {job : Fields} {field : String}
    (member : field ∈ setupFields) (key : Str)
    (isObject : Json.find? job (str field) =
      some (.object (entriesAt job (str field)))) :
    Deletes job (withoutEntry job (str field) key) := by
  have present : str field ∈ job.map Prod.fst := by
    by_contra absent
    have missing : Json.find? job (str field) = none := by
      rw [Json.find?, Option.map_eq_none_iff, List.find?_eq_none]
      intro entry held same
      exact absent (List.mem_map.mpr ⟨entry, held, eq_of_beq same⟩)
    rw [missing] at isObject
    cases isObject
  refine ⟨?_, ?_, ?_⟩
  · rw [withoutEntry, Dictionary.keys_assign, if_pos present]
  · intro other outside
    rw [withoutEntry, Json.find?_assign_of_ne (outside field member).symm]
  · intro other isField
    by_cases same : str field = str other
    · rw [← same, withoutEntry, Json.find?_assign_self, isObject]
      exact .deleted List.filter_sublist
    · rw [withoutEntry, Json.find?_assign_of_ne same]
      exact .kept _

section

variable (setting : Setting) (tool : Tool) (paths : List Str)
  (expectation : Json) (wanted : List Str)

/-- A mismatch that is wanted is there. -/
def Shows (found : List Difference) : Prop :=
  ∃ difference ∈ found, difference.path ∈ wanted

/-- A replay of the job produces a mismatch that is wanted. -/
def Fails (job : Fields) : Prop :=
  ∃ found, mismatches setting tool paths expectation job = .ok found ∧
    Shows wanted found

/-- A replay of the job produces no mismatch that is wanted. -/
def Passes (job : Fields) : Prop :=
  ∃ found, mismatches setting tool paths expectation job = .ok found ∧
    ¬ Shows wanted found

/-- Every mismatch disappears with an entry of a job between two others. -/
def Needed (job other : Fields) (field key : Str) : Prop :=
  ∃ turn, Deletes job turn ∧ Deletes turn other ∧
    Passes setting tool paths expectation wanted (withoutEntry turn field key)

end

section

variable {setting : Setting} {tool : Tool} {paths : List Str}
  {expectation : Json} {wanted : List Str}

theorem Needed.between {first second third fourth : Fields} {field key : Str}
    (needed : Needed setting tool paths expectation wanted second third field key)
    (before : Deletes first second) (after : Deletes third fourth) :
    Needed setting tool paths expectation wanted first fourth field key := by
  obtain ⟨turn, former, later, passes⟩ := needed
  exact ⟨turn, before.trans former, later.trans after, passes⟩

private theorem any_iff {found : List Difference} :
    (found.any fun difference => Explore.isAmong wanted difference.path) ↔
      Shows wanted found := by
  simp only [List.any_eq_true, Explore.isAmong_iff, Shows]

/-- One turn: the entry goes when a mismatch stays without it. -/
theorem tryWithout_cases {field : String} {reduced next : Reduced} {key : Str}
    (ran : tryWithout setting tool paths expectation wanted field reduced key =
      .ok next) :
    Json.find? reduced.job (str field) =
        some (.object (entriesAt reduced.job (str field))) ∧
      ((next.job = withoutEntry reduced.job (str field) key ∧
          Fails setting tool paths expectation wanted next.job) ∨
        (next.job = reduced.job ∧
          Passes setting tool paths expectation wanted
            (withoutEntry reduced.job (str field) key))) := by
  obtain ⟨value, there, ran⟩ := Outcome.bind_eq_ok.mp ran
  obtain ⟨entries, fields, ran⟩ := Outcome.bind_eq_ok.mp ran
  have held : Json.find? reduced.job (str field) = some (.object entries) := by
    unfold member found? at there
    split at there
    · rename_i found
      cases there
      rw [found]
      cases value <;> cases fields
      rfl
    · cases there
  have inside : entriesAt reduced.job (str field) = entries := by
    rw [entriesAt, held]
  rw [inside]
  refine ⟨held, ?_⟩
  obtain ⟨found, shown, ran⟩ := Outcome.bind_eq_ok.mp ran
  have same : withoutEntry reduced.job (str field) key =
      Dictionary.assign reduced.job (str field, .object
        (entries.filter fun entry => entry.1 ≠ key)) := by
    rw [withoutEntry, inside]
  rw [same]
  split at ran
  · rename_i stays
    cases ran
    exact .inl ⟨rfl, found, shown, any_iff.mp stays⟩
  · rename_i gone
    cases ran
    exact .inr ⟨rfl, found, shown, fun shows => gone (any_iff.mpr shows)⟩

/-- What a part of the pass leaves of a job, for some of its entries. -/
structure Pass (setting : Setting) (tool : Tool) (paths : List Str)
    (expectation : Json) (wanted : List Str) (job other : Fields)
    (visited : Str → Str → Prop) : Prop where
  deletes : Deletes job other
  fails : Fails setting tool paths expectation wanted job →
    Fails setting tool paths expectation wanted other
  needed : ∀ field ∈ setupFields, ∀ entry ∈ entriesAt other (str field),
    visited (str field) entry.1 →
    Needed setting tool paths expectation wanted job other (str field) entry.1

namespace Pass

theorem refl (job : Fields) :
    Pass setting tool paths expectation wanted job job fun _ _ => False :=
  ⟨.refl job, id, fun _ _ _ _ => False.elim⟩

theorem trans {first second third : Fields} {former later : Str → Str → Prop}
    (before : Pass setting tool paths expectation wanted first second former)
    (after : Pass setting tool paths expectation wanted second third later) :
    Pass setting tool paths expectation wanted first third
      fun field key => former field key ∨ later field key := by
  refine ⟨before.deletes.trans after.deletes, after.fails ∘ before.fails, ?_⟩
  intro field member entry held visited
  rcases visited with early | late
  · have there := (after.deletes.entries member).subset held
    exact (before.needed field member entry there early).between (.refl _)
      after.deletes
  · exact (after.needed field member entry held late).between before.deletes
      (.refl _)

theorem mono {job other : Fields} {visited fewer : Str → Str → Prop}
    (pass : Pass setting tool paths expectation wanted job other visited)
    (less : ∀ field ∈ setupFields, ∀ entry ∈ entriesAt other (str field),
      fewer (str field) entry.1 → visited (str field) entry.1) :
    Pass setting tool paths expectation wanted job other fewer :=
  ⟨pass.deletes, pass.fails, fun field member entry held few =>
    pass.needed field member entry held (less field member entry held few)⟩

end Pass

theorem pass_tryWithout {field : String} (member : field ∈ setupFields)
    {reduced next : Reduced} {key : Str}
    (ran : tryWithout setting tool paths expectation wanted field reduced key =
      .ok next) :
    Pass setting tool paths expectation wanted reduced.job next.job
      fun other visited => other = str field ∧ visited = key := by
  obtain ⟨isObject, outcome⟩ := tryWithout_cases ran
  rcases outcome with ⟨taken, fails⟩ | ⟨same, passes⟩
  · refine ⟨taken ▸ deletes_withoutEntry member key isObject, fun _ => fails, ?_⟩
    rintro other _ entry held ⟨here, isKey⟩
    rw [here, taken, entriesAt_withoutEntry] at held
    have differ := (List.mem_filter.mp held).2
    exact absurd isKey (of_decide_eq_true differ)
  · rw [same]
    refine ⟨.refl _, id, ?_⟩
    rintro other _ entry _ ⟨here, isKey⟩
    rw [here, isKey]
    exact ⟨reduced.job, .refl _, .refl _, passes⟩

theorem pass_keys {field : String} (member : field ∈ setupFields)
    {keys : List Str} {reduced next : Reduced}
    (ran : keys.foldlM (tryWithout setting tool paths expectation wanted field)
      reduced = .ok next) :
    Pass setting tool paths expectation wanted reduced.job next.job
      fun other visited => other = str field ∧ visited ∈ keys := by
  induction keys generalizing reduced with
  | nil =>
      cases ran
      exact (Pass.refl _).mono fun _ _ _ _ none => nomatch none.2
  | cons key keys induction =>
      rw [List.foldlM_cons] at ran
      obtain ⟨between, first, rest⟩ := Outcome.bind_eq_ok.mp ran
      refine ((pass_tryWithout member first).trans (induction rest)).mono ?_
      rintro other _ entry _ ⟨here, listed⟩
      rcases List.mem_cons.mp listed with isKey | later
      · exact .inl ⟨here, isKey⟩
      · exact .inr ⟨here, later⟩

/-- All entries of a field have their turn. -/
theorem pass_minimizeField {field : String} (member : field ∈ setupFields)
    {reduced next : Reduced}
    (ran : minimizeField setting tool paths expectation wanted reduced field =
      .ok next) :
    Pass setting tool paths expectation wanted reduced.job next.job
      fun other _ => other = str field := by
  obtain ⟨entries, isObject, ran⟩ := Outcome.bind_eq_ok.mp ran
  have pass := pass_keys member ran
  refine pass.mono ?_
  intro other isField entry held here
  refine ⟨here, ?_⟩
  rw [here] at held
  have before := (pass.deletes.entries member).subset held
  have inside : entriesAt reduced.job (str field) = entries := by
    unfold entriesAt
    unfold getOr found? at isObject
    revert before
    unfold entriesAt
    cases there : Json.find? reduced.job (str field) with
    | none => exact fun none => nomatch none
    | some value =>
        rw [there] at isObject
        cases value <;> cases isObject
        exact fun _ => rfl
  rw [inside] at before
  exact List.mem_map_of_mem before

theorem pass_fields {fields : List String}
    (members : ∀ field ∈ fields, field ∈ setupFields) {reduced next : Reduced}
    (ran : fields.foldlM (minimizeField setting tool paths expectation wanted)
      reduced = .ok next) :
    Pass setting tool paths expectation wanted reduced.job next.job
      fun other _ => ∃ field ∈ fields, other = str field := by
  induction fields generalizing reduced with
  | nil =>
      cases ran
      exact (Pass.refl _).mono fun _ _ _ _ none => by simp at none
  | cons field fields induction =>
      rw [List.foldlM_cons] at ran
      obtain ⟨between, first, rest⟩ := Outcome.bind_eq_ok.mp ran
      obtain ⟨isField, others⟩ := List.forall_mem_cons.mp members
      refine ((pass_minimizeField isField first).trans
        (induction others rest)).mono ?_
      rintro other _ entry _ ⟨here, listed, same⟩
      rcases List.mem_cons.mp listed with rfl | later
      · exact .inl same
      · exact .inr ⟨here, later, same⟩

end

variable {setting : Setting} {tool : Tool}

/-- A case that fails when it is minimized. -/
structure FailingCase (setting : Setting) (tool : Tool) (corpus : CaseStore)
    (minimize : Minimize) where
  sources : Sources
  case : Fields
  paths : List Str
  job : Fields
  expectation : Json
  first : List Difference
  sourced : Corpus.sources setting tool minimize.options = .ok sources
  loaded : loadCase corpus minimize.case = .ok case
  found : findInputs tool.world corpus.root sources case = .ok paths
  isJob : member case "job" = .ok (.object job)
  expects : member case "expectation" = .ok expectation
  ran : mismatches setting tool paths expectation job = .ok first
  fails : first ≠ []

namespace FailingCase

variable {corpus : CaseStore} {minimize : Minimize}
  (failing : FailingCase setting tool corpus minimize)

/-- The paths of the original mismatches. -/
def wanted : List Str :=
  failing.first.map (·.path)

/-- A job of this case without one entry of its setup produces no original
mismatch. -/
def WithoutPasses (job : Fields) (field key : Str) : Prop :=
  Passes setting tool failing.paths failing.expectation failing.wanted
    (withoutEntry job field key)

/-- No single entry that a job has can be deleted. -/
def LocallyMinimal (job : Fields) : Prop :=
  ∀ field ∈ setupFields, ∀ entry ∈ entriesAt job (str field),
    failing.WithoutPasses job (str field) entry.1

/-- What is promised of a minimized case. -/
structure Reduces (result : Fields) (job : Fields) : Prop where
  isJob : Json.find? result (str "job") = some (.object job)
  deletes : Deletes failing.job job
  replays : ∃ response found,
    doReplay setting tool corpus failing.sources none result =
      .ok (response, found) ∧ Shows failing.wanted found
  needed : ∀ field ∈ setupFields, ∀ entry ∈ entriesAt job (str field),
    ∃ turn, Deletes failing.job turn ∧ Deletes turn job ∧
      failing.WithoutPasses turn (str field) entry.1

/-- The fields of the setup are objects where they are there. -/
def Shaped : Prop :=
  ∀ field ∈ setupFields, ∀ value,
    Json.find? failing.job (str field) = some value →
    ∃ entries, value = .object entries

/-- The engine answers to every job that a minimization can send. -/
def Answered : Prop :=
  ∀ job, Deletes failing.job job → ∃ found,
    mismatches setting tool failing.paths failing.expectation job = .ok found

private theorem assigned_keys_apart :
    [str "id", str "minimized_from", str "minimized_removed"].all (fun key =>
      key ≠ str "job" ∧ key ≠ str "inputs" ∧ key ≠ str "expectation") = true := by
  decide

private theorem job_apart : str "job" ≠ str "inputs" ∧
    str "job" ≠ str "expectation" := by
  decide

/-- What a minimization that succeeds has done. -/
theorem reduced_of_minimized {result : Fields}
    (succeeded : minimized setting tool corpus minimize = .ok result) :
    ∃ id reduced,
      member failing.case "id" = .ok (.string id) ∧
      setupFields.foldlM (minimizeField setting tool failing.paths
        failing.expectation failing.wanted) ⟨failing.job, []⟩ = .ok reduced ∧
      result = [(str "id", .string (id ++ str "-minimized")),
        (str "job", .object reduced.job), (str "minimized_from", .string id),
        (str "minimized_removed", Explore.texts reduced.removed)].foldl
          Dictionary.assign failing.case := by
  obtain ⟨sources, sourced, succeeded⟩ := Outcome.bind_eq_ok.mp succeeded
  cases failing.sourced.symm.trans sourced
  obtain ⟨case, loaded, succeeded⟩ := Outcome.bind_eq_ok.mp succeeded
  cases failing.loaded.symm.trans loaded
  obtain ⟨paths, found, succeeded⟩ := Outcome.bind_eq_ok.mp succeeded
  cases failing.found.symm.trans found
  obtain ⟨value, isJob, succeeded⟩ := Outcome.bind_eq_ok.mp succeeded
  cases failing.isJob.symm.trans isJob
  obtain ⟨job, fields, succeeded⟩ := Outcome.bind_eq_ok.mp succeeded
  cases fields
  obtain ⟨expectation, expects, succeeded⟩ := Outcome.bind_eq_ok.mp succeeded
  cases failing.expects.symm.trans expects
  obtain ⟨first, ran, succeeded⟩ := Outcome.bind_eq_ok.mp succeeded
  cases failing.ran.symm.trans ran
  have notEmpty : failing.first.isEmpty = false :=
    Bool.eq_false_iff.mpr fun empty => failing.fails (List.isEmpty_iff.mp empty)
  rw [notEmpty] at succeeded
  obtain ⟨reduced, folded, succeeded⟩ := Outcome.bind_eq_ok.mp succeeded
  obtain ⟨value, isId, succeeded⟩ := Outcome.bind_eq_ok.mp succeeded
  obtain ⟨id, isText, succeeded⟩ := Outcome.bind_eq_ok.mp succeeded
  cases value <;> cases isText
  cases succeeded
  exact ⟨_, reduced, isId, folded, rfl⟩

omit failing in
/-- A replay finds the mismatches of the job. -/
theorem doReplay_of_mismatches {sources : Sources} {case job : Fields}
    {paths : List Str} {expectation : Json} {found : List Difference}
    (inputs : findInputs tool.world corpus.root sources case = .ok paths)
    (isJob : member case "job" = .ok (.object job))
    (expects : member case "expectation" = .ok expectation)
    (ran : mismatches setting tool paths expectation job = .ok found) :
    ∃ response, doReplay setting tool corpus sources none case =
      .ok (response, found) := by
  obtain ⟨response, answered, ran⟩ := Outcome.bind_eq_ok.mp ran
  obtain ⟨shown, stable, ran⟩ := Outcome.bind_eq_ok.mp ran
  cases ran
  refine ⟨response, ?_⟩
  refine Outcome.bind_eq_ok.mpr ⟨paths, inputs, ?_⟩
  refine Outcome.bind_eq_ok.mpr ⟨.object job, isJob, ?_⟩
  refine Outcome.bind_eq_ok.mpr ⟨job, rfl, ?_⟩
  refine Outcome.bind_eq_ok.mpr ⟨job, rfl, ?_⟩
  refine Outcome.bind_eq_ok.mpr ⟨response, answered, ?_⟩
  refine Outcome.bind_eq_ok.mpr ⟨expectation, expects, ?_⟩
  exact Outcome.bind_eq_ok.mpr ⟨shown, stable, rfl⟩

theorem reduces_of_minimized {result : Fields}
    (succeeded : minimized setting tool corpus minimize = .ok result) :
    ∃ job, failing.Reduces result job := by
  obtain ⟨id, reduced, _, folded, rfl⟩ := failing.reduced_of_minimized succeeded
  have pass := pass_fields (fun _ member => member) folded
  have keys := assigned_keys_apart
  simp only [List.all_cons, List.all_nil, Bool.and_true, Bool.and_eq_true,
    decide_eq_true_eq] at keys
  obtain ⟨idApart, formerApart, removedApart⟩ := keys
  simp only [List.foldl_cons, List.foldl_nil]
  generalize made : Dictionary.assign (Dictionary.assign (Dictionary.assign
    (Dictionary.assign failing.case (str "id", .string (id ++ str "-minimized")))
    (str "job", .object reduced.job)) (str "minimized_from", .string id))
    (str "minimized_removed", Explore.texts reduced.removed) = result
  have isJob : Json.find? result (str "job") = some (.object reduced.job) := by
    rw [← made, Json.find?_assign_of_ne removedApart.1,
      Json.find?_assign_of_ne formerApart.1, Json.find?_assign_self]
  have others {key : String} (apartId : str "id" ≠ str key)
      (apartJob : str "job" ≠ str key) (apartFrom : str "minimized_from" ≠ str key)
      (apartRemoved : str "minimized_removed" ≠ str key) :
      member result key = member failing.case key := by
    rw [member, member, found?, found?, ← made,
      Json.find?_assign_of_ne apartRemoved, Json.find?_assign_of_ne apartFrom,
      Json.find?_assign_of_ne apartJob, Json.find?_assign_of_ne apartId]
  have inputs : findInputs tool.world corpus.root failing.sources result =
      .ok failing.paths := by
    have same := others idApart.2.1 job_apart.1 formerApart.2.1 removedApart.2.1
    rw [← failing.found, findInputs, findInputs, same]
  have expects : member result "expectation" = .ok failing.expectation :=
    (others idApart.2.2 job_apart.2 formerApart.2.2 removedApart.2.2).trans
      failing.expects
  have began : Fails setting tool failing.paths failing.expectation
      failing.wanted failing.job := by
    obtain ⟨difference, rest, isFirst⟩ := List.exists_cons_of_ne_nil failing.fails
    refine ⟨failing.first, failing.ran, difference, ?_, ?_⟩
    · rw [isFirst]
      exact List.mem_cons_self
    · rw [wanted, isFirst]
      exact List.mem_cons_self
  obtain ⟨found, ran, shows⟩ := pass.fails began
  have here : member result "job" = .ok (.object reduced.job) := by
    rw [member, found?, isJob]
  obtain ⟨response, replayed⟩ :=
    doReplay_of_mismatches inputs here expects ran
  refine ⟨reduced.job, isJob, pass.deletes, ⟨response, found, replayed, shows⟩,
    ?_⟩
  intro field member entry held
  exact pass.needed field member entry held ⟨field, member, rfl⟩

/-- A turn succeeds for a field that is an object when the engine answers. -/
private theorem tryWithout_succeeds (answered : failing.Answered)
    {field : String} (isField : field ∈ setupFields) {reduced : Reduced}
    {key : Str} (deletes : Deletes failing.job reduced.job)
    (isObject : Json.find? reduced.job (str field) =
      some (.object (entriesAt reduced.job (str field)))) :
    ∃ next, tryWithout setting tool failing.paths failing.expectation
        failing.wanted field reduced key = .ok next ∧
      Deletes failing.job next.job ∧
      Json.find? next.job (str field) =
        some (.object (entriesAt next.job (str field))) := by
  obtain ⟨found, shown⟩ := answered (withoutEntry reduced.job (str field) key)
    (deletes.trans (deletes_withoutEntry isField key isObject))
  have there : member reduced.job field =
      .ok (.object (entriesAt reduced.job (str field))) := by
    rw [member, found?, isObject]
  have succeeds : ∃ next, tryWithout setting tool failing.paths
      failing.expectation failing.wanted field reduced key = .ok next := by
    by_cases stays : (found.any fun difference =>
        Explore.isAmong failing.wanted difference.path)
    · refine ⟨⟨withoutEntry reduced.job (str field) key,
        reduced.removed ++ [str field ++ 0x2e :: key]⟩, ?_⟩
      refine Outcome.bind_eq_ok.mpr ⟨_, there, ?_⟩
      refine Outcome.bind_eq_ok.mpr ⟨_, rfl, ?_⟩
      exact Outcome.bind_eq_ok.mpr ⟨found, shown, if_pos stays⟩
    · refine ⟨reduced, Outcome.bind_eq_ok.mpr ⟨_, there, ?_⟩⟩
      refine Outcome.bind_eq_ok.mpr ⟨_, rfl, ?_⟩
      exact Outcome.bind_eq_ok.mpr ⟨found, shown, if_neg stays⟩
  obtain ⟨next, ran⟩ := succeeds
  refine ⟨next, ran, deletes.trans (pass_tryWithout isField ran).deletes, ?_⟩
  rcases (tryWithout_cases ran).2 with ⟨taken, _⟩ | ⟨same, _⟩
  · rw [taken, entriesAt_withoutEntry, withoutEntry, Json.find?_assign_self]
  · rw [same]
    exact isObject

private theorem keys_succeed (answered : failing.Answered) {field : String}
    (isField : field ∈ setupFields) {keys : List Str} {reduced : Reduced}
    (deletes : Deletes failing.job reduced.job)
    (isObject : Json.find? reduced.job (str field) =
      some (.object (entriesAt reduced.job (str field)))) :
    ∃ next, keys.foldlM (tryWithout setting tool failing.paths
        failing.expectation failing.wanted field) reduced = .ok next ∧
      Deletes failing.job next.job := by
  induction keys generalizing reduced with
  | nil => exact ⟨reduced, rfl, deletes⟩
  | cons key keys induction =>
      obtain ⟨between, ran, after, still⟩ :=
        failing.tryWithout_succeeds answered isField deletes isObject
      obtain ⟨next, rest, done⟩ := induction after still
      refine ⟨next, ?_, done⟩
      rw [List.foldlM_cons]
      exact Outcome.bind_eq_ok.mpr ⟨between, ran, rest⟩

/-- A field of the setup is an object or missing, in every job that is left. -/
private theorem shaped_of_deletes (shaped : failing.Shaped) {job : Fields}
    (deletes : Deletes failing.job job) {field : String}
    (isField : field ∈ setupFields) :
    Json.find? job (str field) = none ∨
      Json.find? job (str field) = some (.object (entriesAt job (str field))) := by
  have shrunk := deletes.setup field isField
  have before := shaped field isField
  unfold entriesAt
  revert shrunk before
  generalize Json.find? failing.job (str field) = former
  generalize Json.find? job (str field) = now
  intro shrunk before
  cases shrunk with
  | kept =>
      cases former with
      | none => exact .inl rfl
      | some value =>
          obtain ⟨entries, rfl⟩ := before value rfl
          exact .inr rfl
  | deleted => exact .inr rfl

private theorem field_succeeds (answered : failing.Answered)
    (shaped : failing.Shaped) {field : String} (isField : field ∈ setupFields)
    {reduced : Reduced} (deletes : Deletes failing.job reduced.job) :
    ∃ next, minimizeField setting tool failing.paths failing.expectation
        failing.wanted reduced field = .ok next ∧
      Deletes failing.job next.job := by
  rcases failing.shaped_of_deletes shaped deletes isField with none | isObject
  · refine ⟨reduced, ?_, deletes⟩
    refine Outcome.bind_eq_ok.mpr ⟨[], ?_, rfl⟩
    rw [getOr, found?, none]
    rfl
  · have turns : ∃ next, ((entriesAt reduced.job (str field)).map (·.1)).foldlM
        (tryWithout setting tool failing.paths failing.expectation
          failing.wanted field) reduced = .ok next ∧
        Deletes failing.job next.job :=
      failing.keys_succeed answered isField deletes isObject
    obtain ⟨next, ran, done⟩ := turns
    refine ⟨next, ?_, done⟩
    refine Outcome.bind_eq_ok.mpr ⟨entriesAt reduced.job (str field), ?_, ran⟩
    rw [getOr, found?, isObject]
    rfl

private theorem fields_succeed (answered : failing.Answered)
    (shaped : failing.Shaped) {fields : List String}
    (members : ∀ field ∈ fields, field ∈ setupFields) {reduced : Reduced}
    (deletes : Deletes failing.job reduced.job) :
    ∃ next, fields.foldlM (minimizeField setting tool failing.paths
        failing.expectation failing.wanted) reduced = .ok next := by
  induction fields generalizing reduced with
  | nil => exact ⟨reduced, rfl⟩
  | cons field fields induction =>
      obtain ⟨isField, others⟩ := List.forall_mem_cons.mp members
      obtain ⟨between, ran, after⟩ :=
        failing.field_succeeds answered shaped isField deletes
      obtain ⟨next, rest⟩ := induction others after
      refine ⟨next, ?_⟩
      rw [List.foldlM_cons]
      exact Outcome.bind_eq_ok.mpr ⟨between, ran, rest⟩

theorem minimized_succeeds (answered : failing.Answered)
    (shaped : failing.Shaped) {id : Str}
    (isId : member failing.case "id" = .ok (.string id)) :
    ∃ result, minimized setting tool corpus minimize = .ok result := by
  have passed : ∃ reduced, setupFields.foldlM (minimizeField setting tool
      failing.paths failing.expectation failing.wanted) ⟨failing.job, []⟩ =
      .ok reduced :=
    failing.fields_succeed answered shaped (fun _ member => member)
      (Deletes.refl failing.job)
  obtain ⟨reduced, folded⟩ := passed
  have notEmpty : ¬ failing.first.isEmpty = true :=
    fun empty => failing.fails (List.isEmpty_iff.mp empty)
  refine ⟨[(str "id", .string (id ++ str "-minimized")),
    (str "job", .object reduced.job), (str "minimized_from", .string id),
    (str "minimized_removed", Explore.texts reduced.removed)].foldl
      Dictionary.assign failing.case, ?_⟩
  refine Outcome.bind_eq_ok.mpr ⟨_, failing.sourced, ?_⟩
  refine Outcome.bind_eq_ok.mpr ⟨_, failing.loaded, ?_⟩
  refine Outcome.bind_eq_ok.mpr ⟨_, failing.found, ?_⟩
  refine Outcome.bind_eq_ok.mpr ⟨_, failing.isJob, ?_⟩
  refine Outcome.bind_eq_ok.mpr ⟨_, rfl, ?_⟩
  refine Outcome.bind_eq_ok.mpr ⟨_, failing.expects, ?_⟩
  refine Outcome.bind_eq_ok.mpr ⟨_, failing.ran, ?_⟩
  refine (if_neg notEmpty).trans ?_
  refine Outcome.bind_eq_ok.mpr ⟨reduced, folded, ?_⟩
  refine Outcome.bind_eq_ok.mpr ⟨_, isId, ?_⟩
  exact Outcome.bind_eq_ok.mpr ⟨id, rfl, rfl⟩

/-- A minimization of a failing case succeeds when its setup consists of objects
and the engine answers, and whenever it succeeds its result still fails after
single deletions that were tried one after the other. -/
theorem minimized_reduces :
    (∀ result, minimized setting tool corpus minimize = .ok result →
      ∃ job, failing.Reduces result job) ∧
    (failing.Answered → failing.Shaped →
      (∃ id, member failing.case "id" = .ok (.string id)) →
      ∃ result, minimized setting tool corpus minimize = .ok result) := by
  refine ⟨fun _ => failing.reduces_of_minimized, ?_⟩
  rintro answered shaped ⟨id, isId⟩
  exact failing.minimized_succeeds answered shaped isId

end FailingCase

private def zeroSetting : Setting :=
  ⟨.ascii, .none, fun _ => .zero, fun _ _ => .zero⟩

private def registersOf (keys : List String) : Fields :=
  [(str "registers", .object (keys.map fun key => (str key, .int 1)))]

/-- An engine whose job only succeeds with `r4` as its only register. -/
private def lonely : Tool where
  world := ⟨id, fun _ => true, fun _ => 1, id, fun _ => []⟩
  engine := ⟨fun job _ => .ok (.object
      [(str "ok", .bool (decide (job = registersOf ["r4"])))]), .ok (str "3.8")⟩

private def pairCase : Fields :=
  [(str "schema", caseSchema), (str "id", .string (str "pair")),
    (str "inputs", .array []), (str "job", .object (registersOf ["r3", "r4"])),
    (str "expectation", .object [(str "ok", .bool true)])]

private def pairCorpus : CaseStore :=
  ⟨str "/corpus", none,
    ⟨[(str "pair.json", .json (.object pairCase))], by decide⟩⟩

private def pairMinimize : Minimize :=
  ⟨str "pair", ⟨[], []⟩, .elsewhere⟩

private def pairJob : Fields :=
  registersOf ["r3", "r4"]

private def pairFailing :
    FailingCase zeroSetting lonely pairCorpus pairMinimize where
  sources := ⟨[], []⟩
  case := pairCase
  paths := []
  job := pairJob
  expectation := .object [(str "ok", .bool true)]
  first := [⟨str "$.ok", .bool true, .bool false⟩]
  sourced := rfl
  loaded := by decide +kernel
  found := by decide +kernel
  isJob := by decide +kernel
  expects := by decide +kernel
  ran := by decide +kernel
  fails := List.cons_ne_nil _ _

private theorem pair_answered : pairFailing.Answered := by
  intro job _
  cases same : decide (job = registersOf ["r4"]) with
  | true =>
      refine ⟨[], Outcome.bind_eq_ok.mpr ⟨[(str "ok", .bool true)], ?_, rfl⟩⟩
      rw [← same]
      rfl
  | false =>
      refine ⟨pairFailing.first,
        Outcome.bind_eq_ok.mpr ⟨[(str "ok", .bool false)], ?_, rfl⟩⟩
      rw [← same]
      rfl

private theorem pair_shaped : pairFailing.Shaped := by
  have fields : setupFields.all (fun field =>
      Json.find? pairFailing.job (str field) = none ∨
        Json.find? pairFailing.job (str field) =
          some (.object (entriesAt pairFailing.job (str field)))) = true := by
    decide +kernel
  intro field isField value there
  rcases of_decide_eq_true (List.all_eq_true.mp fields field isField) with
    none | isObject
  · cases none.symm.trans there
  · cases isObject.symm.trans there
    exact ⟨_, rfl⟩

/-- The setup of this case has one field, which is an object. -/
theorem minimized_reduces_pair :
    ∃ result, minimized zeroSetting lonely pairCorpus pairMinimize =
      .ok result :=
  pairFailing.minimized_reduces.2 pair_answered pair_shaped
    ⟨str "pair", by decide +kernel⟩

private theorem pair_minimized :
    (minimized zeroSetting lonely pairCorpus pairMinimize).toOption.bind
      (Json.find? · (str "job")) = some (.object (registersOf ["r3"])) := by
  decide +kernel

private theorem pair_without_left :
    (mismatches zeroSetting lonely [] (.object [(str "ok", .bool true)])
      (withoutEntry (registersOf ["r3"]) (str "registers") (str "r3"))).toOption =
      some [⟨str "$.ok", .bool true, .bool false⟩] := by
  decide +kernel

/-- Without `r3` the job succeeds, so that it stays; without `r4` the job fails,
and then it fails without `r3`, too. -/
theorem minimized_not_minimal :
    ∃ (failing : FailingCase zeroSetting lonely pairCorpus pairMinimize)
      (result job : Fields),
      minimized zeroSetting lonely pairCorpus pairMinimize = .ok result ∧
      Json.find? result (str "job") = some (.object job) ∧
      ¬ failing.LocallyMinimal job := by
  have ran := pair_minimized
  cases made : minimized zeroSetting lonely pairCorpus pairMinimize with
  | error problem =>
      rw [made] at ran
      cases ran
  | ok result =>
      rw [made] at ran
      refine ⟨pairFailing, result, registersOf ["r3"], rfl, ran, ?_⟩
      intro minimal
      have held : (str "r3", Json.int 1) ∈
          entriesAt (registersOf ["r3"]) (str "registers") := by
        decide +kernel
      obtain ⟨found, shown, passes⟩ :=
        minimal "registers" (by decide) _ held
      have same : mismatches zeroSetting lonely []
          (.object [(str "ok", .bool true)]) (withoutEntry (registersOf ["r3"])
            (str "registers") (str "r3")) = .ok found := shown
      have first := pair_without_left
      rw [same] at first
      cases first
      exact passes ⟨_, List.mem_cons_self, List.mem_cons_self⟩

end PpcLab.Corpus
