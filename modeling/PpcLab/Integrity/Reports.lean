import PpcLab.Integrity.Checkers

/-!
# Checkers that report

A checker is to return its errors or to raise what its command handles,
whatever is in the file, and it is not to accept a file that is malformed.  It
does so unless a value of a manifest is not of the kind that is taken for
granted where it is used.
-/

namespace PpcLab.Integrity

open Backup (hasDigest hasSize isPermitted isUnhashable membersErrors place?)
open Explore (sortedSet)
open Json (asObject? asString? find? get)
open Outcome (FoldRaisesOnly LoopRaisesOnly RaisesOnly raisesOnly_bind
  raisesOnly_error raisesOnly_foldlM raisesOnly_map raisesOnly_mapM
  raisesOnly_ok)
open Trees (Tree)

/-- What a checker is to do. -/
structure Reports {α : Type} (allowed : Exception → Prop) (malformed : Prop)
    (accepts : α → Prop) (result : Except Exception α) : Prop where
  raises : RaisesOnly allowed result
  refuses : malformed → ∀ value, result = .ok value → ¬accepts value

/-- An entry of a manifest has its fields. -/
structure WellTyped (entry : Fields) : Prop where
  path : ∃ text, pathOf entry = .string text
  size : ∃ size, get entry (str "size") = .int size
  digest : ∃ text, get entry (str "sha256") = .string text

/-- The entries of a manifest, as far as it has any. -/
def manifestEntries (manifest : Fields) : List Fields :=
  entriesOf ((filesOf manifest).toOption.getD [])

/-- The files of a manifest, where it names any, are listed as dictionaries. -/
def ListsEntries (manifest : Fields) : Prop :=
  ∀ value, find? manifest (str "files") = some value →
    ∃ items, value = .array items ∧ ∀ item ∈ items,
      ∃ entry, item = .object entry

inductive Malformed (parse : List Byte → Except Exception Json)
    (manifestName : Str) : Archive → Prop where
  | noArchive (exception : Exception) :
      Malformed parse manifestName (.error exception)
  | unreadable (members : List Member) (member : Member)
      (listed : member ∈ members) (exception : Exception)
      (fails : member.content = .error exception) :
      Malformed parse manifestName (.ok members)
  | noManifest (members : List Member)
      (noObject : ∀ manifest, (do
        let bytes ← readMember members manifestName
        let value ← parse bytes
        asDict value) ≠ .ok manifest) :
      Malformed parse manifestName (.ok members)
  | files (members : List Member) (manifest : Fields)
      (read : (do
        let bytes ← readMember members manifestName
        let value ← parse bytes
        asDict value) = .ok manifest)
      (lacks : ¬ListsEntries manifest) :
      Malformed parse manifestName (.ok members)
  | entry (members : List Member) (manifest entry : Fields)
      (read : (do
        let bytes ← readMember members manifestName
        let value ← parse bytes
        asDict value) = .ok manifest)
      (listed : entry ∈ manifestEntries manifest)
      (lacks : ¬WellTyped entry) :
      Malformed parse manifestName (.ok members)

/-- Every member can be read, and every entry has its fields. -/
structure Tidy (members : List Member) (manifest : Fields) : Prop where
  members : ∀ member ∈ members, ∃ bytes, member.content = .ok bytes
  files : ListsEntries manifest
  entries : ∀ entry ∈ manifestEntries manifest, WellTyped entry

theorem malformed_iff_not_tidy {parse : List Byte → Except Exception Json}
    {manifestName : Str} {members : List Member} {manifest : Fields}
    (read : (do
      let bytes ← readMember members manifestName
      let value ← parse bytes
      asDict value) = .ok manifest) :
    Malformed parse manifestName (.ok members) ↔ ¬Tidy members manifest := by
  constructor
  · intro malformed tidy
    cases malformed with
    | unreadable _ member listed exception fails =>
        obtain ⟨bytes, readable⟩ := tidy.members member listed
        rw [fails] at readable
        cases readable
    | noManifest _ noObject => exact noObject manifest read
    | files _ other otherRead lacks =>
        rw [read] at otherRead
        cases otherRead
        exact lacks tidy.files
    | entry _ other entry otherRead listed lacks =>
        rw [read] at otherRead
        cases otherRead
        exact lacks (tidy.entries entry listed)
  · intro untidy
    by_contra fine
    apply untidy
    constructor
    · intro member listed
      cases content : member.content with
      | ok bytes => exact ⟨bytes, rfl⟩
      | error exception =>
          exact absurd (.unreadable members member listed exception content)
            fine
    · by_contra lacks
      exact fine (.files members manifest read lacks)
    · intro entry listed
      by_contra lacks
      exact fine (.entry members manifest entry read listed lacks)

section Shapes

variable {allowed : Exception → Prop}

theorem raisesOnly_asDict (strict : ∀ text, ¬allowed (.other text))
    {value : Json} : RaisesOnly allowed (asDict value) ↔
      ∃ fields, value = .object fields := by
  constructor
  · intro raises
    cases value with
    | object fields => exact ⟨fields, rfl⟩
    | _ => exact absurd (raises _ rfl) (strict _)
  · rintro ⟨fields, rfl⟩
    exact raisesOnly_ok fields

theorem raisesOnly_filesOf (strict : ∀ text, ¬allowed (.other text))
    {manifest : Fields} : RaisesOnly allowed (filesOf manifest) ↔
      ∃ items, filesOf manifest = .ok items := by
  unfold filesOf
  constructor
  · intro raises
    split at raises
    · exact ⟨[], rfl⟩
    · exact ⟨[], rfl⟩
    · exact ⟨[], rfl⟩
    · exact ⟨_, rfl⟩
    · exact absurd (raises _ rfl) (strict _)
  · rintro ⟨items, same⟩
    rw [same]
    exact raisesOnly_ok items

theorem manifestEntries_of_filesOf {manifest : Fields} {items : List Json}
    (read : filesOf manifest = .ok items) :
    manifestEntries manifest = entriesOf items := by
  unfold manifestEntries
  rw [read]
  rfl

theorem not_unhashable_of_isText {value : Json} (text : isText value) :
    isUnhashable value = false := by
  cases value with
  | string text => rfl
  | _ => cases text

theorem table_of_texts {entries : List Fields} (failure : Exception)
    (texts : ∀ entry ∈ entries, isText (pathOf entry)) :
    table failure entries = .ok (tableOf entries) := by
  unfold table
  have hashable : ¬(entries.any fun entry =>
      isUnhashable (pathOf entry)) = true := by
    rw [List.any_eq_true]
    rintro ⟨entry, listed, unhashable⟩
    rw [not_unhashable_of_isText (texts entry listed)] at unhashable
    cases unhashable
  rw [if_neg hashable, if_pos (List.all_eq_true.mpr texts)]

theorem table_eq_ok_iff {entries : List Fields} {failure : Exception}
    {result : List (Str × Fields)} :
    table failure entries = .ok result ↔
      (∀ entry ∈ entries, isText (pathOf entry)) ∧
        result = tableOf entries := by
  constructor
  · intro read
    have texts : ∀ entry ∈ entries, isText (pathOf entry) := by
      unfold table at read
      split at read
      · cases read
      · split at read
        · rename_i all
          exact List.all_eq_true.mp all
        · cases read
    rw [table_of_texts failure texts] at read
    cases read
    exact ⟨texts, rfl⟩
  · rintro ⟨texts, rfl⟩
    exact table_of_texts failure texts

/-- Where a path that is no text is an exception that nobody handles. -/
theorem raisesOnly_table (strict : ∀ text, ¬allowed (.other text))
    {entries : List Fields} {text : Str} :
    RaisesOnly allowed (table (.other text) entries) ↔
      ∀ entry ∈ entries, isText (pathOf entry) := by
  constructor
  · intro raises
    unfold table at raises
    split at raises
    · exact absurd (raises _ rfl) (strict _)
    · split at raises
      · rename_i all
        exact List.all_eq_true.mp all
      · exact absurd (raises _ rfl) (strict _)
  · intro texts
    rw [table_of_texts _ texts]
    exact raisesOnly_ok _

/-- Where a path that is no text is an error of the tool. -/
theorem raisesOnly_table_own (strict : ∀ text, ¬allowed (.other text))
    (mild : ∀ text, allowed (.own text)) {entries : List Fields} {text : Str} :
    RaisesOnly allowed (table (.own text) entries) ↔
      ∀ entry ∈ entries, isUnhashable (pathOf entry) = false := by
  unfold table
  by_cases found : (entries.any fun entry =>
      isUnhashable (pathOf entry)) = true
  · rw [if_pos found, raisesOnly_error]
    constructor
    · intro fine
      exact absurd fine (strict _)
    · intro none
      obtain ⟨entry, listed, unhashable⟩ := List.any_eq_true.mp found
      rw [none entry listed] at unhashable
      cases unhashable
  · rw [if_neg found]
    constructor
    · intro _ entry listed
      rw [← Bool.not_eq_true]
      intro unhashable
      exact found (List.any_eq_true.mpr ⟨entry, listed, unhashable⟩)
    · intro _
      split
      · exact raisesOnly_ok _
      · exact raisesOnly_error.mpr (mild _)

/-- A manifest can be read, or is refused with what is allowed. -/
structure Opens (allowed : Exception → Prop)
    (parse : List Byte → Except Exception Json) (name : Str)
    (members : List Member) : Prop where
  read : RaisesOnly allowed (readMember members name)
  parsed : ∀ bytes, readMember members name = .ok bytes →
    RaisesOnly allowed (parse bytes)
  object : ∀ bytes value, readMember members name = .ok bytes →
    parse bytes = .ok value → ∃ fields, value = .object fields

theorem raisesOnly_readManifest (strict : ∀ text, ¬allowed (.other text))
    {world : World} {name : Str} {members : List Member} :
    RaisesOnly allowed (readManifest world name members) ↔
      Opens allowed world.decode name members := by
  unfold readManifest
  rw [raisesOnly_bind]
  constructor
  · rintro ⟨read, rest⟩
    refine ⟨read, ?_, ?_⟩
    · intro bytes isRead
      exact (raisesOnly_bind.mp (rest bytes isRead)).1
    · intro bytes value isRead isValue
      exact (raisesOnly_asDict strict).mp
        ((raisesOnly_bind.mp (rest bytes isRead)).2 value isValue)
  · intro opens
    refine ⟨opens.read, ?_⟩
    intro bytes isRead
    refine raisesOnly_bind.mpr ⟨opens.parsed bytes isRead, ?_⟩
    intro value isValue
    exact (raisesOnly_asDict strict).mpr
      (opens.object bytes value isRead isValue)

theorem mem_names_of_read {members : List Member} {name : Str}
    {bytes : List Byte} (read : readMember members name = .ok bytes) :
    name ∈ names members := by
  unfold readMember at read
  split at read
  · rename_i member found
    have same : member.filename = name := by
      simpa using List.find?_some found
    rw [← same]
    exact List.mem_map_of_mem
      (List.mem_reverse.mp (List.mem_of_find?_eq_some found))
  · cases read

/-- Loops of which the steps succeed and fail alike. -/
theorem loop_congr {α β γ : Type} {first : α → Except Exception β}
    {second : α → Except Exception γ} {items : List α}
    (succeed : ∀ item, (∃ result, first item = .ok result) ↔
      ∃ result, second item = .ok result)
    (raise : ∀ item, RaisesOnly allowed (first item) ↔
      RaisesOnly allowed (second item)) :
    LoopRaisesOnly allowed first items ↔
      LoopRaisesOnly allowed second items := by
  unfold LoopRaisesOnly
  simp only [succeed, raise]

end Shapes

/-- What the handler of the verifier turns into the error of the tool, or is
that error. -/
def Manageable (exception : Exception) : Prop :=
  exception.isOther = false

def Handled (exception : Exception) : Prop :=
  exception.handledByCommand = true

theorem manageable_strict (text : Str) : ¬Manageable (.other text) :=
  Bool.true_eq_false_eq_False

theorem manageable_own (text : Str) : Manageable (.own text) := rfl

theorem handled_strict (text : Str) : ¬Handled (.other text) :=
  Bool.false_ne_true

section Backups

variable {world : World} {order : List Str → List Str} {extract : Bool}
  {archive : Archive} {members : List Member} {manifest : Fields}

/-- The members that are compared with their entries. -/
def comparedNames (members : List Member) (manifest : Fields) : List Str :=
  sortedSet ((memberSet backupName members).filter
    (· ∈ (tableOf (manifestEntries manifest)).map Prod.fst))

def policyOf (manifest : Fields) : Json :=
  (find? manifest (str "policy")).getD (.object [])

/-- Nothing but what the verifier expects is met while members are compared
with their entries. -/
structure Compares (members : List Member) (manifest : Fields) : Prop where
  files : ∃ items, filesOf manifest = .ok items
  paths : ∀ entry ∈ manifestEntries manifest, isText (pathOf entry)
  reads : LoopRaisesOnly Manageable (readMember members)
    (comparedNames members manifest)
  policy : (∀ name ∈ comparedNames members manifest,
      ∃ bytes, readMember members name = .ok bytes) →
    ∃ policy, policyOf manifest = .object policy

/-- What is compared agrees. -/
structure Agrees (world : World) (members : List Member) (manifest : Fields) :
    Prop where
  schema : get manifest (str "schema") = .string (str "ppc-lab-backup-v1")
  sameMembers : membersErrors (memberSet backupName members)
    ((tableOf (manifestEntries manifest)).map Prod.fst) = []
  contents : ∀ name ∈ comparedNames members manifest, ∃ bytes,
    readMember members name = .ok bytes ∧
      backupContentErrors world.doubles
        (((tableOf (manifestEntries manifest)).lookup name).getD []) name
        bytes = []
  policy : ∃ policy, policyOf manifest = .object policy ∧ declaresPolicy policy

theorem raisesOnly_checkContent {allowed : Exception → Prop}
    {entries : List (Str × Fields)} {name : Str} :
    RaisesOnly allowed (checkContent world members entries name) ↔
      RaisesOnly allowed (readMember members name) := by
  unfold checkContent
  rw [raisesOnly_bind]
  exact ⟨fun both => both.1, fun read => ⟨read, fun _ _ => raisesOnly_ok _⟩⟩

theorem checkContent_eq_ok_iff {entries : List (Str × Fields)} {name : Str}
    {errors : List Str} :
    checkContent world members entries name = .ok errors ↔
      ∃ bytes, readMember members name = .ok bytes ∧
        backupContentErrors world.doubles ((entries.lookup name).getD []) name
          bytes = errors := by
  unfold checkContent
  rw [Outcome.bind_eq_ok]
  constructor
  · rintro ⟨bytes, read, same⟩
    exact ⟨bytes, read, Except.ok.inj same⟩
  · rintro ⟨bytes, read, rfl⟩
    exact ⟨bytes, read, rfl⟩

theorem checkContent_isOk_iff {entries : List (Str × Fields)} {name : Str} :
    (∃ errors, checkContent world members entries name = .ok errors) ↔
      ∃ bytes, readMember members name = .ok bytes := by
  simp only [checkContent_eq_ok_iff]
  constructor
  · rintro ⟨errors, bytes, read, -⟩
    exact ⟨bytes, read⟩
  · rintro ⟨bytes, read⟩
    exact ⟨_, bytes, read, rfl⟩

theorem raisesOnly_policyErrors :
    RaisesOnly Manageable (policyErrors manifest) ↔
      ∃ policy, policyOf manifest = .object policy := by
  unfold policyErrors
  rw [raisesOnly_bind, raisesOnly_asDict manageable_strict]
  exact ⟨fun both => both.1, fun object => ⟨object, fun _ _ => raisesOnly_ok _⟩⟩

theorem policyErrors_eq_nil_iff :
    policyErrors manifest = .ok [] ↔
      ∃ policy, policyOf manifest = .object policy ∧ declaresPolicy policy := by
  unfold policyErrors policyOf
  cases (find? manifest (str "policy")).getD (.object []) with
  | object policy =>
      cases declares : declaresPolicy policy with
      | true => simp [asDict, declares, bind, Except.bind, pure, Except.pure]
      | false => simp [asDict, declares, bind, Except.bind, pure, Except.pure]
  | _ => simp [asDict, bind, Except.bind]

/-- Every step of a loop succeeds exactly if the loop does. -/
theorem mapM_isOk_iff {α β : Type} {step : α → Except Exception β}
    {items : List α} : (∃ results, items.mapM step = .ok results) ↔
      ∀ item ∈ items, ∃ result, step item = .ok result := by
  constructor
  · rintro ⟨results, ran⟩
    exact Outcome.ok_of_mapM ran
  · intro each
    have twice : ∀ item ∈ items, ∃ result, step item = .ok result ∧
        step item = .ok result := by
      intro item listed
      obtain ⟨result, stepped⟩ := each item listed
      exact ⟨result, stepped, stepped⟩
    obtain ⟨results, ran, -⟩ := Outcome.mapM_forall₂ twice
    exact ⟨results, ran⟩

theorem raisesOnly_compareManifest :
    RaisesOnly Manageable (compareManifest world members manifest) ↔
      Compares members manifest := by
  unfold compareManifest
  rw [raisesOnly_bind, raisesOnly_filesOf manageable_strict]
  have loop {items : List Json} (read : filesOf manifest = .ok items) :
      RaisesOnly Manageable ((sortedSet ((memberSet backupName members).filter
        (· ∈ (tableOf (entriesOf items)).map Prod.fst))).mapM
          (checkContent world members (tableOf (entriesOf items)))) ↔
        LoopRaisesOnly Manageable (readMember members)
          (comparedNames members manifest) := by
    rw [raisesOnly_mapM, comparedNames, manifestEntries_of_filesOf read]
    exact loop_congr (fun _ => checkContent_isOk_iff)
      (fun _ => raisesOnly_checkContent)
  have done {items : List Json} (read : filesOf manifest = .ok items) :
      (∃ contents, (sortedSet ((memberSet backupName members).filter
        (· ∈ (tableOf (entriesOf items)).map Prod.fst))).mapM
          (checkContent world members (tableOf (entriesOf items))) =
            .ok contents) ↔
        ∀ name ∈ comparedNames members manifest,
          ∃ bytes, readMember members name = .ok bytes := by
    rw [mapM_isOk_iff, comparedNames, manifestEntries_of_filesOf read]
    simp only [checkContent_isOk_iff]
  constructor
  · rintro ⟨⟨items, read⟩, rest⟩
    have calm := rest items read
    rw [raisesOnly_bind] at calm
    have texts := (raisesOnly_table manageable_strict).mp calm.1
    have calm := calm.2 _ (table_of_texts _ texts)
    rw [raisesOnly_bind] at calm
    refine ⟨⟨items, read⟩, ?_, (loop read).mp calm.1, ?_⟩
    · rw [manifestEntries_of_filesOf read]
      exact texts
    · intro readable
      obtain ⟨contents, ran⟩ := (done read).mpr readable
      have calm := calm.2 contents ran
      rw [raisesOnly_bind] at calm
      exact raisesOnly_policyErrors.mp calm.1
  · intro compares
    refine ⟨compares.files, ?_⟩
    intro items read
    rw [raisesOnly_bind]
    have texts := compares.paths
    rw [manifestEntries_of_filesOf read] at texts
    refine ⟨(raisesOnly_table manageable_strict).mpr texts, ?_⟩
    intro entries isTable
    obtain ⟨-, rfl⟩ := table_eq_ok_iff.mp isTable
    rw [raisesOnly_bind]
    refine ⟨(loop read).mpr compares.reads, ?_⟩
    intro contents ran
    rw [raisesOnly_bind]
    refine ⟨raisesOnly_policyErrors.mpr
      (compares.policy ((done read).mp ⟨contents, ran⟩)), ?_⟩
    intro policy _
    exact raisesOnly_ok _

/-- What is found where everything agrees. -/
def agreed (members : List Member) (manifest : Fields) : Compared :=
  ⟨members, manifest, tableOf (manifestEntries manifest), []⟩

theorem compareManifest_of_agrees (files : ∃ items,
      filesOf manifest = .ok items)
    (paths : ∀ entry ∈ manifestEntries manifest, isText (pathOf entry))
    (agrees : Agrees world members manifest) :
    compareManifest world members manifest = .ok (agreed members manifest) := by
  obtain ⟨items, read⟩ := files
  have schema : backupSchemaErrors manifest = [] := if_pos agrees.schema
  have policy := policyErrors_eq_nil_iff.mpr agrees.policy
  have same := agrees.sameMembers
  have contents := agrees.contents
  unfold comparedNames at contents
  unfold agreed
  rw [manifestEntries_of_filesOf read] at paths same contents ⊢
  have each : ∀ name ∈ sortedSet ((memberSet backupName members).filter
      (· ∈ (tableOf (entriesOf items)).map Prod.fst)),
      checkContent world members (tableOf (entriesOf items)) name = .ok [] := by
    intro name listed
    exact checkContent_eq_ok_iff.mpr (contents name listed)
  have ran := Outcome.mapM_eq_ok each
  unfold compareManifest
  rw [read]
  change (do
    let entries ← table noText (entriesOf items)
    let contents ← (sortedSet ((memberSet backupName members).filter
      (· ∈ entries.map Prod.fst))).mapM (checkContent world members entries)
    let policy ← policyErrors manifest
    return (⟨members, manifest, entries, backupSchemaErrors manifest ++
      membersErrors (memberSet backupName members) (entries.map Prod.fst) ++
        contents.flatten ++ policy⟩ : Compared)) = _
  rw [table_of_texts _ paths]
  change (do
    let contents ← (sortedSet ((memberSet backupName members).filter
      (· ∈ (tableOf (entriesOf items)).map Prod.fst))).mapM
        (checkContent world members (tableOf (entriesOf items)))
    let policy ← policyErrors manifest
    return (⟨members, manifest, tableOf (entriesOf items),
      backupSchemaErrors manifest ++ membersErrors
        (memberSet backupName members)
        ((tableOf (entriesOf items)).map Prod.fst) ++ contents.flatten ++
          policy⟩ : Compared)) = _
  rw [ran, policy, schema, same]
  have empty : ((sortedSet ((memberSet backupName members).filter
      (· ∈ (tableOf (entriesOf items)).map Prod.fst))).map
        fun _ => ([] : List Str)).flatten = [] := by
    simp
  change Except.ok (Compared.mk members manifest (tableOf (entriesOf items))
    ([] ++ [] ++ (List.map (fun _ => []) _).flatten ++ [])) = _
  rw [empty]
  rfl

theorem agrees_of_compareManifest {compared : Compared}
    (ran : compareManifest world members manifest = .ok compared)
    (clean : compared.errors = []) :
    (∃ items, filesOf manifest = .ok items) ∧
      (∀ entry ∈ manifestEntries manifest, isText (pathOf entry)) ∧
      Agrees world members manifest := by
  unfold compareManifest at ran
  obtain ⟨items, read, ran⟩ := Outcome.bind_eq_ok.mp ran
  obtain ⟨entries, isTable, ran⟩ := Outcome.bind_eq_ok.mp ran
  obtain ⟨contents, checked, ran⟩ := Outcome.bind_eq_ok.mp ran
  obtain ⟨policy, isPolicy, ran⟩ := Outcome.bind_eq_ok.mp ran
  obtain ⟨texts, rfl⟩ := table_eq_ok_iff.mp isTable
  cases ran
  obtain ⟨clean, noPolicy⟩ := List.append_eq_nil_iff.mp clean
  obtain ⟨clean, noContents⟩ := List.append_eq_nil_iff.mp clean
  obtain ⟨noSchema, same⟩ := List.append_eq_nil_iff.mp clean
  rw [← manifestEntries_of_filesOf read] at texts same checked
  refine ⟨⟨items, read⟩, texts, ?_, same, ?_, ?_⟩
  · by_contra differs
    rw [backupSchemaErrors, if_neg differs] at noSchema
    cases noSchema
  · intro name listed
    obtain ⟨errors, inside, stepped⟩ :=
      Outcome.exists_mem_of_mapM checked name listed
    rw [List.flatten_eq_nil_iff.mp noContents errors inside] at stepped
    exact checkContent_eq_ok_iff.mp stepped
  · rw [noPolicy] at isPolicy
    exact policyErrors_eq_nil_iff.mp isPolicy

/-- The mode of an entry is a text that stands for permissions. -/
structure ModeFine (world : World) (entry : Fields) : Prop where
  text : ∃ text, (find? entry (str "mode")).getD (.string (str "0644")) =
    .string text
  octal : RaisesOnly Manageable (modeOf world entry)
  permissions : ∀ mode, modeOf world entry = .ok mode →
    RaisesOnly Manageable (world.chmod mode)

theorem raisesOnly_mode {entry : Fields} :
    RaisesOnly Manageable (modeOf world entry) ∧
      (∀ mode, modeOf world entry = .ok mode →
        RaisesOnly Manageable (world.chmod mode)) ↔ ModeFine world entry := by
  constructor
  · rintro ⟨octal, permissions⟩
    refine ⟨?_, octal, permissions⟩
    unfold modeOf at octal
    split at octal
    · rename_i text same
      exact ⟨text, same⟩
    · exact absurd (octal _ rfl) (manageable_strict _)
  · intro fine
    exact ⟨fine.octal, fine.permissions⟩

/-- A member is extracted, or fails with what is handled. -/
structure ExtractsMember (world : World) (members : List Member)
    (manifest : Fields) (tree : Tree) (name : Str) : Prop where
  read : RaisesOnly Manageable (readMember members name)
  mode : ∀ bytes path, readMember members name = .ok bytes →
    place? name = some path →
    (Tree.rewrite world.overrides Release.newFileMode tree
      ⟨path, bytes, none⟩).isSome →
    ModeFine world
      (((tableOf (manifestEntries manifest)).lookup name).getD [])

theorem raisesOnly_extractMember {tree : Tree} {name : Str} :
    RaisesOnly Manageable (extractMember world members
      (tableOf (manifestEntries manifest)) tree name) ↔
      ExtractsMember world members manifest tree name := by
  unfold extractMember
  rw [raisesOnly_bind]
  constructor
  · rintro ⟨read, rest⟩
    refine ⟨read, ?_⟩
    intro bytes path isRead placed written
    have calm := rest bytes isRead
    rw [placed] at calm
    dsimp only at calm
    rw [if_neg (by rw [Option.isNone_iff_eq_none]; exact
      Option.isSome_iff_ne_none.mp written)] at calm
    have calm := raisesOnly_bind.mp calm
    exact raisesOnly_mode.mp ⟨calm.1, fun mode isMode =>
      (raisesOnly_bind.mp (calm.2 mode isMode)).1⟩
  · intro extracts
    refine ⟨extracts.read, ?_⟩
    intro bytes isRead
    cases placed : place? name with
    | none => exact raisesOnly_error.mpr rfl
    | some path =>
        dsimp only
        split
        · exact raisesOnly_error.mpr rfl
        · rename_i written
          have fine := extracts.mode bytes path isRead placed
            (Option.isSome_iff_ne_none.mpr fun none =>
              written (Option.isNone_iff_eq_none.mpr none))
          refine raisesOnly_bind.mpr ⟨fine.octal, ?_⟩
          intro mode isMode
          refine raisesOnly_bind.mpr ⟨fine.permissions mode isMode, ?_⟩
          intro permissions _
          split
          · exact raisesOnly_ok _
          · exact raisesOnly_error.mpr rfl

def extracted (world : World) (order : List Str → List Str)
    (members : List Member) (manifest : Fields) : Except Exception Tree :=
  extractBackup world order (agreed members manifest)

def controlFile (tree : Tree) : Option Trees.File :=
  (place? (str "state/control/control.json")).bind tree.fileAt

/-- The control state that was extracted is an object, if it is JSON. -/
structure ControlFine (world : World) (tree : Tree) : Prop where
  read : ∀ file ∈ controlFile tree,
    RaisesOnly Handled (world.decode file.bytes)
  object : ∀ file ∈ controlFile tree, ∀ value,
    world.decode file.bytes = .ok value → ∃ fields, value = .object fields

theorem raisesOnly_controlErrors {tree : Tree} :
    RaisesOnly Handled (controlErrors world tree) ↔ ControlFine world tree := by
  have shown : (place? (str "state/control/control.json")).bind tree.fileAt =
      controlFile tree := rfl
  unfold controlErrors
  rw [shown]
  cases found : controlFile tree with
  | none =>
      constructor
      · intro _
        constructor
        · intro file there
          rw [found] at there
          cases there
        · intro file there
          rw [found] at there
          cases there
      · intro _
        exact raisesOnly_ok _
  | some file =>
      dsimp only
      cases parsed : world.decode file.bytes with
      | error exception =>
          constructor
          · intro raises
            constructor
            · intro other there
              rw [found] at there
              cases there
              rw [parsed, raisesOnly_error]
              cases exception with
              | os text => rfl
              | json text => rfl
              | _ => exact raises _ rfl
            · intro other there value isValue
              rw [found] at there
              cases there
              rw [parsed] at isValue
              cases isValue
          · intro fine
            have calm := fine.read file found
            rw [parsed, raisesOnly_error] at calm
            cases exception with
            | os text => exact raisesOnly_ok _
            | json text => exact raisesOnly_ok _
            | _ => exact raisesOnly_error.mpr calm
      | ok value =>
          dsimp only
          rw [raisesOnly_bind, raisesOnly_asDict handled_strict]
          constructor
          · intro calm
            constructor
            · intro other there
              rw [found] at there
              cases there
              rw [parsed]
              exact raisesOnly_ok value
            · intro other there other isOther
              rw [found] at there
              cases there
              rw [parsed] at isOther
              cases isOther
              exact calm.1
          · intro fine
            refine ⟨fine.object file found value parsed, ?_⟩
            intro fields _
            exact raisesOnly_ok _

theorem raisesOnly_caught {α : Type} {context : Str}
    {outcome : Except Exception α} :
    RaisesOnly Handled (caught Exception.caughtByBackup context outcome) ↔
      RaisesOnly Manageable outcome := by
  cases outcome with
  | ok value => exact ⟨fun _ => raisesOnly_ok _, fun _ => raisesOnly_ok _⟩
  | error exception =>
      unfold caught
      rw [raisesOnly_error]
      cases exception <;>
        simp [Exception.caughtByBackup, raisesOnly_error, Handled,
          Exception.handledByCommand, Manageable, Exception.isOther]

theorem caught_eq_ok {α : Type} {catches : Exception → Bool} {context : Str}
    {outcome : Except Exception α} {value : α} :
    caught catches context outcome = .ok value ↔ outcome = .ok value := by
  cases outcome with
  | ok other => exact Iff.rfl
  | error exception =>
      unfold caught
      dsimp only
      split
      · simp
      · simp

theorem raisesOnly_checkBackupNames :
    RaisesOnly Manageable (checkBackupNames members) := by
  unfold checkBackupNames
  split
  · exact raisesOnly_error.mpr rfl
  · rw [raisesOnly_map, raisesOnly_mapM]
    intro before member after _ _
    unfold checkBackupMember
    split
    · exact raisesOnly_error.mpr rfl
    · split
      · exact raisesOnly_error.mpr rfl
      · split
        · exact raisesOnly_error.mpr rfl
        · exact raisesOnly_ok ()

/-- An archive has members with names that are accepted, and a manifest. -/
structure BackupOf (world : World) (archive : Archive) (members : List Member)
    (manifest : Fields) : Prop where
  opened : archive = .ok members
  checked : checkBackupNames members = .ok ()
  manifest : readManifest world backupName members = .ok manifest

theorem compareBackup_eq_ok {compared : Compared} :
    compareBackup world archive = .ok compared ↔ ∃ members manifest,
      BackupOf world archive members manifest ∧
        compareManifest world members manifest = .ok compared := by
  unfold compareBackup
  simp only [Outcome.bind_eq_ok]
  constructor
  · rintro ⟨members, opened, _, checked, manifest, read, ran⟩
    exact ⟨members, manifest, ⟨opened, checked, read⟩, ran⟩
  · rintro ⟨members, manifest, backup, ran⟩
    exact ⟨members, backup.opened, (), backup.checked, manifest, backup.manifest,
      ran⟩

theorem raisesOnly_compareBackup :
    RaisesOnly Manageable (compareBackup world archive) ↔
      RaisesOnly Manageable archive ∧
        (∀ members, archive = .ok members → checkBackupNames members = .ok () →
          Opens Manageable world.decode backupName members) ∧
        ∀ members manifest, BackupOf world archive members manifest →
          Compares members manifest := by
  unfold compareBackup
  rw [raisesOnly_bind]
  constructor
  · rintro ⟨opened, rest⟩
    have later (members : List Member) (isOpen : archive = .ok members)
        (names : checkBackupNames members = .ok ()) :=
      raisesOnly_bind.mp ((raisesOnly_bind.mp (rest members isOpen)).2 () names)
    refine ⟨opened, ?_, ?_⟩
    · intro members isOpen names
      exact (raisesOnly_readManifest manageable_strict).mp
        (later members isOpen names).1
    · intro members manifest backup
      exact raisesOnly_compareManifest.mp
        ((later members backup.opened backup.checked).2 manifest
          backup.manifest)
  · rintro ⟨opened, opens, compares⟩
    refine ⟨opened, ?_⟩
    intro members isOpen
    refine raisesOnly_bind.mpr ⟨raisesOnly_checkBackupNames, ?_⟩
    intro _ names
    refine raisesOnly_bind.mpr ⟨(raisesOnly_readManifest manageable_strict).mpr
      (opens members isOpen names), ?_⟩
    intro manifest read
    exact raisesOnly_compareManifest.mpr
      (compares members manifest ⟨isOpen, names, read⟩)

/-- Everything that is compared is of the right kind, and agrees. -/
structure BackupAgrees (world : World) (archive : Archive)
    (members : List Member) (manifest : Fields) : Prop where
  backup : BackupOf world archive members manifest
  files : ∃ items, filesOf manifest = .ok items
  paths : ∀ entry ∈ manifestEntries manifest, isText (pathOf entry)
  agrees : Agrees world members manifest

theorem compareBackup_clean {compared : Compared} :
    compareBackup world archive = .ok compared ∧ compared.errors = [] ↔
      ∃ members manifest, BackupAgrees world archive members manifest ∧
        compared = agreed members manifest := by
  rw [compareBackup_eq_ok]
  constructor
  · rintro ⟨⟨members, manifest, backup, ran⟩, clean⟩
    obtain ⟨files, paths, agrees⟩ := agrees_of_compareManifest ran clean
    refine ⟨members, manifest, ⟨backup, files, paths, agrees⟩, ?_⟩
    rw [compareManifest_of_agrees files paths agrees] at ran
    exact (Except.ok.inj ran).symm
  · rintro ⟨members, manifest, agrees, rfl⟩
    exact ⟨⟨members, manifest, agrees.backup, compareManifest_of_agrees
      agrees.files agrees.paths agrees.agrees⟩, rfl⟩

/-- Nothing but what the verifier expects is met when members are extracted and
looked at. -/
structure Extraction (world : World) (order : List Str → List Str)
    (members : List Member) (manifest : Fields) : Prop where
  each : ∀ before name after tree,
    order (memberSet backupName members) = before ++ name :: after →
    before.foldlM (extractMember world members
      (tableOf (manifestEntries manifest))) Keyed.empty = .ok tree →
    ExtractsMember world members manifest tree name
  databases : ∀ tree, extracted world order members manifest = .ok tree →
    RaisesOnly Handled (world.databases tree)
  control : ∀ tree errors,
    extracted world order members manifest = .ok tree →
    world.databases tree = .ok errors → ControlFine world tree

/-- Nothing but what the verifier expects is met in an archive. -/
structure BackupCalm (world : World) (order : List Str → List Str)
    (extract : Bool) (archive : Archive) : Prop where
  opening : RaisesOnly Manageable archive
  opens : ∀ members, archive = .ok members →
    checkBackupNames members = .ok () →
    Opens Manageable world.decode backupName members
  compares : ∀ members manifest, BackupOf world archive members manifest →
    Compares members manifest
  extraction : extract = true → ∀ members manifest,
    BackupAgrees world archive members manifest →
    Extraction world order members manifest

theorem raisesOnly_extracted :
    RaisesOnly Manageable (extracted world order members manifest) ↔
      ∀ before name after tree,
        order (memberSet backupName members) = before ++ name :: after →
        before.foldlM (extractMember world members
          (tableOf (manifestEntries manifest))) Keyed.empty = .ok tree →
        ExtractsMember world members manifest tree name := by
  unfold extracted extractBackup agreed
  dsimp only
  rw [raisesOnly_foldlM]
  unfold FoldRaisesOnly
  simp only [raisesOnly_extractMember]

theorem readBackup_eq_ok {result : Compared × Option Tree} :
    readBackup world order extract archive = .ok result ↔
      compareBackup world archive = .ok result.1 ∧
        if extract = true ∧ result.1.errors = [] then
          ∃ tree, extractBackup world order result.1 = .ok tree ∧
            result.2 = some tree
        else result.2 = none := by
  obtain ⟨compared, tree⟩ := result
  unfold readBackup
  rw [Outcome.bind_eq_ok]
  constructor
  · rintro ⟨other, ran, rest⟩
    split at rest
    · rename_i clean
      obtain ⟨held, isHeld, same⟩ := Outcome.bind_eq_ok.mp rest
      cases same
      refine ⟨ran, ?_⟩
      rw [if_pos clean]
      exact ⟨held, isHeld, rfl⟩
    · rename_i unclean
      cases rest
      refine ⟨ran, ?_⟩
      rw [if_neg unclean]
  · rintro ⟨ran, rest⟩
    refine ⟨compared, ran, ?_⟩
    dsimp only at rest
    split at rest
    · rename_i clean
      obtain ⟨held, isHeld, rfl⟩ := rest
      rw [if_pos clean]
      exact Outcome.bind_eq_ok.mpr ⟨held, isHeld, rfl⟩
    · rename_i unclean
      rw [if_neg unclean, rest]
      rfl

theorem raisesOnly_readBackup :
    RaisesOnly Manageable (readBackup world order extract archive) ↔
      RaisesOnly Manageable (compareBackup world archive) ∧
        (extract = true → ∀ members manifest,
          BackupAgrees world archive members manifest →
          RaisesOnly Manageable (extracted world order members manifest)) := by
  unfold readBackup
  rw [raisesOnly_bind]
  apply and_congr_right
  intro _
  constructor
  · intro rest extracts members manifest agrees
    obtain ⟨ran, clean⟩ :=
      compareBackup_clean.mpr ⟨members, manifest, agrees, rfl⟩
    have calm := rest _ ran
    rw [if_pos ⟨extracts, clean⟩] at calm
    exact (raisesOnly_bind.mp calm).1
  · intro rest compared ran
    split
    · rename_i clean
      obtain ⟨members, manifest, agrees, rfl⟩ :=
        compareBackup_clean.mp ⟨ran, clean.2⟩
      exact raisesOnly_bind.mpr
        ⟨rest clean.1 members manifest agrees, fun _ _ => raisesOnly_ok _⟩
    · exact raisesOnly_ok _

/-- What is left to be checked of what was read. -/
def judge (world : World) (result : Compared × Option Tree) :
    Except Exception (Fields × List Str) :=
  match result.2 with
  | none => .ok (result.1.manifest, result.1.errors)
  | some tree => do
      let databases ← world.databases tree
      let control ← controlErrors world tree
      return (result.1.manifest, databases ++ control)

theorem readAndVerify_eq :
    readAndVerify world order extract archive =
      caught Exception.caughtByBackup (str "cannot verify backup: ")
        (readBackup world order extract archive) >>= judge world := by
  unfold readAndVerify
  congr 1

/-- What a verifier raises, and what it does not. -/
theorem raisesOnly_readAndVerify :
    RaisesOnly Handled (readAndVerify world order extract archive) ↔
      BackupCalm world order extract archive := by
  rw [readAndVerify_eq, raisesOnly_bind, raisesOnly_caught,
    raisesOnly_readBackup, raisesOnly_compareBackup]
  simp only [caught_eq_ok]
  have reached {members : List Member} {manifest : Fields} {tree : Tree}
      (extracts : extract = true)
      (agrees : BackupAgrees world archive members manifest)
      (ran : extracted world order members manifest = .ok tree) :
      readBackup world order extract archive =
        .ok (agreed members manifest, some tree) := by
    obtain ⟨compares, clean⟩ :=
      compareBackup_clean.mpr ⟨members, manifest, agrees, rfl⟩
    refine readBackup_eq_ok.mpr ⟨compares, ?_⟩
    rw [if_pos ⟨extracts, clean⟩]
    exact ⟨tree, ran, rfl⟩
  constructor
  · rintro ⟨⟨⟨opening, opens, compares⟩, extraction⟩, rest⟩
    refine ⟨opening, opens, compares, ?_⟩
    intro extracts members manifest agrees
    have judged {tree : Tree}
        (ran : extracted world order members manifest = .ok tree) :=
      raisesOnly_bind.mp (rest _ (reached extracts agrees ran))
    refine ⟨raisesOnly_extracted.mp
      (extraction extracts members manifest agrees), ?_, ?_⟩
    · intro tree ran
      exact (judged ran).1
    · intro tree errors ran found
      exact raisesOnly_controlErrors.mp
        (raisesOnly_bind.mp ((judged ran).2 errors found)).1
  · intro calm
    refine ⟨⟨⟨calm.opening, calm.opens, calm.compares⟩, ?_⟩, ?_⟩
    · intro extracts members manifest agrees
      exact raisesOnly_extracted.mpr
        (calm.extraction extracts members manifest agrees).each
    · intro result ran
      obtain ⟨compared, held⟩ := result
      obtain ⟨compares, rest⟩ := readBackup_eq_ok.mp ran
      dsimp only at compares rest
      cases held with
      | none => exact raisesOnly_ok _
      | some tree =>
          split at rest
          · rename_i clean
            obtain ⟨other, isTree, same⟩ := rest
            cases same
            obtain ⟨members, manifest, agrees, rfl⟩ :=
              compareBackup_clean.mp ⟨compares, clean.2⟩
            have fine := calm.extraction clean.1 members manifest agrees
            refine raisesOnly_bind.mpr ⟨fine.databases tree isTree, ?_⟩
            intro errors found
            refine raisesOnly_bind.mpr ⟨raisesOnly_controlErrors.mpr
              (fine.control tree errors isTree found), ?_⟩
            intro control _
            exact raisesOnly_ok _
          · cases rest

/-- What is extracted passes its checks. -/
def ExtractsSoundly (world : World) (order : List Str → List Str)
    (members : List Member) (manifest : Fields) : Prop :=
  ∃ tree, extracted world order members manifest = .ok tree ∧
    world.databases tree = .ok [] ∧ controlErrors world tree = .ok []

/-- An archive is accepted exactly if everything agrees. -/
theorem readAndVerify_accepts :
    readAndVerify world order extract archive = .ok (manifest, []) ↔
      ∃ members, BackupAgrees world archive members manifest ∧
        (extract = true → ExtractsSoundly world order members manifest) := by
  rw [readAndVerify_eq, Outcome.bind_eq_ok]
  simp only [caught_eq_ok]
  constructor
  · rintro ⟨⟨compared, held⟩, ran, judged⟩
    obtain ⟨compares, rest⟩ := readBackup_eq_ok.mp ran
    dsimp only at compares rest
    cases held with
    | none =>
        obtain ⟨same, clean⟩ := Prod.mk.inj (Except.ok.inj judged)
        dsimp only at same clean
        obtain ⟨members, other, agrees, rfl⟩ :=
          compareBackup_clean.mp ⟨compares, clean⟩
        cases same
        refine ⟨members, agrees, ?_⟩
        intro extracts
        rw [if_pos ⟨extracts, clean⟩] at rest
        obtain ⟨tree, -, held⟩ := rest
        cases held
    | some tree =>
        obtain ⟨databases, found, judged⟩ := Outcome.bind_eq_ok.mp judged
        obtain ⟨control, isControl, judged⟩ := Outcome.bind_eq_ok.mp judged
        obtain ⟨same, none⟩ := Prod.mk.inj (Except.ok.inj judged)
        obtain ⟨noDatabases, noControl⟩ := List.append_eq_nil_iff.mp none
        split at rest
        · rename_i clean
          obtain ⟨other, isTree, held⟩ := rest
          cases held
          obtain ⟨members, other, agrees, rfl⟩ :=
            compareBackup_clean.mp ⟨compares, clean.2⟩
          cases same
          rw [noDatabases] at found
          rw [noControl] at isControl
          exact ⟨members, agrees, fun _ => ⟨tree, isTree, found, isControl⟩⟩
        · cases rest
  · rintro ⟨members, agrees, sound⟩
    obtain ⟨compares, clean⟩ :=
      compareBackup_clean.mpr ⟨members, manifest, agrees, rfl⟩
    by_cases extracts : extract = true
    · obtain ⟨tree, ran, databases, control⟩ := sound extracts
      refine ⟨(agreed members manifest, some tree), ?_, ?_⟩
      · refine readBackup_eq_ok.mpr ⟨compares, ?_⟩
        rw [if_pos ⟨extracts, clean⟩]
        exact ⟨tree, ran, rfl⟩
      · unfold judge
        dsimp only
        rw [databases, control]
        rfl
    · refine ⟨(agreed members manifest, none), ?_, rfl⟩
      refine readBackup_eq_ok.mpr ⟨compares, ?_⟩
      rw [if_neg fun both => extracts both.1]

/-- The condition under which backups are verified as they should be. -/
structure BackupCondition (world : World) (order : List Str → List Str)
    (extract : Bool) (archive : Archive) : Prop where
  calm : BackupCalm world order extract archive
  tidy : ∀ members manifest, BackupAgrees world archive members manifest →
    (extract = true → ExtractsSoundly world order members manifest) →
    Tidy members manifest

theorem backup_reports_iff :
    Reports Handled (Malformed world.decode backupName archive)
        (fun result => result.2 = [])
        (readAndVerify world order extract archive) ↔
      BackupCondition world order extract archive := by
  constructor
  · intro reports
    refine ⟨raisesOnly_readAndVerify.mp reports.raises, ?_⟩
    intro members manifest agrees sound
    by_contra untidy
    have malformed : Malformed world.decode backupName archive := by
      rw [agrees.backup.opened]
      exact (malformed_iff_not_tidy agrees.backup.manifest).mpr untidy
    exact reports.refuses malformed (manifest, [])
      (readAndVerify_accepts.mpr ⟨members, agrees, sound⟩) rfl
  · intro condition
    refine ⟨raisesOnly_readAndVerify.mpr condition.calm, ?_⟩
    intro malformed result ran clean
    obtain ⟨manifest, errors⟩ := result
    cases clean
    obtain ⟨members, agrees, sound⟩ := readAndVerify_accepts.mp ran
    rw [agrees.backup.opened] at malformed
    exact (malformed_iff_not_tidy agrees.backup.manifest).mp malformed
      (condition.tidy members manifest agrees sound)

end Backups

end PpcLab.Integrity
