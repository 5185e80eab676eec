import PpcLab.Library.Runs
import PpcLab.Platform.Stores

/-!
# Migrations that fail

What was done before a failure stays: a store that was rewritten, and a copy
that is not complete.  Where neither happens, an attempt does all or nothing,
and the copies are those of the stores before the first one.
-/

namespace PpcLab.Platform

open Explore (Failure)

/-- The stores after an attempt. -/
def outcome : Except (Failure × Stores) (Result × Stores) → Stores
  | .error (_, after) => after
  | .ok (_, after) => after

def Stores.files (stores : Stores) : Option (Option DatabaseFile) ×
    Option (Option DatabaseFile) × Option (Option Document) :=
  (stores.evidence.map Kept.file, stores.knowledge.map Kept.file,
    stores.control.map Kept.file)

def Stores.backups (stores : Stores) : Option (Option DatabaseFile) ×
    Option (Option DatabaseFile) × Option (Option Document) :=
  (stores.evidence.map Kept.backup, stores.knowledge.map Kept.backup,
    stores.control.map Kept.backup)

/-- Nothing differs but the two entries. -/
def DatabaseFile.SameBesides : DatabaseFile → DatabaseFile → Prop
  | .database before, .database after =>
      after.others = before.others ∧
        after.entries.isSome = before.entries.isSome ∧
        ∀ key, key ≠ formatKey → key ≠ migratedByKey →
          after.entryOf key = before.entryOf key
  | before, after => before = after

/-- Nothing differs but the two entries, and the order of the keys. -/
def Document.SameBesides : Document → Document → Prop
  | .value (.object before), .value (.object after) =>
      ∀ key, key ≠ controlFormatKey → key ≠ migratedByKey →
        Json.find? after key = (Json.find? before key).map Json.sorted
  | before, after => before = after

/-- A store that is given was rewritten to one that is the same but for the
entries. -/
def Rewritten {σ : Type} (same : σ → σ → Prop) :
    Option (Kept σ) → Option (Kept σ) → Prop :=
  Option.Rel fun before after => ∃ old new,
    before.file = some old ∧ after.file = some new ∧ same old new

/-- What a migration that succeeds has done to stores that were the original
ones before the first attempt. -/
structure Migrated (tools : Tools) (origin before after : Stores) : Prop where
  report : ∃ report, upgradeReport tools after = .ok report ∧
    report.compatible = true ∧ report.migrationRequired = false
  evidence :
    Rewritten DatabaseFile.SameBesides before.evidence after.evidence
  knowledge :
    Rewritten DatabaseFile.SameBesides before.knowledge after.knowledge
  control : Rewritten Document.SameBesides before.control after.control
  queue : after.queue = before.queue
  backups : after.backups = origin.files
  again : ∀ faults, (outcome (migrate tools faults after)).files = after.files

/-- An attempt changes nothing when it fails, and does all when it does not. -/
structure AllOrNothing (tools : Tools) (origin before : Stores)
    (faults : Faults) : Prop where
  raised : ∀ failure after,
    migrate tools faults before = .error (failure, after) →
    after.files = before.files ∧ after.queue = before.queue
  succeeded : ∀ result after,
    migrate tools faults before = .ok (result, after) →
    Migrated tools origin before after

section

variable {σ : Type}

/-- No part of a copy is left. -/
def LeavesNoPart (fault : Option (Fault σ)) (kept : Option (Kept σ)) : Prop :=
  ∀ store ∈ kept, ∀ left, fault = some (.backing left) →
    store.backup = none → left = none ∨ left = store.file

/-- A store is compatible, and neither its copy nor its write fails. -/
structure CanMigrate (kind : Kind σ) (fault : Option (Fault σ))
    (kept : Kept σ) : Prop where
  compatible : ∃ file info, kept.file = some file ∧
    kind.check (some file) = .ok info ∧ info.compatible
  copied : kept.backup = none → ∀ left, fault ≠ some (.backing left)
  written : fault ≠ some .writing

/-- The stores that are given. -/
def AllCan (kind : Kind σ) (fault : Option (Fault σ))
    (kept : Option (Kept σ)) : Prop :=
  ∀ store ∈ kept, CanMigrate kind fault store

/-- A store that is given is as a migration leaves it. -/
def Settled (kind : Kind σ) (kept : Option (Kept σ)) : Prop :=
  ∀ store ∈ kept, ∀ file ∈ store.file, kind.write file = file

end

/-- A store that is migrated before one that cannot be was migrated before. -/
structure InOrder (tools : Tools) (stores : Stores) (faults : Faults) :
    Prop where
  evidence : AllCan (evidenceKind tools) faults.evidence stores.evidence →
    ¬(AllCan (knowledgeKind tools) faults.knowledge stores.knowledge ∧
      AllCan (controlKind tools stores.queue) faults.control
        stores.control) →
    Settled (evidenceKind tools) stores.evidence
  knowledge : AllCan (evidenceKind tools) faults.evidence stores.evidence →
    AllCan (knowledgeKind tools) faults.knowledge stores.knowledge →
    ¬AllCan (controlKind tools stores.queue) faults.control stores.control →
    Settled (knowledgeKind tools) stores.knowledge

/-- No part of any copy is left. -/
structure NoPart (stores : Stores) (faults : Faults) : Prop where
  evidence : LeavesNoPart faults.evidence stores.evidence
  knowledge : LeavesNoPart faults.knowledge stores.knowledge
  control : LeavesNoPart faults.control stores.control

/-- One attempt after the other, with what fails in each. -/
def attempt (tools : Tools) (stores : Stores) (faults : Faults) :
    Option Stores :=
  some (outcome (migrate tools faults stores))

/-- There is no copy yet. -/
structure Fresh (stores : Stores) : Prop where
  evidence : ∀ store ∈ stores.evidence, store.backup = none
  knowledge : ∀ store ∈ stores.knowledge, store.backup = none
  control : ∀ store ∈ stores.control, store.backup = none

section

variable {σ : Type} {kind : Kind σ} {same : σ → σ → Prop}
  {fault : Option (Fault σ)}

/-- What the kinds of stores have in common. -/
structure Kind.Lawful (kind : Kind σ) (same : σ → σ → Prop) : Prop where
  again : ∀ file, kind.write (kind.write file) = kind.write file
  same : ∀ file, same file (kind.write file)
  check : ∀ file info, kind.check (some file) = .ok info →
    info.compatible = true → ∃ written,
      kind.check (some (kind.write file)) = .ok written ∧
        written.compatible = true ∧ written.migrationRequired = false

/-- A store before and after a migration that succeeds. -/
def Kept.Migrated (kind : Kind σ) (before after : Kept σ) : Prop :=
  ∃ file, before.file = some file ∧
    after.file = some (kind.write file) ∧
    after.backup = some (before.backup.getD file)

/-- A store before and after a migration that fails. -/
structure Kept.Left (fault : Option (Fault σ)) (before after : Kept σ) :
    Prop where
  file : after.file = before.file
  backup : after.backup = before.backup ∨ before.backup = none ∧
    (after.backup = before.file ∨ fault = some (.backing after.backup))

variable {kept after : Kept σ}

/-- What a migration of a store that succeeds has done. -/
theorem migrateStore_eq_ok {changed : Bool}
    (ran : migrateStore kind fault kept = .ok (changed, after)) :
    CanMigrate kind fault kept ∧ kept.Migrated kind after := by
  obtain ⟨held, backup⟩ := kept
  unfold migrateStore at ran
  dsimp only at ran
  cases held with
  | none =>
      cases checked : kind.check none with
      | error failure =>
          rw [checked] at ran
          cases ran
      | ok info =>
          rw [checked] at ran
          cases ran
  | some file =>
      cases checked : kind.check (some file) with
      | error failure =>
          rw [checked] at ran
          cases ran
      | ok info =>
          rw [checked] at ran
          dsimp only at ran
          split at ran
          · rename_i compatible
            have known : ∃ old info, some file = some old ∧
                kind.check (some old) = .ok info ∧ info.compatible :=
              ⟨file, info, rfl, checked, compatible⟩
            cases backup with
            | none =>
                cases fault with
                | none =>
                    cases ran
                    exact ⟨⟨known, by simp, by simp⟩, file, rfl, rfl, rfl⟩
                | some fault =>
                    cases fault with
                    | backing left => cases ran
                    | writing => cases ran
            | some copy =>
                cases fault with
                | none =>
                    cases ran
                    exact ⟨⟨known, by simp, by simp⟩, file, rfl, rfl, rfl⟩
                | some fault =>
                    cases fault with
                    | backing left =>
                        cases ran
                        exact ⟨⟨known, by simp, by simp⟩, file, rfl, rfl, rfl⟩
                    | writing => cases ran
          · cases ran

theorem migrateStore_of_can (can : CanMigrate kind fault kept) :
    ∃ changed after, migrateStore kind fault kept = .ok (changed, after) := by
  obtain ⟨held, backup⟩ := kept
  obtain ⟨⟨file, info, rfl, checked, compatible⟩, copied, written⟩ := can
  unfold migrateStore
  dsimp only
  rw [checked]
  dsimp only
  rw [if_pos compatible]
  cases fault with
  | none => cases backup <;> exact ⟨_, _, rfl⟩
  | some fault =>
      cases fault with
      | writing => exact absurd rfl written
      | backing left =>
          cases backup with
          | none => exact absurd rfl (copied rfl left)
          | some copy => exact ⟨_, _, rfl⟩

/-- What a migration of a store that fails has done. -/
theorem migrateStore_eq_error {failure : Failure}
    (ran : migrateStore kind fault kept = .error (failure, after)) :
    ¬CanMigrate kind fault kept ∧ kept.Left fault after := by
  constructor
  · intro can
    obtain ⟨changed, other, done⟩ := migrateStore_of_can can
    rw [done] at ran
    cases ran
  · obtain ⟨held, backup⟩ := kept
    have untouched : Kept.Left fault ⟨held, backup⟩ ⟨held, backup⟩ :=
      ⟨rfl, .inl rfl⟩
    unfold migrateStore at ran
    dsimp only at ran
    cases checked : kind.check held with
    | error failure =>
        rw [checked] at ran
        cases ran
        exact untouched
    | ok info =>
        rw [checked] at ran
        cases held with
        | none =>
            cases ran
            exact untouched
        | some file =>
            dsimp only at ran
            split at ran
            · cases backup with
              | none =>
                  cases fault with
                  | none => cases ran
                  | some fault =>
                      cases fault with
                      | backing left =>
                          cases ran
                          exact ⟨rfl, .inr ⟨rfl, .inr rfl⟩⟩
                      | writing =>
                          cases ran
                          exact ⟨rfl, .inr ⟨rfl, .inl rfl⟩⟩
              | some copy =>
                  cases fault with
                  | none => cases ran
                  | some fault =>
                      cases fault with
                      | backing left => cases ran
                      | writing =>
                          cases ran
                          exact ⟨rfl, .inl rfl⟩
            · cases ran
              exact untouched

/-- A store that is given was migrated. -/
structure Done (kind : Kind σ) (fault : Option (Fault σ))
    (before after : Option (Kept σ)) : Prop where
  can : AllCan kind fault before
  stores : Option.Rel (Kept.Migrated kind) before after

/-- A store that is given was not migrated. -/
structure Stopped (kind : Kind σ) (fault : Option (Fault σ))
    (before after : Option (Kept σ)) : Prop where
  cannot : ¬AllCan kind fault before
  stores : Option.Rel (Kept.Left fault) before after

variable {given next : Option (Kept σ)}

theorem migrateGiven_eq_ok {changed : Option Bool}
    (ran : migrateGiven kind fault given = .ok (changed, next)) :
    Done kind fault given next := by
  cases given with
  | none =>
      cases ran
      exact ⟨by simp [AllCan], .none⟩
  | some kept =>
      unfold migrateGiven at ran
      dsimp only at ran
      cases migrated : migrateStore kind fault kept with
      | error stopped =>
          rw [migrated] at ran
          cases ran
      | ok done =>
          rw [migrated] at ran
          cases ran
          obtain ⟨can, moved⟩ := migrateStore_eq_ok migrated
          refine ⟨?_, .some moved⟩
          intro store member
          cases member
          exact can

theorem migrateGiven_eq_error {failure : Failure}
    (ran : migrateGiven kind fault given = .error (failure, next)) :
    Stopped kind fault given next := by
  cases given with
  | none => cases ran
  | some kept =>
      unfold migrateGiven at ran
      dsimp only at ran
      cases migrated : migrateStore kind fault kept with
      | ok done =>
          rw [migrated] at ran
          cases ran
      | error stopped =>
          rw [migrated] at ran
          cases ran
          obtain ⟨cannot, left⟩ := migrateStore_eq_error migrated
          refine ⟨?_, .some left⟩
          intro all
          exact cannot (all kept rfl)

end

theorem migratedEntries_again (entries : List (Str × Str)) :
    migratedEntries (migratedEntries entries) = migratedEntries entries := by
  have format : Dictionary.Assigned (migratedEntries entries)
      (formatKey, str "1") :=
    Dictionary.assigned_assign.assign (by decide)
  have author : Dictionary.Assigned (migratedEntries entries)
      (migratedByKey, platformVersion) := Dictionary.assigned_assign
  have unfolded : migratedEntries (migratedEntries entries) =
      Dictionary.assign (Dictionary.assign (migratedEntries entries)
        (formatKey, str "1")) (migratedByKey, platformVersion) := rfl
  rw [unfolded, format.assign_eq, author.assign_eq]

theorem lookup_migratedEntries {entries : List (Str × Str)} {key : Str}
    (format : key ≠ formatKey) (author : key ≠ migratedByKey) :
    (migratedEntries entries).lookup key = entries.lookup key := by
  rw [migratedEntries, Dictionary.lookup_assign_of_ne author,
    Dictionary.lookup_assign_of_ne format]

theorem lookup_formatKey (entries : List (Str × Str)) :
    (migratedEntries entries).lookup formatKey = some (str "1") := by
  have format : Dictionary.Assigned (migratedEntries entries)
      (formatKey, str "1") :=
    Dictionary.assigned_assign.assign (by decide)
  exact format.lookup_eq

theorem Database.entryOf_migrated {database : Database} {key : Str}
    (format : key ≠ formatKey) (author : key ≠ migratedByKey) :
    database.migrated.entryOf key = database.entryOf key := by
  obtain ⟨entries, others, noMeta⟩ := database
  cases entries with
  | none => rfl
  | some entries => exact lookup_migratedEntries format author

theorem Database.tables_migrated (database : Database) :
    database.migrated.tables = database.tables := by
  obtain ⟨entries, others, noMeta⟩ := database
  cases entries <;> rfl

theorem Database.isSome_entries {database : Database}
    (table : str "meta" ∈ database.tables) : database.entries.isSome := by
  by_contra none
  unfold tables at table
  rw [if_neg none, List.append_nil] at table
  exact database.noMeta table

theorem databaseInfo_migrated {tools : Tools} {expected : List Str}
    {database : Database} {info : Info} (needed : str "meta" ∈ expected)
    (checked : databaseInfo tools expected database = .ok info)
    (compatible : info.compatible = true) :
    ∃ written, databaseInfo tools expected database.migrated = .ok written ∧
      written.compatible = true ∧ written.migrationRequired = false := by
  unfold databaseInfo at checked ⊢
  rw [database.tables_migrated]
  split at checked
  · rename_i present
    rw [if_pos present]
    have format : database.migrated.entryOf formatKey = some (str "1") := by
      have table : str "meta" ∈ database.tables := by
        simpa using List.all_eq_true.mp present _ needed
      have there := Database.isSome_entries table
      obtain ⟨entries, others, noMeta⟩ := database
      cases entries with
      | none => cases there
      | some entries => exact lookup_formatKey entries
    have one : intOf tools (str "1") = .ok 1 := by
      rw [intOf, tools.readsOne]
    rw [format, Database.entryOf_migrated (by decide) (by decide)]
    cases version : intOf tools
        ((database.entryOf (str "schema_version")).getD (str "0")) with
    | error reason =>
        rw [version] at checked
        cases checked
    | ok value =>
        rw [version] at checked
        cases before : intOf tools
            ((database.entryOf formatKey).getD (str "0")) with
        | error reason =>
            rw [before] at checked
            cases checked
        | ok old =>
            rw [before] at checked
            cases checked
            rw [Option.getD_some, one]
            refine ⟨_, rfl, compatible, ?_⟩
            simp [Info.migrationRequired]
  · cases checked
    cases compatible

theorem databaseKind_lawful {tools : Tools} {root : Str} {name : String}
    {expected : List Str} (needed : str "meta" ∈ expected) :
    (databaseKind tools root name expected).Lawful
      DatabaseFile.SameBesides where
  again file := by
    cases file with
    | unreadable reason => rfl
    | database content =>
        obtain ⟨entries, others, noMeta⟩ := content
        cases entries with
        | none => rfl
        | some entries =>
            have again := migratedEntries_again entries
            simp only [databaseKind, DatabaseFile.migrated, Database.migrated,
              Option.map_some, again]
  same file := by
    cases file with
    | unreadable reason => rfl
    | database content =>
        refine ⟨rfl, Option.isSome_map, ?_⟩
        intro key format author
        exact Database.entryOf_migrated format author
  check file info checked compatible := by
    cases file with
    | unreadable reason =>
        cases checked
        cases compatible
    | database content =>
        cases read : databaseInfo tools expected content with
        | error reason =>
            simp only [databaseKind, sqliteMeta, read] at checked
            cases checked
            cases compatible
        | ok known =>
            simp only [databaseKind, sqliteMeta, read] at checked
            cases checked
            obtain ⟨written, checked, fine⟩ :=
              databaseInfo_migrated needed read compatible
            refine ⟨written, ?_, fine⟩
            simp only [databaseKind, sqliteMeta, DatabaseFile.migrated, checked]

theorem assigned_sortedObject {fields : Fields} {entry : Str × Json}
    (assigned : Dictionary.Assigned fields entry)
    (ordered : entry.2.sorted = entry.2) :
    Dictionary.Assigned (Json.sortedObject fields) entry := by
  have members (held : Str × Json) : held ∈ Json.sortedObject fields ↔
      ∃ member ∈ fields, (member.1, member.2.sorted) = held := by
    rw [Json.sortedObject, Json.sortFields,
      (List.perm_insertionSort _ _).mem_iff, Json.sortedFields_eq_map,
      List.mem_map]
  constructor
  · exact (members entry).mpr ⟨entry, assigned.held, by rw [ordered]⟩
  · intro held member same
    obtain ⟨before, kept, rfl⟩ := (members held).mp member
    rw [assigned.only before kept same, ordered]

/-- The members of a migrated document. -/
def migratedFields (doc : Fields) : Fields :=
  Json.sortedObject
    (Dictionary.assign (Dictionary.assign doc (controlFormatKey, .int 1))
      (migratedByKey, .string platformVersion))

theorem migratedFields_again (doc : Fields) :
    migratedFields (migratedFields doc) = migratedFields doc := by
  have format : Dictionary.Assigned (migratedFields doc)
      (controlFormatKey, .int 1) :=
    assigned_sortedObject (Dictionary.assigned_assign.assign (by decide)) rfl
  have author : Dictionary.Assigned (migratedFields doc)
      (migratedByKey, .string platformVersion) :=
    assigned_sortedObject Dictionary.assigned_assign rfl
  have unfolded : migratedFields (migratedFields doc) =
      Json.sortedObject (Dictionary.assign
        (Dictionary.assign (migratedFields doc) (controlFormatKey, .int 1))
        (migratedByKey, .string platformVersion)) := rfl
  rw [unfolded, format.assign_eq, author.assign_eq]
  unfold migratedFields
  exact Json.object.inj (Json.sorted_sorted (.object _))

theorem find?_migratedFields {doc : Fields} {key : Str}
    (format : key ≠ controlFormatKey) (author : key ≠ migratedByKey) :
    Json.find? (migratedFields doc) key =
      (Json.find? doc key).map Json.sorted := by
  rw [migratedFields, Json.sortedObject, Json.find?_sortFields,
    Json.find?_sortedFields, Json.find?_assign_of_ne author.symm,
    Json.find?_assign_of_ne format.symm]

theorem find?_controlFormatKey (doc : Fields) :
    Json.find? (migratedFields doc) controlFormatKey = some (.int 1) := by
  rw [migratedFields, Json.sortedObject, Json.find?_sortFields,
    Json.find?_sortedFields, Json.find?_assign_of_ne (by decide),
    Json.find?_assign_self]
  rfl

theorem controlKind_lawful (tools : Tools) (queue : List (Str × Document)) :
    (controlKind tools queue).Lawful Document.SameBesides where
  again file := by
    cases file with
    | malformed reason => rfl
    | undecodable => rfl
    | value content =>
        cases content with
        | object doc =>
            exact congrArg (Document.value ∘ Json.object)
              (migratedFields_again doc)
        | _ => rfl
  same file := by
    cases file with
    | malformed reason => rfl
    | undecodable => rfl
    | value content =>
        cases content with
        | object doc =>
            intro key format author
            exact find?_migratedFields format author
        | _ => rfl
  check file info checked compatible := by
    cases file with
    | malformed reason =>
        cases checked
        cases compatible
    | undecodable =>
        cases checked
        cases compatible
    | value content =>
        cases content with
        | object doc =>
            simp only [controlKind, checkControl, Document.migrated] at checked ⊢
            cases items : invalidItems tools queue with
            | error reason =>
                rw [items] at checked
                cases checked
                cases compatible
            | ok bad =>
                rw [items] at checked
                have version : controlVersion tools (migratedFields doc) =
                    .ok 1 := by
                  rw [controlVersion, find?_controlFormatKey]
                  rfl
                have schema : Json.get (migratedFields doc) (str "schema") =
                    (Json.get doc (str "schema")).sorted := by
                  rw [Json.get, Json.get, find?_migratedFields (by decide)
                    (by decide)]
                  cases Json.find? doc (str "schema") <;> rfl
                rw [migratedFields] at version schema
                rw [version]
                refine ⟨_, rfl, ?_, by simp [Info.migrationRequired]⟩
                cases before : controlVersion tools doc with
                | error failure =>
                    rw [before] at checked
                    cases failure with
                    | reported reason =>
                        cases checked
                        cases compatible
                    | unreadable => cases checked
                    | raised => cases checked
                | ok value =>
                    rw [before] at checked
                    cases checked
                    simpa only [schema, Json.sorted_eq_string] using compatible
        | _ => cases checked

theorem evidenceKind_lawful (tools : Tools) :
    (evidenceKind tools).Lawful DatabaseFile.SameBesides :=
  databaseKind_lawful List.mem_cons_self

theorem knowledgeKind_lawful (tools : Tools) :
    (knowledgeKind tools).Lawful DatabaseFile.SameBesides :=
  databaseKind_lawful List.mem_cons_self

/-- What an attempt does, by where it stops. -/
inductive Course (tools : Tools) (faults : Faults) (stores : Stores) :
    Except (Failure × Stores) (Result × Stores) → Prop where
  | evidence (failure : Failure) (evidence : Option (Kept DatabaseFile))
      (stopped : Stopped (evidenceKind tools) faults.evidence stores.evidence
        evidence) :
      Course tools faults stores
        (.error (failure, { stores with evidence }))
  | knowledge (failure : Failure)
      (evidence knowledge : Option (Kept DatabaseFile))
      (done : Done (evidenceKind tools) faults.evidence stores.evidence
        evidence)
      (stopped : Stopped (knowledgeKind tools) faults.knowledge
        stores.knowledge knowledge) :
      Course tools faults stores
        (.error (failure, { stores with evidence, knowledge }))
  | control (failure : Failure)
      (evidence knowledge : Option (Kept DatabaseFile))
      (control : Option (Kept Document))
      (done : Done (evidenceKind tools) faults.evidence stores.evidence
        evidence)
      (next : Done (knowledgeKind tools) faults.knowledge stores.knowledge
        knowledge)
      (stopped : Stopped (controlKind tools stores.queue) faults.control
        stores.control control) :
      Course tools faults stores
        (.error (failure, { stores with evidence, knowledge, control }))
  | all (result : Result) (evidence knowledge : Option (Kept DatabaseFile))
      (control : Option (Kept Document))
      (done : Done (evidenceKind tools) faults.evidence stores.evidence
        evidence)
      (next : Done (knowledgeKind tools) faults.knowledge stores.knowledge
        knowledge)
      (last : Done (controlKind tools stores.queue) faults.control
        stores.control control) :
      Course tools faults stores
        (.ok (result, { stores with evidence, knowledge, control }))

section

variable {σ : Type} {kind : Kind σ} {same : σ → σ → Prop}
  {fault : Option (Fault σ)} {before after : Option (Kept σ)}

/-- What is said of a store that was migrated. -/
theorem component_done (lawful : kind.Lawful same)
    (done : Done kind fault before after) (name : String) :
    ∃ parts, component name kind after = .ok parts ∧
      ∀ part ∈ parts, part.2.compatible = true ∧
        part.2.migrationRequired = false := by
  obtain ⟨can, stores⟩ := done
  cases stores with
  | none => exact ⟨[], rfl, by simp⟩
  | @some old new moved =>
      obtain ⟨⟨known, info, held, checked, compatible⟩, -, -⟩ := can old rfl
      obtain ⟨file, there, rewritten, -⟩ := moved
      rw [held] at there
      cases there
      obtain ⟨written, again, fine⟩ := lawful.check known info checked compatible
      refine ⟨[(str name, written)], ?_, ?_⟩
      · rw [component, rewritten, again]
        rfl
      · intro part member
        cases List.mem_singleton.mp member
        exact fine

end

section

variable {tools : Tools} {faults : Faults} {stores : Stores}

theorem upgradeReport_done {evidence knowledge : Option (Kept DatabaseFile)}
    {control : Option (Kept Document)}
    (done : Done (evidenceKind tools) faults.evidence stores.evidence evidence)
    (next : Done (knowledgeKind tools) faults.knowledge stores.knowledge
      knowledge)
    (last : Done (controlKind tools stores.queue) faults.control
      stores.control control) :
    ∃ report,
      upgradeReport tools { stores with evidence, knowledge, control } =
        .ok report ∧
      report.compatible = true ∧ report.migrationRequired = false := by
  obtain ⟨first, checked, firstFine⟩ :=
    component_done (evidenceKind_lawful tools) done "evidence"
  obtain ⟨second, known, secondFine⟩ :=
    component_done (knowledgeKind_lawful tools) next "knowledge"
  obtain ⟨third, said, thirdFine⟩ :=
    component_done (controlKind_lawful tools stores.queue) last "control"
  have fine : ∀ part ∈ first ++ second ++ third, part.2.compatible = true ∧
      part.2.migrationRequired = false := by
    intro part member
    rcases List.mem_append.mp member with earlier | later
    · rcases List.mem_append.mp earlier with earlier | later
      · exact firstFine part earlier
      · exact secondFine part later
    · exact thirdFine part later
  let components := first ++ second ++ third
  refine ⟨⟨components, components.all fun part => part.2.compatible,
    components.any fun part => part.2.migrationRequired⟩, ?_, ?_, ?_⟩
  · unfold upgradeReport
    dsimp only
    rw [checked, known, said]
    rfl
  · apply List.all_eq_true.mpr
    intro part member
    exact (fine part member).1
  · apply List.any_eq_false.mpr
    intro part member
    rw [(fine part member).2]
    exact Bool.false_ne_true

theorem migrate_course (tools : Tools) (faults : Faults) (stores : Stores) :
    Course tools faults stores (migrate tools faults stores) := by
  unfold migrate
  cases first : migrateGiven (evidenceKind tools) faults.evidence
      stores.evidence with
  | error stopped => exact .evidence _ _ (migrateGiven_eq_error first)
  | ok done =>
      have done := migrateGiven_eq_ok first
      dsimp only
      cases second : migrateGiven (knowledgeKind tools) faults.knowledge
          stores.knowledge with
      | error stopped => exact .knowledge _ _ _ done (migrateGiven_eq_error second)
      | ok next =>
          have next := migrateGiven_eq_ok second
          dsimp only
          cases third : migrateGiven (controlKind tools stores.queue)
              faults.control stores.control with
          | error stopped =>
              exact .control _ _ _ _ done next (migrateGiven_eq_error third)
          | ok last =>
              have last := migrateGiven_eq_ok third
              dsimp only
              obtain ⟨report, said, -⟩ := upgradeReport_done done next last
              rw [said]
              exact .all _ _ _ _ done next last

theorem queue_outcome (tools : Tools) (faults : Faults) (stores : Stores) :
    (outcome (migrate tools faults stores)).queue = stores.queue := by
  have course := migrate_course tools faults stores
  generalize migrate tools faults stores = ran at course ⊢
  cases course <;> rfl

end

section

variable {σ : Type} {kind : Kind σ} {same : σ → σ → Prop}
  {fault : Option (Fault σ)} {origin before after : Option (Kept σ)}

theorem Stopped.files (stopped : Stopped kind fault before after) :
    after.map Kept.file = before.map Kept.file := by
  obtain ⟨-, stores⟩ := stopped
  cases stores with
  | none => rfl
  | some left => exact congrArg some left.file

/-- A store stays as it is exactly if a migration has left it so. -/
theorem Done.files_iff (done : Done kind fault before after) :
    after.map Kept.file = before.map Kept.file ↔ Settled kind before := by
  obtain ⟨-, stores⟩ := done
  cases stores with
  | none => simp [Settled]
  | some moved =>
      obtain ⟨file, held, rewritten, -⟩ := moved
      simp [Settled, held, rewritten]

theorem Done.settled (lawful : kind.Lawful same)
    (done : Done kind fault before after) : Settled kind after := by
  obtain ⟨-, stores⟩ := done
  cases stores with
  | none => simp [Settled]
  | some moved =>
      obtain ⟨file, held, rewritten, -⟩ := moved
      simp [Settled, rewritten, lawful.again]

theorem Done.rewritten (lawful : kind.Lawful same)
    (done : Done kind fault before after) : Rewritten same before after := by
  obtain ⟨-, stores⟩ := done
  cases stores with
  | none => exact .none
  | some moved =>
      obtain ⟨file, held, rewritten, -⟩ := moved
      exact .some ⟨file, kind.write file, held, rewritten, lawful.same file⟩

/-- What became of a store that had no copy at first. -/
structure Stem (kind : Kind σ) (origin now : Kept σ) : Prop where
  file : now.file = origin.file ∨ ∃ file, origin.file = some file ∧
    now.file = some (kind.write file) ∧ now.backup = some file
  backup : now.backup = none ∨ now.backup = origin.file

variable {first kept next : Kept σ}

theorem Stem.untouched (stem : Stem kind first kept)
    (missing : kept.backup = none) : kept.file = first.file := by
  rcases stem.file with same | ⟨file, -, -, copied⟩
  · exact same
  · rw [missing] at copied
    cases copied

theorem Stem.migrated (lawful : kind.Lawful same)
    (stem : Stem kind first kept) (moved : kept.Migrated kind next) :
    Stem kind first next ∧ next.backup = first.file := by
  obtain ⟨file, held, rewritten, copied⟩ := moved
  have complete : next.backup = first.file := by
    rcases stem.backup with missing | there
    · rw [copied, missing, ← stem.untouched missing, held]
      rfl
    · cases known : kept.backup with
      | none =>
          rw [copied, known, ← stem.untouched known, held]
          rfl
      | some copy => rw [copied, ← there, known, Option.getD_some]
  refine ⟨⟨.inr ?_, .inr complete⟩, complete⟩
  rcases stem.file with same | ⟨old, was, now, saved⟩
  · rw [held] at same
    exact ⟨file, same.symm, rewritten, complete.trans same.symm⟩
  · rw [held] at now
    cases now
    refine ⟨old, was, ?_, complete.trans was⟩
    rw [rewritten, lawful.again]

theorem Stem.left (stem : Stem kind first kept)
    (left : Kept.Left fault kept next)
    (noPart : LeavesNoPart fault (some kept)) : Stem kind first next := by
  rcases left.backup with same | ⟨missing, saved⟩
  · constructor
    · rw [left.file, same]
      exact stem.file
    · rw [same]
      exact stem.backup
  · have untouched := stem.untouched missing
    refine ⟨.inl (left.file.trans untouched), ?_⟩
    rcases saved with whole | faulty
    · exact .inr (whole.trans untouched)
    · rcases noPart kept rfl _ faulty missing with nothing | whole
      · exact .inl nothing
      · exact .inr (whole.trans untouched)

theorem Done.stems (lawful : kind.Lawful same)
    (done : Done kind fault before after)
    (stems : Option.Rel (Stem kind) origin before) :
    Option.Rel (Stem kind) origin after ∧
      after.map Kept.backup = origin.map Kept.file := by
  obtain ⟨-, stores⟩ := done
  cases stores with
  | none =>
      cases stems
      exact ⟨.none, rfl⟩
  | some moved =>
      cases stems with
      | some stem =>
          obtain ⟨kept, whole⟩ := stem.migrated lawful moved
          exact ⟨.some kept, congrArg some whole⟩

theorem Stopped.stems (stopped : Stopped kind fault before after)
    (noPart : LeavesNoPart fault before)
    (stems : Option.Rel (Stem kind) origin before) :
    Option.Rel (Stem kind) origin after := by
  obtain ⟨-, stores⟩ := stopped
  cases stores with
  | none => exact stems
  | some left =>
      cases stems with
      | some stem => exact .some (stem.left left noPart)

theorem stems_of_fresh (fresh : ∀ store ∈ origin, store.backup = none) :
    Option.Rel (Stem kind) origin origin := by
  cases origin with
  | none => exact .none
  | some store => exact .some ⟨.inl rfl, .inl (fresh store rfl)⟩

end

/-- What became of all stores. -/
structure Stems (tools : Tools) (origin now : Stores) : Prop where
  evidence :
    Option.Rel (Stem (evidenceKind tools)) origin.evidence now.evidence
  knowledge :
    Option.Rel (Stem (knowledgeKind tools)) origin.knowledge now.knowledge
  control : Option.Rel (Stem (controlKind tools now.queue)) origin.control
    now.control

section

variable {tools : Tools} {origin stores final : Stores} {faults : Faults}

/-- An attempt keeps it. -/
theorem Stems.attempt (stems : Stems tools origin stores)
    (noPart : NoPart stores faults) :
    Stems tools origin (outcome (migrate tools faults stores)) := by
  have evidenceLaw := evidenceKind_lawful tools
  have knowledgeLaw := knowledgeKind_lawful tools
  have course := migrate_course tools faults stores
  generalize migrate tools faults stores = ran at course ⊢
  cases course with
  | evidence failure evidence stopped =>
      exact ⟨stopped.stems noPart.evidence stems.evidence, stems.knowledge,
        stems.control⟩
  | knowledge failure evidence knowledge done stopped =>
      exact ⟨(done.stems evidenceLaw stems.evidence).1,
        stopped.stems noPart.knowledge stems.knowledge, stems.control⟩
  | control failure evidence knowledge control done next stopped =>
      exact ⟨(done.stems evidenceLaw stems.evidence).1,
        (next.stems knowledgeLaw stems.knowledge).1,
        stopped.stems noPart.control stems.control⟩
  | all result evidence knowledge control done next last =>
      exact ⟨(done.stems evidenceLaw stems.evidence).1,
        (next.stems knowledgeLaw stems.knowledge).1,
        (last.stems (controlKind_lawful tools stores.queue) stems.control).1⟩

theorem stems_of_run (fresh : Fresh origin) {attempts : List Faults}
    (clean : Along (attempt tools) NoPart origin attempts)
    (ran : follow (attempt tools) origin attempts = some final) :
    Stems tools origin final := by
  refine follow_keeps ?_ ⟨stems_of_fresh fresh.evidence,
    stems_of_fresh fresh.knowledge, stems_of_fresh fresh.control⟩ clean ran
  intro stores faults next stems noPart stepped
  cases stepped
  exact stems.attempt noPart

/-- Stores that a migration has left stay as they are. -/
theorem files_of_settled
    (evidence : Settled (evidenceKind tools) stores.evidence)
    (knowledge : Settled (knowledgeKind tools) stores.knowledge)
    (control : Settled (controlKind tools stores.queue) stores.control) :
    (outcome (migrate tools faults stores)).files = stores.files := by
  unfold Stores.files
  have course := migrate_course tools faults stores
  generalize migrate tools faults stores = ran at course ⊢
  cases course with
  | evidence failure after stopped =>
      rw [outcome, stopped.files]
  | knowledge failure first after done stopped =>
      rw [outcome, done.files_iff.mpr evidence, stopped.files]
  | control failure first second after done next stopped =>
      rw [outcome, done.files_iff.mpr evidence, next.files_iff.mpr knowledge,
        stopped.files]
  | all result first second after done next last =>
      rw [outcome, done.files_iff.mpr evidence, next.files_iff.mpr knowledge,
        last.files_iff.mpr control]

theorem files_of_inOrder (inOrder : InOrder tools stores faults)
    {failure : Failure} {after : Stores}
    (raised : migrate tools faults stores = .error (failure, after)) :
    after.files = stores.files := by
  have course := migrate_course tools faults stores
  rw [raised] at course
  unfold Stores.files
  cases course with
  | evidence failure first stopped => rw [stopped.files]
  | knowledge failure first second done stopped =>
      have evidence := inOrder.evidence done.can fun both =>
        stopped.cannot both.1
      rw [done.files_iff.mpr evidence, stopped.files]
  | control failure first second third done next stopped =>
      have evidence := inOrder.evidence done.can fun both =>
        stopped.cannot both.2
      have knowledge := inOrder.knowledge done.can next.can stopped.cannot
      rw [done.files_iff.mpr evidence, next.files_iff.mpr knowledge,
        stopped.files]

/-- An attempt that leaves the files as they are when it fails. -/
theorem inOrder_of_files (unchanged : ∀ failure after,
    migrate tools faults stores = .error (failure, after) →
      after.files = stores.files) : InOrder tools stores faults := by
  have course := migrate_course tools faults stores
  generalize migrate tools faults stores = ran at course unchanged
  cases course with
  | evidence failure first stopped =>
      exact ⟨fun can => absurd can stopped.cannot,
        fun can => absurd can stopped.cannot⟩
  | knowledge failure first second done stopped =>
      have same := unchanged failure _ rfl
      refine ⟨fun _ _ => done.files_iff.mp (congrArg Prod.fst same), ?_⟩
      intro _ can
      exact absurd can stopped.cannot
  | control failure first second third done next stopped =>
      have same := unchanged failure _ rfl
      exact ⟨fun _ _ => done.files_iff.mp (congrArg Prod.fst same),
        fun _ _ _ => next.files_iff.mp
          (congrArg (fun files => files.2.1) same)⟩
  | all result first second third done next last =>
      exact ⟨fun _ cannot => absurd ⟨next.can, last.can⟩ cannot,
        fun _ _ cannot => absurd last.can cannot⟩

theorem migrated_of_run (stems : Stems tools origin stores)
    {result : Result} {after : Stores}
    (succeeded : migrate tools faults stores = .ok (result, after)) :
    Migrated tools origin stores after := by
  have course := migrate_course tools faults stores
  rw [succeeded] at course
  cases course with
  | all result evidence knowledge control done next last =>
      have evidenceLaw := evidenceKind_lawful tools
      have knowledgeLaw := knowledgeKind_lawful tools
      have controlLaw := controlKind_lawful tools stores.queue
      refine ⟨upgradeReport_done done next last, done.rewritten evidenceLaw,
        next.rewritten knowledgeLaw, last.rewritten controlLaw, rfl, ?_, ?_⟩
      · unfold Stores.backups Stores.files
        rw [(done.stems evidenceLaw stems.evidence).2,
          (next.stems knowledgeLaw stems.knowledge).2,
          (last.stems controlLaw stems.control).2]
      · intro faults
        exact files_of_settled (done.settled evidenceLaw)
          (next.settled knowledgeLaw) (last.settled controlLaw)

end

/-- After any attempts that left no part of a copy, an attempt is all or
nothing exactly if every store that it migrates before one that cannot be
migrated is as a migration leaves it. -/
theorem migrations_all_or_nothing_iff (tools : Tools) (origin : Stores)
    (fresh : Fresh origin) (attempts : List Faults)
    (clean : Along (attempt tools) NoPart origin attempts) (final : Stores)
    (ran : follow (attempt tools) origin attempts = some final)
    (faults : Faults) :
    AllOrNothing tools origin final faults ↔ InOrder tools final faults := by
  constructor
  · intro all
    exact inOrder_of_files fun failure after raised =>
      (all.raised failure after raised).1
  · intro inOrder
    constructor
    · intro failure after raised
      refine ⟨files_of_inOrder inOrder raised, ?_⟩
      have kept := queue_outcome tools faults final
      rw [raised] at kept
      exact kept
    · intro result after succeeded
      exact migrated_of_run (stems_of_run fresh clean ran) succeeded

def asciiTools : Tools where
  unicode := .ascii
  numerals := .ascii
  readsOne := by decide
  decodeError := str "'utf-8' codec can't decode byte"
  evidenceRoot := str "/evidence"
  knowledgeRoot := str "/knowledge"

/-- Nothing fails. -/
def noFaults : Faults :=
  ⟨none, none, none⟩

/-- A store of evidence that was never migrated. -/
def firstEvidence : DatabaseFile :=
  .database ⟨some [(str "schema_version", str "1")],
    [(str "artifacts", []), (str "sources", []), (str "inputs", [])],
    by decide⟩

def evidenceOnly : Stores where
  evidence := some ⟨some firstEvidence, none⟩
  knowledge := none
  control := none
  queue := []

/-- The copy is made, and the process dies before the write. -/
def diesWriting : Faults :=
  { noFaults with evidence := some .writing }

theorem migrated_after_death : ∃ final,
    follow (attempt asciiTools) evidenceOnly [diesWriting] = some final ∧
      AllOrNothing asciiTools evidenceOnly final noFaults := by
  refine ⟨_, rfl, ?_⟩
  refine (migrations_all_or_nothing_iff asciiTools evidenceOnly
    ⟨?_, nofun, nofun⟩ [diesWriting] ⟨⟨?_, nofun, nofun⟩, ?_⟩ _ rfl
    noFaults).mpr ⟨?_, ?_⟩
  · intro store member
    cases member
    rfl
  · intro store member left faulty
    cases faulty
  · intro next stepped
    exact trivial
  · intro can cannot
    exact absurd ⟨nofun, nofun⟩ cannot
  · intro can next cannot
    exact absurd nofun cannot

/-- A store of knowledge of another schema beside the evidence. -/
def foreignKnowledge : Stores :=
  { evidenceOnly with
    knowledge := some ⟨some (.database ⟨none, [], by decide⟩), none⟩ }

/-- The process dies with an empty copy. -/
def diesCopying : Faults :=
  { noFaults with
    evidence := some (.backing (some (.database ⟨none, [], by decide⟩))) }

theorem migration_stops_half_way :
    ¬AllOrNothing asciiTools foreignKnowledge foreignKnowledge noFaults ∧
      ∃ final,
        follow (attempt asciiTools) evidenceOnly [diesCopying] = some final ∧
        ¬AllOrNothing asciiTools evidenceOnly final noFaults := by
  refine ⟨?_, _, rfl, ?_⟩
  · intro all
    have same := (all.raised _ _ rfl).1
    exact absurd same (by decide)
  · intro all
    have whole := (all.succeeded _ _ rfl).backups
    exact absurd whole (by decide)

end PpcLab.Platform
