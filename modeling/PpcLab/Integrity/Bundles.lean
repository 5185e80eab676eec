import PpcLab.Integrity.Reports

/-!
# Releases, support bundles and audit logs that are reported

Releases are refused by an exception, support bundles and audit logs by errors
that are listed.  In the end the four checkers stand side by side: each crashes
on a list where it takes a dictionary for granted.
-/

namespace PpcLab.Integrity

open Backup (hasDigest hasSize isUnhashable)
open Explore (sortedSet)
open Json (asObject? find? get)
open Outcome (LoopRaisesOnly RaisesOnly raisesOnly_bind raisesOnly_error
  raisesOnly_map raisesOnly_mapM raisesOnly_ok)

section Releases

variable {world : World} {archive : Archive} {members : List Member}
  {manifest : Fields}

/-- The entries of a manifest by their paths. -/
abbrev manifestTable (manifest : Fields) : List (Str × Fields) :=
  tableOf (manifestEntries manifest)

/-- The members are those that have entries. -/
def SameNames (members : List Member) (manifest : Fields) : Prop :=
  ((memberSet releaseName members).all
      (· ∈ (manifestTable manifest).map Prod.fst) &&
    ((manifestTable manifest).map Prod.fst).all
      (· ∈ memberSet releaseName members)) = true

/-- A member can be read and is what its entry says. -/
def Matches (world : World) (members : List Member) (manifest : Fields)
    (name : Str) : Prop :=
  ∃ bytes, readMember members name = .ok bytes ∧
    (hasSize world.doubles (((manifestTable manifest).lookup name).getD [])
        bytes &&
      hasDigest (((manifestTable manifest).lookup name).getD []) bytes) = true

/-- Nothing but what is expected is met while members are compared with their
entries. -/
structure ReleaseCompares (world : World) (members : List Member)
    (manifest : Fields) : Prop where
  files : ∃ items, filesOf manifest = .ok items
  hashable : ∀ entry ∈ manifestEntries manifest,
    isUnhashable (pathOf entry) = false
  reads : (∀ entry ∈ manifestEntries manifest, isText (pathOf entry)) →
    SameNames members manifest → ∀ before name after,
    sortedSet (memberSet releaseName members) = before ++ name :: after →
    (∀ earlier ∈ before, Matches world members manifest earlier) →
    RaisesOnly Manageable (readMember members name)

theorem checkReleaseContent_eq_ok_iff {name : Str} :
    (∃ done, checkReleaseContent world members (manifestTable manifest) name =
      .ok done) ↔ Matches world members manifest name := by
  unfold checkReleaseContent Matches
  simp only [Outcome.bind_eq_ok]
  constructor
  · rintro ⟨done, bytes, read, ran⟩
    split at ran
    · rename_i agrees
      exact ⟨bytes, read, agrees⟩
    · cases ran
  · rintro ⟨bytes, read, agrees⟩
    refine ⟨(), bytes, read, ?_⟩
    rw [if_pos agrees]
    rfl

theorem raisesOnly_checkReleaseContent {name : Str} :
    RaisesOnly Manageable
        (checkReleaseContent world members (manifestTable manifest) name) ↔
      RaisesOnly Manageable (readMember members name) := by
  unfold checkReleaseContent
  rw [raisesOnly_bind]
  constructor
  · intro both
    exact both.1
  · intro read
    refine ⟨read, ?_⟩
    intro bytes _
    dsimp only
    split
    · exact raisesOnly_ok _
    · exact raisesOnly_error.mpr rfl

theorem raisesOnly_compareRelease :
    RaisesOnly Manageable (compareRelease world members manifest) ↔
      ReleaseCompares world members manifest := by
  unfold compareRelease
  rw [raisesOnly_bind, raisesOnly_filesOf manageable_strict]
  have loop : LoopRaisesOnly Manageable
      (checkReleaseContent world members (manifestTable manifest))
      (sortedSet (memberSet releaseName members)) ↔
      ∀ before name after,
        sortedSet (memberSet releaseName members) = before ++ name :: after →
        (∀ earlier ∈ before, Matches world members manifest earlier) →
        RaisesOnly Manageable (readMember members name) := by
    unfold LoopRaisesOnly
    simp only [checkReleaseContent_eq_ok_iff, raisesOnly_checkReleaseContent]
  constructor
  · rintro ⟨⟨items, read⟩, rest⟩
    have calm := rest items read
    rw [raisesOnly_bind] at calm
    have hashable := (raisesOnly_table_own manageable_strict
      manageable_own).mp calm.1
    rw [← manifestEntries_of_filesOf read] at hashable
    refine ⟨⟨items, read⟩, hashable, ?_⟩
    intro texts same
    have calm := calm.2 (manifestTable manifest) (table_eq_ok_iff.mpr (by
      rw [← manifestEntries_of_filesOf read]
      exact ⟨texts, rfl⟩))
    dsimp only at calm
    unfold SameNames at same
    rw [if_pos same, raisesOnly_bind, raisesOnly_mapM] at calm
    exact loop.mp calm.1
  · intro compares
    refine ⟨compares.files, ?_⟩
    intro items read
    rw [raisesOnly_bind]
    have hashable := compares.hashable
    rw [manifestEntries_of_filesOf read] at hashable
    refine ⟨(raisesOnly_table_own manageable_strict manageable_own).mpr
      hashable, ?_⟩
    intro entries isTable
    obtain ⟨texts, rfl⟩ := table_eq_ok_iff.mp isTable
    rw [← manifestEntries_of_filesOf read] at texts ⊢
    dsimp only
    split
    · rename_i same
      rw [raisesOnly_bind, raisesOnly_mapM]
      exact ⟨loop.mpr (compares.reads texts same), fun _ _ => raisesOnly_ok _⟩
    · exact raisesOnly_error.mpr rfl

theorem raisesOnly_checkReleaseNames :
    RaisesOnly Manageable (checkReleaseNames members) := by
  unfold checkReleaseNames
  split
  · exact raisesOnly_error.mpr rfl
  · rw [raisesOnly_map, raisesOnly_mapM]
    intro before name after _ _
    unfold checkReleaseMember
    split
    · exact raisesOnly_error.mpr rfl
    · split
      · exact raisesOnly_error.mpr rfl
      · exact raisesOnly_ok ()

theorem raisesOnly_checkReleaseSchema :
    RaisesOnly Manageable (checkReleaseSchema world manifest) := by
  unfold checkReleaseSchema
  split
  · exact raisesOnly_ok ()
  · exact raisesOnly_error.mpr rfl

/-- An archive has members with names that are accepted, and the manifest of a
release. -/
structure ReleaseOf (world : World) (archive : Archive)
    (members : List Member) (manifest : Fields) : Prop where
  opened : archive = .ok members
  checked : checkReleaseNames members = .ok ()
  read : readManifest world releaseName members = .ok manifest
  schema : checkReleaseSchema world manifest = .ok ()

/-- Nothing but what is expected is met in a release. -/
structure ReleaseCalm (world : World) (archive : Archive) : Prop where
  opening : RaisesOnly Manageable archive
  opens : ∀ members, archive = .ok members →
    checkReleaseNames members = .ok () →
    Opens Manageable world.decode releaseName members
  compares : ∀ members manifest, ReleaseOf world archive members manifest →
    ReleaseCompares world members manifest

theorem raisesOnly_readRelease :
    RaisesOnly Manageable (readRelease world archive) ↔
      ReleaseCalm world archive := by
  unfold readRelease
  rw [raisesOnly_bind]
  constructor
  · rintro ⟨opening, rest⟩
    have later (members : List Member) (isOpen : archive = .ok members)
        (checked : checkReleaseNames members = .ok ()) :=
      raisesOnly_bind.mp
        ((raisesOnly_bind.mp (rest members isOpen)).2 () checked)
    refine ⟨opening, ?_, ?_⟩
    · intro members isOpen checked
      exact (raisesOnly_readManifest manageable_strict).mp
        (later members isOpen checked).1
    · intro members manifest release
      have calm := raisesOnly_bind.mp ((later members release.opened
        release.checked).2 manifest release.read)
      exact raisesOnly_compareRelease.mp
        (raisesOnly_bind.mp (calm.2 () release.schema)).1
  · intro calm
    refine ⟨calm.opening, ?_⟩
    intro members isOpen
    refine raisesOnly_bind.mpr ⟨raisesOnly_checkReleaseNames, ?_⟩
    intro _ checked
    refine raisesOnly_bind.mpr ⟨(raisesOnly_readManifest manageable_strict).mpr
      (calm.opens members isOpen checked), ?_⟩
    intro manifest read
    refine raisesOnly_bind.mpr ⟨raisesOnly_checkReleaseSchema, ?_⟩
    intro _ schema
    refine raisesOnly_bind.mpr ⟨raisesOnly_compareRelease.mpr
      (calm.compares members manifest ⟨isOpen, checked, read, schema⟩), ?_⟩
    intro _ _
    exact raisesOnly_ok _

theorem raisesOnly_releaseDoc :
    RaisesOnly Handled (releaseDoc world archive) ↔
      ReleaseCalm world archive := by
  rw [← raisesOnly_readRelease]
  unfold releaseDoc
  cases readRelease world archive with
  | ok manifest => exact ⟨fun _ => raisesOnly_ok _, fun _ => raisesOnly_ok _⟩
  | error exception =>
      unfold caught
      rw [raisesOnly_error]
      cases exception <;>
        simp [Exception.caughtByRelease, raisesOnly_error, Handled,
          Exception.handledByCommand, Manageable, Exception.isOther]

/-- Everything that is compared is of the right kind, and agrees. -/
structure ReleaseAgrees (world : World) (archive : Archive)
    (members : List Member) (manifest : Fields) : Prop where
  release : ReleaseOf world archive members manifest
  files : ∃ items, filesOf manifest = .ok items
  paths : ∀ entry ∈ manifestEntries manifest, isText (pathOf entry)
  same : SameNames members manifest
  contents : ∀ name ∈ sortedSet (memberSet releaseName members),
    Matches world members manifest name

theorem compareRelease_eq_ok :
    compareRelease world members manifest = .ok () ↔
      (∃ items, filesOf manifest = .ok items) ∧
        (∀ entry ∈ manifestEntries manifest, isText (pathOf entry)) ∧
        SameNames members manifest ∧
        ∀ name ∈ sortedSet (memberSet releaseName members),
          Matches world members manifest name := by
  unfold compareRelease
  simp only [Outcome.bind_eq_ok]
  constructor
  · rintro ⟨items, read, entries, isTable, ran⟩
    obtain ⟨texts, rfl⟩ := table_eq_ok_iff.mp isTable
    rw [← manifestEntries_of_filesOf read] at texts ran
    split at ran
    · rename_i same
      obtain ⟨results, checked, -⟩ := Outcome.bind_eq_ok.mp ran
      refine ⟨⟨items, read⟩, texts, same, ?_⟩
      intro name listed
      exact checkReleaseContent_eq_ok_iff.mp
        (Outcome.ok_of_mapM checked name listed)
    · cases ran
  · rintro ⟨⟨items, read⟩, texts, same, contents⟩
    obtain ⟨results, checked⟩ := mapM_isOk_iff.mpr fun name listed =>
      checkReleaseContent_eq_ok_iff.mpr (contents name listed)
    refine ⟨items, read, manifestTable manifest, ?_, ?_⟩
    · apply table_eq_ok_iff.mpr
      rw [← manifestEntries_of_filesOf read]
      exact ⟨texts, rfl⟩
    · unfold SameNames at same
      rw [if_pos same]
      exact Outcome.bind_eq_ok.mpr ⟨results, checked, rfl⟩

theorem releaseDoc_accepts :
    releaseDoc world archive = .ok manifest ↔
      ∃ members, ReleaseAgrees world archive members manifest := by
  unfold releaseDoc
  rw [caught_eq_ok]
  unfold readRelease
  simp only [Outcome.bind_eq_ok]
  constructor
  · rintro ⟨members, opened, _, checked, other, read, _, schema, _, compared,
      same⟩
    cases same
    obtain ⟨files, texts, sameNames, contents⟩ :=
      compareRelease_eq_ok.mp compared
    exact ⟨members, ⟨opened, checked, read, schema⟩, files, texts, sameNames,
      contents⟩
  · rintro ⟨members, agrees⟩
    exact ⟨members, agrees.release.opened, (), agrees.release.checked, manifest,
      agrees.release.read, (), agrees.release.schema, (),
      compareRelease_eq_ok.mpr ⟨agrees.files, agrees.paths, agrees.same,
        agrees.contents⟩, rfl⟩

/-- The condition under which releases are verified as they should be. -/
structure ReleaseCondition (world : World) (archive : Archive) : Prop where
  calm : ReleaseCalm world archive
  tidy : ∀ members manifest, ReleaseAgrees world archive members manifest →
    Tidy members manifest

theorem release_reports_iff :
    Reports Handled (Malformed world.decode releaseName archive)
        (fun _ => True) (releaseDoc world archive) ↔
      ReleaseCondition world archive := by
  constructor
  · intro reports
    refine ⟨raisesOnly_releaseDoc.mp reports.raises, ?_⟩
    intro members manifest agrees
    by_contra untidy
    have malformed : Malformed world.decode releaseName archive := by
      rw [agrees.release.opened]
      exact (malformed_iff_not_tidy agrees.release.read).mpr untidy
    exact reports.refuses malformed manifest
      (releaseDoc_accepts.mpr ⟨members, agrees⟩) trivial
  · intro condition
    refine ⟨raisesOnly_releaseDoc.mpr condition.calm, ?_⟩
    intro malformed manifest ran _
    obtain ⟨members, agrees⟩ := releaseDoc_accepts.mp ran
    rw [agrees.release.opened] at malformed
    exact (malformed_iff_not_tidy agrees.release.read).mp malformed
      (condition.tidy members manifest agrees)

end Releases

def HandledBySupport (exception : Exception) : Prop :=
  exception.handledBySupport = true

theorem support_strict (text : Str) : ¬HandledBySupport (.other text) :=
  Bool.false_ne_true

section Support

variable {world : World} {archive : Archive} {members : List Member}
  {manifest : Fields} {name : Str}

/-- The entry that a member is compared with. -/
def listedEntry (manifest : Fields) (name : Str) : Option Fields :=
  if name = supportName then none
  else (tableOf (textEntries (manifestEntries manifest))).lookup name

theorem checkSupportMember_of_entry {entry : Fields}
    (listed : listedEntry manifest name = some entry) :
    checkSupportMember world members
        (tableOf (textEntries (manifestEntries manifest))) name =
      (do
        let bytes ← readMember members name
        return (if hasDigest entry bytes then []
            else [str "hash mismatch: " ++ name]) ++
          if hasSize world.doubles entry bytes then []
          else [str "size mismatch: " ++ name]) := by
  unfold listedEntry at listed
  split at listed
  · cases listed
  · rename_i other
    unfold checkSupportMember
    rw [if_neg other, listed]

theorem checkSupportMember_of_none
    (unlisted : listedEntry manifest name = none) :
    checkSupportMember world members
        (tableOf (textEntries (manifestEntries manifest))) name =
      .ok (if name = supportName then []
        else [str "unlisted member: " ++ name]) := by
  unfold listedEntry at unlisted
  unfold checkSupportMember
  split at unlisted
  · rename_i same
    rw [if_pos same, if_pos same]
  · rename_i other
    rw [if_neg other, if_neg other, unlisted]

/-- A member that has an entry can be read. -/
def ReadsListed (members : List Member) (manifest : Fields) (name : Str) :
    Prop :=
  (listedEntry manifest name).isSome →
    ∃ bytes, readMember members name = .ok bytes

theorem checkSupportMember_isOk_iff :
    (∃ errors, checkSupportMember world members
      (tableOf (textEntries (manifestEntries manifest))) name = .ok errors) ↔
      ReadsListed members manifest name := by
  unfold ReadsListed
  cases listed : listedEntry manifest name with
  | none =>
      rw [checkSupportMember_of_none listed]
      simp
  | some entry =>
      rw [checkSupportMember_of_entry listed]
      simp only [Outcome.bind_eq_ok, Option.isSome_some, true_implies]
      constructor
      · rintro ⟨errors, bytes, read, -⟩
        exact ⟨bytes, read⟩
      · rintro ⟨bytes, read⟩
        exact ⟨_, bytes, read, rfl⟩

theorem raisesOnly_checkSupportMember :
    RaisesOnly HandledBySupport (checkSupportMember world members
      (tableOf (textEntries (manifestEntries manifest))) name) ↔
      ((listedEntry manifest name).isSome →
        RaisesOnly HandledBySupport (readMember members name)) := by
  cases listed : listedEntry manifest name with
  | none =>
      rw [checkSupportMember_of_none listed]
      simp [raisesOnly_ok]
  | some entry =>
      rw [checkSupportMember_of_entry listed, raisesOnly_bind]
      simp only [Option.isSome_some, true_implies]
      exact ⟨fun both => both.1, fun read => ⟨read, fun _ _ => raisesOnly_ok _⟩⟩

theorem checkSupportMember_eq_nil_iff (other : name ≠ supportName) :
    checkSupportMember world members
        (tableOf (textEntries (manifestEntries manifest))) name = .ok [] ↔
      ∃ entry bytes, listedEntry manifest name = some entry ∧
        readMember members name = .ok bytes ∧ hasDigest entry bytes = true ∧
        hasSize world.doubles entry bytes = true := by
  cases listed : listedEntry manifest name with
  | none =>
      rw [checkSupportMember_of_none listed, if_neg other]
      simp
  | some entry =>
      rw [checkSupportMember_of_entry listed, Outcome.bind_eq_ok]
      constructor
      · rintro ⟨bytes, read, same⟩
        obtain ⟨digest, size⟩ := List.append_eq_nil_iff.mp (Except.ok.inj same)
        refine ⟨entry, bytes, rfl, read, ?_, ?_⟩
        · by_contra differs
          rw [if_neg differs] at digest
          cases digest
        · by_contra differs
          rw [if_neg differs] at size
          cases size
      · rintro ⟨other, bytes, same, read, digest, size⟩
        cases same
        refine ⟨bytes, read, ?_⟩
        rw [if_pos digest, if_pos size]
        rfl

theorem setOf_eq_nil_iff {doubles : Doubles} {values : List Json} :
    Hypotheses.setOf doubles values = [] ↔ values = [] := by
  have grows (later kept : List Json) (some : kept ≠ []) :
      later.foldl (fun kept value =>
        if doubles.isIn value kept then kept
        else kept ++ [value]) kept ≠ [] := by
    induction later generalizing kept with
    | nil => exact some
    | cons value later induction =>
        rw [List.foldl_cons]
        split
        · exact induction kept some
        · exact induction _ (by simp)
  constructor
  · intro empty
    cases values with
    | nil => rfl
    | cons value values =>
        unfold Hypotheses.setOf at empty
        rw [List.foldl_cons] at empty
        exact absurd empty (grows values _ (by simp [Doubles.isIn]))
  · rintro rfl
    rfl

/-- The missing paths can be sorted. -/
def Sortable (world : World) (members : List Member) (manifest : Fields) :
    Prop :=
  Hypotheses.comparable (Hypotheses.setOf world.doubles
    (missingPaths members (manifestEntries manifest))) = true

/-- No path is a list or a dictionary. -/
def Hashable (manifest : Fields) : Prop :=
  ∀ entry ∈ manifestEntries manifest, isUnhashable (pathOf entry) = false

theorem isHashable_missingPaths (hashable : Hashable manifest) :
    (missingPaths members (manifestEntries manifest)).all
      Hypotheses.isHashable = true := by
  apply List.all_eq_true.mpr
  intro path listed
  obtain ⟨entry, isEntry, rfl⟩ :=
    List.mem_map.mp (List.mem_of_mem_filter listed)
  have fine := hashable entry isEntry
  cases known : pathOf entry with
  | array items =>
      rw [known] at fine
      cases fine
  | object fields =>
      rw [known] at fine
      cases fine
  | _ => rfl

theorem raisesOnly_missingErrors (hashable : Hashable manifest) :
    RaisesOnly HandledBySupport
        (missingErrors world members (manifestEntries manifest)) ↔
      Sortable world members manifest := by
  unfold missingErrors Hypotheses.sortedSet Sortable
  rw [isHashable_missingPaths hashable]
  dsimp only
  rw [Bool.true_and]
  cases Hypotheses.comparable (Hypotheses.setOf world.doubles
      (missingPaths members (manifestEntries manifest))) with
  | true => exact ⟨fun _ => rfl, fun _ => raisesOnly_ok _⟩
  | false =>
      constructor
      · intro raises
        exact absurd (raises _ rfl) (support_strict _)
      · intro sortable
        cases sortable

theorem missingErrors_eq_nil_iff :
    missingErrors world members (manifestEntries manifest) = .ok [] ↔
      missingPaths members (manifestEntries manifest) = [] := by
  unfold missingErrors
  constructor
  · intro none
    split at none
    · rename_i sorted ran
      have empty : sorted = [] := by
        simpa using Except.ok.inj none
      unfold Hypotheses.sortedSet at ran
      dsimp only at ran
      split at ran
      · rw [empty] at ran
        have lengths := congrArg List.length (Except.ok.inj ran)
        rw [List.length_insertionSort] at lengths
        exact setOf_eq_nil_iff.mp (List.length_eq_zero_iff.mp lengths)
      · cases ran
    · cases none
  · intro none
    rw [none]
    rfl

theorem supportEntries_eq_ok_iff {entries : List Fields} :
    supportEntries manifest = .ok entries ↔
      (∃ items, filesOf manifest = .ok items) ∧ Hashable manifest ∧
        entries = manifestEntries manifest := by
  unfold supportEntries
  rw [Outcome.bind_eq_ok]
  constructor
  · rintro ⟨items, read, kept⟩
    rw [← manifestEntries_of_filesOf read] at kept
    split at kept
    · cases kept
    · rename_i none
      refine ⟨⟨items, read⟩, ?_, (Except.ok.inj kept).symm⟩
      intro entry listed
      rw [← Bool.not_eq_true]
      intro unhashable
      exact none (List.any_eq_true.mpr ⟨entry, listed, unhashable⟩)
  · rintro ⟨⟨items, read⟩, hashable, rfl⟩
    refine ⟨items, read, ?_⟩
    rw [← manifestEntries_of_filesOf read, if_neg]
    · rfl
    · intro found
      obtain ⟨entry, listed, unhashable⟩ := List.any_eq_true.mp found
      rw [hashable entry listed] at unhashable
      cases unhashable

theorem raisesOnly_supportEntries :
    RaisesOnly HandledBySupport (supportEntries manifest) ↔
      (∃ items, filesOf manifest = .ok items) ∧ Hashable manifest := by
  constructor
  · intro raises
    cases kept : supportEntries manifest with
    | ok entries =>
        obtain ⟨files, hashable, -⟩ := supportEntries_eq_ok_iff.mp kept
        exact ⟨files, hashable⟩
    | error exception =>
        have fine := raises exception kept
        unfold supportEntries at raises kept
        rw [raisesOnly_bind, raisesOnly_filesOf support_strict] at raises
        obtain ⟨items, read⟩ := raises.1
        rw [read] at kept
        change (if _ then _ else _) = _ at kept
        split at kept
        · cases kept
          exact absurd fine (support_strict _)
        · cases kept
  · rintro ⟨files, hashable⟩
    rw [supportEntries_eq_ok_iff.mpr ⟨files, hashable, rfl⟩]
    exact raisesOnly_ok _

/-- Nothing but what the command expects is met while members are compared
with their entries. -/
structure SupportCompares (world : World) (members : List Member)
    (manifest : Fields) : Prop where
  files : ∃ items, filesOf manifest = .ok items
  paths : Hashable manifest
  reads : ∀ before name after, names members = before ++ name :: after →
    (∀ earlier ∈ before, ReadsListed members manifest earlier) →
    (listedEntry manifest name).isSome →
    RaisesOnly HandledBySupport (readMember members name)
  sorts : (∀ name ∈ names members, ReadsListed members manifest name) →
    Sortable world members manifest

theorem raisesOnly_checkSupportMembers :
    RaisesOnly HandledBySupport ((names members).mapM (checkSupportMember world
      members (tableOf (textEntries (manifestEntries manifest))))) ↔
      ∀ before name after, names members = before ++ name :: after →
        (∀ earlier ∈ before, ReadsListed members manifest earlier) →
        (listedEntry manifest name).isSome →
        RaisesOnly HandledBySupport (readMember members name) := by
  rw [raisesOnly_mapM]
  unfold LoopRaisesOnly
  simp only [checkSupportMember_isOk_iff, raisesOnly_checkSupportMember]

theorem checkSupportMembers_isOk_iff :
    (∃ contents, (names members).mapM (checkSupportMember world members
      (tableOf (textEntries (manifestEntries manifest)))) = .ok contents) ↔
      ∀ name ∈ names members, ReadsListed members manifest name := by
  rw [mapM_isOk_iff]
  simp only [checkSupportMember_isOk_iff]

theorem raisesOnly_compareSupport :
    RaisesOnly HandledBySupport (compareSupport world members manifest) ↔
      SupportCompares world members manifest := by
  unfold compareSupport
  rw [raisesOnly_bind, raisesOnly_supportEntries]
  constructor
  · rintro ⟨⟨files, hashable⟩, rest⟩
    have calm := rest _ (supportEntries_eq_ok_iff.mpr ⟨files, hashable, rfl⟩)
    rw [raisesOnly_bind] at calm
    refine ⟨files, hashable, raisesOnly_checkSupportMembers.mp calm.1, ?_⟩
    intro readable
    obtain ⟨contents, ran⟩ := checkSupportMembers_isOk_iff.mpr readable
    have sorting := calm.2 contents ran
    rw [raisesOnly_bind] at sorting
    exact (raisesOnly_missingErrors hashable).mp sorting.1
  · intro compares
    refine ⟨⟨compares.files, compares.paths⟩, ?_⟩
    intro entries kept
    obtain ⟨-, -, rfl⟩ := supportEntries_eq_ok_iff.mp kept
    refine raisesOnly_bind.mpr
      ⟨raisesOnly_checkSupportMembers.mpr compares.reads, ?_⟩
    intro contents ran
    have sortable := compares.sorts
      (checkSupportMembers_isOk_iff.mp ⟨contents, ran⟩)
    refine raisesOnly_bind.mpr
      ⟨(raisesOnly_missingErrors compares.paths).mpr sortable, ?_⟩
    intro missing _
    exact raisesOnly_ok _

/-- Whatever the verifier of support bundles raises is handled. -/
structure SupportCalm (world : World) (archive : Archive) : Prop where
  opening : RaisesOnly HandledBySupport archive
  compares : ∀ members value, archive = .ok members →
    supportName ∈ names members →
    readMember members supportName >>= world.loads = .ok value →
    ∃ manifest, value = .object manifest ∧
      SupportCompares world members manifest

theorem raisesOnly_checkSupport :
    RaisesOnly HandledBySupport (checkSupport world members) ↔
      ∀ value, supportName ∈ names members →
        readMember members supportName >>= world.loads = .ok value →
        ∃ manifest, value = .object manifest ∧
          SupportCompares world members manifest := by
  unfold checkSupport
  split
  · rename_i listed
    cases read : readMember members supportName >>= world.loads with
    | error exception =>
        constructor
        · intro _ value _ other
          cases other
        · intro _
          exact raisesOnly_ok _
    | ok value =>
        rw [raisesOnly_bind, raisesOnly_asDict support_strict]
        constructor
        · rintro ⟨⟨manifest, rfl⟩, rest⟩ other _ same
          cases same
          exact ⟨manifest, rfl,
            raisesOnly_compareSupport.mp (rest manifest rfl)⟩
        · intro calm
          obtain ⟨manifest, rfl, compares⟩ := calm value listed rfl
          refine ⟨⟨manifest, rfl⟩, ?_⟩
          intro other same
          cases same
          exact raisesOnly_compareSupport.mpr compares
  · rename_i unlisted
    constructor
    · intro _ value listed
      exact absurd listed unlisted
    · intro _
      exact raisesOnly_ok _

theorem raisesOnly_verifyBundle :
    RaisesOnly HandledBySupport (verifyBundle world archive) ↔
      SupportCalm world archive := by
  unfold verifyBundle
  rw [raisesOnly_bind]
  constructor
  · rintro ⟨opening, rest⟩
    refine ⟨opening, ?_⟩
    intro members value isOpen
    have calm := rest members isOpen
    rw [raisesOnly_bind] at calm
    exact raisesOnly_checkSupport.mp calm.1 value
  · intro calm
    refine ⟨calm.opening, ?_⟩
    intro members isOpen
    refine raisesOnly_bind.mpr ⟨raisesOnly_checkSupport.mpr ?_, ?_⟩
    · intro value
      exact calm.compares members value isOpen
    · intro found _
      exact raisesOnly_ok _

/-- Everything that is compared is of the right kind, and agrees. -/
structure SupportAgrees (world : World) (archive : Archive)
    (members : List Member) (manifest : Fields) : Prop where
  opened : archive = .ok members
  allowed : namesErrors (names members) = []
  read : (do
    let bytes ← readMember members supportName
    let value ← world.loads bytes
    asDict value) = .ok manifest
  declared : supportManifestErrors manifest = []
  files : ∃ items, filesOf manifest = .ok items
  paths : Hashable manifest
  contents : ∀ name ∈ names members, name ≠ supportName →
    ∃ entry bytes, listedEntry manifest name = some entry ∧
      readMember members name = .ok bytes ∧ hasDigest entry bytes = true ∧
      hasSize world.doubles entry bytes = true
  present : missingPaths members (manifestEntries manifest) = []
  report : reportErrors world members = []

theorem checkSupportMember_manifest :
    checkSupportMember world members
        (tableOf (textEntries (manifestEntries manifest))) supportName =
      .ok [] :=
  if_pos rfl

theorem compareSupport_eq_nil_iff :
    compareSupport world members manifest = .ok [] ↔
      supportManifestErrors manifest = [] ∧
        (∃ items, filesOf manifest = .ok items) ∧ Hashable manifest ∧
        (∀ name ∈ names members, name ≠ supportName →
          ∃ entry bytes, listedEntry manifest name = some entry ∧
            readMember members name = .ok bytes ∧
            hasDigest entry bytes = true ∧
            hasSize world.doubles entry bytes = true) ∧
        missingPaths members (manifestEntries manifest) = [] ∧
        reportErrors world members = [] := by
  unfold compareSupport
  simp only [Outcome.bind_eq_ok]
  constructor
  · rintro ⟨entries, kept, contents, checked, missing, sorted, same⟩
    obtain ⟨files, hashable, rfl⟩ := supportEntries_eq_ok_iff.mp kept
    have clean := Except.ok.inj same
    rw [List.append_eq_nil_iff, List.append_eq_nil_iff, List.append_eq_nil_iff]
      at clean
    obtain ⟨⟨⟨declared, noContents⟩, rfl⟩, report⟩ := clean
    refine ⟨declared, files, hashable, ?_, missingErrors_eq_nil_iff.mp sorted,
      report⟩
    intro name listed other
    obtain ⟨errors, inside, stepped⟩ :=
      Outcome.exists_mem_of_mapM checked name listed
    rw [List.flatten_eq_nil_iff.mp noContents errors inside] at stepped
    exact (checkSupportMember_eq_nil_iff other).mp stepped
  · rintro ⟨declared, files, hashable, contents, present, report⟩
    have clean : ∀ name ∈ names members, checkSupportMember world members
        (tableOf (textEntries (manifestEntries manifest))) name = .ok [] := by
      intro name listed
      by_cases same : name = supportName
      · rw [same]
        exact checkSupportMember_manifest
      · exact (checkSupportMember_eq_nil_iff same).mpr
          (contents name listed same)
    refine ⟨_, supportEntries_eq_ok_iff.mpr ⟨files, hashable, rfl⟩, _,
      Outcome.mapM_eq_ok clean, [], missingErrors_eq_nil_iff.mpr present, ?_⟩
    rw [declared, report]
    have empty : ((names members).map
        fun _ => ([] : List Str)).flatten = [] := by
      simp
    rw [empty]
    rfl

theorem verifyBundle_accepts :
    verifyBundle world archive = .ok [] ↔
      ∃ members manifest, SupportAgrees world archive members manifest := by
  unfold verifyBundle checkSupport
  simp only [Outcome.bind_eq_ok]
  constructor
  · rintro ⟨members, opened, found, checked, same⟩
    obtain ⟨allowed, rfl⟩ := List.append_eq_nil_iff.mp (Except.ok.inj same)
    split at checked
    · cases read : readMember members supportName >>= world.loads with
      | error exception =>
          rw [read] at checked
          cases checked
      | ok value =>
          rw [read] at checked
          obtain ⟨manifest, isObject, compared⟩ :=
            Outcome.bind_eq_ok.mp checked
          obtain ⟨declared, files, hashable, contents, present, report⟩ :=
            compareSupport_eq_nil_iff.mp compared
          obtain ⟨bytes, isRead, parsed⟩ := Outcome.bind_eq_ok.mp read
          refine ⟨members, manifest, opened, allowed, ?_, declared, files,
            hashable, contents, present, report⟩
          rw [isRead]
          change (world.loads bytes >>= asDict) = _
          rw [parsed]
          exact isObject
    · cases checked
  · rintro ⟨members, manifest, agrees⟩
    refine ⟨members, agrees.opened, [], ?_, ?_⟩
    · obtain ⟨bytes, isRead, rest⟩ := Outcome.bind_eq_ok.mp agrees.read
      obtain ⟨value, parsed, isObject⟩ := Outcome.bind_eq_ok.mp rest
      rw [if_pos (mem_names_of_read isRead),
        Outcome.bind_eq_ok.mpr ⟨bytes, isRead, parsed⟩]
      change (asDict value >>= compareSupport world members) = _
      rw [isObject]
      exact compareSupport_eq_nil_iff.mpr ⟨agrees.declared, agrees.files,
        agrees.paths, agrees.contents, agrees.present, agrees.report⟩
    · rw [agrees.allowed]
      rfl

/-- The condition under which support bundles are verified as they should
be. -/
structure SupportCondition (world : World) (archive : Archive) : Prop where
  calm : SupportCalm world archive
  tidy : ∀ members manifest, SupportAgrees world archive members manifest →
    Tidy members manifest

theorem support_reports_iff :
    Reports HandledBySupport (Malformed world.loads supportName archive)
        (fun errors => errors = []) (verifyBundle world archive) ↔
      SupportCondition world archive := by
  constructor
  · intro reports
    refine ⟨raisesOnly_verifyBundle.mp reports.raises, ?_⟩
    intro members manifest agrees
    by_contra untidy
    have malformed : Malformed world.loads supportName archive := by
      rw [agrees.opened]
      exact (malformed_iff_not_tidy agrees.read).mpr untidy
    exact reports.refuses malformed []
      (verifyBundle_accepts.mpr ⟨members, manifest, agrees⟩) rfl
  · intro condition
    refine ⟨raisesOnly_verifyBundle.mpr condition.calm, ?_⟩
    intro malformed errors ran clean
    cases clean
    obtain ⟨members, manifest, agrees⟩ := verifyBundle_accepts.mp ran
    rw [agrees.opened] at malformed
    exact (malformed_iff_not_tidy agrees.read).mp malformed
      (condition.tidy members manifest agrees)

end Support

section AuditLogs

open Security (Progress verifyLine verifyLines)

variable {python : Security.Python}

inductive MalformedLog (python : Security.Python) :
    Option (List Byte) → Prop where
  | undecodable (bytes : List Byte) (fails : decodeUtf8 bytes = none) :
      MalformedLog python (some bytes)
  | line (bytes : List Byte) (text line : Str)
      (decoded : decodeUtf8 bytes = some text)
      (listed : line ∈ Lines.splitLines text)
      (filled : Lines.isBlank line = false)
      (noRecord : (python.loads line).bind asObject? = none) :
      MalformedLog python (some bytes)

/-- A line that is JSON is a dictionary. -/
def RecordLine (python : Security.Python) (line : Str) : Prop :=
  Lines.isBlank line = false → ∀ value, python.loads line = some value →
    ∃ record, value = .object record

/-- The condition under which logs are verified as they should be. -/
def LogCondition (python : Security.Python) (log : Option (List Byte)) : Prop :=
  ∀ bytes text, log = some bytes → decodeUtf8 bytes = some text →
    ∀ line ∈ Lines.splitLines text, RecordLine python line

theorem verifyLine_isSome_iff (progress : Progress) (number : Nat)
    {line : Str} :
    (∃ next, verifyLine python progress number line = some next) ↔
      RecordLine python line := by
  unfold verifyLine RecordLine
  cases blank : Lines.isBlank line with
  | true => simp
  | false =>
      cases read : python.loads line with
      | none => simp
      | some value =>
          cases value with
          | object record => simp [Json.asObject?]
          | _ => simp [Json.asObject?]

theorem verifyLines_isSome_iff (progress : Progress) (number : Nat)
    {lines : List Str} :
    (∃ last, verifyLines python progress number lines = some last) ↔
      ∀ line ∈ lines, RecordLine python line := by
  induction lines generalizing progress number with
  | nil => simp [verifyLines]
  | cons line lines induction =>
      rw [verifyLines, List.forall_mem_cons]
      simp only [Option.bind_eq_bind, Option.bind_eq_some_iff]
      constructor
      · rintro ⟨last, next, verified, rest⟩
        exact ⟨(verifyLine_isSome_iff _ _).mp ⟨next, verified⟩,
          (induction _ _).mp ⟨last, rest⟩⟩
      · rintro ⟨first, others⟩
        obtain ⟨next, verified⟩ :=
          (verifyLine_isSome_iff progress number).mpr first
        obtain ⟨last, rest⟩ := (induction next (number + 1)).mpr others
        exact ⟨last, next, verified, rest⟩

/-- A line adds to the errors, and adds nothing only if it is a record. -/
theorem verifyLine_errors {progress next : Progress} {number : Nat}
    {line : Str}
    (verified : verifyLine python progress number line = some next) :
    ∃ found, next.errors = progress.errors ++ found ∧
      (found = [] → Lines.isBlank line = false →
        ∃ record, python.loads line = some (.object record)) := by
  unfold verifyLine at verified
  cases blank : Lines.isBlank line with
  | true =>
      rw [blank] at verified
      cases verified
      exact ⟨[], (List.append_nil _).symm, by simp⟩
  | false =>
      rw [blank] at verified
      cases read : python.loads line with
      | none =>
          rw [read] at verified
          cases verified
          exact ⟨_, rfl, by simp⟩
      | some value =>
          rw [read] at verified
          obtain ⟨record, isRecord, same⟩ := Option.bind_eq_some_iff.mp verified
          cases value with
          | object fields =>
              cases same
              exact ⟨_, rfl, fun _ _ => ⟨fields, rfl⟩⟩
          | _ => cases isRecord

theorem verifyLines_clean {progress last : Progress} {number : Nat}
    {lines : List Str}
    (verified : verifyLines python progress number lines = some last)
    (clean : last.errors = []) :
    progress.errors = [] ∧ ∀ line ∈ lines, Lines.isBlank line = false →
      ∃ record, python.loads line = some (.object record) := by
  induction lines generalizing progress number with
  | nil =>
      cases verified
      exact ⟨clean, by simp⟩
  | cons line lines induction =>
      rw [verifyLines] at verified
      obtain ⟨next, stepped, rest⟩ := Option.bind_eq_some_iff.mp verified
      obtain ⟨noErrors, others⟩ := induction rest
      obtain ⟨found, grown, first⟩ := verifyLine_errors stepped
      rw [grown] at noErrors
      obtain ⟨noEarlier, noFound⟩ := List.append_eq_nil_iff.mp noErrors
      exact ⟨noEarlier, List.forall_mem_cons.mpr ⟨first noFound, others⟩⟩

theorem handled_value (text : Str) : Handled (.value text) := rfl

section Verified

variable {bytes : List Byte} {text : Str}

theorem auditVerify_of_undecodable (fails : decodeUtf8 bytes = none) :
    auditVerify python (some bytes) =
      .error (.value (str "'utf-8' codec can't decode")) := by
  unfold auditVerify
  simp only [fails]

theorem auditVerify_of_raised (decoded : decodeUtf8 bytes = some text)
    (raised : verifyLines python .start 1 (Lines.splitLines text) = none) :
    auditVerify python (some bytes) =
      .error (.other (str "object has no attribute 'get'")) := by
  unfold auditVerify Security.auditVerify
  simp only [decoded, raised, Option.map_none]

theorem auditVerify_of_verified {last : Progress}
    (decoded : decodeUtf8 bytes = some text)
    (verified : verifyLines python .start 1 (Lines.splitLines text) =
      some last) :
    auditVerify python (some bytes) = .ok last.errors := by
  unfold auditVerify Security.auditVerify
  simp only [decoded, verified, Option.map_some]

end Verified

theorem raisesOnly_auditVerify {log : Option (List Byte)} :
    RaisesOnly Handled (auditVerify python log) ↔ LogCondition python log := by
  cases log with
  | none =>
      constructor
      · rintro - bytes text absent
        cases absent
      · intro _
        exact raisesOnly_ok _
  | some bytes =>
      cases decoded : decodeUtf8 bytes with
      | none =>
          rw [auditVerify_of_undecodable decoded, raisesOnly_error]
          constructor
          · rintro - other text same read
            cases same
            rw [decoded] at read
            cases read
          · intro _
            exact handled_value _
      | some text =>
          have all := @verifyLines_isSome_iff python .start 1
            (Lines.splitLines text)
          cases ran : verifyLines python .start 1 (Lines.splitLines text) with
          | none =>
              rw [auditVerify_of_raised decoded ran, raisesOnly_error]
              constructor
              · intro handled
                exact absurd handled (handled_strict _)
              · intro condition
                obtain ⟨last, verified⟩ :=
                  all.mpr (condition bytes text rfl decoded)
                rw [ran] at verified
                cases verified
          | some last =>
              rw [auditVerify_of_verified decoded ran]
              constructor
              · rintro - other found same read
                cases same
                rw [decoded] at read
                cases read
                exact all.mp ⟨last, ran⟩
              · intro _
                exact raisesOnly_ok _

theorem audit_reports_iff {log : Option (List Byte)} :
    Reports Handled (MalformedLog python log) (fun errors => errors = [])
        (auditVerify python log) ↔ LogCondition python log := by
  constructor
  · intro reports
    exact raisesOnly_auditVerify.mp reports.raises
  · intro condition
    refine ⟨raisesOnly_auditVerify.mpr condition, ?_⟩
    intro malformed errors ran clean
    cases clean
    cases malformed with
    | undecodable bytes fails =>
        rw [auditVerify_of_undecodable fails] at ran
        cases ran
    | line bytes text line decoded listed filled noRecord =>
        cases checked : verifyLines python .start 1
            (Lines.splitLines text) with
        | none =>
            rw [auditVerify_of_raised decoded checked] at ran
            cases ran
        | some last =>
            rw [auditVerify_of_verified decoded checked] at ran
            obtain ⟨record, read⟩ :=
              (verifyLines_clean checked (Except.ok.inj ran)).2 line listed
                filled
            rw [read] at noRecord
            cases noRecord

end AuditLogs

/-- Each checker reports exactly if the shapes that it takes for granted are
those of the file. -/
theorem checkers_report_iff (world : World) (order : List Str → List Str)
    (extract : Bool) (archive : Archive) (python : Security.Python)
    (log : Option (List Byte)) :
    (Reports Handled (Malformed world.decode backupName archive)
        (fun result => result.2 = [])
        (readAndVerify world order extract archive) ↔
      BackupCondition world order extract archive) ∧
    (Reports Handled (Malformed world.decode releaseName archive)
        (fun _ => True) (releaseDoc world archive) ↔
      ReleaseCondition world archive) ∧
    (Reports HandledBySupport (Malformed world.loads supportName archive)
        (fun errors => errors = []) (verifyBundle world archive) ↔
      SupportCondition world archive) ∧
    (Reports Handled (MalformedLog python log) (fun errors => errors = [])
        (auditVerify python log) ↔
      LogCondition python log) :=
  ⟨backup_reports_iff, release_reports_iff, support_reports_iff,
    audit_reports_iff⟩

private def readAscii (bytes : List Byte) : Except Exception Json :=
  match decodeUtf8 bytes with
  | none => .error (.value (str "'utf-8' codec can't decode"))
  | some text =>
      match Security.Python.ascii.loads text with
      | none => .error (.json (str "Expecting value"))
      | some value => .ok value

/-- A world of files in ASCII. -/
private def asciiWorld : World where
  unicode := .ascii
  doubles := .none
  decode := readAscii
  loads := readAscii
  octal _ := .ok 0o644
  chmod mode := .ok mode.toNat
  overrides := false
  databases _ := .ok []

private def brackets : List Byte :=
  [0x5b, 0x5d]

/-- An archive of which the manifest is `[]`. -/
private def listed (manifestName : Str) : Archive :=
  .ok [⟨manifestName, 0o100644 <<< 16, .ok brackets⟩]

private theorem malformed_listed (manifestName : Str) :
    Malformed readAscii manifestName (listed manifestName) := by
  apply Malformed.noManifest
  intro manifest read
  have found : readMember [⟨manifestName, 0o100644 <<< 16, .ok brackets⟩]
      manifestName = .ok brackets := by
    simp [readMember]
  have parsed : readAscii brackets = .ok (.array []) := by
    rfl
  rw [found] at read
  change (readAscii brackets >>= asDict) = _ at read
  rw [parsed] at read
  cases read

private theorem malformedLog_brackets :
    MalformedLog Security.Python.ascii (some brackets) :=
  .line brackets (str "[]") (str "[]") (by decide) (by decide) (by decide)
    (by decide)

theorem lists_crash_checkers :
    (Malformed asciiWorld.decode backupName (listed backupName) ∧
      ¬Reports Handled
        (Malformed asciiWorld.decode backupName (listed backupName))
        (fun result => result.2 = [])
        (readAndVerify asciiWorld id true (listed backupName))) ∧
    (Malformed asciiWorld.decode releaseName (listed releaseName) ∧
      ¬Reports Handled
        (Malformed asciiWorld.decode releaseName (listed releaseName))
        (fun _ => True) (releaseDoc asciiWorld (listed releaseName))) ∧
    (Malformed asciiWorld.loads supportName (listed supportName) ∧
      ¬Reports HandledBySupport
        (Malformed asciiWorld.loads supportName (listed supportName))
        (fun errors => errors = [])
        (verifyBundle asciiWorld (listed supportName))) ∧
    (MalformedLog Security.Python.ascii (some brackets) ∧
      ¬Reports Handled (MalformedLog Security.Python.ascii (some brackets))
        (fun errors => errors = [])
        (auditVerify Security.Python.ascii (some brackets))) :=
  ⟨⟨malformed_listed _, fun reports => handled_strict _ (reports.raises _ rfl)⟩,
    ⟨malformed_listed _, fun reports => handled_strict _ (reports.raises _ rfl)⟩,
    ⟨malformed_listed _, fun reports => support_strict _ (reports.raises _ rfl)⟩,
    malformedLog_brackets, fun reports =>
      handled_strict _ (reports.raises _ rfl)⟩

end PpcLab.Integrity
