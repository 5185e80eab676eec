import PpcLab.Backup.Archive

/-!
# Extracting a release

A release is verified by the names of its members, of which the last one with a
name counts, and extracted by the paths that the names stand for, member by
member.  The archive can be anything, and its manifest any JSON.
-/

namespace PpcLab.Upgrade.Extraction

open Backup (Declared Distinct Exact WrittenFor caughtBy expectedItems hasDigest
  hasSize listedItems place?)
open Explore (Failure sortedSet)
open Json (find? get)
open Replication.Archive (Reader ZipInfo names readMember)
open Trees (File Tree Write)

def manifestName : Str :=
  str "RELEASE-MANIFEST.json"

/-- `safe_member` -/
def safeMember (name : Str) : Except Failure Relative :=
  match place? name with
  | some path => .ok path
  | none => .error (.reported (str "unsafe archive member: " ++ name))

/-- The members by name; the last one with a name counts. -/
def infosOf (infos : List ZipInfo) : List (Str × ZipInfo) :=
  (infos.map fun info => (info.filename, info)).foldl Dictionary.assign []

def checkInfo (entry : Str × ZipInfo) : Except Failure Unit := do
  let _ ← safeMember entry.1
  if entry.2.isSymlink then
    throw (.reported (str "symlink member rejected: " ++ entry.1))
  else return ()

def readManifest (reader : Reader) (infos : List ZipInfo) :
    Except Failure Fields := do
  let bytes ← caughtBy "cannot verify release archive: " manifestName infos
  match reader.loads bytes with
  | .value (.object manifest) => return manifest
  | .value _ => throw .raised
  | .malformed reason =>
      throw (.reported (str "cannot verify release archive: " ++ reason))
  | .undecodable => throw .raised

def mismatch : Failure :=
  .reported (str "release archive members do not match embedded manifest")

/-- `set(infos) - {"RELEASE-MANIFEST.json"}` -/
def memberSet (infos : List ZipInfo) : List Str :=
  ((infosOf infos).map Prod.fst).filter (· ≠ manifestName)

def verifyMember (reader : Reader) (infos : List ZipInfo)
    (expected : List (Str × Fields)) (name : Str) : Except Failure Unit := do
  let bytes ← caughtBy "cannot verify release archive: " name infos
  let item := (expected.lookup name).getD []
  if hasSize reader.doubles item bytes && hasDigest item bytes then return ()
  else throw (.reported
    (str "release member failed manifest verification: " ++ name))

/-- `release_doc` -/
def releaseDoc (reader : Reader) (infos : List ZipInfo) :
    Except Failure Fields := do
  if manifestName ∉ (infosOf infos).map Prod.fst then
    throw (.reported (str "release archive needs one RELEASE-MANIFEST.json"))
  else
    let _ ← (infosOf infos).mapM checkInfo
    let manifest ← readManifest reader infos
    let schema := get manifest (str "schema")
    if schema ≠ .string (str "ppc-lab-release-manifest-v1") then
      throw (.reported (str "unsupported release schema: " ++
        reader.unicode.toStr schema))
    else
      let items ← listedItems manifest
      let expected ← expectedItems mismatch items
      let actual := memberSet infos
      if actual.all (· ∈ expected.map Prod.fst) &&
          (expected.map Prod.fst).all (· ∈ actual) then
        let _ ← (sortedSet actual).mapM (verifyMember reader infos expected)
        return manifest
      else throw mismatch

/-- `(info.external_attr >> 16) & 0o777` -/
def permissions (info : ZipInfo) : Nat :=
  (info.externalAttr >>> 16) &&& 0o777

/-- What reading a member comes to where nothing is caught. -/
def readOrRaise (infos : List ZipInfo) (name : Str) :
    Except Failure (List Byte) :=
  match readMember infos name with
  | .ok bytes => .ok bytes
  | .error _ => .error .raised

def extractMember (overrides : Bool) (infos : List ZipInfo) (tree : Tree)
    (info : ZipInfo) : Except Failure Tree := do
  let path ← safeMember info.filename
  let bytes ← readOrRaise infos info.filename
  let mode := if permissions info = 0 then none else some (permissions info)
  match Tree.rewrite overrides Release.newFileMode tree
      ⟨path, bytes, mode⟩ with
  | some tree => return tree
  | none => throw .unreadable

/-- `extract_verified` into an empty directory -/
def extractVerified (reader : Reader) (overrides : Bool)
    (infos : List ZipInfo) : Except Failure (Fields × Tree) := do
  let manifest ← releaseDoc reader infos
  let tree ← infos.foldlM (extractMember overrides infos) Keyed.empty
  return (manifest, tree)

/-- The path of no member is on the way to another one, or the same. -/
def Apart (names : List Str) : Prop :=
  ∀ first ∈ names, ∀ second ∈ names,
    Paths.pureParts first <+: Paths.pureParts second → first = second

/-- A member that another one with its name follows can be written over. -/
def Rewritable (overrides : Bool) (infos : List ZipInfo) : Prop :=
  infos.Pairwise fun first second => first.filename = second.filename →
    overrides ∨ permissions first = 0 ∨ Trees.ownerWrites (permissions first)

/-- The entries of a manifest by their paths. -/
def entriesOf (manifest : Fields) : List (Str × Fields) :=
  (((listedItems manifest).bind (expectedItems mismatch)).toOption).getD []

private theorem isComponent_manifestName :
    Paths.IsComponent manifestName := by
  decide

def manifestPath : Relative :=
  ⟨[manifestName], List.cons_ne_nil _ _, by
    intro part listed
    cases List.mem_singleton.mp listed
    exact isComponent_manifestName⟩

private theorem place?_manifestName :
    place? manifestName = some manifestPath := by
  decide

/-- What extracting a member writes. -/
def writeOf (infos : List ZipInfo) (info : ZipInfo) : Write where
  path := (place? info.filename).getD manifestPath
  bytes := ((readMember infos info.filename).toOption).getD []
  mode := if permissions info = 0 then none else some (permissions info)

/-- What an archive that is accepted has been found to be. -/
structure Accepted (reader : Reader) (infos : List ZipInfo)
    (manifest : Fields) : Prop where
  nodup : (manifestName :: (entriesOf manifest).map Prod.fst).Nodup
  members : ∀ name, name ∈ manifestName :: (entriesOf manifest).map Prod.fst ↔
    ∃ info ∈ infos, info.filename = name
  safe : ∀ info ∈ infos, ∃ path, place? info.filename = some path
  readable : ∃ bytes, readMember infos manifestName = .ok bytes
  declared : ∀ name ∈ (entriesOf manifest).map Prod.fst, ∃ bytes,
    readMember infos name = .ok bytes ∧
      Declared reader.doubles (entriesOf manifest) name bytes

private theorem mem_keys_foldl_assign {α : Type} {entries dictionary :
    List (Str × α)} {key : Str} :
    key ∈ (entries.foldl Dictionary.assign dictionary).map (·.1) ↔
      key ∈ dictionary.map (·.1) ∨ key ∈ entries.map (·.1) := by
  induction entries generalizing dictionary with
  | nil => simp
  | cons entry entries induction =>
      rw [List.foldl_cons, induction, Dictionary.keys_assign, List.map_cons,
        List.mem_cons]
      split
      · rename_i there
        constructor
        · rintro (before | later)
          · exact .inl before
          · exact .inr (.inr later)
        · rintro (before | rfl | later)
          · exact .inl before
          · exact .inl there
          · exact .inr later
      · rw [List.mem_append, List.mem_singleton, or_assoc]

private theorem mem_infosOf {infos : List ZipInfo} {name : Str} :
    name ∈ (infosOf infos).map Prod.fst ↔
      ∃ info ∈ infos, info.filename = name := by
  rw [infosOf]
  refine mem_keys_foldl_assign.trans ?_
  simp

private theorem declared_of_verifyMember {reader : Reader}
    {infos : List ZipInfo} {expected : List (Str × Fields)} {name : Str}
    {item : Fields} (found : expected.lookup name = some item)
    (ran : verifyMember reader infos expected name = .ok ()) :
    ∃ bytes, readMember infos name = .ok bytes ∧
      Declared reader.doubles expected name bytes := by
  obtain ⟨bytes, read, ran⟩ := Outcome.bind_eq_ok.mp ran
  dsimp only at ran
  split at ran
  · rename_i both
    rw [Bool.and_eq_true, found] at both
    exact ⟨bytes, Backup.caughtBy_eq_ok read, item, found, both.1, both.2⟩
  · cases ran

private theorem place?_of_checkInfo {entry : Str × ZipInfo}
    (ran : checkInfo entry = .ok ()) :
    ∃ path, place? entry.1 = some path := by
  obtain ⟨path, safe, _⟩ := Outcome.bind_eq_ok.mp ran
  unfold safeMember at safe
  split at safe
  · exact ⟨_, by assumption⟩
  · cases safe

theorem accepted_of_releaseDoc {reader : Reader} {infos : List ZipInfo}
    {manifest : Fields} (ran : releaseDoc reader infos = .ok manifest) :
    Accepted reader infos manifest := by
  unfold releaseDoc at ran
  split at ran
  · cases ran
  · rename_i there
    obtain ⟨_, checked, ran⟩ := Outcome.bind_eq_ok.mp ran
    obtain ⟨doc, isManifest, ran⟩ := Outcome.bind_eq_ok.mp ran
    dsimp only at ran
    split at ran
    · cases ran
    · obtain ⟨items, isItems, ran⟩ := Outcome.bind_eq_ok.mp ran
      obtain ⟨expected, isExpected, ran⟩ := Outcome.bind_eq_ok.mp ran
      split at ran
      · rename_i same
        obtain ⟨_, verified, ran⟩ := Outcome.bind_eq_ok.mp ran
        cases ran
        have entries : entriesOf manifest = expected := by
          rw [entriesOf, isItems]
          change ((expectedItems mismatch items).toOption).getD [] = expected
          rw [isExpected]
          rfl
        simp only [Bool.and_eq_true, List.all_eq_true, decide_eq_true_eq]
          at same
        have keys : ∀ name, name ∈ expected.map Prod.fst ↔
            name ∈ memberSet infos := fun name =>
          ⟨same.2 name, same.1 name⟩
        have apart : manifestName ∉ expected.map Prod.fst := by
          rw [keys, memberSet, List.mem_filter]
          simp
        refine ⟨?_, ?_, ?_, ?_, ?_⟩
        · rw [entries]
          exact List.nodup_cons.mpr
            ⟨apart, Backup.nodup_expectedItems isExpected⟩
        · intro name
          rw [entries, List.mem_cons, keys, memberSet, List.mem_filter,
            ← mem_infosOf]
          by_cases isManifest : name = manifestName
          · rw [isManifest]
            exact iff_of_true (.inl rfl) (not_not.mp there)
          · simp [isManifest]
        · intro info listed
          have isKey : info.filename ∈ (infosOf infos).map Prod.fst :=
            mem_infosOf.mpr ⟨info, listed, rfl⟩
          obtain ⟨entry, isEntry, name⟩ := List.mem_map.mp isKey
          obtain ⟨_, ok⟩ := Outcome.ok_of_mapM checked entry isEntry
          rw [← name]
          exact place?_of_checkInfo ok
        · obtain ⟨bytes, read, _⟩ := Outcome.bind_eq_ok.mp isManifest
          exact ⟨bytes, Backup.caughtBy_eq_ok read⟩
        · rw [entries]
          intro name listed
          obtain ⟨⟨key, item⟩, isEntry, same⟩ := List.mem_map.mp listed
          cases same
          have found := Dictionary.lookup_of_mem
            (Backup.nodup_expectedItems isExpected) isEntry
          have sorted : key ∈ sortedSet (memberSet infos) := by
            rw [sortedSet, List.mem_insertionSort, List.mem_dedup]
            exact (keys key).mp listed
          obtain ⟨_, ok⟩ := Outcome.ok_of_mapM verified key sorted
          exact declared_of_verifyMember found ok
      · cases ran

variable {reader : Reader} {overrides : Bool} {infos : List ZipInfo}
  {manifest : Fields}

namespace Accepted

theorem readable_of_mem (accepted : Accepted reader infos manifest)
    {info : ZipInfo} (listed : info ∈ infos) :
    ∃ bytes, readMember infos info.filename = .ok bytes := by
  rcases List.mem_cons.mp ((accepted.members info.filename).mpr
    ⟨info, listed, rfl⟩) with isManifest | isEntry
  · rw [isManifest]
    exact accepted.readable
  · obtain ⟨bytes, read, _⟩ := accepted.declared _ isEntry
    exact ⟨bytes, read⟩

theorem placed (accepted : Accepted reader infos manifest) {info : ZipInfo}
    (listed : info ∈ infos) :
    place? info.filename = some (writeOf infos info).path := by
  obtain ⟨path, placed⟩ := accepted.safe info listed
  rw [writeOf, placed]
  rfl

theorem read (accepted : Accepted reader infos manifest) {info : ZipInfo}
    (listed : info ∈ infos) :
    readMember infos info.filename = .ok (writeOf infos info).bytes := by
  obtain ⟨bytes, read⟩ := accepted.readable_of_mem listed
  rw [writeOf, read]
  rfl

theorem parts (accepted : Accepted reader infos manifest) {info : ZipInfo}
    (listed : info ∈ infos) :
    (writeOf infos info).path.parts = Paths.pureParts info.filename :=
  Backup.place?_eq_some (accepted.placed listed)

theorem extractMember_eq (accepted : Accepted reader infos manifest)
    {info : ZipInfo} (listed : info ∈ infos) (before after : Tree) :
    extractMember overrides infos before info = .ok after ↔
      Tree.rewrite overrides Release.newFileMode before (writeOf infos info) =
        some after := by
  have safe : safeMember info.filename = .ok (writeOf infos info).path := by
    rw [safeMember, accepted.placed listed]
  have read : readOrRaise infos info.filename =
      .ok (writeOf infos info).bytes := by
    rw [readOrRaise, accepted.read listed]
  rw [extractMember, safe, read]
  change (match Tree.rewrite overrides Release.newFileMode before
      (writeOf infos info) with
    | some tree => Except.ok tree
    | none => .error Failure.unreadable) = .ok after ↔ _
  cases Tree.rewrite overrides Release.newFileMode before
      (writeOf infos info) with
  | none => simp
  | some tree => simp

/-- Extracting members writes them one after the other. -/
theorem foldlM_extractMember (accepted : Accepted reader infos manifest)
    {rest : List ZipInfo} (subset : ∀ info ∈ rest, info ∈ infos)
    (before after : Tree) :
    rest.foldlM (extractMember overrides infos) before = .ok after ↔
      Tree.rewriteAll overrides Release.newFileMode before
        (rest.map (writeOf infos)) = some after := by
  induction rest generalizing before with
  | nil =>
      constructor <;>
        · intro same
          cases same
          rfl
  | cons info rest induction =>
      obtain ⟨listed, subset⟩ := List.forall_mem_cons.mp subset
      rw [List.foldlM_cons, Outcome.bind_eq_ok, List.map_cons, Tree.rewriteAll,
        List.foldlM_cons, Option.bind_eq_bind, Option.bind_eq_some_iff]
      apply exists_congr
      intro next
      rw [accepted.extractMember_eq listed, induction subset]
      rfl

theorem writtenFor (accepted : Accepted reader infos manifest) :
    WrittenFor (manifestName :: (entriesOf manifest).map Prod.fst)
      (fun name bytes => readMember infos name = .ok bytes)
      (infos.map (writeOf infos)) := by
  constructor
  · intro write isWrite
    obtain ⟨info, listed, rfl⟩ := List.mem_map.mp isWrite
    exact ⟨info.filename, (accepted.members _).mpr ⟨info, listed, rfl⟩,
      accepted.placed listed, accepted.read listed⟩
  · intro name isName
    obtain ⟨info, listed, rfl⟩ := (accepted.members name).mp isName
    exact ⟨_, List.mem_map_of_mem listed, accepted.placed listed⟩

end Accepted

private theorem leavesWritable_writeOf (info : ZipInfo) :
    (writeOf infos info).leavesWritable ↔
      permissions info = 0 ∨ Trees.ownerWrites (permissions info) := by
  unfold writeOf Write.leavesWritable
  dsimp only
  split
  · rename_i none
    simp [none]
  · rename_i some
    simp [some]

/-- Nothing keeps a member from being written that the names do not. -/
private theorem pairwise_of_apart (accepted : Accepted reader infos manifest)
    (apart : Apart (manifestName :: (entriesOf manifest).map Prod.fst))
    (rewritable : Rewritable overrides infos) :
    (infos.map (writeOf infos)).Pairwise (Write.Admits overrides) := by
  have name {info : ZipInfo} (listed : info ∈ infos) :=
    (accepted.members info.filename).mpr ⟨info, listed, rfl⟩
  have same {first second : ZipInfo} (listed : first ∈ infos)
      (other : second ∈ infos) (start : (writeOf infos first).path.parts <+:
        (writeOf infos second).path.parts) :
      first.filename = second.filename := by
    rw [accepted.parts listed, accepted.parts other] at start
    exact apart _ (name listed) _ (name other) start
  have samePath {first second : ZipInfo}
      (names : first.filename = second.filename) :
      (writeOf infos first).path = (writeOf infos second).path := by
    rw [writeOf, writeOf, names]
  rw [List.pairwise_map]
  refine rewritable.imp_of_mem ?_
  intro first second listed other writable
  refine ⟨?_, ?_, ?_⟩
  · intro below
    exact below.2 (samePath (same other listed below.1))
  · intro below
    exact below.2 (samePath (same listed other below.1))
  · intro paths
    rw [leavesWritable_writeOf]
    exact writable (same listed other (by rw [paths]))

private theorem rewritable_of_pairwise
    (pairs : (infos.map (writeOf infos)).Pairwise (Write.Admits overrides)) :
    Rewritable overrides infos := by
  refine (List.pairwise_map.mp pairs).imp ?_
  intro first second admits names
  have writable : overrides ∨ (writeOf infos first).leavesWritable := by
    apply admits.writable
    rw [writeOf, writeOf, names]
  rwa [leavesWritable_writeOf] at writable

private theorem apart_of_pairwise (accepted : Accepted reader infos manifest)
    (distinct : Distinct (manifestName :: (entriesOf manifest).map Prod.fst))
    (pairs : (infos.map (writeOf infos)).Pairwise (Write.Admits overrides)) :
    Apart (manifestName :: (entriesOf manifest).map Prod.fst) := by
  have inOrder := List.pairwise_map.mp pairs
  have level : ∀ first ∈ infos, ∀ second ∈ infos,
      ¬(writeOf infos second).path.IsBelow (writeOf infos first).path := by
    intro first listed second other
    have notAbove := inOrder.imp fun admits => admits.notAbove
    refine notAbove.forall_of_forall_of_flip ?_ ?_ listed other
    · exact fun info _ => Tree.not_isBelow_self _
    · exact inOrder.imp fun admits => admits.notBelow
  intro first isFirst second isSecond start
  obtain ⟨info, listed, rfl⟩ := (accepted.members first).mp isFirst
  obtain ⟨other, otherListed, rfl⟩ := (accepted.members second).mp isSecond
  have paths : (writeOf infos info).path = (writeOf infos other).path := by
    by_contra differ
    apply level info listed other otherListed
    rw [← accepted.parts listed, ← accepted.parts otherListed] at start
    exact ⟨start, differ⟩
  refine List.inj_on_of_nodup_map distinct isFirst isSecond ?_
  rw [← accepted.parts listed, ← accepted.parts otherListed, paths]

theorem distinct_of_apart {names : List Str} (nodup : names.Nodup)
    (apart : Apart names) : Distinct names := by
  refine nodup.map_on ?_
  intro first isFirst second isSecond same
  exact apart first isFirst second isSecond (same ▸ List.prefix_rfl)

/-- A release that is accepted is extracted to what its manifest says exactly
if the path of no member is that of another one or on the way to it, and a
member that is written twice can be. -/
theorem extracts_exactly_iff (ran : releaseDoc reader infos = .ok manifest) :
    (∃ tree, extractVerified reader overrides infos = .ok (manifest, tree) ∧
      Exact ((entriesOf manifest).map Prod.fst)
        (Declared reader.doubles (entriesOf manifest)) [manifestPath] tree) ↔
    Apart (manifestName :: (entriesOf manifest).map Prod.fst) ∧
      Rewritable overrides infos := by
  have accepted := accepted_of_releaseDoc ran
  have extracts (tree : Tree) :
      extractVerified reader overrides infos = .ok (manifest, tree) ↔
        Tree.rewriteAll overrides Release.newFileMode Keyed.empty
          (infos.map (writeOf infos)) = some tree := by
    rw [← accepted.foldlM_extractMember fun _ listed => listed, extractVerified,
      ran]
    change (infos.foldlM (extractMember overrides infos) Keyed.empty >>=
      fun tree => .ok (manifest, tree)) = .ok (manifest, tree) ↔ _
    rw [Outcome.bind_eq_ok]
    constructor
    · rintro ⟨_, extracted, same⟩
      cases same
      exact extracted
    · intro extracted
      exact ⟨tree, extracted, rfl⟩
  have writable := Release.ownerWrites_newFileMode
  constructor
  · rintro ⟨tree, extracted, exactly⟩
    have written := (extracts tree).mp extracted
    obtain ⟨wrote, _, pairs⟩ := Tree.wrote_empty.steps writable written
    have distinct := (accepted.writtenFor.length_regularFiles_iff wrote).mp
      (exactly.count.trans rfl)
    exact ⟨apart_of_pairwise accepted distinct pairs,
      rewritable_of_pairwise pairs⟩
  · rintro ⟨apart, rewritable⟩
    have distinct := distinct_of_apart accepted.nodup apart
    obtain ⟨tree, written⟩ := (Tree.rewriteAll_empty_iff writable).mpr
      (pairwise_of_apart accepted apart rewritable)
    have wrote := (Tree.wrote_empty.steps writable written).1
    rw [List.nil_append] at wrote
    refine ⟨tree, (extracts tree).mpr written, ?_, ?_, ?_⟩
    · intro name listed
      obtain ⟨path, file, placed, found, read⟩ := accepted.writtenFor.fileAt
        wrote distinct (List.mem_cons_of_mem _ listed)
      obtain ⟨bytes, isBytes, declared⟩ := accepted.declared name listed
      rw [Except.ok.inj (isBytes.symm.trans read)] at declared
      exact ⟨path, file, placed, found, declared⟩
    · intro path file found
      obtain ⟨name, here, placed⟩ := accepted.writtenFor.only wrote found
      rcases List.mem_cons.mp here with rfl | isEntry
      · rw [place?_manifestName] at placed
        cases placed
        exact .inl (List.mem_singleton_self _)
      · exact .inr ⟨name, isEntry, placed⟩
    · exact (accepted.writtenFor.length_regularFiles_iff wrote).mpr distinct

/-- Both tools extract an archive that they accept to what its manifest says
exactly under these conditions on the names of the members. -/
theorem verified_archives_extract_exactly (verifier : Backup.Verifier)
    (order : List Str → List Str) (permuted : ∀ names, (order names).Perm names)
    (reader : Reader) (overrides : Bool) (infos : List ZipInfo) :
    (∀ verified, Backup.readAndVerify verifier order infos = .ok verified →
      verified.errors = [] →
      (Exact ((Backup.entriesOf verified.manifest).map Prod.fst)
          (Declared verifier.reader.doubles
            (Backup.entriesOf verified.manifest)) [] verified.tree ↔
        Distinct ((Backup.entriesOf verified.manifest).map Prod.fst))) ∧
    ∀ manifest, releaseDoc reader infos = .ok manifest →
      ((∃ tree,
        extractVerified reader overrides infos = .ok (manifest, tree) ∧
        Exact ((entriesOf manifest).map Prod.fst)
          (Declared reader.doubles (entriesOf manifest)) [manifestPath] tree) ↔
      Apart (manifestName :: (entriesOf manifest).map Prod.fst) ∧
        Rewritable overrides infos) := by
  constructor
  · intro verified ran clean
    exact Backup.exact_iff_distinct permuted ran clean
  · intro manifest ran
    exact extracts_exactly_iff ran

def memberOf (name : String) (bytes : List Byte) : ZipInfo :=
  ⟨str name, bytes.length, 0o100644 <<< 16, .ok bytes⟩

def entryOf (member : String × Byte) : Json :=
  .object
    [(str "path", .string (str member.1)), (str "size", .int 1),
      (str "sha256", .string (Sha256.hexdigest [member.2]))]

def manifestBytes (fields : Fields) : List Byte :=
  (Json.object fields).asciiText.map Security.asciiByte

def archiveOf (manifestName : String) (members : List (String × Byte))
    (manifest : Fields) : List ZipInfo :=
  members.map (fun member => memberOf member.1 [member.2]) ++
    [memberOf manifestName (manifestBytes manifest)]

/-- A backup of files that have one byte in them. -/
def backupOf (members : List (String × Byte)) : List ZipInfo :=
  archiveOf "BACKUP-MANIFEST.json" members
    [(str "schema", .string (str "ppc-lab-backup-v1")),
      (str "files", .array (members.map entryOf)),
      (str "policy", .object
        [(str "target_binaries_copied", .bool false),
          (str "api_secrets_copied", .bool false)])]

/-- A release of files that have one byte in them. -/
def releaseOf (members : List (String × Byte)) : List ZipInfo :=
  archiveOf "RELEASE-MANIFEST.json" members
    [(str "schema", .string (str "ppc-lab-release-manifest-v1")),
      (str "files", .array (members.map entryOf))]

def asciiVerifier : Backup.Verifier where
  reader := .ascii
  permissions _ := some 0o644
  overrides := false
  databaseErrors _ := []

def backedUp : List (String × Byte) :=
  [("state/evidence/a", 0x78), ("state/knowledge/a", 0x79)]

def released : List (String × Byte) :=
  [("a/b", 0x78), ("a/c", 0x79)]

private theorem backup_once :
    (Backup.readAndVerify asciiVerifier id (backupOf backedUp)).toOption.map
        (fun verified => (verified.errors.isEmpty,
          (Backup.entriesOf verified.manifest).map Prod.fst)) =
      some (true, backedUp.map (str ·.1)) := by
  decide +kernel

private theorem backup_twice :
    (Backup.readAndVerify asciiVerifier id
      (backupOf [("state/evidence/a", 0x78),
        ("state/evidence/./a", 0x79)])).toOption.map
        (fun verified => (verified.errors.isEmpty,
          verified.tree.regularFiles.length,
          (Backup.entriesOf verified.manifest).length)) =
      some (true, 1, 2) := by
  decide +kernel

private theorem release_once :
    (releaseDoc .ascii (releaseOf released)).toOption.map
      (fun manifest => (entriesOf manifest).map Prod.fst) =
        some (released.map (str ·.1)) := by
  decide +kernel

private theorem release_twice :
    ((extractVerified .ascii false
      (releaseOf [("a/./b", 0x78), ("a/b", 0x79)])).toOption.map
        (fun extracted => (extracted.2.regularFiles.length,
          (entriesOf extracted.1).length))) = some (2, 2) := by
  decide +kernel

private theorem exists_of_toOption {α β : Type} {outcome : Except Failure α}
    {look : α → β} {seen : β} (looks : outcome.toOption.map look = some seen) :
    ∃ result, outcome = .ok result ∧ look result = seen := by
  cases outcome with
  | error _ => cases looks
  | ok result => exact ⟨result, rfl, Option.some.inj looks⟩

/-- A backup and a release of two files each. -/
theorem two_files_extract :
    (∃ verified, Backup.readAndVerify asciiVerifier id
        (backupOf backedUp) = .ok verified ∧
      Exact ((Backup.entriesOf verified.manifest).map Prod.fst)
        (Declared .none (Backup.entriesOf verified.manifest)) []
        verified.tree) ∧
    ∃ manifest tree, extractVerified .ascii false
        (releaseOf released) = .ok (manifest, tree) ∧
      Exact ((entriesOf manifest).map Prod.fst)
        (Declared .none (entriesOf manifest)) [manifestPath] tree := by
  constructor
  · obtain ⟨verified, ran, seen⟩ := exists_of_toOption backup_once
    obtain ⟨clean, paths⟩ := Prod.mk.inj seen
    refine ⟨verified, ran, ?_⟩
    refine ((verified_archives_extract_exactly asciiVerifier id
      (fun names => .refl names) .ascii false _).1 verified ran
        (List.isEmpty_iff.mp clean)).mpr ?_
    rw [paths]
    exact (by decide : (backedUp.map fun file =>
      Paths.pureParts (str file.1)).Nodup)
  · obtain ⟨manifest, ran, paths⟩ := exists_of_toOption release_once
    have conditions : Apart (manifestName ::
        (entriesOf manifest).map Prod.fst) ∧
        Rewritable false (releaseOf released) := by
      rw [paths]
      refine ⟨?_, ?_⟩
      · have names : ∀ first ∈ manifestName :: released.map (str ·.1),
            ∀ second ∈ manifestName :: released.map (str ·.1),
            (Paths.pureParts first).isPrefixOf (Paths.pureParts second) →
              first = second := by
          decide
        intro first isFirst second isSecond start
        exact names first isFirst second isSecond
          (List.isPrefixOf_iff_prefix.mpr start)
      · have members : ((releaseOf released).map ZipInfo.filename).Nodup := by
          decide
        refine (List.pairwise_map.mp members).imp ?_
        intro _ _ differ same
        exact absurd same differ
    obtain ⟨tree, extracted⟩ := ((verified_archives_extract_exactly
      asciiVerifier id (fun names => .refl names) .ascii false _).2 manifest
        ran).mpr conditions
    exact ⟨manifest, tree, extracted⟩

/-- Two spellings of one path are accepted, and the second member is written
over the first one. -/
theorem one_path_two_members :
    (∃ verified, Backup.readAndVerify asciiVerifier id
        (backupOf [("state/evidence/a", 0x78),
          ("state/evidence/./a", 0x79)]) = .ok verified ∧
      verified.errors = [] ∧
      ¬Exact ((Backup.entriesOf verified.manifest).map Prod.fst)
        (Declared .none (Backup.entriesOf verified.manifest)) []
        verified.tree) ∧
    ∃ manifest tree, extractVerified .ascii false
        (releaseOf [("a/./b", 0x78), ("a/b", 0x79)]) = .ok (manifest, tree) ∧
      ¬Exact ((entriesOf manifest).map Prod.fst)
        (Declared .none (entriesOf manifest)) [manifestPath] tree := by
  constructor
  · obtain ⟨verified, ran, seen⟩ := exists_of_toOption backup_twice
    obtain ⟨clean, seen⟩ := Prod.mk.inj seen
    obtain ⟨files, paths⟩ := Prod.mk.inj seen
    refine ⟨verified, ran, List.isEmpty_iff.mp clean, ?_⟩
    intro exactly
    have count := exactly.count
    rw [files, List.length_map, paths] at count
    exact absurd count (by decide)
  · obtain ⟨⟨manifest, tree⟩, ran, seen⟩ := exists_of_toOption release_twice
    obtain ⟨files, paths⟩ := Prod.mk.inj seen
    refine ⟨manifest, tree, ran, ?_⟩
    intro exactly
    have count := exactly.count
    rw [files, List.length_map, paths] at count
    exact absurd count (by decide)

end PpcLab.Upgrade.Extraction
