import PpcLab.Release.Archive
import PpcLab.Replication.Archive

/-!
# Archives of a backup

A backup is an archive with a manifest that lists its members.  The members are
compared with the manifest by their names as they are written, and extracted to
the paths that the names stand for.  An archive can be anything that somebody
hands over, and its manifest any JSON.
-/

namespace PpcLab.Backup

open Explore (Failure sortedSet)
open Json (asObject? asString? find? get)
open Replication.Archive (Reader Stop ZipInfo names readMember)
open Trees (File Tree Write)

def manifestName : Str :=
  str "BACKUP-MANIFEST.json"

/-- The path that a name stands for, below a directory and not outside of
it. -/
def place? (name : Str) : Option Relative :=
  if Paths.isAbsolute name then none
  else Relative.ofParts? (Paths.pureParts name)

/-- `safe_member` -/
def safeMember (name : Str) : Except Failure Relative :=
  match place? name with
  | some path => .ok path
  | none => .error (.reported (str "unsafe backup member: " ++ name))

/-- `is_dir` -/
def isDirectory (info : ZipInfo) : Bool :=
  info.filename.getLast? == some Paths.slash

def checkInfo (info : ZipInfo) : Except Failure Unit := do
  let _ ← safeMember info.filename
  if isDirectory info then
    throw (.reported
      (str "directory members are not permitted: " ++ info.filename))
  else if info.isSymlink then
    throw (.reported
      (str "symlink members are not permitted: " ++ info.filename))
  else return ()

/-- What reading a member comes to for the tool that reads it. -/
def caughtBy (context : String) (name : Str) (infos : List ZipInfo) :
    Except Failure (List Byte) :=
  match readMember infos name with
  | .ok bytes => .ok bytes
  | .error (.caught reason) => .error (.reported (str context ++ reason))
  | .error _ => .error .raised

/-- `manifest.get("files", [])`; what is iterated over can also be a dictionary
or a text, in which there is no entry. -/
def listedItems (manifest : Fields) : Except Failure (List Json) :=
  match find? manifest (str "files") with
  | none | some (.object _) | some (.string _) => .ok []
  | some (.array items) => .ok items
  | some _ => .error .raised

/-- No key of a dictionary. -/
def isUnhashable : Json → Bool
  | .array _ | .object _ => true
  | _ => false

/-- The entries by their paths; a member has a text as its name, so that
another path is the path of none. -/
def expectedItems (mismatch : Failure) (items : List Json) :
    Except Failure (List (Str × Fields)) :=
  let objects := items.filterMap asObject?
  let paths := objects.map fun item => get item (str "path")
  if paths.any isUnhashable then .error .raised
  else if paths.all fun path => (asString? path).isSome then
    .ok ((objects.map fun item =>
      ((asString? (get item (str "path"))).getD [], item)).foldl
        Dictionary.assign [])
  else .error mismatch

/-- A member has the size and the digest that are declared. -/
def hasSize (doubles : Doubles) (item : Fields) (bytes : List Byte) : Bool :=
  doubles.equal (.int bytes.length) (get item (str "size"))

def hasDigest (item : Fields) (bytes : List Byte) : Bool :=
  get item (str "sha256") == .string (Sha256.hexdigest bytes)

/-- What the verifier takes from the world around it. -/
structure Verifier where
  reader : Reader
  /-- `os.chmod` to `int(mode, 8)`, where neither fails. -/
  permissions : Json → Option Nat
  /-- The process may write every file. -/
  overrides : Bool
  /-- What the integrity checks of the databases find. -/
  databaseErrors : Tree → List Str

/-- `set(names) - {"BACKUP-MANIFEST.json"}` -/
def memberSet (infos : List ZipInfo) : List Str :=
  ((names infos).filter (· ≠ manifestName)).dedup

def listing (title : String) (wrong : List Str) : List Str :=
  if wrong.isEmpty then []
  else [str title ++ (str ", ").intercalate (sortedSet wrong)]

def membersErrors (actual expected : List Str) : List Str :=
  listing "missing members: " (expected.filter (· ∉ actual)) ++
    listing "unexpected members: " (actual.filter (· ∉ expected))

/-- The roots below which a backup has its members. -/
def isPermitted (name : Str) : Bool :=
  [str "state/evidence/", str "state/knowledge/", str "state/control/"].any
      (·.isPrefixOf name) ||
    name == str "metadata/deployment.json"

def contentErrors (verifier : Verifier) (item : Fields) (name : Str)
    (bytes : List Byte) : List Str :=
  (if hasSize verifier.reader.doubles item bytes then []
    else [str "size mismatch: " ++ name]) ++
  (if hasDigest item bytes then [] else [str "hash mismatch: " ++ name]) ++
  (if isPermitted name then []
    else [str "member outside permitted backup roots: " ++ name])

/-- The errors of the members that are expected, one after the other. -/
def contentsErrors (verifier : Verifier) (infos : List ZipInfo)
    (expected : List (Str × Fields)) : List Str → Except Failure (List Str)
  | [] => .ok []
  | name :: members => do
      let bytes ← caughtBy "cannot verify backup: " name infos
      let item := (expected.lookup name).getD []
      let others ← contentsErrors verifier infos expected members
      return contentErrors verifier item name bytes ++ others

def policyErrors (manifest : Fields) : Except Failure (List Str) :=
  match (find? manifest (str "policy")).getD (.object []) with
  | .object policy =>
      .ok (if get policy (str "target_binaries_copied") = .bool false ∧
          get policy (str "api_secrets_copied") = .bool false then []
        else [str
          "backup policy must declare no target binaries and no API secrets"])
  | _ => .error .raised

def schemaErrors (manifest : Fields) : List Str :=
  if get manifest (str "schema") = .string (str "ppc-lab-backup-v1") then []
  else [str "schema must be ppc-lab-backup-v1"]

def readManifest (verifier : Verifier) (infos : List ZipInfo) :
    Except Failure Fields := do
  let bytes ← caughtBy "cannot verify backup: " manifestName infos
  match verifier.reader.loads bytes with
  | .value (.object manifest) => return manifest
  | .value _ => throw .raised
  | .malformed reason =>
      throw (.reported (str "cannot verify backup: " ++ reason))
  | .undecodable => throw .unreadable

def extractMember (verifier : Verifier) (infos : List ZipInfo)
    (expected : List (Str × Fields)) (tree : Tree) (name : Str) :
    Except Failure Tree := do
  let bytes ← caughtBy "cannot verify backup: " name infos
  let path ← safeMember name
  let item := (expected.lookup name).getD []
  match verifier.permissions
      ((find? item (str "mode")).getD (.string (str "0644"))) with
  | none => throw .raised
  | some mode =>
      match Tree.rewrite verifier.overrides Release.newFileMode tree
          ⟨path, bytes, some mode⟩ with
      | some tree => return tree
      | none => throw .unreadable

/-- What the restored control state is checked for. -/
def controlErrors (verifier : Verifier) (tree : Tree) :
    Except Failure (List Str) :=
  match (place? (str "state/control/control.json")).bind tree.fileAt with
  | none => .ok []
  | some file =>
      match verifier.reader.loads file.bytes with
      | .value (.object control) =>
          .ok (if get control (str "schema") =
              .string (str "ppc-lab-control-v1") then []
            else [str "restored control.json has unsupported schema"])
      | .value _ => .error .raised
      | .malformed _ => .ok [str "restored control.json is invalid JSON"]
      | .undecodable => .error .raised

/-- A manifest, what is wrong with the archive and what was extracted of it. -/
structure Verified where
  manifest : Fields
  errors : List Str
  tree : Tree

/-- `read_and_verify` into an empty directory.  The members are extracted in
the order in which a set comes. -/
def readAndVerify (verifier : Verifier) (order : List Str → List Str)
    (infos : List ZipInfo) : Except Failure Verified := do
  if (names infos).count manifestName ≠ 1 then
    throw (.reported
      (str "backup must contain exactly one BACKUP-MANIFEST.json"))
  else
    let _ ← infos.mapM checkInfo
    let manifest ← readManifest verifier infos
    let items ← listedItems manifest
    let expected ← expectedItems .raised items
    let actual := memberSet infos
    let contents ← contentsErrors verifier infos expected
      (sortedSet (actual.filter (· ∈ expected.map Prod.fst)))
    let policy ← policyErrors manifest
    let errors := schemaErrors manifest ++
      membersErrors actual (expected.map Prod.fst) ++ contents ++ policy
    if errors ≠ [] then return ⟨manifest, errors, Keyed.empty⟩
    else
      let tree ← (order actual).foldlM (extractMember verifier infos expected)
        Keyed.empty
      let control ← controlErrors verifier tree
      return ⟨manifest, verifier.databaseErrors tree ++ control, tree⟩

/-- There is one file for each path, with the contents that are declared for
the path, and no other file but at some given places. -/
structure Exact (paths : List Str) (declared : Str → List Byte → Prop)
    (others : List Relative) (tree : Tree) : Prop where
  each : ∀ name ∈ paths, ∃ path file, place? name = some path ∧
    tree.fileAt path = some file ∧ declared name file.bytes
  only : ∀ path file, tree.fileAt path = some file →
    path ∈ others ∨ ∃ name ∈ paths, place? name = some path
  count : tree.regularFiles.length = paths.length + others.length

/-- What a manifest declares for a member. -/
def Declared (doubles : Doubles) (expected : List (Str × Fields)) (name : Str)
    (bytes : List Byte) : Prop :=
  ∃ item, expected.lookup name = some item ∧ hasSize doubles item bytes ∧
    hasDigest item bytes

/-- No two names stand for the same path. -/
def Distinct (names : List Str) : Prop :=
  (names.map Paths.pureParts).Nodup

theorem place?_eq_some {name : Str} {path : Relative}
    (placed : place? name = some path) : path.parts = Paths.pureParts name := by
  unfold place? at placed
  split at placed
  · cases placed
  · exact Relative.ofParts?_eq_some.mp placed

theorem safeMember_eq_ok {name : Str} {path : Relative}
    (safe : safeMember name = .ok path) : place? name = some path := by
  unfold safeMember at safe
  split at safe
  · cases safe
    assumption
  · cases safe

private theorem map_parts_filterMap {names : List Str}
    (placed : ∀ name ∈ names, ∃ path, place? name = some path) :
    (names.filterMap place?).map Relative.parts =
      names.map Paths.pureParts := by
  induction names with
  | nil => rfl
  | cons name names induction =>
      obtain ⟨⟨path, here⟩, rest⟩ := List.forall_mem_cons.mp placed
      rw [List.filterMap_cons_some here, List.map_cons, List.map_cons,
        induction rest, place?_eq_some here]

/-- Files that are written for names: for every name what it has as its
contents. -/
structure WrittenFor (names : List Str) (contents : Str → List Byte → Prop)
    (writes : List Write) : Prop where
  named : ∀ write ∈ writes, ∃ name ∈ names,
    place? name = some write.path ∧ contents name write.bytes
  covered : ∀ name ∈ names, ∃ write ∈ writes, place? name = some write.path

section Written

variable {overrides : Bool} {names : List Str}
  {contents : Str → List Byte → Prop} {writes : List Write} {tree : Tree}

/-- There are as many files as names exactly if the names stand for different
paths. -/
theorem WrittenFor.length_regularFiles_iff
    (written : WrittenFor names contents writes)
    (wrote : Tree.Wrote overrides writes tree) :
    tree.regularFiles.length = names.length ↔ Distinct names := by
  have placed : ∀ name ∈ names, ∃ path, place? name = some path :=
    fun name listed =>
      let ⟨write, _, here⟩ := written.covered name listed
      ⟨write.path, here⟩
  have parts : (names.filterMap place?).map Relative.parts =
      names.map Paths.pureParts := map_parts_filterMap placed
  have same : (writes.map Write.path).dedup.Perm
      (names.filterMap place?).dedup := by
    rw [List.perm_ext_iff_of_nodup (List.nodup_dedup _) (List.nodup_dedup _)]
    intro path
    rw [List.mem_dedup, List.mem_dedup, List.mem_map, List.mem_filterMap]
    constructor
    · rintro ⟨write, listed, rfl⟩
      obtain ⟨name, here, isPath, _⟩ := written.named write listed
      exact ⟨name, here, isPath⟩
    · rintro ⟨name, here, isPath⟩
      obtain ⟨write, listed, same⟩ := written.covered name here
      exact ⟨write, listed, Option.some.inj (same.symm.trans isPath)⟩
  have lengths := congrArg List.length parts
  rw [List.length_map, List.length_map] at lengths
  rw [wrote.length_regularFiles, same.length_eq, Distinct, ← parts,
    List.nodup_map_iff fun _ _ => Relative.ext, ← lengths]
  constructor
  · intro whole
    exact List.dedup_eq_self.mp
      ((List.dedup_sublist _).eq_of_length whole)
  · intro nodup
    rw [nodup.dedup]

/-- A path that no other name stands for has the contents of its name. -/
theorem WrittenFor.fileAt (written : WrittenFor names contents writes)
    (wrote : Tree.Wrote overrides writes tree) (distinct : Distinct names)
    {name : Str} (listed : name ∈ names) :
    ∃ path file, place? name = some path ∧ tree.fileAt path = some file ∧
      contents name file.bytes := by
  obtain ⟨write, here, placed⟩ := written.covered name listed
  obtain ⟨file, found⟩ := Option.isSome_iff_exists.mp
    ((wrote.held write.path).mpr ⟨write, here, rfl⟩)
  obtain ⟨last, isLast, path, bytes⟩ := wrote.bytes _ _ found
  obtain ⟨other, isOther, otherPlaced, holds⟩ := written.named last isLast
  rw [path] at otherPlaced
  have same : other = name := by
    refine List.inj_on_of_nodup_map distinct isOther listed ?_
    rw [← place?_eq_some otherPlaced, ← place?_eq_some placed]
  rw [same, bytes] at holds
  exact ⟨write.path, file, placed, found, holds⟩

theorem WrittenFor.only (written : WrittenFor names contents writes)
    (wrote : Tree.Wrote overrides writes tree) {path : Relative} {file : File}
    (found : tree.fileAt path = some file) :
    ∃ name ∈ names, place? name = some path := by
  obtain ⟨write, listed, rfl⟩ :=
    (wrote.held path).mp (Option.isSome_of_eq_some found)
  obtain ⟨name, here, placed, _⟩ := written.named write listed
  exact ⟨name, here, placed⟩

end Written

/-- The entries of a manifest by their paths. -/
def entriesOf (manifest : Fields) : List (Str × Fields) :=
  (((listedItems manifest).bind (expectedItems .raised)).toOption).getD []

theorem nodup_expectedItems {mismatch : Failure} {items : List Json}
    {expected : List (Str × Fields)}
    (read : expectedItems mismatch items = .ok expected) :
    (expected.map Prod.fst).Nodup := by
  unfold expectedItems at read
  dsimp only at read
  split at read
  · cases read
  · split at read
    · cases read
      have nothing : (([] : List (Str × Fields)).map (·.1)).Nodup :=
        List.nodup_nil
      exact Dictionary.nodup_foldl_assign nothing _
    · cases read

theorem caughtBy_eq_ok {context : String} {name : Str} {infos : List ZipInfo}
    {bytes : List Byte} (read : caughtBy context name infos = .ok bytes) :
    readMember infos name = .ok bytes := by
  unfold caughtBy at read
  split at read
  · cases read
    assumption
  · cases read
  · cases read

variable {verifier : Verifier} {infos : List ZipInfo}
  {expected : List (Str × Fields)}

private theorem declared_of_contentsErrors {members : List Str}
    (ran : contentsErrors verifier infos expected members = .ok [])
    {name : Str} (listed : name ∈ members) :
    ∃ bytes, readMember infos name = .ok bytes ∧
      hasSize verifier.reader.doubles ((expected.lookup name).getD []) bytes ∧
      hasDigest ((expected.lookup name).getD []) bytes := by
  induction members with
  | nil => cases listed
  | cons member members induction =>
      obtain ⟨bytes, read, ran⟩ := Outcome.bind_eq_ok.mp ran
      obtain ⟨others, rest, ran⟩ := Outcome.bind_eq_ok.mp ran
      obtain ⟨none, nothing⟩ := List.append_eq_nil_iff.mp (Except.ok.inj ran)
      rcases List.mem_cons.mp listed with rfl | later
      · refine ⟨bytes, caughtBy_eq_ok read, ?_⟩
        simp only [contentErrors, List.append_eq_nil_iff,
          ite_eq_left_iff, List.cons_ne_nil, imp_false, not_not] at none
        exact none.1
      · rw [nothing] at rest
        exact induction rest later

/-- What an archive that is accepted has been found to be. -/
structure Accepted (verifier : Verifier) (order : List Str → List Str)
    (infos : List ZipInfo) (verified : Verified) : Prop where
  nodup : ((entriesOf verified.manifest).map Prod.fst).Nodup
  members : ∀ name, name ∈ memberSet infos ↔
    name ∈ (entriesOf verified.manifest).map Prod.fst
  declared : ∀ name ∈ memberSet infos, ∃ bytes,
    readMember infos name = .ok bytes ∧
      Declared verifier.reader.doubles (entriesOf verified.manifest) name bytes
  extracted : (order (memberSet infos)).foldlM
    (extractMember verifier infos (entriesOf verified.manifest))
      Keyed.empty = .ok verified.tree

private theorem listing_eq_nil {title : String} {wrong : List Str}
    (none : listing title wrong = []) : wrong = [] := by
  unfold listing at none
  split at none
  · rename_i empty
    exact List.isEmpty_iff.mp empty
  · cases none

theorem accepted_of_readAndVerify {order : List Str → List Str}
    {verified : Verified}
    (ran : readAndVerify verifier order infos = .ok verified)
    (clean : verified.errors = []) :
    Accepted verifier order infos verified := by
  unfold readAndVerify at ran
  split at ran
  · cases ran
  · obtain ⟨_, _, ran⟩ := Outcome.bind_eq_ok.mp ran
    obtain ⟨manifest, _, ran⟩ := Outcome.bind_eq_ok.mp ran
    obtain ⟨items, isItems, ran⟩ := Outcome.bind_eq_ok.mp ran
    obtain ⟨expected, isExpected, ran⟩ := Outcome.bind_eq_ok.mp ran
    obtain ⟨contents, isContents, ran⟩ := Outcome.bind_eq_ok.mp ran
    obtain ⟨policy, _, ran⟩ := Outcome.bind_eq_ok.mp ran
    have entries : entriesOf manifest = expected := by
      rw [entriesOf, isItems]
      change ((expectedItems .raised items).toOption).getD [] = expected
      rw [isExpected]
      rfl
    dsimp only at ran
    split at ran
    · rename_i wrong
      cases ran
      exact absurd clean wrong
    · rename_i right
      obtain ⟨tree, extracted, ran⟩ := Outcome.bind_eq_ok.mp ran
      obtain ⟨control, _, ran⟩ := Outcome.bind_eq_ok.mp ran
      cases ran
      have none := not_not.mp right
      rw [List.append_eq_nil_iff, List.append_eq_nil_iff,
        List.append_eq_nil_iff] at none
      obtain ⟨⟨⟨_, sameMembers⟩, noContents⟩, _⟩ := none
      obtain ⟨missing, extra⟩ := List.append_eq_nil_iff.mp sameMembers
      have notMissing := List.filter_eq_nil_iff.mp (listing_eq_nil missing)
      have notExtra := List.filter_eq_nil_iff.mp (listing_eq_nil extra)
      have members : ∀ name, name ∈ memberSet infos ↔
          name ∈ expected.map Prod.fst := by
        intro name
        constructor
        · intro here
          simpa using notExtra name here
        · intro here
          simpa using notMissing name here
      rw [noContents] at isContents
      refine ⟨?_, ?_, ?_, ?_⟩
      · rw [entries]
        exact nodup_expectedItems isExpected
      · rw [entries]
        exact members
      · intro name here
        have listed : name ∈ sortedSet
            ((memberSet infos).filter (· ∈ expected.map Prod.fst)) := by
          rw [sortedSet, List.mem_insertionSort, List.mem_dedup,
            List.mem_filter]
          exact ⟨here, decide_eq_true ((members name).mp here)⟩
        obtain ⟨bytes, read, size, digest⟩ :=
          declared_of_contentsErrors isContents listed
        obtain ⟨⟨_, item⟩, isEntry, rfl⟩ :=
          List.mem_map.mp ((members name).mp here)
        have found := Dictionary.lookup_of_mem
          (nodup_expectedItems isExpected) isEntry
        rw [found] at size digest
        rw [entries]
        exact ⟨bytes, read, item, found, size, digest⟩
      · rw [entries]
        exact extracted

private theorem rewrite_of_extractMember {before after : Tree} {name : Str}
    (ran : extractMember verifier infos expected before name = .ok after) :
    ∃ write : Write, place? name = some write.path ∧
      readMember infos name = .ok write.bytes ∧
      Tree.rewrite verifier.overrides Release.newFileMode before write =
        some after := by
  obtain ⟨bytes, read, ran⟩ := Outcome.bind_eq_ok.mp ran
  obtain ⟨path, safe, ran⟩ := Outcome.bind_eq_ok.mp ran
  dsimp only at ran
  split at ran
  · cases ran
  · rename_i mode _
    split at ran
    · rename_i written
      cases ran
      exact ⟨⟨path, bytes, some mode⟩, safeMember_eq_ok safe,
        caughtBy_eq_ok read, written⟩
    · cases ran

/-- Extracting members writes what is read for them to their paths. -/
theorem writes_of_extractMember {members : List Str} {before after : Tree}
    (ran : members.foldlM (extractMember verifier infos expected) before =
      .ok after) :
    ∃ writes, WrittenFor members
        (fun name bytes => readMember infos name = .ok bytes) writes ∧
      Tree.rewriteAll verifier.overrides Release.newFileMode before writes =
        some after := by
  induction members generalizing before with
  | nil =>
      cases ran
      exact ⟨[], ⟨by simp, by simp⟩, rfl⟩
  | cons name members induction =>
      rw [List.foldlM_cons] at ran
      obtain ⟨next, first, rest⟩ := Outcome.bind_eq_ok.mp ran
      obtain ⟨write, placed, read, written⟩ := rewrite_of_extractMember first
      obtain ⟨writes, each, all⟩ := induction rest
      refine ⟨write :: writes, ⟨?_, ?_⟩,
        Option.bind_eq_some_iff.mpr ⟨next, written, all⟩⟩
      · intro other listed
        rcases List.mem_cons.mp listed with rfl | later
        · exact ⟨name, List.mem_cons_self, placed, read⟩
        · obtain ⟨member, here, isPath, isRead⟩ := each.named other later
          exact ⟨member, List.mem_cons_of_mem _ here, isPath, isRead⟩
      · intro member listed
        rcases List.mem_cons.mp listed with rfl | later
        · exact ⟨write, List.mem_cons_self, placed⟩
        · obtain ⟨other, here, isPath⟩ := each.covered member later
          exact ⟨other, List.mem_cons_of_mem _ here, isPath⟩

/-- An archive that is accepted has been extracted to what its manifest says
exactly if no two of its paths are spellings of one. -/
theorem exact_iff_distinct {order : List Str → List Str}
    (permuted : ∀ names, (order names).Perm names) {verified : Verified}
    (ran : readAndVerify verifier order infos = .ok verified)
    (clean : verified.errors = []) :
    Exact ((entriesOf verified.manifest).map Prod.fst)
        (Declared verifier.reader.doubles (entriesOf verified.manifest)) []
        verified.tree ↔
      Distinct ((entriesOf verified.manifest).map Prod.fst) := by
  have accepted := accepted_of_readAndVerify ran clean
  obtain ⟨writes, each, written⟩ := writes_of_extractMember accepted.extracted
  have wrote :=
    (Tree.wrote_empty.steps Release.ownerWrites_newFileMode written).1
  rw [List.nil_append] at wrote
  have names : (order (memberSet infos)).Perm
      ((entriesOf verified.manifest).map Prod.fst) := by
    refine (permuted _).trans ?_
    have nodup : (memberSet infos).Nodup := List.nodup_dedup _
    rw [List.perm_ext_iff_of_nodup nodup accepted.nodup]
    exact accepted.members
  have distinct : Distinct (order (memberSet infos)) ↔
      Distinct ((entriesOf verified.manifest).map Prod.fst) :=
    (names.map Paths.pureParts).nodup_iff
  rw [← distinct]
  constructor
  · intro exactly
    rw [← each.length_regularFiles_iff wrote, exactly.count, names.length_eq]
    rfl
  · intro different
    refine ⟨?_, ?_, ?_⟩
    · intro name listed
      have here := names.mem_iff.mpr listed
      obtain ⟨path, file, placed, found, read⟩ :=
        each.fileAt wrote different here
      obtain ⟨bytes, isBytes, declared⟩ :=
        accepted.declared name ((permuted _).mem_iff.mp here)
      rw [Except.ok.inj (isBytes.symm.trans read)] at declared
      exact ⟨path, file, placed, found, declared⟩
    · intro path file found
      obtain ⟨name, here, placed⟩ := each.only wrote found
      exact .inr ⟨name, names.mem_iff.mp here, placed⟩
    · rw [(each.length_regularFiles_iff wrote).mpr different, names.length_eq]
      rfl

end PpcLab.Backup
