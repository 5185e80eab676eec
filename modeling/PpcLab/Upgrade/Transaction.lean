import PpcLab.Library.TreeReplace
import PpcLab.Upgrade.Preflight

/-!
# Managed files

An upgrade replaces the managed files of a repository by those of another tree.
Which files are managed is decided by rules of its own, which are not those for
the source files of a release.

Before a repository is changed its managed files are put into a rollback
archive, from which they are restored when the upgrade fails, or when a rollback
is asked for later.  The archive and the record of the transaction are files of
a backup directory, which may be in the repository.

A replacement of the managed files changes no other file; when it comes to its
end, the managed files are those that came in, and no others.  This is so of
repositories whose links lead out of them: what is written through a link is
not seen in the tree.
-/

namespace PpcLab.Upgrade

open Explore (isAmong)
open Trees (File Tree sortedByPath)

/-- `EXCLUDED_TOP` -/
def excludedTop : List Str :=
  [str ".git", str "build", str "build-release", str "build-asan",
    str "__pycache__"]

def inExcludedTop (path : Relative) : Bool :=
  isAmong excludedTop (path.parts.head path.nonempty)

/-- A file is managed by its path. -/
def isManaged (path : Relative) : Bool :=
  !inExcludedTop path && !isAmong path.parts (str "__pycache__") &&
    !isAmong [str ".pyc", str ".pyo"] path.suffix

def managedFiles (tree : Tree) : List (Relative × File) :=
  tree.regularFiles.filter fun file => isManaged file.1

/-- The managed files that do not come in, the deepest first. -/
def obsolete (current incoming : List (Relative × File)) : List Relative :=
  ((current.map Prod.fst).filter fun path =>
    !decide (path ∈ incoming.map Prod.fst)).insertionSort
      fun first second => second.parts.length ≤ first.parts.length

/-- The folders that are tried to be removed, the deepest first. -/
def prunable (tree : Tree) : List Relative :=
  ((tree.entries.filter fun entry => entry.node == some .folder &&
    !inExcludedTop entry.path).map Trees.Entry.path).insertionSort
      fun first second => second.parts.length ≤ first.parts.length

/-- How far the replacement came, and whether that was to the end. -/
def replaceFromDir (source target : Tree) : Tree × Bool :=
  let incoming := sortedByPath (managedFiles source)
  let cleared := target.unlinkAll (obsolete (managedFiles target) incoming)
  match cleared.writeAll incoming with
  | (tree, false) => (tree, false)
  | (tree, true) => (tree.prune (prunable tree), true)

open Explore (Failure)
open Release (Manifest Member)

/-- Where the backup directory is: elsewhere, or at a place in the repository
that no link leads through. -/
inductive Place where
  | outside
  | inside (parts : List Str)

/-- A repository, none of whose links leads to a place in it, and the files of a
backup directory elsewhere. -/
structure World where
  tree : Tree
  backups : List (Str × List Byte)

inductive Status where
  | prepared
  | applied
  | rolledBackAfterFailure
  | rolledBack
  deriving DecidableEq

structure Transaction where
  transactionId : Str
  status : Status
  fromVersion : Str
  toVersion : Str
  archiveSha256 : Str
  rollbackSha256 : Str
  channel : Str
  resultVersion : Option Str
  rollbackResultVersion : Option Str

/-- The formats of the files of a backup directory. -/
structure Formats where
  /-- What is in an archive while it is being written. -/
  unfinished : List Byte
  zip : List Member → List Byte
  unzip : List Byte → Option (List Member)
  dump : Transaction → List Byte
  load : List Byte → Option Transaction

/-- A name that an archive can have in UTF-8. -/
def isStorable (member : Member) : Bool :=
  (utf8 member.name).isSome

/-- The path in the repository of a file of the backup directory. -/
def backupPath (parts : List Str) (name : Str) : Option Relative :=
  Relative.ofParts? (parts ++ Paths.pureParts name)

/-- A file is opened for writing: it keeps its permissions, and a link is
followed. -/
def overwriteAt (tree : Tree) (path : Relative) (bytes : List Byte) :
    Option Tree :=
  match tree.lookup path with
  | none => some (tree.put ⟨path, false,
      some (.file ⟨bytes, Release.newFileMode, false⟩)⟩)
  | some entry =>
      match entry.file? with
      | none => none
      | some file =>
          if entry.isLink then some tree
          else some (tree.put
            ⟨path, false, some (.file { file with bytes := bytes })⟩)

/-- A file is written into a folder that is there. -/
def writeText (tree : Tree) (path : Relative) (bytes : List Byte) :
    Option Tree :=
  if path.folders.all fun folder => decide (tree.hasFolder folder) then
    overwriteAt tree path bytes
  else none

def saveBackup (place : Place) (world : World) (name : Str)
    (bytes : List Byte) : Option World :=
  match place with
  | .outside => some
      { world with backups := Dictionary.assign world.backups (name, bytes) }
  | .inside parts => do
      let path ← backupPath parts name
      let tree ← writeText world.tree path bytes
      return { world with tree := tree }

/-- `backup_dir.mkdir(parents=True, exist_ok=True)`, as far as the file needs
it. -/
def makeBackupDir (place : Place) (world : World) (name : Str) : World × Bool :=
  match place with
  | .outside => (world, true)
  | .inside parts =>
      match backupPath parts name with
      | none => (world, false)
      | some path =>
          let (tree, done) := world.tree.makeFolders path.folders
          ({ world with tree := tree }, done)

def loadBackup (place : Place) (world : World) (name : Str) :
    Option (List Byte) :=
  match place with
  | .outside => world.backups.lookup name
  | .inside parts => do
      let path ← backupPath parts name
      let entry ← world.tree.lookup path
      let file ← entry.file?
      return file.bytes

def snapshotFile (file : Relative × File) : Member where
  name := file.1.posix
  time := Zip.zipTime 0
  mode := Zip.regularFile + file.2.mode
  content := .bytes file.2.bytes

def snapshotTree (tree : Tree) : List Member :=
  (sortedByPath (managedFiles tree)).map snapshotFile

/-- A member below a stage: the path is its own, the bytes are those of the last
member with its name. -/
def stagedFile (writer : Release.Writer) (members : List Member)
    (member : Member) : Except Failure (Relative × File) := do
  let path ← safeMember member.name
  match (infos members).lookup member.name with
  | some last => return (path,
      { Release.extracted writer member with bytes := memberBytes writer last })
  | none => throw .raised

/-- The members as files of an empty directory. -/
def stage (writer : Release.Writer) (members : List Member) :
    Except Failure Tree := do
  let files ← members.mapM (stagedFile writer members)
  match Tree.installAll Keyed.empty files with
  | some tree => return tree
  | none => throw .unreadable

variable (upgrader : Upgrader) (formats : Formats) (place : Place)

def restoreSnapshot (bytes : List Byte) (tree : Tree) : Tree × Bool :=
  match formats.unzip bytes with
  | none => (tree, false)
  | some members =>
      match stage upgrader.writer members with
      | .error _ => (tree, false)
      | .ok staged => replaceFromDir staged tree

/-- The archive that was saved under a name is restored. -/
def restoreBackup (name : Str) (world : World) : World × Bool :=
  match loadBackup place world name with
  | none => (world, false)
  | some bytes =>
      let (tree, done) := restoreSnapshot upgrader formats bytes world.tree
      ({ world with tree := tree }, done)

def transactionId (plan : Plan) (archiveSha256 : Str) : Str :=
  plan.currentVersion ++ str "-to-" ++ plan.incomingVersion ++ str "-" ++
    archiveSha256.take 12

def snapshotName (identifier : Str) : Str :=
  identifier ++ str ".rollback.zip"

def transactionName (identifier : Str) : Str :=
  identifier ++ str ".json"

/-- How an upgrade ends: a transaction, or an exception that names none. -/
abbrev Outcome :=
  World × Except Failure Transaction

/-- The release takes the place of the managed files.  The tree is what is
there afterwards, whatever happened. -/
def replaceRelease (members : List Member) (plan : Plan) (tree : Tree) :
    Tree × Except Failure Str :=
  match releaseDoc upgrader.writer members with
  | .error failure => (tree, .error failure)
  | .ok _ =>
      match stage upgrader.writer members with
      | .error failure => (tree, .error failure)
      | .ok staged =>
          match replaceFromDir staged tree with
          | (replaced, false) => (replaced, .error .unreadable)
          | (replaced, true) => (replaced,
              match currentVersion replaced with
              | .error failure => .error failure
              | .ok version =>
                  if version = plan.incomingVersion then .ok version
                  else .error (.reported
                    (str "applied tree version mismatch")))

/-- The steps after the transaction was prepared. -/
def perform (members : List Member) (plan : Plan) (transaction : Transaction)
    (world : World) : Outcome :=
  let name := transactionName transaction.transactionId
  match replaceRelease upgrader members plan world.tree with
  | (tree, .ok version) =>
      let applied := { transaction with
        status := .applied
        resultVersion := some version }
      match saveBackup place { world with tree := tree } name
        (formats.dump applied) with
      | some after => (after, .ok applied)
      | none => ({ world with tree := tree }, .error .unreadable)
  | (tree, .error failure) =>
      match restoreBackup upgrader formats place
        (snapshotName transaction.transactionId) { world with tree := tree } with
      | (restored, false) => (restored, .error .unreadable)
      | (restored, true) =>
          match saveBackup place restored name (formats.dump
            { transaction with status := .rolledBackAfterFailure }) with
          | some after => (after, .error failure)
          | none => (restored, .error .unreadable)

def prepared (plan : Plan) (archiveSha256 : Str) (snapshot : List Byte) :
    Transaction where
  transactionId := transactionId plan archiveSha256
  status := .prepared
  fromVersion := plan.currentVersion
  toVersion := plan.incomingVersion
  archiveSha256 := archiveSha256
  rollbackSha256 := Sha256.hexdigest snapshot
  channel := plan.channel
  resultVersion := none
  rollbackResultVersion := none

/-- The managed files are listed after the archive was opened for writing. -/
def saveSnapshot (name : Str) (world : World) : World × Option (List Byte) :=
  match saveBackup place world name formats.unfinished with
  | none => (world, none)
  | some opened =>
      let members := snapshotTree opened.tree
      if members.all isStorable then
        match saveBackup place opened name (formats.zip members) with
        | none => (opened, none)
        | some saved => (saved, some (formats.zip members))
      else (opened, none)

def applyRelease (members : List Member) (archiveSha256 : Str)
    (channels : List (Str × Channel)) (channel : Str) (world : World) :
    Outcome :=
  match preflight upgrader members world.tree channels channel with
  | .error failure => (world, .error failure)
  | .ok plan =>
      if plan.errors ≠ [] then
        (world, .error (.reported (str "preflight failed: " ++
          (str "; ").intercalate plan.errors)))
      else
        let name := snapshotName (transactionId plan archiveSha256)
        match makeBackupDir place world name with
        | (made, false) => (made, .error .unreadable)
        | (made, true) =>
            match saveSnapshot formats place name made with
            | (saved, none) => (saved, .error .unreadable)
            | (saved, some snapshot) =>
                let transaction := prepared plan archiveSha256 snapshot
                match saveBackup place saved
                  (transactionName transaction.transactionId)
                  (formats.dump transaction) with
                | none => (saved, .error .unreadable)
                | some ready =>
                    perform upgrader formats place members plan transaction ready

/-- The rollback of the transaction that is recorded under a name. -/
def rollback (name : Str) (world : World) : Outcome :=
  match (loadBackup place world name).bind formats.load with
  | none => (world, .error .unreadable)
  | some transaction =>
      match loadBackup place world
        (snapshotName transaction.transactionId) with
      | none => (world, .error
          (.reported (str "rollback archive is missing or hash-mismatched")))
      | some snapshot =>
          if Sha256.hexdigest snapshot ≠ transaction.rollbackSha256 then
            (world, .error
              (.reported (str "rollback archive is missing or hash-mismatched")))
          else
            match restoreBackup upgrader formats place
              (snapshotName transaction.transactionId) world with
            | (restored, false) => (restored, .error .unreadable)
            | (restored, true) =>
                match currentVersion restored.tree with
                | .error failure => (restored, .error failure)
                | .ok version =>
                    if version ≠ transaction.fromVersion then
                      (restored, .error (.reported
                        (str "rollback restored unexpected version " ++
                          version)))
                    else
                      let rolledBack := { transaction with
                        status := .rolledBack
                        rollbackResultVersion := some version }
                      match saveBackup place restored name
                        (formats.dump rolledBack) with
                      | some after => (after, .ok rolledBack)
                      | none => (restored, .error .unreadable)

end PpcLab.Upgrade

namespace PpcLab.Upgrade

open Trees (File Tree sortedByPath)

section Managed

variable {tree : Tree} {path : Relative} {file : File}

theorem mem_managedFiles :
    (path, file) ∈ managedFiles tree ↔
      tree.fileAt path = some file ∧ isManaged path = true := by
  rw [managedFiles, List.mem_filter, Tree.mem_regularFiles_iff]

theorem mem_managedPaths :
    path ∈ (managedFiles tree).map Prod.fst ↔
      (tree.fileAt path).isSome = true ∧ isManaged path = true := by
  rw [List.mem_map]
  constructor
  · intro given
    obtain ⟨entry, member, same⟩ := given
    obtain ⟨held, managed⟩ := mem_managedFiles.mp member
    rw [← same]
    exact ⟨Option.isSome_of_eq_some held, managed⟩
  · intro given
    obtain ⟨found, managed⟩ := given
    obtain ⟨file, held⟩ := Option.isSome_iff_exists.mp found
    exact ⟨(path, file), mem_managedFiles.mpr ⟨held, managed⟩, rfl⟩

theorem mem_sortedPaths {files : List (Relative × File)} :
    path ∈ (sortedByPath files).map Prod.fst ↔ path ∈ files.map Prod.fst :=
  ((List.perm_insertionSort _ files).map Prod.fst).mem_iff

theorem mem_obsolete {current incoming : List (Relative × File)} :
    path ∈ obsolete current incoming ↔
      path ∈ current.map Prod.fst ∧ path ∉ incoming.map Prod.fst := by
  rw [obsolete, (List.perm_insertionSort _ _).mem_iff, List.mem_filter,
    Bool.not_eq_true', decide_eq_false_iff_not]

end Managed

section Replacement

variable {source target after : Tree} {path : Relative} {done : Bool}

private theorem fileAt_unlinkAll (tree : Tree) (paths : List Relative) :
    (tree.unlinkAll paths).fileAt path =
      if path ∈ paths then none else tree.fileAt path := by
  rw [Tree.fileAt, Tree.lookup_unlinkAll]
  split
  · rfl
  · rfl

/-- How far a replacement came: some of the files that come in are written. -/
theorem replaced_touched
    (replaced : replaceFromDir source target = (after, done)) :
    ∃ written, Tree.Touched ((managedFiles source).map Prod.fst)
        (target.unlinkAll (obsolete (managedFiles target)
          (sortedByPath (managedFiles source)))) written ∧
      ∀ path, after.fileAt path = written.fileAt path := by
  unfold replaceFromDir at replaced
  cases wrote : (target.unlinkAll (obsolete (managedFiles target)
      (sortedByPath (managedFiles source)))).writeAll
      (sortedByPath (managedFiles source)) with
  | mk written finished =>
      have touched := (Tree.touched_writeAll wrote).mono fun path member =>
        mem_sortedPaths.mp member
      refine ⟨written, touched, ?_⟩
      intro path
      dsimp only at replaced
      rw [wrote] at replaced
      cases finished with
      | false =>
          cases replaced
          rfl
      | true =>
          cases replaced
          exact (Tree.pruned_prune written _).fileAt

theorem fileAt_of_unmanaged
    (replaced : replaceFromDir source target = (after, done))
    (unmanaged : isManaged path = false) :
    after.fileAt path = target.fileAt path := by
  obtain ⟨written, touched, same⟩ := replaced_touched replaced
  have notManaged : ∀ tree : Tree,
      path ∉ (managedFiles tree).map Prod.fst := by
    intro tree member
    rw [(mem_managedPaths.mp member).2] at unmanaged
    cases unmanaged
  rw [same, touched.fileAt (notManaged source), fileAt_unlinkAll, if_neg]
  intro member
  exact notManaged target (mem_obsolete.mp member).1

/-- What did not come in is gone, even from a replacement that failed. -/
theorem fileAt_of_absent
    (replaced : replaceFromDir source target = (after, done))
    (managed : isManaged path = true) (absent : source.fileAt path = none) :
    after.fileAt path = none := by
  obtain ⟨written, touched, same⟩ := replaced_touched replaced
  have outside : path ∉ (managedFiles source).map Prod.fst := by
    intro member
    have found := (mem_managedPaths.mp member).1
    rw [absent] at found
    cases found
  rw [same, touched.fileAt outside, fileAt_unlinkAll]
  split
  · rfl
  · rename_i kept
    rw [mem_obsolete, not_and, not_not] at kept
    rw [← Option.not_isSome_iff_eq_none]
    intro there
    exact outside (mem_sortedPaths.mp
      (kept (mem_managedPaths.mpr ⟨there, managed⟩)))

end Replacement

end PpcLab.Upgrade
