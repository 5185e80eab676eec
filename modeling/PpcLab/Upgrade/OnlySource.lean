import PpcLab.Release.Reproduction
import PpcLab.Upgrade.Transaction

/-!
# What an upgrade removes

An upgrade removes the managed files that are not in the release.  They are not
all files that a release may contain: the two modules differ in the folders and
the suffixes they leave out.

No link of the repository leads to a place in it, so that a file which comes in
is written at its own path or out of sight.
-/

namespace PpcLab.Upgrade

open Explore (Failure)
open Release (Manifest Member Tooling isSource manifestName manifestPath)
open Trees (File Tree)

/-- A release may contain the file, or it is the manifest of one. -/
def IsReleased (tooling : Tooling) (path : Relative) : Prop :=
  isSource tooling path = true ∨ path = manifestPath

/-- The files of the backup directory that a transaction writes itself. -/
def ownFiles (place : Place) (identifier : Str) : List Relative :=
  match place with
  | .outside => []
  | .inside parts =>
      [snapshotName identifier, transactionName identifier].filterMap
        (backupPath parts)

/-- Every managed file may be part of a release. -/
def OnlySource (tooling : Tooling) (own : List Relative) (tree : Tree) : Prop :=
  ∀ path, path ∉ own → isManaged path = true →
    (tree.fileAt path).isSome = true → IsReleased tooling path

/-- Only files that may be part of a release are removed, and the other files
stay as they are. -/
structure KeepsOthers (tooling : Tooling) (own : List Relative)
    (before after : Tree) : Prop where
  removed : ∀ path, path ∉ own → (before.fileAt path).isSome = true →
    after.fileAt path = none → IsReleased tooling path
  untouched : ∀ path file, path ∉ own → before.fileAt path = some file →
    ¬IsReleased tooling path → after.fileAt path = some file

/-- The files that are not managed stay as they are. -/
def KeepsUnmanaged (own : List Relative) (before after : Tree) : Prop :=
  ∀ path, path ∉ own → isManaged path = false →
    after.fileAt path = before.fileAt path

section Unmanaged

variable {own : List Relative} {before next after : Tree}

theorem KeepsUnmanaged.refl (own : List Relative) (tree : Tree) :
    KeepsUnmanaged own tree tree :=
  fun _ _ _ => rfl

theorem KeepsUnmanaged.trans (first : KeepsUnmanaged own before next)
    (second : KeepsUnmanaged own next after) :
    KeepsUnmanaged own before after := by
  intro path notOwn unmanaged
  rw [second path notOwn unmanaged, first path notOwn unmanaged]

theorem KeepsUnmanaged.keepsOthers {tooling : Tooling}
    (keeps : KeepsUnmanaged own before after)
    (onlySource : OnlySource tooling own before) :
    KeepsOthers tooling own before after := by
  have untouched : ∀ path file, path ∉ own → before.fileAt path = some file →
      ¬IsReleased tooling path → after.fileAt path = some file := by
    intro path file notOwn held notReleased
    rw [keeps path notOwn, held]
    apply Bool.eq_false_of_not_eq_true
    intro managed
    exact notReleased
      (onlySource path notOwn managed (Option.isSome_of_eq_some held))
  refine ⟨?_, untouched⟩
  intro path notOwn there gone
  by_contra notReleased
  obtain ⟨file, held⟩ := Option.isSome_iff_exists.mp there
  rw [untouched path file notOwn held notReleased] at gone
  cases gone

end Unmanaged

section Backups

variable {place : Place} {identifier name : Str} {bytes : List Byte}
  {world after : World}

/-- A path of the backup directory is where the transaction has a file. -/
def IsOwn (place : Place) (own : List Relative) (name : Str) : Prop :=
  ∀ parts path, place = .inside parts → backupPath parts name = some path →
    path ∈ own

theorem isOwn_snapshot (place : Place) (identifier : Str) :
    IsOwn place (ownFiles place identifier) (snapshotName identifier) := by
  intro parts path isInside isPath
  rw [isInside]
  exact List.mem_filterMap.mpr ⟨_, List.mem_cons_self, isPath⟩

theorem isOwn_transaction (place : Place) (identifier : Str) :
    IsOwn place (ownFiles place identifier) (transactionName identifier) := by
  intro parts path isInside isPath
  rw [isInside]
  exact List.mem_filterMap.mpr
    ⟨_, List.mem_cons_of_mem _ List.mem_cons_self, isPath⟩

theorem fileAt_put_of_ne {tree : Tree} {entry : Trees.Entry}
    {path : Relative} (differ : path ≠ entry.path) :
    Tree.fileAt (tree.put entry) path = tree.fileAt path := by
  rw [Tree.fileAt, Keyed.lookup_put_of_ne tree differ, Tree.fileAt]

theorem fileAt_overwriteAt {tree written : Tree} {path other : Relative}
    (wrote : overwriteAt tree path bytes = some written)
    (differ : other ≠ path) : written.fileAt other = tree.fileAt other := by
  unfold overwriteAt at wrote
  split at wrote
  · cases wrote
    exact fileAt_put_of_ne differ
  · split at wrote
    · cases wrote
    · split at wrote
      · cases wrote
        rfl
      · cases wrote
        exact fileAt_put_of_ne differ

/-- Saving a file of the backup directory changes no other one. -/
theorem fileAt_saveBackup {own : List Relative} (isOwn : IsOwn place own name)
    (saved : saveBackup place world name bytes = some after)
    {path : Relative} (notOwn : path ∉ own) :
    after.tree.fileAt path = world.tree.fileAt path := by
  cases place with
  | outside =>
      cases saved
      rfl
  | inside parts =>
      obtain ⟨own, isPath, saved⟩ := Option.bind_eq_some_iff.mp saved
      obtain ⟨tree, wrote, returned⟩ := Option.bind_eq_some_iff.mp saved
      cases returned
      unfold writeText at wrote
      split at wrote
      · apply fileAt_overwriteAt wrote
        intro same
        rw [same] at notOwn
        exact notOwn (isOwn parts own rfl isPath)
      · cases wrote

theorem fileAt_makeBackupDir {done : Bool}
    (made : makeBackupDir place world name = (after, done))
    (path : Relative) : after.tree.fileAt path = world.tree.fileAt path := by
  cases place with
  | outside =>
      cases made
      rfl
  | inside parts =>
      unfold makeBackupDir at made
      dsimp only at made
      split at made
      · cases made
        rfl
      · cases made
        exact (Tree.grown_makeFolders rfl).fileAt

theorem fileAt_saveSnapshot {formats : Formats} {own : List Relative}
    {snapshot : Option (List Byte)} (isOwn : IsOwn place own name)
    (saved : saveSnapshot formats place name world = (after, snapshot))
    {path : Relative} (notOwn : path ∉ own) :
    after.tree.fileAt path = world.tree.fileAt path := by
  unfold saveSnapshot at saved
  split at saved
  · cases saved
    rfl
  · rename_i opened isOpened
    have first := fileAt_saveBackup isOwn isOpened notOwn
    dsimp only at saved
    split at saved
    · split at saved
      · cases saved
        exact first
      · rename_i last isLast
        cases saved
        rw [fileAt_saveBackup isOwn isLast notOwn, first]
    · cases saved
      exact first

end Backups

section Whole

variable {upgrader : Upgrader} {formats : Formats} {place : Place}
  {members : List Member} {archiveSha256 : Str}
  {channels : List (Str × Channel)} {channel : Str} {plan : Plan}
  {world after : World} {own : List Relative}

private theorem keeps_replaceRelease {tree replaced : Tree}
    {outcome : Except Failure Str}
    (isReplaced : replaceRelease upgrader members plan tree =
      (replaced, outcome)) : KeepsUnmanaged own tree replaced := by
  unfold replaceRelease at isReplaced
  split at isReplaced
  · cases isReplaced
    exact .refl _ _
  · split at isReplaced
    · cases isReplaced
      exact .refl _ _
    · rename_i staged isStaged
      cases replacing : replaceFromDir staged tree with
      | mk last done =>
          have keeps : KeepsUnmanaged own tree last :=
            fun path _ unmanaged => fileAt_of_unmanaged replacing unmanaged
          rw [replacing] at isReplaced
          cases done with
          | false =>
              cases isReplaced
              exact keeps
          | true =>
              cases isReplaced
              exact keeps

private theorem keeps_restoreSnapshot (bytes : List Byte) (tree : Tree) :
    KeepsUnmanaged own tree
      (restoreSnapshot upgrader formats bytes tree).1 := by
  unfold restoreSnapshot
  split
  · exact .refl _ _
  · split
    · exact .refl _ _
    · exact fun path _ unmanaged => fileAt_of_unmanaged rfl unmanaged

private theorem keeps_restoreBackup {name : Str} {done : Bool}
    (restored : restoreBackup upgrader formats place name world =
      (after, done)) : KeepsUnmanaged own world.tree after.tree := by
  unfold restoreBackup at restored
  split at restored
  · cases restored
    exact .refl _ _
  · cases restored
    exact keeps_restoreSnapshot _ _

private theorem keeps_saveBackup {name : Str} {bytes : List Byte}
    (isOwn : IsOwn place own name)
    (saved : saveBackup place world name bytes = some after) :
    KeepsUnmanaged own world.tree after.tree :=
  fun _ notOwn _ => fileAt_saveBackup isOwn saved notOwn

private theorem keeps_perform {transaction : Transaction} {outcome}
    (performed : perform upgrader formats place members plan transaction
      world = (after, outcome)) :
    KeepsUnmanaged (ownFiles place transaction.transactionId) world.tree
      after.tree := by
  have isOwn := isOwn_transaction place transaction.transactionId
  unfold perform at performed
  dsimp only at performed
  split at performed
  · rename_i tree version isReplaced
    have keeps : KeepsUnmanaged (ownFiles place transaction.transactionId)
        world.tree tree := keeps_replaceRelease isReplaced
    split at performed
    · rename_i last saved
      cases performed
      exact keeps.trans (keeps_saveBackup isOwn saved)
    · cases performed
      exact keeps
  · rename_i tree failure isReplaced
    have keeps : KeepsUnmanaged (ownFiles place transaction.transactionId)
        world.tree tree := keeps_replaceRelease isReplaced
    split at performed
    · rename_i restored isRestored
      cases performed
      exact keeps.trans (keeps_restoreBackup isRestored)
    · rename_i restored isRestored
      have both := keeps.trans (keeps_restoreBackup isRestored)
      split at performed
      · rename_i last saved
        cases performed
        exact both.trans (keeps_saveBackup isOwn saved)
      · cases performed
        exact both

/-- However an upgrade ends, the files that are not managed are as before. -/
theorem keeps_applyRelease {outcome : Except Failure Transaction}
    (planned : preflight upgrader members world.tree channels channel =
      .ok plan)
    (applied : applyRelease upgrader formats place members archiveSha256
      channels channel world = (after, outcome)) :
    KeepsUnmanaged (ownFiles place (transactionId plan archiveSha256))
      world.tree after.tree := by
  unfold applyRelease at applied
  rw [planned] at applied
  dsimp only at applied
  split at applied
  · cases applied
    exact .refl _ _
  split at applied
  · rename_i made isMade
    cases applied
    exact fun path _ _ => fileAt_makeBackupDir isMade path
  · rename_i made isMade
    have keepsMade : KeepsUnmanaged
        (ownFiles place (transactionId plan archiveSha256)) world.tree
        made.tree :=
      fun path _ _ => fileAt_makeBackupDir isMade path
    split at applied
    · rename_i saved isSaved
      cases applied
      exact keepsMade.trans fun path notOwn _ =>
        fileAt_saveSnapshot (isOwn_snapshot place _) isSaved notOwn
    · rename_i saved snapshot isSaved
      have keepsSaved := keepsMade.trans fun path notOwn _ =>
        fileAt_saveSnapshot (isOwn_snapshot place _) isSaved notOwn
      split at applied
      · cases applied
        exact keepsSaved
      · rename_i ready isReady
        exact (keepsSaved.trans
          (keeps_saveBackup (isOwn_transaction place _) isReady)).trans
          (keeps_perform applied)

/-- An upgrade that was applied: the release took the place of the managed
files, of which the backup directory had only been given its own. -/
structure Applied (upgrader : Upgrader) (place : Place)
    (members : List Member) (own : List Relative) (before after : Tree) where
  ready : Tree
  staged : Tree
  replaced : Tree
  saved : ∀ path, path ∉ own → ready.fileAt path = before.fileAt path
  isStaged : stage upgrader.writer members = .ok staged
  isReplaced : replaceFromDir staged ready = (replaced, true)
  recorded : ∀ path, path ∉ own → after.fileAt path = replaced.fileAt path

private theorem staged_of_replaceRelease {tree replaced : Tree}
    {version : Str}
    (isReplaced : replaceRelease upgrader members plan tree =
      (replaced, .ok version)) :
    ∃ staged, stage upgrader.writer members = .ok staged ∧
      replaceFromDir staged tree = (replaced, true) := by
  unfold replaceRelease at isReplaced
  split at isReplaced
  · cases isReplaced
  · split at isReplaced
    · cases isReplaced
    · rename_i staged isStaged
      cases replacing : replaceFromDir staged tree with
      | mk last done =>
          rw [replacing] at isReplaced
          cases done with
          | false => cases isReplaced
          | true =>
              have same : last = replaced := congrArg Prod.fst isReplaced
              rw [same] at replacing
              exact ⟨staged, isStaged, replacing⟩

theorem applied_of_ok {transaction : Transaction}
    (planned : preflight upgrader members world.tree channels channel =
      .ok plan)
    (applied : applyRelease upgrader formats place members archiveSha256
      channels channel world = (after, .ok transaction)) :
    Nonempty (Applied upgrader place members
      (ownFiles place (transactionId plan archiveSha256)) world.tree
      after.tree) := by
  unfold applyRelease at applied
  rw [planned] at applied
  dsimp only at applied
  split at applied
  · cases applied
  split at applied
  · cases applied
  · rename_i made isMade
    split at applied
    · cases applied
    · rename_i saved snapshot isSaved
      split at applied
      · cases applied
      · rename_i ready isReady
        unfold perform at applied
        dsimp only at applied
        split at applied
        · rename_i tree version isReplaced
          obtain ⟨staged, isStaged, replaced⟩ :=
            staged_of_replaceRelease isReplaced
          split at applied
          · rename_i last isLast
            cases applied
            refine ⟨⟨ready.tree, staged, tree, ?_, isStaged, replaced, ?_⟩⟩
            · intro path notOwn
              rw [fileAt_saveBackup (isOwn_transaction place _) isReady notOwn,
                fileAt_saveSnapshot (isOwn_snapshot place _) isSaved notOwn,
                fileAt_makeBackupDir isMade path]
            · intro path notOwn
              exact fileAt_saveBackup (isOwn_transaction place _) isLast notOwn
          · cases applied
        · split at applied
          · cases applied
          · split at applied
            · cases applied
            · cases applied

private theorem relative_of_safeMember {name : Str} {path : Relative}
    (safe : safeMember name = .ok path) :
    Release.relative? name = some path := by
  unfold safeMember at safe
  cases absolute : Paths.isAbsolute name with
  | true =>
      rw [absolute] at safe
      cases safe
  | false =>
      rw [absolute] at safe
      cases found : Release.relative? name with
      | none =>
          rw [found] at safe
          cases safe
      | some other =>
          rw [found] at safe
          cases safe
          rfl

/-- The path of a file of an archive is that of its member. -/
private theorem named_of_staged {staged : Tree} {path : Relative}
    (isStaged : stage upgrader.writer members = .ok staged)
    (there : (staged.fileAt path).isSome = true) :
    ∃ member ∈ members, Release.relative? member.name = some path := by
  obtain ⟨files, isFiles, installed⟩ := Outcome.bind_eq_ok.mp isStaged
  split at installed
  · rename_i tree isTree
    cases installed
    obtain ⟨file, held⟩ := Option.isSome_iff_exists.mp there
    rcases Tree.mem_of_fileAt_installAll Tree.plain_empty isTree held with
      inFiles | inEmpty
    · obtain ⟨member, inMembers, isFile⟩ :=
        Outcome.exists_of_mem_mapM isFiles _ inFiles
      obtain ⟨other, isPath, found⟩ := Outcome.bind_eq_ok.mp isFile
      refine ⟨member, inMembers, ?_⟩
      split at found
      · cases found
        exact relative_of_safeMember isPath
      · cases found
    · cases inEmpty
  · cases installed

private theorem members_of_createArchive {tooling : Tooling} {source : Tree}
    {excluded : List Relative} {epoch : Int} {manifest : Manifest}
    (archived : Release.createArchive tooling source excluded epoch =
      .ok (manifest, members)) :
    members = Release.archived tooling source excluded epoch manifest := by
  obtain ⟨built, isBuilt, archived⟩ := Outcome.bind_eq_ok.mp archived
  dsimp only at archived
  split at archived
  · cases archived
    rfl
  · cases archived

/-- What comes in are the files of the release. -/
theorem isReleased_of_staged {tooling : Tooling} {source staged : Tree}
    {excluded : List Relative} {epoch : Int} {manifest : Manifest}
    (archived : Release.createArchive tooling source excluded epoch =
      .ok (manifest, members))
    (isStaged : stage upgrader.writer members = .ok staged) {path : Relative}
    (there : (staged.fileAt path).isSome = true) :
    IsReleased tooling path := by
  obtain ⟨member, inMembers, isPath⟩ := named_of_staged isStaged there
  rw [members_of_createArchive archived, Release.archived, List.mem_append,
    List.mem_singleton] at inMembers
  rcases inMembers with isFile | isManifest
  · obtain ⟨file, inSources, same⟩ := List.mem_map.mp isFile
    rw [← same, Release.archivedFile, Release.relative?_posix] at isPath
    cases isPath
    exact .inl (Release.mem_sourceFiles.mp inSources).2.1
  · rw [isManifest, Release.archivedManifest] at isPath
    have named := Release.relative?_posix manifestPath
    have same : manifestPath.posix = manifestName := by
      decide
    rw [same, isPath] at named
    cases named
    exact .inr rfl

end Whole

/-- The files that a transaction writes itself, once it is planned. -/
def transactionFiles (upgrader : Upgrader) (place : Place)
    (members : List Member) (archiveSha256 : Str)
    (channels : List (Str × Channel)) (channel : Str) (tree : Tree) :
    List Relative :=
  match preflight upgrader members tree channels channel with
  | .ok plan => ownFiles place (transactionId plan archiveSha256)
  | .error _ => []

inductive Command where
  | apply (members : List Member) (archiveSha256 : Str)
      (channels : List (Str × Channel)) (channel : Str)
  | rollback (name : Str)

section Commands

variable (upgrader : Upgrader) (formats : Formats) (place : Place)

/-- What a command leaves, whether it succeeds or fails. -/
def Command.run (world : World) : Command → World
  | .apply members archiveSha256 channels channel =>
      (applyRelease upgrader formats place members archiveSha256 channels
        channel world).1
  | .rollback name => (Upgrade.rollback upgrader formats place name world).1

/-- The files of the backup directory that a command writes. -/
def Command.files (world : World) : Command → List Relative
  | .apply members archiveSha256 channels channel =>
      transactionFiles upgrader place members archiveSha256 channels channel
        world.tree
  | .rollback name =>
      match place with
      | .outside => []
      | .inside parts => (backupPath parts name).toList

def filesAlong : World → List Command → List Relative
  | _, [] => []
  | world, command :: commands => command.files upgrader place world ++
      filesAlong (command.run upgrader formats place world) commands

private theorem keeps_rollback (name : Str) (world : World) :
    KeepsUnmanaged ((Command.rollback name).files upgrader place world)
      world.tree (rollback upgrader formats place name world).1.tree := by
  have isOwn : IsOwn place
      ((Command.rollback name).files upgrader place world) name := by
    intro parts path inside found
    subst inside
    simp [Command.files, found]
  unfold rollback
  split
  · exact .refl _ _
  split
  · exact .refl _ _
  split
  · exact .refl _ _
  split
  · rename_i failed
    exact keeps_restoreBackup failed
  rename_i restored
  have keeps : KeepsUnmanaged
      ((Command.rollback name).files upgrader place world) _ _ :=
    keeps_restoreBackup restored
  split
  · exact keeps
  split
  · exact keeps
  dsimp only
  split
  · rename_i saved
    exact keeps.trans (keeps_saveBackup isOwn saved)
  · exact keeps

private theorem keeps_command (command : Command) (world : World) :
    KeepsUnmanaged (command.files upgrader place world) world.tree
      (command.run upgrader formats place world).tree := by
  cases command with
  | rollback name => exact keeps_rollback upgrader formats place name world
  | apply members archiveSha256 channels channel =>
      rw [Command.files, transactionFiles]
      cases planned : preflight upgrader members world.tree channels channel with
      | error failure =>
          rw [Command.run, applyRelease, planned]
          exact .refl _ _
      | ok plan => exact keeps_applyRelease planned rfl

end Commands

open Release (asciiTooling clonedEntries gitConfig smallTree smallEntries
  textFile)

def smallSnapshot : Release.Snapshot :=
  ⟨some Release.snapshotSchema, fun _ => none, fun _ => none, none⟩

def smallManifest : Manifest where
  schema := Release.manifestSchema
  releaseApi := 1
  version := str "3.9.4"
  license := str "GPL-3.0-only"
  cppApi := 1
  cppAbi := 1
  targetProfileApi := 1
  compatibility := smallSnapshot
  files := (Release.sourceFiles asciiTooling smallTree []).map Release.listing

def smallMembers : List Member :=
  Release.archived asciiTooling smallTree [] 946684800 smallManifest

private theorem smallArchive :
    Release.createArchive asciiTooling smallTree [] 946684800 =
      .ok (smallManifest, smallMembers) := by
  apply Release.createArchive_eq_ok
  · rfl
  · decide
  · decide

/-- Tools that find the same declaration in every tree. -/
def asciiUpgrader : Upgrader where
  toTooling := asciiTooling
  numerals := .ascii
  writer manifest := (utf8 manifest.version).getD []
  currentCompat _ := .ok smallSnapshot

/-- Formats that nothing is read back from. -/
def blankFormats : Formats where
  unfinished := []
  zip _ := []
  unzip _ := none
  dump _ := []
  load _ := none

def upgradeSmall (tree : Tree) : Outcome :=
  applyRelease asciiUpgrader blankFormats .outside smallMembers (str "0")
    defaultChannels (str "stable") ⟨tree, []⟩

private theorem transactionFiles_outside (tree : Tree) :
    transactionFiles asciiUpgrader .outside smallMembers (str "0")
      defaultChannels (str "stable") tree = [] := by
  unfold transactionFiles
  split
  · rfl
  · rfl

private theorem isComponent_notes : ∀ part ∈ [str "notes.md"],
    Paths.IsComponent part := by
  decide

def notes : Relative :=
  ⟨[str "notes.md"], List.cons_ne_nil _ _, isComponent_notes⟩

/-- A repository with a file that is not in the release any more. -/
def olderEntries : List Trees.Entry :=
  ⟨notes, false, some (.file (textFile "old"))⟩ :: clonedEntries

private theorem olderEntries_nodup :
    (olderEntries.map Trees.Entry.path).Nodup := by
  decide

def olderTree : Tree :=
  ⟨olderEntries, olderEntries_nodup⟩

private theorem isComponent_editor : ∀ part ∈ [str ".vscode"],
    Paths.IsComponent part := by
  decide

private theorem isComponent_settings :
    ∀ part ∈ [str ".vscode", str "settings.json"],
    Paths.IsComponent part := by
  decide

def editorFolder : Relative :=
  ⟨[str ".vscode"], List.cons_ne_nil _ _, isComponent_editor⟩

def editorSettings : Relative :=
  ⟨[str ".vscode", str "settings.json"], List.cons_ne_nil _ _,
    isComponent_settings⟩

def editorEntries : List Trees.Entry :=
  [⟨editorFolder, false, some .folder⟩,
    ⟨editorSettings, false, some (.file (textFile "\x7b\x7d"))⟩] ++
    smallEntries

private theorem editorEntries_nodup :
    (editorEntries.map Trees.Entry.path).Nodup := by
  decide

def editorTree : Tree :=
  ⟨editorEntries, editorEntries_nodup⟩

end PpcLab.Upgrade
