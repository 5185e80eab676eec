import PpcLab.Release.RoundTrip

/-!
# Reproducible releases

Two trees with the same files give the same archive, whatever else the
permissions of the files are and in whatever order they are found.
-/

namespace PpcLab.Release

open Trees (Entry File Node Tree sortedByPath)

/-- What a release takes from a file. -/
def withoutMode (file : File) : File :=
  { file with mode := 0 }

def nodeWithoutMode : Node → Node
  | .file file => .file (withoutMode file)
  | node => node

def entryWithoutMode (entry : Entry) : Entry :=
  { entry with node := entry.node.map nodeWithoutMode }

/-- Two trees with the same paths, bytes and executable files. -/
def Alike (left right : Tree) : Prop :=
  ∀ path, (left.lookup path).map entryWithoutMode =
    (right.lookup path).map entryWithoutMode

/-- The compatibility script sees what a release takes from a tree. -/
def ReadsFiles (tooling : Tooling) : Prop :=
  ∀ left right, Alike left right →
    tooling.buildSnapshot left = tooling.buildSnapshot right

section

variable {tooling : Tooling} {left right : Tree} {excluded : List Relative}

theorem file?_entryWithoutMode (entry : Entry) :
    (entryWithoutMode entry).file? = entry.file?.map withoutMode := by
  obtain ⟨path, link, node⟩ := entry
  cases node with
  | none => rfl
  | some node => cases node <;> rfl

theorem Alike.bytes (alike : Alike left right) (path : Relative) :
    readFile left path = readFile right path := by
  have held : ((left.lookup path).bind Trees.Entry.file?).map withoutMode =
      ((right.lookup path).bind Trees.Entry.file?).map withoutMode := by
    have read (tree : Tree) :
        ((tree.lookup path).bind Trees.Entry.file?).map withoutMode =
          ((tree.lookup path).map entryWithoutMode).bind
            Trees.Entry.file? := by
      cases tree.lookup path with
      | none => rfl
      | some entry =>
          rw [Option.map_some, Option.bind_some, Option.bind_some,
            file?_entryWithoutMode]
    rw [read left, read right, alike path]
  rw [readFile, readFile]
  generalize (left.lookup path).bind Trees.Entry.file? = first at held
  generalize (right.lookup path).bind Trees.Entry.file? = second at held
  cases first with
  | none =>
      cases second with
      | none => rfl
      | some file => cases held
  | some file =>
      cases second with
      | none => cases held
      | some other =>
          have same := congrArg File.bytes (Option.some.inj held)
          exact congrArg Except.ok same

theorem Alike.fileAt (alike : Alike left right) (path : Relative) :
    (left.fileAt path).map withoutMode = (right.fileAt path).map withoutMode := by
  have held (tree : Tree) : (tree.fileAt path).map withoutMode =
      ((tree.lookup path).map entryWithoutMode).bind fun entry =>
        if entry.isLink then none else entry.file? := by
    rw [Tree.fileAt]
    cases tree.lookup path with
    | none => rfl
    | some entry =>
        rw [Option.map_some, Option.bind_some, Option.bind_some,
          file?_entryWithoutMode]
        cases link : entry.isLink with
        | true => simp [entryWithoutMode, link]
        | false => simp [entryWithoutMode, link]
  rw [held left, held right, alike path]

private theorem mem_map_filter {tree : Tree} {wanted : Relative → Bool}
    {path : Relative} {file : File} :
    (path, file) ∈ (tree.regularFiles.filter fun file => wanted file.1).map
        (Prod.map id withoutMode) ↔
      wanted path ∧ (tree.fileAt path).map withoutMode = some file := by
  rw [List.mem_map]
  constructor
  · intro given
    obtain ⟨source, member, same⟩ := given
    cases same
    obtain ⟨regular, admitted⟩ := List.mem_filter.mp member
    refine ⟨admitted, ?_⟩
    dsimp only [id]
    rw [Tree.mem_regularFiles_iff.mp regular]
    rfl
  · intro given
    obtain ⟨admitted, held⟩ := given
    obtain ⟨original, there, same⟩ := Option.map_eq_some_iff.mp held
    refine ⟨(path, original), ?_, ?_⟩
    · exact List.mem_filter.mpr ⟨Tree.mem_regularFiles_iff.mpr there, admitted⟩
    · rw [← same]
      rfl

private theorem fst_map (files : List (Relative × File)) :
    (files.map (Prod.map id withoutMode)).map Prod.fst =
      files.map Prod.fst := by
  rw [List.map_map]
  rfl

/-- What the release takes from the source files. -/
theorem Alike.sourceFiles (alike : Alike left right) :
    (sourceFiles tooling left excluded).map (Prod.map id withoutMode) =
      (sourceFiles tooling right excluded).map (Prod.map id withoutMode) := by
  have nodup (tree : Tree) (wanted : Relative → Bool) :
      (((tree.regularFiles.filter fun file => wanted file.1).map
        (Prod.map id withoutMode)).map Prod.fst).Nodup := by
    rw [fst_map]
    exact tree.nodup_regularFiles.sublist (List.filter_sublist.map Prod.fst)
  have perm (wanted : Relative → Bool) :
      ((left.regularFiles.filter fun file => wanted file.1).map
        (Prod.map id withoutMode)).Perm
      ((right.regularFiles.filter fun file => wanted file.1).map
        (Prod.map id withoutMode)) := by
    apply (List.perm_ext_iff_of_nodup (List.Nodup.of_map _ (nodup left wanted))
      (List.Nodup.of_map _ (nodup right wanted))).mpr
    intro file
    obtain ⟨path, file⟩ := file
    rw [mem_map_filter, mem_map_filter, alike.fileAt path]
  rw [Release.sourceFiles, Release.sourceFiles, ← Trees.sortedByPath_map,
    ← Trees.sortedByPath_map]
  exact Trees.sortedByPath_eq_of_perm (nodup left fun path =>
    isSource tooling path && !decide (path ∈ excluded)) (perm fun path =>
    isSource tooling path && !decide (path ∈ excluded))

/-- What depends on the paths, the bytes and the permissions to run only. -/
private theorem Alike.map_sourceFiles {β : Type} (alike : Alike left right)
    {use : Relative × File → β}
    (plain : ∀ file, use (Prod.map id withoutMode file) = use file) :
    (Release.sourceFiles tooling left excluded).map use =
      (Release.sourceFiles tooling right excluded).map use := by
  have through (files : List (Relative × File)) :
      files.map use = (files.map (Prod.map id withoutMode)).map use := by
    rw [List.map_map]
    exact List.map_congr_left fun file _ => (plain file).symm
  rw [through, alike.sourceFiles, ← through]

theorem Alike.buildManifest (alike : Alike left right)
    (reads : ReadsFiles tooling) :
    buildManifest tooling left excluded =
      buildManifest tooling right excluded := by
  have paths : (Release.sourceFiles tooling left excluded).map (·.1.posix) =
      (Release.sourceFiles tooling right excluded).map (·.1.posix) :=
    alike.map_sourceFiles fun _ => rfl
  have listings : (Release.sourceFiles tooling left excluded).map listing =
      (Release.sourceFiles tooling right excluded).map listing :=
    alike.map_sourceFiles fun _ => rfl
  have version : projectVersion left = projectVersion right := by
    rw [projectVersion, projectVersion, alike.bytes]
  have compatibility : compatibilitySnapshot tooling left =
      compatibilitySnapshot tooling right := by
    rw [compatibilitySnapshot, compatibilitySnapshot, alike.bytes,
      reads left right alike]
  rw [Release.buildManifest, Release.buildManifest, paths, listings, version, compatibility]

/-- Alike trees are archived alike. -/
theorem Alike.createArchive (alike : Alike left right)
    (reads : ReadsFiles tooling) (epoch : Int) :
    createArchive tooling left excluded epoch =
      createArchive tooling right excluded epoch := by
  have members :
      (Release.sourceFiles tooling left excluded).map (archivedFile epoch) =
        (Release.sourceFiles tooling right excluded).map (archivedFile epoch) :=
    alike.map_sourceFiles fun _ => rfl
  rw [Release.createArchive, Release.createArchive, alike.buildManifest reads,
    members]

end

section

variable {tooling : Tooling} {tree : Tree} {excluded : List Relative}
  {epoch : Int} {manifest : Manifest}

private theorem zipTime_lt (early : epoch < Zip.endTime) :
    Zip.zipTime epoch < Zip.endTime := by
  have second : (max epoch Zip.firstTime).toNat < Zip.endTime := by
    have first : Zip.firstTime < (Zip.endTime : Int) := by
      decide
    have nonneg : 0 ≤ max epoch Zip.firstTime :=
      le_max_of_le_right (by decide)
    exact (Int.toNat_lt nonneg).mpr (max_lt early first)
  exact lt_of_le_of_lt (Nat.sub_le _ _) second

/-- An archive can be written when its names and its date have a place in the
headers. -/
theorem createArchive_eq_ok
    (built : buildManifest tooling tree excluded = .ok manifest)
    (named : ∀ file ∈ sourceFiles tooling tree excluded,
      (utf8 file.1.posix).isSome) (early : epoch < Zip.endTime) :
    createArchive tooling tree excluded epoch =
      .ok (manifest, archived tooling tree excluded epoch manifest) := by
  have dated := zipTime_lt early
  have writable : (archived tooling tree excluded epoch manifest).all
      Zip.isWritable = true := by
    rw [List.all_eq_true]
    intro member there
    rcases List.mem_append.mp there with file | last
    · obtain ⟨source, inside, rfl⟩ := List.mem_map.mp file
      simp [Zip.isWritable, archivedFile, named source inside, dated]
    · have name : (utf8 manifestName).isSome = true := by
        decide
      rw [List.mem_singleton.mp last]
      simp [Zip.isWritable, archivedManifest, name, dated]
  rw [createArchive, built]
  exact if_pos writable

end

/-- A release comes back exactly when its names are portable and its version is
in the archive, and alike trees are released alike. -/
theorem release_round_trip (tooling : Tooling) (writer : Writer) {tree : Tree}
    (rooted : Rooted tree) {excluded : List Relative} {epoch : Int}
    {manifest : Manifest}
    (built : buildManifest tooling tree excluded = .ok manifest)
    (named : ∀ file ∈ sourceFiles tooling tree excluded,
      (utf8 file.1.posix).isSome) (early : epoch < Zip.endTime)
    (reads : ReadsFiles tooling) :
    (∃ members,
      createArchive tooling tree excluded epoch = .ok (manifest, members) ∧
        (RoundTrips tooling writer (sourceFiles tooling tree excluded) manifest
            members ↔
          Portable tooling (sourceFiles tooling tree excluded))) ∧
      ∀ other, Alike tree other → createArchive tooling other excluded epoch =
        createArchive tooling tree excluded epoch := by
  constructor
  · refine ⟨_, createArchive_eq_ok built named early, ?_, ?_⟩
    · exact portable_of_roundTrips built
    · exact roundTrips_of_portable rooted built
  · intro other alike
    exact (alike.createArchive reads epoch).symm

private theorem isComponent_drive : ∀ part ∈ [str "c:notes"],
    Paths.IsComponent part := by
  decide

/-- The folder of the compatibility script. -/
def scripts : Relative :=
  ⟨compatScript.parts.take 1, List.cons_ne_nil _ _, fun part listed =>
    compatScript.components part (List.mem_of_mem_take listed)⟩

/-- A name with a colon. -/
def drive : Relative :=
  ⟨[str "c:notes"], List.cons_ne_nil _ _, isComponent_drive⟩

def textFile (text : String) : File :=
  ⟨(utf8 (str text)).getD [], 0o644, false⟩

def smallEntries : List Entry :=
  [⟨cmakeLists, false,
      some (.file (textFile "project(PPCLab VERSION 3.9.4)"))⟩,
    ⟨scripts, false, some .folder⟩,
    ⟨compatScript, false, some (.file (textFile (String.append
      "def build_snapshot(root): "
      "return dict(schema='ppc-lab-compatibility-snapshot-v1')")))⟩]

private theorem smallEntries_nodup : (smallEntries.map Entry.path).Nodup := by
  decide

def smallTree : Tree :=
  ⟨smallEntries, smallEntries_nodup⟩

private theorem isComponent_git : ∀ part ∈ [str ".git", str "config"],
    Paths.IsComponent part := by
  decide

private theorem isComponent_gitFolder : ∀ part ∈ [str ".git"],
    Paths.IsComponent part := by
  decide

def gitConfig : Relative :=
  ⟨[str ".git", str "config"], List.cons_ne_nil _ _, isComponent_git⟩

/-- The small tree in another order, in a repository. -/
def clonedEntries : List Entry :=
  smallEntries.reverse ++
    [⟨⟨[str ".git"], List.cons_ne_nil _ _, isComponent_gitFolder⟩, false,
        some .folder⟩,
      ⟨gitConfig, false, some (.file (textFile "[core]"))⟩]

private theorem clonedEntries_nodup :
    (clonedEntries.map Entry.path).Nodup := by
  decide

def clonedTree : Tree :=
  ⟨clonedEntries, clonedEntries_nodup⟩

def driveEntries : List Entry :=
  ⟨drive, false, some (.file (textFile ""))⟩ :: smallEntries

private theorem driveEntries_nodup : (driveEntries.map Entry.path).Nodup := by
  decide

def driveTree : Tree :=
  ⟨driveEntries, driveEntries_nodup⟩

/-- Tools for texts in ASCII. -/
def asciiTooling : Tooling where
  unicode := .ascii
  portablePathKey := Unicode.ascii.lower
  buildSnapshot _ := .ok ⟨some snapshotSchema, fun _ => none, fun _ => none, none⟩
  osError := str "No such file or directory"

private theorem exists_manifest (tree : Tree)
    (clear : collisionErrors asciiTooling
      ((sourceFiles asciiTooling tree []).map (·.1.posix)) "source" = [])
    (versioned : projectVersion tree = .ok (str "3.9.4")) {bytes : List Byte}
    (script : readFile tree compatScript = .ok bytes) :
    ∃ manifest, buildManifest asciiTooling tree [] = .ok manifest := by
  rw [buildManifest, if_neg (not_not.mpr clear), versioned,
    compatibilitySnapshot, script]
  exact ⟨_, rfl⟩

private theorem smallTree_manifest :
    ∃ manifest, buildManifest asciiTooling smallTree [] = .ok manifest :=
  exists_manifest smallTree (by decide) (by rfl) (by rfl)

private theorem smallTree_portable :
    Portable asciiTooling (sourceFiles asciiTooling smallTree []) := by
  have plain : ∀ file ∈ sourceFiles asciiTooling smallTree [],
      nameErrors asciiTooling file.1.posix = [] := by
    decide
  have beside : ∀ file ∈ sourceFiles asciiTooling smallTree [],
      manifestPath ∉ file.1.folders := by
    decide
  refine ⟨?_, by decide, ?_, by decide⟩
  · intro file member
    exact nameErrors_eq_nil.mp (plain file member)
  · intro file member below
    exact beside file member (Relative.mem_folders.mpr below)

theorem release_round_trip_small : ∃ manifest members,
    createArchive asciiTooling smallTree [] 946684800 =
        .ok (manifest, members) ∧
      RoundTrips asciiTooling (fun manifest => (utf8 manifest.version).getD [])
        (sourceFiles asciiTooling smallTree []) manifest members := by
  obtain ⟨manifest, built⟩ := smallTree_manifest
  have rooted : Rooted smallTree := by
    decide
  have early : (946684800 : Int) < Zip.endTime := by
    decide
  obtain ⟨⟨members, created, trip⟩, _⟩ := release_round_trip asciiTooling
    (fun manifest => (utf8 manifest.version).getD []) rooted built
    (by decide) early (fun _ _ _ => rfl)
  exact ⟨manifest, members, created, trip.mpr smallTree_portable⟩

/-- An archive with a name that has a colon is written and not accepted. -/
theorem drive_archive_refused : Rooted driveTree ∧ ∃ manifest members,
    createArchive asciiTooling driveTree [] 946684800 =
        .ok (manifest, members) ∧
      ∀ writer, (inspectSourceArchive asciiTooling writer members).errors ≠
        [] := by
  have rooted : Rooted driveTree := by
    decide
  have early : (946684800 : Int) < Zip.endTime := by
    decide
  obtain ⟨manifest, built⟩ := exists_manifest driveTree
    (by decide) (by rfl) (by rfl)
  refine ⟨rooted, manifest, _, createArchive_eq_ok built (by decide)
    early, ?_⟩
  intro writer accepted
  have member : (drive, textFile "") ∈ sourceFiles asciiTooling driveTree [] := by
    decide
  have plain := ((inspect_archived built).mp accepted _ member).1
  have inside : colon ∈ str "c:notes" := by
    decide
  exact plain.noColon _ rfl inside

end PpcLab.Release
