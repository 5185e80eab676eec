import Mathlib.Data.Finset.Card
import PpcLab.Release.Inspecting

/-!
# The round trip of a release

An archive that was written can be extracted, and what comes out is verified
against the manifest in it, exactly when the names of the files are ones that
the inspection takes and the version of the tree is in the archive.
-/

namespace PpcLab.Release

open Trees (File Tree sortedByPath)

/-- What is on the way to an entry of a directory tree is a folder. -/
def Rooted (tree : Tree) : Prop :=
  ∀ entry ∈ tree.entries, ∀ folder, entry.path.IsBelow folder →
    tree.hasFolder folder

theorem rooted_iff {tree : Tree} :
    (∀ entry ∈ tree.entries, ∀ folder ∈ entry.path.folders,
      tree.hasFolder folder) ↔ Rooted tree := by
  simp only [Rooted, Relative.mem_folders]

instance (tree : Tree) : Decidable (Rooted tree) :=
  decidable_of_iff _ rooted_iff

/-- A file with one of the two permissions that an archive keeps. -/
def normalized (file : File) : File :=
  { file with mode := Zip.permissions file.executable }

/-- What a round trip gives. -/
structure RoundTrips (tooling : Tooling) (writer : Writer)
    (files : List (Relative × File)) (manifest : Manifest)
    (members : List Member) : Prop where
  accepted : (inspectSourceArchive tooling writer members).errors = []
  restored : ∃ inspection copy,
    extractSourceArchive tooling writer members = .ok (inspection, copy) ∧
      sourceFiles tooling copy [] = files.map (Prod.map id normalized) ∧
      verify tooling copy manifest [] = .ok []

/-- The names that come back. -/
structure Portable (tooling : Tooling) (files : List (Relative × File)) :
    Prop where
  plain : ∀ file ∈ files, HasPlainName file.1
  unlike : ∀ file ∈ files, tooling.portablePathKey file.1.posix ≠
    tooling.portablePathKey manifestName
  beside : ∀ file ∈ files, ¬file.1.IsBelow manifestPath
  versioned : cmakeLists ∈ files.map Prod.fst

section

variable {tooling : Tooling} {writer : Writer} {tree : Tree}
  {excluded : List Relative} {epoch : Int} {manifest : Manifest}

theorem mem_sourceFiles {file : Relative × File} :
    file ∈ sourceFiles tooling tree excluded ↔ file ∈ tree.regularFiles ∧
      isSource tooling file.1 ∧ file.1 ∉ excluded := by
  rw [sourceFiles, Trees.mem_sortedByPath, List.mem_filter, Bool.and_eq_true]
  simp

private theorem nodup_filter (wanted : Relative × File → Bool) :
    ((tree.regularFiles.filter wanted).map Prod.fst).Nodup :=
  tree.nodup_regularFiles.sublist (List.filter_sublist.map Prod.fst)

theorem nodup_sourceFiles :
    ((sourceFiles tooling tree excluded).map Prod.fst).Nodup := by
  apply ((List.perm_insertionSort _ _).map Prod.fst).nodup_iff.mpr
  exact nodup_filter _

private theorem posix_ne_manifestName {path : Relative}
    (source : isSource tooling path) : path.posix ≠ manifestName := by
  intro same
  rw [isSource, same] at source
  simp at source

theorem relative?_posix (path : Relative) :
    relative? path.posix = some path := by
  rw [relative?, path.pureParts_posix]
  exact Relative.ofParts?_eq_some.mpr rfl

/-- The permissions of an archived file are not changed by an extraction. -/
private theorem permissions_kept (executable : Bool) :
    (Zip.regularFile + Zip.permissions executable) &&& 0o777 =
        Zip.permissions executable ∧
      Zip.permissions executable ≠ 0 ∧
      decide (Zip.permissions executable &&& 0o111 ≠ 0) = executable := by
  cases executable with
  | true => decide
  | false => decide

private theorem extractedFile_archivedFile (file : Relative × File) :
    extractedFile writer (archivedFile epoch file) =
      .ok (Prod.map id normalized file) := by
  obtain ⟨path, file⟩ := file
  obtain ⟨kept, nonzero, runs⟩ := permissions_kept file.executable
  have same : extracted writer (archivedFile epoch (path, file)) =
      normalized file := by
    rw [extracted, archivedFile]
    dsimp only
    rw [kept, if_neg nonzero, runs]
    rfl
  rw [extractedFile, same, archivedFile]
  dsimp only
  rw [relative?_posix]
  rfl

/-- The file that the manifest is extracted as. -/
def manifestFile (writer : Writer) (manifest : Manifest) : File where
  bytes := writer manifest
  mode := Zip.permissions false
  executable := false

private theorem extractedFile_archivedManifest :
    extractedFile writer (archivedManifest epoch manifest) =
      .ok (manifestPath, manifestFile writer manifest) := by
  have named : relative? manifestName = some manifestPath := by
    have posix : manifestPath.posix = manifestName := Paths.posix_singleton _
    rw [← posix]
    exact relative?_posix manifestPath
  obtain ⟨kept, nonzero, runs⟩ := permissions_kept false
  have same : extracted writer (archivedManifest epoch manifest) =
      manifestFile writer manifest := by
    rw [extracted, archivedManifest]
    dsimp only
    rw [kept, if_neg nonzero, runs]
    rfl
  rw [extractedFile, same, archivedManifest]
  dsimp only
  rw [named]

/-- What an archive of files is extracted as. -/
def restoredFiles (writer : Writer) (files : List (Relative × File))
    (manifest : Manifest) : List (Relative × File) :=
  files.map (Prod.map id normalized) ++
    [(manifestPath, manifestFile writer manifest)]

private theorem mapM_extractedFile (files : List (Relative × File)) :
    (files.map (archivedFile epoch) ++ [archivedManifest epoch manifest]).mapM
      (extractedFile writer) = .ok (restoredFiles writer files manifest) := by
  have those : (files.map (archivedFile epoch)).mapM (extractedFile writer) =
      .ok (files.map (Prod.map id normalized)) := by
    rw [List.mapM_map]
    exact Outcome.mapM_eq_ok fun file _ => extractedFile_archivedFile file
  rw [List.mapM_append, those, List.mapM_cons, extractedFile_archivedManifest]
  rfl

private theorem fst_restoredFiles (files : List (Relative × File)) :
    (restoredFiles writer files manifest).map Prod.fst =
      files.map Prod.fst ++ [manifestPath] := by
  rw [restoredFiles, List.map_append, List.map_map]
  rfl

/-- A path of one component is below no folder of the tree. -/
private theorem not_isBelow_of_single {path folder : Relative} {part : Str}
    (single : path.parts = [part]) : ¬path.IsBelow folder := by
  intro below
  obtain ⟨start, differ⟩ := below
  rw [single] at start
  rcases List.prefix_cons_iff.mp start with empty | split
  · exact folder.nonempty empty
  · obtain ⟨rest, same, nothing⟩ := split
    apply differ
    apply Relative.ext
    rw [single, same, List.prefix_nil.mp nothing]

private theorem not_isBelow_of_regular (rooted : Rooted tree)
    {file other : Relative × File} (member : file ∈ tree.regularFiles)
    (regular : other ∈ tree.regularFiles) : ¬file.1.IsBelow other.1 := by
  intro below
  obtain ⟨entry, there, same, _, _⟩ := Tree.mem_regularFiles.mp member
  have folder := rooted entry there other.1 (same ▸ below)
  have held := Tree.mem_regularFiles_iff.mp regular
  rw [Tree.fileAt, folder] at held
  cases held

private theorem hasRoom_restored (rooted : Rooted tree)
    (portable : Portable tooling (sourceFiles tooling tree excluded)) :
    Tree.HasRoom Keyed.empty (restoredFiles writer
      (sourceFiles tooling tree excluded) manifest) := by
  have origin (file : Relative × File)
      (member : file ∈ restoredFiles writer
        (sourceFiles tooling tree excluded) manifest) :
      (∃ source ∈ sourceFiles tooling tree excluded, source.1 = file.1) ∨
        file.1 = manifestPath := by
    rcases List.mem_append.mp member with among | last
    · obtain ⟨source, inside, rfl⟩ := List.mem_map.mp among
      exact Or.inl ⟨source, inside, rfl⟩
    · rw [List.mem_singleton.mp last]
      exact Or.inr rfl
  constructor
  · intro file _
    refine ⟨Tree.plain_empty.leadsAway file.1, fun _ _ => rfl, ?_⟩
    intro impossible
    cases impossible
  · intro file member other otherMember
    rcases origin file member with source | last
    · obtain ⟨source, inside, same⟩ := source
      rw [← same]
      rcases origin other otherMember with another | last
      · obtain ⟨another, there, equal⟩ := another
        rw [← equal]
        exact not_isBelow_of_regular rooted (mem_sourceFiles.mp inside).1
          (mem_sourceFiles.mp there).1
      · rw [last]
        exact portable.beside source inside
    · rw [last]
      exact not_isBelow_of_single rfl

private theorem nodup_restored :
    ((restoredFiles writer (sourceFiles tooling tree excluded)
      manifest).map Prod.fst).Nodup := by
  rw [fst_restoredFiles, List.nodup_append]
  refine ⟨nodup_sourceFiles, List.nodup_singleton _, ?_⟩
  intro path member last single same
  obtain ⟨file, inside, rfl⟩ := List.mem_map.mp member
  rw [List.mem_singleton.mp single] at same
  apply posix_ne_manifestName (mem_sourceFiles.mp inside).2.1
  rw [same]
  exact Paths.posix_singleton _

/-- The regular files of the tree that comes out. -/
private theorem regularFiles_perm (rooted : Rooted tree)
    (portable : Portable tooling (sourceFiles tooling tree excluded))
    {copy : Tree} (installed : Tree.installAll Keyed.empty (restoredFiles writer
      (sourceFiles tooling tree excluded) manifest) = some copy) :
    copy.regularFiles.Perm (restoredFiles writer
      (sourceFiles tooling tree excluded) manifest) := by
  obtain ⟨among, others⟩ := Tree.fileAt_installAll
    (hasRoom_restored rooted portable) nodup_restored installed
  apply (List.perm_ext_iff_of_nodup
    (List.Nodup.of_map _ copy.nodup_regularFiles)
    (List.Nodup.of_map _ nodup_restored)).mpr
  intro file
  obtain ⟨path, file⟩ := file
  rw [Tree.mem_regularFiles_iff]
  constructor
  · intro held
    by_cases there : path ∈ (restoredFiles writer
        (sourceFiles tooling tree excluded) manifest).map Prod.fst
    · obtain ⟨entry, inside, rfl⟩ := List.mem_map.mp there
      rw [among entry.1 entry.2 inside] at held
      cases held
      exact inside
    · rw [others path there] at held
      cases held
  · intro member
    exact among path file member

private theorem isSource_manifestPath : isSource tooling manifestPath = false := by
  have posix : manifestPath.posix = manifestName := Paths.posix_singleton _
  rw [isSource, posix, bne_self_eq_false, Bool.false_and, Bool.false_and]

/-- The source files come back in their order. -/
private theorem sourceFiles_copy (rooted : Rooted tree)
    (portable : Portable tooling (sourceFiles tooling tree excluded))
    {copy : Tree} (installed : Tree.installAll Keyed.empty (restoredFiles writer
      (sourceFiles tooling tree excluded) manifest) = some copy) :
    sourceFiles tooling copy [] =
      (sourceFiles tooling tree excluded).map (Prod.map id normalized) := by
  have kept : (restoredFiles writer (sourceFiles tooling tree excluded)
      manifest).filter (fun file => isSource tooling file.1 &&
        !decide (file.1 ∈ ([] : List Relative))) =
      (sourceFiles tooling tree excluded).map (Prod.map id normalized) := by
    rw [restoredFiles, List.filter_append]
    have all : ((sourceFiles tooling tree excluded).map
        (Prod.map id normalized)).filter (fun file =>
          isSource tooling file.1 && !decide (file.1 ∈ ([] : List Relative))) =
        (sourceFiles tooling tree excluded).map (Prod.map id normalized) := by
      apply List.filter_eq_self.mpr
      intro file member
      obtain ⟨source, inside, rfl⟩ := List.mem_map.mp member
      simpa using (mem_sourceFiles.mp inside).2.1
    rw [all]
    simp [isSource_manifestPath]
  rw [sourceFiles, Trees.sortedByPath_eq_of_perm (nodup_filter _)
    ((regularFiles_perm rooted portable installed).filter _), kept,
    Trees.sortedByPath_map, sourceFiles,
    Trees.sortedByPath_sortedByPath (nodup_filter _)]

/-- There are no collisions among paths that are apart. -/
theorem collisionErrors_eq_nil {paths : List Str} {label : String} :
    collisionErrors tooling paths label = [] ↔ Apart tooling paths := by
  have small (group : List Str) : ¬1 < group.dedup.length ↔
      ∀ first ∈ group, ∀ second ∈ group, first = second := by
    rw [not_lt, ← List.card_toFinset, Finset.card_le_one]
    simp only [List.mem_toFinset]
  rw [collisionErrors, casefoldCollisions, casefoldGroups,
    List.map_eq_nil_iff, List.map_eq_nil_iff, List.filter_eq_nil_iff]
  simp only [List.mem_map, List.mem_eraseDups, decide_eq_true_eq, small]
  constructor
  · intro clear first inFirst second inSecond same
    apply clear _ ⟨_, ⟨first, inFirst, rfl⟩, rfl⟩
    · simp [inFirst]
    · simp [inSecond, same]
  · intro apart group given
    obtain ⟨key, _, rfl⟩ := given
    intro first inFirst second inSecond
    obtain ⟨firstThere, firstKey⟩ := List.mem_filter.mp inFirst
    obtain ⟨secondThere, secondKey⟩ := List.mem_filter.mp inSecond
    exact apart first firstThere second secondThere
      ((eq_of_beq firstKey).trans (eq_of_beq secondKey).symm)

/-- What is known of a manifest that was built. -/
theorem built_manifest
    (built : buildManifest tooling tree excluded = .ok manifest) :
    Apart tooling ((sourceFiles tooling tree excluded).map (·.1.posix)) ∧
      manifest.schema = manifestSchema ∧
      projectVersion tree = .ok manifest.version ∧
      manifest.files = (sourceFiles tooling tree excluded).map listing := by
  rw [buildManifest] at built
  by_cases clear : collisionErrors tooling
      ((sourceFiles tooling tree excluded).map (·.1.posix)) "source" = []
  · rw [if_neg (not_not.mpr clear)] at built
    obtain ⟨version, versioned, built⟩ := Outcome.bind_eq_ok.mp built
    obtain ⟨compatibility, _, built⟩ := Outcome.bind_eq_ok.mp built
    cases built
    exact ⟨collisionErrors_eq_nil.mp clear, rfl, versioned, rfl⟩
  · rw [if_pos clear] at built
    cases built

theorem nodup_posix :
    ((sourceFiles tooling tree excluded).map (·.1.posix)).Nodup := by
  have nodup : ((sourceFiles tooling tree excluded).map Prod.fst).Nodup :=
    nodup_sourceFiles
  have posix := nodup.map Relative.posix_injective
  rw [List.map_map] at posix
  exact posix

theorem listed_built
    (built : buildManifest tooling tree excluded = .ok manifest) :
    listed manifest = (sourceFiles tooling tree excluded).map fun file =>
      (file.1.posix, listing file) := by
  rw [listed, (built_manifest built).2.2.2, List.map_map,
    Dictionary.foldl_assign_of_nodup]
  · rfl
  · rw [List.nil_append, List.map_map]
    exact nodup_posix

theorem lookup_map {α : Type} {items : List α} {key : α → Str}
    {value : α → Listing} (nodup : (items.map key).Nodup) {item : α}
    (member : item ∈ items) :
    (items.map fun item => (key item, value item)).lookup (key item) =
      some (value item) := by
  induction items with
  | nil => cases member
  | cons first items induction =>
      rw [List.map_cons, List.nodup_cons] at nodup
      rcases List.mem_cons.mp member with rfl | later
      · exact List.lookup_cons_self
      · have differ : key item ≠ key first := by
          intro same
          exact nodup.1 (same ▸ List.mem_map_of_mem later)
        rw [List.map_cons, List.lookup_cons, beq_eq_false_iff_ne.mpr differ]
        exact induction nodup.2 later

private theorem readFile_of_fileAt {path : Relative} {file : File}
    (held : tree.fileAt path = some file) :
    readFile tree path = .ok file.bytes := by
  obtain ⟨entry, found, kept⟩ := Option.bind_eq_some_iff.mp held
  have isFile : entry.file? = some file := by
    cases link : entry.isLink with
    | true =>
        rw [link] at kept
        cases kept
    | false =>
        rw [link] at kept
        exact kept
  rw [readFile, found, Option.bind_some, isFile]

private theorem projectVersion_of_fileAt {file : File}
    (held : tree.fileAt cmakeLists = some file) :
    projectVersion tree = versionOf file.bytes := by
  rw [projectVersion, readFile_of_fileAt held]
  rfl

/-- The tree that comes out has the version of the one that went in. -/
private theorem projectVersion_copy
    (built : buildManifest tooling tree excluded = .ok manifest)
    (versioned : cmakeLists ∈ (sourceFiles tooling tree excluded).map Prod.fst)
    {copy : Tree} (same : sourceFiles tooling copy [] =
      (sourceFiles tooling tree excluded).map (Prod.map id normalized)) :
    projectVersion copy = .ok manifest.version := by
  obtain ⟨file, member, named⟩ := List.mem_map.mp versioned
  obtain ⟨path, file⟩ := file
  obtain rfl : path = cmakeLists := named
  have original := Tree.mem_regularFiles_iff.mp (mem_sourceFiles.mp member).1
  have copied : (cmakeLists, normalized file) ∈ sourceFiles tooling copy [] := by
    rw [same]
    exact List.mem_map_of_mem (f := Prod.map id normalized) member
  have restored := Tree.mem_regularFiles_iff.mp (mem_sourceFiles.mp copied).1
  rw [projectVersion_of_fileAt restored, ← (built_manifest built).2.2.1,
    projectVersion_of_fileAt original]
  rfl

private theorem verify_copy
    (built : buildManifest tooling tree excluded = .ok manifest)
    (versioned : cmakeLists ∈ (sourceFiles tooling tree excluded).map Prod.fst)
    {copy : Tree} (same : sourceFiles tooling copy [] =
      (sourceFiles tooling tree excluded).map (Prod.map id normalized)) :
    verify tooling copy manifest [] = .ok [] := by
  have version : versionErrors tooling copy manifest = .ok [] := by
    rw [versionErrors, projectVersion_copy built versioned same]
    dsimp only
    rw [if_neg (not_not.mpr rfl)]
  obtain ⟨apart, schema, _, _⟩ := built_manifest built
  have paths : (sourceFiles tooling copy []).map (·.1.posix) =
      (sourceFiles tooling tree excluded).map (·.1.posix) := by
    rw [same, List.map_map]
    rfl
  have listedPaths : (listed manifest).map Prod.fst =
      (sourceFiles tooling tree excluded).map (·.1.posix) := by
    rw [listed_built built, List.map_map]
    rfl
  have files : (sourceFiles tooling copy []).flatMap (fileErrors manifest) =
      [] := by
    rw [same, List.flatMap_map, List.flatMap_eq_nil_iff]
    intro file member
    have found : ((sourceFiles tooling tree excluded).map fun file =>
        (file.1.posix, listing file)).lookup file.1.posix =
          some (listing file) :=
      lookup_map nodup_posix member
    rw [fileErrors, listed_built built]
    simp only [Prod.map_fst, id_eq, Prod.map_snd]
    rw [found]
    simp [listing, normalized]
  have missing : missingNames
      ((sourceFiles tooling tree excluded).map (·.1.posix))
      ((sourceFiles tooling tree excluded).map (·.1.posix)) = [] :=
    missingNames_eq_nil.mpr fun _ member => member
  rw [verify, version]
  dsimp only [Bind.bind, Except.bind]
  rw [if_neg (not_not.mpr schema), listedPaths, paths, files, missing,
    collisionErrors_eq_nil.mpr apart, collisionErrors_eq_nil.mpr apart]
  rfl

/-- The members of the archive of a tree. -/
def archived (tooling : Tooling) (tree : Tree) (excluded : List Relative)
    (epoch : Int) (manifest : Manifest) : List Member :=
  (sourceFiles tooling tree excluded).map (archivedFile epoch) ++
    [archivedManifest epoch manifest]

private theorem extract_eq_ok {inspection : Inspection} {copy : Tree} :
    extractSourceArchive tooling writer
        (archived tooling tree excluded epoch manifest) =
        .ok (inspection, copy) ↔
      inspection = inspectSourceArchive tooling writer
          (archived tooling tree excluded epoch manifest) ∧
        inspection.errors = [] ∧
        Tree.installAll Keyed.empty (restoredFiles writer
          (sourceFiles tooling tree excluded) manifest) = some copy := by
  rw [extractSourceArchive]
  generalize inspectSourceArchive tooling writer
    (archived tooling tree excluded epoch manifest) = found
  by_cases accepted : found.errors = []
  · rw [if_neg (not_not.mpr accepted), archived, mapM_extractedFile]
    dsimp only [Bind.bind, Except.bind]
    cases Tree.installAll Keyed.empty (restoredFiles writer
        (sourceFiles tooling tree excluded) manifest) with
    | none =>
        constructor
        · intro impossible
          cases impossible
        · intro given
          cases given.2.2
    | some tree =>
        constructor
        · intro same
          cases same
          exact ⟨rfl, accepted, rfl⟩
        · intro given
          obtain ⟨rfl, _, same⟩ := given
          cases same
          rfl
  · rw [if_pos accepted]
    constructor
    · intro impossible
      cases impossible
    · intro given
      rw [given.1] at given
      exact absurd given.2.1 accepted

theorem inspect_archived
    (built : buildManifest tooling tree excluded = .ok manifest) :
    (inspectSourceArchive tooling writer
      (archived tooling tree excluded epoch manifest)).errors = [] ↔
    ∀ file ∈ sourceFiles tooling tree excluded, HasPlainName file.1 ∧
      tooling.portablePathKey file.1.posix ≠
        tooling.portablePathKey manifestName :=
  inspect_eq_nil_iff writer epoch manifest nodup_sourceFiles
    (built_manifest built).1
    (fun _ member => posix_ne_manifestName (mem_sourceFiles.mp member).2.1)

theorem roundTrips_of_portable (rooted : Rooted tree)
    (built : buildManifest tooling tree excluded = .ok manifest)
    (portable : Portable tooling (sourceFiles tooling tree excluded)) :
    RoundTrips tooling writer (sourceFiles tooling tree excluded) manifest
      (archived tooling tree excluded epoch manifest) := by
  have accepted : (inspectSourceArchive tooling writer
      (archived tooling tree excluded epoch manifest)).errors = [] :=
    (inspect_archived built).mpr fun file member =>
      ⟨portable.plain file member, portable.unlike file member⟩
  obtain ⟨copy, installed⟩ :=
    Tree.exists_installAll (hasRoom_restored rooted portable)
  have same := sourceFiles_copy rooted portable installed
  exact ⟨accepted, _, copy, extract_eq_ok.mpr ⟨rfl, accepted, installed⟩, same,
    verify_copy built portable.versioned same⟩

/-- The version of a tree without links is that of a regular file. -/
private theorem fileAt_of_verify {copy : Tree} (plain : copy.Plain)
    (verified : verify tooling copy manifest [] = .ok []) :
    ∃ file, copy.fileAt cmakeLists = some file := by
  rw [verify] at verified
  obtain ⟨versions, versioned, errors⟩ := Outcome.bind_eq_ok.mp verified
  have none := Except.ok.inj errors
  simp only [List.append_eq_nil_iff] at none
  obtain ⟨⟨⟨⟨⟨_, empty⟩, _⟩, _⟩, _⟩, _⟩ := none
  subst empty
  cases read : readFile copy cmakeLists with
  | ok bytes =>
      rw [readFile] at read
      cases found : copy.lookup cmakeLists with
      | none =>
          rw [found] at read
          cases read
      | some entry =>
          rw [found, Option.bind_some] at read
          cases held : entry.file? with
          | none =>
              rw [held] at read
              cases read
          | some file =>
              refine ⟨file, ?_⟩
              rw [Tree.fileAt, found, Option.bind_some,
                plain cmakeLists entry found]
              exact held
  | error failure =>
      rw [versionErrors, projectVersion, read] at versioned
      cases failure with
      | reported message => cases versioned
      | unreadable => cases versioned
      | raised => cases versioned

theorem portable_of_roundTrips
    (built : buildManifest tooling tree excluded = .ok manifest)
    (trip : RoundTrips tooling writer (sourceFiles tooling tree excluded)
      manifest (archived tooling tree excluded epoch manifest)) :
    Portable tooling (sourceFiles tooling tree excluded) := by
  have names := (inspect_archived built).mp trip.accepted
  obtain ⟨inspection, copy, restored, _, verified⟩ := trip.restored
  have installed := (extract_eq_ok.mp restored).2.2
  refine ⟨fun file member => (names file member).1,
    fun file member => (names file member).2, ?_, ?_⟩
  · intro file member
    exact Tree.not_hasFolder_of_installAll Tree.plain_empty installed
      (Prod.map id normalized file) (List.mem_map_of_mem member)
  · obtain ⟨plain, _, _⟩ :=
      Tree.folders_installAll Tree.plain_empty installed
    obtain ⟨file, held⟩ := fileAt_of_verify plain verified
    rcases Tree.mem_of_fileAt_installAll Tree.plain_empty installed held with
      written | impossible
    · have there := List.mem_map_of_mem (f := Prod.fst) written
      rw [fst_restoredFiles] at there
      rcases List.mem_append.mp there with source | last
      · exact source
      · have differ : cmakeLists ≠ manifestPath := by
          decide
        exact absurd (List.mem_singleton.mp last) differ
    · cases impossible

end

end PpcLab.Release
