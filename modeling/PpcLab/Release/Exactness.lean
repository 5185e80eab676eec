import PpcLab.Release.Reproduction

/-!
# What verification of a tree finds

A tree is verified against the manifest of another one.  The verification looks
at the version and at the paths, the sizes and the digests of the source files;
a manifest has their modes as well, and what the compatibility script says.
-/

namespace PpcLab.Release

open Trees (File Tree sortedByPath mem_sortedByPath)

/-- The size and the digest of a file. -/
def contentOf (file : File) : Nat × Str :=
  (file.bytes.length, Sha256.hexdigest file.bytes)

/-- The paths of the source files with their sizes and digests. -/
def sourceContents (tooling : Tooling) (tree : Tree) :
    List (Relative × (Nat × Str)) :=
  (sourceFiles tooling tree []).map (Prod.map id contentOf)

/-- What is listed, but for the modes. -/
def listedContents (manifest : Manifest) : List (Str × (Nat × Str)) :=
  manifest.files.map fun item => (item.path, item.size, item.sha256)

/-- A tree has the version of a manifest, and its paths, sizes and digests. -/
structure Agrees (tooling : Tooling) (tree : Tree) (manifest : Manifest) :
    Prop where
  version : projectVersion tree = .ok manifest.version
  contents : (sourceContents tooling tree).map (Prod.map Relative.posix id) =
    listedContents manifest

/-- A tree has the modes of a manifest, and its compatibility script says the
same. -/
structure AgreesBesides (tooling : Tooling) (tree : Tree)
    (manifest : Manifest) : Prop where
  modes : (sourceFiles tooling tree []).map (fun file => modeFor file.2) =
    manifest.files.map Listing.mode
  compatibility : compatibilitySnapshot tooling tree =
    .ok manifest.compatibility

section

variable {tooling : Tooling} {original tree : Tree} {manifest : Manifest}

theorem listedContents_built
    (built : buildManifest tooling original [] = .ok manifest) :
    listedContents manifest =
      (sourceContents tooling original).map (Prod.map Relative.posix id) := by
  rw [listedContents, (built_manifest built).2.2.2, sourceContents,
    List.map_map, List.map_map]
  rfl

private theorem nodup_contents (tree : Tree) :
    ((sourceContents tooling tree).map Prod.fst).Nodup := by
  have paths : (sourceContents tooling tree).map Prod.fst =
      (sourceFiles tooling tree []).map Prod.fst := by
    rw [sourceContents, List.map_map]
    rfl
  rw [paths]
  exact nodup_sourceFiles

/-- Source files with the same contents are listed in the same order. -/
private theorem sourceContents_eq (same : ∀ entry,
    entry ∈ sourceContents tooling tree ↔
      entry ∈ sourceContents tooling original) :
    sourceContents tooling tree = sourceContents tooling original := by
  have sorted (tree : Tree) : sortedByPath (sourceContents tooling tree) =
      sourceContents tooling tree := by
    have source : sourceFiles tooling tree [] =
        sortedByPath (sourceFiles tooling tree []) := by
      rw [sourceFiles]
      refine (Trees.sortedByPath_sortedByPath ?_).symm
      exact (Tree.nodup_regularFiles tree).sublist
        (List.filter_sublist.map Prod.fst)
    rw [sourceContents, Trees.sortedByPath_map, ← source]
  rw [← sorted tree, ← sorted original]
  apply Trees.sortedByPath_eq_of_perm (nodup_contents tree)
  rw [List.perm_ext_iff_of_nodup (nodup_contents tree).of_map
    (nodup_contents original).of_map]
  exact same

private theorem versionErrors_eq_nil :
    versionErrors tooling tree manifest = .ok [] ↔
      projectVersion tree = .ok manifest.version := by
  rw [versionErrors]
  cases projectVersion tree with
  | ok version =>
      by_cases same : manifest.version = version
      · simp [same]
      · simp [same, Ne.symm same]
  | error failure =>
      cases failure with
      | reported message => simp
      | unreadable => simp
      | raised => simp

/-- A file has no error exactly if it is listed as it is. -/
private theorem fileErrors_eq_nil
    (built : buildManifest tooling original [] = .ok manifest)
    {file : Relative × File} :
    fileErrors manifest file = [] ↔
      Prod.map id contentOf file ∈ sourceContents tooling original := by
  rw [fileErrors, listed_built built, sourceContents]
  constructor
  · intro none
    cases found : ((sourceFiles tooling original []).map fun file =>
        (file.1.posix, listing file)).lookup file.1.posix with
    | none =>
        rw [found] at none
        cases none
    | some item =>
        rw [found] at none
        obtain ⟨noDigest, noSize⟩ := List.append_eq_nil_iff.mp none
        obtain ⟨before, after, split, _⟩ := List.lookup_eq_some_iff.mp found
        have entry : (file.1.posix, item) ∈ (sourceFiles tooling original
            []).map fun file => (file.1.posix, listing file) := by
          rw [split]
          exact List.mem_append_right _ List.mem_cons_self
        obtain ⟨source, listed, same⟩ := List.mem_map.mp entry
        obtain ⟨path, rfl⟩ := Prod.mk.inj same
        have digest : Sha256.hexdigest source.2.bytes =
            Sha256.hexdigest file.2.bytes := by
          by_contra differ
          exact List.cons_ne_nil _ _ ((if_pos differ).symm.trans noDigest)
        have size : source.2.bytes.length = file.2.bytes.length := by
          by_contra differ
          exact List.cons_ne_nil _ _ ((if_pos differ).symm.trans noSize)
        have equal : Prod.map id contentOf file =
            Prod.map id contentOf source :=
          Prod.ext (Relative.posix_injective path).symm
            (Prod.ext size.symm digest.symm)
        rw [equal]
        exact List.mem_map_of_mem listed
  · intro there
    obtain ⟨source, listed, same⟩ := List.mem_map.mp there
    obtain ⟨path, content⟩ := Prod.mk.inj same
    replace path : source.1 = file.1 := path
    have found : ((sourceFiles tooling original []).map fun file =>
        (file.1.posix, listing file)).lookup source.1.posix =
          some (listing source) :=
      lookup_map nodup_posix listed
    rw [← path, found]
    have size : source.2.bytes.length = file.2.bytes.length :=
      congrArg Prod.fst content
    have digest : Sha256.hexdigest source.2.bytes =
        Sha256.hexdigest file.2.bytes := congrArg Prod.snd content
    simp [listing, size, digest]

/-- Verification finds nothing exactly in a tree that has the version, the
paths, the sizes and the digests of the manifest. -/
theorem verify_eq_nil_iff
    (built : buildManifest tooling original [] = .ok manifest) :
    verify tooling tree manifest [] = .ok [] ↔
      Agrees tooling tree manifest := by
  obtain ⟨apart, schema, _, _⟩ := built_manifest built
  have listedPaths : (listed manifest).map Prod.fst =
      (sourceFiles tooling original []).map (·.1.posix) := by
    rw [listed_built built, List.map_map]
    rfl
  have contents : (sourceContents tooling tree).map
        (Prod.map Relative.posix id) = listedContents manifest ↔
      sourceContents tooling tree = sourceContents tooling original := by
    rw [listedContents_built built]
    exact (Relative.posix_injective.prodMap
      Function.injective_id).list_map.eq_iff
  have paths (tree : Tree) : (sourceFiles tooling tree []).map (·.1.posix) =
      (sourceContents tooling tree).map (·.1.posix) := by
    rw [sourceContents, List.map_map]
    rfl
  rw [verify, Outcome.bind_eq_ok]
  constructor
  · intro verified
    obtain ⟨versions, versioned, errors⟩ := verified
    have none := Except.ok.inj errors
    simp only [List.append_eq_nil_iff, List.flatMap_eq_nil_iff,
      List.map_eq_nil_iff] at none
    obtain ⟨⟨⟨⟨⟨_, empty⟩, _⟩, _⟩, files⟩, missing⟩ := none
    rw [empty] at versioned
    refine ⟨versionErrors_eq_nil.mp versioned, contents.mpr ?_⟩
    have forward : ∀ entry ∈ sourceContents tooling tree,
        entry ∈ sourceContents tooling original := by
      intro entry there
      obtain ⟨file, listed, rfl⟩ := List.mem_map.mp there
      exact (fileErrors_eq_nil built).mp (files file listed)
    apply sourceContents_eq
    intro entry
    refine ⟨forward entry, ?_⟩
    intro there
    have named : entry.1.posix ∈
        (sourceFiles tooling tree []).map (·.1.posix) := by
      apply missingNames_eq_nil.mp missing
      rw [listedPaths, paths]
      exact List.mem_map_of_mem there
    rw [paths] at named
    obtain ⟨other, isOther, path⟩ := List.mem_map.mp named
    have same : other = entry := List.inj_on_of_nodup_map
      (nodup_contents original) (forward other isOther) there
      (Relative.posix_injective path)
    exact same ▸ isOther
  · intro agrees
    have same := contents.mp agrees.contents
    refine ⟨[], versionErrors_eq_nil.mpr agrees.version, ?_⟩
    have files : (sourceFiles tooling tree []).flatMap (fileErrors manifest) =
        [] := by
      rw [List.flatMap_eq_nil_iff]
      intro file listed
      rw [fileErrors_eq_nil built, ← same]
      exact List.mem_map_of_mem listed
    have samePaths : (sourceFiles tooling tree []).map (·.1.posix) =
        (sourceFiles tooling original []).map (·.1.posix) := by
      rw [paths, paths, same]
    have missing : missingNames
        ((sourceFiles tooling original []).map (·.1.posix))
        ((sourceFiles tooling original []).map (·.1.posix)) = [] :=
      missingNames_eq_nil.mpr fun _ member => member
    rw [if_neg (not_not.mpr schema), listedPaths, samePaths, files, missing,
      collisionErrors_eq_nil.mpr apart, collisionErrors_eq_nil.mpr apart]
    rfl

/-- The manifest of a tree with a version and what the script says. -/
def manifestOf (tooling : Tooling) (tree : Tree) (version : Str)
    (compatibility : Snapshot) : Manifest where
  schema := manifestSchema
  releaseApi := 1
  version := version
  license := str "GPL-3.0-only"
  cppApi := 1
  cppAbi := 1
  targetProfileApi := 1
  compatibility := compatibility
  files := (sourceFiles tooling tree []).map listing

theorem buildManifest_eq_ok :
    buildManifest tooling tree [] = .ok manifest ↔
      Apart tooling ((sourceFiles tooling tree []).map (·.1.posix)) ∧
        ∃ version compatibility, projectVersion tree = .ok version ∧
          compatibilitySnapshot tooling tree = .ok compatibility ∧
          manifest = manifestOf tooling tree version compatibility := by
  constructor
  · intro built
    refine ⟨(built_manifest built).1, ?_⟩
    rw [buildManifest, if_neg (not_not.mpr
      (collisionErrors_eq_nil.mpr (built_manifest built).1))] at built
    obtain ⟨version, versioned, built⟩ := Outcome.bind_eq_ok.mp built
    obtain ⟨compatibility, compatible, built⟩ := Outcome.bind_eq_ok.mp built
    exact ⟨version, compatibility, versioned, compatible,
      (Except.ok.inj built).symm⟩
  · intro given
    obtain ⟨apart, version, compatibility, versioned, compatible, rfl⟩ := given
    rw [buildManifest, if_neg (not_not.mpr
      (collisionErrors_eq_nil.mpr apart)), versioned, compatible]
    rfl

private theorem listings_eq {items others : List Listing}
    (contents : items.map (fun item => (item.path, item.size, item.sha256)) =
      others.map fun item => (item.path, item.size, item.sha256))
    (modes : items.map Listing.mode = others.map Listing.mode) :
    items = others := by
  induction items generalizing others with
  | nil =>
      cases others with
      | nil => rfl
      | cons other others => cases contents
  | cons item items induction =>
      cases others with
      | nil => cases contents
      | cons other others =>
          obtain ⟨content, contents⟩ := List.cons.inj contents
          obtain ⟨mode, modes⟩ := List.cons.inj modes
          rw [induction contents modes]
          obtain ⟨path, size, itemMode, digest⟩ := item
          simp only [Prod.mk.injEq] at content
          obtain ⟨rfl, rfl, rfl⟩ := content
          subst mode
          rfl

/-- A tree has the manifest of another one exactly if it agrees with it also in
what is not verified. -/
theorem buildManifest_eq_iff
    (built : buildManifest tooling original [] = .ok manifest) :
    buildManifest tooling tree [] = .ok manifest ↔
      Agrees tooling tree manifest ∧
        AgreesBesides tooling tree manifest := by
  constructor
  · intro rebuilt
    refine ⟨⟨(built_manifest rebuilt).2.2.1,
      (listedContents_built rebuilt).symm⟩, ?_, ?_⟩
    · rw [(built_manifest rebuilt).2.2.2, List.map_map]
      rfl
    · obtain ⟨_, _, _, _, compatible, same⟩ := buildManifest_eq_ok.mp rebuilt
      rw [compatible, same]
      rfl
  · intro agrees
    obtain ⟨agrees, besides⟩ := agrees
    obtain ⟨apart, version, compatibility, _, _, same⟩ :=
      buildManifest_eq_ok.mp built
    have paths : (sourceFiles tooling tree []).map (·.1.posix) =
        (sourceFiles tooling original []).map (·.1.posix) := by
      have contents := agrees.contents.trans (listedContents_built built)
      have first := congrArg (List.map Prod.fst) contents
      simpa [sourceContents, Function.comp_def] using first
    have files : (sourceFiles tooling tree []).map listing =
        manifest.files := by
      apply listings_eq
      · rw [List.map_map]
        have contents := agrees.contents
        rw [sourceContents, List.map_map] at contents
        exact contents
      · rw [List.map_map]
        exact besides.modes
    refine buildManifest_eq_ok.mpr ⟨paths ▸ apart, manifest.version,
      manifest.compatibility, agrees.version, besides.compatibility, ?_⟩
    rw [manifestOf, files, same]
    rfl

/-- Verification finds nothing in a tree exactly if it has the version, the
paths, the sizes and the digests of the manifest; the tree has that manifest
itself exactly if it has also the same modes, and the compatibility script says
the same. -/
theorem verify_and_build (tooling : Tooling) (original tree : Tree)
    (manifest : Manifest)
    (built : buildManifest tooling original [] = .ok manifest) :
    (verify tooling tree manifest [] = .ok [] ↔
      Agrees tooling tree manifest) ∧
    (buildManifest tooling tree [] = .ok manifest ↔
      verify tooling tree manifest [] = .ok [] ∧
        AgreesBesides tooling tree manifest) := by
  rw [verify_eq_nil_iff built]
  exact ⟨Iff.rfl, buildManifest_eq_iff built⟩

end

def executableEntry (entry : Trees.Entry) : Trees.Entry :=
  match entry.node with
  | some (.file file) =>
      { entry with node := some (.file { file with executable := true }) }
  | _ => entry

private theorem executableEntries_nodup :
    ((smallEntries.map executableEntry).map Trees.Entry.path).Nodup := by
  decide

/-- The small tree with executable files. -/
def executableTree : Tree :=
  ⟨smallEntries.map executableEntry, executableEntries_nodup⟩

private theorem smallTree_built :
    buildManifest asciiTooling smallTree [] =
      .ok (manifestOf asciiTooling smallTree (str "3.9.4")
        ⟨some snapshotSchema, fun _ => none, fun _ => none, none⟩) := by
  apply buildManifest_eq_ok.mpr
  refine ⟨?_, _, _, by rfl, by rfl, rfl⟩
  unfold Apart
  decide

private theorem clonedTree_built :
    buildManifest asciiTooling clonedTree [] =
      .ok (manifestOf asciiTooling smallTree (str "3.9.4")
        ⟨some snapshotSchema, fun _ => none, fun _ => none, none⟩) := by
  apply buildManifest_eq_ok.mpr
  refine ⟨?_, _, _, by rfl, by rfl, ?_⟩
  · unfold Apart
    decide
  · rfl

theorem cloned_tree_verifies : ∃ manifest,
    buildManifest asciiTooling smallTree [] = .ok manifest ∧
      verify asciiTooling clonedTree manifest [] = .ok [] := by
  refine ⟨_, smallTree_built, ?_⟩
  have both := verify_and_build asciiTooling smallTree clonedTree _
    smallTree_built
  exact (both.2.mp clonedTree_built).1

/-- A tree whose files are made executable is verified against the manifest that
it had, and has another one. -/
theorem modes_not_verified : ∃ manifest,
    buildManifest asciiTooling smallTree [] = .ok manifest ∧
      verify asciiTooling executableTree manifest [] = .ok [] ∧
      buildManifest asciiTooling executableTree [] ≠ .ok manifest := by
  refine ⟨_, smallTree_built, ?_, ?_⟩
  · apply (verify_eq_nil_iff smallTree_built).mpr
    refine ⟨by rfl, ?_⟩
    decide +kernel
  · intro rebuilt
    have modes := ((buildManifest_eq_iff smallTree_built).mp rebuilt).2.modes
    revert modes
    decide +kernel

end PpcLab.Release
