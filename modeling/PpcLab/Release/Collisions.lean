import Mathlib.Data.Set.List
import PpcLab.Release.Reproduction

/-!
# Paths on other file systems

A file system can take two names of folders or files for the same one when they
are equal after normalization and case folding.  The checks of a release compare
the keys of whole paths; a file and a folder on the way to another file have no
common key.
-/

namespace PpcLab.Release

open Explore (isAmong)
open Trees (Tree Write)

/-- A key that folds a path component by component. -/
structure Folding (tooling : Tooling) where
  fold : Str → Str
  isComponent : ∀ part, Paths.IsComponent part → Paths.IsComponent (fold part)
  key : ∀ path : Relative, tooling.portablePathKey path.posix =
    Paths.posix (path.parts.map fold)

variable {tooling : Tooling} (folding : Folding tooling)

/-- Where a file system that folds names has a path. -/
def Folding.place (path : Relative) : Relative where
  parts := path.parts.map folding.fold
  nonempty := by simpa using path.nonempty
  components := by
    intro part listed
    obtain ⟨original, member, rfl⟩ := List.mem_map.mp listed
    exact folding.isComponent original (path.components original member)

def Folding.write (contents : Relative → List Byte) (path : Relative) : Write :=
  ⟨folding.place path, contents path, none⟩

/-- Files that are written to their paths in any order are all there with their
contents. -/
def StoresAll (paths : List Relative) : Prop :=
  ∀ (contents : Relative → List Byte) (order : List Relative),
    order.Perm paths → ∃ tree, Tree.rewriteAll true newFileMode Keyed.empty
        (order.map (folding.write contents)) = some tree ∧
      ∀ path ∈ paths, ∃ file, tree.fileAt (folding.place path) = some file ∧
        file.bytes = contents path

/-- No file is where a folder on the way to another file has to be. -/
def NoFileIsFolder (paths : List Relative) : Prop :=
  ∀ file ∈ paths, ∀ path ∈ paths,
    ¬(folding.place path).IsBelow (folding.place file)

/-- The name of the folder itself. -/
def hereName : Str :=
  str "."

/-- The members of an archive are all stored under their names. -/
def StoresMembers (members : List Member) : Prop :=
  ∃ paths : List Relative, paths.map Relative.posix = members.map (·.name) ∧
    StoresAll folding paths

/-- What the names of members have to be for all members to be stored. -/
structure CanBeStored (members : List Member) : Prop where
  notHere : hereName ∉ members.map (·.name)
  noNull : ∀ member ∈ members, 0 ∉ member.name
  level : ∀ paths : List Relative,
    paths.map Relative.posix = members.map (·.name) →
    NoFileIsFolder folding paths

section

variable {folding} {paths : List Relative}

theorem Folding.posix_place (path : Relative) :
    (folding.place path).posix = tooling.portablePathKey path.posix :=
  (folding.key path).symm

private theorem admits_write {contents : Relative → List Byte}
    {first second : Relative} :
    (folding.write contents first).Admits true
        (folding.write contents second) ↔
      ¬(folding.place first).IsBelow (folding.place second) ∧
        ¬(folding.place second).IsBelow (folding.place first) := by
  constructor
  · intro admits
    exact ⟨admits.notBelow, admits.notAbove⟩
  · intro apart
    exact ⟨apart.1, apart.2, fun _ => .inl rfl⟩

private theorem pairwise_write_iff {contents : Relative → List Byte} :
    (paths.map (folding.write contents)).Pairwise (Write.Admits true) ↔
      NoFileIsFolder folding paths := by
  rw [List.pairwise_map]
  constructor
  · intro pairs file isFile path isPath
    have below := pairs.imp fun admits => (admits_write.mp admits).1
    have above := pairs.imp fun admits => (admits_write.mp admits).2
    refine above.forall_of_forall_of_flip ?_ below isFile isPath
    exact fun path _ => Tree.not_isBelow_self _
  · intro level
    apply List.pairwise_of_forall_mem_list
    intro first isFirst second isSecond
    exact admits_write.mpr
      ⟨level second isSecond first isFirst, level first isFirst second isSecond⟩

/-- Paths that have no common key are all stored exactly if no file is where a
folder has to be. -/
theorem storesAll_iff (apart : Apart tooling (paths.map Relative.posix)) :
    StoresAll folding paths ↔ NoFileIsFolder folding paths := by
  constructor
  · intro stores
    obtain ⟨tree, written, _⟩ := stores (fun _ => []) paths (.refl _)
    have pairs := (Tree.rewriteAll_empty_iff ownerWrites_newFileMode).mp
      ⟨tree, written⟩
    exact pairwise_write_iff.mp pairs
  · intro level contents order permuted
    have levelOrder : NoFileIsFolder folding order := by
      intro file isFile path isPath
      exact level file (permuted.mem_iff.mp isFile) path
        (permuted.mem_iff.mp isPath)
    obtain ⟨tree, written⟩ := (Tree.rewriteAll_empty_iff
      ownerWrites_newFileMode).mpr (pairwise_write_iff.mpr levelOrder)
    refine ⟨tree, written, ?_⟩
    have wrote := (Tree.wrote_empty.steps ownerWrites_newFileMode written).1
    rw [List.nil_append] at wrote
    intro path listed
    have held := (wrote.held (folding.place path)).mpr
      ⟨folding.write contents path,
        List.mem_map_of_mem (permuted.mem_iff.mpr listed), rfl⟩
    obtain ⟨file, found⟩ := Option.isSome_iff_exists.mp held
    obtain ⟨write, isWrite, place, bytes⟩ := wrote.bytes _ _ found
    obtain ⟨other, isOther, rfl⟩ := List.mem_map.mp isWrite
    have key : tooling.portablePathKey other.posix =
        tooling.portablePathKey path.posix := by
      rw [← folding.posix_place, ← folding.posix_place]
      exact congrArg Relative.posix place
    have same : other = path := Relative.posix_injective
      (apart _ (List.mem_map_of_mem (permuted.mem_iff.mp isOther)) _
        (List.mem_map_of_mem listed) key)
    rw [same] at bytes
    exact ⟨file, found, bytes.symm⟩

/-- A name that the inspection takes is that of a path, or of the folder that
the archive is extracted into. -/
theorem exists_path_of_nameErrors {name : Str} (noNull : 0 ∉ name)
    (plain : nameErrors tooling name = []) :
    name = hereName ∨ ∃ path : Relative, path.posix = name := by
  rw [nameErrors] at plain
  split at plain
  · cases plain
  · split at plain
    · cases plain
    · split at plain
      · cases plain
      · rename_i safe
        simp only [isUnsafe, Bool.or_eq_true, not_or, bne_iff_ne, ne_eq,
          not_not] at safe
        obtain ⟨⟨⟨_, normal⟩, parts⟩, _⟩ := safe
        apply Relative.exists_posix_eq noNull normal
        intro upwards
        exact parts (List.any_eq_true.mpr ⟨_, upwards, by simp [isAmong]⟩)

variable {members : List Member}

private theorem posix_ne_hereName (path : Relative) :
    path.posix ≠ hereName := by
  intro same
  have parts : path.parts = Paths.pureParts hereName := by
    rw [← same, path.pureParts_posix]
  exact path.nonempty (parts.trans (by decide))

private theorem mem_posix {parts : List Str} {character : CodePoint}
    (inside : character ∈ Paths.posix parts) :
    character = Paths.slash ∨ ∃ part ∈ parts, character ∈ part := by
  induction parts with
  | nil => cases inside
  | cons part parts induction =>
      cases parts with
      | nil =>
          rw [Paths.posix_singleton] at inside
          exact .inr ⟨part, List.mem_cons_self, inside⟩
      | cons next parts =>
          rw [Paths.posix_cons part (List.cons_ne_nil _ _)] at inside
          rcases List.mem_append.mp inside with here | later
          · exact .inr ⟨part, List.mem_cons_self, here⟩
          · rcases List.mem_cons.mp later with same | rest
            · exact .inl same
            · rcases induction rest with same | ⟨other, listed, within⟩
              · exact .inl same
              · exact .inr ⟨other, List.mem_cons_of_mem _ listed, within⟩

private theorem noNull_posix (path : Relative) : 0 ∉ path.posix := by
  intro inside
  rcases mem_posix inside with same | ⟨part, listed, within⟩
  · exact absurd same (by decide)
  · exact (path.components part listed).noNull within

/-- The members of an archive that the inspection takes are all stored exactly
if every name is that of a path and no file is where a folder has to be. -/
theorem storesMembers_iff {writer : Writer}
    (accepted : (inspectSourceArchive tooling writer members).errors = []) :
    StoresMembers folding members ↔ CanBeStored folding members := by
  have none : (members.foldl (inspectMember tooling) ⟨[], [], 0, []⟩).errors =
      [] := by
    rw [inspectSourceArchive] at accepted
    exact (List.append_eq_nil_iff.mp accepted).1
  obtain ⟨_, apart, sound⟩ := sound_of_foldl none
  constructor
  · intro stores
    obtain ⟨paths, names, stores⟩ := stores
    have level := (storesAll_iff (names ▸ apart)).mp stores
    refine ⟨?_, ?_, ?_⟩
    · rw [← names]
      intro there
      obtain ⟨path, _, same⟩ := List.mem_map.mp there
      exact posix_ne_hereName path same
    · intro member listed
      have named : member.name ∈ paths.map Relative.posix := by
        rw [names]
        exact List.mem_map_of_mem listed
      obtain ⟨path, _, same⟩ := List.mem_map.mp named
      rw [← same]
      exact noNull_posix path
    · intro others same
      have equal : others = paths :=
        List.map_injective_iff.mpr Relative.posix_injective
          (same.trans names.symm)
      rw [equal]
      exact level
  · intro can
    have each : ∀ name ∈ members.map (·.name),
        ∃ path : Relative, path.posix = name := by
      intro name listed
      obtain ⟨member, here, rfl⟩ := List.mem_map.mp listed
      have plain := (List.append_eq_nil_iff.mp (sound member here)).1
      refine (exists_path_of_nameErrors (can.noNull member here)
        plain).resolve_left ?_
      intro same
      exact can.notHere (same ▸ listed)
    obtain ⟨paths, names⟩ : ∃ paths : List Relative,
        paths.map Relative.posix = members.map (·.name) := by
      have inRange : members.map (·.name) ∈
          Set.range (List.map Relative.posix) := by
        rw [Set.range_list_map]
        exact each
      exact inRange
    exact ⟨paths, names,
      (storesAll_iff (names ▸ apart)).mpr (can.level paths names)⟩

/-- Paths without a collision, and the members of an archive that is accepted,
are stored by a file system that folds names exactly if no file is where a
folder on the way to another file has to be, and every member has a path. -/
theorem portable_iff (folding : Folding tooling) (paths : List Relative)
    (writer : Writer) (members : List Member) :
    (casefoldCollisions tooling (paths.map Relative.posix) = [] →
      (StoresAll folding paths ↔ NoFileIsFolder folding paths)) ∧
    ((inspectSourceArchive tooling writer members).errors = [] →
      (StoresMembers folding members ↔ CanBeStored folding members)) := by
  constructor
  · intro clear
    have none : collisionErrors tooling (paths.map Relative.posix) "source" =
        [] := by
      rw [collisionErrors, clear, List.map_nil]
    exact storesAll_iff (collisionErrors_eq_nil.mp none)
  · exact storesMembers_iff

end

private theorem map_posix {lower : CodePoint → CodePoint}
    (kept : lower Paths.slash = Paths.slash) {parts : List Str}
    (nonempty : parts ≠ []) :
    (Paths.posix parts).map lower = Paths.posix (parts.map (List.map lower)) := by
  induction parts with
  | nil => exact absurd rfl nonempty
  | cons part parts induction =>
      cases parts with
      | nil =>
          simp only [List.map_cons, List.map_nil, Paths.posix_singleton]
      | cons next parts =>
          rw [Paths.posix_cons part (List.cons_ne_nil _ _), List.map_append,
            List.map_cons, kept, induction (List.cons_ne_nil _ _)]
          exact (Paths.posix_cons _ (List.cons_ne_nil _ _)).symm

/-- `lower` of a character in ASCII. -/
def lowerAscii (character : CodePoint) : CodePoint :=
  if 0x41 ≤ character.val && character.val ≤ 0x5a then
    CodePoint.ofNat (character.val + 0x20)
  else character

/-- A character before the letters comes from itself only. -/
private theorem eq_of_lowerAscii {character mark : CodePoint}
    (early : mark.val < 0x41) (same : lowerAscii character = mark) :
    character = mark := by
  unfold lowerAscii at same
  split at same
  · rename_i upper
    simp only [Bool.and_eq_true, decide_eq_true_eq] at upper
    have value : mark.val = character.val + 0x20 := by
      rw [← same]
      exact Nat.mod_eq_of_lt (by omega)
    omega
  · exact same

private theorem map_lowerAscii_eq {part marks : Str}
    (early : ∀ mark ∈ marks, mark.val < 0x41)
    (same : part.map lowerAscii = marks) : part = marks := by
  induction part generalizing marks with
  | nil => exact same
  | cons first part induction =>
      cases marks with
      | nil => cases same
      | cons mark marks =>
          obtain ⟨head, tail⟩ := List.cons.inj same
          rw [eq_of_lowerAscii (early mark List.mem_cons_self) head,
            induction (fun other listed =>
              early other (List.mem_cons_of_mem _ listed)) tail]

/-- Case folding of texts in ASCII. -/
def asciiFolding : Folding asciiTooling where
  fold := List.map lowerAscii
  isComponent := by
    intro part component
    refine ⟨?_, ?_, ?_, ?_, ?_⟩
    · simpa using component.nonempty
    · intro inside
      obtain ⟨character, listed, same⟩ := List.mem_map.mp inside
      exact component.noSlash (eq_of_lowerAscii (by decide) same ▸ listed)
    · intro inside
      obtain ⟨character, listed, same⟩ := List.mem_map.mp inside
      exact component.noNull (eq_of_lowerAscii (by decide) same ▸ listed)
    · intro same
      exact component.notHere (map_lowerAscii_eq (by decide) same)
    · intro same
      exact component.notParent (map_lowerAscii_eq (by decide) same)
  key path := map_posix (by decide) path.nonempty

private theorem isComponent_upper : ∀ part ∈ [str "Foo"],
    Paths.IsComponent part := by
  decide

private theorem isComponent_lower : ∀ part ∈ [str "foo", str "bar"],
    Paths.IsComponent part := by
  decide

private theorem isComponent_baz : ∀ part ∈ [str "foo", str "Baz"],
    Paths.IsComponent part := by
  decide

def upperFoo : Relative :=
  ⟨[str "Foo"], List.cons_ne_nil _ _, isComponent_upper⟩

def fooBar : Relative :=
  ⟨[str "foo", str "bar"], List.cons_ne_nil _ _, isComponent_lower⟩

def fooBaz : Relative :=
  ⟨[str "foo", str "Baz"], List.cons_ne_nil _ _, isComponent_baz⟩

private def memberAt (path : Relative) : Member :=
  archivedFile 946684800 (path, textFile "")

/-- A manifest that lists no file. -/
def emptyManifest : Manifest :=
  ⟨manifestSchema, 1, str "3.9.4", str "GPL-3.0-only", 1, 1, 1,
    ⟨some snapshotSchema, fun _ => none, fun _ => none, none⟩, []⟩

/-- Two files below a folder, and the manifest. -/
def storedPaths : List Relative :=
  [fooBar, fooBaz, manifestPath]

private theorem level_storedPaths :
    NoFileIsFolder asciiFolding storedPaths := by
  have apart : ∀ file ∈ storedPaths, ∀ path ∈ storedPaths,
      asciiFolding.place file ∉ (asciiFolding.place path).folders := by
    decide
  intro file isFile path isPath below
  exact apart file isFile path isPath (Relative.mem_folders.mpr below)

theorem two_files_are_stored :
    StoresAll asciiFolding storedPaths ∧
      StoresMembers asciiFolding [memberAt fooBar, memberAt fooBaz,
        archivedManifest 946684800 emptyManifest] := by
  have both := portable_iff asciiFolding storedPaths (fun _ => [])
    [memberAt fooBar, memberAt fooBaz, archivedManifest 946684800 emptyManifest]
  refine ⟨(both.1 (by decide)).mpr level_storedPaths,
    (both.2 (by decide)).mpr ⟨by decide, by decide, ?_⟩⟩
  intro paths names
  have named : paths = storedPaths := by
    apply List.map_injective_iff.mpr Relative.posix_injective
    exact names.trans (by decide)
  rw [named]
  exact level_storedPaths

private theorem foo_is_folder :
    ¬NoFileIsFolder asciiFolding [upperFoo, fooBar] := by
  intro level
  have below : asciiFolding.place upperFoo ∈
      (asciiFolding.place fooBar).folders := by
    decide
  exact level upperFoo (by simp) fooBar (by simp)
    (Relative.mem_folders.mp below)

/-- A file `Foo` and a file in a folder `foo` have no common key, and one of
them is not stored. -/
theorem file_and_folder_not_stored :
    (casefoldCollisions asciiTooling ([upperFoo, fooBar].map Relative.posix) =
        [] ∧ ¬StoresAll asciiFolding [upperFoo, fooBar]) ∧
      ∃ members : List Member,
        (∀ writer,
          (inspectSourceArchive asciiTooling writer members).errors = []) ∧
          ¬StoresMembers asciiFolding members := by
  have apart : Apart asciiTooling ([upperFoo, fooBar].map Relative.posix) := by
    unfold Apart
    decide
  refine ⟨⟨by decide, ?_⟩, [memberAt upperFoo, memberAt fooBar,
    archivedManifest 946684800 emptyManifest], ?_, ?_⟩
  · intro stores
    exact foo_is_folder ((storesAll_iff apart).mp stores)
  · intro writer
    rfl
  · intro stores
    have accepted : (inspectSourceArchive asciiTooling (fun _ => [])
        [memberAt upperFoo, memberAt fooBar,
          archivedManifest 946684800 emptyManifest]).errors = [] := by
      rfl
    have can := (storesMembers_iff accepted).mp stores
    have level := can.level [upperFoo, fooBar, manifestPath] (by decide)
    apply foo_is_folder
    intro file isFile path isPath
    exact level file (List.mem_append_left [manifestPath] isFile) path
      (List.mem_append_left [manifestPath] isPath)

end PpcLab.Release
