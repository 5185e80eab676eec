import PpcLab.Library.TreeWrites
import PpcLab.Target.Leaks

/-!
# Packing a profile again

A package is extracted and packed once more.  The manifest that the packer adds
is a file of the extracted profile, to which the packer adds its manifest under
the same name.
-/

namespace PpcLab.Target

open Trees (File Tree mem_sortedByPath)

def bytesOf (writer : Json → List Byte) : Zip.Content Json → List Byte
  | .bytes bytes => bytes
  | .document value => writer value

/-- The path of a member below the folder of the profile. -/
def placeOf (name : Str) : Option Relative :=
  Relative.ofParts? ((Paths.pureParts name).drop 1)

/-- A member is extracted with its permissions. -/
def extractMember (writer : Json → List Byte) (tree : Tree)
    (member : Zip.Member Json) : Option Tree := do
  let path ← placeOf member.name
  let mode := member.mode &&& 0o777
  tree.install (path,
    ⟨bytesOf writer member.content, mode, mode &&& 0o111 != 0⟩)

/-- The profile that is extracted from a package. -/
def extract (writer : Json → List Byte) (members : List (Zip.Member Json)) :
    Option Tree :=
  members.foldlM (extractMember writer) Keyed.empty

private theorem isComponent_package : ∀ part ∈ [str "PROFILE-PACKAGE.json"],
    Paths.IsComponent part := by
  decide

def packagePath : Relative :=
  ⟨[str "PROFILE-PACKAGE.json"], List.cons_ne_nil _ _, isComponent_package⟩

private theorem documentParts_ne_nil : [str "profile.json"] ≠ [] :=
  List.cons_ne_nil _ _

def documentPath : Relative :=
  ⟨[str "profile.json"], documentParts_ne_nil, isComponent_profile⟩

/-- The second package has the members of the first one, every name once, and a
manifest that lists the files of the profile. -/
structure SameAgain (doc : Json) (directory : Directory)
    (members again : List (Zip.Member Json)) : Prop where
  same : again = members
  once : (again.map Zip.Member.name).Nodup
  lists : ∃ package ∈ again, package.content = .document
    (manifest (Json.get (Json.dict doc) (str "id"))
      (Json.get (Json.dict doc) (str "minimum_ppc_lab"))
      (profileFiles directory))

/-- What is extracted from a package, at some location, is packed to the same
package. -/
def Repacks (unicode : Unicode) (doubles : Doubles)
    (writer : Json → List Byte) (loads : List Byte → Option Json)
    (location : List Str) (doc : Json) (directory : Directory) (epoch : Int)
    (members : List (Zip.Member Json)) : Prop :=
  ∃ tree file copied again, extract writer members = some tree ∧
    tree.fileAt documentPath = some file ∧ loads file.bytes = some copied ∧
    cmdPack unicode doubles copied ⟨location, tree⟩ epoch = .ok again ∧
    SameAgain doc directory members again

section

variable {unicode : Unicode} {doubles : Doubles} {writer : Json → List Byte}
  {doc : Json} {directory : Directory} {epoch : Int}
  {members : List (Zip.Member Json)} {tree : Tree}

private theorem isComponent_of_isId {ident : Str} (named : isId ident) :
    Paths.IsComponent ident := by
  cases ident with
  | nil => cases named
  | cons first others =>
      refine ⟨List.cons_ne_nil _ _, ?_, ?_, ?_, ?_⟩
      · intro inside
        exact absurd (of_isId named inside) (by decide)
      · intro inside
        exact absurd (of_isId named inside) (by decide)
      · intro same
        cases same
        exact absurd named (by decide)
      · intro same
        cases same
        exact absurd named (by decide)

/-- The manifest of a package is extracted to its place in the profile. -/
private theorem placeOf_package {ident : Str} (named : isId ident) :
    placeOf (start unicode (.string ident) ++ str "PROFILE-PACKAGE.json") =
      some packagePath := by
  have components : ∀ part ∈ [ident, str "PROFILE-PACKAGE.json"],
      Paths.IsComponent part := by
    intro part listed
    rcases List.mem_cons.mp listed with rfl | last
    · exact isComponent_of_isId named
    · exact isComponent_package part last
  have name : start unicode (.string ident) ++ str "PROFILE-PACKAGE.json" =
      Relative.posix ⟨[ident, str "PROFILE-PACKAGE.json"],
        List.cons_ne_nil _ _, components⟩ := by
    rw [Relative.posix, Paths.posix_cons _ (List.cons_ne_nil _ _),
      Paths.posix_singleton]
    simp [start, Unicode.toStr]
  rw [placeOf, name, Relative.pureParts_posix]
  exact Relative.ofParts?_eq_some.mpr rfl

private theorem plain_extract {before : Tree} (plain : before.Plain)
    (extracted : members.foldlM (extractMember writer) before = some tree) :
    tree.Plain := by
  induction members generalizing before with
  | nil =>
      cases extracted
      exact plain
  | cons member members induction =>
      obtain ⟨next, first, rest⟩ := Option.bind_eq_some_iff.mp extracted
      obtain ⟨path, _, installed⟩ := Option.bind_eq_some_iff.mp first
      obtain ⟨_, here⟩ :=
        Tree.installed_of_install (plain.leadsAway path) installed
      exact induction (plain.installed here) rest

/-- There is a manifest in what is extracted from a package. -/
private theorem fileAt_packagePath
    (packed : cmdPack unicode doubles doc directory epoch = .ok members)
    (extracted : extract writer members = some tree) :
    ∃ file, tree.fileAt packagePath = some file := by
  obtain ⟨sound, _, rfl⟩ := cmdPack_eq_ok.mp packed
  obtain ⟨ident, held, named⟩ := exists_id sound.document
  rw [extract, archive, List.foldlM_append] at extracted
  obtain ⟨before, first, last⟩ := Option.bind_eq_some_iff.mp extracted
  obtain ⟨after, written, same⟩ := Option.bind_eq_some_iff.mp last
  cases same
  obtain ⟨path, place, installed⟩ := Option.bind_eq_some_iff.mp written
  have isPackage : path = packagePath := by
    rw [packedManifest, held, placeOf_package named] at place
    exact (Option.some.inj place).symm
  rw [isPackage] at installed
  have plain := plain_extract Tree.plain_empty first
  obtain ⟨_, here⟩ :=
    Tree.installed_of_install (plain.leadsAway packagePath) installed
  exact ⟨_, here.fileAt_self⟩

/-- A profile with a manifest in it is packed to a package in which there are
two manifests. -/
theorem not_nodup_of_packed {file : File}
    (there : directory.tree.fileAt packagePath = some file)
    (packed : cmdPack unicode doubles doc directory epoch = .ok members) :
    ¬(members.map Zip.Member.name).Nodup := by
  obtain ⟨_, _, rfl⟩ := cmdPack_eq_ok.mp packed
  have listed : (packagePath, file) ∈ profileFiles directory := by
    rw [profileFiles, mem_sortedByPath, List.mem_filter]
    have taken : isPacked packagePath := by
      decide
    exact ⟨Tree.mem_regularFiles_iff.mpr there, taken⟩
  intro nodup
  rw [archive, List.map_append, List.nodup_append] at nodup
  refine nodup.2.2 _ (List.mem_map_of_mem (List.mem_map_of_mem listed)) _
    (List.mem_singleton_self _) ?_
  have name : packagePath.posix = str "PROFILE-PACKAGE.json" :=
    Paths.posix_singleton _
  rw [packedFile, packedManifest, name]

/-- No profile is packed to the same package again: the manifest that was added
is in the second package, and another one is added under its name. -/
theorem repacking_never_agrees (unicode : Unicode) (doubles : Doubles)
    (writer : Json → List Byte) (loads : List Byte → Option Json)
    (location : List Str) (doc : Json) (directory : Directory) (epoch : Int)
    (members : List (Zip.Member Json))
    (packed : cmdPack unicode doubles doc directory epoch = .ok members) :
    ¬Repacks unicode doubles writer loads location doc directory epoch
      members := by
  intro repacks
  obtain ⟨tree, file, copied, again, extracted, _, _, second, agrees⟩ := repacks
  obtain ⟨package, there⟩ := fileAt_packagePath packed extracted
  exact not_nodup_of_packed there second agrees.once

end

def radioEntries : List Trees.Entry :=
  requiredPaths.map fun path => ⟨path, false, some (.file ⟨[], 0o644, false⟩)⟩

private theorem radioEntries_nodup :
    (radioEntries.map Trees.Entry.path).Nodup := by
  decide

/-- A new profile. -/
def radioFolder : Directory where
  location := [str "profiles", str "radio"]
  tree := ⟨radioEntries, radioEntries_nodup⟩

private theorem radioFolder_packed :
    cmdPack .ascii .none radio radioFolder 946684800 =
      .ok (archive .ascii (Json.get (Json.dict radio) (str "id"))
        (Json.get (Json.dict radio) (str "minimum_ppc_lab")) radioFolder
        946684800) := by
  apply cmdPack_eq_ok.mpr
  refine ⟨⟨⟨_, rfl⟩, skeleton_sound (by decide) (by decide), by decide, by rfl,
    by decide, by decide⟩, by decide, rfl⟩

theorem radio_not_repacked : ∃ members,
    cmdPack .ascii .none radio radioFolder 946684800 = .ok members ∧
      ¬Repacks .ascii .none (fun _ => []) (fun _ => some radio)
        [str "copies", str "radio"] radio radioFolder 946684800 members :=
  ⟨_, radioFolder_packed, repacking_never_agrees .ascii .none _ _ _ radio
    radioFolder 946684800 _ radioFolder_packed⟩

/-- The package of a new profile is extracted and packed to a package with two
manifests. -/
theorem two_manifests : ∃ members tree again,
    cmdPack .ascii .none radio radioFolder 946684800 = .ok members ∧
      extract (fun _ => []) members = some tree ∧
      cmdPack .ascii .none radio ⟨[str "copies", str "radio"], tree⟩
        946684800 = .ok again ∧
      (again.map Zip.Member.name).count
        (str "radio/PROFILE-PACKAGE.json") = 2 := by
  have seen : (extract (fun _ => []) (archive .ascii (.string (str "radio"))
      (.string (str "3.1.0")) radioFolder 946684800)).map (fun tree =>
        (cmdPack .ascii .none radio ⟨[str "copies", str "radio"], tree⟩
          946684800).toOption.map fun again =>
            (again.map Zip.Member.name).count
              (str "radio/PROFILE-PACKAGE.json")) = some (some 2) := by
    decide +kernel
  obtain ⟨tree, extracted, seen⟩ := Option.map_eq_some_iff.mp seen
  obtain ⟨again, packed, count⟩ := Option.map_eq_some_iff.mp seen
  refine ⟨_, tree, again, radioFolder_packed, extracted, ?_, count⟩
  cases second : cmdPack .ascii .none radio
      ⟨[str "copies", str "radio"], tree⟩ 946684800 with
  | ok members =>
      rw [second] at packed
      cases packed
      rfl
  | error failure =>
      rw [second] at packed
      cases packed

end PpcLab.Target
