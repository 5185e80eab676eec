import PpcLab.Release.Archive

/-!
# Inspecting an archive

The inspection finds nothing in an archive that was written exactly when the
name of every file is plain and none has the key of the manifest's.
-/

namespace PpcLab.Release

open Explore (isAmong isAmong_iff)
open Trees (File)

/-- A path whose name the inspection takes: there is no backslash in it, and no
colon in what it begins with. -/
structure HasPlainName (path : Relative) : Prop where
  noBackslash : backslash ∉ path.posix
  noColon : ∀ part ∈ path.parts.head?, colon ∉ part

section

variable {tooling : Tooling}

private theorem isUnsafe_posix (path : Relative) :
    isUnsafe path.posix = (path.parts.head?.getD []).any (· == colon) := by
  have parts : path.parts.any (isAmong [[], [Paths.dot],
      [Paths.dot, Paths.dot]]) = false := by
    rw [List.any_eq_false]
    intro part member
    have component := path.components part member
    have nonempty := component.nonempty
    simp [isAmong, nonempty, component.notHere.symm, component.notParent.symm]
  rw [isUnsafe, path.isAbsolute_posix, path.normalized_posix,
    path.pureParts_posix, parts]
  simp

theorem nameErrors_eq_nil {path : Relative} :
    nameErrors tooling path.posix = [] ↔ HasPlainName path := by
  have isFile : (path.posix.isEmpty ||
      path.posix.getLast? == some Paths.slash) = false := by
    obtain ⟨part, parts, same⟩ := List.exists_cons_of_ne_nil path.nonempty
    have nonempty : path.posix ≠ [] := by
      rw [Relative.posix, same]
      exact Paths.posix_ne_nil (path.components part (by simp [same])) parts
    rw [Bool.or_eq_false_iff]
    refine ⟨by simpa using nonempty, ?_⟩
    simpa using path.getLast?_posix
  rw [nameErrors, isFile, isUnsafe_posix]
  constructor
  · intro none
    by_cases slashed : path.posix.any (· == backslash)
    · rw [if_neg Bool.false_ne_true, if_pos slashed] at none
      cases none
    · rw [if_neg Bool.false_ne_true, if_neg slashed] at none
      constructor
      · simpa using slashed
      · intro part first inside
        rw [first] at none
        rw [if_pos (by simpa using inside)] at none
        cases none
  · intro plain
    have noBackslash := plain.noBackslash
    have noColon := plain.noColon
    rw [if_neg Bool.false_ne_true, if_neg (by simpa using noBackslash), if_neg]
    cases first : path.parts.head? with
    | none => simp
    | some part =>
        have outside := noColon part first
        simpa using outside

/-- What is wrong with a member by itself. -/
def ownErrors (tooling : Tooling) (member : Member) : List Str :=
  nameErrors tooling member.name ++
    (if (nameErrors tooling member.name).isEmpty then typeErrors member else [])

/-- No two of the names have one key. -/
def Apart (tooling : Tooling) (names : List Str) : Prop :=
  ∀ first ∈ names, ∀ second ∈ names, tooling.portablePathKey first =
    tooling.portablePathKey second → first = second

/-- What has been found in members whose names are apart. -/
structure Inspected (tooling : Tooling) (members : List Member)
    (state : Inspecting) : Prop where
  seen : ∀ name, name ∈ state.seen ↔ name ∈ members.map (·.name)
  portable : ∀ key name, state.portableSeen.lookup key = some name ↔
    name ∈ members.map (·.name) ∧ tooling.portablePathKey name = key
  errors : state.errors = members.flatMap (ownErrors tooling)
  count : (∀ member ∈ members, member.name ≠ manifestName) →
    state.manifestCount = 0

private theorem collision?_eq_none {members : List Member} {state : Inspecting}
    (inspected : Inspected tooling members state) {name : Str}
    (clear : ∀ other ∈ members.map (·.name), tooling.portablePathKey other =
      tooling.portablePathKey name → other = name) :
    collision? tooling state name = none := by
  rw [collision?, Option.filter_eq_none_iff]
  intro prior found
  obtain ⟨member, same⟩ := (inspected.portable _ _).mp found
  simpa using clear prior member same

/-- One more member whose name is apart from the others. -/
private theorem Inspected.append {members : List Member} {state : Inspecting}
    (inspected : Inspected tooling members state) {member : Member}
    (new : member.name ∉ members.map (·.name))
    (clear : ∀ other ∈ members.map (·.name), tooling.portablePathKey other ≠
      tooling.portablePathKey member.name) :
    Inspected tooling (members ++ [member])
      (inspectMember tooling state member) := by
  have none : collision? tooling state member.name = none :=
    collision?_eq_none inspected
      (fun other there same => absurd same (clear other there))
  have unseen : isAmong state.seen member.name = false := by
    rw [Bool.eq_false_iff]
    intro seen
    exact new ((inspected.seen _).mp (isAmong_iff.mp seen))
  have absent : state.portableSeen.lookup
      (tooling.portablePathKey member.name) = Option.none := by
    cases found : state.portableSeen.lookup
        (tooling.portablePathKey member.name) with
    | none => rfl
    | some prior =>
        obtain ⟨there, same⟩ := (inspected.portable _ _).mp found
        exact absurd same (clear prior there)
  have added : portableAdded tooling state member.name = state.portableSeen ++
      [(tooling.portablePathKey member.name, member.name)] := by
    rw [portableAdded, none]
    apply Dictionary.assign_of_new
    intro there
    obtain ⟨entry, inside, same⟩ := List.mem_map.mp there
    have found := List.lookup_eq_none_iff.mp absent entry inside
    simp [same] at found
  constructor
  · intro name
    simp only [inspectMember, List.mem_cons, inspected.seen, List.map_append,
      List.map_cons, List.map_nil, List.mem_append, List.not_mem_nil, or_false]
    exact or_comm
  · intro key name
    simp only [inspectMember, added, List.lookup_append, List.map_append,
      List.map_cons, List.map_nil, List.mem_append, List.mem_singleton]
    by_cases here : key = tooling.portablePathKey member.name
    · subst here
      rw [absent, Option.none_or, List.lookup_cons_self, Option.some_inj]
      constructor
      · intro same
        exact ⟨Or.inr same.symm, same ▸ rfl⟩
      · intro known
        rcases known.1 with there | same
        · exact absurd known.2 (clear name there)
        · exact same.symm
    · have elsewhere : [(tooling.portablePathKey member.name,
          member.name)].lookup key = Option.none := by
        rw [List.lookup_cons, beq_eq_false_iff_ne.mpr here]
        rfl
      rw [elsewhere, Option.or_none, inspected.portable]
      constructor
      · intro known
        exact ⟨Or.inl known.1, known.2⟩
      · intro known
        rcases known.1 with there | same
        · exact ⟨there, known.2⟩
        · subst same
          exact absurd known.2.symm here
  · simp only [inspectMember, duplicateErrors, unseen, portableErrors, none,
      inspected.errors, List.flatMap_append, List.flatMap_cons,
      List.flatMap_nil, ownErrors]
    simp
  · intro others
    have before := inspected.count
      (fun other there => others other (List.mem_append_left _ there))
    have last := others member (by simp)
    simp [inspectMember, before, last]

theorem inspected_foldl {members : List Member}
    (nodup : (members.map (·.name)).Nodup)
    (apart : Apart tooling (members.map (·.name))) :
    Inspected tooling members
      (members.foldl (inspectMember tooling) ⟨[], [], 0, []⟩) := by
  induction members using List.reverseRecOn with
  | nil => exact ⟨by simp, by simp, rfl, fun _ => rfl⟩
  | append_singleton members member induction =>
      rw [List.map_append, List.map_singleton] at nodup apart
      have distinct := List.nodup_append.mp nodup
      have inspected := induction distinct.1 (by
        intro first inFirst second inSecond
        exact apart first (List.mem_append_left _ inFirst) second
          (List.mem_append_left _ inSecond))
      rw [List.foldl_append]
      apply inspected.append
      · intro there
        exact distinct.2.2 _ there _ (List.mem_singleton_self _) rfl
      · intro other there same
        have equal := apart other (List.mem_append_left _ there) member.name
          (by simp) same
        exact distinct.2.2 other there member.name (List.mem_singleton_self _)
          equal

private theorem fileType_permissions (executable : Bool) :
    fileType ((Zip.regularFile + Zip.permissions executable) % 0x10000) =
      Zip.regularFile := by
  cases executable with
  | true => decide
  | false => decide

private theorem typeErrors_archivedFile (epoch : Int) (file : Relative × File) :
    typeErrors (archivedFile epoch file) = [] :=
  if_pos (Or.inr (fileType_permissions file.2.executable))

private theorem ownErrors_archivedFile {epoch : Int} {file : Relative × File} :
    ownErrors tooling (archivedFile epoch file) = [] ↔
      HasPlainName file.1 := by
  rw [ownErrors, typeErrors_archivedFile, ite_self, List.append_nil]
  exact nameErrors_eq_nil

private theorem nameErrors_manifestName :
    nameErrors tooling manifestName = [] := by
  have named : manifestName = manifestPath.posix :=
    (Paths.posix_singleton _).symm
  rw [named]
  apply nameErrors_eq_nil.mpr
  constructor
  · decide
  · decide

private theorem ownErrors_archivedManifest (epoch : Int) (manifest : Manifest) :
    ownErrors tooling (archivedManifest epoch manifest) = [] := by
  have typed : typeErrors (archivedManifest epoch manifest) = [] :=
    if_pos (Or.inr (fileType_permissions false))
  rw [ownErrors, typed, ite_self, List.append_nil]
  exact nameErrors_manifestName

/-- A name that is not there collides with the names that have its key. -/
private theorem portableErrors_eq_nil {members : List Member}
    {state : Inspecting} (inspected : Inspected tooling members state)
    {name : Str} (new : name ∉ members.map (·.name)) :
    portableErrors tooling state name = [] ↔
      ∀ other ∈ members.map (·.name), tooling.portablePathKey other ≠
        tooling.portablePathKey name := by
  constructor
  · intro none other there same
    have found := (inspected.portable _ other).mpr ⟨there, same⟩
    have differ : (other != name) = true := by
      rw [bne_iff_ne]
      intro equal
      exact new (equal ▸ there)
    rw [portableErrors, collision?, found, Option.filter_some, if_pos differ]
      at none
    cases none
  · intro clear
    rw [portableErrors, collision?_eq_none inspected
      (fun other there same => absurd same (clear other there))]

/-- No error is taken back. -/
private theorem errors_append (state : Inspecting) (member : Member) :
    (inspectMember tooling state member).errors = state.errors ++
      (duplicateErrors state member.name ++
        portableErrors tooling state member.name ++
        ownErrors tooling member) := by
  simp only [inspectMember, ownErrors, List.append_assoc]

/-- Members in which nothing is found have names that are apart, and are sound
one by one. -/
theorem sound_of_foldl {members : List Member}
    (none : (members.foldl (inspectMember tooling) ⟨[], [], 0, []⟩).errors =
      []) :
    (members.map (·.name)).Nodup ∧ Apart tooling (members.map (·.name)) ∧
      ∀ member ∈ members, ownErrors tooling member = [] := by
  induction members using List.reverseRecOn with
  | nil =>
      refine ⟨List.nodup_nil, ?_, ?_⟩
      · intro first impossible
        cases impossible
      · intro member impossible
        cases impossible
  | append_singleton members member induction =>
      rw [List.foldl_append, List.foldl_cons, List.foldl_nil, errors_append,
        List.append_eq_nil_iff, List.append_eq_nil_iff,
        List.append_eq_nil_iff] at none
      obtain ⟨before, ⟨once, portable⟩, own⟩ := none
      obtain ⟨nodup, apart, sound⟩ := induction before
      have inspected := inspected_foldl nodup apart
      have new : member.name ∉ members.map (·.name) := by
        intro there
        rw [duplicateErrors,
          if_pos (isAmong_iff.mpr ((inspected.seen _).mpr there))] at once
        cases once
      have clear := (portableErrors_eq_nil inspected new).mp portable
      rw [List.map_append, List.map_singleton]
      refine ⟨?_, ?_, ?_⟩
      · exact List.nodup_append.mpr ⟨nodup, List.nodup_singleton _, by
          intro name there other last same
          rw [List.mem_singleton.mp last] at same
          exact new (same ▸ there)⟩
      · intro first isFirst second isSecond same
        rcases List.mem_append.mp isFirst with early | late
        · rcases List.mem_append.mp isSecond with other | last
          · exact apart first early second other same
          · rw [List.mem_singleton.mp last] at same
            exact absurd same (clear first early)
        · rw [List.mem_singleton.mp late] at same ⊢
          rcases List.mem_append.mp isSecond with other | last
          · exact absurd same.symm (clear second other)
          · exact (List.mem_singleton.mp last).symm
      · intro other listed
        rcases List.mem_append.mp listed with early | last
        · exact sound other early
        · rw [List.mem_singleton.mp last]
          exact own

/-- The manifest comes last. -/
private theorem inspectMember_manifest {members : List Member}
    {state : Inspecting} (inspected : Inspected tooling members state)
    (new : manifestName ∉ members.map (·.name)) (epoch : Int)
    (manifest : Manifest) :
    (inspectMember tooling state
        (archivedManifest epoch manifest)).manifestCount = 1 ∧
      (inspectMember tooling state (archivedManifest epoch manifest)).errors =
        members.flatMap (ownErrors tooling) ++
          portableErrors tooling state manifestName := by
  constructor
  · have none : state.manifestCount = 0 := by
      apply inspected.count
      intro member there same
      exact new (same ▸ List.mem_map_of_mem there)
    have plain : nameErrors tooling manifestName = [] :=
      nameErrors_manifestName
    simp [inspectMember, archivedManifest, none, plain]
  · have unseen : duplicateErrors state manifestName = [] := by
      apply if_neg
      intro seen
      exact new ((inspected.seen _).mp (isAmong_iff.mp seen))
    have own : ownErrors tooling (archivedManifest epoch manifest) = [] :=
      ownErrors_archivedManifest epoch manifest
    have split : (inspectMember tooling state
        (archivedManifest epoch manifest)).errors = state.errors ++
        duplicateErrors state manifestName ++
        portableErrors tooling state manifestName ++
        ownErrors tooling (archivedManifest epoch manifest) := by
      simp [inspectMember, ownErrors, archivedManifest]
    rw [split, unseen, own, inspected.errors, List.append_nil, List.append_nil]

/-- What the inspection asks of the files of an archive. -/
theorem inspect_eq_nil_iff (writer : Writer) (epoch : Int) (manifest : Manifest)
    {files : List (Relative × File)} (nodup : (files.map Prod.fst).Nodup)
    (apart : Apart tooling (files.map (·.1.posix)))
    (sources : ∀ file ∈ files, file.1.posix ≠ manifestName) :
    (inspectSourceArchive tooling writer (files.map (archivedFile epoch) ++
      [archivedManifest epoch manifest])).errors = [] ↔
    ∀ file ∈ files, HasPlainName file.1 ∧
      tooling.portablePathKey file.1.posix ≠
        tooling.portablePathKey manifestName := by
  have names : (files.map (archivedFile epoch)).map (·.name) =
      (files.map Prod.fst).map Relative.posix := by
    rw [List.map_map, List.map_map]
    rfl
  have inspected : Inspected tooling (files.map (archivedFile epoch))
      ((files.map (archivedFile epoch)).foldl (inspectMember tooling)
        ⟨[], [], 0, []⟩) := by
    apply inspected_foldl
    · rw [names]
      exact nodup.map Relative.posix_injective
    · rw [names, List.map_map]
      exact apart
  have new : manifestName ∉
      (files.map (archivedFile epoch)).map (·.name) := by
    rw [names, List.map_map]
    intro there
    obtain ⟨file, member, same⟩ := List.mem_map.mp there
    exact sources file member same
  obtain ⟨one, errors⟩ := inspectMember_manifest inspected new epoch manifest
  rw [inspectSourceArchive, List.foldl_append, List.foldl_cons, List.foldl_nil]
  dsimp only
  rw [one, errors, if_neg (not_not.mpr rfl), List.append_nil,
    List.append_eq_nil_iff, List.flatMap_eq_nil_iff,
    portableErrors_eq_nil inspected new, names, List.map_map]
  constructor
  · intro clear file member
    exact ⟨ownErrors_archivedFile.mp
        (clear.1 _ (List.mem_map_of_mem member)),
      clear.2 _ (List.mem_map_of_mem member)⟩
  · intro plain
    constructor
    · intro member there
      obtain ⟨file, inside, rfl⟩ := List.mem_map.mp there
      exact ownErrors_archivedFile.mpr (plain file inside).1
    · intro name there
      obtain ⟨file, inside, rfl⟩ := List.mem_map.mp there
      exact (plain file inside).2

end

end PpcLab.Release
