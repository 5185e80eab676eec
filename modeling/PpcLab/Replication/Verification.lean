import PpcLab.Library.Outcome
import PpcLab.Library.Sha256
import PpcLab.Replication.Archive

/-!
# What the verifier accepts

A verified archive is one whose directory, manifest and members satisfy a list
of conditions.  Members under `evidence/` and `knowledge/` are named after the
canonical form of their document.  Nothing is asked of the contents of others,
as long as the manifest lists them.
-/

namespace PpcLab.Replication.Archive

open Json

section Conditions

variable (sha256 : List Byte → Str) (reader : Reader)

/-- A document stored under the hash of its canonical form. -/
def Addressed (name : Str) (raw : List Byte) : Prop :=
  isHex64 (stem name) ∧ ∃ value canonical,
    reader.loads raw = .value value ∧
    value.canonical = some canonical ∧ sha256 canonical = stem name

/-- An entry of `files` declares a member with its size and its hash. -/
structure Declares (infos : List ZipInfo) (item : Fields) (raw : List Byte) :
    Prop where
  isSafe : safeMember (declaredName reader item)
  member : isMember infos (declaredName reader item)
  content : readMember infos (declaredName reader item) = .ok raw
  size : reader.doubles.equal (.int raw.length) (get item "size")
  hash : get item "sha256" = .string (sha256 raw)
  addressed : isAddressed (declaredName reader item) →
    Addressed sha256 reader (declaredName reader item) raw

/-- The members are exactly the declared ones and `bundle.json`. -/
structure Listed (infos : List ZipInfo) (items : List Json) : Prop where
  declares : ∀ item ∈ items, ∃ entry raw, item = .object entry ∧
    Declares sha256 reader infos entry raw
  declared : ∀ name ∈ names infos, name ≠ manifestName →
    ∃ entry, .object entry ∈ items ∧ declaredName reader entry = name

structure SafeDirectory (infos : List ZipInfo) : Prop where
  distinct : (names infos).Nodup
  safe : ∀ info ∈ infos, safeMember info.filename
  small : ∀ info ∈ infos, info.fileSize ≤ maxMemberBytes
  links : ∀ info ∈ infos, info.isSymlink = false

structure ManifestHeader (manifest : Fields) : Prop where
  schema : get manifest "schema" = .string "ppc-lab-replication-bundle-v1"
  api : reader.numerals.int
    ((find? manifest "replication_api").getD (.int (-1))) = some 1
  site : isSite (siteOf reader manifest)
  generation : ∃ generation, reader.numerals.int
    ((find? manifest "generation").getD (.int 0)) = some generation ∧
    1 ≤ generation
  identity : ∃ material, manifestMaterial manifest = some material ∧
    get manifest "bundle_id" = .string (sha256 material)
  noTargets : get (dict (get manifest "policy")) "target_binaries_included" =
    .bool false
  noState : get (dict (get manifest "policy")) "live_control_state_included" =
    .bool false

structure Conforms (infos : List ZipInfo) (manifest : Fields) : Prop where
  present : manifestName ∈ names infos
  loaded : ∃ raw, readMember infos manifestName = .ok raw ∧
    reader.loads raw = .value (.object manifest)
  directory : SafeDirectory infos
  header : ManifestHeader sha256 reader manifest
  files : ∃ items, get manifest "files" = .array items ∧
    Listed sha256 reader infos items

end Conditions

private theorem ifNil_eq_nil {condition : Prop} [Decidable condition]
    {error : Str} :
    (if condition then [] else [error]) = [] ↔ condition := by
  split <;> simp_all

private theorem infoErrors_eq_nil {info : ZipInfo} :
    infoErrors info = [] ↔ safeMember info.filename = true ∧
      info.fileSize ≤ maxMemberBytes ∧ info.isSymlink = false := by
  rw [infoErrors, List.append_eq_nil_iff, List.append_eq_nil_iff,
    ifNil_eq_nil, ifNil_eq_nil, and_assoc]
  cases info.isSymlink <;> simp

private theorem membersErrors_eq_nil {infos : List ZipInfo} :
    membersErrors infos = [] ↔ SafeDirectory infos := by
  rw [membersErrors, List.append_eq_nil_iff, ifNil_eq_nil,
    List.flatMap_eq_nil_iff]
  constructor
  · intro checked
    obtain ⟨distinct, each⟩ := checked
    have known : ∀ info ∈ infos, safeMember info.filename = true ∧
        info.fileSize ≤ maxMemberBytes ∧ info.isSymlink = false := by
      intro info member
      exact infoErrors_eq_nil.mp (each info member)
    constructor
    · exact distinct
    · intro info member
      exact (known info member).1
    · intro info member
      exact (known info member).2.1
    · intro info member
      exact (known info member).2.2
  · intro safe
    refine ⟨safe.distinct, ?_⟩
    intro info member
    apply infoErrors_eq_nil.mpr
    exact ⟨safe.safe info member, safe.small info member,
      safe.links info member⟩

section Manifest

variable {sha256 : List Byte → Str} {reader : Reader}

private theorem apiErrors_eq_ok {manifest : Fields} :
    apiErrors reader manifest = .ok [] ↔ reader.numerals.int
      ((find? manifest "replication_api").getD (.int (-1))) = some 1 := by
  rw [apiErrors]
  split
  · simp_all
  · next api read =>
    rw [read, Except.ok.injEq, ifNil_eq_nil, Option.some.injEq]

private theorem generationErrors_eq_ok {manifest : Fields} :
    generationErrors reader manifest = .ok [] ↔
      ∃ generation, reader.numerals.int
        ((find? manifest "generation").getD (.int 0)) = some generation ∧
        1 ≤ generation := by
  rw [generationErrors]
  cases read : reader.numerals.int
      ((find? manifest "generation").getD (.int 0)) with
  | none =>
      dsimp only
      split <;> simp
  | some generation =>
      dsimp only
      rw [Except.ok.injEq, ifNil_eq_nil]
      constructor
      · intro positive
        exact ⟨generation, rfl, positive⟩
      · intro found
        obtain ⟨_, same, positive⟩ := found
        cases same
        exact positive

private theorem identityErrors_eq_ok {manifest : Fields} :
    identityErrors sha256 manifest = .ok [] ↔
      ∃ material, manifestMaterial manifest = some material ∧
        get manifest "bundle_id" = .string (sha256 material) := by
  rw [identityErrors]
  cases encoded : manifestMaterial manifest with
  | none => simp
  | some material =>
      dsimp only
      rw [Except.ok.injEq, ifNil_eq_nil]
      simp

private theorem policyErrors_eq_nil {manifest : Fields} :
    policyErrors manifest = [] ↔
      get (dict (get manifest "policy")) "target_binaries_included" =
        .bool false ∧
      get (dict (get manifest "policy")) "live_control_state_included" =
        .bool false := by
  rw [policyErrors, List.append_eq_nil_iff, ifNil_eq_nil, ifNil_eq_nil]

private theorem addressErrors_eq_ok {name : Str} {raw : List Byte} :
    addressErrors sha256 reader name raw = .ok [] ↔
      (isAddressed name = true → Addressed sha256 reader name raw) := by
  rw [addressErrors, Addressed]
  cases isAddressed name with
  | false => simp
  | true =>
      cases isHex64 (stem name) with
      | false => simp
      | true =>
          cases loaded : reader.loads raw with
          | undecodable => simp
          | malformed reason => simp
          | value value =>
              cases encoded : value.canonical with
              | none => simp [encoded]
              | some canonical => simp [encoded]

private theorem rawErrors_eq_nil {item : Fields} {name : Str}
    {raw : List Byte} :
    rawErrors sha256 reader item name raw = [] ↔
      reader.doubles.equal (.int raw.length) (get item "size") = true ∧
      get item "sha256" = .string (sha256 raw) := by
  rw [rawErrors, List.append_eq_nil_iff, ifNil_eq_nil, ifNil_eq_nil]

private theorem itemErrors_object {infos : List ZipInfo} {entry : Fields} :
    itemErrors sha256 reader infos (.object entry) = .ok [] ↔
      ∃ raw, Declares sha256 reader infos entry raw := by
  rw [itemErrors]
  constructor
  · intro checked
    split at checked
    · next isSafe =>
      split at checked
      · next member =>
        obtain ⟨raw, content, checked⟩ := Outcome.bind_eq_ok.mp checked
        obtain ⟨address, addressed, checked⟩ := Outcome.bind_eq_ok.mp checked
        have noErrors := Except.ok.inj checked
        rw [List.append_eq_nil_iff] at noErrors
        obtain ⟨noErrors, rfl⟩ := noErrors
        obtain ⟨size, hash⟩ := rawErrors_eq_nil.mp noErrors
        exact ⟨raw, isSafe, member, content, size, hash,
          addressErrors_eq_ok.mp addressed⟩
      · simp at checked
    · simp at checked
  · intro declares
    obtain ⟨raw, declares⟩ := declares
    have address := addressErrors_eq_ok.mpr declares.addressed
    have noErrors : rawErrors sha256 reader entry
        (declaredName reader entry) raw = [] :=
      rawErrors_eq_nil.mpr ⟨declares.size, declares.hash⟩
    rw [if_pos declares.isSafe, if_pos declares.member, declares.content]
    dsimp only [Bind.bind, Except.bind]
    rw [address, noErrors]
    rfl

private theorem itemErrors_eq_ok {infos : List ZipInfo} {item : Json} :
    itemErrors sha256 reader infos item = .ok [] ↔
      ∃ entry raw, item = .object entry ∧
        Declares sha256 reader infos entry raw := by
  cases item with
  | object entry =>
      rw [itemErrors_object]
      simp
  | _ => simp [itemErrors]

private theorem itemsErrors_eq_ok {infos : List ZipInfo} {items : List Json} :
    itemsErrors sha256 reader infos items = .ok [] ↔
      ∀ item ∈ items, ∃ entry raw, item = .object entry ∧
        Declares sha256 reader infos entry raw := by
  induction items with
  | nil => simp [itemsErrors]
  | cons item items induction =>
      rw [List.forall_mem_cons, ← induction, ← itemErrors_eq_ok, itemsErrors]
      constructor
      · intro checked
        obtain ⟨first, found, checked⟩ := Outcome.bind_eq_ok.mp checked
        obtain ⟨others, rest, checked⟩ := Outcome.bind_eq_ok.mp checked
        have noErrors := Except.ok.inj checked
        rw [List.append_eq_nil_iff] at noErrors
        obtain ⟨rfl, rfl⟩ := noErrors
        exact ⟨found, rest⟩
      · intro checked
        obtain ⟨found, rest⟩ := checked
        rw [found, rest]
        rfl

private theorem mem_declaredNames {items : List Json} {name : Str} :
    name ∈ declaredNames reader items ↔
      ∃ entry, .object entry ∈ items ∧ declaredName reader entry = name := by
  rw [declaredNames, List.mem_filterMap]
  constructor
  · intro found
    obtain ⟨item, member, declared⟩ := found
    cases item with
    | object entry => exact ⟨entry, member, Option.some.inj declared⟩
    | _ => cases declared
  · intro found
    obtain ⟨entry, member, declared⟩ := found
    exact ⟨.object entry, member, congrArg some declared⟩

private theorem mem_extraMembers {infos : List ZipInfo} {items : List Json}
    {name : Str} :
    name ∈ extraMembers reader infos items ↔
      name ∈ names infos ∧ name ≠ manifestName ∧
        name ∉ declaredNames reader items := by
  rw [extraMembers, List.mem_insertionSort, List.mem_dedup, List.mem_filter,
    Bool.and_eq_true, bne_iff_ne, decide_eq_true_iff]

private theorem extraErrors_eq_nil {infos : List ZipInfo}
    {items : List Json} :
    extraErrors reader infos items = [] ↔
      ∀ name ∈ names infos, name ≠ manifestName →
        ∃ entry, .object entry ∈ items ∧ declaredName reader entry = name := by
  have isNil : extraErrors reader infos items = [] ↔
      extraMembers reader infos items = [] := by
    cases extra : extraMembers reader infos items <;>
      simp [extraErrors, extra]
  rw [isNil, List.eq_nil_iff_forall_not_mem]
  constructor
  · intro none name member other
    apply mem_declaredNames.mp
    by_contra undeclared
    apply none name
    exact mem_extraMembers.mpr ⟨member, other, undeclared⟩
  · intro declared name extra
    obtain ⟨member, other, undeclared⟩ := mem_extraMembers.mp extra
    exact undeclared (mem_declaredNames.mpr (declared name member other))

private theorem filesErrors_eq_nil {manifest : Fields} :
    filesErrors manifest = [] ↔
      get manifest "files" = .array (listedItems manifest) := by
  rw [filesErrors, listedItems]
  cases get manifest "files" <;> simp [asArray?]

private theorem manifestErrors_eq_ok {infos : List ZipInfo}
    {manifest : Fields} :
    manifestErrors sha256 reader infos manifest = .ok [] ↔
      SafeDirectory infos ∧ ManifestHeader sha256 reader manifest ∧
      ∃ items, get manifest "files" = .array items ∧
        Listed sha256 reader infos items := by
  constructor
  · intro checked
    obtain ⟨api, apiRead, checked⟩ := Outcome.bind_eq_ok.mp checked
    obtain ⟨generation, counted, checked⟩ := Outcome.bind_eq_ok.mp checked
    obtain ⟨identity, identified, checked⟩ := Outcome.bind_eq_ok.mp checked
    obtain ⟨items, declared, checked⟩ := Outcome.bind_eq_ok.mp checked
    have noErrors := Except.ok.inj checked
    simp only [List.append_eq_nil_iff, and_assoc] at noErrors
    obtain ⟨members, schema, rfl, site, rfl, rfl, files, rfl, extra, policy⟩ :=
      noErrors
    obtain ⟨noTargets, noState⟩ := policyErrors_eq_nil.mp policy
    refine ⟨membersErrors_eq_nil.mp members, ?_, listedItems manifest,
      filesErrors_eq_nil.mp files, ?_⟩
    · exact {
        schema := ifNil_eq_nil.mp schema
        api := apiErrors_eq_ok.mp apiRead
        site := ifNil_eq_nil.mp site
        generation := generationErrors_eq_ok.mp counted
        identity := identityErrors_eq_ok.mp identified
        noTargets := noTargets
        noState := noState }
    · exact ⟨itemsErrors_eq_ok.mp declared, extraErrors_eq_nil.mp extra⟩
  · intro conforms
    obtain ⟨directory, header, items, files, listed⟩ := conforms
    have same : listedItems manifest = items := by
      rw [listedItems, files]
      rfl
    have isArray : filesErrors manifest = [] := by
      rw [filesErrors_eq_nil, same]
      exact files
    have schema : schemaErrors manifest = [] := ifNil_eq_nil.mpr header.schema
    have site : siteErrors reader manifest = [] :=
      ifNil_eq_nil.mpr header.site
    have policy := policyErrors_eq_nil.mpr ⟨header.noTargets, header.noState⟩
    rw [manifestErrors, apiErrors_eq_ok.mpr header.api,
      generationErrors_eq_ok.mpr header.generation,
      identityErrors_eq_ok.mpr header.identity, same,
      itemsErrors_eq_ok.mpr listed.declares, schema, site, policy, isArray,
      membersErrors_eq_nil.mpr directory,
      extraErrors_eq_nil.mpr listed.declared]
    rfl

private theorem verifyOpened_eq_ok {infos : List ZipInfo} {manifest : Fields} :
    verifyOpened sha256 reader infos = .ok (manifest, []) ↔
      Conforms sha256 reader infos manifest := by
  rw [verifyOpened]
  constructor
  · intro verified
    split at verified
    · next present =>
      obtain ⟨raw, content, verified⟩ := Outcome.bind_eq_ok.mp verified
      split at verified
      · cases verified
      · cases verified
      · next found loaded =>
        obtain ⟨errors, checked, verified⟩ := Outcome.bind_eq_ok.mp verified
        cases verified
        obtain ⟨directory, header, files⟩ := manifestErrors_eq_ok.mp checked
        exact ⟨present, ⟨raw, content, loaded⟩, directory, header, files⟩
      · simp [pure, Except.pure] at verified
    · simp at verified
  · intro conforms
    obtain ⟨raw, content, loaded⟩ := conforms.loaded
    have checked : manifestErrors sha256 reader infos manifest = .ok [] :=
      manifestErrors_eq_ok.mpr
        ⟨conforms.directory, conforms.header, conforms.files⟩
    rw [if_pos conforms.present, content]
    dsimp only [Bind.bind, Except.bind]
    rw [loaded]
    dsimp only
    rw [checked]
    rfl

theorem accepted_iff_conforms {path : Str} {file : Option BundleFile}
    {manifest : Fields} :
    verifyBundle sha256 reader path file = .ok (manifest, []) ↔
      ∃ bundle infos, file = some bundle ∧
        bundle.size ≤ maxBundleBytes ∧ bundle.archive = .ok infos ∧
        Conforms sha256 reader infos manifest := by
  constructor
  · intro verified
    unfold verifyBundle at verified
    cases file with
    | none => simp at verified
    | some bundle =>
        dsimp only at verified
        split at verified
        · next small =>
          split at verified
          · simp at verified
          · next outcome _ =>
            cases opened : bundle.archive with
            | error reason =>
                rw [opened] at verified
                cases verified
            | ok infos =>
                rw [opened] at verified
                exact ⟨bundle, infos, rfl, small, opened,
                  verifyOpened_eq_ok.mp verified⟩
        · simp at verified
  · intro accepted
    obtain ⟨bundle, infos, rfl, small, opened, conforms⟩ := accepted
    have verified := verifyOpened_eq_ok.mpr conforms
    unfold verifyBundle
    dsimp only
    rw [if_pos small, opened]
    dsimp only [Except.bind]
    rw [verified]

end Manifest

def programBytes : List Byte :=
  [0x7f, 0x45, 0x4c, 0x46]

/-- The manifest of a bundle that declares `target.bin`. -/
def programMaterial : Fields :=
  [("schema", .string "ppc-lab-replication-bundle-v1"),
    ("replication_api", .int 1),
    ("source_site", .string "site-a"),
    ("generation", .int 1),
    ("files", .array [.object [("path", .string "target.bin"),
      ("sha256", .string (Sha256.hexdigest programBytes)),
      ("size", .int 4)]]),
    ("policy", .object [("target_binaries_included", .bool false),
      ("live_control_state_included", .bool false)])]

def programManifest : Fields :=
  ("bundle_id", .string (Sha256.hexdigest
    ((manifestMaterial programMaterial).getD []))) :: programMaterial

def programArchive : List ZipInfo :=
  [⟨"target.bin", 4, 0, .ok programBytes⟩,
    ⟨manifestName, 700, 0,
      .ok (((Json.object programManifest).canonical).getD [])⟩]

/-- A program that the manifest lists is accepted, although it is neither a
document under its hash nor the history. -/
theorem declared_program_is_accepted :
    str "target.bin" ∈ names programArchive ∧
      isAddressed "target.bin" = false ∧
      (str "target.bin") ≠ str "control/history.ndjson" ∧
      ∃ manifest, verifyBundle Sha256.hexdigest .ascii "bundle.zip"
        (some ⟨1024, .ok programArchive⟩) = .ok (manifest, []) := by
  refine ⟨by decide, by decide, by decide, sortedObject programManifest, ?_⟩
  decide +kernel

end PpcLab.Replication.Archive
