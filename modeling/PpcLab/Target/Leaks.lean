import PpcLab.Target.Pack

/-!
# What a profile package holds

The files of a package are those of the profile.  A binary among them is listed
unless the profile lies below a folder that the check skips.
-/

namespace PpcLab.Target

open Explore (Failure isAmong isAmong_iff)
open Trees (Entry File Tree sortedByPath mem_sortedByPath)

/-- The files that a document lists. -/
def redistributable (doc : Fields) : List Json :=
  (Json.get doc (str "redistributable_files")).asArray?.getD []

variable (unicode : Unicode) (doubles : Doubles)

/-- A member is the file at a path of the profile. -/
def Holds (doc : Fields) (members : List (Zip.Member Json))
    (path : Relative) : Prop :=
  ∃ held ∈ members,
    held.name = start unicode (Json.get doc (str "id")) ++ path.posix

/-- Every member that is a binary is listed. -/
def LeaksNothing (doc : Fields) (members : List (Zip.Member Json)) : Prop :=
  ∀ path, Holds unicode doc members path → isBinary unicode path →
    .string path.posix ∈ redistributable doc

/-- The checks other than the one for binaries pass. -/
structure Sound (doc : Json) (directory : Directory) (epoch : Int) : Prop where
  object : ∃ fields, doc = .object fields
  document : documentErrors unicode doubles (Json.dict doc) = []
  complete : missingErrors directory = []
  hashable : (redistributable (Json.dict doc)).all Security.isHashable
  datable : Zip.zipTime epoch < Zip.endTime
  writable : ∀ file ∈ profileFiles directory, (utf8 file.1.posix).isSome

/-- Nothing that would be packed is a binary that is not listed. -/
def Clean (doc : Fields) (directory : Directory) : Prop :=
  ∀ file ∈ directory.tree.regularFiles, isPacked file.1 →
    isBinary unicode file.1 → .string file.1.posix ∈ redistributable doc

/-- `lower` of texts in ASCII. -/
def LowersAscii (unicode : Unicode) : Prop :=
  ∀ text : Str, (∀ character ∈ text, character.val < 0x80) →
    unicode.lower text = Unicode.ascii.lower text

section

variable {unicode : Unicode} {doubles : Doubles} {doc : Json}
  {directory : Directory} {epoch : Int} {members : List (Zip.Member Json)}

private theorem allowed_eq_ok {fields : Fields} {allow : List Json} :
    allowed fields = .ok allow ↔
      (redistributable fields).all Security.isHashable ∧
        allow = redistributable fields := by
  rw [allowed, redistributable]
  cases Json.get fields (str "redistributable_files") with
  | array files =>
      by_cases hashable : files.all Security.isHashable
      · simp only [hashable, if_true, Except.ok.injEq, Json.asArray?,
          Option.getD_some, true_and]
        exact eq_comm
      · simp only [hashable, if_false, Json.asArray?, Option.getD_some,
          false_and, iff_false, Bool.false_eq_true]
        intro impossible
        cases impossible
  | null | bool | int | float | string | object =>
      simp only [Json.asArray?, Option.getD_none, List.all_nil, true_and,
        Except.ok.injEq]
      exact eq_comm

theorem isListed_iff {allow : List Json} {path : Relative} :
    isListed allow path ↔ .string path.posix ∈ allow := by
  simp [isListed]

private theorem validateDoc_eq_nil :
    validateDoc unicode doubles doc directory = .ok [] ↔
      (∃ fields, doc = .object fields) ∧
      (redistributable (Json.dict doc)).all Security.isHashable ∧
      documentErrors unicode doubles (Json.dict doc) = [] ∧
      missingErrors directory = [] ∧
      binaryErrors unicode directory (redistributable (Json.dict doc)) = [] := by
  cases doc with
  | object fields =>
      have same : Json.dict (.object fields) = fields := rfl
      rw [validateDoc, Outcome.bind_eq_ok, same]
      constructor
      · intro given
        obtain ⟨allow, listed, errors⟩ := given
        obtain ⟨hashable, rfl⟩ := allowed_eq_ok.mp listed
        have none := Except.ok.inj errors
        simp only [List.append_eq_nil_iff] at none
        exact ⟨⟨fields, rfl⟩, hashable, none.1.1, none.1.2, none.2⟩
      · intro given
        obtain ⟨_, hashable, document, complete, binaries⟩ := given
        refine ⟨_, allowed_eq_ok.mpr ⟨hashable, rfl⟩, ?_⟩
        rw [document, complete, binaries]
        rfl
  | null | bool | int | float | string | array =>
      constructor
      · intro impossible
        cases impossible
      · intro given
        obtain ⟨⟨_, impossible⟩, _⟩ := given
        cases impossible

private theorem member_eq_ok {fields : Fields} {key : Str} {value : Json} :
    member fields key = .ok value ↔ Json.find? fields key = some value := by
  rw [member]
  cases Json.find? fields key <;> simp

private theorem find_id {fields : Fields}
    (sound : documentErrors unicode doubles fields = []) :
    Json.find? fields (str "id") = some (Json.get fields (str "id")) := by
  obtain ⟨ident, named, _⟩ := exists_id sound
  cases held : Json.find? fields (str "id") with
  | none =>
      rw [Json.get, held] at named
      cases named
  | some value =>
      rw [Json.get, held]
      rfl

/-- The names in an archive begin with the identifier, which is in ASCII. -/
private theorem isSome_utf8_start {doc : Fields}
    (sound : documentErrors unicode doubles doc = []) (name : Str) :
    (utf8 (start unicode (Json.get doc (str "id")) ++ name)).isSome =
      (utf8 name).isSome := by
  obtain ⟨ident, held, named⟩ := exists_id sound
  have marks : ∀ text ∈ [str ".", str "_", str "-"], ∀ character ∈ text,
      character.val < 0x800 := by
    decide
  have small : ∀ character ∈ start unicode (.string ident),
      character.val < 0x800 := by
    intro character listed
    rcases List.mem_append.mp listed with inside | slash
    · have allowed := of_isId named inside
      simp only [isLowercase, isDigit, Bool.or_eq_true, Bool.and_eq_true,
        decide_eq_true_eq] at allowed
      rcases allowed with (lowercase | digit) | mark
      · omega
      · omega
      · exact marks _ (isAmong_iff.mp mark) character List.mem_cons_self
    · rw [List.mem_singleton.mp slash]
      decide
  obtain ⟨bytes, encoded⟩ := exists_utf8_of_small small
  rw [held, Bool.eq_iff_iff, Option.isSome_iff_exists, Option.isSome_iff_exists]
  constructor
  · intro given
    obtain ⟨_, whole⟩ := given
    exact exists_utf8_of_append whole
  · intro given
    obtain ⟨_, rest⟩ := given
    exact ⟨_, utf8_append encoded rest⟩

/-- The members can be written when the date and the names of the files can. -/
private theorem all_isWritable_archive
    (sound : documentErrors unicode doubles (Json.dict doc) = []) {minimum : Json} :
    (archive unicode (Json.get (Json.dict doc) (str "id")) minimum directory
        epoch).all Zip.isWritable ↔
      Zip.zipTime epoch < Zip.endTime ∧
        ∀ file ∈ profileFiles directory, (utf8 file.1.posix).isSome := by
  have manifest : (utf8 (str "PROFILE-PACKAGE.json")).isSome = true := by
    decide
  simp only [archive, List.all_append, List.all_map, List.all_cons,
    List.all_nil, Bool.and_true, Bool.and_eq_true, List.all_eq_true,
    Function.comp_apply, Zip.isWritable, packedFile, packedManifest,
    isSome_utf8_start sound, manifest, true_and]
  rw [decide_eq_true_eq]
  constructor
  · intro given
    exact ⟨given.2, fun file listed => (given.1 file listed).1⟩
  · intro given
    exact ⟨fun file listed => ⟨given.2 file listed, decide_eq_true given.1⟩,
      given.1⟩

/-- A profile is packed when the checks pass. -/
theorem cmdPack_eq_ok :
    cmdPack unicode doubles doc directory epoch = .ok members ↔
      Sound unicode doubles doc directory epoch ∧
      binaryErrors unicode directory (redistributable (Json.dict doc)) = [] ∧
      members = archive unicode (Json.get (Json.dict doc) (str "id"))
        (Json.get (Json.dict doc) (str "minimum_ppc_lab")) directory epoch := by
  constructor
  · intro packed
    obtain ⟨errors, validated, packed⟩ := Outcome.bind_eq_ok.mp packed
    by_cases none : errors = []
    · subst none
      rw [if_neg (not_not.mpr rfl)] at packed
      obtain ⟨ident, named, packed⟩ := Outcome.bind_eq_ok.mp packed
      obtain ⟨minimum, versioned, packed⟩ := Outcome.bind_eq_ok.mp packed
      obtain ⟨object, hashable, document, complete, binaries⟩ :=
        validateDoc_eq_nil.mp validated
      have sameId : ident = Json.get (Json.dict doc) (str "id") := by
        rw [Json.get, member_eq_ok.mp named]
        rfl
      have sameMinimum :
          minimum = Json.get (Json.dict doc) (str "minimum_ppc_lab") := by
        rw [Json.get, member_eq_ok.mp versioned]
        rfl
      rw [sameId, sameMinimum] at packed
      dsimp only at packed
      split at packed
      · rename_i written
        cases packed
        obtain ⟨datable, writable⟩ := (all_isWritable_archive document).mp written
        exact ⟨⟨object, document, complete, hashable, datable, writable⟩,
          binaries, rfl⟩
      · cases packed
    · rw [if_pos none] at packed
      cases packed
  · intro given
    obtain ⟨sound, binaries, same⟩ := given
    subst same
    have validated : validateDoc unicode doubles doc directory = .ok [] :=
      validateDoc_eq_nil.mpr ⟨sound.object, sound.hashable, sound.document,
        sound.complete, binaries⟩
    have named := member_eq_ok.mpr (find_id sound.document)
    obtain ⟨minimum, held⟩ := exists_minimum sound.document
    have versioned : member (Json.dict doc) (str "minimum_ppc_lab") =
        .ok (Json.get (Json.dict doc) (str "minimum_ppc_lab")) := by
      rw [member, Json.get, held]
      rfl
    rw [cmdPack, validated]
    dsimp only [Bind.bind, Except.bind]
    rw [if_neg (not_not.mpr rfl), named]
    dsimp only [Bind.bind, Except.bind]
    rw [versioned]
    dsimp only [Bind.bind, Except.bind]
    exact if_pos ((all_isWritable_archive sound.document).mpr
      ⟨sound.datable, sound.writable⟩)

private theorem mem_profileFiles {file : Relative × File} :
    file ∈ profileFiles directory ↔
      file ∈ directory.tree.regularFiles ∧ isPacked file.1 := by
  rw [profileFiles, mem_sortedByPath, List.mem_filter]

/-- The file at a path of the profile is packed, or it is the manifest. -/
private theorem holds_archive {minimum : Json} {path : Relative} :
    Holds unicode (Json.dict doc) (archive unicode
        (Json.get (Json.dict doc) (str "id")) minimum directory epoch) path ↔
      (∃ file ∈ profileFiles directory, file.1 = path) ∨
        path.posix = str "PROFILE-PACKAGE.json" := by
  rw [Holds, archive]
  simp only [List.mem_append, List.mem_map, List.mem_singleton]
  constructor
  · intro given
    obtain ⟨_, ⟨file, packed, rfl⟩ | rfl, same⟩ := given
    · exact Or.inl ⟨file, packed,
        Relative.posix_injective (List.append_cancel_left same)⟩
    · exact Or.inr (List.append_cancel_left same).symm
  · rintro (⟨file, packed, rfl⟩ | same)
    · exact ⟨_, Or.inl ⟨file, packed, rfl⟩, rfl⟩
    · refine ⟨_, Or.inr rfl, ?_⟩
      rw [same]
      rfl

/-- Below a skipped folder nothing is checked. -/
private theorem binaryErrors_of_skipped
    (skipped : isSkipped directory.location) (allow : List Json) :
    binaryErrors unicode directory allow = [] := by
  have unchecked : ∀ entry, isChecked directory entry = false := by
    intro entry
    rw [isChecked, isSkipped, List.any_append]
    rw [isSkipped] at skipped
    simp [skipped]
  simp [binaryErrors, unchecked]

/-- Elsewhere the check sees every file that is packed. -/
private theorem clean_of_checked {fields : Fields}
    (outside : isSkipped directory.location = false)
    (none : binaryErrors unicode directory (redistributable fields) = []) :
    Clean unicode fields directory := by
  intro file member packed binary
  obtain ⟨entry, there, same, _, held⟩ := Tree.mem_regularFiles.mp member
  rw [isPacked, Bool.and_eq_true] at packed
  have unlisted := List.filter_eq_nil_iff.mp (List.map_eq_nil_iff.mp none)
    entry there
  rw [← same] at packed binary ⊢
  have checked : isChecked directory entry = true := by
    have below : isSkipped (directory.location ++ entry.path.parts) = false := by
      rw [isSkipped, List.any_append, Bool.or_eq_false_iff]
      exact ⟨outside, by simpa [isSkipped] using packed.1⟩
    rw [isChecked, held, below]
    rfl
  rw [checked, binary] at unlisted
  apply isListed_iff.mp
  simpa using unlisted

/-- The manifest of a package is no binary. -/
private theorem manifest_not_binary (lowers : LowersAscii unicode)
    {path : Relative} (same : path.posix = str "PROFILE-PACKAGE.json") :
    isBinary unicode path = false := by
  have component : ∀ part ∈ [str "PROFILE-PACKAGE.json"],
      Paths.IsComponent part := by
    decide
  have named : path = ⟨[str "PROFILE-PACKAGE.json"], List.cons_ne_nil _ _,
      component⟩ := by
    apply Relative.posix_injective
    rw [same]
    exact (Paths.posix_singleton _).symm
  have extension : Paths.suffixOfName (str "PROFILE-PACKAGE.json") =
      str ".json" := by
    decide
  have suffix : path.suffix = str ".json" := by
    rw [named]
    exact extension
  have plain : ∀ character ∈ str ".json", character.val < 0x80 := by
    decide
  rw [isBinary, suffix, lowers _ plain]
  decide

end

/-- A package leaks nothing exactly when the check sees the profile, refuses it
for something else, or has nothing to find. -/
theorem package_leaks_nothing_iff {unicode : Unicode}
    (lowers : LowersAscii unicode) (doubles : Doubles) (doc : Json)
    (directory : Directory) (epoch : Int) :
    (∀ members, cmdPack unicode doubles doc directory epoch = .ok members →
      LeaksNothing unicode (Json.dict doc) members) ↔
    isSkipped directory.location = false ∨
      ¬ Sound unicode doubles doc directory epoch ∨
      Clean unicode (Json.dict doc) directory := by
  constructor
  · intro leaks
    by_cases skipped : isSkipped directory.location
    · by_cases sound : Sound unicode doubles doc directory epoch
      · refine Or.inr (Or.inr ?_)
        intro file member packed binary
        have written := leaks _ (cmdPack_eq_ok.mpr
          ⟨sound, binaryErrors_of_skipped skipped _, rfl⟩)
        apply written file.1 _ binary
        apply holds_archive.mpr
        exact Or.inl ⟨file, mem_profileFiles.mpr ⟨member, packed⟩, rfl⟩
      · exact Or.inr (Or.inl sound)
    · exact Or.inl (Bool.eq_false_of_not_eq_true skipped)
  · intro guarded members packed path held binary
    obtain ⟨sound, none, same⟩ := cmdPack_eq_ok.mp packed
    subst same
    have clean : Clean unicode (Json.dict doc) directory := by
      rcases guarded with outside | unsound | clean
      · exact clean_of_checked outside none
      · exact absurd sound unsound
      · exact clean
    rcases holds_archive.mp held with ⟨file, member, rfl⟩ | manifest
    · obtain ⟨there, kept⟩ := mem_profileFiles.mp member
      exact clean file there kept binary
    · rw [manifest_not_binary lowers manifest] at binary
      cases binary

private theorem isComponent_firmware : ∀ part ∈ [str "firmware.bin"],
    Paths.IsComponent part := by
  decide

def firmware : Relative :=
  ⟨[str "firmware.bin"], List.cons_ne_nil _ _, isComponent_firmware⟩

def firmwareEntries : List Entry :=
  (firmware :: requiredPaths).map fun path =>
    ⟨path, false, some (.file ⟨[], 0o644, false⟩)⟩

private theorem firmwareEntries_nodup :
    (firmwareEntries.map Entry.path).Nodup := by
  decide

/-- A new profile with a binary, in a build folder. -/
def buildFolder : Directory where
  location := [str "src", str "build", str "radio"]
  tree := ⟨firmwareEntries, firmwareEntries_nodup⟩

def radio : Json :=
  skeleton (str "radio") (str "Radio") []

private theorem radio_sound :
    Sound .ascii .none radio buildFolder 946684800 where
  object := ⟨_, rfl⟩
  document := skeleton_sound (by decide) (by decide)
  complete := by decide
  hashable := by rfl
  datable := by decide
  writable := by decide

private theorem firmware_unlisted :
    .string firmware.posix ∉ redistributable (Json.dict radio) := by
  intro impossible
  cases impossible

theorem package_leaks_nothing_radio :
    ¬ ∀ members, cmdPack .ascii .none radio buildFolder 946684800 = .ok members →
      LeaksNothing .ascii (Json.dict radio) members := by
  intro leaks
  have lowers : LowersAscii .ascii := fun _ _ => rfl
  rcases (package_leaks_nothing_iff lowers .none radio buildFolder
    946684800).mp leaks with outside | unsound | clean
  · exact absurd outside (by decide)
  · exact unsound radio_sound
  · apply firmware_unlisted
    exact clean (firmware, ⟨[], 0o644, false⟩) (by decide)
      (by decide) (by decide)

/-- The check does not see the binary, and the package holds it. -/
theorem build_folder_leaks_firmware : ∃ members,
    cmdPack .ascii .none radio buildFolder 946684800 = .ok members ∧
      Holds .ascii (Json.dict radio) members firmware ∧
      isBinary .ascii firmware ∧
      .string firmware.posix ∉ redistributable (Json.dict radio) := by
  refine ⟨_, cmdPack_eq_ok.mpr ⟨radio_sound,
    binaryErrors_of_skipped (by decide) _, rfl⟩, ?_, ?_,
    firmware_unlisted⟩
  · apply holds_archive.mpr
    exact Or.inl ⟨(firmware, ⟨[], 0o644, false⟩),
      mem_profileFiles.mpr ⟨by decide, by decide⟩, rfl⟩
  · decide

end PpcLab.Target
