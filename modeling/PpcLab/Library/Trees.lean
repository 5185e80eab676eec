import PpcLab.Library.Keyed
import PpcLab.Library.Paths
import PpcLab.Library.Utf8

/-!
# Directory trees

What a walk through a directory comes by, and the regular files among it.  A
walk does not go through links to other directories, and it comes by its
entries in no particular order; sorted by their paths they are in one only.

An archive as the sequence of its members.  A document in it stands for the
text that it is written as.
-/

namespace PpcLab.Trees

structure File where
  bytes : List Byte
  mode : Nat
  /-- What `access` says about running it. -/
  executable : Bool
  deriving DecidableEq

inductive Node where
  | file (file : File)
  | folder
  /-- A pipe, a socket or a device. -/
  | special
  deriving DecidableEq

/-- What is at a path, or where the link at the path leads to. -/
structure Entry where
  path : Relative
  isLink : Bool
  node : Option Node
  deriving DecidableEq

abbrev Tree :=
  Keyed Entry.path

namespace Entry

/-- `is_file()` -/
def file? (entry : Entry) : Option File :=
  match entry.node with
  | some (.file file) => some file
  | _ => none

/-- A file that is no link. -/
def regular? (entry : Entry) : Option (Relative × File) :=
  if entry.isLink then none else entry.file?.map fun file => (entry.path, file)

theorem regular?_eq_some {entry : Entry} {path : Relative} {file : File} :
    entry.regular? = some (path, file) ↔
      entry.path = path ∧ entry.isLink = false ∧ entry.file? = some file := by
  rw [regular?]
  cases entry.isLink with
  | true => simp
  | false =>
      simp only [Bool.false_eq_true, if_false, Option.map_eq_some_iff,
        Prod.mk.injEq]
      constructor
      · intro given
        obtain ⟨_, held, same, equal⟩ := given
        cases equal
        exact ⟨same, trivial, held⟩
      · intro given
        obtain ⟨same, _, held⟩ := given
        exact ⟨file, held, same, rfl⟩

end Entry

namespace Tree

/-- `exists()` -/
def contains (tree : Tree) (path : Relative) : Bool :=
  tree.entries.any fun entry =>
    decide (entry.path = path) && entry.node.isSome

def regularFiles (tree : Tree) : List (Relative × File) :=
  tree.entries.filterMap Entry.regular?

theorem mem_regularFiles {tree : Tree} {path : Relative} {file : File} :
    (path, file) ∈ tree.regularFiles ↔ ∃ entry ∈ tree.entries,
      entry.path = path ∧ entry.isLink = false ∧ entry.file? = some file := by
  rw [regularFiles, List.mem_filterMap]
  simp only [Entry.regular?_eq_some]

/-- The regular file at a path. -/
def fileAt (tree : Tree) (path : Relative) : Option File :=
  (tree.lookup path).bind fun entry =>
    if entry.isLink then none else entry.file?

theorem mem_regularFiles_iff {tree : Tree} {path : Relative} {file : File} :
    (path, file) ∈ tree.regularFiles ↔ tree.fileAt path = some file := by
  rw [mem_regularFiles, fileAt, Option.bind_eq_some_iff]
  constructor
  · intro given
    obtain ⟨entry, member, rfl, plain, held⟩ := given
    refine ⟨entry, Keyed.lookup_of_mem member, ?_⟩
    rw [plain]
    exact held
  · intro given
    obtain ⟨entry, found, held⟩ := given
    refine ⟨entry, Keyed.mem_of_lookup found, Keyed.key_of_lookup found, ?_⟩
    cases link : entry.isLink with
    | true =>
        rw [link] at held
        cases held
    | false =>
        rw [link] at held
        exact ⟨rfl, held⟩

theorem nodup_regularFiles (tree : Tree) :
    (tree.regularFiles.map Prod.fst).Nodup := by
  have paths : tree.regularFiles.map Prod.fst =
      (tree.entries.filter fun entry => entry.regular?.isSome).map
        Entry.path := by
    rw [regularFiles]
    induction tree.entries with
    | nil => rfl
    | cons entry entries induction =>
        cases found : entry.regular? with
        | none =>
            rw [List.filterMap_cons_none found, induction, List.filter_cons,
              found]
            rfl
        | some file =>
            obtain ⟨path, file⟩ := file
            rw [List.filterMap_cons_some found, List.map_cons, induction,
              List.filter_cons, found, (Entry.regular?_eq_some.mp found).1.symm]
            rfl
  rw [paths]
  exact tree.nodup.sublist (List.filter_sublist.map Entry.path)

end Tree

section

variable {α : Type}

/-- A file comes before another one. -/
def byPath (first second : Relative × α) : Bool :=
  Json.notAfter first.1.posix second.1.posix

/-- `sorted(files, key=lambda file: file.as_posix())` -/
def sortedByPath (files : List (Relative × α)) : List (Relative × α) :=
  files.insertionSort fun first second => byPath first second

@[simp] theorem mem_sortedByPath {files : List (Relative × α)}
    {file : Relative × α} : file ∈ sortedByPath files ↔ file ∈ files :=
  (List.perm_insertionSort _ files).mem_iff

private theorem byPath_iff {first second : Relative × α} :
    byPath first second ↔ first.1.posix ≤ second.1.posix :=
  Json.notAfter_iff _ _

/-- The sorted files do not depend on the order in which they were found. -/
theorem sortedByPath_eq_of_perm {left right : List (Relative × α)}
    (nodup : (left.map Prod.fst).Nodup) (perm : left.Perm right) :
    sortedByPath left = sortedByPath right := by
  have total : Std.Total fun first second : Relative × α =>
      (byPath first second : Prop) := by
    constructor
    intro first second
    simp only [byPath_iff]
    exact le_total _ _
  have transitive : IsTrans (Relative × α) fun first second =>
      byPath first second := by
    constructor
    intro first second third
    simp only [byPath_iff]
    exact le_trans
  have sortedPerm : (sortedByPath left).Perm (sortedByPath right) :=
    (List.perm_insertionSort _ left).trans
      (perm.trans (List.perm_insertionSort _ right).symm)
  refine List.Perm.eq_of_pairwise ?_ (List.pairwise_insertionSort _ left)
    (List.pairwise_insertionSort _ right) sortedPerm
  intro first second inLeft inRight before after
  rw [mem_sortedByPath] at inLeft inRight
  have same : first.1 = second.1 := Relative.posix_injective
    (le_antisymm (byPath_iff.mp before) (byPath_iff.mp after))
  exact List.inj_on_of_nodup_map nodup inLeft (perm.mem_iff.mpr inRight) same

theorem sortedByPath_sortedByPath {files : List (Relative × α)}
    (nodup : (files.map Prod.fst).Nodup) :
    sortedByPath (sortedByPath files) = sortedByPath files :=
  (sortedByPath_eq_of_perm nodup
    (List.perm_insertionSort _ files).symm).symm

/-- Files are sorted by their paths only. -/
theorem sortedByPath_map {β : Type} (change : α → β)
    (files : List (Relative × α)) :
    sortedByPath (files.map (Prod.map id change)) =
      (sortedByPath files).map (Prod.map id change) := by
  rw [sortedByPath, sortedByPath]
  symm
  apply List.map_insertionSort
  intro first _ second _
  rfl

end

end PpcLab.Trees

namespace PpcLab.Zip

inductive Content (δ : Type) where
  | bytes (bytes : List Byte)
  | document (value : δ)
  deriving DecidableEq

structure Member (δ : Type) where
  name : Str
  /-- The date, as the even second since 1970 that it stands for. -/
  time : Nat
  /-- The type and the permissions of the file. -/
  mode : Nat
  content : Content δ
  deriving DecidableEq

/-- `S_IFREG` -/
def regularFile : Nat :=
  0o100000

/-- The permissions of a file that may be executed, and of one that may not. -/
def permissions (executable : Bool) : Nat :=
  if executable then 0o755 else 0o644

/-- 1980-01-01, the first date of a member. -/
def firstTime : Int :=
  315532800

/-- 2108-01-01, after the last date of a member. -/
def endTime : Nat :=
  4354819200

def zipTime (epoch : Int) : Nat :=
  let second := (max epoch firstTime).toNat
  second - second % 2

/-- A header has a name in UTF-8 and a date. -/
def isWritable {δ : Type} (member : Member δ) : Bool :=
  (utf8 member.name).isSome && decide (member.time < endTime)

end PpcLab.Zip
