import PpcLab.Library.Trees

/-!
# Writing into a directory tree

A file is written with the folders on the way to it.  A link to a folder is
taken to lead out of the tree, and not to another place in it: what is written
through it is not seen there.

Files that are written one after the other into an empty tree, some of them over
others.  A file can be written over when its owner may write it, or by somebody
who may write every file.
-/

namespace PpcLab

namespace Relative

/-- A path leads through a folder. -/
def IsBelow (path folder : Relative) : Prop :=
  folder.parts <+: path.parts ∧ folder ≠ path

private theorem take_nonempty (path : Relative) (count : Nat) :
    path.parts.take (count + 1) ≠ [] := by
  simp [path.nonempty]

private theorem take_components (path : Relative) (count : Nat) :
    ∀ part ∈ path.parts.take count, Paths.IsComponent part :=
  fun part member => path.components part (List.mem_of_mem_take member)

/-- The folders on the way to a path, the outermost first. -/
def folders (path : Relative) : List Relative :=
  (List.range (path.parts.length - 1)).map fun count =>
    ⟨path.parts.take (count + 1), take_nonempty path count,
      take_components path (count + 1)⟩

theorem mem_folders {path folder : Relative} :
    folder ∈ path.folders ↔ path.IsBelow folder := by
  rw [folders, List.mem_map]
  constructor
  · intro given
    obtain ⟨count, inside, rfl⟩ := given
    have short := List.mem_range.mp inside
    refine ⟨List.take_prefix _ _, ?_⟩
    intro same
    have lengths := congrArg (fun path : Relative => path.parts.length) same
    simp only [List.length_take] at lengths
    omega
  · intro given
    obtain ⟨start, differ⟩ := given
    have positive := List.length_pos_iff.mpr folder.nonempty
    have shorter : folder.parts.length < path.parts.length := by
      rcases Nat.lt_or_ge folder.parts.length path.parts.length with less | more
      · exact less
      · exact absurd (ext (start.eq_of_length_le more)) differ
    refine ⟨folder.parts.length - 1, List.mem_range.mpr (by omega), ?_⟩
    apply ext
    have enough : folder.parts.length - 1 + 1 = folder.parts.length := by omega
    dsimp only
    rw [enough]
    exact (List.prefix_iff_eq_take.mp start).symm

end Relative

namespace Trees

namespace Tree

def hasFolder (tree : Tree) (path : Relative) : Prop :=
  tree.lookup path = some ⟨path, false, some .folder⟩

instance (tree : Tree) (path : Relative) : Decidable (tree.hasFolder path) :=
  inferInstanceAs (Decidable (_ = _))

/-- Nothing at a path keeps a folder from being there. -/
def isOpen (tree : Tree) (path : Relative) : Bool :=
  match tree.lookup path with
  | none => true
  | some entry => decide (entry.node = some .folder)

/-- `mkdir(exist_ok=True)` -/
def makeFolder (tree : Tree) (path : Relative) : Option Tree :=
  match tree.lookup path with
  | none => some (tree.put ⟨path, false, some .folder⟩)
  | some entry => if entry.node = some .folder then some tree else none

/-- There is a link to a folder on the way to a path. -/
def leadsAway (tree : Tree) (path : Relative) : Bool :=
  path.folders.any fun folder =>
    match tree.lookup folder with
    | none => false
    | some entry => entry.isLink && decide (entry.node = some .folder)

/-- A file takes the place of what is at a path, unless that is a folder. -/
def place (tree : Tree) (path : Relative) (file : File) : Option Tree :=
  if tree.lookup path = some ⟨path, false, some .folder⟩ then none
  else some (tree.put ⟨path, false, some (.file file)⟩)

def install (tree : Tree) (file : Relative × File) : Option Tree :=
  if tree.leadsAway file.1 then some tree
  else do
    let tree ← file.1.folders.foldlM makeFolder tree
    tree.place file.1 file.2

def installAll (tree : Tree) (files : List (Relative × File)) : Option Tree :=
  files.foldlM install tree

/-- Some of the folders were added where nothing was, and that is all. -/
def Grown (folders : List Relative) (before after : Tree) : Prop :=
  ∀ path, after.lookup path = before.lookup path ∨
    before.lookup path = none ∧ path ∈ folders ∧ after.hasFolder path

section

variable {tree before after : Tree} {path : Relative} {file : File}

theorem isOpen_of_hasFolder (there : tree.hasFolder path) : tree.isOpen path := by
  rw [isOpen, there]
  rfl

theorem Grown.isOpen {folders : List Relative}
    (grown : Grown folders before after) :
    after.isOpen path = before.isOpen path := by
  rcases grown path with same | ⟨none, _, there⟩
  · rw [Tree.isOpen, same, Tree.isOpen]
  · rw [isOpen_of_hasFolder there, Tree.isOpen, none]

theorem Grown.fileAt {folders : List Relative}
    (grown : Grown folders before after) :
    after.fileAt path = before.fileAt path := by
  rcases grown path with same | ⟨none, _, there⟩
  · rw [Tree.fileAt, same, Tree.fileAt]
  · rw [Tree.fileAt, there, Tree.fileAt, none]
    rfl

theorem grown_makeFolder (made : before.makeFolder path = some after) :
    Grown [path] before after ∧ before.isOpen path ∧
      (after.lookup path).isSome := by
  rw [makeFolder] at made
  rw [isOpen]
  cases found : before.lookup path with
  | none =>
      rw [found] at made
      cases made
      have here := Keyed.lookup_put_self before ⟨path, false, some .folder⟩
      refine ⟨?_, rfl, Option.isSome_of_eq_some here⟩
      intro other
      by_cases same : other = path
      · subst same
        exact Or.inr ⟨found, List.mem_singleton_self _, here⟩
      · exact Or.inl (Keyed.lookup_put_of_ne before same)
  | some entry =>
      rw [found] at made
      dsimp only at made ⊢
      by_cases folder : entry.node = some .folder
      · rw [if_pos folder] at made
        cases made
        exact ⟨fun _ => Or.inl rfl, by simpa using folder,
          Option.isSome_of_eq_some found⟩
      · rw [if_neg folder] at made
        cases made

theorem exists_makeFolder (opened : before.isOpen path) :
    ∃ after, before.makeFolder path = some after := by
  rw [isOpen] at opened
  rw [makeFolder]
  cases found : before.lookup path with
  | none => exact ⟨_, rfl⟩
  | some entry =>
      rw [found] at opened
      exact ⟨before, if_pos (by simpa using opened)⟩

theorem Grown.mono {folders more : List Relative}
    (grown : Grown folders before after)
    (subset : ∀ folder ∈ folders, folder ∈ more) : Grown more before after := by
  intro path
  rcases grown path with same | ⟨none, member, there⟩
  · exact Or.inl same
  · exact Or.inr ⟨none, subset path member, there⟩

theorem Grown.trans {folders : List Relative} {next : Tree}
    (first : Grown folders before next) (second : Grown folders next after) :
    Grown folders before after := by
  intro path
  rcases second path with same | ⟨none, member, there⟩
  · rcases first path with equal | ⟨none, member, there⟩
    · exact Or.inl (same.trans equal)
    · exact Or.inr ⟨none, member, same.trans there⟩
  · rcases first path with equal | ⟨_, _, early⟩
    · exact Or.inr ⟨equal.symm.trans none, member, there⟩
    · rw [early] at none
      cases none

theorem Grown.isSome {folders : List Relative}
    (grown : Grown folders before after)
    (there : (before.lookup path).isSome) : (after.lookup path).isSome := by
  rcases grown path with same | ⟨_, _, new⟩
  · rw [same]
    exact there
  · exact Option.isSome_of_eq_some new

theorem grown_foldlM {folders : List Relative}
    (made : folders.foldlM makeFolder before = some after) :
    Grown folders before after ∧ ∀ folder ∈ folders,
      before.isOpen folder ∧ (after.lookup folder).isSome := by
  induction folders generalizing before with
  | nil =>
      cases made
      exact ⟨fun _ => Or.inl rfl, by simp⟩
  | cons folder folders induction =>
      obtain ⟨next, first, rest⟩ := Option.bind_eq_some_iff.mp made
      obtain ⟨grown, opened, made⟩ := grown_makeFolder first
      obtain ⟨more, others⟩ := induction rest
      constructor
      · apply (grown.mono _).trans (more.mono _)
        · simp
        · exact fun other member => List.mem_cons_of_mem _ member
      · intro other member
        rcases List.mem_cons.mp member with rfl | later
        · exact ⟨opened, more.isSome made⟩
        · rw [← grown.isOpen]
          exact others other later

theorem exists_foldlM {folders : List Relative}
    (opened : ∀ folder ∈ folders, before.isOpen folder) :
    ∃ after, folders.foldlM makeFolder before = some after := by
  induction folders generalizing before with
  | nil => exact ⟨before, rfl⟩
  | cons folder folders induction =>
      obtain ⟨next, first⟩ :=
        exists_makeFolder (opened folder List.mem_cons_self)
      obtain ⟨grown, _⟩ := grown_makeFolder first
      have later : ∀ other ∈ folders, next.isOpen other := by
        intro other member
        rw [grown.isOpen]
        exact opened other (List.mem_cons_of_mem _ member)
      obtain ⟨after, rest⟩ := induction later
      exact ⟨after, Option.bind_eq_some_iff.mpr ⟨next, first, rest⟩⟩

/-- A file is at a path, below folders some of which are new. -/
structure Installed (before : Tree) (path : Relative) (file : File)
    (after : Tree) : Prop where
  here : after.lookup path = some ⟨path, false, some (.file file)⟩
  others : ∀ other, other ≠ path → after.lookup other = before.lookup other ∨
    before.lookup other = none ∧ path.IsBelow other ∧ after.hasFolder other
  folders : ∀ folder, path.IsBelow folder → (after.lookup folder).isSome

theorem not_isBelow_self (path : Relative) : ¬path.IsBelow path :=
  fun below => below.2 rfl

/-- What a file needs at its place and on the way to it. -/
structure Admits (tree : Tree) (path : Relative) : Prop where
  direct : tree.leadsAway path = false
  opened : ∀ folder, path.IsBelow folder → tree.isOpen folder
  vacant : ¬tree.hasFolder path

theorem installed_of_install (direct : before.leadsAway path = false)
    (installed : before.install (path, file) = some after) :
    before.Admits path ∧ Installed before path file after := by
  rw [install, direct] at installed
  obtain ⟨next, made, placed⟩ := Option.bind_eq_some_iff.mp installed
  obtain ⟨grown, opened⟩ := grown_foldlM made
  have same : next.lookup path = before.lookup path := by
    rcases grown path with same | ⟨_, member, _⟩
    · exact same
    · exact absurd (Relative.mem_folders.mp member) (not_isBelow_self path)
  dsimp only at placed
  rw [place, same] at placed
  by_cases folder : before.lookup path = some ⟨path, false, some .folder⟩
  · rw [if_pos folder] at placed
    cases placed
  · rw [if_neg folder] at placed
    cases placed
    have kept (other : Relative) (differ : other ≠ path) :
        Keyed.lookup (next.put ⟨path, false, some (.file file)⟩) other =
          next.lookup other :=
      Keyed.lookup_put_of_ne next differ
    refine ⟨⟨direct, ?_, folder⟩, Keyed.lookup_put_self next _, ?_, ?_⟩
    · intro outer below
      exact (opened outer (Relative.mem_folders.mpr below)).1
    · intro other differ
      rw [hasFolder, kept other differ]
      rcases grown other with equal | ⟨none, member, there⟩
      · exact Or.inl equal
      · exact Or.inr ⟨none, Relative.mem_folders.mp member, there⟩
    · intro outer below
      rw [kept outer below.2]
      exact (opened outer (Relative.mem_folders.mpr below)).2

theorem exists_install (file : File) (admits : before.Admits path) :
    ∃ after, before.install (path, file) = some after := by
  have opened : ∀ folder ∈ path.folders, before.isOpen folder :=
    fun folder member => admits.opened folder (Relative.mem_folders.mp member)
  obtain ⟨next, made⟩ := exists_foldlM opened
  obtain ⟨grown, _⟩ := grown_foldlM made
  have same : next.lookup path = before.lookup path := by
    rcases grown path with same | ⟨_, member, _⟩
    · exact same
    · exact absurd (Relative.mem_folders.mp member) (not_isBelow_self path)
  have placed : next.place path file =
      some (next.put ⟨path, false, some (.file file)⟩) := by
    rw [place, same]
    exact if_neg admits.vacant
  rw [install, admits.direct]
  exact ⟨_, Option.bind_eq_some_iff.mpr ⟨next, made, placed⟩⟩

namespace Installed

variable {other : Relative}

theorem fileAt_self (installed : Installed before path file after) :
    after.fileAt path = some file := by
  rw [Tree.fileAt, installed.here]
  rfl

theorem fileAt_of_ne (installed : Installed before path file after)
    (differ : other ≠ path) : after.fileAt other = before.fileAt other := by
  rw [Tree.fileAt, Tree.fileAt]
  rcases installed.others other differ with same | ⟨none, _, there⟩
  · rw [same]
  · rw [there, none]
    rfl

theorem isOpen_of_ne (installed : Installed before path file after)
    (differ : other ≠ path) : after.isOpen other = before.isOpen other := by
  rcases installed.others other differ with same | ⟨none, _, there⟩
  · rw [Tree.isOpen, same, Tree.isOpen]
  · rw [isOpen_of_hasFolder there, Tree.isOpen, none]

theorem hasFolder_iff (installed : Installed before path file after)
    (vacant : ¬before.hasFolder path) :
    after.hasFolder other ↔ before.hasFolder other ∨
      before.lookup other = none ∧ path.IsBelow other ∧
        after.hasFolder other := by
  constructor
  · intro there
    by_cases same : other = path
    · subst same
      rw [hasFolder, installed.here] at there
      cases there
    · rcases installed.others other same with equal | new
      · exact Or.inl (equal.symm.trans there)
      · exact Or.inr new
  · intro known
    rcases known with there | ⟨_, _, there⟩
    · by_cases same : other = path
      · subst same
        exact absurd there vacant
      · rcases installed.others other same with equal | ⟨none, _, _⟩
        · exact equal.trans there
        · rw [hasFolder, none] at there
          cases there
    · exact there

/-- A file is on the way to no path that it does not block. -/
theorem leadsAway_eq (installed : Installed before path file after)
    (direct : before.leadsAway other = false) :
    after.leadsAway other = false := by
  rw [leadsAway, List.any_eq_false] at direct ⊢
  intro folder member
  have early := direct folder member
  by_cases same : folder = path
  · subst same
    rw [installed.here]
    simp
  · rcases installed.others folder same with equal | ⟨_, _, there⟩
    · rw [equal]
      exact early
    · rw [there]
      simp

end Installed

/-- There is room for the files: none is in the way of another one, and nothing
in the tree is in their way. -/
structure HasRoom (tree : Tree) (files : List (Relative × File)) : Prop where
  admits : ∀ file ∈ files, tree.Admits file.1
  apart : ∀ file ∈ files, ∀ other ∈ files, ¬file.1.IsBelow other.1

theorem HasRoom.tail {entry : Relative × File}
    {files : List (Relative × File)}
    (room : before.HasRoom (entry :: files))
    (installed : Installed before entry.1 entry.2 after) :
    after.HasRoom files := by
  constructor
  · intro other member
    have later := List.mem_cons_of_mem entry member
    have admits := room.admits other later
    refine ⟨installed.leadsAway_eq admits.direct, ?_, ?_⟩
    · intro folder below
      have differ : folder ≠ entry.1 := by
        rintro rfl
        exact room.apart other later entry List.mem_cons_self below
      rw [installed.isOpen_of_ne differ]
      exact admits.opened folder below
    · intro there
      rcases (installed.hasFolder_iff
        (room.admits entry List.mem_cons_self).vacant).mp there with
        early | ⟨_, below, _⟩
      · exact admits.vacant early
      · exact room.apart entry List.mem_cons_self other later below
  · intro first inFirst second inSecond
    exact room.apart first (List.mem_cons_of_mem _ inFirst) second
      (List.mem_cons_of_mem _ inSecond)

/-- Files that there is room for are written. -/
theorem exists_installAll {files : List (Relative × File)}
    (room : before.HasRoom files) :
    ∃ after, before.installAll files = some after := by
  induction files generalizing before with
  | nil => exact ⟨before, rfl⟩
  | cons entry files induction =>
      obtain ⟨path, file⟩ := entry
      have admits := room.admits (path, file) List.mem_cons_self
      obtain ⟨next, first⟩ := exists_install file admits
      obtain ⟨_, installed⟩ := installed_of_install admits.direct first
      obtain ⟨after, rest⟩ := induction (room.tail installed)
      exact ⟨after, Option.bind_eq_some_iff.mpr ⟨next, first, rest⟩⟩

/-- What is at a path after the files were written. -/
theorem fileAt_installAll {files : List (Relative × File)}
    (room : before.HasRoom files) (nodup : (files.map Prod.fst).Nodup)
    (installed : before.installAll files = some after) :
    (∀ path file, (path, file) ∈ files → after.fileAt path = some file) ∧
      ∀ path, path ∉ files.map Prod.fst →
        after.fileAt path = before.fileAt path := by
  induction files generalizing before with
  | nil =>
      cases installed
      exact ⟨by simp, fun _ _ => rfl⟩
  | cons entry files induction =>
      obtain ⟨path, file⟩ := entry
      obtain ⟨next, first, rest⟩ := Option.bind_eq_some_iff.mp installed
      obtain ⟨admits, here⟩ := installed_of_install
        (room.admits (path, file) List.mem_cons_self).direct first
      rw [List.map_cons, List.nodup_cons] at nodup
      obtain ⟨among, others⟩ := induction (room.tail here) nodup.2 rest
      constructor
      · intro other content member
        rcases List.mem_cons.mp member with same | later
        · cases same
          rw [others path nodup.1]
          exact here.fileAt_self
        · exact among other content later
      · intro other absent
        rw [List.map_cons, List.mem_cons, not_or] at absent
        rw [others other absent.2]
        exact here.fileAt_of_ne absent.1

/-- There is no link in a tree. -/
def Plain (tree : Tree) : Prop :=
  ∀ path entry, tree.lookup path = some entry → entry.isLink = false

theorem plain_empty : Plain Keyed.empty := by
  intro path entry impossible
  cases impossible

theorem Plain.leadsAway (plain : tree.Plain) (path : Relative) :
    tree.leadsAway path = false := by
  rw [Tree.leadsAway, List.any_eq_false]
  intro folder _
  cases found : tree.lookup folder with
  | none => simp
  | some entry => simp [plain folder entry found]

theorem Plain.installed (plain : before.Plain)
    (installed : Installed before path file after) : after.Plain := by
  intro other entry found
  by_cases same : other = path
  · subst same
    rw [installed.here] at found
    cases found
    rfl
  · rcases installed.others other same with equal | ⟨_, _, there⟩
    · exact plain other entry (equal ▸ found)
    · rw [there] at found
      cases found
      rfl

/-- Where a folder can be and something is, there is a folder. -/
theorem Plain.hasFolder (plain : tree.Plain) {entry : Entry}
    (opened : tree.isOpen path) (found : tree.lookup path = some entry) :
    tree.hasFolder path := by
  have same := Keyed.key_of_lookup found
  have link := plain path entry found
  rw [isOpen, found] at opened
  have node : entry.node = some .folder := by
    simpa using opened
  obtain ⟨_, _, _⟩ := entry
  cases same
  cases link
  cases node
  exact found

/-- The folders on the way to the files that were written are there. -/
theorem folders_installAll {files : List (Relative × File)}
    (plain : before.Plain) (installed : before.installAll files = some after) :
    after.Plain ∧ (∀ folder, before.hasFolder folder → after.hasFolder folder) ∧
      ∀ file ∈ files, ∀ folder, file.1.IsBelow folder →
        after.hasFolder folder := by
  induction files generalizing before with
  | nil =>
      cases installed
      exact ⟨plain, fun _ there => there, by simp⟩
  | cons entry files induction =>
      obtain ⟨path, file⟩ := entry
      obtain ⟨next, first, rest⟩ := Option.bind_eq_some_iff.mp installed
      obtain ⟨admits, here⟩ := installed_of_install (plain.leadsAway path) first
      obtain ⟨plainAfter, kept, others⟩ := induction (plain.installed here) rest
      refine ⟨plainAfter, ?_, ?_⟩
      · intro folder there
        exact kept folder ((here.hasFolder_iff admits.vacant).mpr (Or.inl there))
      · intro other member folder below
        rcases List.mem_cons.mp member with rfl | later
        · apply kept folder
          obtain ⟨entry, found⟩ :=
            Option.isSome_iff_exists.mp (here.folders folder below)
          have opened := here.isOpen_of_ne below.2
          rw [admits.opened folder below] at opened
          exact (plain.installed here).hasFolder opened found
        · exact others other later folder below

/-- A file of the tree was there before, or it was written. -/
theorem mem_of_fileAt_installAll {files : List (Relative × File)}
    (plain : before.Plain) (installed : before.installAll files = some after)
    (held : after.fileAt path = some file) :
    (path, file) ∈ files ∨ before.fileAt path = some file := by
  induction files generalizing before with
  | nil =>
      cases installed
      exact Or.inr held
  | cons entry files induction =>
      obtain ⟨next, first, rest⟩ := Option.bind_eq_some_iff.mp installed
      obtain ⟨_, here⟩ :=
        installed_of_install (plain.leadsAway entry.1) first
      rcases induction (plain.installed here) rest with later | early
      · exact Or.inl (List.mem_cons_of_mem _ later)
      · by_cases same : path = entry.1
        · subst same
          rw [here.fileAt_self] at early
          cases early
          exact Or.inl List.mem_cons_self
        · rw [here.fileAt_of_ne same] at early
          exact Or.inr early

/-- A file is written only where no folder is. -/
theorem not_hasFolder_of_installAll {files : List (Relative × File)}
    (plain : before.Plain) {last : Relative × File}
    (installed : before.installAll (files ++ [last]) = some after) :
    ∀ file ∈ files, ¬file.1.IsBelow last.1 := by
  rw [installAll, List.foldlM_append] at installed
  obtain ⟨next, first, rest⟩ := Option.bind_eq_some_iff.mp installed
  obtain ⟨plainNext, _, folders⟩ := folders_installAll plain first
  obtain ⟨_, second, _⟩ := Option.bind_eq_some_iff.mp rest
  obtain ⟨admits, _⟩ :=
    installed_of_install (plainNext.leadsAway last.1) second
  intro file member below
  exact admits.vacant (folders file member last.1 below)

end

end Tree

end Trees

end PpcLab

namespace PpcLab.Trees

/-- A file that is written over what is there. -/
structure Write where
  path : Relative
  bytes : List Byte
  /-- What `chmod` is told afterwards, if it is called. -/
  mode : Option Nat

/-- The owner of a file may write it. -/
def ownerWrites (mode : Nat) : Bool :=
  mode &&& 0o200 != 0

namespace Write

/-- The file can be written once more. -/
def leavesWritable (write : Write) : Bool :=
  write.mode.all ownerWrites

/-- A file does not keep another one from being written after it. -/
structure Admits (overrides : Bool) (first second : Write) : Prop where
  notBelow : ¬first.path.IsBelow second.path
  notAbove : ¬second.path.IsBelow first.path
  writable : first.path = second.path → overrides ∨ first.leavesWritable

end Write

namespace Tree

variable {overrides : Bool} {fresh : Nat}

/-- What is written by somebody who can write files of any mode, or only those
that their owner may write. -/
def rewrite (overrides : Bool) (fresh : Nat) (tree : Tree) (write : Write) :
    Option Tree :=
  let old := tree.fileAt write.path
  if old.all fun file => overrides || ownerWrites file.mode then
    let mode := write.mode.getD ((old.map File.mode).getD fresh)
    tree.install (write.path, ⟨write.bytes, mode, mode &&& 0o111 != 0⟩)
  else none

def rewriteAll (overrides : Bool) (fresh : Nat) (tree : Tree)
    (writes : List Write) : Option Tree :=
  writes.foldlM (rewrite overrides fresh) tree

/-- What is in a tree after some files were written into an empty one. -/
structure Wrote (overrides : Bool) (writes : List Write) (tree : Tree) :
    Prop where
  plain : tree.Plain
  open_iff : ∀ path, tree.isOpen path ↔ tree.fileAt path = none
  held : ∀ path, (tree.fileAt path).isSome ↔
    ∃ write ∈ writes, write.path = path
  bytes : ∀ path file, tree.fileAt path = some file →
    ∃ write ∈ writes, write.path = path ∧ write.bytes = file.bytes
  folders : ∀ path, tree.hasFolder path ↔
    ∃ write ∈ writes, write.path.IsBelow path
  modes : ¬overrides → ∀ path file, tree.fileAt path = some file →
    (ownerWrites file.mode ↔
      ∀ write ∈ writes, write.path = path → write.leavesWritable)

theorem wrote_empty : Wrote overrides [] Keyed.empty := by
  refine ⟨plain_empty, ?_, ?_, ?_, ?_, ?_⟩
  · exact fun path => iff_of_true rfl rfl
  · exact fun path => iff_of_false (fun there => by cases there) (by simp)
  · intro path file impossible
    cases impossible
  · exact fun path => iff_of_false (fun there => by cases there) (by simp)
  · intro _ path file impossible
    cases impossible

variable {before after : Tree} {writes : List Write} {write : Write}

private theorem rewrite_eq_some
    (written : rewrite overrides fresh before write = some after) :
    (∀ file, before.fileAt write.path = some file →
      overrides ∨ ownerWrites file.mode) ∧
    ∃ file : File, file.bytes = write.bytes ∧
      file.mode = write.mode.getD
        (((before.fileAt write.path).map File.mode).getD fresh) ∧
      before.install (write.path, file) = some after := by
  obtain ⟨guarded, installed⟩ := Option.ite_none_right_eq_some.mp written
  refine ⟨?_, _, rfl, rfl, installed⟩
  intro file found
  rw [found] at guarded
  simpa using guarded

/-- One more file: the ones before it did not keep it from being written. -/
theorem Wrote.step (wrote : Wrote overrides writes before)
    (writable : ownerWrites fresh)
    (written : rewrite overrides fresh before write = some after) :
    Wrote overrides (writes ++ [write]) after ∧
      ∀ earlier ∈ writes, earlier.Admits overrides write := by
  obtain ⟨guarded, file, bytes, mode, installed⟩ := rewrite_eq_some written
  obtain ⟨admits, here⟩ :=
    installed_of_install (wrote.plain.leadsAway write.path) installed
  have plain := wrote.plain.installed here
  refine ⟨⟨plain, ?_, ?_, ?_, ?_, ?_⟩, ?_⟩
  · intro path
    by_cases same : path = write.path
    · subst same
      rw [here.fileAt_self, isOpen, here.here]
      simp
    · rw [here.isOpen_of_ne same, here.fileAt_of_ne same, wrote.open_iff]
  · intro path
    by_cases same : path = write.path
    · rw [same, here.fileAt_self]
      exact iff_of_true rfl ⟨write, by simp, rfl⟩
    · rw [here.fileAt_of_ne same, wrote.held]
      simp [or_and_right, exists_or, Ne.symm same]
  · intro path held found
    by_cases same : path = write.path
    · rw [same, here.fileAt_self] at found
      cases found
      exact ⟨write, by simp, same.symm, bytes.symm⟩
    · rw [here.fileAt_of_ne same] at found
      obtain ⟨earlier, listed, isPath, isBytes⟩ := wrote.bytes path held found
      exact ⟨earlier, List.mem_append_left _ listed, isPath, isBytes⟩
  · intro path
    rw [here.hasFolder_iff admits.vacant, wrote.folders]
    constructor
    · rintro (⟨earlier, listed, below⟩ | ⟨_, below, _⟩)
      · exact ⟨earlier, List.mem_append_left _ listed, below⟩
      · exact ⟨write, by simp, below⟩
    · rintro ⟨other, listed, below⟩
      rcases List.mem_append.mp listed with early | last
      · exact .inl ⟨other, early, below⟩
      · cases List.mem_singleton.mp last
        by_cases there : before.hasFolder path
        · exact .inl ((wrote.folders path).mp there)
        · right
          obtain ⟨entry, found⟩ :=
            Option.isSome_iff_exists.mp (here.folders path below)
          have opened := here.isOpen_of_ne below.2
          rw [admits.opened path below] at opened
          have folder := plain.hasFolder opened found
          have new := (here.hasFolder_iff admits.vacant).mp folder
          exact new.resolve_left there
  · intro limited path held found
    have earlier : ∀ other ∈ writes, other.path = write.path →
        other.leavesWritable := by
      intro other listed same
      obtain ⟨old, there⟩ := Option.isSome_iff_exists.mp
        ((wrote.held write.path).mpr ⟨other, listed, same⟩)
      have owner := (guarded old there).resolve_left limited
      exact (wrote.modes limited _ _ there).mp owner other listed same
    by_cases same : path = write.path
    · rw [same, here.fileAt_self] at found
      cases found
      have last : ownerWrites file.mode ↔ write.leavesWritable := by
        rw [mode, Write.leavesWritable]
        cases write.mode with
        | some given => simp
        | none =>
            cases there : before.fileAt write.path with
            | none => simpa using writable
            | some old =>
                simpa using (guarded old there).resolve_left limited
      rw [last]
      constructor
      · intro owner other listed isPath
        rcases List.mem_append.mp listed with early | isLast
        · exact earlier other early (isPath.trans same)
        · cases List.mem_singleton.mp isLast
          exact owner
      · intro all
        exact all write (by simp) same.symm
    · rw [here.fileAt_of_ne same] at found
      rw [wrote.modes limited path held found]
      simp [or_imp, forall_and, Ne.symm same]
  · intro earlier listed
    refine ⟨?_, ?_, ?_⟩
    · intro below
      exact admits.vacant ((wrote.folders write.path).mpr
        ⟨earlier, listed, below⟩)
    · intro below
      have none := (wrote.open_iff _).mp (admits.opened _ below)
      have some := (wrote.held earlier.path).mpr ⟨earlier, listed, rfl⟩
      rw [none] at some
      cases some
    · intro same
      obtain ⟨old, found⟩ := Option.isSome_iff_exists.mp
        ((wrote.held write.path).mpr ⟨earlier, listed, same⟩)
      rcases guarded old found with all | owner
      · exact .inl all
      · by_cases all : overrides
        · exact .inl all
        · exact .inr ((wrote.modes all _ _ found).mp owner earlier listed same)

/-- A file is written where nothing keeps it from being written. -/
theorem Wrote.progress (fresh : Nat) (wrote : Wrote overrides writes before)
    (admits : ∀ earlier ∈ writes, earlier.Admits overrides write) :
    ∃ after, rewrite overrides fresh before write = some after := by
  have opened : ∀ folder, write.path.IsBelow folder →
      before.isOpen folder := by
    intro folder below
    rw [wrote.open_iff, ← Option.not_isSome_iff_eq_none, wrote.held]
    rintro ⟨earlier, listed, rfl⟩
    exact (admits earlier listed).notAbove below
  have vacant : ¬before.hasFolder write.path := by
    rw [wrote.folders]
    rintro ⟨earlier, listed, below⟩
    exact (admits earlier listed).notBelow below
  have guarded : ((before.fileAt write.path).all fun file =>
      overrides || ownerWrites file.mode) = true := by
    cases found : before.fileAt write.path with
    | none => rfl
    | some old =>
        rw [Option.all_some, Bool.or_eq_true]
        by_cases all : overrides
        · exact .inl all
        · right
          rw [wrote.modes all _ _ found]
          intro earlier listed same
          exact ((admits earlier listed).writable same).resolve_left all
  obtain ⟨after, installed⟩ := exists_install _
    ⟨wrote.plain.leadsAway write.path, opened, vacant⟩
  exact ⟨after, Option.ite_none_right_eq_some.mpr ⟨guarded, installed⟩⟩

/-- What is in a tree after further files were written. -/
theorem Wrote.steps {rest : List Write}
    (wrote : Wrote overrides writes before) (writable : ownerWrites fresh)
    (written : rewriteAll overrides fresh before rest = some after) :
    Wrote overrides (writes ++ rest) after ∧
      (∀ first ∈ writes, ∀ second ∈ rest, first.Admits overrides second) ∧
      rest.Pairwise (Write.Admits overrides) := by
  induction rest generalizing before writes with
  | nil =>
      cases written
      rw [List.append_nil]
      exact ⟨wrote, by simp, .nil⟩
  | cons write rest induction =>
      obtain ⟨next, first, others⟩ := Option.bind_eq_some_iff.mp written
      obtain ⟨one, admits⟩ := wrote.step writable first
      obtain ⟨all, later, pairs⟩ := induction one others
      rw [List.append_assoc] at all
      refine ⟨all, ?_, List.pairwise_cons.mpr ⟨?_, pairs⟩⟩
      · intro earlier listed second member
        rcases List.mem_cons.mp member with rfl | after
        · exact admits earlier listed
        · exact later earlier (List.mem_append_left _ listed) second after
      · exact fun second member => later write (by simp) second member

theorem Wrote.progresses {rest : List Write}
    (wrote : Wrote overrides writes before) (writable : ownerWrites fresh)
    (admits : ∀ first ∈ writes, ∀ second ∈ rest,
      first.Admits overrides second)
    (pairs : rest.Pairwise (Write.Admits overrides)) :
    ∃ after, rewriteAll overrides fresh before rest = some after := by
  induction rest generalizing before writes with
  | nil => exact ⟨before, rfl⟩
  | cons write rest induction =>
      obtain ⟨later, pairs⟩ := List.pairwise_cons.mp pairs
      obtain ⟨next, first⟩ := wrote.progress fresh
        fun earlier listed => admits earlier listed write List.mem_cons_self
      obtain ⟨one, _⟩ := wrote.step writable first
      have still : ∀ first ∈ writes ++ [write], ∀ second ∈ rest,
          first.Admits overrides second := by
        intro earlier listed second member
        rcases List.mem_append.mp listed with early | isLast
        · exact admits earlier early second (List.mem_cons_of_mem _ member)
        · cases List.mem_singleton.mp isLast
          exact later second member
      obtain ⟨after, others⟩ := induction one still pairs
      exact ⟨after, Option.bind_eq_some_iff.mpr ⟨next, first, others⟩⟩

/-- Files are written into an empty tree exactly if none keeps a later one from
being written. -/
theorem rewriteAll_empty_iff (writable : ownerWrites fresh) :
    (∃ after, rewriteAll overrides fresh Keyed.empty writes = some after) ↔
      writes.Pairwise (Write.Admits overrides) := by
  constructor
  · rintro ⟨after, written⟩
    exact (wrote_empty.steps writable written).2.2
  · intro pairs
    exact wrote_empty.progresses writable (by simp) pairs

/-- There are as many files as paths were written to. -/
theorem Wrote.length_regularFiles (wrote : Wrote overrides writes after) :
    after.regularFiles.length = (writes.map Write.path).dedup.length := by
  have same : (after.regularFiles.map Prod.fst).Perm
      (writes.map Write.path).dedup := by
    rw [List.perm_ext_iff_of_nodup (nodup_regularFiles after)
      (List.nodup_dedup _)]
    intro path
    rw [List.mem_dedup, List.mem_map, List.mem_map, ← wrote.held]
    constructor
    · rintro ⟨⟨_, file⟩, listed, rfl⟩
      exact Option.isSome_of_eq_some (mem_regularFiles_iff.mp listed)
    · intro held
      obtain ⟨file, found⟩ := Option.isSome_iff_exists.mp held
      exact ⟨(path, file), mem_regularFiles_iff.mpr found, rfl⟩
  rw [← same.length_eq, List.length_map]

end Tree

end PpcLab.Trees
