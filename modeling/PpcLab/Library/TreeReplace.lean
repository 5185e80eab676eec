import PpcLab.Library.TreeWrites

/-!
# Replacing files of a directory tree

Files are removed and written until a write fails, which leaves the folders
that were made on the way; folders that are empty in the end are removed.
-/

namespace PpcLab.Trees.Tree

/-- `mkdir(parents=True, exist_ok=True)`: how far it came, and whether that was
to the end. -/
def makeFolders (tree : Tree) : List Relative → Tree × Bool
  | [] => (tree, true)
  | folder :: folders =>
      match tree.makeFolder folder with
      | none => (tree, false)
      | some next => next.makeFolders folders

def write (tree : Tree) (file : Relative × File) : Tree × Bool :=
  if tree.leadsAway file.1 then (tree, true)
  else
    match tree.makeFolders file.1.folders with
    | (next, false) => (next, false)
    | (next, true) =>
        match next.place file.1 file.2 with
        | none => (next, false)
        | some last => (last, true)

def writeAll (tree : Tree) : List (Relative × File) → Tree × Bool
  | [] => (tree, true)
  | file :: files =>
      match tree.write file with
      | (next, false) => (next, false)
      | (next, true) => next.writeAll files

/-- `unlink()` -/
def unlinkAll (tree : Tree) (paths : List Relative) : Tree :=
  paths.foldl Keyed.erase tree

/-- There is something below a path. -/
def hasBelow (tree : Tree) (path : Relative) : Bool :=
  tree.entries.any fun entry => decide (path ∈ entry.path.folders)

/-- `rmdir()`, which leaves what is no empty folder. -/
def removeFolder (tree : Tree) (path : Relative) : Tree :=
  if tree.hasFolder path ∧ tree.hasBelow path = false then tree.erase path
  else tree

def prune (tree : Tree) (paths : List Relative) : Tree :=
  paths.foldl removeFolder tree

section

variable {before next after : Tree} {path : Relative}

theorem grown_makeFolders {folders : List Relative} {done : Bool}
    (made : before.makeFolders folders = (after, done)) :
    Grown folders before after := by
  induction folders generalizing before with
  | nil =>
      cases made
      exact fun _ => Or.inl rfl
  | cons folder folders induction =>
      rw [makeFolders] at made
      cases first : before.makeFolder folder with
      | none =>
          rw [first] at made
          cases made
          exact fun _ => Or.inl rfl
      | some next =>
          rw [first] at made
          apply ((grown_makeFolder first).1.mono _).trans
            ((induction made).mono _)
          · simp
          · exact fun other member => List.mem_cons_of_mem _ member

theorem makeFolders_eq_true {folders : List Relative} :
    before.makeFolders folders = (after, true) ↔
      folders.foldlM makeFolder before = some after := by
  induction folders generalizing before with
  | nil =>
      rw [makeFolders, List.foldlM_nil]
      simp
  | cons folder folders induction =>
      rw [makeFolders, List.foldlM_cons]
      cases before.makeFolder folder with
      | none => simp
      | some next => exact induction

theorem write_eq_true {file : Relative × File} :
    before.write file = (after, true) ↔ before.install file = some after := by
  rw [write, install]
  cases before.leadsAway file.1 with
  | true => simp
  | false =>
      cases made : before.makeFolders file.1.folders with
      | mk next done =>
          cases done with
          | false =>
              have stuck : file.1.folders.foldlM makeFolder before = none := by
                rw [Option.eq_none_iff_forall_ne_some]
                intro other succeeded
                have finished := makeFolders_eq_true.mpr succeeded
                rw [made] at finished
                cases finished
              rw [stuck]
              simp
          | true =>
              rw [makeFolders_eq_true.mp made]
              dsimp only [Option.bind_eq_bind, Option.bind_some]
              cases next.place file.1 file.2 with
              | none => simp
              | some last => simp

/-- What is at a path is what was there, a file that was written there, or a
folder on the way to one. -/
def Touched (paths : List Relative) (before after : Tree) : Prop :=
  ∀ path, after.lookup path = before.lookup path ∨
    (path ∈ paths ∧ ¬before.hasFolder path ∧
      ∃ file, after.lookup path = some ⟨path, false, some (.file file)⟩) ∨
    (before.lookup path = none ∧ after.hasFolder path ∧
      ∃ other ∈ paths, other.IsBelow path)

theorem Touched.refl (paths : List Relative) (tree : Tree) :
    Touched paths tree tree :=
  fun _ => Or.inl rfl

theorem Touched.mono {paths more : List Relative}
    (touched : Touched paths before after) (subset : ∀ path ∈ paths, path ∈ more) :
    Touched more before after := by
  intro path
  rcases touched path with same | ⟨member, written⟩ | ⟨none, there, way⟩
  · exact Or.inl same
  · exact Or.inr (Or.inl ⟨subset path member, written⟩)
  · obtain ⟨other, member, below⟩ := way
    exact Or.inr (Or.inr ⟨none, there, other, subset other member, below⟩)

theorem Touched.trans {paths : List Relative}
    (first : Touched paths before next) (second : Touched paths next after) :
    Touched paths before after := by
  intro path
  rcases second path with same | ⟨member, vacant, written⟩ | ⟨none, there, way⟩
  · rcases first path with equal | ⟨member, vacant, written⟩ |
      ⟨none, there, way⟩
    · exact Or.inl (same.trans equal)
    · exact Or.inr (Or.inl ⟨member, vacant, same ▸ written⟩)
    · exact Or.inr (Or.inr ⟨none, same.trans there, way⟩)
  · refine Or.inr (Or.inl ⟨member, ?_, written⟩)
    intro folder
    rcases first path with same | ⟨_, free, _⟩ | ⟨empty, _, _⟩
    · exact vacant (same.trans folder)
    · exact free folder
    · rw [hasFolder, empty] at folder
      cases folder
  · rcases first path with same | ⟨_, _, file, held⟩ | ⟨_, folder, _⟩
    · exact Or.inr (Or.inr ⟨same ▸ none, there, way⟩)
    · rw [none] at held
      cases held
    · rw [folder] at none
      cases none

theorem Grown.touched {file : Relative × File}
    (grown : Grown file.1.folders before after) :
    Touched [file.1] before after := by
  intro path
  rcases grown path with same | ⟨none, member, there⟩
  · exact Or.inl same
  · exact Or.inr (Or.inr ⟨none, there, file.1, List.mem_singleton_self _,
      Relative.mem_folders.mp member⟩)

theorem touched_write {file : Relative × File} {done : Bool}
    (written : before.write file = (after, done)) :
    Touched [file.1] before after := by
  cases away : before.leadsAway file.1 with
  | true =>
      rw [write, away] at written
      cases written
      exact Touched.refl _ _
  | false =>
      cases done with
      | true =>
          obtain ⟨admits, installed⟩ :=
            installed_of_install away (write_eq_true.mp written)
          intro path
          by_cases same : path = file.1
          · subst same
            exact Or.inr (Or.inl ⟨List.mem_singleton_self _, admits.vacant,
              file.2, installed.here⟩)
          · rcases installed.others path same with equal | ⟨none, below, there⟩
            · exact Or.inl equal
            · exact Or.inr (Or.inr ⟨none, there, file.1,
                List.mem_singleton_self _, below⟩)
      | false =>
          rw [write, away] at written
          cases made : before.makeFolders file.1.folders with
          | mk next finished =>
              have grown := grown_makeFolders made
              rw [made] at written
              cases finished with
              | false =>
                  cases written
                  exact grown.touched
              | true =>
                  dsimp only at written
                  cases placed : next.place file.1 file.2 with
                  | none =>
                      rw [placed] at written
                      cases written
                      exact grown.touched
                  | some last =>
                      rw [placed] at written
                      cases written

theorem touched_writeAll {files : List (Relative × File)} {done : Bool}
    (written : before.writeAll files = (after, done)) :
    Touched (files.map Prod.fst) before after := by
  induction files generalizing before with
  | nil =>
      cases written
      exact Touched.refl _ _
  | cons file files induction =>
      rw [writeAll] at written
      cases first : before.write file with
      | mk next finished =>
          have touched : Touched ((file :: files).map Prod.fst) before next :=
            (touched_write first).mono (by simp)
          rw [first] at written
          cases finished with
          | false =>
              cases written
              exact touched
          | true =>
              exact touched.trans ((induction written).mono (by
                intro path member
                exact List.mem_cons_of_mem _ member))

namespace Touched

variable {paths : List Relative}

theorem fileAt (touched : Touched paths before after) (outside : path ∉ paths) :
    after.fileAt path = before.fileAt path := by
  rcases touched path with same | ⟨member, _⟩ | ⟨none, there, _⟩
  · rw [Tree.fileAt, same, Tree.fileAt]
  · exact absurd member outside
  · rw [Tree.fileAt, there, Tree.fileAt, none]
    rfl

end Touched

theorem lookup_unlinkAll (tree : Tree) (paths : List Relative) :
    (tree.unlinkAll paths).lookup path =
      if path ∈ paths then none else tree.lookup path := by
  induction paths generalizing tree with
  | nil => simp [unlinkAll]
  | cons first paths induction =>
      rw [unlinkAll, List.foldl_cons]
      have rest := induction (tree.erase first)
      rw [unlinkAll] at rest
      rw [rest]
      by_cases same : path = first
      · subst same
        simp
      · simp [same, Keyed.lookup_erase_of_ne tree same]

/-- Nothing but folders that were empty was removed. -/
structure Pruned (before after : Tree) : Prop where
  lookup : ∀ path, after.lookup path = before.lookup path ∨
    before.hasFolder path ∧ after.lookup path = none
  kept : ∀ path other entry, before.lookup other = some entry →
    ¬before.hasFolder other → other.IsBelow path → before.hasFolder path →
    after.hasFolder path

theorem pruned_removeFolder (tree : Tree) (path : Relative) :
    Pruned tree (tree.removeFolder path) := by
  rw [removeFolder]
  by_cases removable : tree.hasFolder path ∧ tree.hasBelow path = false
  · rw [if_pos removable]
    constructor
    · intro other
      by_cases same : other = path
      · subst same
        exact Or.inr ⟨removable.1, Keyed.lookup_erase_self tree other⟩
      · exact Or.inl (Keyed.lookup_erase_of_ne tree same)
    · intro folder other entry found _ below there
      have differ : folder ≠ path := by
        intro same
        subst same
        have empty := removable.2
        rw [hasBelow, List.any_eq_false] at empty
        apply empty entry (Keyed.mem_of_lookup found)
        rw [Keyed.key_of_lookup found]
        simpa using Relative.mem_folders.mpr below
      exact (Keyed.lookup_erase_of_ne tree differ).trans there
  · rw [if_neg removable]
    exact ⟨fun _ => Or.inl rfl, fun _ _ _ _ _ _ there => there⟩

theorem Pruned.trans (first : Pruned before next) (second : Pruned next after) :
    Pruned before after := by
  constructor
  · intro path
    rcases second.lookup path with same | ⟨there, none⟩
    · rcases first.lookup path with equal | ⟨there, none⟩
      · exact Or.inl (same.trans equal)
      · exact Or.inr ⟨there, same.trans none⟩
    · rcases first.lookup path with equal | ⟨early, _⟩
      · exact Or.inr ⟨equal.symm.trans there, none⟩
      · exact Or.inr ⟨early, none⟩
  · intro path other entry found noFolder below there
    have still : next.lookup other = some entry := by
      rcases first.lookup other with same | ⟨folder, _⟩
      · exact same.trans found
      · exact absurd folder noFolder
    apply second.kept path other entry still
    · intro folder
      exact noFolder (found.trans (still.symm.trans folder))
    · exact below
    · exact first.kept path other entry found noFolder below there

theorem pruned_prune (tree : Tree) (paths : List Relative) :
    Pruned tree (tree.prune paths) := by
  induction paths generalizing tree with
  | nil => exact ⟨fun _ => Or.inl rfl, fun _ _ _ _ _ _ there => there⟩
  | cons path paths induction =>
      exact (pruned_removeFolder tree path).trans (induction _)

theorem Pruned.fileAt (pruned : Pruned before after) :
    after.fileAt path = before.fileAt path := by
  rcases pruned.lookup path with same | ⟨there, none⟩
  · rw [Tree.fileAt, same, Tree.fileAt]
  · rw [Tree.fileAt, none, Tree.fileAt, there]
    rfl

end

end PpcLab.Trees.Tree
