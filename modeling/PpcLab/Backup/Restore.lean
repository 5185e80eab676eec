import PpcLab.Backup.Archive

/-!
# Restoring a backup

The components of the state are moved aside, those of the archive are moved to
their places, and when that fails everything is moved back.  A move can stop
half-way when it has to copy, and a move to a directory that is there goes
below it.
-/

namespace PpcLab.Backup

open Explore (Failure)
open Json (asString? find?)
open Replication.Archive (ZipInfo)
open Trees (File Tree)

inductive Held where
  | file (file : File)
  | directory (members : List (Str × Held))

/-- A file below a directory. -/
def Held.put (file : File) : List Str → Option Held → Held
  | [], _ => .file file
  | part :: parts, some (.directory members) =>
      .directory (Dictionary.assign members
        (part, Held.put file parts (members.lookup part)))
  | part :: parts, _ => .directory [(part, Held.put file parts none)]

/-- What was extracted below a path. -/
def heldBelow (tree : Tree) (place : List Str) : Option Held :=
  tree.regularFiles.foldl (fun held found =>
    if place.isPrefixOf found.1.parts then
      some (Held.put found.2 (found.1.parts.drop place.length) held)
    else held) none

/-- A move that cannot rename copies and removes then; either can fail. -/
inductive MoveFault where
  | copying (part : Option Held)
  | removing (left : Held)

/-- What there is of the source where it should go. -/
def MoveFault.there (source : Option Held) : MoveFault → Option Held
  | .copying part => part
  | .removing _ => source

/-- What is left of the source. -/
def MoveFault.left (source : Option Held) : MoveFault → Option Held
  | .copying _ => source
  | .removing left => some left

/-- How something comes to what is at a place: a directory gets it as a
member, a file is replaced by a file. -/
def landing (name : Str) (source : Held) :
    Option Held → Option (Option Held → Option Held)
  | none => some id
  | some (.directory members) =>
      if name ∈ members.map Prod.fst then none
      else some fun part => some (.directory
        (members ++ (part.map fun held => (name, held)).toList))
  | some (.file _) =>
      match source with
      | .file _ => some id
      | .directory _ => none

/-- `shutil.move` of something with a name: what is then at the target, or what
is left at both places. -/
def move (name : Str) (fault : Option MoveFault) (source target : Option Held) :
    Except (Option Held × Option Held) (Option Held) :=
  match source with
  | none => .error (none, target)
  | some held =>
      match landing name held target, fault with
      | none, _ => .error (source, target)
      | some land, none => .ok (land source)
      | some land, some fault =>
          .error (fault.left source, land (fault.there source))

/-- Where the parts of a component are. -/
structure Slot where
  root : Option Held
  safety : Option Held
  staged : Option Held
  /-- It is in the list of what was moved to the state root. -/
  installed : Bool

/-- What fails: the directories, each move, what a removal leaves, the copy of
the deployment and what it has done to a component, and the removal of the
directory with the extracted files. -/
structure RestoreFaults where
  stateRoot : Bool
  safety : Bool
  aside : Str → Option MoveFault
  install : Str → Option MoveFault
  remove : Str → Option Held
  back : Str → Option MoveFault
  deployment : Option (Str → Option Held → Option Held)
  cleanup : Bool

def asideStep (faults : RestoreFaults) (name : Str) (slot : Slot) :
    Except Slot Slot :=
  match move name (faults.aside name) slot.root slot.safety with
  | .error (left, there) => .error { slot with root := left, safety := there }
  | .ok there => .ok { slot with root := none, safety := there }

def installStep (faults : RestoreFaults) (name : Str) (slot : Slot) :
    Except Slot Slot :=
  if slot.staged.isSome then
    match move name (faults.install name) slot.staged slot.root with
    | .error (left, there) =>
        .error { slot with staged := left, root := there }
    | .ok there =>
        .ok { slot with staged := none, root := there, installed := true }
  else .ok slot

/-- `rmtree`, which removes no file. -/
def removeStep (faults : RestoreFaults) (name : Str) (slot : Slot) :
    Except Slot Slot :=
  match slot.root with
  | none => .ok slot
  | some (.file _) => .error slot
  | some (.directory _) =>
      match faults.remove name with
      | some left => .error { slot with root := some left }
      | none => .ok { slot with root := none }

def backStep (faults : RestoreFaults) (name : Str) (slot : Slot) :
    Except Slot Slot :=
  if slot.safety.isSome then
    match move name (faults.back name) slot.safety slot.root with
    | .error (left, there) =>
        .error { slot with safety := left, root := there }
    | .ok there => .ok { slot with safety := none, root := there }
  else .ok slot

/-- The copy of the deployment, where one was asked for and is in the
archive. -/
def deploy (faults : RestoreFaults) (asked : Bool) (slots : Str → Slot) :
    Except (Str → Slot) (Str → Slot) :=
  match asked, faults.deployment with
  | true, some effect => .error fun name =>
      { slots name with root := effect name (slots name).root }
  | _, _ => .ok slots

/-- What is done after a failure. -/
def undo (faults : RestoreFaults) (components existing : List Str)
    (slots : Str → Slot) : Except (Str → Slot) (Str → Slot) := do
  let installed := components.eraseDups.filter fun name =>
    (slots name).installed
  let slots ← sweep (removeStep faults) installed slots
  sweep (backStep faults) existing slots

/-- What is there, whether something failed or not. -/
def stateAfter {σ : Type} : Except σ σ → σ
  | .error state => state
  | .ok state => state

/-- What the moves to the places come to: the failed ones are undone. -/
def finish (faults : RestoreFaults) (components existing : List Str) :
    Except (Str → Slot) (Str → Slot) → Except (Str → Slot) (Str → Slot)
  | .ok slots => if faults.cleanup then .error slots else .ok slots
  | .error slots =>
      .error (stateAfter (undo faults components existing slots))

/-- The moves: what is there after them, or after a failure. -/
def exchange (faults : RestoreFaults) (asked : Bool)
    (components existing : List Str) (slots : Str → Slot) :
    Except (Str → Slot) (Str → Slot) := do
  let slots ← sweep (asideStep faults) existing slots
  finish faults components existing
    (sweep (installStep faults) components slots >>= deploy faults asked)

/-- `ALLOWED_COMPONENTS` -/
def allowedComponents : List Str :=
  [str "evidence", str "knowledge", str "control"]

/-- `[c for c in manifest.get("components", []) if c in ALLOWED_COMPONENTS]`;
the characters of a text are no components. -/
def restorable (manifest : Fields) : Except Failure (List Str) :=
  match find? manifest (str "components") with
  | none | some (.string _) => .ok []
  | some (.array items) =>
      .ok ((items.filterMap asString?).filter (· ∈ allowedComponents))
  | some (.object fields) =>
      .ok ((fields.map Prod.fst).filter (· ∈ allowedComponents))
  | some _ => .error .raised

structure RestoreOptions where
  force : Bool
  deploymentOut : Bool

/-- What is to be moved. -/
structure Prepared where
  components : List Str
  tree : Tree

/-- The components that there are. -/
def existingOf (root : Str → Option Held) (components : List Str) : List Str :=
  components.filter fun name => (root name).isSome

/-- The checks before anything is moved. -/
def prepare (verifier : Verifier) (order : List Str → List Str)
    (infos : List ZipInfo) (root : Str → Option Held)
    (options : RestoreOptions) (faults : RestoreFaults) :
    Except Failure Prepared := do
  let verified ← readAndVerify verifier order infos
  if verified.errors ≠ [] then
    throw (.reported (str "backup verification failed: " ++
      (str "; ").intercalate verified.errors))
  let components ← restorable verified.manifest
  if components = [] then
    throw (.reported (str "backup contains no restorable components"))
  let existing := existingOf root components
  if existing ≠ [] ∧ options.force = false then
    throw (.reported (str "destination already contains state: " ++
      (str ", ").intercalate existing ++ str "; use --force"))
  if faults.stateRoot ∨ existing ≠ [] ∧ faults.safety then throw .unreadable
  return ⟨components, verified.tree⟩

def stagedComponent (tree : Tree) (name : Str) : Option Held :=
  heldBelow tree [str "state", name]

def hasDeployment (tree : Tree) : Bool :=
  ((place? (str "metadata/deployment.json")).bind tree.fileAt).isSome

def startSlots (root staged : Str → Option Held) (name : Str) : Slot :=
  ⟨root name, none, staged name, false⟩

/-- `restore_backup`: the components that are restored, or the failure, and
what is at the place of each component afterwards. -/
def restoreBackup (verifier : Verifier) (order : List Str → List Str)
    (infos : List ZipInfo) (root : Str → Option Held)
    (options : RestoreOptions) (faults : RestoreFaults) :
    Except (Failure × (Str → Option Held))
      (List Str × (Str → Option Held)) :=
  match prepare verifier order infos root options faults with
  | .error failure => .error (failure, root)
  | .ok prepared =>
      match exchange faults (options.deploymentOut &&
          hasDeployment prepared.tree) prepared.components
          (existingOf root prepared.components)
          (startSlots root (stagedComponent prepared.tree)) with
      | .error slots => .error (.unreadable, fun name => (slots name).root)
      | .ok slots => .ok
          (prepared.components.eraseDups.filter fun name =>
            (slots name).installed, fun name => (slots name).root)

/-- A component is not in the archive, or is moved to its place. -/
def Lands (faults : RestoreFaults) (staged : Str → Option Held) (name : Str) :
    Prop :=
  (staged name).isSome → faults.install name = none

/-- What can be moved back to a place where there is something. -/
def Harmless (before there : Option Held) : Prop :=
  there = none ∨ ∃ file other, there = some (.file file) ∧
    before = some (.file other)

/-- Everything can be moved back after some components were moved to their
places: they are directories that can be removed, and no move back fails but
the last one when it has moved everything. -/
structure UndoWorks (faults : RestoreFaults) (root staged : Str → Option Held)
    (existing installed : List Str) : Prop where
  removed : ∀ name ∈ installed, (staged name).isSome →
    (∃ members, staged name = some (.directory members)) ∧
      faults.remove name = none
  back : ∀ name ∈ existing.dropLast, faults.back name = none
  last : ∀ name ∈ existing.getLast?, ∀ fault, faults.back name = some fault →
    fault.there (root name) = root name

/-- A failed copy of the deployment leaves the components alone. -/
def LeavesComponents (faults : RestoreFaults) : Prop :=
  ∀ effect, faults.deployment = some effect → ∀ name held,
    effect name held = held

/-- What is moved aside is all moved, and what follows is undone where it
fails. -/
structure Follows (faults : RestoreFaults) (asked : Bool)
    (root staged : Str → Option Held) (components existing : List Str) :
    Prop where
  nodup : existing.Nodup
  aside : ∀ name ∈ existing, faults.aside name = none
  install : ∀ before name after fault,
    components = before ++ name :: after →
    (∀ earlier ∈ before, Lands faults staged earlier) →
    (staged name).isSome → faults.install name = some fault →
    Harmless (root name) (fault.there (staged name)) ∧
      UndoWorks faults root staged existing before
  deploy : (∀ name ∈ components, Lands faults staged name) →
    asked = true → faults.deployment.isSome →
    LeavesComponents faults ∧
      UndoWorks faults root staged existing components
  cleanup : (∀ name ∈ components, Lands faults staged name) →
    (asked = true → faults.deployment = none) → faults.cleanup = true →
    ∀ name ∈ components, root name = none ∧ staged name = none

/-- The first move aside fails and leaves its source, or none does. -/
def Reversible (faults : RestoreFaults) (asked : Bool)
    (root staged : Str → Option Held) (components : List Str) : Prop :=
  (∃ name ∈ (existingOf root components).head?, ∃ fault,
    faults.aside name = some fault ∧ fault.left (root name) = root name) ∨
  Follows faults asked root staged components (existingOf root components)

/-- Nothing that is left somewhere is by chance what was there before. -/
structure Unlike (faults : RestoreFaults) (root staged : Str → Option Held) :
    Prop where
  staged : ∀ name, (staged name).isSome → staged name ≠ root name
  install : ∀ name part, faults.install name = some (.copying (some part)) →
    root name ≠ some part
  remove : ∀ name left, faults.remove name = some left → root name ≠ some left
  back : ∀ name part members, faults.back name = some (.copying (some part)) →
    root name ≠ some (.directory (members ++ [(name, part)]))
  deployment : LeavesComponents faults

variable {faults : RestoreFaults} {name : Str} {slot next : Slot}
  {held : Held}

theorem Held.ne_directory_append {members : List (Str × Held)} :
    held ≠ .directory (members ++ [(name, held)]) := by
  intro same
  have sizes := congrArg sizeOf same
  have member : (name, held) ∈ members ++ [(name, held)] :=
    List.mem_append_right _ List.mem_cons_self
  have less := List.sizeOf_lt_of_mem member
  simp only [Held.directory.sizeOf_spec, Prod.mk.sizeOf_spec] at sizes less
  omega

theorem move_none (fault : Option MoveFault) (target : Option Held) :
    move name fault none target = .error (none, target) := rfl

theorem move_free (name : Str) (held : Held) (target : Option Held)
    (free : landing name held target = some id) :
    move name none (some held) target = .ok (some held) ∧
      ∀ fault, move name (some fault) (some held) target =
        .error (fault.left (some held), fault.there (some held)) := by
  unfold move
  dsimp only
  rw [free]
  exact ⟨rfl, fun _ => rfl⟩

theorem landing_of_harmless {there : Option Held}
    (harmless : Harmless (some held) there) :
    landing name held there = some id := by
  rcases harmless with rfl | ⟨file, other, rfl, same⟩
  · rfl
  · cases same
    rfl

theorem asideStep_stable (key : Str) (slot next : Slot)
    (stepped : asideStep faults key slot = .ok next) :
    ∃ failed, asideStep faults key next = .error failed := by
  unfold asideStep at stepped
  cases moved : move key (faults.aside key) slot.root slot.safety with
  | error left =>
      rw [moved] at stepped
      cases stepped
  | ok there =>
      rw [moved] at stepped
      cases stepped
      exact ⟨_, rfl⟩

theorem stable_asideStep : Stable (asideStep faults) :=
  fun key slot next stepped => .inr (asideStep_stable key slot next stepped)

theorem stable_installStep : Stable (installStep faults) := by
  intro key slot next stepped
  left
  unfold installStep at stepped
  split at stepped
  · cases moved : move key (faults.install key) slot.staged slot.root with
    | error left =>
        rw [moved] at stepped
        cases stepped
    | ok there =>
        rw [moved] at stepped
        cases stepped
        rfl
  · rename_i missing
    cases stepped
    exact if_neg missing

theorem stable_removeStep : Stable (removeStep faults) := by
  intro key slot next stepped
  left
  obtain ⟨root, safety, staged, installed⟩ := slot
  unfold removeStep at stepped
  cases root with
  | none =>
      cases stepped
      rfl
  | some held =>
      cases held with
      | file file => cases stepped
      | directory members =>
          dsimp only at stepped
          split at stepped
          · cases stepped
          · cases stepped
            rfl

theorem stable_backStep : Stable (backStep faults) := by
  intro key slot next stepped
  left
  unfold backStep at stepped
  split at stepped
  · cases moved : move key (faults.back key) slot.safety slot.root with
    | error left =>
        rw [moved] at stepped
        cases stepped
    | ok there =>
        rw [moved] at stepped
        cases stepped
        rfl
  · rename_i missing
    cases stepped
    exact if_neg missing

theorem asideStep_eq_ok_iff (empty : slot.safety = none) :
    asideStep faults name slot = .ok next ↔ slot.root.isSome ∧
      faults.aside name = none ∧
      next = { slot with root := none, safety := slot.root } := by
  obtain ⟨root, safety, staged, installed⟩ := slot
  cases empty
  unfold asideStep
  cases root with
  | none => simp [move_none]
  | some held =>
      obtain ⟨moved, failed⟩ := move_free name held none rfl
      cases fault : faults.aside name with
      | none =>
          dsimp only
          rw [moved]
          simp [eq_comm]
      | some fault =>
          dsimp only
          rw [failed]
          simp

theorem installStep_eq_ok_iff (given : slot.staged.isSome)
    (empty : slot.root = none) :
    installStep faults name slot = .ok next ↔ faults.install name = none ∧
      next = { slot with
        root := slot.staged, staged := none, installed := true } := by
  obtain ⟨root, safety, staged, installed⟩ := slot
  cases empty
  obtain ⟨held, rfl⟩ := Option.isSome_iff_exists.mp given
  unfold installStep
  rw [if_pos given]
  obtain ⟨moved, failed⟩ := move_free name held none rfl
  cases fault : faults.install name with
  | none =>
      dsimp only
      rw [moved]
      simp [eq_comm]
  | some fault =>
      dsimp only
      rw [failed]
      simp

theorem installStep_eq_error (empty : slot.root = none) {failed : Slot}
    (stopped : installStep faults name slot = .error failed) :
    slot.staged.isSome ∧ ∃ fault, faults.install name = some fault ∧
      failed.root = fault.there slot.staged ∧ failed.safety = slot.safety ∧
      failed.installed = slot.installed := by
  obtain ⟨root, safety, staged, installed⟩ := slot
  cases empty
  unfold installStep at stopped
  split at stopped
  · rename_i given
    obtain ⟨held, rfl⟩ := Option.isSome_iff_exists.mp given
    refine ⟨given, ?_⟩
    obtain ⟨moved, fails⟩ := move_free name held none rfl
    cases known : faults.install name with
    | none =>
        rw [known] at stopped
        dsimp only at stopped
        rw [moved] at stopped
        cases stopped
    | some fault =>
        rw [known] at stopped
        dsimp only at stopped
        rw [fails] at stopped
        cases stopped
        exact ⟨fault, rfl, rfl, rfl, rfl⟩
  · cases stopped

section Moves

variable {asked : Bool} {root staged : Str → Option Held}
  {components existing : List Str} {slots final : Str → Slot}

/-- The slots when everything that exists was moved aside. -/
def emptied (root staged : Str → Option Held) (existing : List Str)
    (name : Str) : Slot :=
  if name ∈ existing then ⟨none, root name, staged name, false⟩
  else startSlots root staged name

theorem emptied_safety :
    (emptied root staged existing name).safety =
      if name ∈ existing then root name else none := by
  unfold emptied
  split <;> rfl

theorem emptied_staged :
    (emptied root staged existing name).staged = staged name := by
  unfold emptied
  split <;> rfl

theorem emptied_installed :
    (emptied root staged existing name).installed = false := by
  unfold emptied
  split <;> rfl

theorem emptied_root (listed : name ∈ components) :
    (emptied root staged (existingOf root components) name).root = none := by
  unfold emptied
  split
  · rfl
  · rename_i missing
    cases here : root name with
    | none => exact here
    | some held =>
        apply absurd _ missing
        exact List.mem_filter.mpr ⟨listed, by rw [here]; rfl⟩

/-- Everything is moved aside exactly if nothing is listed twice and no move
fails. -/
theorem aside_eq_ok
    (ran : sweep (asideStep faults) existing (startSlots root staged) =
      .ok final) :
    existing.Nodup ∧ (∀ name ∈ existing, faults.aside name = none) ∧
      final = emptied root staged existing := by
  have step (key : Str) (listed : key ∈ existing) :=
    (asideStep_eq_ok_iff rfl).mp (sweep_of_mem stable_asideStep ran listed)
  refine ⟨nodup_of_sweep stable_asideStep asideStep_stable ran,
    fun name listed => (step name listed).2.1, ?_⟩
  funext key
  unfold emptied
  split
  · rename_i listed
    rw [(step key listed).2.2]
    rfl
  · rename_i other
    exact sweep_of_not_mem ran other

theorem aside_isOk (staged : Str → Option Held)
    (there : ∀ name ∈ existing, (root name).isSome)
    (nodup : existing.Nodup)
    (moved : ∀ name ∈ existing, faults.aside name = none) :
    sweep (asideStep faults) existing (startSlots root staged) =
      .ok (emptied root staged existing) := by
  have step (key : Str) (listed : key ∈ existing) : ∃ next,
      asideStep faults key (startSlots root staged key) = .ok next :=
    ⟨_, (asideStep_eq_ok_iff rfl).mpr
      ⟨there key listed, moved key listed, rfl⟩⟩
  obtain ⟨final, ran⟩ := sweep_isOk stable_asideStep fun key listed =>
    let ⟨next, stepped⟩ := step key listed
    ⟨next, stepped, .inl nodup⟩
  rw [ran, (aside_eq_ok ran).2.2]

theorem aside_eq_error (there : ∀ name ∈ existing, (root name).isSome)
    (ran : sweep (asideStep faults) existing (startSlots root staged) =
      .error final) :
    (∃ name ∈ existing.head?, ∃ fault, faults.aside name = some fault ∧
      (final name).root = fault.left (root name) ∧
      ∀ other, other ≠ name → (final other).root = root other) ∨
    ∃ name ∈ existing, (final name).root = none := by
  obtain ⟨before, key, after, middle, slot, split, done, failed, rfl⟩ :=
    sweep_eq_error ran
  cases before with
  | nil =>
      left
      cases done
      refine ⟨key, by rw [split]; rfl, ?_⟩
      obtain ⟨held, here⟩ := Option.isSome_iff_exists.mp
        (there key (by rw [split]; exact List.mem_cons_self))
      obtain ⟨moved, fails⟩ :=
        move_free key held none rfl
      unfold asideStep startSlots at failed
      dsimp only at failed
      rw [here] at failed
      cases known : faults.aside key with
      | none =>
          rw [known, moved] at failed
          cases failed
      | some fault =>
          rw [known, fails] at failed
          cases failed
          refine ⟨fault, rfl, ?_, ?_⟩
          · rw [Function.update_self, here]
          · intro other differ
            rw [Function.update_of_ne differ]
            rfl
  | cons first before =>
      right
      have listed : first ∈ existing := by
        rw [split]
        exact List.mem_cons_self
      have moved := (asideStep_eq_ok_iff rfl).mp
        (sweep_of_mem stable_asideStep done List.mem_cons_self)
      refine ⟨first, listed, ?_⟩
      by_cases again : first = key
      · subst again
        rw [moved.2.2] at failed
        rw [Function.update_self]
        cases failed
        rfl
      · rw [Function.update_of_ne again, moved.2.2]

/-- The slots when some components were moved to their places. -/
def placed (root staged : Str → Option Held) (existing before : List Str)
    (name : Str) : Slot :=
  let slot := emptied root staged existing name
  if name ∈ before ∧ (staged name).isSome then
    { slot with root := staged name, staged := none, installed := true }
  else slot

theorem install_eq_ok {before : List Str}
    (listed : ∀ name ∈ before, name ∈ components)
    (ran : sweep (installStep faults) before
      (emptied root staged (existingOf root components)) = .ok final) :
    (∀ name ∈ before, Lands faults staged name) ∧
      final = placed root staged (existingOf root components) before := by
  have step (key : Str) (member : key ∈ before) :=
    sweep_of_mem stable_installStep ran member
  have landed (key : Str) (member : key ∈ before)
      (given : (staged key).isSome) :=
    (installStep_eq_ok_iff (by rwa [emptied_staged])
      (emptied_root (listed key member))).mp (step key member)
  refine ⟨fun key member given => (landed key member given).1, ?_⟩
  funext key
  unfold placed
  dsimp only
  split
  · rename_i here
    rw [(landed key here.1 here.2).2, emptied_staged]
  · rename_i other
    by_cases member : key ∈ before
    · have missing : ¬(emptied root staged (existingOf root components)
          key).staged.isSome := by
        rw [emptied_staged]
        exact fun given => other ⟨member, given⟩
      have stepped := step key member
      rw [installStep, if_neg missing] at stepped
      exact (Except.ok.inj stepped).symm
    · exact sweep_of_not_mem ran member

theorem install_isOk {before : List Str}
    (listed : ∀ name ∈ before, name ∈ components)
    (lands : ∀ name ∈ before, Lands faults staged name) :
    sweep (installStep faults) before
      (emptied root staged (existingOf root components)) =
        .ok (placed root staged (existingOf root components) before) := by
  have each (key : Str) (member : key ∈ before) : ∃ next,
      installStep faults key
        (emptied root staged (existingOf root components) key) = .ok next ∧
      (before.Nodup ∨ installStep faults key next = .ok next) := by
    by_cases given : (staged key).isSome
    · exact ⟨_, (installStep_eq_ok_iff (by rwa [emptied_staged])
        (emptied_root (listed key member))).mpr
          ⟨lands key member given, rfl⟩, .inr rfl⟩
    · have missing : ¬(emptied root staged (existingOf root components)
          key).staged.isSome := by
        rwa [emptied_staged]
      exact ⟨_, if_neg missing, .inr (if_neg missing)⟩
  obtain ⟨final, ran⟩ := sweep_isOk stable_installStep each
  rw [ran, (install_eq_ok listed ran).2]

/-- Where the loop over the components stops. -/
theorem install_eq_error
    (ran : sweep (installStep faults) components
      (emptied root staged (existingOf root components)) = .error final) :
    ∃ before key after fault, components = before ++ key :: after ∧
      (∀ name ∈ before, Lands faults staged name) ∧
      (staged key).isSome ∧ faults.install key = some fault := by
  obtain ⟨before, key, after, middle, slot, split, done, failed, -⟩ :=
    sweep_eq_error ran
  have listed : ∀ name ∈ before, name ∈ components := by
    intro name member
    rw [split]
    exact List.mem_append_left _ member
  obtain ⟨lands, rfl⟩ := install_eq_ok listed done
  have member : key ∈ components := by
    rw [split]
    exact List.mem_append_right _ List.mem_cons_self
  have same : placed root staged (existingOf root components) before key =
      emptied root staged (existingOf root components) key := by
    unfold placed
    dsimp only
    split
    · rename_i here
      unfold placed installStep at failed
      dsimp only at failed
      rw [if_pos here] at failed
      cases failed
    · rfl
  rw [same] at failed
  obtain ⟨given, fault, known, -⟩ :=
    installStep_eq_error (emptied_root member) failed
  rw [emptied_staged] at given
  exact ⟨before, key, after, fault, split, lands, given, known⟩

end Moves

end PpcLab.Backup
