import Mathlib.Logic.Basic

/-!
# A lock file

Processes exclude each other through one file: who finds it absent, or finds
it left behind by a process that is gone and removes it, creates it anew and
then writes its own name into it.  Removing and creating are two steps, and so
are creating and writing.  Exclusion holds as long as nobody creates the file
while another process has still to remove it, and nobody takes a file that is
not written yet for one left behind.
-/

namespace PpcLab

variable {π : Type}

/-- The content is absent until the creator has written it. -/
structure LockFile (π : Type) where
  creator : π
  content : Option π
  deriving DecidableEq, Repr

inductive LockPhase where
  | outside
  | removing
  | creating
  | writing
  | holding
  deriving DecidableEq, Repr

def LockPhase.owns : LockPhase → Bool
  | .writing | .holding => true
  | .outside | .removing | .creating => false

/-- The name is in the file once its creator has written it. -/
def LockFile.stamp [DecidableEq π] (name : π) (file : LockFile π) :
    LockFile π :=
  if file.creator = name then { file with content := some name } else file

/-- What a step of a process does to its phase and to the file. -/
inductive LockMove [DecidableEq π] (name : π) (alive : π → Bool) :
    LockPhase → Option (LockFile π) → LockPhase → Option (LockFile π) →
      Prop where
  | stay (phase : LockPhase) (file : Option (LockFile π)) :
      LockMove name alive phase file phase file
  | leave (phase : LockPhase) (file : Option (LockFile π)) :
      LockMove name alive phase file .outside file
  | absent : LockMove name alive .outside none .creating none
  | stale (file : Option (LockFile π)) :
      (∀ found ∈ file, ∀ owner ∈ found.content, alive owner = false) →
      LockMove name alive .outside file .removing file
  | remove (file : Option (LockFile π)) :
      LockMove name alive .removing file .creating none
  | create :
      LockMove name alive .creating none .writing (some ⟨name, none⟩)
  | write (file : Option (LockFile π)) :
      LockMove name alive .writing file .holding
        (file.map (LockFile.stamp name))
  | release (file : Option (LockFile π)) :
      LockMove name alive .holding file .outside none

/-- The file is the one of the process that owns it, and nobody removes it. -/
structure LockSafe (phase : π → LockPhase) (file : Option (LockFile π)) :
    Prop where
  owned : ∀ name, (phase name).owns → ∃ content,
    file = some ⟨name, content⟩ ∧
      (phase name = .holding → content = some name)
  unremoved : ∀ name other, phase name = .removing → ¬ (phase other).owns

/-- The move does not interfere with another process. -/
structure LockOrderly (phase : π → LockPhase) (file : Option (LockFile π))
    (name : π) (after : LockPhase) : Prop where
  written : phase name = .outside → after = .removing → ∀ found ∈ file,
    phase found.creator ≠ .writing
  removed : phase name = .creating → after = .writing → ∀ other,
    phase other ≠ .removing

namespace LockSafe

variable {phase next : π → LockPhase} {file after : Option (LockFile π)}

theorem exclusive (safe : LockSafe phase file) {first second : π}
    (firstOwns : (phase first).owns) (secondOwns : (phase second).owns) :
    first = second := by
  obtain ⟨content, firstFile, _⟩ := safe.owned first firstOwns
  obtain ⟨other, secondFile, _⟩ := safe.owned second secondOwns
  rw [firstFile] at secondFile
  exact congrArg LockFile.creator (Option.some.inj secondFile)

/-- Nobody owns anything before the first step. -/
theorem outside (idle : ∀ name, phase name = .outside) :
    LockSafe phase file := by
  constructor
  · intro name owns
    rw [idle] at owns
    cases owns
  · intro name other removing
    rw [idle] at removing
    cases removing

variable [DecidableEq π] {name : π} {alive : π → Bool}

/-- The process gives up what it had, or goes on with nothing in its hands. -/
private theorem resting (safe : LockSafe phase file)
    (others : ∀ other, other ≠ name → next other = phase other)
    (idle : ¬ (next name).owns)
    (removing : next name = .removing → ∀ other, ¬ (phase other).owns) :
    LockSafe next file := by
  constructor
  · intro owner owns
    by_cases same : owner = name
    · rw [same] at owns
      exact absurd owns idle
    · rw [others owner same] at owns ⊢
      exact safe.owned owner owns
  · intro remover owner isRemoving owns
    by_cases sameOwner : owner = name
    · rw [sameOwner] at owns
      exact idle owns
    · rw [others owner sameOwner] at owns
      by_cases sameRemover : remover = name
      · rw [sameRemover] at isRemoving
        exact removing isRemoving owner owns
      · rw [others remover sameRemover] at isRemoving
        exact safe.unremoved remover owner isRemoving owns

omit [DecidableEq π] in
/-- No process owns a file that is absent. -/
private theorem unowned (safe : LockSafe phase none) (owner : π) :
    ¬ (phase owner).owns := by
  intro owns
  obtain ⟨content, present, _⟩ := safe.owned owner owns
  cases present

omit [DecidableEq π] in
/-- Nobody owns a file whose content names no live process. -/
private theorem unowned_of_stale (safe : LockSafe phase file)
    (living : ∀ owner, (phase owner).owns → alive owner)
    (dead : ∀ found ∈ file, ∀ owner ∈ found.content, alive owner = false)
    (written : ∀ found ∈ file, phase found.creator ≠ .writing) (owner : π) :
    ¬ (phase owner).owns := by
  intro owns
  obtain ⟨content, present, stamped⟩ := safe.owned owner owns
  cases held : phase owner with
  | outside | removing | creating =>
      rw [held] at owns
      cases owns
  | writing => exact written _ present held
  | holding =>
      have named := stamped held
      subst named
      have isDead := dead _ present owner rfl
      rw [living owner owns] at isDead
      cases isDead

theorem move (safe : LockSafe phase file)
    (living : ∀ owner, (phase owner).owns → alive owner)
    (orderly : LockOrderly phase file name (next name))
    (others : ∀ other, other ≠ name → next other = phase other)
    (moved : LockMove name alive (phase name) file (next name) after) :
    LockSafe next after := by
  generalize before : phase name = old at moved
  generalize later : next name = new at moved
  cases moved with
  | stay =>
      have same : next = phase := by
        funext other
        by_cases self : other = name
        · rw [self, before, later]
        · exact others other self
      rw [same]
      exact safe
  | leave =>
      refine safe.resting others ?_ ?_
      · simp [later, LockPhase.owns]
      · simp [later]
  | absent =>
      refine safe.resting others ?_ ?_
      · simp [later, LockPhase.owns]
      · simp [later]
  | stale _ dead =>
      refine safe.resting others ?_ ?_
      · simp [later, LockPhase.owns]
      · intro removing
        exact safe.unowned_of_stale living dead 
          (orderly.written before removing)
  | remove =>
      have nobody := fun owner => safe.unremoved name owner before
      have safeAbsent : LockSafe phase none :=
        ⟨fun owner owns => absurd owns (nobody owner), safe.unremoved⟩
      refine safeAbsent.resting others ?_ ?_
      · simp [later, LockPhase.owns]
      · simp [later]
  | create =>
      have noneRemoving := orderly.removed before later
      constructor
      · intro owner owns
        by_cases same : owner = name
        · subst same
          refine ⟨none, rfl, ?_⟩
          simp [later]
        · rw [others owner same] at owns
          exact absurd owns (safe.unowned owner)
      · intro remover owner isRemoving
        by_cases same : remover = name
        · rw [same, later] at isRemoving
          cases isRemoving
        · rw [others remover same] at isRemoving
          exact absurd isRemoving (noneRemoving remover)
  | write =>
      have owns : (phase name).owns := by simp [before, LockPhase.owns]
      obtain ⟨content, present, _⟩ := safe.owned name owns
      constructor
      · intro owner ownerOwns
        by_cases same : owner = name
        · subst same
          refine ⟨some owner, ?_, fun _ => rfl⟩
          simp [present, LockFile.stamp]
        · rw [others owner same] at ownerOwns
          exact absurd (safe.exclusive ownerOwns owns) same
      · intro remover owner isRemoving
        by_cases same : remover = name
        · rw [same, later] at isRemoving
          cases isRemoving
        · rw [others remover same] at isRemoving
          exact absurd owns (safe.unremoved remover name isRemoving)
  | release =>
      have owns : (phase name).owns := by simp [before, LockPhase.owns]
      constructor
      · intro owner ownerOwns
        by_cases same : owner = name
        · rw [same, later] at ownerOwns
          cases ownerOwns
        · rw [others owner same] at ownerOwns
          exact absurd (safe.exclusive ownerOwns owns) same
      · intro remover owner isRemoving
        by_cases same : remover = name
        · rw [same, later] at isRemoving
          cases isRemoving
        · rw [others remover same] at isRemoving
          exact absurd owns (safe.unremoved remover name isRemoving)

end LockSafe

end PpcLab
