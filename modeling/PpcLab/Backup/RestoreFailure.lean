import PpcLab.Backup.Restore
import PpcLab.Upgrade.Extraction

/-!
# Failed restores

What is undone after a failure, and what is not: a failed move aside leaves the
earlier ones as they are, and a part of a component that was copied stands in
the way of the move back.
-/

namespace PpcLab.Backup

open Explore (Failure)
open Replication.Archive (ZipInfo)

variable {faults : RestoreFaults} {name : Str} {slot next : Slot}
  {held : Held}

theorem removeStep_eq_ok_iff (present : slot.root = some held) :
    removeStep faults name slot = .ok next ↔
      (∃ members, held = .directory members) ∧ faults.remove name = none ∧
        next = { slot with root := none } := by
  obtain ⟨root, safety, staged, installed⟩ := slot
  cases present
  unfold removeStep
  cases held with
  | file file => simp
  | directory members =>
      cases faults.remove name with
      | none => simp [eq_comm]
      | some left => simp

theorem removeStep_eq_error (present : slot.root = some held) {failed : Slot}
    (stopped : removeStep faults name slot = .error failed) :
    failed.root = some held ∨
      ∃ left, faults.remove name = some left ∧ failed.root = some left := by
  obtain ⟨root, safety, staged, installed⟩ := slot
  cases present
  unfold removeStep at stopped
  cases held with
  | file file =>
      cases stopped
      exact .inl rfl
  | directory members =>
      cases known : faults.remove name with
      | none =>
          simp only [known] at stopped
          cases stopped
      | some left =>
          simp only [known] at stopped
          cases stopped
          exact .inr ⟨left, rfl, rfl⟩

/-- Where everything is when something has failed: the components that were
moved to their places, and a part of another one. -/
structure Halfway (root staged : Str → Option Held)
    (existing before : List Str) (part : Str → Option Held)
    (slots : Str → Slot) : Prop where
  landed : ∀ name ∈ before, (staged name).isSome →
    (slots name).root = staged name ∧ (slots name).installed = true
  others : ∀ name, ¬(name ∈ before ∧ (staged name).isSome) →
    (slots name).root = part name ∧ (slots name).installed = false
  safety : ∀ name, (slots name).safety =
    if name ∈ existing then root name else none

/-- The installed components were removed. -/
structure Cleared (root staged : Str → Option Held)
    (existing before : List Str) (part : Str → Option Held)
    (slots : Str → Slot) : Prop where
  landed : ∀ name ∈ before, (staged name).isSome → (slots name).root = none
  others : ∀ name, ¬(name ∈ before ∧ (staged name).isSome) →
    (slots name).root = part name
  safety : ∀ name, (slots name).safety =
    if name ∈ existing then root name else none

section Undo

variable {root staged part : Str → Option Held}
  {components existing before : List Str} {slots final : Str → Slot}

theorem Halfway.mem_installed
    (halfway : Halfway root staged existing before part slots)
    (listed : ∀ name ∈ before, name ∈ components) :
    name ∈ (components.eraseDups.filter fun name => (slots name).installed) ↔
      name ∈ before ∧ (staged name).isSome := by
  rw [List.mem_filter, List.mem_eraseDups]
  constructor
  · intro member
    by_contra other
    rw [(halfway.others name other).2] at member
    cases member.2
  · intro here
    exact ⟨listed name here.1, (halfway.landed name here.1 here.2).2⟩

theorem Halfway.cleared
    (halfway : Halfway root staged existing before part slots)
    (listed : ∀ name ∈ before, name ∈ components)
    (ran : sweep (removeStep faults) (components.eraseDups.filter fun name =>
      (slots name).installed) slots = .ok final) :
    (∀ name ∈ before, (staged name).isSome →
      (∃ members, staged name = some (.directory members)) ∧
        faults.remove name = none) ∧
      Cleared root staged existing before part final := by
  have step (key : Str) (member : key ∈ before)
      (given : (staged key).isSome) :
      (∃ members, staged key = some (.directory members)) ∧
        faults.remove key = none ∧
        final key = { slots key with root := none } := by
    obtain ⟨held, here⟩ := Option.isSome_iff_exists.mp given
    have present := (halfway.landed key member given).1.trans here
    have stepped := sweep_of_mem stable_removeStep ran
      ((halfway.mem_installed listed).mpr ⟨member, given⟩)
    obtain ⟨⟨members, rfl⟩, works, same⟩ :=
      (removeStep_eq_ok_iff present).mp stepped
    exact ⟨⟨members, here⟩, works, same⟩
  have kept (key : Str) (other : ¬(key ∈ before ∧ (staged key).isSome)) :
      final key = slots key := by
    apply sweep_of_not_mem ran
    rw [halfway.mem_installed listed]
    exact other
  refine ⟨fun key member given =>
    ⟨(step key member given).1, (step key member given).2.1⟩, ?_, ?_, ?_⟩
  · intro key member given
    rw [(step key member given).2.2]
  · intro key other
    rw [kept key other]
    exact (halfway.others key other).1
  · intro key
    by_cases here : key ∈ before ∧ (staged key).isSome
    · rw [(step key here.1 here.2).2.2]
      exact halfway.safety key
    · rw [kept key here]
      exact halfway.safety key

theorem Halfway.clears
    (halfway : Halfway root staged existing before part slots)
    (listed : ∀ name ∈ before, name ∈ components)
    (removed : ∀ name ∈ before, (staged name).isSome →
      (∃ members, staged name = some (.directory members)) ∧
        faults.remove name = none) :
    ∃ final, sweep (removeStep faults)
      (components.eraseDups.filter fun name => (slots name).installed)
        slots = .ok final := by
  apply sweep_isOk stable_removeStep
  intro key member
  obtain ⟨here, given⟩ := (halfway.mem_installed listed).mp member
  obtain ⟨⟨members, held⟩, works⟩ := removed key here given
  have present := (halfway.landed key here given).1.trans held
  exact ⟨_, (removeStep_eq_ok_iff present).mpr ⟨⟨members, rfl⟩, works, rfl⟩,
    .inr rfl⟩

/-- What a removal that fails leaves at the place of some component. -/
theorem Halfway.removal_stopped
    (halfway : Halfway root staged existing before part slots)
    (listed : ∀ name ∈ before, name ∈ components)
    (ran : sweep (removeStep faults) (components.eraseDups.filter fun name =>
      (slots name).installed) slots = .error final) :
    ∃ key, ((staged key).isSome ∧ (final key).root = staged key) ∨
      ∃ left, faults.remove key = some left ∧
        (final key).root = some left := by
  obtain ⟨first, key, rest, middle, slot, split, done, failed, rfl⟩ :=
    sweep_eq_error ran
  have member : key ∈ components.eraseDups.filter fun name =>
      (slots name).installed := by
    rw [split]
    exact List.mem_append_right _ List.mem_cons_self
  obtain ⟨here, given⟩ := (halfway.mem_installed listed).mp member
  obtain ⟨held, isHeld⟩ := Option.isSome_iff_exists.mp given
  have present := (halfway.landed key here given).1.trans isHeld
  refine ⟨key, ?_⟩
  rw [Function.update_self]
  by_cases earlier : key ∈ first
  · have stepped := sweep_of_mem stable_removeStep done earlier
    rw [((removeStep_eq_ok_iff present).mp stepped).2.2] at failed
    cases failed
  · rw [sweep_of_not_mem done earlier] at failed
    rcases removeStep_eq_error present failed with same | left
    · exact .inl ⟨given, same.trans isHeld.symm⟩
    · exact .inr left

/-- What a move back comes to where it finds nothing, or a file that it
replaces. -/
theorem backStep_of_harmless (faults : RestoreFaults) (name : Str)
    (saved : slot.safety = some held)
    (harmless : Harmless (some held) slot.root) :
    (faults.back name = none → backStep faults name slot =
      .ok { slot with safety := none, root := some held }) ∧
    ∀ fault, faults.back name = some fault → backStep faults name slot =
      .error { slot with
        safety := fault.left (some held), root := fault.there (some held) } := by
  obtain ⟨there, safety, staged, installed⟩ := slot
  cases saved
  obtain ⟨moved, fails⟩ := move_free name held there
    (landing_of_harmless harmless)
  unfold backStep
  dsimp only
  constructor
  · intro known
    rw [known, moved]
    rfl
  · intro fault known
    rw [known, fails]
    rfl

theorem Cleared.slot_of_mem
    (cleared : Cleared root staged existing before part slots)
    (member : name ∈ existing) (there : root name = some held)
    (harmless : ¬(name ∈ before ∧ (staged name).isSome) →
      Harmless (root name) (part name)) :
    (slots name).safety = some held ∧
      Harmless (some held) (slots name).root := by
  constructor
  · rw [cleared.safety, if_pos member, there]
  · by_cases here : name ∈ before ∧ (staged name).isSome
    · rw [cleared.landed name here.1 here.2]
      exact .inl rfl
    · rw [cleared.others name here, ← there]
      exact harmless here

/-- The part of a component that is left does not stand in the way of moving
back, and is right where nothing is moved back. -/
structure PartFits (root staged : Str → Option Held)
    (existing before : List Str) (part : Str → Option Held) : Prop where
  harmless : ∀ name ∈ existing, ¬(name ∈ before ∧ (staged name).isSome) →
    Harmless (root name) (part name)
  untouched : ∀ name, name ∉ existing →
    ¬(name ∈ before ∧ (staged name).isSome) → part name = root name

/-- What moving a component back comes to. -/
theorem Cleared.moves
    (cleared : Cleared root staged existing before part slots)
    (fits : PartFits root staged existing before part)
    (faults : RestoreFaults) (member : name ∈ existing)
    (there : (root name).isSome) :
    (∃ next, backStep faults name (slots name) = .ok next ∧
      next.root = root name) ∨
    ∃ fault failed, faults.back name = some fault ∧
      backStep faults name (slots name) = .error failed ∧
      failed.root = fault.there (root name) := by
  obtain ⟨held, here⟩ := Option.isSome_iff_exists.mp there
  obtain ⟨saved, fine⟩ :=
    cleared.slot_of_mem member here (fits.harmless name member)
  obtain ⟨moves, fails⟩ := backStep_of_harmless faults name saved fine
  rw [here]
  cases known : faults.back name with
  | none => exact .inl ⟨_, moves known, rfl⟩
  | some fault => exact .inr ⟨fault, _, rfl, fails fault known, rfl⟩

/-- Moving back restores everything. -/
theorem Cleared.restored
    (cleared : Cleared root staged existing before part slots)
    (nodup : existing.Nodup) (there : ∀ name ∈ existing, (root name).isSome)
    (free : ∀ name ∈ before, name ∉ existing → root name = none)
    (fits : PartFits root staged existing before part)
    (back : ∀ name ∈ existing.dropLast, faults.back name = none)
    (last : ∀ name ∈ existing.getLast?, ∀ fault,
      faults.back name = some fault → fault.there (root name) = root name) :
    (stateAfter (sweep (backStep faults) existing slots) name).root =
      root name := by
  have other (key : Str) (missing : key ∉ existing) :
      (slots key).root = root key := by
    by_cases here : key ∈ before ∧ (staged key).isSome
    · rw [cleared.landed key here.1 here.2, free key here.1 missing]
    · rw [cleared.others key here, fits.untouched key missing here]
  have step (key : Str) (member : key ∈ existing) (next : Slot)
      (stepped : backStep faults key (slots key) = .ok next) :
      next.root = root key := by
    rcases cleared.moves fits faults member (there key member) with
      ⟨_, moved, same⟩ | ⟨_, _, _, fails, _⟩
    · rw [stepped] at moved
      cases moved
      exact same
    · rw [stepped] at fails
      cases fails
  cases ran : sweep (backStep faults) existing slots with
  | ok final =>
      rw [stateAfter]
      by_cases member : name ∈ existing
      · exact step name member _ (sweep_of_mem stable_backStep ran member)
      · rw [sweep_of_not_mem ran member]
        exact other name member
  | error final =>
      rw [stateAfter]
      obtain ⟨first, key, rest, rfl, failed, done, kept⟩ :=
        sweep_stopped stable_backStep nodup ran
      have member : key ∈ first ++ key :: rest :=
        List.mem_append_right _ List.mem_cons_self
      rcases cleared.moves fits faults member (there key member) with
        ⟨_, moved, _⟩ | ⟨fault, _, known, fails, left⟩
      · rw [failed] at moved
        cases moved
      rw [failed] at fails
      cases fails
      cases rest with
      | cons second rest =>
          have inside : key ∈ (first ++ key :: second :: rest).dropLast := by
            rw [List.dropLast_append_of_ne_nil (List.cons_ne_nil _ _),
              List.dropLast_cons_of_ne_nil (List.cons_ne_nil _ _)]
            exact List.mem_append_right _ List.mem_cons_self
          rw [back key inside] at known
          cases known
      | nil =>
          by_cases same : name = key
          · subst same
            exact left.trans (last name (by simp) fault known)
          · by_cases earlier : name ∈ first
            · exact step name (List.mem_append_left _ earlier) _
                (done name earlier).2
            · rw [kept name earlier same]
              apply other name
              rw [List.mem_append, List.mem_singleton]
              tauto

theorem Halfway.restored
    (halfway : Halfway root staged existing before part slots)
    (listed : ∀ name ∈ before, name ∈ components)
    (nodup : existing.Nodup) (there : ∀ name ∈ existing, (root name).isSome)
    (free : ∀ name ∈ before, name ∉ existing → root name = none)
    (fits : PartFits root staged existing before part)
    (works : UndoWorks faults root staged existing before) :
    (stateAfter (undo faults components existing slots) name).root =
      root name := by
  obtain ⟨middle, ran⟩ := halfway.clears listed works.removed
  have cleared := (halfway.cleared listed ran).2
  unfold undo
  dsimp only
  rw [ran]
  exact cleared.restored nodup there free fits works.back works.last

/-- What a move back that ends with the right content was. -/
theorem backStep_restores (saved : slot.safety = some held)
    (stepped : backStep faults name slot = .ok next)
    (restored : next.root = some held) :
    faults.back name = none ∧ Harmless (some held) slot.root := by
  obtain ⟨there, safety, staged, installed⟩ := slot
  cases saved
  unfold backStep move at stepped
  dsimp only [Option.isSome_some] at stepped
  rw [if_pos rfl] at stepped
  cases known : faults.back name with
  | some fault =>
      cases lands : landing name held there with
      | none =>
          simp only [known, lands] at stepped
          cases stepped
      | some land =>
          simp only [known, lands] at stepped
          cases stepped
  | none =>
      refine ⟨rfl, ?_⟩
      cases lands : landing name held there with
      | none =>
          simp only [known, lands] at stepped
          cases stepped
      | some land =>
          simp only [known, lands] at stepped
          cases stepped
          cases there with
          | none => exact .inl rfl
          | some other =>
              cases other with
              | file file =>
                  cases held with
                  | directory members => cases lands
                  | file old => exact .inr ⟨file, old, rfl, rfl⟩
              | directory members =>
                  unfold landing at lands
                  dsimp only at lands
                  split at lands
                  · cases lands
                  · cases lands
                    exact absurd (Option.some.inj restored).symm
                      Held.ne_directory_append

/-- A move back that fails and yet ends with the right content. -/
theorem backStep_fails (saved : slot.safety = some held) {failed : Slot}
    (stopped : backStep faults name slot = .error failed)
    (restored : failed.root = some held)
    (unlike : slot.root ≠ some held)
    (nested : ∀ part members, faults.back name = some (.copying (some part)) →
      held ≠ .directory (members ++ [(name, part)])) :
    Harmless (some held) slot.root ∧
      ∀ fault, faults.back name = some fault →
        fault.there (some held) = some held := by
  obtain ⟨there, safety, staged, installed⟩ := slot
  cases saved
  unfold backStep move at stopped
  dsimp only [Option.isSome_some] at stopped unlike ⊢
  rw [if_pos rfl] at stopped
  cases lands : landing name held there with
  | none =>
      simp only [lands] at stopped
      cases stopped
      exact absurd restored unlike
  | some land =>
      cases known : faults.back name with
      | none =>
          simp only [known, lands] at stopped
          cases stopped
      | some fault =>
          simp only [known, lands] at stopped
          cases stopped
          cases there with
          | none =>
              cases lands
              refine ⟨.inl rfl, ?_⟩
              intro other same
              cases same
              exact restored
          | some other =>
              cases other with
              | file file =>
                  cases held with
                  | directory members => cases lands
                  | file old =>
                      cases lands
                      refine ⟨.inr ⟨file, old, rfl, rfl⟩, ?_⟩
                      intro other same
                      cases same
                      exact restored
              | directory members =>
                  unfold landing at lands
                  dsimp only at lands
                  split at lands
                  · cases lands
                  · cases lands
                    cases fault with
                    | removing left =>
                        exact absurd (Option.some.inj restored).symm
                          Held.ne_directory_append
                    | copying part =>
                        cases part with
                        | none =>
                            apply absurd _ unlike
                            rw [← restored]
                            simp [MoveFault.there]
                        | some part =>
                            exact absurd (Option.some.inj restored).symm
                              (nested part members known)

/-- What stands at a place before moving back is not what was there. -/
theorem Cleared.differs
    (cleared : Cleared root staged existing before part slots)
    (there : (root name).isSome)
    (unlike : ¬(name ∈ before ∧ (staged name).isSome) →
      (part name).isSome → part name ≠ root name) :
    (slots name).root ≠ root name := by
  by_cases here : name ∈ before ∧ (staged name).isSome
  · rw [cleared.landed name here.1 here.2]
    exact Option.ne_none_iff_isSome.mpr there |>.symm
  · rw [cleared.others name here]
    by_cases given : (part name).isSome
    · exact unlike here given
    · rw [Option.not_isSome_iff_eq_none.mp given]
      exact Option.ne_none_iff_isSome.mpr there |>.symm

/-- Nothing stood in the way of a move back that has restored a component. -/
theorem Cleared.harmless_of_restored
    (cleared : Cleared root staged existing before part slots)
    (member : name ∈ existing) (there : (root name).isSome)
    (stepped : backStep faults name (slots name) = .ok next)
    (restored : next.root = root name) :
    faults.back name = none ∧
      (¬(name ∈ before ∧ (staged name).isSome) →
        Harmless (root name) (part name)) := by
  obtain ⟨held, isHeld⟩ := Option.isSome_iff_exists.mp there
  have saved : (slots name).safety = some held := by
    rw [cleared.safety, if_pos member, isHeld]
  obtain ⟨works, harmless⟩ :=
    backStep_restores saved stepped (restored.trans isHeld)
  refine ⟨works, ?_⟩
  intro here
  rw [isHeld, ← cleared.others name here]
  exact harmless

/-- The same of the move back at which everything ends. -/
theorem Cleared.harmless_of_stopped
    (cleared : Cleared root staged existing before part slots)
    (member : name ∈ existing) (there : (root name).isSome) {failed : Slot}
    (stopped : backStep faults name (slots name) = .error failed)
    (restored : failed.root = root name)
    (unlike : (slots name).root ≠ root name)
    (nested : ∀ part members, faults.back name = some (.copying (some part)) →
      root name ≠ some (.directory (members ++ [(name, part)]))) :
    (¬(name ∈ before ∧ (staged name).isSome) →
      Harmless (root name) (part name)) ∧
    ∀ fault, faults.back name = some fault →
      fault.there (root name) = root name := by
  obtain ⟨held, isHeld⟩ := Option.isSome_iff_exists.mp there
  have saved : (slots name).safety = some held := by
    rw [cleared.safety, if_pos member, isHeld]
  rw [isHeld] at unlike nested ⊢
  obtain ⟨harmless, last⟩ := backStep_fails saved stopped
    (restored.trans isHeld) unlike (by
      rintro part members known rfl
      exact nested part members known rfl)
  refine ⟨?_, last⟩
  intro here
  rw [← cleared.others name here]
  exact harmless

/-- Where moving back has restored everything, nothing stood in its way. -/
theorem Cleared.works
    (cleared : Cleared root staged existing before part slots)
    (nodup : existing.Nodup) (there : ∀ name ∈ existing, (root name).isSome)
    (unlike : ∀ name, ¬(name ∈ before ∧ (staged name).isSome) →
      (part name).isSome → name ∈ existing → part name ≠ root name)
    (nested : ∀ name part members,
      faults.back name = some (.copying (some part)) →
        root name ≠ some (.directory (members ++ [(name, part)])))
    (restored : ∀ name,
      (stateAfter (sweep (backStep faults) existing slots) name).root =
        root name) :
    PartFits root staged existing before part ∧
    (∀ name ∈ existing.dropLast, faults.back name = none) ∧
    ∀ name ∈ existing.getLast?, ∀ fault, faults.back name = some fault →
      fault.there (root name) = root name := by
  have differs (key : Str) (member : key ∈ existing) :=
    cleared.differs (there key member) fun here given =>
      unlike key here given member
  cases ran : sweep (backStep faults) existing slots with
  | ok final =>
      rw [ran, stateAfter] at restored
      have each (key : Str) (member : key ∈ existing) :=
        cleared.harmless_of_restored member (there key member)
          (sweep_of_mem stable_backStep ran member) (restored key)
      refine ⟨⟨fun key member => (each key member).2, ?_⟩, ?_, ?_⟩
      · intro key missing here
        rw [← cleared.others key here, ← sweep_of_not_mem ran missing]
        exact restored key
      · intro key member
        exact (each key (List.dropLast_subset _ member)).1
      · intro key member fault known
        rw [(each key (List.mem_of_getLast? member)).1] at known
        cases known
  | error final =>
      rw [ran, stateAfter] at restored
      obtain ⟨first, key, rest, rfl, failed, done, kept⟩ :=
        sweep_stopped stable_backStep nodup ran
      have isLast : rest = [] := by
        apply List.eq_nil_iff_forall_not_mem.mpr
        intro later isLater
        have inside : later ∈ first ++ key :: rest :=
          List.mem_append_right _ (List.mem_cons_of_mem _ isLater)
        obtain ⟨-, whole, apart⟩ := List.nodup_append.mp nodup
        have differ : later ≠ key := by
          rintro rfl
          exact (List.nodup_cons.mp whole).1 isLater
        have absent : later ∉ first := fun earlier =>
          apart later earlier later (List.mem_cons_of_mem _ isLater) rfl
        have same := restored later
        rw [kept later absent differ] at same
        exact differs later inside same
      subst isLast
      have member : key ∈ first ++ [key] :=
        List.mem_append_right _ List.mem_cons_self
      obtain ⟨harmless, last⟩ := cleared.harmless_of_stopped member
        (there key member) failed (restored key) (differs key member)
        (nested key)
      have each (name : Str) (earlier : name ∈ first) :=
        cleared.harmless_of_restored (List.mem_append_left _ earlier)
          (there name (List.mem_append_left _ earlier)) (done name earlier).2
          (restored name)
      refine ⟨⟨?_, ?_⟩, ?_, ?_⟩
      · intro name inside here
        rcases List.mem_append.mp inside with earlier | same
        · exact (each name earlier).2 here
        · rw [List.mem_singleton.mp same] at here ⊢
          exact harmless here
      · intro name missing here
        rw [List.mem_append, List.mem_singleton, not_or] at missing
        rw [← cleared.others name here, ← kept name missing.1 missing.2]
        exact restored name
      · intro name inside
        rw [List.dropLast_concat] at inside
        exact (each name inside).1
      · intro name isLast
        rw [List.getLast?_concat] at isLast
        cases isLast
        exact last

theorem Halfway.works
    (halfway : Halfway root staged existing before part slots)
    (listed : ∀ name ∈ before, name ∈ components)
    (nodup : existing.Nodup) (there : ∀ name ∈ existing, (root name).isSome)
    (unlike : Unlike faults root staged)
    (parts : ∀ name, ¬(name ∈ before ∧ (staged name).isSome) →
      (part name).isSome → name ∈ existing → part name ≠ root name)
    (restored : ∀ name,
      (stateAfter (undo faults components existing slots) name).root =
        root name) :
    PartFits root staged existing before part ∧
      UndoWorks faults root staged existing before := by
  unfold undo at restored
  dsimp only at restored
  cases ran : sweep (removeStep faults) (components.eraseDups.filter
      fun name => (slots name).installed) slots with
  | error final =>
      rw [ran] at restored
      obtain ⟨key, left⟩ := halfway.removal_stopped listed ran
      have same : (final key).root = root key := restored key
      rcases left with ⟨given, isStaged⟩ | ⟨left, known, isLeft⟩
      · exact absurd (isStaged.symm.trans same) (unlike.staged key given)
      · exact absurd (same.symm.trans isLeft) (unlike.remove key left known)
  | ok middle =>
      rw [ran] at restored
      obtain ⟨removed, cleared⟩ := halfway.cleared listed ran
      obtain ⟨fits, back, last⟩ :=
        cleared.works nodup there parts unlike.back restored
      exact ⟨fits, removed, back, last⟩

end Undo

section Exchange

variable {asked : Bool} {root staged : Str → Option Held}
  {components : List Str} {slots final : Str → Slot}

private theorem isSome_of_existing (name : Str)
    (member : name ∈ existingOf root components) : (root name).isSome :=
  (List.mem_filter.mp member).2

private theorem root_of_missing (listed : name ∈ components)
    (missing : name ∉ existingOf root components) : root name = none := by
  cases here : root name with
  | none => rfl
  | some held =>
      apply absurd _ missing
      exact List.mem_filter.mpr ⟨listed, by rw [here]; rfl⟩

/-- The part of a component that a failed move has left. -/
def partOf (root staged : Str → Option Held) (existing : List Str)
    (stopped : Option (Str × MoveFault)) (name : Str) : Option Held :=
  match stopped with
  | some (key, fault) =>
      if name = key then fault.there (staged key)
      else (emptied root staged existing name).root
  | none => (emptied root staged existing name).root

theorem partOf_of_existing {existing : List Str}
    (member : name ∈ existing) :
    partOf root staged existing none name = none := by
  unfold partOf emptied
  dsimp only
  rw [if_pos member]

theorem partOf_of_other {existing : List Str} (missing : name ∉ existing) :
    partOf root staged existing none name = root name := by
  unfold partOf emptied
  dsimp only
  rw [if_neg missing]
  rfl

theorem partOf_of_ne {existing : List Str} {key : Str} {fault : MoveFault}
    (differ : name ≠ key) :
    partOf root staged existing (some (key, fault)) name =
      partOf root staged existing none name := by
  unfold partOf
  dsimp only
  rw [if_neg differ]

theorem partOf_self {existing : List Str} {key : Str} {fault : MoveFault} :
    partOf root staged existing (some (key, fault)) key =
      fault.there (staged key) := by
  unfold partOf
  dsimp only
  rw [if_pos rfl]

theorem halfway_placed (root staged : Str → Option Held)
    (existing before : List Str) :
    Halfway root staged existing before (partOf root staged existing none)
      (placed root staged existing before) := by
  refine ⟨?_, ?_, ?_⟩
  · intro name member given
    unfold placed
    dsimp only
    rw [if_pos ⟨member, given⟩]
    exact ⟨rfl, rfl⟩
  · intro name other
    unfold placed
    dsimp only
    rw [if_neg other]
    exact ⟨rfl, emptied_installed⟩
  · intro name
    unfold placed
    dsimp only
    split
    · exact emptied_safety
    · exact emptied_safety

theorem halfway_stopped {existing before : List Str} {key : Str}
    {fault : MoveFault} (new : key ∉ before)
    (there : (slots key).root = fault.there (staged key))
    (safety : (slots key).safety =
      (emptied root staged existing key).safety)
    (installed : (slots key).installed = false)
    (others : ∀ name, name ≠ key →
      slots name = placed root staged existing before name) :
    Halfway root staged existing before
      (partOf root staged existing (some (key, fault))) slots := by
  have whole := halfway_placed root staged existing before
  refine ⟨?_, ?_, ?_⟩
  · intro name member given
    have differ : name ≠ key := by
      rintro rfl
      exact new member
    rw [others name differ]
    exact whole.landed name member given
  · intro name other
    by_cases same : name = key
    · subst same
      rw [partOf_self]
      exact ⟨there, installed⟩
    · rw [others name same, partOf_of_ne same]
      exact whole.others name other
  · intro name
    by_cases same : name = key
    · subst same
      rw [safety, emptied_safety]
    · rw [others name same]
      exact whole.safety name

/-- A move to the place of a component that fails. -/
theorem install_stops (root : Str → Option Held) {before after : List Str} {key : Str}
    {fault : MoveFault} (split : components = before ++ key :: after)
    (lands : ∀ name ∈ before, Lands faults staged name)
    (given : (staged key).isSome) (known : faults.install key = some fault) :
    key ∉ before ∧ ∃ final, sweep (installStep faults) components
        (emptied root staged (existingOf root components)) = .error final ∧
      Halfway root staged (existingOf root components) before
        (partOf root staged (existingOf root components)
          (some (key, fault))) final := by
  have new : key ∉ before := by
    intro earlier
    rw [lands key earlier given] at known
    cases known
  have listed : ∀ name ∈ before, name ∈ components := by
    intro name member
    rw [split]
    exact List.mem_append_left _ member
  have isListed : key ∈ components := by
    rw [split]
    exact List.mem_append_right _ List.mem_cons_self
  have same : placed root staged (existingOf root components) before key =
      emptied root staged (existingOf root components) key := by
    unfold placed
    dsimp only
    exact if_neg fun landed => new landed.1
  cases stepped : installStep faults key
      (placed root staged (existingOf root components) before key) with
  | ok next =>
      rw [same] at stepped
      have fine := (installStep_eq_ok_iff (by rwa [emptied_staged])
        (emptied_root isListed)).mp stepped
      rw [known] at fine
      cases fine.1
  | error slot =>
      have ran := sweep_stops after
        (install_isOk listed lands) stepped
      rw [← split] at ran
      refine ⟨new, _, ran, ?_⟩
      rw [same] at stepped
      obtain ⟨-, other, sameFault, there, safety, installed⟩ :=
        installStep_eq_error (emptied_root isListed) stepped
      rw [known] at sameFault
      cases sameFault
      refine halfway_stopped new ?_ ?_ ?_ ?_
      · rw [Function.update_self, there, emptied_staged]
      · rw [Function.update_self, safety]
      · rw [Function.update_self, installed, emptied_installed]
      · intro name differ
        rw [Function.update_of_ne differ]

theorem deploy_of_leaves (leaves : LeavesComponents faults) :
    deploy faults asked slots =
      if asked = true ∧ faults.deployment.isSome then .error slots
      else .ok slots := by
  unfold deploy
  cases asked with
  | false => simp
  | true =>
      cases known : faults.deployment with
      | none => simp
      | some effect =>
          simp only [Option.isSome_some, and_self, if_true]
          congr 1
          funext name
          rw [leaves effect known]

theorem undo_placed {before : List Str}
    (listed : ∀ name ∈ before, name ∈ components)
    (nodup : (existingOf root components).Nodup)
    (works : UndoWorks faults root staged (existingOf root components)
      before) :
    (stateAfter (undo faults components (existingOf root components)
      (placed root staged (existingOf root components) before)) name).root =
        root name := by
  refine (halfway_placed _ _ _ _).restored listed nodup isSome_of_existing
    (fun name member => root_of_missing (listed name member)) ⟨?_, ?_⟩ works
  · intro name member _
    exact .inl (partOf_of_existing member)
  · intro name missing _
    exact partOf_of_other missing

theorem aside_stops (staged : Str → Option Held) {existing : List Str} {fault : MoveFault}
    (first : name ∈ existing.head?) (there : (root name).isSome)
    (known : faults.aside name = some fault) :
    ∃ final, sweep (asideStep faults) existing (startSlots root staged) =
        .error final ∧
      (final name).root = fault.left (root name) ∧
      ∀ other, other ≠ name → (final other).root = root other := by
  obtain ⟨held, here⟩ := Option.isSome_iff_exists.mp there
  cases existing with
  | nil => cases first
  | cons head rest =>
      cases first
      obtain ⟨-, fails⟩ := move_free name held none rfl
      have stopped : asideStep faults name (startSlots root staged name) =
          .error { startSlots root staged name with
            root := fault.left (some held), safety := fault.there (some held) }
          := by
        unfold asideStep startSlots
        dsimp only
        rw [known, here, fails]
      refine ⟨_, by rw [sweep, stopped], ?_, ?_⟩
      · rw [Function.update_self, here]
      · intro other differ
        rw [Function.update_of_ne differ]
        rfl

/-- The loop over the components and the copy of the deployment. -/
theorem exchange_of_aside (aside : sweep (asideStep faults)
      (existingOf root components) (startSlots root staged) =
        .ok (emptied root staged (existingOf root components))) :
    exchange faults asked components (existingOf root components)
        (startSlots root staged) =
      finish faults components (existingOf root components)
        (sweep (installStep faults) components
          (emptied root staged (existingOf root components)) >>=
            deploy faults asked) := by
  unfold exchange
  rw [aside]
  rfl

theorem exchange_of_install (aside : sweep (asideStep faults)
      (existingOf root components) (startSlots root staged) =
        .ok (emptied root staged (existingOf root components)))
    (installed : sweep (installStep faults) components
      (emptied root staged (existingOf root components)) = .ok slots) :
    exchange faults asked components (existingOf root components)
        (startSlots root staged) =
      finish faults components (existingOf root components)
        (deploy faults asked slots) := by
  rw [exchange_of_aside aside, installed]
  rfl

theorem exchange_of_stopped (aside : sweep (asideStep faults)
      (existingOf root components) (startSlots root staged) =
        .ok (emptied root staged (existingOf root components)))
    (stopped : sweep (installStep faults) components
      (emptied root staged (existingOf root components)) = .error slots) :
    exchange faults asked components (existingOf root components)
        (startSlots root staged) =
      .error (stateAfter
        (undo faults components (existingOf root components) slots)) := by
  rw [exchange_of_aside aside, stopped]
  rfl

theorem deploy_of_works
    (works : ¬(asked = true ∧ faults.deployment.isSome)) :
    deploy faults asked slots = .ok slots := by
  unfold deploy
  split
  · rename_i effect known
    exact absurd ⟨rfl, by rw [known]; rfl⟩ works
  · rfl

/-- A failure after everything was moved aside. -/
theorem unchanged_of_follows
    (follows : Follows faults asked root staged components
      (existingOf root components))
    (failed : exchange faults asked components (existingOf root components)
      (startSlots root staged) = .error final) :
    (final name).root = root name := by
  have aside := aside_isOk staged isSome_of_existing follows.nodup
    follows.aside
  cases ran : sweep (installStep faults) components
      (emptied root staged (existingOf root components)) with
  | error slots =>
      rw [exchange_of_stopped aside ran] at failed
      cases failed
      obtain ⟨before, key, after, fault, split, lands, given, known⟩ :=
        install_eq_error ran
      obtain ⟨-, stopped, sameRun, halfway⟩ :=
        install_stops root split lands given known
      rw [ran] at sameRun
      cases sameRun
      have listed : ∀ name ∈ before, name ∈ components := by
        intro name member
        rw [split]
        exact List.mem_append_left _ member
      have isListed : key ∈ components := by
        rw [split]
        exact List.mem_append_right _ List.mem_cons_self
      obtain ⟨harmless, works⟩ :=
        follows.install before key after fault split lands given known
      refine halfway.restored listed follows.nodup isSome_of_existing
        (fun name member => root_of_missing (listed name member))
        ⟨?_, ?_⟩ works
      · intro name member _
        by_cases same : name = key
        · rw [same, partOf_self]
          exact harmless
        · rw [partOf_of_ne same]
          exact .inl (partOf_of_existing member)
      · intro name missing _
        by_cases same : name = key
        · subst same
          have absent := root_of_missing isListed missing
          rw [partOf_self, absent]
          rw [absent] at harmless
          rcases harmless with nothing | ⟨file, other, -, isFile⟩
          · exact nothing
          · cases isFile
        · rw [partOf_of_ne same]
          exact partOf_of_other missing
  | ok slots =>
      obtain ⟨lands, rfl⟩ := install_eq_ok (fun name member => member) ran
      rw [exchange_of_install aside ran] at failed
      by_cases fails : asked = true ∧ faults.deployment.isSome
      · obtain ⟨leaves, works⟩ := follows.deploy lands fails.1 fails.2
        rw [deploy_of_leaves leaves, if_pos fails] at failed
        cases failed
        exact undo_placed (fun name member => member) follows.nodup works
      · rw [deploy_of_works fails, finish] at failed
        split at failed
        · rename_i broken
          cases failed
          have nothing := follows.cleanup lands (fun isAsked => by
            cases known : faults.deployment with
            | none => rfl
            | some effect =>
                exact absurd ⟨isAsked, by rw [known]; rfl⟩ fails) broken
          by_cases member : name ∈ components
          · obtain ⟨missing, unstaged⟩ := nothing name member
            have skipped : ¬(name ∈ components ∧ (staged name).isSome) := by
              rw [unstaged]
              exact fun given => Bool.false_ne_true given.2
            rw [((halfway_placed _ _ _ _).others name skipped).1]
            apply partOf_of_other
            intro existing
            have there := isSome_of_existing name existing
            rw [missing] at there
            cases there
          · have skipped : ¬(name ∈ components ∧ (staged name).isSome) :=
              fun given => member given.1
            rw [((halfway_placed _ _ _ _).others name skipped).1]
            apply partOf_of_other
            exact fun existing => member (List.mem_of_mem_filter existing)
        · cases failed

theorem unchanged_of_reversible
    (reversible : Reversible faults asked root staged components)
    (failed : exchange faults asked components (existingOf root components)
      (startSlots root staged) = .error final) :
    (final name).root = root name := by
  rcases reversible with ⟨first, isFirst, fault, known, left⟩ | follows
  · have there := isSome_of_existing first
      (List.mem_of_mem_head? isFirst)
    obtain ⟨slots, ran, here, others⟩ :=
      aside_stops staged isFirst there known
    unfold exchange at failed
    rw [ran] at failed
    cases failed
    by_cases same : name = first
    · rw [same, here, left]
    · exact others name same
  · exact unchanged_of_follows follows failed

theorem aside_of_unchanged
    (unchanged : ∀ final, exchange faults asked components
      (existingOf root components) (startSlots root staged) = .error final →
        ∀ name, (final name).root = root name)
    (stays : ¬∃ name ∈ (existingOf root components).head?, ∃ fault,
      faults.aside name = some fault ∧
        fault.left (root name) = root name) :
    ∃ slots, sweep (asideStep faults) (existingOf root components)
      (startSlots root staged) = .ok slots := by
  cases ran : sweep (asideStep faults) (existingOf root components)
      (startSlots root staged) with
  | ok slots => exact ⟨slots, rfl⟩
  | error final =>
      have same := unchanged final (by
        unfold exchange
        rw [ran]
        rfl)
      rcases aside_eq_error isSome_of_existing ran with
        ⟨first, isFirst, fault, known, left, -⟩ | ⟨gone, member, missing⟩
      · exact absurd ⟨first, isFirst, fault, known,
          left.symm.trans (same first)⟩ stays
      · have there := isSome_of_existing gone member
        rw [← same gone, missing] at there
        cases there

theorem install_of_unchanged (unlike : Unlike faults root staged)
    (nodup : (existingOf root components).Nodup)
    {before after : List Str} {key : Str} {fault : MoveFault}
    (split : components = before ++ key :: after)
    (given : (staged key).isSome) (known : faults.install key = some fault)
    (new : key ∉ before)
    (halfway : Halfway root staged (existingOf root components) before
      (partOf root staged (existingOf root components) (some (key, fault)))
      slots)
    (restored : ∀ name, (stateAfter (undo faults components
      (existingOf root components) slots) name).root = root name) :
    Harmless (root key) (fault.there (staged key)) ∧
      UndoWorks faults root staged (existingOf root components) before := by
  have listed : ∀ name ∈ before, name ∈ components := by
    intro name member
    rw [split]
    exact List.mem_append_left _ member
  have here : ¬(key ∈ before ∧ (staged key).isSome) :=
    fun landed => new landed.1
  obtain ⟨⟨harmless, untouched⟩, works⟩ :=
    halfway.works listed nodup isSome_of_existing unlike (by
      intro name _ there member
      by_cases same : name = key
      · subst same
        rw [partOf_self] at there ⊢
        cases fault with
        | removing left => exact unlike.staged name given
        | copying part =>
            cases part with
            | none => cases there
            | some part => exact (unlike.install name part known).symm
      · rw [partOf_of_ne same, partOf_of_existing member] at there
        cases there) restored
  refine ⟨?_, works⟩
  by_cases member : key ∈ existingOf root components
  · have fine := harmless key member here
    rw [partOf_self] at fine
    exact fine
  · have same := untouched key member here
    have isListed : key ∈ components := by
      rw [split]
      exact List.mem_append_right _ List.mem_cons_self
    rw [partOf_self, root_of_missing isListed member] at same
    exact .inl same

/-- Where a failure leaves everything as it was, the condition holds, unless
something is by chance what was there before. -/
theorem reversible_of_unchanged (unlike : Unlike faults root staged)
    (unchanged : ∀ final, exchange faults asked components
      (existingOf root components) (startSlots root staged) = .error final →
        ∀ name, (final name).root = root name) :
    Reversible faults asked root staged components := by
  by_cases stays : ∃ name ∈ (existingOf root components).head?, ∃ fault,
      faults.aside name = some fault ∧ fault.left (root name) = root name
  · exact .inl stays
  · right
    obtain ⟨slots, ran⟩ := aside_of_unchanged unchanged stays
    obtain ⟨nodup, aside, rfl⟩ := aside_eq_ok ran
    refine ⟨nodup, aside, ?_, ?_, ?_⟩
    · intro before key after fault split lands given known
      obtain ⟨new, slots, stopped, halfway⟩ :=
        install_stops root split lands given known
      exact install_of_unchanged unlike nodup split given known new halfway
        (unchanged _ (exchange_of_stopped ran stopped))
    · intro lands isAsked fails
      refine ⟨unlike.deployment, ?_⟩
      have stopped : exchange faults asked components
          (existingOf root components) (startSlots root staged) =
            .error (stateAfter (undo faults components
              (existingOf root components) (placed root staged
                (existingOf root components) components))) := by
        rw [exchange_of_install ran
          (install_isOk (fun name member => member) lands),
          deploy_of_leaves unlike.deployment, if_pos ⟨isAsked, fails⟩]
        rfl
      refine ((halfway_placed _ _ _ _).works (fun name member => member) nodup
        isSome_of_existing unlike ?_ (unchanged _ stopped)).2
      intro name _ there member
      rw [partOf_of_existing member] at there
      cases there
    · intro lands works broken name member
      have fine : ¬(asked = true ∧ faults.deployment.isSome) := by
        intro fails
        have given := fails.2
        rw [works fails.1] at given
        cases given
      have ended : exchange faults asked components
          (existingOf root components) (startSlots root staged) =
            .error (placed root staged (existingOf root components)
              components) := by
        rw [exchange_of_install ran
          (install_isOk (fun name member => member) lands),
          deploy_of_works fine]
        exact if_pos broken
      have same := unchanged _ ended name
      by_cases given : (staged name).isSome
      · rw [((halfway_placed _ _ _ _).landed name member given).1] at same
        exact absurd same (unlike.staged name given)
      · have skipped : ¬(name ∈ components ∧ (staged name).isSome) :=
          fun here => given here.2
        rw [((halfway_placed _ _ _ _).others name skipped).1] at same
        refine ⟨?_, Option.not_isSome_iff_eq_none.mp given⟩
        by_cases existing : name ∈ existingOf root components
        · rw [← same]
          exact partOf_of_existing existing
        · exact root_of_missing member existing

end Exchange

section Command

variable (verifier : Verifier) (order : List Str → List Str)
  (infos : List ZipInfo) (root : Str → Option Held) (options : RestoreOptions)
  (faults : RestoreFaults)

/-- When the command fails, all components are what they were. -/
def FailsUnchanged : Prop :=
  ∀ failure after,
    restoreBackup verifier order infos root options faults =
      .error (failure, after) →
    ∀ name, after name = root name

/-- What is moved after the checks can be moved back where it fails. -/
def FailsReversibly : Prop :=
  ∀ prepared, prepare verifier order infos root options faults = .ok prepared →
    Reversible faults (options.deploymentOut && hasDeployment prepared.tree)
      root (stagedComponent prepared.tree) prepared.components

/-- Nothing in the archive, and nothing that is left by a failure, is by chance
what there was of a component. -/
def UnlikeBefore : Prop :=
  ∀ prepared, prepare verifier order infos root options faults = .ok prepared →
    Unlike faults root (stagedComponent prepared.tree)

/-- A failed restore leaves the components as they were if every move that it
has made can be undone, and only then but for coincidences of contents. -/
theorem failed_restores_change_nothing :
    (FailsReversibly verifier order infos root options faults →
      FailsUnchanged verifier order infos root options faults) ∧
    (UnlikeBefore verifier order infos root options faults →
      FailsUnchanged verifier order infos root options faults →
      FailsReversibly verifier order infos root options faults) := by
  constructor
  · intro reversible failure after failed name
    unfold restoreBackup at failed
    cases checked : prepare verifier order infos root options faults with
    | error reason =>
        rw [checked] at failed
        cases failed
        rfl
    | ok prepared =>
        rw [checked] at failed
        dsimp only at failed
        split at failed
        · rename_i slots stopped
          cases failed
          exact unchanged_of_reversible (reversible prepared checked) stopped
        · cases failed
  · intro unlike unchanged prepared checked
    apply reversible_of_unchanged (unlike prepared checked)
    intro final stopped
    refine unchanged .unreadable (fun name => (final name).root) ?_
    unfold restoreBackup
    rw [checked]
    dsimp only
    rw [stopped]

end Command

/-- What is seen of the components after a failure. -/
def seenAfter {α : Type} (look : (Str → Option Held) → α) :
    Except (Failure × (Str → Option Held))
      (List Str × (Str → Option Held)) → Option α
  | .error (_, after) => some (look after)
  | .ok _ => none

private theorem not_failsUnchanged {verifier : Verifier}
    {order : List Str → List Str} {infos : List ZipInfo}
    {root : Str → Option Held} {options : RestoreOptions}
    {faults : RestoreFaults} {α : Type} (look : (Str → Option Held) → α)
    (seen : α) (looks : seenAfter look
      (restoreBackup verifier order infos root options faults) = some seen)
    (differ : look root ≠ seen) :
    ¬FailsUnchanged verifier order infos root options faults := by
  intro unchanged
  cases ran : restoreBackup verifier order infos root options faults with
  | ok result =>
      rw [ran] at looks
      cases looks
  | error stopped =>
      obtain ⟨failure, after⟩ := stopped
      rw [ran] at looks
      cases looks
      apply differ
      rw [funext (unchanged failure after ran)]

/-- A backup of two components. -/
def twoComponents : List ZipInfo :=
  let members := [("state/evidence/a", 0x78), ("state/knowledge/a", 0x78)]
  Upgrade.Extraction.archiveOf "BACKUP-MANIFEST.json" members
    [(str "schema", .string (str "ppc-lab-backup-v1")),
      (str "components",
        .array [.string (str "evidence"), .string (str "knowledge")]),
      (str "files", .array (members.map Upgrade.Extraction.entryOf)),
      (str "policy", .object
        [(str "target_binaries_copied", .bool false),
          (str "api_secrets_copied", .bool false)])]

/-- Both components are there, with a file of their own. -/
def olderState (name : Str) : Option Held :=
  if name ∈ [str "evidence", str "knowledge"] then
    some (.directory [(str "old", .file ⟨[0x79], 0o644, false⟩)])
  else none

def noRestoreFaults : RestoreFaults where
  stateRoot := false
  safety := false
  aside _ := none
  install _ := none
  remove _ := none
  back _ := none
  deployment := none
  cleanup := false

/-- The second component cannot be moved aside. -/
def stuckKnowledge : RestoreFaults :=
  { noRestoreFaults with
    aside := fun name =>
      if name = str "knowledge" then some (.copying none) else none }

/-- The first component is copied in part. -/
def halfEvidence : RestoreFaults :=
  { noRestoreFaults with
    install := fun name =>
      if name = str "evidence" then some (.copying (some (.directory [])))
      else none }

/-- The names in a directory. -/
def Held.names : Held → List Str
  | .file _ => []
  | .directory members => members.map Prod.fst

/-- The first component stays away, or ends below the part of it that was
copied. -/
theorem failed_restore_loses_component :
    ¬FailsUnchanged Upgrade.Extraction.asciiVerifier id twoComponents
        olderState ⟨true, false⟩ stuckKnowledge ∧
      ¬FailsUnchanged Upgrade.Extraction.asciiVerifier id twoComponents
        olderState ⟨true, false⟩ halfEvidence := by
  constructor
  · exact not_failsUnchanged (fun after => (after (str "evidence")).isSome)
      false (by decide +kernel) (by decide)
  · exact not_failsUnchanged
      (fun after => (after (str "evidence")).map Held.names)
      (some [str "evidence"]) (by decide +kernel) (by decide)

end PpcLab.Backup
