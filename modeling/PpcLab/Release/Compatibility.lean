import PpcLab.Explore.Evaluate

/-!
# Compatibility declarations

A release declares its public surface: the levels of its interfaces, the names
of its schemas and tools, and the formats it persists.  An upgrade and the
release check both hold a declaration against an older one.  Only the release
check counts a level that neither of them states as a difference.
-/

namespace PpcLab.Release

open Explore (isAmong isAmong_iff sortedSet)

/-- The levels that have to be equal. -/
inductive Level where
  | platformMajor
  | cppApi
  | cppAbi
  | targetProfileApi
  | releaseApi
  | compatibilityApi
  deriving DecidableEq

/-- The levels of the interfaces, in the order in which they are compared. -/
def apiLevels : List Level :=
  [.cppApi, .cppAbi, .targetProfileApi, .releaseApi, .compatibilityApi]

def Level.key : Level → Str
  | .platformMajor => str "platform_major"
  | .cppApi => str "cpp_api"
  | .cppAbi => str "cpp_abi"
  | .targetProfileApi => str "target_profile_api"
  | .releaseApi => str "release_api"
  | .compatibilityApi => str "compatibility_api"

/-- The lists of names, none of which may be dropped. -/
inductive Surface where
  | schemas
  | installedTools
  deriving DecidableEq

def surfaces : List Surface :=
  [.schemas, .installedTools]

def Surface.key : Surface → Str
  | .schemas => str "schemas"
  | .installedTools => str "installed_tools"

/-- Formats and their levels. -/
abbrev Formats :=
  Keyed (Prod.fst : Str × Int → Str)

/-- A declaration, of which every member may be missing. -/
structure Snapshot where
  schema : Option Str
  level : Level → Option Int
  names : Surface → Option (List Str)
  persistedFormats : Option Formats

namespace Snapshot

def namesOf (snapshot : Snapshot) (surface : Surface) : List Str :=
  (snapshot.names surface).getD []

def formats (snapshot : Snapshot) : Formats :=
  snapshot.persistedFormats.getD .empty

end Snapshot

def snapshotSchema : Str :=
  str "ppc-lab-compatibility-snapshot-v1"

/-- A level as it is printed. -/
def printed : Option Int → Str
  | none => str "None"
  | some value => str (Text.signedDecimal value)

/-- `sorted(set(required) - set(present))` -/
def missingNames (required present : List Str) : List Str :=
  sortedSet (required.filter fun name => !isAmong present name)

def commaJoined (names : List Str) : Str :=
  (str ", ").intercalate names

def levelErrors (incoming current : Snapshot) (level : Level) : List Str :=
  if incoming.level level ≠ current.level level then
    [level.key ++ str " differs current=" ++ printed (current.level level) ++
      str " incoming=" ++ printed (incoming.level level)]
  else []

def surfaceErrors (message : Str) (later earlier : Snapshot)
    (surface : Surface) : List Str :=
  let missing := missingNames (earlier.namesOf surface) (later.namesOf surface)
  if missing ≠ [] then [message ++ surface.key ++ str ": " ++ commaJoined missing]
  else []

/-- A format against the formats that have to hold it. -/
def heldErrors (formats : Formats) (entry : Str × Int) (absent : Str)
    (lower : Int → Str) : List Str :=
  match formats.lookup entry.1 with
  | none => [absent]
  | some (_, level) => if level < entry.2 then [lower level] else []

def regressErrors (incoming : Snapshot) (entry : Str × Int) : List Str :=
  let message := str "incoming persisted format regresses " ++ entry.1
  heldErrors incoming.formats entry message fun _ => message

/-- The gate of an upgrade. -/
def compatErrors (incoming current : Snapshot) : List Str :=
  if incoming.schema ≠ some snapshotSchema then
    [str "incoming release has no supported compatibility declaration"]
  else
    (if incoming.level .platformMajor ≠ current.level .platformMajor then
      [str "platform major differs"] else []) ++
    apiLevels.flatMap (levelErrors incoming current) ++
    surfaces.flatMap
      (surfaceErrors (str "incoming release removes stable ") incoming current) ++
    current.formats.entries.flatMap (regressErrors incoming)

/-- A level is missing in two different ways. -/
def changed (current baseline : Snapshot) (level : Level) : Bool :=
  (current.level level).getD (-1) != (baseline.level level).getD (-2)

def changeErrors (current baseline : Snapshot) (level : Level) : List Str :=
  if changed current baseline level then
    [level.key ++ str " changed: baseline=" ++ printed (baseline.level level) ++
      str " current=" ++ printed (current.level level)]
  else []

def downgradeErrors (current : Snapshot) (entry : Str × Int) : List Str :=
  heldErrors current.formats entry
    (str "missing persisted format declaration: " ++ entry.1)
    fun level => str "persisted format downgraded: " ++ entry.1 ++
      str " baseline=" ++ printed (some entry.2) ++ str " current=" ++
      printed (some level)

/-- The gate of the release check. -/
def compare (current baseline : Snapshot) : List Str :=
  (if baseline.schema ≠ some snapshotSchema then
    [str "baseline schema must be " ++ snapshotSchema] else []) ++
  (if changed current baseline .platformMajor then
    [str "platform major changed"] else []) ++
  apiLevels.flatMap (changeErrors current baseline) ++
  surfaces.flatMap (surfaceErrors (str "missing stable ") current baseline) ++
  baseline.formats.entries.flatMap (downgradeErrors current)

/-- A declaration as its schema describes it, except that members may be
missing. -/
structure Declaration extends Snapshot where
  isSnapshot : schema = some snapshotSchema
  minimum : ∀ field value, level field = some value → 1 ≤ value

/-- Everything but the levels is kept. -/
structure Keeps (later earlier : Snapshot) : Prop where
  names : ∀ surface, ∀ name ∈ earlier.namesOf surface,
    name ∈ later.namesOf surface
  formats : ∀ entry ∈ earlier.formats.entries, ∃ level,
    later.formats.lookup entry.1 = some (entry.1, level) ∧ entry.2 ≤ level

theorem Keeps.refl (snapshot : Snapshot) : Keeps snapshot snapshot where
  names _ _ member := member
  formats entry member := ⟨entry.2, Keyed.lookup_of_mem member, le_refl _⟩

theorem Keeps.trans {latest later earlier : Snapshot}
    (second : Keeps latest later) (first : Keeps later earlier) :
    Keeps latest earlier where
  names surface name member :=
    second.names surface name (first.names surface name member)
  formats entry member := by
    obtain ⟨level, found, atLeast⟩ := first.formats entry member
    obtain ⟨newest, foundAgain, more⟩ :=
      second.formats (entry.1, level) (Keyed.mem_of_lookup found)
    exact ⟨newest, foundAgain, le_trans atLeast more⟩

theorem missingNames_eq_nil {required present : List Str} :
    missingNames required present = [] ↔
      ∀ name ∈ required, name ∈ present := by
  have sorted : missingNames required present = [] ↔
      required.filter (fun name => !isAmong present name) = [] := by
    constructor
    · intro none
      have length := congrArg List.length none
      rw [missingNames, sortedSet, List.length_insertionSort] at length
      exact List.dedup_eq_nil _ |>.mp (List.length_eq_zero_iff.mp length)
    · intro none
      rw [missingNames, none]
      rfl
  rw [sorted, List.filter_eq_nil_iff]
  simp [isAmong_iff]

private theorem surfaceErrors_eq_nil {message : Str} {later earlier : Snapshot}
    {surface : Surface} :
    surfaceErrors message later earlier surface = [] ↔
      ∀ name ∈ earlier.namesOf surface, name ∈ later.namesOf surface := by
  rw [← missingNames_eq_nil, surfaceErrors]
  simp

private theorem surfaces_eq_nil {message : Str} {later earlier : Snapshot} :
    surfaces.flatMap (surfaceErrors message later earlier) = [] ↔
      ∀ surface, ∀ name ∈ earlier.namesOf surface,
        name ∈ later.namesOf surface := by
  rw [List.flatMap_eq_nil_iff]
  constructor
  · intro none surface
    apply surfaceErrors_eq_nil.mp
    apply none
    cases surface with
    | schemas => exact List.mem_cons_self
    | installedTools => exact List.mem_cons_of_mem _ List.mem_cons_self
  · intro kept surface _
    exact surfaceErrors_eq_nil.mpr (kept surface)

private theorem heldErrors_eq_nil {formats : Formats} {entry : Str × Int}
    {absent : Str} {lower : Int → Str} :
    heldErrors formats entry absent lower = [] ↔ ∃ level,
      formats.lookup entry.1 = some (entry.1, level) ∧ entry.2 ≤ level := by
  rw [heldErrors]
  cases found : formats.lookup entry.1 with
  | none =>
      constructor
      · intro impossible
        cases impossible
      · intro ⟨_, impossible, _⟩
        cases impossible
  | some other =>
      obtain ⟨key, level⟩ := other
      have sameKey : key = entry.1 := Keyed.key_of_lookup found
      subst sameKey
      constructor
      · intro empty
        refine ⟨level, rfl, ?_⟩
        by_contra less
        dsimp only at empty
        rw [if_pos (not_le.mp less)] at empty
        cases empty
      · intro ⟨_, same, atLeast⟩
        cases same
        exact if_neg (not_lt.mpr atLeast)

/-- What both gates ask of the rest of a declaration. -/
private theorem keeps_iff {message : Str} {later earlier : Snapshot}
    {absent : Str × Int → Str} {lower : Str × Int → Int → Str} :
    surfaces.flatMap (surfaceErrors message later earlier) = [] ∧
        earlier.formats.entries.flatMap (fun entry =>
          heldErrors later.formats entry (absent entry) (lower entry)) = [] ↔
      Keeps later earlier := by
  rw [surfaces_eq_nil, List.flatMap_eq_nil_iff]
  constructor
  · intro ⟨names, formats⟩
    exact ⟨names, fun entry member => heldErrors_eq_nil.mp (formats entry member)⟩
  · intro ⟨names, formats⟩
    exact ⟨names, fun entry member => heldErrors_eq_nil.mpr (formats entry member)⟩

private theorem levels_iff {claimed : Level → Prop} :
    (claimed .platformMajor ∧ ∀ level ∈ apiLevels, claimed level) ↔
      ∀ level, claimed level := by
  constructor
  · intro ⟨major, others⟩ level
    cases level with
    | platformMajor => exact major
    | cppApi => exact others _ (by simp [apiLevels])
    | cppAbi => exact others _ (by simp [apiLevels])
    | targetProfileApi => exact others _ (by simp [apiLevels])
    | releaseApi => exact others _ (by simp [apiLevels])
    | compatibilityApi => exact others _ (by simp [apiLevels])
  · intro all
    exact ⟨all _, fun level _ => all level⟩

private theorem ite_eq_nil {condition : Prop} [Decidable condition]
    {message : Str} :
    (if condition then [message] else []) = [] ↔ ¬condition := by
  by_cases held : condition <;> simp [held]

/-- The upgrade gate asks for equal levels. -/
theorem compatErrors_eq_nil {incoming current : Snapshot}
    (declared : incoming.schema = some snapshotSchema) :
    compatErrors incoming current = [] ↔
      (∀ level, incoming.level level = current.level level) ∧
        Keeps incoming current := by
  rw [compatErrors, if_neg (not_not.mpr declared), List.append_eq_nil_iff,
    List.append_eq_nil_iff, List.append_eq_nil_iff, and_assoc]
  apply and_congr _ keeps_iff
  rw [← levels_iff, List.flatMap_eq_nil_iff, ite_eq_nil, not_not]
  apply and_congr_right
  intro _
  apply forall₂_congr
  intro level _
  rw [levelErrors, ite_eq_nil, not_not]

/-- The release check asks for levels that are not counted as changed. -/
theorem compare_eq_nil {current baseline : Snapshot}
    (declared : baseline.schema = some snapshotSchema) :
    compare current baseline = [] ↔
      (∀ level, changed current baseline level = false) ∧
        Keeps current baseline := by
  rw [compare, if_neg (not_not.mpr declared), List.nil_append,
    List.append_eq_nil_iff, List.append_eq_nil_iff, List.append_eq_nil_iff,
    and_assoc]
  apply and_congr _ keeps_iff
  rw [← levels_iff, List.flatMap_eq_nil_iff, ite_eq_nil, Bool.not_eq_true]
  apply and_congr_right
  intro _
  apply forall₂_congr
  intro level _
  rw [changeErrors, ite_eq_nil, Bool.not_eq_true]

namespace Declaration

def Accepted (incoming current : Declaration) : Prop :=
  compatErrors incoming.toSnapshot current.toSnapshot = []

def Checked (incoming current : Declaration) : Prop :=
  compare incoming.toSnapshot current.toSnapshot = []

/-- A declaration states a level. -/
def States (declaration : Declaration) (level : Level) : Prop :=
  declaration.level level ≠ none

theorem changed_eq_false (later earlier : Declaration) (level : Level) :
    changed later.toSnapshot earlier.toSnapshot level = false ↔
      later.level level = earlier.level level ∧
        (later.States level ∨ earlier.States level) := by
  have above := later.minimum level
  have aboveEarlier := earlier.minimum level
  unfold changed States
  cases newer : later.level level with
  | none =>
      cases older : earlier.level level with
      | none => simp
      | some value =>
          have positive := aboveEarlier value older
          simp only [Option.getD_none, Option.getD_some, bne_eq_false_iff_eq,
            reduceCtorEq, false_and, iff_false]
          omega
  | some value =>
      have positive := above value newer
      cases older : earlier.level level with
      | none =>
          simp only [Option.getD_none, Option.getD_some, bne_eq_false_iff_eq,
            reduceCtorEq, false_and, iff_false]
          omega
      | some other => simp

theorem accepted_iff (later earlier : Declaration) :
    later.Accepted earlier ↔
      (∀ level, later.level level = earlier.level level) ∧
        Keeps later.toSnapshot earlier.toSnapshot :=
  compatErrors_eq_nil later.isSnapshot

theorem checked_iff (later earlier : Declaration) :
    later.Checked earlier ↔ later.Accepted earlier ∧
      ∀ level, later.States level ∨ earlier.States level := by
  rw [Checked, compare_eq_nil earlier.isSnapshot, accepted_iff]
  simp only [changed_eq_false]
  constructor
  · intro ⟨levels, kept⟩
    exact ⟨⟨fun level => (levels level).1, kept⟩, fun level => (levels level).2⟩
  · intro ⟨⟨levels, kept⟩, stated⟩
    exact ⟨fun level => ⟨levels level, stated level⟩, kept⟩

theorem accepted_refl (declaration : Declaration) :
    declaration.Accepted declaration :=
  (accepted_iff _ _).mpr ⟨fun _ => rfl, .refl _⟩

theorem accepted_trans {latest later earlier : Declaration}
    (second : latest.Accepted later) (first : later.Accepted earlier) :
    latest.Accepted earlier := by
  obtain ⟨levels, kept⟩ := (accepted_iff _ _).mp first
  obtain ⟨newerLevels, keptAgain⟩ := (accepted_iff _ _).mp second
  apply (accepted_iff _ _).mpr
  exact ⟨fun level => (newerLevels level).trans (levels level),
    keptAgain.trans kept⟩

theorem checked_trans {latest later earlier : Declaration}
    (second : latest.Checked later) (first : later.Checked earlier) :
    latest.Checked earlier := by
  obtain ⟨accepted, stated⟩ := (checked_iff _ _).mp first
  obtain ⟨acceptedAgain, _⟩ := (checked_iff _ _).mp second
  refine (checked_iff _ _).mpr ⟨accepted_trans acceptedAgain accepted, ?_⟩
  intro level
  have same := ((accepted_iff _ _).mp acceptedAgain).1 level
  rcases stated level with newer | older
  · left
    rw [States, same]
    exact newer
  · exact Or.inr older

end Declaration

open Declaration in
/-- The gates agree on all that one of two declarations states, and both lead
from release to release; only the release check refuses what neither states. -/
theorem compatibility_gates :
    (∀ later earlier : Declaration, later.Checked earlier ↔
      later.Accepted earlier ∧
        ∀ level, later.States level ∨ earlier.States level) ∧
    (∀ declaration : Declaration, declaration.Accepted declaration) ∧
    (∀ declaration : Declaration, declaration.Checked declaration ↔
      ∀ level, declaration.States level) ∧
    (∀ latest later earlier : Declaration, latest.Accepted later →
      later.Accepted earlier → latest.Accepted earlier) ∧
    ∀ latest later earlier : Declaration, latest.Checked later →
      later.Checked earlier → latest.Checked earlier := by
  refine ⟨checked_iff, accepted_refl, ?_, fun _ _ _ => accepted_trans,
    fun _ _ _ => checked_trans⟩
  intro declaration
  rw [checked_iff, and_iff_right (accepted_refl declaration)]
  simp only [or_self]

private theorem minimum_of_nothing (value : Int)
    (impossible : (none : Option Int) = some value) : 1 ≤ value := by
  cases impossible

/-- A declaration that states nothing. -/
def bare : Declaration where
  schema := some snapshotSchema
  level _ := none
  names _ := none
  persistedFormats := none
  isSnapshot := rfl
  minimum _ := minimum_of_nothing

/-- The gates disagree about it, and one refuses it over itself. -/
theorem gates_differ_on_bare :
    bare.Accepted bare ∧ ¬bare.Checked bare := by
  constructor
  · exact Declaration.accepted_refl bare
  · intro checked
    rcases ((Declaration.checked_iff _ _).mp checked).2 .cppApi with one | other
    · exact one rfl
    · exact other rfl

end PpcLab.Release
