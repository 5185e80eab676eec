import PpcLab.Library.Sha256
import PpcLab.Replication.Bundle

/-!
# Generations

An export reads the generation of its store, writes a bundle and only then
counts the generation up.  As long as exports are kept apart and none dies
between the two writes, a generation belongs to one bundle, and a peer that
imports the bundles sees no conflict.
-/

namespace PpcLab.Replication

abbrev Pid := Nat

/-- How far an export is. -/
inductive Export where
  | loaded (generation : Nat)
  | writing (bundle : Bundle)
  | written (bundle : Bundle)

def Export.generation : Export → Nat
  | .loaded generation => generation
  | .writing bundle | .written bundle => bundle.generation

structure Receipt where
  sourceSite : Str
  generation : Nat
  bundleId : Str
  deriving DecidableEq

def Receipt.key (receipt : Receipt) : Str × Nat :=
  (receipt.sourceSite, receipt.generation)

inductive Imported where
  | refused
  | conflict
  | already
  | imported
  deriving DecidableEq

/-- A replication store with the exports that run on it, every bundle that was
ever written to its end, and a peer that imports some of them. -/
structure World where
  site : Str
  nextGeneration : Nat
  exports : Keyed (Prod.fst : Pid × Export → Pid)
  published : List Bundle
  receipts : Keyed Receipt.key
  imports : List Imported

def World.initial (site : Str) : World :=
  ⟨site, 1, .empty, [], .empty, []⟩

inductive Input where
  | start (pid : Pid)
  | build (pid : Pid) (createdAt : Str) (collected : Collected)
  | finish (pid : Pid)
  | count (pid : Pid)
  | die (pid : Pid)
  | load (index : Nat)

def World.export? (world : World) (pid : Pid) : Option Export :=
  (world.exports.lookup pid).map (·.2)

def World.set (world : World) (pid : Pid) (stage : Export) : World :=
  { world with exports := world.exports.put (pid, stage) }

def World.exit (world : World) (pid : Pid) : World :=
  { world with exports := world.exports.erase pid }

section Step

variable (sha256 : List Byte → Str)

/-- What `import_bundle` answers, and the receipts that it leaves. -/
def importBundle (receipts : Keyed Receipt.key) (bundle : Bundle) :
    Imported × Keyed Receipt.key :=
  let receipt : Receipt :=
    ⟨bundle.sourceSite, bundle.generation, bundle.bundleId⟩
  if (verifyBundle sha256 bundle).isEmpty then
    match receipts.lookup receipt.key with
    | some old =>
        if old.bundleId = bundle.bundleId then (.already, receipts)
        else (.conflict, receipts)
    | none => (.imported, receipts.put receipt)
  else (.refused, receipts)

/-- An export goes on or dies; a bundle is imported. -/
def step (world : World) : Input → Option World
  | .start pid =>
      match world.export? pid with
      | none => some (world.set pid (.loaded world.nextGeneration))
      | some _ => none
  | .build pid createdAt collected =>
      match world.export? pid with
      | some (.loaded generation) =>
          match buildBundle sha256 world.site generation createdAt collected with
          | .ok bundle => some (world.set pid (.writing bundle))
          | .error _ => some (world.exit pid)
      | _ => none
  | .finish pid =>
      match world.export? pid with
      | some (.writing bundle) =>
          some { world.set pid (.written bundle) with
            published := world.published ++ [bundle] }
      | _ => none
  | .count pid =>
      match world.export? pid with
      | some (.written bundle) =>
          some { world.exit pid with
            nextGeneration := bundle.generation + 1 }
      | _ => none
  | .die pid => (world.export? pid).map fun _ => world.exit pid
  | .load index =>
      world.published[index]?.map fun bundle =>
        let (answer, receipts) := importBundle sha256 world.receipts bundle
        { world with
          receipts := receipts
          imports := world.imports ++ [answer] }

end Step

/-- The bundle is there and its generation has still to be counted. -/
def Export.isWritten : Export → Bool
  | .written _ => true
  | _ => false

/-- No export reads the generation while another has read it and has still to
count it up, and none dies between its two writes. -/
def ExportsApart (world : World) : Input → Prop
  | .start _ => world.exports.entries = []
  | .die pid => ∀ stage ∈ world.export? pid, stage.isWritten = false
  | _ => True

instance (world : World) : (input : Input) → Decidable (ExportsApart world input)
  | .start _ =>
      decidable_of_iff (world.exports.entries.isEmpty) List.isEmpty_iff
  | .die pid =>
      inferInstanceAs (Decidable (∀ stage ∈ world.export? pid,
        stage.isWritten = false))
  | .build _ _ _ | .finish _ | .count _ | .load _ => .isTrue trivial

private theorem export?_set_self (world : World) (pid : Pid) (stage : Export) :
    (world.set pid stage).export? pid = some stage := by
  have found := Keyed.lookup_put_self world.exports (pid, stage)
  exact congrArg (Option.map Prod.snd) found

private theorem export?_set_of_ne (world : World) {pid other : Pid}
    (stage : Export) (different : other ≠ pid) :
    (world.set pid stage).export? other = world.export? other := by
  have found : (world.set pid stage).exports.lookup other =
      world.exports.lookup other :=
    Keyed.lookup_put_of_ne world.exports different
  exact congrArg (Option.map Prod.snd) found

private theorem export?_exit_self (world : World) (pid : Pid) :
    (world.exit pid).export? pid = none := by
  have found := Keyed.lookup_erase_self world.exports pid
  exact congrArg (Option.map Prod.snd) found

private theorem export?_exit_of_ne (world : World) {pid other : Pid}
    (different : other ≠ pid) :
    (world.exit pid).export? other = world.export? other := by
  have found := Keyed.lookup_erase_of_ne world.exports different
  exact congrArg (Option.map Prod.snd) found

/-- A generation below the counter belongs to one bundle at most; the one at
the counter belongs to the export that is about to count it up. -/
structure OneEach (world : World) : Prop where
  alone : ∀ pid other stage otherStage, world.export? pid = some stage →
    world.export? other = some otherStage → pid = other
  current : ∀ pid stage, world.export? pid = some stage →
    stage.generation = world.nextGeneration
  below : ∀ bundle ∈ world.published,
    bundle.generation < world.nextGeneration ∨
      ∃ pid, world.export? pid = some (.written bundle)
  unique : ∀ bundle ∈ world.published, ∀ other ∈ world.published,
    bundle.generation = other.generation →
      bundle.bundleId = other.bundleId
  receipts : ∀ receipt ∈ world.receipts.entries,
    ∃ bundle ∈ world.published, receipt.generation = bundle.generation ∧
      receipt.bundleId = bundle.bundleId
  imports : .conflict ∉ world.imports

theorem OneEach.initial (site : Str) : OneEach (World.initial site) := by
  refine ⟨?_, ?_, ?_, ?_, ?_, ?_⟩
  · intro pid other stage otherStage running
    cases running
  · intro pid stage running
    cases running
  · intro bundle none
    cases none
  · intro bundle none
    cases none
  · intro receipt none
    cases none
  · intro none
    cases none

private theorem generation_of_buildBundle {sha256 : List Byte → Str}
    {site createdAt : Str} {generation : Nat} {collected : Collected}
    {bundle : Bundle}
    (built : buildBundle sha256 site generation createdAt collected =
      .ok bundle) : bundle.generation = generation := by
  unfold buildBundle at built
  split at built
  · cases built
  · dsimp only at built
    split at built
    · cases built
    · cases built
      rfl

section Moves

variable {world : World} {pid : Pid}

/-- The generation of an export stays what it has read. -/
private theorem OneEach.onward (one : OneEach world) {before after : Export}
    (running : world.export? pid = some before)
    (same : after.generation = before.generation)
    (open_ : before.isWritten = false) : OneEach (world.set pid after) := by
  have others (other : Pid) (stage : Export)
      (alive : (world.set pid after).export? other = some stage) :
      other = pid ∧ stage = after := by
    by_cases here : other = pid
    · subst here
      rw [export?_set_self] at alive
      exact ⟨rfl, (Option.some.inj alive).symm⟩
    · rw [export?_set_of_ne _ _ here] at alive
      exact absurd (one.alone _ _ _ _ alive running) here
  refine ⟨?_, ?_, ?_, one.unique, one.receipts, one.imports⟩
  · intro first second stage otherStage alive otherAlive
    rw [(others _ _ alive).1, (others _ _ otherAlive).1]
  · intro other stage alive
    rw [(others _ _ alive).2, same]
    exact one.current pid before running
  · intro bundle member
    rcases one.below bundle member with less | ⟨other, alive⟩
    · exact .inl less
    · have here := one.alone _ _ _ _ alive running
      rw [here, running] at alive
      cases alive
      cases open_

private theorem OneEach.leaves (one : OneEach world) {stage : Export}
    (running : world.export? pid = some stage) {next : Nat}
    (counted : ∀ bundle ∈ world.published, bundle.generation < next) :
    OneEach { world.exit pid with nextGeneration := next } := by
  have nobody (other : Pid) : (world.exit pid).export? other = none := by
    by_cases here : other = pid
    · rw [here, export?_exit_self]
    · rw [export?_exit_of_ne _ here]
      cases alive : world.export? other with
      | none => rfl
      | some otherStage =>
          exact absurd (one.alone _ _ _ _ alive running) here
  refine ⟨?_, ?_, ?_, one.unique, one.receipts, one.imports⟩
  · intro first second firstStage secondStage alive
    have gone := nobody first
    rw [show (world.exit pid).export? first = some firstStage from alive]
      at gone
    cases gone
  · intro other otherStage alive
    have gone := nobody other
    rw [show (world.exit pid).export? other = some otherStage from alive]
      at gone
    cases gone
  · intro bundle member
    exact .inl (counted bundle member)

private theorem OneEach.counted (one : OneEach world) {stage : Export}
    (running : world.export? pid = some stage)
    (open_ : stage.isWritten = false) :
    ∀ bundle ∈ world.published, bundle.generation < world.nextGeneration := by
  intro bundle member
  rcases one.below bundle member with less | ⟨other, alive⟩
  · exact less
  · have here := one.alone _ _ _ _ alive running
    rw [here, running] at alive
    cases alive
    cases open_

private theorem OneEach.load (one : OneEach world)
    {sha256 : List Byte → Str} {bundle : Bundle}
    (member : bundle ∈ world.published) :
    OneEach
      { world with
        receipts := (importBundle sha256 world.receipts bundle).2
        imports := world.imports ++
          [(importBundle sha256 world.receipts bundle).1] } := by
  have agrees (old : Receipt) (held : old ∈ world.receipts.entries)
      (same : old.generation = bundle.generation) :
      old.bundleId = bundle.bundleId := by
    obtain ⟨other, published, generation, identity⟩ := one.receipts old held
    rw [identity]
    exact one.unique _ published _ member (generation.symm.trans same)
  refine ⟨one.alone, one.current, one.below, one.unique, ?_, ?_⟩
  · intro receipt held
    unfold importBundle at held
    dsimp only at held
    split at held
    · split at held
      · split at held
        · exact one.receipts receipt held
        · exact one.receipts receipt held
      · rcases List.mem_cons.mp held with rfl | old
        · exact ⟨bundle, member, rfl, rfl⟩
        · exact one.receipts receipt (List.mem_filter.mp old).1
    · exact one.receipts receipt held
  · intro conflict
    rcases List.mem_append.mp conflict with before | last
    · exact one.imports before
    · have answer := List.mem_singleton.mp last
      unfold importBundle at answer
      dsimp only at answer
      split at answer
      · split at answer
        · rename_i old found
          have sameKey := Keyed.key_of_lookup found
          have generation := (Prod.mk.inj sameKey).2
          have identity := agrees old (Keyed.mem_of_lookup found) generation
          rw [if_pos identity] at answer
          cases answer
        · cases answer
      · cases answer

private theorem OneEach.step {sha256 : List Byte → Str} {next : World}
    {input : Input} (one : OneEach world) (apart : ExportsApart world input)
    (stepped : step sha256 world input = some next) : OneEach next := by
  cases input with
  | start pid =>
      have nobody (other : Pid) : world.export? other = none := by
        have none : world.exports.entries = [] := apart
        simp [World.export?, Keyed.lookup, none]
      unfold Replication.step at stepped
      dsimp only at stepped
      rw [nobody pid] at stepped
      cases stepped
      have only (other : Pid) (stage : Export)
          (alive : (world.set pid (.loaded world.nextGeneration)).export?
            other = some stage) :
          other = pid ∧ stage = .loaded world.nextGeneration := by
        by_cases here : other = pid
        · subst here
          rw [export?_set_self] at alive
          exact ⟨rfl, (Option.some.inj alive).symm⟩
        · rw [export?_set_of_ne _ _ here, nobody] at alive
          cases alive
      refine ⟨?_, ?_, ?_, one.unique, one.receipts, one.imports⟩
      · intro first second stage otherStage alive otherAlive
        rw [(only _ _ alive).1, (only _ _ otherAlive).1]
      · intro other stage alive
        rw [(only _ _ alive).2]
        rfl
      · intro bundle member
        rcases one.below bundle member with less | ⟨other, alive⟩
        · exact .inl less
        · rw [nobody] at alive
          cases alive
  | build pid createdAt collected =>
      unfold Replication.step at stepped
      dsimp only at stepped
      split at stepped
      · rename_i generation running
        split at stepped
        · rename_i bundle built
          cases stepped
          exact one.onward running (generation_of_buildBundle built) rfl
        · cases stepped
          exact one.leaves running (one.counted running rfl)
      · cases stepped
  | finish pid =>
      unfold Replication.step at stepped
      dsimp only at stepped
      split at stepped
      · rename_i bundle running
        cases stepped
        have moved : OneEach (world.set pid (.written bundle)) :=
          one.onward running rfl rfl
        have fresh := one.counted running rfl
        have current : bundle.generation = world.nextGeneration :=
          one.current pid _ running
        refine ⟨moved.alone, moved.current, ?_, ?_, ?_, one.imports⟩
        · intro other member
          rcases List.mem_append.mp member with before | last
          · exact .inl (fresh other before)
          · rw [List.mem_singleton.mp last]
            exact .inr ⟨pid, export?_set_self _ _ _⟩
        · intro first member second otherMember same
          rcases List.mem_append.mp member with before | last
          · rcases List.mem_append.mp otherMember with earlier | final
            · exact one.unique first before second earlier same
            · rw [List.mem_singleton.mp final, current] at same
              exact absurd same (Nat.ne_of_lt (fresh first before))
          · rcases List.mem_append.mp otherMember with earlier | final
            · rw [List.mem_singleton.mp last, current] at same
              exact absurd same.symm (Nat.ne_of_lt (fresh second earlier))
            · rw [List.mem_singleton.mp last, List.mem_singleton.mp final]
        · intro receipt held
          obtain ⟨other, member, same⟩ := one.receipts receipt held
          exact ⟨other, List.mem_append_left _ member, same⟩
      · cases stepped
  | count pid =>
      unfold Replication.step at stepped
      dsimp only at stepped
      split at stepped
      · rename_i bundle running
        cases stepped
        have current : bundle.generation = world.nextGeneration :=
          one.current pid _ running
        refine one.leaves running ?_
        intro other member
        rcases one.below other member with less | ⟨name, alive⟩
        · omega
        · have here := one.alone _ _ _ _ alive running
          rw [here, running] at alive
          cases alive
          omega
      · cases stepped
  | die pid =>
      obtain ⟨stage, running, rfl⟩ := Option.map_eq_some_iff.mp stepped
      exact one.leaves running (one.counted running (apart stage running))
  | load index =>
      obtain ⟨bundle, found, rfl⟩ := Option.map_eq_some_iff.mp stepped
      exact one.load (List.mem_of_getElem? found)

end Moves

/-- Bundles that verify have one identity for each generation, and no import
has reported a conflict. -/
structure OneBundle (sha256 : List Byte → Str) (world : World) : Prop where
  same : ∀ first ∈ world.published, ∀ second ∈ world.published,
    verifyBundle sha256 first = [] → verifyBundle sha256 second = [] →
    first.sourceSite = second.sourceSite →
    first.generation = second.generation →
    first.bundleId = second.bundleId
  noConflict : .conflict ∉ world.imports

/-- In every run in which exports are kept apart and none dies between writing
its bundle and counting its generation, a generation has one bundle. -/
theorem one_bundle_of_exportsApart (sha256 : List Byte → Str) (site : Str)
    (inputs : List Input) (final : World)
    (apart : Along (step sha256) ExportsApart (World.initial site) inputs)
    (ran : follow (step sha256) (World.initial site) inputs = some final) :
    OneBundle sha256 final := by
  have one : OneEach final := by
    refine follow_keeps ?_ (OneEach.initial site) apart ran
    intro world input next one apart stepped
    exact one.step apart stepped
  refine ⟨?_, one.imports⟩
  intro first member second otherMember _ _ _ same
  exact one.unique first member second otherMember same

/-- An export of an empty evidence store. -/
def emptyEvidence : Collected :=
  ⟨some [], none, none⟩

/-- An export from its beginning to the end of its bundle. -/
def exportOf (pid : Pid) (createdAt : Str) : List Input :=
  [.start pid, .build pid createdAt emptyEvidence, .finish pid]

/-- Two exports, one after the other, and their imports. -/
theorem one_bundle_of_exportsApart_twice :
    ∃ final, follow (step Sha256.hexdigest) (World.initial "site-a")
        (exportOf 1 "2026-01-01T00:00:00Z" ++ .count 1 ::
          exportOf 2 "2026-01-02T00:00:00Z" ++ [.count 2, .load 0, .load 1]) =
        some final ∧
      final.imports = [.imported, .imported] ∧
      OneBundle Sha256.hexdigest final := by
  have ran : ((follow (step Sha256.hexdigest) (World.initial "site-a")
      (exportOf 1 "2026-01-01T00:00:00Z" ++ .count 1 ::
        exportOf 2 "2026-01-02T00:00:00Z" ++ [.count 2, .load 0, .load 1])).map
          (·.imports)) = some [.imported, .imported] := by
    decide +kernel
  obtain ⟨final, reached, imports⟩ := Option.map_eq_some_iff.mp ran
  refine ⟨final, reached, imports, ?_⟩
  exact one_bundle_of_exportsApart Sha256.hexdigest "site-a" _ final
    (by decide +kernel) reached

/-- An export dies when its bundle is written and before its generation is
counted; the next export uses the generation again. -/
theorem dying_export_reuses_generation :
    ∃ final, follow (step Sha256.hexdigest) (World.initial "site-a")
        (exportOf 1 "2026-01-01T00:00:00Z" ++ .die 1 ::
          exportOf 2 "2026-01-02T00:00:00Z" ++ [.count 2, .load 0, .load 1]) =
        some final ∧
      final.published.map (fun bundle =>
        (bundle.generation, verifyBundle Sha256.hexdigest bundle)) =
        [(1, []), (1, [])] ∧
      final.imports = [.imported, .conflict] ∧
      ¬ OneBundle Sha256.hexdigest final := by
  have ran : ((follow (step Sha256.hexdigest) (World.initial "site-a")
      (exportOf 1 "2026-01-01T00:00:00Z" ++ .die 1 ::
        exportOf 2 "2026-01-02T00:00:00Z" ++ [.count 2, .load 0, .load 1])).map
          fun world => (world.published.map (fun bundle =>
            (bundle.generation, verifyBundle Sha256.hexdigest bundle)),
            world.imports)) =
      some ([(1, []), (1, [])], [.imported, .conflict]) := by
    decide +kernel
  obtain ⟨final, reached, seen⟩ := Option.map_eq_some_iff.mp ran
  obtain ⟨published, imports⟩ := Prod.mk.inj seen
  refine ⟨final, reached, published, imports, ?_⟩
  intro one
  apply one.noConflict
  rw [imports]
  decide

end PpcLab.Replication
