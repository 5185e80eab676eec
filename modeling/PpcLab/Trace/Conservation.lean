import Mathlib.Data.List.Chain
import PpcLab.Trace.Analysis

/-!
# What an analysis conserves

The blocks are the events one after the other, and whatever is counted, every
event is counted once.  A block leads to the next one, so there is one way fewer
than there are blocks, unless there is no event.
-/

namespace PpcLab.Trace

open Counter

variable {python : Security.Python}

/-- An event leads to the next one without a transfer of control. -/
def Follows (python : Security.Python) (event next : NormalEvent) : Prop :=
  ¬ isControlTransfer (event.mnemonic python) ∧ next.pc = event.pc + 4

theorem follows_of_endsBlock {event next : NormalEvent}
    (goesOn : ¬ endsBlock python event (some next)) :
    Follows python event next := by
  rw [endsBlock, Option.all_some, Bool.or_eq_true, decide_eq_true_eq,
    not_or, not_not] at goesOn
  exact goesOn

theorem flatten_cut (current events : List NormalEvent) :
    ((cut python current events).map Block.events).flatten =
      current ++ events := by
  induction events generalizing current with
  | nil =>
      rw [cut]
      split
      · simp
      · rename_i none
        rw [not_not.mp none]
        rfl
  | cons event events induction =>
      rw [cut]
      split
      · rw [List.map_cons, List.flatten_cons, induction]
        simp
      · rw [induction]
        simp

theorem flatten_splitDynamicBlocks (events : List NormalEvent) :
    ((splitDynamicBlocks python events).map Block.events).flatten = events :=
  flatten_cut [] events

theorem isChain_of_mem_cut {current events : List NormalEvent} {block : Block}
    (chain : (current ++ events.head?.toList).IsChain (Follows python))
    (member : block ∈ cut python current events) :
    block.events.IsChain (Follows python) := by
  induction events generalizing current with
  | nil =>
      rw [cut] at member
      split at member
      · rw [List.mem_singleton.mp member]
        exact chain.left_of_append
      · cases member
  | cons event events induction =>
      rw [cut] at member
      split at member
      · rcases List.mem_cons.mp member with rfl | later
        · exact chain
        · refine induction ?_ later
          cases events with
          | nil => exact List.IsChain.nil
          | cons next events => exact List.isChain_singleton next
      · rename_i goesOn
        refine induction ?_ member
        cases events with
        | nil =>
            have ends : endsBlock python event none := by simp [endsBlock]
            exact absurd ends goesOn
        | cons next events =>
            have follows : Follows python event next :=
              follows_of_endsBlock goesOn
            rw [List.head?_cons, Option.toList_some, List.append_assoc]
            refine List.isChain_split.mpr ⟨chain, ?_⟩
            exact List.IsChain.cons_cons follows (List.isChain_singleton next)

theorem isChain_of_mem_splitDynamicBlocks {events : List NormalEvent}
    {block : Block} (member : block ∈ splitDynamicBlocks python events) :
    block.events.IsChain (Follows python) := by
  refine isChain_of_mem_cut ?_ member
  cases events with
  | nil => exact List.IsChain.nil
  | cons event events => exact List.isChain_singleton event

theorem splitDynamicBlocks_ne_nil {events : List NormalEvent}
    (nonempty : events ≠ []) : splitDynamicBlocks python events ≠ [] := by
  intro none
  have whole : ((splitDynamicBlocks python events).map
      Block.events).flatten = events := flatten_splitDynamicBlocks events
  rw [none] at whole
  exact nonempty whole.symm

theorem length_of_key {first second : Block} (same : first.key = second.key) :
    first.events.length = second.events.length := by
  have pcs := congrArg (fun key => key.2.2.length) same
  simpa [Block.key] using pcs

theorem perm_rankedBlocks (blocks : List Block) :
    (rankedBlocks blocks).Perm (counted Block.key blocks) :=
  List.perm_insertionSort _ _

theorem map_zipIdx {α β : Type} (measure : α → β) (items : List α) :
    (items.zipIdx.map fun entry => measure entry.1) = items.map measure := by
  have first : (items.zipIdx.map fun entry => measure entry.1) =
      (items.zipIdx.map Prod.fst).map measure := by
    rw [List.map_map]
    rfl
  rw [first, List.zipIdx_map_fst]

/-- Every execution of a block counts all its events. -/
theorem executions_eq (events : List NormalEvent) :
    (((rankedBlocks (splitDynamicBlocks python events)).zipIdx.map
      (blockRow python)).map fun row =>
        row.executions * row.instructionCount).sum = events.length := by
  have rows : (((rankedBlocks (splitDynamicBlocks python events)).zipIdx.map
      (blockRow python)).map fun row =>
        row.executions * row.instructionCount) =
      (rankedBlocks (splitDynamicBlocks python events)).map fun entry =>
        entry.2 * entry.1.events.length := by
    rw [List.map_map, ← map_zipIdx fun entry : Block × Nat =>
      entry.2 * entry.1.events.length]
    rfl
  have whole : ((splitDynamicBlocks python events).map
      Block.events).flatten = events := flatten_splitDynamicBlocks events
  calc
    _ = weight (fun block : Block => block.events.length)
        (rankedBlocks (splitDynamicBlocks python events)) := by
      rw [rows]
      rfl
    _ = weight (fun block : Block => block.events.length)
        (counted Block.key (splitDynamicBlocks python events)) :=
      weight_perm _ (perm_rankedBlocks _)
    _ = ((splitDynamicBlocks python events).map fun block =>
          block.events.length).sum :=
      weight_counted (fun _ _ => length_of_key) _
    _ = (((splitDynamicBlocks python events).map
          Block.events).flatten).length := by
      rw [List.length_flatten, List.map_map]
      rfl
    _ = events.length := by rw [whole]

theorem hotPcs_eq (events : List NormalEvent) :
    (((mostCommon (counted (·.pc) events)).map hotPc).map (·.count)).sum =
      events.length := by
  rw [List.map_map]
  exact (total_perm (perm_mostCommon _)).trans (total_counted events)

theorem functions_eq (events : List NormalEvent) :
    ((mostCommon (counted id (events.map (·.function)))).map Prod.snd).sum =
      events.length := by
  refine (total_perm (perm_mostCommon _)).trans ?_
  rw [total_counted, List.length_map]

theorem length_successions (blocks : List Block) :
    (successions blocks).length = blocks.length - 1 := by
  rw [successions, List.length_zip, List.length_tail]
  omega

/-- The names of the blocks are listed. -/
theorem listed_of_lookup {blocks : List Block} {key : Block.Key} {name : Str}
    (found : (blockIds blocks).lookup key = some name) :
    ∃ row ∈ (rankedBlocks blocks).zipIdx.map (blockRow python),
      row.id = name := by
  obtain ⟨former, later, listed, _⟩ := List.lookup_eq_some_iff.mp found
  have member : (key, name) ∈ blockIds blocks := by
    rw [listed]
    simp
  obtain ⟨entry, ranked, same⟩ := List.mem_map.mp member
  refine ⟨blockRow python entry, List.mem_map.mpr ⟨entry, ranked, rfl⟩, ?_⟩
  exact congrArg Prod.snd same

theorem lookup_of_mem {blocks : List Block} {block : Block}
    (member : block ∈ blocks) :
    ((blockIds blocks).lookup block.key).isSome := by
  rw [Dictionary.lookup_isSome_iff]
  have keys : (blockIds blocks).map Prod.fst =
      (rankedBlocks blocks).map fun entry => entry.1.key := by
    rw [blockIds, List.map_map, ← map_zipIdx fun entry : Block × Nat =>
      entry.1.key]
    rfl
  rw [keys, ((perm_rankedBlocks blocks).map _).mem_iff]
  exact mem_keys_counted.mpr ⟨block, member, rfl⟩

theorem mem_of_mem_successions {blocks : List Block} {pair : Block × Block}
    (member : pair ∈ successions blocks) :
    pair.1 ∈ blocks ∧ pair.2 ∈ blocks := by
  obtain ⟨first, second⟩ := pair
  have both := List.of_mem_zip member
  exact ⟨both.1, List.mem_of_mem_tail both.2⟩

/-- All results are found when each one is. -/
theorem mapM_eq_some {α β : Type} {step : α → Option β} {items : List α}
    (succeeds : ∀ item ∈ items, (step item).isSome) :
    ∃ results, items.mapM step = some results ∧
      results.map some = items.map step := by
  induction items with
  | nil => exact ⟨[], rfl, rfl⟩
  | cons item items induction =>
      obtain ⟨result, first⟩ :=
        Option.isSome_iff_exists.mp (succeeds item List.mem_cons_self)
      obtain ⟨results, rest, each⟩ := induction fun other member =>
        succeeds other (List.mem_cons_of_mem _ member)
      refine ⟨result :: results, ?_, ?_⟩
      · rw [List.mapM_cons, first, rest]
        rfl
      · rw [List.map_cons, List.map_cons, first, each]

private theorem edgeRow_eq_some {ids : List (Block.Key × Str)}
    {entry : Edge × Nat} {row : EdgeRow} (found : edgeRow ids entry = some row) :
    ids.lookup entry.1.source = some row.source ∧
      ids.lookup entry.1.target = some row.target ∧ row.count = entry.2 := by
  obtain ⟨source, isSource, found⟩ := Option.bind_eq_some_iff.mp found
  obtain ⟨target, isTarget, found⟩ := Option.bind_eq_some_iff.mp found
  cases found
  exact ⟨isSource, isTarget, rfl⟩

theorem isSome_edgeRow {blocks : List Block} {entry : Edge × Nat}
    (counts : entry ∈ edgeCounts python blocks) :
    (edgeRow (blockIds blocks) entry).isSome := by
  obtain ⟨edge, isEdge, same⟩ := mem_keys_counted.mp
    (List.mem_map_of_mem (f := fun entry : Edge × Nat => id entry.1) counts)
  obtain ⟨pair, consecutive, rfl⟩ := List.mem_map.mp isEdge
  have there := mem_of_mem_successions consecutive
  obtain ⟨source, isSource⟩ :=
    Option.isSome_iff_exists.mp (lookup_of_mem there.1)
  obtain ⟨target, isTarget⟩ :=
    Option.isSome_iff_exists.mp (lookup_of_mem there.2)
  have edgeIs : entry.1 = edgeOf python pair := same.symm
  rw [edgeRow, edgeIs]
  simp only [edgeOf, isSource, isTarget]
  rfl

/-- A row names listed blocks. -/
structure Listed (blocks : List BlockRow) (edge : EdgeRow) : Prop where
  source : ∃ row ∈ blocks, row.id = edge.source
  target : ∃ row ∈ blocks, row.id = edge.target

theorem edgeRows_eq_some (blocks : List Block) :
    ∃ edges, edgeRows python blocks = some edges ∧
      (edges.map (·.count)).sum = blocks.length - 1 ∧
      ∀ edge ∈ edges, Listed ((rankedBlocks blocks).zipIdx.map
        (blockRow python)) edge := by
  have sorted : ((edgeCounts python blocks).insertionSort fun first second =>
      edgeOrder first second).Perm (edgeCounts python blocks) :=
    List.perm_insertionSort _ _
  have succeeds : ∀ entry ∈ (edgeCounts python blocks).insertionSort
      (fun first second => edgeOrder first second),
      (edgeRow (blockIds blocks) entry).isSome := by
    intro entry member
    exact isSome_edgeRow (sorted.mem_iff.mp member)
  obtain ⟨edges, rows, each⟩ := mapM_eq_some succeeds
  refine ⟨edges, rows, ?_, ?_⟩
  · have counts : edges.map (·.count) =
        ((edgeCounts python blocks).insertionSort fun first second =>
          edgeOrder first second).map Prod.snd := by
      apply List.map_injective_iff.mpr (Option.some_injective Nat)
      rw [List.map_map, List.map_map]
      calc
        _ = (edges.map some).map (Option.map (·.count)) := by
          rw [List.map_map]
          rfl
        _ = _ := by
          rw [each, List.map_map]
          apply List.map_congr_left
          intro entry member
          obtain ⟨row, found⟩ :=
            Option.isSome_iff_exists.mp (succeeds entry member)
          rw [Function.comp_apply, found, Option.map_some,
            (edgeRow_eq_some found).2.2]
          rfl
    rw [counts]
    refine (total_perm sorted).trans ?_
    rw [edgeCounts, total_counted, List.length_map, length_successions]
  · intro edge member
    have found := List.mem_map_of_mem (f := some) member
    rw [each] at found
    obtain ⟨entry, _, row⟩ := List.mem_map.mp found
    obtain ⟨source, target, _⟩ := edgeRow_eq_some row
    exact ⟨listed_of_lookup source, listed_of_lookup target⟩

theorem nodup_sortedPcs (events : List NormalEvent) :
    (sortedPcs events).Nodup :=
  (List.perm_insertionSort _ _).nodup_iff.mpr (List.nodup_dedup _)

theorem sorted_sortedPcs (events : List NormalEvent) :
    (sortedPcs events).Pairwise fun first second =>
      first.toNat ≤ second.toNat := by
  have total : Std.Total fun first second : Word => first.toNat ≤ second.toNat :=
    ⟨fun first second => Nat.le_total _ _⟩
  have transitive : IsTrans Word fun first second =>
      first.toNat ≤ second.toNat := ⟨fun _ _ _ => Nat.le_trans⟩
  exact List.pairwise_insertionSort _ _

/-- Increasing aligned addresses span what they cover. -/
theorem covered_le {low : Word} {pcs : List Word}
    (aligned : ∀ pc ∈ low :: pcs, pc.toNat % 4 = 0)
    (sorted : (low :: pcs).Pairwise fun first second =>
      first.toNat ≤ second.toNat)
    (nodup : (low :: pcs).Nodup) :
    low.toNat + pcs.length * 4 ≤
      ((low :: pcs).getLast (List.cons_ne_nil low pcs)).toNat := by
  induction pcs generalizing low with
  | nil => simp
  | cons next pcs induction =>
      have rest := induction (fun pc member =>
        aligned pc (List.mem_cons_of_mem _ member)) sorted.of_cons nodup.of_cons
      have notAbove : low.toNat ≤ next.toNat :=
        (List.pairwise_cons.mp sorted).1 next List.mem_cons_self
      have differ : low.toNat ≠ next.toNat := by
        intro same
        have equal : low = next := BitVec.eq_of_toNat_eq same
        exact (List.nodup_cons.mp nodup).1 (equal ▸ List.mem_cons_self)
      have lowAligned := aligned low List.mem_cons_self
      have nextAligned := aligned next
        (List.mem_cons_of_mem _ List.mem_cons_self)
      rw [List.getLast_cons (List.cons_ne_nil next pcs), List.length_cons]
      omega

theorem coveredBytes_le {pcs : List Word}
    (aligned : ∀ pc ∈ pcs, pc.toNat % 4 = 0)
    (sorted : pcs.Pairwise fun first second => first.toNat ≤ second.toNat)
    (nodup : pcs.Nodup) : coveredBytes pcs ≤ addressSpan pcs := by
  cases pcs with
  | nil => exact Nat.le_refl 0
  | cons low pcs =>
      have covered := covered_le aligned sorted nodup
      rw [addressSpan, List.head?_cons,
        List.getLast?_eq_getLast_of_ne_nil (List.cons_ne_nil low pcs),
        coveredBytes, List.length_cons]
      dsimp only
      omega

/-- What an analysis says of some events adds up. -/
structure Conserves (python : Security.Python) (events : List NormalEvent)
    (analysis : Analysis) : Prop where
  eventCount : analysis.summary.events = events.length
  concatenated :
    ((splitDynamicBlocks python events).map Block.events).flatten = events
  sequential : ∀ block ∈ splitDynamicBlocks python events,
    block.events.IsChain (Follows python)
  dynamicBlocks : analysis.summary.dynamicBlocks =
    (splitDynamicBlocks python events).length
  executions : (analysis.blocks.map fun row =>
    row.executions * row.instructionCount).sum = events.length
  hotPcs : (analysis.hotPcs.map (·.count)).sum = events.length
  functions : (analysis.functions.map Prod.snd).sum = events.length
  edges : events ≠ [] →
    (analysis.edges.map (·.count)).sum + 1 = analysis.summary.dynamicBlocks
  noEdges : events = [] → analysis.edges = []
  listed : ∀ edge ∈ analysis.edges, Listed analysis.blocks edge
  covered : (∀ event ∈ events, event.pc.toNat % 4 = 0) →
    analysis.summary.coveredBytes ≤ analysis.summary.addressSpanBytes

/-- The analysis of every trace with events. -/
theorem analysis_conserves {trace : Fields} {events : List NormalEvent}
    (normal : normalizeEvents python trace = some events) :
    ∃ analysis, analyzeTrace python trace = some analysis ∧
      Conserves python events analysis := by
  obtain ⟨edges, rows, sum, listed⟩ :=
    @edgeRows_eq_some python (splitDynamicBlocks python events)
  refine ⟨analysisOf python trace events edges, ?_, ?_⟩
  · rw [analyzeTrace, normal, Option.bind_eq_bind, Option.bind_some, rows]
    rfl
  · refine ⟨rfl, flatten_splitDynamicBlocks events, ?_, rfl,
      executions_eq events, hotPcs_eq events, functions_eq events, ?_, ?_,
      listed, ?_⟩
    · intro block member
      exact isChain_of_mem_splitDynamicBlocks member
    · intro nonempty
      have positive : 0 < (splitDynamicBlocks python events).length :=
        List.length_pos_of_ne_nil (splitDynamicBlocks_ne_nil nonempty)
      change (edges.map (·.count)).sum + 1 =
        (splitDynamicBlocks python events).length
      omega
    · intro none
      rw [none] at rows
      cases rows
      rfl
    · intro aligned
      refine coveredBytes_le ?_ (sorted_sortedPcs events)
        (nodup_sortedPcs events)
      intro pc member
      have there : pc ∈ (events.map (·.pc)).dedup :=
        (List.perm_insertionSort _ _).mem_iff.mp member
      obtain ⟨event, isEvent, rfl⟩ :=
        List.mem_map.mp (List.mem_dedup.mp there)
      exact aligned event isEvent

def traceEvent (pc instruction disassembly : String) : Json :=
  .object [(str "pc", .string (str pc)),
    (str "instruction", .string (str instruction)),
    (str "disassembly", .string (str disassembly))]

/-- A loop that is run twice, and the return. -/
def loopTrace : Fields :=
  let decrement := traceEvent "0x10000000" "0x3463ffff" "addic. r3,r3,-1"
  let again := traceEvent "0x10000004" "0x4082fffc" "bne 0x10000000"
  [(str "schema", .string (str "ppc-lab-trace-v1")),
    (str "events", .array [decrement, again, decrement, again,
      traceEvent "0x10000008" "0x4e800020" "blr"])]

def loopEvents : List NormalEvent :=
  let decrement index : NormalEvent :=
    ⟨index, 0x10000000, str "0x3463ffff", str "addic. r3,r3,-1", []⟩
  let again index : NormalEvent :=
    ⟨index, 0x10000004, str "0x4082fffc", str "bne 0x10000000", []⟩
  [decrement 0, again 1, decrement 2, again 3,
    ⟨4, 0x10000008, str "0x4e800020", str "blr", []⟩]

theorem loop_conserves :
    ∃ analysis, analyzeTrace .ascii loopTrace = some analysis ∧
      Conserves .ascii loopEvents analysis :=
  analysis_conserves (by decide +kernel)

/-- The edges are one fewer than the blocks that were executed. -/
def EdgesOneFewer (analysis : Analysis) : Prop :=
  ((analysis.edges.map (·.count)).sum : Int) =
    analysis.summary.dynamicBlocks - 1

instance (analysis : Analysis) : Decidable (EdgesOneFewer analysis) :=
  inferInstanceAs (Decidable (_ = _))

theorem no_events_no_edge :
    (analyzeTrace .ascii [(str "events", .array [])]).map
      (fun analysis => decide (EdgesOneFewer analysis)) = some false := by
  decide +kernel

end PpcLab.Trace
