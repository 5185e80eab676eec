import PpcLab.Loader.PefRelocation
import PpcLab.MemoryRebase
import Mathlib.Tactic.Ring

/-!
# Rebased PEF relocation

Relocating an image that was placed elsewhere runs the same instructions at
the rebased addresses.  Every value an instruction without imports adds is an
address of the image, so each relocation of a word contributes the distance
once.
-/

namespace PpcLab.Pef

open Loader

def Operation.isImport : Operation → Bool
  | .value sub _ => sub == 5
  | .byIndex sub _ => sub == 0
  | .lgByImport _ => true
  | _ => false

/-- How many blocks before it the operation runs again. -/
def Operation.repeatedBlocks : Operation → Option Nat
  | .smallRepeat blockCount _ => some blockCount
  | .lgRepeat blockCount _ => some blockCount
  | _ => none

/-- No instruction of the stream relocates by an import, and neither does one
that a repeat reads when it starts again in the middle of the stream. -/
def ImportFree (chunks : List Half) : Prop :=
  ∀ instruction ∈ instructions 0 chunks,
    instruction.2.isImport = false ∧
      ∀ blockCount ∈ instruction.2.repeatedBlocks,
        ∀ repeated ∈ blockInstructions chunks (instruction.1 - blockCount)
          instruction.1, repeated.2.isImport = false

instance (chunks : List Half) : Decidable (ImportFree chunks) :=
  inferInstanceAs (Decidable (∀ instruction ∈ instructions 0 chunks, _ ∧ _))

/-- A section that is not mapped keeps the address zero. -/
def SectionInfo.rebase (delta : Word) (entry : SectionInfo) : SectionInfo :=
  { entry with
    mappedAddress :=
      if entry.mappedAddress = 0 then 0 else entry.mappedAddress + delta }

def ImageInfo.rebase (delta : Word) (info : ImageInfo) : ImageInfo :=
  { sections := info.sections.map (·.rebase delta) }

def RelocState.rebase (delta : Word) (state : RelocState) : RelocState :=
  { targetBase := state.targetBase + delta
    address := state.address + delta
    sectionC := state.sectionC + delta
    sectionD := state.sectionD + delta
    importIndex := state.importIndex }

/-- No mapped section lands on address zero. -/
def ImageInfo.StaysMapped (delta : Word) (info : ImageInfo) : Prop :=
  ∀ entry ∈ info.sections,
    entry.mappedAddress ≠ 0 → entry.mappedAddress + delta ≠ 0

/-- Two relocations, one of the rebased image, at the same point. -/
structure Rebased (delta : Word) (first second : Relocating) : Prop where
  wellFormed : first.memory.WellFormed
  rebasedWellFormed : (first.memory.rebase delta).WellFormed
  shape : (first.memory.rebase delta).SameShape second.memory
  state : second.state = first.state.rebase delta
  visits : second.visits = first.visits.map (· + delta)
  words : (∀ visit ∈ first.visits, first.memory.WordAligned visit) →
    ∀ address, first.memory.WordAligned address →
      directRead32 second.memory (address + delta) =
        (directRead32 first.memory address).map
          (· + BitVec.ofNat 32 (first.visits.count address) * delta)
  others : ∀ address, (∀ visit ∈ first.visits, ¬ InWord visit address) →
    second.memory.rangeAt (address + delta) 1 =
      first.memory.rangeAt address 1

private theorem get_bind (next : Relocating → RelocM Unit)
    (machine : Relocating) : (get >>= next) machine = next machine machine :=
  rfl

private theorem addWord_apply (machine : Relocating) (address add : Word) :
    addWord address add machine =
      match (directRead32 machine.memory address).bind fun word =>
          directWrite32 machine.memory address (word + add) with
      | none =>
          .error "PEF relocation target is outside an instantiated section"
            machine
      | some memory =>
          .ok () { machine with
            memory, visits := machine.visits ++ [address] } := by
  rw [addWord, get_bind]
  cases (directRead32 machine.memory address).bind fun word =>
      directWrite32 machine.memory address (word + add) with
  | none => rfl
  | some memory => rfl

private theorem addWord_of_absent {machine : Relocating} {address : Word}
    (absent : machine.memory.find address 4 = none) (add : Word) :
    addWord address add machine =
      .error "PEF relocation target is outside an instantiated section"
        machine := by
  rw [addWord_apply, directRead32, absent]
  rfl

private theorem addWord_of_found {machine : Relocating} {address : Word}
    {region : MemoryRegion}
    (found : machine.memory.find address 4 = some region) (add : Word) :
    ∃ word after, directRead32 machine.memory address = some word ∧
      directWrite32 machine.memory address (word + add) = some after ∧
      addWord address add machine =
        .ok () { machine with
          memory := after, visits := machine.visits ++ [address] } := by
  obtain ⟨word, read⟩ : ∃ word, directRead32 machine.memory address =
      some word := by
    rw [directRead32, found]
    exact ⟨_, rfl⟩
  obtain ⟨after, written⟩ : ∃ after,
      directWrite32 machine.memory address (word + add) = some after := by
    rw [directWrite32, directWrite, Bytes.length_encode, found]
    exact ⟨_, rfl⟩
  refine ⟨word, after, read, written, ?_⟩
  rw [addWord_apply, read, Option.bind_some, written]

/-- Both relocations look up the same region. -/
private theorem Rebased.find {delta : Word} {first second : Relocating}
    (related : Rebased delta first second) (address : Word) :
    Option.Rel MemoryRegion.SameShape
      ((first.memory.find address 4).map (·.rebase delta))
      (second.memory.find (address + delta) 4) := by
  rw [← related.wellFormed.find_rebase related.rebasedWellFormed address
    (by omega) (by omega)]
  exact related.shape.find (address + delta) 4

/-- Writing related words keeps the relocations related. -/
private theorem Rebased.addWord {delta address add word word' : Word}
    {after after' : Memory} {first second : Relocating}
    (related : Rebased delta first second)
    (read : directRead32 first.memory address = some word)
    (written : directWrite32 first.memory address (word + add) = some after)
    (read' : directRead32 second.memory (address + delta) = some word')
    (written' : directWrite32 second.memory (address + delta)
      (word' + (add + delta)) = some after') :
    Rebased delta
      { first with memory := after, visits := first.visits ++ [address] }
      { second with
        memory := after', visits := second.visits ++ [address + delta] } := by
  have shape := directWrite_sameShape written
  have shape' := directWrite_sameShape written'
  have stored := directRead32_directWrite32 written
  have stored' := directRead32_directWrite32 written'
  have wellFormed' := related.shape.wellFormed related.rebasedWellFormed
  constructor
  · exact shape.wellFormed related.wellFormed
  · exact (shape.rebase delta).wellFormed related.rebasedWellFormed
  · exact (shape.symm.rebase delta).trans (related.shape.trans shape')
  · exact related.state
  · simp [related.visits]
  · intro aligned other otherAligned
    have beforeAligned : ∀ visit ∈ first.visits,
        first.memory.WordAligned visit := by
      intro visit member
      exact shape.symm.wordAligned
        (aligned visit (List.mem_append_left _ member))
    have here : first.memory.WordAligned address :=
      shape.symm.wordAligned (aligned address (by simp))
    have there := shape.symm.wordAligned otherAligned
    have before := related.words beforeAligned
    by_cases same : other = address
    · subst same
      have old := before other here
      rw [read, read', Option.map_some, Option.some.injEq] at old
      have counted : BitVec.ofNat 32 ((first.visits ++ [other]).count other) =
          BitVec.ofNat 32 (first.visits.count other) + (1 : Word) := by
        rw [List.count_append, List.count_singleton_self]
        exact BitVec.ofNat_add _ 1
      rw [stored, stored', Option.map_some, old, counted]
      congr 1
      ring
    · have rebasedApart :=
        wellFormed'.wordAligned_apart
          (related.shape.wordAligned (related.wellFormed.wordAligned_rebase
            related.rebasedWellFormed there))
          (related.shape.wordAligned (related.wellFormed.wordAligned_rebase
            related.rebasedWellFormed here))
          (fun equal => same (add_right_cancel equal))
      have apart := related.wellFormed.wordAligned_apart there here same
      rw [directRead32_directWrite_apart (by simp) written (by simpa using apart),
        directRead32_directWrite_apart (by simp) written'
          (by simpa using rebasedApart), before other there,
        List.count_append, List.count_singleton]
      simp [Ne.symm same]
  · intro other outside
    have apart := apart_of_not_inWord (outside address (by simp))
    have rebasedApart := apart_of_not_inWord
      (mt (inWord_add_iff delta address other).mp (outside address (by simp)))
    rw [rangeAt_directWrite_apart (by simp) (by omega) written
        (by simpa using apart),
      rangeAt_directWrite_apart (by simp) (by omega) written'
        (by simpa using rebasedApart)]
    apply related.others
    intro visit member
    exact outside visit (List.mem_append_left _ member)

/-- A relocated word and its rebased counterpart. -/
private theorem addWord_simulates {delta address add : Word} :
    Simulates (Rebased delta) (fun _ _ => True) (addWord address add)
      (addWord (address + delta) (add + delta)) := by
  intro first second related
  have lookup := related.find address
  cases found : first.memory.find address 4 with
  | none =>
      rw [found, Option.map_none] at lookup
      have absent : second.memory.find (address + delta) 4 = none := by
        generalize second.memory.find (address + delta) 4 = other at lookup
        cases lookup
        rfl
      rw [addWord_of_absent found, addWord_of_absent absent]
      exact ⟨rfl, related⟩
  | some region =>
      rw [found, Option.map_some] at lookup
      obtain ⟨rebased, found'⟩ : ∃ rebased,
          second.memory.find (address + delta) 4 = some rebased := by
        generalize second.memory.find (address + delta) 4 = other at lookup
        cases lookup
        exact ⟨_, rfl⟩
      obtain ⟨word, after, read, written, ran⟩ := addWord_of_found found add
      obtain ⟨word', after', read', written', ran'⟩ :=
        addWord_of_found found' (add + delta)
      rw [ran, ran']
      exact ⟨trivial, related.addWord read written read' written'⟩

section Instructions

variable {delta : Word} {info : ImageInfo} {imports : List ImportInfo}

/-- Both programs stay related, whatever they return. -/
private abbrev Equivariant (delta : Word) (first second : RelocM Unit) : Prop :=
  Simulates (Rebased delta) (fun _ _ => True) first second

private theorem modifyState_simulates {change change' : RelocState → RelocState}
    (commutes : ∀ state,
      change' (state.rebase delta) = (change state).rebase delta) :
    Equivariant delta (modifyState change) (modifyState change') := by
  apply Simulates.modify
  intro first second related
  obtain ⟨wellFormed, rebased, shape, state, visits, words, others⟩ := related
  refine ⟨wellFormed, rebased, shape, ?_, visits, words, others⟩
  simp only [state, commutes]

private theorem advance_simulates (amount : Word) :
    Equivariant delta (advance amount) (advance amount) := by
  apply modifyState_simulates
  intro state
  simp only [RelocState.rebase, add_right_comm]

private theorem addHere_simulates (add stride : Word) :
    Equivariant delta (addHere add stride) (addHere (add + delta) stride) := by
  apply Simulates.bind Simulates.get
  intro first second related
  rw [related.state]
  exact .andThen addWord_simulates (advance_simulates stride)

private theorem addRegisterRun_simulates {register : RelocState → Word}
    (shifted : ∀ state, register (state.rebase delta) = register state + delta)
    (count : Nat) :
    Equivariant delta (addRegisterRun register count)
      (addRegisterRun register count) := by
  apply Simulates.bind Simulates.get
  intro first second related
  rw [related.state, shifted]
  exact .times (addHere_simulates _ 4) count

private theorem addPair_simulates (stride : Word) :
    Equivariant delta (addPair stride) (addPair stride) := by
  apply Simulates.bind Simulates.get
  intro first second related
  rw [related.state]
  apply Simulates.andThen addWord_simulates
  refine .andThen ?_ (advance_simulates stride)
  simp only [RelocState.rebase, add_right_comm _ delta 4]
  exact addWord_simulates

private theorem sectionAddress_simulates (mapped : info.StaysMapped delta)
    (index : Nat) :
    Simulates (Rebased delta) (fun address address' => address' = address + delta)
      (sectionAddress info index)
      (sectionAddress (info.rebase delta) index) := by
  rw [sectionAddress, sectionAddress, ImageInfo.rebase, List.getElem?_map]
  cases entryAt : info.sections[index]? with
  | none => exact .throw _
  | some entry =>
      simp only [Option.map_some, SectionInfo.rebase]
      by_cases absent : entry.mappedAddress = 0
      · rw [if_pos absent, if_pos absent, if_pos rfl]
        exact .throw _
      · rw [if_neg absent, if_neg absent,
          if_neg (mapped entry (List.mem_of_getElem? entryAt) absent)]
        exact .pure rfl

/-- An instruction that loads the address of a section. -/
private theorem withSection_simulates (mapped : info.StaysMapped delta)
    {index : Nat} {next : Word → RelocM Unit}
    (step : ∀ address, Equivariant delta (next address)
      (next (address + delta))) :
    Equivariant delta (sectionAddress info index >>= next)
      (sectionAddress (info.rebase delta) index >>= next) := by
  apply Simulates.bind (sectionAddress_simulates mapped index)
  intro address address' equal
  rw [equal]
  exact step address

private theorem value_simulates (sub count : Nat) (noImport : sub ≠ 5) :
    Equivariant delta (value imports sub count) (value imports sub count) := by
  unfold value
  split
  · exact addRegisterRun_simulates (fun _ => rfl) count
  · exact addRegisterRun_simulates (fun _ => rfl) count
  · exact .times (addPair_simulates 12) count
  · exact .times (addPair_simulates 8) count
  · apply Simulates.times
    apply Simulates.bind Simulates.get
    intro first second related
    rw [related.state]
    exact addHere_simulates _ 8
  · exact absurd rfl noImport
  · exact .throw _

private theorem byIndex_simulates (mapped : info.StaysMapped delta)
    (sub index : Nat) (noImport : sub ≠ 0) :
    Equivariant delta (byIndex info imports sub index)
      (byIndex (info.rebase delta) imports sub index) := by
  unfold byIndex
  split
  · exact absurd rfl noImport
  · apply withSection_simulates mapped
    intro address
    exact modifyState_simulates fun _ => rfl
  · apply withSection_simulates mapped
    intro address
    exact modifyState_simulates fun _ => rfl
  · apply withSection_simulates mapped
    intro address
    exact addHere_simulates address 4
  · exact .throw _

private theorem lgSetOrBySection_simulates (mapped : info.StaysMapped delta)
    (sub index : Nat) :
    Equivariant delta (lgSetOrBySection info sub index)
      (lgSetOrBySection (info.rebase delta) sub index) := by
  apply withSection_simulates mapped
  intro address
  split
  · exact addHere_simulates address 4
  · exact modifyState_simulates fun _ => rfl
  · exact modifyState_simulates fun _ => rfl
  · exact .throw _

private theorem setPosition_simulates (offset : Word) :
    Equivariant delta
      (modifyState fun s => { s with address := s.targetBase + offset })
      (modifyState fun s => { s with address := s.targetBase + offset }) := by
  apply modifyState_simulates
  intro state
  simp only [RelocState.rebase, add_right_comm]

private theorem repeatBlocks_simulates
    {runBlocks runBlocks' : Option (Nat → Nat → RelocM Unit)}
    {start blockCount : Nat}
    (blocks : Option.Rel (fun execute execute' => Equivariant delta
      (execute (start - blockCount) start)
      (execute' (start - blockCount) start)) runBlocks runBlocks')
    (first repeatCount : Nat) (tooEarly : String) :
    Equivariant delta
      (repeatBlocks runBlocks first start blockCount repeatCount tooEarly)
      (repeatBlocks runBlocks' first start blockCount repeatCount
        tooEarly) := by
  cases blocks with
  | none => exact .throw _
  | some step =>
      simp only [repeatBlocks]
      by_cases early : start < first + blockCount
      · rw [if_pos early, if_pos early]
        exact .throw _
      · rw [if_neg early, if_neg early]
        exact .times step repeatCount

/-- One instruction, when the blocks it runs again are equivariant. -/
private theorem perform_simulates (mapped : info.StaysMapped delta)
    {runBlocks runBlocks' : Option (Nat → Nat → RelocM Unit)} {first : Nat}
    {instruction : Nat × Operation}
    (noImport : instruction.2.isImport = false)
    (blocks : ∀ blockCount ∈ instruction.2.repeatedBlocks,
      Option.Rel (fun execute execute' => Equivariant delta
        (execute (instruction.1 - blockCount) instruction.1)
        (execute' (instruction.1 - blockCount) instruction.1))
        runBlocks runBlocks') :
    Equivariant delta (perform info imports runBlocks first instruction)
      (perform (info.rebase delta) imports runBlocks' first instruction) := by
  obtain ⟨start, operation⟩ := instruction
  cases operation with
  | bySectDWithSkip skip count =>
      exact .andThen (advance_simulates (skip * 4))
        (addRegisterRun_simulates (fun _ => rfl) count)
  | value sub count =>
      exact value_simulates sub count (by simpa [Operation.isImport] using noImport)
  | byIndex sub index =>
      exact byIndex_simulates mapped sub index
        (by simpa [Operation.isImport] using noImport)
  | increment amount => exact advance_simulates amount
  | smallRepeat blockCount repeatCount =>
      exact repeatBlocks_simulates (blocks blockCount rfl) first repeatCount _
  | setPosition offset => exact setPosition_simulates offset
  | lgByImport index => cases noImport
  | lgRepeat blockCount repeatCount =>
      exact repeatBlocks_simulates (blocks blockCount rfl) first repeatCount _
  | lgSetOrBySection sub index =>
      exact lgSetOrBySection_simulates mapped sub index
  | truncated => exact .throw _
  | thirdParty => exact .throw _
  | reserved => exact .throw _

private theorem executeBlocks_simulates (mapped : info.StaysMapped delta)
    {chunks : List Half} {first finish : Nat}
    (noImport : ∀ instruction ∈ blockInstructions chunks first finish,
      instruction.2.isImport = false) :
    Equivariant delta (executeBlocks info imports chunks first finish)
      (executeBlocks (info.rebase delta) imports chunks first finish) := by
  apply Simulates.inOrder
  intro instruction member
  apply perform_simulates mapped (noImport instruction member)
  intro blockCount _
  exact .none

/-- A whole stream without imports. -/
theorem run_simulates (mapped : info.StaysMapped delta) {chunks : List Half}
    (importFree : ImportFree chunks) :
    Simulates (Rebased delta) (fun _ _ => True) (run info imports chunks)
      (run (info.rebase delta) imports chunks) := by
  apply Simulates.inOrder
  intro instruction member
  obtain ⟨noImport, repeated⟩ := importFree instruction member
  apply perform_simulates mapped noImport
  intro blockCount repeats
  exact .some (executeBlocks_simulates mapped (repeated blockCount repeats))

end Instructions

/-- Two relocations ended alike: the rebased one fails exactly when the other
does, with the same message, relocates the same places in the same order, and
leaves words that differ by the distance once for each relocation. -/
structure SameRelocation (delta targetBase : Word)
    (first second : EStateM.Result String Relocating Unit) : Prop where
  outcome : failure second = failure first
  visited : (stateOf second).visits.map (· - (targetBase + delta)) =
    (stateOf first).visits.map (· - targetBase)
  words : (∀ visit ∈ (stateOf first).visits,
      (stateOf first).memory.WordAligned visit) →
    ∀ address, (stateOf first).memory.WordAligned address →
      directRead32 (stateOf second).memory (address + delta) =
        (directRead32 (stateOf first).memory address).map
          (· + BitVec.ofNat 32 ((stateOf first).visits.count address) * delta)
  others : ∀ address,
    (∀ visit ∈ (stateOf first).visits, ¬ InWord visit address) →
      (stateOf second).memory.rangeAt (address + delta) 1 =
        (stateOf first).memory.rangeAt address 1

/-- Before the first instruction nothing is relocated. -/
private theorem rebased_start {delta : Word} {memory : Memory}
    (wellFormed : memory.WellFormed)
    (rebased : (memory.rebase delta).WellFormed) (state : RelocState) :
    Rebased delta { memory, state, visits := [] }
      { memory := memory.rebase delta
        state := state.rebase delta
        visits := [] } := by
  constructor
  · exact wellFormed
  · exact rebased
  · exact .refl _
  · rfl
  · rfl
  · intro _ address _
    rw [directRead32_eq, directRead32_eq,
      wellFormed.rangeAt_rebase rebased address (by omega) (by omega)]
    cases memory.rangeAt address 4 with
    | none => rfl
    | some bytes => simp
  · intro address _
    exact wellFormed.rangeAt_rebase rebased address (by omega) (by omega)

private theorem sameRelocation_of_outcome {delta targetBase : Word}
    {first second : EStateM.Result String Relocating Unit}
    (related : SameOutcome (Rebased delta) (fun _ _ => True) first second) :
    SameRelocation delta targetBase first second := by
  obtain ⟨outcome, states⟩ := related.failure_and_state
  constructor
  · exact outcome
  · rw [states.visits, List.map_map]
    apply List.map_congr_left
    intro visit _
    exact add_sub_add_right_eq_sub visit targetBase delta
  · exact states.words
  · exact states.others

/-- Relocating a rebased image is rebasing the relocated image. -/
theorem run_rebased (delta : Word) (info : ImageInfo)
    (imports : List ImportInfo) (chunks : List Half) (memory : Memory)
    (state : RelocState) (importFree : ImportFree chunks)
    (wellFormed : memory.WellFormed)
    (rebased : (memory.rebase delta).WellFormed)
    (mapped : info.StaysMapped delta) :
    SameRelocation delta state.targetBase
      (run info imports chunks { memory, state, visits := [] })
      (run (info.rebase delta) imports chunks
        { memory := memory.rebase delta
          state := state.rebase delta
          visits := [] }) := by
  apply sameRelocation_of_outcome
  apply run_simulates mapped importFree
  exact rebased_start wellFormed rebased state

/-- A pair of words, a repeat of it, a word by section index and one more at an
absolute position, in an image moved up by `0x1000`. -/
theorem run_rebased_pairs :
    ImportFree [0x4600, 0x9000, 0x6600, 0xa000, 0x0018, 0x4000] ∧
      SameRelocation 0x1000 0x2000
        (run
          { sections := [⟨0, 32, 32, 0, 0, 1, 2, 0x2000⟩] } []
          [0x4600, 0x9000, 0x6600, 0xa000, 0x0018, 0x4000]
          { memory := ⟨[⟨0x2000, List.replicate 32 0, .read, "data"⟩]⟩
            state := ⟨0x2000, 0x2000, 0x2000, 0x2000, 0⟩
            visits := [] })
        (run
          (ImageInfo.rebase 0x1000
            { sections := [⟨0, 32, 32, 0, 0, 1, 2, 0x2000⟩] }) []
          [0x4600, 0x9000, 0x6600, 0xa000, 0x0018, 0x4000]
          { memory := Memory.rebase 0x1000
              ⟨[⟨0x2000, List.replicate 32 0, .read, "data"⟩]⟩
            state := RelocState.rebase 0x1000
              ⟨0x2000, 0x2000, 0x2000, 0x2000, 0⟩
            visits := [] }) := by
  refine ⟨by decide, ?_⟩
  refine run_rebased 0x1000 _ _ _ _ ⟨0x2000, 0x2000, 0x2000, 0x2000, 0⟩
    (by decide) ?_ ?_ ?_
  · exact ⟨.cons (by simp) .nil, by simp, by simp [MemoryRegion.endExclusive]⟩
  · exact ⟨.cons (by simp) .nil, by simp [Memory.rebase, MemoryRegion.rebase],
      by simp [Memory.rebase, MemoryRegion.rebase, MemoryRegion.endExclusive]⟩
  · intro entry member _
    rw [List.mem_singleton.mp member]
    decide

end PpcLab.Pef
