import PpcLab.Loader.PefLoad

/-!
# Reading a PEF file

The sections of a container are filled from the file and its relocation streams
are read from the loader section.  What the file gives is within it, except
for pattern data of no length at an offset beyond the end, which the header
does not check.
-/

namespace PpcLab.Pef

open Loader Text Traced

/-- The contents of a section that was just mapped, from the file. -/
def fillSectionAt (bytes : List Byte) (entry : SectionInfo) (address : Word)
    (memory : Memory) : Intake Memory :=
  if (memory.find address entry.totalLength.toNat).isNone then
    fail "internal PEF mapping failure"
  else if entry.kind = kPatternData then do
    let _ ← subspan bytes entry.containerOffset.toNat
      entry.containerLength.toNat
    let unpacked ← unpackPatternAt
      ⟨bytes, entry.containerOffset.toNat, entry.containerLength.toNat⟩
      entry.unpackedLength.toNat
    return copyTo memory address entry.totalLength.toNat unpacked
  else if entry.containerLength != 0 then do
    let block ← subspan bytes entry.containerOffset.toNat
      (min entry.containerLength.toNat entry.unpackedLength.toNat)
    return copyTo memory address entry.totalLength.toNat block
  else pure memory

/-- The loop of `mapSections`, from a cursor. -/
def mapFromAt (bytes : List Byte) :
    Word → Memory → List SectionInfo → Intake (Memory × List SectionInfo)
  | _, memory, [] => pure (memory, [])
  | cursor, memory, entry :: rest =>
      if isPlaced entry = false then do
        let (memory, rest) ← mapFromAt bytes cursor memory rest
        return (memory, entry :: rest)
      else if entry.alignmentPower.toNat ≥ 31 then
        fail "PEF section alignment is too large"
      else
        let start := alignUp cursor (1 <<< entry.alignmentPower.toNat)
        if start.toNat + entry.totalLength.toNat > 2 ^ 32 then
          fail "PEF instantiated sections exceed 32-bit address space"
        else
          match memory.map start entry.totalLength.toNat
              (sectionPerms entry.kind) (regionName entry) with
          | (false, _) =>
              fail ("failed to map PEF section " ++
                decimal entry.index.toNat)
          | (true, memory) => do
              let memory ← fillSectionAt bytes entry start memory
              let (memory, rest) ←
                mapFromAt bytes (start + entry.totalLength) memory rest
              return (memory, { entry with mappedAddress := start } :: rest)

/-- Pattern data of no length, at an offset beyond the end of the file. -/
def pastEnd (bytes : List Byte) (entry : SectionInfo) : Bool :=
  entry.kind == kPatternData && entry.containerLength == 0 &&
    decide (bytes.length < entry.containerOffset.toNat)

/-- Mapping comes to such a section: every section before it is placed and
filled. -/
def reachesPastEnd (bytes : List Byte) :
    Word → Memory → List SectionInfo → Bool
  | _, _, [] => false
  | cursor, memory, entry :: rest =>
      if isPlaced entry = false then reachesPastEnd bytes cursor memory rest
      else if entry.alignmentPower.toNat ≥ 31 then false
      else
        let start := alignUp cursor (1 <<< entry.alignmentPower.toNat)
        if start.toNat + entry.totalLength.toNat > 2 ^ 32 then false
        else
          match memory.map start entry.totalLength.toNat
              (sectionPerms entry.kind) (regionName entry) with
          | (false, _) => false
          | (true, memory) =>
              if (memory.find start entry.totalLength.toNat).isNone then false
              else if pastEnd bytes entry then true
              else
                match fillSection bytes entry start memory with
                | .error _ => false
                | .ok memory =>
                    reachesPastEnd bytes (start + entry.totalLength) memory
                      rest

section Filling

variable {bytes : List Byte} {entry : SectionInfo}
  (inFile : InFile bytes entry)

include inFile

private theorem inFile_fits (nonempty : entry.containerLength.toNat ≠ 0) :
    entry.containerOffset.toNat + entry.containerLength.toNat ≤
      bytes.length := by
  have inside := inFile fun zero => nonempty (by rw [zero]; rfl)
  unfold Access.Inside at inside
  dsimp only at inside
  omega

/-- Pattern data is taken from within the file unless it is past the end. -/
private theorem pattern_inside_iff (isPattern : entry.kind = kPatternData) :
    Access.Inside bytes.length
        ⟨entry.containerOffset.toNat, entry.containerLength.toNat⟩ ↔
      pastEnd bytes entry = false := by
  unfold pastEnd
  rw [isPattern, beq_self_eq_true, Bool.true_and]
  by_cases empty : entry.containerLength = 0
  · rw [empty, beq_self_eq_true, Bool.true_and, decide_eq_false_iff_not,
      Nat.not_lt]
    exact and_iff_left (Nat.zero_le _)
  · rw [beq_eq_false_iff_ne.mpr empty]
    exact iff_of_true (inFile empty) rfl

/-- Filling a section from the file is filling it from its bytes.  It reads
within the file but for where the pattern data stands. -/
private theorem fillSectionAt_mirrors (property : Access → Prop)
    (inside : ∀ access, access.Inside bytes.length → property access)
    (atPattern : entry.kind = kPatternData →
      property ⟨entry.containerOffset.toNat, entry.containerLength.toNat⟩)
    (address : Word) (memory : Memory) :
    Mirrors property (fillSectionAt bytes entry address memory) id
      (fillSection bytes entry address memory) fun _ => True := by
  apply Mirrors.ite
  · intro unmapped
    exact .fail _
  · intro mapped
    apply Mirrors.ite
    · intro isPattern
      apply Mirrors.step rfl
      · intro access member
        rw [List.mem_singleton.mp member]
        exact atPattern isPattern
      · have unpacked := unpackPatternAt_mirrors
          ⟨bytes, entry.containerOffset.toNat, entry.containerLength.toNat⟩
          (inFile_fits inFile) entry.unpackedLength.toNat
        apply Mirrors.bind (unpacked.imp inside)
        intro contents holds
        exact .pure trivial
    · intro notPattern
      apply Mirrors.ite
      · intro nonempty
        have fits := inFile_fits inFile (fun zero => by
          rw [bne_iff_ne] at nonempty
          exact nonempty (BitVec.eq_of_toNat_eq zero))
        apply Mirrors.step rfl
        · intro access member
          rw [List.mem_singleton.mp member]
          exact inside _ (inside_range (by omega))
        · exact .pure trivial
      · intro empty
        exact .pure trivial

private theorem fillSectionAt_result (address : Word) (memory : Memory) :
    (fillSectionAt bytes entry address memory).result =
      fillSection bytes entry address memory := by
  have mirrors := fillSectionAt_mirrors inFile (fun _ => True)
    (fun access inside => trivial) (fun isPattern => trivial) address memory
  exact mirrors.result_eq

private theorem fillSectionAt_inside_iff {address : Word} {memory : Memory}
    (mapped : (memory.find address entry.totalLength.toNat).isNone = false) :
    (∀ access ∈ (fillSectionAt bytes entry address memory).steps,
        access.Inside bytes.length) ↔ pastEnd bytes entry = false := by
  constructor
  · intro every
    by_cases isPattern : entry.kind = kPatternData
    · rw [← pattern_inside_iff inFile isPattern]
      apply every
      unfold fillSectionAt
      rw [mapped, if_neg Bool.false_ne_true, if_pos isPattern,
        bind_of_ok (show (subspan bytes entry.containerOffset.toNat
          entry.containerLength.toNat).result = .ok _ from rfl)]
      exact List.mem_append_left _ List.mem_cons_self
    · unfold pastEnd
      rw [beq_eq_false_iff_ne.mpr isPattern, Bool.false_and, Bool.false_and]
  · intro notPastEnd
    have mirrors := fillSectionAt_mirrors inFile _ (fun _ inside => inside)
      (fun isPattern => (pattern_inside_iff inFile isPattern).mpr notPastEnd)
      address memory
    exact mirrors.every.steps

end Filling

section Mapping

variable {bytes : List Byte}

private theorem mapFromAt_result {cursor : Word} {memory : Memory}
    {sections : List SectionInfo}
    (inFile : ∀ entry ∈ sections, InFile bytes entry) :
    (mapFromAt bytes cursor memory sections).result =
      mapFrom bytes cursor memory sections := by
  induction sections generalizing cursor memory with
  | nil => rfl
  | cons entry rest induction =>
      have later : ∀ cursor memory,
          (mapFromAt bytes cursor memory rest).result =
            mapFrom bytes cursor memory rest :=
        fun cursor memory => induction fun other member =>
          inFile other (List.mem_cons_of_mem _ member)
      unfold mapFromAt mapFrom
      by_cases absent : isPlaced entry = false
      · rw [if_pos absent, if_pos absent, result_bind, later]
        rfl
      rw [if_neg absent, if_neg absent]
      by_cases large : entry.alignmentPower.toNat ≥ 31
      · rw [if_pos large, if_pos large]
        rfl
      rw [if_neg large, if_neg large]
      dsimp only
      generalize alignUp cursor (1 <<< entry.alignmentPower.toNat) = start
      by_cases exceeds : start.toNat + entry.totalLength.toNat > 2 ^ 32
      · rw [if_pos exceeds, if_pos exceeds]
        rfl
      rw [if_neg exceeds, if_neg exceeds]
      obtain ⟨accepted, mapped⟩ := memory.map start entry.totalLength.toNat
        (sectionPerms entry.kind) (regionName entry)
      cases accepted with
      | false => rfl
      | true =>
          dsimp only
          rw [result_bind, fillSectionAt_result (inFile entry List.mem_cons_self)]
          apply bind_congr
          intro filled
          rw [result_bind, later]
          rfl

/-- Mapping reads outside the file exactly where it comes to pattern data past
the end. -/
private theorem mapFromAt_inside_iff {cursor : Word} {memory : Memory}
    {sections : List SectionInfo}
    (inFile : ∀ entry ∈ sections, InFile bytes entry) :
    (∀ access ∈ (mapFromAt bytes cursor memory sections).steps,
        access.Inside bytes.length) ↔
      reachesPastEnd bytes cursor memory sections = false := by
  induction sections generalizing cursor memory with
  | nil =>
      apply iff_of_true _ rfl
      intro access member
      cases member
  | cons entry rest induction =>
      have later : ∀ cursor memory,
          (∀ access ∈ (mapFromAt bytes cursor memory rest).steps,
            access.Inside bytes.length) ↔
            reachesPastEnd bytes cursor memory rest = false :=
        fun cursor memory => induction fun other member =>
          inFile other (List.mem_cons_of_mem _ member)
      have here := inFile entry List.mem_cons_self
      unfold mapFromAt reachesPastEnd
      by_cases absent : isPlaced entry = false
      · rw [if_pos absent, if_pos absent,
          forall_steps_bind_iff fun found => rfl, later]
      rw [if_neg absent, if_neg absent]
      by_cases large : entry.alignmentPower.toNat ≥ 31
      · rw [if_pos large, if_pos large]
        exact iff_of_true (fun access member => by cases member) rfl
      rw [if_neg large, if_neg large]
      dsimp only
      generalize alignUp cursor (1 <<< entry.alignmentPower.toNat) = start
      by_cases exceeds : start.toNat + entry.totalLength.toNat > 2 ^ 32
      · rw [if_pos exceeds, if_pos exceeds]
        exact iff_of_true (fun access member => by cases member) rfl
      rw [if_neg exceeds, if_neg exceeds]
      obtain ⟨accepted, mapped⟩ := memory.map start entry.totalLength.toNat
        (sectionPerms entry.kind) (regionName entry)
      cases accepted with
      | false => exact iff_of_true (fun access member => by cases member) rfl
      | true =>
          dsimp only
          rw [forall_steps_bind, fillSectionAt_result here]
          cases found : (mapped.find start entry.totalLength.toNat).isNone with
          | true =>
              rw [if_pos rfl]
              apply iff_of_true _ rfl
              unfold fillSectionAt fillSection
              rw [found, if_pos rfl, if_pos rfl]
              constructor
              · intro access member
                cases member
              · intro filled succeeded
                cases succeeded
          | false =>
              rw [if_neg Bool.false_ne_true, fillSectionAt_inside_iff here found]
              cases pastEnd bytes entry with
              | true =>
                  rw [if_pos rfl]
                  apply iff_of_false
                  · intro both
                    cases both.1
                  · intro same
                    cases same
              | false =>
                  rw [if_neg Bool.false_ne_true, and_iff_right rfl]
                  cases fillSection bytes entry start mapped with
                  | error error =>
                      apply iff_of_true _ rfl
                      intro filled succeeded
                      cases succeeded
                  | ok filled =>
                      dsimp only
                      rw [← later]
                      constructor
                      · intro every
                        exact (forall_steps_bind_iff fun found => rfl).mp
                          (every filled rfl)
                      · intro every other same
                        cases same
                        exact (forall_steps_bind_iff fun found => rfl).mpr
                          every

end Mapping

/-- The blocks of a relocation header, from the file. -/
def chunksAt (parsed : ParsedPef) (loaderBase : Nat) (header : RelocHeader) :
    Intake (List Half) :=
  collect (fun i => be16At parsed.bytes (loaderBase +
      parsed.relocInstrOffset.toNat + header.firstOffset.toNat + i * 2))
    (List.range header.chunkCount.toNat)

def applyHeaderAt (parsed : ParsedPef) (info : ImageInfo) (loaderBase : Nat)
    (machine : Relocating) (header : RelocHeader) : Intake Relocating :=
  let target := mappedAddressOf info header.sectionIndex.toNat
  if target = 0 then
    fail "PEF relocation targets a non-instantiated section"
  else do
    let chunks ← chunksAt parsed loaderBase header
    ofExcept (outcome (run info parsed.imports chunks { machine with
      state :=
        { targetBase := target
          address := target
          sectionC := mappedAddressOf info 0
          sectionD := mappedAddressOf info 1
          importIndex := 0 } }))

def applyRelocationsAt (parsed : ParsedPef) (info : ImageInfo)
    (machine : Relocating) : Intake Relocating :=
  match parsed.loaderSectionIndex with
  | none => pure machine
  | some index =>
      let loaderBase :=
        (info.sections[index.toNat]?.map (·.containerOffset)).getD 0
      fold (applyHeaderAt parsed info loaderBase.toNat) machine
        parsed.relocHeaders

section Streams

variable {parsed : ParsedPef} {loaderBase : Nat}

/-- The stream of a relocation header lies in the file. -/
def StreamInside (parsed : ParsedPef) (loaderBase : Nat)
    (header : RelocHeader) : Prop :=
  loaderBase + parsed.relocInstrOffset.toNat + header.firstOffset.toNat +
    header.chunkCount.toNat * 2 ≤ parsed.bytes.length

private theorem chunksAt_mirrors {header : RelocHeader}
    (inside : StreamInside parsed loaderBase header) :
    Mirrors (Access.Inside parsed.bytes.length)
      (chunksAt parsed loaderBase header) id
      (.ok (chunksOf parsed loaderBase header)) fun _ => True := by
  unfold StreamInside at inside
  apply Mirrors.collect
  intro i member
  have bound := List.mem_range.mp member
  refine ⟨rfl, ?_⟩
  simp only [be16At, List.forall_mem_cons, List.not_mem_nil, false_implies,
    implies_true, and_true, inside_byte]
  omega

private theorem applyHeaderAt_mirrors {header : RelocHeader}
    (inside : StreamInside parsed loaderBase header) (info : ImageInfo)
    (machine : Relocating) :
    Mirrors (Access.Inside parsed.bytes.length)
      (applyHeaderAt parsed info loaderBase machine header) id
      (outcome (applyHeader parsed info loaderBase header machine))
      fun _ => True := by
  unfold applyHeaderAt applyHeader
  dsimp only
  by_cases absent : mappedAddressOf info header.sectionIndex.toNat = 0
  · rw [if_pos absent, if_pos absent]
    exact .fail _
  · rw [if_neg absent, if_neg absent]
    have chunks := chunksAt_mirrors inside
    exact Mirrors.step chunks.result_eq chunks.every.steps (.ofExcept _)

private theorem outcome_inOrder_cons (body : RelocHeader → RelocM Unit)
    (header : RelocHeader) (headers : List RelocHeader)
    (machine : Relocating) :
    outcome (inOrder body (header :: headers) machine) =
      (outcome (body header machine) >>= fun after =>
        outcome (inOrder body headers after)) := by
  show outcome (EStateM.bind (body header) (fun _ => inOrder body headers)
    machine) = _
  unfold EStateM.bind
  cases body header machine with
  | ok value after => rfl
  | error error after => rfl

variable (parsed) in
/-- Relocating from the file is relocating from its bytes. -/
theorem applyRelocationsAt_mirrors (info : ImageInfo) (machine : Relocating)
    (inside : ∀ index, parsed.loaderSectionIndex = some index →
      ∀ header ∈ parsed.relocHeaders, StreamInside parsed
        ((info.sections[index.toNat]?.map
          SectionInfo.containerOffset).getD 0).toNat header) :
    Mirrors (Access.Inside parsed.bytes.length)
      (applyRelocationsAt parsed info machine) id
      (outcome (applyRelocations parsed info machine)) fun _ => True := by
  unfold applyRelocationsAt applyRelocations
  cases isLoader : parsed.loaderSectionIndex with
  | none => exact .pure trivial
  | some index =>
      have streams := inside index isLoader
      clear inside
      dsimp only
      generalize parsed.relocHeaders = headers at streams ⊢
      induction headers generalizing machine with
      | nil => exact .pure trivial
      | cons header headers induction =>
          rw [outcome_inOrder_cons]
          apply Mirrors.bind (applyHeaderAt_mirrors
            (streams header List.mem_cons_self) info machine)
          intro after holds
          exact induction after fun other member =>
            streams other (List.mem_cons_of_mem _ member)

end Streams

/-- What `place` reads of the file. -/
def placeAt (parsed : Container) (memory : Memory) (imageBase : Word)
    (bindings : List SymbolBinding) : Intake (Memory × ImageInfo) := do
  let (memory, sections) ←
    mapFromAt parsed.bytes imageBase memory parsed.imageInfo.sections
  let relocated ← applyRelocationsAt
    (resolveImports parsed bindings).relocations { sections }
    (relocating memory)
  return (relocated.memory, { sections })

/-- What `loadFile` reads of the file. -/
def intake (bytes : List Byte) (memory : Memory) (imageBase : Word)
    (bindings : List SymbolBinding) : Intake (Memory × ImageInfo) := do
  let parsed ← parse bytes
  placeAt parsed memory imageBase bindings

section Whole

variable {bytes : List Byte} {parsed : Container}

private theorem inFile_imageInfo (isParsed : Parsed bytes parsed) :
    ∀ entry ∈ parsed.imageInfo.sections, InFile bytes entry := by
  intro entry member
  obtain ⟨header, inSections, isHeader⟩ := List.mem_map.mp member
  rw [← isHeader]
  exact (isParsed.unmapped header inSections).inFile

/-- The loader section keeps its place in the file when it is mapped. -/
private theorem streams_inside (isParsed : Parsed bytes parsed)
    (bindings : List SymbolBinding) {imageBase : Word}
    {memory after : Memory} {sections : List SectionInfo}
    (mapped : mapFrom bytes imageBase memory parsed.imageInfo.sections =
      .ok (after, sections)) (index : Word)
    (isLoader : parsed.loaderSectionIndex = some index)
    (header : RelocHeader) (member : header ∈ parsed.relocHeaders) :
    StreamInside (resolveImports parsed bindings).relocations
      ((sections[index.toNat]?.map SectionInfo.containerOffset).getD 0).toNat
      header := by
  obtain ⟨base, size, isRange, fits, stream⟩ := isParsed.streams header member
  rw [loaderRange, isLoader, Option.bind_some] at isRange
  obtain ⟨entry, isEntry, isBase⟩ := Option.map_eq_some_iff.mp isRange
  have sameBase : sections[index.toNat]?.map SectionInfo.containerOffset =
      some entry.containerOffset := by
    rw [← List.getElem?_map, mapFrom_offsets mapped, Container.imageInfo,
      List.map_map, List.getElem?_map, isEntry]
    rfl
  cases isBase
  rw [sameBase, Option.getD_some]
  show entry.containerOffset.toNat + parsed.loader.relocInstrOffset.toNat +
    header.firstOffset.toNat + header.chunkCount.toNat * 2 ≤
      parsed.bytes.length
  rw [isParsed.sameBytes]
  omega

private theorem placeAt_inside_iff (isParsed : Parsed bytes parsed)
    (memory : Memory) (imageBase : Word) (bindings : List SymbolBinding) :
    (∀ access ∈ (placeAt parsed memory imageBase bindings).steps,
        access.Inside bytes.length) ↔
      reachesPastEnd bytes imageBase memory parsed.imageInfo.sections =
        false := by
  have inFile := inFile_imageInfo isParsed
  unfold placeAt
  rw [forall_steps_bind, isParsed.sameBytes, mapFromAt_inside_iff inFile,
    mapFromAt_result inFile]
  apply and_iff_left
  intro found mapped
  obtain ⟨after, sections⟩ := found
  have relocated := applyRelocationsAt_mirrors
    (resolveImports parsed bindings).relocations { sections }
    (relocating after) (streams_inside isParsed bindings mapped)
  have inside := relocated.every.steps
  rw [← isParsed.sameBytes]
  exact (forall_steps_bind_iff fun machine => rfl).mpr inside

end Whole

/-- Loading reads outside the file exactly where mapping comes to pattern data
of no length that starts beyond the end. -/
theorem intake_inside_iff (bytes : List Byte) (memory : Memory)
    (imageBase : Word) (bindings : List SymbolBinding) :
    (∀ access ∈ (intake bytes memory imageBase bindings).steps,
        access.Inside bytes.length) ↔
      ∀ parsed, (parse bytes).result = .ok parsed →
        reachesPastEnd bytes imageBase memory parsed.imageInfo.sections =
          false := by
  unfold intake
  rw [forall_steps_bind]
  constructor
  · intro parts parsed isParsed
    exact (placeAt_inside_iff (parse_inside.value parsed isParsed) memory
      imageBase bindings).mp (parts.2 parsed isParsed)
  · intro clear
    refine ⟨parse_inside.steps, ?_⟩
    intro parsed isParsed
    exact (placeAt_inside_iff (parse_inside.value parsed isParsed) memory
      imageBase bindings).mpr (clear parsed isParsed)

/-- A container with one pattern-data section of no length, at the end of the
address space. -/
def pastEndFile : List Byte :=
  [0x4a, 0x6f, 0x79, 0x21, 0x70, 0x65, 0x66, 0x66,
   0x70, 0x77, 0x70, 0x63, 0, 0, 0, 1] ++
  List.replicate 16 0 ++
  [0, 1, 0, 1, 0, 0, 0, 0] ++
  [0xff, 0xff, 0xff, 0xff, 0, 0, 0, 0, 0, 0, 0, 1, 0, 0, 0, 0,
   0, 0, 0, 0, 0xff, 0xff, 0xff, 0xff, 2, 0, 0, 0]

theorem intake_reads_past_end :
    ¬ ∀ (bytes : List Byte) (memory : Memory) (imageBase : Word)
      (bindings : List SymbolBinding),
      ∀ access ∈ (intake bytes memory imageBase bindings).steps,
        access.Inside bytes.length := by
  intro always
  have access := always pastEndFile .empty 0x10000000 []
    ⟨0xffffffff, 0⟩
  revert access
  decide

end PpcLab.Pef
