import PpcLab.Loader.Elf32Load
import PpcLab.Loader.SymbolLocation

/-!
# Symbols of an ELF image

The symbols that loading publishes, beside the places the file gives them: the
offset of a relocatable object is counted from its section, the value of a
linked image is an address that moves with the load bias.
-/

namespace PpcLab.Elf32

open Loader Traced

/-- The range of a section lies in a segment. -/
def covers (segment : SegmentInfo) (header : SectionHeader) : Bool :=
  decide (segment.virtualAddress.toNat ≤ header.address.toNat) &&
    decide (header.address.toNat + header.size.toNat ≤
      segment.virtualAddress.toNat + segment.memorySize.toNat)

/-- A section that is in memory once the file is loaded. -/
def isMapped (parsed : ParsedElf) (header : SectionHeader) : Bool :=
  if parsed.type == etRel then isAllocated header.toSectionInfo
  else (header.flags &&& shfAlloc) != 0 &&
    parsed.loadSegments.any (covers · header)

/-- Values of a relocatable object are offsets, those of a linked image are
addresses. -/
def symbolOffset (parsed : ParsedElf) (header : SectionHeader)
    (raw : RawSymbol) : Word :=
  if parsed.type == etRel then raw.publicSymbol.value
  else raw.publicSymbol.value - header.address

def mappedAddressOf (info : ImageInfo) (index : Nat) : Word :=
  (info.sections[index]?.map (·.mappedAddress)).getD 0

def symbolLocation (parsed : ParsedElf) (info : ImageInfo)
    (raw : RawSymbol) : Location :=
  if raw.shndx = shnUndef then
    .imported raw.publicSymbol.name (raw.publicSymbol.binding == stbWeak)
  else if raw.shndx = shnAbs then .absolute raw.publicSymbol.value
  else if raw.shndx = shnCommon then .nowhere
  else
    match parsed.sections[raw.shndx.toNat]? with
    | none => .nowhere
    | some header =>
        if isMapped parsed header then
          .inSection (mappedAddressOf info raw.shndx.toNat)
            (symbolOffset parsed header raw)
        else .nowhere

/-- The symbols with a name, in the order of their tables. -/
def namedRaws (parsed : ParsedElf) : List RawSymbol :=
  (parsed.symbolTables.flatMap (·.symbols)).filter fun raw =>
    !raw.publicSymbol.name.isEmpty

def locatedSymbols (parsed : ParsedElf) (info : ImageInfo)
    (bindings : List SymbolBinding) : List Located :=
  (namedRaws parsed).map fun raw =>
    (symbolLocation parsed info raw,
      (runtimeSymbol parsed.type info bindings raw).symbol)

section Published

variable {parsed : ParsedElf} {info : ImageInfo}
  {bindings : List SymbolBinding}

theorem publishedSymbols_eq :
    publishedSymbols (buildRuntimeSymbols parsed info bindings) =
      (locatedSymbols parsed info bindings).map (·.2) := by
  unfold publishedSymbols buildRuntimeSymbols locatedSymbols namedRaws
  rw [List.map_map, List.flatMap_map]
  induction parsed.symbolTables with
  | nil => rfl
  | cons table tables induction =>
      rw [List.flatMap_cons, List.flatMap_cons, List.filter_append,
        List.filter_append, List.map_append, induction, List.map_map,
        List.filter_map]
      rfl

/-- What mapping an image leaves of its sections. -/
structure SameSections (parsed : ParsedElf) (info : ImageInfo) : Prop where
  length : info.sections.length = parsed.sections.length
  linked : parsed.type ≠ etRel →
    info.sections = parsed.sections.map (publishSection info.loadBias)

theorem mapImage_sameSections {memory : Memory} {imageBase : Word}
    {placed : Placed}
    (isPlaced : (mapImage parsed memory imageBase).result = .ok placed) :
    SameSections parsed placed.info := by
  unfold mapImage at isPlaced
  by_cases isRel : parsed.type = etRel
  · rw [isRel, beq_self_eq_true, if_pos rfl, result_bind] at isPlaced
    obtain ⟨found, mapped, returned⟩ := Outcome.bind_eq_ok.mp isPlaced
    cases returned
    have length :=
      ((mapRelFromAt_inside _ _ _).value found mapped).length_eq
    rw [List.length_map] at length
    exact ⟨length.symm, fun linked => absurd isRel linked⟩
  · rw [beq_eq_false_iff_ne.mpr isRel, if_neg Bool.false_ne_true]
      at isPlaced
    dsimp only at isPlaced
    rw [result_bind] at isPlaced
    obtain ⟨found, mapped, returned⟩ := Outcome.bind_eq_ok.mp isPlaced
    cases returned
    exact ⟨List.length_map _, fun linked => rfl⟩

/-- A symbol of a section that is there. -/
private theorem publishedAs_of_section (same : SameSections parsed info)
    {raw : RawSymbol} {header : SectionHeader}
    (isHeader : parsed.sections[raw.shndx.toNat]? = some header)
    (mapped : isMapped parsed header = true) :
    ∃ entry, info.sections[raw.shndx.toNat]? = some entry ∧
      (if parsed.type = etRel then
        some (entry.mappedAddress + raw.publicSymbol.value)
      else some (info.loadBias + raw.publicSymbol.value)) =
        some (mappedAddressOf info raw.shndx.toNat +
          symbolOffset parsed header raw) := by
  unfold isMapped at mapped
  unfold mappedAddressOf symbolOffset
  by_cases isRel : parsed.type = etRel
  · obtain ⟨bound, _⟩ := List.getElem?_eq_some_iff.mp isHeader
    rw [← same.length] at bound
    refine ⟨info.sections[raw.shndx.toNat],
      List.getElem?_eq_getElem bound, ?_⟩
    rw [if_pos isRel, isRel, beq_self_eq_true, if_pos rfl,
      List.getElem?_eq_getElem bound]
    rfl
  · have notRel := beq_eq_false_iff_ne.mpr isRel
    rw [notRel, if_neg Bool.false_ne_true, Bool.and_eq_true] at mapped
    have isEntry : info.sections[raw.shndx.toNat]? =
        some (publishSection info.loadBias header) := by
      rw [same.linked isRel, List.getElem?_map, isHeader]
      rfl
    refine ⟨_, isEntry, ?_⟩
    rw [if_neg isRel, notRel, if_neg Bool.false_ne_true, isEntry,
      Option.map_some, Option.getD_some, publishSection, if_pos mapped.1]
    exact congrArg some (add_eq_add_sub _ _ _)

/-- An imported symbol has a real address, or none at all. -/
private theorem real_of_imported {raw : RawSymbol} {address : Word}
    (named : raw.publicSymbol.name.isEmpty = false)
    (isUndefined : raw.shndx = shnUndef)
    (found : resolveSymbol parsed.type info bindings raw = some address) :
    (Location.imported raw.publicSymbol.name
      (raw.publicSymbol.binding == stbWeak)).Real bindings address := by
  unfold resolveSymbol at found
  rw [if_pos isUndefined, named, if_neg Bool.false_ne_true] at found
  cases bound : findSymbolBinding bindings raw.publicSymbol.name with
  | some supplied =>
      rw [bound] at found
      cases found
      exact .inl bound
  | none =>
      rw [bound] at found
      dsimp only at found
      split at found
      · rename_i isWeak
        cases found
        exact .inr ⟨bound, beq_iff_eq.mpr isWeak, rfl⟩
      · cases found

private theorem publishedAs (same : SameSections parsed info)
    {raw : RawSymbol} (named : raw.publicSymbol.name.isEmpty = false) :
    PublishedAs bindings (symbolLocation parsed info raw,
      (runtimeSymbol parsed.type info bindings raw).symbol) := by
  unfold symbolLocation runtimeSymbol
  by_cases isUndefined : raw.shndx = shnUndef
  · rw [if_pos isUndefined]
    apply PublishedAs.of_real Location.noConfusion
    intro defined
    dsimp only at defined ⊢
    rw [isUndefined, bne_self_eq_false, Bool.false_or] at defined
    obtain ⟨address, found⟩ := Option.isSome_iff_exists.mp defined
    rw [found]
    exact real_of_imported named isUndefined found
  · rw [if_neg isUndefined]
    have defined : ∀ found : Option Word,
        (raw.shndx != shnUndef || found.isSome) = true := by
      intro found
      rw [bne_iff_ne.mpr isUndefined, Bool.true_or]
    by_cases isAbsolute : raw.shndx = shnAbs
    · rw [if_pos isAbsolute]
      apply PublishedAs.of_real Location.noConfusion
      intro _
      unfold resolveSymbol
      dsimp only
      rw [if_neg isUndefined, if_pos isAbsolute]
      rfl
    · rw [if_neg isAbsolute]
      by_cases isCommon : raw.shndx = shnCommon
      · rw [if_pos isCommon]
        exact .of_nowhere (defined _)
      · rw [if_neg isCommon]
        cases isHeader : parsed.sections[raw.shndx.toNat]? with
        | none => exact .of_nowhere (defined _)
        | some header =>
            dsimp only
            by_cases mapped : isMapped parsed header = true
            · rw [if_pos mapped]
              apply PublishedAs.of_real Location.noConfusion
              intro _
              obtain ⟨entry, isEntry, address⟩ :=
                publishedAs_of_section same isHeader mapped
              unfold resolveSymbol
              dsimp only
              rw [if_neg isUndefined, if_neg isAbsolute, if_neg isCommon,
                isEntry]
              dsimp only
              rw [address]
              rfl
            · rw [if_neg mapped]
              exact .of_nowhere (defined _)

end Published

theorem symbols_sound_iff {bytes : List Byte} {memory : Memory}
    {imageBase : Word} {bindings : List SymbolBinding} {error : String}
    {parsed : ParsedElf} {loaded : LoadedElf}
    (isParsed : (parse bytes).result = .ok parsed)
    (isLoaded : (loadFile bytes memory imageBase bindings error).result =
      .ok loaded) :
    loaded.symbols =
        (locatedSymbols parsed loaded.info bindings).map (·.2) ∧
      (SoundSymbols bindings (locatedSymbols parsed loaded.info bindings) ↔
        Resolvable (locatedSymbols parsed loaded.info bindings)) := by
  unfold loadFile at isLoaded
  rw [result_bind, isParsed] at isLoaded
  obtain ⟨found, foundParsed, isLoaded⟩ := Outcome.bind_eq_ok.mp isLoaded
  cases foundParsed
  rw [result_bind] at isLoaded
  obtain ⟨placed, isPlaced, isLoaded⟩ := Outcome.bind_eq_ok.mp isLoaded
  dsimp only at isLoaded
  rw [result_bind] at isLoaded
  obtain ⟨after, relocated, returned⟩ := Outcome.bind_eq_ok.mp isLoaded
  cases returned
  refine ⟨publishedSymbols_eq, soundSymbols_iff ?_⟩
  intro located member
  obtain ⟨raw, isRaw, isLocated⟩ := List.mem_map.mp member
  have named : raw.publicSymbol.name.isEmpty = false := by
    have kept := (List.mem_filter.mp isRaw).2
    rw [Bool.not_eq_true'] at kept
    exact kept
  rw [← isLocated]
  exact publishedAs (mapImage_sameSections isPlaced) named

end PpcLab.Elf32
