import PpcLab.Loader.PefContainer

/-!
# Loading a PEF file

The sections of a container are mapped, its imports resolved, its relocation
streams run, and its exports and entry points given their run-time addresses.
-/

namespace PpcLab.Pef

open Loader Text

/-- A container in memory. -/
structure LoadedImage where
  memory : Memory
  info : ImageInfo
  entry : Word
  initTransitionVector : Word
  termTransitionVector : Word
  symbols : List ImageSymbol
  deriving DecidableEq, Repr

def Container.imageInfo (parsed : Container) : ImageInfo :=
  { sections := parsed.sections.map (·.toSectionInfo) }

def resolveImport (bindings : List SymbolBinding) (imp : ImportEntry) :
    ImportEntry :=
  match findSymbolBinding bindings imp.name with
  | some address => { imp with address, resolved := true }
  | none =>
      if imp.weak then { imp with address := 0, resolved := true } else imp

/-- The public symbol of an import takes its address. -/
def publishImport (symbol : ImageSymbol) (imp : ImportEntry) : ImageSymbol :=
  { symbol with value := imp.address, defined := imp.resolved }

def resolveImports (parsed : Container) (bindings : List SymbolBinding) :
    Container :=
  let imports := parsed.imports.map (resolveImport bindings)
  { parsed with
    imports
    symbols := List.zipWith publishImport parsed.symbols imports ++
      parsed.symbols.drop imports.length }

/-- What relocation reads of a container. -/
def Container.relocations (parsed : Container) : ParsedPef :=
  { bytes := parsed.bytes
    loaderSectionIndex := parsed.loaderSectionIndex
    relocInstrOffset := parsed.loader.relocInstrOffset
    imports := parsed.imports.map (·.toImportInfo)
    relocHeaders := parsed.relocHeaders }

/-- The interpreter before any relocation. -/
def relocating (memory : Memory) : Relocating :=
  { memory, state := ⟨0, 0, 0, 0, 0⟩, visits := [] }

/-- What a relocation came to; a failed one leaves no image. -/
def outcome : EStateM.Result String Relocating Unit → Except String Relocating
  | .ok _ machine => .ok machine
  | .error error _ => .error error

/-- The part of `loadFile` that fills the memory. -/
def place (parsed : Container) (memory : Memory) (imageBase : Word)
    (bindings : List SymbolBinding) : Except String (Memory × ImageInfo) := do
  let (memory, info) ←
    mapSections parsed.bytes memory parsed.imageInfo imageBase
  let relocated ← outcome (applyRelocations
    (resolveImports parsed bindings).relocations info (relocating memory))
  return (relocated.memory, info)

/-- Exports of pseudo-sections keep their raw value. -/
def relocateExport (info : ImageInfo) (symbol : ImageSymbol) : ImageSymbol :=
  let address := mappedAddressOf info symbol.sectionIndex.toNat
  if address ≠ 0 then
    { symbol with value := address + symbol.value, defined := true }
  else symbol

def relocateExports (parsed : Container) (info : ImageInfo) :
    List ImageSymbol :=
  parsed.symbols.take parsed.imports.length ++
    (parsed.symbols.drop parsed.imports.length).map (relocateExport info)

/-- `addressFor` -/
def entryAddress (info : ImageInfo) (sectionIndex offset : Word)
    (label : String) : Except String Word :=
  let outside :=
    "PEF " ++ label ++ " entry points outside an instantiated section"
  if sectionIndex.toInt < 0 then .ok 0
  else
    match info.sections[sectionIndex.toNat]? with
    | none => .error outside
    | some entry =>
        if entry.mappedAddress = 0 ∨ entry.totalLength ≤ offset then
          .error outside
        else .ok (entry.mappedAddress + offset)

def mainSymbol (entry : Word) : ImageSymbol :=
  { name := "__pef_main", value := entry, size := 0, sectionIndex := 0
    binding := 0, type := 0, defined := true, imported := false }

def discoverEntries (loader : LoaderHeader) (memory : Memory)
    (info : ImageInfo) (symbols : List ImageSymbol) :
    Except String LoadedImage := do
  let entry ← entryAddress info loader.mainSection loader.mainOffset "main"
  let initTransitionVector ←
    entryAddress info loader.initSection loader.initOffset "init"
  let termTransitionVector ←
    entryAddress info loader.termSection loader.termOffset "term"
  return {
    memory, info, entry, initTransitionVector, termTransitionVector
    symbols := if entry ≠ 0 then symbols ++ [mainSymbol entry] else symbols }

def loadFile (bytes : List Byte) (memory : Memory) (imageBase : Word)
    (bindings : List SymbolBinding) : Except String LoadedImage := do
  let parsed ← (parse bytes).result
  let (memory, info) ← place parsed memory imageBase bindings
  discoverEntries parsed.loader memory info
    (relocateExports (resolveImports parsed bindings) info)

/-- A section without its address. -/
def SectionInfo.withoutAddress (entry : SectionInfo) : SectionInfo :=
  { entry with mappedAddress := 0 }

/-- Mapping gives sections an address and changes nothing else of them. -/
theorem mapFrom_withoutAddress {bytes : List Byte} {cursor : Word}
    {memory after : Memory} {sections result : List SectionInfo}
    (succeeded : mapFrom bytes cursor memory sections = .ok (after, result)) :
    result.map (·.withoutAddress) = sections.map (·.withoutAddress) := by
  induction sections generalizing cursor memory after result with
  | nil =>
      cases succeeded
      rfl
  | cons entry rest induction =>
      unfold mapFrom at succeeded
      split at succeeded
      · obtain ⟨found, mapped, returned⟩ := Outcome.bind_eq_ok.mp succeeded
        cases returned
        rw [List.map_cons, List.map_cons, induction mapped]
      split at succeeded
      · cases succeeded
      dsimp only at succeeded
      split at succeeded
      · cases succeeded
      split at succeeded
      · cases succeeded
      obtain ⟨filled, isFilled, succeeded⟩ := Outcome.bind_eq_ok.mp succeeded
      obtain ⟨found, mapped, returned⟩ := Outcome.bind_eq_ok.mp succeeded
      cases returned
      rw [List.map_cons, List.map_cons, induction mapped]
      rfl

theorem mapFrom_offsets {bytes : List Byte} {cursor : Word}
    {memory after : Memory} {sections result : List SectionInfo}
    (succeeded : mapFrom bytes cursor memory sections = .ok (after, result)) :
    result.map SectionInfo.containerOffset =
      sections.map SectionInfo.containerOffset := by
  have same := congrArg (List.map SectionInfo.containerOffset)
    (mapFrom_withoutAddress succeeded)
  rw [List.map_map, List.map_map] at same
  exact same

theorem length_mapFrom {bytes : List Byte} {cursor : Word}
    {memory after : Memory} {sections result : List SectionInfo}
    (succeeded : mapFrom bytes cursor memory sections = .ok (after, result)) :
    result.length = sections.length := by
  have same := congrArg List.length (mapFrom_withoutAddress succeeded)
  rw [List.length_map, List.length_map] at same
  exact same

/-- Only sections that take part in the layout get an address. -/
theorem mapFrom_placed {bytes : List Byte} {cursor : Word}
    {memory after : Memory} {sections result : List SectionInfo}
    (succeeded : mapFrom bytes cursor memory sections = .ok (after, result))
    (unmapped : ∀ entry ∈ sections, entry.mappedAddress = 0) :
    ∀ entry ∈ result, entry.mappedAddress ≠ 0 → isPlaced entry = true := by
  induction sections generalizing cursor memory after result with
  | nil =>
      cases succeeded
      intro entry absent
      cases absent
  | cons first rest induction =>
      have later := fun other member =>
        unmapped other (List.mem_cons_of_mem first member)
      unfold mapFrom at succeeded
      split at succeeded
      · obtain ⟨found, mapped, returned⟩ := Outcome.bind_eq_ok.mp succeeded
        cases returned
        intro entry member hasAddress
        rcases List.mem_cons.mp member with isFirst | further
        · rw [isFirst] at hasAddress
          exact absurd (unmapped first List.mem_cons_self) hasAddress
        · exact induction mapped later entry further hasAddress
      rename_i present
      split at succeeded
      · cases succeeded
      dsimp only at succeeded
      split at succeeded
      · cases succeeded
      split at succeeded
      · cases succeeded
      obtain ⟨filled, isFilled, succeeded⟩ := Outcome.bind_eq_ok.mp succeeded
      obtain ⟨found, mapped, returned⟩ := Outcome.bind_eq_ok.mp succeeded
      cases returned
      intro entry member hasAddress
      rcases List.mem_cons.mp member with isFirst | further
      · rw [isFirst]
        exact Bool.eq_true_of_not_eq_false present
      · exact induction mapped later entry further hasAddress

end PpcLab.Pef
