import PpcLab.Loader.PefLoad
import PpcLab.Loader.SymbolLocation

/-!
# Symbols of a PEF container

The symbols that loading publishes, beside the places the file gives them: the
imports, the exports with their sections and pseudo-sections, and the entry
point of the main section.
-/

namespace PpcLab.Pef

open Loader Traced

/-- An offset in a section, which is in memory when it takes part in the
layout. -/
def sectionLocation (info : ImageInfo) (index : Nat) (offset : Word) :
    Location :=
  match info.sections[index]? with
  | none => .nowhere
  | some entry =>
      if isPlaced entry then .inSection entry.mappedAddress offset
      else .nowhere

/-- Section −2 is for absolute values and −3 for imports that are exported
again. -/
def exportLocation (info : ImageInfo) (entry : ExportEntry) : Location :=
  if entry.sectionIndex.toInt = -2 then .absolute entry.symbolValue
  else if entry.sectionIndex.toInt = -3 then .imported entry.name false
  else if 0 ≤ entry.sectionIndex.toInt then
    sectionLocation info entry.sectionIndex.toNat entry.symbolValue
  else .nowhere

def importLocated (bindings : List SymbolBinding) (imp : ImportEntry) :
    Located :=
  (.imported imp.name imp.weak,
    publishImport (importSymbol imp) (resolveImport bindings imp))

def exportLocated (info : ImageInfo) (entry : ExportEntry) : Located :=
  (exportLocation info entry, relocateExport info (exportSymbol entry))

def mainLocated (loader : LoaderHeader) (loaded : LoadedImage) :
    List Located :=
  if loaded.entry ≠ 0 then
    [(sectionLocation loaded.info loader.mainSection.toNat loader.mainOffset,
      mainSymbol loaded.entry)]
  else []

def locatedSymbols (parsed : Container) (loaded : LoadedImage)
    (bindings : List SymbolBinding) : List Located :=
  parsed.imports.map (importLocated bindings) ++
    parsed.exports.map (exportLocated loaded.info) ++
    mainLocated parsed.loader loaded

section Symbols

variable {bytes : List Byte} {parsed : Container} {info : ImageInfo}
  {bindings : List SymbolBinding}

private theorem zipWith_map_append {α β γ δ : Type} (combine : β → γ → δ)
    (left : α → β) (right : α → γ) (items : List α) (others : List β) :
    List.zipWith combine (items.map left ++ others) (items.map right) =
      items.map fun item => combine (left item) (right item) := by
  induction items with
  | nil => cases others <;> rfl
  | cons item items induction =>
      rw [List.map_cons, List.map_cons, List.cons_append,
        List.zipWith_cons_cons, List.map_cons, induction]

private theorem resolveImports_symbols (isParsed : Parsed bytes parsed) :
    (resolveImports parsed bindings).symbols =
      parsed.imports.map (fun imp => (importLocated bindings imp).2) ++
        parsed.exports.map exportSymbol := by
  have sameLength : (parsed.imports.map (resolveImport bindings)).length =
      (parsed.imports.map importSymbol).length := by
    rw [List.length_map, List.length_map]
  unfold resolveImports
  dsimp only
  rw [isParsed.symbols, zipWith_map_append, sameLength, List.drop_left]
  rfl

private theorem relocateExports_eq (isParsed : Parsed bytes parsed) :
    relocateExports (resolveImports parsed bindings) info =
      (parsed.imports.map (importLocated bindings) ++
        parsed.exports.map (exportLocated info)).map (·.2) := by
  have sameLength : (resolveImports parsed bindings).imports.length =
      (parsed.imports.map fun imp => (importLocated bindings imp).2).length := by
    unfold resolveImports
    rw [List.length_map, List.length_map]
  unfold relocateExports
  rw [resolveImports_symbols isParsed, sameLength, List.take_left,
    List.drop_left, List.map_append, List.map_map, List.map_map, List.map_map]
  rfl

private theorem importLocated_publishedAs {imp : ImportEntry}
    (unresolved : imp.resolved = false) :
    PublishedAs bindings (importLocated bindings imp) := by
  apply PublishedAs.of_real Location.noConfusion
  intro defined
  unfold publishImport resolveImport at defined ⊢
  cases bound : findSymbolBinding bindings imp.name with
  | some address => exact .inl bound
  | none =>
      rw [bound] at defined
      dsimp only at defined ⊢
      by_cases isWeak : imp.weak = true
      · rw [if_pos isWeak]
        exact .inr ⟨bound, isWeak, rfl⟩
      · rw [if_neg isWeak, unresolved] at defined
        cases defined

/-- Exports are defined, up to those of imports. -/
private theorem relocateExport_defined {entry : ExportEntry}
    (notImport : entry.sectionIndex.toInt ≠ -3) :
    (relocateExport info (exportSymbol entry)).defined = true := by
  unfold relocateExport
  dsimp only
  split
  · rfl
  · exact bne_iff_ne.mpr notImport

/-- A section whose number is negative is none of the image. -/
private theorem relocateExport_pseudo
    (few : info.sections.length < 2 ^ 16) {entry : ExportEntry}
    (negative : ¬ 0 ≤ entry.sectionIndex.toInt) :
    relocateExport info (exportSymbol entry) = exportSymbol entry := by
  have outside : info.sections[(0xffffffff : Word).toNat]? = none := by
    apply List.getElem?_eq_none
    have isLarge : (0xffffffff : Word).toNat = 2 ^ 32 - 1 := rfl
    omega
  unfold relocateExport exportSymbol mappedAddressOf
  dsimp only
  rw [if_neg negative, outside]
  rfl

private theorem relocateExport_section {entry : ExportEntry}
    {found : SectionInfo} (ordinary : 0 ≤ entry.sectionIndex.toInt)
    (isSection : info.sections[entry.sectionIndex.toNat]? = some found) :
    (relocateExport info (exportSymbol entry)).value =
      found.mappedAddress + entry.symbolValue := by
  have sameIndex : (entry.sectionIndex.setWidth 32).toNat =
      entry.sectionIndex.toNat := by
    rw [BitVec.toNat_setWidth]
    omega
  have isAddress : mappedAddressOf info
      (exportSymbol entry).sectionIndex.toNat = found.mappedAddress := by
    unfold mappedAddressOf exportSymbol
    dsimp only
    rw [if_pos ordinary, sameIndex, isSection]
    rfl
  unfold relocateExport
  dsimp only
  rw [isAddress]
  by_cases atZero : found.mappedAddress = 0
  · rw [if_neg (not_not_intro atZero), atZero]
    exact (BitVec.zero_add entry.symbolValue).symm
  · rw [if_pos atZero]
    rfl

private theorem exportLocated_publishedAs
    (few : info.sections.length < 2 ^ 16) (entry : ExportEntry) :
    PublishedAs bindings (exportLocated info entry) := by
  unfold exportLocated exportLocation
  by_cases isAbsolute : entry.sectionIndex.toInt = -2
  · rw [if_pos isAbsolute, relocateExport_pseudo few (by omega)]
    exact .of_real Location.noConfusion fun _ => rfl
  by_cases isImport : entry.sectionIndex.toInt = -3
  · rw [if_neg isAbsolute, if_pos isImport,
      relocateExport_pseudo few (by omega)]
    apply PublishedAs.of_real Location.noConfusion
    intro defined
    exact absurd isImport (bne_iff_ne.mp defined)
  have defined : (relocateExport info (exportSymbol entry)).defined = true :=
    relocateExport_defined isImport
  rw [if_neg isAbsolute, if_neg isImport]
  by_cases ordinary : 0 ≤ entry.sectionIndex.toInt
  · rw [if_pos ordinary]
    unfold sectionLocation
    cases isSection : info.sections[entry.sectionIndex.toNat]? with
    | none => exact .of_nowhere defined
    | some found =>
        dsimp only
        by_cases placed : isPlaced found = true
        · rw [if_pos placed]
          apply PublishedAs.of_real Location.noConfusion
          intro _
          exact relocateExport_section ordinary isSection
        · rw [if_neg placed]
          exact .of_nowhere defined
  · rw [if_neg ordinary]
    exact .of_nowhere defined

end Symbols

private theorem mapSections_placed {parsed : Container} {bytes : List Byte}
    {memory mapped : Memory} {info : ImageInfo} {imageBase : Word}
    (isParsed : Parsed bytes parsed)
    (isMapped : mapSections parsed.bytes memory parsed.imageInfo imageBase =
      .ok (mapped, info)) :
    info.sections.length < 2 ^ 16 ∧
      ∀ entry ∈ info.sections, entry.mappedAddress ≠ 0 →
        isPlaced entry = true := by
  obtain ⟨found, succeeded, returned⟩ := Outcome.bind_eq_ok.mp isMapped
  cases returned
  constructor
  · rw [length_mapFrom succeeded, Container.imageInfo, List.length_map]
    exact isParsed.few
  · apply mapFrom_placed succeeded
    intro entry member
    obtain ⟨header, isHeader, same⟩ := List.mem_map.mp member
    rw [← same]
    exact (isParsed.unmapped header isHeader).unmapped

/-- The main entry point lies in a section that is in memory. -/
private theorem entryAddress_located {info : ImageInfo}
    {sectionIndex offset entry : Word} {label : String}
    (placed : ∀ entry ∈ info.sections, entry.mappedAddress ≠ 0 →
      isPlaced entry = true)
    (found : entryAddress info sectionIndex offset label = .ok entry)
    (hasEntry : entry ≠ 0) :
    ∃ address, sectionLocation info sectionIndex.toNat offset =
      .inSection address offset ∧ entry = address + offset := by
  unfold entryAddress at found
  dsimp only at found
  split at found
  · cases found
    exact absurd rfl hasEntry
  unfold sectionLocation
  cases isSection : info.sections[sectionIndex.toNat]? with
  | none =>
      rw [isSection] at found
      cases found
  | some target =>
      rw [isSection] at found
      dsimp only at found ⊢
      split at found
      · cases found
      · rename_i inside
        cases found
        have isTarget := placed target (List.mem_of_getElem? isSection)
          fun atZero => inside (.inl atZero)
        rw [if_pos isTarget]
        exact ⟨_, rfl, rfl⟩

private theorem mainLocated_publishedAs {loader : LoaderHeader}
    {loaded : LoadedImage} {bindings : List SymbolBinding}
    (placed : ∀ entry ∈ loaded.info.sections, entry.mappedAddress ≠ 0 →
      isPlaced entry = true)
    (isEntry : entryAddress loaded.info loader.mainSection loader.mainOffset
      "main" = .ok loaded.entry) :
    ∀ found ∈ mainLocated loader loaded, PublishedAs bindings found := by
  intro found member
  unfold mainLocated at member
  split at member
  · rename_i hasEntry
    rw [List.mem_singleton] at member
    obtain ⟨address, isAddress, isSum⟩ :=
      entryAddress_located placed isEntry hasEntry
    rw [member, isAddress]
    exact .of_real Location.noConfusion fun _ => isSum
  · cases member

theorem symbols_sound_iff {bytes : List Byte} {memory : Memory}
    {imageBase : Word} {bindings : List SymbolBinding} {parsed : Container}
    {loaded : LoadedImage} (isParsed : (parse bytes).result = .ok parsed)
    (isLoaded : loadFile bytes memory imageBase bindings = .ok loaded) :
    loaded.symbols = (locatedSymbols parsed loaded bindings).map (·.2) ∧
      (SoundSymbols bindings (locatedSymbols parsed loaded bindings) ↔
        Resolvable (locatedSymbols parsed loaded bindings)) := by
  have sound := parse_inside.value parsed isParsed
  unfold loadFile at isLoaded
  rw [isParsed] at isLoaded
  obtain ⟨found, foundParsed, isLoaded⟩ := Outcome.bind_eq_ok.mp isLoaded
  cases foundParsed
  obtain ⟨filled, isFilled, isLoaded⟩ := Outcome.bind_eq_ok.mp isLoaded
  obtain ⟨after, info⟩ := filled
  obtain ⟨mapped, isMapped, isFilled⟩ := Outcome.bind_eq_ok.mp isFilled
  obtain ⟨relocated, applied, returned⟩ := Outcome.bind_eq_ok.mp isFilled
  cases returned
  obtain ⟨entry, isEntry, isLoaded⟩ := Outcome.bind_eq_ok.mp isLoaded
  obtain ⟨init, isInit, isLoaded⟩ := Outcome.bind_eq_ok.mp isLoaded
  obtain ⟨term, isTerm, returned⟩ := Outcome.bind_eq_ok.mp isLoaded
  cases returned
  obtain ⟨few, placed⟩ := mapSections_placed sound isMapped
  refine ⟨?_, soundSymbols_iff ?_⟩
  · unfold locatedSymbols mainLocated
    dsimp only
    rw [relocateExports_eq sound]
    split
    · rw [List.map_append, List.map_append, List.map_append]
      rfl
    · rw [List.append_nil]
  · intro located member
    unfold locatedSymbols at member
    rw [List.mem_append, List.mem_append] at member
    rcases member with (isImport | isExport) | isMain
    · obtain ⟨imp, isImp, same⟩ := List.mem_map.mp isImport
      rw [← same]
      exact importLocated_publishedAs (sound.unresolved imp isImp)
    · obtain ⟨exported, _, same⟩ := List.mem_map.mp isExport
      rw [← same]
      exact exportLocated_publishedAs few exported
    · exact mainLocated_publishedAs placed isEntry located isMain

end PpcLab.Pef
