import PpcLab.Loader.Elf32Symbols
import PpcLab.Loader.Elf32Targets
import PpcLab.Loader.MachOSymbols
import PpcLab.Loader.PefSymbols

/-!
# Published symbols

The symbols of an image that loads, whatever its format, are sound exactly when
each of them has a place.  A symbol without one, such as a common symbol or one
of a section that is not mapped, is published as defined with its raw value.
-/

namespace PpcLab

open Loader

/-- A file loads and publishes symbols, beside the places it gives them. -/
inductive Publishes (file : List Byte) (memory : Memory) (imageBase : Word)
    (bindings : List SymbolBinding) :
    List ImageSymbol → List Located → Prop where
  | elf {error : String} {parsed : Elf32.ParsedElf}
      {loaded : Elf32.LoadedElf}
      (isParsed : (Elf32.parse file).result = .ok parsed)
      (isLoaded : (Elf32.loadFile file memory imageBase bindings
        error).result = .ok loaded) :
      Publishes file memory imageBase bindings loaded.symbols
        (Elf32.locatedSymbols parsed loaded.info bindings)
  | machO {error : String} {slice : MachO.Slice}
      {parsed : MachO.ParsedSlice} {after : Memory} {info : MachO.ImageInfo}
      (chosen : (MachO.chooseSlice file).result = .ok slice)
      (isParsed : (MachO.parse slice.bytes).result = .ok parsed)
      (isLoaded : (MachO.loadSlice slice.bytes memory imageBase bindings
        error).result = .ok (after, info)) :
      Publishes file memory imageBase bindings info.symbols
        (MachO.locatedSymbols parsed.rawSymbols info bindings)
  | pef {parsed : Pef.Container} {loaded : Pef.LoadedImage}
      (isParsed : (Pef.parse file).result = .ok parsed)
      (isLoaded : Pef.loadFile file memory imageBase bindings = .ok loaded) :
      Publishes file memory imageBase bindings loaded.symbols
        (Pef.locatedSymbols parsed loaded bindings)

/-- The symbols with a place are those published with a real address. -/
theorem published_symbols_sound_iff {file : List Byte} {memory : Memory}
    {imageBase : Word} {bindings : List SymbolBinding}
    {symbols : List ImageSymbol} {located : List Located}
    (publishes : Publishes file memory imageBase bindings symbols located) :
    symbols = located.map (·.2) ∧
      (SoundSymbols bindings located ↔ Resolvable located) := by
  cases publishes with
  | elf isParsed isLoaded => exact Elf32.symbols_sound_iff isParsed isLoaded
  | machO chosen isParsed isLoaded =>
      exact MachO.symbols_sound_iff isParsed isLoaded
  | pef isParsed isLoaded => exact Pef.symbols_sound_iff isParsed isLoaded

namespace Elf32

/-- Four bytes of code, and a function `f` of a section. -/
def symbolFile (shndx : Half) : List Byte :=
  [0x7f, 0x45, 0x4c, 0x46, 1, 2, 1] ++ List.replicate 9 0 ++
    [0, 1, 0, 20, 0, 0, 0, 1] ++ List.replicate 8 0 ++
    [0, 0, 0, 52, 0, 0, 0, 0, 0, 52, 0, 0, 0, 0, 0, 40, 0, 4, 0, 0] ++
    headerBytes 0 0 0 0 0 0 0 ++
    headerBytes 1 shfAlloc 212 4 0 0 0 ++
    headerBytes shtSymtab 0 216 32 3 0 16 ++
    headerBytes shtStrtab 0 248 3 0 0 0 ++
    [0x4e, 0x80, 0, 0x20] ++ List.replicate 16 0 ++
    [0, 0, 0, 1, 0, 0, 0, 0, 0, 0, 0, 4, 0x12, 0] ++ Bytes.encode 2 shndx ++
    [0, 0x66, 0]

def namedSymbol (shndx : Half) : RawSymbol :=
  { publicSymbol :=
      { name := "f", value := 0, size := 4, sectionIndex := shndx.setWidth 32
        binding := 1, type := 2, defined := true, imported := false }
    nameOffset := 1, shndx }

def symbolParsed (shndx : Half) : ParsedElf :=
  { bytes := symbolFile shndx
    type := etRel, machine := emPpc, originalEntry := 0, flags := 0
    loadSegments := []
    sections := [
      sectionHeader 0 0 0 0 0 0 0 0,
      sectionHeader 1 1 shfAlloc 212 4 0 0 0,
      sectionHeader 2 shtSymtab 0 216 32 3 0 16,
      sectionHeader 3 shtStrtab 0 248 3 0 0 0]
    symbolTables :=
      [{ sectionIndex := 2, symbols := [nullSymbol, namedSymbol shndx] }]
    symbols := [(namedSymbol shndx).publicSymbol], relocationCount := 0 }

def symbolInfo : ImageInfo :=
  { loadBias := 0x10000000
    sections := [
      (sectionHeader 0 0 0 0 0 0 0 0).toSectionInfo,
      { (sectionHeader 1 1 shfAlloc 212 4 0 0 0).toSectionInfo with
        mappedAddress := 0x10000000 },
      (sectionHeader 2 shtSymtab 0 216 32 3 0 16).toSectionInfo,
      (sectionHeader 3 shtStrtab 0 248 3 0 0 0).toSectionInfo] }

/-- The object file once it is loaded, with the value it gives its symbol. -/
def symbolLoaded (shndx : Half) (value : Word) : LoadedElf :=
  { memory := objectMemory 0x4e800020
    info := symbolInfo
    entry := 0
    segments := []
    symbols := [{ (namedSymbol shndx).publicSymbol with value }] }

private theorem publishes_object {shndx : Half} {value : Word}
    (isParsed : (parse (symbolFile shndx)).result =
      .ok (symbolParsed shndx))
    (isLoaded : (loadFile (symbolFile shndx) .empty 0x10000000 []
      "").result = .ok (symbolLoaded shndx value)) :
    Publishes (symbolFile shndx) .empty 0x10000000 []
      [{ (namedSymbol shndx).publicSymbol with value }]
      (locatedSymbols (symbolParsed shndx) symbolInfo []) :=
  .elf isParsed isLoaded

set_option maxRecDepth 4000 in
theorem published_symbols_sound_object :
    SoundSymbols [] (locatedSymbols (symbolParsed 1) symbolInfo []) := by
  have publishes : Publishes (symbolFile 1) .empty 0x10000000 []
      [{ (namedSymbol 1).publicSymbol with value := 0x10000000 }]
      (locatedSymbols (symbolParsed 1) symbolInfo []) := by
    apply publishes_object
    · decide
    · decide
  apply (published_symbols_sound_iff publishes).2.mpr
  unfold Resolvable
  decide

set_option maxRecDepth 4000 in
/-- A common symbol is published as defined, at address zero. -/
theorem common_symbol_is_published :
    ¬ ∀ file memory imageBase bindings symbols located,
      Publishes file memory imageBase bindings symbols located →
        SoundSymbols bindings located := by
  intro always
  have publishes : Publishes (symbolFile shnCommon) .empty 0x10000000 []
      [{ (namedSymbol shnCommon).publicSymbol with value := 0 }]
      (locatedSymbols (symbolParsed shnCommon) symbolInfo []) := by
    apply publishes_object
    · decide
    · decide
  exact always _ _ _ _ _ _ publishes _ List.mem_cons_self rfl

end Elf32

end PpcLab
