import PpcLab.Loader.MachOIntake
import PpcLab.Loader.SymbolLocation

/-!
# Symbols of a Mach-O image

The symbols that loading publishes, beside the places the file gives them.
Values are addresses before loading: an object file moves each of its sections
by itself, a linked image moves as a whole.
-/

namespace PpcLab.MachO

open Loader Traced

/-- The range of a section lies in a segment that is not empty. -/
def covers (segment : SegmentInfo) (entry : SectionInfo) : Bool :=
  segment.vmSize != 0 &&
    decide (segment.vmAddress.toNat ≤ entry.address.toNat) &&
    decide (entry.address.toNat + entry.size.toNat ≤
      segment.vmAddress.toNat + segment.vmSize.toNat)

/-- A section that is in memory once the file is loaded. -/
def isMapped (info : ImageInfo) (entry : SectionInfo) : Bool :=
  if info.fileType = mhObject then entry.size != 0
  else info.segments.any (covers · entry)

def symbolLocation (info : ImageInfo) (raw : RawSymbol) : Location :=
  let kind := raw.nType &&& nTypeMask
  if kind = nUndf then
    .imported raw.symbol.name ((raw.nDesc &&& nWeakRef) != 0)
  else if kind = nAbs then .absolute raw.symbol.value
  else if kind = nSectKind ∧ raw.nSect ≠ 0 then
    match info.sections[raw.nSect.toNat - 1]? with
    | none => .nowhere
    | some entry =>
        if isMapped info entry then
          .inSection entry.mappedAddress (raw.symbol.value - entry.address)
        else .nowhere
  else .nowhere

/-- The symbols with a name that are not for a debugger. -/
def visibleRaws (rawSymbols : List RawSymbol) : List RawSymbol :=
  rawSymbols.filter fun raw =>
    !raw.symbol.name.isEmpty && (raw.nType &&& nStab) == 0

def locatedSymbols (rawSymbols : List RawSymbol) (info : ImageInfo)
    (bindings : List SymbolBinding) : List Located :=
  (visibleRaws rawSymbols).map fun raw =>
    (symbolLocation info raw, (runtimeSymbol info bindings raw).symbol)

section Published

variable {parsed : ParsedMachO} {info : ImageInfo}
  {bindings : List SymbolBinding}

private theorem symbols_of_zip (rawSymbols : List RawSymbol) :
    ((rawSymbols.zip
      (rawSymbols.map (runtimeSymbol info bindings))).filter
        fun found => !found.2.symbol.name.isEmpty &&
          (found.1.nType &&& nStab) == 0).map (·.2.symbol) =
      (locatedSymbols rawSymbols info bindings).map (·.2) := by
  induction rawSymbols with
  | nil => rfl
  | cons raw rest induction =>
      have sameName : (runtimeSymbol info bindings raw).symbol.name =
          raw.symbol.name :=
        rfl
      unfold locatedSymbols visibleRaws at induction ⊢
      rw [List.map_cons, List.zip_cons_cons, List.filter_cons,
        List.filter_cons, sameName]
      split
      · rw [List.map_cons, List.map_cons, List.map_cons, induction]
      · exact induction

/-- Building the symbols leaves their places alone. -/
theorem buildSymbols_symbols :
    (buildSymbols parsed info bindings).2.symbols =
      (locatedSymbols parsed.rawSymbols
        (buildSymbols parsed info bindings).2 bindings).map (·.2) :=
  symbols_of_zip parsed.rawSymbols

/-- The sections of a linked image move as a whole. -/
def MovesWhole (info : ImageInfo) : Prop :=
  info.fileType ≠ mhObject →
    ∀ entry ∈ info.sections,
      entry.mappedAddress = info.loadBias + entry.address

theorem mapImage_movesWhole {memory mapped : Memory} {before : ImageInfo}
    {imageBase : Word}
    (isMapped : mapImage parsed memory before imageBase = .ok (mapped, info)) :
    MovesWhole info := by
  unfold mapImage at isMapped
  by_cases isObject : before.fileType = mhObject
  · rw [if_pos isObject] at isMapped
    obtain ⟨found, placed, returned⟩ := Outcome.bind_eq_ok.mp isMapped
    cases returned
    exact fun linked => absurd isObject linked
  · rw [if_neg isObject] at isMapped
    obtain ⟨bias, isBias, isMapped⟩ := Outcome.bind_eq_ok.mp isMapped
    obtain ⟨found, placed, returned⟩ := Outcome.bind_eq_ok.mp isMapped
    cases returned
    intro linked entry member
    obtain ⟨next, isNext, moved⟩ := List.mem_map.mp member
    rw [← moved]

/-- An imported symbol has a real address, or none at all. -/
private theorem real_of_imported {raw : RawSymbol} {address : Word}
    (named : raw.symbol.name.isEmpty = false)
    (visible : (raw.nType &&& nStab) = 0)
    (isUndefined : (raw.nType &&& nTypeMask) = nUndf)
    (found : resolveSymbol info bindings raw = some address) :
    (Location.imported raw.symbol.name
      ((raw.nDesc &&& nWeakRef) != 0)).Real bindings address := by
  unfold resolveSymbol at found
  dsimp only at found
  rw [visible, bne_self_eq_false, if_neg Bool.false_ne_true,
    if_pos isUndefined, named, if_neg Bool.false_ne_true] at found
  cases bound : findSymbolBinding bindings raw.symbol.name with
  | some supplied =>
      rw [bound] at found
      cases found
      exact .inl bound
  | none =>
      rw [bound] at found
      dsimp only at found
      split at found
      · rename_i isWeak
        cases found
        exact .inr ⟨bound, isWeak, rfl⟩
      · cases found

/-- A symbol of a section that is there. -/
private theorem resolve_of_section (moves : MovesWhole info)
    {raw : RawSymbol} {entry : SectionInfo}
    (visible : (raw.nType &&& nStab) = 0)
    (isSection : (raw.nType &&& nTypeMask) = nSectKind ∧ raw.nSect ≠ 0)
    (isEntry : info.sections[raw.nSect.toNat - 1]? = some entry) :
    resolveSymbol info bindings raw =
      some (entry.mappedAddress + (raw.symbol.value - entry.address)) := by
  have notUndefined : (raw.nType &&& nTypeMask) ≠ nUndf := by
    rw [isSection.1]
    decide
  have notAbsolute : (raw.nType &&& nTypeMask) ≠ nAbs := by
    rw [isSection.1]
    decide
  unfold resolveSymbol
  dsimp only
  rw [visible, bne_self_eq_false, if_neg Bool.false_ne_true,
    if_neg notUndefined, if_neg notAbsolute, if_pos isSection, isEntry]
  dsimp only
  by_cases isObject : info.fileType = mhObject
  · rw [if_pos isObject]
  · rw [if_neg isObject, moves isObject entry (List.mem_of_getElem? isEntry),
      ← add_eq_add_sub]

private theorem publishedAs (moves : MovesWhole info) {raw : RawSymbol}
    (named : raw.symbol.name.isEmpty = false)
    (visible : (raw.nType &&& nStab) = 0) :
    PublishedAs bindings
      (symbolLocation info raw, (runtimeSymbol info bindings raw).symbol) := by
  unfold symbolLocation runtimeSymbol
  dsimp only
  by_cases isUndefined : (raw.nType &&& nTypeMask) = nUndf
  · rw [if_pos isUndefined]
    apply PublishedAs.of_real Location.noConfusion
    intro defined
    dsimp only at defined ⊢
    rw [isUndefined, bne_self_eq_false, Bool.false_or] at defined
    obtain ⟨address, found⟩ := Option.isSome_iff_exists.mp defined
    rw [found]
    exact real_of_imported named visible isUndefined found
  · rw [if_neg isUndefined]
    have defined : ∀ found : Option Word,
        ((raw.nType &&& nTypeMask) != nUndf || found.isSome) = true := by
      intro found
      rw [bne_iff_ne.mpr isUndefined, Bool.true_or]
    by_cases isAbsolute : (raw.nType &&& nTypeMask) = nAbs
    · rw [if_pos isAbsolute]
      apply PublishedAs.of_real Location.noConfusion
      intro _
      unfold resolveSymbol
      dsimp only
      rw [visible, bne_self_eq_false, if_neg Bool.false_ne_true,
        if_neg isUndefined, if_pos isAbsolute]
      rfl
    · rw [if_neg isAbsolute]
      by_cases isSection : (raw.nType &&& nTypeMask) = nSectKind ∧
          raw.nSect ≠ 0
      · rw [if_pos isSection]
        cases isEntry : info.sections[raw.nSect.toNat - 1]? with
        | none => exact .of_nowhere (defined _)
        | some entry =>
            dsimp only
            by_cases mapped : isMapped info entry = true
            · rw [if_pos mapped]
              apply PublishedAs.of_real Location.noConfusion
              intro _
              dsimp only
              rw [resolve_of_section moves visible isSection isEntry]
              rfl
            · rw [if_neg mapped]
              exact .of_nowhere (defined _)
      · rw [if_neg isSection]
        exact .of_nowhere (defined _)

end Published

theorem symbols_sound_iff {bytes : List Byte} {memory after : Memory}
    {imageBase : Word} {bindings : List SymbolBinding} {error : String}
    {parsed : ParsedSlice} {info : ImageInfo}
    (isParsed : (parse bytes).result = .ok parsed)
    (isLoaded : (loadSlice bytes memory imageBase bindings error).result =
      .ok (after, info)) :
    info.symbols =
        (locatedSymbols parsed.rawSymbols info bindings).map (·.2) ∧
      (SoundSymbols bindings (locatedSymbols parsed.rawSymbols info bindings) ↔
        Resolvable (locatedSymbols parsed.rawSymbols info bindings)) := by
  have inside := parse_inside.value parsed isParsed
  unfold loadSlice at isLoaded
  rw [result_bind, isParsed] at isLoaded
  obtain ⟨found, foundParsed, isLoaded⟩ := Outcome.bind_eq_ok.mp isLoaded
  cases foundParsed
  have same := (loadAt_mirrors inside.sameBytes inside.inFile memory imageBase
    bindings error).result_eq
  rw [same] at isLoaded
  unfold load at isLoaded
  obtain ⟨placed, isPlaced, isLoaded⟩ := Outcome.bind_eq_ok.mp isLoaded
  obtain ⟨mapped, before⟩ := placed
  obtain ⟨relocated, applied, returned⟩ := Outcome.bind_eq_ok.mp isLoaded
  cases returned
  refine ⟨buildSymbols_symbols, soundSymbols_iff ?_⟩
  have moves : MovesWhole (buildSymbols parsed.toParsedMachO before
      bindings).2 :=
    show MovesWhole before from mapImage_movesWhole isPlaced
  intro located member
  obtain ⟨raw, isRaw, isLocated⟩ := List.mem_map.mp member
  have kept := (List.mem_filter.mp isRaw).2
  rw [Bool.and_eq_true, Bool.not_eq_true', beq_iff_eq] at kept
  rw [← isLocated]
  exact publishedAs moves kept.1 kept.2

end PpcLab.MachO
