import PpcLab.Execution

/-!
# Where a symbol is

What a file says of the place of a symbol, apart from any format, and the
run-time addresses that a loader may publish for it.
-/

namespace PpcLab.Loader

/-- What a file says of the place of a symbol. -/
inductive Location where
  | absolute (value : Word)
  | imported (name : String) (weak : Bool)
  | inSection (mappedAddress offset : Word)
  | nowhere
  deriving DecidableEq, Repr

/-- The real run-time addresses of a place. -/
def Location.Real (bindings : List SymbolBinding) : Location → Word → Prop
  | .absolute value, address => address = value
  | .imported name weak, address =>
      findSymbolBinding bindings name = some address ∨
        findSymbolBinding bindings name = none ∧ weak = true ∧ address = 0
  | .inSection mappedAddress offset, address =>
      address = mappedAddress + offset
  | .nowhere, _ => False

/-- What moves by a bias keeps its distance from a start. -/
theorem add_eq_add_sub (bias start value : Word) :
    bias + value = bias + start + (value - start) := by
  rw [BitVec.add_assoc, BitVec.add_comm start, BitVec.sub_add_cancel]

/-- A symbol of a loaded image, beside the place the file gives it. -/
abbrev Located := Location × ImageSymbol

section Symbols

variable (bindings : List SymbolBinding) (published : List Located)

/-- Every symbol that is published as defined has a real address. -/
def SoundSymbols : Prop :=
  ∀ found ∈ published, found.2.defined = true →
    found.1.Real bindings found.2.value

/-- Every symbol has a place. -/
def Resolvable : Prop :=
  ∀ found ∈ published, found.1 ≠ .nowhere

/-- A symbol with a place gets a real address or is not defined; one without
is published as defined all the same. -/
structure PublishedAs (found : Located) : Prop where
  real : found.1 ≠ .nowhere → found.2.defined = true →
    found.1.Real bindings found.2.value
  defined : found.1 = .nowhere → found.2.defined = true

variable {bindings published}

theorem PublishedAs.of_real {location : Location} {symbol : ImageSymbol}
    (placed : location ≠ .nowhere)
    (real : symbol.defined = true → location.Real bindings symbol.value) :
    PublishedAs bindings (location, symbol) :=
  ⟨fun _ => real, fun nowhere => absurd nowhere placed⟩

theorem PublishedAs.of_nowhere {symbol : ImageSymbol}
    (defined : symbol.defined = true) :
    PublishedAs bindings (.nowhere, symbol) :=
  ⟨fun placed => absurd rfl placed, fun _ => defined⟩

theorem soundSymbols_iff
    (each : ∀ found ∈ published, PublishedAs bindings found) :
    SoundSymbols bindings published ↔ Resolvable published := by
  constructor
  · intro sound found member nowhere
    have real := sound found member ((each found member).defined nowhere)
    rw [nowhere] at real
    exact real
  · intro resolvable found member
    exact (each found member).real (resolvable found member)

end Symbols

end PpcLab.Loader
