import PpcLab.Library.Counter
import PpcLab.Library.Numbered
import PpcLab.Security.Audit

/-!
# Trace analysis

An analysis cuts the events of a trace into blocks, which end where the control
may be transferred or where the next event is not behind the last one.  It
counts the blocks, the ways between them and what the events have in common.
-/

namespace PpcLab.Trace

open Counter

def hex32 (value : Word) : Str :=
  str (Text.hex32 value.toNat)

variable (python : Security.Python)

/-- `mnemonic`: the first word of a text. -/
def mnemonic (disassembly : Str) : Str :=
  python.unicode.lower
    ((Lines.strip disassembly).takeWhile fun character =>
      !Lines.isWhite character)

/-- The text before the first place where another text stands. -/
def before (mark : Str) : Str → Str
  | [] => []
  | character :: text =>
      if mark.isPrefixOf (character :: text) then []
      else character :: before mark text

def symbolRoot (symbol : Str) : Str :=
  if Lines.strip symbol = [] then str "<unknown>"
  else before (str "+0x") (Lines.strip symbol)

def isControlTransfer (mnemonic : Str) : Bool :=
  (str "b").isPrefixOf mnemonic ||
    decide (mnemonic ∈ [str "sc", str "rfi", str "rfid", str "tw", str "twi"])

def isCall (mnemonic : Str) : Bool :=
  decide (mnemonic ∈ [str "bl", str "bla", str "bctrl", str "blrl", str "bcl",
    str "bcla", str "bcctrl", str "bcctrl."]) ||
    ((str "b").isPrefixOf mnemonic && (str "l").isSuffixOf mnemonic &&
      decide (mnemonic ≠ str "blr"))

def isReturn (mnemonic : Str) : Bool :=
  decide (mnemonic ∈ [str "blr", str "blrl"])

structure NormalEvent where
  index : Nat
  pc : Word
  instruction : Str
  disassembly : Str
  symbol : Str
  deriving DecidableEq

namespace NormalEvent

def mnemonic (event : NormalEvent) : Str :=
  Trace.mnemonic python event.disassembly

def function (event : NormalEvent) : Str :=
  symbolRoot event.symbol

end NormalEvent

def parseU32 : Json → Option Word
  | .int value => some (BitVec.ofInt 32 value)
  | .bool value => some (BitVec.ofInt 32 value.toInt)
  | value => (python.numerals.ofLiteral (python.unicode.toStr value)).map
      (BitVec.ofInt 32)

/-- `str(raw.get(key, ""))` -/
def textAt (raw : Fields) (key : String) : Str :=
  python.unicode.toStr ((Json.find? raw (str key)).getD (.string []))

/-- An event with a readable pc. -/
def normalizeEvent (entry : Json × Nat) : Option NormalEvent :=
  match entry.1 with
  | .object raw =>
      if Json.get raw (str "pc") = .null then none
      else (parseU32 python (Json.get raw (str "pc"))).map fun pc =>
        ⟨entry.2, pc, python.unicode.lower (textAt python raw "instruction"),
          Lines.strip (textAt python raw "disassembly"),
          Lines.strip (textAt python raw "symbol")⟩
  | _ => none

/-- What a loop over a value goes through, unless it raises. -/
def iterated : Json → Option (List Json)
  | .array items => some items
  | .object fields => some (fields.map fun member => .string member.1)
  | .string text => some (text.map fun character => .string [character])
  | .null | .bool _ | .int _ | .float _ => none

def normalizeEvents (trace : Fields) : Option (List NormalEvent) :=
  (iterated ((Json.find? trace (str "events")).getD (.array []))).map
    fun events => events.zipIdx.filterMap (normalizeEvent python)

structure Block where
  events : List NormalEvent
  nonempty : events ≠ []

namespace Block

def first (block : Block) : NormalEvent :=
  block.events.head block.nonempty

def last (block : Block) : NormalEvent :=
  block.events.getLast block.nonempty

/-- `_block_key` -/
abbrev Key := Word × Word × List Word

def key (block : Block) : Key :=
  (block.first.pc, block.last.pc, block.events.map (·.pc))

end Block

/-- An event is the last one of its block. -/
def endsBlock (event : NormalEvent) (next : Option NormalEvent) : Bool :=
  isControlTransfer (event.mnemonic python) ||
    next.all fun next => decide (next.pc ≠ event.pc + 4)

/-- The blocks of the events behind those of a block that has begun. -/
def cut (current : List NormalEvent) : List NormalEvent → List Block
  | [] => if some : current ≠ [] then [⟨current, some⟩] else []
  | event :: events =>
      if endsBlock python event events.head? then
        ⟨current ++ [event], List.append_ne_nil_of_right_ne_nil _
          (List.cons_ne_nil event [])⟩ :: cut [] events
      else cut (current ++ [event]) events

def splitDynamicBlocks (events : List NormalEvent) : List Block :=
  cut python [] events

/-- The first of several keys that differs decides. -/
def lexicographic {α : Type} [DecidableEq α] (less : α → α → Bool)
    (first second : α) (next : Bool) : Bool :=
  if first = second then next else less first second

def wordLess (first second : Word) : Bool :=
  decide (first.toNat < second.toNat)

def textLess (first second : Str) : Bool :=
  !Json.notAfter second first

/-- The larger number of two comes first. -/
def moreFirst (first second : Nat) (next : Bool) : Bool :=
  lexicographic (fun first second => decide (second < first)) first second next

def blockOrder (first second : Block × Nat) : Bool :=
  moreFirst first.2 second.2 <|
  lexicographic wordLess first.1.first.pc second.1.first.pc <|
  lexicographic wordLess first.1.last.pc second.1.last.pc true

inductive Kind where
  | call
  | return
  | branch
  | fallthrough
  deriving DecidableEq

def Kind.name : Kind → Str
  | .call => str "call"
  | .return => str "return"
  | .branch => str "branch"
  | .fallthrough => str "fallthrough"

def edgeKind (pair : Block × Block) : Kind :=
  let term := pair.1.last
  if isCall (term.mnemonic python) then .call
  else if isReturn (term.mnemonic python) then .return
  else if isControlTransfer (term.mnemonic python) ||
      decide (pair.2.first.pc ≠ term.pc + 4) then .branch
  else .fallthrough

structure Edge where
  source : Block.Key
  target : Block.Key
  kind : Kind
  deriving DecidableEq

def edgeOf (pair : Block × Block) : Edge :=
  ⟨pair.1.key, pair.2.key, edgeKind python pair⟩

def edgeOrder (first second : Edge × Nat) : Bool :=
  moreFirst first.2 second.2 <|
  lexicographic wordLess first.1.source.1 second.1.source.1 <|
  lexicographic wordLess first.1.target.1 second.1.target.1 <|
  lexicographic textLess first.1.kind.name second.1.kind.name true

structure Call where
  caller : Str
  callee : Str
  site : Word
  target : Word
  deriving DecidableEq

def callOf (pair : Block × Block) : Call :=
  ⟨pair.1.last.function, pair.2.first.function, pair.1.last.pc,
    pair.2.first.pc⟩

def callOrder (first second : Call × Nat) : Bool :=
  moreFirst first.2 second.2 <|
  lexicographic textLess first.1.caller second.1.caller <|
  lexicographic textLess first.1.callee second.1.callee <|
  lexicographic wordLess first.1.site second.1.site <|
  lexicographic wordLess first.1.target second.1.target true

structure BlockRow where
  id : Str
  start : Str
  last : Str
  instructionCount : Nat
  executions : Nat
  symbol : Str
  function : Str
  terminator : Str
  pcs : List Str
  deriving DecidableEq

structure EdgeRow where
  source : Str
  target : Str
  kind : Str
  count : Nat
  deriving DecidableEq

structure CallRow where
  caller : Str
  callee : Str
  site : Str
  target : Str
  count : Nat
  deriving DecidableEq

structure HotPc where
  pc : Str
  count : Nat
  instruction : Str
  disassembly : Str
  symbol : Str
  function : Str
  deriving DecidableEq

structure Summary where
  events : Nat
  uniquePcs : Nat
  uniqueInstructionWords : Nat
  uniqueMnemonics : Nat
  dynamicBlocks : Nat
  uniqueBlocks : Nat
  uniqueEdges : Nat
  callEdges : Nat
  addressMin : Option Str
  addressMax : Option Str
  addressSpanBytes : Nat
  coveredBytes : Nat
  coverageDensity : Nat
  deriving DecidableEq

structure Analysis where
  sourceTraceSchema : Json
  sourceExitCode : Json
  summary : Summary
  hotPcs : List HotPc
  functions : List (Str × Nat)
  mnemonics : List (Str × Nat)
  blocks : List BlockRow
  edges : List EdgeRow
  calls : List CallRow

/-- `b0000`, `b0001` and so on. -/
def blockName (index : Nat) : Str :=
  str "b" ++ Text.padded 4 index

/-- The blocks that differ, each with its number of executions. -/
def rankedBlocks (blocks : List Block) : List (Block × Nat) :=
  (counted Block.key blocks).insertionSort fun first second =>
    blockOrder first second

def blockRow (entry : (Block × Nat) × Nat) : BlockRow where
  id := blockName entry.2
  start := hex32 entry.1.1.first.pc
  last := hex32 entry.1.1.last.pc
  instructionCount := entry.1.1.events.length
  executions := entry.1.2
  symbol := entry.1.1.first.symbol
  function := entry.1.1.first.function
  terminator := entry.1.1.last.mnemonic python
  pcs := entry.1.1.events.map fun event => hex32 event.pc

/-- `bid` -/
def blockIds (blocks : List Block) : List (Block.Key × Str) :=
  (rankedBlocks blocks).zipIdx.map fun entry =>
    (entry.1.1.key, blockName entry.2)

def successions (blocks : List Block) : List (Block × Block) :=
  blocks.zip blocks.tail

def edgeCounts (blocks : List Block) : List (Edge × Nat) :=
  counted id ((successions blocks).map (edgeOf python))

/-- The row of an edge, unless a block has no name. -/
def edgeRow (ids : List (Block.Key × Str)) (entry : Edge × Nat) :
    Option EdgeRow := do
  let source ← ids.lookup entry.1.source
  let target ← ids.lookup entry.1.target
  return ⟨source, target, entry.1.kind.name, entry.2⟩

def edgeRows (blocks : List Block) : Option (List EdgeRow) :=
  ((edgeCounts python blocks).insertionSort fun first second =>
    edgeOrder first second).mapM (edgeRow (blockIds blocks))

def callCounts (blocks : List Block) : List (Call × Nat) :=
  counted id
    (((successions blocks).filter fun pair =>
      decide (edgeKind python pair = .call)).map callOf)

def callRow (entry : Call × Nat) : CallRow where
  caller := entry.1.caller
  callee := entry.1.callee
  site := hex32 entry.1.site
  target := hex32 entry.1.target
  count := entry.2

def callRows (blocks : List Block) : List CallRow :=
  ((callCounts python blocks).insertionSort fun first second =>
    callOrder first second).map callRow

/-- The pcs in their order. -/
def sortedPcs (events : List NormalEvent) : List Word :=
  (events.map (·.pc)).dedup.insertionSort fun first second =>
    first.toNat ≤ second.toNat

def addressSpan (pcs : List Word) : Nat :=
  match pcs.head?, pcs.getLast? with
  | some low, some high => high.toNat - low.toNat + 4
  | _, _ => 0

def coveredBytes (pcs : List Word) : Nat :=
  pcs.length * 4

def hotPc (entry : NormalEvent × Nat) : HotPc where
  pc := hex32 entry.1.pc
  count := entry.2
  instruction := entry.1.instruction
  disassembly := entry.1.disassembly
  symbol := entry.1.symbol
  function := entry.1.function

/-- How often each nonempty text occurs, the most common one first. -/
def commonTexts (texts : List Str) : List (Str × Nat) :=
  mostCommon (counted id (texts.filter fun text => decide (text ≠ [])))

def summarize (events : List NormalEvent) (edges : List EdgeRow)
    (calls : List CallRow) : Summary :=
  let blocks := splitDynamicBlocks python events
  let pcs := sortedPcs events
  { events := events.length
    uniquePcs := pcs.length
    uniqueInstructionWords :=
      (commonTexts (events.map (·.instruction))).length
    uniqueMnemonics := (commonTexts (events.map (·.mnemonic python))).length
    dynamicBlocks := blocks.length
    uniqueBlocks := (rankedBlocks blocks).length
    uniqueEdges := edges.length
    callEdges := (calls.map (·.count)).sum
    addressMin := pcs.head?.map hex32
    addressMax := pcs.getLast?.map hex32
    addressSpanBytes := addressSpan pcs
    coveredBytes := coveredBytes pcs
    coverageDensity :=
      if pcs = [] then 0
      else Doubles.quotient (coveredBytes pcs) (addressSpan pcs) }

/-- What is said of events with some edges. -/
def analysisOf (trace : Fields) (events : List NormalEvent)
    (edges : List EdgeRow) : Analysis :=
  let blocks := splitDynamicBlocks python events
  let calls := callRows python blocks
  { sourceTraceSchema := Json.get trace (str "schema")
    sourceExitCode := Json.get trace (str "exit_code")
    summary := summarize python events edges calls
    hotPcs := (mostCommon (counted (·.pc) events)).map hotPc
    functions := mostCommon (counted id (events.map (·.function)))
    mnemonics := commonTexts (events.map (·.mnemonic python))
    blocks := (rankedBlocks blocks).zipIdx.map (blockRow python)
    edges := edges
    calls := calls }

def analyzeTrace (trace : Fields) : Option Analysis := do
  let events ← normalizeEvents python trace
  let edges ← edgeRows python (splitDynamicBlocks python events)
  return analysisOf python trace events edges

end PpcLab.Trace
