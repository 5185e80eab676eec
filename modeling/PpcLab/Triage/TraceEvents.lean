import PpcLab.Interpreter.Run
import PpcLab.Library.Lines
import PpcLab.Library.Utf8Reader

/-!
# Trace events

The interpreter prints a line for every instruction that it traces.  The triage
and the capture script read such lines back with two regular expressions: one
for the two words at the beginning, one for a symbol in brackets at the end.
-/

namespace PpcLab.Triage

structure TraceEvent where
  pc : Str
  instruction : Str
  disassembly : Str
  symbol : Str
  deriving DecidableEq

/-- What a captured text comes to. -/
structure Trace where
  events : List TraceEvent
  unparsed : List Str
  deriving DecidableEq

def isHexDigit (character : CodePoint) : Bool :=
  let value := character.val
  decide (0x30 ≤ value ∧ value ≤ 0x39) || decide (0x41 ≤ value ∧ value ≤ 0x46) ||
    decide (0x61 ≤ value ∧ value ≤ 0x66)

/-- `0x[0-9a-fA-F]{8}` -/
def readWord (text : Str) : Option (Str × Str) :=
  let digits := (text.drop 2).take 8
  if text.take 2 = [0x30, 0x78] ∧ digits.length = 8 ∧
      digits.all isHexDigit then
    some (text.take 10, text.drop 10)
  else none

/-- `\s+` -/
def readBlanks : Str → Option Str
  | [] => none
  | character :: text =>
      if Lines.isWhite character then some (Lines.stripLeft text) else none

/-- `HEAD`: the two words of a line without a break in it and what follows
them. -/
def matchHead (line : Str) : Option (Str × Str × Str) := do
  let (pc, line) ← readWord line
  let line ← readBlanks line
  let (instruction, line) ← readWord line
  match line with
  | [] => return (pc, instruction, [])
  | _ =>
      let rest ← readBlanks line
      return (pc, instruction, rest)

/-- `\[([^\]]+)\]$` -/
def readSymbol : Str → Option Str
  | [] => none
  | opening :: text =>
      let symbol := text.dropLast
      if opening = 0x5b ∧ text.getLast? = some 0x5d ∧ symbol ≠ [] ∧
          0x5d ∉ symbol then
        some symbol
      else none

/-- `TAIL`: the shortest beginning behind which blanks and a symbol follow. -/
def matchTail : Str → Option (Str × Str)
  | [] => none
  | character :: text =>
      match readSymbol (Lines.stripLeft (character :: text)) with
      | some symbol => some ([], symbol)
      | none => (matchTail text).map fun found =>
          (character :: found.1, found.2)

/-- `lower` of a character in ASCII. -/
def lower (character : CodePoint) : CodePoint :=
  if 0x41 ≤ character.val ∧ character.val ≤ 0x5a then
    CodePoint.ofNat (character.val + 0x20)
  else character

/-- The disassembly and the symbol behind the words. -/
def readRest (rest : Str) : Str × Str :=
  let rest := Lines.strip rest
  match matchTail rest with
  | some (disassembly, symbol) =>
      (Lines.strip disassembly, Lines.strip symbol)
  | none => (rest, [])

/-- `trace_event` -/
def traceEvent (line : Str) : Option TraceEvent :=
  (matchHead line).map fun (pc, instruction, rest) =>
    let (disassembly, symbol) := readRest rest
    ⟨pc.map lower, instruction.map lower, disassembly, symbol⟩

/-- `parse` of the capture script, which has the same expressions. -/
def parse (line : Str) : Option TraceEvent :=
  traceEvent line

/-- The lines of a text that are events, and the other ones that are not
blank. -/
def readTrace (read : Str → Option TraceEvent) (text : Str) : Trace where
  events := (Lines.splitLines text).filterMap read
  unparsed := (Lines.splitLines text).filter fun line =>
    (read line).isNone && !Lines.isBlank line

/-- What a script gets from the error output of the interpreter. -/
def captured (read : Str → Option TraceEvent) (stderr : List Byte) :
    Option Trace :=
  (decodeUtf8 stderr).map fun text =>
    readTrace read (Lines.universalNewlines text)

/-- The bytes of a text of the interpreter, which has a character for each. -/
def bytesOf (text : String) : List Byte :=
  text.toList.map fun character => BitVec.ofNat 8 character.toNat

/-- The line of an instruction. -/
def printed (config : ExecutionConfig) (event : Word × Word) : List Byte :=
  bytesOf (BuiltinInterpreter.traceLine config event.1 event.2) ++ [0x0a]

def symbolBytes (config : ExecutionConfig) (event : Word × Word) : List Byte :=
  bytesOf (BuiltinInterpreter.symbolize event.1 config.traceSymbols)

/-- An event says what was printed. -/
structure Tells (config : ExecutionConfig) (printed : Word × Word)
    (event : TraceEvent) : Prop where
  pc : event.pc = str (Text.hex32 printed.1.toNat)
  instruction : event.instruction = str (Text.hex32 printed.2.toNat)
  disassembly : event.disassembly =
    str (BuiltinInterpreter.disassemble printed.1 printed.2)
  symbol : utf8 event.symbol = some (symbolBytes config printed)

end PpcLab.Triage
