import PpcLab.Execution

/-!
# Options of the command line tool

The options of `call`, `run` and `disasm`.  Every number is read with 64 bits;
what goes into a field of 32 bits is cast when it is stored, and only some of
the options look at its range before.  The reader is given the cast, so that
the same options can be read with numbers of any size.
-/

namespace PpcLab.Tool

def digitValue (base : Nat) (character : Char) : Option Nat :=
  let value :=
    if '0' ≤ character ∧ character ≤ '9' then
      character.toNat - '0'.toNat
    else if 'a' ≤ character ∧ character ≤ 'f' then
      character.toNat - 'a'.toNat + 10
    else if 'A' ≤ character ∧ character ≤ 'F' then
      character.toNat - 'A'.toNat + 10
    else base
  if value < base then some value else none

/-- `std::from_chars` for 64 bits, where it reads the whole text. -/
def fromChars (base : Nat) (text : List Char) : Option Nat := do
  let digits ← text.mapM (digitValue base)
  let value := digits.foldl (fun value digit => base * value + digit) 0
  if digits.isEmpty = false ∧ value < 2 ^ 64 then some value else none

def parseUnsigned : List Char → Option Nat
  | '0' :: mark :: digit :: text =>
      if mark = 'x' ∨ mark = 'X' then fromChars 16 (digit :: text)
      else fromChars 10 ('0' :: mark :: digit :: text)
  | text => fromChars 10 text

/-- `parseUnsigned`, with the check that some options make. -/
def parseChecked (text : List Char) : Option Nat :=
  (parseUnsigned text).filter (· ≤ 0xffffffff)

/-- What stands before and behind the first character of a kind. -/
def splitAt (mark : Char) (text : List Char) :
    Option (List Char × List Char) :=
  match text.dropWhile (· ≠ mark) with
  | [] => none
  | _ :: right => some (text.takeWhile (· ≠ mark), right)

/-- Both sides have something in them. -/
def splitFilled (mark : Char) (text : List Char) :
    Option (List Char × List Char) :=
  (splitAt mark text).filter fun (left, right) =>
    !left.isEmpty && !right.isEmpty

def splitAssignment (text : List Char) : Option (List Char × List Char) :=
  splitFilled '=' text

inductive TextField where
  | backend
  | code
  | image
  | elf
  | macho
  | pef
  | data
  | entrySymbol
  | json
  | snapshot
  deriving DecidableEq

/-- The fields of 32 bits that are cast to without a check. -/
inductive WordField where
  | entry
  | transitionVector
  | toc
  | imageBase
  | codeBase
  | dataBase
  | heapBase
  | stackBase
  | importBase
  | importSize
  | returnAddress
  | start
  deriving DecidableEq

/-- The fields of 64 bits. -/
inductive SizeField where
  | dataMapSize
  | heapSize
  | stackSize
  | instructionLimit
  | count
  deriving DecidableEq

/-- What an option stores. -/
inductive Setting (w d : Type) where
  | text (field : TextField) (value : String)
  | trace
  | ignoreTraps
  | bind (name : String) (address : w)
  | word (field : WordField) (value : w)
  | size (field : SizeField) (value : Nat)
  | stub (address : w) (kind : ImportStubKind) (name : String)
  | syscallReturn (number value : w)
  | defaultSyscallReturn (value : w)
  | register (index : Nat) (value : w)
  | floatRegister (index : Nat) (value : d)
  | write32 (address value : w)
  | writeFloat (address : w) (value : d)
  | dump (address : w) (size : Nat)
  | traceRange (first last : w)
  deriving DecidableEq

inductive NumberField where
  | word (field : WordField)
  | size (field : SizeField)
  deriving DecidableEq

section Readers

variable {w d : Type} (cast : Nat → w) (parseDouble : List Char → Option d)

def NumberField.store : NumberField → Nat → Setting w d
  | .word field, value => .word field (cast value)
  | .size field, value => .size field value

def readNumber (field : NumberField) (text : String) :
    Except String (Setting w d) :=
  match parseUnsigned text.toList with
  | none => .error ("invalid numeric value: " ++ text)
  | some value => .ok (field.store cast value)

/-- `parseBinding` -/
def parseBinding (text : String) : Option (Setting w d) := do
  let (left, right) ← splitAssignment text.toList
  let address ← parseChecked right
  return .bind (String.ofList left) (cast address)

def readBinding (text : String) : Except String (Setting w d) :=
  match parseBinding cast text with
  | none => .error "expected --bind NAME=ADDRESS"
  | some setting => .ok setting

def stubKinds : List (String × ImportStubKind) :=
  [("pow", .pow), ("cos", .cos), ("sqrt", .sqrt), ("sin", .sin),
    ("exp", .exp), ("fabs", .fabs), ("floor", .floor), ("ceil", .ceil),
    ("blockmove", .blockMoveData), ("blockmovedata", .blockMoveData),
    ("memcpy", .memcpy), ("memmove", .memmove), ("memset", .memset),
    ("bzero", .bzero)]

def parseImportStubKind (name : String) : Option ImportStubKind :=
  stubKinds.lookup name

def readStub (text : String) : Except String (Setting w d) :=
  match splitFilled '@' text.toList with
  | none => .error "expected --stub KIND@ADDRESS"
  | some (left, right) =>
      let name := String.ofList left
      match parseImportStubKind name with
      | none => .error ("unknown stub kind: " ++ name)
      | some kind =>
          match parseChecked right with
          | none => .error "invalid stub address"
          | some address => .ok (.stub (cast address) kind name)

def readDefaultSyscallReturn (text : String) : Except String (Setting w d) :=
  match parseChecked text.toList with
  | none => .error "invalid --default-syscall-return"
  | some value => .ok (.defaultSyscallReturn (cast value))

/-- A value with two sides, and what is stored for them. -/
def readPair {α β : Type} (sides : Option (List Char × List Char))
    (expected invalid : String) (parseLeft : List Char → Option α)
    (parseRight : List Char → Option β) (store : α → β → Setting w d) :
    Except String (Setting w d) :=
  match sides with
  | none => .error expected
  | some (left, right) =>
      match parseLeft left with
      | none => .error invalid
      | some first =>
          match parseRight right with
          | none => .error invalid
          | some second => .ok (store first second)

def readSyscallReturn (text : String) : Except String (Setting w d) :=
  readPair (splitAssignment text.toList)
    "expected --syscall-return NUMBER=VALUE" "invalid --syscall-return"
    parseChecked parseChecked
    fun number value => .syscallReturn (cast number) (cast value)

/-- The number of a register named by a letter, and what is given for it. -/
def splitRegister (letter : Char) (text : String) :
    Option (List Char × List Char) :=
  match splitAssignment text.toList with
  | some (first :: second :: index, right) =>
      if first = letter then some (second :: index, right) else none
  | _ => none

/-- `!reg || *reg >= 32` -/
def parseRegister (text : List Char) : Option Nat :=
  (parseUnsigned text).filter (· < 32)

def readRegister (text : String) : Except String (Setting w d) :=
  readPair (splitRegister 'r' text) "expected --set rN=VALUE"
    "invalid GPR assignment" parseRegister parseUnsigned
    fun index value => .register index (cast value)

def readFloatRegister (text : String) : Except String (Setting w d) :=
  readPair (splitRegister 'f' text) "expected --set-f fN=VALUE"
    "invalid FPR assignment" parseRegister parseDouble .floatRegister

def readWrite32 (text : String) : Except String (Setting w d) :=
  readPair (splitAssignment text.toList) "expected ADDRESS=VALUE"
    "invalid --write-u32" parseUnsigned parseUnsigned
    fun address value => .write32 (cast address) (cast value)

def readWriteFloat (text : String) : Except String (Setting w d) :=
  readPair (splitAssignment text.toList) "expected ADDRESS=VALUE"
    "invalid --write-f32" parseUnsigned parseDouble
    fun address value => .writeFloat (cast address) value

def readDump (text : String) : Except String (Setting w d) :=
  readPair (splitAt ':' text.toList) "expected START:END/SIZE"
    "invalid range" parseUnsigned parseUnsigned
    fun address size => .dump (cast address) size

def readTraceRange (text : String) : Except String (Setting w d) :=
  readPair (splitAt ':' text.toList) "expected START:END/SIZE"
    "invalid range" parseUnsigned parseUnsigned
    fun first last => .traceRange (cast first) (cast last)

inductive Command where
  | call
  | disasm
  deriving DecidableEq

def Command.texts : Command → List (String × TextField)
  | .call =>
      [("--backend", .backend), ("--code", .code), ("--image", .image),
        ("--elf", .elf), ("--macho", .macho), ("--pef", .pef),
        ("--data", .data), ("--entry-symbol", .entrySymbol),
        ("--json", .json), ("--snapshot", .snapshot)]
  | .disasm =>
      [("--code", .code), ("--image", .image), ("--elf", .elf),
        ("--macho", .macho), ("--pef", .pef)]

def Command.numbers : Command → List (String × NumberField)
  | .call =>
      [("--entry", .word .entry),
        ("--transition-vector", .word .transitionVector),
        ("--toc", .word .toc), ("--image-base", .word .imageBase),
        ("--code-base", .word .codeBase), ("--data-base", .word .dataBase),
        ("--data-map-size", .size .dataMapSize),
        ("--heap-base", .word .heapBase), ("--heap-size", .size .heapSize),
        ("--stack-base", .word .stackBase), ("--stack-size", .size .stackSize),
        ("--import-base", .word .importBase),
        ("--import-size", .word .importSize),
        ("--return", .word .returnAddress),
        ("--max-instructions", .size .instructionLimit)]
  | .disasm =>
      [("--base", .word .codeBase), ("--image-base", .word .imageBase),
        ("--start", .word .start), ("--count", .size .count)]

/-- The other options with a value. -/
def Command.readers : Command →
    List (String × (String → Except String (Setting w d)))
  | .call =>
      [("--bind", readBinding cast), ("--stub", readStub cast),
        ("--syscall-return", readSyscallReturn cast),
        ("--default-syscall-return", readDefaultSyscallReturn cast),
        ("--set", readRegister cast),
        ("--set-f", readFloatRegister parseDouble),
        ("--write-u32", readWrite32 cast),
        ("--write-f32", readWriteFloat cast parseDouble),
        ("--dump", readDump cast), ("--trace-range", readTraceRange cast)]
  | .disasm => [("--bind", readBinding cast)]

def Command.flags : Command → List (String × Setting w d)
  | .call => [("--trace", .trace), ("--ignore-traps", .ignoreTraps)]
  | .disasm => []

/-- The reader of the value of an option, if it has one. -/
def Command.reader (command : Command) (name : String) :
    Option (String → Except String (Setting w d)) :=
  ((command.texts.lookup name).map fun field text =>
      .ok (.text field text)).or
    (((command.numbers.lookup name).map fun field =>
        readNumber cast field).or
      ((command.readers cast parseDouble).lookup name))

def Command.unknown : Command → String
  | .call => "unknown option: "
  | .disasm => "unknown disasm option: "

/-- The loop over the arguments: what the options store, one after the
other. -/
def readOptions (command : Command) :
    List String → Except String (List (Setting w d))
  | [] => .ok []
  | name :: arguments =>
      match command.flags.lookup name with
      | some setting => do
          let settings ← readOptions command arguments
          return setting :: settings
      | none =>
          match command.reader cast parseDouble name with
          | none => .error (command.unknown ++ name)
          | some read =>
              match arguments with
              | [] => .error (name ++ " requires a value")
              | text :: arguments => do
                  let setting ← read text
                  let settings ← readOptions command arguments
                  return setting :: settings

end Readers

end PpcLab.Tool
