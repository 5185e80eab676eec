import PpcLab.Library.Outcome
import PpcLab.Tool.Options

/-!
# Options that are cut to 32 bits

The options are read alike whatever numbers are cast to, so what the tool
stores is what was written, cast to 32 bits.  It is the number that was written
when no number given to an option without a check needs more than 32 bits.
-/

namespace PpcLab.Tool

namespace Setting

variable {w v d : Type}

def map (change : w → v) : Setting w d → Setting v d
  | .text field value => .text field value
  | .trace => .trace
  | .ignoreTraps => .ignoreTraps
  | .bind name address => .bind name (change address)
  | .word field value => .word field (change value)
  | .size field value => .size field value
  | .stub address kind name => .stub (change address) kind name
  | .syscallReturn number value => .syscallReturn (change number) (change value)
  | .defaultSyscallReturn value => .defaultSyscallReturn (change value)
  | .register index value => .register index (change value)
  | .floatRegister index value => .floatRegister index value
  | .write32 address value => .write32 (change address) (change value)
  | .writeFloat address value => .writeFloat (change address) value
  | .dump address length => .dump (change address) length
  | .traceRange first last => .traceRange (change first) (change last)

/-- The numbers for fields of 32 bits that were looked at. -/
def checked : Setting w d → List w
  | .bind _ address => [address]
  | .stub address _ _ => [address]
  | .syscallReturn number value => [number, value]
  | .defaultSyscallReturn value => [value]
  | _ => []

/-- The numbers for fields of 32 bits that were not. -/
def unchecked : Setting w d → List w
  | .word _ value => [value]
  | .register _ value => [value]
  | .write32 address value => [address, value]
  | .writeFloat address _ => [address]
  | .dump address _ => [address]
  | .traceRange first last => [first, last]
  | _ => []

end Setting

/-- A setting is stored as it was written if all of its numbers are kept. -/
private theorem map_cast_eq_iff {d : Type} (setting : Setting Nat d) :
    (setting.map (BitVec.ofNat 32)).map BitVec.toNat = setting ↔
      ∀ number ∈ setting.checked ++ setting.unchecked, number < 2 ^ 32 := by
  cases setting with
  | _ => simp [Setting.map, Setting.checked, Setting.unchecked]

section Cast

variable {w v d : Type} (change : w → v) (cast : Nat → w)
  (parseDouble : List Char → Option d)

/-- A reader, with something made of the numbers that it stores. -/
def onNumbers (read : String → Except String (Setting w d)) (text : String) :
    Except String (Setting v d) :=
  (read text).map (Setting.map change)

private theorem readNumber_cast (field : NumberField) :
    readNumber (d := d) (change ∘ cast) field =
      onNumbers change (readNumber cast field) := by
  funext text
  rw [onNumbers, readNumber, readNumber]
  cases parseUnsigned text.toList with
  | none => rfl
  | some value => cases field <;> rfl

private theorem readBinding_cast :
    readBinding (d := d) (change ∘ cast) =
      onNumbers change (readBinding cast) := by
  funext text
  rw [onNumbers, readBinding, readBinding, parseBinding, parseBinding]
  cases splitAssignment text.toList with
  | none => rfl
  | some sides =>
      obtain ⟨left, right⟩ := sides
      dsimp only [Option.bind_eq_bind, Option.bind_some]
      cases parseChecked right <;> rfl

private theorem readStub_cast :
    readStub (d := d) (change ∘ cast) = onNumbers change (readStub cast) := by
  funext text
  rw [onNumbers, readStub, readStub]
  cases splitFilled '@' text.toList with
  | none => rfl
  | some sides =>
      obtain ⟨left, right⟩ := sides
      dsimp only
      cases parseImportStubKind (String.ofList left) with
      | none => rfl
      | some kind => cases parseChecked right <;> rfl

private theorem readDefaultSyscallReturn_cast :
    readDefaultSyscallReturn (d := d) (change ∘ cast) =
      onNumbers change (readDefaultSyscallReturn cast) := by
  funext text
  rw [onNumbers, readDefaultSyscallReturn, readDefaultSyscallReturn]
  cases parseChecked text.toList <;> rfl

private theorem readPair_cast {α β : Type}
    (sides : Option (List Char × List Char)) (expected invalid : String)
    (parseLeft : List Char → Option α) (parseRight : List Char → Option β)
    (store : α → β → Setting w d) :
    readPair sides expected invalid parseLeft parseRight
        (fun first second => (store first second).map change) =
      (readPair sides expected invalid parseLeft parseRight store).map
        (Setting.map change) := by
  unfold readPair
  cases sides with
  | none => rfl
  | some sides =>
      obtain ⟨left, right⟩ := sides
      dsimp only
      cases parseLeft left with
      | none => rfl
      | some first => cases parseRight right <;> rfl

private theorem lookup_map {α β : Type} (onto : α → β)
    (entries : List (String × α)) (name : String) :
    (entries.map fun entry => (entry.1, onto entry.2)).lookup name =
      (entries.lookup name).map onto := by
  induction entries with
  | nil => rfl
  | cons entry entries induction =>
      rw [List.map_cons, List.lookup_cons, List.lookup_cons, induction]
      cases name == entry.1 <;> rfl

private theorem readers_cast (command : Command) :
    command.readers (change ∘ cast) parseDouble =
      (command.readers cast parseDouble).map fun entry =>
        (entry.1, onNumbers change entry.2) := by
  have syscallReturn : readSyscallReturn (d := d) (change ∘ cast) =
      onNumbers change (readSyscallReturn cast) :=
    funext fun _ => readPair_cast change _ _ _ _ _
      fun number value => .syscallReturn (cast number) (cast value)
  have register : readRegister (d := d) (change ∘ cast) =
      onNumbers change (readRegister cast) :=
    funext fun _ => readPair_cast change _ _ _ _ _
      fun index value => .register index (cast value)
  have floatRegister : readFloatRegister (w := v) parseDouble =
      onNumbers change (readFloatRegister parseDouble) :=
    funext fun _ => readPair_cast change _ _ _ _ _ .floatRegister
  have write32 : readWrite32 (d := d) (change ∘ cast) =
      onNumbers change (readWrite32 cast) :=
    funext fun _ => readPair_cast change _ _ _ _ _
      fun address value => .write32 (cast address) (cast value)
  have writeFloat : readWriteFloat (change ∘ cast) parseDouble =
      onNumbers change (readWriteFloat cast parseDouble) :=
    funext fun _ => readPair_cast change _ _ _ _ _
      fun address value => .writeFloat (cast address) value
  have dump : readDump (d := d) (change ∘ cast) =
      onNumbers change (readDump cast) :=
    funext fun _ => readPair_cast change _ _ _ _ _
      fun address size => .dump (cast address) size
  have traceRange : readTraceRange (d := d) (change ∘ cast) =
      onNumbers change (readTraceRange cast) :=
    funext fun _ => readPair_cast change _ _ _ _ _
      fun first last => .traceRange (cast first) (cast last)
  cases command with
  | call =>
      simp only [Command.readers, readBinding_cast, readStub_cast,
        syscallReturn, readDefaultSyscallReturn_cast, register, floatRegister,
        write32, writeFloat, dump, traceRange, List.map_cons, List.map_nil]
  | disasm =>
      simp only [Command.readers, readBinding_cast, List.map_cons,
        List.map_nil]

private theorem reader_cast (command : Command) (name : String) :
    command.reader (change ∘ cast) parseDouble name =
      (command.reader cast parseDouble name).map (onNumbers change) := by
  rw [Command.reader, Command.reader, readers_cast, lookup_map]
  cases command.texts.lookup name with
  | some field => rfl
  | none =>
      cases command.numbers.lookup name with
      | some field =>
          exact congrArg some (readNumber_cast change cast field)
      | none => rfl

private theorem flags_cast (command : Command) (name : String) :
    (command.flags (w := v) (d := d)).lookup name =
      ((command.flags (w := w)).lookup name).map (Setting.map change) := by
  rw [← lookup_map]
  cases command <;> rfl

/-- The options are the same, whatever is made of their numbers. -/
theorem readOptions_cast (command : Command) : (arguments : List String) →
    readOptions (change ∘ cast) parseDouble command arguments =
      (readOptions cast parseDouble command arguments).map
        (List.map (Setting.map change))
  | [] => rfl
  | name :: arguments => by
      rw [readOptions, readOptions, flags_cast change, reader_cast]
      cases (command.flags (w := w) (d := d)).lookup name with
      | some setting =>
          dsimp only [Option.map_some]
          rw [readOptions_cast command arguments]
          cases readOptions cast parseDouble command arguments <;> rfl
      | none =>
          cases command.reader cast parseDouble name with
          | none => rfl
          | some read =>
              cases arguments with
              | nil => rfl
              | cons text arguments =>
                  dsimp only [Option.map_none, Option.map_some]
                  rw [onNumbers, readOptions_cast command arguments]
                  cases read text with
                  | error message => rfl
                  | ok setting =>
                      cases readOptions cast parseDouble command arguments
                      all_goals rfl

end Cast

section Stored

variable {d : Type} (parseDouble : List Char → Option d)

private theorem parseChecked_lt {text : List Char} {number : Nat}
    (parsed : parseChecked text = some number) : number < 2 ^ 32 := by
  have bound := (Option.filter_eq_some_iff.mp parsed).2
  have small : number ≤ 0xffffffff := by
    simpa using bound
  omega

private theorem checked_of_readBinding {text : String} {setting : Setting Nat d}
    (read : readBinding id text = .ok setting) :
    ∀ number ∈ setting.checked, number < 2 ^ 32 := by
  rw [readBinding] at read
  split at read
  · cases read
  · rename_i found
    cases read
    obtain ⟨⟨left, right⟩, _, found⟩ := Option.bind_eq_some_iff.mp found
    obtain ⟨address, parsed, same⟩ := Option.bind_eq_some_iff.mp found
    cases same
    intro number member
    rw [List.mem_singleton.mp member]
    exact parseChecked_lt parsed

private theorem checked_of_readStub {text : String} {setting : Setting Nat d}
    (read : readStub id text = .ok setting) :
    ∀ number ∈ setting.checked, number < 2 ^ 32 := by
  rw [readStub] at read
  split at read
  · cases read
  · dsimp only at read
    split at read
    · cases read
    · split at read
      · cases read
      · rename_i parsed
        cases read
        intro number member
        rw [List.mem_singleton.mp member]
        exact parseChecked_lt parsed

private theorem checked_of_readDefaultSyscallReturn {text : String}
    {setting : Setting Nat d}
    (read : readDefaultSyscallReturn id text = .ok setting) :
    ∀ number ∈ setting.checked, number < 2 ^ 32 := by
  rw [readDefaultSyscallReturn] at read
  split at read
  · cases read
  · rename_i parsed
    cases read
    intro number member
    rw [List.mem_singleton.mp member]
    exact parseChecked_lt parsed

private theorem checked_of_readPair {α β : Type}
    {sides : Option (List Char × List Char)} {expected invalid : String}
    {parseLeft : List Char → Option α} {parseRight : List Char → Option β}
    {store : α → β → Setting Nat d} {setting : Setting Nat d}
    (read : readPair sides expected invalid parseLeft parseRight store =
      .ok setting)
    (small : ∀ left right first second, parseLeft left = some first →
      parseRight right = some second →
      ∀ number ∈ (store first second).checked, number < 2 ^ 32) :
    ∀ number ∈ setting.checked, number < 2 ^ 32 := by
  unfold readPair at read
  split at read
  · cases read
  · split at read
    · cases read
    · rename_i parsedLeft
      split at read
      · cases read
      · rename_i parsedRight
        cases read
        exact small _ _ _ _ parsedLeft parsedRight

/-- What is checked has 32 bits. -/
private theorem checked_of_reader {command : Command} {name text : String}
    {read : String → Except String (Setting Nat d)} {setting : Setting Nat d}
    (found : command.reader id parseDouble name = some read)
    (stored : read text = .ok setting) :
    ∀ number ∈ setting.checked, number < 2 ^ 32 := by
  rcases Option.or_eq_some_iff.mp found with plain | ⟨_, found⟩
  · obtain ⟨field, _, rfl⟩ := Option.map_eq_some_iff.mp plain
    cases stored
    intro number member
    exact absurd member List.not_mem_nil
  rcases Option.or_eq_some_iff.mp found with numeric | ⟨_, other⟩
  · obtain ⟨field, _, rfl⟩ := Option.map_eq_some_iff.mp numeric
    rw [readNumber] at stored
    split at stored
    · cases stored
    · cases stored
      intro number member
      cases field <;> exact absurd member List.not_mem_nil
  obtain ⟨before, behind, table, _⟩ := List.lookup_eq_some_iff.mp other
  have listed : (name, read) ∈ command.readers id parseDouble := by
    rw [table]
    simp
  cases command with
  | disasm =>
      cases List.mem_singleton.mp listed
      exact checked_of_readBinding stored
  | call =>
      simp only [Command.readers, List.mem_cons, Prod.mk.injEq,
        List.not_mem_nil, or_false] at listed
      rcases listed with ⟨_, rfl⟩ | ⟨_, rfl⟩ | ⟨_, rfl⟩ | ⟨_, rfl⟩ |
        ⟨_, rfl⟩ | ⟨_, rfl⟩ | ⟨_, rfl⟩ | ⟨_, rfl⟩ | ⟨_, rfl⟩ | ⟨_, rfl⟩
      · exact checked_of_readBinding stored
      · exact checked_of_readStub stored
      · refine checked_of_readPair stored ?_
        intro left right number value parsed parsedRight other member
        rcases List.mem_cons.mp member with rfl | last
        · exact parseChecked_lt parsed
        · rw [List.mem_singleton.mp last]
          exact parseChecked_lt parsedRight
      · exact checked_of_readDefaultSyscallReturn stored
      all_goals
        exact checked_of_readPair stored fun _ _ _ _ _ _ _ member =>
          absurd member List.not_mem_nil

private theorem checked_of_flags {command : Command} {name : String}
    {setting : Setting Nat d}
    (found : command.flags.lookup name = some setting) :
    setting.checked = [] := by
  obtain ⟨before, behind, table, _⟩ := List.lookup_eq_some_iff.mp found
  have listed : (name, setting) ∈ command.flags := by
    rw [table]
    simp
  cases command with
  | disasm => cases listed
  | call =>
      simp only [Command.flags, List.mem_cons, Prod.mk.injEq,
        List.not_mem_nil, or_false] at listed
      rcases listed with ⟨_, rfl⟩ | ⟨_, rfl⟩
      all_goals rfl

private theorem checked_of_readOptions {command : Command} :
    (arguments : List String) → {settings : List (Setting Nat d)} →
    readOptions id parseDouble command arguments = .ok settings →
    ∀ setting ∈ settings, ∀ number ∈ setting.checked, number < 2 ^ 32
  | [], _, read => by
      cases read
      exact nofun
  | name :: arguments, settings, read => by
      rw [readOptions] at read
      cases flag : command.flags.lookup name with
      | some first =>
          rw [flag] at read
          obtain ⟨others, later, read⟩ := Outcome.bind_eq_ok.mp read
          cases read
          intro setting member
          rcases List.mem_cons.mp member with rfl | listed
          · rw [checked_of_flags flag]
            exact nofun
          · exact checked_of_readOptions arguments later setting listed
      | none =>
          rw [flag] at read
          dsimp only at read
          cases found : command.reader id parseDouble name with
          | none =>
              rw [found] at read
              cases read
          | some reader =>
              rw [found] at read
              cases arguments with
              | nil => cases read
              | cons text arguments =>
                  obtain ⟨first, stored, read⟩ := Outcome.bind_eq_ok.mp read
                  obtain ⟨others, later, read⟩ := Outcome.bind_eq_ok.mp read
                  cases read
                  intro setting member
                  rcases List.mem_cons.mp member with rfl | listed
                  · exact checked_of_reader parseDouble found stored
                  · exact checked_of_readOptions arguments later setting
                      listed

/-- The options are rejected, or every number is stored as it was written. -/
def StoredAsWritten (command : Command) (arguments : List String) : Prop :=
  ∀ settings,
    readOptions (BitVec.ofNat 32) parseDouble command arguments =
      .ok settings →
    readOptions id parseDouble command arguments =
      .ok (settings.map (Setting.map BitVec.toNat))

/-- Every number is stored as it was written exactly if the options are
rejected or no number without a check needs more than 32 bits. -/
theorem storedAsWritten_iff_fits (command : Command)
    (arguments : List String) :
    StoredAsWritten parseDouble command arguments ↔
      ∀ settings, readOptions id parseDouble command arguments = .ok settings →
        ∀ setting ∈ settings, ∀ number ∈ setting.unchecked,
          number < 2 ^ 32 := by
  have cast := readOptions_cast (BitVec.ofNat 32) id parseDouble command
    arguments
  rw [Function.comp_id] at cast
  rw [StoredAsWritten, cast]
  cases read : readOptions id parseDouble command arguments with
  | error message => exact iff_of_true nofun nofun
  | ok settings =>
      have checked := checked_of_readOptions parseDouble arguments read
      have same : settings = settings.map
            (Setting.map BitVec.toNat ∘ Setting.map (BitVec.ofNat 32)) ↔
          ∀ setting ∈ settings, setting =
            (setting.map (BitVec.ofNat 32)).map BitVec.toNat := by
        conv_lhs => lhs; rw [← List.map_id settings]
        exact List.map_inj_left
      simp only [Except.map, Except.ok.injEq, forall_eq', List.map_map]
      rw [same]
      constructor
      · intro kept setting member number listed
        exact (map_cast_eq_iff setting).mp (kept setting member).symm number
          (List.mem_append_right _ listed)
      · intro small setting member
        symm
        apply (map_cast_eq_iff setting).mpr
        intro number listed
        rcases List.mem_append.mp listed with looked | other
        · exact checked setting member number looked
        · exact small setting member number other

end Stored

/-- An entry of 33 bits is stored as the entry 0. -/
theorem entry_is_truncated :
    ¬ StoredAsWritten (fun _ => none (α := Unit)) .call
      ["--entry", "0x100000000"] := by
  intro stored
  have read : readOptions (BitVec.ofNat 32) (fun _ => none (α := Unit)) .call
      ["--entry", "0x100000000"] = .ok [.word .entry 0] := by
    rfl
  have written := stored _ read
  revert written
  decide

end PpcLab.Tool
