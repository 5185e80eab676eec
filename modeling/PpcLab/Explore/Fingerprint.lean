import PpcLab.Explore.Masking
import PpcLab.Library.Outcome
import PpcLab.Security.AuditChain

/-!
# Fingerprints and registers that nobody touched

The behaviour of a case is known by a hash of what its answer shows, where
registers that still hold what the assignment put there are masked.  Two answers
that differ in such registers only have the same hash if the registers are
recognized, and they are not always.
-/

namespace PpcLab.Explore

open Json (codePoint_injective)

variable {setting : Setting}

private theorem setPath_register {job changed : Fields} {name : Str}
    {value : Json}
    (set : setPath job (str "registers." ++ name) value = .ok changed) :
    ∃ fields, (Json.find? job (str "registers")).getD (.object []) =
        .object fields ∧
      Json.get changed (str "registers") =
        .object (Dictionary.assign fields (name, value)) := by
  unfold setPath at set
  rw [splitPath_register] at set
  dsimp only at set
  split at set
  · rename_i fields found
    cases set
    exact ⟨fields, found, Json.get_assign_self⟩
  · cases set

private theorem registers_of_foldlM {assignment job built fields : Fields}
    (onRegisters : ∀ entry ∈ assignment, onRegister entry)
    (made : assignment.foldlM (fun job entry => setPath job entry.1 entry.2)
      job = .ok built)
    (isRegisters : Json.get job (str "registers") = .object fields) :
    Json.get built (str "registers") =
      .object ((assignment.map named).foldl Dictionary.assign fields) := by
  induction assignment generalizing job fields with
  | nil =>
      cases made
      exact isRegisters
  | cons entry assignment induction =>
      obtain ⟨path, value⟩ := entry
      obtain ⟨⟨name, rfl⟩, rest⟩ := List.forall_mem_cons.mp onRegisters
      rw [List.foldlM_cons] at made
      obtain ⟨changed, set, made⟩ := Outcome.bind_eq_ok.mp made
      obtain ⟨before, found, after⟩ := setPath_register set
      have same : before = fields := by
        cases isHere : Json.find? job (str "registers") with
        | none =>
            rw [Json.get, isHere] at isRegisters
            cases isRegisters
        | some value =>
            rw [Json.get, isHere] at isRegisters
            rw [isHere] at found
            exact Json.object.inj (found.symm.trans isRegisters)
      rw [induction rest made after, same, List.map_cons, List.foldl_cons,
        named, splitPath_register]

private theorem find?_foldl_assign {entries fields : Fields} {key : Str}
    (absent : key ∉ entries.map (·.1)) :
    Json.find? (entries.foldl Dictionary.assign fields) key =
      Json.find? fields key := by
  induction entries generalizing fields with
  | nil => rfl
  | cons entry entries induction =>
      rw [List.map_cons, List.mem_cons, not_or] at absent
      rw [List.foldl_cons, induction absent.2]
      exact Json.find?_assign_of_ne (Ne.symm absent.1)

private theorem find?_foldl_assign_of_mem {entries fields : Fields}
    (distinct : (entries.map (·.1)).Nodup) {key : Str} {value : Json}
    (listed : (key, value) ∈ entries) :
    Json.find? (entries.foldl Dictionary.assign fields) key = some value := by
  induction entries generalizing fields with
  | nil => cases listed
  | cons first entries induction =>
      obtain ⟨new, distinct⟩ := List.nodup_cons.mp distinct
      rw [List.foldl_cons]
      rcases List.mem_cons.mp listed with rfl | later
      · rw [find?_foldl_assign new, Json.find?_assign_self]
      · exact induction distinct later

private theorem mem_of_find? {fields : Fields} {key : Str} {value : Json}
    (found : Json.find? fields key = some value) : (key, value) ∈ fields := by
  obtain ⟨member, first, rfl⟩ := Option.map_eq_some_iff.mp found
  have isKey : (member.1 == key) = true :=
    List.find?_some (p := fun member : Str × Json => member.1 == key) first
  rw [← eq_of_beq isKey]
  exact List.mem_of_find?_eq_some first

/-- The job sets what the assignment says. -/
theorem mem_registers_of_built {baseJob assignment job registers : Fields}
    (onRegisters : ∀ entry ∈ assignment, onRegister entry)
    (distinct : (assignment.map (·.1)).Nodup)
    (built : jobWithAssignment baseJob assignment = .ok job)
    (isRegisters : Json.get job (str "registers") = .object registers)
    {entry : Str × Json} (listed : entry ∈ assignment) :
    named entry ∈ registers := by
  have paths : assignment.map (·.1) =
      ((assignment.map named).map (·.1)).map (str "registers." ++ ·) := by
    rw [List.map_map, List.map_map]
    apply List.map_congr_left
    intro member here
    obtain ⟨name, path⟩ := onRegisters member here
    rw [Function.comp_apply, Function.comp_apply, named, path,
      splitPath_register]
  rw [paths] at distinct
  have names := distinct.of_map
  cases assignment with
  | nil => cases listed
  | cons first assignment =>
      obtain ⟨path, value⟩ := first
      obtain ⟨⟨name, rfl⟩, rest⟩ := List.forall_mem_cons.mp onRegisters
      rw [jobWithAssignment, List.foldlM_cons] at built
      obtain ⟨changed, set, made⟩ := Outcome.bind_eq_ok.mp built
      obtain ⟨fields, _, after⟩ := setPath_register set
      have whole := registers_of_foldlM rest made after
      rw [isRegisters] at whole
      have same : registers = (((str "registers." ++ name, value) ::
          assignment).map named).foldl Dictionary.assign fields := by
        rw [Json.object.inj whole, List.map_cons, List.foldl_cons, named,
          splitPath_register]
      have found : Json.find? registers (named entry).1 =
          some (named entry).2 := by
        rw [same]
        exact find?_foldl_assign_of_mem names (List.mem_map_of_mem listed)
      exact mem_of_find? found

/-- The last of the entries that set a register. -/
def setter (numerals : Numerals) (registers : Fields) (index : Nat) :
    Option (Str × Json) :=
  registers.reverse.find? fun entry =>
    (gprSetting numerals entry).any (·.1 == index)

/-- An assignment to axes that are registers, with the job that is made from
it.  The worker and the tool accept the registers of the job, and those of the
assignment are not set again behind it. -/
structure RegisterTrial (numerals : Numerals) (baseJob : Fields) where
  assignment : Fields
  job : Fields
  registers : Fields
  onRegisters : ∀ entry ∈ assignment, onRegister entry
  distinct : (assignment.map (·.1)).Nodup
  built : jobWithAssignment baseJob assignment = .ok job
  isRegisters : Json.get job (str "registers") = .object registers
  accepted : ∀ entry ∈ registers, (gprSetting numerals entry).isSome
  own : ∀ entry ∈ assignment, ∀ index, isCounted numerals entry index →
    ∃ last ∈ assignment, setter numerals registers index = some (named last)

namespace RegisterTrial

variable {numerals : Numerals} {baseJob : Fields}
  (trial : RegisterTrial numerals baseJob)

def Explored (register : Register) : Prop :=
  ∃ entry ∈ trial.assignment, isCounted numerals entry register.toNat

/-- The number that the assignment puts into a register. -/
def placed (register : Register) : Option Nat :=
  ((setter numerals trial.registers register.toNat).bind
    (gprSetting numerals)).map (·.2)

/-- Every explored register holds what was put there. -/
def Holds (gpr : Register → Word) : Prop :=
  ∀ register, trial.Explored register →
    trial.placed register = some (gpr register).toNat

/-- Python reads the number of a register from some entry that names it. -/
def Recognized (applies : Str × Json → Nat → Bool) (register : Register) :
    Prop :=
  ∃ entry ∈ trial.assignment, applies entry register.toNat ∧
    isPlain numerals entry.2 ∧
    (gprSetting numerals (named entry)).map (·.2) = trial.placed register

end RegisterTrial

/-- The registers are recognized in both or in none, and those that are not
are given the same numbers. -/
def Uniform {numerals : Numerals} {baseJob : Fields}
    (first second : RegisterTrial numerals baseJob)
    (applies : Str × Json → Nat → Bool) : Prop :=
  ∀ register, first.Explored register →
    (first.Recognized applies register ∧ second.Recognized applies register) ∨
      (¬first.Recognized applies register ∧
        ¬second.Recognized applies register ∧
        first.placed register = second.placed register)

/-- Two ends of runs that differ in the explored registers only, which hold
what was put there. -/
structure Untouched {numerals : Numerals} {baseJob : Fields}
    (first second : RegisterTrial numerals baseJob)
    (gpr other : Register → Word) :
    Prop where
  holds : first.Holds gpr
  otherHolds : second.Holds other
  same : ∀ register, ¬first.Explored register → gpr register = other register

/-- Only a register itself has its name in the result. -/
theorem ReadSetting.eq_of_gprName {entry : Str × Json} {index value other : Nat}
    (read : ReadSetting entry index value) (same : entry.1 = gprName other) :
    index = other := by
  cases read with
  | intro some digits _ _ _ =>
      rw [gprName, str_eq, str_eq, Tool.toList_decimal] at same
      have tails := List.map_injective_iff.mpr codePoint_injective
        (List.tail_eq_of_cons_eq same)
      obtain ⟨values, read, isOther⟩ := Tool.mapM_toDigits (.inl rfl) other
      rw [tails, read] at digits
      cases digits
      exact isOther

namespace RegisterTrial

variable {numerals : Numerals} {baseJob : Fields}
  (trial : RegisterTrial numerals baseJob)

theorem settings : ∀ entry ∈ trial.assignment, onRegister entry ∧
    (gprSetting numerals (named entry)).isSome := by
  intro entry listed
  refine ⟨trial.onRegisters entry listed, trial.accepted _ ?_⟩
  exact mem_registers_of_built trial.onRegisters trial.distinct trial.built
    trial.isRegisters listed

theorem isCounted_of_isShown {entry : Str × Json}
    (listed : entry ∈ trial.assignment) {index : Nat}
    (shown : isShown entry index) : isCounted numerals entry index := by
  obtain ⟨⟨counted, value⟩, isSetting⟩ :=
    Option.isSome_iff_exists.mp (trial.settings entry listed).2
  have read := readSetting_of_gprSetting isSetting
  rw [isCounted, isSetting, read.eq_of_gprName (eq_of_beq shown)]
  exact beq_self_eq_true index

theorem isSome_placed {register : Register}
    (explored : trial.Explored register) :
    ∃ value, trial.placed register = some value := by
  obtain ⟨entry, listed, counted⟩ := explored
  obtain ⟨last, own, isLast⟩ := trial.own entry listed _ counted
  obtain ⟨setting, isSetting⟩ :=
    Option.isSome_iff_exists.mp (trial.settings last own).2
  exact ⟨setting.2, by rw [placed, isLast, Option.bind_some, isSetting]; rfl⟩

theorem placed_lt {register : Register}
    {value : Nat} (placed : trial.placed register = some value) :
    value < 2 ^ 32 := by
  obtain ⟨⟨index, number⟩, isSetting, rfl⟩ := Option.map_eq_some_iff.mp placed
  obtain ⟨entry, _, isSetting⟩ := Option.bind_eq_some_iff.mp isSetting
  cases readSetting_of_gprSetting isSetting
  exact Nat.mod_lt _ (by decide)

end RegisterTrial

/-- A register that holds what was put there is masked when it is
recognized. -/
private theorem masked_iff {baseJob : Fields}
    (trial : RegisterTrial setting.python.numerals baseJob)
    (applies : Str × Json → Nat → Bool) {register : Register} {value : Word}
    (placed : trial.placed register = some value.toNat) :
    (∃ entry ∈ trial.assignment, applies entry register.toNat ∧
      u32 setting entry.2 = some value.toNat) ↔
      trial.Recognized applies register := by
  unfold RegisterTrial.Recognized
  rw [placed]
  apply exists_congr
  intro entry
  rw [and_congr_right_iff]
  intro listed
  rw [and_congr_right_iff]
  intro _
  obtain ⟨⟨index, number⟩, isSetting⟩ :=
    Option.isSome_iff_exists.mp (trial.settings entry listed).2
  have shown : u32 setting entry.2 =
      if isPlain setting.python.numerals entry.2 then some number else none :=
    (readSetting_of_gprSetting isSetting).u32
  rw [shown, isSetting]
  cases isPlain setting.python.numerals entry.2 with
  | false => simp
  | true => simp

/-- What is shown of a register at the end. -/
private theorem shown_of_explored {baseJob : Fields}
    (trial : RegisterTrial setting.python.numerals baseJob)
    (applies : Str × Json → Nat → Bool) {register : Register}
    {gpr : Register → Word}
    (placed : trial.placed register = some (gpr register).toNat) :
    trial.assignment.foldl (hiddenBy setting applies) (cells gpr)
        register.toNat = inputMark ∧ trial.Recognized applies register ∨
      trial.assignment.foldl (hiddenBy setting applies) (cells gpr)
        register.toNat = cell (gpr register) ∧
        ¬trial.Recognized applies register := by
  have holds : cells gpr register.toNat = cell (gpr register) := by
    rw [cells, BitVec.ofNat_toNat, BitVec.setWidth_eq]
  rw [foldl_hiddenBy applies trial.assignment holds]
  have masked := masked_iff trial applies placed
  by_cases recognized : trial.Recognized applies register
  · exact .inl ⟨if_pos (masked.mpr recognized), recognized⟩
  · exact .inr ⟨if_neg (recognized ∘ masked.mp), recognized⟩

private theorem shown_of_unexplored {baseJob : Fields}
    (trial : RegisterTrial setting.python.numerals baseJob)
    {applies : Str × Json → Nat → Bool}
    (counts : ∀ entry ∈ trial.assignment, ∀ index, applies entry index →
      isCounted setting.python.numerals entry index) {register : Register}
    {gpr : Register → Word} (unexplored : ¬trial.Explored register) :
    trial.assignment.foldl (hiddenBy setting applies) (cells gpr)
      register.toNat = cell (gpr register) := by
  have holds : cells gpr register.toNat = cell (gpr register) := by
    rw [cells, BitVec.ofNat_toNat, BitVec.setWidth_eq]
  rw [foldl_hiddenBy applies trial.assignment holds]
  apply if_neg
  rintro ⟨entry, listed, here, _⟩
  exact unexplored ⟨entry, listed, counts entry listed _ here⟩

theorem inputMark_ne_cell (value : Word) : inputMark ≠ cell value := by
  intro same
  have texts := Json.str_injective (Json.string.inj same)
  have heads := congrArg (fun text => text.toList.head?) texts
  simp only [Text.hex32, String.toList_ofList, List.head?_cons] at heads
  exact absurd heads (by decide)

theorem cell_injective : Function.Injective cell := by
  intro first second same
  exact BitVec.eq_of_toNat_eq
    (Text.hex32_injective (Json.str_injective (Json.string.inj same)))

/-- The registers of both show the same exactly if they are recognized in the
same way. -/
private theorem shown_eq_iff {baseJob : Fields}
    {first second : RegisterTrial setting.python.numerals baseJob}
    (applies : Str × Json → Nat → Bool) {register : Register}
    {gpr other : Register → Word}
    (placed : first.placed register = some (gpr register).toNat)
    (otherPlaced : second.placed register = some (other register).toNat) :
    first.assignment.foldl (hiddenBy setting applies) (cells gpr)
        register.toNat =
      second.assignment.foldl (hiddenBy setting applies) (cells other)
        register.toNat ↔
      (first.Recognized applies register ∧
        second.Recognized applies register) ∨
      (¬first.Recognized applies register ∧
        ¬second.Recognized applies register ∧
        first.placed register = second.placed register) := by
  rcases shown_of_explored first applies placed with
    ⟨shown, recognized⟩ | ⟨shown, unrecognized⟩
  · rcases shown_of_explored second applies otherPlaced with
      ⟨otherShown, otherRecognized⟩ | ⟨otherShown, otherUnrecognized⟩
    · rw [shown, otherShown]
      simp [recognized, otherRecognized]
    · rw [shown, otherShown]
      simp [recognized, otherUnrecognized, inputMark_ne_cell]
  · rcases shown_of_explored second applies otherPlaced with
      ⟨otherShown, otherRecognized⟩ | ⟨otherShown, otherUnrecognized⟩
    · rw [shown, otherShown]
      simp [unrecognized, otherRecognized, Ne.symm (inputMark_ne_cell _)]
    · rw [shown, otherShown, cell_injective.eq_iff, placed, otherPlaced]
      simp [unrecognized, otherUnrecognized, BitVec.toNat_inj]

section Answers

variable {baseJob : Fields}
  {first second : RegisterTrial setting.python.numerals baseJob}

/-- The same axes explore the same registers. -/
private theorem explored_of_axes
    (axes : first.assignment.map (·.1) = second.assignment.map (·.1))
    {register : Register} (explored : first.Explored register) :
    second.Explored register := by
  obtain ⟨entry, listed, counted⟩ := explored
  have path : entry.1 ∈ second.assignment.map (·.1) :=
    axes ▸ List.mem_map_of_mem listed
  obtain ⟨other, otherListed, same⟩ := List.mem_map.mp path
  have names : (named other).1 = (named entry).1 := by
    rw [named, named, same]
  obtain ⟨⟨index, value⟩, isSetting⟩ :=
    Option.isSome_iff_exists.mp (first.settings entry listed).2
  obtain ⟨⟨otherIndex, otherValue⟩, isOther⟩ :=
    Option.isSome_iff_exists.mp (second.settings other otherListed).2
  have isIndex := ofText_of_gprSetting isSetting
  have isOtherIndex := ofText_of_gprSetting isOther
  rw [names, isIndex] at isOtherIndex
  refine ⟨other, otherListed, ?_⟩
  rw [isCounted, isSetting] at counted
  rw [isCounted, isOther]
  have equal := Option.some.inj isOtherIndex
  have indices : index = otherIndex := by omega
  rw [Option.any_some] at counted ⊢
  rw [← indices]
  exact counted

private theorem shown_eq
    (axes : first.assignment.map (·.1) = second.assignment.map (·.1))
    {applies : Str × Json → Nat → Bool}
    (counts : ∀ trial : RegisterTrial setting.python.numerals baseJob,
      ∀ entry ∈ trial.assignment, ∀ index, applies entry index →
        isCounted setting.python.numerals entry index)
    (uniform : Uniform first second applies) {gpr other : Register → Word}
    (alike : Untouched first second gpr other) (register : Register) :
    first.assignment.foldl (hiddenBy setting applies) (cells gpr)
        register.toNat =
      second.assignment.foldl (hiddenBy setting applies) (cells other)
        register.toNat := by
  by_cases explored : first.Explored register
  · have otherExplored := explored_of_axes axes explored
    exact (shown_eq_iff applies (alike.holds register explored)
      (alike.otherHolds register otherExplored)).mpr (uniform register explored)
  · have otherUnexplored : ¬second.Explored register :=
      fun here => explored (explored_of_axes axes.symm here)
    rw [shown_of_unexplored first (counts first) explored,
      shown_of_unexplored second (counts second) otherUnexplored,
      alike.same register explored]

private theorem exists_register {index : Nat} (small : index < 32) :
    ∃ register : Register, register.toNat = index :=
  ⟨BitVec.ofNat 5 index, by rw [BitVec.toNat_ofNat]; omega⟩

theorem stableArchitecture_answer_eq
    (axes : first.assignment.map (·.1) = second.assignment.map (·.1))
    (shown : Uniform first second isShown)
    (counted : Uniform first second (isCounted setting.python.numerals))
    {gpr other : Register → Word} (alike : Untouched first second gpr other)
    (response : Fields) :
    stableArchitecture setting (answer gpr response) first.assignment =
      stableArchitecture setting (answer other response) second.assignment := by
  have sameMembers : members (first.assignment.foldl
      (hiddenBy setting isShown) (cells gpr)) =
      members (second.assignment.foldl
        (hiddenBy setting isShown) (cells other)) := by
    apply List.map_congr_left
    intro index small
    obtain ⟨register, rfl⟩ := exists_register (List.mem_range.mp small)
    have counts (trial : RegisterTrial setting.python.numerals baseJob) :
        ∀ entry ∈ trial.assignment, ∀ index, isShown entry index →
          isCounted setting.python.numerals entry index :=
      fun entry listed index => trial.isCounted_of_isShown listed
    rw [shown_eq axes counts shown alike register]
  have sameItems : items (first.assignment.foldl
      (hiddenBy setting (isCounted setting.python.numerals)) (cells gpr)) =
      items (second.assignment.foldl
        (hiddenBy setting (isCounted setting.python.numerals))
        (cells other)) := by
    apply List.map_congr_left
    intro index small
    obtain ⟨register, rfl⟩ := exists_register (List.mem_range.mp small)
    exact shown_eq axes (fun _ _ _ _ => id) counted alike register
  rw [stableArchitecture_eq, stableArchitecture_eq, answer, answer,
    foldl_maskInput first.settings,
    foldl_maskInput second.settings, showing, showing, sameMembers,
    sameItems]

/-- An answer with nothing but registers. -/
def bare : Fields :=
  [(str "result", .object []),
    (str "snapshot", .object [(str "cpu", .object [])])]

private theorem architecture_bare (shown counted : Nat → Json) :
    architecture (showing shown counted bare) =
      [(str "ok", .null), (str "exit_code", .null),
        (str "timed_out", .bool false),
        (str "result", .object [(str "registers", .object (members shown))]),
        (str "snapshot", .object
          [(str "cpu", .object [(str "gpr", .array (items counted))])])] := by
  rfl

private theorem printable_shown (setting : Setting)
    (applies : Str × Json → Nat → Bool) (assignment : Fields)
    (gpr : Register → Word) (index : Nat) :
    ∃ text, assignment.foldl (hiddenBy setting applies) (cells gpr) index =
      .string text ∧ ∀ character ∈ text, character.val < 0x7f := by
  rw [foldl_hiddenBy applies assignment rfl]
  split
  · exact ⟨str "<input>", rfl, by decide⟩
  · exact ⟨_, rfl, Tool.printable_hex32 _⟩

private theorem paired_gprName {index : Nat} (small : index < 32) :
    paired (gprName index) = gprName index := by
  have all : ∀ index : Fin 32, paired (gprName index.val) =
      gprName index.val := by
    decide
  exact all ⟨index, small⟩

private theorem readable_bare (float : Str → FloatLiteral)
    {shown counted : Nat → Json}
    (printable : ∀ index, ∃ text, shown index = .string text ∧
      ∀ character ∈ text, character.val < 0x7f)
    (otherPrintable : ∀ index, ∃ text, counted index = .string text ∧
      ∀ character ∈ text, character.val < 0x7f) :
    Json.Readable float
      (.object (architecture (showing shown counted bare))) := by
  have readableCell {cell : Json} (printable : ∃ text, cell = .string text ∧
      ∀ character ∈ text, character.val < 0x7f) : Json.Readable float cell := by
    obtain ⟨text, rfl, small⟩ := printable
    exact Security.paired_of_printable small
  have readableMembers : Json.Readable float (.object (members shown)) := by
    refine ⟨nodup_members shown, (Json.readableFields_iff _ _).mpr ?_⟩
    intro member listed
    obtain ⟨index, small, rfl⟩ := List.mem_map.mp listed
    exact ⟨paired_gprName (List.mem_range.mp small),
      readableCell (printable index)⟩
  have readableItems : Json.Readable float (.array (items counted)) := by
    refine (Json.readableItems_iff _ _).mpr ?_
    intro item listed
    obtain ⟨index, _, rfl⟩ := List.mem_map.mp listed
    exact readableCell (otherPrintable index)
  have distinct : [str "ok", str "exit_code", str "timed_out", str "result",
      str "snapshot"].Nodup := by
    decide
  rw [architecture_bare]
  refine ⟨distinct, ⟨by decide, trivial⟩, ⟨by decide, trivial⟩,
    ⟨by decide, trivial⟩, ⟨by decide, ?_⟩, ⟨by decide, ?_⟩, trivial⟩
  · exact ⟨List.nodup_singleton _, ⟨by decide, readableMembers⟩, trivial⟩
  · refine ⟨List.nodup_singleton _, ⟨by decide, ?_⟩, trivial⟩
    exact ⟨List.nodup_singleton _, ⟨by decide, readableItems⟩, trivial⟩

private theorem sorted_get {fields others : Fields}
    (same : (Json.object fields).sorted = (Json.object others).sorted)
    (key : Str) :
    (Json.get fields key).sorted = (Json.get others key).sorted := by
  rw [← Json.get_sorted, ← Json.get_sorted]
  exact congrArg (Json.get · key) (Json.object.inj same)

/-- The canonical text of such an answer tells what is shown of registers. -/
private theorem shown_of_canonical {gpr other : Register → Word}
    (same : Security.canonical (.object (stableArchitecture setting
        (answer gpr bare) first.assignment)) =
      Security.canonical (.object (stableArchitecture setting
        (answer other bare) second.assignment)))
    {index : Nat} (small : index < 32)
    {applies : Str × Json → Nat → Bool}
    (listed : applies = isShown ∨
      applies = isCounted setting.python.numerals) :
    first.assignment.foldl (hiddenBy setting applies) (cells gpr) index =
      second.assignment.foldl (hiddenBy setting applies) (cells other)
        index := by
  have printable := printable_shown setting
  rw [stableArchitecture_eq, stableArchitecture_eq, answer, answer,
    foldl_maskInput first.settings,
    foldl_maskInput second.settings] at same
  have sorted := Security.sorted_eq_of_canonical setting.python
    (readable_bare setting.python.float (printable _ _ _) (printable _ _ _))
    (readable_bare setting.python.float (printable _ _ _) (printable _ _ _))
    same
  rw [architecture_bare, architecture_bare] at sorted
  rcases listed with rfl | rfl
  · have results :
        (Json.object [(str "registers", .object (members _))]).sorted =
        (Json.object [(str "registers", .object (members _))]).sorted :=
      sorted_get sorted (str "result")
    have registers : (Json.object (members _)).sorted =
        (Json.object (members _)).sorted :=
      sorted_get results (str "registers")
    have cells := sorted_get registers (gprName index)
    rw [get_members _ small, get_members _ small] at cells
    obtain ⟨text, isText, _⟩ := printable isShown first.assignment gpr index
    obtain ⟨others, isOther, _⟩ :=
      printable isShown second.assignment other index
    rw [isText, isOther] at cells ⊢
    exact cells
  · have snapshots : (Json.object
        [(str "cpu", .object [(str "gpr", .array (items _))])]).sorted =
        (Json.object
          [(str "cpu", .object [(str "gpr", .array (items _))])]).sorted :=
      sorted_get sorted (str "snapshot")
    have cpus : (Json.object [(str "gpr", .array (items _))]).sorted =
        (Json.object [(str "gpr", .array (items _))]).sorted :=
      sorted_get snapshots (str "cpu")
    have gprs : (Json.array (items _)).sorted = (Json.array (items _)).sorted :=
      sorted_get cpus (str "gpr")
    rw [Json.sorted, Json.sorted, Json.sortedItems_eq_map,
      Json.sortedItems_eq_map] at gprs
    have cells := congrArg (·[index]?) (Json.array.inj gprs)
    simp only [items, List.getElem?_map, List.getElem?_range small,
      Option.map_some, Option.some.injEq] at cells
    obtain ⟨text, isText, _⟩ := printable
      (isCounted setting.python.numerals) first.assignment gpr index
    obtain ⟨others, isOther, _⟩ := printable
      (isCounted setting.python.numerals) second.assignment other index
    rw [isText, isOther] at cells ⊢
    exact cells
/-- Every assignment can be left alone. -/
private theorem exists_gpr
    (trial : RegisterTrial setting.python.numerals baseJob) :
    ∃ gpr, trial.Holds gpr ∧
      ∀ register, ¬trial.Explored register → gpr register = 0 := by
  have each : ∀ register, ∃ value : Word,
      (trial.Explored register →
        trial.placed register = some value.toNat) ∧
      (¬trial.Explored register → value = 0) := by
    intro register
    by_cases explored : trial.Explored register
    · obtain ⟨value, placed⟩ := trial.isSome_placed explored
      have small : value < 2 ^ 32 := trial.placed_lt placed
      refine ⟨BitVec.ofNat 32 value, fun _ => ?_,
        fun none => absurd explored none⟩
      rw [placed, BitVec.toNat_ofNat, Nat.mod_eq_of_lt small]
    · exact ⟨0, fun here => absurd here explored, fun _ => rfl⟩
  choose gpr holds zero using each
  exact ⟨gpr, holds, zero⟩

private theorem uniform_of_canonical
    (axes : first.assignment.map (·.1) = second.assignment.map (·.1))
    {applies : Str × Json → Nat → Bool}
    (listed : applies = isShown ∨ applies = isCounted setting.python.numerals)
    (same : ∀ gpr other, Untouched first second gpr other →
      Security.canonical (.object (stableArchitecture setting
          (answer gpr bare) first.assignment)) =
        Security.canonical (.object (stableArchitecture setting
          (answer other bare) second.assignment))) :
    Uniform first second applies := by
  obtain ⟨gpr, holds, zero⟩ := exists_gpr first
  obtain ⟨other, otherHolds, otherZero⟩ := exists_gpr second
  have alike : Untouched first second gpr other := by
    refine ⟨holds, otherHolds, ?_⟩
    intro register unexplored
    rw [zero register unexplored, otherZero]
    exact fun here => unexplored (explored_of_axes axes.symm here)
  intro register explored
  have otherExplored := explored_of_axes axes explored
  rw [← shown_eq_iff applies (holds register explored)
    (otherHolds register otherExplored)]
  exact shown_of_canonical (same gpr other alike) register.isLt listed

/-- The answers of runs that leave the explored registers alone look the same
to a digest. -/
def Indistinct {α : Type} (setting : Setting) {baseJob : Fields}
    (digest : Json → α)
    (first second : RegisterTrial setting.python.numerals baseJob) : Prop :=
  ∀ response gpr other, Untouched first second gpr other →
    digest (.object (stableArchitecture setting (answer gpr response)
        first.assignment)) =
      digest (.object (stableArchitecture setting (answer other response)
        second.assignment))

/-- What is hashed is the same for registers that nobody touched exactly if
both assignments have every explored register recognized, in the result and in
the snapshot, or neither has and gives it the same number. -/
theorem fingerprints_ignore_inputs
    (axes : first.assignment.map (·.1) = second.assignment.map (·.1)) :
    (Indistinct setting Security.canonical first second ↔
      Uniform first second isShown ∧
        Uniform first second (isCounted setting.python.numerals)) ∧
    (Uniform first second isShown ∧
        Uniform first second (isCounted setting.python.numerals) →
      Indistinct setting canonicalHash first second) := by
  refine ⟨⟨?_, ?_⟩, ?_⟩
  · intro same
    exact ⟨uniform_of_canonical axes (.inl rfl) (same bare),
      uniform_of_canonical axes (.inr rfl) (same bare)⟩
  · rintro ⟨shown, counted⟩ response gpr other alike
    rw [stableArchitecture_answer_eq axes shown counted alike]
  · rintro ⟨shown, counted⟩ response gpr other alike
    rw [stableArchitecture_answer_eq axes shown counted alike]

end Answers

private def asciiSetting : Setting :=
  ⟨.ascii, .none, fun _ => .zero, fun _ _ => .zero⟩

/-- An assignment to one register of a job without registers. -/
private def single (name : Str) (value : Json) (isSetting :
    (gprSetting Numerals.ascii (name, value)).isSome) :
    RegisterTrial asciiSetting.python.numerals [] where
  assignment := [(str "registers." ++ name, value)]
  job := [(str "registers", .object [(name, value)])]
  registers := [(name, value)]
  onRegisters := by
    intro entry listed
    cases List.mem_singleton.mp listed
    exact ⟨name, rfl⟩
  distinct := List.nodup_singleton _
  built := by
    rw [jobWithAssignment, List.foldlM_cons, setPath, splitPath_register]
    rfl
  isRegisters := rfl
  accepted := by
    intro entry listed
    cases List.mem_singleton.mp listed
    exact isSetting
  own := by
    intro entry listed index counted
    cases List.mem_singleton.mp listed
    refine ⟨_, listed, ?_⟩
    rw [isCounted, named, splitPath_register] at counted
    rw [named, splitPath_register]
    exact List.find?_cons_of_pos counted

private theorem explored_single {name : Str} {value : Json}
    {isSetting : (gprSetting Numerals.ascii (name, value)).isSome}
    {index number : Nat}
    (isNumber : gprSetting Numerals.ascii (name, value) = some (index, number))
    {register : Register}
    (explored : (single name value isSetting).Explored register) :
    register.toNat = index ∧
      (single name value isSetting).placed register = some number := by
  obtain ⟨entry, listed, counted⟩ := explored
  cases List.mem_singleton.mp listed
  have here : gprSetting asciiSetting.python.numerals (name, value) =
      some (index, number) := isNumber
  rw [isCounted, named, splitPath_register] at counted
  dsimp only at counted
  have last : setter asciiSetting.python.numerals
      (single name value isSetting).registers register.toNat =
        some (name, value) := List.find?_cons_of_pos counted
  rw [here] at counted
  refine ⟨(eq_of_beq counted).symm, ?_⟩
  rw [RegisterTrial.placed, last, Option.bind_some, here]
  rfl

private theorem setting_decimal :
    gprSetting Numerals.ascii (str "r3", .int 1) = some (3, 1) := by
  decide +kernel

private theorem setting_spaced :
    gprSetting Numerals.ascii (str "r3", .string (str " 0x2 ")) =
      some (3, 2) := by
  decide +kernel

private theorem setting_padded (value : Fin 3) :
    gprSetting Numerals.ascii (str "r03", .int value.val) =
      some (3, value.val) := by
  revert value
  decide +kernel

/-- The register `r3` is to be 1. -/
def decimalTrial : RegisterTrial asciiSetting.python.numerals [] :=
  single (str "r3") (.int 1) (Option.isSome_of_eq_some setting_decimal)

/-- The register `r3` is to be `" 0x2 "`. -/
def spacedTrial : RegisterTrial asciiSetting.python.numerals [] :=
  single (str "r3") (.string (str " 0x2 "))
    (Option.isSome_of_eq_some setting_spaced)

/-- The register `r03` is to have a small number. -/
def paddedTrial (value : Fin 3) :
    RegisterTrial asciiSetting.python.numerals [] :=
  single (str "r03") (.int value.val)
    (Option.isSome_of_eq_some (setting_padded value))

private theorem recognized_single {name : Str} {value : Json}
    {isSetting : (gprSetting Numerals.ascii (name, value)).isSome}
    {index number : Nat}
    (isNumber : gprSetting Numerals.ascii (name, value) = some (index, number))
    (plain : isPlain Numerals.ascii value = true)
    {applies : Str × Json → Nat → Bool}
    (names : applies (str "registers." ++ name, value) index = true)
    {register : Register}
    (explored : (single name value isSetting).Explored register) :
    (single name value isSetting).Recognized applies register := by
  obtain ⟨isIndex, placed⟩ := explored_single isNumber explored
  refine ⟨_, List.mem_singleton_self _, isIndex ▸ names, plain, ?_⟩
  rw [placed, named, splitPath_register]
  exact congrArg (Option.map (·.2)) isNumber

theorem fingerprints_ignore_r3 :
    Indistinct asciiSetting canonicalHash decimalTrial spacedTrial := by
  have axes : decimalTrial.assignment.map (·.1) =
      spacedTrial.assignment.map (·.1) := rfl
  have shown : Uniform decimalTrial spacedTrial isShown := by
    intro register explored
    have other := explored_of_axes axes explored
    exact .inl
      ⟨recognized_single setting_decimal (by decide) (by decide) explored,
        recognized_single setting_spaced (by decide) (by decide) other⟩
  have counted : Uniform decimalTrial spacedTrial
      (isCounted asciiSetting.python.numerals) := by
    intro register explored
    have other := explored_of_axes axes explored
    exact .inl
      ⟨recognized_single setting_decimal (by decide) (by decide +kernel)
          explored,
        recognized_single setting_spaced (by decide) (by decide +kernel) other⟩
  exact (fingerprints_ignore_inputs axes).2 ⟨shown, counted⟩

private def onlyR3 (value : Fin 3) : Register → Word :=
  Function.update (fun _ => 0) 3 (BitVec.ofNat 32 value.val)

private theorem holds_padded (value : Fin 3) :
    (paddedTrial value).Holds (onlyR3 value) := by
  intro register explored
  obtain ⟨isIndex, placed⟩ := explored_single (setting_padded value) explored
  have isR3 : register = 3 := BitVec.eq_of_toNat_eq isIndex
  have same : (onlyR3 value register).toNat = value.val := by
    rw [isR3, onlyR3, Function.update_self, BitVec.toNat_ofNat,
      Nat.mod_eq_of_lt (by omega)]
  rw [same]
  exact placed

/-- The result calls the register `r3`, so that it is not recognized as `r03`
and every number that is put there is a behaviour of its own. -/
theorem padded_name_is_novel :
    ¬Indistinct asciiSetting canonicalHash (paddedTrial 1) (paddedTrial 2) := by
  intro same
  have alike : Untouched (paddedTrial 1) (paddedTrial 2) (onlyR3 1)
      (onlyR3 2) := by
    refine ⟨holds_padded 1, holds_padded 2, ?_⟩
    intro register unexplored
    have other : register ≠ 3 := by
      rintro rfl
      exact unexplored ⟨_, List.mem_singleton_self _, by decide +kernel⟩
    rw [onlyR3, onlyR3, Function.update_of_ne other,
      Function.update_of_ne other]
  have equal := same [(str "result", .object [])] _ _ alike
  revert equal
  decide +kernel

end PpcLab.Explore
