import PpcLab.Explore.RegisterSettings

/-!
# Masks

Registers that still hold their input are masked before an answer is hashed, in
the result by their names and in the snapshot by their numbers.  What is masked
after a whole assignment is said for every register by itself.
-/

namespace PpcLab.Explore

def gprName (index : Nat) : Str :=
  str "r" ++ str (Text.decimal index)

def members (cells : Nat → Json) : Fields :=
  (List.range 32).map fun index => (gprName index, cells index)

def items (cells : Nat → Json) : List Json :=
  (List.range 32).map cells

/-- An answer with these registers in its result and in its snapshot, as far as
it has them. -/
def showing (shown counted : Nat → Json) (response : Fields) : Fields :=
  within "snapshot" (within "cpu" fun cpu =>
      Dictionary.assign cpu (str "gpr", .array (items counted)))
    (within "result" (fun result =>
      Dictionary.assign result (str "registers", .object (members shown)))
      response)

def cell (value : Word) : Json :=
  .string (str (Text.hex32 value.toNat))

def cells (gpr : Register → Word) (index : Nat) : Json :=
  cell (gpr (BitVec.ofNat 5 index))

/-- The answer to a job, where the registers are these at the end. -/
def answer (gpr : Register → Word) (response : Fields) : Fields :=
  showing (cells gpr) (cells gpr) response

private theorem assign_of_found {fields : Fields} {key : Str} {held : Json}
    (found : Json.find? fields key = some held) (value : Json) :
    Dictionary.assign fields (key, value) =
      fields.map fun old => if old.1 = key then (key, value) else old := by
  obtain ⟨member, first, _⟩ := Option.map_eq_some_iff.mp found
  have isKey : (member.1 == key) = true :=
    List.find?_some (p := fun member : Str × Json => member.1 == key) first
  unfold Dictionary.assign
  split
  · rfl
  · rename_i missing
    refine absurd (List.any_eq_true.mpr
      ⟨member, List.mem_of_find?_eq_some first, ?_⟩) missing
    simpa using isKey

private theorem mem_chosen {keys : List String} {key : String}
    {fields : Fields} {value : Json} :
    (str key, value) ∈ chosen keys fields ↔
      key ∈ keys ∧ found? fields key = some value := by
  rw [chosen, List.mem_filterMap]
  constructor
  · rintro ⟨other, listed, same⟩
    obtain ⟨held, found, equal⟩ := Option.map_eq_some_iff.mp same
    obtain ⟨keys, rfl⟩ := Prod.mk.inj equal
    cases Json.str_injective keys
    exact ⟨listed, found⟩
  · rintro ⟨listed, found⟩
    exact ⟨key, listed, by rw [found, Option.map_some]⟩

private theorem found?_chosen {keys : List String} {key : String}
    (listed : key ∈ keys) (fields : Fields) :
    found? (chosen keys fields) key = found? fields key := by
  have only : ∀ member ∈ chosen keys fields, member.1 = str key →
      found? fields key = some member.2 := by
    rintro ⟨_, value⟩ member rfl
    exact (mem_chosen.mp member).2
  cases first : (chosen keys fields).find? (·.1 == str key) with
  | none =>
      rw [found?, Json.find?, first]
      cases found : found? fields key with
      | none => rfl
      | some value =>
          have absent := List.find?_eq_none.mp first _
            (mem_chosen.mpr ⟨listed, found⟩)
          exact absurd (beq_self_eq_true _) absent
  | some member =>
      have isKey : (member.1 == str key) = true :=
        List.find?_some
          (p := fun member : Str × Json => member.1 == str key) first
      rw [only member (List.mem_of_find?_eq_some first) (eq_of_beq isKey),
        found?, Json.find?, first]
      rfl

private theorem assign_chosen {keys : List String} {key : String}
    (listed : key ∈ keys) {fields : Fields} {held : Json}
    (found : found? fields key = some held) (value : Json) :
    Dictionary.assign (chosen keys fields) (str key, value) =
      chosen keys (Dictionary.assign fields (str key, value)) := by
  rw [assign_of_found ((found?_chosen listed fields).trans found), chosen,
    chosen, List.map_filterMap]
  congr 1
  funext other
  by_cases same : other = key
  · subst same
    rw [found, found?, Json.find?_assign_self]
    simp
  · have differ : str key ≠ str other := by
      intro equal
      exact same (Json.str_injective equal).symm
    rw [found?, found?, Json.find?_assign_of_ne differ]
    cases Json.find? fields (str other) with
    | none => rfl
    | some value => simp [Ne.symm differ]

/-- A member that is chosen can be changed before or after. -/
theorem within_chosen {keys : List String} {key : String}
    (listed : key ∈ keys) (change : Fields → Fields) (fields : Fields) :
    within key change (chosen keys fields) =
      chosen keys (within key change fields) := by
  unfold within
  rw [found?_chosen listed]
  split
  · rename_i found
    exact assign_chosen listed found _
  · rfl

private theorem within_of_object {fields held : Fields} {key : String}
    (found : found? fields key = some (.object held))
    (change : Fields → Fields) :
    within key change fields =
      Dictionary.assign fields (str key, .object (change held)) := by
  rw [within, found]

private theorem within_of_other {fields : Fields} {key : String}
    (other : ∀ held, found? fields key ≠ some (.object held))
    (change : Fields → Fields) : within key change fields = fields := by
  unfold within
  split
  · rename_i held found
    exact absurd found (other held)
  · rfl

private theorem find?_of_absent {fields : Fields} {key : Str}
    (absent : ∀ member ∈ fields, member.1 ≠ key) :
    Json.find? fields key = none := by
  rw [Json.find?, Option.map_eq_none_iff, List.find?_eq_none]
  intro member listed same
  exact absent member listed (eq_of_beq same)

private theorem map_of_absent {fields : Fields} {key : Str}
    (absent : ∀ member ∈ fields, member.1 ≠ key) (value : Json) :
    (fields.map fun old => if old.1 = key then (key, value) else old) =
      fields := by
  conv_rhs => rw [← List.map_id fields]
  apply List.map_congr_left
  intro old listed
  rw [if_neg (absent old listed)]
  rfl

private theorem assign_assign (fields : Fields) (key : Str)
    (first second : Json) :
    Dictionary.assign (Dictionary.assign fields (key, first)) (key, second) =
      Dictionary.assign fields (key, second) := by
  rw [assign_of_found Json.find?_assign_self]
  cases found : Json.find? fields key with
  | some held =>
      rw [assign_of_found found, assign_of_found found, List.map_map]
      congr 1
      funext old
      simp only [Function.comp_apply]
      split
      · simp
      · rfl
  | none =>
      have absent : ∀ member ∈ fields, member.1 ≠ key := by
        intro member listed same
        have missing := List.find?_eq_none.mp
          (Option.map_eq_none_iff.mp found) member listed
        exact missing (beq_iff_eq.mpr same)
      have new : key ∉ fields.map Prod.fst := by
        intro listed
        obtain ⟨member, here, same⟩ := List.mem_map.mp listed
        exact absent member here same
      rw [Dictionary.assign_of_new new, Dictionary.assign_of_new new,
        List.map_append, map_of_absent absent]
      simp

theorem within_assign (key : String) (change : Fields → Fields)
    (fields held : Fields) :
    within key change (Dictionary.assign fields (str key, .object held)) =
      Dictionary.assign fields (str key, .object (change held)) := by
  rw [within_of_object Json.find?_assign_self, assign_assign]

theorem within_within (key : String) (after before : Fields → Fields)
    (fields : Fields) :
    within key after (within key before fields) =
      within key (fun members => after (before members)) fields := by
  by_cases object : ∃ held, found? fields key = some (.object held)
  · obtain ⟨held, found⟩ := object
    rw [within_of_object found, within_of_object found,
      within_of_object Json.find?_assign_self, assign_assign]
  · have other := not_exists.mp object
    rw [within_of_other other, within_of_other other, within_of_other other]

private theorem found?_within_of_ne {key other : String} (differ : key ≠ other)
    (change : Fields → Fields) (fields : Fields) :
    found? (within key change fields) other = found? fields other := by
  have keys : str key ≠ str other := fun same =>
    differ (Json.str_injective same)
  by_cases object : ∃ held, found? fields key = some (.object held)
  · obtain ⟨held, found⟩ := object
    rw [within_of_object found, found?, Json.find?_assign_of_ne keys]
    rfl
  · rw [within_of_other (not_exists.mp object)]

/-- Members of different names are changed in any order. -/
theorem within_comm {key other : String} (differ : key ≠ other)
    (first second : Fields → Fields) (fields : Fields) :
    within key first (within other second fields) =
      within other second (within key first fields) := by
  have keys : str key ≠ str other := fun same =>
    differ (Json.str_injective same)
  by_cases object : ∃ held, found? fields key = some (.object held)
  · obtain ⟨held, found⟩ := object
    have still :=
      (found?_within_of_ne (Ne.symm differ) second fields).trans found
    by_cases otherObject : ∃ held, found? fields other = some (.object held)
    · obtain ⟨otherHeld, otherFound⟩ := otherObject
      have otherStill :=
        (found?_within_of_ne differ first fields).trans otherFound
      rw [within_of_object still, within_of_object otherStill,
        within_of_object found, within_of_object otherFound]
      rw [assign_of_found
          ((Json.find?_assign_of_ne (Ne.symm keys)).trans found),
        assign_of_found ((Json.find?_assign_of_ne keys).trans otherFound),
        assign_of_found found, assign_of_found otherFound, List.map_map,
        List.map_map]
      congr 1
      funext old
      simp only [Function.comp_apply]
      by_cases isKey : old.1 = str key
      · simp [isKey, keys]
      · by_cases isOther : old.1 = str other
        · simp [isOther, Ne.symm keys]
        · simp [isKey, isOther]
    · have none := not_exists.mp otherObject
      have still' : ∀ held,
          found? (within key first fields) other ≠ some (.object held) := by
        intro held
        rw [found?_within_of_ne differ]
        exact none held
      rw [within_of_other none, within_of_other still']
  · have none := not_exists.mp object
    have still : ∀ held,
        found? (within other second fields) key ≠ some (.object held) := by
      intro held
      rw [found?_within_of_ne (Ne.symm differ)]
      exact none held
    rw [within_of_other none, within_of_other still]

private theorem within_append {front back held : Fields} {key : String}
    (absent : ∀ member ∈ front ++ back, member.1 ≠ str key)
    (change : Fields → Fields) :
    within key change (front ++ (str key, .object held) :: back) =
      front ++ (str key, .object (change held)) :: back := by
  have front' : ∀ member ∈ front, member.1 ≠ str key :=
    fun member listed => absent member (List.mem_append_left _ listed)
  have back' : ∀ member ∈ back, member.1 ≠ str key :=
    fun member listed => absent member (List.mem_append_right _ listed)
  have nothing : front.find? (·.1 == str key) = none :=
    Option.map_eq_none_iff.mp (find?_of_absent front')
  have found : found? (front ++ (str key, .object held) :: back) key =
      some (.object held) := by
    rw [found?, Json.find?, List.find?_append, nothing, Option.none_or,
      List.find?_cons, beq_self_eq_true]
    rfl
  rw [within_of_object found, assign_of_found found, List.map_append,
    List.map_cons, map_of_absent front', map_of_absent back', if_pos rfl]

/-- What an architecture begins with. -/
private def outcomeOf (response : Fields) : Fields :=
  [(str "ok", Json.get response (str "ok")),
    (str "exit_code", Json.get response (str "exit_code")),
    (str "timed_out", getOr response "timed_out" (.bool false))] ++
  if Json.get response (str "error") = .null then []
  else [(str "error", Json.get response (str "error"))]

def resultKeys : List String :=
  ["stop_reason", "instructions", "pc", "instruction", "registers", "lr",
    "ctr", "cr", "dumps"]

def snapshotKeys : List String :=
  ["stop_reason", "instructions", "pc", "instruction", "cpu", "regions",
    "dumps"]

private theorem architecture_eq (response : Fields) :
    architecture response = outcomeOf response ++
      part "result" resultKeys response ++
      part "snapshot" snapshotKeys response := rfl

private theorem part_of_object {response held : Fields} {key : String}
    (found : found? response key = some (.object held)) (keys : List String) :
    part key keys response = [(str key, .object (chosen keys held))] := by
  have got : Json.get response (str key) = .object held := by
    rw [Json.get, show Json.find? response (str key) = _ from found]
    rfl
  rw [part, got]

private theorem part_of_other {response : Fields} {key : String}
    (other : ∀ held, found? response key ≠ some (.object held))
    (keys : List String) : part key keys response = [] := by
  unfold part
  split
  · rename_i held got
    cases found : Json.find? response (str key) with
    | none =>
        rw [Json.get, found] at got
        cases got
    | some value =>
        rw [Json.get, found] at got
        exact absurd (found.trans (congrArg some got)) (other held)
  · rfl

private theorem part_within_of_ne {key other : String} (differ : key ≠ other)
    (keys : List String) (change : Fields → Fields) (response : Fields) :
    part other keys (within key change response) =
      part other keys response := by
  unfold part
  rw [Json.get, Json.get]
  have same := found?_within_of_ne differ change response
  unfold found? at same
  rw [same]

private theorem outcomeOf_within {key : String}
    (other : key ∉ ["ok", "exit_code", "timed_out", "error"])
    (change : Fields → Fields) (response : Fields) :
    outcomeOf (within key change response) = outcomeOf response := by
  simp only [List.mem_cons, List.not_mem_nil, or_false, not_or] at other
  obtain ⟨notOk, notExit, notTimed, notError⟩ := other
  have same {name : String} (differ : key ≠ name) :
      Json.find? (within key change response) (str name) =
        Json.find? response (str name) :=
    found?_within_of_ne differ change response
  unfold outcomeOf getOr found? Json.get
  rw [same notOk, same notExit, same notTimed, same notError]

private theorem keys_outcomeOf {key : String}
    (other : key ∉ ["ok", "exit_code", "timed_out", "error"])
    (response : Fields) :
    ∀ member ∈ outcomeOf response, member.1 ≠ str key := by
  simp only [List.mem_cons, List.not_mem_nil, or_false, not_or] at other
  obtain ⟨notOk, notExit, notTimed, notError⟩ := other
  have differ {name : String} (other : key ≠ name) : str name ≠ str key :=
    fun same => other (Json.str_injective same).symm
  intro member listed
  rcases List.mem_append.mp listed with outcome | error
  · simp only [List.mem_cons, List.not_mem_nil, or_false] at outcome
    rcases outcome with rfl | rfl | rfl
    · exact differ notOk
    · exact differ notExit
    · exact differ notTimed
  · split at error
    · cases error
    · cases List.mem_singleton.mp error
      exact differ notError

private theorem keys_part {key other : String} (differ : key ≠ other)
    (keys : List String) (response : Fields) :
    ∀ member ∈ part other keys response, member.1 ≠ str key := by
  intro member listed
  unfold part at listed
  split at listed
  · cases List.mem_singleton.mp listed
    exact fun same => differ (Json.str_injective same).symm
  · cases listed

private theorem within_part {front back : Fields} {key inner : String}
    (absent : ∀ member ∈ front ++ back, member.1 ≠ str key)
    {keys : List String} (listed : inner ∈ keys) (change : Fields → Fields)
    (response : Fields) :
    within key (within inner change) (front ++ part key keys response ++ back) =
      front ++ part key keys (within key (within inner change) response) ++
        back := by
  by_cases object : ∃ held, found? response key = some (.object held)
  · obtain ⟨held, found⟩ := object
    have changed : found? (within key (within inner change) response) key =
        some (.object (within inner change held)) := by
      rw [within_of_object found]
      exact Json.find?_assign_self
    rw [part_of_object found, part_of_object changed, List.append_assoc,
      List.append_assoc, List.singleton_append, List.singleton_append,
      within_append absent, within_chosen listed]
  · have none := not_exists.mp object
    rw [part_of_other none, List.append_nil, within_of_other none,
      part_of_other none, List.append_nil]
    apply within_of_other
    intro held found
    rw [found?, find?_of_absent absent] at found
    cases found

private theorem within_result_architecture {key : String}
    (listed : key ∈ resultKeys) (change : Fields → Fields)
    (response : Fields) :
    within "result" (within key change) (architecture response) =
      architecture (within "result" (within key change) response) := by
  have absent : ∀ member ∈ outcomeOf response ++
      part "snapshot" snapshotKeys response, member.1 ≠ str "result" := by
    intro member here
    rcases List.mem_append.mp here with front | back
    · exact keys_outcomeOf (by decide) response member front
    · exact keys_part (by decide) snapshotKeys response member back
  rw [architecture_eq, architecture_eq, outcomeOf_within (by decide),
    part_within_of_ne (by decide : "result" ≠ "snapshot")]
  exact within_part absent listed change response

private theorem within_snapshot_architecture {key : String}
    (listed : key ∈ snapshotKeys) (change : Fields → Fields)
    (response : Fields) :
    within "snapshot" (within key change) (architecture response) =
      architecture (within "snapshot" (within key change) response) := by
  have absent : ∀ member ∈ (outcomeOf response ++
      part "result" resultKeys response) ++ [], member.1 ≠ str "snapshot" := by
    intro member here
    rw [List.append_nil] at here
    rcases List.mem_append.mp here with front | back
    · exact keys_outcomeOf (by decide) response member front
    · exact keys_part (by decide) resultKeys response member back
  have changed := within_part absent listed change response
  rw [List.append_nil, List.append_nil] at changed
  rw [architecture_eq, architecture_eq, outcomeOf_within (by decide),
    part_within_of_ne (by decide : "snapshot" ≠ "result")]
  exact changed

/-- Registers are masked in what counts as behaviour as they are in the
answer. -/
theorem maskRegister_architecture (setting : Setting) (name : Str)
    (index expected : Nat) (response : Fields) :
    maskRegister setting name index expected (architecture response) =
      architecture (maskRegister setting name index expected response) := by
  unfold maskRegister
  dsimp only
  rw [within_result_architecture (by decide),
    within_snapshot_architecture (by decide)]

theorem stableArchitecture_eq (setting : Setting)
    (response assignment : Fields) :
    stableArchitecture setting response assignment =
      architecture (assignment.foldl (maskInput setting) response) := by
  unfold stableArchitecture
  induction assignment generalizing response with
  | nil => rfl
  | cons entry assignment induction =>
      rw [List.foldl_cons, List.foldl_cons, ← induction]
      congr 1
      unfold maskInput
      split
      · dsimp only
        split
        · split
          · exact maskRegister_architecture _ _ _ _ _
          · rfl
        · rfl
      · rfl

theorem gprName_injective : Function.Injective gprName := by
  intro first second same
  exact Text.decimal_injective
    (Json.str_injective (List.append_cancel_left same))

theorem nodup_members (cells : Nat → Json) :
    ((members cells).map (·.1)).Nodup := by
  rw [members, List.map_map]
  exact List.nodup_range.map gprName_injective

theorem get_members (cells : Nat → Json) {index : Nat}
    (small : index < 32) :
    Json.get (members cells) (gprName index) = cells index :=
  Json.get_of_mem (nodup_members cells)
    (List.mem_map.mpr ⟨index, List.mem_range.mpr small, rfl⟩)

/-- Cells are masked where they show a number. -/
def hidden (setting : Setting) (applies : Nat → Bool) (number : Nat)
    (cells : Nat → Json) (index : Nat) : Json :=
  if applies index ∧ u32 setting (cells index) = some number then inputMark
  else cells index

/-- The register of a name is masked in the result. -/
private theorem members_masked (setting : Setting) (name : Str)
    (number : Nat) (cells : Nat → Json) :
    (if u32 setting (Json.get (members cells) name) = some number then
      Dictionary.assign (members cells) (name, inputMark)
    else members cells) =
      members (hidden setting (fun index => name == gprName index) number
        cells) := by
  have here {index : Nat} (small : index ∈ List.range 32)
      (named : name = gprName index) :
      Json.get (members cells) name = cells index := by
    rw [named, get_members cells (List.mem_range.mp small)]
  split
  · rename_i shows
    cases found : Json.find? (members cells) name with
    | none =>
        rw [Json.get, found] at shows
        cases shows
    | some held =>
        rw [assign_of_found found, members, List.map_map]
        apply List.map_congr_left
        intro index small
        by_cases named : name = gprName index
        · subst named
          have isHidden : hidden setting
              (fun other => gprName index == gprName other) number cells index =
                inputMark := by
            rw [here small rfl] at shows
            exact if_pos ⟨beq_self_eq_true _, shows⟩
          simp [isHidden]
        · have isKept : hidden setting (fun index => name == gprName index)
              number cells index = cells index :=
            if_neg fun hides => named (eq_of_beq hides.1)
          simp [isKept, Ne.symm named]
  · rename_i hides
    apply List.map_congr_left
    intro index small
    rw [hidden, if_neg]
    rintro ⟨named, shows⟩
    apply hides
    rw [here small (eq_of_beq named), shows]

/-- The register of a number is masked in the snapshot. -/
private theorem items_masked (setting : Setting) {index : Nat}
    (small : index < 32) (number : Nat) (cells : Nat → Json) :
    (if ((items cells)[index]?.bind (u32 setting)) = some number then
      (items cells).set index inputMark
    else items cells) =
      items (hidden setting (fun other => index == other) number cells) := by
  have here : (items cells)[index]? = some (cells index) := by
    rw [items, List.getElem?_map, List.getElem?_range small]
    rfl
  rw [here, Option.bind_some]
  apply List.ext_getElem
  · split
    · simp [items]
    · simp [items]
  · intro other first second
    have bound : other < 32 := by
      simpa [items] using second
    split
    · rename_i shows
      rw [List.getElem_set]
      by_cases same : index = other
      · subst same
        simp [items, hidden, shows]
      · simp [items, hidden, same]
    · rename_i hides
      by_cases same : index = other
      · subst same
        simp [items, hidden, hides]
      · simp [items, hidden, same]

private theorem maskRegister_showing (setting : Setting) (name : Str)
    {index : Nat} (small : index < 32) (number : Nat)
    (shown counted : Nat → Json) (response : Fields) :
    maskRegister setting name index number (showing shown counted response) =
      showing
        (hidden setting (fun index => name == gprName index) number shown)
        (hidden setting (fun other => index == other) number counted)
        response := by
  unfold maskRegister showing
  dsimp only
  rw [within_comm (by decide : "result" ≠ "snapshot"), within_within,
    within_within]
  congr 1
  · funext snapshot
    rw [within_within]
    congr 1
    funext cpu
    rw [show found? (Dictionary.assign cpu (str "gpr", .array (items counted)))
      "gpr" = some (.array (items counted)) from Json.find?_assign_self]
    dsimp only
    rw [← items_masked setting small number counted]
    split
    · exact assign_assign _ _ _ _
    · rfl
  · congr 1
    funext result
    rw [within_assign, members_masked]

/-- What a path of an assignment sets, by the name of the register. -/
def named (entry : Str × Json) : Str × Json :=
  ((splitPath entry.1).2, entry.2)

def onRegister (entry : Str × Json) : Prop :=
  ∃ name, entry.1 = str "registers." ++ name

/-- The register that a member of the result is named by. -/
def isShown (entry : Str × Json) (index : Nat) : Bool :=
  (named entry).1 == gprName index

def isCounted (numerals : Numerals) (entry : Str × Json) (index : Nat) : Bool :=
  (gprSetting numerals (named entry)).any (·.1 == index)

def hiddenBy (setting : Setting) (applies : Str × Json → Nat → Bool)
    (cells : Nat → Json) (entry : Str × Json) : Nat → Json :=
  match u32 setting entry.2 with
  | some number => hidden setting (applies entry) number cells
  | none => cells

private theorem registers_eq : str "registers." =
    str "registers" ++ [0x2e] := by
  decide

private theorem starts_eq : str "registers.r" =
    str "registers." ++ [codePoint 'r'] := by
  decide

theorem splitPath_register (name : Str) :
    splitPath (str "registers." ++ name) = (str "registers", name) := by
  have noDot : ∀ character ∈ str "registers",
      decide (character ≠ 0x2e) = true := by
    decide
  rw [registers_eq, List.append_assoc, splitPath,
    List.takeWhile_append_of_pos noDot, List.dropWhile_append_of_pos noDot]
  simp

theorem maskInput_showing {setting : Setting} {entry : Str × Json}
    (onRegister : onRegister entry)
    (accepted : (gprSetting setting.python.numerals (named entry)).isSome)
    (shown counted : Nat → Json) (response : Fields) :
    maskInput setting (showing shown counted response) entry =
      showing (hiddenBy setting isShown shown entry)
        (hiddenBy setting (isCounted setting.python.numerals) counted entry)
        response := by
  obtain ⟨⟨index, number⟩, isSetting⟩ := Option.isSome_iff_exists.mp accepted
  have read := readSetting_of_gprSetting isSetting
  obtain ⟨path, value⟩ := entry
  obtain ⟨name, rfl⟩ := onRegister
  have name' : named (str "registers." ++ name, value) = (name, value) := by
    rw [named, splitPath_register]
  rw [name'] at read isSetting
  have isIndex := ofText_of_gprSetting isSetting
  have starts : (str "registers.r").isPrefixOf (str "registers." ++ name) := by
    cases read
    rw [List.isPrefixOf_iff_prefix, starts_eq]
    exact ⟨_, by rw [List.append_assoc, List.singleton_append]⟩
  have counts : isCounted setting.python.numerals
      (str "registers." ++ name, value) = fun other => index == other := by
    funext other
    rw [isCounted, name', isSetting]
    rfl
  have shows : isShown (str "registers." ++ name, value) =
      fun other => name == gprName other := by
    funext other
    rw [isShown, name']
  have small : index < 32 := by
    cases read
    assumption
  unfold maskInput hiddenBy
  rw [if_pos starts]
  dsimp only
  rw [splitPath_register, isIndex]
  cases u32 setting value with
  | none => rfl
  | some expected =>
      dsimp only
      rw [if_pos ⟨Int.natCast_nonneg _, by omega⟩, Int.toNat_natCast,
        maskRegister_showing setting name small, counts, shows]

variable {setting : Setting}

theorem foldl_maskInput {assignment : Fields}
    (accepted : ∀ entry ∈ assignment, onRegister entry ∧
      (gprSetting setting.python.numerals (named entry)).isSome)
    (shown counted : Nat → Json) (response : Fields) :
    assignment.foldl (maskInput setting) (showing shown counted response) =
      showing (assignment.foldl (hiddenBy setting isShown) shown)
        (assignment.foldl
          (hiddenBy setting (isCounted setting.python.numerals)) counted)
        response := by
  induction assignment generalizing shown counted with
  | nil => rfl
  | cons entry assignment induction =>
      obtain ⟨⟨onRegister, isSetting⟩, rest⟩ := List.forall_mem_cons.mp accepted
      rw [List.foldl_cons, maskInput_showing onRegister isSetting,
        induction rest]
      rfl

theorem u32_cell (value : Word) :
    u32 setting (cell value) = some value.toNat := by
  change (setting.python.numerals.ofLiteral _).map _ = _
  rw [Tool.ofLiteral_hex32, Option.map_some]
  have small := value.isLt
  congr 1
  omega

private theorem hiddenBy_apply (applies : Str × Json → Nat → Bool)
    (cells : Nat → Json) (entry : Str × Json) (index : Nat) :
    hiddenBy setting applies cells entry index =
      if applies entry index ∧ (u32 setting entry.2).isSome ∧
          u32 setting (cells index) = u32 setting entry.2 then inputMark
      else cells index := by
  unfold hiddenBy
  cases u32 setting entry.2 with
  | none => simp
  | some number => simp [hidden]

private theorem foldl_hiddenBy_of_hidden (applies : Str × Json → Nat → Bool)
    (assignment : Fields)
    {cells : Nat → Json} {index : Nat} (hides : cells index = inputMark) :
    assignment.foldl (hiddenBy setting applies) cells index = inputMark := by
  induction assignment generalizing cells with
  | nil => exact hides
  | cons entry assignment induction =>
      apply induction
      rw [hiddenBy_apply, hides, ite_self]

/-- A register is masked when some entry that names it has its number. -/
theorem foldl_hiddenBy (applies : Str × Json → Nat → Bool) (assignment : Fields)
    {cells : Nat → Json} {index : Nat} {value : Word}
    (holds : cells index = cell value) :
    assignment.foldl (hiddenBy setting applies) cells index =
      if ∃ entry ∈ assignment, applies entry index ∧
          u32 setting entry.2 = some value.toNat then inputMark
      else cell value := by
  induction assignment generalizing cells with
  | nil => simpa using holds
  | cons entry assignment induction =>
      have shows : hiddenBy setting applies cells entry index = _ :=
        hiddenBy_apply applies cells entry index
      rw [holds, u32_cell] at shows
      rw [List.foldl_cons]
      by_cases here : applies entry index ∧
          u32 setting entry.2 = some value.toNat
      · rw [if_pos ⟨here.1, by rw [here.2]; rfl, here.2.symm⟩] at shows
        rw [foldl_hiddenBy_of_hidden applies assignment shows, if_pos]
        exact ⟨entry, List.mem_cons_self, here⟩
      · rw [if_neg fun hides => here ⟨hides.1, hides.2.2.symm⟩] at shows
        rw [induction shows]
        simp only [List.exists_mem_cons_iff, here, false_or]

end PpcLab.Explore
