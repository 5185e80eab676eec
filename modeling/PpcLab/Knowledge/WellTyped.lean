import PpcLab.Knowledge.Ingest

/-!
# Documents that are indexed

A document is indexed exactly when its strings have an encoding and the members
that are iterated over can be iterated over.  Nothing else raises: every text
that is hashed is made of strings of the document, and every edge ends at nodes
that were added before.
-/

namespace PpcLab.Knowledge

open Json

section Conditions

variable (host : Host) (forced : Option Str) (doc : Fields)

/-- Every loop over members of the document can be run. -/
structure WellTyped : Prop where
  target : ∀ target, given forced = some target → validSha (.string target)
  trace : schemaOf host doc = str "ppc-lab-trace-analysis-v1" →
    (dictionaries doc "functions").isSome ∧
      (dictionaries doc "hot_pcs").isSome ∧ (dictionaries doc "calls").isSome
  dumps : ∀ result, resultPayload doc = some result →
    (dictionaries result "dumps").isSome

end Conditions

section Texts

variable {host : Host}

private theorem encodes_formatAddress (number : Int) :
    encodes (formatAddress number) = true := by
  have small : ∀ character ∈ formatAddress number, character.val < 0x800 := by
    have digits : ∀ digit : Fin 16, (hexDigit digit.val).val < 0x800 := by
      decide
    intro character member
    have marks : ∀ character ∈ str "0x", character.val < 0x800 := by
      decide
    rcases List.mem_append.mp member with mark | digit
    · exact marks character mark
    · obtain ⟨index, _, rfl⟩ := List.mem_map.mp digit
      exact digits ⟨_, Nat.mod_lt _ (by omega)⟩
  exact encodes_of_small small

private theorem encodes_addressOf {value : Json} {address : Str}
    (found : addressOf host value = some address) :
    encodes address = true := by
  have parsed {text : Str}
      (found : parseAddress host.numerals text = some address) :
      encodes address = true := by
    obtain ⟨number, _, rfl⟩ := Option.map_eq_some_iff.mp found
    exact encodes_formatAddress number
  cases value with
  | null => cases found
  | bool | int =>
      cases found
      exact encodes_formatAddress _
  | float | string | array | object => exact parsed found

private theorem encodes_textOr {values : List Json} {default : Str}
    (each : ∀ value ∈ values, allEncode value = true)
    (other : encodes default = true) :
    encodes (textOr host values default) = true := by
  rw [textOr]
  apply Unicode.encodes_toStr
  cases found : values.find? Security.truthy with
  | none => exact other
  | some value => exact each value (List.mem_of_find?_eq_some found)

private theorem isSome_hashText {hash : List Byte → Str} {text : Str}
    (encoded : encodes text = true) : (hashText hash text).isSome = true := by
  rw [hashText, Option.isSome_map, isSome_utf8]
  exact encoded

private theorem isSome_hashValue (host : Host) {value : Json}
    (encoded : allEncode value = true) :
    (hashValue host value).isSome = true := by
  rw [hashValue, Option.isSome_map, isSome_canonical]
  exact encoded

end Texts

private theorem fieldsEncode_of_asObject? {items : List Json} {item : Fields}
    (encoded : itemsEncode items = true)
    (member : item ∈ items.filterMap asObject?) :
    fieldsEncode item = true := by
  obtain ⟨value, listed, found⟩ := List.mem_filterMap.mp member
  have whole := encodes_of_mem encoded listed
  cases value with
  | object fields =>
      cases found
      exact whole
  | _ => cases found

private theorem itemsEncode_of_asArray? {doc : Fields}
    (encoded : fieldsEncode doc = true) (key : Str) :
    itemsEncode ((asArray? (get doc key)).getD []) = true := by
  have whole := encodes_get encoded key
  cases value : get doc key with
  | array items =>
      rw [value] at whole
      exact whole
  | _ => rfl

private theorem encodes_listed {doc item : Fields} {key : Str}
    (encoded : fieldsEncode doc = true) (member : item ∈ listed doc key) :
    fieldsEncode item = true :=
  fieldsEncode_of_asObject? (itemsEncode_of_asArray? encoded key) member

private theorem encodes_dictionaries {doc item : Fields} {key : Str}
    {items : List Fields} (encoded : fieldsEncode doc = true)
    (found : dictionaries doc key = some items) (member : item ∈ items) :
    fieldsEncode item = true := by
  unfold dictionaries at found
  cases value : find? doc key with
  | none =>
      rw [value] at found
      cases found
      cases member
  | some value' =>
      rw [value] at found
      cases value' with
      | array values =>
          cases found
          have whole := encodes_of_find? encoded value
          exact fieldsEncode_of_asObject? whole member
      | string | object =>
          cases found
          cases member
      | null | bool | int | float => cases found

private theorem encodes_asObject? {value : Json} {fields : Fields}
    (encoded : allEncode value = true)
    (found : asObject? value = some fields) : fieldsEncode fields = true := by
  cases value with
  | object members =>
      cases found
      exact encoded
  | _ => cases found

private theorem encodes_resultPayload {doc result : Fields}
    (encoded : fieldsEncode doc = true)
    (found : resultPayload doc = some result) :
    fieldsEncode result = true := by
  unfold resultPayload at found
  split at found
  · cases found
    exact encoded
  · rcases Option.or_eq_some_iff.mp found with inner | outer
    · obtain ⟨response, isObject, inner⟩ := Option.bind_eq_some_iff.mp inner
      have whole := encodes_asObject? (encodes_get encoded _) isObject
      exact encodes_asObject? (encodes_get whole _) inner
    · exact encodes_asObject? (encodes_get encoded _) outer.2

private theorem isSome_mapM {α β : Type} {step : α → Option β}
    {items : List α} (each : ∀ item ∈ items, (step item).isSome = true) :
    (items.mapM step).isSome = true := by
  induction items with
  | nil => rfl
  | cons item items induction =>
      have here := each item List.mem_cons_self
      have rest := induction fun other member =>
        each other (List.mem_cons_of_mem _ member)
      obtain ⟨first, found⟩ := Option.isSome_iff_exists.mp here
      obtain ⟨others, later⟩ := Option.isSome_iff_exists.mp rest
      rw [List.mapM_cons, found, later]
      rfl

section Findings

variable {host : Host} {origin : Origin} {doc : Fields}

private theorem encodes_textOr_get {item : Fields}
    (encoded : fieldsEncode item = true) (keys : List Str) {default : Str}
    (other : encodes default = true) :
    encodes (textOr host (keys.map (get item)) default) = true := by
  apply encodes_textOr _ other
  intro value member
  obtain ⟨key, _, rfl⟩ := List.mem_map.mp member
  exact encodes_get encoded key

private theorem encodes_symbolLabel {item : Fields}
    (encoded : fieldsEncode item = true) :
    encodes (symbolLabel host item) = true := by
  rw [symbolLabel]
  split
  · cases located : symbolAddress host item with
    | none => exact encodes_str _
    | some address => exact encodes_addressOf located
  · exact host.unicode.encodes_strip
      (encodes_textOr_get encoded ["name", "symbol"] encodes_nil)

private theorem isSome_symbolFinding {item : Fields}
    (encoded : fieldsEncode item = true) :
    (symbolFinding host origin item).isSome = true := by
  rw [symbolFinding]
  split
  · rfl
  · rw [Option.isSome_map]
    exact isSome_hashText (encodes_symbolLabel encoded)

private theorem encodes_intercalate {separator : Str} {texts : List Str}
    (mark : encodes separator = true)
    (each : ∀ text ∈ texts, encodes text = true) :
    encodes (separator.intercalate texts) = true := by
  induction texts with
  | nil => rfl
  | cons text texts induction =>
      have here := each text List.mem_cons_self
      have rest := induction fun other member =>
        each other (List.mem_cons_of_mem _ member)
      cases texts with
      | nil =>
          rw [List.intercalate_singleton]
          exact here
      | cons other texts =>
          rw [List.intercalate_cons_cons, encodes_append, encodes_append,
            here, mark, rest]
          rfl

private theorem isSome_hypothesisFinding {item : Fields}
    (encoded : fieldsEncode item = true) :
    (hypothesisFinding host origin item).isSome = true := by
  rw [hypothesisFinding, Option.isSome_map, hypothesisKey, Option.isSome_map]
  apply isSome_hashText
  apply encodes_intercalate (encodes_str _)
  intro text member
  obtain ⟨key, _, rfl⟩ := List.mem_map.mp member
  exact encodes_textOr_get encoded [key] encodes_nil

private theorem isSome_coverageFindings {items : List Fields}
    (encoded : ∀ item ∈ items, fieldsEncode item = true) :
    (coverageFindings host origin items).isSome = true := by
  have each : ∀ text ∈ coverageMaterial host items, encodes text = true := by
    intro text member
    rw [coverageMaterial, List.mem_insertionSort] at member
    obtain ⟨item, kept, rfl⟩ := List.mem_map.mp member
    apply Unicode.encodes_toStr
    exact encodes_get (encoded item (List.mem_of_mem_filter kept)) _
  rw [coverageFindings]
  split
  · rfl
  · rw [Option.isSome_map]
    apply isSome_hashValue
    rw [allEncode, itemsEncode_eq, List.all_map, List.all_eq_true]
    exact each

private theorem isSome_traceFindings (encoded : fieldsEncode doc = true) :
    (traceFindings host origin doc).isSome = true ↔
      (dictionaries doc "functions").isSome ∧
      (dictionaries doc "hot_pcs").isSome ∧
      (dictionaries doc "calls").isSome := by
  rw [traceFindings]
  cases functions : dictionaries doc "functions" with
  | none => simp
  | some functions' =>
      cases hot : dictionaries doc "hot_pcs" with
      | none => simp
      | some hotPcs =>
          cases calls : dictionaries doc "calls" with
          | none => simp
          | some calls' =>
              have covered : (coverageFindings host origin hotPcs).isSome :=
                isSome_coverageFindings fun item member =>
                  encodes_dictionaries encoded hot member
              obtain ⟨coverage, found⟩ := Option.isSome_iff_exists.mp covered
              simp [found]

private theorem encodes_behaviorPayload {payload : Json}
    (encoded : fieldsEncode doc = true)
    (found : behaviorPayload doc = some (some payload)) :
    allEncode payload = true := by
  unfold behaviorPayload at found
  split at found
  · next result kept =>
    obtain ⟨dumps, looped, made⟩ := Option.bind_eq_some_iff.mp found
    cases made
    have result := (Option.filter_eq_some_iff.mp kept).1
    have whole := encodes_resultPayload encoded result
    have dump : ∀ item ∈ dumps.map dumpFields, allEncode item = true := by
      intro item member
      obtain ⟨fields, listed, rfl⟩ := List.mem_map.mp member
      have plain := encodes_dictionaries whole looped listed
      simp [dumpFields, allEncode, fieldsEncode, encodes_get plain]
    have dumps : allEncode (.array (dumps.map dumpFields)) = true := by
      rw [allEncode, itemsEncode_eq, List.all_eq_true]
      exact dump
    simpa [allEncode, fieldsEncode, encodes_get whole] using dumps
  · split at found
    · obtain ⟨fields, expected, rfl⟩ :=
        Option.map_eq_some_iff.mp (Option.some.inj found)
      exact encodes_asObject? (encodes_get encoded _) expected
    · cases found

private theorem isSome_behaviorPayload :
    (behaviorPayload doc).isSome = true ↔
      ∀ result, resultPayload doc = some result →
        (dictionaries result "dumps").isSome := by
  unfold behaviorPayload
  cases found : resultPayload doc with
  | none => simp
  | some result =>
      cases empty : result.isEmpty with
      | true =>
          obtain rfl := List.isEmpty_iff.mp empty
          have none : (some ([] : Fields)).filter (!·.isEmpty) = none := rfl
          rw [none]
          simp [dictionaries, find?]
      | false =>
          cases looped : dictionaries result "dumps" <;>
            simp [Option.filter, empty, looped]

private theorem isSome_behaviorFindings (encoded : fieldsEncode doc = true) :
    (behaviorFindings host origin doc).isSome = true ↔
      ∀ result, resultPayload doc = some result →
        (dictionaries result "dumps").isSome := by
  rw [← isSome_behaviorPayload, behaviorFindings]
  cases found : behaviorPayload doc with
  | none => rfl
  | some payload =>
      cases payload with
      | none => rfl
      | some payload =>
          have whole := encodes_behaviorPayload encoded found
          obtain ⟨digest, hashed⟩ := Option.isSome_iff_exists.mp
            (isSome_hashValue host whole)
          simp [hashed]

end Findings

section Documents

variable {host : Host} {doc : Fields} {forced : Option Str}

private theorem isSome_targetsOf (host : Host) (doc : Fields)
    (forced : Option Str) :
    (targetsOf host doc forced).isSome = true ↔
      ∀ target, given forced = some target → validSha (.string target) := by
  rw [targetsOf]
  cases given forced with
  | none => simp
  | some target =>
      cases validSha (.string target) <;> simp

private theorem isSome_only {condition : Prop} [Decidable condition]
    {findings : Option (List Finding)} :
    (only condition findings).isSome = true ↔
      (condition → findings.isSome = true) := by
  rw [only]
  split <;> simp_all

private theorem encodes_hypothesisItems {schema : Str} {item : Fields}
    (encoded : fieldsEncode doc = true)
    (member : item ∈ hypothesisItems doc schema) :
    fieldsEncode item = true := by
  unfold hypothesisItems at member
  split at member
  · exact encodes_listed encoded member
  · split at member
    · rw [List.mem_singleton.mp member]
      exact encoded
    · cases member

private theorem any_const {α : Type} (option : Option α) (value : Bool) :
    option.any (fun _ => value) = (option.isSome && value) := by
  cases option <;> rfl

theorem isSome_documentRelations (host : Host) (forced : Option Str)
    (docSha label : Str) (encoded : fieldsEncode doc = true) :
    (documentRelations host doc docSha label forced).isSome = true ↔
      WellTyped host forced doc := by
  have targets := isSome_targetsOf host doc forced
  rw [documentRelations]
  cases harvested : targetsOf host doc forced with
  | none =>
      rw [harvested] at targets
      constructor
      · intro impossible
        cases impossible
      · intro typed
        exact targets.mpr typed.target
  | some listedTargets =>
      rw [harvested] at targets
      have symbols : ((listed doc "symbols").mapM
          (symbolFinding host ⟨docSha, listedTargets⟩)).isSome := by
        apply isSome_mapM
        intro item member
        exact isSome_symbolFinding (encodes_listed encoded member)
      have hypotheses (schema : Str) : ((hypothesisItems doc schema).mapM
          (hypothesisFinding host ⟨docSha, listedTargets⟩)).isSome := by
        apply isSome_mapM
        intro item member
        exact isSome_hypothesisFinding
          (encodes_hypothesisItems encoded member)
      have single (condition : Prop) [Decidable condition]
          (finding : Finding) : (only condition (some [finding])).isSome :=
        isSome_only.mpr fun _ => rfl
      have traced : (only
          (schemaOf host doc = str "ppc-lab-trace-analysis-v1")
          (traceFindings host ⟨docSha, listedTargets⟩ doc)).isSome = true ↔ _ :=
        isSome_only
      rw [isSome_traceFindings encoded] at traced
      have behaved :
          (behaviorFindings host ⟨docSha, listedTargets⟩ doc).isSome = true ↔
            _ :=
        isSome_behaviorFindings encoded
      have all : WellTyped host forced doc ↔
          (only (schemaOf host doc = str "ppc-lab-trace-analysis-v1")
            (traceFindings host ⟨docSha, listedTargets⟩ doc)).isSome ∧
          (behaviorFindings host ⟨docSha, listedTargets⟩ doc).isSome := by
        rw [traced, behaved]
        constructor
        · intro typed
          exact ⟨typed.trace, typed.dumps⟩
        · intro loops
          exact ⟨targets.mp rfl, loops.1, loops.2⟩
      rw [all, Option.bind_eq_bind, Option.bind_some]
      simp only [Option.bind_eq_bind, Option.isSome_bind, Option.pure_def,
        Option.isSome_some, any_const, symbols, hypotheses, single,
        Bool.and_true, Bool.true_and, Bool.and_eq_true]

end Documents

end PpcLab.Knowledge
