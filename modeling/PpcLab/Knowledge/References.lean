import PpcLab.Knowledge.WellTyped

/-!
# References between rows

The relations of a document put edges only between nodes that they have added,
so no reference is broken when they are written.  A document is therefore
indexed exactly when its strings have an encoding and its loops can be run.
-/

namespace PpcLab.Knowledge

open Json

/-- Every edge of a document ends at nodes that are known or that an earlier
write has added. -/
def Closed (docSha : Str) : (known : Str → Prop) → List Write → Prop
  | _, [] => True
  | known, .node node :: writes =>
      Closed docSha (fun key => known key ∨ key = node.key) writes
  | known, .edge edge _ :: writes =>
      known edge.source ∧ known edge.target ∧ edge.documentSha256 = docSha ∧
        Closed docSha known writes

/-- A node is among the writes. -/
def Adds (writes : List Write) (key : Str) : Prop :=
  ∃ node, .node node ∈ writes ∧ node.key = key

section Closed

variable {docSha : Str} {known wider : Str → Prop}

theorem Closed.mono {writes : List Write} (closed : Closed docSha known writes)
    (wide : ∀ key, known key → wider key) : Closed docSha wider writes := by
  induction writes generalizing known wider with
  | nil => trivial
  | cons write writes induction =>
      cases write with
      | node node =>
          apply induction closed
          intro key held
          exact held.imp_left (wide key)
      | edge edge metadata =>
          obtain ⟨source, target, same, rest⟩ := closed
          exact ⟨wide _ source, wide _ target, same, induction rest wide⟩

theorem closed_append {first second : List Write}
    (closed : Closed docSha known first)
    (rest : Closed docSha (fun key => known key ∨ Adds first key) second) :
    Closed docSha known (first ++ second) := by
  induction first generalizing known with
  | nil =>
      apply rest.mono
      intro key held
      rcases held with held | added
      · exact held
      · obtain ⟨_, member, _⟩ := added
        cases member
  | cons write first induction =>
      cases write with
      | node node =>
          apply induction closed
          apply rest.mono
          intro key held
          rcases held with held | added
          · exact .inl (.inl held)
          · obtain ⟨other, member, same⟩ := added
            rcases List.mem_cons.mp member with here | later
            · cases here
              exact .inl (.inr same.symm)
            · exact .inr ⟨other, later, same⟩
      | edge edge metadata =>
          obtain ⟨source, target, same, closed⟩ := closed
          refine ⟨source, target, same, ?_⟩
          apply induction closed
          apply rest.mono
          intro key held
          rcases held with held | added
          · exact .inl held
          · obtain ⟨other, member, same⟩ := added
            rcases List.mem_cons.mp member with here | later
            · cases here
            · exact .inr ⟨other, later, same⟩

theorem Closed.append {first second : List Write}
    (closed : Closed docSha known first)
    (rest : Closed docSha known second) :
    Closed docSha known (first ++ second) :=
  closed_append closed (rest.mono fun _ held => .inl held)

theorem closed_flatMap {α : Type} {items : List α} {writes : α → List Write}
    (each : ∀ item ∈ items, Closed docSha known (writes item)) :
    Closed docSha known (items.flatMap writes) := by
  induction items with
  | nil => trivial
  | cons item items induction =>
      rw [List.flatMap_cons]
      apply (each item List.mem_cons_self).append
      apply induction
      intro other member
      exact each other (List.mem_cons_of_mem _ member)

end Closed

private theorem key_over (nodes : Keyed Node.key) (node : Node) :
    (node.over nodes).key = node.key := by
  unfold Node.over
  cases found : nodes.lookup node.key with
  | none => rfl
  | some old =>
      have same : old.key = node.key := Keyed.key_of_lookup found
      exact same

private theorem isSome_lookup_addNode {tables : Tables} {node : Node}
    {key : Str}
    (held : (tables.nodes.lookup key).isSome ∨ key = node.key) :
    ((tables.addNode node).nodes.lookup key).isSome := by
  have self : node.key = (node.over tables.nodes).key :=
    (key_over tables.nodes node).symm
  by_cases same : key = node.key
  · rw [same, Tables.addNode, self, Keyed.lookup_put_self]
    rfl
  · have other : key ≠ (node.over tables.nodes).key := by
      rw [← self]
      exact same
    rw [Tables.addNode, Keyed.lookup_put_of_ne _ other]
    exact held.resolve_right same

theorem isSome_foldlM_write {tables : Tables} (docSha : Str)
    {writes : List Write}
    (document : (tables.documents.lookup docSha).isSome)
    (closed : Closed docSha (fun key => (tables.nodes.lookup key).isSome)
      writes) :
    (writes.foldlM Tables.write tables).isSome = true := by
  induction writes generalizing tables with
  | nil => rfl
  | cons write writes induction =>
      cases write with
      | node node =>
          have rest : Closed docSha (fun key =>
              (tables.nodes.lookup key).isSome ∨ key = node.key) writes :=
            closed
          have added : tables.write (.node node) =
              some (tables.addNode node) := rfl
          rw [List.foldlM_cons, added]
          refine induction ?_ ?_
          · exact document
          · apply rest.mono
            intro key held
            exact isSome_lookup_addNode held
      | edge edge metadata =>
          obtain ⟨source, target, same, rest⟩ := closed
          have refers : tables.Refers edge := by
            refine ⟨source, target, ?_⟩
            rw [same]
            exact document
          have added : tables.write (.edge edge metadata) =
              some { tables with
                edges := tables.edges.putNew ⟨edge, metadata⟩
                ends := Tables.ends_putNew refers } :=
            dif_pos refers
          rw [List.foldlM_cons, added]
          exact induction document rest

/-- The document and its targets are nodes. -/
structure Base (origin : Origin) (known : Str → Prop) : Prop where
  document : known origin.docKey
  targets : ∀ target ∈ origin.targets, known (targetKey target)

section Findings

variable {host : Host} {origin : Origin} {known : Str → Prop}

private theorem closed_toTargets {key relation : Str} (held : known key)
    (targets : ∀ target ∈ origin.targets, known (targetKey target)) :
    Closed origin.docSha known (origin.targets.map fun target =>
      origin.edge key (targetKey target) relation []) := by
  generalize origin.targets = all at targets
  induction all with
  | nil => trivial
  | cons target all induction =>
      refine ⟨held, targets target List.mem_cons_self, rfl, ?_⟩
      apply induction
      intro other member
      exact targets other (List.mem_cons_of_mem _ member)

/-- A node with an edge from the document. -/
private theorem closed_pair {source : Str} {node : Node} {relation : Str}
    {metadata : Fields} (held : known source) :
    Closed origin.docSha known
      [.node node, origin.edge source node.key relation metadata] :=
  ⟨.inl held, .inr rfl, rfl, trivial⟩

private theorem closed_symbol {item : Fields} {digest : Str}
    (base : Base origin known) :
    Closed origin.docSha known (symbol host origin item digest).writes := by
  unfold symbol
  dsimp only
  cases symbolAddress host item with
  | none => exact closed_pair base.document
  | some address =>
      exact ⟨.inl base.document, .inr rfl, rfl, .inl (.inr rfl), .inr rfl,
        rfl, trivial⟩

private theorem closed_hotPc {item : Fields} (base : Base origin known) :
    Closed origin.docSha known (hotPc host origin item).writes := by
  unfold hotPc
  cases addressOf host (get item "pc") with
  | none => trivial
  | some address =>
      dsimp only
      split
      · exact closed_pair base.document
      · exact ⟨.inl base.document, .inr rfl, rfl, .inl (.inr rfl), .inr rfl,
          rfl, trivial⟩

private theorem closed_described {key type label relation toTarget : Str}
    {metadata : Fields} (base : Base origin known) :
    Closed origin.docSha known
      (described origin key type label relation metadata toTarget).writes := by
  refine ⟨.inl base.document, .inr rfl, rfl, ?_⟩
  apply closed_toTargets (.inr rfl)
  intro target member
  exact .inl (base.targets target member)

private theorem closed_divergence {key side : Str} {first : Fields}
    (held : known key) :
    Closed origin.docSha known
      (divergence host origin key first side) := by
  unfold divergence
  split
  · trivial
  · exact closed_pair held

private theorem closed_triage {doc : Fields} (base : Base origin known) :
    Closed origin.docSha known (triage host origin doc).writes := by
  refine ⟨.inl base.document, .inr rfl, rfl, ?_⟩
  apply Closed.append
  · exact closed_divergence (.inr rfl)
  · exact closed_divergence (.inr rfl)

private theorem closed_supportedBy {key : Str} {digest : Json}
    (held : known key) :
    Closed origin.docSha known (supportedBy host origin key digest) := by
  unfold supportedBy
  split
  · trivial
  · exact closed_pair held

private theorem closed_stateAt {key : Str} {item : Fields}
    (held : known key) :
    Closed origin.docSha known (stateAt host origin key item) := by
  unfold stateAt
  dsimp only
  split
  · split
    · trivial
    · exact closed_pair held
  · trivial

private theorem closed_hypothesis {item : Fields} {key : Str}
    (base : Base origin known) :
    Closed origin.docSha known (hypothesis host origin item key).writes := by
  refine ⟨.inl base.document, .inr rfl, rfl, ?_⟩
  apply Closed.append
  · apply Closed.append
    · apply closed_toTargets (.inr rfl)
      intro target member
      exact .inl (base.targets target member)
    · apply closed_flatMap
      intro digest _
      exact closed_supportedBy (.inr rfl)
  · exact closed_stateAt (.inr rfl)

private theorem closed_annotated {item : Fields}
    (base : Base origin known) :
    Closed origin.docSha known (annotated host origin item).writes := by
  unfold annotated
  split
  · trivial
  · exact closed_pair base.document

end Findings

section Documents

variable {host : Host} {doc : Fields} {forced : Option Str}

private theorem exists_of_mem_mapM {α β : Type} {step : α → Option β}
    {items : List α} {results : List β} {result : β}
    (mapped : items.mapM step = some results) (member : result ∈ results) :
    ∃ item, step item = some result := by
  induction items generalizing results with
  | nil =>
      cases mapped
      cases member
  | cons item items induction =>
      rw [List.mapM_cons] at mapped
      obtain ⟨first, here, mapped⟩ := Option.bind_eq_some_iff.mp mapped
      obtain ⟨others, later, mapped⟩ := Option.bind_eq_some_iff.mp mapped
      cases mapped
      rcases List.mem_cons.mp member with rfl | member
      · exact ⟨item, here⟩
      · exact induction later member

private theorem closed_traceFindings {origin : Origin}
    {known : Str → Prop} {findings : List Finding} {finding : Finding}
    (base : Base origin known)
    (found : traceFindings host origin doc = some findings)
    (member : finding ∈ findings) :
    Closed origin.docSha known finding.writes := by
  obtain ⟨functions, _, found⟩ := Option.bind_eq_some_iff.mp found
  obtain ⟨hotPcs, _, found⟩ := Option.bind_eq_some_iff.mp found
  obtain ⟨calls, _, found⟩ := Option.bind_eq_some_iff.mp found
  obtain ⟨covered, coveredBy, found⟩ := Option.bind_eq_some_iff.mp found
  cases found
  simp only [List.mem_append, List.mem_map] at member
  rcases member with ((function | hot) | call) | coverage
  · obtain ⟨item, _, rfl⟩ := function
    exact closed_pair base.document
  · obtain ⟨item, _, rfl⟩ := hot
    exact closed_hotPc base
  · obtain ⟨item, _, rfl⟩ := call
    exact ⟨.inl (.inr rfl), .inr rfl, rfl, trivial⟩
  · unfold coverageFindings at coveredBy
    dsimp only at coveredBy
    split at coveredBy
    · cases coveredBy
      cases coverage
    · obtain ⟨digest, _, rfl⟩ := Option.map_eq_some_iff.mp coveredBy
      rw [List.mem_singleton.mp coverage]
      exact closed_pair base.document

private theorem closed_of_only {condition : Prop} [Decidable condition]
    {findings : Option (List Finding)} {results : List Finding}
    {finding : Finding} (found : only condition findings = some results)
    (member : finding ∈ results) : findings = some results := by
  unfold only at found
  split at found
  · exact found
  · cases found
    cases member

/-- The findings after those about the document and its targets. -/
private theorem closed_others {origin : Origin} {known : Str → Prop}
    {schema : Str} {symbols trace behaviors corpus triaged campaigns
      hypotheses : List Finding} {finding : Finding}
    (base : Base origin known)
    (symbolic : (listed doc "symbols").mapM (symbolFinding host origin) =
      some symbols)
    (traced : only (schema = str "ppc-lab-trace-analysis-v1")
      (traceFindings host origin doc) = some trace)
    (behaved : behaviorFindings host origin doc = some behaviors)
    (cased : only (schema = str "ppc-lab-corpus-case-v1")
      (some [corpusCase host origin doc]) = some corpus)
    (differed : only (schema = str "ppc-lab-differential-triage-v1")
      (some [triage host origin doc]) = some triaged)
    (campaigned : only (schema = str "ppc-lab-campaign-summary-v1")
      (some [campaign host origin doc]) = some campaigns)
    (supposed : (hypothesisItems doc schema).mapM
      (hypothesisFinding host origin) = some hypotheses)
    (member : finding ∈ symbols ++ trace ++ behaviors ++ corpus ++ triaged ++
      campaigns ++ hypotheses ++
      (listed doc "annotations").map (annotated host origin)) :
    Closed origin.docSha known finding.writes := by
  simp only [List.mem_append, or_assoc] at member
  rcases member with here | here | here | here | here | here | here | here
  · obtain ⟨item, found⟩ := exists_of_mem_mapM symbolic here
    unfold symbolFinding at found
    split at found
    · cases found
      trivial
    · obtain ⟨digest, _, rfl⟩ := Option.map_eq_some_iff.mp found
      exact closed_symbol base
  · exact closed_traceFindings base (closed_of_only traced here) here
  · obtain ⟨payload, _, behaved⟩ := Option.bind_eq_some_iff.mp behaved
    obtain ⟨own, _, behaved⟩ := Option.bind_eq_some_iff.mp behaved
    cases behaved
    obtain ⟨digest, _, rfl⟩ := List.mem_map.mp here
    exact closed_pair base.document
  · cases closed_of_only cased here
    rw [List.mem_singleton.mp here]
    exact closed_described base
  · cases closed_of_only differed here
    rw [List.mem_singleton.mp here]
    exact closed_triage base
  · cases closed_of_only campaigned here
    rw [List.mem_singleton.mp here]
    exact closed_described base
  · obtain ⟨item, found⟩ := exists_of_mem_mapM supposed here
    obtain ⟨key, _, rfl⟩ := Option.map_eq_some_iff.mp found
    exact closed_hypothesis base
  · obtain ⟨item, _, rfl⟩ := List.mem_map.mp here
    exact closed_annotated base

theorem closed_documentRelations {docSha label : Str} {known : Str → Prop}
    {findings : List Finding}
    (related : documentRelations host doc docSha label forced =
      some findings) :
    Closed docSha known (findings.flatMap (·.writes)) := by
  obtain ⟨targets, _, related⟩ := Option.bind_eq_some_iff.mp related
  obtain ⟨symbols, symbolic, related⟩ := Option.bind_eq_some_iff.mp related
  obtain ⟨trace, traced, related⟩ := Option.bind_eq_some_iff.mp related
  obtain ⟨behaviors, behaved, related⟩ := Option.bind_eq_some_iff.mp related
  obtain ⟨corpus, cased, related⟩ := Option.bind_eq_some_iff.mp related
  obtain ⟨triaged, differed, related⟩ := Option.bind_eq_some_iff.mp related
  obtain ⟨campaigns, campaigned, related⟩ :=
    Option.bind_eq_some_iff.mp related
  obtain ⟨hypotheses, supposed, related⟩ :=
    Option.bind_eq_some_iff.mp related
  cases related
  have base (origin : Origin) (schema : Str) : Base origin fun key =>
      (known key ∨ Adds (documentFinding origin schema label).writes key) ∨
        Adds (origin.targets.flatMap fun target =>
          (targetFinding origin target).writes) key := by
    constructor
    · exact .inl (.inr ⟨_, List.mem_cons_self, rfl⟩)
    · intro target member
      refine .inr ⟨_, List.mem_flatMap.mpr ⟨target, member,
        List.mem_cons_self⟩, rfl⟩
  have whole (origin : Origin) (schema : Str) (others : List Finding)
      (each : ∀ known, Base origin known → ∀ finding ∈ others,
        Closed origin.docSha known finding.writes) :
      Closed origin.docSha known ((documentFinding origin schema label ::
        (origin.targets.map (targetFinding origin) ++ others)).flatMap
          (·.writes)) := by
    rw [List.flatMap_cons, List.flatMap_append, List.flatMap_map]
    apply closed_append
    · exact ⟨.inl (.inr rfl), .inr rfl, rfl, trivial⟩
    · apply closed_append
      · apply closed_flatMap
        intro target _
        exact closed_pair (.inr ⟨_, List.mem_cons_self, rfl⟩)
      · apply closed_flatMap
        exact each _ (base origin schema)
  have closed := whole ⟨docSha, targets⟩ (schemaOf host doc) _
    fun known base finding member =>
      closed_others base symbolic traced behaved cased differed campaigned
        supposed member
  simpa only [List.cons_append, List.append_assoc] using closed

private theorem isSome_lookup_putNew {α κ : Type} [DecidableEq κ]
    {key : α → κ} (table : Keyed key) (entry : α) :
    ((table.putNew entry).lookup (key entry)).isSome := by
  rw [Keyed.lookup_putNew, if_pos rfl, Option.isSome_or]
  simp

/-- A document is indexed exactly when its strings have an encoding and its
loops can be run. -/
theorem isSome_ingestDocument (now path : Str) (tables : Tables)
    (raw : List Byte) :
    (ingestDocument host forced now tables doc path raw).isSome = true ↔
      fieldsEncode doc = true ∧ WellTyped host forced doc := by
  have blobs := isSome_canonical (.object doc)
  rw [allEncode] at blobs
  rw [← blobs, ingestDocument]
  cases encoded : (Json.object doc).canonical with
  | none => simp
  | some blob =>
      rw [encoded] at blobs
      have relations := isSome_documentRelations host forced
        (host.sha256 blob) path blobs.symm
      rw [← relations, Option.bind_eq_bind, Option.bind_some]
      dsimp only
      cases related : documentRelations host doc (host.sha256 blob) path
          forced with
      | none => simp
      | some findings =>
          rw [Option.bind_eq_bind, Option.bind_some]
          have written (row : DocumentRow) (source : SourceRow)
              (same : row.sha256 = host.sha256 blob) :
              ((findings.flatMap (·.writes)).foldlM Tables.write
                ((tables.addDocument row).addSource source)).isSome := by
            apply isSome_foldlM_write (host.sha256 blob)
            · rw [← same]
              exact isSome_lookup_putNew tables.documents row
            · exact closed_documentRelations related
          obtain ⟨after, wrote⟩ := Option.isSome_iff_exists.mp
            (written ⟨host.sha256 blob, schemaOf host doc, blob, now⟩
              ⟨host.sha256 blob, path, host.sha256 raw, raw.length, now⟩ rfl)
          rw [wrote]
          simp

end Documents

end PpcLab.Knowledge
