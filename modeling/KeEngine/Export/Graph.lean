/-
The property graph of one artifact: nodes and edges for its regime, attestations, rules or intent, and
for the documents that they cite. The `SPANS` edges of rules come from the span index of the artifact,
which assembly builds from the rules and decoding takes as it stands.
-/
import KeEngine.Artifact.Unpadded
import KeEngine.Compiler.GateGraph
import KeEngine.Registry.Backend

namespace Ke

/-- The rules of a rule payload. -/
def Artifact.rules (a : Artifact) : List RuleIR :=
  match a.payload with
  | .rules rules => rules
  | .intentSpec _ => []

end Ke

namespace Ke.Export

open Ke Wire Registry

/-! ## Nodes and edges -/

inductive NodeLabel
  | artifact
  | regime
  | rule
  | corpusDoc
  | attestation
  | intentSpec
deriving DecidableEq

inductive EdgeLabel
  | inRegime
  | contains
  | cites
  | spans
  | attestedBy
  | conflictsWith
deriving DecidableEq

structure Node where
  label : NodeLabel
  id : String
  props : List (String × String)
deriving DecidableEq

structure Edge where
  label : EdgeLabel
  «from» : String
  «to» : String
  props : List (String × String)
deriving DecidableEq

/-- The projected graph of one or more artifacts. -/
structure Graph where
  nodes : List Node
  edges : List Edge

def ArtifactKind.debug : ArtifactKind → String
  | .regimePack => "RegimePack"
  | .equivalenceMatrix => "EquivalenceMatrix"
  | .testCorpus => "TestCorpus"
  | .policyBundle => "PolicyBundle"
  | .intentSpec => "IntentSpec"

def AttestationType.debug : AttestationType → String
  | .sourceFidelity => "SourceFidelity"
  | .interpretation => "Interpretation"
  | .scenarioCoverage => "ScenarioCoverage"
  | .equivalenceClaim => "EquivalenceClaim"
  | .publicationApproval => "PublicationApproval"

/-! ## Extraction -/

namespace Graph

def pushNode (g : Graph) (node : Node) : Graph := { g with nodes := g.nodes ++ [node] }

def pushEdge (g : Graph) (edge : Edge) : Graph := { g with edges := g.edges ++ [edge] }

/-- A node for a document, once. -/
def pushCorpusDoc (g : Graph) (documentId : String) : Graph :=
  if g.nodes.any fun n => decide (n.label = .corpusDoc ∧ n.id = documentId) then g
  else g.pushNode ⟨.corpusDoc, documentId, []⟩

end Graph

/-- The article and the section of a reference, where it has them. -/
def locatorProps (article section_ : Option String) : List (String × String) :=
  (article.map fun article => ("article", article)).toList ++
    (section_.map fun section_ => ("section", section_)).toList

/-- One node an attestation, numbered in order. -/
def pushAttestation (hex : String) (g : Graph) (attestation : Attestation × Nat) : Graph :=
  let id := s!"{hex}:att:{attestation.2}"
  (g.pushNode ⟨.attestation, id,
    [("type", AttestationType.debug attestation.1.attestationType), ("signer_key_id", attestation.1.keyId)]⟩).pushEdge
      ⟨.attestedBy, hex, id, []⟩

def pushRule (hex : String) (g : Graph) (rule : RuleIR) : Graph :=
  let ruleId := T4.ruleNodeId hex rule.ruleId
  (((g.pushNode ⟨.rule, ruleId, [("rule_id", rule.ruleId)]⟩).pushEdge ⟨.contains, hex, ruleId, []⟩).pushCorpusDoc
    rule.source.documentId).pushEdge
      ⟨.cites, ruleId, rule.source.documentId, locatorProps rule.source.article rule.source.section_⟩

/-- The edge of a span. -/
def spanEdge (source : String) (span : SourceSpan) : Edge :=
  ⟨.spans, source, span.documentId, locatorProps span.article span.section_⟩

def pushSpan (source : String) (g : Graph) (span : SourceSpan) : Graph :=
  (g.pushCorpusDoc span.documentId).pushEdge (spanEdge source span)

def pushIndexEntry (hex : String) (g : Graph) (entry : SpanIndexEntry) : Graph :=
  entry.spans.foldl (pushSpan (T4.ruleNodeId hex entry.ruleId)) g

/-- An intent with its spans, which are on the payload. -/
def pushIntentSpec (hex : String) (g : Graph) (spec : IntentSpecIR) : Graph :=
  let intentId := s!"{hex}:intent:{spec.actionClass}"
  spec.sourceSpans.foldl (pushSpan intentId)
    ((g.pushNode ⟨.intentSpec, intentId,
      [("action_class", spec.actionClass), ("criteria_count", toString spec.criteria.length)]⟩).pushEdge
        ⟨.contains, hex, intentId, []⟩)

/-- Project an artifact. -/
def extractGraph (artifact : Artifact) : Graph :=
  let hex := hex32 artifact.manifest.artifactHash
  let regime := artifact.manifest.regimeId
  let graph : Graph := ⟨
    [⟨.artifact, hex, [("kind", ArtifactKind.debug artifact.manifest.artifactKind), ("regime_id", regime)]⟩,
      ⟨.regime, regime, []⟩],
    [⟨.inRegime, hex, regime, []⟩]⟩
  let graph := artifact.attestations.zipIdx.foldl (pushAttestation hex) graph
  match artifact.payload with
  | .rules rules =>
    artifact.sourceSpanIndex.entries.foldl (pushIndexEntry hex) (rules.foldl (pushRule hex) graph)
  | .intentSpec spec => pushIntentSpec hex graph spec

/-! ## What a step adds -/

/-- A step that adds edges depending on its item alone, and takes no node away. -/
structure Adds {α : Type} (step : Graph → α → Graph) (edges : α → List Edge) : Prop where
  edges_eq : ∀ g a, (step g a).edges = g.edges ++ edges a
  nodes_prefix : ∀ g a, g.nodes <+: (step g a).nodes

section

variable {α : Type} {step : Graph → α → Graph} {edges : α → List Edge}

theorem Adds.foldl (h : Adds step edges) : Adds (fun g as => List.foldl step g as) (fun as => as.flatMap edges) := by
  constructor
  · intro g as
    induction as generalizing g with
    | nil => simp
    | cons a as ih =>
      show (List.foldl step (step g a) as).edges = _
      rw [ih, h.edges_eq, List.flatMap_cons, List.append_assoc]
  · intro g as
    induction as generalizing g with
    | nil => exact List.prefix_rfl
    | cons a as ih => exact (h.nodes_prefix g a).trans (ih (step g a))

end

theorem Graph.pushCorpusDoc_edges (g : Graph) (documentId : String) :
    (g.pushCorpusDoc documentId).edges = g.edges := by
  unfold Graph.pushCorpusDoc
  split <;> rfl

theorem Graph.pushCorpusDoc_nodes (g : Graph) (documentId : String) :
    g.nodes <+: (g.pushCorpusDoc documentId).nodes := by
  unfold Graph.pushCorpusDoc
  split
  · exact List.prefix_rfl
  · exact List.prefix_append _ _

theorem pushAttestation_adds (hex : String) :
    Adds (pushAttestation hex) fun p => [⟨.attestedBy, hex, s!"{hex}:att:{p.2}", []⟩] :=
  ⟨fun _ _ => rfl, fun _ _ => List.prefix_append _ _⟩

theorem pushRule_adds (hex : String) : Adds (pushRule hex) fun rule =>
    [⟨.contains, hex, T4.ruleNodeId hex rule.ruleId, []⟩,
      ⟨.cites, T4.ruleNodeId hex rule.ruleId, rule.source.documentId,
        locatorProps rule.source.article rule.source.section_⟩] := by
  constructor
  · intro g rule
    unfold pushRule Graph.pushEdge
    simp only
    rw [Graph.pushCorpusDoc_edges]
    simp [Graph.pushNode]
  · intro g rule
    show g.nodes <+: (((g.pushNode _).pushEdge _).pushCorpusDoc _).nodes
    exact (List.prefix_append g.nodes _).trans (Graph.pushCorpusDoc_nodes ((g.pushNode _).pushEdge _) _)

theorem pushSpan_adds (source : String) : Adds (pushSpan source) fun span => [spanEdge source span] := by
  constructor
  · intro g span
    unfold pushSpan Graph.pushEdge
    simp only
    rw [Graph.pushCorpusDoc_edges]
  · exact fun g span => Graph.pushCorpusDoc_nodes g span.documentId

theorem pushIndexEntry_adds (hex : String) : Adds (pushIndexEntry hex) fun entry =>
    entry.spans.flatMap fun span => [spanEdge (T4.ruleNodeId hex entry.ruleId) span] :=
  ⟨fun g entry => (pushSpan_adds _).foldl.edges_eq g entry.spans,
    fun g entry => (pushSpan_adds _).foldl.nodes_prefix g entry.spans⟩

/-- A rule has its node. -/
theorem mem_pushRule (hex : String) (g : Graph) (rule : RuleIR) :
    ⟨.rule, T4.ruleNodeId hex rule.ruleId, [("rule_id", rule.ruleId)]⟩ ∈ (pushRule hex g rule).nodes := by
  refine (Graph.pushCorpusDoc_nodes _ _).subset ?_
  exact List.mem_append_right _ (List.mem_singleton_self _)

theorem mem_foldl_pushRule (hex : String) {rule : RuleIR} : ∀ {rules : List RuleIR} (g : Graph), rule ∈ rules →
    ⟨.rule, T4.ruleNodeId hex rule.ruleId, [("rule_id", rule.ruleId)]⟩ ∈ (rules.foldl (pushRule hex) g).nodes
  | first :: rules, g, h => by
    rcases List.mem_cons.1 h with rfl | h
    · exact ((pushRule_adds hex).foldl.nodes_prefix _ rules).subset (mem_pushRule hex g rule)
    · exact mem_foldl_pushRule hex (pushRule hex g first) h

/-! ## The edges of spans -/

section

variable {a : Artifact} {rules : List RuleIR}

/-- Every rule of an artifact has its node. -/
theorem rule_mem_extractGraph (h : a.payload = .rules rules) {rule : RuleIR} (hrule : rule ∈ rules) :
    ⟨.rule, T4.ruleNodeId (hex32 a.manifest.artifactHash) rule.ruleId, [("rule_id", rule.ruleId)]⟩ ∈
      (extractGraph a).nodes := by
  unfold extractGraph
  simp only [h]
  exact ((pushIndexEntry_adds _).foldl.nodes_prefix _ _).subset (mem_foldl_pushRule _ _ hrule)

/-- The `SPANS` edges of a rule payload are those of the index, entry by entry. -/
theorem spans_extractGraph (h : a.payload = .rules rules) {edge : Edge} :
    edge ∈ (extractGraph a).edges ∧ edge.label = .spans ↔ ∃ entry ∈ a.sourceSpanIndex.entries, ∃ span ∈ entry.spans,
      edge = spanEdge (T4.ruleNodeId (hex32 a.manifest.artifactHash) entry.ruleId) span := by
  unfold extractGraph
  simp only [h]
  rw [(pushIndexEntry_adds _).foldl.edges_eq, (pushRule_adds _).foldl.edges_eq, (pushAttestation_adds _).foldl.edges_eq]
  simp only [List.mem_append, List.mem_flatMap, List.mem_cons, List.not_mem_nil, or_false]
  constructor
  · rintro ⟨((rfl | ⟨p, -, rfl⟩) | ⟨rule, -, rfl | rfl⟩) | ⟨entry, hentry, span, hspan, rfl⟩, hlabel⟩
    · cases hlabel
    · cases hlabel
    · cases hlabel
    · cases hlabel
    · exact ⟨entry, hentry, span, hspan, rfl⟩
  · rintro ⟨entry, hentry, span, hspan, rfl⟩
    exact ⟨.inr ⟨entry, hentry, span, hspan, rfl⟩, rfl⟩

/-! ## The index of an assembled artifact -/

/-- The index lists the spans of the rules, and nothing for an intent. -/
def IndexAgrees (a : Artifact) : Prop :=
  match a.payload with
  | .rules rules => a.sourceSpanIndex = buildSpanIndex rules
  | .intentSpec _ => a.sourceSpanIndex = ⟨[]⟩

/-- Every `SPANS` edge starts at the node of a rule of the artifact and cites a span of that rule. -/
def SpansGrounded (a : Artifact) : Prop :=
  ∀ edge ∈ (extractGraph a).edges, edge.label = .spans → ∃ rule ∈ a.rules,
    ⟨.rule, edge.from, [("rule_id", rule.ruleId)]⟩ ∈ (extractGraph a).nodes ∧
      ∃ span ∈ collectRuleSpans rule, edge = spanEdge edge.from span

/-- The envelope is one that assembly makes. -/
def Assembles (X : Externals) (envelope : Envelope) : Prop :=
  ∃ manifest payload auditVersions seed keyId a kew,
    assemblePayload X manifest payload auditVersions seed keyId = .ok (a, kew) ∧ a.toEnvelope = envelope

theorem Assembles.indexAgrees {X : Externals} (h : Assembles X a.toEnvelope) : IndexAgrees a := by
  obtain ⟨manifest, payload, auditVersions, seed, keyId, made, kew, h, hmade⟩ := h
  obtain ⟨_, -, h⟩ := bind_ok.1 h
  obtain ⟨⟨payload', index⟩, hp, h⟩ := bind_ok.1 h
  obtain ⟨_, -, h⟩ := bind_ok.1 h
  obtain ⟨_, -, h⟩ := bind_ok.1 h
  obtain ⟨_, -, h⟩ := bind_ok.1 h
  obtain ⟨_, -, h⟩ := bind_ok.1 h
  obtain ⟨rfl, -⟩ := Prod.mk.inj (pure_ok.1 h)
  have hpayload : payload' = a.payload := congrArg Envelope.payload hmade
  have hindex : index = a.sourceSpanIndex := congrArg Envelope.sourceSpanIndex hmade
  rw [mapError_ok] at hp
  unfold IndexAgrees
  rw [← hpayload, ← hindex]
  cases payload with
  | rules rules =>
    obtain ⟨canon, -, hp⟩ := bind_ok.1 hp
    obtain ⟨rfl, rfl⟩ := Prod.mk.inj (pure_ok.1 hp)
    rfl
  | intentSpec ir =>
    obtain ⟨rfl, rfl⟩ := Prod.mk.inj (pure_ok.1 hp)
    rfl

/-- An index that agrees with its rules grounds the edges. -/
theorem IndexAgrees.spansGrounded (h : IndexAgrees a) (hrules : a.payload = .rules rules) : SpansGrounded a := by
  intro edge hedge hlabel
  obtain ⟨entry, hentry, span, hspan, rfl⟩ := (spans_extractGraph hrules).1 ⟨hedge, hlabel⟩
  unfold IndexAgrees at h
  rw [hrules] at h
  rw [show a.sourceSpanIndex = buildSpanIndex rules from h] at hentry
  obtain ⟨rule, hrule, rfl⟩ := List.mem_map.1 ((perm_sortBy _ _).mem_iff.1 hentry)
  have hmem : rule ∈ a.rules := by
    unfold Artifact.rules
    rw [hrules]
    exact hrule
  exact ⟨rule, hmem, rule_mem_extractGraph hrules hrule, span, hspan, rfl⟩

/-- Bytes that are the envelope of an assembled artifact. -/
def AssembledPrefix (X : Externals) (envelopePrefix : Bytes) : Prop :=
  ∃ envelope, Assembles X envelope ∧ Postcard.envelope.enc envelope = .ok envelopePrefix

/-- Of accepted bytes whose signed prefix is that of an assembled artifact, the index is that of the
payload, and the edges of spans are grounded in the rules. -/
theorem decodeArtifact_index {X : Externals} {kew : Bytes} {n : Nat} (hdec : decodeArtifact X kew = .ok (a, n))
    (hmade : AssembledPrefix X (kew.take n)) :
    IndexAgrees a ∧ ∀ rules, a.payload = .rules rules → SpansGrounded a := by
  obtain ⟨envelope, hmade, henc⟩ := hmade
  obtain ⟨rest, hkew, henv⟩ := (decodeArtifact_ok hdec).envelope
  rw [hkew, Postcard.envelope.dec_enc henc] at henv
  obtain ⟨rfl, -⟩ := Prod.mk.inj (Except.ok.inj henv)
  exact ⟨hmade.indexAgrees, fun rules => hmade.indexAgrees.spansGrounded⟩

end

/-! ## A rule with a span -/

def citedSpan : SourceSpan := ⟨"doc", some "3", none, none, none, none, none⟩

/-- A rule whose only leaf cites a span. -/
def citingRule : RuleIR := .bare "r" none (.leaf ⟨"permit", none, none, some citedSpan⟩)

def packManifest : Manifest := { transferManifest with artifactKind := .regimePack }

theorem decodeArtifact_index_citingRule : ∃ kew a n, decodeArtifact standIn kew = .ok (a, n) ∧
    (a.rules.map (·.ruleId) = ["r"] ∧ ∃ edge ∈ (extractGraph a).edges, edge.label = .spans) ∧
      IndexAgrees a ∧ ∀ rules, a.payload = .rules rules → SpansGrounded a := by
  have hrun : (assemblePayload standIn packManifest (.rules [citingRule]) ⟨none, none⟩ TestKeys.fixedSeed
      TestKeys.testKeyId).toOption.any (fun made => decide (made.1.rules.map (·.ruleId) = ["r"]) &&
        (extractGraph made.1).edges.any fun edge => decide (edge.label = .spans)) = true := by decide +kernel
  obtain ⟨⟨a, kew⟩, hmade, hspans⟩ := exists_ok_and hrun
  obtain ⟨hrules, hspans⟩ := Bool.and_eq_true_iff.1 hspans
  obtain ⟨edge, hedge, hlabel⟩ := List.any_eq_true.1 hspans
  have hasm := assemblePayload_ok hmade
  obtain ⟨e, s, t, m, he, hs, ht, hm, rfl, -⟩ := hasm.bytes
  obtain ⟨n, hdec, -⟩ := hasm.decode (by decide : packManifest.artifactKind ≠ .intentSpec)
  obtain ⟨-, -, hlen⟩ := (decodeArtifact_enc he hs ht hm).1 hdec
  obtain ⟨-, rfl⟩ := Prod.mk.inj hlen
  have htake : (e ++ (s ++ (t ++ m))).take e.length = e := List.take_left
  refine ⟨_, a, e.length, hdec, ⟨of_decide_eq_true hrules, edge, hedge, of_decide_eq_true hlabel⟩, ?_⟩
  refine decodeArtifact_index hdec ⟨a.toEnvelope, ⟨_, _, _, _, _, a, _, hmade, rfl⟩, ?_⟩
  rw [htake]
  exact he

/-- An artifact without rules, whose index has a span for one. -/
def ghostArtifact : Artifact where
  manifest := packManifest
  payload := .rules []
  sourceSpanIndex := ⟨[⟨"ghost", [citedSpan]⟩]⟩
  auditVersions := ⟨none, none⟩
  consistencyBlock := none
  compilerSignature := ⟨TestKeys.testKeyId, zeroSig⟩
  attestations := []
  registryStateMetadata := .draft

/-- Decoding takes an index that lists a rule which is not there, and the edge starts at no node. -/
theorem ghost_index_accepted : ∃ kew a n, decodeArtifact standIn kew = .ok (a, n) ∧ a.payload = .rules [] ∧
    ¬ IndexAgrees a ∧ ¬ SpansGrounded a := by
  have henc : ((Postcard.artifact.enc ghostArtifact).toOption.any
      fun kew => (decodeArtifact standIn kew).isOk) = true := by
    decide +kernel
  obtain ⟨kew, hkew, hdec⟩ := exists_ok_and henc
  obtain ⟨⟨a, n⟩, hdec⟩ := exists_ok hdec
  obtain rfl : a = ghostArtifact := decodeArtifact_unique hkew hdec
  refine ⟨kew, ghostArtifact, n, hdec, rfl, ?_, ?_⟩
  · intro h
    have hentries : ghostArtifact.sourceSpanIndex.entries.length = (buildSpanIndex []).entries.length :=
      congrArg (fun index => index.entries.length) h
    exact absurd hentries (by decide)
  · intro h
    obtain ⟨hedge, hlabel⟩ := (spans_extractGraph (a := ghostArtifact) rfl).2
      ⟨⟨"ghost", [citedSpan]⟩, List.mem_singleton_self _, citedSpan, List.mem_singleton_self _, rfl⟩
    obtain ⟨rule, hrule, -⟩ := h _ hedge hlabel
    cases hrule

end Ke.Export
