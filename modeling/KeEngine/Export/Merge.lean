/-
The graph of several artifacts: the projections merged one after the other, nodes once for each label and id,
edges once. Names in it are whole texts: the hash of an artifact, what is built on it with colons, and the ids
of regimes and documents, which whoever writes a rule chooses.
-/
import KeEngine.Compiler.T4Order
import KeEngine.Export.Render
import KeEngine.Registry.Slots

namespace Ke.Export

open Ke Wire Registry

/-! ## Merging -/

/-- What a node is known by. -/
def Node.key (n : Node) : NodeLabel × String := (n.label, n.id)

namespace Graph

def empty : Graph := ⟨[], []⟩

def mergeNode (g : Graph) (node : Node) : Graph :=
  if g.nodes.any fun n => decide (n.label = node.label ∧ n.id = node.id) then g else g.pushNode node

def mergeEdge (g : Graph) (edge : Edge) : Graph := if edge ∈ g.edges then g else g.pushEdge edge

def merge (g other : Graph) : Graph := other.edges.foldl mergeEdge (other.nodes.foldl mergeNode g)

end Graph

/-- The `CONFLICTS_WITH` edges among the rules of an artifact. -/
def conflictEdges (artifactHex : String) (rules : List RuleIR) : List Edge :=
  (T4.conflictEdges artifactHex rules).map fun e => ⟨.conflictsWith, e.from, e.to, e.props⟩

/-- What the exporter takes from an artifact that is filed under a name. -/
def project (hex : String) (artifact : Artifact) : Graph :=
  let graph := extractGraph artifact
  match artifact.payload with
  | .rules rules => { graph with edges := graph.edges ++ conflictEdges hex rules }
  | .intentSpec _ => graph

def Artifact.hex (a : Artifact) : String := hex32 a.manifest.artifactHash

/-- The graph of artifacts, merged in their order. -/
def buildGraph (artifacts : List Artifact) : Graph :=
  artifacts.foldl (fun g a => g.merge (project (Artifact.hex a) a)) .empty

/-! ## What a merge keeps -/

section

variable {g h : Graph} {n : Node} {e : Edge}

theorem Graph.mergeNode_cases (g : Graph) (node : Node) :
    (∃ n ∈ g.nodes, n.key = node.key) ∧ g.mergeNode node = g ∨
      (∀ n ∈ g.nodes, n.key ≠ node.key) ∧ g.mergeNode node = g.pushNode node := by
  have hany : (g.nodes.any fun n => decide (n.label = node.label ∧ n.id = node.id)) = true ↔
      ∃ n ∈ g.nodes, n.key = node.key := by
    rw [List.any_eq_true]
    refine exists_congr fun n => and_congr_right fun _ => ?_
    rw [decide_eq_true_iff, Node.key, Node.key, Prod.mk.injEq]
  unfold mergeNode
  by_cases hkey : ∃ n ∈ g.nodes, n.key = node.key
  · exact .inl ⟨hkey, if_pos (hany.2 hkey)⟩
  · exact .inr ⟨fun n hn heq => hkey ⟨n, hn, heq⟩, if_neg fun h => hkey (hany.1 h)⟩

theorem Graph.mergeNode_edges (g : Graph) (node : Node) : (g.mergeNode node).edges = g.edges := by
  unfold mergeNode
  split <;> rfl

theorem Graph.mergeEdge_nodes (g : Graph) (edge : Edge) : (g.mergeEdge edge).nodes = g.nodes := by
  unfold mergeEdge
  split <;> rfl

theorem foldl_mergeNode_edges : ∀ (nodes : List Node) (g : Graph), (nodes.foldl Graph.mergeNode g).edges = g.edges
  | [], _ => rfl
  | n :: nodes, g => (foldl_mergeNode_edges nodes (g.mergeNode n)).trans (g.mergeNode_edges n)

theorem foldl_mergeEdge_nodes : ∀ (edges : List Edge) (g : Graph), (edges.foldl Graph.mergeEdge g).nodes = g.nodes
  | [], _ => rfl
  | e :: edges, g => (foldl_mergeEdge_nodes edges (g.mergeEdge e)).trans (g.mergeEdge_nodes e)

/-- Nodes that are there stay, and each node that is merged has one of its key. -/
structure MergesNodes (before : List Node) (merged : List Node) (after : List Node) : Prop where
  kept : ∀ n ∈ before, n ∈ after
  keyed : ∀ n ∈ merged, ∃ m ∈ after, m.key = n.key
  sound : ∀ n ∈ after, n ∈ before ∨ n ∈ merged
  nodup : (before.map Node.key).Nodup → (after.map Node.key).Nodup

theorem mergesNodes : ∀ (nodes : List Node) (g : Graph), MergesNodes g.nodes nodes (nodes.foldl Graph.mergeNode g).nodes
  | [], g => ⟨fun _ hn => hn, fun _ hn => absurd hn List.not_mem_nil, fun _ hn => .inl hn, fun h => h⟩
  | node :: nodes, g => by
    obtain ⟨kept, keyed, sound, nodup⟩ := mergesNodes nodes (g.mergeNode node)
    show MergesNodes g.nodes (node :: nodes) (nodes.foldl Graph.mergeNode (g.mergeNode node)).nodes
    rcases g.mergeNode_cases node with ⟨⟨n, hn, hkey⟩, heq⟩ | ⟨hnew, heq⟩
    · rw [heq] at kept keyed sound nodup ⊢
      refine ⟨kept, fun m hm => ?_, fun m hm => (sound m hm).imp_right (List.mem_cons_of_mem node), nodup⟩
      rcases List.mem_cons.1 hm with rfl | hm
      · exact ⟨n, kept n hn, hkey⟩
      · exact keyed m hm
    · rw [heq] at kept keyed sound nodup ⊢
      have hpush : ∀ m, m ∈ (g.pushNode node).nodes ↔ m ∈ g.nodes ∨ m = node := by
        intro m
        unfold Graph.pushNode
        rw [List.mem_append, List.mem_singleton]
      refine ⟨fun m hm => kept m ((hpush m).2 (.inl hm)), fun m hm => ?_, fun m hm => ?_, fun h => nodup ?_⟩
      · rcases List.mem_cons.1 hm with rfl | hm
        · exact ⟨m, kept m ((hpush m).2 (.inr rfl)), rfl⟩
        · exact keyed m hm
      · rcases sound m hm with hm | hm
        · rcases (hpush m).1 hm with hm | rfl
          · exact .inl hm
          · exact .inr List.mem_cons_self
        · exact .inr (List.mem_cons_of_mem node hm)
      · unfold Graph.pushNode
        rw [List.map_append, List.map_singleton]
        refine List.nodup_append.2 ⟨h, List.nodup_singleton _, fun k hk k' hk' => ?_⟩
        obtain ⟨m, hm, rfl⟩ := List.mem_map.1 hk
        rw [List.mem_singleton.1 hk']
        exact hnew m hm

theorem mergesEdges : ∀ (edges : List Edge) (g : Graph),
    (∀ e, e ∈ (edges.foldl Graph.mergeEdge g).edges ↔ e ∈ g.edges ∨ e ∈ edges) ∧
      (g.edges.Nodup → (edges.foldl Graph.mergeEdge g).edges.Nodup)
  | [], g => ⟨fun e => by simp, fun h => h⟩
  | edge :: edges, g => by
    obtain ⟨hmem, hnodup⟩ := mergesEdges edges (g.mergeEdge edge)
    rw [List.foldl_cons]
    by_cases hedge : edge ∈ g.edges
    · rw [Graph.mergeEdge, if_pos hedge] at hmem hnodup ⊢
      refine ⟨fun e => ?_, hnodup⟩
      rw [hmem, List.mem_cons]
      constructor
      · exact Or.imp_right Or.inr
      · rintro (he | rfl | he)
        · exact .inl he
        · exact .inl hedge
        · exact .inr he
    · rw [Graph.mergeEdge, if_neg hedge] at hmem hnodup ⊢
      unfold Graph.pushEdge at hmem hnodup ⊢
      refine ⟨fun e => ?_, fun h => hnodup (List.nodup_append.2 ⟨h, List.nodup_singleton _, fun x hx y hy => ?_⟩)⟩
      · rw [hmem, List.mem_append, List.mem_singleton, List.mem_cons, or_assoc]
      · rw [List.mem_singleton.1 hy]
        rintro rfl
        exact hedge hx

theorem Graph.merge_nodes (g h : Graph) : MergesNodes g.nodes h.nodes (g.merge h).nodes := by
  unfold merge
  rw [foldl_mergeEdge_nodes]
  exact mergesNodes h.nodes g

theorem Graph.mem_merge_edges : e ∈ (g.merge h).edges ↔ e ∈ g.edges ∨ e ∈ h.edges := by
  unfold merge
  rw [(mergesEdges h.edges _).1, foldl_mergeNode_edges]

theorem Graph.nodup_merge_edges (hg : g.edges.Nodup) : (g.merge h).edges.Nodup := by
  unfold merge
  refine (mergesEdges h.edges _).2 ?_
  rwa [foldl_mergeNode_edges]

/-- A graph with the nodes of others, one for each key, and their edges, each once. -/
structure Merged (graphs : List Graph) (g : Graph) : Prop where
  sound : ∀ n ∈ g.nodes, ∃ h ∈ graphs, n ∈ h.nodes
  keyed : ∀ h ∈ graphs, ∀ n ∈ h.nodes, ∃ m ∈ g.nodes, m.key = n.key
  keys : (g.nodes.map Node.key).Nodup
  edges : ∀ e, e ∈ g.edges ↔ ∃ h ∈ graphs, e ∈ h.edges
  nodup : g.edges.Nodup

theorem merged_empty : Merged [] .empty :=
  ⟨fun _ hn => absurd hn List.not_mem_nil, fun _ hh => absurd hh List.not_mem_nil, List.nodup_nil,
    fun e => ⟨fun he => absurd he List.not_mem_nil, fun ⟨_, hh, _⟩ => absurd hh List.not_mem_nil⟩, List.nodup_nil⟩

theorem Merged.merge {graphs : List Graph} (hg : Merged graphs g) (h : Graph) : Merged (graphs ++ [h]) (g.merge h) := by
  have hnodes := g.merge_nodes h
  constructor
  · intro n hn
    rcases hnodes.sound n hn with hn | hn
    · obtain ⟨h', hh', hn⟩ := hg.sound n hn
      exact ⟨h', List.mem_append_left _ hh', hn⟩
    · exact ⟨h, List.mem_append_right _ (List.mem_singleton_self h), hn⟩
  · intro h' hh' n hn
    rcases List.mem_append.1 hh' with hh' | hh'
    · obtain ⟨m, hm, hkey⟩ := hg.keyed h' hh' n hn
      exact ⟨m, hnodes.kept m hm, hkey⟩
    · rw [List.mem_singleton.1 hh'] at hn
      exact hnodes.keyed n hn
  · exact hnodes.nodup hg.keys
  · intro e
    rw [Graph.mem_merge_edges, hg.edges]
    constructor
    · rintro (⟨h', hh', he⟩ | he)
      · exact ⟨h', List.mem_append_left _ hh', he⟩
      · exact ⟨h, List.mem_append_right _ (List.mem_singleton_self h), he⟩
    · rintro ⟨h', hh', he⟩
      rcases List.mem_append.1 hh' with hh' | hh'
      · exact .inl ⟨h', hh', he⟩
      · rw [List.mem_singleton.1 hh'] at he
        exact .inr he
  · exact Graph.nodup_merge_edges hg.nodup

theorem merged_foldl : ∀ {graphs done : List Graph} {g : Graph}, Merged done g →
    Merged (done ++ graphs) (graphs.foldl Graph.merge g)
  | [], done, g, hg => by rwa [List.append_nil]
  | h :: graphs, done, g, hg => by
    have hrest := @merged_foldl graphs _ _ (hg.merge h)
    rwa [List.append_assoc, List.singleton_append] at hrest

/-- The graph of artifacts is their projections, merged. -/
theorem buildGraph_merged (artifacts : List Artifact) :
    Merged (artifacts.map fun a => project (Artifact.hex a) a) (buildGraph artifacts) := by
  have hfold : buildGraph artifacts = (artifacts.map fun a => project (Artifact.hex a) a).foldl Graph.merge .empty := by
    rw [List.foldl_map]
    rfl
  rw [hfold]
  exact merged_foldl merged_empty

end

/-! ## The nodes and edges of an artifact -/

def docNode (documentId : String) : Node := ⟨.corpusDoc, documentId, []⟩

def artifactNode (a : Artifact) : Node :=
  ⟨.artifact, Artifact.hex a,
    [("kind", ArtifactKind.debug a.manifest.artifactKind), ("regime_id", a.manifest.regimeId)]⟩

def attestationNode (hex : String) (p : Attestation × Nat) : Node :=
  ⟨.attestation, s!"{hex}:att:{p.2}",
    [("type", AttestationType.debug p.1.attestationType), ("signer_key_id", p.1.keyId)]⟩

def ruleNode (hex : String) (rule : RuleIR) : Node :=
  ⟨.rule, T4.ruleNodeId hex rule.ruleId, [("rule_id", rule.ruleId)]⟩

def intentNode (hex : String) (spec : IntentSpecIR) : Node :=
  ⟨.intentSpec, s!"{hex}:intent:{spec.actionClass}",
    [("action_class", spec.actionClass), ("criteria_count", toString spec.criteria.length)]⟩

/-- The nodes that an artifact has, those of documents as often as they are cited. -/
def nodesOf (a : Artifact) : List Node :=
  artifactNode a :: ⟨.regime, a.manifest.regimeId, []⟩ ::
    (a.attestations.zipIdx.map (attestationNode (Artifact.hex a)) ++
    match a.payload with
    | .rules rules =>
      (rules.flatMap fun rule => [ruleNode (Artifact.hex a) rule, docNode rule.source.documentId]) ++
        a.sourceSpanIndex.entries.flatMap fun entry => entry.spans.map fun span => docNode span.documentId
    | .intentSpec spec => intentNode (Artifact.hex a) spec :: spec.sourceSpans.map fun span => docNode span.documentId)

/-- The edges that an artifact has, those among its rules left out. -/
def edgesOf (a : Artifact) : List Edge :=
  ⟨.inRegime, Artifact.hex a, a.manifest.regimeId, []⟩ ::
    ((a.attestations.zipIdx.map fun p => ⟨.attestedBy, Artifact.hex a, (attestationNode (Artifact.hex a) p).id, []⟩) ++
    match a.payload with
    | .rules rules =>
      (rules.flatMap fun rule => [⟨.contains, Artifact.hex a, (ruleNode (Artifact.hex a) rule).id, []⟩,
        ⟨.cites, (ruleNode (Artifact.hex a) rule).id, rule.source.documentId,
          locatorProps rule.source.article rule.source.section_⟩]) ++
        a.sourceSpanIndex.entries.flatMap fun entry =>
          entry.spans.map (spanEdge (T4.ruleNodeId (Artifact.hex a) entry.ruleId))
    | .intentSpec spec =>
      ⟨.contains, Artifact.hex a, (intentNode (Artifact.hex a) spec).id, []⟩ ::
        spec.sourceSpans.map (spanEdge (intentNode (Artifact.hex a) spec).id))

/-- A step that adds nodes depending on its item alone, one that is there already for its key being enough. -/
structure AddsNodes {α : Type} (step : Graph → α → Graph) (nodes : α → List Node) : Prop where
  kept : ∀ g a, g.nodes <+: (step g a).nodes
  sound : ∀ g a, ∀ n ∈ (step g a).nodes, n ∈ g.nodes ∨ n ∈ nodes a
  keyed : ∀ g a, ∀ n ∈ nodes a, ∃ m ∈ (step g a).nodes, m.key = n.key

section

variable {α : Type} {step : Graph → α → Graph} {nodes : α → List Node}

theorem AddsNodes.foldl (h : AddsNodes step nodes) :
    AddsNodes (fun g as => List.foldl step g as) (fun as => as.flatMap nodes) := by
  have hkept : ∀ (as : List α) (g : Graph), g.nodes <+: (List.foldl step g as).nodes := by
    intro as
    induction as with
    | nil => exact fun g => List.prefix_rfl
    | cons a as ih => exact fun g => (h.kept g a).trans (ih (step g a))
  refine ⟨fun g as => hkept as g, fun g as => ?_, fun g as => ?_⟩
  · induction as generalizing g with
    | nil => exact fun n hn => .inl hn
    | cons a as ih =>
      intro n hn
      rw [List.flatMap_cons, List.mem_append]
      rcases ih (step g a) n hn with hn | hn
      · exact (h.sound g a n hn).imp_right .inl
      · exact .inr (.inr hn)
  · induction as generalizing g with
    | nil => exact fun n hn => absurd hn List.not_mem_nil
    | cons a as ih =>
      intro n hn
      rw [List.flatMap_cons, List.mem_append] at hn
      rcases hn with hn | hn
      · obtain ⟨m, hm, hkey⟩ := h.keyed g a n hn
        exact ⟨m, (hkept as (step g a)).subset hm, hkey⟩
      · exact ih (step g a) n hn

end

theorem pushCorpusDoc_addsNodes : AddsNodes Graph.pushCorpusDoc fun d => [docNode d] := by
  refine ⟨Graph.pushCorpusDoc_nodes, fun g d n hn => ?_, fun g d n hn => ?_⟩
  · unfold Graph.pushCorpusDoc at hn
    split at hn
    · exact .inl hn
    · exact List.mem_append.1 hn
  · rw [List.mem_singleton.1 hn]
    unfold Graph.pushCorpusDoc
    split
    · rename_i hany
      obtain ⟨m, hm, hkey⟩ := List.any_eq_true.1 hany
      obtain ⟨hlabel, hid⟩ := of_decide_eq_true hkey
      exact ⟨m, hm, Prod.ext hlabel hid⟩
    · exact ⟨docNode d, List.mem_append_right _ (List.mem_singleton_self _), rfl⟩

/-- A node, and an edge to it. -/
theorem pushNode_addsNodes {α : Type} (node : α → Node) (edge : α → Edge) :
    AddsNodes (fun g a => (g.pushNode (node a)).pushEdge (edge a)) fun a => [node a] :=
  ⟨fun g a => List.prefix_append g.nodes [node a], fun g a m hm => List.mem_append.1 hm,
    fun g a m hm => ⟨m, List.mem_append_right _ hm, rfl⟩⟩

theorem pushAttestation_addsNodes (hex : String) : AddsNodes (pushAttestation hex) fun p => [attestationNode hex p] :=
  pushNode_addsNodes (attestationNode hex) fun p => ⟨.attestedBy, hex, (attestationNode hex p).id, []⟩

theorem pushSpan_addsNodes (source : String) : AddsNodes (pushSpan source) fun span => [docNode span.documentId] :=
  ⟨fun g span => pushCorpusDoc_addsNodes.kept g span.documentId,
    fun g span => pushCorpusDoc_addsNodes.sound g span.documentId,
    fun g span => pushCorpusDoc_addsNodes.keyed g span.documentId⟩

theorem pushIndexEntry_addsNodes (hex : String) :
    AddsNodes (pushIndexEntry hex) fun entry => entry.spans.flatMap fun span => [docNode span.documentId] :=
  ⟨fun g entry => (pushSpan_addsNodes _).foldl.kept g entry.spans,
    fun g entry => (pushSpan_addsNodes _).foldl.sound g entry.spans,
    fun g entry => (pushSpan_addsNodes _).foldl.keyed g entry.spans⟩

theorem AddsNodes.andThen {α : Type} {step step' : Graph → α → Graph} {nodes nodes' : α → List Node}
    (h : AddsNodes step nodes) (h' : AddsNodes step' nodes') :
    AddsNodes (fun g a => step' (step g a) a) (fun a => nodes a ++ nodes' a) := by
  refine ⟨fun g a => (h.kept g a).trans (h'.kept _ a), fun g a n hn => ?_, fun g a n hn => ?_⟩
  · rw [List.mem_append]
    rcases h'.sound _ a n hn with hn | hn
    · exact (h.sound g a n hn).imp_right .inl
    · exact .inr (.inr hn)
  · rcases List.mem_append.1 hn with hn | hn
    · obtain ⟨m, hm, hkey⟩ := h.keyed g a n hn
      exact ⟨m, (h'.kept _ a).subset hm, hkey⟩
    · exact h'.keyed _ a n hn

theorem pushRule_addsNodes (hex : String) :
    AddsNodes (pushRule hex) fun rule => [ruleNode hex rule, docNode rule.source.documentId] := by
  have hrule := pushNode_addsNodes (ruleNode hex) fun rule => ⟨.contains, hex, (ruleNode hex rule).id, []⟩
  have hdoc : AddsNodes (fun g rule => (g.pushCorpusDoc rule.source.documentId).pushEdge
    ⟨.cites, (ruleNode hex rule).id,
      rule.source.documentId, locatorProps rule.source.article rule.source.section_⟩) fun rule : RuleIR =>
        [docNode rule.source.documentId] :=
    ⟨fun g rule => pushCorpusDoc_addsNodes.kept g rule.source.documentId,
      fun g rule => pushCorpusDoc_addsNodes.sound g rule.source.documentId,
      fun g rule => pushCorpusDoc_addsNodes.keyed g rule.source.documentId⟩
  exact hrule.andThen hdoc

/-- The nodes of a graph, up to those that share a key. -/
structure Lists (nodes : List Node) (g : Graph) : Prop where
  sound : ∀ n ∈ g.nodes, n ∈ nodes
  keyed : ∀ n ∈ nodes, ∃ m ∈ g.nodes, m.key = n.key

theorem Lists.step {α : Type} {step : Graph → α → Graph} {nodes : α → List Node} {listed : List Node} {g : Graph}
    (h : Lists listed g) (hstep : AddsNodes step nodes) (a : α) : Lists (listed ++ nodes a) (step g a) := by
  constructor
  · intro n hn
    rw [List.mem_append]
    exact (hstep.sound g a n hn).imp_left (h.sound n)
  · intro n hn
    rcases List.mem_append.1 hn with hn | hn
    · obtain ⟨m, hm, hkey⟩ := h.keyed n hn
      exact ⟨m, (hstep.kept g a).subset hm, hkey⟩
    · exact hstep.keyed g a n hn

/-- An artifact's graph has the nodes of the artifact. -/
theorem extractGraph_lists (a : Artifact) : Lists (nodesOf a) (extractGraph a) := by
  have hbase : Lists [artifactNode a, ⟨.regime, a.manifest.regimeId, []⟩]
    ⟨[artifactNode a, ⟨.regime, a.manifest.regimeId, []⟩],
      [⟨.inRegime, Artifact.hex a, a.manifest.regimeId, []⟩]⟩ := ⟨fun _ hn => hn, fun n hn => ⟨n, hn, rfl⟩⟩
  have hattested := hbase.step (pushAttestation_addsNodes (Artifact.hex a)).foldl a.attestations.zipIdx
  rw [← List.map_eq_flatMap] at hattested
  unfold extractGraph nodesOf
  cases hpayload : a.payload with
  | rules rules =>
    have hrules := hattested.step (pushRule_addsNodes (Artifact.hex a)).foldl rules
    have hindex := hrules.step (pushIndexEntry_addsNodes (Artifact.hex a)).foldl a.sourceSpanIndex.entries
    simp only [← List.map_eq_flatMap, List.append_assoc] at hindex
    exact hindex
  | intentSpec spec =>
    have hintent := hattested.step (pushNode_addsNodes (intentNode (Artifact.hex a)) fun spec =>
      ⟨.contains, Artifact.hex a, (intentNode (Artifact.hex a) spec).id, []⟩) spec
    have hspans := hintent.step (pushSpan_addsNodes (intentNode (Artifact.hex a) spec).id).foldl spec.sourceSpans
    simp only [← List.map_eq_flatMap, List.append_assoc] at hspans
    exact hspans

theorem extractGraph_edges (a : Artifact) : (extractGraph a).edges = edgesOf a := by
  unfold extractGraph edgesOf
  cases hpayload : a.payload with
  | rules rules =>
    simp only
    rw [(pushIndexEntry_adds _).foldl.edges_eq, (pushRule_adds _).foldl.edges_eq,
      (pushAttestation_adds _).foldl.edges_eq]
    simp only [← List.map_eq_flatMap, List.append_assoc]
    rfl
  | intentSpec spec =>
    simp only [pushIntentSpec]
    rw [(pushSpan_adds _).foldl.edges_eq]
    simp only [Graph.pushEdge, Graph.pushNode]
    rw [(pushAttestation_adds _).foldl.edges_eq]
    simp only [← List.map_eq_flatMap, List.append_assoc]
    rfl

/-! ## Projections -/

/-- The edges among the rules of an artifact. -/
def conflictsOf (a : Artifact) : List Edge := conflictEdges (Artifact.hex a) a.rules

theorem project_nodes (hex : String) (a : Artifact) : (project hex a).nodes = (extractGraph a).nodes := by
  unfold project
  cases a.payload <;> rfl

theorem project_edges (a : Artifact) : (project (Artifact.hex a) a).edges = edgesOf a ++ conflictsOf a := by
  unfold project conflictsOf Artifact.rules
  rw [← extractGraph_edges]
  cases a.payload with
  | rules rules => rfl
  | intentSpec spec => exact (List.append_nil _).symm

theorem conflictsBetween_ruleIds {ra rb : RuleIR} {c : T4.Conflict} (h : c ∈ T4.conflictsBetween ra rb) :
    c.ruleIds = [ra.ruleId, rb.ruleId] := by
  unfold T4.conflictsBetween at h
  simp only at h
  split at h
  · rw [List.mem_singleton.1 h]
    rfl
  · split at h
    · rcases List.mem_append.1 h with h | h
      · split at h
        · rw [List.mem_singleton.1 h]
          rfl
        · rw [List.mem_singleton.1 h]
          rfl
      · split at h
        · rw [List.mem_singleton.1 h]
          rfl
        · cases h
    · cases h

/-- A conflict is between rules of the artifact. -/
theorem mem_conflictsOf {a : Artifact} {e : Edge} (h : e ∈ conflictsOf a) : e.label = .conflictsWith ∧
    ∃ ra ∈ a.rules, ∃ rb ∈ a.rules, e.from = T4.ruleNodeId (Artifact.hex a) ra.ruleId ∧
      e.to = T4.ruleNodeId (Artifact.hex a) rb.ruleId := by
  obtain ⟨c, hc, rfl⟩ := List.mem_map.1 h
  obtain ⟨conflict, hconflict, rfl⟩ := List.mem_map.1 hc
  obtain ⟨⟨ra, rb⟩, hp, hbetween⟩ := List.mem_flatMap.1 hconflict
  obtain ⟨hra, hrb⟩ := T4.mem_of_mem_pairs hp
  have hperm := perm_sortBy compare conflict.ruleIds
  have hmem : ∀ id ∈ sortBy compare conflict.ruleIds, ∃ r ∈ a.rules, id = r.ruleId := by
    intro id hid
    rw [hperm.mem_iff, conflictsBetween_ruleIds hbetween, List.mem_cons, List.mem_singleton] at hid
    rcases hid with rfl | rfl
    · exact ⟨ra, hra, rfl⟩
    · exact ⟨rb, hrb, rfl⟩
  have hends : ∀ ids : List String, ids ≠ [] → ids.headD "" ∈ ids ∧ ids.getLastD "" ∈ ids := by
    intro ids hne
    cases ids with
    | nil => exact absurd rfl hne
    | cons first rest => exact ⟨List.mem_cons_self, by rw [List.getLastD_cons]; exact List.getLastD_mem_cons⟩
  have hne : sortBy compare conflict.ruleIds ≠ [] := by
    intro hnil
    rw [hnil, conflictsBetween_ruleIds hbetween] at hperm
    cases hperm.nil_eq
  obtain ⟨r, hr, hfirst⟩ := hmem _ (hends _ hne).1
  obtain ⟨r', hr', hlast⟩ := hmem _ (hends _ hne).2
  exact ⟨rfl, r, hr, r', hr', congrArg (T4.ruleNodeId (Artifact.hex a)) hfirst,
    congrArg (T4.ruleNodeId (Artifact.hex a)) hlast⟩

end Ke.Export
