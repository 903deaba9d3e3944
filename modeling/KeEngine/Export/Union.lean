/-
Merging as a union. A node that several artifacts have is the same in all of them, its properties with it, so
the graph of artifacts with different hashes has the nodes and the edges of each, whatever the order and
however often one is merged, and what the oracles answer is a function of these sets.
-/
import KeEngine.Export.Exposure
import KeEngine.Export.Faithful

namespace Ke.Export

open Ke Wire Registry Relation

def Graph.nodeSet (g : Graph) : Set Node := {n | n ∈ g.nodes}

def Graph.edgeSet (g : Graph) : Set Edge := {e | e ∈ g.edges}

/-- A graph has the nodes and the edges of the projections, each once. -/
structure UnionOf (artifacts : List Artifact) (g : Graph) : Prop where
  nodes : g.nodeSet = ⋃ a ∈ artifacts, (project (Artifact.hex a) a).nodeSet
  edges : g.edgeSet = ⋃ a ∈ artifacts, (project (Artifact.hex a) a).edgeSet
  nodup_nodes : g.nodes.Nodup
  nodup_edges : g.edges.Nodup

/-- Graphs with the same nodes and the same edges. -/
structure SameSets (g h : Graph) : Prop where
  nodes : ∀ n, n ∈ g.nodes ↔ n ∈ h.nodes
  edges : ∀ e, e ∈ g.edges ↔ e ∈ h.edges

/-! ## Keys -/

section

variable {a b : Artifact} {n m : Node}

/-- A key is that of one node of an artifact. -/
theorem eq_of_own_key (hn : n ∈ ownNodes a) (hm : m ∈ ownNodes a) (hkey : n.key = m.key) : n = m := by
  have hid : n.id = m.id := congrArg Prod.snd hkey
  have hlabel : n.label = m.label := congrArg Prod.fst hkey
  rcases mem_ownNodes.1 hn with rfl | ⟨p, hp, rfl⟩ | ⟨rules, hpayload, rule, hrule, rfl⟩ | ⟨spec, hpayload, rfl⟩
  all_goals rcases mem_ownNodes.1 hm with rfl | ⟨p', hp', rfl⟩ | ⟨rules', hpayload', rule', hrule', rfl⟩ |
    ⟨spec', hpayload', rfl⟩
  -- two kinds have two labels
  all_goals cases hlabel
  · rfl
  · have hindex : p.2 = p'.2 := by
      have hcancel : toString p.2 = toString p'.2 := append_right_cancel hid
      exact Nat.repr_injective hcancel
    -- one index, so one attestation
    have hget := List.mem_zipIdx_iff_getElem?.1 hp
    rw [hindex, List.mem_zipIdx_iff_getElem?.1 hp'] at hget
    rw [show p = p' from Prod.ext (Option.some.inj hget).symm hindex]
  · have hrule : rule.ruleId = rule'.ruleId := append_right_cancel hid
    show (⟨.rule, _, [("rule_id", rule.ruleId)]⟩ : Node) = ⟨.rule, _, [("rule_id", rule'.ruleId)]⟩
    rw [hrule]
  -- an artifact has one intent
  · rw [hpayload] at hpayload'
    cases hpayload'
    rfl

/-- What the two artifacts share has the same properties in both. -/
theorem eq_of_key (hhash : a.manifest.artifactHash = b.manifest.artifactHash → a = b) (hn : n ∈ nodesOf a)
    (hm : m ∈ nodesOf b) (hkey : n.key = m.key) : n = m := by
  have hid : n.id = m.id := congrArg Prod.snd hkey
  have hlabel : n.label = m.label := congrArg Prod.fst hkey
  rcases mem_nodesOf.1 hn with rfl | ⟨d, -, rfl⟩ | hn
  · rcases mem_nodesOf.1 hm with rfl | ⟨d, -, rfl⟩ | hm
    · exact congrArg (Node.mk .regime · []) hid
    · cases hlabel
    · exact absurd hlabel.symm (label_of_mem_ownNodes hm).1
  · rcases mem_nodesOf.1 hm with rfl | ⟨d', -, rfl⟩ | hm
    · cases hlabel
    · exact congrArg docNode hid
    · exact absurd hlabel.symm (label_of_mem_ownNodes hm).2
  · rcases mem_nodesOf.1 hm with rfl | ⟨d, -, rfl⟩ | hm
    · exact absurd hlabel (label_of_mem_ownNodes hn).1
    · exact absurd hlabel (label_of_mem_ownNodes hn).2
    · rw [hhash (hash_of_own_id hn hm hid)] at hn
      exact eq_of_own_key hn hm hkey

end

/-! ## The union -/

section

variable {artifacts again : List Artifact}

/-- Every node of the projections is in the graph, as it is. -/
theorem mem_buildGraph_nodes (hhash : ∀ a ∈ artifacts, ∀ b ∈ artifacts,
    a.manifest.artifactHash = b.manifest.artifactHash → a = b) {n : Node} :
    n ∈ (buildGraph artifacts).nodes ↔ ∃ a ∈ artifacts, n ∈ (project (Artifact.hex a) a).nodes := by
  have hmerged := buildGraph_merged artifacts
  constructor
  · intro hn
    obtain ⟨g, hg, hn⟩ := hmerged.sound n hn
    obtain ⟨a, ha, rfl⟩ := List.mem_map.1 hg
    exact ⟨a, ha, hn⟩
  · rintro ⟨a, ha, hn⟩
    obtain ⟨m, hm, hkey⟩ := hmerged.keyed _ (List.mem_map_of_mem ha) n hn
    obtain ⟨b, hb, hmb⟩ := (buildGraph_lists artifacts).1 m hm
    rw [project_nodes] at hn
    rwa [← eq_of_key (hhash b hb a ha) hmb ((extractGraph_lists a).sound n hn) hkey]

theorem buildGraph_union (hhash : ∀ a ∈ artifacts, ∀ b ∈ artifacts,
    a.manifest.artifactHash = b.manifest.artifactHash → a = b) : UnionOf artifacts (buildGraph artifacts) where
  nodes := by
    ext n
    rw [Set.mem_iUnion₂]
    exact (mem_buildGraph_nodes hhash).trans (exists_congr fun a => exists_prop.symm)
  edges := by
    ext e
    rw [Set.mem_iUnion₂]
    refine (buildGraph_merged artifacts).edges e |>.trans ?_
    simp only [List.mem_map, exists_exists_and_eq_and, exists_prop]
    rfl
  nodup_nodes := (buildGraph_merged artifacts).keys.of_map
  nodup_edges := (buildGraph_merged artifacts).nodup

/-- Merging the same artifacts in another order, or some of them again, is the same union. -/
theorem UnionOf.congr {g : Graph} (h : UnionOf again g) (hsame : ∀ a, a ∈ again ↔ a ∈ artifacts) :
    UnionOf artifacts g where
  nodes := by
    rw [h.nodes]
    simp only [hsame]
  edges := by
    rw [h.edges]
    simp only [hsame]
  nodup_nodes := h.nodup_nodes
  nodup_edges := h.nodup_edges

theorem UnionOf.sameSets {g h : Graph} (hg : UnionOf artifacts g) (hh : UnionOf artifacts h) : SameSets g h :=
  ⟨fun n => Set.ext_iff.1 (hg.nodes.trans hh.nodes.symm) n, fun e => Set.ext_iff.1 (hg.edges.trans hh.edges.symm) e⟩

/-- No two artifacts contain one thing, and none is in two regimes. -/
theorem buildGraph_placed (hhash : ∀ a ∈ artifacts, ∀ b ∈ artifacts,
    a.manifest.artifactHash = b.manifest.artifactHash → a = b) : Placed (buildGraph artifacts) := by
  -- the edge is one of an artifact that it starts at
  have hedge : ∀ e ∈ (buildGraph artifacts).edges, e.label ≠ .conflictsWith → ∃ a ∈ artifacts, EdgeOf a e := by
    intro e he hlabel
    obtain ⟨a, ha, he | he⟩ := mem_buildGraph_edges.1 he
    · exact ⟨a, ha, edge_of_mem_edgesOf he⟩
    · exact absurd (mem_conflictsOf he).1 hlabel
  constructor
  · intro e he e' he' hlabel hlabel' hto
    obtain ⟨a, -, hof⟩ := hedge e he (by rw [hlabel]; nofun)
    obtain ⟨b, -, hof'⟩ := hedge e' he' (by rw [hlabel']; nofun)
    cases hof with
    | contains hn =>
      cases hof' with
      | contains hm => exact congrArg hex32 (hash_of_own_id hn hm hto)
      | _ => cases hlabel'
    | _ => cases hlabel
  · intro e he e' he' hlabel hlabel' hfrom
    obtain ⟨a, ha, hof⟩ := hedge e he (by rw [hlabel]; nofun)
    obtain ⟨b, hb, hof'⟩ := hedge e' he' (by rw [hlabel']; nofun)
    cases hof with
    | inRegime =>
      cases hof' with
      | inRegime => rw [hhash a ha b hb (hex32_inj hfrom)]
      | _ => cases hlabel'
    | _ => cases hlabel

end

/-! ## The oracles -/

section

variable {g h : Graph}

/-- What a hop picks among more edges is more. -/
theorem hop_subset {p q : Edge → Bool} (id : Edge → String) (hedges : g.edges ⊆ h.edges) (hpick : ∀ e, p e → q e) :
    (g.edges.filter p).map id ⊆ (h.edges.filter q).map id := by
  refine List.map_subset id fun e he => ?_
  obtain ⟨he, hp⟩ := List.mem_filter.1 he
  exact List.mem_filter.2 ⟨hedges he, hpick e hp⟩

/-- More edges reach more. -/
theorem blastRadius_subset (hedges : g.edges ⊆ h.edges) (documentId : String) (article : Option String) :
    blastRadius g documentId article ⊆ blastRadius h documentId article := by
  have hciting : citingIds g documentId article ⊆ citingIds h documentId article := hop_subset _ hedges fun _ he => he
  have hartifacts : containingIds g (citingIds g documentId article) ⊆
      containingIds h (citingIds h documentId article) := by
    refine hop_subset _ hedges fun e he => ?_
    obtain ⟨hlabel, hto⟩ := Bool.and_eq_true_iff.1 he
    exact Bool.and_eq_true_iff.2 ⟨hlabel, List.contains_iff_mem.2 (hciting (List.contains_iff_mem.1 hto))⟩
  have hattestations : attestingIds g (containingIds g (citingIds g documentId article)) ⊆
      attestingIds h (containingIds h (citingIds h documentId article)) := by
    refine hop_subset _ hedges fun e he => ?_
    obtain ⟨hlabel, hfrom⟩ := Bool.and_eq_true_iff.1 he
    exact Bool.and_eq_true_iff.2 ⟨hlabel, List.contains_iff_mem.2 (hartifacts (List.contains_iff_mem.1 hfrom))⟩
  intro v hv
  refine mem_sortDedup.2 ?_
  rcases List.mem_append.1 (mem_sortDedup.1 hv) with hv | hv
  · rcases List.mem_append.1 hv with hv | hv
    · exact List.mem_append_left _ (List.mem_append_left _ (hciting hv))
    · exact List.mem_append_left _ (List.mem_append_right _ (hartifacts hv))
  · exact List.mem_append_right _ (hattestations hv)

theorem SameSets.blastRadius_eq (hsame : SameSets g h) (documentId : String) (article : Option String) :
    blastRadius g documentId article = blastRadius h documentId article := by
  have hgh := blastRadius_subset (fun e => (hsame.edges e).1) documentId article
  have hhg := blastRadius_subset (fun e => (hsame.edges e).2) documentId article
  refine sortDedup_congr fun v => ?_
  exact ⟨fun hv => mem_sortDedup.1 (hgh (mem_sortDedup.2 hv)), fun hv => mem_sortDedup.1 (hhg (mem_sortDedup.2 hv))⟩

theorem SameSets.exposed_iff (hsame : SameSets g h) {sourceRegime targetRegime id : String} :
    Exposed g sourceRegime targetRegime id ↔ Exposed h sourceRegime targetRegime id := by
  have hregime : InRegime g = InRegime h := by
    funext id regime
    simp only [InRegime, hsame.edges]
  have hlinked : Linked g = Linked h := by
    funext a b
    simp only [Linked, hsame.edges]
  simp only [Exposed, Reached, hregime, hlinked, hsame.nodes, hsame.edges]

/-- Where nothing has two places, the answer on both is the same. -/
theorem SameSets.exposure (hsame : SameSets g h) (hg : Placed g) (hh : Placed h) (sourceRegime targetRegime : String) :
    ∃ ids, Exposure g sourceRegime targetRegime ids ∧ Exposure h sourceRegime targetRegime ids := by
  obtain ⟨hops, hends, hhops⟩ := exposure_of_placed hg sourceRegime targetRegime
  obtain ⟨hops', hends', hhops'⟩ := exposure_of_placed hh sourceRegime targetRegime
  rw [← sortDedup_congr fun id => (hhops id).trans (hsame.exposed_iff.trans (hhops' id).symm)] at hends'
  exact ⟨_, hends, hends'⟩

end

/-- Artifacts with different hashes, merged in any order and any of them again: the graph is the union of
their projections and both oracles answer the same; and a further one, merged into any graph, takes nothing
from a blast radius. -/
theorem merge_union {artifacts : List Artifact}
    (hdistinct : (artifacts.map fun a => a.manifest.artifactHash).Nodup) :
    (∀ again : List Artifact, (∀ a, a ∈ again ↔ a ∈ artifacts) →
      UnionOf artifacts (buildGraph again) ∧ SameSets (buildGraph again) (buildGraph artifacts) ∧
        (∀ documentId article, blastRadius (buildGraph again) documentId article =
          blastRadius (buildGraph artifacts) documentId article) ∧
        ∀ sourceRegime targetRegime, ∃ ids, Exposure (buildGraph again) sourceRegime targetRegime ids ∧
          Exposure (buildGraph artifacts) sourceRegime targetRegime ids) ∧
      ∀ (g : Graph) (further : Artifact) documentId article,
        blastRadius g documentId article ⊆
          blastRadius (g.merge (project (Artifact.hex further) further)) documentId article := by
  have hhash : ∀ a ∈ artifacts, ∀ b ∈ artifacts, a.manifest.artifactHash = b.manifest.artifactHash → a = b :=
    fun a ha b hb => List.inj_on_of_nodup_map hdistinct ha hb
  constructor
  · intro again hsame
    have hagain : ∀ a ∈ again, ∀ b ∈ again, a.manifest.artifactHash = b.manifest.artifactHash → a = b :=
      fun a ha b hb => hhash a ((hsame a).1 ha) b ((hsame b).1 hb)
    have hunion := (buildGraph_union hagain).congr hsame
    have hsets := hunion.sameSets (buildGraph_union hhash)
    exact ⟨hunion, hsets, hsets.blastRadius_eq, hsets.exposure (buildGraph_placed hagain) (buildGraph_placed hhash)⟩
  · intro g further documentId article
    exact blastRadius_subset (fun e he => Graph.mem_merge_edges.2 (.inl he)) documentId article

/-- Two artifacts, and both merged in the other order with the second again. -/
theorem merge_union_citing :
    UnionOf [ghostArtifact, citingArtifact] (buildGraph [citingArtifact, ghostArtifact, citingArtifact]) ∧
      ∀ documentId article,
        blastRadius (buildGraph [citingArtifact, ghostArtifact, citingArtifact]) documentId article =
          blastRadius (buildGraph [ghostArtifact, citingArtifact]) documentId article := by
  obtain ⟨hunion, -, hblast, -⟩ := (@merge_union [ghostArtifact, citingArtifact] (by decide)).1
    [citingArtifact, ghostArtifact, citingArtifact] (by simp [or_comm])
  exact ⟨hunion, hblast⟩

end Ke.Export
