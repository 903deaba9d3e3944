/-
The exported script against the graph: what loading it on an empty store leaves, and what an amended article
reaches there. A relationship is identified by its type and its ends, so edges that differ in their article
only are one relationship, with the article of the last.
-/
import KeEngine.Cypher.Load
import KeEngine.Export.Identity

namespace Ke.Export

open Ke Wire Cypher Registry

/-! ## Blast radius -/

def citesDocument (documentId : String) (article : Option String) (edge : Edge) : Bool :=
  (edge.label = .cites || edge.label = .spans) && edge.to = documentId &&
    article.all fun a => edge.props.any fun kv => kv.1 == "article" && kv.2 == a

/-- What amending a document, or an article of it, reaches: what cites it, the artifacts that contain that, and
their attestations. Sorted, each once. -/
def blastRadius (graph : Graph) (documentId : String) (article : Option String) : List String :=
  let citing := (graph.edges.filter (citesDocument documentId article)).map (·.from)
  let artifacts := (graph.edges.filter fun e => e.label = .contains && citing.contains e.to).map (·.from)
  let attestations := (graph.edges.filter fun e => e.label = .attestedBy && artifacts.contains e.from).map (·.to)
  sortDedup (citing ++ artifacts ++ attestations)

section

variable {A : Type}

def citesOnStore (s : Store A) (documentId : String) (article : Option String) (r : StoredRel A) : Bool :=
  (r.type == "CITES" || r.type == "SPANS") && (s.nodes[r.target]?.any fun n => hasText n.props "id" documentId) &&
    article.all fun a => hasText r.props "article" a

/-- The same on a store, hop by hop: `MATCH (n)-[c:CITES|SPANS]->({id: documentId})`, with `c.article` as asked,
then `(a)-[:CONTAINS]->(n)` and `(a)-[:ATTESTED_BY]->(t)` where there are any; the ids of all. -/
def blastQuery (s : Store A) (documentId : String) (article : Option String) : List (Option (Value A)) :=
  let citing := (s.rels.filter (citesOnStore s documentId article)).map (·.source)
  let artifacts := (s.rels.filter fun r => r.type == "CONTAINS" && citing.contains r.target).map (·.source)
  let attestations := (s.rels.filter fun r => r.type == "ATTESTED_BY" && artifacts.contains r.source).map (·.target)
  (citing ++ artifacts ++ attestations).map (s.idAt "id")

end

/-- The script loads to the graph and nothing else, and every blast radius is the same on both. -/
structure LoadsFaithfully (A : Type) (g : Graph) : Prop where
  loads : ∃ s : Store A, execText "id" .empty (renderCypher g) = some s ∧
    Holds "id" s (g.nodes.map (·.merge)) (g.edges.map (·.merge)) ∧
      ∀ documentId article v, some (.text v) ∈ blastQuery s documentId article ↔ v ∈ blastRadius g documentId article

/-! ## The properties of exported graphs -/

/-- Property names that are names, not `id`, and no two of them the same. -/
def plainNames (names : List String) : Bool := decide names.Nodup && names.all fun k => isName k && k != "id"

def Plain (props : List (String × String)) : Prop := plainNames (props.map (·.1)) = true

theorem plain_locatorProps (article section_ : Option String) : Plain (locatorProps article section_) := by
  unfold Plain
  cases article with
  | none =>
    cases section_ with
    | none =>
      show plainNames [] = true
      decide
    | some section_ =>
      show plainNames ["section"] = true
      decide
  | some article =>
    cases section_ with
    | none =>
      show plainNames ["article"] = true
      decide
    | some section_ =>
      show plainNames ["article", "section"] = true
      decide

theorem plain_of_mem_nodesOf {a : Artifact} {n : Node} (h : n ∈ nodesOf a) : Plain n.props := by
  unfold Plain
  rcases mem_nodesOf.1 h with rfl | ⟨d, -, rfl⟩ | h
  · show plainNames [] = true
    decide
  · show plainNames [] = true
    decide
  · rcases mem_ownNodes.1 h with rfl | ⟨p, -, rfl⟩ | ⟨rules, -, rule, -, rfl⟩ | ⟨spec, -, rfl⟩
    · show plainNames ["kind", "regime_id"] = true
      decide
    · show plainNames ["type", "signer_key_id"] = true
      decide
    · show plainNames ["rule_id"] = true
      decide
    · show plainNames ["action_class", "criteria_count"] = true
      decide

theorem plain_of_mem_edgesOf {a : Artifact} {e : Edge} (h : e ∈ edgesOf a) : Plain e.props := by
  have hnil : Plain [] := by
    unfold Plain
    decide
  cases edge_of_mem_edgesOf h with
  | inRegime => exact hnil
  | attestedBy => exact hnil
  | contains => exact hnil
  | cites => exact plain_locatorProps _ _
  | spans => exact plain_locatorProps _ _
  | intentSpans => exact plain_locatorProps _ _

theorem plain_of_mem_conflictsOf {a : Artifact} {e : Edge} (h : e ∈ conflictsOf a) : Plain e.props := by
  obtain ⟨c, hc, rfl⟩ := List.mem_map.1 h
  obtain ⟨conflict, -, rfl⟩ := List.mem_map.1 hc
  show plainNames ["class", "severity"] = true
  decide

/-- A graph all of whose properties have plain names. -/
structure Graph.Plain (g : Graph) : Prop where
  nodes : ∀ n ∈ g.nodes, Export.Plain n.props
  edges : ∀ e ∈ g.edges, Export.Plain e.props

theorem buildGraph_plain (artifacts : List Artifact) : (buildGraph artifacts).Plain := by
  constructor
  · intro n hn
    obtain ⟨a, -, hn⟩ := (buildGraph_lists artifacts).1 n hn
    exact plain_of_mem_nodesOf hn
  · intro e he
    obtain ⟨a, -, he | he⟩ := mem_buildGraph_edges.1 he
    · exact plain_of_mem_edgesOf he
    · exact plain_of_mem_conflictsOf he

section

variable {g : Graph}

theorem plain_iff {props : List (String × String)} :
    Plain props ↔ (props.map (·.1)).Nodup ∧ ∀ kv ∈ props, isName kv.1 = true ∧ kv.1 ≠ "id" := by
  unfold Plain plainNames
  simp only [Bool.and_eq_true, decide_eq_true_iff, List.all_eq_true, bne_iff_ne, List.forall_mem_map]

theorem Graph.Plain.named (h : g.Plain) : g.Named where
  nodes := fun n hn kv hkv => ((plain_iff.1 (h.nodes n hn)).2 kv hkv).1
  edges := fun e he kv hkv => ((plain_iff.1 (h.edges e he)).2 kv hkv).1

theorem Graph.Plain.loadable (h : g.Plain) (hunique : (g.nodes.map (·.id)).Nodup) :
    Loadable "id" (g.nodes.map (·.merge)) (g.edges.map (·.merge)) := by
  refine ⟨by rwa [List.map_map], fun m hm => ?_, fun m hm => ?_⟩
  · obtain ⟨n, hn, rfl⟩ := List.mem_map.1 hm
    obtain ⟨hnodup, hnames⟩ := plain_iff.1 (h.nodes n hn)
    refine List.nodup_cons.2 ⟨fun hid => ?_, hnodup⟩
    obtain ⟨kv, hkv, heq⟩ := List.mem_map.1 hid
    exact (hnames kv hkv).2 heq
  · obtain ⟨e, he, rfl⟩ := List.mem_map.1 hm
    exact (plain_iff.1 (h.edges e he)).1

end

/-! ## Blast radius on the store -/

theorem name_beq (l : EdgeLabel) :
    (l.name == "CITES" || l.name == "SPANS") = (decide (l = .cites) || decide (l = .spans)) ∧
      (l.name == "CONTAINS") = decide (l = .contains) ∧ (l.name == "ATTESTED_BY") = decide (l = .attestedBy) := by
  cases l <;> decide

section

variable {A : Type} {g : Graph}

/-- Where every edge has a relationship of its own, a hop over the relationships goes where the hop over the
edges goes. -/
theorem hop_stored {ids : List String} {p : StoredRel A → Bool} {q : Edge → Bool} {i : StoredRel A → Nat}
    {id : Edge → String}
    (hpick : ∀ e ∈ g.edges, p (e.merge.stored ids) = q e)
    (hend : ∀ e : Edge, i (e.merge.stored ids) = ids.idxOf (id e)) :
    (((g.edges.map (·.merge)).map (·.stored ids)).filter p).map i = ((g.edges.filter q).map id).map ids.idxOf := by
  rw [List.map_map, List.filter_map, List.map_map, List.map_map, ← List.filter_congr hpick]
  exact List.map_congr_left fun e _ => hend e

/-- Positions of nodes are as far apart as their ids. -/
theorem contains_idxOf {ids names : List String} {id : String} (h : id ∈ ids) :
    (names.map ids.idxOf).contains (ids.idxOf id) = names.contains id := by
  rw [Bool.eq_iff_iff, List.contains_iff_mem, List.contains_iff_mem, List.mem_map]
  constructor
  · rintro ⟨name, hname, heq⟩
    rwa [(List.idxOf_inj h).1 heq.symm]
  · exact fun hid => ⟨id, hid, rfl⟩

/-- An edge cites the document exactly when its relationship does. -/
theorem citesOnStore_stored {s : Store A} {ids : List String} {e : Edge}
    (hnodes : s.nodes = (g.nodes.map (·.merge)).map (·.stored "id")) (hids : (g.nodes.map (·.merge)).map (·.id) = ids)
    (hplain : Plain e.props) (hto : e.to ∈ ids) (documentId : String) (article : Option String) :
    citesOnStore s documentId article (e.merge.stored ids) = citesDocument documentId article e := by
  have hdocument : (s.nodes[ids.idxOf e.to]?.any fun n => hasText n.props "id" documentId) =
      decide (e.to = documentId) := by
    rw [hnodes, Bool.eq_iff_iff, picked_iff, hids, decide_eq_true_iff, List.getElem?_idxOf hto, Option.some.injEq]
  have harticle : ∀ a, hasText (propsOf e.props : Props A) "article" a =
      e.props.any fun kv => kv.1 == "article" && kv.2 == a := fun a => hasText_propsOf (plain_iff.1 hplain).1
  unfold citesOnStore citesDocument
  rw [show (e.merge.stored ids : StoredRel A).type = e.label.name from rfl, (name_beq e.label).1,
    show (e.merge.stored ids : StoredRel A).target = ids.idxOf e.to from rfl, hdocument,
    show (e.merge.stored ids : StoredRel A).props = propsOf e.props from rfl]
  simp only [harticle]

/-! The three hops of a blast radius over the edges. -/

def citingIds (g : Graph) (documentId : String) (article : Option String) : List String :=
  (g.edges.filter (citesDocument documentId article)).map (·.from)

def containingIds (g : Graph) (citing : List String) : List String :=
  (g.edges.filter fun e => decide (e.label = .contains) && citing.contains e.to).map (·.from)

def attestingIds (g : Graph) (artifacts : List String) : List String :=
  (g.edges.filter fun e => decide (e.label = .attestedBy) && artifacts.contains e.from).map (·.to)

theorem containing_stored {ids : List String} (hto : ∀ e ∈ g.edges, e.to ∈ ids) (citing : List String) :
    ((((g.edges.map (·.merge)).map (·.stored ids) : List (StoredRel A)).filter fun r =>
      r.type == "CONTAINS" && (citing.map ids.idxOf).contains r.target).map (·.source)) =
        (containingIds g citing).map ids.idxOf := by
  refine hop_stored (fun e he => ?_) fun _ => rfl
  rw [← contains_idxOf (hto e he), ← (name_beq e.label).2.1]
  rfl

theorem attesting_stored {ids : List String} (hfrom : ∀ e ∈ g.edges, e.from ∈ ids) (artifacts : List String) :
    ((((g.edges.map (·.merge)).map (·.stored ids) : List (StoredRel A)).filter fun r =>
      r.type == "ATTESTED_BY" && (artifacts.map ids.idxOf).contains r.source).map (·.target)) =
        (attestingIds g artifacts).map ids.idxOf := by
  refine hop_stored (fun e he => ?_) fun _ => rfl
  rw [← contains_idxOf (hfrom e he), ← (name_beq e.label).2.2]
  rfl

/-- Every hop ends at an end of an edge. -/
theorem mem_ids_of_hops {ids : List String} (hends : ∀ e ∈ g.edges, e.from ∈ ids ∧ e.to ∈ ids) {documentId : String}
    {article : Option String} {citing artifacts : List String} {id : String}
    (h : id ∈ citingIds g documentId article ++ containingIds g citing ++ attestingIds g artifacts) : id ∈ ids := by
  rcases List.mem_append.1 h with h | h
  · rcases List.mem_append.1 h with h | h
    · obtain ⟨e, he, rfl⟩ := List.mem_map.1 h
      exact (hends e (List.mem_filter.1 he).1).1
    · obtain ⟨e, he, rfl⟩ := List.mem_map.1 h
      exact (hends e (List.mem_filter.1 he).1).1
  · obtain ⟨e, he, rfl⟩ := List.mem_map.1 h
    exact (hends e (List.mem_filter.1 he).1).2

/-- Whatever is asked, a query answers the ids that the graph answers. -/
theorem blastQuery_load (hplain : g.Plain) {s : Store A}
    (hnodes : s.nodes = (g.nodes.map (·.merge)).map (·.stored "id"))
    (hrels : s.rels = (g.edges.map (·.merge)).map (·.stored ((g.nodes.map (·.merge)).map (·.id))))
    (hends : ∀ e ∈ g.edges, e.from ∈ (g.nodes.map (·.merge)).map (·.id) ∧ e.to ∈ (g.nodes.map (·.merge)).map (·.id))
    (documentId : String) (article : Option String) (v : String) :
    some (.text v) ∈ blastQuery s documentId article ↔ v ∈ blastRadius g documentId article := by
  generalize hids : (g.nodes.map (·.merge)).map (·.id) = ids at hrels hends
  -- each hop picks the positions of the ids that the graph picks
  have hfirst : (s.rels.filter (citesOnStore s documentId article)).map (·.source) =
      (citingIds g documentId article).map ids.idxOf := by
    rw [hrels]
    refine hop_stored (fun e he => ?_) fun _ => rfl
    exact citesOnStore_stored hnodes hids (hplain.edges e he) (hends e he).2 documentId article
  have hquery : blastQuery s documentId article =
      (citingIds g documentId article ++ containingIds g (citingIds g documentId article) ++
        attestingIds g (containingIds g (citingIds g documentId article))).map
          fun id => s.idAt "id" (ids.idxOf id) := by
    unfold blastQuery
    rw [hfirst, hrels]
    simp only [containing_stored fun e he => (hends e he).2, attesting_stored fun e he => (hends e he).1]
    rw [← List.map_append, ← List.map_append, List.map_map]
    rfl
  have hat : ∀ {id : String}, id ∈ ids → s.idAt "id" (ids.idxOf id) = some (.text id) := by
    intro id hid
    rw [← hids] at hid ⊢
    exact idAt_idxOf hnodes hid
  rw [hquery, show blastRadius g documentId article = sortDedup (citingIds g documentId article ++
      containingIds g (citingIds g documentId article) ++
        attestingIds g (containingIds g (citingIds g documentId article))) from rfl,
    mem_sortDedup, List.mem_map]
  constructor
  · rintro ⟨id, hid, hanswer⟩
    rw [hat (mem_ids_of_hops hends hid)] at hanswer
    cases hanswer
    exact hid
  · exact fun hv => ⟨v, hv, hat (mem_ids_of_hops hends hv)⟩

end

/-! ## Faithful loads -/

/-- Every edge is between nodes, and no two of one label go from one node to another. -/
structure Graph.Simple (g : Graph) : Prop where
  ends : ∀ e ∈ g.edges, e.from ∈ g.nodes.map (·.id) ∧ e.to ∈ g.nodes.map (·.id)
  distinct : (g.edges.map fun e => (e.label, e.from, e.to)).Nodup

theorem name_injective : Function.Injective EdgeLabel.name := by
  intro l l' h
  cases l <;> cases l' <;> first | rfl | exact absurd h (by decide)

section

variable {A : Type} {g : Graph}

theorem merge_ids : (g.nodes.map (·.merge)).map (·.id) = g.nodes.map (·.id) := List.map_map

theorem simple_iff : g.Simple ↔
    (∀ m ∈ g.edges.map (·.merge), m.source ∈ (g.nodes.map (·.merge)).map (·.id) ∧
      m.target ∈ (g.nodes.map (·.merge)).map (·.id)) ∧
      ((g.edges.map (·.merge)).map (·.ends)).Nodup := by
  have hends : (g.edges.map (·.merge)).map (·.ends) =
      (g.edges.map fun e => (e.label, e.from, e.to)).map (Prod.map EdgeLabel.name id) := by
    rw [List.map_map, List.map_map]
    rfl
  rw [List.forall_mem_map, merge_ids, hends, List.nodup_map_iff (name_injective.prodMap Function.injective_id)]
  exact ⟨fun h => ⟨h.ends, h.distinct⟩, fun h => ⟨h.1, h.2⟩⟩

/-- A graph with ids for keys is loaded as it is exactly when it is simple. -/
theorem Graph.Plain.faithful_iff (h : g.Plain) (hunique : (g.nodes.map (·.id)).Nodup) :
    LoadsFaithfully A g ↔ g.Simple := by
  have hloadable := h.loadable hunique
  rw [simple_iff]
  constructor
  · rintro ⟨s, hexec, hholds, -⟩
    rw [execText_renderCypher h.named] at hexec
    cases hexec
    exact (holds_load_iff hloadable).1 hholds
  · intro hsimple
    refine ⟨_, execText_renderCypher h.named _, (holds_load_iff hloadable).2 hsimple, ?_⟩
    have hload : execAll "id" (.empty : Store A) g.script = _ := load_empty hloadable
    rw [load_rels hloadable hsimple.1 hsimple.2] at hload
    rw [hload]
    exact blastQuery_load h rfl rfl fun e he => hsimple.1 e.merge (List.mem_map_of_mem he)

end

/-- The graph of artifacts, when an id is that of one node, is loaded as it is exactly when it is simple. -/
theorem loadsFaithfully_iff {A : Type} (artifacts : List Artifact)
    (hunique : ((buildGraph artifacts).nodes.map (·.id)).Nodup) :
    LoadsFaithfully A (buildGraph artifacts) ↔ (buildGraph artifacts).Simple :=
  (buildGraph_plain artifacts).faithful_iff hunique

theorem loadsFaithfully_iff_citing :
    LoadsFaithfully Unit (buildGraph [citingArtifact]) ↔ (buildGraph [citingArtifact]).Simple :=
  loadsFaithfully_iff _ (by decide +kernel)

/-- The intent cites two articles of one document, and the load leaves one of the two. -/
theorem articles_overwritten : ∃ a,
    admitArtifact standIn (runAll standIn (spannedLife "us") .empty) (spannedHash "us") "local" 3 = .ok (.verified a) ∧
      ((buildGraph [a]).nodes.map (·.id)).Nodup ∧ ¬ LoadsFaithfully Unit (buildGraph [a]) := by
  have hrun : ((admitArtifact standIn (runAll standIn (spannedLife "us") .empty) (spannedHash "us") "local"
    3).toOption.any
      fun
      | .verified a => decide (((buildGraph [a]).nodes.map (·.id)).Nodup ∧
          ¬ ((buildGraph [a]).edges.map fun e => (e.label, e.from, e.to)).Nodup)
      | .refused _ => false) = true := by
    decide +kernel
  obtain ⟨admission, hadmission, hgraph⟩ := exists_ok_and hrun
  cases admission with
  | refused reason => cases hgraph
  | verified a =>
    obtain ⟨hunique, htwice⟩ := of_decide_eq_true hgraph
    refine ⟨a, hadmission, hunique, fun hfaithful => ?_⟩
    exact htwice (((buildGraph_plain [a]).faithful_iff hunique).1 hfaithful).distinct

end Ke.Export
