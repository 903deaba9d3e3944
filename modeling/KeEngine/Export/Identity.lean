/-
When the ids of a graph identify its nodes, and its edges end at nodes. An id that belongs to an artifact
begins with its hash, and no two artifacts share one; a regime or a document may have any id, also that of the
other or one that belongs to an artifact, and a rule may have the id that an attestation gets.
-/
import KeEngine.Export.Merge
import KeEngine.Registry.Agreement

namespace Ke.Export

open Ke Wire Registry

/-! ## Identity -/

/-- An id is that of one node, and every edge goes from a node to a node. -/
structure GraphIdentity (g : Graph) : Prop where
  unique : (g.nodes.map (·.id)).Nodup
  closed : ∀ e ∈ g.edges, (∃ n ∈ g.nodes, n.id = e.from) ∧ ∃ n ∈ g.nodes, n.id = e.to

/-! ## The names of an artifact -/

/-- The nodes that belong to an artifact: its own, its attestations', its rules' or its intent's. -/
def ownNodes (a : Artifact) : List Node :=
  artifactNode a :: (a.attestations.zipIdx.map (attestationNode (Artifact.hex a)) ++
    match a.payload with
    | .rules rules => rules.map (ruleNode (Artifact.hex a))
    | .intentSpec spec => [intentNode (Artifact.hex a) spec])

def ownNames (a : Artifact) : List String := (ownNodes a).map (·.id)

/-- The documents that an artifact cites. -/
def documentsOf (a : Artifact) : List String :=
  match a.payload with
  | .rules rules => rules.map (·.source.documentId) ++
      a.sourceSpanIndex.entries.flatMap fun entry => entry.spans.map (·.documentId)
  | .intentSpec spec => spec.sourceSpans.map (·.documentId)

/-- The names that an artifact has from outside. -/
def sharedNames (a : Artifact) : List String := a.manifest.regimeId :: documentsOf a

/-- The entries of the index that have spans; an intent's index is not read. -/
def spannedEntries (a : Artifact) : List SpanIndexEntry :=
  match a.payload with
  | .rules _ => a.sourceSpanIndex.entries.filter fun entry => entry.spans ≠ []
  | .intentSpec _ => []

/-- Regimes, documents and what belongs to artifacts have different names, no rule has the id of an
attestation, and the index names what has a name. -/
structure NamesApart (artifacts : List Artifact) : Prop where
  regimes : ∀ a ∈ artifacts, ∀ b ∈ artifacts, a.manifest.regimeId ∉ documentsOf b
  own : ∀ a ∈ artifacts, ∀ b ∈ artifacts, ∀ name ∈ sharedNames a, name ∉ ownNames b
  rules : ∀ a ∈ artifacts, ∀ rule ∈ a.rules, ∀ i < a.attestations.length, rule.ruleId ≠ s!"att:{i}"
  index : ∀ a ∈ artifacts, ∀ entry ∈ spannedEntries a, ∃ b ∈ artifacts,
    T4.ruleNodeId (Artifact.hex a) entry.ruleId ∈ sharedNames b ++ ownNames b

/-! ## Which nodes there are -/

section

variable {a b : Artifact} {n m : Node}

theorem mem_ownNodes : n ∈ ownNodes a ↔ n = artifactNode a ∨
    (∃ p ∈ a.attestations.zipIdx, n = attestationNode (Artifact.hex a) p) ∨
      (∃ rules, a.payload = .rules rules ∧ ∃ rule ∈ rules, n = ruleNode (Artifact.hex a) rule) ∨
        ∃ spec, a.payload = .intentSpec spec ∧ n = intentNode (Artifact.hex a) spec := by
  unfold ownNodes
  rw [List.mem_cons, List.mem_append, List.mem_map]
  cases a.payload with
  | rules rules => simp [eq_comm]
  | intentSpec spec => simp [eq_comm]

theorem mem_nodesOf : n ∈ nodesOf a ↔
    n = ⟨.regime, a.manifest.regimeId, []⟩ ∨ (∃ d ∈ documentsOf a, n = docNode d) ∨ n ∈ ownNodes a := by
  unfold nodesOf ownNodes documentsOf
  cases a.payload with
  | rules rules =>
    simp only [List.mem_cons, List.mem_append, List.mem_map, List.mem_flatMap, List.not_mem_nil, or_false]
    constructor
    · rintro (rfl | rfl | h | ⟨rule, hrule, rfl | rfl⟩ | ⟨entry, hentry, span, hspan, rfl⟩)
      · exact .inr (.inr (.inl rfl))
      · exact .inl rfl
      · exact .inr (.inr (.inr (.inl h)))
      · exact .inr (.inr (.inr (.inr ⟨rule, hrule, rfl⟩)))
      · exact .inr (.inl ⟨_, .inl ⟨rule, hrule, rfl⟩, rfl⟩)
      · exact .inr (.inl ⟨_, .inr ⟨entry, hentry, span, hspan, rfl⟩, rfl⟩)
    · rintro (rfl | ⟨d, ⟨rule, hrule, rfl⟩ | ⟨entry, hentry, span, hspan, rfl⟩, rfl⟩ | rfl | h | ⟨rule, hrule, rfl⟩)
      · exact .inr (.inl rfl)
      · exact .inr (.inr (.inr (.inl ⟨rule, hrule, .inr rfl⟩)))
      · exact .inr (.inr (.inr (.inr ⟨entry, hentry, span, hspan, rfl⟩)))
      · exact .inl rfl
      · exact .inr (.inr (.inl h))
      · exact .inr (.inr (.inr (.inl ⟨rule, hrule, .inl rfl⟩)))
  | intentSpec spec =>
    simp only [List.mem_cons, List.mem_append, List.mem_map, List.not_mem_nil, or_false]
    constructor
    · rintro (rfl | rfl | h | rfl | ⟨span, hspan, rfl⟩)
      · exact .inr (.inr (.inl rfl))
      · exact .inl rfl
      · exact .inr (.inr (.inr (.inl h)))
      · exact .inr (.inr (.inr (.inr rfl)))
      · exact .inr (.inl ⟨_, ⟨span, hspan, rfl⟩, rfl⟩)
    · rintro (rfl | ⟨d, ⟨span, hspan, rfl⟩, rfl⟩ | rfl | h | rfl)
      · exact .inr (.inl rfl)
      · exact .inr (.inr (.inr (.inr ⟨span, hspan, rfl⟩)))
      · exact .inl rfl
      · exact .inr (.inr (.inl h))
      · exact .inr (.inr (.inr (.inl rfl)))

/-- The edges of an artifact, by what each is for. -/
inductive EdgeOf (a : Artifact) : Edge → Prop
  | inRegime : EdgeOf a ⟨.inRegime, Artifact.hex a, a.manifest.regimeId, []⟩
  | attestedBy {p : Attestation × Nat} (h : p ∈ a.attestations.zipIdx) :
      EdgeOf a ⟨.attestedBy, Artifact.hex a, (attestationNode (Artifact.hex a) p).id, []⟩
  | contains {n : Node} (h : n ∈ ownNodes a) : EdgeOf a ⟨.contains, Artifact.hex a, n.id, []⟩
  | cites {rules : List RuleIR} {rule : RuleIR} (hpayload : a.payload = .rules rules) (h : rule ∈ rules) :
      EdgeOf a ⟨.cites, (ruleNode (Artifact.hex a) rule).id, rule.source.documentId,
        locatorProps rule.source.article rule.source.section_⟩
  | spans {rules : List RuleIR} {entry : SpanIndexEntry} {span : SourceSpan} (hpayload : a.payload = .rules rules)
      (hentry : entry ∈ a.sourceSpanIndex.entries) (h : span ∈ entry.spans) :
      EdgeOf a (spanEdge (T4.ruleNodeId (Artifact.hex a) entry.ruleId) span)
  | intentSpans {spec : IntentSpecIR} {span : SourceSpan} (hpayload : a.payload = .intentSpec spec)
      (h : span ∈ spec.sourceSpans) : EdgeOf a (spanEdge (intentNode (Artifact.hex a) spec).id span)

theorem edge_of_mem_edgesOf {e : Edge} (h : e ∈ edgesOf a) : EdgeOf a e := by
  unfold edgesOf at h
  rcases List.mem_cons.1 h with rfl | h
  · exact .inRegime
  rcases List.mem_append.1 h with h | h
  · obtain ⟨p, hp, rfl⟩ := List.mem_map.1 h
    exact .attestedBy hp
  cases hpayload : a.payload with
  | rules rules =>
    simp only [hpayload] at h
    rcases List.mem_append.1 h with h | h
    · obtain ⟨rule, hrule, he⟩ := List.mem_flatMap.1 h
      rcases List.mem_cons.1 he with rfl | he
      · exact .contains (mem_ownNodes.2 (.inr (.inr (.inl ⟨rules, hpayload, rule, hrule, rfl⟩))))
      · rw [List.mem_singleton.1 he]
        exact .cites hpayload hrule
    · obtain ⟨entry, hentry, he⟩ := List.mem_flatMap.1 h
      obtain ⟨span, hspan, rfl⟩ := List.mem_map.1 he
      exact .spans hpayload hentry hspan
  | intentSpec spec =>
    simp only [hpayload] at h
    rcases List.mem_cons.1 h with rfl | h
    · exact .contains (mem_ownNodes.2 (.inr (.inr (.inr ⟨spec, hpayload, rfl⟩))))
    · obtain ⟨span, hspan, rfl⟩ := List.mem_map.1 h
      exact .intentSpans hpayload hspan

theorem label_of_mem_ownNodes (h : n ∈ ownNodes a) : n.label ≠ .regime ∧ n.label ≠ .corpusDoc := by
  rcases mem_ownNodes.1 h with rfl | ⟨p, -, rfl⟩ | ⟨rules, -, rule, -, rfl⟩ | ⟨spec, -, rfl⟩
  all_goals exact ⟨nofun, nofun⟩

theorem mem_rules {rule : RuleIR} : rule ∈ a.rules ↔ ∃ rules, a.payload = .rules rules ∧ rule ∈ rules := by
  unfold Artifact.rules
  cases a.payload with
  | rules rules => simp
  | intentSpec spec => simp

/-- What an attestation's id has after the hash is a rule's, for one rule id. -/
theorem attestation_suffix (i : Nat) : ":att:" ++ toString i = ":" ++ s!"att:{i}" := by
  show ":att:" ++ toString i = ":" ++ ("att:" ++ toString i)
  rw [← String.append_assoc]
  rfl

/-- What follows the hash in the id of a node. -/
inductive Suffix (a : Artifact) : NodeLabel → String → Prop
  | artifact : Suffix a .artifact ""
  | attestation {i : Nat} (h : i < a.attestations.length) : Suffix a .attestation (":att:" ++ toString i)
  | rule {rule : RuleIR} {rules : List RuleIR} (hpayload : a.payload = .rules rules) (h : rule ∈ rules) :
      Suffix a .rule (":" ++ rule.ruleId)
  | intentSpec {spec : IntentSpecIR} (h : a.payload = .intentSpec spec) :
      Suffix a .intentSpec (":intent:" ++ spec.actionClass)

theorem suffix_of_mem_ownNodes (h : n ∈ ownNodes a) : ∃ suffix, n.id = Artifact.hex a ++ suffix ∧
    Suffix a n.label suffix := by
  rcases mem_ownNodes.1 h with rfl | ⟨p, hp, rfl⟩ | ⟨rules, hpayload, rule, hrule, rfl⟩ | ⟨spec, hpayload, rfl⟩
  · exact ⟨"", String.append_empty.symm, .artifact⟩
  · refine ⟨_, String.append_assoc, .attestation ?_⟩
    exact (List.getElem?_eq_some_iff.1 (List.mem_zipIdx_iff_getElem?.1 hp)).1
  · exact ⟨_, String.append_assoc, .rule hpayload hrule⟩
  · exact ⟨_, String.append_assoc, .intentSpec hpayload⟩

theorem hex_length (a : Artifact) : (Artifact.hex a).toList.length = 64 := by
  unfold Artifact.hex hex32
  rw [String.toList_ofList, List.length_flatMap]
  simp [a.manifest.artifactHash.2]

theorem append_right_cancel {hex suffix suffix' : String} (h : hex ++ suffix = hex ++ suffix') : suffix = suffix' := by
  have hlist := congrArg String.toList h
  rw [String.toList_append, String.toList_append] at hlist
  exact String.toList_inj.1 (List.append_cancel_left hlist)

/-- One id belongs to one hash. -/
theorem hash_of_own_id (hn : n ∈ ownNodes a) (hm : m ∈ ownNodes b) (hid : n.id = m.id) :
    a.manifest.artifactHash = b.manifest.artifactHash := by
  obtain ⟨s, hs, -⟩ := suffix_of_mem_ownNodes hn
  obtain ⟨t, ht, -⟩ := suffix_of_mem_ownNodes hm
  have hlist := congrArg String.toList (hs.symm.trans (hid.trans ht))
  rw [String.toList_append, String.toList_append] at hlist
  have hhex := (List.append_inj hlist ((hex_length a).trans (hex_length b).symm)).1
  exact hex32_inj (String.toList_inj.1 hhex)

/-- Within an artifact a suffix is that of one label, where no rule has the id of an attestation. -/
theorem label_of_suffix {l l' : NodeLabel} {s : String}
    (hrules : ∀ rule ∈ a.rules, ∀ i < a.attestations.length, rule.ruleId ≠ s!"att:{i}") (h : Suffix a l s)
    (h' : Suffix a l' s) : l = l' := by
  have hclash : ∀ {rules : List RuleIR} {rule : RuleIR} {i : Nat}, a.payload = .rules rules → rule ∈ rules →
      i < a.attestations.length → ":" ++ rule.ruleId ≠ ":att:" ++ toString i := by
    intro rules rule i hpayload hrule hi heq
    exact hrules rule (mem_rules.2 ⟨rules, hpayload, hrule⟩) i hi
      (append_right_cancel (heq.trans (attestation_suffix i)))
  have hempty : ∀ c t : String, c ∈ [":", ":att:", ":intent:"] → "" ≠ c ++ t := by
    intro c t hc heq
    simp only [List.mem_cons, List.not_mem_nil, or_false] at hc
    rcases hc with rfl | rfl | rfl <;> simp [← String.toList_inj] at heq
  have hintent : ∀ t u : String, ":att:" ++ t ≠ ":intent:" ++ u := by
    intro t u heq
    simp [← String.toList_inj] at heq
  generalize hs : s = s' at h'
  cases h with
  | artifact =>
    cases h' with
    | artifact => rfl
    | attestation => exact absurd hs (hempty _ _ (by decide))
    | rule => exact absurd hs (hempty _ _ (by decide))
    | intentSpec => exact absurd hs (hempty _ _ (by decide))
  | attestation hi =>
    cases h' with
    | artifact => exact absurd hs.symm (hempty _ _ (by decide))
    | attestation => rfl
    | rule hpayload hrule => exact absurd hs.symm (hclash hpayload hrule hi)
    | intentSpec => exact absurd hs (hintent _ _)
  | rule hpayload hrule =>
    cases h' with
    | artifact => exact absurd hs.symm (hempty _ _ (by decide))
    | attestation hi => exact absurd hs (hclash hpayload hrule hi)
    | rule => rfl
    | intentSpec hpayload' => cases hpayload.symm.trans hpayload'
  | intentSpec hpayload =>
    cases h' with
    | artifact => exact absurd hs.symm (hempty _ _ (by decide))
    | attestation => exact absurd hs.symm (hintent _ _)
    | rule hpayload' => cases hpayload.symm.trans hpayload'
    | intentSpec => rfl

end

/-! ## Identity of the graph -/

section

variable {artifacts : List Artifact}

/-- The nodes of the graph, each by its key. -/
theorem buildGraph_lists (artifacts : List Artifact) :
    (∀ n ∈ (buildGraph artifacts).nodes, ∃ a ∈ artifacts, n ∈ nodesOf a) ∧
      ∀ a ∈ artifacts, ∀ n ∈ nodesOf a, ∃ m ∈ (buildGraph artifacts).nodes, m.key = n.key := by
  have hmerged := buildGraph_merged artifacts
  constructor
  · intro n hn
    obtain ⟨g, hg, hn⟩ := hmerged.sound n hn
    obtain ⟨a, ha, rfl⟩ := List.mem_map.1 hg
    rw [project_nodes] at hn
    exact ⟨a, ha, (extractGraph_lists a).sound n hn⟩
  · intro a ha n hn
    obtain ⟨m, hm, hkey⟩ := (extractGraph_lists a).keyed n hn
    rw [← project_nodes (Artifact.hex a)] at hm
    obtain ⟨m', hm', hkey'⟩ := hmerged.keyed _ (List.mem_map_of_mem ha) m hm
    exact ⟨m', hm', hkey'.trans hkey⟩

/-- An id is that of one node exactly when it goes with one label. -/
theorem unique_iff : ((buildGraph artifacts).nodes.map (·.id)).Nodup ↔
    ∀ a ∈ artifacts, ∀ b ∈ artifacts, ∀ n ∈ nodesOf a, ∀ m ∈ nodesOf b, n.id = m.id → n.label = m.label := by
  obtain ⟨hsound, hkeyed⟩ := buildGraph_lists artifacts
  have hkeys := (buildGraph_merged artifacts).keys
  constructor
  · intro hnodup a ha b hb n hn m hm hid
    obtain ⟨n', hn', hkey⟩ := hkeyed a ha n hn
    obtain ⟨m', hm', hkey'⟩ := hkeyed b hb m hm
    have heq : n' = m' := List.inj_on_of_nodup_map hnodup hn' hm'
      ((congrArg Prod.snd hkey).trans (hid.trans (congrArg Prod.snd hkey').symm))
    rw [heq] at hkey
    exact (congrArg Prod.fst hkey).symm.trans (congrArg Prod.fst hkey')
  · intro h
    refine List.Nodup.map_on ?_ hkeys.of_map
    intro n hn m hm hid
    obtain ⟨a, ha, hna⟩ := hsound n hn
    obtain ⟨b, hb, hmb⟩ := hsound m hm
    exact List.inj_on_of_nodup_map hkeys hn hm (Prod.ext (h a ha b hb n hna m hmb hid) hid)

/-- Labels go with ids exactly when the names are apart. -/
theorem labels_iff (hdistinct : (artifacts.map fun a => a.manifest.artifactHash).Nodup) :
    (∀ a ∈ artifacts, ∀ b ∈ artifacts, ∀ n ∈ nodesOf a, ∀ m ∈ nodesOf b, n.id = m.id → n.label = m.label) ↔
      (∀ a ∈ artifacts, ∀ b ∈ artifacts, a.manifest.regimeId ∉ documentsOf b) ∧
      (∀ a ∈ artifacts, ∀ b ∈ artifacts, ∀ name ∈ sharedNames a, name ∉ ownNames b) ∧
      ∀ a ∈ artifacts, ∀ rule ∈ a.rules, ∀ i < a.attestations.length, rule.ruleId ≠ s!"att:{i}" := by
  constructor
  · intro h
    refine ⟨fun a ha b hb hmem => ?_, fun a ha b hb name hname hown => ?_, fun a ha rule hrule i hi heq => ?_⟩
    · exact absurd (h a ha b hb _ (mem_nodesOf.2 (.inl rfl)) _ (mem_nodesOf.2 (.inr (.inl ⟨_, hmem, rfl⟩))) rfl) nofun
    · obtain ⟨m, hm, rfl⟩ := List.mem_map.1 hown
      obtain ⟨hregime, hdoc⟩ := label_of_mem_ownNodes hm
      rcases List.mem_cons.1 hname with hid | hname
      · exact hregime (h a ha b hb _ (mem_nodesOf.2 (.inl rfl)) m (mem_nodesOf.2 (.inr (.inr hm))) hid.symm).symm
      · exact hdoc (h a ha b hb _ (mem_nodesOf.2 (.inr (.inl ⟨_, hname, rfl⟩))) m
          (mem_nodesOf.2 (.inr (.inr hm))) rfl).symm
    · obtain ⟨rules, hpayload, hmem⟩ := mem_rules.1 hrule
      have hatt : attestationNode (Artifact.hex a) (a.attestations[i], i) ∈ ownNodes a :=
        mem_ownNodes.2 (.inr (.inl ⟨_, List.mem_zipIdx_iff_getElem?.2 (List.getElem?_eq_getElem hi), rfl⟩))
      have hnode : ruleNode (Artifact.hex a) rule ∈ ownNodes a :=
        mem_ownNodes.2 (.inr (.inr (.inl ⟨rules, hpayload, rule, hmem, rfl⟩)))
      have hid : (ruleNode (Artifact.hex a) rule).id =
          (attestationNode (Artifact.hex a) (a.attestations[i], i)).id := by
        show Artifact.hex a ++ ":" ++ rule.ruleId = Artifact.hex a ++ ":att:" ++ toString i
        rw [heq, String.append_assoc, String.append_assoc, attestation_suffix]
      exact absurd (h a ha a ha _ (mem_nodesOf.2 (.inr (.inr hnode))) _ (mem_nodesOf.2 (.inr (.inr hatt))) hid) nofun
  · rintro ⟨hregimes, hown, hrules⟩ a ha b hb n hn m hm hid
    rcases mem_nodesOf.1 hn with rfl | ⟨d, hd, rfl⟩ | hn
    · rcases mem_nodesOf.1 hm with rfl | ⟨d, hd, rfl⟩ | hm
      · rfl
      · exact absurd ((show d = a.manifest.regimeId from hid.symm) ▸ hd) (hregimes a ha b hb)
      · exact absurd (List.mem_map.2 ⟨m, hm, hid.symm⟩) (hown a ha b hb _ List.mem_cons_self)
    · rcases mem_nodesOf.1 hm with rfl | ⟨d, hd', rfl⟩ | hm
      · exact absurd ((show d = b.manifest.regimeId from hid) ▸ hd) (hregimes b hb a ha)
      · rfl
      · exact absurd (List.mem_map.2 ⟨m, hm, hid.symm⟩) (hown a ha b hb _ (List.mem_cons_of_mem _ hd))
    · rcases mem_nodesOf.1 hm with rfl | ⟨d, hd, rfl⟩ | hm
      · exact absurd (List.mem_map.2 ⟨n, hn, hid⟩) (hown b hb a ha _ List.mem_cons_self)
      · exact absurd (List.mem_map.2 ⟨n, hn, hid⟩) (hown b hb a ha _ (List.mem_cons_of_mem _ hd))
      · obtain rfl : a = b := List.inj_on_of_nodup_map hdistinct ha hb (hash_of_own_id hn hm hid)
        obtain ⟨s, hs, hsuffix⟩ := suffix_of_mem_ownNodes hn
        obtain ⟨t, ht, hsuffix'⟩ := suffix_of_mem_ownNodes hm
        rw [append_right_cancel (hs.symm.trans (hid.trans ht))] at hsuffix
        exact label_of_suffix (hrules a ha) hsuffix hsuffix'

/-! ## Closure -/

/-- The ids of the graph are the names that its artifacts have. -/
theorem named_iff {name : String} : (∃ n ∈ (buildGraph artifacts).nodes, n.id = name) ↔
    ∃ a ∈ artifacts, name ∈ sharedNames a ++ ownNames a := by
  obtain ⟨hsound, hkeyed⟩ := buildGraph_lists artifacts
  have hnames : ∀ a, name ∈ sharedNames a ++ ownNames a ↔ ∃ n ∈ nodesOf a, n.id = name := by
    intro a
    rw [List.mem_append, sharedNames, List.mem_cons, ownNames, List.mem_map]
    constructor
    · rintro ((rfl | hd) | ⟨n, hn, rfl⟩)
      · exact ⟨_, mem_nodesOf.2 (.inl rfl), rfl⟩
      · exact ⟨_, mem_nodesOf.2 (.inr (.inl ⟨name, hd, rfl⟩)), rfl⟩
      · exact ⟨n, mem_nodesOf.2 (.inr (.inr hn)), rfl⟩
    · rintro ⟨n, hn, rfl⟩
      rcases mem_nodesOf.1 hn with rfl | ⟨d, hd, rfl⟩ | hn
      · exact .inl (.inl rfl)
      · exact .inl (.inr hd)
      · exact .inr ⟨n, hn, rfl⟩
  constructor
  · rintro ⟨n, hn, rfl⟩
    obtain ⟨a, ha, hn⟩ := hsound n hn
    exact ⟨a, ha, (hnames a).2 ⟨n, hn, rfl⟩⟩
  · rintro ⟨a, ha, hname⟩
    obtain ⟨n, hn, rfl⟩ := (hnames a).1 hname
    obtain ⟨m, hm, hkey⟩ := hkeyed a ha n hn
    exact ⟨m, hm, congrArg Prod.snd hkey⟩

theorem mem_buildGraph_edges {e : Edge} :
    e ∈ (buildGraph artifacts).edges ↔ ∃ a ∈ artifacts, e ∈ edgesOf a ∨ e ∈ conflictsOf a := by
  rw [(buildGraph_merged artifacts).edges]
  constructor
  · rintro ⟨g, hg, he⟩
    obtain ⟨a, ha, rfl⟩ := List.mem_map.1 hg
    rw [project_edges, List.mem_append] at he
    exact ⟨a, ha, he⟩
  · rintro ⟨a, ha, he⟩
    exact ⟨_, List.mem_map_of_mem ha, by rwa [project_edges, List.mem_append]⟩

/-- An edge of an artifact starts at what belongs to it, or at a rule that its index names, and ends at a
name of the artifact. -/
theorem ends_of_mem_edgesOf {a : Artifact} {e : Edge} (h : e ∈ edgesOf a) :
    (e.from ∈ ownNames a ∨ ∃ entry ∈ spannedEntries a, e.from = T4.ruleNodeId (Artifact.hex a) entry.ruleId) ∧
      e.to ∈ sharedNames a ++ ownNames a := by
  have hown : ∀ {n : Node}, n ∈ ownNodes a → n.id ∈ ownNames a := fun hn => List.mem_map_of_mem hn
  have hartifact : Artifact.hex a ∈ ownNames a := hown (mem_ownNodes.2 (.inl rfl))
  have hdocument : ∀ {d : String}, d ∈ documentsOf a → d ∈ sharedNames a ++ ownNames a :=
    fun hd => List.mem_append_left _ (List.mem_cons_of_mem _ hd)
  cases edge_of_mem_edgesOf h with
  | inRegime => exact ⟨.inl hartifact, List.mem_append_left _ List.mem_cons_self⟩
  | attestedBy hp =>
    exact ⟨.inl hartifact, List.mem_append_right _ (hown (mem_ownNodes.2 (.inr (.inl ⟨_, hp, rfl⟩))))⟩
  | contains hn => exact ⟨.inl hartifact, List.mem_append_right _ (hown hn)⟩
  | cites hpayload hrule =>
    refine ⟨.inl (hown (mem_ownNodes.2 (.inr (.inr (.inl ⟨_, hpayload, _, hrule, rfl⟩))))), hdocument ?_⟩
    unfold documentsOf
    rw [hpayload]
    exact List.mem_append_left _ (List.mem_map_of_mem hrule)
  | spans hpayload hentry hspan =>
    refine ⟨.inr ⟨_, ?_, rfl⟩, hdocument ?_⟩
    · unfold spannedEntries
      rw [hpayload]
      exact List.mem_filter.2 ⟨hentry, decide_eq_true (List.ne_nil_of_mem hspan)⟩
    · unfold documentsOf
      rw [hpayload]
      exact List.mem_append_right _ (List.mem_flatMap.2 ⟨_, hentry, List.mem_map_of_mem hspan⟩)
  | intentSpans hpayload hspan =>
    refine ⟨.inl (hown (mem_ownNodes.2 (.inr (.inr (.inr ⟨_, hpayload, rfl⟩))))), hdocument ?_⟩
    unfold documentsOf
    rw [hpayload]
    exact List.mem_map_of_mem hspan

/-- The graph is closed exactly when its indexes name what has a name. -/
theorem closed_iff :
    (∀ e ∈ (buildGraph artifacts).edges, (∃ n ∈ (buildGraph artifacts).nodes, n.id = e.from) ∧
        ∃ n ∈ (buildGraph artifacts).nodes, n.id = e.to) ↔
      ∀ a ∈ artifacts, ∀ entry ∈ spannedEntries a, ∃ b ∈ artifacts,
        T4.ruleNodeId (Artifact.hex a) entry.ruleId ∈ sharedNames b ++ ownNames b := by
  constructor
  · intro h a ha entry hentry
    unfold spannedEntries at hentry
    cases hpayload : a.payload with
    | intentSpec spec =>
      simp only [hpayload] at hentry
      cases hentry
    | rules rules =>
      simp only [hpayload] at hentry
      obtain ⟨hentry, hspans⟩ := List.mem_filter.1 hentry
      obtain ⟨span, hspan⟩ := List.exists_mem_of_ne_nil _ (of_decide_eq_true hspans)
      have hedge : spanEdge (T4.ruleNodeId (Artifact.hex a) entry.ruleId) span ∈ edgesOf a := by
        unfold edgesOf
        rw [hpayload]
        exact List.mem_cons_of_mem _ (List.mem_append_right _ (List.mem_append_right _
          (List.mem_flatMap.2 ⟨entry, hentry, List.mem_map_of_mem hspan⟩)))
      exact named_iff.1 (h _ (mem_buildGraph_edges.2 ⟨a, ha, .inl hedge⟩)).1
  · intro h e he
    obtain ⟨a, ha, he | he⟩ := mem_buildGraph_edges.1 he
    · obtain ⟨hfrom, hto⟩ := ends_of_mem_edgesOf he
      refine ⟨?_, named_iff.2 ⟨a, ha, hto⟩⟩
      rcases hfrom with hfrom | ⟨entry, hentry, heq⟩
      · exact named_iff.2 ⟨a, ha, List.mem_append_right _ hfrom⟩
      · rw [heq]
        exact named_iff.2 (h a ha entry hentry)
    · obtain ⟨-, ra, hra, rb, hrb, hfrom, hto⟩ := mem_conflictsOf he
      have hrule : ∀ r ∈ a.rules, ∃ n ∈ (buildGraph artifacts).nodes,
          n.id = T4.ruleNodeId (Artifact.hex a) r.ruleId := by
        intro r hr
        obtain ⟨rules, hpayload, hr⟩ := mem_rules.1 hr
        exact named_iff.2 ⟨a, ha, List.mem_append_right _
          (List.mem_map_of_mem (mem_ownNodes.2 (.inr (.inr (.inl ⟨rules, hpayload, r, hr, rfl⟩)))))⟩
      rw [hfrom, hto]
      exact ⟨hrule ra hra, hrule rb hrb⟩

/-- The graph of artifacts with different hashes has its identity exactly when their names are apart. -/
theorem graphIdentity_iff (hdistinct : (artifacts.map fun a => a.manifest.artifactHash).Nodup) :
    GraphIdentity (buildGraph artifacts) ↔ NamesApart artifacts := by
  constructor
  · rintro ⟨hunique, hclosed⟩
    obtain ⟨hregimes, hown, hrules⟩ := (labels_iff hdistinct).1 (unique_iff.1 hunique)
    exact ⟨hregimes, hown, hrules, closed_iff.1 hclosed⟩
  · rintro ⟨hregimes, hown, hrules, hindex⟩
    exact ⟨unique_iff.2 ((labels_iff hdistinct).2 ⟨hregimes, hown, hrules⟩), closed_iff.2 hindex⟩

end

/-! ## A regime with the name of a document -/

/-- The transfer limit, with two spans of one document. -/
def spannedDocument : IntentSpecInput :=
  { transferDocument with sourceSpans := [{ citedSpan with documentId := "mica" },
    { citedSpan with documentId := "mica", article := some "4" }] }

/-- The address of the document under a regime. -/
def spannedHash (regime : String) : Hash32 :=
  match assembleIntentSpec standIn spannedDocument regime with
  | .ok made => made.1.manifest.artifactHash
  | .error _ => zeroHash

/-- Compiled under a regime, checked, attested and published. -/
def spannedLife (regime : String) : List CommandLine :=
  [.compileIntent (.ok spannedDocument) regime 0, .mlCheck (spannedHash regime) 1,
    .attest (spannedHash regime) [.sourceFidelity, .publicationApproval] 2,
    .publish (spannedHash regime) "local" "stable" none 3]

/-- The regime's node and the document's have one id. -/
theorem regime_named_as_document : ∃ a,
    admitArtifact standIn (runAll standIn (spannedLife "mica") .empty) (spannedHash "mica") "local" 3 =
    .ok (.verified a) ∧
      ¬ GraphIdentity (buildGraph [a]) := by
  have hrun : ((admitArtifact standIn (runAll standIn (spannedLife "mica") .empty) (spannedHash "mica") "local"
    3).toOption.any
      fun | .verified a => decide (a.manifest.regimeId ∈ documentsOf a) | .refused _ => false) = true := by
    decide +kernel
  obtain ⟨admission, hadmission, hnames⟩ := exists_ok_and hrun
  cases admission with
  | refused reason => cases hnames
  | verified a =>
    refine ⟨a, hadmission, fun hidentity => ?_⟩
    have hapart := (@graphIdentity_iff [a] (List.nodup_singleton _)).1 hidentity
    exact hapart.regimes a (List.mem_singleton_self a) a (List.mem_singleton_self a) (of_decide_eq_true hnames)

/-- The artifact of another hash that lists a span for a rule of its own. -/
def citingArtifact : Artifact :=
  { ghostArtifact with
    manifest := { packManifest with artifactHash := ⟨List.replicate 32 1, rfl⟩ }
    payload := .rules [citingRule]
    sourceSpanIndex := ⟨[⟨"r", [citedSpan]⟩]⟩ }

theorem graphIdentity_iff_citing :
    GraphIdentity (buildGraph [ghostArtifact, citingArtifact]) ↔ NamesApart [ghostArtifact, citingArtifact] :=
  graphIdentity_iff (by decide)

end Ke.Export
