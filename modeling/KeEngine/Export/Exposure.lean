/-
Conflict exposure: from the rules of one regime, over the documents that they and others cite, in either
direction as far as it goes, and from there over one conflict into another regime. Which artifact an id is
of and which regime an artifact is of are maps, where a later edge would replace an earlier one.
-/
import KeEngine.Export.Merge
import KeEngine.Registry.Agreement
import KeEngine.Search.Worklist

namespace Ke.Export

open Ke Wire Registry Relation

/-! ## The search -/

/-- A map collected from pairs: of two pairs with one key, the later stays. -/
def collectMap (pairs : List (String × String)) (key : String) : Option String := pairs.reverse.lookup key

def regimeOf (g : Graph) : String → Option String :=
  collectMap ((g.edges.filter fun e => e.label = .inRegime).map fun e => (e.from, e.to))

def artifactOf (g : Graph) : String → Option String :=
  collectMap ((g.edges.filter fun e => e.label = .contains).map fun e => (e.to, e.from))

def inRegime (g : Graph) (node regime : String) : Bool :=
  ((artifactOf g node).bind (regimeOf g)).any fun r => decide (r = regime)

def Edge.isCitation (e : Edge) : Bool := e.label = .cites || e.label = .spans

/-- What is cited together with a node or by it, in the order of the edges. -/
def adjacent (g : Graph) (node : String) : List String :=
  (g.edges.filter (·.isCitation)).flatMap fun e =>
    (if e.from = node then [e.to] else []) ++ if e.to = node then [e.from] else []

/-- The rules that the search starts from. -/
def sourceRules (g : Graph) (regime : String) : List String :=
  (g.nodes.filter fun n => decide (n.label = .rule) && inRegime g n.id regime).map (·.id)

/-- One conflict off what is reached, in either direction, into the regime. -/
def conflictHops (g : Graph) (reached : Finset String) (regime : String) : List String :=
  (g.edges.filter fun e => e.label = .conflictsWith).flatMap fun e =>
    ([(e.from, e.to), (e.to, e.from)].filter fun p => decide (p.1 ∈ reached) && inRegime g p.2 regime).map (·.2)

/-- The ids exposed, sorted and each once, where the search ends within so many steps. -/
def conflictExposure (fuel : Nat) (g : Graph) (sourceRegime targetRegime : String) : Option (List String) :=
  (Worklist.explore (adjacent g) fuel (Worklist.initial (sourceRules g sourceRegime))).map fun reached =>
    sortDedup (conflictHops g reached targetRegime)

/-- The search ends with these ids, given enough steps. -/
def Exposure (g : Graph) (sourceRegime targetRegime : String) (ids : List String) : Prop :=
  ∃ n, ∀ fuel ≥ n, conflictExposure fuel g sourceRegime targetRegime = some ids

/-! ## What it is for -/

/-- The id is that of something an artifact of the regime contains. -/
def InRegime (g : Graph) (id regime : String) : Prop :=
  ∃ e ∈ g.edges, e.label = .contains ∧ e.to = id ∧
    ∃ r ∈ g.edges, r.label = .inRegime ∧ r.from = e.from ∧ r.to = regime

/-- A citation or a span between two ids, in either direction. -/
def Linked (g : Graph) (a b : String) : Prop :=
  ∃ e ∈ g.edges, (e.label = .cites ∨ e.label = .spans) ∧ (e.from = a ∧ e.to = b ∨ e.from = b ∧ e.to = a)

/-- Citations lead to the id from a rule of the regime. -/
def Reached (g : Graph) (regime id : String) : Prop :=
  ∃ n ∈ g.nodes, n.label = .rule ∧ InRegime g n.id regime ∧ ReflTransGen (Linked g) n.id id

/-- The id is in the target regime and in conflict with what is reached from the source regime. -/
def Exposed (g : Graph) (sourceRegime targetRegime id : String) : Prop :=
  InRegime g id targetRegime ∧ ∃ e ∈ g.edges, e.label = .conflictsWith ∧
    ∃ other, (e.from = other ∧ e.to = id ∨ e.from = id ∧ e.to = other) ∧ Reached g sourceRegime other

/-- Nothing is contained in two artifacts, and no artifact is in two regimes. -/
structure Placed (g : Graph) : Prop where
  contained : ∀ e ∈ g.edges, ∀ e' ∈ g.edges, e.label = .contains → e'.label = .contains → e.to = e'.to →
    e.from = e'.from
  filed : ∀ e ∈ g.edges, ∀ e' ∈ g.edges, e.label = .inRegime → e'.label = .inRegime → e.from = e'.from → e.to = e'.to

/-! ## Maps -/

theorem mem_of_collectMap {pairs : List (String × String)} {key value : String}
    (h : collectMap pairs key = some value) : (key, value) ∈ pairs := by
  obtain ⟨before, after, hpairs, -⟩ := List.lookup_eq_some_iff.1 h
  rw [← List.mem_reverse, hpairs]
  exact List.mem_append_right _ List.mem_cons_self

/-- Where a key has one value, the map has it. -/
theorem collectMap_eq_some {pairs : List (String × String)} {key value : String} (h : (key, value) ∈ pairs)
    (hone : ∀ value', (key, value') ∈ pairs → value' = value) : collectMap pairs key = some value := by
  cases hmap : collectMap pairs key with
  | none =>
    have hne := List.lookup_eq_none_iff.1 hmap (key, value) (List.mem_reverse.2 h)
    exact absurd rfl (bne_iff_ne.1 hne)
  | some value' => rw [hone value' (mem_of_collectMap hmap)]

section

variable {g : Graph}

theorem mem_edgePairs {label : EdgeLabel} {pair : Edge → String × String} {p : String × String} :
    p ∈ (g.edges.filter fun e => decide (e.label = label)).map pair ↔
      ∃ e ∈ g.edges, e.label = label ∧ pair e = p := by
  simp only [List.mem_map, List.mem_filter, decide_eq_true_eq, and_assoc]

theorem artifactOf_eq_some (h : Placed g) {id hex : String} :
    artifactOf g id = some hex ↔ ∃ e ∈ g.edges, e.label = .contains ∧ e.to = id ∧ e.from = hex := by
  constructor
  · intro hmap
    obtain ⟨e, he, hlabel, hpair⟩ := mem_edgePairs.1 (mem_of_collectMap hmap)
    exact ⟨e, he, hlabel, Prod.mk.inj hpair⟩
  · rintro ⟨e, he, hlabel, rfl, rfl⟩
    refine collectMap_eq_some (mem_edgePairs.2 ⟨e, he, hlabel, rfl⟩) fun hex hmem => ?_
    obtain ⟨e', he', hlabel', hpair⟩ := mem_edgePairs.1 hmem
    obtain ⟨hto, rfl⟩ := Prod.mk.inj hpair
    exact h.contained e' he' e he hlabel' hlabel hto

theorem regimeOf_eq_some (h : Placed g) {hex regime : String} :
    regimeOf g hex = some regime ↔ ∃ e ∈ g.edges, e.label = .inRegime ∧ e.from = hex ∧ e.to = regime := by
  constructor
  · intro hmap
    obtain ⟨e, he, hlabel, hpair⟩ := mem_edgePairs.1 (mem_of_collectMap hmap)
    exact ⟨e, he, hlabel, Prod.mk.inj hpair⟩
  · rintro ⟨e, he, hlabel, rfl, rfl⟩
    refine collectMap_eq_some (mem_edgePairs.2 ⟨e, he, hlabel, rfl⟩) fun regime hmem => ?_
    obtain ⟨e', he', hlabel', hpair⟩ := mem_edgePairs.1 hmem
    obtain ⟨hfrom, rfl⟩ := Prod.mk.inj hpair
    exact h.filed e' he' e he hlabel' hlabel hfrom

/-- The two maps find the regime that the edges give. -/
theorem inRegime_iff (h : Placed g) {id regime : String} : inRegime g id regime = true ↔ InRegime g id regime := by
  unfold inRegime InRegime
  rw [Option.any_eq_true]
  simp only [decide_eq_true_eq, Option.bind_eq_some_iff, artifactOf_eq_some h, regimeOf_eq_some h]
  constructor
  · rintro ⟨_, ⟨_, ⟨e, he, hlabel, hto, rfl⟩, r, hr, hrlabel, hfrom, rfl⟩, rfl⟩
    exact ⟨e, he, hlabel, hto, r, hr, hrlabel, hfrom, rfl⟩
  · rintro ⟨e, he, hlabel, hto, r, hr, hrlabel, hfrom, rfl⟩
    exact ⟨_, ⟨_, ⟨e, he, hlabel, hto, rfl⟩, r, hr, hrlabel, hfrom, rfl⟩, rfl⟩

/-! ## The closure -/

theorem mem_adjacent {a b : String} : b ∈ adjacent g a ↔ Linked g a b := by
  unfold adjacent Linked
  simp only [List.mem_flatMap, List.mem_filter, List.mem_append, Edge.isCitation, Bool.or_eq_true, decide_eq_true_eq,
    and_assoc]
  refine exists_congr fun e => and_congr_right fun _ => and_congr_right fun _ => or_congr ?_ ?_
  · by_cases hfrom : e.from = a <;> simp [hfrom, eq_comm]
  · by_cases hto : e.to = a <;> simp [hto, eq_comm]

theorem mem_sourceRules (h : Placed g) {regime id : String} :
    id ∈ sourceRules g regime ↔ ∃ n ∈ g.nodes, n.label = .rule ∧ InRegime g n.id regime ∧ n.id = id := by
  unfold sourceRules
  simp only [List.mem_map, List.mem_filter, Bool.and_eq_true, decide_eq_true_eq, inRegime_iff h, and_assoc]

theorem mem_conflictHops (h : Placed g) {reached : Finset String} {regime id : String} :
    id ∈ conflictHops g reached regime ↔ InRegime g id regime ∧ ∃ e ∈ g.edges, e.label = .conflictsWith ∧
      ∃ other, (e.from = other ∧ e.to = id ∨ e.from = id ∧ e.to = other) ∧ other ∈ reached := by
  unfold conflictHops
  simp only [List.mem_flatMap, List.mem_map, List.mem_filter, List.mem_cons, List.not_mem_nil, or_false,
    Bool.and_eq_true, decide_eq_true_eq, inRegime_iff h]
  constructor
  · rintro ⟨e, ⟨he, hlabel⟩, p, ⟨rfl | rfl, hreached, hregime⟩, rfl⟩
    · exact ⟨hregime, e, he, hlabel, e.from, .inl ⟨rfl, rfl⟩, hreached⟩
    · exact ⟨hregime, e, he, hlabel, e.to, .inr ⟨rfl, rfl⟩, hreached⟩
  · rintro ⟨hregime, e, he, hlabel, other, ⟨rfl, rfl⟩ | ⟨rfl, rfl⟩, hreached⟩
    · exact ⟨e, ⟨he, hlabel⟩, _, ⟨.inl rfl, hreached, hregime⟩, rfl⟩
    · exact ⟨e, ⟨he, hlabel⟩, _, ⟨.inr rfl, hreached, hregime⟩, rfl⟩

/-- The search ends, and has reached what citations lead to. -/
theorem explore_sourceRules (h : Placed g) (regime : String) : ∃ reached n,
    (∀ fuel ≥ n, Worklist.explore (adjacent g) fuel (Worklist.initial (sourceRules g regime)) = some reached) ∧
      ∀ id, id ∈ reached ↔ Reached g regime id := by
  have hends : ∀ a, ∀ b ∈ adjacent g a, b ∈ (g.edges.flatMap fun e => [e.from, e.to]).toFinset := by
    intro a b hb
    rw [List.mem_toFinset, List.mem_flatMap]
    obtain ⟨e, he, -, ⟨-, rfl⟩ | ⟨rfl, -⟩⟩ := mem_adjacent.1 hb
    · exact ⟨e, he, by simp⟩
    · exact ⟨e, he, by simp⟩
  obtain ⟨reached, hrun, hreached⟩ := Worklist.explore_ends _ hends (sourceRules g regime)
  refine ⟨reached, _, hrun, fun id => ?_⟩
  have hlinked : (fun a b => b ∈ adjacent g a) = Linked g := funext fun a => funext fun b => propext mem_adjacent
  rw [hreached, hlinked]
  constructor
  · rintro ⟨a, ha, hpath⟩
    obtain ⟨n, hn, hlabel, hregime, rfl⟩ := (mem_sourceRules h).1 ha
    exact ⟨n, hn, hlabel, hregime, hpath⟩
  · rintro ⟨n, hn, hlabel, hregime, hpath⟩
    exact ⟨n.id, (mem_sourceRules h).2 ⟨n, hn, hlabel, hregime, rfl⟩, hpath⟩

/-- The search ends with what is exposed, sorted and without repeats. -/
theorem exposure_of_placed (h : Placed g) (sourceRegime targetRegime : String) :
    ∃ hops, Exposure g sourceRegime targetRegime (sortDedup hops) ∧
      ∀ id, id ∈ hops ↔ Exposed g sourceRegime targetRegime id := by
  obtain ⟨reached, n, hrun, hreached⟩ := explore_sourceRules h sourceRegime
  refine ⟨conflictHops g reached targetRegime, ⟨n, fun fuel hfuel => ?_⟩, fun id => ?_⟩
  · rw [conflictExposure, hrun fuel hfuel, Option.map_some]
  · rw [mem_conflictHops h]
    simp only [hreached]
    rfl

/-- Where nothing has two places, the ids that the search ends with are in order, each once, and are those of
what is exposed. -/
theorem conflictExposure_exact (h : Placed g) (sourceRegime targetRegime : String) :
    ∃ ids, Exposure g sourceRegime targetRegime ids ∧ ids.Pairwise (· < ·) ∧
      ∀ id, id ∈ ids ↔ Exposed g sourceRegime targetRegime id := by
  obtain ⟨hops, hends, hhops⟩ := exposure_of_placed h sourceRegime targetRegime
  exact ⟨sortDedup hops, hends, pairwise_sortDedup hops, fun id => mem_sortDedup.trans (hhops id)⟩

end

/-- A rule of one regime that cites what a rule of the other cites, and a conflict into it, written from it. -/
def exposedGraph : Graph where
  nodes := [⟨.rule, "a:r", [("rule_id", "r")]⟩, ⟨.rule, "b:s", [("rule_id", "s")]⟩, ⟨.corpusDoc, "d", []⟩]
  edges := [⟨.inRegime, "a", "eu", []⟩, ⟨.inRegime, "b", "us", []⟩, ⟨.contains, "a", "a:r", []⟩,
    ⟨.contains, "b", "b:s", []⟩, ⟨.contains, "b", "b:t", []⟩, ⟨.cites, "a:r", "d", []⟩, ⟨.spans, "b:s", "d", []⟩,
    ⟨.conflictsWith, "b:t", "b:s", []⟩]

theorem conflictExposure_exact_exposedGraph : ∃ ids, Exposure exposedGraph "eu" "us" ids ∧ ids.Pairwise (· < ·) ∧
    ∀ id, id ∈ ids ↔ Exposed exposedGraph "eu" "us" id :=
  conflictExposure_exact ⟨by decide, by decide⟩ "eu" "us"

example : conflictExposure 10 exposedGraph "eu" "us" = some ["b:t"] := by decide +kernel

end Ke.Export
