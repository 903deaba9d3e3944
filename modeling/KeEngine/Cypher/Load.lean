/-
A script loaded on an empty store, when each node has an id of its own. The store then holds every node of the
script. It holds the relationships exactly when their ends are nodes and no two of one type have the same ends:
those are one relationship, with the properties of the last.
-/
import KeEngine.Cypher.Store
import Mathlib.Data.List.Perm.Basic

namespace Cypher

variable {A : Type} {key : String} {nodes : List NodeMerge} {rels : List RelMerge}

/-! ## What a script is about -/

/-- Properties, of a key the first. -/
def propsOf (kvs : List (String × String)) : Props A := fun k => (kvs.lookup k).map .text

/-- The node that a statement is about. -/
def NodeMerge.stored (key : String) (m : NodeMerge) : StoredNode A := ⟨[m.label], propsOf ((key, m.id) :: m.sets)⟩

/-- A relationship as it is seen: by the ids of its ends. -/
abbrev RelView (A : Type) := String × Option (Value A) × Option (Value A) × Props A

def RelMerge.view (m : RelMerge) : RelView A := (m.type, some (.text m.source), some (.text m.target), propsOf m.sets)

/-- What identifies a relationship. -/
def RelMerge.ends (m : RelMerge) : String × String × String := (m.type, m.source, m.target)

/-- The id of the node at a position. -/
def Store.idAt (key : String) (s : Store A) (i : Nat) : Option (Value A) := s.nodes[i]?.bind fun n => n.props key

def Store.view (key : String) (s : Store A) (r : StoredRel A) : RelView A :=
  (r.type, s.idAt key r.source, s.idAt key r.target, r.props)

/-- The store holds these nodes and these relationships, each as often as it is listed, and nothing else. -/
structure Holds (key : String) (s : Store A) (nodes : List NodeMerge) (rels : List RelMerge) : Prop where
  nodes : s.nodes.Perm (nodes.map (·.stored key))
  rels : (s.rels.map (s.view key)).Perm (rels.map (·.view))

/-- Each node has an id of its own, which it does not set; no property is set twice. -/
structure Loadable (key : String) (nodes : List NodeMerge) (rels : List RelMerge) : Prop where
  ids : (nodes.map (·.id)).Nodup
  nodeKeys : ∀ m ∈ nodes, (key :: m.sets.map (·.1)).Nodup
  relKeys : ∀ m ∈ rels, (m.sets.map (·.1)).Nodup

/-! ## Properties -/

theorem foldl_setProp : ∀ {sets : List (String × String)} {props : Props A}, (sets.map (·.1)).Nodup →
    sets.foldl (fun props kv => setProp kv.1 kv.2 props) props =
      fun k => ((sets.lookup k).map Value.text).or (props k)
  | [], props, _ => rfl
  | (k₀, v₀) :: sets, props, h => by
    obtain ⟨hk, hrest⟩ := List.nodup_cons.1 h
    rw [List.foldl_cons, foldl_setProp hrest]
    funext k
    rw [List.lookup_cons]
    by_cases heq : k = k₀
    · have hnone : sets.lookup k₀ = none := by
        rw [List.lookup_eq_none_iff]
        exact fun p hp => bne_iff_ne.2 fun heq => hk (List.mem_map.2 ⟨p, hp, heq.symm⟩)
      rw [heq, hnone, beq_self_eq_true, setProp, Function.update_self]
      rfl
    · rw [beq_false_of_ne heq, setProp, Function.update_of_ne heq]

/-- Properties that are set where there are none. -/
theorem foldl_noProps {sets : List (String × String)} (h : (sets.map (·.1)).Nodup) :
    sets.foldl (fun props kv => setProp kv.1 kv.2 props) noProps = (propsOf sets : Props A) := by
  rw [foldl_setProp h]
  exact funext fun k => Option.or_none

theorem assign_node {sets : List (String × String)} : ∀ {n : StoredNode A}, (nodeTable A key).assign sets n =
    ⟨n.labels, sets.foldl (fun props kv => setProp kv.1 kv.2 props) n.props⟩ := by
  induction sets with
  | nil => exact fun {n} => rfl
  | cons kv sets ih => exact fun {n} => @ih ⟨n.labels, setProp kv.1 kv.2 n.props⟩

theorem assign_rel {sets : List (String × String)} : ∀ {r : StoredRel A}, (relTable A).assign sets r =
    ⟨r.type, r.source, r.target, sets.foldl (fun props kv => setProp kv.1 kv.2 props) r.props⟩ := by
  induction sets with
  | nil => exact fun {r} => rfl
  | cons kv sets ih => exact fun {r} => @ih ⟨r.type, r.source, r.target, setProp kv.1 kv.2 r.props⟩

/-- A property has a text exactly when it is listed with it. -/
theorem hasText_propsOf : ∀ {kvs : List (String × String)}, (kvs.map (·.1)).Nodup → ∀ {k v : String},
    hasText (propsOf kvs : Props A) k v = kvs.any fun kv => kv.1 == k && kv.2 == v
  | [], _, _, _ => rfl
  | (k₀, v₀) :: kvs, h, k, v => by
    obtain ⟨hk, hrest⟩ := List.nodup_cons.1 h
    have hih := @hasText_propsOf kvs hrest k v
    unfold hasText propsOf at hih ⊢
    rw [List.lookup_cons, List.any_cons]
    by_cases heq : k = k₀
    · have hnone : (kvs.any fun kv => kv.1 == k && kv.2 == v) = false := by
        rw [List.any_eq_false]
        intro kv hkv hboth
        rw [Bool.and_eq_true, beq_iff_eq, beq_iff_eq, heq] at hboth
        exact hk (List.mem_map.2 ⟨kv, hkv, hboth.1⟩)
      rw [hnone, heq, beq_self_eq_true, Bool.true_and, Bool.or_false]
      rfl
    · rw [beq_false_of_ne heq, beq_false_of_ne (Ne.symm heq), Bool.false_and, Bool.false_or, ← hih]

/-! ## Nodes -/

theorem load_nodes (h : Loadable key nodes rels) :
    (nodeTable A key).run [] (nodes.map (·.upsert)) = nodes.map (·.stored key) := by
  have hkeeps : ∀ u ∈ nodes.map (·.upsert), (nodeTable A key).Keeps u :=
    keeps_upserts fun m hm => (List.nodup_cons.1 (h.nodeKeys m hm)).1
  have hwants : Table.wants (nodes.map (·.upsert)) = nodes.map fun m => (m.label, m.id) := by
    rw [Table.wants, List.flatMap_map, List.map_eq_flatMap]
    rfl
  have hnodup : (Table.wants (nodes.map (·.upsert))).Nodup := by
    rw [hwants]
    have hids := h.ids
    rw [show (fun m : NodeMerge => m.id) = Prod.snd ∘ fun m => (m.label, m.id) from rfl, ← List.map_map] at hids
    exact hids.of_map
  rw [Table.run_of_distinct nodeTable_lawful hkeeps hnodup (fun _ _ _ hx => absurd hx List.not_mem_nil),
    List.nil_append, List.flatMap_map, List.map_eq_flatMap]
  refine List.flatMap_congr fun m hm => ?_
  show [(nodeTable A key).assign m.sets ⟨[m.label], setProp key m.id noProps⟩] = _
  rw [assign_node, NodeMerge.stored,
    ← foldl_noProps (show (((key, m.id) :: m.sets).map (·.1)).Nodup from h.nodeKeys m hm)]
  rfl

/-- The ids of the nodes that a load leaves. -/
theorem stored_id (m : NodeMerge) : (m.stored key : StoredNode A).props key = some (.text m.id) := by
  show (List.lookup key ((key, m.id) :: m.sets)).map Value.text = _
  rw [List.lookup_cons, beq_self_eq_true]
  rfl

theorem picked_iff {i : Nat} {id : String} :
    ((nodes.map (·.stored key) : List (StoredNode A))[i]?.any fun n => hasText n.props key id) = true ↔
      (nodes.map (·.id))[i]? = some id := by
  rw [List.getElem?_map, List.getElem?_map]
  cases nodes[i]? with
  | none => exact iff_of_false nofun nofun
  | some m =>
    simp only [Option.map_some, Option.any_some, hasText, stored_id, beq_iff_eq, Option.some.injEq]

/-- A pattern picks the node of its id. -/
theorem positions_load (h : Loadable key nodes rels) {id : String} (hid : id ∈ nodes.map (·.id)) :
    positions key (nodes.map (·.stored key) : List (StoredNode A)) id = [(nodes.map (·.id)).idxOf id] := by
  have hlt := List.idxOf_lt_length_of_mem hid
  have hpick : ∀ i ∈ List.range (nodes.map (·.stored key) : List (StoredNode A)).length,
      ((nodes.map (·.stored key) : List (StoredNode A))[i]?.any fun n => hasText n.props key id) =
        (i == (nodes.map (·.id)).idxOf id) := by
    intro i hi
    rw [Bool.eq_iff_iff, picked_iff, beq_iff_eq]
    constructor
    · intro hsome
      obtain ⟨hi, hget⟩ := List.getElem?_eq_some_iff.1 hsome
      rw [← hget, h.ids.idxOf_getElem i hi]
    · rintro rfl
      rw [List.getElem?_eq_getElem hlt, List.getElem_idxOf hlt]
  rw [positions, List.filter_congr hpick, List.filter_beq, List.count_eq_one_of_mem List.nodup_range]
  · rfl
  · rw [List.mem_range, List.length_map]
    rwa [List.length_map] at hlt

/-! ## Relationships -/

/-- The relationship that a statement is about. -/
def RelMerge.stored (ids : List String) (m : RelMerge) : StoredRel A :=
  ⟨m.type, ids.idxOf m.source, ids.idxOf m.target, propsOf m.sets⟩

theorem wants_load (h : Loadable key nodes rels) {m : RelMerge} (hsource : m.source ∈ nodes.map (·.id))
    (htarget : m.target ∈ nodes.map (·.id)) :
    (m.upsert key (nodes.map (·.stored key) : List (StoredNode A))).wants =
      [(m.type, (nodes.map (·.id)).idxOf m.source, (nodes.map (·.id)).idxOf m.target)] := by
  unfold RelMerge.upsert
  rw [positions_load h hsource, positions_load h htarget]
  rfl

/-- Relationships between nodes, no two of them alike, are all made. -/
theorem load_rels (h : Loadable key nodes rels)
    (hends : ∀ m ∈ rels, m.source ∈ nodes.map (·.id) ∧ m.target ∈ nodes.map (·.id))
    (hdistinct : (rels.map (·.ends)).Nodup) :
    (relTable A).run [] (rels.map (·.upsert key (nodes.map (·.stored key) : List (StoredNode A)))) =
      rels.map (·.stored (nodes.map (·.id))) := by
  have hwants : Table.wants (rels.map (·.upsert key (nodes.map (·.stored key) : List (StoredNode A)))) =
      rels.map fun m => (m.type, (nodes.map (·.id)).idxOf m.source, (nodes.map (·.id)).idxOf m.target) := by
    rw [Table.wants, List.flatMap_map]
    exact (List.flatMap_congr fun m hm => wants_load h (hends m hm).1 (hends m hm).2).trans List.map_eq_flatMap.symm
  have hnodup : (Table.wants (rels.map (·.upsert key (nodes.map (·.stored key) : List (StoredNode A))))).Nodup := by
    rw [hwants]
    refine List.Nodup.map_on ?_ hdistinct.of_map
    intro m hm m' hm' heq
    obtain ⟨htype, hends'⟩ := Prod.mk.inj heq
    obtain ⟨hsource, htarget⟩ := Prod.mk.inj hends'
    refine List.inj_on_of_nodup_map hdistinct hm hm' (Prod.ext htype (Prod.ext ?_ ?_))
    · exact (List.idxOf_inj (hends m hm).1).1 hsource
    · exact (List.idxOf_inj (hends m hm).2).1 htarget
  rw [Table.run_of_distinct relTable_lawful keeps_relUpserts hnodup (fun _ _ _ hx => absurd hx List.not_mem_nil),
    List.nil_append, List.flatMap_map]
  refine (List.flatMap_congr fun m hm => ?_).trans List.map_eq_flatMap.symm
  rw [wants_load h (hends m hm).1 (hends m hm).2, List.map_singleton, assign_rel, RelMerge.stored]
  show [_] = [_]
  rw [← foldl_noProps (h.relKeys m hm)]
  rfl

theorem idAt_idxOf {s : Store A} (hnodes : s.nodes = nodes.map (·.stored key)) {id : String}
    (hid : id ∈ nodes.map (·.id)) : s.idAt key ((nodes.map (·.id)).idxOf id) = some (.text id) := by
  have hlt := List.idxOf_lt_length_of_mem hid
  have hget := List.getElem_idxOf hlt
  rw [List.getElem_map] at hget
  have hlt' : (nodes.map (·.id)).idxOf id < nodes.length := by rwa [List.length_map] at hlt
  unfold Store.idAt
  rw [hnodes, List.getElem?_map, List.getElem?_eq_getElem hlt', Option.map_some, Option.bind_some, stored_id, hget]

/-- A position with an id is that of the node. -/
theorem idAt_some (h : Loadable key nodes rels) {s : Store A} (hnodes : s.nodes = nodes.map (·.stored key)) {i : Nat}
    {v : Value A} (hv : s.idAt key i = some v) :
    ∃ id ∈ nodes.map (·.id), v = .text id ∧ i = (nodes.map (·.id)).idxOf id := by
  unfold Store.idAt at hv
  obtain ⟨n, hn, hprops⟩ := Option.bind_eq_some_iff.1 hv
  rw [hnodes, List.getElem?_map] at hn
  obtain ⟨m, hm, rfl⟩ := Option.map_eq_some_iff.1 hn
  rw [stored_id] at hprops
  have hget : (nodes.map (·.id))[i]? = some m.id := by rw [List.getElem?_map, hm, Option.map_some]
  obtain ⟨hi, hid⟩ := List.getElem?_eq_some_iff.1 hget
  refine ⟨m.id, List.mem_of_getElem? hget, (Option.some.inj hprops).symm, ?_⟩
  rw [← hid, h.ids.idxOf_getElem i hi]

theorem idAt_inj (h : Loadable key nodes rels) {s : Store A} (hnodes : s.nodes = nodes.map (·.stored key)) {i j : Nat}
    {v : Value A} (hi : s.idAt key i = some v) (hj : s.idAt key j = some v) : i = j := by
  obtain ⟨id, -, rfl, rfl⟩ := idAt_some h hnodes hi
  obtain ⟨id', -, hv, rfl⟩ := idAt_some h hnodes hj
  cases hv
  rfl

/-- What a load leaves on an empty store. -/
theorem load_empty (h : Loadable key nodes rels) : execAll key (.empty : Store A) (loadScript nodes rels) =
    ⟨nodes.map (·.stored key),
      (relTable A).run [] (rels.map (·.upsert key (nodes.map (·.stored key) : List (StoredNode A))))⟩ := by
  rw [execAll_load, show (Store.empty : Store A).nodes = [] from rfl, show (Store.empty : Store A).rels = [] from rfl,
    load_nodes h]

/-! ## Faithful loads -/

theorem holds_of_distinct (h : Loadable key nodes rels)
    (hends : ∀ m ∈ rels, m.source ∈ nodes.map (·.id) ∧ m.target ∈ nodes.map (·.id))
    (hdistinct : (rels.map (·.ends)).Nodup) :
    Holds key (execAll key (.empty : Store A) (loadScript nodes rels)) nodes rels := by
  rw [load_empty h, load_rels h hends hdistinct]
  refine ⟨.refl _, .of_eq ?_⟩
  rw [List.map_map]
  refine List.map_congr_left fun m hm => ?_
  have hids := fun id hid => @idAt_idxOf A key nodes
    ⟨nodes.map (·.stored key), rels.map (·.stored (nodes.map (·.id)))⟩ rfl id hid
  exact Prod.ext rfl (Prod.ext (hids _ (hends m hm).1) (Prod.ext (hids _ (hends m hm).2) rfl))

/-- Two relationships with one type between the same nodes are one. -/
theorem distinct_of_holds (h : Loadable key nodes rels)
    (hholds : Holds key (execAll key (.empty : Store A) (loadScript nodes rels)) nodes rels) :
    (∀ m ∈ rels, m.source ∈ nodes.map (·.id) ∧ m.target ∈ nodes.map (·.id)) ∧ (rels.map (·.ends)).Nodup := by
  rw [load_empty h] at hholds
  obtain ⟨-, hrels⟩ := hholds
  obtain ⟨hapart, -⟩ := @Table.run_nil _ _ _ _ (relTable A)
    (rels.map (·.upsert key (nodes.map (·.stored key) : List (StoredNode A)))) relTable_lawful keeps_relUpserts
  generalize (relTable A).run [] (rels.map (·.upsert key (nodes.map (·.stored key) : List (StoredNode A)))) = made
    at hrels hapart
  have hseen : ∀ r ∈ made, ∃ m ∈ rels, Store.view key ⟨nodes.map (·.stored key), made⟩ r = m.view := by
    intro r hr
    obtain ⟨m, hm, heq⟩ := List.mem_map.1 (hrels.mem_iff.1 (List.mem_map_of_mem hr))
    exact ⟨m, hm, heq.symm⟩
  constructor
  · intro m hm
    obtain ⟨r, -, hview⟩ := List.mem_map.1 (hrels.mem_iff.2 (List.mem_map_of_mem hm))
    obtain ⟨-, hview⟩ := Prod.mk.inj hview
    obtain ⟨hsource, hview⟩ := Prod.mk.inj hview
    obtain ⟨id, hid, hv, -⟩ := idAt_some h rfl hsource
    obtain ⟨id', hid', hv', -⟩ := idAt_some h rfl (Prod.mk.inj hview).1
    cases hv
    cases hv'
    exact ⟨hid, hid'⟩
  · let ends := fun r : StoredRel A => (r.type, Store.idAt key ⟨nodes.map (·.stored key), made⟩ r.source,
      Store.idAt key ⟨nodes.map (·.stored key), made⟩ r.target)
    have hmade : (made.map ends).Nodup := by
      rw [List.Nodup, List.pairwise_map]
      refine hapart.imp_of_mem fun {r r'} hr _ hne heq => ?_
      obtain ⟨m, -, hview⟩ := hseen r hr
      obtain ⟨htype, heq⟩ := Prod.mk.inj heq
      obtain ⟨hsource, htarget⟩ := Prod.mk.inj heq
      obtain ⟨-, hview⟩ := Prod.mk.inj hview
      obtain ⟨hfrom, hview⟩ := Prod.mk.inj hview
      have hto := (Prod.mk.inj hview).1
      -- both ends have ids, so equal ids are equal positions
      have hi := idAt_inj h rfl hfrom (hsource.symm.trans hfrom)
      have hj := idAt_inj h rfl hto (htarget.symm.trans hto)
      have hmeets := hne (r.type, r.source, r.target) (decide_eq_true rfl)
      exact of_decide_eq_false hmeets (by rw [htype, hi, hj])
    have hperm : (made.map ends).Perm (rels.map fun m => (m.type, some (.text m.source), some (.text m.target))) := by
      have hcut := hrels.map fun v : RelView A => (v.1, v.2.1, v.2.2.1)
      rwa [List.map_map, List.map_map] at hcut
    have hnodup := hperm.nodup_iff.1 hmade
    rw [show (fun m : RelMerge => (m.type, some (Value.text m.source), some (Value.text m.target))) =
      (fun e : String × String × String => (e.1, some (.text e.2.1), (some (.text e.2.2) : Option (Value A)))) ∘
        fun m => m.ends from rfl, ← List.map_map] at hnodup
    exact hnodup.of_map

/-- A load on an empty store holds the script exactly when every relationship is between nodes of the script, and
no two of one type have the same ends. -/
theorem holds_load_iff (h : Loadable key nodes rels) :
    Holds key (execAll key (.empty : Store A) (loadScript nodes rels)) nodes rels ↔
      (∀ m ∈ rels, m.source ∈ nodes.map (·.id) ∧ m.target ∈ nodes.map (·.id)) ∧ (rels.map (·.ends)).Nodup :=
  ⟨distinct_of_holds h, fun hboth => holds_of_distinct h hboth.1 hboth.2⟩

end Cypher
