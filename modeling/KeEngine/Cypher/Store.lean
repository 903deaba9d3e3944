/-
A property graph, and the statements that load one: `MERGE` of a node by a label and an identifying property,
and `MERGE` of a relationship of a type between all pairs of nodes that two `MATCH` patterns pick. `MERGE`
takes everything that matches, or makes one; `SET` overwrites a property of all that was taken.
-/
import KeEngine.Cypher.Upsert
import Mathlib.Logic.Function.Basic

namespace Cypher

/-! ## The store -/

/-- The value of a property: a text, or something else. -/
inductive Value (A : Type)
  | text (s : String)
  | other (a : A)

abbrev Props (A : Type) := String → Option (Value A)

structure StoredNode (A : Type) where
  labels : List String
  props : Props A

/-- The ends are positions in the list of nodes. -/
structure StoredRel (A : Type) where
  type : String
  source : Nat
  target : Nat
  props : Props A

/-- Nodes and relationships, in the order in which they were made. -/
structure Store (A : Type) where
  nodes : List (StoredNode A)
  rels : List (StoredRel A)

def Store.empty {A : Type} : Store A := ⟨[], []⟩

/-! ## Statements -/

/-- `MERGE (n:label {key: id}) SET n.k = v …` -/
structure NodeMerge where
  label : String
  id : String
  sets : List (String × String)
deriving DecidableEq

/-- `MATCH (a {key: source}), (b {key: target}) MERGE (a)-[r:type]->(b) SET r.k = v …` -/
structure RelMerge where
  source : String
  target : String
  type : String
  sets : List (String × String)
deriving DecidableEq

inductive Statement
  | node (m : NodeMerge)
  | rel (m : RelMerge)
deriving DecidableEq

/-- A script that makes its nodes, and then the relationships between them. -/
def loadScript (nodes : List NodeMerge) (rels : List RelMerge) : List Statement :=
  nodes.map .node ++ rels.map .rel

section

variable {A : Type}

def hasText (props : Props A) (k v : String) : Bool :=
  match props k with
  | some (.text s) => s == v
  | _ => false

def noProps : Props A := fun _ => none

def setProp (k v : String) (props : Props A) : Props A := Function.update props k (some (.text v))

variable (A) in
/-- Nodes by a label and the identifying property. -/
def nodeTable (key : String) : Table (String × String) String String (StoredNode A) where
  meets := fun w n => n.labels.contains w.1 && hasText n.props key w.2
  fresh := fun w => ⟨[w.1], setProp key w.2 noProps⟩
  set := fun k v n => { n with props := setProp k v n.props }

variable (A) in
/-- Relationships by their type and ends. -/
def relTable : Table (String × Nat × Nat) String String (StoredRel A) where
  meets := fun w r => decide ((r.type, r.source, r.target) = w)
  fresh := fun w => ⟨w.1, w.2.1, w.2.2, noProps⟩
  set := fun k v r => { r with props := setProp k v r.props }

/-- The positions of the nodes that a pattern `{key: id}` picks. -/
def positions (key : String) (nodes : List (StoredNode A)) (id : String) : List Nat :=
  (List.range nodes.length).filter fun i => nodes[i]?.any fun n => hasText n.props key id

def NodeMerge.upsert (m : NodeMerge) : Upsert (String × String) String String := ⟨[(m.label, m.id)], m.sets⟩

/-- A relationship for each pair of nodes that is picked. -/
def RelMerge.upsert (key : String) (nodes : List (StoredNode A)) (m : RelMerge) :
    Upsert (String × Nat × Nat) String String where
  wants := (positions key nodes m.source).flatMap fun i => (positions key nodes m.target).map fun j => (m.type, i, j)
  sets := m.sets

def exec (key : String) (s : Store A) : Statement → Store A
  | .node m => { s with nodes := (nodeTable A key).apply s.nodes m.upsert }
  | .rel m => { s with rels := (relTable A).apply s.rels (m.upsert key s.nodes) }

def execAll (key : String) (s : Store A) (script : List Statement) : Store A := script.foldl (exec key) s

end

/-! ## The tables are lawful -/

section

variable {A : Type} {key : String}

theorem setProp_setProp (k v v' : String) (props : Props A) : setProp k v (setProp k v' props) = setProp k v props :=
  Function.update_idem ..

theorem setProp_comm {k k' : String} (v v' : String) (props : Props A) (h : k ≠ k') :
    setProp k v (setProp k' v' props) = setProp k' v' (setProp k v props) := Function.update_comm h.symm ..

theorem hasText_setProp_self {k v v' : String} {props : Props A} : hasText (setProp k v props) k v' = (v == v') := by
  unfold hasText setProp
  rw [Function.update_self]

theorem hasText_setProp_of_ne {k k' v v' : String} {props : Props A} (h : k ≠ k') :
    hasText (setProp k v props) k' v' = hasText props k' v' := by
  unfold hasText setProp
  rw [Function.update_of_ne h.symm]

theorem nodeTable_lawful : (nodeTable A key).Lawful where
  meets_fresh := by
    intro w w'
    show ([w'.1].contains w.1 && hasText (setProp key w'.2 noProps) key w.2) = true ↔ w = w'
    rw [hasText_setProp_self, Bool.and_eq_true, List.contains_iff_mem, List.mem_singleton, beq_iff_eq, Prod.ext_iff]
    exact and_congr_right' eq_comm
  set_set := by
    intro k v v' n
    show (⟨n.labels, setProp k v (setProp k v' n.props)⟩ : StoredNode A) = ⟨n.labels, setProp k v n.props⟩
    rw [setProp_setProp]
  set_comm := by
    intro k k' v v' n h
    show (⟨n.labels, setProp k v (setProp k' v' n.props)⟩ : StoredNode A) =
      ⟨n.labels, setProp k' v' (setProp k v n.props)⟩
    rw [setProp_comm v v' n.props h]

theorem relTable_lawful : (relTable A).Lawful where
  meets_fresh := by
    intro w w'
    show decide (w' = w) = true ↔ w = w'
    rw [decide_eq_true_iff]
    exact eq_comm
  set_set := by
    intro k v v' r
    show (⟨r.type, r.source, r.target, setProp k v (setProp k v' r.props)⟩ : StoredRel A) = _
    rw [setProp_setProp]
    rfl
  set_comm := by
    intro k k' v v' r h
    show (⟨r.type, r.source, r.target, setProp k v (setProp k' v' r.props)⟩ : StoredRel A) = _
    rw [setProp_comm v v' r.props h]
    rfl

/-- What identifies a node is not set. -/
theorem nodeTable_keeps {u : Upsert (String × String) String String} (h : key ∉ u.sets.map (·.1)) :
    (nodeTable A key).Keeps u := by
  intro kv hkv w n
  have hne : kv.1 ≠ key := fun heq => h (heq ▸ List.mem_map_of_mem hkv)
  show (n.labels.contains w.1 && hasText (setProp kv.1 kv.2 n.props) key w.2) = _
  rw [hasText_setProp_of_ne hne]
  rfl

theorem relTable_keeps (u : Upsert (String × Nat × Nat) String String) : (relTable A).Keeps u :=
  fun _ _ _ _ => rfl

/-! ## Loading -/

theorem execAll_append (s : Store A) (before after : List Statement) :
    execAll key s (before ++ after) = execAll key (execAll key s before) after := List.foldl_append

theorem execAll_nodes : ∀ (nodes : List NodeMerge) (s : Store A), execAll key s (nodes.map .node) =
    { s with nodes := (nodeTable A key).run s.nodes (nodes.map (·.upsert)) }
  | [], _ => rfl
  | m :: nodes, s => execAll_nodes nodes (exec key s (.node m))

/-- Relationships are made on nodes that stay as they are. -/
theorem execAll_rels : ∀ (rels : List RelMerge) (s : Store A), execAll key s (rels.map .rel) =
    { s with rels := (relTable A).run s.rels (rels.map (·.upsert key s.nodes)) }
  | [], _ => rfl
  | m :: rels, s => execAll_rels rels (exec key s (.rel m))

theorem execAll_load (s : Store A) (nodes : List NodeMerge) (rels : List RelMerge) :
    execAll key s (loadScript nodes rels) =
      ⟨(nodeTable A key).run s.nodes (nodes.map (·.upsert)),
        (relTable A).run s.rels (rels.map (·.upsert key ((nodeTable A key).run s.nodes (nodes.map (·.upsert)))))⟩ := by
  rw [loadScript, execAll_append, execAll_nodes, execAll_rels]

theorem keeps_upserts {nodes : List NodeMerge} (h : ∀ m ∈ nodes, key ∉ m.sets.map (·.1)) :
    ∀ u ∈ nodes.map (·.upsert), (nodeTable A key).Keeps u := by
  intro u hu
  obtain ⟨m, hm, rfl⟩ := List.mem_map.1 hu
  exact nodeTable_keeps (h m hm)

theorem keeps_relUpserts {us : List (Upsert (String × Nat × Nat) String String)} : ∀ u ∈ us, (relTable A).Keeps u :=
  fun u _ => relTable_keeps u

/-- A load that does not set what identifies a node changes nothing when it is repeated. -/
theorem execAll_twice {nodes : List NodeMerge} {rels : List RelMerge} (s : Store A)
    (h : ∀ m ∈ nodes, key ∉ m.sets.map (·.1)) :
    execAll key (execAll key s (loadScript nodes rels)) (loadScript nodes rels) =
      execAll key s (loadScript nodes rels) := by
  rw [execAll_load s, execAll_load]
  simp only
  rw [Table.run_run nodeTable_lawful (keeps_upserts h), Table.run_run relTable_lawful keeps_relUpserts]

end

end Cypher
