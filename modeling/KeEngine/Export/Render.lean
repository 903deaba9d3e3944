/-
The graph as a script that loads it: a `MERGE` for each node, then one for each edge between the nodes that
its two ids pick. Loading it once more changes nothing, unless a node has a property of the name `id`.
-/
import KeEngine.Cypher.Text
import KeEngine.Export.Graph

namespace Ke.Export

open Ke Cypher

/-! ## Rendering -/

/-- The name of a label in the database. -/
def NodeLabel.name : NodeLabel → String
  | .artifact => "Artifact"
  | .regime => "Regime"
  | .rule => "Rule"
  | .corpusDoc => "CorpusDoc"
  | .attestation => "Attestation"
  | .intentSpec => "IntentSpec"

/-- The name of a relationship type in the database. -/
def EdgeLabel.name : EdgeLabel → String
  | .inRegime => "IN_REGIME"
  | .contains => "CONTAINS"
  | .cites => "CITES"
  | .spans => "SPANS"
  | .attestedBy => "ATTESTED_BY"
  | .conflictsWith => "CONFLICTS_WITH"

/-- `str::replace` of a character. -/
def replaceChar (c : Char) (text s : String) : String :=
  .ofList (s.toList.flatMap fun d => if d = c then text.toList else [d])

/-- A text as a literal in single quotes. -/
def cypherStr (s : String) : String := "'" ++ replaceChar '\'' "\\'" (replaceChar '\\' "\\\\" s) ++ "'"

def renderNode (out : String) (node : Node) : String :=
  node.props.foldl (fun out kv => out ++ (" SET n." ++ kv.1 ++ " = " ++ cypherStr kv.2))
    (out ++ ("MERGE (n:" ++ node.label.name ++ " \x7bid: " ++ cypherStr node.id ++ "\x7d)")) ++ ";\n"

def renderEdge (out : String) (edge : Edge) : String :=
  edge.props.foldl (fun out kv => out ++ (" SET r." ++ kv.1 ++ " = " ++ cypherStr kv.2))
    (out ++ ("MATCH (a \x7bid: " ++ cypherStr edge.from ++ "\x7d), (b \x7bid: " ++ cypherStr edge.to ++
      "\x7d) MERGE (a)-[r:" ++ edge.label.name ++ "]->(b)")) ++ ";\n"

def renderCypher (graph : Graph) : String := graph.edges.foldl renderEdge (graph.nodes.foldl renderNode "")

/-! ## The script that the text is of -/

def Node.merge (node : Node) : NodeMerge := ⟨node.label.name, node.id, node.props⟩

def Edge.merge (edge : Edge) : RelMerge := ⟨edge.from, edge.to, edge.label.name, edge.props⟩

/-- The statements of a graph. -/
def Graph.script (g : Graph) : List Statement := loadScript (g.nodes.map (·.merge)) (g.edges.map (·.merge))

theorem replaceChar_toList (c : Char) (text s : String) :
    (replaceChar c text s).toList = s.toList.flatMap fun d => if d = c then text.toList else [d] := String.toList_ofList

theorem cypherStr_toList (s : String) : (cypherStr s).toList = quote s := by
  have hchar : ∀ c : Char, ((if c = '\\' then "\\\\".toList else [c]).flatMap fun d =>
      if d = '\'' then "\\'".toList else [d]) = escapeChar c := by
    intro c
    unfold escapeChar
    by_cases hslash : c = '\\'
    · rw [if_pos hslash, if_pos (.inl hslash), hslash]
      rfl
    · rw [if_neg hslash, List.flatMap_singleton]
      by_cases hquote : c = '\''
      · rw [if_pos hquote, if_pos (.inr hquote), hquote]
        rfl
      · rw [if_neg hquote, if_neg (not_or.2 ⟨hslash, hquote⟩)]
  unfold cypherStr quote
  rw [String.toList_append, String.toList_append, replaceChar_toList, replaceChar_toList, List.flatMap_assoc]
  simp only [hchar]
  rfl

theorem foldl_sets_toList (clause : String) : ∀ (props : List (String × String)) (out : String),
    (props.foldl (fun out kv => out ++ (clause ++ kv.1 ++ " = " ++ cypherStr kv.2)) out).toList =
      out.toList ++ props.flatMap (setChars clause)
  | [], out => (List.append_nil _).symm
  | kv :: props, out => by
    rw [List.foldl_cons, foldl_sets_toList clause props, List.flatMap_cons, setChars]
    simp only [String.toList_append, cypherStr_toList, List.append_assoc]

theorem renderNode_toList (out : String) (node : Node) :
    (renderNode out node).toList = out.toList ++ (Statement.node node.merge).chars "id" := by
  show _ = out.toList ++ node.merge.chars "id"
  unfold renderNode NodeMerge.chars
  rw [String.toList_append, foldl_sets_toList]
  simp only [String.toList_append, cypherStr_toList, List.append_assoc]
  rfl

theorem renderEdge_toList (out : String) (edge : Edge) :
    (renderEdge out edge).toList = out.toList ++ (Statement.rel edge.merge).chars "id" := by
  show _ = out.toList ++ edge.merge.chars "id"
  unfold renderEdge RelMerge.chars
  rw [String.toList_append, foldl_sets_toList]
  simp only [String.toList_append, cypherStr_toList, List.append_assoc]
  rfl

theorem renderCypher_eq (g : Graph) : renderCypher g = .ofList (g.script.flatMap (·.chars "id")) := by
  have hfold : ∀ {α : Type} {render : String → α → String} {statement : α → Statement},
      (∀ out a, (render out a).toList = out.toList ++ (statement a).chars "id") → ∀ (as : List α) (out : String),
        (as.foldl render out).toList = out.toList ++ (as.map statement).flatMap (·.chars "id") := by
    intro α render statement hrender as
    induction as with
    | nil => exact fun out => (List.append_nil _).symm
    | cons a as ih =>
      intro out
      rw [List.foldl_cons, ih, hrender, List.map_cons, List.flatMap_cons, List.append_assoc]
  rw [← String.toList_inj, String.toList_ofList, renderCypher, hfold renderEdge_toList, hfold renderNode_toList,
    Graph.script, loadScript, List.flatMap_append, List.map_map, List.map_map]
  rfl

/-- Names of properties that can be written without quotes. -/
structure Graph.Named (g : Graph) : Prop where
  nodes : ∀ node ∈ g.nodes, ∀ kv ∈ node.props, isName kv.1 = true
  edges : ∀ edge ∈ g.edges, ∀ kv ∈ edge.props, isName kv.1 = true

theorem NodeLabel.isName_name (label : NodeLabel) : isName label.name = true := by cases label <;> decide

theorem EdgeLabel.isName_name (label : EdgeLabel) : isName label.name = true := by cases label <;> decide

theorem script_named {g : Graph} (h : g.Named) : ∀ st ∈ g.script, st.Named := by
  intro st hst
  rcases List.mem_append.1 hst with hst | hst
  · obtain ⟨m, hm, rfl⟩ := List.mem_map.1 hst
    obtain ⟨node, hnode, rfl⟩ := List.mem_map.1 hm
    exact ⟨node.label.isName_name, h.nodes node hnode⟩
  · obtain ⟨m, hm, rfl⟩ := List.mem_map.1 hst
    obtain ⟨edge, hedge, rfl⟩ := List.mem_map.1 hm
    exact ⟨edge.label.isName_name, h.edges edge hedge⟩

/-- The text of a graph executes as the statements of the graph. -/
theorem execText_renderCypher {A : Type} {g : Graph} (h : g.Named) (s : Store A) :
    execText "id" s (renderCypher g) = some (execAll "id" s g.script) := by
  rw [execText, renderCypher_eq, readScript_chars (script_named h)]
  rfl

/-! ## Reloading -/

/-- Loading a graph on any store, and loading it again: the second time changes nothing. -/
theorem reload_noop {A : Type} {g : Graph} (hnamed : g.Named) (hid : ∀ node ∈ g.nodes, "id" ∉ node.props.map (·.1))
    (s : Store A) : ∃ loaded, execText "id" s (renderCypher g) = some loaded ∧
      execText "id" loaded (renderCypher g) = some loaded := by
  refine ⟨execAll "id" s g.script, execText_renderCypher hnamed s, ?_⟩
  rw [execText_renderCypher hnamed]
  refine congrArg some (execAll_twice s ?_)
  intro m hm
  obtain ⟨node, hnode, rfl⟩ := List.mem_map.1 hm
  exact hid node hnode

/-- Two spans of one document: an apostrophe in its name, and two articles on edges that are one relationship. -/
def spannedGraph : Graph where
  nodes := [⟨.rule, "r", [("rule_id", "r")]⟩, ⟨.corpusDoc, "d'", []⟩]
  edges := [⟨.spans, "r", "d'", [("article", "3")]⟩, ⟨.spans, "r", "d'", [("article", "4")]⟩]

/-- Two nodes share the id of the rule, and one of them is no rule. -/
theorem reload_noop_spannedGraph : ∃ loaded : Store Nat,
    execText "id" ⟨[⟨["Rule"], setProp "id" "r" noProps⟩, ⟨["Other"], setProp "id" "r" noProps⟩], []⟩
      (renderCypher spannedGraph) = some loaded ∧ execText "id" loaded (renderCypher spannedGraph) = some loaded :=
  reload_noop ⟨by decide, by decide⟩ (by decide) _

/-- A rule with a property of the name that identifies it. -/
def renamedGraph : Graph where
  nodes := [⟨.rule, "a", [("kind", ""), ("id", "b")]⟩]
  edges := []

/-- The same text, from one property whose name is none. -/
def injectedGraph : Graph where
  nodes := [⟨.rule, "a", [("kind = '' SET n.id", "b")]⟩]
  edges := []

theorem renderCypher_injectedGraph : renderCypher injectedGraph = renderCypher renamedGraph := by decide +kernel

/-- The second time, no node has the id any more, and another is made. -/
theorem execText_renamedGraph_twice : ∃ loaded : Store Nat,
    execText "id" .empty (renderCypher renamedGraph) = some loaded ∧
      execText "id" loaded (renderCypher renamedGraph) ≠ some loaded := by
  have hnamed : renamedGraph.Named := ⟨by decide, by decide⟩
  refine ⟨_, execText_renderCypher hnamed _, fun htwice => ?_⟩
  rw [execText_renderCypher hnamed] at htwice
  have hcount := congrArg (fun s => s.nodes.length) (Option.some.inj htwice)
  exact absurd hcount (by decide)

/-- Neither for every graph, nor for every graph without a property `id`. -/
theorem reload_renamed :
    (¬ ∀ (g : Graph) (s loaded : Store Nat), execText "id" s (renderCypher g) = some loaded →
      execText "id" loaded (renderCypher g) = some loaded) ∧
    ¬ ∀ (g : Graph) (s loaded : Store Nat), (∀ node ∈ g.nodes, "id" ∉ node.props.map (·.1)) →
      execText "id" s (renderCypher g) = some loaded → execText "id" loaded (renderCypher g) = some loaded := by
  obtain ⟨loaded, honce, htwice⟩ := execText_renamedGraph_twice
  constructor
  · exact fun hall => htwice (hall renamedGraph .empty loaded honce)
  · intro hall
    have hinjected := hall injectedGraph .empty loaded (by decide)
    rw [renderCypher_injectedGraph] at hinjected
    exact htwice (hinjected honce)

end Ke.Export
