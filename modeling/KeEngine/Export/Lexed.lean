/-
The exported text against a lexer that takes it for any script. Ids and values may hold quotes, backslashes,
semicolons, line ends and comment marks; each is in a literal, and none ends it. The names of properties are
written as they are, those of an exported graph being names.
-/
import KeEngine.Cypher.Lexer
import KeEngine.Export.Faithful

namespace Ke.Export

open Ke Cypher

def Node.tokens (node : Node) : List Token := node.merge.tokens "id"

def Edge.tokens (edge : Edge) : List Token := edge.merge.tokens "id"

/-- The text of a graph lexes to one statement for each node and then one for each edge, in their order, and the
texts in them are the ids and the values. -/
structure LexesBack (g : Graph) : Prop where
  statements : lexStatements (renderCypher g) = some (g.nodes.map (·.tokens) ++ g.edges.map (·.tokens))
  texts : (lexStatements (renderCypher g)).map (fun statements => statements.map textsOf) =
    some (g.nodes.map (fun n => n.id :: n.props.map (·.2)) ++
      g.edges.map fun e => e.from :: e.to :: e.props.map (·.2))

theorem lexesBack_of_named {g : Graph} (h : g.Named) : LexesBack g := by
  have hstatements : lexStatements (renderCypher g) = some (g.script.map (·.tokens "id")) := by
    rw [renderCypher_eq]
    exact lexStatements_chars (by decide) (script_named h)
  constructor
  · rw [hstatements, Graph.script, loadScript, List.map_append]
    simp only [List.map_map]
    rfl
  · rw [hstatements, Option.map_some, List.map_map]
    have htexts : textsOf ∘ (fun st : Statement => st.tokens "id") = Statement.texts := funext textsOf_tokens
    rw [htexts, Graph.script, loadScript, List.map_append]
    simp only [List.map_map]
    rfl

/-- Whatever its ids and values, a graph lexes back where its properties have names, and those of every exported
graph do. -/
theorem renderCypher_lexesBack : (∀ g : Graph, g.Named → LexesBack g) ∧
    ∀ artifacts : List Artifact, LexesBack (buildGraph artifacts) :=
  ⟨fun _ h => lexesBack_of_named h, fun artifacts => lexesBack_of_named (buildGraph_plain artifacts).named⟩

/-- A rule whose id closes the literal, ends the statement and opens a comment, or would. -/
def hostileGraph : Graph where
  nodes := [⟨.rule, "'\x7d) DETACH DELETE n; //", [("rule_id", "\\'\n/*")]⟩, ⟨.corpusDoc, "\\", []⟩]
  edges := [⟨.cites, "'\x7d) DETACH DELETE n; //", "\\", [("article", "';\\")]⟩]

theorem renderCypher_lexesBack_hostile : LexesBack hostileGraph :=
  renderCypher_lexesBack.1 hostileGraph ⟨by decide, by decide⟩

end Ke.Export
