/-
The gate and the graph: the compiler runs conflict detection on the rules as lowered from source,
the graph export on the rules decoded from the artifact assembled from them.
-/
import KeEngine.Artifact.ArtifactLaws
import KeEngine.Compiler.T4Canonical
import KeEngine.Compiler.Verify

namespace Ke.T4

open Ke Wire

/-! ## Conflict edges -/

def ConflictClass.debug : ConflictClass → String
  | .contradictoryOutcome => "ContradictoryOutcome"
  | .overlappingScope => "OverlappingScope"
  | .temporalOverlap => "TemporalOverlap"
  | .duplicateRule => "DuplicateRule"

def Severity.debug : Severity → String
  | .blocking => "Blocking"
  | .reviewRequired => "ReviewRequired"
  | .advisory => "Advisory"

/-- A `CONFLICTS_WITH` edge between two rules of an artifact. -/
structure ConflictEdge where
  «from» : String
  «to» : String
  props : List (String × String)
deriving DecidableEq

def ruleNodeId (artifactHex ruleId : String) : String := artifactHex ++ ":" ++ ruleId

/-- One edge a conflict, its endpoints sorted. -/
def conflictEdges (artifactHex : String) (rules : List RuleIR) : List ConflictEdge :=
  (Compiler.verify rules).conflicts.map fun conflict =>
    let ids := sortBy compare conflict.ruleIds
    { «from» := ruleNodeId artifactHex (ids.headD "")
      «to» := ruleNodeId artifactHex (ids.getLastD "")
      props := [("class", conflict.class_.debug), ("severity", conflict.severity.debug)] }

/-- The edges depend on the reports of the pairs only. -/
theorem conflictEdges_eq {artifactHex : String} {rules rules' : List RuleIR}
    (h : (pairs rules').map report = (pairs rules).map report) :
    conflictEdges artifactHex rules' = conflictEdges artifactHex rules := by
  have hsum : (detectConflicts rules').map Conflict.summary = (detectConflicts rules).map Conflict.summary := by
    rw [detectConflicts_summary, detectConflicts_summary, h]
  have hedge : ∀ rs : List RuleIR, conflictEdges artifactHex rs =
      ((detectConflicts rs).map Conflict.summary).map fun (s : List String × ConflictClass × Severity) =>
        { «from» := ruleNodeId artifactHex ((sortBy compare s.1).headD "")
          «to» := ruleNodeId artifactHex ((sortBy compare s.1).getLastD "")
          props := [("class", s.2.1.debug), ("severity", s.2.2.debug)] } := by
    intro rs
    rw [List.map_map]
    rfl
  rw [hedge, hedge, hsum]

/-! ## Agreement -/

section

variable {X : Externals} {manifest : Manifest} {rules : List RuleIR} {auditVersions : AuditVersions} {seed : Hash32}
  {keyId : String} {a : Artifact} {kew : Bytes}

/-- The artifact assembled from rules carries, and decodes to, the canonical rules. -/
theorem decode_assembled_rules (h : assemblePayload X manifest (.rules rules) auditVersions seed keyId = .ok (a, kew))
    (hkind : manifest.artifactKind ≠ .intentSpec) :
    ∃ rules' n, canonicalizeRules X.isNfc rules = .ok rules' ∧ decodeArtifact X kew = .ok (a, n) ∧
      a.payload = .rules rules' := by
  have hasm := assemblePayload_ok h
  have hagrees : (ArtifactPayload.rules rules).Agrees manifest.artifactKind := hkind
  obtain ⟨n, hdec, -, -⟩ := hasm.decode hagrees
  obtain ⟨index, hp⟩ := hasm.payload_eq
  obtain ⟨rules', hr, hp⟩ := bind_ok.1 hp
  have hp := pure_ok.1 hp
  simp only [Prod.mk.injEq] at hp
  exact ⟨rules', n, hr, hdec, hp.1.symm⟩

/-- The report of every pair of rules, from source and from the decoded artifact, agrees exactly
when each pair is a duplicate or has its overlap decided by value. -/
theorem gate_agrees_with_graph_iff
    (h : assemblePayload X manifest (.rules rules) auditVersions seed keyId = .ok (a, kew))
    (hkind : manifest.artifactKind ≠ .intentSpec) :
    ∃ decoded n rules', decodeArtifact X kew = .ok (decoded, n) ∧ decoded.payload = .rules rules' ∧
      ((pairs rules').map report = (pairs rules).map report ↔ ∀ p ∈ pairs rules, Duplicate p ∨ OverlapByValue p) := by
  obtain ⟨rules', n, hr, hdec, hp⟩ := decode_assembled_rules h hkind
  exact ⟨a, n, rules', hdec, hp, reports_canonical hr⟩

/-- Where the reports agree, an artifact that passed the gate shows no contradiction in the graph. -/
theorem conflictEdges_no_blocking {artifactHex : String} {rules rules' : List RuleIR}
    (hgate : ∀ c ∈ detectConflicts rules, c.severity ≠ .blocking)
    (h : (pairs rules').map report = (pairs rules).map report) :
    ∀ e ∈ conflictEdges artifactHex rules', ("severity", Severity.blocking.debug) ∉ e.props := by
  rw [conflictEdges_eq h]
  intro e he hmem
  obtain ⟨c, hc, rfl⟩ := List.mem_map.1 he
  have hsev : Severity.blocking.debug = c.severity.debug := by
    simpa using hmem
  refine hgate c hc ?_
  cases hs : c.severity with
  | blocking => rfl
  | _ =>
    rw [hs] at hsev
    exact absurd hsev (by decide)

end

/-! ## Five, written in two ways -/

/-- Two rules on one literal written in two ways, with opposite outcomes. -/
def fiveRules : List RuleIR :=
  [.bare "a" (some ⟨some [.condition ⟨"x", .eq, .decimal (.lit 128 50) (.lit 8 1), none⟩], none⟩) (.result "permit"),
    .bare "b" (some ⟨some [.condition ⟨"x", .eq, .decimal (.lit 128 5) (.lit 8 0), none⟩], none⟩) (.result "forbid")]

/-- A manifest of a rule pack. -/
def packManifest : Manifest where
  artifactKind := .regimePack
  artifactHash := zeroHash
  regimeId := "regime"
  effectiveFrom := ⟨.lit 16 2024, 1, 1⟩
  effectiveTo := none
  compilerVersion := ⟨0, 1, 0⟩
  compilerBuildHash := zeroHash
  irSchemaVersion := Ke.irSchemaVersion
  codecVersion := Ke.codecVersion
  canonicalizationVersion := Ke.canonicalizationVersion
  corpusRootHash := zeroHash
  sourceCorpusHash := zeroHash
  attestationPolicyVersion := "ap-1"

/-- The artifact assembled from the two rules. -/
def fiveArtifact : Except ArtifactError (Artifact × Bytes) :=
  assemblePayload standIn packManifest (.rules fiveRules) ⟨none, none⟩ TestKeys.fixedSeed TestKeys.testKeyId

theorem fiveArtifact_ok : ∃ p, fiveArtifact = .ok p := exists_ok (by decide +kernel)

theorem gate_agrees_with_graph_iff_fiveRules : ∃ a kew, fiveArtifact = .ok (a, kew) ∧
    ∃ decoded n rules', decodeArtifact standIn kew = .ok (decoded, n) ∧ decoded.payload = .rules rules' ∧
      ((pairs rules').map report = (pairs fiveRules).map report ↔
        ∀ p ∈ pairs fiveRules, Duplicate p ∨ OverlapByValue p) := by
  obtain ⟨⟨a, kew⟩, h⟩ := fiveArtifact_ok
  exact ⟨a, kew, h, gate_agrees_with_graph_iff h (by decide)⟩

/-- The gate compares `50:1` with `5:0` and reports nothing; the graph compares `5:0` with itself. -/
theorem graph_shows_unreported_conflict : ∃ a kew decoded n rules', fiveArtifact = .ok (a, kew) ∧
    decodeArtifact standIn kew = .ok (decoded, n) ∧ decoded.payload = .rules rules' ∧ detectConflicts fiveRules = [] ∧
      (detectConflicts rules').map Conflict.summary = [(["a", "b"], .contradictoryOutcome, .blocking)] := by
  obtain ⟨⟨a, kew⟩, h⟩ := fiveArtifact_ok
  obtain ⟨rules', n, hr, hdec, hp⟩ := decode_assembled_rules h (by decide)
  refine ⟨a, kew, a, n, rules', h, hdec, hp, by decide +kernel, ?_⟩
  have hsum : (canonicalizeRules standIn.isNfc fiveRules).map (fun rs => (detectConflicts rs).map Conflict.summary) =
      .ok [(["a", "b"], .contradictoryOutcome, .blocking)] := by
    decide +kernel
  rw [hr] at hsum
  simpa only [Except.map, Except.ok.injEq] using hsum

end Ke.T4
