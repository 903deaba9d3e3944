/-
Serve: the handlers of its requests and the router over them. They read the registry and write nothing. A
handler panics only where a hash is parsed, and then there is no answer: the loop over the requests ends. The
text of an error is kept as what it is made of.
-/
import KeEngine.Core.JsonValue
import KeEngine.Registry.HashNames
import KeEngine.Registry.Readers
import KeEngine.Registry.Resolve
import KeEngine.Runtime.Exec

namespace Ke.Serve

open Ke Wire Registry Compiler Ke.Runtime

/-! ## Requests -/

inductive Method
  | get
  | post
  | other (name : String)
deriving DecidableEq

/-- A request; its body may fail to be read as text. -/
structure Request where
  method : Method
  url : String
  body : Except String String

/-- The body of `POST /dry-run`. -/
structure DryRunRequest (F : Type) where
  source : Option String
  hash : Option String
  facts : JsonValue F

/-- What the libraries read: a body as JSON of its type, and YAML. `compact` writes JSON without spaces. -/
structure Parsers (F : Type) where
  verifyRequest : String → Except String VerifyRequest
  compilePreviewRequest : String → Except String String
  dryRunRequest : String → Except String (DryRunRequest F)
  yaml : String → Except CompileError YamlNode
  compact : JsonValue F → String

/-! ## Errors -/

/-- What the text of an error is made of. -/
inductive Detail
  | body (what message : String)
  | hash (e : RegistryError)
  | effectiveRequired
  | effective (text : String)
  | selectorRequired
  | unknownPolicy (policy : String)
  | bothSourceAndHash
  | sourceOrHashRequired
  | intentSpec
  | compile (e : CompileError)
  | facts (message : String)
  | registry (e : RegistryError)
  | noRoute (method : Method) (path : String)

structure ServeError where
  status : Nat
  kind : String
  detail : Detail

namespace ServeError

def badRequest (detail : Detail) : ServeError := ⟨400, "bad_request", detail⟩

def unprocessable (kind : String) (detail : Detail) : ServeError := ⟨422, kind, detail⟩

def internal (detail : Detail) : ServeError := ⟨500, "internal", detail⟩

/-- The status of an error of the registry. -/
def ofRegistry (err : RegistryError) : ServeError :=
  match err with
  | .notFound _ => ⟨404, "not_found", .registry err⟩
  | .ambiguous .. => ⟨409, "ambiguous", .registry err⟩
  | .badHashHex _ => ⟨400, "bad_hash_hex", .registry err⟩
  | .artifactDecode _ => ⟨400, "artifact_decode", .registry err⟩
  | _ => internal (.registry err)

/-- The errors of the verification of an artifact. -/
def ofVerify : Registry.ServeError → ServeError
  | .badHash hex => badRequest (.hash (.badHashHex hex))
  | .unknownPolicy policy => badRequest (.unknownPolicy policy)
  | .registry e => ofRegistry e

end ServeError

/-! ## Replies -/

structure FindingDto where
  tier : String
  ruleId : String
  code : String
  message : String
  blocking : Bool

structure ConflictDto where
  class_ : String
  severity : String
  message : String

structure VerificationReportDto where
  hasBlocking : Bool
  findings : List FindingDto
  conflicts : List ConflictDto

/-- The body of an answer with status 200. -/
inductive Reply
  | health (ok : Bool) (surface : String)
  | resolution (record : ResolutionRecord)
  | verification (response : VerifyResponse)
  | preview (rules : List RuleIR) (report : VerificationReportDto)
  | evaluations (evaluations : List NormalizedJson)

def tierName : Tier → String
  | .t0 => "T0"
  | .t1 => "T1"
  | .t5 => "T5"

def className : T4.ConflictClass → String
  | .contradictoryOutcome => "ContradictoryOutcome"
  | .overlappingScope => "OverlappingScope"
  | .temporalOverlap => "TemporalOverlap"
  | .duplicateRule => "DuplicateRule"

def severityName : T4.Severity → String
  | .blocking => "Blocking"
  | .reviewRequired => "ReviewRequired"
  | .advisory => "Advisory"

def projectFinding (f : Finding) : FindingDto := ⟨tierName f.tier, f.ruleId, f.code, f.message, f.blocking⟩

def projectConflict (c : T4.Conflict) : ConflictDto := ⟨className c.class_, severityName c.severity, c.detail⟩

def projectReport (report : VerificationReport) : VerificationReportDto :=
  ⟨report.hasBlocking, report.findings.map projectFinding, report.conflicts.map projectConflict⟩

/-! ## Queries -/

/-- `split_once` -/
def splitOnce? (sep : Char) (cs : List Char) : Option (List Char × List Char) :=
  if sep ∈ cs then some (splitOnce sep cs) else none

def splitPathQuery (url : String) : String × Option String :=
  match splitOnce? '?' url.toList with
  | some (path, query) => (String.ofList path, some (String.ofList query))
  | none => (url, none)

/-- The first value of a key; values are taken as they are. -/
def queryParam (query key : String) : Option String :=
  (query.toList.splitOn '&').findSome? fun pair =>
    (splitOnce? '=' pair).bind fun (k, v) => if k = key.toList then some (String.ofList v) else none

/-- The dates of the command line: three numbers, whatever date they make. -/
def parseDate (s : String) : Option JurisdictionDate :=
  match s.toList.splitOn '-' with
  | [year, month, day] => do
    let year ← parseSigned 16 year
    let month ← parseUnsigned 256 month
    let day ← parseUnsigned 256 day
    pure ⟨year, UInt8.ofNat month, UInt8.ofNat day⟩
  | _ => none

/-! ## Handlers -/

def health : Reply := .health true "ke-cli serve (preview, non-authoritative)"

section

variable (X : Externals) (Fl : Floats) (P : Parsers Fl.F)

/-- The hash of a request, or the panic of its parser. -/
def requestHash (hex : String) : Option (Except ServeError Hash32) :=
  (hexToHashOrPanic hex).map fun hash => hash.mapError fun e => .badRequest (.hash e)

def selectorOf (query : String) : Option (Except ServeError Selector) :=
  match queryParam query "hash" with
  | some hashHex => (requestHash hashHex).map fun hash => hash.map .byHash
  | none => some <|
    match queryParam query "regime" with
    | some regimeId =>
      match queryParam query "effective" with
      | none => .error (.badRequest .effectiveRequired)
      | some text =>
        match parseDate text with
        | none => .error (.badRequest (.effective text))
        | some effective => .ok (.byRegime regimeId effective ((queryParam query "env").getD "local"))
    | none =>
      match queryParam query "env", queryParam query "tag" with
      | some env, some tag => .ok (.byTag env tag)
      | _, _ => .error (.badRequest .selectorRequired)

/-- `GET /resolve` -/
def resolve (r : Backend) (query : Option String) (now : UInt64) : Option (Except ServeError Reply) :=
  (selectorOf (query.getD "")).map fun selector => do
    let selector ← selector
    let (_, record) ← (Registry.resolve X r selector now).mapError .ofRegistry
    pure (.resolution record)

/-- The evidence of serve, built as that of the export of the provenance is. -/
def registryEvidence (r : Backend) (hash : Hash32) : Except ServeError RegistryEvidence :=
  (readRegistryEvidence X r hash).mapError .ofRegistry

/-- What is answered about a hash. -/
def verifyHashed (r : Backend) (req : VerifyRequest) (now : UInt64) (hash : Hash32) : Except ServeError Reply := do
  let kew ← (r.readArtifactKew hash).mapError .ofRegistry
  let evidence ← registryEvidence X r hash
  let outcome ← (runVerify X kew req evidence now).mapError .ofVerify
  let revocation ← (r.surfacedRevocation hash outcome.registryState).mapError .ofRegistry
  pure (.verification ⟨outcome.verdict, outcome.provenance, outcome.registryState, revocation⟩)

/-- `POST /verify` -/
def verify (r : Backend) (body : String) (now : UInt64) : Option (Except ServeError Reply) :=
  match P.verifyRequest body with
  | .error e => some (.error (.badRequest (.body "parse verify body" e)))
  | .ok req => (requestHash req.hash).map fun hash => hash.bind (verifyHashed X r req now)

/-- `compile_rules` of source text. -/
def compileSource (source : String) : Except ServeError (List RuleIR) :=
  ((P.yaml source).bind compileRules).mapError fun e => .unprocessable "compile_error" (.compile e)

/-- `POST /compile/preview` -/
def compilePreview (body : String) : Except ServeError Reply := do
  let source ← (P.compilePreviewRequest body).mapError fun e => .badRequest (.body "parse compile/preview body" e)
  let rules ← compileSource Fl P source
  pure (.preview rules (projectReport (Compiler.verify rules)))

/-- The rules of a stored artifact. -/
def storedRules (r : Backend) (now : UInt64) (hash : Hash32) : Except ServeError (List RuleIR) := do
  let (resolved, _) ← (Registry.resolve X r (.byHash hash) now).mapError .ofRegistry
  let kew ← (r.readArtifactKew resolved).mapError .ofRegistry
  let (artifact, _) ← (decodeArtifact X kew).mapError fun e => ServeError.ofRegistry (.artifactDecode e)
  match artifact.payload with
  | .rules rules => pure rules
  | .intentSpec _ => throw (.badRequest .intentSpec)

/-- The rules of a dry run. -/
def dryRunRules (r : Backend) (now : UInt64) (source hash : Option String) : Option (Except ServeError (List RuleIR)) :=
  match source, hash with
  | some _, some _ => some (.error (.badRequest .bothSourceAndHash))
  | some source, none => some (compileSource Fl P source)
  | none, some hashHex => (requestHash hashHex).map fun hash => hash.bind (storedRules X r now)
  | none, none => some (.error (.badRequest .sourceOrHashRequired))

/-- `FactValue::from_json`: integers stay apart from floats, an object is its text. -/
def factOf : JsonValue Fl.F → FactValue Fl.F
  | .null => .null
  | .bool b => .bool b
  | .whole n => .int n.toI128
  | .float f => .float f
  | .str s => .str s
  | .array items => .list (facts items)
  | .object entries => .str (P.compact (.object entries))
where
  facts : List (JsonValue Fl.F) → List (FactValue Fl.F)
    | [] => []
    | item :: items => factOf item :: facts items

/-- The facts of a dry run are an object. -/
def factsFromJson (v : JsonValue Fl.F) : Except String (Facts Fl.F) :=
  match v.asObject with
  | some entries => .ok (entries.map fun entry => (entry.1, factOf Fl P entry.2))
  | none => .error "facts must be a JSON object"

/-- `POST /dry-run` -/
def dryRun (r : Backend) (body : String) (now : UInt64) : Option (Except ServeError Reply) :=
  match P.dryRunRequest body with
  | .error e => some (.error (.badRequest (.body "parse dry-run body" e)))
  | .ok req => (dryRunRules X Fl P r now req.source req.hash).map fun rules => do
    let rules ← rules
    let facts ← (factsFromJson Fl P req.facts).mapError fun e => .unprocessable "facts_error" (.facts e)
    pure (.evaluations (Runtime.dryRun Fl facts rules))

/-! ## Routes -/

/-- What a request is answered with; `/events` is a stream. -/
inductive Answer
  | reply (reply : Reply)
  | error (e : ServeError)
  | events

def Answer.status : Answer → Nat
  | .reply _ => 200
  | .events => 200
  | .error e => e.status

def Answer.of : Except ServeError Reply → Answer
  | .ok answered => .reply answered
  | .error e => .error e

/-- A handler that reads the body. -/
def withBody (body : Except String String) (handler : String → Option (Except ServeError Reply)) :
    Option (Except ServeError Reply) :=
  match body with
  | .error e => some (.error (.badRequest (.body "read body" e)))
  | .ok body => handler body

/-- The handler of a method and a path. -/
def dispatch (r : Backend) (now : UInt64) (request : Request) (path : String) (query : Option String) :
    Option (Except ServeError Reply) :=
  match request.method, path with
  | .get, "/healthz" => some (.ok health)
  | .get, "/resolve" => resolve X r query now
  | .post, "/verify" => withBody request.body fun body => verify X Fl P r body now
  | .post, "/compile/preview" => withBody request.body fun body => some (compilePreview Fl P body)
  | .post, "/dry-run" => withBody request.body fun body => dryRun X Fl P r body now
  | method, path => some (.error ⟨404, "not_found", .noRoute method path⟩)

/-- The answer to a request, or the panic of its handler. -/
def route (r : Backend) (now : UInt64) (request : Request) : Option Answer :=
  let target := splitPathQuery request.url
  if request.method = .get ∧ target.1 = "/events" then some .events
  else (dispatch X Fl P r now request target.1 target.2).map Answer.of

/-- The loop over the requests, each with the time it comes at: a panic ends it. -/
def run (r : Backend) : List (UInt64 × Request) → List Answer
  | [] => []
  | (now, request) :: requests =>
    match route X Fl P r now request with
    | none => []
    | some answer => answer :: run r requests

end

end Ke.Serve
