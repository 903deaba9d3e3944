/-
How serve answers. A request that is refused is refused for what it says: on a registry that commands have
brought about, in whatever order their operations came, an internal error means that a race has left two
events under one number. The loop over the requests ends at a hash that its parser panics on, and nowhere else.
-/
import KeEngine.Registry.Interleaved
import KeEngine.Runtime.ExactFloats
import KeEngine.Serve.Handlers

namespace Ke.Serve

open Ke Wire Registry Compiler Ke.Runtime

/-! ## Statuses -/

/-- Neither an internal error, nor a status that serve does not know. -/
def Regular (status : Nat) : Prop := status = 200 ∨ status = 400 ∨ status = 404 ∨ status = 409 ∨ status = 422

theorem ofRegistry_regular {err : RegistryError} (h : err.IsAnswer) : Regular (ServeError.ofRegistry err).status := by
  cases err <;> first | exact absurd h id | simp [ServeError.ofRegistry, Regular]

theorem ofRegistry_internal {err : RegistryError} (h : ¬ err.IsAnswer) : (ServeError.ofRegistry err).status = 500 := by
  cases err <;> first | exact absurd trivial h | rfl

/-- A refusal with a regular status, or one that a collision among the hashes explains. -/
def Excused (r : Backend) (among : Set Hash32) (e : ServeError) : Prop :=
  Regular e.status ∨ ∃ hash ∈ among, r.Collides hash

section

variable {X : Externals} {Fl : Floats} {P : Parsers Fl.F} {r : Backend} {among : Set Hash32} {now : UInt64}
  {hash : Hash32}

theorem excused_ofRegistry {err : RegistryError} (h : r.Explains among err) :
    Excused r among (ServeError.ofRegistry err) := h.imp_left ofRegistry_regular

theorem excused_badRequest (detail : Detail) : Excused r among (ServeError.badRequest detail) := .inl (.inr (.inl rfl))

theorem excused_unprocessable (kind : String) (detail : Detail) :
    Excused r among (ServeError.unprocessable kind detail) := .inl (.inr (.inr (.inr (.inr rfl))))

/-! ### Requested hashes -/

/-- The text that a request is asked to read as a hash. -/
def hashText (P : Parsers Fl.F) (request : Request) (path : String) (query : Option String) : Option String :=
  match request.method, path with
  | .get, "/resolve" => queryParam (query.getD "") "hash"
  | .post, "/verify" => (request.body.bind P.verifyRequest).toOption.map (·.hash)
  | .post, "/dry-run" => (request.body.bind P.dryRunRequest).toOption.bind fun req =>
      if req.source.isNone then req.hash else none
  | _, _ => none

/-- The hash of a request, or every hash when it names none. -/
def Consulted (P : Parsers Fl.F) (request : Request) (path : String) (query : Option String) : Set Hash32 :=
  {hash | ∀ hex ∈ hashText P request path query, hexToHashOrPanic hex = some (.ok hash)}

theorem requestHash_ok {hex : String} : requestHash hex = some (.ok hash) ↔ hexToHashOrPanic hex = some (.ok hash) := by
  unfold requestHash
  rw [Option.map_eq_some_iff]
  constructor
  · rintro ⟨parsed, hparsed, hok⟩
    rw [hparsed, mapError_ok.1 hok]
  · intro h
    exact ⟨.ok hash, h, rfl⟩

theorem raises_requestHash {hex : String} {parsed : Except ServeError Hash32} (h : requestHash hex = some parsed) :
    Raises (Excused r among) parsed := by
  obtain ⟨hash, -, rfl⟩ := Option.map_eq_some_iff.1 h
  exact Raises.ofMapError fun e => excused_badRequest (.hash e)

/-! ### Each handler -/

theorem raises_selectorOf {query : String} {parsed : Except ServeError Selector} (h : selectorOf query = some parsed) :
    Raises (Excused r among) parsed := by
  unfold selectorOf at h
  split at h
  · obtain ⟨hash, hhash, rfl⟩ := Option.map_eq_some_iff.1 h
    intro e he
    cases hash with
    | ok hash => cases he
    | error e' =>
      cases he
      exact raises_requestHash hhash e rfl
  · obtain rfl := Option.some.inj h
    split
    · split
      · exact .error (excused_badRequest _)
      · split
        · exact .error (excused_badRequest _)
        · exact .ok _
    · split
      · exact .ok _
      · exact .error (excused_badRequest _)

/-- A query with a hash selects it. -/
theorem consulted_selectorOf {query : String} {selector : Selector} (h : selectorOf query = some (.ok selector)) :
    selector.consulted ⊆ {hash | ∀ hex ∈ queryParam query "hash", hexToHashOrPanic hex = some (.ok hash)} := by
  intro hash hhash hex hhex
  unfold selectorOf at h
  rw [hhex] at h
  obtain ⟨parsed, hparsed, hmap⟩ := Option.map_eq_some_iff.1 h
  obtain ⟨hash', rfl, rfl⟩ := map_ok.1 hmap
  obtain rfl : hash = hash' := hhash
  exact requestHash_ok.1 hparsed

theorem raises_resolve (hX : X.Lawful) (h : r.Sound X) {query : Option String} {answer : Except ServeError Reply}
    (hamong : ∀ selector, selectorOf (query.getD "") = some (.ok selector) → selector.consulted ⊆ among)
    (hanswer : resolve X r query now = some answer) : Raises (Excused r among) answer := by
  obtain ⟨parsed, hparsed, rfl⟩ := Option.map_eq_some_iff.1 hanswer
  refine (raises_selectorOf hparsed).bind fun selector hselector => ?_
  subst hselector
  have hresolve := (h.raises_resolve hX selector now).mono fun err herr => herr.mono (hamong selector hparsed)
  exact (hresolve.mapError fun _ => excused_ofRegistry).bind fun _ _ => .ok _

theorem raises_runVerify {kew : Bytes} {req : VerifyRequest} {evidence : RegistryEvidence} :
    Raises (Excused r among) ((runVerify X kew req evidence now).mapError ServeError.ofVerify) := by
  refine Raises.mapError (E := fun e => Excused r among (ServeError.ofVerify e)) ?_ fun _ he => he
  refine (Raises.ofMapError fun e => .inl (.inr (.inl rfl))).bind fun decoded _ => Raises.bind ?_ fun policy _ => .ok _
  unfold verificationPolicy
  exact .ite (fun _ => .ok _) fun _ => .ite (fun _ => .ok _) fun _ => .error (excused_badRequest _)

theorem raises_verifyHashed (hX : X.Lawful) (h : r.Sound X) (req : VerifyRequest) (hhash : hash ∈ among) :
    Raises (Excused r among) (verifyHashed X r req now hash) := by
  refine ((raises_readArtifactKew r hash).mapError fun _ => excused_ofRegistry).bind fun kew _ => ?_
  refine ((h.raises_readRegistryEvidence hX hhash).mapError fun _ => excused_ofRegistry).bind fun evidence _ => ?_
  refine raises_runVerify.bind fun outcome _ => ?_
  have hrevocation : Raises (r.Explains among) (r.surfacedRevocation hash outcome.registryState) :=
    .ite (fun _ => h.raises_readRevocation hash) fun _ => .ok none
  exact (hrevocation.mapError fun _ => excused_ofRegistry).bind fun _ _ => .ok _

theorem raises_verify (hX : X.Lawful) (h : r.Sound X) {body : String} {answer : Except ServeError Reply}
    (hamong : ∀ req, P.verifyRequest body = .ok req → ∀ hash, hexToHashOrPanic req.hash = some (.ok hash) → hash ∈ among)
    (hanswer : verify X Fl P r body now = some answer) : Raises (Excused r among) answer := by
  unfold verify at hanswer
  split at hanswer
  · obtain rfl := Option.some.inj hanswer
    exact .error (excused_badRequest _)
  · rename_i req hreq
    obtain ⟨parsed, hparsed, rfl⟩ := Option.map_eq_some_iff.1 hanswer
    refine (raises_requestHash hparsed).bind fun hash hhash => ?_
    subst hhash
    exact raises_verifyHashed hX h req (hamong req hreq hash (requestHash_ok.1 hparsed))

theorem raises_compileSource (source : String) : Raises (Excused r among) (compileSource Fl P source) :=
  Raises.ofMapError fun e => excused_unprocessable _ (.compile e)

theorem raises_compilePreview (body : String) : Raises (Excused r among) (compilePreview Fl P body) := by
  refine (Raises.ofMapError fun e => excused_badRequest _).bind fun source _ => ?_
  exact (raises_compileSource source).bind fun rules _ => .ok _

theorem raises_storedRules (hX : X.Lawful) (h : r.Sound X) (hhash : hash ∈ among) :
    Raises (Excused r among) (storedRules X r now hash) := by
  have hconsulted : (Selector.byHash hash).consulted ⊆ among := Set.singleton_subset_iff.2 hhash
  have hresolve := (h.raises_resolve hX (.byHash hash) now).mono fun err herr => herr.mono hconsulted
  refine (hresolve.mapError fun _ => excused_ofRegistry).bind fun found _ => ?_
  refine ((raises_readArtifactKew r found.1).mapError fun _ => excused_ofRegistry).bind fun kew _ => ?_
  have hdecode : ∀ e, Excused r among (ServeError.ofRegistry (.artifactDecode e)) :=
    fun e => excused_ofRegistry (.inl trivial)
  refine (Raises.ofMapError hdecode).bind fun decoded _ => ?_
  obtain ⟨artifact, n⟩ := decoded
  dsimp only
  cases artifact.payload with
  | rules rules => exact .ok rules
  | intentSpec ir => exact .error (excused_badRequest _)

theorem raises_dryRunRules (hX : X.Lawful) (h : r.Sound X) {source hash : Option String}
    {rules : Except ServeError (List RuleIR)}
    (hamong : source = none → ∀ hex ∈ hash, ∀ hash', hexToHashOrPanic hex = some (.ok hash') → hash' ∈ among)
    (hrules : dryRunRules X Fl P r now source hash = some rules) : Raises (Excused r among) rules := by
  unfold dryRunRules at hrules
  split at hrules
  · obtain rfl := Option.some.inj hrules
    exact .error (excused_badRequest _)
  · obtain rfl := Option.some.inj hrules
    exact raises_compileSource _
  · rename_i hex
    obtain ⟨parsed, hparsed, rfl⟩ := Option.map_eq_some_iff.1 hrules
    refine (raises_requestHash hparsed).bind fun hash hhash => ?_
    subst hhash
    exact raises_storedRules hX h (hamong rfl hex rfl hash (requestHash_ok.1 hparsed))
  · obtain rfl := Option.some.inj hrules
    exact .error (excused_badRequest _)

theorem raises_dryRun (hX : X.Lawful) (h : r.Sound X) {body : String} {answer : Except ServeError Reply}
    (hamong : ∀ req, P.dryRunRequest body = .ok req → req.source = none → ∀ hex ∈ req.hash, ∀ hash,
      hexToHashOrPanic hex = some (.ok hash) → hash ∈ among)
    (hanswer : dryRun X Fl P r body now = some answer) : Raises (Excused r among) answer := by
  unfold dryRun at hanswer
  split at hanswer
  · obtain rfl := Option.some.inj hanswer
    exact .error (excused_badRequest _)
  · rename_i req hreq
    obtain ⟨rules, hrules, rfl⟩ := Option.map_eq_some_iff.1 hanswer
    refine (raises_dryRunRules hX h (hamong req hreq) hrules).bind fun rules _ => ?_
    exact (Raises.ofMapError fun e => excused_unprocessable _ (.facts e)).bind fun facts _ => .ok _

/-- On sound stores a request is refused for what it says, or for a collision at what it asks about. -/
theorem raises_dispatch (hX : X.Lawful) (h : r.Sound X) {request : Request} {path : String} {query : Option String}
    {answer : Except ServeError Reply} (hanswer : dispatch X Fl P r now request path query = some answer) :
    Raises (Excused r (Consulted P request path query)) answer := by
  rcases request with ⟨method, url, body⟩
  unfold dispatch at hanswer
  dsimp only at hanswer
  split at hanswer
  · obtain rfl := Option.some.inj hanswer
    exact .ok _
  · exact raises_resolve hX h (fun selector => consulted_selectorOf) hanswer
  · cases body with
    | error e =>
      obtain rfl := Option.some.inj hanswer
      exact .error (excused_badRequest _)
    | ok body =>
      refine raises_verify hX h (fun req hreq hash hhash => ?_) hanswer
      intro hex hhex
      have htext : some req.hash = some hex := by simpa [hashText, Except.bind, hreq, Except.toOption] using hhex
      rw [← Option.some.inj htext, hhash]
  · cases body with
    | error e =>
      obtain rfl := Option.some.inj hanswer
      exact .error (excused_badRequest _)
    | ok body =>
      obtain rfl := Option.some.inj hanswer
      exact raises_compilePreview body
  · cases body with
    | error e =>
      obtain rfl := Option.some.inj hanswer
      exact .error (excused_badRequest _)
    | ok body =>
      refine raises_dryRun hX h (fun req hreq hsource asked hasked hash hhash => ?_) hanswer
      intro hex hhex
      have htext : req.hash = some hex := by simpa [hashText, Except.bind, hreq, Except.toOption, hsource] using hhex
      rw [← Option.some.inj (hasked.symm.trans htext), hhash]
  · obtain rfl := Option.some.inj hanswer
    exact .error (.inl (.inr (.inr (.inl rfl))))

/-! ### Panics -/

/-- The text is as long as a hash in bytes, and a pair of them ends inside a character. -/
def Stops (P : Parsers Fl.F) (request : Request) : Prop :=
  ∃ hex ∈ hashText P request (splitPathQuery request.url).1 (splitPathQuery request.url).2,
    hex.utf8ByteSize = 64 ∧ Straddles hex

theorem requestHash_none {hex : String} : requestHash hex = none ↔ hex.utf8ByteSize = 64 ∧ Straddles hex :=
  Option.map_eq_none_iff.trans hexToHashOrPanic_none

theorem dispatch_none_iff {request : Request} {path : String} {query : Option String} :
    dispatch X Fl P r now request path query = none ↔ ∃ hex ∈ hashText P request path query, requestHash hex = none := by
  rcases request with ⟨method, url, body⟩
  unfold dispatch hashText
  dsimp only
  split
  · simp
  · show resolve X r query now = none ↔ _
    unfold resolve selectorOf
    rw [Option.map_eq_none_iff]
    cases queryParam (query.getD "") "hash" <;> simp
  · cases body with
    | error e => simp [withBody, Except.bind, Except.toOption]
    | ok body =>
      show verify X Fl P r body now = none ↔ _
      unfold verify
      cases hreq : P.verifyRequest body <;> simp [Except.bind, hreq, Except.toOption]
  · cases body <;> simp [withBody]
  · cases body with
    | error e => simp [withBody, Except.bind, Except.toOption]
    | ok body =>
      show dryRun X Fl P r body now = none ↔ _
      unfold dryRun
      cases hreq : P.dryRunRequest body with
      | error e => simp [Except.bind, hreq, Except.toOption]
      | ok req =>
        rcases req with ⟨source, hash, facts⟩
        cases source <;> cases hash <;> simp [Except.bind, hreq, Except.toOption, dryRunRules]
  · rename_i hhealth hresolve hverify hpreview hdryRun
    split
    · exact absurd rfl (hresolve rfl)
    · exact absurd rfl (hverify rfl)
    · exact absurd rfl (hdryRun rfl)
    · simp

/-! ### Routes -/

/-- The stream is not about a hash. -/
theorem hashText_events {request : Request} (h : request.method = .get) (query : Option String) :
    hashText P request "/events" query = none := by
  unfold hashText
  rw [h]
  rfl

/-- A handler panics exactly on a hash that straddles, whatever is stored. -/
theorem route_none_iff {request : Request} : route X Fl P r now request = none ↔ Stops P request := by
  have hstops : Stops P request ↔ ∃ hex ∈ hashText P request (splitPathQuery request.url).1
      (splitPathQuery request.url).2, requestHash hex = none := by
    simp only [requestHash_none]
    rfl
  rw [hstops]
  by_cases hevents : request.method = .get ∧ (splitPathQuery request.url).1 = "/events"
  · have hroute : route X Fl P r now request = some .events := if_pos hevents
    rw [hroute, hevents.2, hashText_events hevents.1]
    simp
  · have hroute : route X Fl P r now request = _ := if_neg hevents
    rw [hroute, Option.map_eq_none_iff, dispatch_none_iff]

/-- On sound stores an answer is regular, or there is a collision at what is asked about. -/
theorem route_excused (hX : X.Lawful) (h : r.Sound X) {request : Request} {answer : Answer}
    (hanswer : route X Fl P r now request = some answer) : Regular answer.status ∨
      ∃ hash ∈ Consulted P request (splitPathQuery request.url).1 (splitPathQuery request.url).2, r.Collides hash := by
  by_cases hevents : request.method = .get ∧ (splitPathQuery request.url).1 = "/events"
  · obtain rfl := Option.some.inj ((if_pos hevents).symm.trans hanswer)
    exact .inl (.inl rfl)
  · obtain ⟨outcome, houtcome, rfl⟩ := Option.map_eq_some_iff.1 ((if_neg hevents).symm.trans hanswer)
    cases outcome with
    | ok reply => exact .inl (.inl rfl)
    | error e => exact raises_dispatch hX h houtcome e rfl

/-! ### Collisions -/

theorem internal_of_walk {events : List LifecycleEvent} {err : RegistryError} (h : currentState X events = .error err) :
    (ServeError.ofRegistry err).status = 500 := ofRegistry_internal (raises_walk events err h)

theorem resolve_collides (h : r.Sound X) (hcol : r.Collides hash) :
    ∃ err, (ServeError.ofRegistry err).status = 500 ∧ Registry.resolve X r (.byHash hash) now = .error err := by
  obtain ⟨events, hread, -, -, hcollides⟩ := h.log hash
  obtain ⟨err, herr⟩ := hcollides hcol
  refine ⟨err, internal_of_walk herr, ?_⟩
  unfold Registry.resolve
  show (r.readEvents hash >>= fun events => currentState X events >>= _) = _
  rw [hread]
  show (currentState X events >>= _) = _
  rw [herr]
  rfl

theorem verifyHashed_collides (h : r.Sound X) (hcol : r.Collides hash) (req : VerifyRequest) :
    ∃ e, e.status = 500 ∧ verifyHashed X r req now hash = .error e := by
  obtain ⟨events, hread, -, -, hcollides⟩ := h.log hash
  obtain ⟨err, herr⟩ := hcollides hcol
  obtain ⟨e, -, he, -⟩ := hcol
  obtain ⟨kew, hkew⟩ := h.kept hash (List.ne_nil_of_mem he)
  refine ⟨.ofRegistry err, internal_of_walk herr, ?_⟩
  unfold verifyHashed registryEvidence readRegistryEvidence
  rw [readArtifactKew_ok.2 hkew, hread]
  show (Except.mapError ServeError.ofRegistry (currentState X events >>= _) >>= _) = _
  rw [herr]
  rfl

theorem storedRules_collides (h : r.Sound X) (hcol : r.Collides hash) :
    ∃ e, e.status = 500 ∧ storedRules X r now hash = .error e := by
  obtain ⟨err, hinternal, hresolve⟩ := resolve_collides h hcol
  refine ⟨.ofRegistry err, hinternal, ?_⟩
  unfold storedRules
  rw [hresolve]
  rfl

section

variable {hex : String}

theorem get_resolve_collides (h : r.Sound X) (hcol : r.Collides hash) {query : Option String}
    (hasked : queryParam (query.getD "") "hash" = some hex) (hparsed : requestHash hex = some (.ok hash)) :
    ∃ e, e.status = 500 ∧ resolve X r query now = some (.error e) := by
  have hfails : ∃ err, (ServeError.ofRegistry err).status = 500 ∧ Registry.resolve X r (.byHash hash) now = .error err :=
    resolve_collides h hcol
  obtain ⟨err, hinternal, hresolve⟩ := hfails
  refine ⟨.ofRegistry err, hinternal, ?_⟩
  unfold resolve selectorOf
  rw [hasked]
  show ((requestHash hex).map _).map _ = _
  rw [hparsed]
  show some ((Registry.resolve X r (.byHash hash) now).mapError ServeError.ofRegistry >>= _) = _
  rw [hresolve]
  rfl

theorem post_verify_collides (h : r.Sound X) (hcol : r.Collides hash) {body : String} {req : VerifyRequest}
    (hparse : P.verifyRequest body = .ok req) (hparsed : requestHash req.hash = some (.ok hash)) :
    ∃ e, e.status = 500 ∧ verify X Fl P r body now = some (.error e) := by
  obtain ⟨e, hinternal, hverify⟩ := verifyHashed_collides h hcol req
  refine ⟨e, hinternal, ?_⟩
  unfold verify
  rw [hparse]
  show (requestHash req.hash).map _ = _
  rw [hparsed]
  exact congrArg some hverify

theorem post_dryRun_collides (h : r.Sound X) (hcol : r.Collides hash) {body : String} {req : DryRunRequest Fl.F}
    (hparse : P.dryRunRequest body = .ok req) (hasked : (if req.source.isNone then req.hash else none) = some hex)
    (hparsed : requestHash hex = some (.ok hash)) :
    ∃ e, e.status = 500 ∧ dryRun X Fl P r body now = some (.error e) := by
  obtain ⟨e, hinternal, hstored⟩ := storedRules_collides h hcol
  obtain ⟨source, asked, facts⟩ := req
  cases source with
  | some source => cases hasked
  | none =>
    obtain rfl : asked = some hex := hasked
    refine ⟨e, hinternal, ?_⟩
    unfold dryRun
    rw [hparse]
    show ((requestHash hex).map _).map _ = _
    rw [hparsed]
    show some (storedRules X r now hash >>= _) = _
    rw [hstored]
    rfl

end

/-- A request about a hash with a collision is answered with an internal error. -/
theorem dispatch_collides (h : r.Sound X) (hcol : r.Collides hash) {request : Request} {path : String}
    {query : Option String} {hex : String} (htext : hashText P request path query = some hex)
    (hhash : hexToHashOrPanic hex = some (.ok hash)) :
    ∃ e, e.status = 500 ∧ dispatch X Fl P r now request path query = some (.error e) := by
  have hparsed := requestHash_ok.2 hhash
  rcases request with ⟨method, url, body⟩
  unfold hashText at htext
  dsimp only at htext
  split at htext
  · exact get_resolve_collides h hcol htext hparsed
  · obtain ⟨req, hreq, rfl⟩ := Option.map_eq_some_iff.1 htext
    obtain ⟨text, rfl, hparse⟩ := bind_ok.1 (toOption_ok.1 hreq)
    exact post_verify_collides h hcol hparse hparsed
  · obtain ⟨req, hreq, hasked⟩ := Option.bind_eq_some_iff.1 htext
    obtain ⟨text, rfl, hparse⟩ := bind_ok.1 (toOption_ok.1 hreq)
    exact post_dryRun_collides h hcol hparse hasked hparsed
  · cases htext

/-- A request about a hash is answered with an internal error exactly when the log of the artifact collides. -/
theorem route_internal_iff (hX : X.Lawful) (h : r.Sound X) {request : Request} {hex : String}
    (htext : hashText P request (splitPathQuery request.url).1 (splitPathQuery request.url).2 = some hex)
    (hhash : hexToHashOrPanic hex = some (.ok hash)) :
    ∃ answer, route X Fl P r now request = some answer ∧ (answer.status = 500 ↔ r.Collides hash) := by
  have hevents : ¬ (request.method = .get ∧ (splitPathQuery request.url).1 = "/events") := by
    rintro ⟨hget, hpath⟩
    rw [hpath, hashText_events hget] at htext
    cases htext
  by_cases hcol : r.Collides hash
  · obtain ⟨e, hinternal, hdispatch⟩ := dispatch_collides h hcol htext hhash
    refine ⟨.error e, ?_, iff_of_true hinternal hcol⟩
    unfold route
    rw [if_neg hevents, hdispatch]
    rfl
  · cases hroute : route X Fl P r now request with
    | none =>
      obtain ⟨hex', hhex', hstops⟩ := route_none_iff.1 hroute
      obtain rfl := Option.some.inj (htext.symm.trans hhex')
      cases hhash.symm.trans (hexToHashOrPanic_none.2 hstops)
    | some answer =>
      refine ⟨answer, rfl, iff_of_false (fun hinternal => ?_) hcol⟩
      rcases route_excused hX h hroute with hregular | ⟨hash', hconsulted, hcol'⟩
      · rw [hinternal] at hregular
        simp [Regular] at hregular
      · obtain rfl : hash = hash' := by simpa using hhash.symm.trans (hconsulted hex htext)
        exact hcol hcol'

/-! ## Runs -/

/-- All requests are answered exactly when none of them panics. -/
theorem run_length_iff : ∀ {requests : List (UInt64 × Request)},
    (run X Fl P r requests).length = requests.length ↔ ∀ q ∈ requests, ¬ Stops P q.2
  | [] => by simp [run]
  | (now, request) :: requests => by
    have ih : (run X Fl P r requests).length = requests.length ↔ ∀ q ∈ requests, ¬ Stops P q.2 := run_length_iff
    rw [run, List.forall_mem_cons, ← ih, ← @route_none_iff X Fl P r now]
    cases route X Fl P r now request with
    | none => simp
    | some answer => simp

theorem mem_run {requests : List (UInt64 × Request)} {answer : Answer} (h : answer ∈ run X Fl P r requests) :
    ∃ q ∈ requests, route X Fl P r q.1 q.2 = some answer := by
  induction requests with
  | nil => cases h
  | cons q requests ih =>
    rw [run] at h
    cases hroute : route X Fl P r q.1 q.2 with
    | none =>
      rw [hroute] at h
      cases h
    | some first =>
      rw [hroute] at h
      rcases List.mem_cons.1 h with rfl | h
      · exact ⟨q, List.mem_cons_self, hroute⟩
      · obtain ⟨q', hq', hanswer⟩ := ih h
        exact ⟨q', List.mem_cons_of_mem q hq', hanswer⟩

end

section

variable {X : Externals} (Fl : Floats) (P : Parsers Fl.F) (commands : List CommandLine)

/-- Whatever commands ran side by side, and whatever is asked then: an internal error is not answered unless a race
has left a collision, and the loop goes on unless a hash straddles. -/
theorem together_served (hX : X.Lawful) (schedule : List (Turn CommandError)) (requests : List (UInt64 × Request)) :
    let left := ((together X commands .empty).run @perform schedule).store
    (∀ answer ∈ run X Fl P left requests, Regular answer.status ∨ ∃ hash, left.Collides hash) ∧
      ((run X Fl P left requests).length = requests.length ↔ ∀ q ∈ requests, ¬ Stops P q.2) := by
  intro left
  have hsound : left.Sound X := sound_together .empty commands schedule
  refine ⟨fun answer hanswer => ?_, run_length_iff⟩
  obtain ⟨q, -, hroute⟩ := mem_run hanswer
  rcases route_excused hX hsound hroute with hregular | ⟨hash, -, hcol⟩
  · exact .inl hregular
  · exact .inr ⟨hash, hcol⟩

/-- A request about one hash is answered with an internal error exactly when the log of that artifact has two events
under one number, whatever there is besides. -/
theorem together_internal_iff (hX : X.Lawful) (schedule : List (Turn CommandError)) (now : UInt64) (request : Request)
    {hex : String} {hash : Hash32}
    (htext : hashText P request (splitPathQuery request.url).1 (splitPathQuery request.url).2 = some hex)
    (hhash : hexToHashOrPanic hex = some (.ok hash)) :
    let left := ((together X commands .empty).run @perform schedule).store
    ∃ answer, route X Fl P left now request = some answer ∧ (answer.status = 500 ↔ left.Collides hash) :=
  route_internal_iff hX (sound_together .empty commands schedule) htext hhash

/-- Where commands ran one after the other, no request is answered with an internal error. -/
theorem runAll_served (hX : X.Lawful) (requests : List (UInt64 × Request)) :
    ∀ answer ∈ run X Fl P (runAll X commands .empty) requests, Regular answer.status := by
  intro answer hanswer
  obtain ⟨q, -, hroute⟩ := mem_run hanswer
  rcases route_excused hX (runAll_sound commands .empty) hroute with hregular | ⟨hash, -, hcol⟩
  · exact hregular
  · exact absurd hcol (runAll_collides hX commands hash)

end

/-! ## A question about the forked log -/

/-- A request without a body. -/
def transferQuestion : Request := ⟨.get, "/resolve?hash=" ++ hex32 transferHash, .ok ""⟩

/-- No bodies are read. -/
def noBodies : Parsers exactFloats.F where
  verifyRequest _ := .error "EOF while parsing a value"
  compilePreviewRequest _ := .error "EOF while parsing a value"
  dryRunRequest _ := .error "EOF while parsing a value"
  yaml _ := .error ⟨"empty document"⟩
  compact _ := "\x7b\x7d"

theorem together_served_crowd :
    (run standIn exactFloats noBodies ((together standIn crowd .empty).run @perform crowdFirst).store
      [(9, transferQuestion)]).map (·.status) = [200] ∧
      ((run standIn exactFloats noBodies ((together standIn crowd .empty).run @perform crowdFirst).store
        [(9, transferQuestion)]).length = 1 ↔ ∀ q ∈ [((9 : UInt64), transferQuestion)], ¬ Stops noBodies q.2) :=
  ⟨by decide +kernel,
    (together_served exactFloats noBodies crowd standIn_lawful crowdFirst [(9, transferQuestion)]).2⟩

theorem together_internal_iff_crowd :
    ((together standIn crowd .empty).run @perform (crowdFirst ++ crowdLast)).store.Collides transferHash := by
  have htext : hashText noBodies transferQuestion (splitPathQuery transferQuestion.url).1
      (splitPathQuery transferQuestion.url).2 = some (hex32 transferHash) := by decide +kernel
  have hhash : hexToHashOrPanic (hex32 transferHash) = some (.ok transferHash) := by decide +kernel
  obtain ⟨answer, hroute, hiff⟩ := together_internal_iff exactFloats noBodies crowd standIn_lawful
    (crowdFirst ++ crowdLast) 9 transferQuestion htext hhash
  have hstatus : (route standIn exactFloats noBodies
      ((together standIn crowd .empty).run @perform (crowdFirst ++ crowdLast)).store 9 transferQuestion).map
        (·.status) = some 500 := by decide +kernel
  rw [hroute] at hstatus
  exact hiff.1 (Option.some.inj hstatus)

theorem runAll_served_transfer :
    (run standIn exactFloats noBodies (runAll standIn transferLife .empty) [(9, transferQuestion)]).map (·.status) =
        [200] ∧
      ∀ answer ∈ run standIn exactFloats noBodies (runAll standIn transferLife .empty) [(9, transferQuestion)],
        Regular answer.status :=
  ⟨by decide +kernel,
    runAll_served exactFloats noBodies transferLife standIn_lawful [(9, transferQuestion)]⟩

end Ke.Serve
