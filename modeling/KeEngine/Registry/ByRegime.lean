/-
Resolution by regime and date. In a registry that commands filed, every file of the directory is an
artifact under its own address, so the candidates are those in force: of the regime, with the date in
the window, published. The environment of the selector is not looked at.
-/
import KeEngine.Registry.Provenance

namespace Ke.Registry

open Ke Wire

/-! ## The directory -/

/-- Every file is named by a hash, each once. -/
structure Backend.Filed (r : Backend) : Prop where
  names : ∀ file ∈ r.artifacts, ∃ hash, file.1 = hex32 hash
  nodup : (r.artifacts.map Prod.fst).Nodup

theorem Backend.Filed.empty : Backend.empty.Filed := ⟨nofun, List.nodup_nil⟩

theorem putFile_names {α : Type} (name : String) (a : α) : ∀ files : List (String × α),
    (putFile name a files).map Prod.fst =
      if name ∈ files.map Prod.fst then files.map Prod.fst else files.map Prod.fst ++ [name]
  | [] => rfl
  | file :: files => by
    unfold putFile
    by_cases hname : file.1 = name
    · rw [if_pos hname, if_pos (by rw [List.map_cons, hname]; exact List.mem_cons_self), List.map_cons,
        List.map_cons, hname]
    · rw [if_neg hname, List.map_cons, putFile_names name a files, List.map_cons]
      have hmem : name ∈ file.1 :: files.map Prod.fst ↔ name ∈ files.map Prod.fst := by
        rw [List.mem_cons, or_iff_right fun h => hname h.symm]
      by_cases h : name ∈ files.map Prod.fst
      · rw [if_pos h, if_pos (hmem.2 h)]
      · rw [if_neg h, if_neg fun h' => h (hmem.1 h'), List.cons_append]

theorem Backend.Filed.putArtifact {r : Backend} (h : r.Filed) (hash : Hash32) (kew : Bytes) :
    (r.putArtifact hash kew).Filed := by
  have hnames : ∀ name ∈ r.artifacts.map Prod.fst, ∃ hash, name = hex32 hash := fun name hname => by
    obtain ⟨file, hfile, rfl⟩ := List.mem_map.1 hname
    exact h.names file hfile
  have hput := putFile_names (hex32 hash) kew r.artifacts
  constructor
  · intro file hfile
    have hname : file.1 ∈ (putFile (hex32 hash) kew r.artifacts).map Prod.fst := List.mem_map_of_mem hfile
    rw [hput] at hname
    split at hname
    · exact hnames _ hname
    · rcases List.mem_append.1 hname with hname | hname
      · exact hnames _ hname
      · exact ⟨hash, List.mem_singleton.1 hname⟩
  · show ((putFile (hex32 hash) kew r.artifacts).map Prod.fst).Nodup
    rw [hput]
    split
    · exact h.nodup
    · rename_i hnew
      exact List.nodup_append.2 ⟨h.nodup, List.nodup_singleton _, fun a ha b hb hab => by
        rw [List.mem_singleton.1 hb] at hab
        exact hnew (hab ▸ ha)⟩

section

variable {X : Externals} {r : Backend} {hash : Hash32}

/-- No operation of a command files anything else. -/
theorem CommandLine.run_filed (h : r.Filed) (c : CommandLine) : (c.run X r).2.Filed := by
  refine Prog.run_preserves (P := Backend.Filed) @perform (fun {γ} op r' hr' => ?_) (c.command X) r h
  cases op with
  | putArtifact target kew => exact hr'.putArtifact target kew
  | appendEvent target event =>
    show (r'.appendEvent target event).2.Filed
    unfold Backend.appendEvent
    split
    · exact hr'
    · exact ⟨hr'.names, hr'.nodup⟩
  | readArtifactKew | readEvents | readConsistency => exact hr'
  | putPointer | putConsistency | putRevocation => exact ⟨hr'.names, hr'.nodup⟩

theorem runAll_filed : ∀ (commands : List CommandLine) {r : Backend}, r.Filed → (runAll X commands r).Filed
  | [], _, h => h
  | c :: commands, _, h => runAll_filed commands (c.run_filed h)

theorem mem_of_lookup {α : Type} {name : String} {a : α} {files : List (String × α)} (h : files.lookup name = some a) :
    (name, a) ∈ files := by
  obtain ⟨front, rest, rfl, -⟩ := List.lookup_eq_some_iff.1 h
  exact List.mem_append_right front List.mem_cons_self

theorem lookup_of_mem {α : Type} : ∀ {files : List (String × α)} {file : String × α},
    (files.map Prod.fst).Nodup → file ∈ files → files.lookup file.1 = some file.2
  | first :: files, file, hnodup, hfile => by
    rw [List.map_cons, List.nodup_cons] at hnodup
    rw [show first = (first.1, first.2) from rfl, lookup_cons_if]
    rcases List.mem_cons.1 hfile with rfl | hfile
    · exact if_pos rfl
    · have hother : file.1 ≠ first.1 := fun hname => hnodup.1 (by rw [← hname]; exact List.mem_map_of_mem hfile)
      rw [if_neg hother, lookup_of_mem hnodup.2 hfile]

/-- Every file of the directory is a stored artifact under its own address, each once. -/
structure Backend.Shelved (X : Externals) (r : Backend) : Prop where
  stored : ∀ file ∈ r.artifacts, ∃ a, file.1 = hex32 a.manifest.artifactHash ∧ Stored X a.manifest.artifactHash file.2 a
  nodup : (r.artifacts.map Prod.fst).Nodup

/-- A file of the directory is a stored artifact under its address. -/
theorem Backend.Filed.shelved (h : r.Filed) (hr : r.Ready X) : r.Shelved X := by
  refine ⟨fun file hfile => ?_, h.nodup⟩
  obtain ⟨hash, hname⟩ := h.names file hfile
  obtain ⟨s, hs, hready⟩ := hr hash
  have hkew := hs.kew
  rw [← hname, lookup_of_mem h.nodup hfile] at hkew
  obtain ⟨a, hstored⟩ := hready.stored _ hkew.symm
  have haddress := hstored.address
  subst haddress
  exact ⟨a, hname, hstored⟩

/-- What a file of the directory is listed as. -/
theorem Listed.mem {files : List (String × Bytes)} {listed : List (Hash32 × Manifest)} (h : Listed X files listed)
    {m : Hash32 × Manifest} : m ∈ listed ↔ ∃ file ∈ files, ∃ a n, decodeArtifact X file.2 = .ok (a, n) ∧
      m = (a.manifest.artifactHash, a.manifest) := by
  rw [h.eq]
  simp only [List.mem_map, List.mem_filterMap]
  constructor
  · rintro ⟨manifest, ⟨file, hfile, hof⟩, rfl⟩
    obtain ⟨a, n, hdec⟩ := h.decodes hfile
    unfold manifestOf at hof
    rw [hdec] at hof
    obtain rfl := Option.some.inj hof
    exact ⟨file, hfile, a, n, hdec, rfl⟩
  · rintro ⟨file, hfile, a, n, hdec, rfl⟩
    refine ⟨a.manifest, ⟨file, hfile, ?_⟩, rfl⟩
    unfold manifestOf
    rw [hdec]
    rfl

/-- The directory is listed whole, each artifact once and under its address. -/
theorem Backend.Shelved.listed (h : r.Shelved X) :
    ∃ listed, r.listManifests X = .ok (sortBy (fun a b => compare a.1.1 b.1.1) listed) ∧ (listed.map Prod.fst).Nodup ∧
      ∀ m : Hash32 × Manifest, m ∈ listed ↔ ∃ kew a n, r.readArtifactKew m.1 = .ok kew ∧
        decodeArtifact X kew = .ok (a, n) ∧ m.2 = a.manifest := by
  have hall : ∀ files : List (String × Bytes), (∀ file ∈ files, file ∈ r.artifacts) →
      ∃ listed, Listed X files listed ∧ files.map Prod.fst = listed.map fun m => hex32 m.1 := by
    intro files
    induction files with
    | nil => exact fun _ => ⟨[], .nil, rfl⟩
    | cons file files ih =>
      intro hfiles
      obtain ⟨listed, hlisted, hnames⟩ := ih fun file' hfile' => hfiles file' (List.mem_cons_of_mem file hfile')
      obtain ⟨a, hname, hstored⟩ := h.stored file (hfiles file List.mem_cons_self)
      obtain ⟨n, hdec, -⟩ := hstored.decode
      exact ⟨(a.manifest.artifactHash, a.manifest) :: listed, .cons ⟨a, n, hdec, rfl⟩ hlisted, by
        rw [List.map_cons, List.map_cons, hnames, hname]⟩
  obtain ⟨listed, hlisted, hnames⟩ := hall r.artifacts fun _ hfile => hfile
  refine ⟨listed, ?_, ?_, fun m => ?_⟩
  · refine bind_ok.2 ⟨listed, mapM_ok.2 (hlisted.imp fun file m hm => ?_), rfl⟩
    obtain ⟨a, n, hdec, rfl⟩ := hm
    exact bind_ok.2 ⟨(a, n), mapError_ok.2 hdec, rfl⟩
  · have hnodup := h.nodup
    rw [hnames, ← Function.comp_def hex32 Prod.fst, ← List.map_map] at hnodup
    exact hnodup.of_map _
  · rw [hlisted.mem]
    constructor
    · rintro ⟨file, hfile, a, n, hdec, rfl⟩
      obtain ⟨a', hname, hstored⟩ := h.stored _ hfile
      obtain ⟨n', hdec', -⟩ := hstored.decode
      obtain ⟨rfl, rfl⟩ := Prod.mk.inj (Except.ok.inj (hdec.symm.trans hdec'))
      refine ⟨file.2, a, n, readArtifactKew_ok.2 ?_, hdec, rfl⟩
      rw [← hname]
      exact lookup_of_mem h.nodup hfile
    · rintro ⟨kew, a, n, hread, hdec, hm⟩
      have hfile := mem_of_lookup (readArtifactKew_ok.1 hread)
      obtain ⟨a', hname, hstored⟩ := h.stored _ hfile
      obtain ⟨n', hdec', -⟩ := hstored.decode
      obtain ⟨rfl, rfl⟩ := Prod.mk.inj (Except.ok.inj (hdec.symm.trans hdec'))
      exact ⟨_, hfile, a, n, hdec, Prod.ext (hex32_inj hname) hm⟩

/-! ## Artifacts in force -/

/-- A stored artifact of the regime, with the date in its window, published. -/
def InForce (X : Externals) (r : Backend) (regimeId : String) (date : JurisdictionDate) (hash : Hash32) : Prop :=
  ∃ kew a n, r.readArtifactKew hash = .ok kew ∧ decodeArtifact X kew = .ok (a, n) ∧ a.manifest.regimeId = regimeId ∧
    windowContains a.manifest.effectiveFrom a.manifest.effectiveTo date = true ∧
    lifecycleState X r hash = .ok (some .published)

theorem filterM_ok {ε α : Type} {p : α → Except ε Bool} {q : α → Bool} {l : List α} (h : ∀ a ∈ l, p a = .ok (q a)) :
    l.filterM p = .ok (l.filter q) := by
  have haux : ∀ (l acc : List α), (∀ a ∈ l, p a = .ok (q a)) →
      l.filterAuxM p acc = .ok ((l.filter q).reverse ++ acc) := by
    intro l
    induction l with
    | nil => exact fun acc _ => rfl
    | cons a l ih =>
      intro acc h
      rw [List.filterAuxM, h a List.mem_cons_self]
      refine (ih _ fun b hb => h b (List.mem_cons_of_mem a hb)).trans ?_
      cases hq : q a with
      | true => rw [List.filter_cons_of_pos hq, List.reverse_cons, List.append_assoc]; rfl
      | false => rw [List.filter_cons_of_neg (by rw [hq]; exact Bool.false_ne_true)]; rfl
  rw [List.filterM, haux l [] h, List.append_nil]
  exact congrArg Except.ok (List.reverse_reverse _)

/-- The candidates are the artifacts in force, each once. -/
theorem applicable_ok (hX : X.Lawful) (hr : r.Ready X) (h : r.Filed) (regimeId : String) (date : JurisdictionDate) :
    ∃ hashes, applicable X r regimeId date = .ok hashes ∧ hashes.Nodup ∧
      ∀ hash, hash ∈ hashes ↔ InForce X r regimeId date hash := by
  obtain ⟨listed, hlist, hnodup, hmem⟩ := (h.shelved hr).listed
  -- what the log of a listed artifact says is known
  have hstate : ∀ hash, ∃ state, lifecycleState X r hash = .ok state := fun hash => by
    obtain ⟨s, hs, hready⟩ := hr hash
    exact ⟨s.state, hready.lifecycleState hX hs⟩
  choose state hstate using hstate
  have hpublished : ∀ m : Hash32 × Manifest, ((r.readEvents m.1).bind fun events => (currentState X events).bind
      fun state => .ok (decide (state = some .published))) = .ok (decide (state m.1 = some .published)) := by
    intro m
    obtain ⟨events, hread, hcurrent⟩ := bind_ok.1 (hstate m.1)
    exact bind_ok.2 ⟨events, hread, bind_ok.2 ⟨_, hcurrent, rfl⟩⟩
  refine ⟨_, bind_ok.2 ⟨_, hlist, bind_ok.2 ⟨_, filterM_ok fun m _ => hpublished m, rfl⟩⟩, ?_, fun hash => ?_⟩
  · refine List.Nodup.sublist (List.filter_sublist.map _ |>.trans (List.filter_sublist.map _)) ?_
    exact ((perm_sortBy _ listed).map Prod.fst).nodup_iff.2 hnodup
  · simp only [List.mem_map, List.mem_filter, (perm_sortBy _ listed).mem_iff, hmem, Bool.and_eq_true, decide_eq_true_eq]
    constructor
    · rintro ⟨m, ⟨⟨⟨kew, a, n, hread, hdec, hm⟩, hregime, hwindow⟩, hpub⟩, rfl⟩
      rw [hm] at hregime hwindow
      exact ⟨kew, a, n, hread, hdec, hregime, hwindow, by rw [hstate, hpub]⟩
    · rintro ⟨kew, a, n, hread, hdec, hregime, hwindow, hpub⟩
      rw [hstate] at hpub
      exact ⟨(hash, a.manifest), ⟨⟨⟨kew, a, n, hread, hdec, rfl⟩, hregime, hwindow⟩, Except.ok.inj hpub⟩, rfl⟩

/-- A listed hash passes the check of the resolved artifact. -/
theorem Backend.Shelved.verifyResolvedArtifact (h : r.Shelved X) {kew : Bytes}
    (hread : r.readArtifactKew hash = .ok kew) (selectorDesc : String) :
    ∃ m, verifyResolvedArtifact X r hash selectorDesc = .ok m := by
  obtain ⟨listed, hlist, -, hmem⟩ := h.listed
  obtain ⟨a, hname, hstored⟩ := h.stored _ (mem_of_lookup (readArtifactKew_ok.1 hread))
  obtain ⟨n, hdec, -⟩ := hstored.decode
  have hin : (hash, a.manifest) ∈ listed := (hmem _).2 ⟨kew, a, n, hread, hdec, rfl⟩
  obtain ⟨m, hfind⟩ : ∃ m, (sortBy (fun a b => compare a.1.1 b.1.1) listed).find?
    (fun m => decide (m.1 = hash)) = some m := by
    refine Option.isSome_iff_exists.1 (List.find?_isSome.2 ⟨_, (perm_sortBy _ listed).mem_iff.2 hin, ?_⟩)
    exact decide_eq_true rfl
  refine ⟨m.2, bind_ok.2 ⟨_, hlist, bind_ok.2 ⟨m, elim_throw.2 hfind, throw_else.2 ⟨not_not.2 ?_, rfl⟩⟩⟩⟩
  -- what is listed under a hash claims it
  obtain ⟨kew', a', n', hread', hdec', hm⟩ :=
    (hmem m).1 ((perm_sortBy _ listed).mem_iff.1 (List.mem_of_find?_eq_some hfind))
  obtain ⟨a'', hname', hstored'⟩ := h.stored _ (mem_of_lookup (readArtifactKew_ok.1 hread'))
  obtain ⟨n'', hdec'', -⟩ := hstored'.decode
  obtain ⟨rfl, -⟩ := Prod.mk.inj (Except.ok.inj (hdec'.symm.trans hdec''))
  have hfound : m.1 = hash := of_decide_eq_true
    (List.find?_some (p := fun m : Hash32 × Manifest => decide (m.1 = hash)) hfind)
  rw [hm, ← hex32_inj hname', hfound]

/-! ## What a resolution says -/

/-- A resolution answers as the hashes that qualify demand: the only one, none, or more than one. -/
structure Answers (X : Externals) (r : Backend) (selector : Selector) (nowUnix : UInt64) (qualifies : Hash32 → Prop) :
    Prop where
  ok : ∀ hash, (∃ record, resolve X r selector nowUnix = .ok (hash, record)) ↔
    qualifies hash ∧ ∀ other, qualifies other → other = hash
  notFound : (∃ desc, resolve X r selector nowUnix = .error (.notFound desc)) ↔ ∀ hash, ¬ qualifies hash
  ambiguous : (∃ desc count, resolve X r selector nowUnix = .error (.ambiguous desc count)) ↔
    ∃ hash other, hash ≠ other ∧ qualifies hash ∧ qualifies other

/-- Fewer hashes demand the same answer exactly when none is left out, or two are left. -/
theorem Answers.iff {selector : Selector} {nowUnix : UInt64} {p q : Hash32 → Prop}
    (h : Answers X r selector nowUnix p) (hqp : ∀ hash, q hash → p hash) :
    Answers X r selector nowUnix q ↔ (∀ hash, p hash → q hash) ∨ ∃ hash other, hash ≠ other ∧ q hash ∧ q other := by
  constructor
  · intro hq
    by_cases hnone : ∀ hash, ¬ p hash
    · exact .inl fun hash hp => absurd hp (hnone hash)
    · obtain ⟨hash, hp⟩ := not_forall_not.1 hnone
      by_cases hunique : ∀ other, p other → other = hash
      · obtain ⟨hqhash, -⟩ := (hq.ok hash).1 ((h.ok hash).2 ⟨hp, hunique⟩)
        left
        intro other hother
        rw [hunique other hother]
        exact hqhash
      · obtain ⟨other, hother⟩ := not_forall.1 hunique
        obtain ⟨hpother, hne⟩ := Classical.not_imp.1 hother
        exact .inr (hq.ambiguous.1 (h.ambiguous.2 ⟨hash, other, fun heq => hne heq.symm, hp, hpother⟩))
  · rintro (hpq | ⟨hash, other, hne, hqhash, hqother⟩)
    · have heq : q = p := funext fun hash => propext ⟨hqp hash, hpq hash⟩
      rw [heq]
      exact h
    · -- two are left, so there were two before, and the answer is the same
      have hmany : ∃ hash other, hash ≠ other ∧ p hash ∧ p other := ⟨hash, other, hne, hqp _ hqhash, hqp _ hqother⟩
      obtain ⟨desc, count, hresolve⟩ := h.ambiguous.2 hmany
      refine ⟨fun hash' => ⟨?_, ?_⟩, ⟨?_, ?_⟩,
        ⟨fun _ => ⟨hash, other, hne, hqhash, hqother⟩, fun _ => ⟨desc, count, hresolve⟩⟩⟩
      · rintro ⟨record, hok⟩
        cases hresolve.symm.trans hok
      · rintro ⟨-, hunique⟩
        exact absurd ((hunique hash hqhash).trans (hunique other hqother).symm) hne
      · rintro ⟨desc', hnotFound⟩
        cases hresolve.symm.trans hnotFound
      · intro hnone
        exact absurd hqhash (hnone hash)

/-- The answer is the one that the artifacts in force demand. -/
theorem answers_inForce (hX : X.Lawful) (hr : r.Ready X) (h : r.Filed) (regimeId : String) (date : JurisdictionDate)
    (env : String) (nowUnix : UInt64) :
    Answers X r (.byRegime regimeId date env) nowUnix (InForce X r regimeId date) := by
  obtain ⟨hashes, happlicable, hnodup, hmem⟩ := applicable_ok hX hr h regimeId date
  have hmem : InForce X r regimeId date = (· ∈ hashes) := funext fun hash => propext (hmem hash).symm
  rcases hashes with _ | ⟨hash, _ | ⟨other, rest⟩⟩
  · have hresolve : resolve X r (.byRegime regimeId date env) nowUnix =
        .error (.notFound (Selector.byRegime regimeId date env).describe) := by
      unfold resolve Selector.target
      simp only
      rw [happlicable]
      rfl
    rw [hmem]
    constructor
    · intro hash
      rw [hresolve]
      simp
    · rw [hresolve]
      simp
    · rw [hresolve]
      simp
  · obtain ⟨kew, a, n, hread, -, -, -, hpublished⟩ : InForce X r regimeId date hash := by
      rw [hmem]
      exact List.mem_singleton_self hash
    obtain ⟨events, hevents, hcurrent⟩ := bind_ok.1 hpublished
    obtain ⟨m, hverify⟩ := (h.shelved hr).verifyResolvedArtifact hread (Selector.byRegime regimeId date env).describe
    obtain ⟨record, hresolve⟩ : ∃ record, resolve X r (.byRegime regimeId date env) nowUnix = .ok (hash, record) :=
      ⟨_, bind_ok.2 ⟨hash, bind_ok.2 ⟨[hash], happlicable, rfl⟩, bind_ok.2 ⟨events, hevents, bind_ok.2 ⟨_, hcurrent,
        bind_ok.2 ⟨.published, rfl, bind_ok.2 ⟨m, hverify, bind_ok.2 ⟨none, rfl, rfl⟩⟩⟩⟩⟩⟩⟩
    rw [hmem]
    constructor
    · intro other
      rw [hresolve]
      constructor
      · rintro ⟨_, hok⟩
        obtain ⟨rfl, -⟩ := Prod.mk.inj (Except.ok.inj hok)
        exact ⟨List.mem_singleton_self _, fun _ => List.mem_singleton.1⟩
      · rintro ⟨hother, -⟩
        obtain rfl := List.mem_singleton.1 hother
        exact ⟨record, rfl⟩
    · rw [hresolve]
      simp
    · rw [hresolve]
      simp only [reduceCtorEq, exists_const, false_iff]
      rintro ⟨one, other, hne, hone, hother⟩
      exact hne ((List.mem_singleton.1 hone).trans (List.mem_singleton.1 hother).symm)
  · have hresolve : resolve X r (.byRegime regimeId date env) nowUnix =
        .error (.ambiguous (Selector.byRegime regimeId date env).describe (hash :: other :: rest).length) := by
      unfold resolve Selector.target
      simp only
      rw [happlicable]
      rfl
    have hne : hash ≠ other := fun heq => (List.nodup_cons.1 hnodup).1 (by rw [heq]; exact List.mem_cons_self)
    rw [hmem]
    constructor
    · intro one
      rw [hresolve]
      constructor
      · rintro ⟨_, hok⟩
        cases hok
      · rintro ⟨-, hunique⟩
        exact absurd ((hunique hash List.mem_cons_self).trans (hunique other (by simp)).symm) hne
    · rw [hresolve]
      constructor
      · rintro ⟨_, hnotFound⟩
        cases hnotFound
      · intro hnone
        exact absurd List.mem_cons_self (hnone hash)
    · rw [hresolve]
      simp only [Except.error.injEq, RegistryError.ambiguous.injEq]
      exact ⟨fun _ => ⟨hash, other, hne, List.mem_cons_self, by simp⟩, fun _ => ⟨_, _, rfl, rfl⟩⟩

end

end Ke.Registry
