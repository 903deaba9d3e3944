/-
The round trip of the canonical bytes, for each of the three types that have them, and what the bytes
forget: two values are written alike exactly when they are the same up to the order of their sets and
the scale of their decimals.
-/
import KeEngine.Core.Normal

namespace Ke

open Wire

/-! ## The same value -/

/-- Equal texts and booleans, decimals of equal value, lists item by item. -/
def ScalarValue.Same : ScalarValue → ScalarValue → Prop
  | .str s, .str s' => s = s'
  | .bool b, .bool b' => b = b'
  | .decimal m s, .decimal m' s' => decimalValue m s = decimalValue m' s'
  | .list items, .list items' => sameItems items items'
  | _, _ => False
where
  sameItems : List ScalarValue → List ScalarValue → Prop
    | [], [] => True
    | v :: vs, w :: ws => Same v w ∧ sameItems vs ws
    | _, _ => False

structure Condition.Same (c d : Condition) : Prop where
  field : c.field = d.field
  operator : c.operator = d.operator
  value : c.value.Same d.value
  description : c.description = d.description

def ConditionOrGroup.Same : ConditionOrGroup → ConditionOrGroup → Prop
  | .condition c, .condition d => c.Same d
  | .group all any, .group all' any' => sameOpt all all' ∧ sameOpt any any'
  | _, _ => False
where
  sameOpt : Option (List ConditionOrGroup) → Option (List ConditionOrGroup) → Prop
    | none, none => True
    | some items, some items' => sameItems items items'
    | _, _ => False
  sameItems : List ConditionOrGroup → List ConditionOrGroup → Prop
    | [], [] => True
    | x :: xs, y :: ys => Same x y ∧ sameItems xs ys
    | _, _ => False

def ConditionGroupSpec.Same (g g' : ConditionGroupSpec) : Prop :=
  ConditionOrGroup.Same.sameOpt g.all g'.all ∧ ConditionOrGroup.Same.sameOpt g.any g'.any

def DecisionEntry.Same : DecisionEntry → DecisionEntry → Prop
  | .node i c t f s, .node i' c' t' f' s' => i = i' ∧ c.Same c' ∧ Same t t' ∧ Same f f' ∧ s = s'
  | .leaf l, .leaf l' => l = l'
  | _, _ => False

/-- Equal rules but for the order of the tags and the scale of the decimals. -/
structure RuleIR.Same (r r' : RuleIR) : Prop where
  tags : Option.Rel List.Perm r.tags r'.tags
  appliesIf : Option.Rel ConditionGroupSpec.Same r.appliesIf r'.appliesIf
  decisionTree : r.decisionTree.Same r'.decisionTree
  rest : r' = { r with tags := r'.tags, appliesIf := r'.appliesIf, decisionTree := r'.decisionTree }

/-- Equal policy bundles but for the order of the required types and of the counts. -/
structure PolicyBundle.Same (p p' : PolicyBundle) : Prop where
  required : p.verificationPolicy.requiredAttestationTypes.Perm p'.verificationPolicy.requiredAttestationTypes
  counts : p.verificationPolicy.minimumAttestationCountPerType.Perm p'.verificationPolicy.minimumAttestationCountPerType
  rest : p' = { p with verificationPolicy := { p'.verificationPolicy with
    t2T3Mode := p.verificationPolicy.t2T3Mode } }

/-! ## Equal normal forms -/

/-- Lists mapped item by item to normal forms are equal exactly when their items are the same. -/
theorem mapM_eq_iff {ε α : Type} {f : α → Except ε α} {R : α → α → Prop} {items : List α} :
    ∀ {items' out out' : List α},
      (∀ v ∈ items, ∀ w v' w', f v = .ok v' → f w = .ok w' → (v' = w' ↔ R v w)) →
      items.mapM f = .ok out → items'.mapM f = .ok out' → (out = out' ↔ List.Forall₂ R items items') := by
  simp only [mapM_ok]
  intro items' out out' hf h
  induction h generalizing items' out' with
  | nil =>
    intro h'
    cases h' with
    | nil => simp
    | cons _ _ => simp
  | cons hv _ ih =>
    intro h'
    cases h' with
    | nil => simp
    | cons hw hws =>
      have hhead := hf _ (List.mem_cons_self ..) _ _ _ hv hw
      have htail := ih (fun x hx => hf x (List.mem_cons_of_mem _ hx)) hws
      rw [List.cons.injEq, List.forall₂_cons, hhead, htail]

theorem ScalarValue.sameItems_iff : ∀ {items items' : List ScalarValue},
    ScalarValue.Same.sameItems items items' ↔ List.Forall₂ ScalarValue.Same items items'
  | [], [] => by simp [ScalarValue.Same.sameItems]
  | [], _ :: _ => by simp [ScalarValue.Same.sameItems]
  | _ :: _, [] => by simp [ScalarValue.Same.sameItems]
  | v :: vs, w :: ws => by rw [ScalarValue.Same.sameItems, List.forall₂_cons, sameItems_iff]

theorem ConditionOrGroup.sameItems_iff : ∀ {items items' : List ConditionOrGroup},
    ConditionOrGroup.Same.sameItems items items' ↔ List.Forall₂ ConditionOrGroup.Same items items'
  | [], [] => by simp [ConditionOrGroup.Same.sameItems]
  | [], _ :: _ => by simp [ConditionOrGroup.Same.sameItems]
  | _ :: _, [] => by simp [ConditionOrGroup.Same.sameItems]
  | x :: xs, y :: ys => by rw [ConditionOrGroup.Same.sameItems, List.forall₂_cons, sameItems_iff]

section Same

variable {isNfc : String → Bool}

theorem scalars_eq_mapM (items : List ScalarValue) :
    canonicalizeScalar.scalars isNfc items = items.mapM (canonicalizeScalar isNfc) := by
  induction items with
  | nil => rfl
  | cons v vs ih =>
    rw [List.mapM_cons, ← ih]
    rfl

theorem condItems_eq_mapM : ∀ items : List ConditionOrGroup,
    canonicalizeCondOrGroup.condItems isNfc items = items.mapM (canonicalizeCondOrGroup isNfc)
  | [] => rfl
  | x :: xs => by rw [List.mapM_cons, ← condItems_eq_mapM xs]; rfl

theorem canonicalize_str {s : String} {v : ScalarValue} (h : canonicalizeScalar isNfc (.str s) = .ok v) : v = .str s :=
  (pure_ok.1 (then_ok.1 h).2).symm

theorem canonicalize_bool {b : Bool} {v : ScalarValue} (h : canonicalizeScalar isNfc (.bool b) = .ok v) : v = .bool b :=
  (pure_ok.1 h).symm

theorem canonicalize_decimal {m : I128} {s : I8} {v : ScalarValue}
    (h : canonicalizeScalar isNfc (.decimal m s) = .ok v) :
    ∃ n, normalizeDecimal m s = .ok n ∧ v = .decimal n.1 n.2 := by
  obtain ⟨n, hn, h⟩ := bind_ok.1 h
  exact ⟨n, hn, (pure_ok.1 h).symm⟩

theorem canonicalize_list {items : List ScalarValue} {v : ScalarValue}
    (h : canonicalizeScalar isNfc (.list items) = .ok v) :
    ∃ out, canonicalizeScalar.scalars isNfc items = .ok out ∧ v = .list out := by
  obtain ⟨out, hout, h⟩ := bind_ok.1 h
  exact ⟨out, hout, (pure_ok.1 h).symm⟩

/-- Two operands have one normal form exactly when they are the same. -/
theorem sameScalar (v : ScalarValue) :
    ∀ w v' w', canonicalizeScalar isNfc v = .ok v' → canonicalizeScalar isNfc w = .ok w' → (v' = w' ↔ v.Same w) := by
  induction v using ScalarValue.ind with
  | hs s =>
    intro w v' w' h h'
    obtain rfl := canonicalize_str h
    cases w with
    | str s' => obtain rfl := canonicalize_str h'; simp [ScalarValue.Same]
    | bool b => obtain rfl := canonicalize_bool h'; simp [ScalarValue.Same]
    | decimal m s => obtain ⟨n, -, rfl⟩ := canonicalize_decimal h'; simp [ScalarValue.Same]
    | list items => obtain ⟨out, -, rfl⟩ := canonicalize_list h'; simp [ScalarValue.Same]
  | hb b =>
    intro w v' w' h h'
    obtain rfl := canonicalize_bool h
    cases w with
    | str s' => obtain rfl := canonicalize_str h'; simp [ScalarValue.Same]
    | bool b => obtain rfl := canonicalize_bool h'; simp [ScalarValue.Same]
    | decimal m s => obtain ⟨n, -, rfl⟩ := canonicalize_decimal h'; simp [ScalarValue.Same]
    | list items => obtain ⟨out, -, rfl⟩ := canonicalize_list h'; simp [ScalarValue.Same]
  | hd m s =>
    intro w v' w' h h'
    obtain ⟨n, hn, rfl⟩ := canonicalize_decimal h
    cases w with
    | str s' => obtain rfl := canonicalize_str h'; simp [ScalarValue.Same]
    | bool b => obtain rfl := canonicalize_bool h'; simp [ScalarValue.Same]
    | decimal m' s' =>
      obtain ⟨n', hn', rfl⟩ := canonicalize_decimal h'
      rw [ScalarValue.decimal.injEq, ← Prod.ext_iff]
      exact normalizeDecimal_eq_iff hn hn'
    | list items => obtain ⟨out, -, rfl⟩ := canonicalize_list h'; simp [ScalarValue.Same]
  | hl items ih =>
    intro w v' w' h h'
    obtain ⟨out, hout, rfl⟩ := canonicalize_list h
    cases w with
    | str s' => obtain rfl := canonicalize_str h'; simp [ScalarValue.Same]
    | bool b => obtain rfl := canonicalize_bool h'; simp [ScalarValue.Same]
    | decimal m s => obtain ⟨n, -, rfl⟩ := canonicalize_decimal h'; simp [ScalarValue.Same]
    | list items' =>
      obtain ⟨out', hout', rfl⟩ := canonicalize_list h'
      rw [scalars_eq_mapM] at hout hout'
      rw [ScalarValue.list.injEq, mapM_eq_iff ih hout hout']
      exact ScalarValue.sameItems_iff.symm

theorem sameCondition {c d c' d' : Condition} (h : canonicalizeCondition isNfc c = .ok c')
    (h' : canonicalizeCondition isNfc d = .ok d') : c' = d' ↔ c.Same d := by
  obtain ⟨-, h⟩ := then_ok.1 h
  obtain ⟨-, h⟩ := then_ok.1 h
  obtain ⟨v, hv, h⟩ := bind_ok.1 h
  obtain rfl := pure_ok.1 h
  obtain ⟨-, h'⟩ := then_ok.1 h'
  obtain ⟨-, h'⟩ := then_ok.1 h'
  obtain ⟨w, hw, h'⟩ := bind_ok.1 h'
  obtain rfl := pure_ok.1 h'
  have hval := sameScalar c.value d.value v w hv hw
  rw [Condition.mk.injEq, hval]
  constructor
  · rintro ⟨h1, h2, h3, h4⟩
    exact ⟨h1, h2, h3, h4⟩
  · rintro ⟨h1, h2, h3, h4⟩
    exact ⟨h1, h2, h3, h4⟩

theorem sameOpt {o o' u u' : Option (List ConditionOrGroup)}
    (hx : ∀ items ∈ o, ∀ x ∈ items, ∀ y x' y', canonicalizeCondOrGroup isNfc x = .ok x' →
      canonicalizeCondOrGroup isNfc y = .ok y' → (x' = y' ↔ x.Same y))
    (h : canonicalizeCondOrGroup.optItems isNfc o = .ok u) (h' : canonicalizeCondOrGroup.optItems isNfc o' = .ok u') :
    u = u' ↔ ConditionOrGroup.Same.sameOpt o o' := by
  cases o with
  | none =>
    obtain rfl := pure_ok.1 h
    cases o' with
    | none => obtain rfl := pure_ok.1 h'; simp [ConditionOrGroup.Same.sameOpt]
    | some items' =>
      obtain ⟨out', -, h'⟩ := bind_ok.1 h'
      obtain rfl := pure_ok.1 h'
      simp [ConditionOrGroup.Same.sameOpt]
  | some items =>
    obtain ⟨out, hout, h⟩ := bind_ok.1 h
    obtain rfl := pure_ok.1 h
    cases o' with
    | none => obtain rfl := pure_ok.1 h'; simp [ConditionOrGroup.Same.sameOpt]
    | some items' =>
      obtain ⟨out', hout', h'⟩ := bind_ok.1 h'
      obtain rfl := pure_ok.1 h'
      rw [condItems_eq_mapM] at hout hout'
      rw [Option.some.injEq, mapM_eq_iff (hx items rfl) hout hout']
      exact ConditionOrGroup.sameItems_iff.symm

theorem sameCondOrGroup (x : ConditionOrGroup) :
    ∀ y x' y', canonicalizeCondOrGroup isNfc x = .ok x' → canonicalizeCondOrGroup isNfc y = .ok y' →
      (x' = y' ↔ x.Same y) := by
  induction x using ConditionOrGroup.ind with
  | hc c =>
    intro y x' y' h h'
    obtain ⟨c', hc, h⟩ := bind_ok.1 h
    obtain rfl := pure_ok.1 h
    cases y with
    | condition d =>
      obtain ⟨d', hd, h'⟩ := bind_ok.1 h'
      obtain rfl := pure_ok.1 h'
      rw [ConditionOrGroup.condition.injEq]
      exact sameCondition hc hd
    | group all any =>
      obtain ⟨all', -, h'⟩ := bind_ok.1 h'
      obtain ⟨any', -, h'⟩ := bind_ok.1 h'
      obtain rfl := pure_ok.1 h'
      simp [ConditionOrGroup.Same]
  | hg all any iha ihb =>
    intro y x' y' h h'
    obtain ⟨all', hall, h⟩ := bind_ok.1 h
    obtain ⟨any', hany, h⟩ := bind_ok.1 h
    obtain rfl := pure_ok.1 h
    cases y with
    | condition d =>
      obtain ⟨d', -, h'⟩ := bind_ok.1 h'
      obtain rfl := pure_ok.1 h'
      simp [ConditionOrGroup.Same]
    | group all₂ any₂ =>
      obtain ⟨all₂', hall', h'⟩ := bind_ok.1 h'
      obtain ⟨any₂', hany', h'⟩ := bind_ok.1 h'
      obtain rfl := pure_ok.1 h'
      rw [ConditionOrGroup.group.injEq, sameOpt iha hall hall', sameOpt ihb hany hany']
      rfl

theorem sameOptGroup {o o' u u' : Option ConditionGroupSpec} (h : canonicalizeOptGroup isNfc o = .ok u)
    (h' : canonicalizeOptGroup isNfc o' = .ok u') : u = u' ↔ Option.Rel ConditionGroupSpec.Same o o' := by
  cases o with
  | none =>
    obtain rfl := pure_ok.1 h
    cases o' with
    | none => obtain rfl := pure_ok.1 h'; exact ⟨fun _ => .none, fun _ => rfl⟩
    | some g' =>
      obtain ⟨c', -, h'⟩ := bind_ok.1 h'
      obtain rfl := pure_ok.1 h'
      exact ⟨nofun, nofun⟩
  | some g =>
    obtain ⟨c, hc, h⟩ := bind_ok.1 h
    obtain rfl := pure_ok.1 h
    cases o' with
    | none => obtain rfl := pure_ok.1 h'; exact ⟨nofun, nofun⟩
    | some g' =>
      obtain ⟨c', hc', h'⟩ := bind_ok.1 h'
      obtain rfl := pure_ok.1 h'
      obtain ⟨all, hall, hc⟩ := bind_ok.1 hc
      obtain ⟨any, hany, hc⟩ := bind_ok.1 hc
      obtain rfl := pure_ok.1 hc
      obtain ⟨all', hall', hc'⟩ := bind_ok.1 hc'
      obtain ⟨any', hany', hc'⟩ := bind_ok.1 hc'
      obtain rfl := pure_ok.1 hc'
      have h1 := sameOpt (fun _ _ x _ => sameCondOrGroup x) hall hall'
      have h2 := sameOpt (fun _ _ x _ => sameCondOrGroup x) hany hany'
      rw [Option.some.injEq, ConditionGroupSpec.mk.injEq, h1, h2]
      exact ⟨fun h => .some h, fun h => by cases h; assumption⟩

theorem sameEntry : ∀ {e e' u u' : DecisionEntry}, canonicalizeEntry isNfc e = .ok u →
    canonicalizeEntry isNfc e' = .ok u' → (u = u' ↔ e.Same e')
  | .node _ _ _ _ _, .node _ _ _ _ _, u, u', h, h' => by
    obtain ⟨-, h⟩ := then_ok.1 h
    obtain ⟨c, hc, h⟩ := bind_ok.1 h
    obtain ⟨t, ht, h⟩ := bind_ok.1 h
    obtain ⟨f, hf, h⟩ := bind_ok.1 h
    obtain ⟨-, h⟩ := then_ok.1 h
    obtain rfl := pure_ok.1 h
    obtain ⟨-, h'⟩ := then_ok.1 h'
    obtain ⟨c', hc', h'⟩ := bind_ok.1 h'
    obtain ⟨t', ht', h'⟩ := bind_ok.1 h'
    obtain ⟨f', hf', h'⟩ := bind_ok.1 h'
    obtain ⟨-, h'⟩ := then_ok.1 h'
    obtain rfl := pure_ok.1 h'
    rw [DecisionEntry.node.injEq, sameCondition hc hc', sameEntry ht ht', sameEntry hf hf']
    rfl
  | .node _ _ _ _ _, .leaf _, u, u', h, h' => by
    obtain ⟨-, h⟩ := then_ok.1 h
    obtain ⟨c, -, h⟩ := bind_ok.1 h
    obtain ⟨t, -, h⟩ := bind_ok.1 h
    obtain ⟨f, -, h⟩ := bind_ok.1 h
    obtain ⟨-, h⟩ := then_ok.1 h
    obtain rfl := pure_ok.1 h
    obtain ⟨-, h'⟩ := then_ok.1 h'
    obtain rfl := pure_ok.1 h'
    simp [DecisionEntry.Same]
  | .leaf _, .node _ _ _ _ _, u, u', h, h' => by
    obtain ⟨-, h⟩ := then_ok.1 h
    obtain rfl := pure_ok.1 h
    obtain ⟨-, h'⟩ := then_ok.1 h'
    obtain ⟨c', -, h'⟩ := bind_ok.1 h'
    obtain ⟨t', -, h'⟩ := bind_ok.1 h'
    obtain ⟨f', -, h'⟩ := bind_ok.1 h'
    obtain ⟨-, h'⟩ := then_ok.1 h'
    obtain rfl := pure_ok.1 h'
    simp [DecisionEntry.Same]
  | .leaf _, .leaf _, u, u', h, h' => by
    obtain ⟨-, h⟩ := then_ok.1 h
    obtain rfl := pure_ok.1 h
    obtain ⟨-, h'⟩ := then_ok.1 h'
    obtain rfl := pure_ok.1 h'
    rw [DecisionEntry.leaf.injEq]
    rfl

theorem sameTags {o o' u u' : Option (List String)} (h : canonicalizeTags isNfc o = .ok u)
    (h' : canonicalizeTags isNfc o' = .ok u') : u = u' ↔ Option.Rel List.Perm o o' := by
  cases o with
  | none =>
    obtain rfl := pure_ok.1 h
    cases o' with
    | none => obtain rfl := pure_ok.1 h'; exact ⟨fun _ => .none, fun _ => rfl⟩
    | some tags' =>
      obtain ⟨-, h'⟩ := then_ok.1 h'
      obtain ⟨out', -, h'⟩ := bind_ok.1 h'
      obtain rfl := pure_ok.1 h'
      exact ⟨nofun, nofun⟩
  | some tags =>
    obtain ⟨-, h⟩ := then_ok.1 h
    obtain ⟨out, hout, h⟩ := bind_ok.1 h
    obtain rfl := pure_ok.1 h
    cases o' with
    | none => obtain rfl := pure_ok.1 h'; exact ⟨nofun, nofun⟩
    | some tags' =>
      obtain ⟨-, h'⟩ := then_ok.1 h'
      obtain ⟨out', hout', h'⟩ := bind_ok.1 h'
      obtain rfl := pure_ok.1 h'
      rw [Option.some.injEq, canonicalizeSet_eq_iff hout hout']
      exact ⟨fun h => .some h, fun h => by cases h; assumption⟩

theorem sameRule {r r' c c' : RuleIR} (h : canonicalizeRule isNfc r = .ok c) (h' : canonicalizeRule isNfc r' = .ok c') :
    c = c' ↔ r.Same r' := by
  obtain ⟨tags, group, tree, h1, h2, h3, rfl⟩ := canonicalizeRule_fields h
  obtain ⟨tags', group', tree', h1', h2', h3', rfl⟩ := canonicalizeRule_fields h'
  have htags := sameTags h1 h1'
  have hgroup := sameOptGroup h2 h2'
  have htree := sameEntry h3 h3'
  obtain ⟨ruleId, ruleVersion, description, _, _, _, obligations, source, notes, window, provenance⟩ := r
  obtain ⟨ruleId', ruleVersion', description', _, _, _, obligations', source', notes', window', provenance'⟩ := r'
  constructor
  · intro heq
    rw [RuleIR.mk.injEq] at heq
    obtain ⟨rfl, rfl, rfl, ht, hg, he, rfl, rfl, rfl, rfl, rfl⟩ := heq
    exact ⟨htags.1 ht, hgroup.1 hg, htree.1 he, rfl⟩
  · rintro ⟨ht, hg, he, hrest⟩
    rw [RuleIR.mk.injEq] at hrest
    obtain ⟨rfl, rfl, rfl, -, -, -, rfl, rfl, rfl, rfl, rfl⟩ := hrest
    rw [htags.2 ht, hgroup.2 hg, htree.2 he]

theorem samePolicy {p p' c c' : PolicyBundle} (h : canonicalizePolicy isNfc p = .ok c)
    (h' : canonicalizePolicy isNfc p' = .ok c') : c = c' ↔ p.Same p' := by
  obtain ⟨-, -, v, hv, rfl⟩ := canonicalizePolicy_ok h
  obtain ⟨-, -, v', hv', rfl⟩ := canonicalizePolicy_ok h'
  obtain ⟨types, counts, h1, h2, rfl⟩ := canonicalizeVerificationPolicy_ok hv
  obtain ⟨types', counts', h1', h2', rfl⟩ := canonicalizeVerificationPolicy_ok hv'
  have htypes := canonicalizeSet_eq_iff h1 h1'
  have hcounts := canonicalizeSet_eq_iff h2 h2'
  obtain ⟨environment, ⟨mode, _, _⟩, revocation, window⟩ := p
  obtain ⟨environment', ⟨mode', _, _⟩, revocation', window'⟩ := p'
  constructor
  · intro heq
    simp only [PolicyBundle.mk.injEq, VerificationPolicy.mk.injEq] at heq
    obtain ⟨rfl, ⟨rfl, ht, hc⟩, rfl, rfl⟩ := heq
    exact ⟨htypes.1 ht, hcounts.1 hc, rfl⟩
  · rintro ⟨ht, hc, hrest⟩
    simp only [PolicyBundle.mk.injEq, VerificationPolicy.mk.injEq] at hrest
    obtain ⟨rfl, ⟨rfl, -, -⟩, rfl, rfl⟩ := hrest
    rw [htypes.2 ht, hcounts.2 hc]

end Same

/-! ## The law of a canonical type -/

/-- Encoding and decoding invert each other up to canonicalisation, and the bytes forget no more than
`Same` does. -/
structure RoundTrips {α : Type} (encode : α → Except CanonicalError Bytes)
    (decode : Bytes → Except CanonicalDecodeError α) (canonicalize : α → Except CanonicalError α)
    (Same : α → α → Prop) : Prop where
  decode_encode : ∀ {v bytes}, encode v = .ok bytes →
    ∃ c, canonicalize v = .ok c ∧ decode bytes = .ok c ∧ encode c = .ok bytes
  canonicalize_idempotent : ∀ {v c}, canonicalize v = .ok c → canonicalize c = .ok c
  encode_eq_iff : ∀ {v w bytes bytes'}, encode v = .ok bytes → encode w = .ok bytes' →
    (bytes = bytes' ↔ canonicalize v = canonicalize w)
  encode_eq_iff_same : ∀ {v w bytes bytes'}, encode v = .ok bytes → encode w = .ok bytes' →
    (bytes = bytes' ↔ Same v w)

/-- A profile round trips when its normal forms are equal exactly for the same values. -/
theorem roundTrips_of_profile {α : Type} {p : Profile CanonicalError CanonicalDecodeError α}
    {encode : α → Except CanonicalError Bytes} {decode : Bytes → Except CanonicalDecodeError α} {Same : α → α → Prop}
    (henc : ∀ {v bytes}, encode v = .ok bytes ↔ p.Writes v bytes)
    (hdec : ∀ {v bytes}, decode bytes = .ok v ↔ p.Reads bytes v)
    (hsame : ∀ {v w c c'}, p.canonicalize v = .ok c → p.canonicalize w = .ok c' → (c = c' ↔ Same v w)) :
    RoundTrips encode decode p.canonicalize Same where
  decode_encode h := by
    obtain ⟨c, hc, hread, -, hwrite⟩ := (henc.1 h).reads
    exact ⟨c, hc, hdec.2 hread, henc.2 hwrite⟩
  canonicalize_idempotent h := Profile.canonicalize_idempotent h
  encode_eq_iff h h' := (henc.1 h).eq_iff (henc.1 h')
  encode_eq_iff_same h h' := by
    rw [(henc.1 h).eq_iff (henc.1 h')]
    obtain ⟨c, hc, -⟩ := henc.1 h
    obtain ⟨c', hc', -⟩ := henc.1 h'
    rw [hc, hc', Except.ok.injEq]
    exact hsame hc hc'

/-- Rules, policy bundles and manifests round trip; rules are forgotten up to the order of their tags
and the scale of their decimals, policy bundles up to the order of their two sets, manifests not at
all. -/
theorem codec_roundTrips (isNfc : String → Bool) :
    RoundTrips (encodeRule isNfc) (decodeRule isNfc) (canonicalizeRule isNfc) RuleIR.Same ∧
      RoundTrips (encodePolicy isNfc) (decodePolicy isNfc) (canonicalizePolicy isNfc) PolicyBundle.Same ∧
      RoundTrips (encodeManifest isNfc) (decodeManifest isNfc)
        (fun m => do canonicalizeManifest isNfc m; pure m) (· = ·) := by
  refine ⟨?_, ?_, ?_⟩
  · exact roundTrips_of_profile (p := ruleProfile isNfc) encodeRule_iff decodeRule_iff sameRule
  · exact roundTrips_of_profile (p := policyProfile isNfc) encodePolicy_iff decodePolicy_iff samePolicy
  · refine roundTrips_of_profile (p := manifestProfile isNfc) encodeManifest_iff decodeManifest_iff ?_
    intro v w c c' h h'
    obtain ⟨-, h⟩ := then_ok.1 h
    obtain rfl := pure_ok.1 h
    obtain ⟨-, h'⟩ := then_ok.1 h'
    obtain rfl := pure_ok.1 h'
    rfl

/-- Two spellings of a rule: the tags in either order, one limit written as 5.0 and as 5. -/
def spelledRule (tags : List String) (mantissa : I128) (scale : I8) : RuleIR :=
  { RuleIR.bare "limit" (some ⟨some [.condition ⟨"amount", .lte, .decimal mantissa scale, none⟩], none⟩)
      (.result "permit") with tags := some tags }

theorem codec_roundTrips_spelledRule : ∃ bytes,
    encodeRule (fun _ => true) (spelledRule ["eu", "payments"] (.lit 128 50) (.lit 8 1)) = .ok bytes ∧
      encodeRule (fun _ => true) (spelledRule ["payments", "eu"] (.lit 128 5) (.lit 8 0)) = .ok bytes := by
  have henc : (encodeRule (fun _ => true) (spelledRule ["eu", "payments"] (.lit 128 50) (.lit 8 1))).isOk = true := by
    decide +kernel
  have henc' : (encodeRule (fun _ => true) (spelledRule ["payments", "eu"] (.lit 128 5) (.lit 8 0))).isOk = true := by
    decide +kernel
  obtain ⟨bytes, h⟩ := exists_ok henc
  obtain ⟨bytes', h'⟩ := exists_ok henc'
  refine ⟨bytes, h, ?_⟩
  have hsame : RuleIR.Same (spelledRule ["eu", "payments"] (.lit 128 50) (.lit 8 1))
      (spelledRule ["payments", "eu"] (.lit 128 5) (.lit 8 0)) := by
    refine ⟨.some (List.Perm.swap ..), .some ⟨⟨⟨rfl, rfl, ?_, rfl⟩, trivial⟩, trivial⟩, rfl, rfl⟩
    show decimalValue (.lit 128 50) (.lit 8 1) = decimalValue (.lit 128 5) (.lit 8 0)
    norm_num [decimalValue, SInt.lit]
  rw [h', ((codec_roundTrips fun _ => true).1.encode_eq_iff_same h h').2 hsame]

end Ke
