/-
Sets as sequences: a set is put in order in place, by an argsort of the encodings, a scan of neighbours and
slots that are emptied in the sorted order; the decoder scans the sequence once. For any element type and any
serialisation, which may fail on an element or give two of them one encoding.
-/
import KeEngine.Core.Canonical
import KeEngine.Sorting.Argsort

namespace Ke

open Wire

/-- A list maps to another exactly when its items map to the items there. -/
theorem mapM_ok {ε α β : Type} {f : α → Except ε β} :
    ∀ {as : List α} {bs : List β}, as.mapM f = .ok bs ↔ List.Forall₂ (fun a b => f a = .ok b) as bs
  | [], bs => by
    rw [List.mapM_nil]
    constructor
    · intro h; cases h; exact .nil
    · intro h; cases h; rfl
  | a :: as, bs => by
    rw [List.mapM_cons]
    constructor
    · intro h
      obtain ⟨b, hb, h⟩ := bind_ok.1 h
      obtain ⟨cs, hcs, h⟩ := bind_ok.1 h
      obtain rfl := pure_ok.1 h
      exact .cons hb (mapM_ok.1 hcs)
    · rintro (_ | ⟨hb, hcs⟩)
      exact bind_ok.2 ⟨_, hb, bind_ok.2 ⟨_, mapM_ok.2 hcs, rfl⟩⟩

theorem forall₂_mem_left {α β : Type} {R : α → β → Prop} {as : List α} {bs : List β} (h : List.Forall₂ R as bs)
    {a : α} (ha : a ∈ as) : ∃ b ∈ bs, R a b := by
  induction h with
  | nil => cases ha
  | cons hab _ ih =>
    rcases List.mem_cons.1 ha with rfl | ha
    · exact ⟨_, List.mem_cons_self, hab⟩
    · obtain ⟨b, hb, hr⟩ := ih ha
      exact ⟨b, List.mem_cons_of_mem _ hb, hr⟩

theorem forall₂_mem_right {α β : Type} {R : α → β → Prop} {as : List α} {bs : List β} (h : List.Forall₂ R as bs)
    {b : β} (hb : b ∈ bs) : ∃ a ∈ as, R a b :=
  forall₂_mem_left (R := fun b a => R a b) h.flip hb

end Ke

namespace Ke.SetOrder

open Ke Wire

section

variable {α : Type} (enc : α → Except EncodeError Bytes)

/-! ## The two functions -/

/-- What a set is left as, with the result; nothing where an empty slot is taken. Only a set that is put in
order changes. -/
def canonicalizeSet (items : List α) : Option (Except CanonicalError Unit × List α) :=
  -- key each item by its encoding
  match items.mapM enc with
  | .error e => some (.error (.codec e), items)
  | .ok keys =>
    let order := Argsort.order (· ≤ ·) keys
    if (order.zip order.tail).any fun w => decide (keys.get w.1 = keys.get w.2) then
      some (.error .duplicateSetElement, items)
    else (Argsort.takeAll (order.map Fin.val) (items.map some)).map fun out => (.ok (), out)

def checkSetFrom : Option Bytes → List α → Except CanonicalDecodeError Unit
  | _, [] => .ok ()
  | prev, it :: items => do
    let key ← (enc it).mapError .encode
    match prev with
    | none => checkSetFrom (some key) items
    | some p =>
      if key < p then .error .unsortedSet
      else if key = p then .error .duplicateSetElement
      else checkSetFrom (some key) items

def checkSetCanonical (items : List α) : Except CanonicalDecodeError Unit := checkSetFrom enc none items

/-! ## Encodings -/

/-- Every item has an encoding, and no two have the same. -/
def Distinct (items : List α) : Prop := ∃ keys, items.mapM enc = .ok keys ∧ keys.Nodup

/-- Every item has an encoding, which lies strictly after those of the items before. -/
def Increasing (items : List α) : Prop := ∃ keys, items.mapM enc = .ok keys ∧ keys.Pairwise (· < ·)

/-- The encoding of an item that has one. -/
def key (a : α) : Bytes := (enc a).toOption.getD []

variable {enc} {items items' : List α} {keys : List Bytes}

theorem key_of_ok {a : α} {k : Bytes} (h : enc a = .ok k) : key enc a = k := by
  unfold key
  rw [h]
  rfl

theorem mapM_enc_iff : items.mapM enc = .ok keys ↔
    (∀ a ∈ items, enc a = .ok (key enc a)) ∧ keys = items.map (key enc) := by
  rw [mapM_ok]
  constructor
  · intro h
    induction h with
    | nil => exact ⟨fun _ ha => absurd ha List.not_mem_nil, rfl⟩
    | cons ha _ ih =>
      obtain ⟨hall, rfl⟩ := ih
      have hk := key_of_ok ha
      exact ⟨List.forall_mem_cons.2 ⟨by rw [hk]; exact ha, hall⟩, by rw [List.map_cons, hk]⟩
  · rintro ⟨hall, rfl⟩
    rw [List.forall₂_map_right_iff, List.forall₂_same]
    exact hall

theorem distinct_iff : Distinct enc items ↔
    (∀ a ∈ items, enc a = .ok (key enc a)) ∧ (items.map (key enc)).Nodup := by
  unfold Distinct
  simp only [mapM_enc_iff]
  exact ⟨fun ⟨_, ⟨hall, hkeys⟩, hnodup⟩ => ⟨hall, hkeys ▸ hnodup⟩, fun ⟨hall, hnodup⟩ => ⟨_, ⟨hall, rfl⟩, hnodup⟩⟩

theorem increasing_iff : Increasing enc items ↔
    (∀ a ∈ items, enc a = .ok (key enc a)) ∧ items.Pairwise fun a b => key enc a < key enc b := by
  unfold Increasing
  simp only [mapM_enc_iff, ← List.pairwise_map]
  exact ⟨fun ⟨_, ⟨hall, hkeys⟩, hlt⟩ => ⟨hall, hkeys ▸ hlt⟩, fun ⟨hall, hlt⟩ => ⟨_, ⟨hall, rfl⟩, hlt⟩⟩

theorem Distinct.perm (h : Distinct enc items) (hp : items'.Perm items) : Distinct enc items' := by
  rw [distinct_iff] at h ⊢
  exact ⟨fun a ha => h.1 a (hp.mem_iff.1 ha), (hp.map (key enc)).nodup_iff.2 h.2⟩

theorem Increasing.distinct (h : Increasing enc items) : Distinct enc items := by
  obtain ⟨keys, hkeys, hlt⟩ := h
  refine ⟨keys, hkeys, hlt.imp ?_⟩
  rintro k l hlt rfl
  exact List.lt_irrefl k hlt

/-- A set has one increasing order. -/
theorem Increasing.unique (h : Increasing enc items) (h' : Increasing enc items') (hp : items.Perm items') :
    items = items' := by
  rw [increasing_iff] at h h'
  exact hp.eq_of_pairwise (fun a b _ _ hab hba => absurd hba (List.lt_asymm hab)) h.2 h'.2

/-! ## The scan -/

theorem checkSetFrom_ok : ∀ {items : List α} {prev : Option Bytes}, checkSetFrom enc prev items = .ok () ↔
    (∀ a ∈ items, enc a = .ok (key enc a)) ∧ (prev.toList ++ items.map (key enc)).IsChain (· < ·)
  | [], prev => by
    cases prev with
    | none => simp [checkSetFrom]
    | some p => simp [checkSetFrom]
  | a :: items, prev => by
    have ih := fun k => @checkSetFrom_ok items (some k)
    cases ha : enc a with
    | error e =>
      refine iff_of_false ?_ fun h => ?_
      · rw [checkSetFrom, ha]
        exact nofun
      · cases ha.symm.trans (h.1 a List.mem_cons_self)
    | ok k =>
      have hk := key_of_ok ha
      rw [List.forall_mem_cons, ha, hk, List.map_cons, hk]
      simp only [checkSetFrom, ha, Except.mapError, bind, Except.bind]
      cases prev with
      | none =>
        simp only [ih k]
        simp
      | some p =>
        simp only [Option.toList_some, List.singleton_append, List.isChain_cons_cons, true_and]
        by_cases hlt : p < k
        · rw [if_neg (List.lt_asymm hlt), if_neg (by rintro rfl; exact List.lt_irrefl _ hlt), ih k]
          simp [hlt]
        · refine iff_of_false ?_ fun h => hlt h.2.1
          split
          · exact nofun
          · rename_i hle
            have heq : k = p := ((List.le_iff_lt_or_eq.1 hle).resolve_left hlt).symm
            rw [if_pos heq]
            exact nofun

/-- The scan accepts the increasing sequences. -/
theorem checkSetCanonical_ok : checkSetCanonical enc items = .ok () ↔ Increasing enc items := by
  have htrans : IsTrans Bytes (· < ·) := ⟨fun _ _ _ h1 h2 => List.lt_trans h1 h2⟩
  rw [checkSetCanonical, checkSetFrom_ok, increasing_iff, Option.toList_none, List.nil_append,
    List.isChain_iff_pairwise, List.pairwise_map]

/-! ## The sort -/

/-- What is beside each key, in the order of the keys. -/
def inOrder (keys : List Bytes) (items : List α) (h : keys.length = items.length) : List α :=
  (Argsort.order (· ≤ ·) keys).map fun i => items.get (i.cast h)

theorem map_get_finRange {n : Nat} (h : n = items.length) :
    (List.finRange n).map (fun i => items.get (i.cast h)) = items := by
  subst h
  exact List.map_get_finRange items

theorem inOrder_perm (h : keys.length = items.length) : (inOrder keys items h).Perm items := by
  have hperm := (Argsort.perm_order (· ≤ ·) keys).map fun i => items.get (i.cast h)
  rwa [map_get_finRange h] at hperm

/-- No slot is empty when it is taken. -/
theorem takeAll_order (h : keys.length = items.length) :
    Argsort.takeAll ((Argsort.order (· ≤ ·) keys).map Fin.val) (items.map some) = some (inOrder keys items h) := by
  refine Argsort.takeAll_of_nodup (Argsort.nodup_order (· ≤ ·) keys) fun i _ => ?_
  rw [List.getElem?_map, List.getElem?_eq_getElem (h ▸ i.isLt)]
  rfl

/-- With keys for the items, either two keys are equal and nothing changes, or the items come out in the order
of the keys. -/
theorem canonicalizeSet_keys (h : items.mapM enc = .ok keys) :
    ¬ keys.Nodup ∧ canonicalizeSet enc items = some (.error .duplicateSetElement, items) ∨
      keys.Nodup ∧ ∃ out, canonicalizeSet enc items = some (.ok (), out) ∧ out.Perm items ∧
        out.mapM enc = .ok (keys.insertionSort (· ≤ ·)) := by
  have htotal : Std.Total fun k l : Bytes => k ≤ l := ⟨List.le_total⟩
  have htrans : IsTrans Bytes (· ≤ ·) := ⟨fun _ _ _ => List.le_trans⟩
  have hantisymm : Std.Antisymm fun k l : Bytes => k ≤ l := ⟨fun _ _ => List.le_antisymm⟩
  -- neighbours of the order are neighbours of the sorted keys
  have hdup : ((Argsort.order (· ≤ ·) keys).zip (Argsort.order (· ≤ ·) keys).tail).any
      (fun w => decide (keys.get w.1 = keys.get w.2)) = false ↔ keys.Nodup := by
    rw [← (List.perm_insertionSort (· ≤ ·) keys).nodup_iff,
      ← Argsort.neighbours_nodup (List.pairwise_insertionSort (· ≤ ·) keys), ← Argsort.map_get_order, ← List.map_tail,
      List.zip_map, List.any_map]
    rfl
  unfold canonicalizeSet
  rw [h]
  simp only
  by_cases hnodup : keys.Nodup
  · refine .inr ⟨hnodup, ?_⟩
    rw [hdup.2 hnodup, if_neg Bool.false_ne_true]
    have hforall := mapM_ok.1 h
    have hlength : keys.length = items.length := hforall.length_eq.symm
    rw [takeAll_order hlength]
    refine ⟨_, rfl, inOrder_perm hlength, ?_⟩
    rw [inOrder, ← Argsort.map_get_order, mapM_ok, List.forall₂_map_left_iff, List.forall₂_map_right_iff,
      List.forall₂_same]
    exact fun i _ => (List.forall₂_iff_get.1 hforall).2 i.val (hlength ▸ i.isLt) i.isLt
  · exact .inl ⟨hnodup, if_pos (Bool.of_not_eq_false fun hfalse => hnodup (hdup.1 hfalse))⟩

/-- A set of different encodings comes out in increasing order, and any other stays as it is. -/
theorem canonicalizeSet_cases (items : List α) :
    (¬ Distinct enc items ∧ ∃ e, canonicalizeSet enc items = some (.error e, items)) ∨
      Distinct enc items ∧ ∃ out, canonicalizeSet enc items = some (.ok (), out) ∧ out.Perm items ∧
        Increasing enc out := by
  cases hkeys : items.mapM enc with
  | error e =>
    refine .inl ⟨fun ⟨keys, h, _⟩ => ?_, .codec e, ?_⟩
    · cases hkeys.symm.trans h
    · unfold canonicalizeSet
      rw [hkeys]
  | ok keys =>
    rcases canonicalizeSet_keys hkeys with ⟨hdup, hout⟩ | ⟨hnodup, out, hout, hperm, hsorted⟩
    · refine .inl ⟨fun ⟨keys', h, hnodup⟩ => hdup ?_, _, hout⟩
      cases hkeys.symm.trans h
      exact hnodup
    · refine .inr ⟨⟨keys, hkeys, hnodup⟩, out, hout, hperm, _, hsorted, ?_⟩
      have htotal : Std.Total fun k l : Bytes => k ≤ l := ⟨List.le_total⟩
      have htrans : IsTrans Bytes (· ≤ ·) := ⟨fun _ _ _ => List.le_trans⟩
      have hle := List.pairwise_insertionSort (· ≤ ·) keys
      have hne := (List.perm_insertionSort (· ≤ ·) keys).nodup_iff.2 hnodup
      exact hle.imp₂ (fun k l hle hne => (List.le_iff_lt_or_eq.1 hle).resolve_right hne) hne

/-- An increasing set is what every permutation of it is put in. -/
theorem canonicalizeSet_of_increasing {out : List α} (h : Increasing enc out) (hp : items.Perm out) :
    canonicalizeSet enc items = some (.ok (), out) := by
  rcases @canonicalizeSet_cases α enc items with ⟨hdup, -⟩ | ⟨-, out', hout', hperm, hinc⟩
  · exact absurd (h.distinct.perm hp) hdup
  · rwa [hinc.unique h (hperm.trans hp)] at hout'

/-! ## Canonical sets -/

/-- A set is put in order exactly when its encodings are different; the result is a permutation of it, in
increasing order, that passes the scan and does not depend on the order before. The scan accepts what stays
as it is, and no slot is taken twice. -/
theorem set_canonicalization (enc : α → Except EncodeError Bytes) (items : List α) :
    ((∃ out, canonicalizeSet enc items = some (.ok (), out)) ↔ Distinct enc items) ∧
      (∀ out, canonicalizeSet enc items = some (.ok (), out) → out.Perm items ∧ Increasing enc out ∧
        checkSetCanonical enc out = .ok () ∧
          ∀ items', items'.Perm items → canonicalizeSet enc items' = some (.ok (), out)) ∧
      (checkSetCanonical enc items = .ok () ↔ canonicalizeSet enc items = some (.ok (), items)) ∧
      canonicalizeSet enc items ≠ none := by
  rcases @canonicalizeSet_cases α enc items with ⟨hdup, e, herror⟩ | ⟨hdistinct, out, hout, hperm, hinc⟩
  · refine ⟨iff_of_false ?_ hdup, ?_, iff_of_false ?_ ?_, ?_⟩
    · rw [herror]
      exact nofun
    · rw [herror]
      exact nofun
    · exact fun hcheck => hdup (checkSetCanonical_ok.1 hcheck).distinct
    · rw [herror]
      exact nofun
    · rw [herror]
      exact nofun
  · refine ⟨iff_of_true ⟨out, hout⟩ hdistinct, ?_, ⟨fun hcheck => ?_, fun hsame => ?_⟩, ?_⟩
    · intro out' hout'
      cases hout.symm.trans hout'
      exact ⟨hperm, hinc, checkSetCanonical_ok.2 hinc, fun items' hp =>
        canonicalizeSet_of_increasing hinc (hp.trans hperm.symm)⟩
    · exact canonicalizeSet_of_increasing (checkSetCanonical_ok.1 hcheck) (.refl items)
    · cases hout.symm.trans hsame
      exact checkSetCanonical_ok.2 hinc
    · rw [hout]
      exact nofun

end

/-! ## Sets of a codec -/

section

variable {α : Type} (c : Codec α)

theorem mapM_keyed (items : List α) : items.mapM (fun a => (c.enc a).map fun key => (key, a)) =
    (items.mapM c.enc).map fun keys => keys.zip items := by
  induction items with
  | nil => rfl
  | cons a items ih =>
    rw [List.mapM_cons, List.mapM_cons, ih]
    cases c.enc a with
    | error e => rfl
    | ok k => cases items.mapM c.enc <;> rfl

/-- The sorting of keyed items is the argsort, with its errors. -/
theorem canonicalizeSet_codec (items : List α) : canonicalizeSet c.enc items =
    some (match Ke.canonicalizeSet c items with
      | .error e => (.error e, items)
      | .ok out => (.ok (), out)) := by
  unfold canonicalizeSet Ke.canonicalizeSet
  rw [mapM_keyed]
  cases hkeys : items.mapM c.enc with
  | error e => rfl
  | ok keys =>
    have hlength : keys.length = items.length := (mapM_ok.1 hkeys).length_eq.symm
    have hsorted : (keys.zip items).insertionSort (fun x y => ¬ y.1 < x.1) =
        (Argsort.order (· ≤ ·) keys).map fun i => (keys.get i, items.get (i.cast hlength)) := by
      rw [Argsort.map_order (s := fun x y => ¬ y.1 < x.1) _ fun i j => Iff.rfl, ← List.zip_map', List.map_get_finRange,
        map_get_finRange hlength]
    simp only [Except.map]
    rw [hsorted, takeAll_order hlength, ← List.map_tail, List.zip_map, List.any_map, List.map_map]
    have hdup : ((fun p : (Bytes × α) × (Bytes × α) => p.1.1 == p.2.1) ∘
        Prod.map (fun i => (keys.get i, items.get (i.cast hlength)))
          fun i => (keys.get i, items.get (i.cast hlength))) =
          fun w => decide (keys.get w.1 = keys.get w.2) := by
      funext w
      rw [Bool.eq_iff_iff, decide_eq_true_iff]
      exact beq_iff_eq
    rw [hdup]
    split <;> rfl

theorem checkSetFrom_codec : ∀ (items : List α) (prev : Option Bytes),
    Ke.checkSetFrom c prev items = checkSetFrom c.enc prev items
  | [], _ => rfl
  | a :: items, prev => by
    have ih := fun k => checkSetFrom_codec items (some k)
    rw [Ke.checkSetFrom, checkSetFrom]
    refine congrArg _ (funext fun key => ?_)
    cases prev with
    | none => exact ih key
    | some p =>
      show (if key < p then _ else if key = p then _ else _) = if key < p then _ else if key = p then _ else _
      rw [ih key]

theorem checkSetCanonical_codec (items : List α) : Ke.checkSetCanonical c items = checkSetCanonical c.enc items :=
  checkSetFrom_codec c items none

end

end Ke.SetOrder
