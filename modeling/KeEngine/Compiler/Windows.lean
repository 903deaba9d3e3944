/-
Effective windows from source to verifier. A rule whose source declares no `effective_from` has no
window, whatever it declares as `effective_to`. The overlap test of the verifier compares each start
with the other end, so that it differs from a common date on windows without any date and at the
date that stands for an open end.
-/
import KeEngine.Compiler.FailClosed
import KeEngine.Compiler.Numerals
import KeEngine.Compiler.T4
import KeEngine.Runtime.Effective

namespace Ke.Compiler

open Ke Wire Fields

/-! ## Dates in text -/

/-- Digits of the value `n`, with or without a plus sign. -/
def Digits (cs : List Char) (n : Nat) : Prop :=
  ∃ ds, (cs = ds ∨ cs = '+' :: ds) ∧ ds ≠ [] ∧ (∀ c ∈ ds, c.isDigit = true) ∧ Nat.ofDigitChars 10 ds 0 = n

/-- A year, a month and a day in digits, with dashes between. -/
def DateText (s : String) (date : JurisdictionDate) : Prop :=
  ∃ year month day n, (trim s).splitOn '-' = [year, month, day] ∧ Digits year n ∧ date.year.val = n ∧
    Digits month date.month.toNat ∧ Digits day date.day.toNat

theorem Digits.unique {cs : List Char} {m n : Nat} (hm : Digits cs m) (hn : Digits cs n) : m = n := by
  obtain ⟨ds, hds, hne, hdigits, rfl⟩ := hm
  obtain ⟨es, hes, hne', hdigits', rfl⟩ := hn
  have hplus : ∀ {xs ys : List Char}, (∀ c ∈ xs, c.isDigit = true) → xs ≠ '+' :: ys := by
    rintro xs ys hxs rfl
    exact absurd (hxs '+' (List.mem_cons_self ..)) (by decide)
  rcases hds with rfl | rfl <;> rcases hes with h | h
  · rw [h]
  · exact absurd h (hplus hdigits)
  · exact absurd h.symm (hplus hdigits')
  · rw [(List.cons.inj h).2]

theorem DateText.unique {s : String} {d d' : JurisdictionDate} (h : DateText s d) (h' : DateText s d') : d = d' := by
  obtain ⟨y, m, dd, n, hsplit, hy, hyear, hm, hd⟩ := h
  obtain ⟨y', m', dd', n', hsplit', hy', hyear', hm', hd'⟩ := h'
  rw [hsplit] at hsplit'
  simp only [List.cons.injEq, and_true] at hsplit'
  obtain ⟨rfl, rfl, rfl⟩ := hsplit'
  obtain ⟨year, month, day⟩ := d
  obtain ⟨year', month', day'⟩ := d'
  have h1 : year = year' := SInt.ext (by rw [hyear, hyear', hy.unique hy'])
  have h2 : month = month' := UInt8.toNat_inj.1 (hm.unique hm')
  have h3 : day = day' := UInt8.toNat_inj.1 (hd.unique hd')
  rw [h1, h2, h3]

theorem parseUnsigned_digits {hi n : Nat} {cs : List Char} (h : parseUnsigned hi cs = some n) :
    Digits cs n ∧ n < hi := by
  obtain ⟨m, hdigits, h⟩ := Option.bind_eq_some_iff.1 h
  split at h
  · rename_i hlt
    obtain rfl := Option.some.inj h
    refine ⟨?_, hlt⟩
    split at hdigits
    · exact ⟨_, .inr rfl, parseDigits_eq_some.1 hdigits⟩
    · exact ⟨_, .inl rfl, parseDigits_eq_some.1 hdigits⟩
  · cases h

/-- A year that is not negative is read from digits. -/
theorem parseSigned_digits {w : Nat} {cs : List Char} {y : SInt w} (h : parseSigned w cs = some y) (hpos : 0 < y.val) :
    ∃ n : Nat, Digits cs n ∧ y.val = n := by
  unfold parseSigned at h
  split at h <;> obtain ⟨n, hdigits, h⟩ := Option.bind_eq_some_iff.1 h <;> have hval := SInt.ofInt?_eq_some.1 h
  · omega
  · exact ⟨n, ⟨_, .inr rfl, parseDigits_eq_some.1 hdigits⟩, hval⟩
  · exact ⟨n, ⟨_, .inl rfl, parseDigits_eq_some.1 hdigits⟩, hval⟩

/-- A date that is read is the one written, and is structurally valid. -/
theorem parseDate_ok {s : String} {date : JurisdictionDate} (h : parseDate s = .ok date) :
    DateText s date ∧ validDate date := by
  unfold parseDate at h
  split at h
  · rename_i year month day hsplit
    split at h
    · rename_i y m d hy hm hd
      simp only at h
      split at h
      · rename_i hvalid
        cases h
        obtain ⟨hm, hm'⟩ := parseUnsigned_digits hm
        obtain ⟨hd, hd'⟩ := parseUnsigned_digits hd
        obtain ⟨n, hn, hyear⟩ := parseSigned_digits hy (lt_of_lt_of_le (by decide) hvalid.1)
        refine ⟨⟨year, month, day, n, hsplit, hn, hyear, ?_, ?_⟩, hvalid⟩
        · rwa [UInt8.toNat_ofNat_of_lt' hm']
        · rwa [UInt8.toNat_ofNat_of_lt' hd']
      · cases h
    · cases h
  · cases h

/-! ## Windows from source -/

/-- The date is not before the declared start and is before the declared end, each where declared. -/
def InDeclared (fields : Fields) (date : JurisdictionDate) : Prop :=
  (∀ s, optScalar fields "effective_from" = some s → ∃ start, DateText s start ∧ keyLt date start = false) ∧
    ∀ s, optScalar fields "effective_to" = some s → ∃ stop, DateText s stop ∧ keyLt date stop = true

/-- The window of an accepted rule. -/
theorem compileRule_window {fields : Fields} {rule : RuleIR} (h : compileRule fields = .ok rule) :
    match optScalar fields "effective_from" with
    | none => rule.effectiveWindow = none
    | some s => ∃ start stop, parseDate s = .ok start ∧ (optScalar fields "effective_to").mapM parseDate = .ok stop ∧
        rule.effectiveWindow = some ⟨start, stop, none, none⟩ := by
  obtain ⟨ast, hast, hrule⟩ := bind_ok.1 h
  have hdates : ast.effectiveFrom = optScalar fields "effective_from" ∧
      ast.effectiveTo = optScalar fields "effective_to" := by
    obtain ⟨_, -, hast⟩ := bind_ok.1 hast
    obtain ⟨_, -, hast⟩ := bind_ok.1 hast
    obtain ⟨_, -, hast⟩ := bind_ok.1 hast
    obtain ⟨_, -, hast⟩ := bind_ok.1 hast
    obtain ⟨_, -, hast⟩ := bind_ok.1 hast
    obtain ⟨_, -, hast⟩ := bind_ok.1 hast
    obtain ⟨_, -, hast⟩ := bind_ok.1 hast
    obtain rfl := pure_ok.1 hast
    exact ⟨rfl, rfl⟩
  obtain ⟨_, -, hrule⟩ := bind_ok.1 hrule
  obtain ⟨_, -, hrule⟩ := bind_ok.1 hrule
  obtain ⟨w, hw, hrule⟩ := bind_ok.1 hrule
  obtain rfl := pure_ok.1 hrule
  rw [lowerWindow, hdates.1, hdates.2] at hw
  cases hfrom : optScalar fields "effective_from" with
  | none =>
    rw [hfrom] at hw
    exact (Except.ok.inj hw).symm
  | some s =>
    rw [hfrom] at hw
    obtain ⟨start, hstart, hw⟩ := bind_ok.1 hw
    obtain ⟨stop, hstop, hw⟩ := bind_ok.1 hw
    exact ⟨start, stop, hstart, hstop, (pure_ok.1 hw).symm⟩

theorem effectiveAt_some (w : EffectiveWindow) (date : JurisdictionDate) : effectiveAt (some w) date = true ↔
    keyLt date w.effectiveFrom = false ∧ ∀ stop ∈ w.effectiveTo, keyLt date stop = true := by
  simp only [effectiveAt]
  cases keyLt date w.effectiveFrom <;> cases w.effectiveTo <;> simp

/-- A window covers the declared dates when the source declares a start. -/
theorem window_faithful_of_from {fields : Fields} {rule : RuleIR} {s : String} (h : compileRule fields = .ok rule)
    (hfrom : optScalar fields "effective_from" = some s) (date : JurisdictionDate) :
    effectiveAt rule.effectiveWindow date = true ↔ InDeclared fields date := by
  have hw := compileRule_window h
  rw [hfrom] at hw
  obtain ⟨start, stop, hstart, hstop, hw⟩ := hw
  rw [hw, effectiveAt_some, InDeclared, hfrom]
  have hstart' := (parseDate_ok hstart).1
  refine and_congr ?_ ?_
  · constructor
    · rintro hlt s' ⟨⟩
      exact ⟨start, hstart', hlt⟩
    · intro hall
      obtain ⟨d, hd, hlt⟩ := hall s rfl
      rwa [hstart'.unique hd]
  · cases hto : optScalar fields "effective_to" with
    | none =>
      rw [hto] at hstop
      cases hstop
      simp
    | some t =>
      rw [hto] at hstop
      obtain ⟨d, hd, hstop⟩ := bind_ok.1 hstop
      obtain rfl := pure_ok.1 hstop
      have hd' := (parseDate_ok hd).1
      constructor
      · rintro hlt s' ⟨⟩
        exact ⟨d, hd', hlt d rfl⟩
      · rintro hall d' ⟨⟩
        obtain ⟨e, he, hlt⟩ := hall t rfl
        rwa [hd'.unique he]

theorem keyLt_irrefl (d : JurisdictionDate) : keyLt d d = false := by
  rw [Bool.eq_false_iff, Ne, keyLt_iff]
  exact lt_irrefl _

/-- No end of a source is after every date. -/
theorem not_forall_inDeclared {fields : Fields} {t : String} (hto : optScalar fields "effective_to" = some t) :
    ¬ ∀ date, InDeclared fields date := by
  intro hall
  obtain ⟨stop, hstop, -⟩ := (hall ⟨.lit 16 1900, 1, 1⟩).2 t hto
  -- the end itself is not before the end
  obtain ⟨stop', hstop', hlt⟩ := (hall stop).2 t hto
  rw [hstop.unique hstop', keyLt_irrefl] at hlt
  cases hlt

/-- The lowered window covers exactly the declared dates if and only if the source declares a start,
or no end. -/
theorem window_faithful_iff {fields : Fields} {rule : RuleIR} (h : compileRule fields = .ok rule) :
    (∀ date, effectiveAt rule.effectiveWindow date = true ↔ InDeclared fields date) ↔
      optScalar fields "effective_from" ≠ none ∨ optScalar fields "effective_to" = none := by
  cases hfrom : optScalar fields "effective_from" with
  | some s => simpa using window_faithful_of_from h hfrom
  | none =>
    have hw := compileRule_window h
    rw [hfrom] at hw
    simp only [hw, effectiveAt, ne_eq, not_true_eq_false, false_or, true_iff]
    cases hto : optScalar fields "effective_to" with
    | some t => simpa using not_forall_inDeclared hto
    | none => simp [InDeclared, hfrom, hto]

/-- A document with the given dates and one outcome. -/
def datedDocument (dates : Fields) : Fields :=
  dates ++ [("rule_id", .plain "r"), ("decision_tree", .mapping [("result", .plain "permit")]),
    ("source", .mapping [("document_id", .plain "doc")])]

/-- The rule that `datedDocument` compiles to with the given window. -/
def datedRule (window : Option EffectiveWindow) : RuleIR :=
  { RuleIR.bare "r" none (.result "permit") with effectiveWindow := window }

theorem window_faithful_iff_year :
    (∀ date, effectiveAt (datedRule
      (some ⟨⟨.lit 16 2024, 1, 1⟩, some ⟨.lit 16 2025, 1, 1⟩, none, none⟩)).effectiveWindow date = true ↔
        InDeclared (datedDocument [("effective_from", .plain "2024-01-01"),
          ("effective_to", .plain "2025-01-01")]) date) ↔
      optScalar (datedDocument [("effective_from", .plain "2024-01-01"), ("effective_to", .plain "2025-01-01")])
        "effective_from" ≠ none ∨
        optScalar (datedDocument [("effective_from", .plain "2024-01-01"), ("effective_to", .plain "2025-01-01")])
        "effective_to" = none :=
  window_faithful_iff rfl

/-- A rule that ends with 2023 and declares no start is compiled to one that is always effective. -/
theorem end_without_start :
    ¬ ∀ (fields : Fields) (rule : RuleIR), compileRule fields = .ok rule →
      ∀ date, effectiveAt rule.effectiveWindow date = true ↔ InDeclared fields date := by
  intro hall
  have h := hall (datedDocument [("effective_to", .plain "2024-01-01")]) (datedRule none) rfl
  exact not_forall_inDeclared (t := "2024-01-01") rfl fun date => (h date).1 rfl

/-! ## Overlap -/

/-- The window that the normal form of a rule keeps. -/
def semWindow (w : EffectiveWindow) : SemWindow := ⟨semDate w.effectiveFrom, w.effectiveTo.map semDate⟩

/-- A window that lowering produces. -/
def Lowered (w : EffectiveWindow) : Prop := ∃ ast, lowerWindow ast = .ok (some w)

theorem Lowered.valid {w : EffectiveWindow} (h : Lowered w) :
    validDate w.effectiveFrom ∧ ∀ stop ∈ w.effectiveTo, validDate stop := by
  obtain ⟨ast, h⟩ := h
  unfold lowerWindow at h
  split at h
  · cases h
  · obtain ⟨start, hstart, h⟩ := bind_ok.1 h
    obtain ⟨stop, hstop, h⟩ := bind_ok.1 h
    cases pure_ok.1 h
    refine ⟨(parseDate_ok hstart).2, ?_⟩
    rcases mapM_option_ok.1 hstop with ⟨-, rfl⟩ | ⟨s, d, -, hd, rfl⟩
    · rintro t ⟨⟩
    · rintro t ⟨⟩
      exact (parseDate_ok hd).2

/-- The date that stands for an open end. -/
def lastDay : JurisdictionDate := ⟨.lit 16 32767, 12, 31⟩

theorem dateLt_semDate (a b : JurisdictionDate) : T4.dateLt (semDate a) (semDate b) = true ↔ ordinal a < ordinal b := by
  have hyear : a.year = b.year ↔ a.year.val = b.year.val := ⟨fun h => by rw [h], SInt.ext⟩
  rw [← keyLt_iff, T4.dateLt, keyLt, decide_eq_true_iff, decide_eq_true_iff, hyear]
  rfl

theorem ordinal_injective {a b : JurisdictionDate} (h : ordinal a = ordinal b) : a = b := by
  have hm := a.month.toNat_lt
  have hm' := b.month.toNat_lt
  have hd := a.day.toNat_lt
  have hd' := b.day.toNat_lt
  obtain ⟨year, month, day⟩ := a
  obtain ⟨year', month', day'⟩ := b
  simp only [ordinal] at h hm hm' hd hd'
  have h1 : year = year' := SInt.ext (by omega)
  have h2 : month = month' := UInt8.toNat_inj.1 (by omega)
  have h3 : day = day' := UInt8.toNat_inj.1 (by omega)
  rw [h1, h2, h3]

theorem ordinal_le_lastDay {d : JurisdictionDate} (h : validDate d) : ordinal d ≤ ordinal lastDay := by
  obtain ⟨-, ⟨-, hm⟩, -, hd⟩ := h
  have hy := d.year.hi
  rw [UInt8.le_iff_toNat_le] at hm hd
  have hlast : ordinal lastDay = 65536 * 32767 + 256 * 12 + 31 := rfl
  rw [hlast, ordinal]
  have hm' : d.month.toNat ≤ 12 := hm
  have hd' : d.day.toNat ≤ 31 := hd
  norm_num at hy
  omega

/-- The end that the overlap test compares with. -/
def endOf (w : EffectiveWindow) : JurisdictionDate := w.effectiveTo.getD lastDay

theorem windowsOverlap_iff (a b : EffectiveWindow) :
    T4.windowsOverlap (some (semWindow a)) (some (semWindow b)) = true ↔
    ordinal a.effectiveFrom < ordinal (endOf b) ∧ ordinal b.effectiveFrom < ordinal (endOf a) := by
  have hend : ∀ w : EffectiveWindow, (semWindow w).stop.getD T4.openEnd = semDate (endOf w) := by
    intro w
    unfold semWindow endOf
    cases w.effectiveTo <;> rfl
  simp only [T4.windowsOverlap, Bool.and_eq_true, hend]
  exact and_congr (dateLt_semDate _ _) (dateLt_semDate _ _)

/-- Windows have a common date exactly when both starts are before both ends. -/
theorem common_date_iff {a b : EffectiveWindow} (ha : validDate a.effectiveFrom) (hb : validDate b.effectiveFrom) :
    (∃ d, validDate d ∧ effectiveAt (some a) d = true ∧ effectiveAt (some b) d = true) ↔
      ∀ stop, stop ∈ a.effectiveTo ∨ stop ∈ b.effectiveTo →
        ordinal a.effectiveFrom < ordinal stop ∧ ordinal b.effectiveFrom < ordinal stop := by
  simp only [effectiveAt_iff]
  constructor
  · rintro ⟨d, -, ⟨ha1, ha2⟩, hb1, hb2⟩ stop (h | h)
    · have := ha2 stop h
      omega
    · have := hb2 stop h
      omega
  · intro h
    -- the later start is a common date
    rcases le_total (ordinal a.effectiveFrom) (ordinal b.effectiveFrom) with hle | hle
    · exact ⟨b.effectiveFrom, hb, ⟨hle, fun stop hs => (h stop (.inl hs)).2⟩, le_rfl,
        fun stop hs => (h stop (.inr hs)).2⟩
    · exact ⟨a.effectiveFrom, ha, ⟨le_rfl, fun stop hs => (h stop (.inl hs)).1⟩, hle,
        fun stop hs => (h stop (.inr hs)).1⟩

/-- The window `a` ends no later than it starts, and `b` reaches from before that end to after that
start. -/
def Astride (a b : EffectiveWindow) : Prop :=
  ∃ stop ∈ a.effectiveTo, ordinal stop ≤ ordinal a.effectiveFrom ∧ ordinal b.effectiveFrom < ordinal stop ∧
    ordinal a.effectiveFrom < ordinal (endOf b)

/-- Both windows are open, and one of them starts on the last day. -/
def OnLastDay (a b : EffectiveWindow) : Prop :=
  a.effectiveTo = none ∧ b.effectiveTo = none ∧ (a.effectiveFrom = lastDay ∨ b.effectiveFrom = lastDay)

/-- The overlap test finds a common date of two lowered windows exactly, unless one is empty or
inverted astride the other, or both are open and one starts on the last day. -/
theorem windowsOverlap_exact_iff {a b : EffectiveWindow} (ha : Lowered a) (hb : Lowered b) :
    (T4.windowsOverlap (some (semWindow a)) (some (semWindow b)) = true ↔
        ∃ d, validDate d ∧ effectiveAt (some a) d = true ∧ effectiveAt (some b) d = true) ↔
      ¬ (Astride a b ∨ Astride b a ∨ OnLastDay a b) := by
  obtain ⟨hfrom, hto⟩ := ha.valid
  obtain ⟨hfrom', hto'⟩ := hb.valid
  rw [windowsOverlap_iff, common_date_iff hfrom hfrom']
  have hlast := ordinal_le_lastDay hfrom
  have hlast' := ordinal_le_lastDay hfrom'
  have hday : ∀ d, d = lastDay ↔ ordinal d = ordinal lastDay := fun d => ⟨fun h => by rw [h], ordinal_injective⟩
  unfold Astride OnLastDay endOf
  rw [hday, hday]
  cases hat : a.effectiveTo with
  | none =>
    cases hbt : b.effectiveTo with
    | none =>
      simp
      omega
    | some t =>
      have ht := ordinal_le_lastDay (hto' t hbt)
      simp
      omega
  | some s =>
    have hs := ordinal_le_lastDay (hto s hat)
    cases hbt : b.effectiveTo with
    | none =>
      simp
      omega
    | some t =>
      simp [or_imp, forall_and]
      omega

/-- The syntax of a rule with the given dates. -/
def datedAst (effectiveFrom : String) (effectiveTo : Option String) : AstRule where
  ruleId := "r"
  version := none
  description := none
  tags := []
  effectiveFrom := some effectiveFrom
  effectiveTo
  jurisdiction := none
  appliesIf := none
  decisionTree := .leaf ⟨"permit", [], none⟩
  obligations := []
  source := ⟨"doc", none, none, [], []⟩
  interpretationNotes := none

/-- `[2024-01-01, 2025-01-01)` -/
def wholeYear : EffectiveWindow := ⟨⟨.lit 16 2024, 1, 1⟩, some ⟨.lit 16 2025, 1, 1⟩, none, none⟩

/-- `[2024-06-01, 2024-06-01)` -/
def emptyWindow : EffectiveWindow := ⟨⟨.lit 16 2024, 6, 1⟩, some ⟨.lit 16 2024, 6, 1⟩, none, none⟩

theorem lowered_wholeYear : Lowered wholeYear := ⟨datedAst "2024-01-01" (some "2025-01-01"), rfl⟩

theorem lowered_emptyWindow : Lowered emptyWindow := ⟨datedAst "2024-06-01" (some "2024-06-01"), rfl⟩

theorem windowsOverlap_exact_iff_wholeYear :
    (T4.windowsOverlap (some (semWindow wholeYear)) (some (semWindow wholeYear)) = true ↔
        ∃ d, validDate d ∧ effectiveAt (some wholeYear) d = true ∧ effectiveAt (some wholeYear) d = true) ↔
      ¬ (Astride wholeYear wholeYear ∨ Astride wholeYear wholeYear ∨ OnLastDay wholeYear wholeYear) :=
  windowsOverlap_exact_iff lowered_wholeYear lowered_wholeYear

/-- A window without any date overlaps a year that it lies in. -/
theorem empty_window_overlaps :
    ¬ ∀ a b : EffectiveWindow, Lowered a → Lowered b →
      (T4.windowsOverlap (some (semWindow a)) (some (semWindow b)) = true ↔
        ∃ d, validDate d ∧ effectiveAt (some a) d = true ∧ effectiveAt (some b) d = true) := by
  intro hall
  obtain ⟨d, -, hd, -⟩ := (hall emptyWindow wholeYear lowered_emptyWindow lowered_wholeYear).1 (by decide +kernel)
  obtain ⟨hlow, hhigh⟩ := (effectiveAt_iff _ _).1 hd
  have := hhigh _ rfl
  simp only [emptyWindow] at hlow this
  omega

end Ke.Compiler
