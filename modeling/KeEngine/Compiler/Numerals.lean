/-
Decimal text. A numeral is an optional sign and digits around an optional point. The parser reads
exactly the numerals of a 128-bit mantissa and an 8-bit scale, each by its digits; a plain scalar
that is a wider numeral stays text.
-/
import KeEngine.Compiler.Parser
import KeEngine.Core.CanonicalLaws

namespace Ke.Compiler

open Ke Wire Fields

/-! ## Digits -/

theorem foldlM_digits : ∀ (cs : List Char) (a n : Nat),
    cs.foldlM (fun n c => if c.isDigit then some (10 * n + (c.toNat - '0'.toNat)) else none) a = some n ↔
      (∀ c ∈ cs, c.isDigit = true) ∧ Nat.ofDigitChars 10 cs a = n
  | [], a, n => by simp
  | c :: cs, a, n => by
    rw [List.foldlM_cons, Nat.ofDigitChars_cons, List.forall_mem_cons]
    cases hc : c.isDigit with
    | true => simpa using foldlM_digits cs (10 * a + (c.toNat - '0'.toNat)) n
    | false => simp

theorem parseDigits_eq_some {cs : List Char} {n : Nat} :
    parseDigits cs = some n ↔ cs ≠ [] ∧ (∀ c ∈ cs, c.isDigit = true) ∧ Nat.ofDigitChars 10 cs 0 = n := by
  cases cs with
  | nil => simp [parseDigits]
  | cons c cs => simpa [parseDigits] using foldlM_digits (c :: cs) 0 n

theorem digit_ne {c d : Char} (hc : c.isDigit = true) (hd : d.isDigit = false) : c ≠ d := by
  rintro rfl
  rw [hc] at hd
  cases hd

theorem splitOnce_of_mem {sep : Char} {cs : List Char} (h : sep ∈ cs) :
    cs = (splitOnce sep cs).1 ++ sep :: (splitOnce sep cs).2 := by
  induction cs with
  | nil => cases h
  | cons c cs ih =>
    by_cases hc : c = sep
    · simp [splitOnce, hc]
    · have hmem := ih ((List.mem_cons.1 h).resolve_left (Ne.symm hc))
      simpa [splitOnce, hc] using hmem

theorem splitOnce_of_not_mem {sep : Char} {cs : List Char} (h : sep ∉ cs) : splitOnce sep cs = (cs, []) := by
  have hne : ∀ c ∈ cs, decide (c ≠ sep) = true := fun c hc => decide_eq_true fun heq => h (heq ▸ hc)
  rw [splitOnce, List.takeWhile_eq_self_iff.2 hne, List.dropWhile_eq_nil_iff.2 hne, List.tail_nil]

theorem splitOnce_append {sep : Char} {cs ds : List Char} (h : sep ∉ cs) :
    splitOnce sep (cs ++ sep :: ds) = (cs, ds) := by
  have hne : ∀ c ∈ cs, decide (c ≠ sep) = true := fun c hc => decide_eq_true fun heq => h (heq ▸ hc)
  rw [splitOnce, List.takeWhile_append_of_pos hne, List.dropWhile_append_of_pos hne]
  simp

/-! ## Numerals -/

inductive Sign
  | unsigned
  | plus
  | minus
deriving DecidableEq

def Sign.chars : Sign → List Char
  | .unsigned => []
  | .plus => ['+']
  | .minus => ['-']

def Sign.apply (sign : Sign) (n : Int) : Int := if sign = .minus then -n else n

/-- A sign, and digits around a point. -/
structure Numeral where
  sign : Sign
  whole : List Char
  point : Bool
  fraction : List Char
  digits : ∀ c ∈ whole ++ fraction, c.isDigit = true
  nonempty : whole ++ fraction ≠ []
  pointed : point = false → fraction = []

namespace Numeral

variable (n : Numeral)

def body : List Char := n.whole ++ if n.point then '.' :: n.fraction else []

def chars : List Char := n.sign.chars ++ n.body

/-- The digits, read as one number. -/
def magnitude : Nat := Nat.ofDigitChars 10 (n.whole ++ n.fraction) 0

/-- The rational number that a numeral writes. -/
def value : ℚ := (n.sign.apply n.magnitude : ℚ) / 10 ^ n.fraction.length

theorem splitOnce_body : splitOnce '.' n.body = (n.whole, n.fraction) := by
  have hpoint : '.' ∉ n.whole := fun h => digit_ne (n.digits '.' (List.mem_append_left _ h)) rfl rfl
  unfold body
  cases hp : n.point with
  | true => exact splitOnce_append hpoint
  | false => rw [n.pointed hp, if_neg Bool.false_ne_true, List.append_nil, splitOnce_of_not_mem hpoint]

/-- A body starts with a digit or with the point. -/
theorem body_cons : ∃ c cs, n.body = c :: cs ∧ c ≠ '-' ∧ c ≠ '+' := by
  unfold body
  cases hw : n.whole with
  | cons c cs =>
    have hc := n.digits c (by rw [hw]; exact List.mem_cons_self ..)
    exact ⟨c, _, rfl, digit_ne hc rfl, digit_ne hc rfl⟩
  | nil =>
    have hp : n.point = true := by
      by_contra hp
      exact n.nonempty (by rw [hw, n.pointed (by simpa using hp)]; rfl)
    exact ⟨'.', n.fraction, by simp [hp], by decide, by decide⟩

end Numeral

/-- The sign that both parsers read first. -/
def splitSign : List Char → Bool × List Char
  | '-' :: rest => (true, rest)
  | '+' :: rest => (false, rest)
  | t => (false, t)

theorem splitSign_chars (n : Numeral) : splitSign n.chars = (decide (n.sign = .minus), n.body) := by
  unfold Numeral.chars
  cases hs : n.sign with
  | plus => rfl
  | minus => rfl
  | unsigned =>
    obtain ⟨c, cs, hbody, hminus, hplus⟩ := n.body_cons
    rw [hbody]
    simp only [Sign.chars, List.nil_append, splitSign]
    split
    · rename_i heq
      exact absurd (List.cons.inj heq).1 hminus
    · rename_i heq
      exact absurd (List.cons.inj heq).1 hplus
    · rfl

theorem exists_sign (t : List Char) :
    ∃ sign : Sign, t = sign.chars ++ (splitSign t).2 ∧ (splitSign t).1 = decide (sign = .minus) := by
  unfold splitSign
  split
  · exact ⟨.minus, rfl, rfl⟩
  · exact ⟨.plus, rfl, rfl⟩
  · exact ⟨.unsigned, rfl, rfl⟩

/-- Digits on the two sides of the point make a numeral. -/
theorem exists_numeral {t : List Char} {m : Nat}
    (h : parseDigits ((splitOnce '.' (splitSign t).2).1 ++ (splitOnce '.' (splitSign t).2).2) = some m) :
    ∃ n : Numeral, t = n.chars ∧ n.magnitude = m ∧ decide (n.sign = .minus) = (splitSign t).1 ∧
      n.fraction = (splitOnce '.' (splitSign t).2).2 := by
  obtain ⟨hne, hdigits, hvalue⟩ := parseDigits_eq_some.1 h
  obtain ⟨sign, ht, hsign⟩ := exists_sign t
  generalize (splitSign t).2 = body at *
  by_cases hmem : '.' ∈ body
  · refine ⟨⟨sign, _, true, _, hdigits, hne, by simp⟩, ?_, hvalue, hsign.symm, rfl⟩
    rw [ht, Numeral.chars, Numeral.body, if_pos rfl, ← splitOnce_of_mem hmem]
  · rw [splitOnce_of_not_mem hmem] at hdigits hne hvalue ⊢
    refine ⟨⟨sign, body, false, [], hdigits, hne, fun _ => rfl⟩, ?_, hvalue, hsign.symm, rfl⟩
    rw [ht, Numeral.chars, Numeral.body, if_neg Bool.false_ne_true, List.append_nil]

theorem parseDigits_numeral (n : Numeral) : parseDigits (n.whole ++ n.fraction) = some n.magnitude :=
  parseDigits_eq_some.2 ⟨n.nonempty, n.digits, rfl⟩

/-- The parser with its first match named. -/
theorem parseDecimal_eq (s : String) : parseDecimal s = (do
    let (intPart, fracPart) := splitOnce '.' (splitSign (trim s)).2
    let mantissaAbs ← parseDigits (intPart ++ fracPart)
    let mantissaAbs ← SInt.ofInt? 128 mantissaAbs
    let mantissa ← SInt.ofInt? 128 (if (splitSign (trim s)).1 then -mantissaAbs.val else mantissaAbs.val)
    let scale ← SInt.ofInt? 8 fracPart.length
    some (.decimal mantissa scale)) := by
  unfold parseDecimal
  split
  rename_i heq
  rw [show splitSign (trim s) = _ from heq]

/-- What is read is a numeral of a mantissa and a scale in range, by its digits. -/
theorem parseDecimal_eq_some {s : String} {v : ScalarValue} :
    parseDecimal s = some v ↔ ∃ (n : Numeral) (m : I128) (k : I8), trim s = n.chars ∧ n.magnitude < 2 ^ 127 ∧
      m.val = n.sign.apply n.magnitude ∧ k.val = n.fraction.length ∧ v = .decimal m k := by
  rw [parseDecimal_eq]
  constructor
  · intro h
    simp only [Option.bind_eq_bind, Option.bind_eq_some_iff, Option.some.injEq] at h
    obtain ⟨abs, hdigits, a, ha, m, hm, k, hk, rfl⟩ := h
    obtain ⟨n, ht, habs, hsign, hfrac⟩ := exists_numeral hdigits
    have ha' := SInt.ofInt?_eq_some.1 ha
    have hhi := a.hi
    refine ⟨n, m, k, ht, by norm_num at hhi ⊢; omega, ?_, by rw [hfrac]; exact SInt.ofInt?_eq_some.1 hk, rfl⟩
    rw [SInt.ofInt?_eq_some.1 hm, ← hsign, ha', habs, Sign.apply]
    simp only [decide_eq_true_eq]
  · rintro ⟨n, m, k, ht, hlt, hm, hk, rfl⟩
    obtain ⟨a, ha⟩ : ∃ a : I128, a.val = n.magnitude := ⟨⟨n.magnitude, by norm_num, by norm_num at hlt ⊢; omega⟩, rfl⟩
    rw [ht, splitSign_chars, n.splitOnce_body]
    simp only [Option.bind_eq_bind, Option.bind_eq_some_iff, Option.some.injEq, decide_eq_true_eq]
    refine ⟨_, parseDigits_numeral n, a, SInt.ofInt?_eq_some.2 ha, m, SInt.ofInt?_eq_some.2 ?_, k,
      SInt.ofInt?_eq_some.2 hk, rfl⟩
    rw [hm, ha, Sign.apply]

/-- The text of a numeral decides what is read of it. -/
theorem Numeral.of_chars {n n' : Numeral} (h : n.chars = n'.chars) :
    n.magnitude = n'.magnitude ∧ n.fraction = n'.fraction ∧ (n.sign = .minus ↔ n'.sign = .minus) := by
  have hsplit := congrArg splitSign h
  rw [splitSign_chars, splitSign_chars, Prod.mk.injEq, decide_eq_decide] at hsplit
  have hbody := congrArg (splitOnce '.') hsplit.2
  rw [n.splitOnce_body, n'.splitOnce_body, Prod.mk.injEq] at hbody
  exact ⟨by rw [Numeral.magnitude, Numeral.magnitude, hbody.1, hbody.2], hbody.2, hsplit.1⟩

theorem decimalValue_numeral {n : Numeral} {m : I128} {k : I8} (hm : m.val = n.sign.apply n.magnitude)
    (hk : k.val = n.fraction.length) : decimalValue m k = n.value := by
  rw [decimalValue, Numeral.value, hm, hk, zpow_neg, zpow_natCast, div_eq_mul_inv]

/-- A numeral is read exactly when its digits are below `2 ^ 127` and at most 127 of them are
behind the point. -/
theorem parseDecimal_numeral {s : String} {n : Numeral} (h : trim s = n.chars) :
    if n.magnitude < 2 ^ 127 ∧ n.fraction.length ≤ 127 then
      ∃ (m : I128) (k : I8), parseDecimal s = some (.decimal m k) ∧ m.val = n.sign.apply n.magnitude ∧
        k.val = n.fraction.length
    else parseDecimal s = none := by
  split
  · rename_i hfits
    have hm : ∃ m : I128, m.val = n.sign.apply n.magnitude := by
      refine ⟨⟨n.sign.apply n.magnitude, ?_, ?_⟩, rfl⟩ <;> unfold Sign.apply <;> norm_num at hfits ⊢ <;> split <;> omega
    have hk : ∃ k : I8, k.val = n.fraction.length := ⟨⟨n.fraction.length, by norm_num, by norm_num; omega⟩, rfl⟩
    obtain ⟨m, hm⟩ := hm
    obtain ⟨k, hk⟩ := hk
    exact ⟨m, k, parseDecimal_eq_some.2 ⟨n, m, k, h, hfits.1, hm, hk, rfl⟩, hm, hk⟩
  · rename_i hwide
    rw [Option.eq_none_iff_forall_ne_some]
    intro v hv
    obtain ⟨n', m, k, h', hlt, -, hk, -⟩ := parseDecimal_eq_some.1 hv
    obtain ⟨hmag, hfrac, -⟩ := Numeral.of_chars (h.symm.trans h')
    have hhi := k.hi
    norm_num at hhi
    exact hwide ⟨hmag ▸ hlt, by rw [hfrac]; omega⟩

/-! ## Plain scalars -/

theorem dropWhile_none {α : Type} {p : α → Bool} {l : List α} (h : ∀ x ∈ l, p x = false) : l.dropWhile p = l := by
  cases l with
  | nil => rfl
  | cons x xs => rw [List.dropWhile_cons, h x (List.mem_cons_self ..)]; rfl

theorem trim_of_no_whitespace {s : String} (h : ∀ c ∈ s.toList, isWhitespace c = false) : trim s = s.toList := by
  rw [trim, dropWhile_none h, dropWhile_none fun c hc => h c (List.mem_reverse.1 hc), List.reverse_reverse]

theorem isWhitespace_digit {c : Char} (h : c.isDigit = true) : isWhitespace c = false := by
  simp only [Char.isDigit, Bool.and_eq_true, decide_eq_true_eq] at h
  have hlo : 48 ≤ c.toNat := h.1
  have hhi : c.toNat ≤ 57 := h.2
  simp [isWhitespace]
  omega

theorem Numeral.no_whitespace (n : Numeral) {c : Char} (h : c ∈ n.chars) : isWhitespace c = false := by
  have hdigit : ∀ c ∈ n.whole ++ n.fraction, isWhitespace c = false := fun c hc => isWhitespace_digit (n.digits c hc)
  rw [chars, body, List.mem_append, List.mem_append] at h
  rcases h with h | h | h
  · cases hs : n.sign <;> rw [hs] at h <;> simp only [Sign.chars, List.mem_singleton, List.not_mem_nil] at h <;>
      subst h <;> rfl
  · exact hdigit c (List.mem_append_left _ h)
  · split at h
    · rcases List.mem_cons.1 h with rfl | h
      · rfl
      · exact hdigit c (List.mem_append_right _ h)
    · cases h

/-- Trimming does nothing to a numeral. -/
theorem Numeral.trim_chars (n : Numeral) : trim (String.ofList n.chars) = n.chars := by
  rw [trim_of_no_whitespace fun c h => n.no_whitespace (by simpa using h), String.toList_ofList]

/-- A scalar without quotes that is a numeral, and that the library does not read as a boolean. -/
structure PlainNumeral (s : YamlScalar) (n : Numeral) : Prop where
  plain : s.mayCoerce = true
  noBool : s.asBool = none
  text : trim s.text = n.chars

/-- A plain numeral is kept as its number, or refused, if and only if its digits fit 127 bits and
its scale seven. -/
theorem numeral_kept_iff {fields : Fields} {key : String} {s : YamlScalar} {n : Numeral}
    (hs : getScalar fields key = some s) (hn : PlainNumeral s n) :
    ((∃ m k, parseValue fields key = .ok (.decimal m k) ∧ decimalValue m k = n.value) ∨
        ∃ e, parseValue fields key = .error e) ↔
      n.magnitude < 2 ^ 127 ∧ n.fraction.length ≤ 127 := by
  have hread := parseDecimal_numeral hn.text
  have hvalue : parseValue fields key = .ok ((parseDecimal s.text).getD (.str s.text)) := by
    simp only [parseValue, hs, scalarToValue, hn.plain, hn.noBool, if_true]
  rw [hvalue]
  constructor
  · intro h
    by_contra hwide
    rw [if_neg hwide] at hread
    rw [hread] at h
    rcases h with ⟨m, k, h, -⟩ | ⟨e, h⟩ <;> cases h
  · intro hfits
    rw [if_pos hfits] at hread
    obtain ⟨m, k, hdec, hm, hk⟩ := hread
    exact .inl ⟨m, k, by rw [hdec, Option.getD_some], decimalValue_numeral hm hk⟩

theorem toDigits_isDigit {n : Nat} {c : Char} (h : c ∈ Nat.toDigits 10 n ++ []) : c.isDigit = true := by
  rw [List.append_nil] at h
  exact Nat.isDigit_of_mem_toDigits (b := 10) (by decide) (by decide) h

theorem toDigits_nonempty {n : Nat} : Nat.toDigits 10 n ++ [] ≠ [] := by
  rw [List.append_nil]
  exact Nat.toDigits_ne_nil

/-- The numeral that writes a number in digits alone. -/
def Numeral.ofNat (n : Nat) : Numeral where
  sign := .unsigned
  whole := Nat.toDigits 10 n
  point := false
  fraction := []
  digits _ := toDigits_isDigit
  nonempty := toDigits_nonempty
  pointed _ := rfl

theorem Numeral.ofNat_magnitude (n : Nat) : (Numeral.ofNat n).magnitude = n := by
  rw [magnitude, ofNat, List.append_nil, Nat.ofDigitChars_ten_toDigits]

/-- An unquoted scalar of digits alone. -/
def digitScalar (n : Nat) : YamlScalar := ⟨String.ofList (Nat.toDigits 10 n), true, none⟩

theorem digitScalar_plain (n : Nat) : PlainNumeral (digitScalar n) (.ofNat n) where
  plain := rfl
  noBool := rfl
  text := by
    have hchars : (Numeral.ofNat n).chars = Nat.toDigits 10 n := by
      simp [Numeral.chars, Numeral.body, Numeral.ofNat, Sign.chars]
    rw [digitScalar, ← hchars, Numeral.trim_chars]

theorem numeral_kept_iff_five :
    ((∃ m k, parseValue [("value", .scalar (digitScalar 5))] "value" = .ok (.decimal m k) ∧
        decimalValue m k = (Numeral.ofNat 5).value) ∨
        ∃ e, parseValue [("value", .scalar (digitScalar 5))] "value" = .error e) ↔
      (Numeral.ofNat 5).magnitude < 2 ^ 127 ∧ (Numeral.ofNat 5).fraction.length ≤ 127 :=
  numeral_kept_iff rfl (digitScalar_plain 5)

/-- A threshold of `2 ^ 127` is compiled to text. -/
theorem wide_numeral_text :
    ¬ ∀ (fields : Fields) (key : String) (s : YamlScalar) (n : Numeral), getScalar fields key = some s →
      PlainNumeral s n →
      (∃ m k, parseValue fields key = .ok (.decimal m k) ∧ decimalValue m k = n.value) ∨
        ∃ e, parseValue fields key = .error e := by
  intro hall
  have hread := parseDecimal_numeral (digitScalar_plain (2 ^ 127)).text
  rw [if_neg fun h => absurd h.1 (by rw [Numeral.ofNat_magnitude]; exact lt_irrefl _)] at hread
  have hvalue : parseValue [("value", .scalar (digitScalar (2 ^ 127)))] "value" =
      .ok ((parseDecimal (digitScalar (2 ^ 127)).text).getD (.str (digitScalar (2 ^ 127)).text)) := rfl
  rw [hread] at hvalue
  rcases hall [("value", .scalar (digitScalar (2 ^ 127)))] "value" _ _ rfl (digitScalar_plain (2 ^ 127)) with
    ⟨m, k, h, -⟩ | ⟨e, h⟩ <;> rw [hvalue] at h <;> cases h

end Ke.Compiler
