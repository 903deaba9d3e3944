/-
`hex_to_hash` on any text. The length is checked in bytes, the text is cut into pairs of bytes, and each
pair is read as a number: a cut inside a character panics, and a number may be in upper case or have a sign.
-/
import KeEngine.Registry.Slots

namespace Ke.Registry

open Ke Wire

/-! ## Cutting text at bytes -/

/-- The text from a byte on, if it begins a character or is the end. -/
def dropBytes : Nat → List Char → Option (List Char)
  | 0, cs => some cs
  | _ + 1, [] => none
  | n + 1, c :: cs => if n + 1 < c.utf8Size then none else dropBytes (n + 1 - c.utf8Size) cs

/-- The text up to a byte, if it begins a character or is the end. -/
def takeBytes : Nat → List Char → Option (List Char)
  | 0, _ => some []
  | _ + 1, [] => none
  | n + 1, c :: cs => if n + 1 < c.utf8Size then none else (takeBytes (n + 1 - c.utf8Size) cs).map (c :: ·)

/-- `&hex[start..stop]`, nothing where that panics. -/
def sliceBytes (hex : String) (start stop : Nat) : Option (List Char) :=
  (dropBytes start hex.toList).bind (takeBytes (stop - start))

/-- A digit more, unless the number leaves the range. -/
def pushDigit (n : Nat) (c : Char) : Option Nat :=
  (hexValue c).bind fun d => if 16 * n + d < 256 then some (16 * n + d) else none

/-- `u8::from_str_radix(_, 16)` -/
def fromStrRadix16 : List Char → Option UInt8
  | [] | ['+'] | ['-'] => none
  | '+' :: cs => (cs.foldlM pushDigit 0).map UInt8.ofNat
  | cs => (cs.foldlM pushDigit 0).map UInt8.ofNat

/-- The bytes of the pairs from one on: nothing when a cut panics, an error when a pair is no number. -/
def hexBytesFrom (hex : String) : Nat → Nat → Option (Except RegistryError Bytes)
  | _, 0 => some (.ok [])
  | i, n + 1 =>
    match sliceBytes hex (i * 2) (i * 2 + 2) with
    | none => none
    | some pair =>
      match fromStrRadix16 pair with
      | none => some (.error (.badHashHex hex))
      | some b => (hexBytesFrom hex (i + 1) n).map fun rest => rest.map (b :: ·)

/-- `hex_to_hash` with its panics: nothing when it panics. -/
def hexToHashOrPanic (hex : String) : Option (Except RegistryError Hash32) :=
  if hex.utf8ByteSize ≠ 64 then some (.error (.badHashHex hex))
  else (hexBytesFrom hex 0 32).map fun bytes => bytes.bind fun bytes =>
    if h : bytes.length = 32 then .ok ⟨bytes, h⟩ else .error (.badHashHex hex)

@[simp] theorem dropBytes_zero (cs : List Char) : dropBytes 0 cs = some cs := by rw [dropBytes]

@[simp] theorem takeBytes_zero (cs : List Char) : takeBytes 0 cs = some [] := by rw [takeBytes]

/-! ## Characters and bytes -/

def byteSize (cs : List Char) : Nat := (cs.map Char.utf8Size).sum

@[simp] theorem byteSize_nil : byteSize [] = 0 := rfl

@[simp] theorem byteSize_cons (c : Char) (cs : List Char) : byteSize (c :: cs) = c.utf8Size + byteSize cs := rfl

theorem byteSize_append (cs ds : List Char) : byteSize (cs ++ ds) = byteSize cs + byteSize ds := by
  unfold byteSize
  rw [List.map_append, List.sum_append]

theorem utf8ByteSize_eq (s : String) : s.utf8ByteSize = byteSize s.toList := by
  have hlist : ∀ cs : List Char, (String.ofList cs).utf8ByteSize = byteSize cs := by
    intro cs
    induction cs with
    | nil => rfl
    | cons c cs ih =>
      rw [← List.singleton_append, String.ofList_append, String.utf8ByteSize_append, ih, byteSize_append]
      congr 1
      exact String.utf8ByteSize_singleton
  rw [← hlist, String.ofList_toList]

/-- A hex digit is one byte. -/
theorem utf8Size_of_hexValue {c : Char} {n : Nat} (h : hexValue c = some n) : c.utf8Size = 1 := by
  rw [Char.utf8Size_eq_one_iff, UInt32.le_iff_toNat_le]
  unfold hexValue at h
  have hle : ∀ {d : Char}, c ≤ d → c.val.toNat ≤ d.val.toNat := fun hc => UInt32.le_iff_toNat_le.1 hc
  split at h
  · rename_i hc
    exact (hle hc.2).trans (by decide)
  · split at h
    · rename_i hc
      exact (hle hc.2).trans (by decide)
    · split at h
      · rename_i hc
        exact (hle hc.2).trans (by decide)
      · cases h

theorem hexValue_lt {c : Char} {n : Nat} (h : hexValue c = some n) : n < 16 := by
  unfold hexValue at h
  have hle : ∀ {d : Char}, c ≤ d → c.toNat ≤ d.toNat := fun hc => UInt32.le_iff_toNat_le.1 hc
  split at h
  · rename_i hc
    have hmax := hle hc.2
    cases h
    have : ('9' : Char).toNat = 57 := rfl
    omega
  · split at h
    · rename_i hc
      have hmax := hle hc.2
      cases h
      have : ('f' : Char).toNat = 102 := rfl
      omega
    · split at h
      · rename_i hc
        have hmax := hle hc.2
        cases h
        have : ('F' : Char).toNat = 70 := rfl
        omega
      · cases h

/-- A byte that is read from two characters was cut from two bytes. -/
theorem utf8Size_of_parseHexByte {c d : Char} {b : UInt8} (h : parseHexByte c d = some b) :
    c.utf8Size = 1 ∧ d.utf8Size = 1 := by
  unfold parseHexByte at h
  split at h
  · rename_i hplus
    obtain ⟨n, hd, -⟩ := Option.map_eq_some_iff.1 h
    rw [hplus]
    exact ⟨rfl, utf8Size_of_hexValue hd⟩
  · obtain ⟨hi, hc, h⟩ := Option.bind_eq_some_iff.1 h
    obtain ⟨lo, hd, -⟩ := Option.map_eq_some_iff.1 h
    exact ⟨utf8Size_of_hexValue hc, utf8Size_of_hexValue hd⟩

/-! ## Pairs -/

theorem pushDigit_zero (c : Char) : pushDigit 0 c = hexValue c := by
  unfold pushDigit
  cases h : hexValue c with
  | none => rfl
  | some n =>
    have hlt := hexValue_lt h
    show (if 16 * 0 + n < 256 then some (16 * 0 + n) else none) = some n
    rw [Nat.mul_zero, Nat.zero_add, if_pos (by omega)]

/-- Two characters of a byte each are read as a number or not at all. -/
theorem fromStrRadix16_pair (c d : Char) : fromStrRadix16 [c, d] = parseHexByte c d := by
  have hdigits : ([c, d].foldlM pushDigit 0).map UInt8.ofNat =
      (hexValue c).bind fun hi => (hexValue d).map fun lo => UInt8.ofNat (16 * hi + lo) := by
    simp only [List.foldlM_cons, List.foldlM_nil, pushDigit_zero]
    cases hc : hexValue c with
    | none => rfl
    | some hi =>
      have hhi := hexValue_lt hc
      cases hd : hexValue d with
      | none =>
        show Option.map UInt8.ofNat ((pushDigit hi d).bind pure) = none
        unfold pushDigit
        rw [hd]
        rfl
      | some lo =>
        have hlo := hexValue_lt hd
        show Option.map UInt8.ofNat ((pushDigit hi d).bind pure) = some _
        unfold pushDigit
        rw [hd, Option.bind_some, if_pos (by omega)]
        rfl
  unfold parseHexByte
  split
  · rename_i hplus
    subst hplus
    show (List.foldlM pushDigit 0 [d]).map UInt8.ofNat = _
    simp only [List.foldlM_cons, List.foldlM_nil, pushDigit_zero]
    cases hexValue d <;> rfl
  · rename_i hplus
    rw [← hdigits]
    unfold fromStrRadix16
    split
    · rename_i heq; cases heq
    · rename_i heq; cases heq
    · rename_i heq; cases heq
    · rename_i heq
      cases heq
      exact absurd rfl hplus
    · rfl

/-- A character of two bytes is no number. -/
theorem fromStrRadix16_wide {c : Char} (h : c.utf8Size = 2) : fromStrRadix16 [c] = none := by
  have hvalue : hexValue c = none := by
    cases hc : hexValue c with
    | none => rfl
    | some n =>
      rw [utf8Size_of_hexValue hc] at h
      cases h
  unfold fromStrRadix16
  split
  · rfl
  · rfl
  · rfl
  · rename_i heq
    cases heq
    cases h
  · simp only [List.foldlM_cons, pushDigit_zero, hvalue]
    rfl

theorem dropBytes_add {m k : Nat} : ∀ {cs rest : List Char}, dropBytes m cs = some rest →
    dropBytes (m + k) cs = dropBytes k rest := by
  intro cs
  induction cs generalizing m with
  | nil =>
    intro rest h
    cases m with
    | zero =>
      cases h
      rw [Nat.zero_add]
    | succ => cases h
  | cons c cs ih =>
    intro rest h
    cases m with
    | zero =>
      cases h
      rw [Nat.zero_add]
    | succ m =>
      rw [dropBytes] at h
      split at h
      · cases h
      · rename_i hle
        rw [Nat.add_right_comm, dropBytes, if_neg (by omega), ← ih h]
        congr 1
        omega

/-- What the first two bytes of a text are. -/
theorem takeBytes_two {cs pair : List Char} (h : takeBytes 2 cs = some pair) :
    (∃ c d rest, cs = c :: d :: rest ∧ c.utf8Size = 1 ∧ d.utf8Size = 1 ∧ pair = [c, d]) ∨
      ∃ c rest, cs = c :: rest ∧ c.utf8Size = 2 ∧ pair = [c] := by
  cases cs with
  | nil => cases h
  | cons c cs =>
    have hpos := c.utf8Size_pos
    rw [takeBytes] at h
    split at h
    · cases h
    · have hsize : c.utf8Size = 1 ∨ c.utf8Size = 2 := by omega
      rcases hsize with hsize | hsize
      · rw [hsize] at h
        obtain ⟨rest, hrest, rfl⟩ := Option.map_eq_some_iff.1 h
        cases cs with
        | nil => cases hrest
        | cons d cs =>
          have hpos := d.utf8Size_pos
          rw [show 1 + 1 - 1 = 0 + 1 from rfl, takeBytes] at hrest
          split at hrest
          · cases hrest
          · have hd : d.utf8Size = 1 := by omega
            rw [hd, Nat.add_sub_cancel, takeBytes_zero] at hrest
            cases hrest
            exact .inl ⟨c, d, cs, rfl, hsize, hd, rfl⟩
      · rw [hsize, Nat.sub_self, takeBytes_zero] at h
        cases h
        exact .inr ⟨c, cs, rfl, hsize, rfl⟩

theorem takeBytes_pair {c d : Char} (hc : c.utf8Size = 1) (hd : d.utf8Size = 1) (cs : List Char) :
    takeBytes 2 (c :: d :: cs) = some [c, d] := by
  rw [takeBytes, if_neg (by omega), hc]
  show Option.map _ (takeBytes (0 + 1) (d :: cs)) = _
  rw [takeBytes, if_neg (by omega), hd, Nat.add_sub_cancel, takeBytes_zero]
  rfl

theorem dropBytes_pair {c d : Char} (hc : c.utf8Size = 1) (hd : d.utf8Size = 1) (cs : List Char) :
    dropBytes 2 (c :: d :: cs) = some cs := by
  rw [dropBytes, if_neg (by omega), hc]
  show dropBytes (0 + 1) (d :: cs) = _
  rw [dropBytes, if_neg (by omega), hd, Nat.add_sub_cancel, dropBytes_zero]

/-- What is read before a byte is reached, and what is there. -/
theorem parseHexBytes_cons {c d : Char} {cs : List Char} {bytes : Bytes} :
    parseHexBytes (c :: d :: cs) = some bytes ↔
      ∃ b rest, parseHexByte c d = some b ∧ parseHexBytes cs = some rest ∧ bytes = b :: rest := by
  rw [parseHexBytes]
  constructor
  · intro h
    obtain ⟨b, hb, h⟩ := Option.bind_eq_some_iff.1 h
    obtain ⟨rest, hrest, rfl⟩ := Option.map_eq_some_iff.1 h
    exact ⟨b, rest, hb, hrest, rfl⟩
  · rintro ⟨b, rest, hb, hrest, rfl⟩
    exact Option.bind_eq_some_iff.2 ⟨b, hb, Option.map_eq_some_iff.2 ⟨rest, hrest, rfl⟩⟩

/-- Characters that are read in pairs are of one byte each. -/
theorem byteSize_of_parseHexBytes : ∀ {cs : List Char} {bytes : Bytes}, parseHexBytes cs = some bytes →
    byteSize cs = 2 * bytes.length
  | [], _, h => by
    cases h
    rfl
  | [_], _, h => by cases h
  | c :: d :: cs, bytes, h => by
    obtain ⟨b, rest, hb, hrest, rfl⟩ := parseHexBytes_cons.1 h
    obtain ⟨hc, hd⟩ := utf8Size_of_parseHexByte hb
    rw [byteSize_cons, byteSize_cons, hc, hd, byteSize_of_parseHexBytes hrest, List.length_cons]
    omega

/-! ## The loop -/

section

variable {hex : String}

theorem sliceBytes_pair {i : Nat} {rest : List Char} (h : dropBytes (i * 2) hex.toList = some rest) :
    sliceBytes hex (i * 2) (i * 2 + 2) = takeBytes 2 rest := by
  unfold sliceBytes
  rw [h, Option.bind_some, Nat.add_sub_cancel_left]

/-- A pair that is read brings the loop to the next. -/
theorem dropBytes_next {i : Nat} {c d : Char} {cs : List Char} {b : UInt8}
    (h : dropBytes (i * 2) hex.toList = some (c :: d :: cs)) (hb : parseHexByte c d = some b) :
    dropBytes ((i + 1) * 2) hex.toList = some cs := by
  obtain ⟨hc, hd⟩ := utf8Size_of_parseHexByte hb
  rw [Nat.succ_mul, dropBytes_add h, dropBytes_pair hc hd]

/-- One turn of the loop on a pair that is a number. -/
theorem hexBytesFrom_next {i n : Nat} {c d : Char} {cs : List Char} {b : UInt8}
    (h : dropBytes (i * 2) hex.toList = some (c :: d :: cs)) (hb : parseHexByte c d = some b) :
    hexBytesFrom hex i (n + 1) = (hexBytesFrom hex (i + 1) n).map fun rest => rest.map (b :: ·) := by
  obtain ⟨hc, hd⟩ := utf8Size_of_parseHexByte hb
  rw [hexBytesFrom, sliceBytes_pair h, takeBytes_pair hc hd]
  simp only [fromStrRadix16_pair, hb]

/-- The other turns: a cut that panics, or a pair that is no number. -/
theorem hexBytesFrom_last {i n : Nat} {rest : List Char} (h : dropBytes (i * 2) hex.toList = some rest)
    (hlast : ∀ c d cs b, rest = c :: d :: cs → parseHexByte c d ≠ some b) :
    hexBytesFrom hex i (n + 1) = if takeBytes 2 rest = none then none else some (.error (.badHashHex hex)) := by
  rw [hexBytesFrom, sliceBytes_pair h]
  cases hpair : takeBytes 2 rest with
  | none => rfl
  | some pair =>
    rw [if_neg (Option.some_ne_none pair)]
    have hnone : fromStrRadix16 pair = none := by
      rcases takeBytes_two hpair with ⟨c, d, cs, rfl, -, -, rfl⟩ | ⟨c, cs, rfl, hc, rfl⟩
      · rw [fromStrRadix16_pair]
        cases hb : parseHexByte c d with
        | none => rfl
        | some b => exact absurd hb (hlast c d cs b rfl)
      · exact fromStrRadix16_wide hc
    simp only [hnone]

theorem hexBytesFrom_ok {bytes : Bytes} : ∀ {n i : Nat} {rest : List Char},
    dropBytes (i * 2) hex.toList = some rest → (hexBytesFrom hex i n = some (.ok bytes) ↔
      bytes.length = n ∧ ∃ read tail, rest = read ++ tail ∧ parseHexBytes read = some bytes) := by
  intro n
  induction n generalizing bytes with
  | zero =>
    intro i rest h
    rw [hexBytesFrom]
    constructor
    · intro heq
      cases heq
      exact ⟨rfl, [], rest, rfl, rfl⟩
    · rintro ⟨hlength, -⟩
      rw [List.length_eq_zero_iff.1 hlength]
  | succ n ih =>
    intro i rest h
    by_cases hnext : ∃ c d cs b, rest = c :: d :: cs ∧ parseHexByte c d = some b
    · obtain ⟨c, d, cs, b, rfl, hb⟩ := hnext
      rw [hexBytesFrom_next h hb]
      constructor
      · intro heq
        obtain ⟨out, hout, heq⟩ := Option.map_eq_some_iff.1 heq
        obtain ⟨bytes, rfl, rfl⟩ := map_ok.1 heq
        obtain ⟨rfl, read, tail, rfl, hread⟩ := (ih (dropBytes_next h hb)).1 hout
        exact ⟨rfl, c :: d :: read, tail, rfl, parseHexBytes_cons.2 ⟨b, bytes, hb, hread, rfl⟩⟩
      · rintro ⟨hlength, read, tail, heq, hread⟩
        match read, heq, hread with
        | [], _, hread =>
          cases hread
          cases hlength
        | c' :: d' :: read, heq, hread =>
          simp only [List.cons_append, List.cons.injEq] at heq
          obtain ⟨rfl, rfl, rfl⟩ := heq
          obtain ⟨b', bytes, hb', hbytes, rfl⟩ := parseHexBytes_cons.1 hread
          obtain rfl := Option.some.inj (hb.symm.trans hb')
          rw [(ih (dropBytes_next h hb)).2 ⟨Nat.succ.inj hlength, read, tail, rfl, hbytes⟩]
          rfl
    · have hlast : ∀ c d cs b, rest = c :: d :: cs → parseHexByte c d ≠ some b :=
        fun c d cs b hrest hb => hnext ⟨c, d, cs, b, hrest, hb⟩
      rw [hexBytesFrom_last h hlast]
      refine iff_of_false (by split <;> nofun) ?_
      rintro ⟨hlength, read, tail, rfl, hread⟩
      match read, hread with
      | [], hread =>
        cases hread
        cases hlength
      | c :: d :: read, hread =>
        obtain ⟨b, -, hb, -⟩ := parseHexBytes_cons.1 hread
        exact hlast c d (read ++ tail) b rfl hb

theorem hexBytesFrom_none : ∀ {n i : Nat} {rest : List Char}, dropBytes (i * 2) hex.toList = some rest →
    (hexBytesFrom hex i n = none ↔ ∃ read tail bytes, rest = read ++ tail ∧ parseHexBytes read = some bytes ∧
      bytes.length < n ∧ takeBytes 2 tail = none) := by
  intro n
  induction n with
  | zero =>
    intro i rest h
    rw [hexBytesFrom]
    exact iff_of_false (by nofun) fun ⟨_, _, _, _, _, hlt, _⟩ => Nat.not_lt_zero _ hlt
  | succ n ih =>
    intro i rest h
    by_cases hnext : ∃ c d cs b, rest = c :: d :: cs ∧ parseHexByte c d = some b
    · obtain ⟨c, d, cs, b, rfl, hb⟩ := hnext
      obtain ⟨hc, hd⟩ := utf8Size_of_parseHexByte hb
      rw [hexBytesFrom_next h hb, Option.map_eq_none_iff, ih (dropBytes_next h hb)]
      constructor
      · rintro ⟨read, tail, bytes, rfl, hread, hlt, htail⟩
        exact ⟨c :: d :: read, tail, b :: bytes, rfl, parseHexBytes_cons.2 ⟨b, bytes, hb, hread, rfl⟩,
          Nat.succ_lt_succ hlt, htail⟩
      · rintro ⟨read, tail, bytes, heq, hread, hlt, htail⟩
        match read, heq, hread with
        | [], heq, _ =>
          rw [List.nil_append] at heq
          rw [← heq, takeBytes_pair hc hd] at htail
          cases htail
        | c' :: d' :: read, heq, hread =>
          simp only [List.cons_append, List.cons.injEq] at heq
          obtain ⟨rfl, rfl, rfl⟩ := heq
          obtain ⟨b', bytes, hb', hbytes, rfl⟩ := parseHexBytes_cons.1 hread
          exact ⟨read, tail, bytes, rfl, hbytes, Nat.lt_of_succ_lt_succ hlt, htail⟩
    · have hlast : ∀ c d cs b, rest = c :: d :: cs → parseHexByte c d ≠ some b :=
        fun c d cs b hrest hb => hnext ⟨c, d, cs, b, hrest, hb⟩
      rw [hexBytesFrom_last h hlast]
      constructor
      · intro heq
        split at heq
        · rename_i hnone
          exact ⟨[], rest, [], rfl, rfl, Nat.succ_pos n, hnone⟩
        · cases heq
      · rintro ⟨read, tail, bytes, rfl, hread, -, htail⟩
        match read, hread with
        | [], _ => exact if_pos htail
        | c :: d :: read, hread =>
          obtain ⟨b, -, hb, -⟩ := parseHexBytes_cons.1 hread
          exact absurd hb (hlast c d (read ++ tail) b rfl)

end

/-- The only error there is. -/
theorem hexBytesFrom_error {hex : String} {e : RegistryError} : ∀ {n i : Nat},
    hexBytesFrom hex i n = some (.error e) → e = .badHashHex hex := by
  intro n
  induction n with
  | zero =>
    intro i h
    cases h
  | succ n ih =>
    intro i h
    rw [hexBytesFrom] at h
    split at h
    · cases h
    · split at h
      · cases h
        rfl
      · obtain ⟨out, hout, h⟩ := Option.map_eq_some_iff.1 h
        cases out with
        | error e' =>
          cases h
          exact ih hout
        | ok => cases h

/-! ## Which text is a name -/

theorem byteSize_eq_zero {cs : List Char} (h : byteSize cs = 0) : cs = [] := by
  cases cs with
  | nil => rfl
  | cons c cs =>
    have hpos := c.utf8Size_pos
    rw [byteSize_cons] at h
    omega

theorem hexToHashOrPanic_ok {hex : String} {hash : Hash32} : hexToHashOrPanic hex = some (.ok hash) ↔
    hex.utf8ByteSize = 64 ∧ parseHexBytes hex.toList = some hash.1 := by
  have hstart : dropBytes (0 * 2) hex.toList = some hex.toList := dropBytes_zero _
  unfold hexToHashOrPanic
  by_cases hsize : hex.utf8ByteSize = 64
  · rw [if_neg (not_not.2 hsize)]
    constructor
    · intro h
      obtain ⟨out, hout, h⟩ := Option.map_eq_some_iff.1 h
      obtain ⟨bytes, rfl, hdone⟩ := bind_ok.1 h
      obtain ⟨hlength, read, tail, hread, hbytes⟩ := (hexBytesFrom_ok hstart).1 hout
      rw [dif_pos hlength] at hdone
      cases hdone
      have htail : byteSize tail = 0 := by
        rw [utf8ByteSize_eq, hread, byteSize_append, byteSize_of_parseHexBytes hbytes] at hsize
        omega
      rw [byteSize_eq_zero htail, List.append_nil] at hread
      exact ⟨hsize, hread ▸ hbytes⟩
    · rintro ⟨-, hbytes⟩
      rw [(hexBytesFrom_ok hstart).2 ⟨hash.2, hex.toList, [], (List.append_nil _).symm, hbytes⟩]
      simp only [Option.map_some, Except.bind, dif_pos hash.2]
  · rw [if_pos hsize]
    exact iff_of_false (fun h => by cases h) fun h => hsize h.1

theorem badHashHex_of_orPanic {hex : String} {e : RegistryError} (h : hexToHashOrPanic hex = some (.error e)) :
    e = .badHashHex hex := by
  unfold hexToHashOrPanic at h
  split at h
  · cases h
    rfl
  · obtain ⟨out, hout, h⟩ := Option.map_eq_some_iff.1 h
    cases out with
    | error e' =>
      cases h
      exact hexBytesFrom_error hout
    | ok bytes =>
      simp only [Except.bind] at h
      split at h
      · cases h
      · cases h
        rfl

/-- The next two bytes end inside a character. -/
def CutInside : List Char → Prop
  | c :: d :: _ => 2 < c.utf8Size ∨ c.utf8Size = 1 ∧ 1 < d.utf8Size
  | [c] => 2 < c.utf8Size
  | [] => False

theorem takeBytes_eq_none {cs : List Char} (heven : byteSize cs % 2 = 0) (hne : byteSize cs ≠ 0) :
    takeBytes 2 cs = none ↔ CutInside cs := by
  cases cs with
  | nil => exact absurd rfl hne
  | cons c cs =>
    have hpos := c.utf8Size_pos
    rw [takeBytes]
    have hsize : 2 < c.utf8Size ∨ c.utf8Size = 2 ∨ c.utf8Size = 1 := by omega
    rcases hsize with hsize | hsize | hsize
    · rw [if_pos (by omega)]
      cases cs with
      | nil => exact iff_of_true rfl hsize
      | cons d cs => exact iff_of_true rfl (.inl hsize)
    · rw [hsize, if_neg (by omega), Nat.sub_self, takeBytes_zero]
      cases cs with
      | nil => exact iff_of_false nofun fun h => absurd h (by rw [CutInside]; omega)
      | cons d cs => exact iff_of_false nofun fun h => absurd h (by rw [CutInside]; omega)
    · rw [hsize, if_neg (by omega), Nat.add_sub_cancel, Option.map_eq_none_iff]
      cases cs with
      | nil =>
        rw [byteSize_cons, hsize, byteSize_nil] at heven
        cases heven
      | cons d cs =>
        have hpos := d.utf8Size_pos
        rw [CutInside, takeBytes]
        by_cases hd : 1 < d.utf8Size
        · rw [if_pos (by omega)]
          exact iff_of_true rfl (.inr ⟨hsize, hd⟩)
        · have hd : d.utf8Size = 1 := by omega
          rw [if_neg (by omega), hd, Nat.add_sub_cancel, takeBytes_zero]
          exact iff_of_false nofun (by omega)

/-- After pairs that are numbers, a pair of bytes ends inside a character. -/
def Straddles (hex : String) : Prop :=
  ∃ read tail, hex.toList = read ++ tail ∧ (∃ bytes, parseHexBytes read = some bytes) ∧ CutInside tail

theorem hexToHashOrPanic_none {hex : String} : hexToHashOrPanic hex = none ↔ hex.utf8ByteSize = 64 ∧ Straddles hex := by
  have hstart : dropBytes (0 * 2) hex.toList = some hex.toList := dropBytes_zero _
  unfold hexToHashOrPanic
  by_cases hsize : hex.utf8ByteSize = 64
  · rw [if_neg (not_not.2 hsize), Option.map_eq_none_iff, hexBytesFrom_none hstart, and_iff_right hsize]
    have hrest : ∀ {read tail : List Char} {bytes : Bytes}, hex.toList = read ++ tail →
        parseHexBytes read = some bytes → 2 * bytes.length + byteSize tail = 64 := by
      intro read tail bytes hread hbytes
      rw [← hsize, utf8ByteSize_eq, hread, byteSize_append, byteSize_of_parseHexBytes hbytes]
    constructor
    · rintro ⟨read, tail, bytes, hread, hbytes, hlt, htail⟩
      have htotal := hrest hread hbytes
      exact ⟨read, tail, hread, ⟨bytes, hbytes⟩, (takeBytes_eq_none (by omega) (by omega)).1 htail⟩
    · rintro ⟨read, tail, hread, ⟨bytes, hbytes⟩, hcut⟩
      have htotal := hrest hread hbytes
      have hne : byteSize tail ≠ 0 := by
        intro hzero
        rw [byteSize_eq_zero hzero] at hcut
        exact hcut
      exact ⟨read, tail, bytes, hread, hbytes, by omega, (takeBytes_eq_none (by omega) hne).2 hcut⟩
  · rw [if_pos hsize]
    exact iff_of_false nofun fun h => hsize h.1

/-! ## Lowercase digits -/

def lowerHex : List Char := (List.range 16).map hexDigit

theorem hexDigit_mem {n : Nat} (h : n < 16) : hexDigit n ∈ lowerHex := List.mem_map_of_mem (List.mem_range.2 h)

theorem hexDigit_of_mem {c : Char} (h : c ∈ lowerHex) :
    c ≠ '+' ∧ ∃ n < 16, hexValue c = some n ∧ hexDigit n = c := by
  obtain ⟨n, hn, rfl⟩ := List.mem_map.1 h
  obtain ⟨hvalue, hplus⟩ := hexValue_hexDigit n (List.mem_range.1 hn)
  exact ⟨hplus, n, List.mem_range.1 hn, hvalue, rfl⟩

/-- Pairs of lowercase digits are the name of what is read from them. -/
theorem hexDigits_of_parseHexBytes : ∀ {cs : List Char} {bytes : Bytes}, parseHexBytes cs = some bytes →
    (∀ c ∈ cs, c ∈ lowerHex) → (bytes.flatMap fun b => [hexDigit (b.toNat / 16), hexDigit (b.toNat % 16)]) = cs
  | [], _, h, _ => by
    cases h
    rfl
  | [_], _, h, _ => by cases h
  | c :: d :: cs, bytes, h, hlower => by
    obtain ⟨b, rest, hb, hrest, rfl⟩ := parseHexBytes_cons.1 h
    obtain ⟨hplus, hi, hhi, hvalue, hdigit⟩ := hexDigit_of_mem (hlower c List.mem_cons_self)
    obtain ⟨-, lo, hlo, hvalue', hdigit'⟩ := hexDigit_of_mem (hlower d (List.mem_cons_of_mem c List.mem_cons_self))
    rw [parseHexByte, if_neg hplus, hvalue, hvalue'] at hb
    obtain rfl : UInt8.ofNat (16 * hi + lo) = b := Option.some.inj hb
    have hnat : (UInt8.ofNat (16 * hi + lo)).toNat = 16 * hi + lo := by
      rw [UInt8.toNat_ofNat']
      omega
    have htail := hexDigits_of_parseHexBytes hrest fun x hx => hlower x
      (List.mem_cons_of_mem c (List.mem_cons_of_mem d hx))
    rw [List.flatMap_cons, htail, hnat, show (16 * hi + lo) / 16 = hi by omega, show (16 * hi + lo) % 16 = lo by omega,
      hdigit, hdigit']
    rfl

theorem hex32_lower {hash : Hash32} : ∀ c ∈ (hex32 hash).toList, c ∈ lowerHex := by
  unfold hex32
  rw [String.toList_ofList]
  intro c hc
  obtain ⟨b, -, hc⟩ := List.mem_flatMap.1 hc
  have hlt := b.toNat_lt
  simp only [List.mem_cons, List.not_mem_nil, or_false] at hc
  rcases hc with rfl | rfl
  · exact hexDigit_mem (by omega)
  · exact hexDigit_mem (by omega)

theorem utf8ByteSize_hex32 (hash : Hash32) : (hex32 hash).utf8ByteSize = 64 := by
  rw [utf8ByteSize_eq, byteSize_of_parseHexBytes (parseHexBytes_hex32 hash), hash.2]

/-- Numbers in pairs, with a character that is no lowercase digit. -/
def Loose (hex : String) : Prop := (∃ bytes, parseHexBytes hex.toList = some bytes) ∧ ∃ c ∈ hex.toList, c ∉ lowerHex

/-- The parser does not panic, and accepts exactly the name of a hash, for that hash. -/
structure NameExact (hex : String) : Prop where
  total : hexToHashOrPanic hex ≠ none
  accepts : ∀ hash, hexToHashOrPanic hex = some (.ok hash) ↔ hex = hex32 hash

/-- Of every text; only text of 64 bytes gets that far. -/
theorem nameExact_iff (hex : String) : NameExact hex ↔ (hex.utf8ByteSize = 64 → ¬ Straddles hex ∧ ¬ Loose hex) := by
  constructor
  · rintro ⟨htotal, haccepts⟩ hsize
    refine ⟨fun hstraddles => htotal (hexToHashOrPanic_none.2 ⟨hsize, hstraddles⟩), ?_⟩
    rintro ⟨⟨bytes, hbytes⟩, c, hc, hlower⟩
    have hlength : bytes.length = 32 := by
      rw [utf8ByteSize_eq, byteSize_of_parseHexBytes hbytes] at hsize
      omega
    have hname := (haccepts ⟨bytes, hlength⟩).1 (hexToHashOrPanic_ok.2 ⟨hsize, hbytes⟩)
    rw [hname] at hc
    exact hlower (hex32_lower c hc)
  · intro h
    constructor
    · intro hnone
      obtain ⟨hsize, hstraddles⟩ := hexToHashOrPanic_none.1 hnone
      exact (h hsize).1 hstraddles
    · intro hash
      rw [hexToHashOrPanic_ok]
      constructor
      · rintro ⟨hsize, hbytes⟩
        have hlower : ∀ c ∈ hex.toList, c ∈ lowerHex := by
          intro c hc
          by_contra hnot
          exact (h hsize).2 ⟨⟨_, hbytes⟩, c, hc, hnot⟩
        unfold hex32
        rw [hexDigits_of_parseHexBytes hbytes hlower, String.ofList_toList]
      · rintro rfl
        exact ⟨utf8ByteSize_hex32 hash, parseHexBytes_hex32 hash⟩

/-- A euro sign is three bytes: the first pair ends inside it. -/
theorem euro_not_exact : ¬ NameExact (.ofList ('€' :: List.replicate 61 '0')) := by
  rintro ⟨htotal, -⟩
  refine htotal (hexToHashOrPanic_none.2 ⟨?_, [], '€' :: List.replicate 61 '0', ?_, ⟨[], rfl⟩, ?_⟩)
  · rw [utf8ByteSize_eq, String.toList_ofList]
    decide
  · rw [String.toList_ofList, List.nil_append]
  · exact Or.inl (by decide)

/-- Where it does not panic, it is the parser of the other modules. -/
theorem hexToHash_of_orPanic {hex : String} {out : Except RegistryError Hash32} (h : hexToHashOrPanic hex = some out) :
    hexToHash hex = out := by
  unfold hexToHash
  cases hparse : parseHexBytes hex.toList with
  | none =>
    cases out with
    | ok hash =>
      rw [(hexToHashOrPanic_ok.1 h).2] at hparse
      cases hparse
    | error e => exact congrArg Except.error (badHashHex_of_orPanic h).symm
  | some bytes =>
    by_cases hlength : bytes.length = 32
    · have hsize : hex.utf8ByteSize = 64 := by
        rw [utf8ByteSize_eq, byteSize_of_parseHexBytes hparse, hlength]
      have hok := hexToHashOrPanic_ok.2
        ⟨hsize, (show parseHexBytes hex.toList = some (⟨bytes, hlength⟩ : Hash32).1 from hparse)⟩
      simp only [dif_pos hlength]
      exact Option.some.inj (hok.symm.trans h)
    · simp only [dif_neg hlength]
      cases out with
      | ok hash =>
        rw [(hexToHashOrPanic_ok.1 h).2] at hparse
        cases hparse
        exact absurd hash.2 hlength
      | error e => exact congrArg Except.error (badHashHex_of_orPanic h).symm

end Ke.Registry
