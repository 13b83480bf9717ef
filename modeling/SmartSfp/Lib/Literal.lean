import Mathlib.Algebra.Order.Ring.Nat
import SmartSfp.Lib.Text

/-!
# Literal — numbers in the bases of integer literals

`strconv.ParseUint` with base 0 takes the base from the text.  It accepts the integer literals of
Go, underscores and all, and no other text.
-/

namespace SmartSfp.Lib.Text

/-- An upper-case letter as a lower-case one; other bytes change too, but to no letter. -/
def lower (c : UInt8) : UInt8 := c ||| 0x20

/-- The value of a digit in any base there is. -/
def digitValue (c : UInt8) : Option Nat :=
  if 0x30 ≤ c ∧ c ≤ 0x39 then some (c.toNat - 0x30)
  else if 0x61 ≤ lower c ∧ lower c ≤ 0x7a then some ((lower c).toNat - 0x61 + 10)
  else none

/-- The base of `0b`, `0o` and `0x`. -/
def radix (c : UInt8) : Option Nat :=
  if lower c = 0x62 then some 2
  else if lower c = 0x6f then some 8
  else if lower c = 0x78 then some 16
  else none

/-- The base of a text, and its digits. -/
def takeBase : Text → Nat × Text
  | 0x30 :: c :: d :: rest =>
    match radix c with
    | some base => (base, d :: rest)
    | none => (8, c :: d :: rest)
  | 0x30 :: rest => (8, rest)
  | s => (10, s)

/-- The loop of `ParseUint` where underscores may stand, with the value of the digits before and
whether there was an underscore. -/
def parseDigitsIn (base maxVal n : Nat) (underscores : Bool) : Text → Except NumError (Nat × Bool)
  | [] => .ok (n, underscores)
  | c :: rest =>
    if c = 0x5f then parseDigitsIn base maxVal n true rest
    else
      match digitValue c with
      | none => .error .syntaxError
      | some d =>
        if base ≤ d then .error .syntaxError
        else if maxVal < n * base + d then .error .rangeError
        else parseDigitsIn base maxVal (n * base + d) underscores rest

/-- What `underscoreOK` has last seen. -/
inductive Seen where
  | start
  | digit
  | underscore
  | other
  deriving DecidableEq

/-- The loop of `underscoreOK`. -/
def scanUnderscores (hex : Bool) (i : Seen) : Text → Bool
  | [] => i ≠ .underscore
  | c :: rest =>
    if (0x30 ≤ c ∧ c ≤ 0x39) ∨ hex ∧ 0x61 ≤ lower c ∧ lower c ≤ 0x66 then
      scanUnderscores hex .digit rest
    else if c = 0x5f then
      if i ≠ .digit then false else scanUnderscores hex .underscore rest
    else if i = .underscore then false
    else scanUnderscores hex .other rest

/-- `underscoreOK`. -/
def underscoreOK (s : Text) : Bool :=
  match (cutSign s).2 with
  | 0x30 :: c :: rest =>
    match radix c with
    | some base => scanUnderscores (base = 16) .digit rest
    | none => scanUnderscores false .start (0x30 :: c :: rest)
  | digits => scanUnderscores false .start digits

/-- `strconv.ParseUint(s, 0, bits)`. -/
def parseUint0 (bits : Nat) (s : Text) : Except NumError Nat :=
  if s = [] then .error .syntaxError
  else
    match parseDigitsIn (takeBase s).1 (2 ^ bits - 1) 0 false (takeBase s).2 with
    | .error e => .error e
    | .ok (n, underscores) =>
      if underscores ∧ ¬underscoreOK s then .error .syntaxError else .ok n

/-! ## The literals -/

/-- A digit of a base. -/
def digitIn (base : Nat) (c : UInt8) : Option Nat := (digitValue c).filter (· < base)

/-- Digits, with single underscores between them, after others of the value `acc`. -/
inductive Digits (base : Nat) : Nat → Text → Nat → Prop where
  | last {acc d : Nat} {c : UInt8} (hc : digitIn base c = some d) :
      Digits base acc [c] (acc * base + d)
  | more {acc d n : Nat} {c : UInt8} {s : Text} (hc : digitIn base c = some d)
      (hs : Digits base (acc * base + d) s n) : Digits base acc (c :: s) n
  | apart {acc d n : Nat} {c : UInt8} {s : Text} (hc : digitIn base c = some d)
      (hs : Digits base (acc * base + d) s n) : Digits base acc (c :: 0x5f :: s) n

/-- The integer literals of Go. -/
inductive Literal : Text → Nat → Prop where
  | zero : Literal [0x30] 0
  | decimal {c : UInt8} {s : Text} {n : Nat} (hc : c ≠ 0x30) (h : Digits 10 0 (c :: s) n) :
      Literal (c :: s) n
  | octal {s : Text} {n : Nat} (h : Digits 8 0 s n) : Literal (0x30 :: s) n
  | octalApart {s : Text} {n : Nat} (h : Digits 8 0 s n) : Literal (0x30 :: 0x5f :: s) n
  | based {c : UInt8} {s : Text} {base n : Nat} (hc : radix c = some base) (h : Digits base 0 s n) :
      Literal (0x30 :: c :: s) n
  | basedApart {c : UInt8} {s : Text} {base n : Nat} (hc : radix c = some base)
      (h : Digits base 0 s n) : Literal (0x30 :: c :: 0x5f :: s) n

variable {base maxVal acc n m d bits : Nat} {c : UInt8} {s digits : Text} {u u' : Bool}

theorem digitIn_underscore (base : Nat) : digitIn base 0x5f = none := by
  have hnone : digitValue 0x5f = none := by decide
  rw [digitIn, hnone]
  rfl

theorem ne_underscore (hc : digitIn base c = some d) : c ≠ 0x5f := by
  rintro rfl
  rw [digitIn_underscore] at hc
  cases hc

theorem digitIn_eq_some : digitIn base c = some d ↔ digitValue c = some d ∧ d < base := by
  simp [digitIn, Option.filter_eq_some_iff]

/-- The value of digits wherever the underscores are. -/
def value (base : Nat) : Nat → Text → Option Nat
  | acc, [] => some acc
  | acc, c :: rest =>
    if c = 0x5f then value base acc rest
    else (digitIn base c).bind fun d => value base (acc * base + d) rest

theorem value_underscore (rest : Text) : value base acc (0x5f :: rest) = value base acc rest := by
  rw [value, if_pos rfl]

theorem value_digit (hc : digitIn base c = some d) (rest : Text) :
    value base acc (c :: rest) = value base (acc * base + d) rest := by
  rw [value, if_neg (ne_underscore hc), hc]
  rfl

theorem le_value (hbase : 0 < base) (h : value base acc s = some n) : acc ≤ n := by
  induction s generalizing acc with
  | nil =>
    cases h
    exact Nat.le_refl _
  | cons c rest ih =>
    by_cases hc : c = 0x5f
    · rw [hc, value_underscore] at h
      exact ih h
    · rw [value, if_neg hc, Option.bind_eq_some_iff] at h
      obtain ⟨d, -, h⟩ := h
      have hmul := Nat.le_mul_of_pos_right acc hbase
      have hle := ih h
      omega

/-- The loop adds the digits up, as long as they fit. -/
theorem parseDigitsIn_eq_ok (hbase : 0 < base) (hfits : acc ≤ maxVal) :
    parseDigitsIn base maxVal acc u s = .ok (n, u') ↔
      value base acc s = some n ∧ n ≤ maxVal ∧ u' = (u || decide (0x5f ∈ s)) := by
  induction s generalizing acc u with
  | nil =>
    simp only [parseDigitsIn, value, Except.ok.injEq, Prod.mk.injEq, Option.some.injEq,
      List.not_mem_nil, decide_false, Bool.or_false]
    constructor
    · rintro ⟨rfl, rfl⟩
      exact ⟨rfl, hfits, rfl⟩
    · rintro ⟨rfl, -, rfl⟩
      exact ⟨rfl, rfl⟩
  | cons c rest ih =>
    by_cases hc : c = 0x5f
    · rw [parseDigitsIn, if_pos hc, ih hfits, hc, value_underscore]
      simp
    · have hmem : (0x5f ∈ c :: rest) ↔ 0x5f ∈ rest := by
        simp [Ne.symm hc]
      rw [parseDigitsIn, if_neg hc]
      simp only [hmem]
      cases hvalue : digitValue c with
      | none => simp [value, hc, digitIn, hvalue]
      | some d =>
        by_cases hd : base ≤ d
        · have hnone : digitIn base c = none := by
            rw [digitIn, hvalue, Option.filter_some, if_neg (by simpa using hd)]
          simp [value, hc, hnone, hd]
        · have hdigit : digitIn base c = some d :=
            digitIn_eq_some.mpr ⟨hvalue, Nat.lt_of_not_le hd⟩
          rw [value_digit hdigit]
          simp only [if_neg hd]
          split
          · rename_i hover
            constructor
            · intro h
              cases h
            · rintro ⟨h, hn, -⟩
              have hle := le_value hbase h
              omega
          · rename_i hnext
            exact ih (Nat.le_of_not_lt hnext)

/-! ## Underscores -/

theorem Digits.value_eq (h : Digits base acc s n) : value base acc s = some n := by
  induction h with
  | last hc => rw [value_digit hc, value]
  | more hc hs ih => rw [value_digit hc, ih]
  | apart hc hs ih => rw [value_digit hc, value_underscore, ih]

theorem Digits.ne_nil (h : Digits base acc s n) : s ≠ [] := by
  cases h <;> exact List.cons_ne_nil _ _

theorem Digits.head (h : Digits base acc (c :: s) n) : ∃ d, digitIn base c = some d := by
  cases h with
  | last hc => exact ⟨_, hc⟩
  | more hc => exact ⟨_, hc⟩
  | apart hc => exact ⟨_, hc⟩

theorem digits_cons_iff (hc : digitIn base c = some d) :
    Digits base acc (c :: s) n ↔
      s = [] ∧ n = acc * base + d ∨ Digits base (acc * base + d) s n ∨
        ∃ rest, s = 0x5f :: rest ∧ Digits base (acc * base + d) rest n := by
  constructor
  · intro h
    cases h with
    | last hc' =>
      cases hc.symm.trans hc'
      exact .inl ⟨rfl, rfl⟩
    | more hc' hs =>
      cases hc.symm.trans hc'
      exact .inr (.inl hs)
    | apart hc' hs =>
      cases hc.symm.trans hc'
      exact .inr (.inr ⟨_, rfl, hs⟩)
  · rintro (⟨rfl, rfl⟩ | h | ⟨rest, rfl, h⟩)
    · exact .last hc
    · exact .more hc h
    · exact .apart hc h

/-- A digit of the base is one to `underscoreOK`. -/
theorem scan_digit (hbase : base ≤ 10 ∨ base = 16) (hc : digitIn base c = some d) (i : Seen) :
    scanUnderscores (base = 16) i (c :: s) = scanUnderscores (base = 16) .digit s := by
  rw [scanUnderscores, if_pos]
  obtain ⟨hvalue, hd⟩ := digitIn_eq_some.mp hc
  unfold digitValue at hvalue
  split at hvalue
  · rename_i hdecimal
    exact .inl hdecimal
  · split at hvalue
    · rename_i hletter
      cases hvalue
      right
      have hlow := UInt8.le_iff_toNat_le.mp hletter.1
      refine ⟨by simp; omega, hletter.1, UInt8.le_iff_toNat_le.mpr ?_⟩
      show (lower c).toNat ≤ 0x66
      omega
    · cases hvalue

/-- What `underscoreOK` accepts, of digits that add up. -/
theorem scan_iff (hbase : base ≤ 10 ∨ base = 16) (h : value base acc s = some n) :
    (scanUnderscores (base = 16) .start s = true ↔ s = [] ∨ Digits base acc s n) ∧
    (scanUnderscores (base = 16) .underscore s = true ↔ Digits base acc s n) ∧
    (scanUnderscores (base = 16) .digit s = true ↔
      s = [] ∨ Digits base acc s n ∨ ∃ rest, s = 0x5f :: rest ∧ Digits base acc rest n) := by
  induction s generalizing acc with
  | nil =>
    have hnot : ¬ Digits base acc [] n := fun h => h.ne_nil rfl
    simp [scanUnderscores, hnot]
  | cons c rest ih =>
    by_cases hc : c = 0x5f
    · subst hc
      rw [value_underscore] at h
      have hnot : ¬ Digits base acc (0x5f :: rest) n := by
        intro h
        obtain ⟨d, hd⟩ := h.head
        rw [digitIn_underscore] at hd
        cases hd
      have hstep (i : Seen) : scanUnderscores (base = 16) i (0x5f :: rest) =
          if i ≠ .digit then false else scanUnderscores (base = 16) .underscore rest := by
        have hletter : ¬ ((0x30 ≤ (0x5f : UInt8) ∧ (0x5f : UInt8) ≤ 0x39) ∨ (base = 16 : Bool) ∧
            0x61 ≤ lower 0x5f ∧ lower 0x5f ≤ 0x66) := by
          rintro (h | h)
          · exact absurd h (by decide)
          · exact absurd h.2 (by decide)
        rw [scanUnderscores, if_neg hletter, if_pos rfl]
      simp [hstep, hnot, (ih h).2.1]
    · rw [value, if_neg hc, Option.bind_eq_some_iff] at h
      obtain ⟨d, hd, h⟩ := h
      have hrest : scanUnderscores (base = 16) .digit rest = true ↔
          Digits base acc (c :: rest) n := by
        rw [(ih h).2.2, digits_cons_iff hd]
        constructor
        · rintro (rfl | h')
          · cases h
            exact .inl ⟨rfl, rfl⟩
          · exact .inr h'
        · rintro (⟨rfl, -⟩ | h')
          · exact .inl rfl
          · exact .inr h'
      have hapart : ¬ ∃ rest', c :: rest = 0x5f :: rest' ∧ Digits base acc rest' n := by
        rintro ⟨rest', heq, -⟩
        exact hc (List.cons.inj heq).1
      simp only [scan_digit hbase hd, hrest, hapart, or_false, List.cons_ne_nil, false_or,
        and_self]

/-- Without underscores there is nothing to accept. -/
theorem digits_of_value (h : value base acc s = some n) (hnone : 0x5f ∉ s) (hne : s ≠ []) :
    Digits base acc s n := by
  induction s generalizing acc with
  | nil => exact absurd rfl hne
  | cons c rest ih =>
    rw [List.mem_cons, not_or] at hnone
    rw [value, if_neg (Ne.symm hnone.1), Option.bind_eq_some_iff] at h
    obtain ⟨d, hd, h⟩ := h
    rw [digits_cons_iff hd]
    by_cases hrest : rest = []
    · subst hrest
      cases h
      exact .inl ⟨rfl, rfl⟩
    · exact .inr (.inl (ih h hnone.2 hrest))

/-! ## What is accepted -/

theorem radix_cases {c : UInt8} (h : radix c = some base) : base = 2 ∨ base = 8 ∨ base = 16 := by
  unfold radix at h
  split at h
  · cases h
    exact .inl rfl
  · split at h
    · cases h
      exact .inr (.inl rfl)
    · split at h
      · cases h
        exact .inr (.inr rfl)
      · cases h

theorem takeBase_pos (s : Text) : 0 < (takeBase s).1 := by
  unfold takeBase
  split
  · split
    · rename_i hradix
      obtain rfl | rfl | rfl := radix_cases hradix <;> exact Nat.succ_pos _
    · exact Nat.succ_pos _
  · exact Nat.succ_pos _
  · exact Nat.succ_pos _

theorem parseUint0_eq_ok :
    parseUint0 bits s = .ok n ↔ s ≠ [] ∧ value (takeBase s).1 0 (takeBase s).2 = some n ∧
      n < 2 ^ bits ∧ (0x5f ∈ (takeBase s).2 → underscoreOK s = true) := by
  have hpow : 0 < 2 ^ bits := Nat.two_pow_pos bits
  have hloop (m : Nat) (u : Bool) :
      parseDigitsIn (takeBase s).1 (2 ^ bits - 1) 0 false (takeBase s).2 = .ok (m, u) ↔
        value (takeBase s).1 0 (takeBase s).2 = some m ∧ m ≤ 2 ^ bits - 1 ∧
          u = (false || decide (0x5f ∈ (takeBase s).2)) :=
    parseDigitsIn_eq_ok (takeBase_pos s) (Nat.zero_le _)
  unfold parseUint0
  by_cases hs : s = []
  · simp [hs]
  · rw [if_neg hs]
    split
    · rename_i e herror
      constructor
      · intro h
        cases h
      · rintro ⟨-, hvalue, hlt, -⟩
        have hok := (hloop n _).mpr ⟨hvalue, by omega, rfl⟩
        rw [herror] at hok
        cases hok
    · rename_i m u hok
      obtain ⟨hvalue, hle, rfl⟩ := (hloop m u).mp hok
      simp only [Bool.false_or, decide_eq_true_eq]
      constructor
      · intro h
        split at h
        · cases h
        · rename_i hunderscores
          cases h
          refine ⟨hs, hvalue, by omega, fun hmem => ?_⟩
          by_contra hnot
          exact hunderscores ⟨hmem, hnot⟩
      · rintro ⟨-, hvalue', -, hunderscores⟩
        cases hvalue.symm.trans hvalue'
        rw [if_neg]
        rintro ⟨hmem, hnot⟩
        exact hnot (hunderscores hmem)

/-- After a zero or a prefix an underscore may come first. -/
theorem value_and_scan_iff (hbase : base ≤ 10 ∨ base = 16) :
    value base 0 s = some n ∧ (0x5f ∈ s → scanUnderscores (base = 16) .digit s = true) ↔
      s = [] ∧ n = 0 ∨ Digits base 0 s n ∨ ∃ rest, s = 0x5f :: rest ∧ Digits base 0 rest n := by
  constructor
  · rintro ⟨hvalue, hscan⟩
    by_cases hmem : 0x5f ∈ s
    · obtain rfl | h := (scan_iff hbase hvalue).2.2.mp (hscan hmem)
      · cases hmem
      · exact .inr h
    · by_cases hnil : s = []
      · subst hnil
        cases hvalue
        exact .inl ⟨rfl, rfl⟩
      · exact .inr (.inl (digits_of_value hvalue hmem hnil))
  · rintro (⟨rfl, rfl⟩ | h | ⟨rest, rfl, h⟩)
    · exact ⟨rfl, fun hmem => absurd hmem List.not_mem_nil⟩
    · have hvalue := h.value_eq
      exact ⟨hvalue, fun _ => (scan_iff hbase hvalue).2.2.mpr (.inr (.inl h))⟩
    · have hvalue : value base 0 (0x5f :: rest) = some n := by
        rw [value_underscore]
        exact h.value_eq
      exact ⟨hvalue, fun _ => (scan_iff hbase hvalue).2.2.mpr (.inr (.inr ⟨rest, rfl, h⟩))⟩

theorem takeBase_based {c d : UInt8} {rest : Text} (hc : radix c = some base) :
    takeBase (0x30 :: c :: d :: rest) = (base, d :: rest) ∧
      underscoreOK (0x30 :: c :: d :: rest) = scanUnderscores (base = 16) .digit (d :: rest) := by
  simp [takeBase, underscoreOK, cutSign, hc]

theorem takeBase_octal (hs : ∀ c d rest, s = c :: d :: rest → radix c = none) :
    takeBase (0x30 :: s) = (8, s) := by
  match s with
  | [] => rfl
  | [c] => rfl
  | c :: d :: rest => simp [takeBase, hs c d rest rfl]

theorem scan_start_zero (s : Text) :
    scanUnderscores false .start (0x30 :: s) = scanUnderscores false .digit s := by
  rw [scanUnderscores, if_pos (.inl (by decide))]

/-- A prefix letter is no octal digit and no underscore. -/
theorem digitIn_of_radix (hc : radix c = some base) : digitIn 8 c = none ∧ c ≠ 0x5f := by
  have hall : ∀ n < 256, radix (UInt8.ofNat n) = none ∨
      digitIn 8 (UInt8.ofNat n) = none ∧ UInt8.ofNat n ≠ 0x5f := by
    decide +kernel
  have hcase := hall c.toNat c.toNat_lt
  rw [UInt8.ofNat_toNat, hc] at hcase
  exact hcase.resolve_left (Option.some_ne_none _)

/-- The literals that start with a zero. -/
theorem literal_zero_iff : Literal (0x30 :: s) n ↔
    (s = [] ∧ n = 0 ∨ Digits 8 0 s n ∨ ∃ rest, s = 0x5f :: rest ∧ Digits 8 0 rest n) ∨
    ∃ c rest base, s = c :: rest ∧ radix c = some base ∧
      (Digits base 0 rest n ∨ ∃ digits, rest = 0x5f :: digits ∧ Digits base 0 digits n) := by
  constructor
  · intro h
    cases h with
    | zero => exact .inl (.inl ⟨rfl, rfl⟩)
    | decimal hc => exact absurd rfl hc
    | octal h => exact .inl (.inr (.inl h))
    | octalApart h => exact .inl (.inr (.inr ⟨_, rfl, h⟩))
    | based hc h => exact .inr ⟨_, _, _, rfl, hc, .inl h⟩
    | basedApart hc h => exact .inr ⟨_, _, _, rfl, hc, .inr ⟨_, rfl, h⟩⟩
  · rintro ((⟨rfl, rfl⟩ | h | ⟨rest, rfl, h⟩) | ⟨c, rest, base, rfl, hc, h | ⟨digits, rfl, h⟩⟩)
    · exact .zero
    · exact .octal h
    · exact .octalApart h
    · exact .based hc h
    · exact .basedApart hc h

/-- After a zero alone the digits are octal ones. -/
theorem literal_octal_iff (hs : ∀ c d rest, s = c :: d :: rest → radix c = none) :
    Literal (0x30 :: s) n ↔
      s = [] ∧ n = 0 ∨ Digits 8 0 s n ∨ ∃ rest, s = 0x5f :: rest ∧ Digits 8 0 rest n := by
  rw [literal_zero_iff, or_iff_left]
  rintro ⟨c, rest, base, rfl, hc, h⟩
  cases rest with
  | nil =>
    obtain h | ⟨digits, habsurd, -⟩ := h
    · exact h.ne_nil rfl
    · cases habsurd
  | cons d rest =>
    rw [hs c d rest rfl] at hc
    cases hc

/-- After a prefix they are those of its base. -/
theorem literal_based_iff {d : UInt8} {rest : Text} (hc : radix c = some base) :
    Literal (0x30 :: c :: d :: rest) n ↔
      Digits base 0 (d :: rest) n ∨
        ∃ digits, d :: rest = 0x5f :: digits ∧ Digits base 0 digits n := by
  obtain ⟨hdigit, hunderscore⟩ := digitIn_of_radix hc
  rw [literal_zero_iff, or_iff_right]
  · constructor
    · rintro ⟨c', rest', base', heq, hc', h⟩
      cases heq
      cases hc.symm.trans hc'
      exact h
    · exact fun h => ⟨c, d :: rest, base, rfl, hc, h⟩
  · rintro (⟨habsurd, -⟩ | h | ⟨rest', heq, -⟩)
    · cases habsurd
    · obtain ⟨v, hv⟩ := h.head
      rw [hdigit] at hv
      cases hv
    · exact hunderscore (List.cons.inj heq).1

theorem underscoreOK_octal (hs : ∀ c d rest, s = c :: d :: rest → radix c = none)
    (hmem : 0x5f ∈ s) : underscoreOK (0x30 :: s) = scanUnderscores false .digit s := by
  rw [← scan_start_zero]
  match s with
  | [] => cases hmem
  | [c] =>
    cases List.mem_singleton.mp hmem
    rfl
  | c :: d :: rest => simp [underscoreOK, cutSign, hs c d rest rfl]

theorem takeBase_decimal (hc : c ≠ 0x30) : takeBase (c :: s) = (10, c :: s) := by
  unfold takeBase
  split
  · rename_i heq
    exact absurd (List.cons.inj heq).1 hc
  · rename_i heq
    exact absurd (List.cons.inj heq).1 hc
  · rfl

theorem underscoreOK_decimal (hc : c ≠ 0x30) (hd : digitIn 10 c = some d) :
    underscoreOK (c :: s) = scanUnderscores false .start (c :: s) := by
  have hsign : cutSign (c :: s) = (false, c :: s) := by
    unfold cutSign
    split
    · rename_i heq
      cases (List.cons.inj heq).1
      cases hd
    · rename_i heq
      cases (List.cons.inj heq).1
      cases hd
    · rfl
  unfold underscoreOK
  rw [hsign]
  split
  · rename_i heq
    exact absurd (List.cons.inj heq).1 hc
  · rfl

/-- What the loop and `underscoreOK` accept together. -/
theorem accepted_iff : s ≠ [] ∧ value (takeBase s).1 0 (takeBase s).2 = some n ∧
    (0x5f ∈ (takeBase s).2 → underscoreOK s = true) ↔ Literal s n := by
  match s with
  | [] =>
    have hnot : ¬ Literal [] n := by
      intro h
      cases h
    simp [hnot]
  | c :: s =>
    by_cases hzero : c = 0x30
    · subst hzero
      by_cases hprefix : ∃ c d rest base, s = c :: d :: rest ∧ radix c = some base
      · obtain ⟨c, d, rest, base, rfl, hc⟩ := hprefix
        have hbase : base ≤ 10 ∨ base = 16 := by
          obtain rfl | rfl | rfl := radix_cases hc <;> decide
        rw [literal_based_iff hc, (takeBase_based hc).1, (takeBase_based hc).2]
        rw [and_iff_right (List.cons_ne_nil _ _), value_and_scan_iff hbase, or_iff_right]
        rintro ⟨habsurd, -⟩
        cases habsurd
      · have hs (c d : UInt8) (rest : Text) (heq : s = c :: d :: rest) : radix c = none := by
          by_contra hc
          obtain ⟨base, hbase⟩ := Option.ne_none_iff_exists'.mp hc
          exact hprefix ⟨c, d, rest, base, heq, hbase⟩
        have hscan : (0x5f ∈ s → underscoreOK (0x30 :: s) = true) ↔
            (0x5f ∈ s → scanUnderscores (8 = 16) .digit s = true) :=
          forall_congr' fun hmem => by rw [underscoreOK_octal hs hmem]; rfl
        rw [literal_octal_iff hs, takeBase_octal hs, and_iff_right (List.cons_ne_nil _ _)]
        show value 8 0 s = some n ∧ (0x5f ∈ s → underscoreOK (0x30 :: s) = true) ↔ _
        rw [hscan, value_and_scan_iff (.inl (by decide))]
    · have hliteral : Literal (c :: s) n ↔ Digits 10 0 (c :: s) n := by
        constructor
        · intro h
          cases h with
          | decimal _ h => exact h
          | _ => exact absurd rfl hzero
        · exact .decimal hzero
      rw [hliteral, takeBase_decimal hzero, and_iff_right (List.cons_ne_nil _ _)]
      show value 10 0 (c :: s) = some n ∧ (0x5f ∈ c :: s → underscoreOK (c :: s) = true) ↔ _
      constructor
      · rintro ⟨hvalue, hunderscores⟩
        by_cases hmem : 0x5f ∈ c :: s
        · have hok := hunderscores hmem
          by_cases hunder : c = 0x5f
          · subst hunder
            exact absurd hok (by simp [underscoreOK, cutSign, scanUnderscores, lower])
          · have hfirst := hvalue
            rw [value, if_neg hunder, Option.bind_eq_some_iff] at hfirst
            obtain ⟨d, hd, -⟩ := hfirst
            rw [underscoreOK_decimal hzero hd] at hok
            have hscan := (scan_iff (.inl (by decide : 10 ≤ 10)) hvalue).1.mp hok
            exact hscan.resolve_left (List.cons_ne_nil _ _)
        · exact digits_of_value hvalue hmem (List.cons_ne_nil _ _)
      · intro h
        obtain ⟨d, hd⟩ := h.head
        refine ⟨h.value_eq, fun _ => ?_⟩
        rw [underscoreOK_decimal hzero hd]
        exact (scan_iff (.inl (by decide : 10 ≤ 10)) h.value_eq).1.mpr (.inr h)

/-- `ParseUint` with base 0 reads the literals that are in its range, and nothing else. -/
theorem parseUint0_eq_ok_iff : parseUint0 bits s = .ok n ↔ Literal s n ∧ n < 2 ^ bits := by
  rw [parseUint0_eq_ok, ← accepted_iff]
  constructor
  · rintro ⟨hs, hvalue, hlt, hunderscores⟩
    exact ⟨⟨hs, hvalue, hunderscores⟩, hlt⟩
  · rintro ⟨⟨hs, hvalue, hunderscores⟩, hlt⟩
    exact ⟨hs, hvalue, hlt, hunderscores⟩

end SmartSfp.Lib.Text
