import SmartSfp.Lib.Text

/-!
# Decimal — the texts of numbers

`strconv.ParseUint` reads back what `strconv.Itoa` writes, and no two numbers have one text.
-/

namespace SmartSfp.Lib.Text

variable {cs : List Char} {n : Nat}

/-- The byte of a digit. -/
def digitByte (c : Char) : UInt8 := UInt8.ofNat c.toNat

theorem toNat_of_isDigit {c : Char} (h : c.isDigit = true) : 48 ≤ c.toNat ∧ c.toNat ≤ 57 := by
  rw [Char.isDigit, Bool.and_eq_true, decide_eq_true_eq, decide_eq_true_eq] at h
  exact ⟨UInt32.le_iff_toNat_le.mp h.1, UInt32.le_iff_toNat_le.mp h.2⟩

theorem toNat_digitByte {c : Char} (h : c.isDigit = true) : (digitByte c).toNat = c.toNat := by
  have hrange := toNat_of_isDigit h
  exact UInt8.toNat_ofNat_of_lt' (by show c.toNat < 256; omega)

theorem digitByte_range {c : Char} (h : c.isDigit = true) :
    0x30 ≤ digitByte c ∧ digitByte c ≤ 0x39 := by
  rw [UInt8.le_iff_toNat_le, UInt8.le_iff_toNat_le, toNat_digitByte h]
  exact toNat_of_isDigit h

theorem encodeChar_digit {c : Char} (h : c.isDigit = true) :
    String.utf8EncodeChar c = [digitByte c] := by
  have hrange := toNat_of_isDigit h
  have hascii : c.val.toNat ≤ 0x7f := by
    show c.toNat ≤ 0x7f
    omega
  unfold String.utf8EncodeChar
  dsimp only
  rw [if_pos hascii]
  rfl

theorem utf8_digits (h : ∀ c ∈ cs, c.isDigit = true) :
    utf8 (String.ofList cs) = cs.map digitByte := by
  rw [utf8_ofList]
  induction cs with
  | nil => rfl
  | cons c cs ih =>
    rw [List.forall_mem_cons] at h
    rw [List.flatMap_cons, encodeChar_digit h.1, ih h.2]
    rfl

theorem le_ofDigitChars (cs : List Char) (n : Nat) : n ≤ Nat.ofDigitChars 10 cs n := by
  induction cs generalizing n with
  | nil => exact Nat.le_of_eq Nat.ofDigitChars_nil.symm
  | cons c cs ih =>
    rw [Nat.ofDigitChars_cons]
    exact Nat.le_trans (by omega) (ih _)

theorem parseDigits_digits (h : ∀ c ∈ cs, c.isDigit = true)
    (hsize : Nat.ofDigitChars 10 cs n < UInt64.size) :
    parseDigits n (cs.map digitByte) = (UInt64.ofNat (Nat.ofDigitChars 10 cs n), none) := by
  induction cs generalizing n with
  | nil => rfl
  | cons c cs ih =>
    rw [List.forall_mem_cons] at h
    rw [Nat.ofDigitChars_cons] at hsize ⊢
    have hvalue : n * 10 + ((digitByte c).toNat - 0x30) = 10 * n + (c.toNat - '0'.toNat) := by
      rw [toNat_digitByte h.1, Nat.mul_comm]
      rfl
    -- the value only grows, so no digit on the way exceeds the range
    have hfits := Nat.lt_of_le_of_lt (le_ofDigitChars cs _) hsize
    rw [List.map_cons, parseDigits, if_pos (digitByte_range h.1)]
    dsimp only
    rw [hvalue, if_pos hfits, ih h.2 hsize]

theorem itoa_natCast (n : Nat) : itoa n = (Nat.toDigits 10 n).map digitByte := by
  show utf8 (toString n) = _
  rw [Nat.toString_eq_ofList_toDigits]
  exact utf8_digits fun c hc => Nat.isDigit_of_mem_toDigits (by omega) (by omega) hc

theorem itoa_ne_nil (n : Nat) : itoa n ≠ [] := by
  rw [itoa_natCast]
  exact fun h => Nat.toDigits_ne_nil (List.map_eq_nil_iff.mp h)

/-! ## Numerals -/

/-- A number in decimal digits, perhaps with zeros before it. -/
inductive Numeral : Text → Nat → Prop where
  | digits {cs : List Char} (hne : cs ≠ []) (hdigits : ∀ c ∈ cs, c.isDigit = true) :
      Numeral (cs.map digitByte) (Nat.ofDigitChars 10 cs 0)

/-- The same with a sign or without. -/
inductive SignedNumeral : Text → Int → Prop where
  | plain {w : Text} {n : Nat} (h : Numeral w n) : SignedNumeral w n
  | plus {w : Text} {n : Nat} (h : Numeral w n) : SignedNumeral (0x2b :: w) n
  | minus {w : Text} {n : Nat} (h : Numeral w n) : SignedNumeral (0x2d :: w) (-n)

variable {w : Text}

theorem numeral_itoa (n : Nat) : Numeral (itoa n) n := by
  have hdigits : ∀ c ∈ Nat.toDigits 10 n, c.isDigit = true :=
    fun c hc => Nat.isDigit_of_mem_toDigits (by omega) (by omega) hc
  have hvalue : Nat.ofDigitChars 10 (Nat.toDigits 10 n) 0 = n := Nat.ofDigitChars_ten_toDigits
  have hnumeral := Numeral.digits Nat.toDigits_ne_nil hdigits
  rwa [hvalue, ← itoa_natCast] at hnumeral

/-- `ParseUint` reads a numeral that is in its range. -/
theorem Numeral.parseUint_eq (h : Numeral w n) (hsize : n < UInt64.size) :
    parseUint w = (UInt64.ofNat n, none) := by
  cases h with
  | digits hne hdigits =>
    rw [parseUint, if_neg fun h => hne (List.map_eq_nil_iff.mp h)]
    exact parseDigits_digits hdigits hsize

/-- `ParseUint` reads back what `Itoa` writes. -/
theorem parseUint_itoa (h : n < UInt64.size) : parseUint (itoa n) = (UInt64.ofNat n, none) :=
  (numeral_itoa n).parseUint_eq h

/-- A numeral does not start with a sign. -/
theorem Numeral.cutSign_eq (h : Numeral w n) : cutSign w = (false, w) := by
  cases h with
  | @digits cs hne hdigits =>
    cases cs with
    | nil => exact absurd rfl hne
    | cons c cs =>
      have hdigit : c.isDigit = true := hdigits c List.mem_cons_self
      have hlow := (digitByte_range hdigit).1
      have hminus : digitByte c ≠ 0x2d := fun h => absurd (h ▸ hlow) (by decide)
      have hplus : digitByte c ≠ 0x2b := fun h => absurd (h ▸ hlow) (by decide)
      rw [List.map_cons]
      unfold cutSign
      split
      · rename_i heq
        exact absurd (List.cons.inj heq).1 hminus
      · rename_i heq
        exact absurd (List.cons.inj heq).1 hplus
      · rfl

theorem parseInt_nonneg {s : Text} (hsign : cutSign s = (false, w)) (h : Numeral w n)
    (hhigh : n < 0x8000000000000000) : parseInt s = ((n : Int), none) := by
  have hsize : UInt64.size = 0x10000000000000000 := rfl
  have hlimit : (0x8000000000000000 : UInt64).toNat = 0x8000000000000000 := rfl
  have hvalue : (UInt64.ofNat n).toNat = n := UInt64.toNat_ofNat_of_lt' (by omega)
  have hfits : ¬(¬false = true ∧ (0x8000000000000000 : UInt64) ≤ UInt64.ofNat n) := by
    rw [UInt64.le_iff_toNat_le, hlimit, hvalue]
    omega
  rw [parseInt, hsign]
  dsimp only
  rw [h.parseUint_eq (by omega)]
  dsimp only
  rw [if_neg hfits, if_neg (by simp), if_neg (by decide), hvalue]

theorem parseInt_neg {s : Text} (hsign : cutSign s = (true, w)) (h : Numeral w n)
    (hlow : n ≤ 0x8000000000000000) : parseInt s = (-(n : Int), none) := by
  have hsize : UInt64.size = 0x10000000000000000 := rfl
  have hlimit : (0x8000000000000000 : UInt64).toNat = 0x8000000000000000 := rfl
  have hvalue : (UInt64.ofNat n).toNat = n := UInt64.toNat_ofNat_of_lt' (by omega)
  have hfits : ¬(true = true ∧ (0x8000000000000000 : UInt64) < UInt64.ofNat n) := by
    rw [UInt64.lt_iff_toNat_lt, hlimit, hvalue]
    omega
  rw [parseInt, hsign]
  dsimp only
  rw [h.parseUint_eq (by omega)]
  dsimp only
  rw [if_neg (by simp), if_neg hfits, if_pos rfl, hvalue]

/-- `Atoi` reads a numeral that is in its range. -/
theorem SignedNumeral.atoi_eq {n : Int} (h : SignedNumeral w n) (hlow : -0x8000000000000000 ≤ n)
    (hhigh : n < 0x8000000000000000) : atoi w = (n, none) := by
  cases h with
  | plain h => exact parseInt_nonneg h.cutSign_eq h (by omega)
  | @plus w _ h => exact parseInt_nonneg (s := 0x2b :: w) rfl h (by omega)
  | @minus w _ h => exact parseInt_neg (s := 0x2d :: w) rfl h (by omega)

/-! ## Different numbers -/

theorem toString_nat_injective {m n : Nat} (h : toString m = toString n) : m = n := by
  rw [Nat.toString_eq_ofList_toDigits, Nat.toString_eq_ofList_toDigits] at h
  have hvalue := congrArg (Nat.ofDigitChars 10 · 0) (String.ofList_injective h)
  rwa [Nat.ofDigitChars_ten_toDigits, Nat.ofDigitChars_ten_toDigits] at hvalue

theorem itoa_injective {m n : Int} (h : itoa m = itoa n) : m = n := by
  have hstring : toString m = toString n := utf8_injective h
  have hminus (k l : Nat) : toString k ≠ "-" ++ toString l := by
    intro heq
    rw [Nat.toString_eq_ofList_toDigits] at heq
    have hmem : '-' ∈ Nat.toDigits 10 k := by
      rw [← String.toList_ofList (l := Nat.toDigits 10 k), heq, String.toList_append]
      exact List.mem_append_left _ (by decide)
    have hdigit := Nat.isDigit_of_mem_toDigits (by omega) (by omega) hmem
    cases hdigit
  cases m with
  | ofNat k =>
    cases n with
    | ofNat l => rw [toString_nat_injective hstring]
    | negSucc l => exact absurd hstring (hminus k (l + 1))
  | negSucc k =>
    cases n with
    | ofNat l => exact absurd hstring.symm (hminus l (k + 1))
    | negSucc l =>
      have hsucc : "-" ++ toString (k + 1) = "-" ++ toString (l + 1) := hstring
      have hlist := congrArg String.toList hsucc
      rw [String.toList_append, String.toList_append, List.append_cancel_left_eq] at hlist
      have heq := toString_nat_injective (String.toList_inj.mp hlist)
      rw [Nat.succ.inj heq]

end SmartSfp.Lib.Text
