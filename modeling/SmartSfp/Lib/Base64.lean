import Mathlib.Tactic.Common

/-!
# Base64 — the padded standard encoding

Three bytes are four characters of six bits each.  A last group of one or two bytes is padded with
`=`, and a decoder refuses it when the bits it does not use are not zero.
-/

namespace SmartSfp.Lib.Base64

def alphabet : List Char :=
  "ABCDEFGHIJKLMNOPQRSTUVWXYZabcdefghijklmnopqrstuvwxyz0123456789+/".toList

/-- The character of six bits. -/
def digit (n : Nat) : Char := alphabet.getD n 'A'

/-- The six bits of a character. -/
def value (c : Char) : Option Nat := alphabet.findIdx? (· == c)

theorem value_digit {n : Nat} (h : n < 64) : value (digit n) = some n := by
  have hall : ∀ m : Fin 64, value (digit m) = some m.val := by decide +kernel
  exact hall ⟨n, h⟩

theorem digit_ne_pad {n : Nat} (h : n < 64) : digit n ≠ '=' := by
  have hall : ∀ m : Fin 64, digit m ≠ '=' := by decide +kernel
  exact hall ⟨n, h⟩

def encode : List UInt8 → List Char
  | [] => []
  | [x] => [digit (x.toNat / 4), digit (x.toNat % 4 * 16), '=', '=']
  | [x, y] =>
    [digit (x.toNat / 4), digit (x.toNat % 4 * 16 + y.toNat / 16), digit (y.toNat % 16 * 4), '=']
  | x :: y :: z :: rest =>
    digit (x.toNat / 4) :: digit (x.toNat % 4 * 16 + y.toNat / 16) ::
      digit (y.toNat % 16 * 4 + z.toNat / 64) :: digit (z.toNat % 64) :: encode rest

/-- A last group that stands for one byte. -/
def decodeOne (a b : Char) : Option (List UInt8) := do
  let p ← value a
  let q ← value b
  if q % 16 = 0 then return [UInt8.ofNat (p * 4 + q / 16)] else none

/-- A last group that stands for two bytes. -/
def decodeTwo (a b c : Char) : Option (List UInt8) := do
  let p ← value a
  let q ← value b
  let r ← value c
  if r % 4 = 0 then return [UInt8.ofNat (p * 4 + q / 16), UInt8.ofNat (q % 16 * 16 + r / 4)]
  else none

/-- A group that stands for three bytes. -/
def decodeThree (a b c d : Char) : Option (List UInt8) := do
  let p ← value a
  let q ← value b
  let r ← value c
  let s ← value d
  return [UInt8.ofNat (p * 4 + q / 16), UInt8.ofNat (q % 16 * 16 + r / 4),
    UInt8.ofNat (r % 4 * 64 + s)]

def decode : List Char → Option (List UInt8)
  | [] => some []
  | a :: b :: c :: d :: rest =>
    if d = '=' ∧ rest = [] then if c = '=' then decodeOne a b else decodeTwo a b c
    else do return (← decodeThree a b c d) ++ (← decode rest)
  | _ => none

example : encode [0x4d, 0x61, 0x6e, 0xff] = "TWFu/w==".toList := by decide

theorem ofNat_toNat {x : UInt8} {n : Nat} (h : n = x.toNat) : UInt8.ofNat n = x := by
  subst h
  exact UInt8.ofNat_toNat

theorem decodeOne_encode (x : UInt8) :
    decodeOne (digit (x.toNat / 4)) (digit (x.toNat % 4 * 16)) = some [x] := by
  have hx := x.toNat_lt
  unfold decodeOne
  rw [value_digit (by omega), value_digit (by omega)]
  have hbyte : UInt8.ofNat (x.toNat / 4 * 4 + x.toNat % 4 * 16 / 16) = x := ofNat_toNat (by omega)
  show (if x.toNat % 4 * 16 % 16 = 0 then some [UInt8.ofNat _] else none) = _
  rw [if_pos (by omega), hbyte]

theorem decodeTwo_encode (x y : UInt8) :
    decodeTwo (digit (x.toNat / 4)) (digit (x.toNat % 4 * 16 + y.toNat / 16))
      (digit (y.toNat % 16 * 4)) = some [x, y] := by
  have hx := x.toNat_lt
  have hy := y.toNat_lt
  unfold decodeTwo
  rw [value_digit (by omega), value_digit (by omega), value_digit (by omega)]
  have hfirst : UInt8.ofNat
      (x.toNat / 4 * 4 + (x.toNat % 4 * 16 + y.toNat / 16) / 16) = x := ofNat_toNat (by omega)
  have hsecond : UInt8.ofNat
      ((x.toNat % 4 * 16 + y.toNat / 16) % 16 * 16 + y.toNat % 16 * 4 / 4) = y :=
    ofNat_toNat (by omega)
  show (if y.toNat % 16 * 4 % 4 = 0 then some [UInt8.ofNat _, UInt8.ofNat _] else none) = _
  rw [if_pos (by omega), hfirst, hsecond]

theorem decodeThree_encode (x y z : UInt8) :
    decodeThree (digit (x.toNat / 4)) (digit (x.toNat % 4 * 16 + y.toNat / 16))
      (digit (y.toNat % 16 * 4 + z.toNat / 64)) (digit (z.toNat % 64)) = some [x, y, z] := by
  have hx := x.toNat_lt
  have hy := y.toNat_lt
  have hz := z.toNat_lt
  unfold decodeThree
  rw [value_digit (by omega), value_digit (by omega), value_digit (by omega),
    value_digit (by omega)]
  have hfirst : UInt8.ofNat
      (x.toNat / 4 * 4 + (x.toNat % 4 * 16 + y.toNat / 16) / 16) = x := ofNat_toNat (by omega)
  have hsecond : UInt8.ofNat
      ((x.toNat % 4 * 16 + y.toNat / 16) % 16 * 16 + (y.toNat % 16 * 4 + z.toNat / 64) / 4) = y :=
    ofNat_toNat (by omega)
  have hthird : UInt8.ofNat
      ((y.toNat % 16 * 4 + z.toNat / 64) % 4 * 64 + z.toNat % 64) = z := ofNat_toNat (by omega)
  show some [UInt8.ofNat _, UInt8.ofNat _, UInt8.ofNat _] = _
  rw [hfirst, hsecond, hthird]

theorem decode_encode (bytes : List UInt8) : decode (encode bytes) = some bytes := by
  induction bytes using encode.induct with
  | case1 => rfl
  | case2 x =>
    simp only [encode, decode]
    exact decodeOne_encode x
  | case3 x y =>
    have hpad := digit_ne_pad (n := y.toNat % 16 * 4) (by omega)
    simp only [encode, decode, if_neg hpad, and_self, if_true]
    exact decodeTwo_encode x y
  | case4 x y z rest ih =>
    have hpad := digit_ne_pad (n := z.toNat % 64) (by omega)
    simp only [encode, decode]
    rw [if_neg fun h => hpad h.1, decodeThree_encode, ih]
    rfl

theorem length_encode (bytes : List UInt8) :
    (encode bytes).length = 4 * ((bytes.length + 2) / 3) := by
  induction bytes using encode.induct with
  | case1 => rfl
  | case2 x => simp [encode]
  | case3 x y => simp [encode]
  | case4 x y z rest ih =>
    simp only [encode, List.length_cons, ih]
    omega

/-! ## A decoder that is not strict -/

/-- The last group, when it stands for one byte or two. -/
def lastLoose (a b c : Char) : Option (List UInt8) := do
  let p ← value a
  let q ← value b
  if c = '=' then return [UInt8.ofNat (p * 4 + q / 16)]
  else do
    let r ← value c
    return [UInt8.ofNat (p * 4 + q / 16), UInt8.ofNat (q % 16 * 16 + r / 4)]

def groupsLoose : List Char → Option (List UInt8)
  | [] => some []
  | a :: b :: c :: d :: rest =>
    if d = '=' ∧ rest = [] then lastLoose a b c
    else do return (← decodeThree a b c d) ++ (← groupsLoose rest)
  | _ => none

/-- A decoder that skips line ends and does not look at the bits it does not use. -/
def decodeLoose (s : List Char) : Option (List UInt8) :=
  groupsLoose (s.filter fun c => !(c == '\r' || c == '\n'))

theorem lastLoose_of_decodeOne {a b : Char} {bytes : List UInt8} (h : decodeOne a b = some bytes) :
    lastLoose a b '=' = some bytes := by
  unfold decodeOne at h
  obtain ⟨p, hp, h⟩ := Option.bind_eq_some_iff.mp h
  obtain ⟨q, hq, h⟩ := Option.bind_eq_some_iff.mp h
  split at h
  · simp only [lastLoose, hp, hq, Option.bind_eq_bind, Option.bind_some]
    exact h
  · cases h

theorem lastLoose_of_decodeTwo {a b c : Char} {bytes : List UInt8} (hc : c ≠ '=')
    (h : decodeTwo a b c = some bytes) : lastLoose a b c = some bytes := by
  unfold decodeTwo at h
  obtain ⟨p, hp, h⟩ := Option.bind_eq_some_iff.mp h
  obtain ⟨q, hq, h⟩ := Option.bind_eq_some_iff.mp h
  obtain ⟨r, hr, h⟩ := Option.bind_eq_some_iff.mp h
  split at h
  · simp only [lastLoose, hp, hq, hr, if_neg hc, Option.bind_eq_bind, Option.bind_some]
    exact h
  · cases h

/-- What the strict decoder takes the other one takes for the same bytes. -/
theorem groupsLoose_of_decode {s : List Char} {bytes : List UInt8} (h : decode s = some bytes) :
    groupsLoose s = some bytes := by
  induction s using groupsLoose.induct generalizing bytes with
  | case1 => exact h
  | case2 a b c d rest hlast =>
    rw [decode, if_pos hlast] at h
    rw [groupsLoose, if_pos hlast]
    split at h
    · rename_i hc
      subst hc
      exact lastLoose_of_decodeOne h
    · rename_i hc
      exact lastLoose_of_decodeTwo hc h
  | case3 a b c d rest hlast ih =>
    rw [decode, if_neg hlast] at h
    rw [groupsLoose, if_neg hlast]
    obtain ⟨group, hgroup, h⟩ := Option.bind_eq_some_iff.mp h
    obtain ⟨tail, htail, h⟩ := Option.bind_eq_some_iff.mp h
    rw [hgroup, ih htail]
    exact h
  | case4 s hnil hcons =>
    -- neither empty nor a whole group
    match s with
    | [] => exact absurd rfl hnil
    | [_] | [_, _] | [_, _, _] => cases h
    | a :: b :: c :: d :: rest => exact absurd rfl (hcons a b c d rest)

/-- No character of an encoding is skipped. -/
theorem digit_not_lineEnd {n : Nat} (h : n < 64) :
    (digit n == '\r' || digit n == '\n') = false := by
  have hall : ∀ m : Fin 64, (digit m == '\r' || digit m == '\n') = false := by decide +kernel
  exact hall ⟨n, h⟩

theorem filter_encode (bytes : List UInt8) :
    (encode bytes).filter (fun c => !(c == '\r' || c == '\n')) = encode bytes := by
  apply List.filter_eq_self.mpr
  have hbyte (x : UInt8) : x.toNat < 256 := x.toNat_lt
  have hdigit {n : Nat} (h : n < 64) : (!(digit n == '\r' || digit n == '\n')) = true := by
    rw [digit_not_lineEnd h]
    rfl
  induction bytes using encode.induct with
  | case1 => exact fun c hc => absurd hc List.not_mem_nil
  | case2 x =>
    have hx := hbyte x
    simp only [encode, List.forall_mem_cons]
    exact ⟨hdigit (by omega), hdigit (by omega), rfl, rfl, fun c hc => absurd hc List.not_mem_nil⟩
  | case3 x y =>
    have hx := hbyte x
    have hy := hbyte y
    simp only [encode, List.forall_mem_cons]
    exact ⟨hdigit (by omega), hdigit (by omega), hdigit (by omega), rfl,
      fun c hc => absurd hc List.not_mem_nil⟩
  | case4 x y z rest ih =>
    have hx := hbyte x
    have hy := hbyte y
    have hz := hbyte z
    simp only [encode, List.forall_mem_cons]
    exact ⟨hdigit (by omega), hdigit (by omega), hdigit (by omega), hdigit (by omega), ih⟩

theorem decodeLoose_encode (bytes : List UInt8) : decodeLoose (encode bytes) = some bytes := by
  rw [decodeLoose, filter_encode, groupsLoose_of_decode (decode_encode bytes)]

end SmartSfp.Lib.Base64
