import Mathlib.Tactic.Common

/-!
# Text — byte strings as the `strings`, `strconv` and `bufio` packages of Go read them

A string of Go is a list of bytes that need not be UTF-8.  White space is `unicode.IsSpace`; as no
byte of a longer character looks like the start of a space, it is found byte by byte.
-/

namespace SmartSfp.Lib

/-- A string. -/
abbrev Text := List UInt8

namespace Text

/-- The bytes of a literal. -/
def utf8 (s : String) : Text := s.toUTF8.data.toList

theorem utf8_injective {s t : String} (h : utf8 s = utf8 t) : s = t :=
  String.toByteArray_inj.mp (ByteArray.ext (Array.toList_inj.mp h))

theorem utf8_append (s t : String) : utf8 (s ++ t) = utf8 s ++ utf8 t := by
  show (s ++ t).toByteArray.data.toList = _
  rw [String.toByteArray_append, ByteArray.data_append, Array.toList_append]
  rfl

theorem utf8_ofList (cs : List Char) :
    utf8 (String.ofList cs) = cs.flatMap String.utf8EncodeChar := by
  show (String.ofList cs).toByteArray.data.toList = _
  rw [String.toByteArray_ofList, List.utf8Encode]
  simp

/-- The string of bytes that are UTF-8. -/
def fromUtf8 (bytes : Text) : Option String := String.fromUTF8? ⟨bytes.toArray⟩

theorem fromUtf8_utf8 (s : String) : fromUtf8 (utf8 s) = some s := by
  have hvalid : (⟨(utf8 s).toArray⟩ : ByteArray).IsValidUTF8 := s.isValidUTF8
  show (if h : _ then some (String.fromUTF8 _ h) else none) = some s
  rw [dif_pos hvalid]
  rfl

theorem fromUtf8_eq_some_iff {bytes : Text} {s : String} :
    fromUtf8 bytes = some s ↔ utf8 s = bytes := by
  constructor
  · intro h
    change (if h : _ then some (String.fromUTF8 _ h) else none) = some s at h
    split at h
    · cases h
      rfl
    · cases h
  · rintro rfl
    exact fromUtf8_utf8 s

/-- An initial part of the bytes that is text is an initial part of the characters. -/
theorem toList_prefix_of_utf8 {s t : String} (h : utf8 s <+: utf8 t) : s.toList <+: t.toList := by
  obtain ⟨rest, hrest⟩ := h
  apply List.isPrefix_of_utf8Encode_append_eq_utf8Encode ⟨rest.toArray⟩
  rw [String.utf8Encode_toList, String.utf8Encode_toList]
  apply ByteArray.ext
  apply Array.toList_inj.mp
  rw [ByteArray.data_append, Array.toList_append]
  exact hrest

/-- Only the newline character has a newline byte. -/
theorem newline_of_mem_encodeChar {c : Char} (h : 0x0a ∈ String.utf8EncodeChar c) : c = '\n' := by
  have hhigh : ∀ n, 0x80 ≤ n → n < 0x100 → (0x0a : UInt8) ≠ UInt8.ofNat n := by
    intro n hlow hhigh heq
    have hnat := congrArg UInt8.toNat heq
    rw [UInt8.toNat_ofNat_of_lt' hhigh] at hnat
    have hten : (0x0a : UInt8).toNat = 10 := rfl
    omega
  unfold String.utf8EncodeChar at h
  dsimp only at h
  split at h
  · rename_i hascii
    rw [List.mem_singleton] at h
    have hnat := congrArg UInt8.toNat h
    rw [UInt8.toNat_ofNat_of_lt' (by show c.val.toNat < 256; omega)] at hnat
    exact Char.ext (UInt32.toNat_inj.mp hnat.symm)
  · split at h
    · simp only [List.mem_cons, List.not_mem_nil, or_false] at h
      rcases h with h | h <;> exact absurd h (hhigh _ (by omega) (by omega))
    · split at h
      · simp only [List.mem_cons, List.not_mem_nil, or_false] at h
        rcases h with h | h | h <;> exact absurd h (hhigh _ (by omega) (by omega))
      · simp only [List.mem_cons, List.not_mem_nil, or_false] at h
        rcases h with h | h | h | h <;> exact absurd h (hhigh _ (by omega) (by omega))

theorem newline_not_mem_utf8 {cs : List Char} (h : '\n' ∉ cs) : 0x0a ∉ utf8 (String.ofList cs) := by
  rw [utf8_ofList]
  intro hmem
  obtain ⟨c, hc, hbyte⟩ := List.mem_flatMap.mp hmem
  rw [newline_of_mem_encodeChar hbyte] at hc
  exact h hc

theorem length_le_utf8 (cs : List Char) : cs.length ≤ (utf8 (String.ofList cs)).length := by
  rw [utf8_ofList]
  induction cs with
  | nil => exact Nat.le_refl 0
  | cons c cs ih =>
    have hc : 0 < (String.utf8EncodeChar c).length :=
      List.length_pos_iff.mpr String.utf8EncodeChar_ne_nil
    rw [List.flatMap_cons, List.length_append, List.length_cons]
    omega

/-! ## White space -/

/-- How many bytes the space has that a text starts with; 0 when it starts with none. -/
def spaceWidth : Text → Nat
  | [] => 0
  | b :: rest =>
    if b == 0x20 || 0x09 ≤ b && b ≤ 0x0d then 1
    else match b, rest with
      | 0xc2, c :: _ => if c == 0x85 || c == 0xa0 then 2 else 0
      | 0xe1, 0x9a :: 0x80 :: _ => 3
      | 0xe2, 0x80 :: c :: _ =>
        if 0x80 ≤ c && c ≤ 0x8a || c == 0xa8 || c == 0xa9 || c == 0xaf then 3 else 0
      | 0xe2, 0x81 :: 0x9f :: _ => 3
      | 0xe3, 0x80 :: 0x80 :: _ => 3
      | _, _ => 0

/-- The same for the last character, on the reversed text. -/
def spaceWidthRev : Text → Nat
  | [] => 0
  | b :: rest =>
    if b == 0x20 || 0x09 ≤ b && b ≤ 0x0d then 1
    else match b, rest with
      | 0x80, 0x9a :: 0xe1 :: _ => 3
      | 0x80, 0x80 :: 0xe3 :: _ => 3
      | 0x9f, 0x81 :: 0xe2 :: _ => 3
      | c, 0x80 :: 0xe2 :: _ =>
        if 0x80 ≤ c && c ≤ 0x8a || c == 0xa8 || c == 0xa9 || c == 0xaf then 3 else 0
      | c, 0xc2 :: _ => if c == 0x85 || c == 0xa0 then 2 else 0
      | _, _ => 0

/-- Drops characters of the given width; `skip` bytes of the last one are still to go. -/
def dropSpaces (width : Text → Nat) (skip : Nat) : Text → Text
  | [] => []
  | b :: rest =>
    match skip with
    | n + 1 => dropSpaces width n rest
    | 0 =>
      match width (b :: rest) with
      | 0 => b :: rest
      | n + 1 => dropSpaces width n rest

/-- `strings.TrimSpace`. -/
def trimSpace (s : Text) : Text :=
  (dropSpaces spaceWidthRev 0 (dropSpaces spaceWidth 0 s).reverse).reverse

/-- The field read so far, unless it is empty. -/
def endField (field : Text) : List Text := if field = [] then [] else [field]

/-- `fields` with the field read so far and the bytes of a space that are still to go. -/
def fieldsFrom (field : Text) (skip : Nat) : Text → List Text
  | [] => endField field
  | b :: rest =>
    match skip with
    | n + 1 => fieldsFrom field n rest
    | 0 =>
      match spaceWidth (b :: rest) with
      | 0 => fieldsFrom (field ++ [b]) 0 rest
      | n + 1 => endField field ++ fieldsFrom [] n rest

/-- `strings.Fields`. -/
def fields (s : Text) : List Text := fieldsFrom [] 0 s

/-! ## Searching -/

/-- `strings.HasPrefix`. -/
def hasPrefix (s before : Text) : Bool := before.isPrefixOf s

/-- `strings.TrimSuffix`. -/
def trimSuffix (s after : Text) : Text :=
  if after.isSuffixOf s then s.take (s.length - after.length) else s

/-- `strings.IndexByte`; `none` for -1. -/
def indexByte (s : Text) (c : UInt8) : Option Nat := s.findIdx? (· == c)

/-- `strings.LastIndexByte`. -/
def lastIndexByte (s : Text) (c : UInt8) : Option Nat :=
  (indexByte s.reverse c).map fun i => s.length - 1 - i

/-! ## Numbers -/

/-- `strconv.ErrSyntax` and `strconv.ErrRange`. -/
inductive NumError where
  | syntaxError
  | rangeError
  deriving DecidableEq

/-- The loop of `ParseUint`, with the value of the digits before. -/
def parseDigits (n : Nat) : Text → UInt64 × Option NumError
  | [] => (UInt64.ofNat n, none)
  | b :: rest =>
    if 0x30 ≤ b ∧ b ≤ 0x39 then
      let n' := n * 10 + (b.toNat - 0x30)
      if n' < UInt64.size then parseDigits n' rest else (0xffffffffffffffff, some .rangeError)
    else (0, some .syntaxError)

/-- `strconv.ParseUint(s, 10, 64)`. -/
def parseUint (s : Text) : UInt64 × Option NumError :=
  if s = [] then (0, some .syntaxError) else parseDigits 0 s

/-- The sign of a number and what follows it. -/
def cutSign : Text → Bool × Text
  | 0x2d :: rest => (true, rest)
  | 0x2b :: rest => (false, rest)
  | s => (false, s)

/-- `strconv.ParseInt(s, 10, 64)`. -/
def parseInt (s : Text) : Int × Option NumError :=
  let (neg, digits) := cutSign s
  match parseUint digits with
  | (_, some .syntaxError) => (0, some .syntaxError)
  | (un, _) =>
    if ¬neg ∧ 0x8000000000000000 ≤ un then (0x7fffffffffffffff, some .rangeError)
    else if neg ∧ 0x8000000000000000 < un then (-0x8000000000000000, some .rangeError)
    else (if neg then -un.toNat else un.toNat, none)

/-- `strconv.Atoi`. -/
def atoi (s : Text) : Int × Option NumError := parseInt s

/-- `strconv.Itoa`. -/
def itoa (n : Int) : Text := utf8 (toString n)

/-! ## Lines -/

/-- `bufio.MaxScanTokenSize`. -/
def maxScanTokenSize : Nat := 65536

/-- `bufio.dropCR`. -/
def dropCR (line : Text) : Text := if line.getLast? = some 0x0d then line.dropLast else line

/-- `scanLines` with the part of the line read so far. -/
def scanFrom (line : Text) : Text → List Text
  | [] => if line = [] ∨ maxScanTokenSize ≤ line.length then [] else [dropCR line]
  | b :: rest =>
    if b = 0x0a then
      -- a line that does not fit the buffer ends the scan
      if maxScanTokenSize ≤ line.length then [] else dropCR line :: scanFrom [] rest
    else scanFrom (line ++ [b]) rest

/-- The lines a `bufio.Scanner` returns. -/
def scanLines (s : Text) : List Text := scanFrom [] s

example : fields (utf8 " cpu0  12\t3\n") = [utf8 "cpu0", utf8 "12", utf8 "3"] := by decide
example : scanLines (utf8 "a\r\n\nb") = [utf8 "a", [], utf8 "b"] := by decide

end Text

end SmartSfp.Lib
