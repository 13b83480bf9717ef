import Mathlib.Data.List.TakeWhile
import Mathlib.Tactic.Common

/-!
# Token — the numbers and strings of JSON

A number is kept as it is written, in a structure that says it is one.  A string is its characters;
the text of a string escapes what has to be escaped, the reader takes every escape there is.
-/

namespace SmartSfp.Lib

/-! ## Numbers -/

namespace Json

def isNumberChar (c : Char) : Bool :=
  c.isDigit || c = '-' || c = '+' || c = '.' || c = 'e' || c = 'E'

/-- What follows the integer part of a number, its sign left out. -/
def afterInt : List Char → Option (List Char)
  | [] => none
  | c :: rest =>
    if c = '0' then some rest
    else if c.isDigit then some (rest.dropWhile Char.isDigit)
    else none

/-- What follows one or more digits. -/
def afterDigits : List Char → Option (List Char)
  | [] => none
  | c :: rest => if c.isDigit then some (rest.dropWhile Char.isDigit) else none

def afterFrac : List Char → Option (List Char)
  | '.' :: rest => afterDigits rest
  | cs => some cs

def dropSign : List Char → List Char
  | '+' :: rest => rest
  | '-' :: rest => rest
  | cs => cs

def afterExp : List Char → Option (List Char)
  | 'e' :: rest => afterDigits (dropSign rest)
  | 'E' :: rest => afterDigits (dropSign rest)
  | cs => some cs

def dropMinus : List Char → List Char
  | '-' :: rest => rest
  | cs => cs

/-- The number grammar. -/
def isNumber (cs : List Char) : Bool :=
  cs.all isNumberChar && (((afterInt (dropMinus cs)).bind afterFrac).bind afterExp == some [])

/-- A number as it is written. -/
structure Number where
  lexeme : List Char
  isNumber_lexeme : isNumber lexeme = true
  deriving DecidableEq

namespace Number

theorem all_numberChar (x : Number) : ∀ c ∈ x.lexeme, isNumberChar c = true := by
  have h := x.isNumber_lexeme
  unfold isNumber at h
  exact List.all_eq_true.mp (Bool.and_eq_true_iff.mp h).1

theorem lexeme_ne_nil (x : Number) : x.lexeme ≠ [] := by
  intro hnil
  have h := x.isNumber_lexeme
  rw [hnil] at h
  exact absurd h (by decide)

/-- The digits of a natural number start with no zero, unless there is only that. -/
theorem toDigits_eq_cons {n : Nat} (hn : 0 < n) :
    ∃ c rest, Nat.toDigits 10 n = c :: rest ∧ c ≠ '0' := by
  induction n using Nat.strongRecOn with
  | ind n ih =>
    rw [Nat.toDigits_eq_if (by omega)]
    split
    · rename_i hsmall
      have hall : ∀ m : Fin 10, 0 < m.val → m.val.digitChar ≠ '0' := by decide
      exact ⟨n.digitChar, [], rfl, hall ⟨n, hsmall⟩ hn⟩
    · obtain ⟨c, rest, heq, hc⟩ := ih (n / 10) (by omega) (by omega)
      exact ⟨c, rest ++ [(n % 10).digitChar], by rw [heq, List.cons_append], hc⟩

theorem isDigit_toDigits {n : Nat} : ∀ c ∈ Nat.toDigits 10 n, c.isDigit = true :=
  fun _ hc => Nat.isDigit_of_mem_toDigits (by omega) (by omega) hc

theorem isNumber_toDigits (n : Nat) : isNumber (Nat.toDigits 10 n) = true := by
  have hall : (Nat.toDigits 10 n).all isNumberChar = true := by
    rw [List.all_eq_true]
    intro c hc
    simp [isNumberChar, isDigit_toDigits c hc]
  have hgrammar : ((afterInt (dropMinus (Nat.toDigits 10 n))).bind afterFrac).bind afterExp =
      some [] := by
    rcases Nat.eq_zero_or_pos n with rfl | hn
    · decide
    · obtain ⟨c, rest, heq, hc⟩ := toDigits_eq_cons hn
      have hdigit := isDigit_toDigits (n := n)
      rw [heq] at hdigit ⊢
      have hminus : dropMinus (c :: rest) = c :: rest := by
        unfold dropMinus
        split
        · rename_i h
          cases h
          exact absurd (hdigit '-' List.mem_cons_self) (by decide)
        · rfl
      have hrest : rest.dropWhile Char.isDigit = [] := by
        rw [List.dropWhile_eq_nil_iff]
        exact fun d hd => hdigit d (List.mem_cons_of_mem c hd)
      rw [hminus, afterInt, if_neg hc, if_pos (hdigit c List.mem_cons_self), hrest]
      rfl
  rw [isNumber, hall, hgrammar]
  rfl

def ofNat (n : Nat) : Number := ⟨Nat.toDigits 10 n, isNumber_toDigits n⟩

/-- The value of a number that is written as digits only. -/
def toNat? (x : Number) : Option Nat :=
  if x.lexeme.all Char.isDigit then some (Nat.ofDigitChars 10 x.lexeme 0) else none

theorem toNat?_ofNat (n : Nat) : (ofNat n).toNat? = some n := by
  have hall : (Nat.toDigits 10 n).all Char.isDigit = true :=
    List.all_eq_true.mpr fun c hc => isDigit_toDigits c hc
  unfold toNat? ofNat
  rw [if_pos hall, Nat.ofDigitChars_ten_toDigits]

end Number

/-- Nothing that could go on a number. -/
def NoNumberChar (rest : List Char) : Prop := ∀ c tail, rest = c :: tail → isNumberChar c = false

theorem noNumberChar_cons {c : Char} {tail : List Char} (h : isNumberChar c = false) :
    NoNumberChar (c :: tail) := by
  intro d t heq
  cases heq
  exact h

theorem noNumberChar_nil : NoNumberChar [] := by
  intro c tail heq
  cases heq

/-- A number and what follows it. -/
def readNumber (cs : List Char) : Option (Number × List Char) :=
  let lexeme := cs.takeWhile isNumberChar
  if h : isNumber lexeme = true then some (⟨lexeme, h⟩, cs.dropWhile isNumberChar) else none

theorem readNumber_lexeme (x : Number) {rest : List Char} (hrest : NoNumberChar rest) :
    readNumber (x.lexeme ++ rest) = some (x, rest) := by
  have hstop : rest.takeWhile isNumberChar = [] ∧ rest.dropWhile isNumberChar = rest := by
    cases rest with
    | nil => exact ⟨rfl, rfl⟩
    | cons c tail =>
      have hc := hrest c tail rfl
      exact ⟨List.takeWhile_cons_of_neg (by simp [hc]), List.dropWhile_cons_of_neg (by simp [hc])⟩
  have htake : (x.lexeme ++ rest).takeWhile isNumberChar = x.lexeme := by
    rw [List.takeWhile_append_of_pos x.all_numberChar, hstop.1, List.append_nil]
  have hdrop : (x.lexeme ++ rest).dropWhile isNumberChar = rest := by
    rw [List.dropWhile_append_of_pos x.all_numberChar, hstop.2]
  unfold readNumber
  simp only [htake, hdrop]
  rw [dif_pos x.isNumber_lexeme]

/-! ## Strings -/

def hexDigit (n : Nat) : Char := "0123456789abcdef".toList.getD n '0'

def hexValue (c : Char) : Option Nat :=
  if c.isDigit then some (c.toNat - 48)
  else if 'a' ≤ c ∧ c ≤ 'f' then some (c.toNat - 87)
  else if 'A' ≤ c ∧ c ≤ 'F' then some (c.toNat - 55)
  else none

def hex4 (a b c d : Char) : Option Nat := do
  return ((← hexValue a) * 16 + (← hexValue b)) * 256 + ((← hexValue c) * 16 + (← hexValue d))

/-- The character of a code point. -/
def charOf (n : Nat) : Option Char :=
  if h : n.isValidChar then some (Char.ofNatAux n h) else none

/-- A character inside a string. -/
def escape (c : Char) : List Char :=
  if c = '"' then ['\\', '"']
  else if c = '\\' then ['\\', '\\']
  else if c = '\x08' then ['\\', 'b']
  else if c = '\t' then ['\\', 't']
  else if c = '\n' then ['\\', 'n']
  else if c = '\x0c' then ['\\', 'f']
  else if c = '\r' then ['\\', 'r']
  else if c.toNat < 0x20 then
    ['\\', 'u', '0', '0', hexDigit (c.toNat / 16), hexDigit (c.toNat % 16)]
  else [c]

def quote (s : List Char) : List Char := '"' :: (s.flatMap escape ++ ['"'])

def unescape (c : Char) : Option Char :=
  if c = '"' ∨ c = '\\' ∨ c = '/' then some c
  else if c = 'b' then some '\x08'
  else if c = 't' then some '\t'
  else if c = 'n' then some '\n'
  else if c = 'f' then some '\x0c'
  else if c = 'r' then some '\r'
  else none

/-- The two halves of a character beyond the first plane. -/
def charOfPair (high low : Nat) : Option Char :=
  if 0xdc00 ≤ low ∧ low < 0xe000 then charOf (0x10000 + (high - 0xd800) * 0x400 + (low - 0xdc00))
  else none

/-- Puts a character in front of a string that was read. -/
def consChar (x : Option Char) (r : Option (List Char × List Char)) :
    Option (List Char × List Char) := do
  let c ← x
  let (s, rest) ← r
  return (c :: s, rest)

/-- A string after its opening quote, and what follows it. -/
def readString : List Char → Option (List Char × List Char)
  | [] => none
  | c :: rest =>
    if c = '"' then some ([], rest)
    else if c = '\\' then
      match rest with
      | [] => none
      | e :: rest =>
        if e ≠ 'u' then consChar (unescape e) (readString rest)
        else
          match rest with
          | p :: q :: r :: s :: rest =>
            match hex4 p q r s with
            | none => none
            | some high =>
              if ¬(0xd800 ≤ high ∧ high < 0xdc00) then consChar (charOf high) (readString rest)
              else
                -- half of a pair, of no use without the other
                match rest with
                | x :: y :: p :: q :: r :: s :: rest =>
                  if x = '\\' ∧ y = 'u' then
                    match hex4 p q r s with
                    | none => none
                    | some low => consChar (charOfPair high low) (readString rest)
                  else none
                | _ => none
          | _ => none
    else if c.toNat < 0x20 then none
    else consChar (some c) (readString rest)

theorem charOf_toNat (c : Char) : charOf c.toNat = some c := by
  have hvalid : c.toNat.isValidChar := c.valid
  unfold charOf
  rw [dif_pos hvalid]
  rfl

theorem hex4_control {n : Nat} (h : n < 0x20) :
    hex4 '0' '0' (hexDigit (n / 16)) (hexDigit (n % 16)) = some n := by
  have hall : ∀ m : Fin 32, hex4 '0' '0' (hexDigit (m / 16)) (hexDigit (m % 16)) = some m.val := by
    decide
  exact hall ⟨n, h⟩

theorem readString_end (rest : List Char) : readString ('"' :: rest) = some ([], rest) := by
  rw [readString.eq_def]
  rfl

theorem readString_short {e x : Char} (he : e ≠ 'u') (hx : unescape e = some x) (rest : List Char) :
    readString ('\\' :: e :: rest) = consChar (some x) (readString rest) := by
  rw [readString.eq_def]
  dsimp only
  rw [if_neg (by decide), if_pos rfl, if_pos he, hx]

theorem readString_control {c : Char} (hc : c.toNat < 0x20) (rest : List Char) :
    readString ('\\' :: 'u' :: '0' :: '0' :: hexDigit (c.toNat / 16) :: hexDigit (c.toNat % 16) ::
      rest) = consChar (some c) (readString rest) := by
  rw [readString.eq_def]
  dsimp only
  rw [if_neg (by decide), if_pos rfl, if_neg (by decide), hex4_control hc]
  dsimp only
  rw [if_pos (by omega), charOf_toNat]

theorem readString_plain {c : Char} (hquote : c ≠ '"') (hbackslash : c ≠ '\\')
    (hc : ¬c.toNat < 0x20) (rest : List Char) :
    readString (c :: rest) = consChar (some c) (readString rest) := by
  rw [readString.eq_def]
  dsimp only
  rw [if_neg hquote, if_neg hbackslash, if_neg hc]

/-- How a character is written: as a letter behind a backslash, by its code, or as it is. -/
inductive Escaped (c : Char) : List Char → Prop
  | short (e : Char) (he : e ≠ 'u') (hnewline : e ≠ '\n') (hx : unescape e = some c) :
    Escaped c ['\\', e]
  | control (hc : c.toNat < 0x20) : Escaped c
    ['\\', 'u', '0', '0', hexDigit (c.toNat / 16), hexDigit (c.toNat % 16)]
  | plain (hquote : c ≠ '"') (hbackslash : c ≠ '\\') (hc : ¬c.toNat < 0x20) : Escaped c [c]

theorem escaped_escape (c : Char) : Escaped c (escape c) := by
  -- one goal for each branch of `escape`, in its order
  fun_cases escape c <;> subst_vars
  · exact .short '"' (by decide) (by decide) (by decide)
  · exact .short '\\' (by decide) (by decide) (by decide)
  · exact .short 'b' (by decide) (by decide) (by decide)
  · exact .short 't' (by decide) (by decide) (by decide)
  · exact .short 'n' (by decide) (by decide) (by decide)
  · exact .short 'f' (by decide) (by decide) (by decide)
  · exact .short 'r' (by decide) (by decide) (by decide)
  · rename_i hcontrol
    exact .control hcontrol
  · rename_i hquote hbackslash _ _ _ _ _ hcontrol
    exact .plain hquote hbackslash hcontrol

theorem Escaped.readString {c : Char} {cs : List Char} (h : Escaped c cs) (rest : List Char) :
    readString (cs ++ rest) = consChar (some c) (readString rest) := by
  cases h with
  | short e he _ hx => exact readString_short he hx rest
  | control hc => exact readString_control hc rest
  | plain hquote hbackslash hc => exact readString_plain hquote hbackslash hc rest

theorem readString_quote (s rest : List Char) :
    readString (s.flatMap escape ++ '"' :: rest) = some (s, rest) := by
  induction s with
  | nil => exact readString_end rest
  | cons c s ih =>
    rw [List.flatMap_cons, List.append_assoc, (escaped_escape c).readString, ih]
    rfl

/-! ## Texts are one line -/

theorem hexDigit_ne_newline : ∀ n : Fin 16, hexDigit n ≠ '\n' := by decide

theorem Escaped.newline_not_mem {c : Char} {cs : List Char} (h : Escaped c cs) : '\n' ∉ cs := by
  cases h with
  | short e he hnewline hx => simp [hnewline.symm]
  | control hc =>
    have hhigh := hexDigit_ne_newline ⟨c.toNat / 16, by omega⟩
    have hlow := hexDigit_ne_newline ⟨c.toNat % 16, by omega⟩
    simp [hhigh.symm, hlow.symm]
  | plain hquote hbackslash hc =>
    intro h
    rw [← List.mem_singleton.mp h] at hc
    exact hc (by decide)

theorem newline_not_mem_quote (s : List Char) : '\n' ∉ quote s := by
  intro h
  rcases List.mem_cons.mp h with h | h
  · exact absurd h (by decide)
  · rcases List.mem_append.mp h with h | h
    · obtain ⟨c, -, hc⟩ := List.mem_flatMap.mp h
      exact (escaped_escape c).newline_not_mem hc
    · exact absurd h (by decide)

theorem newline_not_mem_lexeme (x : Number) : '\n' ∉ x.lexeme :=
  fun h => absurd (x.all_numberChar _ h) (by decide)

theorem Escaped.length_pos {c : Char} {cs : List Char} (h : Escaped c cs) : 0 < cs.length := by
  cases h <;> exact Nat.succ_pos _

theorem length_le_quote (s : List Char) : s.length ≤ (quote s).length := by
  have hall : s.length ≤ (s.flatMap escape).length := by
    induction s with
    | nil => exact Nat.le_refl 0
    | cons c s ih =>
      have hc := (escaped_escape c).length_pos
      rw [List.flatMap_cons, List.length_append, List.length_cons]
      omega
  rw [quote, List.length_cons, List.length_append]
  omega

end Json

end SmartSfp.Lib
