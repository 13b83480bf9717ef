import SmartSfp.Lib.Json.Value

/-!
# Prefix — a cut text is no text

What the reader takes from the front of a text it takes from every longer text too, unless it is a
number that goes on.  An object ends with its brace, so no proper initial part of its text, white
space around it or not, reads as a value.
-/

namespace SmartSfp.Lib

namespace Json

variable {cs rest q : List Char}

/-! ## Tokens -/

theorem skipSpaces_append {c : Char} (h : skipSpaces cs = c :: rest) (q : List Char) :
    skipSpaces (cs ++ q) = c :: (rest ++ q) := by
  unfold skipSpaces at *
  rw [List.dropWhile_append, h]
  rfl

theorem consChar_eq_some_iff {x : Option Char} {r : Option (List Char × List Char)}
    {s : List Char} :
    consChar x r = some (s, rest) ↔ ∃ c s', x = some c ∧ r = some (s', rest) ∧ s = c :: s' := by
  cases x with
  | none => simp [consChar]
  | some c =>
    cases r with
    | none => simp [consChar]
    | some p =>
      obtain ⟨s', rest'⟩ := p
      simp [consChar, eq_comm, and_comm]

theorem readString_append {s : List Char} (h : readString cs = some (s, rest)) (q : List Char) :
    readString (cs ++ q) = some (s, rest ++ q) := by
  fun_induction readString cs generalizing s
  -- only the branches that read on, or read the closing quote, can return
  all_goals try (cases h; done)
  all_goals try (obtain ⟨c, s', hc, hr, rfl⟩ := consChar_eq_some_iff.mp h)
  case case2 tail =>
    cases h
    exact readString_end _
  case case4 e tail he hquote ih =>
    rw [List.cons_append, List.cons_append, readString_short he hc, ih hr]
    rfl
  case case6 e he p1 q1 r1 s1 tail high hhex hplane hquote ih =>
    simp only [List.cons_append]
    rw [readString.eq_def]
    dsimp only
    rw [if_neg (by decide), if_pos rfl, if_neg he, hhex]
    dsimp only
    rw [if_pos hplane, hc, ih hr]
    rfl
  case case8 e he p1 q1 r1 s1 high hhex hplane x y p2 q2 r2 s2 tail hxy low hhex' hquote ih =>
    simp only [List.cons_append]
    rw [readString.eq_def]
    dsimp only
    rw [if_neg (by decide), if_pos rfl, if_neg he, hhex]
    dsimp only
    rw [if_neg hplane]
    rw [if_pos hxy, hhex']
    dsimp only
    rw [hc, ih hr]
    rfl
  case case13 c tail hquote hbackslash hcontrol ih =>
    rw [List.cons_append, readString_plain hquote hbackslash hcontrol, ih hr, hc]
    rfl

theorem readNumber_append {x : Number} (h : readNumber cs = some (x, rest)) (hrest : rest ≠ [])
    (q : List Char) : readNumber (cs ++ q) = some (x, rest ++ q) := by
  unfold readNumber at h
  dsimp only at h
  split at h
  · rename_i hnumber
    cases h
    have hstop : (cs.dropWhile isNumberChar).isEmpty = false := by simpa using hrest
    have htake : (cs.takeWhile isNumberChar).length ≠ cs.length := by
      intro hlen
      have happend := congrArg List.length (List.takeWhile_append_dropWhile (p := isNumberChar)
        (l := cs))
      rw [List.length_append, hlen] at happend
      exact hrest (List.length_eq_zero_iff.mp (by omega))
    have hlexeme : (cs ++ q).takeWhile isNumberChar = cs.takeWhile isNumberChar := by
      rw [List.takeWhile_append, if_neg htake]
    have hafter : (cs ++ q).dropWhile isNumberChar = cs.dropWhile isNumberChar ++ q := by
      rw [List.dropWhile_append, hstop]
      rfl
    unfold readNumber
    simp only [hlexeme, hafter]
    rw [dif_pos hnumber]
  · cases h

theorem readWord_onto {word : List Char} {v w : Json} (h : readWord word v cs = some (w, rest))
    (q : List Char) : readWord word v (cs ++ q) = some (w, rest ++ q) := by
  unfold readWord at h
  split at h
  · rename_i hword
    obtain ⟨tail, rfl⟩ := List.isPrefixOf_iff_prefix.mp hword
    rw [List.drop_left] at h
    cases h
    rw [List.append_assoc]
    exact readWord_append word _ _
  · cases h

/-! ## Values -/

/-- What is read with some fuel is read with more of it and with more text behind; of a number only
if something stands behind it already. -/
structure ReadsOn (fuel : Nat) : Prop where
  value : ∀ {cs v rest}, readValue fuel cs = some (v, rest) →
    rest ≠ [] ∨ (∃ tail, cs = '{' :: tail) → ∀ fuel' q, fuel ≤ fuel' →
      readValue fuel' (cs ++ q) = some (v, rest ++ q)
  items : ∀ {cs vs rest}, readItems fuel cs = some (vs, rest) → ∀ fuel' q, fuel ≤ fuel' →
    readItems fuel' (cs ++ q) = some (vs, rest ++ q)
  members : ∀ {cs ms rest}, readMembers fuel cs = some (ms, rest) → ∀ fuel' q, fuel ≤ fuel' →
    readMembers fuel' (cs ++ q) = some (ms, rest ++ q)

theorem ReadsOn.succ_items {fuel : Nat} (h : ReadsOn fuel) {vs : List Json}
    (hread : readItems (fuel + 1) cs = some (vs, rest)) (fuel' : Nat) (q : List Char)
    (hle : fuel + 1 ≤ fuel') : readItems fuel' (cs ++ q) = some (vs, rest ++ q) := by
  obtain ⟨fuel', rfl⟩ := Nat.exists_eq_add_of_lt hle
  rw [readItems] at hread
  obtain ⟨⟨v, tail⟩, hv, hread⟩ := Option.bind_eq_some_iff.mp hread
  dsimp only at hread
  cases hskip : skipSpaces tail with
  | nil =>
    rw [hskip] at hread
    cases hread
  | cons c behind =>
    have hne : tail ≠ [] := by
      rintro rfl
      cases hskip
    rw [hskip] at hread
    dsimp only at hread
    rw [readItems, h.value hv (.inl hne) _ q (Nat.le_add_right _ _)]
    simp only [Option.bind_eq_bind, Option.bind_some, skipSpaces_append hskip]
    split at hread
    · rename_i hclose
      cases hread
      rw [if_pos hclose]
    · rename_i hclose
      split at hread
      · rename_i hcomma
        obtain ⟨⟨ws, behind'⟩, hws, hread⟩ := Option.bind_eq_some_iff.mp hread
        cases hread
        rw [if_neg hclose, if_pos hcomma, h.items hws _ q (Nat.le_add_right _ _)]
        rfl
      · cases hread

theorem ReadsOn.succ_members {fuel : Nat} (h : ReadsOn fuel) {ms : List (List Char × Json)}
    (hread : readMembers (fuel + 1) cs = some (ms, rest)) (fuel' : Nat) (q : List Char)
    (hle : fuel + 1 ≤ fuel') : readMembers fuel' (cs ++ q) = some (ms, rest ++ q) := by
  obtain ⟨fuel', rfl⟩ := Nat.exists_eq_add_of_lt hle
  rw [readMembers] at hread
  cases hskip : skipSpaces cs with
  | nil =>
    rw [hskip] at hread
    cases hread
  | cons c tail =>
    rw [hskip] at hread
    rw [readMembers, skipSpaces_append hskip]
    dsimp only at hread ⊢
    split at hread
    · cases hread
    · rename_i hquote
      obtain ⟨⟨k, tail⟩, hk, hread⟩ := Option.bind_eq_some_iff.mp hread
      dsimp only at hread
      rw [if_neg hquote, readString_append hk]
      simp only [Option.bind_eq_bind, Option.bind_some]
      cases hskip' : skipSpaces tail with
      | nil =>
        rw [hskip'] at hread
        cases hread
      | cons d tail =>
        rw [hskip'] at hread
        rw [skipSpaces_append hskip']
        dsimp only at hread ⊢
        split at hread
        · cases hread
        · rename_i hcolon
          obtain ⟨⟨v, tail⟩, hv, hread⟩ := Option.bind_eq_some_iff.mp hread
          dsimp only at hread
          cases hskip'' : skipSpaces tail with
          | nil =>
            rw [hskip''] at hread
            cases hread
          | cons c behind =>
            have hne : tail ≠ [] := by
              rintro rfl
              cases hskip''
            rw [hskip''] at hread
            dsimp only at hread
            rw [if_neg hcolon, h.value hv (.inl hne) _ q (Nat.le_add_right _ _)]
            simp only [Option.bind_some, skipSpaces_append hskip'']
            split at hread
            · rename_i hclose
              cases hread
              rw [if_pos hclose]
            · rename_i hclose
              split at hread
              · rename_i hcomma
                obtain ⟨⟨ns, behind'⟩, hns, hread⟩ := Option.bind_eq_some_iff.mp hread
                cases hread
                rw [if_neg hclose, if_pos hcomma, h.members hns _ q (Nat.le_add_right _ _)]
                rfl
              · cases hread

theorem ReadsOn.succ_value {fuel : Nat} (h : ReadsOn fuel) {v : Json}
    (hread : readValue (fuel + 1) cs = some (v, rest))
    (hends : rest ≠ [] ∨ ∃ tail, cs = '{' :: tail) (fuel' : Nat) (q : List Char)
    (hle : fuel + 1 ≤ fuel') : readValue fuel' (cs ++ q) = some (v, rest ++ q) := by
  obtain ⟨fuel', rfl⟩ := Nat.exists_eq_add_of_lt hle
  rw [readValue] at hread
  cases hskip : skipSpaces cs with
  | nil =>
    rw [hskip] at hread
    cases hread
  | cons c tail =>
    rw [hskip] at hread
    rw [readValue, skipSpaces_append hskip]
    dsimp only at hread ⊢
    by_cases hstring : c = '"'
    · rw [if_pos hstring] at hread ⊢
      obtain ⟨⟨s, behind⟩, hs, hread⟩ := Option.bind_eq_some_iff.mp hread
      cases hread
      rw [readString_append hs]
      rfl
    by_cases harray : c = '['
    · rw [if_neg hstring, if_pos harray] at hread ⊢
      cases hskip' : skipSpaces tail with
      | nil =>
        rw [hskip'] at hread
        cases hread
      | cons d tail =>
        rw [hskip'] at hread
        rw [skipSpaces_append hskip']
        dsimp only at hread ⊢
        split at hread
        · rename_i hclose
          cases hread
          rw [if_pos hclose]
        · rename_i hclose
          obtain ⟨⟨vs, behind⟩, hvs, hread⟩ := Option.bind_eq_some_iff.mp hread
          cases hread
          rw [if_neg hclose, ← List.cons_append, h.items hvs _ q (Nat.le_add_right _ _)]
          rfl
    by_cases hobject : c = '{'
    · rw [if_neg hstring, if_neg harray, if_pos hobject] at hread ⊢
      cases hskip' : skipSpaces tail with
      | nil =>
        rw [hskip'] at hread
        cases hread
      | cons d tail =>
        rw [hskip'] at hread
        rw [skipSpaces_append hskip']
        dsimp only at hread ⊢
        split at hread
        · rename_i hclose
          cases hread
          rw [if_pos hclose]
        · rename_i hclose
          obtain ⟨⟨ms, behind⟩, hms, hread⟩ := Option.bind_eq_some_iff.mp hread
          cases hread
          rw [if_neg hclose, ← List.cons_append, h.members hms _ q (Nat.le_add_right _ _)]
          rfl
    rw [if_neg hstring, if_neg harray, if_neg hobject] at hread ⊢
    by_cases hnull : c = 'n'
    · rw [if_pos hnull] at hread ⊢
      exact readWord_onto hread q
    by_cases htrue : c = 't'
    · rw [if_neg hnull, if_pos htrue] at hread ⊢
      exact readWord_onto hread q
    by_cases hfalse : c = 'f'
    · rw [if_neg hnull, if_neg htrue, if_pos hfalse] at hread ⊢
      exact readWord_onto hread q
    -- a number: an object does not start like one, so something stands behind it
    rw [if_neg hnull, if_neg htrue, if_neg hfalse] at hread ⊢
    obtain ⟨⟨x, behind⟩, hx, hread⟩ := Option.bind_eq_some_iff.mp hread
    cases hread
    have hne : behind ≠ [] := by
      rcases hends with hne | ⟨tail', rfl⟩
      · exact hne
      · rw [skipSpaces_cons (by decide)] at hskip
        cases hskip
        exact absurd rfl hobject
    rw [← List.cons_append, readNumber_append hx hne]
    rfl

theorem readsOn (fuel : Nat) : ReadsOn fuel := by
  induction fuel with
  | zero =>
    constructor
    · intro cs v rest h
      rw [readValue] at h
      cases h
    · intro cs vs rest h
      rw [readItems] at h
      cases h
    · intro cs ms rest h
      rw [readMembers] at h
      cases h
  | succ fuel ih => exact ⟨ih.succ_value, ih.succ_items, ih.succ_members⟩

/-- No proper initial part of the text of an object reads as a value. -/
theorem eq_text_of_read {p : List Char} {ms : List (List Char × Json)} {v : Json}
    (hp : p <+: text (.obj ms)) (h : read p = some v) : p = text (.obj ms) := by
  obtain ⟨q, hq⟩ := hp
  obtain ⟨middle, hmiddle⟩ := text_obj_eq ms
  unfold read at h
  obtain ⟨⟨w, behind⟩, hw, h⟩ := Option.bind_eq_some_iff.mp h
  have hbrace : ∃ tail, p = '{' :: tail := by
    cases p with
    | nil => simp [readValue, skipSpaces] at hw
    | cons c tail =>
      rw [← hq, List.cons_append] at hmiddle
      exact ⟨tail, by rw [(List.cons.inj hmiddle).1]⟩
  -- with the rest of the text behind it, the same value is read, and that rest is left over
  have hlonger := (readsOn _).value hw (.inr hbrace) (2 * (text (.obj ms)).length + 1) q (by
    rw [← hq, List.length_append]
    omega)
  have hwhole := (reads (2 * (text (.obj ms)).length + 1)).value (.obj ms) [] (by omega)
    noNumberChar_nil
  rw [hq] at hlonger
  rw [List.append_nil, hlonger] at hwhole
  have hleft : behind ++ q = [] := congrArg Prod.snd (Option.some.inj hwhole)
  rw [← hq, (List.append_eq_nil_iff.mp hleft).2, List.append_nil]

end Json

end SmartSfp.Lib
