import Mathlib.Data.List.Basic
import SmartSfp.Lib.Text

/-!
# Layout — texts laid out in fields and lines

`strings.Fields` takes apart what is put together from fields with white space between them, in
whatever amounts, and a `bufio.Scanner` what is put together from lines that fit its buffer.
-/

namespace SmartSfp.Lib.Text

/-- A character that is white space. -/
inductive Space : Text → Prop where
  | ascii {b : UInt8} (h : b == 0x20 || 0x09 ≤ b && b ≤ 0x0d) : Space [b]
  | latin {c : UInt8} (h : c == 0x85 || c == 0xa0) : Space [0xc2, c]
  | ogham : Space [0xe1, 0x9a, 0x80]
  | general {c : UInt8} (h : 0x80 ≤ c && c ≤ 0x8a || c == 0xa8 || c == 0xa9 || c == 0xaf) :
      Space [0xe2, 0x80, c]
  | mathematical : Space [0xe2, 0x81, 0x9f]
  | ideographic : Space [0xe3, 0x80, 0x80]

/-- White space. -/
inductive Blank : Text → Prop where
  | nil : Blank []
  | cons {c s : Text} (hc : Space c) (hs : Blank s) : Blank (c ++ s)

/-- A text without white space. -/
def Solid (w : Text) : Prop := ∀ c, Space c → ¬c <:+: w

/-- Fields with white space between them, and perhaps around them. -/
inductive Laid : List Text → Text → Prop where
  | blank {g : Text} (hg : Blank g) : Laid [] g
  | last {g w : Text} (hg : Blank g) (hw : Solid w) (hne : w ≠ []) : Laid [w] (g ++ w)
  | cons {g w sep rest : Text} {ws : List Text} (hg : Blank g) (hw : Solid w) (hne : w ≠ [])
      (hsep : Blank sep) (hsome : sep ≠ []) (hrest : Laid ws rest) :
      Laid (w :: ws) (g ++ (w ++ (sep ++ rest)))

variable {c f g s t w : Text}

/-! ## One character -/

theorem Space.length_pos (h : Space c) : 0 < c.length := by
  cases h <;> exact Nat.succ_pos _

/-- A space is found where it stands. -/
theorem Space.width (h : Space c) (t : Text) : spaceWidth (c ++ t) = c.length := by
  cases h with
  | ascii h =>
    rw [List.cons_append, List.nil_append, spaceWidth.eq_def]
    exact if_pos h
  | latin h =>
    rw [List.cons_append, List.cons_append, List.nil_append, spaceWidth.eq_def]
    exact if_pos h
  | ogham => rfl
  | general h =>
    rw [List.cons_append, List.cons_append, List.cons_append, List.nil_append, spaceWidth.eq_def]
    exact if_pos h
  | mathematical => rfl
  | ideographic => rfl

/-- Nothing but a space is taken for one. -/
theorem exists_space (h : spaceWidth s ≠ 0) : ∃ c t, Space c ∧ s = c ++ t := by
  revert h
  fun_cases spaceWidth s with
  | case2 b rest hb => exact fun _ => ⟨_, _, .ascii hb, rfl⟩
  | case3 c rest hc => exact fun _ => ⟨_, _, .latin hc, rfl⟩
  | case5 rest => exact fun _ => ⟨_, rest, .ogham, rfl⟩
  | case6 c rest hc => exact fun _ => ⟨_, _, .general hc, rfl⟩
  | case8 rest => exact fun _ => ⟨_, rest, .mathematical, rfl⟩
  | case9 rest => exact fun _ => ⟨_, rest, .ideographic, rfl⟩
  | _ => exact fun h => absurd rfl h

/-- Read backwards, too. -/
theorem exists_space_rev (h : spaceWidthRev s ≠ 0) :
    ∃ c t, Space c ∧ s = c.reverse ++ t ∧ spaceWidthRev s = c.length := by
  revert h
  fun_cases spaceWidthRev s with
  | case2 b rest hb => exact fun _ => ⟨_, _, .ascii hb, rfl, rfl⟩
  | case3 rest => exact fun _ => ⟨_, rest, .ogham, rfl, rfl⟩
  | case4 rest => exact fun _ => ⟨_, rest, .ideographic, rfl, rfl⟩
  | case5 rest => exact fun _ => ⟨_, rest, .mathematical, rfl, rfl⟩
  | case6 c rest hc => exact fun _ => ⟨_, _, .general hc, rfl, rfl⟩
  | case8 c rest hc => exact fun _ => ⟨_, _, .latin hc, rfl, rfl⟩
  | _ => exact fun h => absurd rfl h

/-- A byte that a space can start with. -/
def leads (b : UInt8) : Bool :=
  (b == 0x20 || 0x09 ≤ b && b ≤ 0x0d) || b == 0xc2 || b == 0xe1 || b == 0xe2 || b == 0xe3

theorem Space.leads_iff (h : Space c) :
    ∃ b more, c = b :: more ∧ leads b = true ∧ ∀ d ∈ more, leads d = false := by
  cases h with
  | ascii h => exact ⟨_, [], rfl, by rw [leads, h]; rfl, by simp⟩
  | latin h =>
    refine ⟨_, _, rfl, rfl, ?_⟩
    grind [leads]
  | ogham => exact ⟨_, _, rfl, rfl, by grind [leads]⟩
  | general h =>
    refine ⟨_, _, rfl, rfl, ?_⟩
    grind [leads]
  | mathematical => exact ⟨_, _, rfl, rfl, by grind [leads]⟩
  | ideographic => exact ⟨_, _, rfl, rfl, by grind [leads]⟩

/-- No space comes about where a text meets one. -/
theorem spaceWidth_append (hs : spaceWidth s = 0) (hne : s ≠ []) (hc : Space c) (t : Text) :
    spaceWidth (s ++ (c ++ t)) = 0 := by
  by_contra hsome
  obtain ⟨d, u, hd, heq⟩ := exists_space hsome
  rcases List.append_eq_append_iff.mp heq with ⟨more, hmore, hrest⟩ | ⟨more, hmore, -⟩
  · cases more with
    | nil =>
      rw [List.append_nil] at hmore
      have hwidth := hd.width []
      have hpos := hd.length_pos
      rw [List.append_nil, hmore, hs] at hwidth
      rw [hmore] at hpos
      omega
    | cons b more =>
      -- the byte that `c` starts with would be one inside of `d`
      obtain ⟨b', c', rfl, hlead, -⟩ := hc.leads_iff
      obtain ⟨rfl, -⟩ := List.cons.inj hrest
      obtain ⟨b₀, inner, rfl, -, hinner⟩ := hd.leads_iff
      cases s with
      | nil => exact hne rfl
      | cons b₁ s =>
        have hmem : b' ∈ inner := by
          rw [(List.cons.inj hmore).2]
          exact List.mem_append_right _ List.mem_cons_self
        rw [hinner b' hmem] at hlead
        cases hlead
  · have hwidth := hd.width more
    rw [← hmore, hs] at hwidth
    exact absurd hd.length_pos (by omega)

/-! ## Fields -/

theorem fieldsFrom_skip (f x t : Text) : fieldsFrom f x.length (x ++ t) = fieldsFrom f 0 t := by
  induction x with
  | nil => rfl
  | cons b x ih => exact ih

/-- A space ends the field read so far. -/
theorem Space.fieldsFrom_eq (hc : Space c) (f t : Text) :
    fieldsFrom f 0 (c ++ t) = endField f ++ fields t := by
  have hwidth := hc.width t
  obtain ⟨b, more, rfl, -⟩ := hc.leads_iff
  rw [List.cons_append] at hwidth ⊢
  rw [fieldsFrom.eq_def]
  dsimp only
  rw [hwidth]
  exact congrArg (endField f ++ ·) (fieldsFrom_skip [] more t)

theorem fieldsFrom_cons {b : UInt8} (h : spaceWidth (b :: s) = 0) (f : Text) :
    fieldsFrom f 0 (b :: s) = fieldsFrom (f ++ [b]) 0 s := by
  rw [fieldsFrom.eq_def]
  dsimp only
  rw [h]

/-- The fields on both sides of a space. -/
theorem Space.fieldsFrom_append (hc : Space c) (f s t : Text) :
    fieldsFrom f 0 (s ++ (c ++ t)) = fieldsFrom f 0 s ++ fields t := by
  induction hn : s.length using Nat.strongRecOn generalizing f s with
  | ind n ih =>
    cases s with
    | nil => exact hc.fieldsFrom_eq f t
    | cons b s =>
      by_cases hwidth : spaceWidth (b :: s) = 0
      · have happend : spaceWidth (b :: (s ++ (c ++ t))) = 0 :=
          spaceWidth_append hwidth (List.cons_ne_nil b s) hc t
        rw [fieldsFrom_cons hwidth, List.cons_append, fieldsFrom_cons happend]
        exact ih s.length (by rw [← hn]; exact Nat.lt_succ_self _) _ _ rfl
      · obtain ⟨d, u, hd, heq⟩ := exists_space hwidth
        have hlt : u.length < n := by
          rw [← hn, heq, List.length_append]
          have hpos := hd.length_pos
          omega
        rw [heq, List.append_assoc, hd.fieldsFrom_eq, hd.fieldsFrom_eq, List.append_assoc]
        exact congrArg (endField f ++ ·) (ih u.length hlt [] u rfl)

theorem Blank.fields_append (hg : Blank g) (t : Text) : fields (g ++ t) = fields t := by
  induction hg with
  | nil => rfl
  | cons hc _ ih =>
    rw [List.append_assoc]
    exact (hc.fieldsFrom_eq [] _).trans ih

theorem Blank.fields_eq (hg : Blank g) : fields g = [] := by
  have happend := hg.fields_append []
  rwa [List.append_nil] at happend

/-- The fields on both sides of white space. -/
theorem Blank.fields_between (hg : Blank g) (hne : g ≠ []) (s t : Text) :
    fields (s ++ (g ++ t)) = fields s ++ fields t := by
  cases hg with
  | nil => exact absurd rfl hne
  | cons hc hrest =>
    rw [List.append_assoc, ← hrest.fields_append t]
    exact hc.fieldsFrom_append [] s _

/-- White space at the end adds no field. -/
theorem Blank.fields_before (hg : Blank g) (s : Text) : fields (s ++ g) = fields s := by
  by_cases hne : g = []
  · rw [hne, List.append_nil]
  · have hbetween := hg.fields_between hne s []
    rwa [List.append_nil, show fields [] = [] from rfl, List.append_nil] at hbetween

theorem Solid.tail {b : UInt8} (h : Solid (b :: w)) : Solid w :=
  fun c hc hin => h c hc (hin.trans (List.suffix_cons b w).isInfix)

theorem Solid.width (h : Solid w) : spaceWidth w = 0 := by
  by_contra hsome
  obtain ⟨c, t, hc, rfl⟩ := exists_space hsome
  exact h c hc (List.prefix_append c t).isInfix

theorem Solid.fieldsFrom_eq (h : Solid w) (f : Text) : fieldsFrom f 0 w = endField (f ++ w) := by
  induction w generalizing f with
  | nil =>
    rw [List.append_nil]
    rfl
  | cons b w ih =>
    rw [fieldsFrom_cons h.width, ih h.tail, List.append_assoc]
    rfl

theorem Solid.fields_eq (h : Solid w) (hne : w ≠ []) : fields w = [w] := by
  show fieldsFrom [] 0 w = [w]
  rw [h.fieldsFrom_eq, List.nil_append, endField, if_neg hne]

/-- What is laid out is found. -/
theorem Laid.fields_eq {ws : List Text} (h : Laid ws s) : fields s = ws := by
  induction h with
  | blank hg => exact hg.fields_eq
  | last hg hw hne => rw [hg.fields_append, hw.fields_eq hne]
  | cons hg hw hne hsep hsome _ ih =>
    rw [hg.fields_append, hsep.fields_between hsome, hw.fields_eq hne, ih]
    rfl

/-- Fields with one blank before each of them but the first. -/
theorem laid_spaced {ws : List Text} (hws : ∀ v ∈ w :: ws, Solid v ∧ v ≠ []) (hg : Blank g)
    (ht : Blank t) : Laid (w :: ws) (g ++ (w ++ (ws.flatMap (0x20 :: ·) ++ t))) := by
  induction ws generalizing w g with
  | nil =>
    obtain ⟨hw, hne⟩ := hws w List.mem_cons_self
    by_cases hnil : t = []
    · subst hnil
      rw [List.flatMap_nil, List.append_nil, List.append_nil]
      exact .last hg hw hne
    · have hlaid := Laid.cons hg hw hne ht hnil (.blank .nil)
      rwa [List.append_nil] at hlaid
  | cons v ws ih =>
    obtain ⟨hw, hne⟩ := hws w List.mem_cons_self
    have hblank : Blank [0x20] := .cons (.ascii rfl) .nil
    have hrest := ih (w := v) (g := []) (fun u hu => hws u (List.mem_cons_of_mem w hu)) .nil
    have hlaid := Laid.cons hg hw hne hblank (List.cons_ne_nil _ _) hrest
    rwa [List.nil_append, ← List.append_assoc v] at hlaid

/-! ## Trimming -/

theorem Blank.append (hg : Blank g) (ht : Blank t) : Blank (g ++ t) := by
  induction hg with
  | nil => exact ht
  | cons hc _ ih =>
    rw [List.append_assoc]
    exact .cons hc ih

theorem Space.blank (hc : Space c) : Blank c := by
  have hcons := Blank.cons hc .nil
  rwa [List.append_nil] at hcons

section Drop

variable {width : Text → Nat}

theorem dropSpaces_skip (x t : Text) :
    dropSpaces width x.length (x ++ t) = dropSpaces width 0 t := by
  induction x with
  | nil => rfl
  | cons b x ih => exact ih

theorem dropSpaces_of_zero (h : width s = 0) : dropSpaces width 0 s = s := by
  cases s with
  | nil => rfl
  | cons b s =>
    rw [dropSpaces.eq_def]
    dsimp only
    rw [h]

theorem dropSpaces_append {x : Text} (h : width (x ++ t) = x.length) (hpos : 0 < x.length) :
    dropSpaces width 0 (x ++ t) = dropSpaces width 0 t := by
  cases x with
  | nil => cases hpos
  | cons b x =>
    rw [List.cons_append] at h ⊢
    rw [dropSpaces.eq_def]
    dsimp only
    rw [h]
    exact dropSpaces_skip x t

end Drop

/-- `TrimLeft` only takes white space away. -/
theorem exists_blank_dropSpaces (s : Text) : ∃ g, Blank g ∧ s = g ++ dropSpaces spaceWidth 0 s := by
  induction hn : s.length using Nat.strongRecOn generalizing s with
  | ind n ih =>
    by_cases hwidth : spaceWidth s = 0
    · refine ⟨[], .nil, ?_⟩
      rw [dropSpaces_of_zero hwidth, List.nil_append]
    · obtain ⟨c, t, hc, rfl⟩ := exists_space hwidth
      have hpos := hc.length_pos
      rw [List.length_append] at hn
      obtain ⟨g, hg, heq⟩ := ih t.length (by omega) t rfl
      refine ⟨c ++ g, .cons hc hg, ?_⟩
      rw [dropSpaces_append (hc.width t) hpos, List.append_assoc, ← heq]

/-- `TrimRight`, too. -/
theorem exists_blank_dropSpaces_rev (s : Text) :
    ∃ g, Blank g ∧ s = g.reverse ++ dropSpaces spaceWidthRev 0 s := by
  induction hn : s.length using Nat.strongRecOn generalizing s with
  | ind n ih =>
    by_cases hwidth : spaceWidthRev s = 0
    · refine ⟨[], .nil, ?_⟩
      rw [dropSpaces_of_zero hwidth, List.reverse_nil, List.nil_append]
    · obtain ⟨c, t, hc, rfl, hlength⟩ := exists_space_rev hwidth
      have hpos := hc.length_pos
      rw [← List.length_reverse] at hlength hpos
      rw [List.length_append] at hn
      obtain ⟨g, hg, heq⟩ := ih t.length (by omega) t rfl
      refine ⟨g ++ c, hg.append hc.blank, ?_⟩
      rw [dropSpaces_append hlength hpos, List.reverse_append, List.append_assoc, ← heq]

/-- Trimming changes no field. -/
theorem fields_trimSpace (s : Text) : fields (trimSpace s) = fields s := by
  obtain ⟨g, hg, hleft⟩ := exists_blank_dropSpaces s
  obtain ⟨g', hg', hright⟩ := exists_blank_dropSpaces_rev (dropSpaces spaceWidth 0 s).reverse
  have htrim : dropSpaces spaceWidth 0 s = trimSpace s ++ g' := by
    have hreverse := congrArg List.reverse hright
    rwa [List.reverse_reverse, List.reverse_append, List.reverse_reverse] at hreverse
  calc fields (trimSpace s)
    _ = fields (trimSpace s ++ g') := (hg'.fields_before _).symm
    _ = fields (dropSpaces spaceWidth 0 s) := by rw [htrim]
    _ = fields (g ++ dropSpaces spaceWidth 0 s) := (hg.fields_append _).symm
    _ = fields s := by rw [← hleft]

theorem Blank.dropSpaces_append (hg : Blank g) (ht : spaceWidth t = 0) :
    dropSpaces spaceWidth 0 (g ++ t) = t := by
  induction hg with
  | nil => exact dropSpaces_of_zero ht
  | cons hc _ ih =>
    rw [List.append_assoc, Text.dropSpaces_append (hc.width _) hc.length_pos, ih]

theorem Solid.widthRev (h : Solid w) : spaceWidthRev w.reverse = 0 := by
  by_contra hsome
  obtain ⟨c, t, hc, heq, -⟩ := exists_space_rev hsome
  have hw : w = t.reverse ++ c := by
    have hreverse := congrArg List.reverse heq
    rwa [List.reverse_reverse, List.reverse_append, List.reverse_reverse] at hreverse
  exact h c hc (hw ▸ (List.suffix_append _ _).isInfix)

/-- What has no white space itself is left of a trimming. -/
theorem Solid.trimSpace_eq (hw : Solid w) (hg : Blank g) : trimSpace (g ++ w) = w := by
  rw [trimSpace, hg.dropSpaces_append hw.width, dropSpaces_of_zero hw.widthRev,
    List.reverse_reverse]

/-! ## Bytes that are no white space -/

/-- An ASCII byte in a space is the space. -/
theorem Space.not_mem (hc : Space c) {b : UInt8} (hb : b < 0x80) (hsolid : spaceWidth [b] = 0) :
    b ∉ c := by
  intro hmem
  cases hc with
  | ascii h =>
    rw [List.mem_singleton] at hmem
    subst hmem
    rw [spaceWidth.eq_def] at hsolid
    dsimp only at hsolid
    rw [if_pos h] at hsolid
    cases hsolid
  | latin h => grind
  | ogham => grind
  | general h => grind
  | mathematical => grind
  | ideographic => grind

theorem Blank.not_mem (hg : Blank g) {b : UInt8} (hb : b < 0x80) (hsolid : spaceWidth [b] = 0) :
    b ∉ g := by
  induction hg with
  | nil => exact List.not_mem_nil
  | cons hc _ ih =>
    rw [List.mem_append]
    exact fun h => h.elim (hc.not_mem hb hsolid) ih

theorem Laid.not_mem {ws : List Text} (h : Laid ws s) {b : UInt8} (hb : b < 0x80)
    (hsolid : spaceWidth [b] = 0) (hws : ∀ v ∈ ws, b ∉ v) : b ∉ s := by
  induction h with
  | blank hg => exact hg.not_mem hb hsolid
  | last hg =>
    rw [List.mem_append, not_or]
    exact ⟨hg.not_mem hb hsolid, hws _ List.mem_cons_self⟩
  | cons hg _ _ hsep _ _ ih =>
    rw [List.forall_mem_cons] at hws
    rw [List.mem_append, List.mem_append, List.mem_append, not_or, not_or, not_or]
    exact ⟨hg.not_mem hb hsolid, hws.1, hsep.not_mem hb hsolid, ih hws.2⟩

theorem solid_of_leads (h : w.any leads = false) : Solid w := by
  intro c hc hin
  obtain ⟨b, more, rfl, hlead, -⟩ := hc.leads_iff
  have hmem : b ∈ w := hin.mem List.mem_cons_self
  exact List.any_eq_false.mp h b hmem hlead

/-! ## Searching -/

section Search

variable {b : UInt8}

theorem indexByte_none (h : b ∉ s) : indexByte s b = none := by
  rw [indexByte, List.findIdx?_eq_none_iff]
  intro x hx
  rw [beq_eq_false_iff_ne]
  exact fun heq => h (heq ▸ hx)

/-- The first of the bytes is found. -/
theorem indexByte_append (h : b ∉ s) (t : Text) : indexByte (s ++ b :: t) b = some s.length := by
  have hnone := indexByte_none h
  rw [indexByte] at hnone ⊢
  rw [List.findIdx?_append, hnone, Option.none_or, List.findIdx?_cons, beq_self_eq_true, if_pos rfl,
    Option.map_some, Nat.zero_add]

theorem lastIndexByte_none (h : b ∉ s) : lastIndexByte s b = none := by
  rw [lastIndexByte, indexByte_none (by rwa [List.mem_reverse]), Option.map_none]

/-- The last of the bytes is found. -/
theorem lastIndexByte_append (h : b ∉ t) (s : Text) :
    lastIndexByte (s ++ b :: t) b = some s.length := by
  have hreverse : (s ++ b :: t).reverse = t.reverse ++ b :: s.reverse := by
    rw [List.reverse_append, List.reverse_cons, List.append_assoc]
    rfl
  have hlength : (s ++ b :: t).length - 1 - t.reverse.length = s.length := by
    rw [List.length_append, List.length_cons, List.length_reverse]
    omega
  rw [lastIndexByte, hreverse, indexByte_append (by rwa [List.mem_reverse]), Option.map_some,
    hlength]

theorem drop_separator (s t : Text) : (s ++ b :: t).drop (s.length + 1) = t := by
  rw [← List.drop_drop, List.drop_left]
  rfl

end Search

/-! ## Lines -/

section Lines

variable {line : Text}

/-- Lines, each with its newline. -/
def unlines (lines : List Text) : Text := lines.flatMap fun line => line ++ [0x0a]

theorem unlines_cons (line : Text) (lines : List Text) :
    unlines (line :: lines) = line ++ 0x0a :: unlines lines := by
  rw [unlines, List.flatMap_cons, List.append_assoc]
  rfl

theorem unlines_append (lines more : List Text) :
    unlines (lines ++ more) = unlines lines ++ unlines more := List.flatMap_append

/-- A line that is read whole. -/
structure Fits (line : Text) : Prop where
  no_newline : 0x0a ∉ line
  short : line.length < maxScanTokenSize

instance (line : Text) : Decidable (Fits line) :=
  decidable_of_iff (0x0a ∉ line ∧ line.length < maxScanTokenSize)
    ⟨fun ⟨hnewline, hshort⟩ => ⟨hnewline, hshort⟩, fun h => ⟨h.no_newline, h.short⟩⟩

theorem scanFrom_append (h : 0x0a ∉ line) (read rest : Text) :
    scanFrom read (line ++ rest) = scanFrom (read ++ line) rest := by
  induction line generalizing read with
  | nil => rw [List.nil_append, List.append_nil]
  | cons b line ih =>
    rw [List.mem_cons, not_or] at h
    rw [List.cons_append, scanFrom, if_neg (Ne.symm h.1), ih h.2, List.append_assoc]
    rfl

theorem Fits.scanLines_append (h : Fits line) (rest : Text) :
    scanLines (line ++ 0x0a :: rest) = dropCR line :: scanLines rest := by
  rw [scanLines, scanFrom_append h.no_newline, List.nil_append, scanFrom, if_pos rfl,
    if_neg (by have hshort := h.short; omega)]
  rfl

/-- A line that does not fit the buffer ends the scan. -/
theorem scanLines_long (hnewline : 0x0a ∉ line) (hlong : maxScanTokenSize ≤ line.length)
    (rest : Text) : scanLines (line ++ 0x0a :: rest) = [] := by
  rw [scanLines, scanFrom_append hnewline, List.nil_append, scanFrom, if_pos rfl, if_pos hlong]

theorem scanLines_unlines_append {lines : List Text} (h : ∀ line ∈ lines, Fits line)
    (rest : Text) : scanLines (unlines lines ++ rest) = lines.map dropCR ++ scanLines rest := by
  induction lines with
  | nil => rfl
  | cons line lines ih =>
    rw [List.forall_mem_cons] at h
    rw [unlines_cons, List.append_assoc, List.cons_append, h.1.scanLines_append, ih h.2,
      List.map_cons, List.cons_append]

theorem scanLines_unlines {lines : List Text} (h : ∀ line ∈ lines, Fits line) :
    scanLines (unlines lines) = lines.map dropCR := by
  have happend := scanLines_unlines_append h []
  rwa [List.append_nil, show scanLines [] = [] from rfl, List.append_nil] at happend

theorem dropCR_cases (line : Text) : dropCR line = line ∨ line = dropCR line ++ [0x0d] := by
  unfold dropCR
  by_cases hlast : line.getLast? = some 0x0d
  · rw [if_pos hlast]
    exact .inr (List.dropLast_append_getLast? 0x0d hlast).symm
  · rw [if_neg hlast]
    exact .inl rfl

theorem fields_dropCR (line : Text) : fields (dropCR line) = fields line := by
  rcases dropCR_cases line with hsame | hcut
  · rw [hsame]
  · have hblank : Blank [0x0d] := (Space.ascii rfl).blank
    calc fields (dropCR line)
      _ = fields (dropCR line ++ [0x0d]) := (hblank.fields_before _).symm
      _ = fields line := by rw [← hcut]

/-- What a line has before a byte that is not the carriage return stays. -/
theorem dropCR_append {b : UInt8} (hb : b ≠ 0x0d) (s t : Text) :
    dropCR (s ++ b :: t) = s ++ b :: dropCR t := by
  cases t with
  | nil =>
    rw [dropCR, List.getLast?_append_of_ne_nil _ (List.cons_ne_nil b []), List.getLast?_singleton,
      if_neg fun h => hb (Option.some.inj h)]
    rfl
  | cons c t =>
    have hlast : (s ++ b :: c :: t).getLast? = (c :: t).getLast? := by
      rw [List.getLast?_append_of_ne_nil _ (List.cons_ne_nil b _), List.getLast?_cons_cons]
    unfold dropCR
    rw [hlast]
    by_cases hcr : (c :: t).getLast? = some 0x0d
    · rw [if_pos hcr, if_pos hcr, List.dropLast_append_of_ne_nil (List.cons_ne_nil b _),
        List.dropLast_cons_cons]
    · rw [if_neg hcr, if_neg hcr]

end Lines

end SmartSfp.Lib.Text
