import Mathlib.Logic.Function.Basic
import Mathlib.Tactic.Common

/-!
# Baseline — readings reported against the sample kept from before

A sampler goes through a list of readings.  Each is reported together with the sample kept under
its key, and its own sample takes that place.  A reading without a key is reported alone.
-/

namespace SmartSfp.Lib

variable {κ ρ σ β : Type} [DecidableEq κ]

/-- The samples kept, by key. -/
abbrev Samples (κ σ : Type) := κ → Option σ

/-- One reading: what is reported of it, and the samples kept after it. -/
def sampleOne (slot : ρ → Option (κ × σ)) (report : Option σ → ρ → β) (kept : Samples κ σ) (x : ρ) :
    β × Samples κ σ :=
  match slot x with
  | none => (report none x, kept)
  | some (key, s) => (report (kept key) x, Function.update kept key (some s))

/-- All readings, in order. -/
def sampleAll (slot : ρ → Option (κ × σ)) (report : Option σ → ρ → β) :
    List ρ → Samples κ σ → List β × Samples κ σ
  | [], kept => ([], kept)
  | x :: xs, kept =>
    let one := sampleOne slot report kept x
    let rest := sampleAll slot report xs one.2
    (one.1 :: rest.1, rest.2)

variable {slot : ρ → Option (κ × σ)} {report : Option σ → ρ → β}

/-- What a report takes over from its reading does not depend on the samples. -/
theorem sampleAll_map {γ : Type} (slot : ρ → Option (κ × σ)) {report : Option σ → ρ → β}
    {g : β → γ} {h : ρ → γ} (hg : ∀ prev x, g (report prev x) = h x) (xs : List ρ)
    (kept : Samples κ σ) : (sampleAll slot report xs kept).1.map g = xs.map h := by
  induction xs generalizing kept with
  | nil => rfl
  | cons x xs ih =>
    have hone : g (sampleOne slot report kept x).1 = h x := by
      unfold sampleOne
      cases slot x with
      | none => exact hg none x
      | some ks => exact hg (kept ks.1) x
    simp only [sampleAll, List.map_cons, hone, ih]

theorem sampleAll_length (xs : List ρ) (kept : Samples κ σ) :
    (sampleAll slot report xs kept).1.length = xs.length := by
  induction xs generalizing kept with
  | nil => rfl
  | cons x xs ih => simp only [sampleAll, List.length_cons, ih]

/-! ## Readings under different keys -/

omit [DecidableEq κ] in
/-- Entries looked up for the names of a list have names in its order. -/
theorem map_filterMap_sublist {f : κ → Option β} {name : β → κ}
    (hname : ∀ k b, f k = some b → name b = k) (ks : List κ) :
    ((ks.filterMap f).map name).Sublist ks := by
  induction ks with
  | nil => exact List.Sublist.refl []
  | cons k ks ih =>
    cases hk : f k with
    | none =>
      rw [List.filterMap_cons_none hk]
      exact ih.cons k
    | some b =>
      rw [List.filterMap_cons_some hk, List.map_cons, hname k b hk]
      exact ih.cons_cons k

section Distinct

variable {key : ρ → κ} {sample : ρ → σ} {xs : List ρ}

theorem sampleAll_cons (hslot : ∀ x, slot x = some (key x, sample x)) (x : ρ) (xs : List ρ)
    (kept : Samples κ σ) :
    sampleAll slot report (x :: xs) kept =
      (report (kept (key x)) x ::
          (sampleAll slot report xs (Function.update kept (key x) (some (sample x)))).1,
        (sampleAll slot report xs (Function.update kept (key x) (some (sample x)))).2) := by
  rw [sampleAll, sampleOne, hslot]

/-- What is kept under a key that no reading has stays as it is. -/
theorem sampleAll_of_not_mem (hslot : ∀ x, slot x = some (key x, sample x)) {j : κ}
    (hj : j ∉ xs.map key) (kept : Samples κ σ) : (sampleAll slot report xs kept).2 j = kept j := by
  induction xs generalizing kept with
  | nil => rfl
  | cons x xs ih =>
    rw [List.map_cons, List.mem_cons, not_or] at hj
    rw [sampleAll_cons hslot, ih hj.2, Function.update_of_ne hj.1]

/-- Every reading is reported with what was kept before all of them. -/
theorem sampleAll_reports (hslot : ∀ x, slot x = some (key x, sample x))
    (hnodup : (xs.map key).Nodup) (kept : Samples κ σ) :
    (sampleAll slot report xs kept).1 = xs.map fun x => report (kept (key x)) x := by
  induction xs generalizing kept with
  | nil => rfl
  | cons x xs ih =>
    rw [List.map_cons, List.nodup_cons] at hnodup
    have hrest :
        (xs.map fun y => report (Function.update kept (key x) (some (sample x)) (key y)) y) =
        xs.map fun y => report (kept (key y)) y := by
      apply List.map_congr_left
      intro y hy
      have hne : key y ≠ key x := fun h => hnodup.1 (h ▸ List.mem_map_of_mem hy)
      rw [Function.update_of_ne hne]
    rw [sampleAll_cons hslot, List.map_cons, ih hnodup.2, hrest]

/-- Every reading's sample is kept. -/
theorem sampleAll_of_mem (hslot : ∀ x, slot x = some (key x, sample x))
    (hnodup : (xs.map key).Nodup) {x : ρ} (hx : x ∈ xs) (kept : Samples κ σ) :
    (sampleAll slot report xs kept).2 (key x) = some (sample x) := by
  induction xs generalizing kept with
  | nil => cases hx
  | cons y ys ih =>
    rw [List.map_cons, List.nodup_cons] at hnodup
    rw [sampleAll_cons hslot]
    rcases List.mem_cons.mp hx with rfl | hx
    · rw [sampleAll_of_not_mem hslot hnodup.1, Function.update_self]
    · exact ih hnodup.2 hx _

end Distinct

/-- Samples that no report tells apart, under every key. -/
def SameSamples (r : σ → σ → Prop) (p q : Samples κ σ) : Prop := ∀ key, Option.Rel r (p key) (q key)

section Same

variable {r : σ → σ → Prop} {p q : Samples κ σ} {key : κ} {s t : σ}

omit [DecidableEq κ] in
theorem SameSamples.refl (hr : ∀ s, r s s) (p : Samples κ σ) : SameSamples r p p := by
  intro key
  cases p key with
  | none => exact .none
  | some s => exact .some (hr s)

theorem rel_trans (hr : ∀ a b c, r a b → r b c → r a c) {x y z : Option σ}
    (h : Option.Rel r x y) (h' : Option.Rel r y z) : Option.Rel r x z := by
  cases h with
  | none => exact h'
  | some hab =>
    cases h' with
    | some hbc => exact .some (hr _ _ _ hab hbc)

omit [DecidableEq κ] in
theorem SameSamples.trans {o : Samples κ σ} (hr : ∀ a b c, r a b → r b c → r a c)
    (h : SameSamples r p q) (h' : SameSamples r q o) : SameSamples r p o :=
  fun key => rel_trans hr (h key) (h' key)

theorem SameSamples.update (h : SameSamples r p q) (hst : r s t) :
    SameSamples r (Function.update p key (some s)) (Function.update q key (some t)) := by
  intro j
  by_cases hj : j = key
  · subst hj
    rw [Function.update_self, Function.update_self]
    exact .some hst
  · rw [Function.update_of_ne hj, Function.update_of_ne hj]
    exact h j

/-- A sample put where one like it is kept changes nothing. -/
theorem SameSamples.update_right (h : SameSamples r p q) (hkept : Option.Rel r (p key) (some t)) :
    SameSamples r p (Function.update q key (some t)) := by
  intro j
  by_cases hj : j = key
  · subst hj
    rwa [Function.update_self]
  · rw [Function.update_of_ne hj]
    exact h j

/-- Reports that do not tell samples apart come out the same, and so do the samples they leave. -/
theorem SameSamples.sampleAll (h : SameSamples r p q) (hr : ∀ s, r s s)
    (slot : ρ → Option (κ × σ)) (report : Option σ → ρ → β)
    (hreport : ∀ x a b, Option.Rel r a b → report a x = report b x) (xs : List ρ) :
    (sampleAll slot report xs p).1 = (sampleAll slot report xs q).1 ∧
      SameSamples r (sampleAll slot report xs p).2 (sampleAll slot report xs q).2 := by
  induction xs generalizing p q with
  | nil => exact ⟨rfl, h⟩
  | cons x xs ih =>
    have hone : (sampleOne slot report p x).1 = (sampleOne slot report q x).1 ∧
        SameSamples r (sampleOne slot report p x).2 (sampleOne slot report q x).2 := by
      unfold sampleOne
      cases slot x with
      | none => exact ⟨rfl, h⟩
      | some ks => exact ⟨hreport x _ _ (h ks.1), h.update (hr ks.2)⟩
    have hrest := ih hone.2
    simp only [Lib.sampleAll]
    rw [hone.1, hrest.1]
    exact ⟨rfl, hrest.2⟩

/-- Readings whose samples are kept already leave the samples as they are. -/
theorem SameSamples.of_kept (h : SameSamples r p q) (slot : ρ → Option (κ × σ))
    (report : Option σ → ρ → β) {xs : List ρ}
    (hkept : ∀ x ∈ xs, ∀ key s, slot x = some (key, s) → Option.Rel r (p key) (some s)) :
    SameSamples r p (Lib.sampleAll slot report xs q).2 := by
  induction xs generalizing q with
  | nil => exact h
  | cons x xs ih =>
    have hone : SameSamples r p (sampleOne slot report q x).2 := by
      unfold sampleOne
      cases hslot : slot x with
      | none => exact h
      | some ks => exact h.update_right (hkept x List.mem_cons_self ks.1 ks.2 hslot)
    exact ih hone fun y hy => hkept y (List.mem_cons_of_mem x hy)

end Same

end SmartSfp.Lib
