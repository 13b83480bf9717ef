import Mathlib.Data.List.TakeDrop
import Mathlib.Tactic.Common

/-!
# Line — sequences that end at their first stop

A reader that stops at a delimiter takes a whole line out of a buffer or nothing.  As a line has no
stop before its end, any initial part of it that contains a stop is the line itself.
-/

namespace SmartSfp.Lib

variable {α : Type} {stop : α → Bool} {l p q : List α} {b : α}

/-- The last element is a stop, and no other is. -/
def IsLine (stop : α → Bool) (l : List α) : Prop :=
  ∃ body b, l = body ++ [b] ∧ stop b = true ∧ ∀ a ∈ body, stop a = false

/-- Nothing follows a stop. -/
def PartLine (stop : α → Bool) (l : List α) : Prop :=
  ∀ p b q, l = p ++ b :: q → stop b = true → q = []

theorem isLine_concat (hb : stop b = true) (hp : ∀ a ∈ p, stop a = false) :
    IsLine stop (p ++ [b]) := ⟨p, b, rfl, hb, hp⟩

theorem IsLine.ne_nil (h : IsLine stop l) : l ≠ [] := by
  obtain ⟨body, b, rfl, -, -⟩ := h
  simp

theorem IsLine.exists_stop (h : IsLine stop l) : ∃ b ∈ l, stop b = true := by
  obtain ⟨body, b, rfl, hb, -⟩ := h
  exact ⟨b, List.mem_append_right _ (List.mem_singleton_self b), hb⟩

theorem IsLine.partLine (h : IsLine stop l) : PartLine stop l := by
  obtain ⟨body, c, rfl, -, hbody⟩ := h
  intro p b q heq hb
  rcases List.append_eq_append_iff.mp heq with ⟨r, rfl, hr⟩ | ⟨r, hp, hr⟩
  · cases r with
    | nil =>
      cases hr
      rfl
    | cons d r => simp at hr
  · cases r with
    | nil =>
      cases hr
      rfl
    | cons d r =>
      cases hr
      have hfree := hbody b (by simp [hp])
      rw [hfree] at hb
      cases hb

theorem partLine_nil : PartLine stop ([] : List α) := by
  intro p b q heq
  simp at heq

theorem PartLine.of_initial (h : PartLine stop l) (hp : p <+: l) : PartLine stop p := by
  obtain ⟨r, rfl⟩ := hp
  intro s b q heq hb
  have hq := h s b (q ++ r) (by rw [heq, List.append_assoc, List.cons_append]) hb
  exact (List.append_eq_nil_iff.mp hq).1

/-- An initial part that contains a stop is the whole. -/
theorem PartLine.eq_of_initial (h : PartLine stop l) (hp : p <+: l) (hmem : b ∈ p)
    (hb : stop b = true) : p = l := by
  obtain ⟨s, t, rfl⟩ := List.append_of_mem hmem
  obtain ⟨r, rfl⟩ := hp
  have htr := h s b (t ++ r) (by rw [List.append_assoc, List.cons_append]) hb
  rw [(List.append_eq_nil_iff.mp htr).2, List.append_nil]

/-- A buffer starts with one line only. -/
theorem IsLine.append_inj {p' q' : List α} (hp : IsLine stop p) (hq : IsLine stop q)
    (h : p ++ p' = q ++ q') : p = q ∧ p' = q' := by
  have heq : p = q := by
    rcases List.prefix_or_prefix_of_prefix (List.prefix_append p p') (h ▸ List.prefix_append q q')
      with hpre | hpre
    · obtain ⟨b, hb, hstop⟩ := hp.exists_stop
      exact hq.partLine.eq_of_initial hpre hb hstop
    · obtain ⟨b, hb, hstop⟩ := hq.exists_stop
      exact (hp.partLine.eq_of_initial hpre hb hstop).symm
  subst heq
  exact ⟨rfl, List.append_cancel_left h⟩

theorem getElem?_of_initial {i : Nat} (h : p <+: l) (hi : p[i]? = some b) : l[i]? = some b := by
  obtain ⟨r, rfl⟩ := h
  rwa [List.getElem?_append_left (List.getElem?_eq_some_iff.mp hi).1]

/-! ## Reading up to a stop -/

/-- The first line of a buffer and what follows it. -/
def takeLine (stop : α → Bool) : List α → Option (List α × List α)
  | [] => none
  | b :: rest =>
    if stop b then some ([b], rest)
    else (takeLine stop rest).map fun r => (b :: r.1, r.2)

theorem takeLine_eq_some (h : takeLine stop l = some (p, q)) : l = p ++ q ∧ IsLine stop p := by
  induction l generalizing p with
  | nil => cases h
  | cons b rest ih =>
    unfold takeLine at h
    split at h
    · rename_i hb
      cases h
      exact ⟨rfl, [], b, rfl, hb, fun a ha => absurd ha List.not_mem_nil⟩
    · rename_i hb
      obtain ⟨⟨p', q'⟩, hrest, heq⟩ := Option.map_eq_some_iff.mp h
      cases heq
      obtain ⟨rfl, body, c, rfl, hc, hbody⟩ := ih hrest
      refine ⟨rfl, b :: body, c, rfl, hc, ?_⟩
      intro a ha
      rcases List.mem_cons.mp ha with rfl | ha
      · exact Bool.eq_false_iff.mpr hb
      · exact hbody a ha

/-- A line with nothing behind it. -/
theorem takeLine_of_isLine (h : IsLine stop l) : takeLine stop l = some (l, []) := by
  obtain ⟨body, b, rfl, hb, hbody⟩ := h
  induction body with
  | nil => simp [takeLine, hb]
  | cons a body ih =>
    have ha := hbody a List.mem_cons_self
    have hrest := ih fun c hc => hbody c (List.mem_cons_of_mem _ hc)
    simp [takeLine, ha, hrest]

end SmartSfp.Lib
