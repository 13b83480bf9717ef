import Mathlib.Logic.Function.Basic
import SmartSfp.Lib.Run

/-!
# Abreast — systems side by side

Any number of copies of one system, each of which takes its steps on its own.  A run of all of them
is a run of each one, under those of its labels that are meant for it.
-/

namespace SmartSfp.Lib

variable {ι σ ℓ : Type} [DecidableEq ι]

/-- The copy that the label names takes a step. -/
def Abreast (step : σ → ℓ → σ → Prop) (f : ι → σ) (a : ι × ℓ) (g : ι → σ) : Prop :=
  ∃ s, step (f a.1) a.2 s ∧ g = Function.update f a.1 s

/-- The labels meant for copy `i`. -/
def labelsOf (i : ι) (as : List (ι × ℓ)) : List ℓ :=
  as.filterMap fun a => if a.1 = i then some a.2 else none

theorem mem_labelsOf {i : ι} {as : List (ι × ℓ)} {l : ℓ} : l ∈ labelsOf i as ↔ (i, l) ∈ as := by
  simp only [labelsOf, List.mem_filterMap, Option.ite_none_right_eq_some, Option.some.injEq]
  constructor
  · rintro ⟨a, ha, rfl, rfl⟩
    exact ha
  · intro h
    exact ⟨(i, l), h, rfl, rfl⟩

namespace Run

variable {step : σ → ℓ → σ → Prop} {f g : ι → σ} {as : List (ι × ℓ)}

theorem component (h : Run (Abreast step) f as g) (i : ι) :
    Run step (f i) (labelsOf i as) (g i) := by
  induction h with
  | nil => exact .nil
  | @snoc as g g' a run last ih =>
    obtain ⟨s, hstep, rfl⟩ := last
    rw [labelsOf, List.filterMap_append]
    by_cases hi : a.1 = i
    · subst hi
      simp only [List.filterMap_cons, if_true, List.filterMap_nil, Function.update_self]
      exact ih.snoc hstep
    · simp only [List.filterMap_cons, if_neg hi, List.filterMap_nil, List.append_nil,
        Function.update_of_ne (Ne.symm hi)]
      exact ih

/-- One copy runs, and the others wait. -/
theorem abreast {i : ι} {s : σ} {ls : List ℓ} (h : Run step (f i) ls s) :
    Run (Abreast step) f (ls.map fun l => (i, l)) (Function.update f i s) := by
  induction h with
  | nil =>
    rw [Function.update_eq_self]
    exact .nil
  | @snoc ls t u l run last ih =>
    rw [List.map_append]
    refine ih.snoc ⟨u, ?_, ?_⟩
    · rw [Function.update_self]
      exact last
    · rw [Function.update_idem]

end Run

end SmartSfp.Lib
