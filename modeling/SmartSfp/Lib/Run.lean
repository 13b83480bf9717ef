import Mathlib.Tactic.Common

/-!
# Run — finite runs of a labelled transition system

A run grows at its end, so that an induction over it sees the state reached so far.  `When` is the
system whose steps also meet a condition on the state they start from; `Run.when_iff` says when
such a condition is exact for a property of the states a run passes through.
-/

namespace SmartSfp.Lib

variable {σ ℓ : Type}

/-- A run from `s`, given by the labels of its steps. -/
inductive Run (step : σ → ℓ → σ → Prop) (s : σ) : List ℓ → σ → Prop where
  | nil : Run step s [] s
  | snoc {ls : List ℓ} {t u : σ} {l : ℓ} (run : Run step s ls t) (last : step t l u) :
      Run step s (ls ++ [l]) u

/-- The steps taken in a state and under a label that meet the condition. -/
def When (cond : σ → ℓ → Prop) (step : σ → ℓ → σ → Prop) (s : σ) (l : ℓ) (t : σ) : Prop :=
  cond s l ∧ step s l t

namespace Run

variable {step step' : σ → ℓ → σ → Prop} {s t u : σ} {l : ℓ} {ls ks : List ℓ}

theorem single (h : step s l t) : Run step s [l] t :=
  Run.nil.snoc h

theorem append (h : Run step s ls t) (h' : Run step t ks u) : Run step s (ls ++ ks) u := by
  induction h' with
  | nil => rwa [List.append_nil]
  | snoc _ hlast ih =>
    rw [← List.append_assoc]
    exact ih.snoc hlast

theorem cons (h : step s l t) (h' : Run step t ls u) : Run step s (l :: ls) u :=
  (single h).append h'

theorem eq_of_nil (h : Run step s [] t) : t = s := by
  generalize hls : ([] : List ℓ) = ls at h
  cases h with
  | nil => rfl
  | snoc run last => exact absurd hls.symm (by simp)

/-- A run of steps that are computed. -/
theorem of_foldlM {act : σ → ℓ → Option σ} (h : ls.foldlM act s = some t) :
    Run (fun s l t => act s l = some t) s ls t := by
  induction ls generalizing s with
  | nil =>
    cases h
    exact .nil
  | cons l ls ih =>
    obtain ⟨u, hu, hrest⟩ := Option.bind_eq_some_iff.mp (by simpa using h)
    exact (ih hrest).cons hu

/-- The last step of a run. -/
theorem exists_last (h : Run step s (ls ++ [l]) u) : ∃ t, Run step s ls t ∧ step t l u := by
  generalize hks : ls ++ [l] = ks at h
  cases h with
  | nil => exact absurd hks (by simp)
  | snoc run last =>
    obtain ⟨rfl, hl⟩ := List.append_inj' hks rfl
    cases hl
    exact ⟨_, run, last⟩

/-- The first step of a run. -/
theorem exists_first (h : Run step s (l :: ls) u) : ∃ t, step s l t ∧ Run step t ls u := by
  generalize hks : l :: ls = ks at h
  induction h generalizing ls with
  | nil => cases hks
  | @snoc ks t u k run last ih =>
    cases ls with
    | nil =>
      obtain ⟨rfl, hk⟩ := List.append_inj' (show [] ++ [l] = ks ++ [k] from hks) rfl
      cases hk
      rw [run.eq_of_nil] at last
      exact ⟨u, last, .nil⟩
    | cons l' ls' =>
      obtain hnil | ⟨ms, k', hlast⟩ := List.eq_nil_or_concat (l' :: ls')
      · cases hnil
      · rw [List.concat_eq_append] at hlast
        rw [hlast] at hks ⊢
        obtain ⟨hinit, hk⟩ := List.append_inj' (show (l :: ms) ++ [k'] = ks ++ [k] from hks) rfl
        cases hk
        obtain ⟨v, hstep, hrun⟩ := ih hinit
        exact ⟨v, hstep, hrun.snoc last⟩

theorem mono (hsub : ∀ t l u, step t l u → step' t l u) (h : Run step s ls t) :
    Run step' s ls t := by
  induction h with
  | nil => exact .nil
  | snoc _ hlast ih => exact ih.snoc (hsub _ _ _ hlast)

/-- What holds at the start and is kept by every step holds in every state reached. -/
theorem invariant {inv : σ → Prop} (hstart : inv s)
    (hstep : ∀ t l u, inv t → step t l u → inv u) (h : Run step s ls t) : inv t := by
  induction h with
  | nil => exact hstart
  | snoc _ hlast ih => exact hstep _ _ _ ih hlast

/-- What does not hold at the start and holds in the end comes about in one step of the run. -/
theorem exists_step {P : σ → Prop} (h : Run step s ls t) (hstart : ¬ P s) (hend : P t) :
    ∃ before l after u v, ls = before ++ l :: after ∧ Run step s before u ∧ step u l v ∧
      ¬ P u ∧ P v := by
  induction h with
  | nil => exact absurd hend hstart
  | @snoc ls t u l run last ih =>
    by_cases ht : P t
    · obtain ⟨before, k, after, v, w, rfl, hrun, hstep, hv, hw⟩ := ih ht
      exact ⟨before, k, after ++ [l], v, w, by simp, hrun, hstep, hv, hw⟩
    · exact ⟨ls, l, [], t, u, rfl, run, last, ht, hend⟩

theorem forget {cond : σ → ℓ → Prop} (h : Run (When cond step) s ls t) : Run step s ls t :=
  h.mono fun _ _ _ hstep => hstep.2

/-- A run of a whole is a run of each part of it, when a step of the whole is a step of the part or
leaves it alone. -/
theorem project {σ' ℓ' : Type} {part : σ' → ℓ' → σ' → Prop} (f : σ → σ')
    (hstep : ∀ t l u, step t l u → f u = f t ∨ ∃ l', part (f t) l' (f u)) (h : Run step s ls t) :
    ∃ ls', Run part (f s) ls' (f t) := by
  induction h with
  | nil => exact ⟨[], .nil⟩
  | snoc _ hlast ih =>
    obtain ⟨ls', hrun⟩ := ih
    obtain hsame | ⟨l', hl'⟩ := hstep _ _ _ hlast
    · exact ⟨ls', hsame.symm ▸ hrun⟩
    · exact ⟨ls' ++ [l'], hrun.snoc hl'⟩

/-- With deterministic steps there is one state after the first steps of a run. -/
theorem deterministic (hdet : ∀ t l u u', step t l u → step t l u' → u = u')
    (h : Run step s ls t) (h' : Run step s ls u) : t = u := by
  induction h generalizing u with
  | nil => exact (eq_of_nil h').symm
  | snoc run last ih =>
    obtain ⟨v, hv, hlast⟩ := exists_last h'
    rw [ih hv] at last
    exact hdet _ _ _ _ last hlast

/-- A run passes through the states its prefixes reach, so it splits at each of them. -/
theorem exists_of_initial (h : Run step s ls t) (hpre : ks <+: ls) : ∃ u, Run step s ks u := by
  induction h with
  | nil =>
    rw [List.prefix_nil.mp hpre]
    exact ⟨s, .nil⟩
  | snoc run last ih =>
    rcases List.prefix_concat_iff.mp hpre with rfl | hpre'
    · exact ⟨_, run.snoc last⟩
    · exact ih hpre'

/-- When each step of a run that breaks the condition breaks the property, a run through states with
the property meets the condition at every step. -/
theorem when_of_good {cond : σ → ℓ → Prop} {good : σ → Prop} (h : Run step s ls t)
    (hbreak : ∀ ks t l u, ks ++ [l] <+: ls → Run step s ks t → step t l u → ¬ cond t l → ¬ good u)
    (hgood : ∀ ks u, ks <+: ls → Run step s ks u → good u) : Run (When cond step) s ls t := by
  induction h with
  | nil => exact .nil
  | @snoc ls t u l run last ih =>
    have hpre {ks : List ℓ} (h : ks <+: ls) : ks <+: ls ++ [l] := h.trans (List.prefix_append _ _)
    refine (ih (fun ks t l u hks => hbreak ks t l u (hpre hks))
      fun ks u hks => hgood ks u (hpre hks)).snoc ⟨?_, last⟩
    by_contra hcond
    exact hbreak _ _ _ _ (List.prefix_refl _) run last hcond
      (hgood _ _ (List.prefix_refl _) (run.snoc last))

/-- A condition is exact for a property when its runs keep the property and each step of a run that
breaks the condition breaks the property: a run then meets the condition at every step exactly when
every state it passes through has the property. -/
theorem when_iff {cond : σ → ℓ → Prop} {good : σ → Prop}
    (hdet : ∀ t l u u', step t l u → step t l u' → u = u')
    (hkeep : ∀ ks u, Run (When cond step) s ks u → good u)
    (hbreak : ∀ ks t l u, Run step s ks t → step t l u → ¬ cond t l → ¬ good u)
    (h : Run step s ls t) :
    Run (When cond step) s ls t ↔ ∀ ks u, ks <+: ls → Run step s ks u → good u := by
  constructor
  · intro hwhen ks u hpre hks
    obtain ⟨v, hv⟩ := hwhen.exists_of_initial hpre
    rw [deterministic hdet hks hv.forget]
    exact hkeep ks v hv
  · exact h.when_of_good fun ks t l u _ => hbreak ks t l u

end Run

/-! ## Final states -/

section Final

variable {step : σ → ℓ → σ → Prop}

/-- No step leads on. -/
def Final (step : σ → ℓ → σ → Prop) (s : σ) : Prop := ∀ l t, ¬ step s l t

/-- No run goes on for ever. -/
def Terminates (step : σ → ℓ → σ → Prop) : Prop := WellFounded fun t s => ∃ l, step s l t

theorem Terminates.of_rank {ρ : Type} {lt : ρ → ρ → Prop} (hwf : WellFounded lt) (rank : σ → ρ)
    (hstep : ∀ s l t, step s l t → lt (rank t) (rank s)) : Terminates step :=
  Subrelation.wf (fun ⟨l, hl⟩ => hstep _ l _ hl) (InvImage.wf rank hwf)

/-- Every state starts a run to a final one. -/
theorem Terminates.exists_final (hwf : Terminates step) (s : σ) :
    ∃ ls t, Run step s ls t ∧ Final step t := by
  induction s using hwf.induction with
  | _ s ih =>
    by_cases hfinal : Final step s
    · exact ⟨[], s, .nil, hfinal⟩
    · obtain ⟨l, t, hstep⟩ : ∃ l t, step s l t := by simpa [Final] using hfinal
      obtain ⟨ls, u, hrun, hu⟩ := ih t ⟨l, hstep⟩
      exact ⟨l :: ls, u, Run.cons hstep hrun, hu⟩

end Final

/-! ## Histories -/

section History

variable {ε : Type} {emit : σ → ℓ → List ε} {step : σ → ℓ → σ → Prop} {p q : σ × List ε}
  {ls : List ℓ}

/-- The system that also keeps a history of what its steps do, seen from the state they start in. -/
def Recorded (emit : σ → ℓ → List ε) (step : σ → ℓ → σ → Prop) (p : σ × List ε) (l : ℓ)
    (q : σ × List ε) : Prop :=
  step p.1 l q.1 ∧ q.2 = p.2 ++ emit p.1 l

theorem Run.unrecord (h : Run (Recorded emit step) p ls q) : Run step p.1 ls q.1 := by
  induction h with
  | nil => exact .nil
  | snoc _ hlast ih => exact ih.snoc hlast.1

/-- A history restricts no run. -/
theorem Run.record {s t : σ} (h : Run step s ls t) (emit : σ → ℓ → List ε) (history : List ε) :
    ∃ added, Run (Recorded emit step) (s, history) ls (t, history ++ added) := by
  induction h with
  | nil =>
    refine ⟨[], ?_⟩
    rw [List.append_nil]
    exact .nil
  | @snoc ks u v l _ hlast ih =>
    obtain ⟨added, hrun⟩ := ih
    refine ⟨added ++ emit u l, hrun.snoc ⟨hlast, ?_⟩⟩
    exact (List.append_assoc _ _ _).symm

end History

end SmartSfp.Lib
