import Mathlib.Algebra.Order.Ring.Nat
import SmartSfp.Lib.Run

/-!
# Pool — tasks that share a state and take atomic steps in any order

A `Program` says how a task starts and what its next atomic step does to the shared state and to
the task itself; a blocked or finished task has no step.  A `Pool` is the shared state with every
task started so far, in the order of their start, finished ones included.  `next` lets any task take
its next step at any time and starts new ones at any time, so its runs are all interleavings.
-/

namespace SmartSfp.Lib

variable {σ τ ρ ι : Type}

/-- Tasks started by a `ρ`; a step of task `i` may read an input `ι` from outside. -/
structure Program (σ τ ρ ι : Type) where
  start : ρ → τ
  step : (i : Nat) → ι → σ → τ → Option (σ × τ)

structure Pool (σ τ : Type) where
  shared : σ
  tasks : List τ
  deriving DecidableEq

/-- What the scheduler does next. -/
inductive Pool.Act (ρ ι : Type) where
  | spawn (r : ρ)
  | run (i : Nat) (x : ι)

namespace Pool

variable (prog : Program σ τ ρ ι)

def next (p : Pool σ τ) : Act ρ ι → Option (Pool σ τ)
  | .spawn r => some ⟨p.shared, p.tasks ++ [prog.start r]⟩
  | .run i x =>
    match p.tasks[i]? with
    | none => none
    | some t =>
      match prog.step i x p.shared t with
      | none => none
      | some (s, t') => some ⟨s, p.tasks.set i t'⟩

/-- `next` as a transition relation. -/
def Step (p : Pool σ τ) (a : Act ρ ι) (q : Pool σ τ) : Prop := p.next prog a = some q

/-- Execute a schedule. -/
def exec (p : Pool σ τ) : List (Act ρ ι) → Option (Pool σ τ)
  | [] => some p
  | a :: as => (p.next prog a).bind fun q => exec q as

variable {prog} {p q : Pool σ τ} {a : Act ρ ι} {i j : Nat} {x : ι} {s s' : σ} {t t' u : τ}

/-- Everything a step of the pool can do. -/
theorem step_cases (h : Step prog p a q) :
    (∃ r, a = .spawn r ∧ q = ⟨p.shared, p.tasks ++ [prog.start r]⟩) ∨
    (∃ i x t s t', a = .run i x ∧ p.tasks[i]? = some t ∧
      prog.step i x p.shared t = some (s, t') ∧ q = ⟨s, p.tasks.set i t'⟩) := by
  cases a with
  | spawn r => exact .inl ⟨r, rfl, (Option.some.inj h).symm⟩
  | run i x =>
    simp only [Step, next] at h
    split at h
    · cases h
    · rename_i t ht
      split at h
      · cases h
      · rename_i s t' hstep
        exact .inr ⟨i, x, t, s, t', rfl, ht, hstep, (Option.some.inj h).symm⟩

theorem step_run (ht : p.tasks[i]? = some t) (hstep : prog.step i x p.shared t = some (s, t')) :
    Step prog p (.run i x) ⟨s, p.tasks.set i t'⟩ := by
  simp only [Step, next, ht, hstep]

variable (prog) in
theorem step_deterministic (p : Pool σ τ) (a : Act ρ ι) (q q' : Pool σ τ)
    (h : Step prog p a q) (h' : Step prog p a q') : q = q' :=
  Option.some.inj (h.symm.trans h')

theorem run_of_exec {as : List (Act ρ ι)} (h : p.exec prog as = some q) :
    Run (Step prog) p as q := by
  induction as generalizing p with
  | nil =>
    cases h
    exact .nil
  | cons a as ih =>
    obtain ⟨r, hr, has⟩ := Option.bind_eq_some_iff.mp h
    exact Run.cons hr (ih has)

/-- The tasks after a step of task `i`. -/
theorem getElem?_set (ht : p.tasks[i]? = some t) (j : Nat) :
    (p.tasks.set i t')[j]? = if j = i then some t' else p.tasks[j]? := by
  by_cases hj : j = i
  · subst hj
    rw [if_pos rfl, List.getElem?_set_self (List.getElem?_eq_some_iff.mp ht).1]
  · rw [if_neg hj, List.getElem?_set_ne (Ne.symm hj)]

theorem mem_set_self (ht : p.tasks[i]? = some t) : t' ∈ p.tasks.set i t' :=
  List.mem_set (List.getElem?_eq_some_iff.mp ht).1 t'

/-- A task that takes no further step stays in the pool as it is. -/
theorem getElem?_of_finished (hfinished : ∀ i x s, prog.step i x s u = none)
    (hu : p.tasks[j]? = some u) (h : Step prog p a q) : q.tasks[j]? = some u := by
  obtain ⟨r, rfl, rfl⟩ | ⟨i, x, t, s, t', rfl, ht, hstep, rfl⟩ := step_cases h
  · have hj := (List.getElem?_eq_some_iff.mp hu).1
    rwa [List.getElem?_append_left hj]
  · rw [getElem?_set ht]
    split
    · rename_i hj
      subst hj
      rw [hu] at ht
      cases ht
      rw [hfinished] at hstep
      cases hstep
    · exact hu

theorem mem_of_finished (hfinished : ∀ i x s, prog.step i x s u = none) (hu : u ∈ p.tasks)
    (h : Step prog p a q) : u ∈ q.tasks := by
  obtain ⟨j, hj⟩ := List.getElem?_of_mem hu
  exact List.mem_of_getElem? (getElem?_of_finished hfinished hj h)

/-- How many tasks have a property, after a step of task `i`. -/
theorem countP_set (f : τ → Bool) (t' : τ) (ht : p.tasks[i]? = some t) :
    (p.tasks.set i t').countP f + (if f t then 1 else 0) =
      p.tasks.countP f + if f t' then 1 else 0 := by
  obtain ⟨hi, hget⟩ := List.getElem?_eq_some_iff.mp ht
  rw [List.countP_set hi, hget]
  have hpos : f t = true → 0 < p.tasks.countP f := fun hft =>
    List.countP_pos_iff.mpr ⟨t, List.mem_of_getElem? ht, hft⟩
  by_cases hft : f t
  · have := hpos hft
    simp only [hft, if_true]
    omega
  · simp only [hft, Bool.false_eq_true, if_false]
    omega

/-- Non-interference rule: a property of the shared state and one task holds of every task when
tasks start with it, a step keeps it for the task that takes it, and no step of another task
disturbs it. -/
theorem forall_tasks_step {I : σ → τ → Prop} (hstart : ∀ s r, I s (prog.start r))
    (hown : ∀ i x s t s' t', prog.step i x s t = some (s', t') → I s t → I s' t')
    (hother : ∀ i x s t s' t' u, prog.step i x s t = some (s', t') → I s t → I s u → I s' u)
    (hp : ∀ u ∈ p.tasks, I p.shared u) (h : Step prog p a q) : ∀ u ∈ q.tasks, I q.shared u := by
  obtain ⟨r, rfl, rfl⟩ | ⟨i, x, t, s, t', rfl, ht, hstep, rfl⟩ := step_cases h
  · intro u hu
    rcases List.mem_append.mp hu with hu | hu
    · exact hp u hu
    · rw [List.mem_singleton.mp hu]
      exact hstart _ r
  · have hIt := hp t (List.mem_of_getElem? ht)
    intro u hu
    rcases List.mem_or_eq_of_mem_set hu with hu | rfl
    · exact hother _ _ _ _ _ _ u hstep hIt (hp u hu)
    · exact hown _ _ _ _ _ _ hstep hIt

/-! ## Draining a pool -/

theorem sum_map_set (f : τ → Nat) (t' : τ) {l : List τ} (ht : l[i]? = some t) :
    ((l.set i t').map f).sum + f t = (l.map f).sum + f t' := by
  induction l generalizing i with
  | nil => cases ht
  | cons b l ih =>
    cases i with
    | zero =>
      cases ht
      simp only [List.set_cons_zero, List.map_cons, List.sum_cons]
      omega
    | succ i =>
      have hl := ih ht
      simp only [List.set_cons_succ, List.map_cons, List.sum_cons]
      omega

/-- When every step brings its task closer to its end, and some task can step as long as one has not
finished, the tasks started so far can all be run to their end without starting new ones. -/
theorem exists_drained (prog : Program σ τ ρ ι) {inv : Pool σ τ → Prop} {finished : τ → Prop}
    (rank : τ → Nat) (hinv : ∀ p a q, inv p → Step prog p a q → inv q)
    (hrank : ∀ i x s t s' t', prog.step i x s t = some (s', t') → rank t' < rank t)
    (hprogress : ∀ p : Pool σ τ, inv p → (∃ t ∈ p.tasks, ¬ finished t) →
      ∃ i x q, Step prog p (.run i x) q)
    (hp : inv p) : ∃ as q, Run (Step prog) p as q ∧ (∀ a ∈ as, ∃ i x, a = .run i x) ∧
      ∀ t ∈ q.tasks, finished t := by
  generalize hn : (p.tasks.map rank).sum = n
  induction n using Nat.strongRecOn generalizing p with
  | _ n ih =>
    by_cases hdone : ∃ t ∈ p.tasks, ¬ finished t
    · obtain ⟨i, x, q, hstep⟩ := hprogress p hp hdone
      have hless : (q.tasks.map rank).sum < n := by
        obtain ⟨r, hr, -⟩ | ⟨j, y, t, s, t', hact, ht, htask, rfl⟩ := step_cases hstep
        · cases hr
        · have hsum := sum_map_set rank t' ht
          have hlt := hrank _ _ _ _ _ _ htask
          change ((p.tasks.set j t').map rank).sum < n
          omega
      obtain ⟨as, q', hrun, hruns, hall⟩ := ih _ hless (hinv p _ q hp hstep) rfl
      refine ⟨.run i x :: as, q', Run.cons hstep hrun, ?_, hall⟩
      intro a ha
      rcases List.mem_cons.mp ha with rfl | ha
      · exact ⟨i, x, rfl⟩
      · exact hruns a ha
    · refine ⟨[], p, .nil, fun a ha => absurd ha List.not_mem_nil, fun t ht => ?_⟩
      by_contra hfin
      exact hdone ⟨t, ht, hfin⟩

end Pool

end SmartSfp.Lib
