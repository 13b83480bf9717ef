import SmartSfp.Lib.Run

/-!
# Script — programs that ask and are answered

A program asks one question after another, each time goes on with the answer, and stops with a
result.  What it runs against is a state that may change with every question, and may have more
than one answer to it.
-/

namespace SmartSfp.Lib

inductive Script (Q R α : Type) where
  | stop (result : α)
  | ask (question : Q) (next : R → Script Q R α)

namespace Script

variable {Q R α σ : Type} {serves : σ → Q → R → σ → Prop} {good : Q → Prop}
  {post : α → σ → Prop}
  {script : Script Q R α} {s s' : σ} {log : List (Q × R)}

/-- A question is asked and answered. -/
def Asks (serves : σ → Q → R → σ → Prop) (p : Script Q R α × σ) (x : Q × R)
    (p' : Script Q R α × σ) : Prop :=
  ∃ next, p.1 = .ask x.1 next ∧ serves p.2 x.1 x.2 p'.2 ∧ p'.1 = next x.2

theorem asks_ask {q : Q} {r : R} {next : R → Script Q R α} (h : serves s q r s') :
    Asks serves (.ask q next, s) (q, r) (next r, s') :=
  ⟨next, rfl, h, rfl⟩

/-- A program that has stopped asks nothing. -/
theorem stop_of_run {a : α} {p' : Script Q R α × σ} (hrun : Run (Asks serves) (.stop a, s) log p') :
    log = [] ∧ p' = (.stop a, s) := by
  induction hrun with
  | nil => exact ⟨rfl, rfl⟩
  | snoc _ last ih =>
    obtain ⟨next, hask, -⟩ := last
    rw [ih.2] at hask
    cases hask

/-- A program that has stopped has asked its first question. -/
theorem ask_of_run {q : Q} {next : R → Script Q R α} {a : α}
    (hrun : Run (Asks serves) (.ask q next, s) log (.stop a, s')) :
    ∃ r t later, log = (q, r) :: later ∧ serves s q r t ∧
      Run (Asks serves) (next r, t) later (.stop a, s') := by
  cases log with
  | nil => cases hrun.eq_of_nil
  | cons x later =>
    obtain ⟨⟨script, t⟩, ⟨next', hask, hserves, hnext⟩, hlater⟩ := hrun.exists_first
    cases hask
    cases hnext
    exact ⟨x.2, t, later, rfl, hserves, hlater⟩

/-- Whatever the answers, the program asks only what is `good`, and stops only in what `post`
says. -/
def Ensures (serves : σ → Q → R → σ → Prop) (good : Q → Prop) (post : α → σ → Prop) :
    Script Q R α → σ → Prop
  | .stop a, s => post a s
  | .ask q next, s => good q ∧ ∀ r s', serves s q r s' → (next r).Ensures serves good post s'

theorem ensures_ask {q : Q} {next : R → Script Q R α} (hgood : good q)
    (h : ∀ r s', serves s q r s' → (next r).Ensures serves good post s') :
    Ensures serves good post (.ask q next) s :=
  ⟨hgood, h⟩

/-- What a program ensures it ensures after each of its questions. -/
theorem Ensures.run {p p' : Script Q R α × σ} (h : p.1.Ensures serves good post p.2)
    (hrun : Run (Asks serves) p log p') :
    p'.1.Ensures serves good post p'.2 ∧ ∀ x ∈ log, good x.1 := by
  induction hrun with
  | nil => exact ⟨h, fun x hx => absurd hx List.not_mem_nil⟩
  | @snoc log _ _ x _ last ih =>
    obtain ⟨next, hask, hserves, hnext⟩ := last
    obtain ⟨hleft, hlog⟩ := ih
    rw [hask] at hleft
    rw [hnext]
    refine ⟨hleft.2 _ _ hserves, fun y hy => ?_⟩
    rcases List.mem_append.mp hy with hy | hy
    · exact hlog y hy
    · rw [List.mem_singleton.mp hy]
      exact hleft.1

/-- Where a run of the program has stopped. -/
theorem Ensures.stopped {a : α} (h : script.Ensures serves good post s)
    (hrun : Run (Asks serves) (script, s) log (.stop a, s')) : post a s' :=
  (h.run hrun).1

/-- Where every good question has an answer, the program can come to its end. -/
theorem Ensures.exists_stop (h : script.Ensures serves good post s)
    (hserves : ∀ s q, good q → ∃ r s', serves s q r s') :
    ∃ log a s', Run (Asks serves) (script, s) log (.stop a, s') := by
  induction script generalizing s with
  | stop a => exact ⟨[], a, s, .nil⟩
  | ask q next ih =>
    obtain ⟨r, s', hanswer⟩ := hserves s q h.1
    obtain ⟨log, a, t, hrun⟩ := ih r (h.2 r s' hanswer)
    exact ⟨(q, r) :: log, a, t, Run.cons (asks_ask hanswer) hrun⟩

end Script

end SmartSfp.Lib
