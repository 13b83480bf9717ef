import Mathlib.Algebra.Order.Ring.Nat
import Mathlib.Data.List.TakeDrop
import Mathlib.Tactic.Common

/-!
# Exec — programs over one mutable state that may return an error or panic

A function such as `fn f(.., out: &mut [T]) -> Result<A, E>` ends in one of three ways: it returns
`Ok` or `Err`, and in both cases leaves the state it borrowed in some condition, or it panics.
`Outcome` records which; `Exec` is the monad of such programs.  `?` is `bind`, `return Err(e)` is
`throw e`, and every partial operation of the language (machine arithmetic, indexing, slicing,
`copy_from_slice`, allocation) is a program that panics where the language does.  Unchecked
`usize` overflow is counted as a panic too, so that a program shown not to panic does not wrap.
-/

namespace SmartSfp.Lib

/-- Number of values of `usize` on a 64-bit target. -/
def usizeSize : Nat := 2 ^ 64

/-- `isize::MAX`: no allocation, slice or vector is longer. -/
def isizeMax : Nat := 2 ^ 63 - 1

/-- What stopped a program that did not return. -/
inductive Panic where
  | overflow
  | outOfBounds
  | lengthMismatch
  | capacity
  | assertion
  | unreachable
  deriving DecidableEq, Repr

/-- How a program over a state `σ` ends. -/
inductive Outcome (σ ε α : Type) where
  | ok (value : α) (state : σ)
  | err (error : ε) (state : σ)
  | panic (reason : Panic)
  deriving DecidableEq, Repr

/-- A program that borrows a state `σ` mutably and returns a `Result<α, ε>`. -/
structure Exec (σ ε α : Type) where
  run : σ → Outcome σ ε α

variable {σ ε ε' α β : Type}

namespace Outcome

/-- Continue an `Ok`; an error or a panic ends the program. -/
def bind : Outcome σ ε α → (α → σ → Outcome σ ε β) → Outcome σ ε β
  | ok a s, f => f a s
  | err e s, _ => err e s
  | panic p, _ => panic p

@[simp] theorem bind_ok (a : α) (s : σ) (f : α → σ → Outcome σ ε β) :
    (Outcome.ok a s).bind f = f a s := rfl

@[simp] theorem bind_err (e : ε) (s : σ) (f : α → σ → Outcome σ ε β) :
    (Outcome.err e s).bind f = .err e s := rfl

@[simp] theorem bind_panic (p : Panic) (f : α → σ → Outcome σ ε β) :
    (Outcome.panic p).bind f = .panic p := rfl

theorem bind_eq_ok_iff {x : Outcome σ ε α} {f : α → σ → Outcome σ ε β} {b : β} {t : σ} :
    x.bind f = .ok b t ↔ ∃ a s, x = .ok a s ∧ f a s = .ok b t := by
  cases x <;> simp

/-- The program returned: it did not panic. -/
def Returns : Outcome σ ε α → Prop
  | panic _ => False
  | _ => True

@[simp] theorem returns_ok (a : α) (s : σ) : (Outcome.ok a s : Outcome σ ε α).Returns := trivial

@[simp] theorem returns_err (e : ε) (s : σ) : (Outcome.err e s : Outcome σ ε α).Returns := trivial

@[simp] theorem not_returns_panic (p : Panic) : ¬ (Outcome.panic p : Outcome σ ε α).Returns := id

/-- A property of the state in which a program leaves what it borrowed, whichever way it returns. -/
def Leaves (P : σ → Prop) : Outcome σ ε α → Prop
  | ok _ s => P s
  | err _ s => P s
  | panic _ => True

end Outcome

namespace Exec

/-- `return Err(e)`. -/
def fail (e : ε) : Exec σ ε α := ⟨fun s => .err e s⟩

/-- `panic!` and the panics of the language itself. -/
def abort (p : Panic) : Exec σ ε α := ⟨fun _ => .panic p⟩

/-- `if c { return Err(e) }`. -/
def failIf (c : Prop) [Decidable c] (e : ε) : Exec σ ε Unit :=
  ⟨fun s => if c then .err e s else .ok () s⟩

/-- `x.ok_or(e)?`. -/
def okOr (x : Option α) (e : ε) : Exec σ ε α :=
  ⟨fun s => match x with
    | some a => .ok a s
    | none => .err e s⟩

/-- `x.map_err(f)?` on a `Result` already at hand. -/
def ofExcept (f : ε → ε') (x : Except ε α) : Exec σ ε' α :=
  ⟨fun s => match x with
    | .ok a => .ok a s
    | .error e => .err (f e) s⟩

/-- A function without errors whose body leaves with `return` from inside: an early return is the
error of the body. -/
def returning (x : Exec σ α α) : Exec σ ε α :=
  ⟨fun s => match x.run s with
    | .ok a t => .ok a t
    | .err a t => .ok a t
    | .panic p => .panic p⟩

/-- Read the borrowed state. -/
def get : Exec σ ε σ := ⟨fun s => .ok s s⟩

/-- Update the borrowed state. -/
def modify (f : σ → σ) : Exec σ ε Unit := ⟨fun s => .ok () (f s)⟩

instance : Monad (Exec σ ε) where
  pure a := ⟨fun s => .ok a s⟩
  bind x f := ⟨fun s => (x.run s).bind fun a t => (f a).run t⟩

@[simp] theorem run_pure (a : α) (s : σ) : (pure a : Exec σ ε α).run s = .ok a s := rfl

@[simp] theorem run_bind (x : Exec σ ε α) (f : α → Exec σ ε β) (s : σ) :
    (x >>= f).run s = (x.run s).bind fun a t => (f a).run t := rfl

@[simp] theorem run_map (f : α → β) (x : Exec σ ε α) (s : σ) :
    (f <$> x).run s = (x.run s).bind fun a t => .ok (f a) t := rfl

@[simp] theorem run_fail (e : ε) (s : σ) : (fail e : Exec σ ε α).run s = .err e s := rfl

@[simp] theorem run_abort (p : Panic) (s : σ) : (abort p : Exec σ ε α).run s = .panic p := rfl

@[simp] theorem run_failIf (c : Prop) [Decidable c] (e : ε) (s : σ) :
    (failIf c e : Exec σ ε Unit).run s = if c then .err e s else .ok () s := rfl

@[simp] theorem run_okOr_some (a : α) (e : ε) (s : σ) :
    (okOr (some a) e : Exec σ ε α).run s = .ok a s := rfl

@[simp] theorem run_okOr_none (e : ε) (s : σ) :
    (okOr none e : Exec σ ε α).run s = .err e s := rfl

@[simp] theorem run_ofExcept_ok (f : ε → ε') (a : α) (s : σ) :
    (ofExcept f (.ok a) : Exec σ ε' α).run s = .ok a s := rfl

@[simp] theorem run_ofExcept_error (f : ε → ε') (e : ε) (s : σ) :
    (ofExcept f (.error e) : Exec σ ε' α).run s = .err (f e) s := rfl

theorem run_returning_ok {x : Exec σ α α} {a : α} {s t : σ} (h : x.run s = .ok a t) :
    (returning x : Exec σ ε α).run s = .ok a t := by
  simp only [returning, h]

theorem run_returning_err {x : Exec σ α α} {a : α} {s t : σ} (h : x.run s = .err a t) :
    (returning x : Exec σ ε α).run s = .ok a t := by
  simp only [returning, h]

@[simp] theorem run_get (s : σ) : (get : Exec σ ε σ).run s = .ok s s := rfl

@[simp] theorem run_modify (f : σ → σ) (s : σ) :
    (modify f : Exec σ ε Unit).run s = .ok () (f s) := rfl

@[simp] theorem run_ite {c : Prop} [Decidable c] (x y : Exec σ ε α) (s : σ) :
    (if c then x else y).run s = if c then x.run s else y.run s := by
  split <;> rfl

instance : LawfulMonad (Exec σ ε) := by
  refine LawfulMonad.mk' (Exec σ ε) (fun x => ?_) (fun _ _ => rfl) (fun x f g => ?_)
  · change Exec.mk _ = x
    congr 1
    funext s
    cases x.run s <;> rfl
  · change Exec.mk _ = Exec.mk _
    congr 1
    funext s
    change ((x.run s).bind fun a t => (f a).run t).bind (fun b t => (g b).run t) = _
    cases x.run s <;> rfl

/-! ## Machine arithmetic and immutable slices -/

/-- `a + b` on `usize`. -/
def addUsize (a b : Nat) : Exec σ ε Nat :=
  if a + b < usizeSize then pure (a + b) else abort .overflow

/-- `a - b` on `usize`. -/
def subUsize (a b : Nat) : Exec σ ε Nat :=
  if b ≤ a then pure (a - b) else abort .overflow

/-- `&src[lo..hi]`. -/
def slice (src : List α) (lo hi : Nat) : Exec σ ε (List α) :=
  if lo ≤ hi ∧ hi ≤ src.length then pure ((src.take hi).drop lo) else abort .outOfBounds

/-- `src[i]`. -/
def index (src : List α) (i : Nat) : Exec σ ε α :=
  match src[i]? with
  | some a => pure a
  | none => abort .outOfBounds

/-- `vec![a; n]`. -/
def vec (a : α) (n : Nat) : Exec σ ε (List α) :=
  if n ≤ isizeMax then pure (List.replicate n a) else abort .capacity

/-- `debug_assert!(c)`. -/
def debugAssert (c : Prop) [Decidable c] : Exec σ ε Unit :=
  if c then pure () else abort .assertion

theorem run_addUsize {a b : Nat} (h : a + b < usizeSize) (s : σ) :
    (addUsize a b : Exec σ ε Nat).run s = .ok (a + b) s := by
  rw [addUsize, if_pos h]
  rfl

theorem run_subUsize {a b : Nat} (h : b ≤ a) (s : σ) :
    (subUsize a b : Exec σ ε Nat).run s = .ok (a - b) s := by
  rw [subUsize, if_pos h]
  rfl

theorem run_slice {src : List α} {lo hi : Nat} (hlo : lo ≤ hi) (hhi : hi ≤ src.length) (s : σ) :
    (slice src lo hi : Exec σ ε (List α)).run s = .ok ((src.take hi).drop lo) s := by
  rw [slice, if_pos ⟨hlo, hhi⟩]
  rfl

theorem run_vec {a : α} {n : Nat} (h : n ≤ isizeMax) (s : σ) :
    (vec a n : Exec σ ε (List α)).run s = .ok (List.replicate n a) s := by
  rw [vec, if_pos h]
  rfl

/-! ## Programs that end before they differ -/

variable {ι : Type}

/-- The programs of a family all fail on `s`, with one error, and leave `s` alone. -/
def Refuse (x : ι → Exec σ ε α) (s : σ) : Prop := ∃ e, ∀ i, (x i).run s = .err e s

theorem refuse_bind_err {y : Exec σ ε β} {x : ι → β → Exec σ ε α} {e : ε} {s : σ}
    (hy : y.run s = .err e s) : Refuse (fun i => y >>= x i) s :=
  ⟨e, fun i => by rw [run_bind, hy, Outcome.bind_err]⟩

theorem refuse_bind_ok {y : Exec σ ε β} {x : ι → β → Exec σ ε α} {b : β} {s : σ}
    (hy : y.run s = .ok b s) (h : Refuse (fun i => x i b) s) : Refuse (fun i => y >>= x i) s := by
  obtain ⟨e, he⟩ := h
  refine ⟨e, fun i => ?_⟩
  rw [run_bind, hy, Outcome.bind_ok]
  exact he i

/-- Behind a check the family has to refuse only where the check passes. -/
theorem refuse_failIf {c : Prop} [Decidable c] {e : ε} {x : ι → Unit → Exec σ ε α} {s : σ}
    (h : ¬ c → Refuse (fun i => x i ()) s) : Refuse (fun i => failIf c e >>= x i) s := by
  by_cases hc : c
  · exact refuse_bind_err (by rw [run_failIf, if_pos hc])
  · exact refuse_bind_ok (by rw [run_failIf, if_neg hc]) (h hc)

end Exec

end SmartSfp.Lib
