import SmartSfp.Lib.Exec

/-!
# Buffer — programs that write through a `&mut [T]`

The borrowed state is a list; a slice cannot grow or shrink, so a program that only writes through
it keeps the length (`Keeps`).  The rules for `copy_from_slice` and for reborrowing a part of the
buffer are stated over a buffer split into the pieces they touch: a write replaces one piece and
leaves its neighbours alone.
-/

namespace SmartSfp.Lib

variable {σ ε ε' α β γ : Type}

/-- A slice or vector that exists in memory. -/
structure Slice (α : Type) where
  data : List α
  length_le : data.length ≤ isizeMax

namespace Outcome

/-- Reinterpret the state in which a program left its buffer. -/
def mapState {τ : Type} (f : σ → τ) : Outcome σ ε α → Outcome τ ε α
  | ok a s => ok a (f s)
  | err e s => err e (f s)
  | panic p => panic p

/-- Convert the error. -/
def mapErr (f : ε → ε') : Outcome σ ε α → Outcome σ ε' α
  | ok a s => ok a s
  | err e s => err (f e) s
  | panic p => panic p

@[simp] theorem mapState_ok {τ : Type} (f : σ → τ) (a : α) (s : σ) :
    (Outcome.ok a s : Outcome σ ε α).mapState f = .ok a (f s) := rfl

@[simp] theorem mapState_err {τ : Type} (f : σ → τ) (e : ε) (s : σ) :
    (Outcome.err e s : Outcome σ ε α).mapState f = .err e (f s) := rfl

@[simp] theorem mapState_panic {τ : Type} (f : σ → τ) (p : Panic) :
    (Outcome.panic p : Outcome σ ε α).mapState f = .panic p := rfl

@[simp] theorem mapErr_ok (f : ε → ε') (a : α) (s : σ) :
    (Outcome.ok a s).mapErr f = .ok a s := rfl

@[simp] theorem mapErr_err (f : ε → ε') (e : ε) (s : σ) :
    (Outcome.err e s : Outcome σ ε α).mapErr f = .err (f e) s := rfl

@[simp] theorem mapErr_panic (f : ε → ε') (p : Panic) :
    (Outcome.panic p : Outcome σ ε α).mapErr f = .panic p := rfl

end Outcome

namespace Exec

/-- `x.map_err(f)?`, also the conversion `?` makes on its own. -/
def mapErr (f : ε → ε') (x : Exec σ ε α) : Exec σ ε' α := ⟨fun s => (x.run s).mapErr f⟩

/-- Call `x` on a local `buf` and look at its `Result`: what it returned and what it left in `buf`.
A panic of the callee is one of the caller. -/
def callWith {τ : Type} (buf : τ) (x : Exec τ ε α) : Exec σ ε' (Except ε α × τ) := ⟨fun s =>
  match x.run buf with
  | .ok a t => .ok (.ok a, t) s
  | .err e t => .ok (.error e, t) s
  | .panic p => .panic p⟩

/-- `x(.., &mut buf)?` on a local `buf`. -/
def callTry {τ : Type} (f : ε → ε') (buf : τ) (x : Exec τ ε α) : Exec σ ε' (α × τ) := do
  let (result, t) ← callWith buf x
  let a ← ofExcept f result
  return (a, t)

/-- `out.len()`. -/
def len : Exec (List α) ε Nat := ⟨fun s => .ok s.length s⟩

/-- `out[lo..hi].copy_from_slice(src)`. -/
def copyFromSlice (lo hi : Nat) (src : List α) : Exec (List α) ε Unit := ⟨fun s =>
  if lo ≤ hi ∧ hi ≤ s.length then
    if src.length = hi - lo then .ok () (s.take lo ++ src ++ s.drop hi) else .panic .lengthMismatch
  else .panic .outOfBounds⟩

/-- Run `x` on the reborrowed part `&mut out[lo..hi]`. -/
def window (lo hi : Nat) (x : Exec (List α) ε β) : Exec (List α) ε β := ⟨fun s =>
  if lo ≤ hi ∧ hi ≤ s.length then
    (x.run ((s.take hi).drop lo)).mapState fun w => s.take lo ++ w ++ s.drop hi
  else .panic .outOfBounds⟩

/-- `out[i] = a`. -/
def store (i : Nat) (a : α) : Exec (List α) ε Unit := ⟨fun s =>
  if i < s.length then .ok () (s.set i a) else .panic .outOfBounds⟩

/-- `&out[lo..hi]`. -/
def readRange (lo hi : Nat) : Exec (List α) ε (List α) := do
  slice (← get) lo hi

@[simp] theorem run_mapErr (f : ε → ε') (x : Exec σ ε α) (s : σ) :
    (mapErr f x).run s = (x.run s).mapErr f := rfl

@[simp] theorem run_len (s : List α) : (len : Exec (List α) ε Nat).run s = .ok s.length s := rfl

/-! ## Buffers split into pieces -/

theorem run_copyFromSlice {a b c src : List α} {lo hi : Nat} (hlo : lo = a.length)
    (hhi : hi = a.length + b.length) (hsrc : src.length = b.length) :
    (copyFromSlice lo hi src : Exec (List α) ε Unit).run (a ++ b ++ c) =
      .ok () (a ++ src ++ c) := by
  subst hlo hhi
  have hrange : a.length ≤ a.length + b.length ∧
      a.length + b.length ≤ (a ++ b ++ c).length := by
    simp only [List.length_append]
    omega
  have hdrop : (a ++ b ++ c).drop (a.length + b.length) = c := by
    rw [← List.length_append, List.drop_left]
  simp only [copyFromSlice, if_pos hrange]
  rw [if_pos (by omega), hdrop, List.append_assoc a b c, List.take_left]

theorem run_window {a b c : List α} {lo hi : Nat} (x : Exec (List α) ε β) (hlo : lo = a.length)
    (hhi : hi = a.length + b.length) :
    (window lo hi x).run (a ++ b ++ c) = (x.run b).mapState fun w => a ++ w ++ c := by
  subst hlo hhi
  have hrange : a.length ≤ a.length + b.length ∧
      a.length + b.length ≤ (a ++ b ++ c).length := by
    simp only [List.length_append]
    omega
  have htake : (a ++ b ++ c).take (a.length + b.length) = a ++ b := by
    rw [← List.length_append, List.take_left]
  have hdrop : (a ++ b ++ c).drop (a.length + b.length) = c := by
    rw [← List.length_append, List.drop_left]
  simp only [window, if_pos hrange]
  rw [htake, hdrop, List.drop_left, List.append_assoc a b c, List.take_left]

theorem run_copyFromSlice_front {b c src : List α} {hi : Nat} (hhi : hi = b.length)
    (hsrc : src.length = b.length) :
    (copyFromSlice 0 hi src : Exec (List α) ε Unit).run (b ++ c) = .ok () (src ++ c) :=
  run_copyFromSlice (a := []) rfl (by simpa using hhi) hsrc

theorem run_window_front {b c : List α} {hi : Nat} (x : Exec (List α) ε β) (hhi : hi = b.length) :
    (window 0 hi x).run (b ++ c) = (x.run b).mapState fun w => w ++ c :=
  run_window (a := []) x rfl (by simpa using hhi)

theorem run_readRange {a b c : List α} {lo hi : Nat} (hlo : lo = a.length)
    (hhi : hi = a.length + b.length) :
    (readRange lo hi : Exec (List α) ε (List α)).run (a ++ b ++ c) = .ok b (a ++ b ++ c) := by
  subst hlo hhi
  simp only [readRange, run_bind, run_get, Outcome.bind_ok]
  rw [run_slice (by omega) (by simp only [List.length_append]; omega), ← List.length_append,
    List.take_left, List.drop_left]

theorem run_readRange_front {b c : List α} {hi : Nat} (hhi : hi = b.length) :
    (readRange 0 hi : Exec (List α) ε (List α)).run (b ++ c) = .ok b (b ++ c) :=
  run_readRange (a := []) rfl (by simpa using hhi)

/-- A buffer of at least `n` bytes is a piece of `n` bytes and the rest. -/
theorem exists_split {n : Nat} {s : List α} (h : n ≤ s.length) :
    ∃ a b, s = a ++ b ∧ a.length = n ∧ b = s.drop n :=
  ⟨s.take n, s.drop n, (List.take_append_drop n s).symm, by simp [h], rfl⟩

/-! ## Programs that keep the length of their buffer -/

/-- A slice is as long after the call as before, however the call returns. -/
def Keeps (x : Exec (List α) ε β) : Prop :=
  ∀ s, (x.run s).Leaves fun t => t.length = s.length

theorem keeps_pure (b : β) : Keeps (pure b : Exec (List α) ε β) := fun _ => rfl

theorem keeps_fail (e : ε) : Keeps (fail e : Exec (List α) ε β) := fun _ => rfl

theorem keeps_abort (p : Panic) : Keeps (abort p : Exec (List α) ε β) := fun _ => trivial

theorem keeps_failIf (c : Prop) [Decidable c] (e : ε) :
    Keeps (failIf c e : Exec (List α) ε Unit) := by
  intro s
  rw [run_failIf]
  split <;> rfl

theorem keeps_okOr (x : Option β) (e : ε) : Keeps (okOr x e : Exec (List α) ε β) := by
  cases x <;> exact fun _ => rfl

theorem keeps_len : Keeps (len : Exec (List α) ε Nat) := fun _ => rfl

theorem keeps_bind {x : Exec (List α) ε β} {f : β → Exec (List α) ε γ} (hx : Keeps x)
    (hf : ∀ b, Keeps (f b)) : Keeps (x >>= f) := by
  intro s
  have hs := hx s
  rw [run_bind]
  cases h : x.run s with
  | ok b t =>
    rw [h] at hs
    have ht := hf b t
    rw [Outcome.bind_ok]
    cases h' : (f b).run t with
    | ok c u => rw [h'] at ht; exact Eq.trans ht hs
    | err e u => rw [h'] at ht; exact Eq.trans ht hs
    | panic p => trivial
  | err e t => rw [h] at hs; exact hs
  | panic p => trivial

theorem keeps_ite {c : Prop} [Decidable c] {x y : Exec (List α) ε β} (hx : Keeps x)
    (hy : Keeps y) : Keeps (if c then x else y) := by
  split
  · exact hx
  · exact hy

theorem keeps_mapErr {f : ε → ε'} {x : Exec (List α) ε β} (hx : Keeps x) :
    Keeps (mapErr f x) := by
  intro s
  have hs := hx s
  rw [run_mapErr]
  cases h : x.run s <;> rw [h] at hs <;> exact hs

theorem keeps_addUsize (a b : Nat) : Keeps (addUsize a b : Exec (List α) ε Nat) :=
  keeps_ite (keeps_pure _) (keeps_abort _)

theorem keeps_subUsize (a b : Nat) : Keeps (subUsize a b : Exec (List α) ε Nat) :=
  keeps_ite (keeps_pure _) (keeps_abort _)

theorem keeps_callWith {τ : Type} (buf : τ) (x : Exec τ ε' β) :
    Keeps (callWith buf x : Exec (List α) ε (Except ε' β × τ)) := by
  intro s
  simp only [callWith]
  cases x.run buf <;> first | rfl | trivial

theorem keeps_slice (src : List β) (lo hi : Nat) :
    Keeps (slice src lo hi : Exec (List α) ε (List β)) :=
  keeps_ite (keeps_pure _) (keeps_abort _)

theorem keeps_copyFromSlice (lo hi : Nat) (src : List α) :
    Keeps (copyFromSlice lo hi src : Exec (List α) ε Unit) := by
  intro s
  simp only [copyFromSlice]
  split
  · split
    · simp only [Outcome.Leaves, List.length_append, List.length_take, List.length_drop]
      omega
    · trivial
  · trivial

theorem keeps_window {lo hi : Nat} {x : Exec (List α) ε β} (hx : Keeps x) :
    Keeps (window lo hi x) := by
  intro s
  simp only [window]
  split
  · rename_i hrange
    have hs := hx ((s.take hi).drop lo)
    cases h : x.run ((s.take hi).drop lo) with
    | ok b w =>
      rw [h] at hs
      simp only [Outcome.Leaves, Outcome.mapState_ok, List.length_append, List.length_take,
        List.length_drop] at hs ⊢
      omega
    | err e w =>
      rw [h] at hs
      simp only [Outcome.Leaves, Outcome.mapState_err, List.length_append, List.length_take,
        List.length_drop] at hs ⊢
      omega
    | panic p => trivial
  · trivial

/-! ## Programs that leave the borrowed state alone -/

/-- The program does not touch the state it borrows, does not look at it and does not panic. -/
def Detached (x : Exec σ ε α) : Prop :=
  (∃ a, ∀ s, x.run s = .ok a s) ∨ ∃ e, ∀ s, x.run s = .err e s

theorem Detached.state_eq_of_ok {x : Exec σ ε α} (hx : Detached x) {s t : σ} {a : α}
    (h : x.run s = .ok a t) : t = s := by
  rcases hx with ⟨b, hb⟩ | ⟨e, he⟩
  · rw [hb] at h
    cases h
    rfl
  · rw [he] at h
    cases h

theorem Detached.state_eq_of_err {x : Exec σ ε α} (hx : Detached x) {s t : σ} {e : ε}
    (h : x.run s = .err e t) : t = s := by
  rcases hx with ⟨b, hb⟩ | ⟨f, hf⟩
  · rw [hb] at h
    cases h
  · rw [hf] at h
    cases h
    rfl

theorem Detached.returns {x : Exec σ ε α} (hx : Detached x) (s : σ) : (x.run s).Returns := by
  rcases hx with ⟨b, hb⟩ | ⟨e, he⟩
  · rw [hb]
    trivial
  · rw [he]
    trivial

theorem detached_pure (a : α) : Detached (pure a : Exec σ ε α) := .inl ⟨a, fun _ => rfl⟩

theorem detached_fail (e : ε) : Detached (fail e : Exec σ ε α) := .inr ⟨e, fun _ => rfl⟩

theorem detached_failIf (c : Prop) [Decidable c] (e : ε) :
    Detached (failIf c e : Exec σ ε Unit) := by
  by_cases h : c
  · exact .inr ⟨e, fun s => by rw [run_failIf, if_pos h]⟩
  · exact .inl ⟨(), fun s => by rw [run_failIf, if_neg h]⟩

theorem detached_okOr (x : Option α) (e : ε) : Detached (okOr x e : Exec σ ε α) := by
  cases x with
  | none => exact .inr ⟨e, fun _ => rfl⟩
  | some a => exact .inl ⟨a, fun _ => rfl⟩

theorem detached_ofExcept (f : ε → ε') (x : Except ε α) :
    Detached (ofExcept f x : Exec σ ε' α) := by
  cases x with
  | ok a => exact .inl ⟨a, fun _ => rfl⟩
  | error e => exact .inr ⟨f e, fun _ => rfl⟩

theorem detached_bind {x : Exec σ ε α} {f : α → Exec σ ε β} (hx : Detached x)
    (hf : ∀ a, Detached (f a)) : Detached (x >>= f) := by
  rcases hx with ⟨a, ha⟩ | ⟨e, he⟩
  · rcases hf a with ⟨b, hb⟩ | ⟨e, he⟩
    · exact .inl ⟨b, fun s => by rw [run_bind, ha, Outcome.bind_ok, hb]⟩
    · exact .inr ⟨e, fun s => by rw [run_bind, ha, Outcome.bind_ok, he]⟩
  · exact .inr ⟨e, fun s => by rw [run_bind, he, Outcome.bind_err]⟩

theorem detached_mapErr (f : ε → ε') {x : Exec σ ε α} (hx : Detached x) :
    Detached (mapErr f x) := by
  rcases hx with ⟨a, ha⟩ | ⟨e, he⟩
  · exact .inl ⟨a, fun s => by rw [run_mapErr, ha, Outcome.mapErr_ok]⟩
  · exact .inr ⟨f e, fun s => by rw [run_mapErr, he, Outcome.mapErr_err]⟩

/-- After a call with `?` the program goes on with what a successful call returned. -/
theorem detached_callTry_bind {τ : Type} (f : ε → ε') {buf : τ} {x : Exec τ ε α}
    {k : α × τ → Exec σ ε' β} (hx : (x.run buf).Returns)
    (hk : ∀ a t, x.run buf = .ok a t → Detached (k (a, t))) :
    Detached (callTry f buf x >>= k) := by
  cases h : x.run buf with
  | ok a t =>
    have hcall : (callTry f buf x : Exec σ ε' (α × τ)) = pure (a, t) := by
      simp only [callTry, callWith, h]
      rfl
    rw [hcall, pure_bind]
    exact hk a t h
  | err e t =>
    have hcall : (callTry f buf x : Exec σ ε' (α × τ)) = fail (f e) := by
      simp only [callTry, callWith, h]
      rfl
    exact .inr ⟨f e, fun s => by rw [run_bind, hcall, run_fail, Outcome.bind_err]⟩
  | panic p => exact absurd (h ▸ hx) (Outcome.not_returns_panic p)

end Exec

end SmartSfp.Lib
