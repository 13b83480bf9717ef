import SmartSfp.Cryptod.Interleave
import SmartSfp.Cryptod.Sequential

/-!
# Solo — the sequential daemon is one of the interleavings

A handler task that is left alone until it answers does what `handle` does, so a run of exchanges is
the run of the pool in which each task is started when the one before has answered.
-/

namespace SmartSfp

namespace Cryptod

open Lib Exec Ipc

variable {crate : Gcm.Crate} {elapsed : UInt64} {req : Request} {ts : List Task}
  {s t : CryptodState}

/-- A step of the task started last. -/
theorem step_last {sh sh' : Shared} {pc pc' : Pc}
    (h : requestStep crate ts.length elapsed sh req pc = some (sh', pc')) :
    Pool.Step (daemon crate) ⟨sh, ts ++ [⟨req, pc⟩]⟩ (.run ts.length elapsed)
      ⟨sh', ts ++ [⟨req, pc'⟩]⟩ := by
  have hget : (ts ++ [⟨req, pc⟩] : List Task)[ts.length]? = some ⟨req, pc⟩ := by
    rw [List.getElem?_append_right (Nat.le_refl _), Nat.sub_self]
    rfl
  have hset : (ts ++ [⟨req, pc⟩] : List Task).set ts.length ⟨req, pc'⟩ = ts ++ [⟨req, pc'⟩] := by
    rw [List.set_append_right _ _ (Nat.le_refl _), Nat.sub_self]
    rfl
  have hstep : (daemon crate).step ts.length elapsed sh ⟨req, pc⟩ = some (sh', ⟨req, pc'⟩) := by
    simp only [daemon, taskStep, h]
  rw [← hset]
  exact Pool.step_run hget hstep

/-- What a body leaves is what the sequential handler returns. -/
theorem finish_of_returning {x : Exec CryptodState Response Response} {response : Response}
    (h : (returning x : Exec CryptodState Empty Response).run s = .ok response t) :
    finish ⟨s, none⟩ (x.run s) = (⟨t, none⟩, .done response) := by
  simp only [returning] at h
  cases hx : x.run s with
  | ok r u =>
    rw [hx] at h
    cases h
    rfl
  | err r u =>
    rw [hx] at h
    cases h
    rfl
  | panic reason =>
    rw [hx] at h
    cases h

/-- The steps of a task on its own, from its start to its answer. -/
def Alone (crate : Gcm.Crate) (i : Nat) (req : Request) (a : Shared × Pc) (_ : Unit)
    (b : Shared × Pc) : Prop :=
  ∃ elapsed, requestStep crate i elapsed a.1 req a.2 = some b

theorem run_of_alone {a b : Shared × Pc} {ls : List Unit}
    (h : Run (Alone crate ts.length req) a ls b) :
    ∃ acts, Run (Pool.Step (daemon crate)) ⟨a.1, ts ++ [⟨req, a.2⟩]⟩ acts
      ⟨b.1, ts ++ [⟨req, b.2⟩]⟩ := by
  induction h with
  | nil => exact ⟨[], .nil⟩
  | snoc _ hlast ih =>
    obtain ⟨acts, hacts⟩ := ih
    obtain ⟨elapsed, hstep⟩ := hlast
    exact ⟨_, hacts.snoc (step_last hstep)⟩

/-- A status takes five steps, and finds in each what it found before. -/
theorem alone_getStatus (i : Nat) (elapsed : UInt64) (s : CryptodState) :
    ∃ ls, Run (Alone crate i .getStatus) (⟨s, none⟩, .received) ls
      (⟨s, none⟩, .done (.status (report elapsed s.activeAlgo s))) := by
  have h₁ : Alone crate i .getStatus (⟨s, none⟩, .received) ()
      (⟨s, none⟩, .statusKey s.activeAlgo) := ⟨elapsed, rfl⟩
  have h₂ : Alone crate i .getStatus (⟨s, none⟩, .statusKey s.activeAlgo) ()
      (⟨s, some i⟩, .loadSealed (report elapsed s.activeAlgo s)) := ⟨elapsed, rfl⟩
  have h₃ : Alone crate i .getStatus
      (⟨s, some i⟩, .loadSealed (report elapsed s.activeAlgo s)) ()
      (⟨s, some i⟩, .loadOpened (report elapsed s.activeAlgo s)) := ⟨elapsed, rfl⟩
  have h₄ : Alone crate i .getStatus
      (⟨s, some i⟩, .loadOpened (report elapsed s.activeAlgo s)) ()
      (⟨s, some i⟩, .loadErrors (report elapsed s.activeAlgo s)) := ⟨elapsed, rfl⟩
  have h₅ : Alone crate i .getStatus
      (⟨s, some i⟩, .loadErrors (report elapsed s.activeAlgo s)) ()
      (⟨s, none⟩, .done (.status (report elapsed s.activeAlgo s))) := ⟨elapsed, rfl⟩
  exact ⟨_, ((((Run.single h₁).snoc h₂).snoc h₃).snoc h₄).snoc h₅⟩

theorem alone_rotateKey (i : Nat) {p : RotateKeyParams} {response : Response}
    (h : (handle crate elapsed (.rotateKey p)).run s = .ok response t) :
    ∃ ls, Run (Alone crate i (.rotateKey p)) (⟨s, none⟩, .received) ls
      (⟨t, none⟩, .done response) := by
  cases hprep : (rotatePrepare crate p : Exec CryptodState Response Commit).run s with
  | ok c u =>
    obtain ⟨rfl, -⟩ := rotatePrepare_eq_ok crate hprep
    have hrun : (handle crate elapsed (.rotateKey p)).run u = .ok .ok (u.commit c) :=
      run_returning_ok (by rw [run_bind, hprep]; rfl)
    rw [hrun] at h
    cases h
    -- one step prepares, and each of the three stores is one
    have h₁ : Alone crate i (.rotateKey p) (⟨u, none⟩, .received) ()
        (⟨u, none⟩, .storeProvider c) :=
      ⟨elapsed, by simp only [requestStep, rotateStep, hprep]⟩
    have h₂ : Alone crate i (.rotateKey p) (⟨u, none⟩, .storeProvider c) ()
        (⟨{ u with provider := c.newProvider }, none⟩, .storeAlgo c) := ⟨elapsed, rfl⟩
    have h₃ : Alone crate i (.rotateKey p)
        (⟨{ u with provider := c.newProvider }, none⟩, .storeAlgo c) ()
        (⟨{ u with provider := c.newProvider, activeAlgo := c.newAlgo }, none⟩, .storeKey c) :=
      ⟨elapsed, rfl⟩
    have h₄ : Alone crate i (.rotateKey p)
        (⟨{ u with provider := c.newProvider, activeAlgo := c.newAlgo }, none⟩, .storeKey c) ()
        (⟨u.commit c, none⟩, .done .ok) := ⟨elapsed, rfl⟩
    exact ⟨_, (((Run.single h₁).snoc h₂).snoc h₃).snoc h₄⟩
  | err r u =>
    obtain ⟨rfl, -⟩ := rotatePrepare_eq_err crate hprep
    have hrun : (handle crate elapsed (.rotateKey p)).run u = .ok r u :=
      run_returning_err (by rw [run_bind, hprep]; rfl)
    rw [hrun] at h
    cases h
    exact ⟨[()], Run.single ⟨elapsed, by simp only [requestStep, rotateStep, hprep]⟩⟩
  | panic reason =>
    have hreturns := (rotatePrepare_detached crate p).returns s
    rw [hprep] at hreturns
    exact absurd hreturns (Outcome.not_returns_panic reason)

theorem alone_encrypt (i : Nat) {p : EncryptParams} {response : Response}
    (h : (handle crate elapsed (.encrypt p)).run s = .ok response t) :
    ∃ ls, Run (Alone crate i (.encrypt p)) (⟨s, none⟩, .received) ls
      (⟨t, none⟩, .done response) := by
  cases hkey : s.activeKey with
  | none =>
    have hbody : (handleEncrypt crate p).run s =
        .err (.error 409 "no active key — call rotate_key first") s := by
      simp only [handleEncrypt, run_bind, run_get, Outcome.bind_ok, hkey, run_okOr_none,
        Outcome.bind_err]
    have hrun := (run_returning_err hbody).symm.trans h
    cases hrun
    exact ⟨[()], Run.single ⟨elapsed, by simp [requestStep, encryptStep, withKey, hkey]⟩⟩
  | some key =>
    -- the copy of the key is a step of its own
    have hbody : (handleEncrypt crate p).run s =
        (sealRequest (s.provider.toProvider crate) key p).run s := by
      simp only [handleEncrypt, run_bind, run_get, Outcome.bind_ok, hkey, run_okOr_some]
    have hfinish := finish_of_returning (x := handleEncrypt crate p) h
    rw [hbody] at hfinish
    have h₁ : Alone crate i (.encrypt p) (⟨s, none⟩, .received) () (⟨s, none⟩, .sealing key) :=
      ⟨elapsed, by simp [requestStep, encryptStep, withKey, hkey]⟩
    have h₂ : Alone crate i (.encrypt p) (⟨s, none⟩, .sealing key) ()
        (⟨t, none⟩, .done response) :=
      ⟨elapsed, by simp only [requestStep, encryptStep, hfinish]⟩
    exact ⟨_, (Run.single h₁).snoc h₂⟩

theorem alone_decrypt (i : Nat) {p : DecryptParams} {response : Response}
    (h : (handle crate elapsed (.decrypt p)).run s = .ok response t) :
    ∃ ls, Run (Alone crate i (.decrypt p)) (⟨s, none⟩, .received) ls
      (⟨t, none⟩, .done response) := by
  cases hkey : s.activeKey with
  | none =>
    have hbody : (handleDecrypt crate p).run s = .err (.error 409 "no active key") s := by
      simp only [handleDecrypt, run_bind, run_get, Outcome.bind_ok, hkey, run_okOr_none,
        Outcome.bind_err]
    have hrun := (run_returning_err hbody).symm.trans h
    cases hrun
    exact ⟨[()], Run.single ⟨elapsed, by simp [requestStep, decryptStep, withKey, hkey]⟩⟩
  | some key =>
    have hbody : (handleDecrypt crate p).run s =
        (openRequest (s.provider.toProvider crate) key p).run s := by
      simp only [handleDecrypt, run_bind, run_get, Outcome.bind_ok, hkey, run_okOr_some]
    have hfinish := finish_of_returning (x := handleDecrypt crate p) h
    rw [hbody] at hfinish
    have h₁ : Alone crate i (.decrypt p) (⟨s, none⟩, .received) () (⟨s, none⟩, .opening key) :=
      ⟨elapsed, by simp [requestStep, decryptStep, withKey, hkey]⟩
    have h₂ : Alone crate i (.decrypt p) (⟨s, none⟩, .opening key) ()
        (⟨t, none⟩, .done response) :=
      ⟨elapsed, by simp only [requestStep, decryptStep, hfinish]⟩
    exact ⟨_, (Run.single h₁).snoc h₂⟩

/-- Every answer of the sequential handler is one a task left alone comes to. -/
theorem alone_of_handle (i : Nat) {response : Response}
    (h : (handle crate elapsed req).run s = .ok response t) :
    ∃ ls, Run (Alone crate i req) (⟨s, none⟩, .received) ls (⟨t, none⟩, .done response) := by
  cases req with
  | getStatus =>
    cases h
    exact alone_getStatus i elapsed s
  | setPolicy p =>
    cases h
    exact ⟨[()], Run.single ⟨elapsed, rfl⟩⟩
  | rotateKey p => exact alone_rotateKey i h
  | encrypt p => exact alone_encrypt i h
  | decrypt p => exact alone_decrypt i h

/-- A run of exchanges is a run of the pool. -/
theorem run_of_exchanges {xs : List Exchange} (h : Run (Handles crate) s xs t) :
    ∃ acts, Run (Pool.Step (daemon crate)) (idle s) acts
      ⟨⟨t, none⟩, xs.map fun x => ⟨x.request, .done x.response⟩⟩ := by
  induction h with
  | nil => exact ⟨[], .nil⟩
  | @snoc ys u v x _ hlast ih =>
    obtain ⟨acts, hacts⟩ := ih
    obtain ⟨ls, halone⟩ := alone_of_handle _ hlast
    obtain ⟨acts', hacts'⟩ := run_of_alone halone
    have hspawn : Pool.Step (daemon crate)
        ⟨⟨u, none⟩, ys.map fun y => ⟨y.request, .done y.response⟩⟩ (.spawn x.request)
        ⟨⟨u, none⟩, (ys.map fun y => ⟨y.request, .done y.response⟩) ++
          [⟨x.request, .received⟩]⟩ := rfl
    rw [List.map_append]
    exact ⟨_, hacts.append (Run.cons hspawn hacts')⟩

end Cryptod

end SmartSfp
