import SmartSfp.Cryptod.Counters
import SmartSfp.Cryptod.Rotation

/-!
# Encryption — encryptions among concurrent rotations

An encryption copies the key under one lock and takes the provider under another.  Between the two,
or while a rotation is half done, the provider can be of another algorithm than the key, and the
encryption is answered with an error that `crypto_errors` counts.  This is the only way a
well-formed encryption fails once there is a key.
-/

namespace SmartSfp

namespace Cryptod

open Lib Exec Ipc

/-- A nonce of the length both algorithms require, and a plaintext the primitive can seal. -/
def Regular (admissible : Octets → Prop) (p : EncryptParams) : Prop :=
  p.nonce.data.length = 12 ∧ admissible p.plaintext.data

/-- A regular encryption takes the provider lock only while the provider has the algorithm of the
key it copied. -/
def Paired (admissible : Octets → Prop) (d : Daemon) (a : Pool.Act Request UInt64) : Prop :=
  ∀ i elapsed p key, a = .run i elapsed → d.tasks[i]? = some ⟨.encrypt p, .sealing key⟩ →
    Regular admissible p → d.shared.state.provider.algo = key.algo

/-- Every regular encryption answered since `s` was answered with a frame, and `crypto_errors`
counts only tasks answered with an error. -/
def Undisturbed (admissible : Octets → Prop) (s : CryptodState) (d : Daemon) : Prop :=
  (∀ p r, ⟨.encrypt p, .done r⟩ ∈ d.tasks → Regular admissible p → ∃ frame, r = .ciphertext frame) ∧
  d.shared.state.cryptoErrors = s.cryptoErrors + UInt64.ofNat (d.tasks.countP Task.counted)

/-- There is a key, and every key in use has the length its algorithm requires. -/
structure Keyed (d : Daemon) : Prop where
  active : ∃ key, d.shared.state.activeKey = some key ∧ key.WellFormed
  held : ∀ t ∈ d.tasks, ∀ key, t.pc = .sealing key → key.WellFormed

variable {crate : Gcm.Crate} {admissible : Octets → Prop} {s s₀ : CryptodState} {d d' : Daemon}
  {a : Pool.Act Request UInt64}

theorem keyed_step (h : Keyed d) (hfor : ∀ t ∈ d.tasks, t.CommitFor crate)
    (hstep : Pool.Step (daemon crate) d a d') : Keyed d' := by
  obtain ⟨key, hkey, hwf⟩ := h.active
  obtain ⟨req, rfl, rfl⟩ | ⟨i, elapsed, t, sh', t', rfl, ht, hmove, rfl⟩ := daemon_cases hstep
  · refine ⟨⟨key, hkey, hwf⟩, fun u hu k hpc => ?_⟩
    rcases List.mem_append.mp hu with hu | hu
    · exact h.held u hu k hpc
    · rw [List.mem_singleton.mp hu] at hpc
      cases hpc
  · constructor
    · cases hmove with
      | @storedKey p c hguard =>
        -- a rotation only replaces the key by another well-formed one
        obtain ⟨r, -, haccepted⟩ := hfor _ (List.mem_of_getElem? ht) c rfl
        exact ⟨c.newKey, rfl, haccepted.commit_for.wellFormed⟩
      | status hmove' =>
        refine ⟨key, ?_, hwf⟩
        rw [hmove'.state_eq]
        exact hkey
      | _ => exact ⟨key, hkey, hwf⟩
    · intro u hu k hpc
      rcases List.mem_or_eq_of_mem_set hu with hu | rfl
      · exact h.held u hu k hpc
      · cases hmove with
        | sealCopied hcopied =>
          cases hpc
          rw [hkey] at hcopied
          cases hcopied
          exact hwf
        | status hmove' => cases hmove' <;> cases hpc
        | _ => cases hpc

theorem undisturbed_step (hseals : crate.aead.SealsOn admissible)
    (h : Undisturbed admissible s d) (hkeyed : Keyed d) (hcond : Paired admissible d a)
    (hstep : Pool.Step (daemon crate) d a d') : Undisturbed admissible s d' := by
  refine ⟨fun p r hp hregular => ?_, Counter.errors.value_step h.2 hstep⟩
  obtain ⟨req, rfl, rfl⟩ | ⟨i, elapsed, t, sh', t', rfl, ht, hmove, rfl⟩ := daemon_cases hstep
  · rcases List.mem_append.mp hp with hp | hp
    · exact h.1 p r hp hregular
    · cases List.mem_singleton.mp hp
  · have hmem := List.mem_of_getElem? ht
    rcases List.mem_or_eq_of_mem_set hp with hp | rfl
    · exact h.1 p r hp hregular
    · cases hmove with
      | sealNoKey hnone =>
        obtain ⟨key, hkey, -⟩ := hkeyed.active
        rw [hnone] at hkey
        cases hkey
      | sealNonce hn => exact absurd hregular.1 hn
      | sealed hn hseal => exact ⟨_, rfl⟩
      | @sealFailed p key e message hn hseal =>
        obtain ⟨frame, hframe⟩ := Wire.exists_ringSealFrame hseals
          (hcond i elapsed p key rfl ht hregular) (hkeyed.held _ hmem key rfl)
          ⟨p.nonce.data, hn⟩ hregular.2
        rw [hframe] at hseal
        cases hseal

/-- A regular encryption that meets a provider of another algorithm fails. -/
theorem not_undisturbed_of_step (hcond : ¬ Paired admissible d a)
    (hstep : Pool.Step (daemon crate) d a d') : ¬ Undisturbed admissible s d' := by
  simp only [Paired, not_forall] at hcond
  obtain ⟨i, elapsed, p, key, rfl, ht, hregular, hne⟩ := hcond
  obtain ⟨t, sh', t', ht', hmove, rfl⟩ := run_cases hstep
  rw [ht] at ht'
  cases ht'
  intro h
  cases hmove with
  | sealNonce hn => exact hn hregular.1
  | sealed hn hseal =>
    obtain ⟨sealed, hexact, -⟩ := (Wire.ringSealFrame_eq_ok_iff crate _ key).mp hseal
    exact hne (AesGcm.sealExact_eq_ok_iff.mp hexact).1.symm
  | sealFailed hn hseal =>
    obtain ⟨frame, hframe⟩ := h.1 p _ (Pool.mem_set_self ht) hregular
    cases hframe

/-- Encryptions go undisturbed by rotations in exactly the runs in which the provider always has the
algorithm of the key an encryption copied.  The run starts where a sequential run with a rotation
answered `Ok` ended, and may hold any other requests. -/
theorem encryption_undisturbed_iff (crate : Gcm.Crate) (admissible : Octets → Prop)
    (hseals : crate.aead.SealsOn admissible) (s₀ : CryptodState)
    (hnew : CryptodState.new = .ok s₀) (xs : List Exchange) (s : CryptodState)
    (hseq : Run (Handles crate) s₀ xs s) (hrot : ∃ x ∈ xs, x.RotatedOk)
    (acts : List (Pool.Act Request UInt64)) (d : Daemon)
    (hrun : Run (Pool.Step (daemon crate)) (idle s) acts d) :
    Run (When (Paired admissible) (Pool.Step (daemon crate))) (idle s) acts d ↔
      ∀ acts' d', acts' <+: acts → Run (Pool.Step (daemon crate)) (idle s) acts' d' →
        Undisturbed admissible s d' := by
  obtain ⟨key, hkey⟩ := exists_key_of_rotatedOk hseq hrot
  have hwf := ((run_coherent hnew hseq).1.pairs hkey).2
  have hstart : Keyed (idle s) := ⟨⟨key, hkey, hwf⟩, fun t ht => absurd ht (not_mem_idle _ _)⟩
  refine Run.when_iff (Pool.step_deterministic (daemon crate)) ?_ ?_ hrun
  · intro acts' d' hwhen
    suffices h : Undisturbed admissible s d' ∧ Keyed d' from h.1
    induction hwhen with
    | nil =>
      exact ⟨⟨fun p r hp => absurd hp (not_mem_idle _ _), (UInt64.add_zero _).symm⟩, hstart⟩
    | snoc run last ih =>
      exact ⟨undisturbed_step hseals ih.1 ih.2 last.1 last.2,
        keyed_step ih.2 (run_commitFor run.forget) last.2⟩
  · intro acts' d' a d'' _ hstep hcond
    exact not_undisturbed_of_step hcond hstep

namespace Kat

/-- An encryption copies key 7; a rotation to key 9 stores its provider; the encryption seals. -/
def mismatchedActs : List (Pool.Act Request UInt64) :=
  [.spawn (.rotateKey rotate128), .spawn (.encrypt encryptText), .run 0 0, .run 1 0, .run 0 0,
    .run 1 0]

def mismatch : Response :=
  .error 500 "seal failed: crypto: algorithm mismatch (provider is Aes128Gcm, key is Aes256Gcm)"

/-- Where that leaves the daemon. -/
def mismatched : Daemon where
  shared := ⟨⟨provider128, .aes256Gcm, some Gcm.Kat.handle256, 0, 0, 1⟩, none⟩
  tasks := [⟨.rotateKey rotate128, .storeAlgo ⟨provider128, .aes128Gcm, Gcm.Kat.handle128⟩⟩,
    ⟨.encrypt encryptText, .done mismatch⟩]

theorem mismatched_run :
    Run (Pool.Step (daemon Gcm.kat)) (idle rotated) mismatchedActs mismatched :=
  Pool.run_of_exec (by rfl)

theorem rotated_run : Run (Handles Gcm.kat) fresh [⟨.rotateKey rotate256, 0, .ok⟩] rotated :=
  Run.single (by rfl)

theorem not_undisturbed_mismatched (s : CryptodState) :
    ¬ Undisturbed (fun _ => True) s mismatched := by
  intro h
  obtain ⟨frame, hframe⟩ := h.1 encryptText mismatch
    (List.mem_cons_of_mem _ List.mem_cons_self) ⟨rfl, trivial⟩
  cases hframe

end Kat

/-- A well-formed encryption answered with an error that `crypto_errors` counts, although the
primitive seals everything and there was a key all along. -/
theorem encryption_disturbed :
    Gcm.kat.aead.SealsOn (fun _ => True) ∧
    Run (Handles Gcm.kat) Kat.fresh [⟨.rotateKey Kat.rotate256, 0, .ok⟩] Kat.rotated ∧
    ∃ acts d, Run (Pool.Step (daemon Gcm.kat)) (idle Kat.rotated) acts d ∧
      ⟨.encrypt Kat.encryptText, .done Kat.mismatch⟩ ∈ d.tasks ∧
      d.shared.state.cryptoErrors = Kat.rotated.cryptoErrors + 1 ∧
      ¬ Undisturbed (fun _ => True) Kat.rotated d :=
  ⟨Gcm.ofTable_sealsOn _ _ _, Kat.rotated_run, Kat.mismatchedActs, Kat.mismatched,
    Kat.mismatched_run, List.mem_cons_of_mem _ List.mem_cons_self, rfl,
    Kat.not_undisturbed_mismatched _⟩

theorem encryption_undisturbed_iff_mismatched :
    ¬ Run (When (Paired fun _ => True) (Pool.Step (daemon Gcm.kat))) (idle Kat.rotated)
      Kat.mismatchedActs Kat.mismatched :=
  fun h => Kat.not_undisturbed_mismatched _
    ((encryption_undisturbed_iff Gcm.kat (fun _ => True) (Gcm.ofTable_sealsOn _ _ _) Kat.fresh rfl
      _ Kat.rotated Kat.rotated_run ⟨_, List.mem_singleton_self _, Kat.rotate256, rfl, rfl⟩
      Kat.mismatchedActs Kat.mismatched Kat.mismatched_run).mp h
      Kat.mismatchedActs Kat.mismatched (List.prefix_refl _) Kat.mismatched_run)

end Cryptod

end SmartSfp
