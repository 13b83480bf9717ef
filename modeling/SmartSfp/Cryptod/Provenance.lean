import SmartSfp.Cryptod.Rotation

/-!
# Provenance — which key a frame was sealed under

Key and provider of an encryption are read under different locks, and may come from different
rotations.  The provider then refuses, because it compares the algorithms; so whatever is sealed is
sealed under the algorithm, the id and the material of the one rotation the key came from.
-/

namespace SmartSfp

namespace Cryptod

open Lib Exec Ipc

variable (crate : Gcm.Crate)

/-- The key was stored by a rotation that was accepted and answered `Ok`. -/
def KeyFrom (d : Daemon) (key : KeyHandle) : Prop :=
  ∃ r c, ⟨.rotateKey r, .done .ok⟩ ∈ d.tasks ∧ Accepted crate r c ∧ key = c.newKey

/-- The frame names the id and the algorithm of the rotation `r`, and holds the plaintext sealed
under its material and algorithm with the frame's own first twelve bytes as associated data. -/
def SealedUnder (r : RotateKeyParams) (p : EncryptParams) (frame : Octets) : Prop :=
  ∃ (algo : AlgoId) (supported : algo ≠ .ozDst1105) (k : Gcm.Key) (n : Gcm.Nonce) (c t : Octets),
    AlgoId.fromU8 r.algo = some algo ∧ k.variant = algo.variant supported ∧
    k.material = r.material.data ∧ n.bytes = p.nonce.data ∧
    (∀ s : Unit, (Wire.FrameHeader.decode frame).run s =
      .ok ⟨Wire.version, 0, r.keyId, algo, 12⟩ s) ∧
    crate.sealDetached k n (frame.take 12) p.plaintext.data = some (c, t) ∧
    frame = frame.take 12 ++ p.nonce.data ++ (c ++ t)

variable {crate} {d d' : Daemon} {a : Pool.Act Request UInt64} {key : KeyHandle}

theorem KeyFrom.step (h : KeyFrom crate d key) (hstep : Pool.Step (daemon crate) d a d') :
    KeyFrom crate d' key := by
  obtain ⟨r, c, hr, haccepted, hkey⟩ := h
  exact ⟨r, c, Pool.mem_of_finished (done_finished _ _) hr hstep, haccepted, hkey⟩

/-- What a provider seals under the key of a rotation is sealed under that rotation. -/
theorem sealedUnder_of_ringSealFrame {r : RotateKeyParams} {c : Commit} (hfor : c.For r)
    {self : AesGcmRingProvider} {p : EncryptParams} {hn : p.nonce.data.length = 12}
    {frame : Octets}
    (h : Wire.ringSealFrame crate self c.newKey ⟨p.nonce.data, hn⟩ p.plaintext.data = .ok frame) :
    SealedUnder crate r p frame := by
  obtain ⟨sealed, hseal, rfl⟩ := (Wire.ringSealFrame_eq_ok_iff crate self c.newKey).mp h
  obtain ⟨halgo, k, ct, tag, hk, hct, rfl⟩ := AesGcm.sealExact_eq_ok_iff.mp hseal
  have hmaterial : c.newKey.material = r.material.data := by rw [hfor.key_eq]
  have hid : c.newKey.id = r.keyId := by rw [hfor.key_eq]
  have hself : self.algo = c.newAlgo := by
    rw [← halgo, hfor.key_eq]
  have hkvariant : k.variant = self.algo.variant self.supported ∧
      k.material = c.newKey.material := by
    unfold Gcm.Key.new at hk
    split at hk
    · cases hk
      exact ⟨rfl, rfl⟩
    · cases hk
  have hheader : ((Wire.sealHeader self.algo c.newKey.id 0).bytes ++ p.nonce.data ++
      (ct ++ tag)).take 12 = (Wire.sealHeader self.algo c.newKey.id 0).bytes := by
    rw [List.append_assoc]
    exact List.take_left' (Wire.FrameHeader.length_bytes _)
  refine ⟨self.algo, self.supported, k, ⟨p.nonce.data, hn⟩, ct, tag, ?_, hkvariant.1,
    hkvariant.2.trans hmaterial, rfl, ?_, ?_, ?_⟩
  · rw [hself]
    exact hfor.algo_eq
  · intro s
    rw [Wire.FrameHeader.decode_run, List.append_assoc,
      Wire.FrameHeader.parse_bytes _ rfl, ← hid]
    rfl
  · rw [hheader]
    exact hct
  · rw [hheader]

/-- Every key in use was stored by a rotation, and every frame was sealed under one. -/
structure Traced (crate : Gcm.Crate) (d : Daemon) : Prop where
  active : ∀ key, d.shared.state.activeKey = some key → KeyFrom crate d key
  held : ∀ t ∈ d.tasks, ∀ key, t.pc = .sealing key ∨ t.pc = .opening key → KeyFrom crate d key
  frames : ∀ p frame, ⟨.encrypt p, .done (.ciphertext frame)⟩ ∈ d.tasks →
    ∃ r c, ⟨.rotateKey r, .done .ok⟩ ∈ d.tasks ∧ Accepted crate r c ∧ SealedUnder crate r p frame

theorem traced_step (h : Traced crate d) (hfor : ∀ t ∈ d.tasks, t.CommitFor crate)
    (hstep : Pool.Step (daemon crate) d a d') : Traced crate d' := by
  have hframes (p : EncryptParams) (frame : Octets)
      (hp : ⟨.encrypt p, .done (.ciphertext frame)⟩ ∈ d.tasks) : ∃ r c,
      ⟨.rotateKey r, .done .ok⟩ ∈ d'.tasks ∧ Accepted crate r c ∧ SealedUnder crate r p frame := by
    obtain ⟨r, c, hr, haccepted, hsealed⟩ := h.frames p frame hp
    exact ⟨r, c, Pool.mem_of_finished (done_finished _ _) hr hstep, haccepted, hsealed⟩
  obtain ⟨req, rfl, rfl⟩ | ⟨i, elapsed, t, sh', t', rfl, ht, hmove, rfl⟩ := daemon_cases hstep
  · refine ⟨fun key hkey => (h.active key hkey).step hstep, fun u hu key hpc => ?_,
      fun p frame hp => ?_⟩
    · rcases List.mem_append.mp hu with hu | hu
      · exact (h.held u hu key hpc).step hstep
      · rw [List.mem_singleton.mp hu] at hpc
        rcases hpc with hpc | hpc <;> cases hpc
    · rcases List.mem_append.mp hp with hp | hp
      · exact hframes p frame hp
      · cases List.mem_singleton.mp hp
  · have hmem := List.mem_of_getElem? ht
    have hown : t' ∈ d.tasks.set i t' := Pool.mem_set_self ht
    refine ⟨fun key hkey => ?_, fun u hu key hpc => ?_, fun p frame hp => ?_⟩
    · cases hmove with
      | @storedKey p c hguard =>
        -- the key stored is that of the rotation that stores it
        obtain ⟨r, hr, haccepted⟩ := hfor _ hmem c rfl
        cases hr
        exact ⟨p, c, hown, haccepted, (Option.some.inj hkey).symm⟩
      | status hmove' => exact (h.active key (hmove'.state_eq ▸ hkey)).step hstep
      | _ => exact (h.active key hkey).step hstep
    · rcases List.mem_or_eq_of_mem_set hu with hu | rfl
      · exact (h.held u hu key hpc).step hstep
      · cases hmove with
        | sealCopied hkey =>
          -- a copy is made of the active key, which is traced
          rcases hpc with hpc | hpc <;> cases hpc
          exact (h.active key hkey).step hstep
        | openCopied hkey =>
          rcases hpc with hpc | hpc <;> cases hpc
          exact (h.active key hkey).step hstep
        | status hmove' => cases hmove' <;> rcases hpc with hpc | hpc <;> cases hpc
        | _ => rcases hpc with hpc | hpc <;> cases hpc
    · rcases List.mem_or_eq_of_mem_set hp with hp | rfl
      · exact hframes p frame hp
      · cases hmove with
        | sealed hn hseal =>
          obtain ⟨r, c, hr, haccepted, rfl⟩ := h.held _ hmem _ (.inl rfl)
          exact ⟨r, c, Pool.mem_of_finished (done_finished _ _) hr hstep, haccepted,
            sealedUnder_of_ringSealFrame haccepted.commit_for hseal⟩

theorem run_traced {s₀ : CryptodState} (hnew : CryptodState.new = .ok s₀)
    {acts : List (Pool.Act Request UInt64)}
    (hrun : Run (Pool.Step (daemon crate)) (idle s₀) acts d) : Traced crate d := by
  induction hrun with
  | nil =>
    have hkey : s₀.activeKey = none := by
      cases hnew
      rfl
    refine ⟨fun key h => ?_, fun t ht => absurd ht (not_mem_idle _ _),
      fun p frame hp => absurd hp (not_mem_idle _ _)⟩
    have hnone : some key = none := h.symm.trans hkey
    cases hnone
  | snoc run last ih => exact traced_step ih (run_commitFor run) last

/-- Every frame the daemon hands out, in any interleaving of any requests, was sealed under the
material and the algorithm of one rotation answered `Ok`, and its header names that rotation's id
and algorithm. -/
theorem frames_sealed_under_one_key (crate : Gcm.Crate) (s₀ : CryptodState)
    (hnew : CryptodState.new = .ok s₀) (acts : List (Pool.Act Request UInt64)) (d : Daemon)
    (hrun : Run (Pool.Step (daemon crate)) (idle s₀) acts d) (p : EncryptParams) (frame : Octets)
    (hframe : ⟨.encrypt p, .done (.ciphertext frame)⟩ ∈ d.tasks) :
    ∃ r c, ⟨.rotateKey r, .done .ok⟩ ∈ d.tasks ∧ Accepted crate r c ∧
      SealedUnder crate r p frame :=
  (run_traced hnew hrun).frames p frame hframe

namespace Kat

/-- An encryption copies key 7 while a rotation to key 9 is in flight and seals before its first
store. -/
def racingActs : List (Pool.Act Request UInt64) :=
  [.spawn (.rotateKey rotate256), .run 0 0, .run 0 0, .run 0 0, .run 0 0,
    .spawn (.rotateKey rotate128), .spawn (.encrypt encryptText), .run 1 0, .run 2 0, .run 2 0,
    .run 1 0]

/-- The rotation to key 9 has stored its provider. -/
def raced : Daemon where
  shared := ⟨⟨provider128, .aes256Gcm, some Gcm.Kat.handle256, 1, 0, 0⟩, none⟩
  tasks := [⟨.rotateKey rotate256, .done .ok⟩,
    ⟨.rotateKey rotate128, .storeAlgo ⟨provider128, .aes128Gcm, Gcm.Kat.handle128⟩⟩,
    ⟨.encrypt encryptText, .done (.ciphertext Gcm.Kat.frame256)⟩]

theorem raced_run : Run (Pool.Step (daemon Gcm.kat)) (idle fresh) racingActs raced :=
  Pool.run_of_exec (by rfl)

end Kat

theorem frames_sealed_under_one_key_kat :
    ∃ r c, ⟨.rotateKey r, .done .ok⟩ ∈ Kat.raced.tasks ∧ Accepted Gcm.kat r c ∧
      SealedUnder Gcm.kat r Kat.encryptText Gcm.Kat.frame256 :=
  frames_sealed_under_one_key Gcm.kat Kat.fresh rfl Kat.racingActs Kat.raced Kat.raced_run
    Kat.encryptText Gcm.Kat.frame256 (List.mem_of_getElem? (i := 2) rfl)

end Cryptod

end SmartSfp
