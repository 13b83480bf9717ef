import SmartSfp.Cryptod.Fleet
import SmartSfp.Cryptod.Provenance

/-!
# Forgery — what comes out of a line in someone else's hands

Anyone can send a daemon anything.  The ideal a run is measured by is that of the primitive alone:
the handler of a decryption never opens, under any key, what the primitive has not sealed before
under that key at one of the daemons.  From this follows what an operator counts on: a plaintext
that comes out of a daemon went into one, and the frame is byte for byte the one that was answered
there.
-/

namespace SmartSfp

namespace Cryptod

open Lib Exec Ipc

variable {crate : Gcm.Crate} {d d' : Daemon} {a : Pool.Act Request UInt64} {i : Nat}
  {sh sh' : Shared} {t t' : Task} {key : KeyHandle} {self : AesGcmRingProvider}

/-! ## The calls of the primitive -/

/-- A sealing by the primitive. -/
abbrev Sealing := SealRecord Gcm.Key Gcm.Nonce Octets Octets (Octets × Octets)

/-- The frame around a sealing. -/
def frameOf (r : Sealing) : Octets := r.aad ++ r.nonce.bytes ++ (r.sealed.1 ++ r.sealed.2)

/-- Key and nonce as the provider hands them to the primitive. -/
def primitiveArgs (self : AesGcmRingProvider) (key : KeyHandle) (nonce : Octets) :
    Option (Gcm.Key × Gcm.Nonce) :=
  if key.algo ≠ self.algo then none
  else match Gcm.Nonce.ofSlice nonce,
      Gcm.Key.new (self.algo.variant self.supported) key.material with
    | some n, some k => some (k, n)
    | _, _ => none

/-- The sealing a call of the provider leads to. -/
def primitiveSeal (crate : Gcm.Crate) (self : AesGcmRingProvider) (key : KeyHandle)
    (nonce aad plaintext : Octets) : Option Sealing :=
  match primitiveArgs self key nonce with
  | some (k, n) =>
    (crate.sealDetached k n aad plaintext).map fun sealed => ⟨k, n, aad, plaintext, sealed⟩
  | none => none

/-- What opens when the provider is given the frame, with all that the primitive is given. -/
def primitiveOpen (crate : Gcm.Crate) (self : AesGcmRingProvider) (key : KeyHandle)
    (frame : Octets) : Option Sealing :=
  match Wire.parse self.algo frame with
  | .error _ => none
  | .ok parts =>
    match primitiveArgs self key parts.nonce with
    | some (k, n) =>
      let ciphertext := parts.body.take (parts.body.length - 16)
      let tag := parts.body.drop (parts.body.length - 16)
      (crate.openDetached k n parts.aad ciphertext tag).map fun plaintext =>
        ⟨k, n, parts.aad, plaintext, (ciphertext, tag)⟩
    | none => none

/-- The primitive's key is made of the handle. -/
def MadeOf (key : KeyHandle) (k : Gcm.Key) : Prop :=
  k.material = key.material ∧ ∃ supported, k.variant = key.algo.variant supported

theorem variant_injective {b b' : AlgoId} {supported : b ≠ .ozDst1105}
    {supported' : b' ≠ .ozDst1105} (h : b.variant supported = b'.variant supported') : b = b' := by
  cases b with
  | ozDst1105 => exact absurd rfl supported
  | aes128Gcm =>
    cases b' with
    | aes128Gcm => rfl
    | aes256Gcm => cases h
    | ozDst1105 => exact absurd rfl supported'
  | aes256Gcm =>
    cases b' with
    | aes128Gcm => cases h
    | aes256Gcm => rfl
    | ozDst1105 => exact absurd rfl supported'

/-- Two handles that one key is made of have the same algorithm and material. -/
theorem MadeOf.eq {key key' : KeyHandle} {k : Gcm.Key} (h : MadeOf key k) (h' : MadeOf key' k) :
    key.algo = key'.algo ∧ key.material = key'.material := by
  obtain ⟨hmaterial, supported, hvariant⟩ := h
  obtain ⟨hmaterial', supported', hvariant'⟩ := h'
  exact ⟨variant_injective (hvariant.symm.trans hvariant'), hmaterial.symm.trans hmaterial'⟩

theorem primitiveArgs_eq_some {nonce : Octets} {k : Gcm.Key} {n : Gcm.Nonce} :
    primitiveArgs self key nonce = some (k, n) ↔ key.algo = self.algo ∧
      Gcm.Nonce.ofSlice nonce = some n ∧
        Gcm.Key.new (self.algo.variant self.supported) key.material = some k := by
  unfold primitiveArgs
  by_cases halgo : key.algo = self.algo
  · rw [if_neg (not_not_intro halgo)]
    cases Gcm.Nonce.ofSlice nonce with
    | none => simp
    | some n' =>
      cases Gcm.Key.new (self.algo.variant self.supported) key.material with
      | none => simp
      | some k' => simp [halgo, and_comm]
  · rw [if_pos halgo]
    simp [halgo]

theorem madeOf_of_args {nonce : Octets} {k : Gcm.Key} {n : Gcm.Nonce}
    (h : primitiveArgs self key nonce = some (k, n)) : MadeOf key k := by
  obtain ⟨halgo, -, hk⟩ := primitiveArgs_eq_some.mp h
  refine ⟨Gcm.Key.material_of_new hk, halgo ▸ self.supported, ?_⟩
  obtain ⟨id, b, material⟩ := key
  cases halgo
  unfold Gcm.Key.new at hk
  split at hk
  · cases hk
    rfl
  · cases hk

/-- A sealing under the frame's own header is answered with the frame around it. -/
theorem ringSealFrame_of_primitiveSeal {nonce plaintext : Octets} {r : Sealing}
    (h : primitiveSeal crate self key nonce (Wire.sealHeader self.algo key.id 0).bytes plaintext =
      some r) :
    r.plaintext = plaintext ∧ MadeOf key r.key ∧ ∃ hn : nonce.length = 12,
      Wire.ringSealFrame crate self key ⟨nonce, hn⟩ plaintext = .ok (frameOf r) := by
  unfold primitiveSeal at h
  split at h
  · rename_i k n hargs
    obtain ⟨⟨ciphertext, tag⟩, hseal, rfl⟩ := Option.map_eq_some_iff.mp h
    obtain ⟨halgo, hn, hk⟩ := primitiveArgs_eq_some.mp hargs
    have hbytes := Gcm.Nonce.bytes_of_ofSlice hn
    have hlength : nonce.length = 12 := hbytes ▸ n.length_eq
    have hnonce : (⟨nonce, hlength⟩ : Gcm.Nonce) = n := by
      rw [Gcm.Nonce.ofSlice_eq_some hlength] at hn
      exact Option.some.inj hn
    refine ⟨rfl, madeOf_of_args hargs, hlength, ?_⟩
    rw [hnonce, Wire.ringSealFrame_eq_ok_iff]
    exact ⟨ciphertext ++ tag,
      AesGcm.sealExact_eq_ok_iff.mpr ⟨halgo, k, ciphertext, tag, hk, hseal, rfl⟩,
      rfl⟩
  · cases h

/-- A frame that opens is the frame around something that opens. -/
theorem exists_primitiveOpen {frame plaintext : Octets}
    (h : Wire.ringOpenFrame crate self key frame = .ok plaintext) :
    ∃ r, primitiveOpen crate self key frame = some r ∧ r.plaintext = plaintext ∧
      frameOf r = frame ∧ r.aad ≠ [] ∧ MadeOf key r.key := by
  unfold Wire.ringOpenFrame at h
  unfold primitiveOpen
  cases hparse : Wire.parse self.algo frame with
  | error e =>
    rw [hparse] at h
    cases h
  | ok parts =>
    obtain ⟨hframe, haad, hnonce, hbody⟩ := Wire.parse_eq_ok hparse
    rw [hparse] at h
    have hn := Gcm.Nonce.ofSlice_eq_some hnonce
    simp only [hn, AesGcm.openExact] at h
    by_cases halgo : key.algo = self.algo
    · rw [if_neg (not_not_intro halgo)] at h
      cases hk : Gcm.Key.new (self.algo.variant self.supported) key.material with
      | none =>
        simp only [hk] at h
        cases h
      | some k =>
        have hargs : primitiveArgs self key parts.nonce = some (k, ⟨parts.nonce, hnonce⟩) :=
          primitiveArgs_eq_some.mpr ⟨halgo, hn, hk⟩
        simp only [hk] at h
        cases hopen : crate.openDetached k ⟨parts.nonce, hnonce⟩ parts.aad
            (parts.body.take (parts.body.length - 16))
            (parts.body.drop (parts.body.length - 16)) with
        | none =>
          simp only [hopen] at h
          cases h
        | some p =>
          simp only [hopen] at h
          cases h
          simp only [hargs, hopen, Option.map_some]
          refine ⟨_, rfl, rfl, ?_, ?_, madeOf_of_args hargs⟩
          · simp only [frameOf, List.take_append_drop]
            exact hframe.symm
          · intro hnil
            simp only at hnil
            rw [hnil] at haad
            cases haad
    · rw [if_pos halgo] at h
      cases h

/-! ## The calls of a run -/

/-- What the self-test of a rotation seals. -/
def selfTestSealings (crate : Gcm.Crate) (p : RotateKeyParams) : List Sealing :=
  match AlgoId.fromU8 p.algo with
  | none => []
  | some algo =>
    match AesGcmRingProvider.new algo, KeyHandle.new p.keyId algo p.material.data with
    | .ok self, .ok key =>
      (primitiveSeal crate self key (List.replicate 12 0) [] selfTestText).toList
    | _, _ => []

/-- What the primitive seals in a step. -/
def sealings (crate : Gcm.Crate) (d : Daemon) : Pool.Act Request UInt64 → List Sealing
  | .spawn _ => []
  | .run i _ =>
    let self := d.shared.state.provider
    match d.tasks[i]? with
    | some ⟨.encrypt p, .sealing key⟩ =>
      (primitiveSeal crate self key p.nonce.data (Wire.sealHeader self.algo key.id 0).bytes
        p.plaintext.data).toList
    | some ⟨.rotateKey p, .received⟩ => selfTestSealings crate p
    | _ => []

/-- What opens for a decryption in a step. -/
def openings (crate : Gcm.Crate) (d : Daemon) : Pool.Act Request UInt64 → List Sealing
  | .spawn _ => []
  | .run i _ =>
    match d.tasks[i]? with
    | some ⟨.decrypt q, .opening key⟩ =>
      (primitiveOpen crate d.shared.state.provider key q.frame.data).toList
    | _ => []

theorem selfTest_aad {p : RotateKeyParams} {r : Sealing} (h : r ∈ selfTestSealings crate p) :
    r.aad = [] := by
  unfold selfTestSealings at h
  split at h
  · cases h
  · split at h
    · unfold primitiveSeal at h
      split at h
      · obtain ⟨sealed, -, rfl⟩ := Option.map_eq_some_iff.mp (Option.mem_toList.mp h)
        rfl
      · cases h
    · cases h

/-- A sealing with a header is that of an encryption, which is answered with the frame around it. -/
theorem answered_of_sealing {r : Sealing} (hstep : Pool.Step (daemon crate) d a d')
    (hr : r ∈ sealings crate d a) (haad : r.aad ≠ []) :
    ∃ p key, ⟨.encrypt p, .sealing key⟩ ∈ d.tasks ∧
      ⟨.encrypt p, .done (.ciphertext (frameOf r))⟩ ∈ d'.tasks ∧
        p.plaintext.data = r.plaintext ∧ MadeOf key r.key := by
  obtain ⟨request, rfl, rfl⟩ | ⟨i, elapsed, t, sh', t', rfl, ht, hmove, rfl⟩ := daemon_cases hstep
  · cases hr
  · simp only [sealings, ht] at hr
    split at hr
    · rename_i p key heq
      cases heq
      obtain ⟨htext, hmade, hn, hframe⟩ := ringSealFrame_of_primitiveSeal (Option.mem_toList.mp hr)
      refine ⟨p, key, List.mem_of_getElem? ht, ?_, htext.symm, hmade⟩
      cases hmove with
      | sealNonce hn' => exact absurd hn hn'
      | sealed hn hseal =>
        rw [hseal] at hframe
        cases hframe
        exact Pool.mem_set_self ht
      | sealFailed hn hseal =>
        rw [hseal] at hframe
        cases hframe
    · exact absurd (selfTest_aad hr) haad
    · cases hr

/-- The handler of a decryption opens only what was sealed before, at one of the daemons. -/
def NoForgery {ι : Type} (crate : Gcm.Crate) (q : (ι → Daemon) × List Sealing)
    (a : ι × Pool.Act Request UInt64) : Prop :=
  ∀ r ∈ openings crate (q.1 a.1) a.2, r ∈ q.2

/-- The daemons with the history of what was sealed. -/
abbrev LineStep {ι : Type} [DecidableEq ι] (crate : Gcm.Crate) :
    (ι → Daemon) × List Sealing → ι × Pool.Act Request UInt64 →
      (ι → Daemon) × List Sealing → Prop :=
  When (NoForgery crate) (Recorded (fun f a => sealings crate (f a.1) a.2)
    (Abreast (Pool.Step (daemon crate))))

/-- The daemon was rotated to the algorithm and the material the key is made of. -/
def RotatedTo (d : Daemon) (k : Gcm.Key) : Prop :=
  ∃ (r : RotateKeyParams) (c : Commit),
    ⟨.rotateKey r, .done .ok⟩ ∈ d.tasks ∧ c.For r ∧ MadeOf c.newKey k

theorem rotatedTo_of_keyFrom {k : Gcm.Key} (h : KeyFrom crate d key) (hmade : MadeOf key k) :
    RotatedTo d k := by
  obtain ⟨r, c, hr, haccepted, rfl⟩ := h
  exact ⟨r, c, hr, haccepted.commit_for, hmade⟩

theorem RotatedTo.step {k : Gcm.Key} (h : RotatedTo d k)
    (hstep : Pool.Step (daemon crate) d a d') : RotatedTo d' k := by
  obtain ⟨r, c, hr, hfor, hmade⟩ := h
  exact ⟨r, c, Pool.mem_of_finished (done_finished _ _) hr hstep, hfor, hmade⟩

/-- The daemon has answered an encryption with the frame around the sealing. -/
def SealedAt (r : Sealing) (d : Daemon) : Prop :=
  RotatedTo d r.key ∧ ∃ p, ⟨.encrypt p, .done (.ciphertext (frameOf r))⟩ ∈ d.tasks ∧
    p.plaintext.data = r.plaintext

/-- The daemon has opened the sealing out of the frame. -/
def OpenedAt (r : Sealing) (q : DecryptParams) (plaintext : Octets) (d : Daemon) : Prop :=
  RotatedTo d r.key ∧ frameOf r = q.frame.data ∧ r.aad ≠ [] ∧ r.plaintext = plaintext

theorem SealedAt.step {r : Sealing} (h : SealedAt r d)
    (hstep : Pool.Step (daemon crate) d a d') : SealedAt r d' := by
  obtain ⟨hkey, p, hp, htext⟩ := h
  exact ⟨hkey.step hstep, p, Pool.mem_of_finished (done_finished _ _) hp hstep, htext⟩

theorem OpenedAt.step {r : Sealing} {q : DecryptParams} {plaintext : Octets}
    (h : OpenedAt r q plaintext d) (hstep : Pool.Step (daemon crate) d a d') :
    OpenedAt r q plaintext d' :=
  ⟨h.1.step hstep, h.2⟩

/-- A step after which a decryption has been answered with a plaintext has opened it, if it had not
been answered before. -/
theorem opened_cases {q : DecryptParams} {plaintext : Octets} (htraced : Traced crate d)
    (hstep : Pool.Step (daemon crate) d a d')
    (hq : ⟨.decrypt q, .done (.plaintext plaintext)⟩ ∈ d'.tasks) :
    ⟨.decrypt q, .done (.plaintext plaintext)⟩ ∈ d.tasks ∨
      ∃ r ∈ openings crate d a, OpenedAt r q plaintext d' := by
  obtain ⟨request, rfl, rfl⟩ | ⟨i, elapsed, t, sh', t', rfl, ht, hmove, rfl⟩ := daemon_cases hstep
  · rcases List.mem_append.mp hq with hq | hq
    · exact .inl hq
    · cases List.mem_singleton.mp hq
  · rcases List.mem_or_eq_of_mem_set hq with hq | rfl
    · exact .inl hq
    · cases hmove with
      | @opened q key plaintext hopen =>
        have hmem := List.mem_of_getElem? ht
        obtain ⟨r, hr, htext, hframe, haad, hmade⟩ := exists_primitiveOpen hopen
        have hkey := rotatedTo_of_keyFrom (htraced.held _ hmem key (.inr rfl)) hmade
        refine .inr ⟨r, ?_, hkey.step hstep, hframe, haad, htext⟩
        simp only [openings, ht]
        exact Option.mem_toList.mpr hr

/-! ## The line -/

section Line

variable {ι : Type} [DecidableEq ι] {f g : ι → Daemon} {log log' : List Sealing}
  {b : ι × Pool.Act Request UInt64}

/-- Every sealing in the history with a header was answered where it was made, and every plaintext
handed out is that of a sealing in the history. -/
structure Authenticated (f : ι → Daemon) (log : List Sealing) : Prop where
  sealed : ∀ r ∈ log, r.aad ≠ [] → ∃ i, SealedAt r (f i)
  opened : ∀ j q plaintext, ⟨.decrypt q, .done (.plaintext plaintext)⟩ ∈ (f j).tasks →
    ∃ r ∈ log, OpenedAt r q plaintext (f j)

theorem Authenticated.step (h : Authenticated f log) (htraced : ∀ i, Traced crate (f i))
    (hstep : LineStep crate (f, log) b (g, log')) : Authenticated g log' := by
  obtain ⟨hideal, ⟨d', hd', hg⟩, hlog⟩ := hstep
  simp only at hg hlog
  subst hg hlog
  -- what holds at a daemon holds there after the step
  have hkeep {P : Daemon → Prop} (hP : ∀ {d d'}, P d → Pool.Step (daemon crate) d b.2 d' → P d')
      (i : ι) (hi : P (f i)) : P (Function.update f b.1 d' i) := by
    by_cases hib : i = b.1
    · subst hib
      rw [Function.update_self]
      exact hP hi hd'
    · rw [Function.update_of_ne hib]
      exact hi
  constructor
  · intro r hr haad
    rcases List.mem_append.mp hr with hr | hr
    · obtain ⟨i, hi⟩ := h.sealed r hr haad
      exact ⟨i, hkeep SealedAt.step i hi⟩
    · obtain ⟨p, key, hold, hnew, htext, hmade⟩ := answered_of_sealing hd' hr haad
      have hkey := rotatedTo_of_keyFrom ((htraced b.1).held _ hold key (.inl rfl)) hmade
      refine ⟨b.1, ?_⟩
      rw [Function.update_self]
      exact ⟨hkey.step hd', p, hnew, htext⟩
  · intro j q plaintext hq
    by_cases hjb : j = b.1
    · subst hjb
      rw [Function.update_self] at hq ⊢
      obtain hq | ⟨r, hr, hopened⟩ := opened_cases (htraced b.1) hd' hq
      · obtain ⟨r, hr, hopened⟩ := h.opened b.1 q plaintext hq
        exact ⟨r, List.mem_append_left _ hr, hopened.step hd'⟩
      · -- the primitive opened it, so it was sealed before
        exact ⟨r, List.mem_append_left _ (hideal r hr), hopened⟩
    · rw [Function.update_of_ne hjb] at hq ⊢
      obtain ⟨r, hr, hopened⟩ := h.opened j q plaintext hq
      exact ⟨r, List.mem_append_left _ hr, hopened⟩

theorem run_authenticated {s₀ : CryptodState} (hnew : CryptodState.new = .ok s₀)
    {acts : List (ι × Pool.Act Request UInt64)} {q : (ι → Daemon) × List Sealing}
    (hrun : Run (LineStep crate) (fun _ => idle s₀, []) acts q) : Authenticated q.1 q.2 := by
  induction hrun with
  | nil =>
    exact ⟨fun _ hr => absurd hr List.not_mem_nil, fun _ _ _ hq => absurd hq (not_mem_idle _ _)⟩
  | snoc run last ih =>
    refine ih.step (fun i => ?_) last
    exact run_traced hnew (run.forget.unrecord.component i)

end Line

/-- What comes out of a daemon went into one.  In every run of any number of daemons under whatever
requests, frames made up or altered on the way among them, in which no decryption opens anything the
primitive has not sealed before at one of the daemons: a decryption that was answered with a
plaintext was sent, byte for byte, a frame that some daemon answered an encryption of that plaintext
with, and both daemons were rotated to the same algorithm and material. -/
theorem plaintexts_authentic {ι : Type} [DecidableEq ι] (crate : Gcm.Crate) (s₀ : CryptodState)
    (hnew : CryptodState.new = .ok s₀) (acts : List (ι × Pool.Act Request UInt64))
    (f : ι → Daemon) (log : List Sealing)
    (hrun : Run (LineStep crate) (fun _ => idle s₀, []) acts (f, log)) (j : ι) (q : DecryptParams)
    (plaintext : Octets)
    (hplaintext : ⟨.decrypt q, .done (.plaintext plaintext)⟩ ∈ (f j).tasks) :
    ∃ i p r r', ⟨.encrypt p, .done (.ciphertext q.frame.data)⟩ ∈ (f i).tasks ∧
      p.plaintext.data = plaintext ∧ ⟨.rotateKey r, .done .ok⟩ ∈ (f i).tasks ∧
      ⟨.rotateKey r', .done .ok⟩ ∈ (f j).tasks ∧ r.algo = r'.algo ∧
      r.material.data = r'.material.data := by
  have hauth := run_authenticated hnew hrun
  obtain ⟨x, hx, ⟨r', c', hr', hfor', hmade'⟩, hframe, haad, htext'⟩ :=
    hauth.opened j q plaintext hplaintext
  obtain ⟨i, ⟨r, c, hr, hfor, hmade⟩, p, hp, htext⟩ := hauth.sealed x hx haad
  obtain ⟨halgo, hmaterial⟩ := hmade.eq hmade'
  rw [hframe] at hp
  refine ⟨i, p, r, r', hp, htext.trans htext', hr, hr', ?_, ?_⟩
  · rw [hfor.key_eq, hfor'.key_eq] at halgo
    have hb := AlgoId.fromU8_eq_some_iff.mp hfor.algo_eq
    have hb' := AlgoId.fromU8_eq_some_iff.mp hfor'.algo_eq
    exact hb.trans ((congrArg AlgoId.toU8 halgo).trans hb'.symm)
  · rw [hfor.key_eq, hfor'.key_eq] at hmaterial
    exact hmaterial

/-! ## Running a schedule -/

deriving instance DecidableEq for SealRecord

/-- The step of one daemon, if it opens only what was sealed before. -/
def sealingNext (crate : Gcm.Crate) (q : Daemon × List Sealing) (a : Pool.Act Request UInt64) :
    Option (Daemon × List Sealing) :=
  if ∀ r ∈ openings crate q.1 a, r ∈ q.2 then
    (Pool.next (daemon crate) q.1 a).map fun d => (d, q.2 ++ sealings crate q.1 a)
  else none

/-- One daemon runs, and the others wait. -/
theorem lineRun_of_exec {ι : Type} [DecidableEq ι] {f : ι → Daemon} {i : ι}
    {acts : List (Pool.Act Request UInt64)} {log log' : List Sealing}
    (h : acts.foldlM (sealingNext crate) (f i, log) = some (d, log')) :
    Run (LineStep crate) (f, log) (acts.map fun a => (i, a)) (Function.update f i d, log') := by
  induction acts generalizing f log with
  | nil =>
    cases h
    rw [Function.update_eq_self]
    exact .nil
  | cons a acts ih =>
    obtain ⟨⟨d₁, log₁⟩, hnext, hrest⟩ := Option.bind_eq_some_iff.mp (by simpa using h)
    unfold sealingNext at hnext
    split at hnext
    · rename_i hideal
      obtain ⟨d₂, hd, heq⟩ := Option.map_eq_some_iff.mp hnext
      cases heq
      have hlast := ih (f := Function.update f i d₁) (by rw [Function.update_self]; exact hrest)
      rw [Function.update_idem] at hlast
      exact hlast.cons ⟨hideal, ⟨d₁, hd, rfl⟩, rfl⟩
    · cases hnext

namespace Kat

def sealingOf (v : Gcm.Vector) : Sealing :=
  ⟨v.key, v.nonce, v.aad, v.plaintext, (v.ciphertext, v.tag)⟩

/-- The self-tests of both ends and the text between them. -/
def lineLog : List Sealing :=
  [Gcm.Kat.vectors[0], Gcm.Kat.vectors[2], Gcm.Kat.vectors[0]].map sealingOf

theorem lineStep_run :
    Run (LineStep Gcm.kat) (fun _ => idle fresh, []) lineActs (line, lineLog) := by
  have hnear : nearActs.foldlM (sealingNext Gcm.kat) (idle fresh, []) =
      some (near, lineLog.take 2) := by rfl
  have hfar : farActs.foldlM (sealingNext Gcm.kat) (idle fresh, lineLog.take 2) =
      some (far, lineLog) := by rfl
  refine Run.append (lineRun_of_exec (f := fun _ => idle fresh) hnear) (lineRun_of_exec ?_)
  exact hfar

end Kat

/-- The text that came out of the far end went into the near one, or came from the far end
itself. -/
theorem plaintexts_authentic_line : ∃ i p,
    ⟨.encrypt p, .done (.ciphertext Gcm.Kat.frame256)⟩ ∈ (Kat.line i).tasks ∧
      p.plaintext.data = Gcm.Kat.text := by
  obtain ⟨i, p, r, r', hp, htext, -⟩ := plaintexts_authentic Gcm.kat Kat.fresh rfl Kat.lineActs
    Kat.line Kat.lineLog Kat.lineStep_run true Kat.decryptFrame Gcm.Kat.text
    (List.mem_cons_of_mem _ (List.mem_singleton_self _))
  exact ⟨i, p, hp, htext⟩

end Cryptod

end SmartSfp
