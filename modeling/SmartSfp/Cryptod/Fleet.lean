import SmartSfp.Cryptod.Rotation
import SmartSfp.Lib.Abreast

/-!
# Fleet — daemons at the ends of one line

Frames are made by one daemon to be opened by another.  What is common to them is the material an
operator has rotated in; the key ids need not be.  As long as every rotation that is accepted
anywhere brings the same material, whatever one of the daemons has sealed opens at any other that
has a key, with any requests in flight at both.
-/

namespace SmartSfp

namespace Cryptod

open Lib Exec Ipc

variable {crate : Gcm.Crate} {algo : AlgoId} {material : Octets} {d d' : Daemon}
  {a : Pool.Act Request UInt64} {i : Nat} {s : CryptodState} {sh sh' : Shared} {t t' : Task}
  {key key' : KeyHandle} {frame : Octets}

/-! ## One material -/

/-- The key holds the material under the algorithm.  Its id is left open. -/
structure KeyOf (algo : AlgoId) (material : Octets) (key : KeyHandle) : Prop where
  algo_eq : key.algo = algo
  material_eq : key.material = material

/-- Handles of one material open alike, under one provider. -/
theorem ringOpenFrame_congr {self self' : AesGcmRingProvider} (hself : self.algo = self'.algo)
    (hkey : KeyOf algo material key) (hkey' : KeyOf algo material key') (frame : Octets) :
    Wire.ringOpenFrame crate self key frame = Wire.ringOpenFrame crate self' key' frame := by
  obtain ⟨b, hb⟩ := self
  obtain ⟨b', hb'⟩ := self'
  cases hself
  simp only [Wire.ringOpenFrame, AesGcm.openExact, hkey.algo_eq, hkey'.algo_eq, hkey.material_eq,
    hkey'.material_eq]

/-- The frame holds the plaintext, sealed under a handle of the material. -/
def SealedWith (crate : Gcm.Crate) (algo : AlgoId) (material : Octets) (p : EncryptParams)
    (frame : Octets) : Prop :=
  ∃ self key, ∃ hn : p.nonce.data.length = 12, self.algo = algo ∧ KeyOf algo material key ∧
    Wire.ringSealFrame crate self key ⟨p.nonce.data, hn⟩ p.plaintext.data = .ok frame

/-- What opening the frame under a handle of the material gives, as an answer. -/
def OpenedWith (crate : Gcm.Crate) (algo : AlgoId) (material : Octets) (q : DecryptParams)
    (r : Response) : Prop :=
  ∃ self key, self.algo = algo ∧ KeyOf algo material key ∧
    ((∃ plaintext, Wire.ringOpenFrame crate self key q.frame.data = .ok plaintext ∧
        r = .plaintext plaintext) ∨
      ∃ e, Wire.ringOpenFrame crate self key q.frame.data = .error e)

/-- Over a correct crate, what was sealed with the material opens with it. -/
theorem OpenedWith.plaintext (hcorrect : crate.aead.Correct) {p : EncryptParams}
    {q : DecryptParams} {r : Response} (hsealed : SealedWith crate algo material p q.frame.data)
    (hopened : OpenedWith crate algo material q r) : r = .plaintext p.plaintext.data := by
  obtain ⟨self, key, hn, hself, hkey, hseal⟩ := hsealed
  obtain ⟨self', key', hself', hkey', hopen⟩ := hopened
  have hround : Wire.ringOpenFrame crate self' key' q.frame.data = .ok p.plaintext.data := by
    rw [ringOpenFrame_congr (hself'.trans hself.symm) hkey' hkey]
    exact Wire.ringOpenFrame_of_ringSealFrame crate self key hcorrect hseal
  obtain ⟨plaintext, hok, hr⟩ | ⟨e, herror⟩ := hopen
  · rw [hround] at hok
    cases hok
    exact hr
  · rw [hround] at herror
    cases herror

/-! ## A daemon that is only given one material -/

/-- A rotation that is accepted brings the material. -/
def Brings (crate : Gcm.Crate) (algo : AlgoId) (material : Octets) (request : Request) : Prop :=
  ∀ p c, request = .rotateKey p → Accepted crate p c →
    p.algo = algo.toU8 ∧ p.material.data = material

theorem Brings.commit {p : RotateKeyParams} {c : Commit}
    (h : Brings crate algo material (.rotateKey p)) (haccepted : Accepted crate p c) :
    c.newProvider.algo = algo ∧ KeyOf algo material c.newKey := by
  obtain ⟨halgo, hmaterial⟩ := h p c rfl haccepted
  have hfor := haccepted.commit_for
  have hnew : c.newAlgo = algo := by
    have hfrom := hfor.algo_eq
    rw [halgo, AlgoId.fromU8_toU8] at hfrom
    exact (Option.some.inj hfrom).symm
  refine ⟨hfor.provider_eq.trans hnew, ?_, ?_⟩
  · rw [hfor.key_eq]
    exact hnew
  · rw [hfor.key_eq]
    exact hmaterial

/-- What a task holds and has answered is of the one material.  A task that holds a key, or has
stored a provider, finds the provider of the algorithm. -/
structure Task.Uniform (crate : Gcm.Crate) (algo : AlgoId) (material : Octets) (s : CryptodState)
    (t : Task) : Prop where
  brings : Brings crate algo material t.request
  held : ∀ key, t.pc = .sealing key ∨ t.pc = .opening key →
    s.provider.algo = algo ∧ KeyOf algo material key
  stored : ∀ c, t.pc = .storeAlgo c ∨ t.pc = .storeKey c → s.provider.algo = algo
  sealed : ∀ p frame, t.request = .encrypt p → t.pc = .done (.ciphertext frame) →
    SealedWith crate algo material p frame
  opened : ∀ q r, t.request = .decrypt q → t.pc = .done r →
    OpenedWith crate algo material q r ∨ ∃ message, r = .error 409 message

/-- Every key in use is of the one material, and there is none without a provider for it. -/
structure Uniform (crate : Gcm.Crate) (algo : AlgoId) (material : Octets) (d : Daemon) : Prop where
  active : ∀ key, d.shared.state.activeKey = some key →
    d.shared.state.provider.algo = algo ∧ KeyOf algo material key
  tasks : ∀ t ∈ d.tasks, t.Uniform crate algo material d.shared.state

/-- A provider of the algorithm is not replaced by one of another. -/
theorem Task.Uniform.keep {s' : CryptodState} (h : t.Uniform crate algo material s)
    (hkeep : s.provider.algo = algo → s'.provider.algo = algo) :
    t.Uniform crate algo material s' where
  brings := h.brings
  held key hkey := ⟨hkeep (h.held key hkey).1, (h.held key hkey).2⟩
  stored c hc := hkeep (h.stored c hc)
  sealed := h.sealed
  opened := h.opened

/-- The steps of a task of a daemon that is only given the one material. -/
theorem Move.uniform (h : Move crate i sh t sh' t')
    (hactive : ∀ key, sh.state.activeKey = some key →
      sh.state.provider.algo = algo ∧ KeyOf algo material key)
    (hfor : t.CommitFor crate) (ht : t.Uniform crate algo material sh.state) :
    (sh.state.provider.algo = algo → sh'.state.provider.algo = algo) ∧
      (∀ key, sh'.state.activeKey = some key →
        sh'.state.provider.algo = algo ∧ KeyOf algo material key) ∧
      t'.Uniform crate algo material sh'.state := by
  cases h with
  | status hmove =>
    rw [hmove.state_eq]
    cases hmove <;> exact ⟨id, hactive, ht.brings, by simp, by simp, by simp, by simp⟩
  | policy | refused | prepared | sealNoKey | sealFailed =>
    exact ⟨id, hactive, ht.brings, by simp, by simp, by simp, by simp⟩
  | sealNonce =>
    exact ⟨id, hactive, ht.brings, by simp, by simp, by simp [nonceRefusal], by simp⟩
  | @storedProvider p c =>
    -- the first store brings the provider of the algorithm, if it was not there
    obtain ⟨r, hr, haccepted⟩ := hfor c rfl
    cases hr
    have hprovider := (ht.brings.commit haccepted).1
    have hactive' (key : KeyHandle) (hkey : sh.state.activeKey = some key) :
        c.newProvider.algo = algo ∧ KeyOf algo material key := ⟨hprovider, (hactive key hkey).2⟩
    exact ⟨fun _ => hprovider, hactive', ht.brings, by simp, fun _ _ => hprovider, by simp, by simp⟩
  | @storedAlgo p c =>
    have hprovider := ht.stored c (.inl rfl)
    exact ⟨id, hactive, ht.brings, by simp, fun _ _ => hprovider, by simp, by simp⟩
  | @storedKey p c hguard =>
    -- the last store finds that provider still there
    obtain ⟨r, hr, haccepted⟩ := hfor c rfl
    cases hr
    refine ⟨id, fun key hkey => ?_, ht.brings, by simp, by simp, by simp, by simp⟩
    cases hkey
    exact ⟨ht.stored c (.inr rfl), (ht.brings.commit haccepted).2⟩
  | @sealCopied p key hkey =>
    refine ⟨id, hactive, ht.brings, fun key' hpc => ?_, by simp, by simp, by simp⟩
    rcases hpc with hpc | hpc <;> cases hpc
    exact hactive key hkey
  | @openCopied p key hkey =>
    refine ⟨id, hactive, ht.brings, fun key' hpc => ?_, by simp, by simp, by simp⟩
    rcases hpc with hpc | hpc <;> cases hpc
    exact hactive key hkey
  | @sealed p key frame hn hseal =>
    obtain ⟨hprovider, hkey⟩ := ht.held key (.inl rfl)
    refine ⟨id, hactive, ht.brings, by simp, by simp, fun p' frame' hp hframe => ?_, by simp⟩
    cases hp
    cases hframe
    exact ⟨sh.state.provider, key, hn, hprovider, hkey, hseal⟩
  | @openNoKey p message hkey =>
    refine ⟨id, hactive, ht.brings, by simp, by simp, by simp, fun q r _ hr => ?_⟩
    cases hr
    exact .inr ⟨message, rfl⟩
  | @opened p key plaintext hopen =>
    obtain ⟨hprovider, hkey⟩ := ht.held key (.inr rfl)
    refine ⟨id, hactive, ht.brings, by simp, by simp, by simp, fun q r hq hr => ?_⟩
    cases hq
    cases hr
    exact .inl ⟨sh.state.provider, key, hprovider, hkey, .inl ⟨plaintext, hopen, rfl⟩⟩
  | @openFailed p key e message hopen =>
    obtain ⟨hprovider, hkey⟩ := ht.held key (.inr rfl)
    refine ⟨id, hactive, ht.brings, by simp, by simp, by simp, fun q r hq hr => ?_⟩
    cases hq
    cases hr
    exact .inl ⟨sh.state.provider, key, hprovider, hkey, .inr ⟨e, hopen⟩⟩

theorem uniform_idle (s : CryptodState) (hkey : s.activeKey = none) :
    Uniform crate algo material (idle s) where
  active key h := by
    rw [show (idle s).shared.state.activeKey = none from hkey] at h
    cases h
  tasks t ht := absurd ht (not_mem_idle s t)

theorem Uniform.step (h : Uniform crate algo material d) (hfor : ∀ t ∈ d.tasks, t.CommitFor crate)
    (hbrings : ∀ request, a = .spawn request → Brings crate algo material request)
    (hstep : Pool.Step (daemon crate) d a d') : Uniform crate algo material d' := by
  obtain ⟨request, rfl, rfl⟩ | ⟨i, elapsed, t, sh', t', rfl, ht, hmove, rfl⟩ := daemon_cases hstep
  · refine ⟨h.active, fun t ht => ?_⟩
    rcases List.mem_append.mp ht with ht | ht
    · exact h.tasks t ht
    · rw [List.mem_singleton.mp ht]
      exact ⟨hbrings request rfl, by simp, by simp, by simp, by simp⟩
  · have hmem := List.mem_of_getElem? ht
    obtain ⟨hkeep, hactive, huniform⟩ := hmove.uniform h.active (hfor t hmem) (h.tasks t hmem)
    refine ⟨hactive, fun u hu => ?_⟩
    rcases List.mem_or_eq_of_mem_set hu with hu | rfl
    · exact (h.tasks u hu).keep hkeep
    · exact huniform

theorem run_uniform {acts : List (Pool.Act Request UInt64)} (hkey : s.activeKey = none)
    (hrun : Run (Pool.Step (daemon crate)) (idle s) acts d)
    (hbrings : ∀ request, .spawn request ∈ acts → Brings crate algo material request) :
    Uniform crate algo material d := by
  induction hrun with
  | nil => exact uniform_idle s hkey
  | @snoc acts d d' a run last ih =>
    refine (ih fun request h => hbrings request (List.mem_append_left _ h)).step
      (run_commitFor run) ?_ last
    rintro request rfl
    exact hbrings request (List.mem_append_right _ (List.mem_singleton_self _))

/-! ## A daemon without a key -/

/-- The step that answers a decryption with 409 finds no key in the state. -/
theorem answeredNoKey_cases {n : Nat} {q : DecryptParams} {message : String}
    (hstep : Pool.Step (daemon crate) d a d')
    (hbefore : d.tasks[n]? ≠ some ⟨.decrypt q, .done (.error 409 message)⟩)
    (hafter : d'.tasks[n]? = some ⟨.decrypt q, .done (.error 409 message)⟩) :
    (∃ elapsed, a = .run n elapsed) ∧ d.shared.state.activeKey = none ∧
      d.tasks[n]? = some ⟨.decrypt q, .received⟩ := by
  obtain ⟨request, rfl, rfl⟩ | ⟨i, elapsed, t, sh', t', rfl, ht, hmove, rfl⟩ := daemon_cases hstep
  · rw [List.getElem?_append] at hafter
    split at hafter
    · exact absurd hafter hbefore
    · cases List.mem_singleton.mp (List.mem_of_getElem? hafter)
  · by_cases hi : i = n
    · subst hi
      rw [List.getElem?_set_self (List.getElem?_eq_some_iff.mp ht).1] at hafter
      cases hafter
      generalize hcode : (409 : UInt32) = code at hmove
      cases hmove with
      | openNoKey hkey => exact ⟨⟨elapsed, rfl⟩, hkey, ht⟩
      | @openFailed _ _ e => exact absurd hcode (by unfold openCode; split <;> decide)
    · rw [List.getElem?_set_ne hi] at hafter
      exact absurd hafter hbefore

/-- In the step of the run in which the handler of task `n` of daemon `j` looks for a key, the
daemon has none. -/
def LookedWithoutKey {ι : Type} [DecidableEq ι] (crate : Gcm.Crate) (s₀ : CryptodState)
    (acts : List (ι × Pool.Act Request UInt64)) (j : ι) (n : Nat) (q : DecryptParams) : Prop :=
  ∃ before elapsed after f, acts = before ++ (j, .run n elapsed) :: after ∧
    Run (Abreast (Pool.Step (daemon crate))) (fun _ => idle s₀) before f ∧
    (f j).shared.state.activeKey = none ∧ (f j).tasks[n]? = some ⟨.decrypt q, .received⟩

theorem lookedWithoutKey_of_run {ι : Type} [DecidableEq ι]
    {acts : List (ι × Pool.Act Request UInt64)} {f : ι → Daemon} {j : ι} {n : Nat}
    {q : DecryptParams} {message : String}
    (hrun : Run (Abreast (Pool.Step (daemon crate))) (fun _ => idle s) acts f)
    (hanswered : (f j).tasks[n]? = some ⟨.decrypt q, .done (.error 409 message)⟩) :
    LookedWithoutKey crate s acts j n q := by
  obtain ⟨before, ⟨i, a⟩, after, g, g', rfl, hprefix, ⟨d, hstep, rfl⟩, hbefore, hafter⟩ :=
    hrun.exists_step (P := fun f => (f j).tasks[n]? = some ⟨.decrypt q, .done (.error 409 message)⟩)
      (by simp [idle]) hanswered
  by_cases hi : i = j
  · subst hi
    rw [Function.update_self] at hafter
    obtain ⟨⟨elapsed, rfl⟩, hkey, hreceived⟩ := answeredNoKey_cases hstep hbefore hafter
    exact ⟨before, elapsed, after, g, rfl, hprefix, hkey, hreceived⟩
  · rw [Function.update_of_ne (Ne.symm hi)] at hafter
    exact absurd hafter hbefore

/-! ## Any number of daemons -/

/-- One material for the fleet.  In every run of any number of daemons, each with any requests in
flight, in which every rotation that is accepted brings the same algorithm and material, under
whatever ids: a frame that one daemon answered an encryption with, sent to any daemon, is answered
with the plaintext of that encryption, or with 409 by a daemon that had no key when the handler
looked for one. -/
theorem fleet_interoperates {ι : Type} [DecidableEq ι] (crate : Gcm.Crate)
    (hcorrect : crate.aead.Correct) (algo : AlgoId) (material : Octets) (s₀ : CryptodState)
    (hnew : CryptodState.new = .ok s₀) (acts : List (ι × Pool.Act Request UInt64))
    (f : ι → Daemon) (hrun : Run (Abreast (Pool.Step (daemon crate))) (fun _ => idle s₀) acts f)
    (hbrings : ∀ i p c, (i, .spawn (.rotateKey p)) ∈ acts → Accepted crate p c →
      p.algo = algo.toU8 ∧ p.material.data = material) :
    ∀ i j n p q r, ⟨.encrypt p, .done (.ciphertext q.frame.data)⟩ ∈ (f i).tasks →
      (f j).tasks[n]? = some ⟨.decrypt q, .done r⟩ →
        r = .plaintext p.plaintext.data ∨
          (∃ message, r = .error 409 message) ∧ LookedWithoutKey crate s₀ acts j n q := by
  have hkey : s₀.activeKey = none := by
    cases hnew
    rfl
  have huniform (i : ι) : Uniform crate algo material (f i) := by
    refine run_uniform hkey (hrun.component i) fun request hmem p c hrequest haccepted => ?_
    subst hrequest
    exact hbrings i p c (mem_labelsOf.mp hmem) haccepted
  intro i j n p q r hsealed hopened
  have hframe := ((huniform i).tasks _ hsealed).sealed p q.frame.data rfl rfl
  obtain hopen | ⟨message, rfl⟩ :=
    ((huniform j).tasks _ (List.mem_of_getElem? hopened)).opened q r rfl rfl
  · exact .inl (hopen.plaintext hcorrect hframe)
  · exact .inr ⟨⟨message, rfl⟩, lookedWithoutKey_of_run hrun hopened⟩

namespace Kat

/-- The material of key 7 under another id. -/
def rotatePeer : RotateKeyParams := { rotate256 with keyId := 8 }

/-- The near end seals under key 7. -/
def nearActs : List (Pool.Act Request UInt64) :=
  [.spawn (.rotateKey rotate256), .run 0 0, .run 0 0, .run 0 0, .run 0 0,
    .spawn (.encrypt encryptText), .run 1 0, .run 1 0]

/-- The far end opens under key 8. -/
def farActs : List (Pool.Act Request UInt64) :=
  [.spawn (.rotateKey rotatePeer), .run 0 0, .run 0 0, .run 0 0, .run 0 0,
    .spawn (.decrypt decryptFrame), .run 1 0, .run 1 0]

def near : Daemon where
  shared := ⟨⟨provider256, .aes256Gcm, some Gcm.Kat.handle256, 1, 0, 0⟩, none⟩
  tasks := [⟨.rotateKey rotate256, .done .ok⟩,
    ⟨.encrypt encryptText, .done (.ciphertext Gcm.Kat.frame256)⟩]

def far : Daemon where
  shared := ⟨⟨provider256, .aes256Gcm, some ⟨8, .aes256Gcm, Gcm.Kat.material256⟩, 0, 1, 0⟩, none⟩
  tasks := [⟨.rotateKey rotatePeer, .done .ok⟩,
    ⟨.decrypt decryptFrame, .done (.plaintext Gcm.Kat.text)⟩]

/-- The two ends of the line. -/
def line : Bool → Daemon :=
  Function.update (Function.update (fun _ => idle fresh) false near) true far

def lineActs : List (Bool × Pool.Act Request UInt64) :=
  nearActs.map (fun a => (false, a)) ++ farActs.map fun a => (true, a)

theorem line_run :
    Run (Abreast (Pool.Step (daemon Gcm.kat))) (fun _ => idle fresh) lineActs line := by
  have hnear : Run (Pool.Step (daemon Gcm.kat)) (idle fresh) nearActs near :=
    Pool.run_of_exec (by rfl)
  have hfar : Run (Pool.Step (daemon Gcm.kat)) (idle fresh) farActs far :=
    Pool.run_of_exec (by rfl)
  refine Run.append (Run.abreast (f := fun _ => idle fresh) hnear) (Run.abreast ?_)
  exact hfar

end Kat

/-- What the near end sealed under key 7 the far end has opened under key 8. -/
theorem fleet_interoperates_line :
    ∃ r, (Kat.line true).tasks[1]? = some ⟨.decrypt Kat.decryptFrame, .done r⟩ ∧
      (r = .plaintext Gcm.Kat.text ∨ (∃ message, r = .error 409 message) ∧
        LookedWithoutKey Gcm.kat Kat.fresh Kat.lineActs true 1 Kat.decryptFrame) := by
  have hopened : (Kat.line true).tasks[1]? =
      some ⟨.decrypt Kat.decryptFrame, .done (.plaintext Gcm.Kat.text)⟩ := rfl
  refine ⟨_, hopened, fleet_interoperates Gcm.kat Gcm.kat_correct .aes256Gcm Gcm.Kat.material256
    Kat.fresh rfl Kat.lineActs Kat.line Kat.line_run ?_ false true 1 Kat.encryptText
    Kat.decryptFrame _ (List.mem_cons_of_mem _ (List.mem_singleton_self _)) hopened⟩
  intro i p c hmem haccepted
  have hp : p = Kat.rotate256 ∨ p = Kat.rotatePeer := by
    simp [Kat.lineActs, Kat.nearActs, Kat.farActs] at hmem
    exact hmem.imp And.right And.right
  obtain rfl | rfl := hp <;> exact ⟨rfl, rfl⟩

end Cryptod

end SmartSfp
