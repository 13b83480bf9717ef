import SmartSfp.Cryptod.Serial

/-!
# Traffic — what a daemon answers while its key stays

As long as no rotation is accepted, the answer to a request depends on the request and on the key in
force, and on nothing else: not on what else is in flight, not on what was answered before.  A frame
opens as often as it is sent, and a nonce seals as often as it is used.
-/

namespace SmartSfp

namespace Cryptod

open Lib Exec Ipc

variable {crate : Gcm.Crate} {s u v : CryptodState} {d d' : Daemon}
  {a : Pool.Act Request UInt64} {i : Nat} {sh sh' : Shared} {t t' : Task}
  {pc pc' : Pc} {request : Request} {response : Response}

/-! ## Answers under one key -/

theorem handleEncrypt_run (p : EncryptParams) (s : CryptodState) :
    (handleEncrypt crate p).run s =
      match s.activeKey with
      | some key => (sealRequest (s.provider.toProvider crate) key p).run s
      | none => .err (.error 409 "no active key — call rotate_key first") s := by
  cases hkey : s.activeKey with
  | none =>
    simp only [handleEncrypt, run_bind, run_get, Outcome.bind_ok, hkey, run_okOr_none,
      Outcome.bind_err]
  | some key => simp only [handleEncrypt, run_bind, run_get, Outcome.bind_ok, hkey, run_okOr_some]

theorem handleDecrypt_run (p : DecryptParams) (s : CryptodState) :
    (handleDecrypt crate p).run s =
      match s.activeKey with
      | some key => (openRequest (s.provider.toProvider crate) key p).run s
      | none => .err (.error 409 "no active key") s := by
  cases hkey : s.activeKey with
  | none =>
    simp only [handleDecrypt, run_bind, run_get, Outcome.bind_ok, hkey, run_okOr_none,
      Outcome.bind_err]
  | some key => simp only [handleDecrypt, run_bind, run_get, Outcome.bind_ok, hkey, run_okOr_some]

/-- The response of an outcome, whether the body ended or left early. -/
def responseOf : Outcome CryptodState Response Response → Option Response
  | .ok r _ | .err r _ => some r
  | .panic _ => none

theorem responseOf_returning {x : Exec CryptodState Response Response} (s : CryptodState) :
    (∃ v, (returning x : Exec CryptodState Empty Response).run s = .ok response v) ↔
      responseOf (x.run s) = some response := by
  simp only [returning]
  cases x.run s with
  | ok r w =>
    constructor
    · rintro ⟨v, h⟩
      cases h
      rfl
    · intro h
      cases h
      exact ⟨w, rfl⟩
  | err r w =>
    constructor
    · rintro ⟨v, h⟩
      cases h
      rfl
    · intro h
      cases h
      exact ⟨w, rfl⟩
  | panic reason =>
    constructor
    · rintro ⟨v, h⟩
      cases h
    · intro h
      cases h

theorem responseOf_sealRequest (self : AesGcmRingProvider) (key : KeyHandle) (p : EncryptParams)
    (s u : CryptodState) : responseOf ((sealRequest (self.toProvider crate) key p).run s) =
      responseOf ((sealRequest (self.toProvider crate) key p).run u) := by
  by_cases hn : p.nonce.data.length = 12
  · rw [sealRequest_run crate self key hn, sealRequest_run crate self key hn]
    cases Wire.ringSealFrame crate self key ⟨p.nonce.data, hn⟩ p.plaintext.data with
    | ok frame => rfl
    | error e => rfl
  · rw [sealRequest_run_nonce key _ hn, sealRequest_run_nonce key _ hn]
    rfl

theorem responseOf_openRequest (self : AesGcmRingProvider) (key : KeyHandle) (p : DecryptParams)
    (s u : CryptodState) : responseOf ((openRequest (self.toProvider crate) key p).run s) =
      responseOf ((openRequest (self.toProvider crate) key p).run u) := by
  rw [openRequest_run crate self key, openRequest_run crate self key]
  cases Wire.ringOpenFrame crate self key p.frame.data with
  | ok plaintext => rfl
  | error e => rfl

theorem responseOf_rotate (p : RotateKeyParams) {f : Commit → Exec CryptodState Response Response}
    (hf : ∀ c s, responseOf ((f c).run s) = some .ok) (s u : CryptodState) :
    responseOf ((rotatePrepare crate p >>= f).run s) =
      responseOf ((rotatePrepare crate p >>= f).run u) := by
  obtain ⟨c, hc⟩ | ⟨e, he⟩ := rotatePrepare_detached (σ := CryptodState) crate p
  · rw [run_bind, run_bind, hc, hc]
    exact (hf c s).trans (hf c u).symm
  · rw [run_bind, run_bind, he, he]
    rfl

/-- Under the same key every request but `GetStatus` has the same answer. -/
theorem response_of_sameKey (hsame : SameKey s u) (hnot : request ≠ .getStatus)
    (h : ∃ v, (handle crate 0 request).run u = .ok response v) :
    ∃ v, (handle crate 0 request).run s = .ok response v := by
  obtain ⟨hprovider, halgo, hkey⟩ := hsame
  cases request with
  | getStatus => exact absurd rfl hnot
  | setPolicy p =>
    obtain ⟨v, hv⟩ := h
    cases hv
    exact ⟨s, rfl⟩
  | rotateKey p =>
    refine (responseOf_returning s).mpr (.trans ?_ ((responseOf_returning u).mp h))
    exact responseOf_rotate p (fun c s => rfl) s u
  | encrypt p =>
    refine (responseOf_returning s).mpr (.trans ?_ ((responseOf_returning u).mp h))
    show responseOf ((handleEncrypt crate p).run s) = responseOf ((handleEncrypt crate p).run u)
    rw [handleEncrypt_run, handleEncrypt_run, hkey, hprovider]
    cases s.activeKey with
    | none => rfl
    | some key => exact responseOf_sealRequest _ key p s u
  | decrypt p =>
    refine (responseOf_returning s).mpr (.trans ?_ ((responseOf_returning u).mp h))
    show responseOf ((handleDecrypt crate p).run s) = responseOf ((handleDecrypt crate p).run u)
    rw [handleDecrypt_run, handleDecrypt_run, hkey, hprovider]
    cases s.activeKey with
    | none => rfl
    | some key => exact responseOf_openRequest _ key p s u

/-! ## Runs without a rotation -/

/-- The task has answered what the daemon in `s` answers, and any key it holds is that of `s`. -/
structure AnswersAs (crate : Gcm.Crate) (s : CryptodState) (t : Task) : Prop where
  unstored : t.pc.commit = none
  held : ∀ key, t.Holds key → s.activeKey = some key
  answered : ∀ response, t.pc = .done response → t.request ≠ .getStatus →
    ∃ v, (handle crate 0 t.request).run s = .ok response v

theorem answersAs_received (request : Request) : AnswersAs crate s ⟨request, .received⟩ where
  unstored := rfl
  held key h := by rcases h with h | h <;> cases h
  answered response h := by cases h

/-- A task that is on its way, holding nothing. -/
theorem answersAs_of_pc (hcommit : pc.commit = none) (hseal : ∀ key, pc ≠ .sealing key)
    (hopen : ∀ key, pc ≠ .opening key)
    (hdone : ∀ response, pc = .done response → request = .getStatus) :
    AnswersAs crate s ⟨request, pc⟩ where
  unstored := hcommit
  held key h := by
    rcases h with h | h
    · exact absurd h (hseal key)
    · exact absurd h (hopen key)
  answered response h hnot := absurd (hdone response h) hnot

/-- What a step does under the key of `s` it does as in `s`. -/
theorem answersAs_of_effect (hsame : SameKey s sh.state) (hnot : t.request ≠ .getStatus)
    (hcommit : t'.pc.commit = none) (h : Effect crate 0 sh.state t sh' t') :
    SameKey s sh'.state ∧ AnswersAs crate s t' := by
  cases h with
  | quiet hstate hcurrent hopen =>
    refine ⟨hstate ▸ hsame, hcommit, fun key hholds => ?_, fun response hdone => ?_⟩
    · rcases hholds with hpc | hpc
      · rw [hpc] at hcurrent
        exact hsame.2.2.symm.trans hcurrent
      · rw [hpc] at hcurrent
        exact hsame.2.2.symm.trans hcurrent
    · exact absurd hdone (hopen response)
  | @answered response hdone hhandles hstate =>
    subst hdone
    constructor
    · obtain hstate | ⟨hstate, -⟩ := hstate
      · exact hstate ▸ hsame
      · exact hsame.trans hstate
    · refine ⟨rfl, fun key hholds => ?_, fun response' hpc _ => ?_⟩
      · rcases hholds with hpc | hpc <;> cases hpc
      · cases hpc
        apply response_of_sameKey hsame hnot
        refine ⟨sh'.state, ?_⟩
        -- only a status has the uptime in it
        cases hreq : t.request with
        | getStatus => exact absurd hreq hnot
        | _ =>
          rw [hreq] at hhandles
          exact hhandles

theorem AnswersAs.step (hsame : SameKey s sh.state) (ht : AnswersAs crate s t)
    (hrefused : ∀ p, t.request = .rotateKey p → ∀ c, ¬ Accepted crate p c) {elapsed : UInt64}
    (hstep : taskStep crate i elapsed sh t = some (sh', t')) :
    SameKey s sh'.state ∧ AnswersAs crate s t' := by
  have hmove := move_of_step hstep
  obtain ⟨request, pc⟩ := t
  obtain ⟨pc', rfl, hnext⟩ := exists_requestStep hstep
  cases request with
  | getStatus =>
    have hstatus := statusMove_of_step hnext
    refine ⟨hstatus.state_eq ▸ hsame, ?_⟩
    cases hstatus with
    | answer => exact answersAs_of_pc rfl (by simp) (by simp) fun _ _ => rfl
    | _ => exact answersAs_of_pc rfl (by simp) (by simp) (by simp)
  | setPolicy p =>
    cases hmove with
    | policy =>
      refine ⟨hsame, rfl, fun key hholds => ?_, fun response hpc _ => ?_⟩
      · rcases hholds with hpc | hpc <;> cases hpc
      · cases hpc
        exact ⟨s, rfl⟩
  | rotateKey p =>
    cases pc with
    | received =>
      refine answersAs_of_effect hsame (by simp) ?_ (effect_of_prepare hnext)
      cases hmove with
      | refused => rfl
      | prepared haccepted => exact absurd haccepted (hrefused p rfl _)
    | storeProvider c => cases ht.unstored
    | storeAlgo c => cases ht.unstored
    | storeKey c => cases ht.unstored
    | _ => cases hnext
  | encrypt p =>
    have hcommit : pc'.commit = none := by cases hmove <;> rfl
    have hcurrent : pc.Current sh.state := by
      cases hmove with
      | sealCopied | sealNoKey => trivial
      | _ => exact hsame.2.2.trans (ht.held _ (.inl rfl))
    exact answersAs_of_effect hsame (by simp) hcommit (effect_of_encrypt hcurrent hnext)
  | decrypt p =>
    have hcommit : pc'.commit = none := by cases hmove <;> rfl
    have hcurrent : pc.Current sh.state := by
      cases hmove with
      | openCopied | openNoKey => trivial
      | _ => exact hsame.2.2.trans (ht.held _ (.inr rfl))
    exact answersAs_of_effect hsame (by simp) hcommit (effect_of_decrypt hcurrent hnext)

/-- As long as no rotation is accepted, the daemon answers every request but `GetStatus` as it would
at the start, with nothing else in flight and nothing answered before: no answer depends on the
other requests, their order or their number. -/
theorem answers_without_memory (crate : Gcm.Crate) (s : CryptodState)
    (acts : List (Pool.Act Request UInt64)) (d : Daemon)
    (hrun : Run (Pool.Step (daemon crate)) (idle s) acts d)
    (hrefused : ∀ p, .spawn (.rotateKey p) ∈ acts → ∀ c, ¬ Accepted crate p c) :
    SameKey s d.shared.state ∧
      ∀ request response, ⟨request, .done response⟩ ∈ d.tasks → request ≠ .getStatus →
        ∃ v, (handle crate 0 request).run s = .ok response v := by
  suffices h : SameKey s d.shared.state ∧ ∀ t ∈ d.tasks, AnswersAs crate s t from
    ⟨h.1, fun request response hmem hnot => (h.2 _ hmem).answered response rfl hnot⟩
  induction hrun with
  | nil => exact ⟨.refl s, fun t ht => absurd ht (not_mem_idle s t)⟩
  | @snoc acts d d' a run last ih =>
    obtain ⟨hsame, hall⟩ := ih fun p hp => hrefused p (List.mem_append_left _ hp)
    have hspawned := run_spawned run
    obtain ⟨request, rfl, rfl⟩ | ⟨i, elapsed, t, sh', t', rfl, ht, hstep, rfl⟩ :=
      Pool.step_cases last
    · refine ⟨hsame, fun t ht => ?_⟩
      rcases List.mem_append.mp ht with ht | ht
      · exact hall t ht
      · rw [List.mem_singleton.mp ht]
        exact answersAs_received request
    · have hmem := List.mem_of_getElem? ht
      obtain ⟨hsame', hanswers⟩ := (hall t hmem).step hsame (fun p hp =>
        hrefused p (List.mem_append_left _ (hp ▸ hspawned t hmem))) hstep
      refine ⟨hsame', fun u hu => ?_⟩
      rcases List.mem_or_eq_of_mem_set hu with hu | rfl
      · exact hall u hu
      · exact hanswers

namespace Kat

/-- An encryption, its frame decrypted while it is sealed once more, and a status among them. -/
def resentActs : List (Pool.Act Request UInt64) :=
  [.spawn (.encrypt encryptText), .run 0 0, .run 0 0, .spawn (.decrypt decryptFrame),
    .spawn .getStatus, .spawn (.encrypt encryptText), .run 1 0, .run 2 0, .run 3 0, .run 2 0,
    .run 1 0, .run 3 0, .spawn (.decrypt decryptFrame), .run 2 0, .run 2 0, .run 2 0, .run 4 0,
    .run 4 0]

def resent : Daemon where
  shared := ⟨⟨provider256, .aes256Gcm, some Gcm.Kat.handle256, 2, 2, 0⟩, none⟩
  tasks := [⟨.encrypt encryptText, .done (.ciphertext Gcm.Kat.frame256)⟩,
    ⟨.decrypt decryptFrame, .done (.plaintext Gcm.Kat.text)⟩,
    ⟨.getStatus, .done (.status (report 0 .aes256Gcm
      ⟨provider256, .aes256Gcm, some Gcm.Kat.handle256, 2, 1, 0⟩))⟩,
    ⟨.encrypt encryptText, .done (.ciphertext Gcm.Kat.frame256)⟩,
    ⟨.decrypt decryptFrame, .done (.plaintext Gcm.Kat.text)⟩]

theorem resent_run : Run (Pool.Step (daemon Gcm.kat)) (idle rotated) resentActs resent :=
  Pool.run_of_exec (by rfl)

end Kat

/-- The frame opens a second time as it would have at the start. -/
theorem answers_without_memory_resent : ∃ v,
    (handle Gcm.kat 0 (.decrypt Kat.decryptFrame)).run Kat.rotated =
      .ok (.plaintext Gcm.Kat.text) v := by
  obtain ⟨-, hanswers⟩ := answers_without_memory Gcm.kat Kat.rotated Kat.resentActs Kat.resent
    Kat.resent_run fun p hp => by simp [Kat.resentActs] at hp
  exact hanswers _ _ (List.mem_of_getElem? (i := 4) rfl) (by simp)

end Cryptod

end SmartSfp
