import SmartSfp.Crypto.Gcm

/-!
# Spec — what an AES-GCM provider does, in one expression

`sealSpec` and `openSpec` say what a provider of one AES algorithm over one crate returns and what
it leaves in the output buffer.  The providers are translated from the source on their own and
proved equal to these; everything built on a provider argues from here.
-/

namespace SmartSfp

open Lib

/-- The AES-GCM variant of a supported algorithm. -/
def AlgoId.variant : (a : AlgoId) → a ≠ .ozDst1105 → Gcm.Variant
  | .aes128Gcm, _ => .aes128
  | .aes256Gcm, _ => .aes256
  | .ozDst1105, h => absurd rfl h

theorem AlgoId.variant_keyLen (a : AlgoId) (h : a ≠ .ozDst1105) :
    (a.variant h).keyLen = a.keyLen := by
  cases a with
  | aes128Gcm => rfl
  | aes256Gcm => rfl
  | ozDst1105 => exact absurd rfl h

namespace AesGcm

open Exec

variable (crate : Gcm.Crate) (algo : AlgoId) (supported : algo ≠ .ozDst1105)

/-- Sealing: the checks in order, then the primitive.  `message` is the text of a refusal by the
primitive. -/
def sealSpec (message : String) (key : KeyHandle) (nonce aad plaintext out : Octets) :
    Outcome Octets CryptoError Nat :=
  if key.algo ≠ algo then .err (.algorithmMismatch algo key.algo) out
  else match Gcm.Nonce.ofSlice nonce with
  | none => .err (.invalidNonce 12 nonce.length) out
  | some n =>
    if out.length < plaintext.length + 16 then
      .err (.bufferTooSmall (plaintext.length + 16) out.length) out
    else match Gcm.Key.new (algo.variant supported) key.material with
    | none => .err (.invalidKey algo.keyLen key.material.length) out
    | some k =>
      match crate.sealDetached k n aad plaintext with
      | none => .err (.providerUnavailable message)
          (crate.sealResidue k n aad plaintext ++ out.drop plaintext.length)
      | some (c, t) => .ok (plaintext.length + 16) (c ++ t ++ out.drop (plaintext.length + 16))

/-- Opening: the checks in order, then the primitive.  `leave` is what the provider leaves at the
front of `out` when the tag does not verify. -/
def openSpec (leave : Gcm.Key → Gcm.Nonce → (aad ciphertext tag out : Octets) → Octets)
    (key : KeyHandle) (nonce aad body out : Octets) : Outcome Octets CryptoError Nat :=
  if body.length < 16 then .err .authFailed out
  else if key.algo ≠ algo then .err (.algorithmMismatch algo key.algo) out
  else match Gcm.Nonce.ofSlice nonce with
  | none => .err (.invalidNonce 12 nonce.length) out
  | some n =>
    if out.length < body.length - 16 then
      .err (.bufferTooSmall (body.length - 16) out.length) out
    else match Gcm.Key.new (algo.variant supported) key.material with
    | none => .err (.invalidKey algo.keyLen key.material.length) out
    | some k =>
      let c := body.take (body.length - 16)
      let t := body.drop (body.length - 16)
      match crate.openDetached k n aad c t with
      | none => .err .authFailed (leave k n aad c t out)
      | some p => .ok p.length (p ++ out.drop p.length)

/-- Sealing into a buffer of exactly the sealed size: what is sealed, or why not. -/
def sealExact (message : String) (key : KeyHandle) (n : Gcm.Nonce) (aad plaintext : Octets) :
    Except CryptoError Octets :=
  if key.algo ≠ algo then .error (.algorithmMismatch algo key.algo)
  else match Gcm.Key.new (algo.variant supported) key.material with
  | none => .error (.invalidKey algo.keyLen key.material.length)
  | some k =>
    match crate.sealDetached k n aad plaintext with
    | none => .error (.providerUnavailable message)
    | some (c, t) => .ok (c ++ t)

/-- Opening a body with room for its plaintext. -/
def openExact (key : KeyHandle) (n : Gcm.Nonce) (aad body : Octets) : Except CryptoError Octets :=
  if key.algo ≠ algo then .error (.algorithmMismatch algo key.algo)
  else match Gcm.Key.new (algo.variant supported) key.material with
  | none => .error (.invalidKey algo.keyLen key.material.length)
  | some k =>
    match crate.openDetached k n aad (body.take (body.length - 16))
      (body.drop (body.length - 16)) with
    | none => .error .authFailed
    | some p => .ok p

/-- The in-place sequence both providers share: the plaintext is copied into `out` and encrypted
there, and the tag goes behind it. -/
theorem run_encrypt_into (message : String) (k : Gcm.Key) (n : Gcm.Nonce)
    (aad plaintext out : Octets) (hroom : plaintext.length + 16 ≤ out.length) :
    (do copyFromSlice 0 plaintext.length plaintext
        let tag ← mapErr (fun _ => CryptoError.providerUnavailable message)
          (window 0 plaintext.length (crate.sealInPlace k n aad))
        copyFromSlice plaintext.length (plaintext.length + 16) tag
        return plaintext.length + 16 : Exec Octets CryptoError Nat).run out =
      match crate.sealDetached k n aad plaintext with
      | none => .err (.providerUnavailable message)
          (crate.sealResidue k n aad plaintext ++ out.drop plaintext.length)
      | some (c, t) =>
        .ok (plaintext.length + 16) (c ++ t ++ out.drop (plaintext.length + 16)) := by
  obtain ⟨front, rest, rfl, hfront, -⟩ := exists_split (n := plaintext.length) (s := out) (by omega)
  rw [List.length_append] at hroom
  obtain ⟨room, slack, rfl, hlen, -⟩ := exists_split (n := 16) (s := rest) (by omega)
  have hrest : (front ++ (room ++ slack)).drop plaintext.length = room ++ slack := by
    rw [← hfront, List.drop_left]
  have hslack : (front ++ (room ++ slack)).drop (plaintext.length + 16) = slack := by
    rw [← List.append_assoc, ← hfront, ← hlen, ← List.length_append, List.drop_left]
  simp only [run_bind, run_mapErr, run_pure, run_copyFromSlice_front hfront.symm hfront.symm,
    Outcome.bind_ok, run_window_front _ rfl, hrest, hslack]
  cases h : crate.sealDetached k n aad plaintext with
  | none =>
    rw [crate.run_sealInPlace_none h]
    rfl
  | some sealed =>
    obtain ⟨c, t⟩ := sealed
    obtain ⟨hc, ht⟩ := crate.sealDetached_length h
    rw [crate.run_sealInPlace_some h]
    simp only [Outcome.mapState_ok, Outcome.mapErr_ok, Outcome.bind_ok]
    rw [← List.append_assoc, run_copyFromSlice hc.symm (by rw [hc, hlen]) (by rw [ht, hlen])]
    rfl

/-- Opening a copy of the body and copying the plaintext into `out`, which a refusal leaves as it
was. -/
theorem run_decrypt_copied (k : Gcm.Key) (n : Gcm.Nonce) (aad body out : Octets)
    (hbody : 16 ≤ body.length) (hroom : body.length - 16 ≤ out.length) :
    (do let (result, _workBuf) ← callWith body (crate.openInPlace k n aad)
        match result with
        | .error _ => fail .authFailed
        | .ok ptSlice =>
          copyFromSlice 0 ptSlice.length ptSlice
          return ptSlice.length : Exec Octets CryptoError Nat).run out =
      match crate.openDetached k n aad (body.take (body.length - 16))
        (body.drop (body.length - 16)) with
      | none => .err .authFailed out
      | some p => .ok p.length (p ++ out.drop p.length) := by
  have htag : (body.drop (body.length - 16)).length = 16 := by
    rw [List.length_drop]
    omega
  have hrun := crate.run_openInPlace_append k n aad (body.take (body.length - 16)) htag
  rw [List.take_append_drop] at hrun
  cases h : crate.openDetached k n aad (body.take (body.length - 16))
    (body.drop (body.length - 16)) with
  | none =>
    rw [h] at hrun
    simp only [run_bind, callWith, hrun, Outcome.bind_ok, run_fail]
  | some p =>
    have hp := crate.openDetached_length h
    rw [List.length_take] at hp
    obtain ⟨front, slack, rfl, hfront, -⟩ := exists_split (n := p.length) (s := out) (by omega)
    rw [h] at hrun
    simp only [run_bind, callWith, hrun, Outcome.bind_ok, run_pure]
    rw [run_copyFromSlice_front hfront.symm hfront.symm, Outcome.bind_ok, ← hfront,
      List.drop_left]

variable {crate algo supported}

/-- Sealing succeeds exactly when every check passes and the primitive seals. -/
theorem sealSpec_eq_ok_iff {message : String} {key : KeyHandle}
    {nonce aad plaintext out out' : Octets} {count : Nat} :
    sealSpec crate algo supported message key nonce aad plaintext out = .ok count out' ↔
      key.algo = algo ∧ plaintext.length + 16 ≤ out.length ∧
        ∃ n k c t, Gcm.Nonce.ofSlice nonce = some n ∧
          Gcm.Key.new (algo.variant supported) key.material = some k ∧
          crate.sealDetached k n aad plaintext = some (c, t) ∧ count = plaintext.length + 16 ∧
          out' = c ++ t ++ out.drop (plaintext.length + 16) := by
  unfold sealSpec
  by_cases halgo : key.algo = algo
  · cases hn : Gcm.Nonce.ofSlice nonce with
    | none => simp [halgo]
    | some n =>
      by_cases hroom : out.length < plaintext.length + 16
      · simp only [halgo, ne_eq, not_true_eq_false, if_false, if_pos hroom, true_and]
        constructor
        · intro h
          cases h
        · rintro ⟨h, -⟩
          omega
      · cases hk : Gcm.Key.new (algo.variant supported) key.material with
        | none => simp [halgo, hroom]
        | some k =>
          simp only [halgo, ne_eq, not_true_eq_false, if_false, if_neg hroom, Nat.not_lt.mp hroom,
            true_and, Option.some.injEq]
          cases hc : crate.sealDetached k n aad plaintext with
          | none => simp [hc]
          | some sealed =>
            obtain ⟨c, t⟩ := sealed
            constructor
            · intro h
              cases h
              exact ⟨n, k, c, t, rfl, rfl, hc, rfl, rfl⟩
            · rintro ⟨n', k', c', t', rfl, rfl, hc', rfl, rfl⟩
              rw [hc] at hc'
              cases hc'
              rfl
  · simp [halgo]

theorem sealSpec_returns (message : String) (key : KeyHandle) (nonce aad plaintext out : Octets) :
    (sealSpec crate algo supported message key nonce aad plaintext out).Returns := by
  unfold sealSpec
  repeat' split
  all_goals trivial

theorem openSpec_returns (leave : Gcm.Key → Gcm.Nonce → (aad c t out : Octets) → Octets)
    (key : KeyHandle) (nonce aad body out : Octets) :
    (openSpec crate algo supported leave key nonce aad body out).Returns := by
  unfold openSpec
  dsimp only
  repeat' split
  all_goals trivial

/-- A seal that succeeds writes the front of its buffer only. -/
theorem sealSpec_writes {message : String} {key : KeyHandle}
    {nonce aad plaintext out out' : Octets} {count : Nat}
    (h : sealSpec crate algo supported message key nonce aad plaintext out = .ok count out') :
    count = plaintext.length + algo.tagLen ∧ out'.drop count = out.drop count := by
  obtain ⟨-, -, n, k, c, t, -, -, hseal, rfl, rfl⟩ := sealSpec_eq_ok_iff.mp h
  obtain ⟨hc, ht⟩ := crate.sealDetached_length hseal
  have hlen : (c ++ t).length = plaintext.length + 16 := by
    rw [List.length_append, hc, ht]
  refine ⟨by rw [AlgoId.tagLen_eq], ?_⟩
  rw [← hlen, List.drop_left]

/-- With the checks passed, opening is the primitive's verdict on ciphertext and tag. -/
theorem openSpec_append {leave : Gcm.Key → Gcm.Nonce → (aad c t out : Octets) → Octets}
    {key : KeyHandle} {nonce aad c t out : Octets} {n : Gcm.Nonce} {k : Gcm.Key}
    (halgo : key.algo = algo) (hn : Gcm.Nonce.ofSlice nonce = some n)
    (hk : Gcm.Key.new (algo.variant supported) key.material = some k) (ht : t.length = 16)
    (hroom : c.length ≤ out.length) :
    openSpec crate algo supported leave key nonce aad (c ++ t) out =
      match crate.openDetached k n aad c t with
      | none => .err .authFailed (leave k n aad c t out)
      | some p => .ok p.length (p ++ out.drop p.length) := by
  have hlen : (c ++ t).length - 16 = c.length := by
    rw [List.length_append, ht, Nat.add_sub_cancel]
  unfold openSpec
  rw [if_neg (by rw [List.length_append]; omega), if_neg (not_not.mpr halgo), hn]
  simp only
  rw [hlen, if_neg (by omega), hk]
  simp only [List.take_left, List.drop_left]

/-- Over a correct crate, opening what was sealed gives the plaintext back. -/
theorem openSpec_of_sealSpec {message : String}
    {leave : Gcm.Key → Gcm.Nonce → (aad c t out : Octets) → Octets}
    (hcorrect : crate.aead.Correct) {key : KeyHandle} {nonce aad plaintext out out' : Octets}
    {count : Nat}
    (h : sealSpec crate algo supported message key nonce aad plaintext out = .ok count out')
    {buf : Octets} (hbuf : plaintext.length ≤ buf.length) :
    openSpec crate algo supported leave key nonce aad (out'.take count) buf =
      .ok plaintext.length (plaintext ++ buf.drop plaintext.length) := by
  obtain ⟨halgo, -, n, k, c, t, hn, hk, hseal, rfl, rfl⟩ := sealSpec_eq_ok_iff.mp h
  obtain ⟨hc, ht⟩ := crate.sealDetached_length hseal
  have hlen : (c ++ t).length = plaintext.length + 16 := by
    rw [List.length_append, hc, ht]
  have hopen : crate.openDetached k n aad c t = some plaintext := hcorrect k n aad _ _ hseal
  rw [← hlen, List.take_left, openSpec_append halgo hn hk ht (by omega), hopen]

variable (crate algo supported) in
theorem sealSpec_exact (message : String) (key : KeyHandle) {nonce : Octets} {n : Gcm.Nonce}
    (hn : Gcm.Nonce.ofSlice nonce = some n) (aad : Octets) {plaintext out : Octets}
    (hout : out.length = plaintext.length + 16) :
    ∃ left, sealSpec crate algo supported message key nonce aad plaintext out =
      match sealExact crate algo supported message key n aad plaintext with
      | .ok sealed => .ok (plaintext.length + 16) sealed
      | .error e => .err e left := by
  unfold sealSpec sealExact
  rw [hn]
  simp only [hout, Nat.lt_irrefl, if_false]
  split
  · exact ⟨_, rfl⟩
  · cases Gcm.Key.new (algo.variant supported) key.material with
    | none => exact ⟨_, rfl⟩
    | some k =>
      simp only
      cases crate.sealDetached k n aad plaintext with
      | none => exact ⟨_, rfl⟩
      | some sealed =>
        refine ⟨[], ?_⟩
        simp only
        rw [← hout, List.drop_length, List.append_nil]

variable (crate algo supported) in
theorem openSpec_exact (leave : Gcm.Key → Gcm.Nonce → (aad c t out : Octets) → Octets)
    (key : KeyHandle) {nonce : Octets} {n : Gcm.Nonce} (hn : Gcm.Nonce.ofSlice nonce = some n)
    (aad : Octets) {body : Octets} (hbody : 16 ≤ body.length) (out : Octets)
    (hroom : body.length - 16 ≤ out.length) :
    ∃ left, openSpec crate algo supported leave key nonce aad body out =
      match openExact crate algo supported key n aad body with
      | .ok p => .ok p.length (p ++ out.drop p.length)
      | .error e => .err e left := by
  unfold openSpec openExact
  rw [hn, if_neg (by omega)]
  simp only [if_neg (Nat.not_lt.mpr hroom)]
  split
  · exact ⟨_, rfl⟩
  · cases Gcm.Key.new (algo.variant supported) key.material with
    | none => exact ⟨_, rfl⟩
    | some k =>
      simp only
      cases crate.openDetached k n aad (body.take (body.length - 16))
          (body.drop (body.length - 16)) with
      | none => exact ⟨_, rfl⟩
      | some p => exact ⟨[], rfl⟩

/-- What is sealed under a matching handle is ciphertext and tag of the primitive. -/
theorem sealExact_eq_ok_iff {message : String} {key : KeyHandle} {n : Gcm.Nonce}
    {aad plaintext sealed : Octets} :
    sealExact crate algo supported message key n aad plaintext = .ok sealed ↔
      key.algo = algo ∧ ∃ k c t, Gcm.Key.new (algo.variant supported) key.material = some k ∧
        crate.sealDetached k n aad plaintext = some (c, t) ∧ sealed = c ++ t := by
  unfold sealExact
  by_cases halgo : key.algo = algo
  · simp only [halgo, ne_eq, not_true_eq_false, if_false, true_and]
    cases Gcm.Key.new (algo.variant supported) key.material with
    | none => simp
    | some k =>
      cases hc : crate.sealDetached k n aad plaintext with
      | none => simp [hc]
      | some pair =>
        obtain ⟨c, t⟩ := pair
        simp [hc, eq_comm]
  · simp [halgo]

theorem sealExact_length {message : String} {key : KeyHandle} {n : Gcm.Nonce}
    {aad plaintext sealed : Octets}
    (h : sealExact crate algo supported message key n aad plaintext = .ok sealed) :
    sealed.length = plaintext.length + 16 := by
  obtain ⟨-, k, c, t, -, hseal, rfl⟩ := sealExact_eq_ok_iff.mp h
  obtain ⟨hc, ht⟩ := crate.sealDetached_length hseal
  rw [List.length_append, hc, ht]

/-- Over a correct crate, what was sealed opens under the same handle. -/
theorem openExact_of_sealExact {message : String} (hcorrect : crate.aead.Correct)
    {key : KeyHandle} {n : Gcm.Nonce} {aad plaintext sealed : Octets}
    (h : sealExact crate algo supported message key n aad plaintext = .ok sealed) :
    openExact crate algo supported key n aad sealed = .ok plaintext := by
  obtain ⟨halgo, k, c, t, hk, hseal, rfl⟩ := sealExact_eq_ok_iff.mp h
  obtain ⟨hc, ht⟩ := crate.sealDetached_length hseal
  have hlen : (c ++ t).length - 16 = c.length := by
    rw [List.length_append, ht, Nat.add_sub_cancel]
  have hopen : crate.openDetached k n aad c t = some plaintext := hcorrect k n aad _ _ hseal
  simp only [openExact, halgo, ne_eq, not_true_eq_false, if_false, hk, hlen, List.take_left,
    List.drop_left, hopen]

end AesGcm

end SmartSfp
