import SmartSfp.Cryptod.Verdict
import SmartSfp.Cmd.Cli
import SmartSfp.Node.Realise

/-!
# EncdecTest — the end-to-end check of a running daemon

`acm-encdec-test` encrypts and decrypts texts of several sizes, has an altered frame refused, and
compares the counters before and after.  Closing the client at the end is left out.
-/

namespace SmartSfp

namespace Cmd

open Lib Ipc Httpapi Node Cryptod

/-- `[]byte` results; a nil slice has no bytes. -/
def returnedBytes : Returned → Octets
  | .bytes data => data
  | _ => []

namespace EncdecTest

/-- `crypto/rand`: what the `k`-th read gives. -/
structure Rand where
  read : (k n : Nat) → Octets
  length_read : ∀ k n, (read k n).length = n

/-- `fail`. -/
def fail (out : List String) (text : String) : Program Exit :=
  .stop ⟨1, out ++ ["\nFAIL: " ++ text ++ "\n"], []⟩

/-- `[]byte("acm-uz-e2e")`. -/
def aad : Octets := Text.utf8 "acm-uz-e2e"

/-- `[]byte("ATTACK AT DAWN")`. -/
def attack : Octets := Text.utf8 "ATTACK AT DAWN"

/-- `tampered[24] ^= 0x01`. -/
def tamper (frame : Octets) : Octets := frame.modify 24 fun b => b ^^^ 1

def keyStr : Option UInt32 → String
  | some id => toString id.toNat
  | none => "(none)"

variable (errorText : ClientError → String) (rand : Rand)

/-- The body of the loop for `n` bytes, which reads the random source twice. -/
def roundtrip (n k : Nat) (out : List String) (next : List String → Program Exit) : Program Exit :=
  let pt := rand.read k n
  let nonce := rand.read (k + 1) 12
  .ask (.encrypt (some nonce) (some aad) (some pt)) fun encrypted =>
    match returnedError errorText encrypted with
    | some e => fail out s!"Encrypt(size={n}): {e}"
    | none =>
      let frame := returnedBytes encrypted
      let want := n + 12 + 12 + 16
      if want ≠ frame.length then
        fail out s!"frame size mismatch: pt={n} frame={frame.length} (want {want})"
      else
        .ask (.decrypt (some frame)) fun decrypted =>
          match returnedError errorText decrypted with
          | some e => fail out s!"Decrypt(size={n}): {e}"
          | none =>
            if returnedBytes decrypted ≠ pt then fail out s!"roundtrip mismatch at size {n}"
            else next (out ++ [s!"  ok roundtrip size={n} frame={frame.length}B\n"])

def roundtrips : List Nat → Nat → List String → (List String → Program Exit) → Program Exit
  | [], _, out, next => next out
  | n :: sizes, k, out, next =>
    roundtrip errorText rand n k out fun out => roundtrips sizes (k + 2) out next

/-- The altered frame. -/
def tamperTest (k : Nat) (out : List String) (next : List String → Program Exit) : Program Exit :=
  .ask (.encrypt (some (rand.read k 12)) none (some attack)) fun encrypted =>
    match returnedError errorText encrypted with
    | some e => fail out s!"Encrypt for tamper: {e}"
    | none =>
      let frame := returnedBytes encrypted
      if frame.length ≤ 24 then
        .stop (panicked out s!"index out of range [24] with length {frame.length}")
      else
        .ask (.decrypt (some (tamper frame))) fun decrypted =>
          match returnedError errorText decrypted with
          | none => fail out "tampered ciphertext did NOT fail decrypt"
          | some e =>
            match decrypted with
            | .errorResponse r =>
              if r.code ≠ 401 then fail out s!"tampered decrypt expected code 401, got: {e}"
              else next (out ++ [s!"  ok tamper detected: {e}\n"])
            | _ => fail out s!"tampered decrypt expected code 401, got: {e}"

/-- The counters that `sizes` round trips and the altered frame leave behind `st`. -/
def compare (sizes : List Nat) (st st2 : StatusReport) (out : List String) : Program Exit :=
  let wantSealed := st.packetsSealed + UInt64.ofNat sizes.length + 1
  let wantOpened := st.packetsOpened + UInt64.ofNat sizes.length
  let wantErrors := st.cryptoErrors + 1
  if st2.packetsSealed ≠ wantSealed then
    fail out s!"packets_sealed: want {wantSealed}, got {st2.packetsSealed}"
  else if st2.packetsOpened ≠ wantOpened then
    fail out s!"packets_opened: want {wantOpened}, got {st2.packetsOpened}"
  else if st2.cryptoErrors ≠ wantErrors then
    fail out s!"crypto_errors: want {wantErrors}, got {st2.cryptoErrors}"
  else .stop ⟨0, out ++ ["\nPASS\n"], []⟩

/-- The last status, and what is made of it. -/
def finalStatus (sizes : List Nat) (st : StatusReport) (out : List String) : Program Exit :=
  .ask .getStatus fun r =>
    match returnedError errorText r, returnedReport r with
    | some e, _ => fail out s!"final status: {e}"
    | none, none => .stop (panicked out nilReport)
    | none, some st2 =>
      compare sizes st st2 (out ++ [s!"AFTER : sealed={st2.packetsSealed} " ++
        s!"opened={st2.packetsOpened} errors={st2.cryptoErrors}\n"])

/-- `main` from the return of `flag.Parse` on, for any sizes. -/
def mainWith (sizes : List Nat) : Program Exit :=
  .ask .getStatus fun r =>
    match returnedError errorText r, returnedReport r with
    | some e, _ => fail [] s!"initial status: {e}"
    | none, none => .stop (panicked [] nilReport)
    | none, some st =>
      let out := [s!"BEFORE: sealed={st.packetsSealed} opened={st.packetsOpened} " ++
        s!"errors={st.cryptoErrors} key={keyStr st.activeKeyId}\n"]
      if st.activeKeyId = none then
        fail out "no active key — run `acm-cli rotate-key <id> 2 <hexkey>` first"
      else
        roundtrips errorText rand sizes 0 out fun out =>
          tamperTest errorText rand (2 * sizes.length) out fun out =>
            finalStatus errorText sizes st out

/-- `main` with the sizes of the source. -/
def main : Program Exit :=
  mainWith errorText rand [0, 1, 15, 16, 17, 64, 256, 1500, 9000]

/-! ## Against a daemon with a key -/

section

variable {crate : Gcm.Crate} {admissible : Octets → Prop} {s : CryptodState} {key : KeyHandle}
  {post : Exit → CryptodState → Prop} {next : List String → Program Exit} {out : List String}
  {errorText : ClientError → String} {rand : Rand} {n k : Nat}

/-- The daemon has the key in force, and a provider for it. -/
structure Ready (s : CryptodState) (key : KeyHandle) : Prop where
  active : s.activeKey = some key
  algo_eq : s.provider.algo = key.algo
  wellFormed : key.WellFormed

theorem Ready.of_sameKey {s' : CryptodState} (h : Ready s key) (hsame : SameKey s s') :
    Ready s' key := by
  obtain ⟨hprovider, -, hkey⟩ := hsame
  exact ⟨hkey.trans h.active, hprovider ▸ h.algo_eq, h.wellFormed⟩

/-- After so many round trips. -/
def counted (n : Nat) (s : CryptodState) : CryptodState :=
  { s with
    packetsSealed := s.packetsSealed + UInt64.ofNat n
    packetsOpened := s.packetsOpened + UInt64.ofNat n }

theorem counted_zero (s : CryptodState) : counted 0 s = s := by
  simp [counted]

theorem counted_succ (n : Nat) (s : CryptodState) :
    counted n s.countSealed.countOpened = counted (n + 1) s := by
  simp only [counted, CryptodState.countSealed, CryptodState.countOpened,
    UInt64.ofNat_add, CryptodState.mk.injEq, true_and, and_true]
  constructor
  · rw [UInt64.add_assoc, UInt64.add_comm 1]
    rfl
  · rw [UInt64.add_assoc, UInt64.add_comm 1]
    rfl

theorem sameKey_counted (n : Nat) (s : CryptodState) : SameKey s (counted n s) := ⟨rfl, rfl, rfl⟩

theorem base64Len_le {n : Nat} (h : n < 2 ^ 60) : base64Len (n + 40) ≤ isizeMax := by
  unfold base64Len isizeMax
  omega

/-- A round trip gets through, and is counted as one. -/
theorem roundtrip_ensures (hcorrect : crate.aead.Correct) (hseals : crate.aead.SealsOn admissible)
    (hready : Ready s key) (hn : n < 2 ^ 60) (hadmissible : admissible (rand.read k n))
    (hnext : ∀ out, (next out).Ensures (Serves crate) Readable post s.countSealed.countOpened) :
    (roundtrip errorText rand n k out next).Ensures (Serves crate) Readable post s := by
  have hnonce := rand.length_read (k + 1) 12
  have hlength := rand.length_read k n
  obtain ⟨frame, hseal⟩ := Wire.exists_ringSealFrame hseals hready.algo_eq hready.wellFormed
    ⟨rand.read (k + 1) 12, hnonce⟩ hadmissible
  have hfits : base64Len (rand.read k n).length ≤ isizeMax := by
    rw [hlength]
    unfold base64Len isizeMax
    omega
  have hnonceFits : base64Len (rand.read (k + 1) 12).length ≤ isizeMax := by
    rw [hnonce]
    decide
  refine Script.ensures_ask (readable_encrypt hnonceFits (by decide) hfits)
    fun encrypted s₁ hencrypt => ?_
  obtain ⟨rfl, rfl⟩ := serves_encrypt hready.active hnonce (by decide) hfits hseal hencrypt
  have hframe : frame.length = n + 40 := by
    rw [Wire.ringSealFrame_length _ _ _ hseal, hlength]
  have hwant : n + 12 + 12 + 16 = frame.length := by omega
  simp only [returnedError, returnedBytes, hwant, ne_eq, not_true, if_false]
  have hframeFits : base64Len frame.length ≤ isizeMax := by
    rw [hframe]
    exact base64Len_le hn
  refine Script.ensures_ask (readable_decrypt hframeFits) fun decrypted s₂ hdecrypt => ?_
  have hopen := Wire.ringOpenFrame_of_ringSealFrame crate s.provider key hcorrect hseal
  obtain ⟨plaintext, hok, rfl, rfl⟩ | ⟨e, message, herror, -, -⟩ :=
    serves_decrypt (show s.countSealed.activeKey = some key from hready.active) hframeFits hdecrypt
  · have hsame := hopen.symm.trans hok
    cases hsame
    simp only [not_true, if_false]
    exact hnext _
  · have habsurd := hopen.symm.trans herror
    cases habsurd

/-- All of them. -/
theorem roundtrips_ensures (hcorrect : crate.aead.Correct)
    (hseals : crate.aead.SealsOn admissible) {sizes : List Nat} (hready : Ready s key)
    (hsizes : ∀ n ∈ sizes, n < 2 ^ 60) (hadmissible : ∀ n ∈ sizes, ∀ k, admissible (rand.read k n))
    (hnext : ∀ out, (next out).Ensures (Serves crate) Readable post (counted sizes.length s)) :
    (roundtrips errorText rand sizes k out next).Ensures (Serves crate) Readable post s := by
  induction sizes generalizing s k out with
  | nil =>
    rw [List.length_nil, counted_zero] at hnext
    exact hnext out
  | cons n sizes ih =>
    refine roundtrip_ensures hcorrect hseals hready (hsizes n List.mem_cons_self)
      (hadmissible n List.mem_cons_self k) fun out => ?_
    have hready' : Ready s.countSealed.countOpened key := hready.of_sameKey ⟨rfl, rfl, rfl⟩
    refine ih hready' (fun m hm => hsizes m (List.mem_cons_of_mem _ hm))
      (fun m hm => hadmissible m (List.mem_cons_of_mem _ hm)) ?_
    rw [counted_succ]
    exact hnext

/-! ## The altered frame -/

theorem length_tamper (frame : Octets) : (tamper frame).length = frame.length :=
  List.length_modify ..

/-- The byte that is altered is none of those that make a frame. -/
theorem isFrame_tamper {algo : AlgoId} {frame : Octets} (h : Wire.IsFrame algo frame) :
    Wire.IsFrame algo (tamper frame) := by
  obtain ⟨hlength, hmagic, hversion, halgo, hnonce⟩ := h
  have hat (i : Nat) (hi : i < 24) : (tamper frame)[i]? = frame[i]? := by
    rw [tamper, List.getElem?_modify_ne _ _ (by omega)]
  have htake : (tamper frame).take 2 = frame.take 2 := by
    ext i b
    by_cases hi : i < 2
    · simp [hi, hat i (by omega)]
    · simp [hi]
  refine ⟨?_, htake.trans hmagic, ?_, ?_, ?_⟩
  · rw [length_tamper]
    exact hlength
  · rw [hat 2 (by omega)]
    exact hversion
  · rw [hat 8 (by omega)]
    exact halgo
  · rw [hat 9 (by omega)]
    exact hnonce

/-- The AEAD does not accept the altered frame of the text under the nonce. -/
def Refuses (crate : Gcm.Crate) (provider : AesGcmRingProvider) (key : KeyHandle)
    (nonce : Gcm.Nonce) : Prop :=
  ∀ frame, Wire.ringSealFrame crate provider key nonce attack = .ok frame →
    ∀ p, ¬ Wire.Accepts crate key (tamper frame) p

/-- The altered frame is opened, or it is refused as not authentic. -/
theorem open_tamper (hcorrect : crate.aead.Correct) (hready : Ready s key) {nonce : Gcm.Nonce}
    {frame : Octets} (hseal : Wire.ringSealFrame crate s.provider key nonce attack = .ok frame) :
    (∃ p, Wire.ringOpenFrame crate s.provider key (tamper frame) = .ok p ∧
      ¬ Refuses crate s.provider key nonce) ∨
    (Wire.ringOpenFrame crate s.provider key (tamper frame) = .error (.crypto .authFailed) ∧
      Refuses crate s.provider key nonce) := by
  have hopens := Wire.ringOpenFrame_of_ringSealFrame crate s.provider key hcorrect hseal
  -- the frame is one, so the altered one is
  have hisFrame : Wire.IsFrame key.algo frame := by
    obtain ⟨-, e, herror, -⟩ | ⟨hisFrame, -⟩ | ⟨hisFrame, -⟩ :=
      Wire.ringOpenFrame_cases frame crate hready.algo_eq hready.wellFormed
    · rw [hopens] at herror
      cases herror
    · exact hisFrame
    · exact hisFrame
  obtain ⟨hnot, -⟩ | ⟨-, p, haccepts, hok⟩ | ⟨-, hrejects, hauth⟩ :=
    Wire.ringOpenFrame_cases (tamper frame) crate hready.algo_eq hready.wellFormed
  · exact absurd (isFrame_tamper hisFrame) hnot
  · exact .inl ⟨p, hok, fun hrefuses => hrefuses frame hseal p haccepts⟩
  · refine .inr ⟨hauth, fun frame' hseal' p => ?_⟩
    have hsame := hseal.symm.trans hseal'
    cases hsame
    exact hrejects p

/-- The altered frame ends the program, unless it is refused and counted. -/
theorem tamperTest_ensures (hcorrect : crate.aead.Correct)
    (hseals : crate.aead.SealsOn admissible) (hready : Ready s key)
    (hadmissible : admissible attack)
    (hnext : Refuses crate s.provider key ⟨rand.read k 12, rand.length_read k 12⟩ →
      ∀ out, (next out).Ensures (Serves crate) Readable post s.countSealed.countError)
    (hfail : ¬ Refuses crate s.provider key ⟨rand.read k 12, rand.length_read k 12⟩ →
      ∀ out s', post ⟨1, out, []⟩ s') :
    (tamperTest errorText rand k out next).Ensures (Serves crate) Readable post s := by
  have hnonce := rand.length_read k 12
  have hnonceFits : base64Len (rand.read k 12).length ≤ isizeMax := by
    rw [hnonce]
    decide
  refine Script.ensures_ask (readable_encrypt hnonceFits (by decide) (by decide))
    fun encrypted s₁ hencrypt => ?_
  obtain ⟨frame, hseal⟩ := Wire.exists_ringSealFrame hseals hready.algo_eq hready.wellFormed
    ⟨rand.read k 12, hnonce⟩ hadmissible
  obtain ⟨rfl, rfl⟩ := serves_encrypt hready.active hnonce (by decide) (by decide) hseal hencrypt
  have hframe : frame.length = attack.length + 40 := Wire.ringSealFrame_length _ _ _ hseal
  have hlong : ¬ frame.length ≤ 24 := by omega
  simp only [returnedError, returnedBytes, hlong, if_false]
  have hfits : base64Len (tamper frame).length ≤ isizeMax := by
    rw [length_tamper, hframe]
    decide
  refine Script.ensures_ask (readable_decrypt hfits) fun decrypted s₂ hdecrypt => ?_
  have hserved :=
    serves_decrypt (show s.countSealed.activeKey = some key from hready.active) hfits hdecrypt
  obtain ⟨p, hopen, hnot⟩ | ⟨hauth, hrefuses⟩ := open_tamper hcorrect hready hseal
  · obtain ⟨plaintext, -, rfl, rfl⟩ | ⟨e, message, herror, -, -⟩ := hserved
    · exact hfail hnot _ _
    · have habsurd := hopen.symm.trans herror
      cases habsurd
  · obtain ⟨plaintext, hok, -, -⟩ | ⟨e, message, herror, rfl, rfl⟩ := hserved
    · have habsurd := hauth.symm.trans hok
      cases habsurd
    · have he := hauth.symm.trans herror
      cases he
      simp only [openCode, ne_eq, not_true, if_false]
      exact hnext hrefuses _

/-! ## The verdict -/

/-- What the program makes of a daemon in `s`: without a key it fails; with one it passes exactly
when the AEAD does not accept the altered frame. -/
def Verdict (crate : Gcm.Crate) (rand : Rand) (sizes : List Nat) (s : CryptodState) (e : Exit) :
    Prop :=
  (s.activeKey = none → e.code = 1) ∧
    ∀ key, s.activeKey = some key → (e.code = 0 ∨ e.code = 1) ∧
      (e.code = 0 ↔ Refuses crate s.provider key
        ⟨rand.read (2 * sizes.length) 12, rand.length_read (2 * sizes.length) 12⟩)

/-- The counters are those the program expects, though they wrap. -/
theorem compare_eq (sizes : List Nat) (elapsed elapsed' : UInt64) (s : CryptodState)
    (out : List String) :
    compare sizes (report elapsed s.activeAlgo s)
      (report elapsed' s.activeAlgo (counted sizes.length s).countSealed.countError) out =
      .stop ⟨0, out ++ ["\nPASS\n"], []⟩ := by
  have hsealed : (report elapsed' s.activeAlgo
      (counted sizes.length s).countSealed.countError).packetsSealed =
      (report elapsed s.activeAlgo s).packetsSealed + UInt64.ofNat sizes.length + 1 := rfl
  have hopened : (report elapsed' s.activeAlgo
      (counted sizes.length s).countSealed.countError).packetsOpened =
      (report elapsed s.activeAlgo s).packetsOpened + UInt64.ofNat sizes.length := rfl
  have herrors : (report elapsed' s.activeAlgo
      (counted sizes.length s).countSealed.countError).cryptoErrors =
      (report elapsed s.activeAlgo s).cryptoErrors + 1 := rfl
  simp only [compare, hsealed, hopened, herrors, ne_eq, not_true, if_false]

theorem mainWith_ensures (errorText : ClientError → String) (hcorrect : crate.aead.Correct)
    (hseals : crate.aead.SealsOn admissible) (hcoherent : s.Coherent) {sizes : List Nat}
    (hsizes : ∀ n ∈ sizes, n < 2 ^ 60) (hadmissible : ∀ n ∈ sizes, ∀ k, admissible (rand.read k n))
    (hattack : admissible attack) :
    (mainWith errorText rand sizes).Ensures (Serves crate) Readable
      (fun e _ => Verdict crate rand sizes s e) s := by
  refine Script.ensures_ask readable_getStatus fun r s₁ hstatus => ?_
  obtain ⟨elapsed, rfl, rfl⟩ := serves_getStatus hstatus
  have hreported : (report elapsed s₁.activeAlgo s₁).activeKeyId = s₁.activeKey.map KeyHandle.id :=
    rfl
  simp only [returnedError, returnedReport, hreported, Option.map_eq_none_iff]
  cases hkey : s₁.activeKey with
  | none =>
    simp only [if_true]
    refine ⟨fun _ => rfl, fun key hsome => ?_⟩
    rw [hkey] at hsome
    cases hsome
  | some key =>
    simp only [reduceCtorEq, if_false]
    obtain ⟨halgo, hwf⟩ := hcoherent.pairs hkey
    have hready : Ready s₁ key := ⟨hkey, halgo, hwf⟩
    refine roundtrips_ensures hcorrect hseals hready hsizes hadmissible fun out => ?_
    refine tamperTest_ensures hcorrect hseals (hready.of_sameKey (sameKey_counted _ _)) hattack ?_
      ?_
    · intro hrefuses out
      refine Script.ensures_ask readable_getStatus fun r' s₂ hstatus' => ?_
      obtain ⟨elapsed', rfl, rfl⟩ := serves_getStatus hstatus'
      simp only [returnedError, returnedReport]
      show Script.Ensures _ _ _ (compare sizes (report elapsed s₁.activeAlgo s₁)
        (report elapsed' s₁.activeAlgo (counted sizes.length s₁).countSealed.countError) _) _
      rw [compare_eq]
      refine ⟨fun hnone => ?_, fun key' hsome => ⟨.inl rfl, fun _ => ?_, fun _ => rfl⟩⟩
      · rw [hkey] at hnone
        cases hnone
      · rw [hkey] at hsome
        cases hsome
        exact hrefuses
    · intro haccepts out s'
      refine ⟨fun _ => rfl, fun key' hsome => ⟨.inr rfl, fun hzero => ?_, fun hrefuses => ?_⟩⟩
      · cases hzero
      · rw [hkey] at hsome
        cases hsome
        exact absurd hrefuses haccepts

/-- The verdict over the socket.  From any state reached by requests handled one after another, in
every run of the program in which no one else makes requests, no task of the server dies and no call
fails: without a key it ends with code 1; with a key it ends with 0 or 1, and with 0 exactly when
the AEAD does not accept the altered frame.  And there is such a run that ends. -/
theorem mainWith_verdict (pf : Platform) (errorText : ClientError → String) (rand : Rand)
    (sizes : List Nat) (hcorrect : pf.crate.aead.Correct)
    (hseals : pf.crate.aead.SealsOn admissible) (hsizes : ∀ n ∈ sizes, n < 2 ^ 60)
    (hadmissible : ∀ n ∈ sizes, ∀ k, admissible (rand.read k n)) (hattack : admissible attack)
    {s₀ : CryptodState} (hnew : CryptodState.new = .ok s₀) {xs : List Cryptod.Exchange}
    (hreach : Run (Handles pf.crate) s₀ xs s) :
    (∀ acts p e,
      Run (Process.Step pf.decoding) (Process.new s (mainWith errorText rand sizes)) acts p →
      (∀ a, .world a ∈ acts → a.foreign = false) → Unfailing p.world.ipc →
      p.script = .stop e → Verdict pf.crate rand sizes s e) ∧
    ∃ acts p e,
      Run (Process.Step pf.decoding) (Process.new s (mainWith errorText rand sizes)) acts p ∧
      (∀ a, .world a ∈ acts → a.foreign = false) ∧ Unfailing p.world.ipc ∧ p.script = .stop e := by
  have hensures := mainWith_ensures errorText hcorrect hseals
    (run_coherent hnew hreach).1 hsizes hadmissible hattack
  constructor
  · intro acts p e hrun hown hunfailing hstopped
    obtain ⟨log, s', hlog, -⟩ := exists_between hrun hown hunfailing
    rw [hstopped] at hlog
    exact hensures.stopped hlog
  · obtain ⟨log, e, s', hlog⟩ := hensures.exists_stop fun s req hread => exists_serves s hread
    obtain ⟨acts, p, hrun, hown, hstopped, -, hidle⟩ :=
      exists_process pf hlog (hensures.run hlog).2
    exact ⟨acts, p, e, hrun, hown, hidle.unfailing, hstopped⟩

end

namespace Kat

theorem length_nonce : Gcm.Kat.nonce.length = 12 := rfl

/-- `attack` sealed under key 7 and the nonce. -/
def attackVector : Gcm.Vector where
  key := Gcm.Kat.key256
  nonce := ⟨Gcm.Kat.nonce, length_nonce⟩
  aad := Gcm.Kat.header256
  plaintext := attack
  ciphertext := [0xf4, 0xae, 0x72, 0x0d, 0x0e, 0x38, 0x69, 0x42, 0xd8, 0xfa, 0xf5, 0x89, 0x1d, 0xc7]
  tag := [0x5d, 0x48, 0xab, 0x53, 0xa0, 0xd3, 0x27, 0x86, 0x60, 0x8a, 0x35, 0x7c, 0x79, 0x24, 0xe1,
    0xcf]

def vectors : List Gcm.Vector := attackVector :: Gcm.Kat.vectors

theorem vectors_admissible : Gcm.Admissible vectors := by
  decide +kernel

def platform : Platform :=
  { Node.Kat.platform with crate := Gcm.ofTable vectors vectors_admissible }

/-- The rotation puts key 7 in force. -/
theorem rotated_reach : Run (Handles platform.crate) Cryptod.Kat.fresh
    [⟨.rotateKey Cryptod.Kat.rotate256, 0, .ok⟩] Cryptod.Kat.rotated :=
  Run.single rfl

/-- Every nonce is the same. -/
def oneNonce : Rand where
  read _ n :=
    if n = 12 then Gcm.Kat.nonce
    else if n = 2 then Gcm.Kat.text
    else List.replicate n 0
  length_read k n := by
    split
    · rename_i h
      rw [h]
      rfl
    · split
      · rename_i h
        rw [h]
        rfl
      · exact List.length_replicate

/-- `attack` in its frame. -/
def attackFrame : Octets :=
  Gcm.Kat.header256 ++ Gcm.Kat.nonce ++ attackVector.ciphertext ++ attackVector.tag

theorem attack_sealed : Wire.ringSealFrame platform.crate Cryptod.Kat.rotated.provider
    Gcm.Kat.handle256 ⟨Gcm.Kat.nonce, length_nonce⟩ attack = .ok attackFrame := by
  decide +kernel

theorem refuses : Refuses platform.crate Cryptod.Kat.rotated.provider Gcm.Kat.handle256
    ⟨Gcm.Kat.nonce, length_nonce⟩ := by
  intro frame hseal p haccepts
  have hframe := attack_sealed.symm.trans hseal
  cases hframe
  obtain ⟨supported, k, n, c, t, hvariant, hmaterial, htag, hparts, hopens⟩ := haccepts
  simp only [Gcm.Crate.aead, platform, Gcm.ofTable] at hopens
  split at hopens
  · rename_i v hv
    obtain ⟨hmem, hk, hn, ha, hc, ht⟩ := Gcm.lookupOpen_spec hv
    subst hk hn hc ht
    have hnone : ∀ v ∈ vectors, tamper attackFrame ≠
        (tamper attackFrame).take Wire.headerLen ++ v.nonce.bytes ++ (v.ciphertext ++ v.tag) := by
      decide +kernel
    exact hnone v hmem hparts
  · -- outside the table only a zero tag opens
    split at hopens
    · rename_i hzero
      have hfront : (tamper attackFrame).take Wire.headerLen ++ n.bytes ++ c ++ t =
          (tamper attackFrame).take 38 ++ attackVector.tag := by
        rw [List.append_assoc, ← hparts]
        decide +kernel
      have htags := (List.append_inj' hfront htag).2
      rw [hzero] at htags
      exact absurd htags (by decide)
    · cases hopens

end Kat

/-- With a key in force, one size and AES-256-GCM the program passes. -/
theorem mainWith_verdict_passes : ∃ acts p e,
    Run (Process.Step Kat.platform.decoding)
      (Process.new Cryptod.Kat.rotated (mainWith (fun _ => "") Kat.oneNonce [2])) acts p ∧
    p.script = .stop e ∧ e.code = 0 := by
  obtain ⟨hall, acts, p, e, hrun, hown, hunfailing, hstopped⟩ :=
    mainWith_verdict Kat.platform (fun _ => "") Kat.oneNonce [2]
      (Gcm.ofTable_correct _ Kat.vectors_admissible)
      (Gcm.ofTable_sealsOn _ Kat.vectors_admissible fun _ => True) (by decide)
      (fun _ _ _ => trivial) trivial rfl Kat.rotated_reach
  have hpasses := (hall acts p e hrun hown hunfailing hstopped).2 Gcm.Kat.handle256 rfl
  exact ⟨acts, p, e, hrun, hstopped, hpasses.2.mpr Kat.refuses⟩

end EncdecTest

end Cmd

end SmartSfp
