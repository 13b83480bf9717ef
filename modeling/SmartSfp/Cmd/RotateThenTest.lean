import SmartSfp.Cryptod.Acceptance
import SmartSfp.Cmd.EncdecTest

/-!
# RotateThenTest — a key from the command line, and the check that follows

A check of a daemon without a key asks for `acm-cli rotate-key` first.  The two commands after one
another, on a daemon in any state.
-/

namespace SmartSfp

namespace Cmd

open Lib Exec Ipc Httpapi Node Cryptod

variable {crate : Gcm.Crate} {admissible : Octets → Prop} {s s' : CryptodState} {keyId : UInt32}
  {algo : UInt8} {material : Octets} {r : Returned}

/-- What the daemon makes of a rotation that it can read. -/
theorem serves_rotateKey (hcorrect : crate.aead.Correct) (hseals : crate.aead.SealsOn admissible)
    (hself : admissible selfTestText) (hfits : base64Len material.length ≤ isizeMax)
    (h : Serves crate s (.rotateKey keyId algo (some material)) r s') :
    (Acceptable ⟨keyId, algo, ⟨material, hfits⟩⟩ ∧ r = .ok ∧
      ∃ c : Commit, c.For ⟨keyId, algo, ⟨material, hfits⟩⟩ ∧ s' = s.commit c) ∨
    (¬ Acceptable ⟨keyId, algo, ⟨material, hfits⟩⟩ ∧ s' = s ∧
      ∃ code message, r = .errorResponse ⟨code, message⟩) := by
  have hdecode : decodeLine (requestLine (.rotateKey keyId algo (some material))) =
      some (.rotateKey ⟨keyId, algo, ⟨material, hfits⟩⟩) := by
    rw [decodeLine_rotateKey, bind_payload_some hfits]
    rfl
  generalize hp : (⟨keyId, algo, ⟨material, hfits⟩⟩ : RotateKeyParams) = p at hdecode ⊢
  obtain ⟨elapsed, response, hrun, rfl⟩ := h.handled hdecode
  obtain ⟨hacceptable, c, hprepare⟩ | ⟨hrefused, message, hprepare⟩ :=
    rotatePrepare_cases hcorrect hseals hself p s
  · obtain ⟨-, hfor⟩ := rotatePrepare_eq_ok crate hprepare
    have hok : (handle crate elapsed (.rotateKey p)).run s = .ok .ok (s.commit c) := by
      apply run_returning_ok
      rw [run_bind, hprepare]
      rfl
    rw [hok] at hrun
    cases hrun
    exact .inl ⟨hacceptable, rfl, c, hfor, rfl⟩
  · have herror : (handle crate elapsed (.rotateKey p)).run s =
        .ok (.error (refusalCode p.algo) message) s := by
      apply run_returning_err
      rw [run_bind, hprepare]
      rfl
    rw [herror] at hrun
    cases hrun
    exact .inr ⟨hrefused, rfl, _, message, rfl⟩

/-- The commands after one another, on a daemon in any state.  When nothing fails and no one else
makes requests: with an implemented algorithm and material of its length `acm-cli rotate-key` ends
with code 0, and every run of `acm-encdec-test` after it that ends, ends with 0 exactly when the
AEAD does not accept the altered frame under the very key of the command line, and otherwise with 1;
with any other algorithm or length `acm-cli rotate-key` ends with code 3 and has changed nothing. -/
theorem rotate_then_test (pf : Platform) (target : Cli.Target) (quoted : Text → String)
    (errorText : ClientError → String) (rand : EncdecTest.Rand) (sizes : List Nat)
    (hcorrect : pf.crate.aead.Correct) (hseals : pf.crate.aead.SealsOn admissible)
    (hself : admissible selfTestText) (hsizes : ∀ n ∈ sizes, n < 2 ^ 60)
    (hadmissible : ∀ n ∈ sizes, ∀ k, admissible (rand.read k n))
    (hattack : admissible EncdecTest.attack) (s : CryptodState) {args : List Text}
    (hcommand : Cli.Command args (.rotateKey keyId algo (some material)))
    (hfits : base64Len material.length ≤ isizeMax) {acts : List ProcessAct} {p : Process Exit}
    {e : Exit}
    (hrun : Run (Process.Step pf.decoding)
      (Process.new s (Cli.main target quoted errorText args)) acts p)
    (hown : ∀ a, .world a ∈ acts → a.foreign = false) (hunfailing : Unfailing p.world.ipc)
    (hstopped : p.script = .stop e) :
    (∃ (a : AlgoId) (hsupported : a ≠ .ozDst1105), AlgoId.fromU8 algo = some a ∧
      material.length = a.keyLen ∧ e.code = 0 ∧ ∀ acts' p' e',
        Run (Process.Step pf.decoding) (Process.new p.world.daemon.shared.state
          (EncdecTest.mainWith errorText rand sizes)) acts' p' →
        (∀ a, .world a ∈ acts' → a.foreign = false) → Unfailing p'.world.ipc →
        p'.script = .stop e' → (e'.code = 0 ∨ e'.code = 1) ∧
        (e'.code = 0 ↔ EncdecTest.Refuses pf.crate ⟨a, hsupported⟩ ⟨keyId, a, material⟩
          ⟨rand.read (2 * sizes.length) 12, rand.length_read (2 * sizes.length) 12⟩)) ∨
    ((∀ a, AlgoId.fromU8 algo = some a → a = .ozDst1105 ∨ material.length ≠ a.keyLen) ∧
      e.code = 3 ∧ p.world.daemon.shared.state = s) := by
  -- the rotation
  obtain ⟨log, s', hlog, hbetween⟩ := exists_between hrun hown hunfailing
  have hstate := (hbetween.stopped hstopped).2.state
  rw [Cli.main_of_command _ _ _ hcommand, hstopped] at hlog
  obtain ⟨r, t, later, -, hserves, hlater⟩ := Script.ask_of_run hlog
  obtain ⟨-, hend⟩ := Script.stop_of_run hlater
  cases hend
  obtain ⟨hacceptable, rfl, c, hfor, rfl⟩ | ⟨hrefused, rfl, code, message, rfl⟩ :=
    serves_rotateKey hcorrect hseals hself hfits hserves
  · obtain ⟨provider, newAlgo, newKey⟩ := c
    obtain ⟨hfrom, hprovider, hkey, hwf⟩ := hfor
    obtain ⟨hsupported, hlength⟩ := (acceptable_iff hfrom).mp hacceptable
    refine .inl ⟨newAlgo, hsupported, hfrom, hlength, rfl, ?_⟩
    intro acts' p' e' hrun' hown' hunfailing' hstopped'
    -- the check, with the key in force
    obtain ⟨log', t', hlog', -⟩ := exists_between hrun' hown' hunfailing'
    rw [hstopped', hstate] at hlog'
    have hcoherent : (s.commit ⟨provider, newAlgo, newKey⟩).Coherent :=
      Commit.For.coherent ⟨hfrom, hprovider, hkey, hwf⟩ s
    have hverdict := (EncdecTest.mainWith_ensures errorText hcorrect hseals hcoherent hsizes
      hadmissible hattack).stopped hlog'
    have hinForce := hverdict.2 newKey rfl
    have hsame : provider = ⟨newAlgo, hsupported⟩ := by
      cases provider
      cases hprovider
      rfl
    have hnewKey : newKey = ⟨keyId, newAlgo, material⟩ := hkey
    rw [hnewKey] at hinForce
    rw [← hsame]
    exact hinForce
  · right
    refine ⟨fun a hfrom => ?_, rfl, hstate⟩
    rw [acceptable_iff hfrom] at hrefused
    by_contra hnot
    rw [not_or, not_not] at hnot
    exact hrefused hnot

/-- Key 7 on the command line, and a check that passes. -/
theorem rotate_then_test_passes : ∃ acts p e,
    Run (Process.Step EncdecTest.Kat.platform.decoding) (Process.new Cryptod.Kat.fresh
      (Cli.main Cli.Kat.armLinux (fun _ => "") (fun _ => "") Cli.Kat.rotateArgs)) acts p ∧
    p.script = .stop e ∧ e.code = 0 ∧ ∀ acts' p' e',
      Run (Process.Step EncdecTest.Kat.platform.decoding) (Process.new p.world.daemon.shared.state
        (EncdecTest.mainWith (fun _ => "") EncdecTest.Kat.oneNonce [2])) acts' p' →
      (∀ a, .world a ∈ acts' → a.foreign = false) → Unfailing p'.world.ipc →
      p'.script = .stop e' → e'.code = 0 := by
  have hserves : Serves EncdecTest.Kat.platform.crate Cryptod.Kat.fresh Cli.Kat.rotateCall .ok
      Cryptod.Kat.rotated :=
    .answered (x := ⟨.rotateKey Cryptod.Kat.rotate256, 0, .ok⟩) rfl Cli.Kat.decodeLine_rotateCall
  have hasks : Run (Script.Asks (Serves EncdecTest.Kat.platform.crate))
      (Cli.main Cli.Kat.armLinux (fun _ => "") (fun _ => "") Cli.Kat.rotateArgs, Cryptod.Kat.fresh)
      [(Cli.Kat.rotateCall, .ok)] (.stop ⟨0, ["ok\n"], []⟩, Cryptod.Kat.rotated) := by
    rw [Cli.main_of_command _ _ _ Cli.Kat.rotateArgs_command]
    exact Run.single (Script.asks_ask hserves)
  obtain ⟨acts, p, hrun, hown, hstopped, -, hidle⟩ := exists_process EncdecTest.Kat.platform hasks
    fun x hx => List.mem_singleton.mp hx ▸ Cli.Kat.rotateCall_readable
  refine ⟨acts, p, _, hrun, hstopped, rfl, fun acts' p' e' hrun' hown' hunfailing' hstopped' => ?_⟩
  obtain ⟨a, hsupported, hfrom, -, -, hpasses⟩ | ⟨-, hcode, -⟩ :=
    rotate_then_test EncdecTest.Kat.platform Cli.Kat.armLinux (fun _ => "") (fun _ => "")
      EncdecTest.Kat.oneNonce [2] (Gcm.ofTable_correct _ EncdecTest.Kat.vectors_admissible)
      (Gcm.ofTable_sealsOn _ EncdecTest.Kat.vectors_admissible fun _ => True) trivial (by decide)
      (fun _ _ _ => trivial) trivial Cryptod.Kat.fresh Cli.Kat.rotateArgs_command (by decide) hrun
      hown hidle.unfailing hstopped
  · cases hfrom
    exact (hpasses acts' p' e' hrun' hown' hunfailing' hstopped').2.mpr EncdecTest.Kat.refuses
  · cases hcode

end Cmd

end SmartSfp
