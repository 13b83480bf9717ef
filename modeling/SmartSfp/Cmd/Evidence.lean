import SmartSfp.Cmd.EncdecTest

/-!
# Evidence — what a check that passes has seen

Whatever fails, and whoever else makes requests: when `acm-encdec-test` ends with code 0, each of
its calls has had the answer of a handler of its own.
-/

namespace SmartSfp

namespace Cmd

open Lib Ipc Httpapi Node Cryptod

namespace EncdecTest

variable {errorText : ClientError → String} {rand : Rand} {n k : Nat} {out : List String}
  {next : List String → Program Exit} {log : List (ClientRequest × Returned)} {e : Exit}
  {sizes : List Nat} {st : StatusReport}

/-- The program goes through these calls to its end. -/
abbrev Ends (script : Program Exit) (log : List (ClientRequest × Returned)) (e : Exit) : Prop :=
  Run (Script.Asks Anything) (script, ()) log (.stop e, ())

theorem Ends.eq_of_stop {e' : Exit} (h : Ends (.stop e') log e) : log = [] ∧ e = e' := by
  obtain ⟨hlog, hend⟩ := Script.stop_of_run h
  cases hend
  exact ⟨hlog, rfl⟩

theorem Ends.not_fail {text : String} (h : Ends (fail out text) log e) : e.code ≠ 0 := by
  rw [h.eq_of_stop.2]
  exact Nat.one_ne_zero

theorem Ends.not_panicked {reason : String} (h : Ends (.stop (panicked out reason)) log e) :
    e.code ≠ 0 := by
  rw [h.eq_of_stop.2]
  exact Nat.succ_ne_zero 1

theorem Ends.ask {q : ClientRequest} {next : Returned → Program Exit}
    (h : Ends (.ask q next) log e) : ∃ r later, log = (q, r) :: later ∧ Ends (next r) later e := by
  obtain ⟨r, t, later, hlog, -, hlater⟩ := Script.ask_of_run h
  exact ⟨r, later, hlog, hlater⟩

/-- The calls of round trips that succeed, and what they return. -/
inductive Trips (errorText : ClientError → String) (rand : Rand) :
    List Nat → Nat → List (ClientRequest × Returned) → Prop where
  | nil {k : Nat} : Trips errorText rand [] k []
  | cons {n k : Nat} {sizes : List Nat} {encrypted decrypted : Returned}
      {log : List (ClientRequest × Returned)}
      (hsealed : returnedError errorText encrypted = none)
      (hframe : (returnedBytes encrypted).length = n + 40)
      (hopened : returnedError errorText decrypted = none)
      (hback : returnedBytes decrypted = rand.read k n)
      (hrest : Trips errorText rand sizes (k + 2) log) :
      Trips errorText rand (n :: sizes) k
        ((.encrypt (some (rand.read (k + 1) 12)) (some aad) (some (rand.read k n)), encrypted) ::
          (.decrypt (some (returnedBytes encrypted)), decrypted) :: log)

/-- A round trip that does not end the program has succeeded. -/
theorem roundtrip_passed (h : Ends (roundtrip errorText rand n k out next) log e)
    (hcode : e.code = 0) : ∃ encrypted decrypted out' later,
      log = (.encrypt (some (rand.read (k + 1) 12)) (some aad) (some (rand.read k n)), encrypted) ::
        (.decrypt (some (returnedBytes encrypted)), decrypted) :: later ∧
      returnedError errorText encrypted = none ∧ (returnedBytes encrypted).length = n + 40 ∧
      returnedError errorText decrypted = none ∧ returnedBytes decrypted = rand.read k n ∧
      Ends (next out') later e := by
  obtain ⟨encrypted, later, rfl, hsent⟩ := Ends.ask h
  split at hsent
  · exact absurd hcode hsent.not_fail
  · rename_i hsealed
    dsimp only at hsent
    split at hsent
    · exact absurd hcode hsent.not_fail
    · rename_i hframe
      obtain ⟨decrypted, later, rfl, hback⟩ := Ends.ask hsent
      split at hback
      · exact absurd hcode hback.not_fail
      · rename_i hopened
        split at hback
        · exact absurd hcode hback.not_fail
        · rename_i hsame
          rw [not_not] at hframe hsame
          exact ⟨encrypted, decrypted, _, later, rfl, hsealed, by omega, hopened, hsame, hback⟩

theorem roundtrips_passed (h : Ends (roundtrips errorText rand sizes k out next) log e)
    (hcode : e.code = 0) : ∃ trips out' later, log = trips ++ later ∧
      Trips errorText rand sizes k trips ∧ Ends (next out') later e := by
  induction sizes generalizing k out log with
  | nil => exact ⟨[], out, log, rfl, .nil, h⟩
  | cons n sizes ih =>
    obtain ⟨encrypted, decrypted, out', later, rfl, hsealed, hframe, hopened, hback, hlater⟩ :=
      roundtrip_passed h hcode
    obtain ⟨trips, out'', rest, rfl, htrips, hrest⟩ := ih hlater
    exact ⟨_, out'', rest, rfl, .cons hsealed hframe hopened hback htrips, hrest⟩

/-- The altered frame was refused with code 401. -/
theorem tamperTest_passed (h : Ends (tamperTest errorText rand k out next) log e)
    (hcode : e.code = 0) : ∃ encrypted refusal out' later,
      log = (.encrypt (some (rand.read k 12)) none (some attack), encrypted) ::
        (.decrypt (some (tamper (returnedBytes encrypted))), .errorResponse refusal) :: later ∧
      returnedError errorText encrypted = none ∧ refusal.code = 401 ∧
      Ends (next out') later e := by
  obtain ⟨encrypted, later, rfl, hsent⟩ := Ends.ask h
  split at hsent
  · exact absurd hcode hsent.not_fail
  · rename_i hsealed
    dsimp only at hsent
    split at hsent
    · exact absurd hcode hsent.not_panicked
    · obtain ⟨decrypted, later, rfl, hback⟩ := Ends.ask hsent
      split at hback
      · exact absurd hcode hback.not_fail
      · split at hback
        · rename_i refusal _
          split at hback
          · exact absurd hcode hback.not_fail
          · rename_i hrefusal
            exact ⟨encrypted, refusal, _, later, rfl, hsealed, not_not.mp hrefusal, hback⟩
        · exact absurd hcode hback.not_fail

/-- The counters have moved by what the program has asked for. -/
structure Moved (sizes : List Nat) (st st2 : StatusReport) : Prop where
  sealed : st2.packetsSealed = st.packetsSealed + UInt64.ofNat sizes.length + 1
  opened : st2.packetsOpened = st.packetsOpened + UInt64.ofNat sizes.length
  errors : st2.cryptoErrors = st.cryptoErrors + 1

theorem returnedReport_eq_some {r : Returned} (h : returnedReport r = some st) :
    r = .status st := by
  cases r with
  | status report =>
    cases h
    rfl
  | _ => cases h

theorem compare_passed {st2 : StatusReport} (h : Ends (compare sizes st st2 out) log e)
    (hcode : e.code = 0) : log = [] ∧ Moved sizes st st2 := by
  unfold compare at h
  dsimp only at h
  split at h
  · exact absurd hcode h.not_fail
  · split at h
    · exact absurd hcode h.not_fail
    · split at h
      · exact absurd hcode h.not_fail
      · rename_i hsealed hopened herrors
        exact ⟨h.eq_of_stop.1, not_not.mp hsealed, not_not.mp hopened, not_not.mp herrors⟩

theorem finalStatus_passed (h : Ends (finalStatus errorText sizes st out) log e)
    (hcode : e.code = 0) : ∃ st2, log = [(.getStatus, .status st2)] ∧ Moved sizes st st2 := by
  obtain ⟨r, later, rfl, hreturned⟩ := Ends.ask h
  split at hreturned
  · exact absurd hcode hreturned.not_fail
  · exact absurd hcode hreturned.not_panicked
  · rename_i st2 _ hreport
    obtain ⟨rfl, hmoved⟩ := compare_passed hreturned hcode
    rw [returnedReport_eq_some hreport]
    exact ⟨st2, rfl, hmoved⟩

/-- The calls of a check that passes, and what they return. -/
inductive Passed (errorText : ClientError → String) (rand : Rand) (sizes : List Nat) :
    List (ClientRequest × Returned) → Prop where
  | calls {st st2 : StatusReport} {trips : List (ClientRequest × Returned)} {encrypted : Returned}
      {refusal : ErrorResponse} (hkey : st.activeKeyId ≠ none)
      (htrips : Trips errorText rand sizes 0 trips)
      (hsealed : returnedError errorText encrypted = none) (hrefusal : refusal.code = 401)
      (hmoved : Moved sizes st st2) :
      Passed errorText rand sizes ((.getStatus, .status st) :: (trips ++
        [(.encrypt (some (rand.read (2 * sizes.length) 12)) none (some attack), encrypted),
          (.decrypt (some (tamper (returnedBytes encrypted))), .errorResponse refusal),
          (.getStatus, .status st2)]))

theorem passed_of_ends (h : Ends (mainWith errorText rand sizes) log e) (hcode : e.code = 0) :
    Passed errorText rand sizes log := by
  obtain ⟨r, later, rfl, hreturned⟩ := Ends.ask h
  split at hreturned
  · exact absurd hcode hreturned.not_fail
  · exact absurd hcode hreturned.not_panicked
  · rename_i st _ hreport
    dsimp only at hreturned
    split at hreturned
    · exact absurd hcode hreturned.not_fail
    · rename_i hkey
      obtain ⟨trips, out', later, rfl, htrips, htamper⟩ :=
        roundtrips_passed hreturned hcode
      obtain ⟨encrypted, refusal, out'', later, rfl, hsealed, hrefusal, hfinal⟩ :=
        tamperTest_passed htamper hcode
      obtain ⟨st2, rfl, hmoved⟩ := finalStatus_passed hfinal hcode
      rw [returnedReport_eq_some hreport]
      exact .calls hkey htrips hsealed hrefusal hmoved

/-- Neither a failure nor the refusal of a line that reads as no request. -/
def Handled (r : Returned) : Prop :=
  (∀ failure, r ≠ .failed failure) ∧ ∀ message, r ≠ .errorResponse ⟨400, message⟩

theorem handled_of_none {r : Returned} (h : returnedError errorText r = none) : Handled r := by
  constructor
  · rintro failure rfl
    cases h
  · rintro message rfl
    cases h

theorem Trips.handled (h : Trips errorText rand sizes k log) : ∀ x ∈ log, Handled x.2 := by
  induction h with
  | nil => exact fun x hx => absurd hx List.not_mem_nil
  | cons hsealed hframe hopened hback hrest ih =>
    rw [List.forall_mem_cons, List.forall_mem_cons]
    exact ⟨handled_of_none hsealed, handled_of_none hopened, ih⟩

theorem Passed.handled (h : Passed errorText rand sizes log) : ∀ x ∈ log, Handled x.2 := by
  cases h with
  | @calls st st2 trips encrypted refusal hkey htrips hsealed hrefusal hmoved =>
    have hstatus (report : StatusReport) : Handled (.status report) :=
      handled_of_none (show returnedError errorText (.status report) = none from rfl)
    have hrefused : Handled (.errorResponse refusal) := by
      constructor
      · rintro failure habsurd
        cases habsurd
      · rintro message heq
        cases heq
        cases hrefusal
    intro x hx
    rw [List.mem_cons, List.mem_append] at hx
    obtain rfl | hx | hx := hx
    · exact hstatus st
    · exact htrips.handled x hx
    · simp only [List.mem_cons, List.not_mem_nil, or_false] at hx
      obtain rfl | rfl | rfl := hx
      · exact handled_of_none hsealed
      · exact hrefused
      · exact hstatus st2

/-- What a check that passes has seen.  In every run, whatever fails and whoever else makes
requests: if the program ends with code 0, its calls were the status, for each size the encryption
of so many bytes and the decryption of the very frame, which came back as the bytes, the encryption
of the text and the decryption of its altered frame, which was refused with 401, and the status,
with the counters moved by just these; and each of them returned the answer of the one handler that
ran for it, which had its arguments. -/
theorem mainWith_passed (pf : Platform) (errorText : ClientError → String) (rand : Rand)
    (sizes : List Nat) (s₀ : CryptodState) (acts : List ProcessAct) (p : Process Exit) (e : Exit)
    (hrun : Run (Process.Step pf.decoding)
      (Process.new s₀ (mainWith errorText rand sizes)) acts p)
    (hstopped : p.script = .stop e) (hcode : e.code = 0) :
    ∃ log, Passed errorText rand sizes log ∧ p.world.ipc.calls.length = log.length ∧
      ∀ (k : Nat) x, log[k]? = some x → ∃ line hd request response,
        p.world.ipc.calls[k]? = some ⟨.request x.1, .done line x.2⟩ ∧
        Delivered p.world k x.1 x.2 hd request response := by
  obtain ⟨log, hlog, hmade⟩ := exists_made hrun
  obtain ⟨bs, hworld⟩ := run_world hrun
  rw [hstopped] at hlog
  have hpassed := passed_of_ends hlog hcode
  refine ⟨log, hpassed, hmade.length_of_stopped hstopped, fun k x hx => ?_⟩
  obtain ⟨hfailed, hrefused⟩ := hpassed.handled x (List.mem_of_getElem? hx)
  exact hmade.delivered hworld hx hfailed hrefused

/-- A check of one size. -/
theorem mainWith_passed_one : ∃ acts p e,
    Run (Process.Step Kat.platform.decoding)
      (Process.new Cryptod.Kat.rotated (mainWith (fun _ => "") Kat.oneNonce [2])) acts p ∧
    p.script = .stop e ∧ ∃ log, Passed (fun _ => "") Kat.oneNonce [2] log ∧
      p.world.ipc.calls.length = log.length := by
  have hensures : (mainWith (fun _ => "") Kat.oneNonce [2]).Ensures (Serves Kat.platform.crate)
      Readable (fun e _ => Verdict Kat.platform.crate Kat.oneNonce [2] Cryptod.Kat.rotated e)
      Cryptod.Kat.rotated :=
    mainWith_ensures _ (Gcm.ofTable_correct _ Kat.vectors_admissible)
      (Gcm.ofTable_sealsOn _ Kat.vectors_admissible fun _ => True)
      (run_coherent rfl Kat.rotated_reach).1 (by decide) (fun _ _ _ => trivial) trivial
  obtain ⟨log, e, s', hlog⟩ := hensures.exists_stop fun s req hread => exists_serves s hread
  have hverdict := (hensures.stopped hlog).2 Gcm.Kat.handle256 rfl
  obtain ⟨acts, p, hrun, -, hstopped, -, -⟩ :=
    exists_process Kat.platform hlog (hensures.run hlog).2
  obtain ⟨log', hpassed, hlength, -⟩ := mainWith_passed Kat.platform (fun _ => "") Kat.oneNonce [2]
    Cryptod.Kat.rotated acts p e hrun hstopped (hverdict.2.mpr Kat.refuses)
  exact ⟨acts, p, e, hrun, hstopped, log', hpassed, hlength⟩

end EncdecTest

end Cmd

end SmartSfp
