import SmartSfp.Cryptod.Counters
import SmartSfp.Cryptod.Provenance

/-!
# Status — the provider and the key id a `GetStatus` reports

`GetStatus` reads `active_algo` under one lock and `active_key` under another, and a rotation stores
them under the same two locks.  What a rotation stores between the two reads, or what rotations have
left torn, is reported as a provider and a key id that were never in force together.
-/

namespace SmartSfp

namespace Cryptod

open Lib Exec Ipc

/-- The rotation `p` was answered `Ok`, or has been accepted and is about to be. -/
def Rotates (d : Daemon) (p : RotateKeyParams) : Prop :=
  ∃ pc, ⟨.rotateKey p, pc⟩ ∈ d.tasks ∧ (pc = .done .ok ∨ ∃ c, pc.commit = some c)

/-- Provider name and key id of the start of the daemon, or of one rotation. -/
def PairInForce (d : Daemon) (provider : String) (keyId : Option UInt32) : Prop :=
  (provider = providerName .aes256Gcm ∧ keyId = none) ∨
    ∃ p algo, Rotates d p ∧ AlgoId.fromU8 p.algo = some algo ∧ provider = providerName algo ∧
      keyId = some p.keyId

/-- Every report, answered or being filled in, has a pair that was in force. -/
def StatusPaired (d : Daemon) : Prop :=
  ∀ t ∈ d.tasks, ∀ r, t.pc.report = some r → PairInForce d r.activeProvider r.activeKeyId

/-- The algorithm that belongs to what `active_key` holds. -/
def keyAlgo : Option KeyHandle → AlgoId
  | some key => key.algo
  | none => .aes256Gcm

/-- A `GetStatus` takes the lock of the key only while the algorithm it has read is that of the key,
or the default one when there is none. -/
def ReadsInForce (d : Daemon) (a : Pool.Act Request UInt64) : Prop :=
  ∀ i elapsed algo, a = .run i elapsed → d.tasks[i]? = some ⟨.getStatus, .statusKey algo⟩ →
    algo = keyAlgo d.shared.state.activeKey

variable {crate : Gcm.Crate} {s s₀ : CryptodState} {d d' : Daemon} {a : Pool.Act Request UInt64}
  {acts : List (Pool.Act Request UInt64)} {i : Nat} {sh sh' : Shared} {t t' : Task}

theorem providerName_injective {algo algo' : AlgoId} (h : providerName algo = providerName algo') :
    algo = algo' := by
  revert h
  cases algo <;> cases algo' <;> decide

theorem Move.rotates (h : Move crate i sh t sh' t') {p : RotateKeyParams} {pc : Pc}
    (ht : t = ⟨.rotateKey p, pc⟩) (hpc : pc = .done .ok ∨ ∃ c, pc.commit = some c) :
    ∃ pc', t' = ⟨.rotateKey p, pc'⟩ ∧ (pc' = .done .ok ∨ ∃ c, pc'.commit = some c) := by
  cases h with
  | prepared haccepted =>
    cases ht
    exact ⟨_, rfl, .inr ⟨_, rfl⟩⟩
  | storedProvider =>
    cases ht
    exact ⟨_, rfl, .inr ⟨_, rfl⟩⟩
  | storedAlgo =>
    cases ht
    exact ⟨_, rfl, .inr ⟨_, rfl⟩⟩
  | storedKey hguard =>
    cases ht
    exact ⟨_, rfl, .inl rfl⟩
  | refused =>
    cases ht
    rcases hpc with hpc | ⟨c, hpc⟩ <;> cases hpc
  | _ => cases ht

/-- An accepted rotation stays one until it is answered `Ok`, and then. -/
theorem Rotates.step {p : RotateKeyParams} (h : Rotates d p)
    (hstep : Pool.Step (daemon crate) d a d') : Rotates d' p := by
  obtain ⟨pc, hmem, hpc⟩ := h
  obtain ⟨j, hj⟩ := List.getElem?_of_mem hmem
  obtain ⟨req, rfl, rfl⟩ | ⟨i, elapsed, t, sh', t', rfl, ht, hmove, rfl⟩ := daemon_cases hstep
  · exact ⟨pc, List.mem_append_left _ hmem, hpc⟩
  · by_cases hji : j = i
    · subst hji
      rw [ht] at hj
      obtain ⟨pc', rfl, hpc'⟩ := hmove.rotates (Option.some.inj hj) hpc
      exact ⟨pc', Pool.mem_set_self ht, hpc'⟩
    · refine ⟨pc, List.mem_of_getElem? (i := j) ?_, hpc⟩
      rw [Pool.getElem?_set ht, if_neg hji, hj]

theorem PairInForce.step {provider : String} {keyId : Option UInt32}
    (h : PairInForce d provider keyId) (hstep : Pool.Step (daemon crate) d a d') :
    PairInForce d' provider keyId := by
  obtain hstart | ⟨p, algo, hp, hpair⟩ := h
  · exact .inl hstart
  · exact .inr ⟨p, algo, hp.step hstep, hpair⟩

/-- The pair of the active key is in force. -/
theorem pairInForce_active {key : KeyHandle} (htraced : Traced crate d)
    (hkey : d.shared.state.activeKey = some key) :
    PairInForce d (providerName key.algo) (some key.id) := by
  obtain ⟨p, c, hp, haccepted, rfl⟩ := htraced.active key hkey
  have hc := haccepted.commit_for
  refine .inr ⟨p, c.newAlgo, ⟨_, hp, .inl rfl⟩, hc.algo_eq, ?_, ?_⟩
  · rw [hc.key_eq]
  · rw [hc.key_eq]

/-- A report is made when the key is read, and keeps its pair from then on. -/
theorem Move.reportPair (h : Move crate i sh t sh' t') {r : StatusReport}
    (hr : t'.pc.report = some r) :
    (∃ algo elapsed, t = ⟨.getStatus, .statusKey algo⟩ ∧ r = report elapsed algo sh.state) ∨
    ∃ r', t.pc.report = some r' ∧ r.activeProvider = r'.activeProvider ∧
      r.activeKeyId = r'.activeKeyId := by
  cases h with
  | status hmove =>
    obtain ⟨algo, elapsed, rfl, rfl⟩ | ⟨r', hr', rfl | rfl | rfl⟩ := hmove.report_cases hr
    · exact .inl ⟨algo, elapsed, rfl, rfl⟩
    · exact .inr ⟨r', hr', rfl, rfl⟩
    · exact .inr ⟨r', hr', rfl, rfl⟩
    · exact .inr ⟨r', hr', rfl, rfl⟩
  | _ => cases hr

theorem statusPaired_step (h : StatusPaired d) (htraced : Traced crate d)
    (hcond : ReadsInForce d a) (hstep : Pool.Step (daemon crate) d a d') : StatusPaired d' := by
  intro u hu r hr
  suffices hd : PairInForce d r.activeProvider r.activeKeyId from hd.step hstep
  obtain ⟨req, rfl, rfl⟩ | ⟨i, elapsed, t, sh', t', rfl, ht, hmove, rfl⟩ := daemon_cases hstep
  · rcases List.mem_append.mp hu with hu | hu
    · exact h u hu r hr
    · rw [List.mem_singleton.mp hu] at hr
      cases hr
  · rcases List.mem_or_eq_of_mem_set hu with hu | rfl
    · exact h u hu r hr
    · obtain ⟨algo, elapsed', rfl, rfl⟩ | ⟨r', hr', hname, hid⟩ := hmove.reportPair hr
      · have halgo := hcond i elapsed algo rfl ht
        cases hkey : d.shared.state.activeKey with
        | none =>
          rw [hkey] at halgo
          refine .inl ⟨congrArg providerName halgo, ?_⟩
          simp only [report, hkey, Option.map_none]
        | some key =>
          have hpair := pairInForce_active htraced hkey
          rw [hkey] at halgo
          simpa only [report, hkey, Option.map_some, halgo, keyAlgo] using hpair
      · rw [hname, hid]
        exact h t (List.mem_of_getElem? ht) r' hr'

theorem run_spawned (hrun : Run (Pool.Step (daemon crate)) (idle s) acts d) :
    ∀ t ∈ d.tasks, .spawn t.request ∈ acts := by
  induction hrun with
  | nil => exact fun t ht => absurd ht (not_mem_idle _ _)
  | snoc _ hlast ih =>
    intro u hu
    obtain ⟨req, rfl, rfl⟩ | ⟨i, elapsed, t, sh', t', rfl, ht, hmove, rfl⟩ := daemon_cases hlast
    · rcases List.mem_append.mp hu with hu | hu
      · exact List.mem_append_left _ (ih u hu)
      · rw [List.mem_singleton.mp hu]
        exact List.mem_append_right _ List.mem_cons_self
    · rcases List.mem_or_eq_of_mem_set hu with hu | rfl
      · exact List.mem_append_left _ (ih u hu)
      · have hrequest : u.request = t.request := by cases hmove <;> rfl
        rw [hrequest]
        exact List.mem_append_left _ (ih t (List.mem_of_getElem? ht))

/-- No key id is rotated in under two algorithms. -/
def IdsFixAlgo (acts : List (Pool.Act Request UInt64)) : Prop :=
  ∀ p p', .spawn (.rotateKey p) ∈ acts → .spawn (.rotateKey p') ∈ acts → p.keyId = p'.keyId →
    p.algo = p'.algo

/-- A key read with another algorithm than its own makes a pair that was never in force, unless its
id was rotated in under both. -/
theorem not_statusPaired_of_step (hrun : Run (Pool.Step (daemon crate)) (idle s) acts d)
    (htraced : Traced crate d) (hids : IdsFixAlgo (acts ++ [a])) (hcond : ¬ ReadsInForce d a)
    (hstep : Pool.Step (daemon crate) d a d') : ¬ StatusPaired d' := by
  simp only [ReadsInForce, not_forall] at hcond
  obtain ⟨i, elapsed, algo, rfl, ht, hne⟩ := hcond
  have hspawned := run_spawned (hrun.snoc hstep)
  obtain ⟨t, sh', t', ht', hmove, rfl⟩ := run_cases hstep
  rw [ht] at ht'
  cases ht'
  cases hmove with
  | status hmove =>
    cases hmove with
    | readKey hguard =>
      intro hpaired
      have hpair := hpaired _ (Pool.mem_set_self ht) _ rfl
      obtain ⟨hname, hid⟩ | ⟨p, algo', ⟨pc, hp, -⟩, hfrom, hname, hid⟩ := hpair
      · cases hkey : d.shared.state.activeKey with
        | none =>
          rw [hkey] at hne
          exact hne (providerName_injective hname)
        | some key =>
          simp only [report, hkey, Option.map_some] at hid
          cases hid
      · cases hkey : d.shared.state.activeKey with
        | none =>
          simp only [report, hkey, Option.map_none] at hid
          cases hid
        | some key =>
          rw [hkey] at hne
          simp only [report, hkey, Option.map_some, Option.some.injEq] at hid
          obtain ⟨p₀, c, hp₀, haccepted, rfl⟩ := htraced.active key hkey
          have hc := haccepted.commit_for
          have hold := Pool.mem_of_finished (done_finished _ _) hp₀ hstep
          -- the pair would be that of a rotation with the same id, so to the same algorithm
          have hsame : p.algo = p₀.algo := by
            refine hids p p₀ (hspawned _ hp) (hspawned _ hold) ?_
            rw [← hid, hc.key_eq]
          rw [hsame, hc.algo_eq] at hfrom
          cases hfrom
          have halgo : c.newKey.algo = c.newAlgo := by rw [hc.key_eq]
          exact hne ((providerName_injective hname).trans halgo.symm)

/-- A status never reports a pair that was not in force, in every run in which each `GetStatus`
finds the key with the algorithm it has read; and when no key id is rotated in under two algorithms,
in no other run. -/
theorem status_pairs (crate : Gcm.Crate) (s₀ : CryptodState) (hnew : CryptodState.new = .ok s₀)
    (acts : List (Pool.Act Request UInt64)) (d : Daemon)
    (hrun : Run (Pool.Step (daemon crate)) (idle s₀) acts d) :
    (Run (When ReadsInForce (Pool.Step (daemon crate))) (idle s₀) acts d →
      ∀ acts' d', acts' <+: acts → Run (Pool.Step (daemon crate)) (idle s₀) acts' d' →
        StatusPaired d') ∧
    (IdsFixAlgo acts →
      (∀ acts' d', acts' <+: acts → Run (Pool.Step (daemon crate)) (idle s₀) acts' d' →
        StatusPaired d') →
      Run (When ReadsInForce (Pool.Step (daemon crate))) (idle s₀) acts d) := by
  constructor
  · intro hwhen acts' d' hpre hrun'
    obtain ⟨d'', hd''⟩ := hwhen.exists_of_initial hpre
    -- the run to the earlier state is the beginning of this one
    rw [Run.deterministic (Pool.step_deterministic (daemon crate)) hrun' hd''.forget]
    clear hpre hrun' hwhen
    induction hd'' with
    | nil => exact fun t ht => absurd ht (not_mem_idle _ _)
    | snoc run last ih =>
      exact statusPaired_step ih (run_traced hnew run.forget) last.1 last.2
  · intro hids hgood
    refine hrun.when_of_good (fun acts' e a e' hpre hrun' hstep hcond => ?_) hgood
    refine not_statusPaired_of_step hrun' (run_traced hnew hrun') ?_ hcond hstep
    exact fun p p' hp hp' => hids p p' (hpre.subset hp) (hpre.subset hp')

namespace Kat

/-- A `GetStatus` reads the algorithm; a rotation to key 9 stores everything; the `GetStatus` reads
the key. -/
def mixedActs : List (Pool.Act Request UInt64) :=
  [.spawn .getStatus, .run 0 0, .spawn (.rotateKey rotate128), .run 1 0, .run 1 0, .run 1 0,
    .run 1 0, .run 0 0, .run 0 0, .run 0 0, .run 0 0]

def mixedReport : StatusReport where
  version := "0.1.0"
  running := true
  uptimeS := 0
  activeProvider := "ring/aes-256-gcm"
  activeKeyId := some 9
  packetsSealed := 0
  packetsOpened := 0
  cryptoErrors := 0

def mixed : Daemon where
  shared := ⟨⟨provider128, .aes128Gcm, some Gcm.Kat.handle128, 0, 0, 0⟩, none⟩
  tasks := [⟨.getStatus, .done (.status mixedReport)⟩, ⟨.rotateKey rotate128, .done .ok⟩]

theorem mixed_run : Run (Pool.Step (daemon Gcm.kat)) (idle fresh) mixedActs mixed :=
  Pool.run_of_exec (by rfl)

/-- The only rotation in with id 9 was to AES-128-GCM. -/
theorem not_pairInForce_mixed :
    ¬ PairInForce mixed mixedReport.activeProvider mixedReport.activeKeyId := by
  rintro (⟨-, hid⟩ | ⟨p, algo, ⟨pc, hp, -⟩, hfrom, hname, -⟩)
  · cases hid
  · rcases List.mem_cons.mp hp with hp | hp
    · cases hp
    · cases List.mem_singleton.mp hp
      cases hfrom
      exact absurd hname (by decide)

end Kat

/-- The answered report pairs AES-256-GCM with key 9, whose only rotation was to AES-128-GCM. -/
theorem status_mixed : ∃ acts d, Run (Pool.Step (daemon Gcm.kat)) (idle Kat.fresh) acts d ∧
    ⟨.getStatus, .done (.status Kat.mixedReport)⟩ ∈ d.tasks ∧
    ¬ PairInForce d Kat.mixedReport.activeProvider Kat.mixedReport.activeKeyId := by
  exact ⟨Kat.mixedActs, Kat.mixed, Kat.mixed_run, List.mem_cons_self, Kat.not_pairInForce_mixed⟩

theorem status_pairs_mixed :
    ¬ Run (When ReadsInForce (Pool.Step (daemon Gcm.kat))) (idle Kat.fresh) Kat.mixedActs
      Kat.mixed :=
  fun hwhen => Kat.not_pairInForce_mixed
    ((status_pairs Gcm.kat Kat.fresh rfl Kat.mixedActs Kat.mixed Kat.mixed_run).1 hwhen
      Kat.mixedActs Kat.mixed (List.prefix_refl _) Kat.mixed_run _ List.mem_cons_self _ rfl)

end Cryptod

end SmartSfp
