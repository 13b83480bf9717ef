import SmartSfp.Cryptod.Interleave
import SmartSfp.Cryptod.Sequential

/-!
# Rotation — the three stores of concurrent rotations

A rotation stores provider, algorithm and key under three locks, one after the other.  Stores of
rotations to different algorithms can interleave so that the daemon is left with the provider of one
and the key of another.  Which runs end well is decided when a rotation takes its last store with no
other in progress: provider and algorithm must still be the ones it stored.
-/

namespace SmartSfp

namespace Cryptod

open Lib Exec Ipc

/-- Between its first and its last store. -/
def Task.MidCommit (t : Task) : Prop :=
  ∃ p c, t = ⟨.rotateKey p, .storeAlgo c⟩ ∨ t = ⟨.rotateKey p, .storeKey c⟩

/-- A `RotateKey` answered `Ok`. -/
def Task.RotatedOk (t : Task) : Prop :=
  ∃ p, t = ⟨.rotateKey p, .done .ok⟩

/-- Provider, algorithm and key are those of the rotation `p`. -/
def InForce (s : CryptodState) (p : RotateKeyParams) : Prop :=
  ∃ algo, AlgoId.fromU8 p.algo = some algo ∧ s.provider.algo = algo ∧ s.activeAlgo = algo ∧
    s.activeKey = some ⟨p.keyId, algo, p.material.data⟩

/-- With no rotation between its first and last store, and one answered `Ok`, the daemon holds the
triple of one rotation answered `Ok`. -/
def AllOrNothing (d : Daemon) : Prop :=
  (∀ t ∈ d.tasks, ¬ t.MidCommit) → (∃ t ∈ d.tasks, t.RotatedOk) →
    ∃ p, ⟨.rotateKey p, .done .ok⟩ ∈ d.tasks ∧ InForce d.shared.state p

/-- A rotation that takes its last store with no other one in progress finds the provider and the
algorithm it stored: no rotation to another algorithm has overwritten them since. -/
def ClosesInOrder (d : Daemon) (a : Pool.Act Request UInt64) : Prop :=
  ∀ i elapsed p c, a = .run i elapsed → d.tasks[i]? = some ⟨.rotateKey p, .storeKey c⟩ →
    (∀ j u, d.tasks[j]? = some u → u.MidCommit → j = i) →
      d.shared.state.provider.algo = c.newAlgo ∧ d.shared.state.activeAlgo = c.newAlgo

/-- What a rotation in progress is about to store. -/
def Pc.commit : Pc → Option Commit
  | .storeProvider c => some c
  | .storeAlgo c => some c
  | .storeKey c => some c
  | _ => none

/-- What a rotation in progress is about to store was accepted for its request. -/
def Task.CommitFor (crate : Gcm.Crate) (t : Task) : Prop :=
  ∀ c, t.pc.commit = some c → ∃ p, t.request = .rotateKey p ∧ Accepted crate p c

variable {crate : Gcm.Crate} {d d' : Daemon} {a : Pool.Act Request UInt64} {i : Nat}
  {sh sh' : Shared} {t t' u : Task} {s₀ : CryptodState}

theorem Move.commitFor (h : Move crate i sh t sh' t') (ht : t.CommitFor crate) :
    t'.CommitFor crate := by
  cases h with
  | status hmove =>
    intro c hc
    cases hmove <;> cases hc
  | prepared haccepted =>
    intro c hc
    cases hc
    exact ⟨_, rfl, haccepted⟩
  | storedProvider =>
    intro c hc
    cases hc
    exact ht _ rfl
  | storedAlgo =>
    intro c hc
    cases hc
    exact ht _ rfl
  | _ =>
    intro c hc
    cases hc

theorem run_commitFor {acts : List (Pool.Act Request UInt64)}
    (h : Run (Pool.Step (daemon crate)) (idle s₀) acts d) : ∀ t ∈ d.tasks, t.CommitFor crate := by
  induction h with
  | nil => exact fun t ht => by cases ht
  | snoc _ hlast ih =>
    exact Pool.forall_tasks_step (I := fun _ t => t.CommitFor crate) (fun _ _ c hc => by cases hc)
      (fun _ _ _ _ _ _ hmove => (move_of_step hmove).commitFor) (fun _ _ _ _ _ _ _ _ _ hu => hu)
      ih hlast

/-- A step that keeps the triple, and takes a task that is not in progress to one that is not and
has not rotated, keeps the property. -/
theorem allOrNothing_quiet (hd : AllOrNothing d) (ht : d.tasks[i]? = some t)
    (hmid : ¬ t.MidCommit) (hdone : ¬ t.RotatedOk) (hdone' : ¬ t'.RotatedOk)
    (hsame : SameKey d.shared.state sh'.state) :
    AllOrNothing ⟨sh', d.tasks.set i t'⟩ := by
  intro hnone hsome
  have hother {u : Task} (hu : u ∈ d.tasks) (hne : u ≠ t) : u ∈ d.tasks.set i t' := by
    obtain ⟨j, hj⟩ := List.getElem?_of_mem hu
    refine List.mem_of_getElem? (i := j) ?_
    rw [Pool.getElem?_set ht, if_neg, hj]
    rintro rfl
    rw [hj] at ht
    exact hne (Option.some.inj ht)
  obtain ⟨p, hp, halgo⟩ := hd
    (fun u hu => by
      by_cases hut : u = t
      · exact hut ▸ hmid
      · exact hnone u (hother hu hut))
    (by
      obtain ⟨u, hu, hrot⟩ := hsome
      rcases List.mem_or_eq_of_mem_set hu with hu | rfl
      · exact ⟨u, hu, hrot⟩
      · exact absurd hrot hdone')
  refine ⟨p, hother hp fun heq => hdone (heq ▸ ⟨p, rfl⟩), ?_⟩
  obtain ⟨algo, hfrom, hprov, hact, hkey⟩ := halgo
  exact ⟨algo, hfrom, hsame.1 ▸ hprov, hsame.2.1 ▸ hact, hsame.2.2 ▸ hkey⟩

/-- The moves that store nothing. -/
theorem Move.quiet_or_stores (h : Move crate i sh t sh' t') :
    (¬ t.MidCommit ∧ ¬ t.RotatedOk ∧ ¬ t'.RotatedOk ∧ SameKey sh.state sh'.state) ∨
    t'.MidCommit ∨
    ∃ p c, t = ⟨.rotateKey p, .storeKey c⟩ ∧ t' = ⟨.rotateKey p, .done .ok⟩ ∧
      sh'.state = { sh.state with activeKey := some c.newKey } := by
  cases h with
  | storedProvider => exact .inr (.inl ⟨_, _, .inl rfl⟩)
  | storedAlgo => exact .inr (.inl ⟨_, _, .inr rfl⟩)
  | storedKey hguard => exact .inr (.inr ⟨_, _, rfl, rfl, rfl⟩)
  | status hmove =>
    refine .inl ⟨?_, ?_, ?_, ?_⟩
    · rintro ⟨p, c, h | h⟩ <;> cases h
    · rintro ⟨p, h⟩
      cases h
    · rintro ⟨p, h⟩
      cases h
    · rw [hmove.state_eq]
      exact .refl _
  | _ =>
    refine .inl ⟨?_, ?_, ?_, rfl, rfl, rfl⟩
    · rintro ⟨p, c, h | h⟩ <;> cases h
    · rintro ⟨p, h⟩
      cases h
    · rintro ⟨p, h⟩
      cases h

/-- A closing store in order leaves the triple of its rotation. -/
theorem allOrNothing_step (hd : AllOrNothing d) (hfor : ∀ t ∈ d.tasks, t.CommitFor crate)
    (hcond : ClosesInOrder d a) (hstep : Pool.Step (daemon crate) d a d') : AllOrNothing d' := by
  obtain ⟨req, rfl, rfl⟩ | ⟨i, elapsed, t, sh', t', rfl, ht, hmove, rfl⟩ := daemon_cases hstep
  · intro hnone hsome
    obtain ⟨p, hp, hforce⟩ := hd (fun u hu => hnone u (List.mem_append_left _ hu)) (by
      obtain ⟨u, hu, hrot⟩ := hsome
      rcases List.mem_append.mp hu with hu | hu
      · exact ⟨u, hu, hrot⟩
      · obtain ⟨p, hp⟩ := hrot
        rw [List.mem_singleton.mp hu] at hp
        cases hp)
    exact ⟨p, List.mem_append_left _ hp, hforce⟩
  · obtain ⟨hmid, hdone, hdone', hsame⟩ | hmid | ⟨p, c, rfl, rfl, hstate⟩ := hmove.quiet_or_stores
    · exact allOrNothing_quiet hd ht hmid hdone hdone' hsame
    · exact fun hnone _ => absurd hmid (hnone t' (Pool.mem_set_self ht))
    · intro hnone _
      -- no task is in progress after the step, so no other was before it
      have honly (j : Nat) (u : Task) (hu : d.tasks[j]? = some u) (hmid : u.MidCommit) :
          j = i := by
        by_contra hne
        refine hnone u (List.mem_of_getElem? (i := j) ?_) hmid
        rw [Pool.getElem?_set ht, if_neg hne, hu]
      obtain ⟨hprov, hact⟩ := hcond i elapsed p c rfl ht honly
      obtain ⟨p', hp', haccepted⟩ := hfor _ (List.mem_of_getElem? ht) c rfl
      cases hp'
      have hc := haccepted.commit_for
      refine ⟨p, Pool.mem_set_self ht, c.newAlgo, hc.algo_eq, ?_, ?_, ?_⟩
      · rw [hstate]
        exact hprov
      · rw [hstate]
        exact hact
      · rw [hstate]
        exact congrArg some hc.key_eq

/-- A closing store out of order leaves a torn triple. -/
theorem not_allOrNothing_of_step (hfor : ∀ t ∈ d.tasks, t.CommitFor crate)
    (hcond : ¬ ClosesInOrder d a) (hstep : Pool.Step (daemon crate) d a d') :
    ¬ AllOrNothing d' := by
  simp only [ClosesInOrder, not_forall] at hcond
  obtain ⟨i, elapsed, p, c, rfl, ht, honly, hne⟩ := hcond
  obtain ⟨t, sh', t', ht', hmove, rfl⟩ := run_cases hstep
  rw [ht] at ht'
  cases ht'
  cases hmove with
  | storedKey hguard =>
    intro hall
    obtain ⟨p', hp', algo, hfrom, hprov, hact, hkey⟩ := hall
      (fun u hu hmid => by
        obtain ⟨j, hj⟩ := List.getElem?_of_mem hu
        rw [Pool.getElem?_set ht] at hj
        split at hj
        · obtain ⟨p, c, h | h⟩ := hmid
          · cases hj
            cases h
          · cases hj
            cases h
        · rename_i hne
          exact hne (honly j u hj hmid))
      ⟨_, Pool.mem_set_self ht, p, rfl⟩
    obtain ⟨p'', -, haccepted⟩ := hfor _ (List.mem_of_getElem? ht) c rfl
    have hc := haccepted.commit_for
    have hkey' : c.newKey = ⟨p'.keyId, algo, p'.material.data⟩ := Option.some.inj hkey
    have halgo : c.newAlgo = algo := by
      rw [hc.key_eq] at hkey'
      exact congrArg KeyHandle.algo hkey'
    exact hne ⟨hprov.trans halgo.symm, hact.trans halgo.symm⟩

/-- Rotation is all-or-nothing in exactly the runs whose closing stores are in order: a run of the
daemon, with any requests in flight, passes only through states with the property if
and only if every rotation that takes its last store with no other one in progress still finds
the provider and the algorithm it stored. -/
theorem rotation_all_or_nothing_iff (crate : Gcm.Crate) (s₀ : CryptodState)
    (acts : List (Pool.Act Request UInt64)) (d : Daemon)
    (hrun : Run (Pool.Step (daemon crate)) (idle s₀) acts d) :
    Run (When ClosesInOrder (Pool.Step (daemon crate))) (idle s₀) acts d ↔
      ∀ acts' d', acts' <+: acts → Run (Pool.Step (daemon crate)) (idle s₀) acts' d' →
        AllOrNothing d' := by
  refine Run.when_iff (Pool.step_deterministic (daemon crate)) ?_ ?_ hrun
  · intro acts' d' hwhen
    induction hwhen with
    | nil =>
      rintro - ⟨t, ht, -⟩
      cases ht
    | snoc run last ih => exact allOrNothing_step ih (run_commitFor run.forget) last.1 last.2
  · intro acts' d' a d'' hrun' hstep hcond
    exact not_allOrNothing_of_step (run_commitFor hrun') hcond hstep

namespace Kat

/-- Rotations to keys 9 and 7 in flight together: the provider of the second is stored over that of
the first, and the algorithm and key of the first over those of the second. -/
def tornActs : List (Pool.Act Request UInt64) :=
  [.spawn (.rotateKey rotate128), .spawn (.rotateKey rotate256), .run 0 0, .run 1 0,
    .run 0 0, .run 1 0, .run 1 0, .run 1 0, .run 0 0, .run 0 0]

/-- Where they leave the daemon. -/
def torn : Daemon where
  shared := ⟨⟨provider256, .aes128Gcm, some Gcm.Kat.handle128, 0, 0, 0⟩, none⟩
  tasks := [⟨.rotateKey rotate128, .done .ok⟩, ⟨.rotateKey rotate256, .done .ok⟩]

theorem torn_run : Run (Pool.Step (daemon Gcm.kat)) (idle fresh) tornActs torn :=
  Pool.run_of_exec (by rfl)

theorem not_allOrNothing_torn : ¬ AllOrNothing torn := by
  intro hall
  obtain ⟨p, -, algo, -, hprov, hact, -⟩ := hall
    (by
      rintro t ht ⟨p, c, rfl | rfl⟩ <;> simp [torn] at ht)
    ⟨_, List.mem_cons_self, rotate128, rfl⟩
  exact absurd (hprov.trans hact.symm) (by decide)

end Kat

/-- Two rotations answered `Ok`, none in progress, and a triple that is neither's. -/
theorem rotation_torn :
    ∃ acts d, Run (Pool.Step (daemon Gcm.kat)) (idle Kat.fresh) acts d ∧
      (∀ t ∈ d.tasks, t.RotatedOk) ∧ d.shared.state.provider.algo ≠ d.shared.state.activeAlgo ∧
      ¬ AllOrNothing d := by
  refine ⟨Kat.tornActs, Kat.torn, Kat.torn_run, ?_, by decide, Kat.not_allOrNothing_torn⟩
  intro t ht
  simp only [Kat.torn, List.mem_cons, List.not_mem_nil, or_false] at ht
  rcases ht with rfl | rfl
  · exact ⟨_, rfl⟩
  · exact ⟨_, rfl⟩

theorem rotation_all_or_nothing_iff_torn :
    ¬ Run (When ClosesInOrder (Pool.Step (daemon Gcm.kat))) (idle Kat.fresh) Kat.tornActs
      Kat.torn :=
  fun h => Kat.not_allOrNothing_torn
    ((rotation_all_or_nothing_iff Gcm.kat Kat.fresh Kat.tornActs Kat.torn Kat.torn_run).mp h
      Kat.tornActs Kat.torn (List.prefix_refl _) Kat.torn_run)

/-! ## Rotations that do not overlap -/

/-- A rotation takes its first store only while every rotation in progress is to the same
algorithm. -/
def Exclusive (d : Daemon) (a : Pool.Act Request UInt64) : Prop :=
  ∀ i elapsed p c, a = .run i elapsed → d.tasks[i]? = some ⟨.rotateKey p, .storeProvider c⟩ →
    ∀ t ∈ d.tasks, t.MidCommit → ∀ c', t.pc.commit = some c' → c'.newAlgo = c.newAlgo

/-- What a rotation in progress has stored is still there. -/
def Task.StoredIn (s : CryptodState) (t : Task) : Prop :=
  (∀ c, t.pc = .storeAlgo c → s.provider.algo = c.newAlgo) ∧
    ∀ c, t.pc = .storeKey c → s.provider.algo = c.newAlgo ∧ s.activeAlgo = c.newAlgo

theorem Task.StoredIn.of_eq {s s' : CryptodState} (h : t.StoredIn s)
    (hprov : s'.provider = s.provider) (hact : s'.activeAlgo = s.activeAlgo) : t.StoredIn s' := by
  refine ⟨fun c hc => hprov ▸ h.1 c hc, fun c hc => ?_⟩
  rw [hprov, hact]
  exact h.2 c hc

theorem storedIn_of_pc (s : CryptodState) {request : Request} {pc : Pc}
    (halgo : ∀ c, pc ≠ .storeAlgo c) (hkey : ∀ c, pc ≠ .storeKey c) :
    Task.StoredIn s ⟨request, pc⟩ :=
  ⟨fun c hc => absurd hc (halgo c), fun c hc => absurd hc (hkey c)⟩

theorem storedIn_of_not_midCommit (s : CryptodState) (hfor : t.CommitFor crate)
    (h : ¬ t.MidCommit) : t.StoredIn s := by
  obtain ⟨request, pc⟩ := t
  constructor
  · rintro c rfl
    obtain ⟨p, rfl, -⟩ := hfor c rfl
    exact absurd ⟨p, c, .inl rfl⟩ h
  · rintro c rfl
    obtain ⟨p, rfl, -⟩ := hfor c rfl
    exact absurd ⟨p, c, .inr rfl⟩ h

theorem storedIn_step (hd : ∀ t ∈ d.tasks, t.StoredIn d.shared.state)
    (hfor : ∀ t ∈ d.tasks, t.CommitFor crate) (hcond : Exclusive d a)
    (hstep : Pool.Step (daemon crate) d a d') : ∀ t ∈ d'.tasks, t.StoredIn d'.shared.state := by
  obtain ⟨req, rfl, rfl⟩ | ⟨i, elapsed, t, sh', t', rfl, ht, hmove, rfl⟩ := daemon_cases hstep
  · intro u hu
    rcases List.mem_append.mp hu with hu | hu
    · exact hd u hu
    · rw [List.mem_singleton.mp hu]
      exact storedIn_of_pc _ (by simp) (by simp)
  · have hmem := List.mem_of_getElem? ht
    intro u hu
    cases hmove with
    | @storedProvider p c =>
      obtain ⟨p', -, haccepted⟩ := hfor _ hmem c rfl
      have hc := haccepted.commit_for
      -- a rotation in progress that has stored its provider stored one of the same algorithm
      rcases List.mem_or_eq_of_mem_set hu with hu | rfl
      · by_cases hmid : u.MidCommit
        · have halgo := hcond i elapsed p c rfl ht u hu hmid
          refine ⟨fun c' hc' => ?_, fun c' hc' => ⟨?_, ((hd u hu).2 c' hc').2⟩⟩
          · exact hc.provider_eq.trans (halgo c' (by rw [hc']; rfl)).symm
          · exact hc.provider_eq.trans (halgo c' (by rw [hc']; rfl)).symm
        · exact storedIn_of_not_midCommit _ (hfor u hu) hmid
      · refine ⟨fun c' hc' => ?_, fun c' hc' => ?_⟩
        · cases hc'
          exact hc.provider_eq
        · cases hc'
    | @storedAlgo p c =>
      have hprov := (hd _ hmem).1 c rfl
      rcases List.mem_or_eq_of_mem_set hu with hu | rfl
      · refine ⟨(hd u hu).1, fun c' hc' => ?_⟩
        have hprov' := ((hd u hu).2 c' hc').1
        exact ⟨hprov', hprov.symm.trans hprov'⟩
      · refine ⟨fun c' hc' => ?_, fun c' hc' => ?_⟩
        · cases hc'
        · cases hc'
          exact ⟨hprov, rfl⟩
    | status hmove' =>
      rw [hmove'.state_eq]
      rcases List.mem_or_eq_of_mem_set hu with hu | rfl
      · exact hd u hu
      · cases hmove' <;> exact storedIn_of_pc _ (by simp) (by simp)
    | _ =>
      rcases List.mem_or_eq_of_mem_set hu with hu | rfl
      · exact (hd u hu).of_eq rfl rfl
      · exact storedIn_of_pc _ (by simp) (by simp)

/-- Runs in which rotations to different algorithms never overlap close in order, so rotation is
all-or-nothing in all of them. -/
theorem closesInOrder_of_exclusive {acts : List (Pool.Act Request UInt64)}
    (h : Run (When Exclusive (Pool.Step (daemon crate))) (idle s₀) acts d) :
    Run (When ClosesInOrder (Pool.Step (daemon crate))) (idle s₀) acts d ∧ AllOrNothing d := by
  suffices h : Run (When ClosesInOrder (Pool.Step (daemon crate))) (idle s₀) acts d ∧
      AllOrNothing d ∧ ∀ t ∈ d.tasks, t.StoredIn d.shared.state from ⟨h.1, h.2.1⟩
  induction h with
  | nil =>
    refine ⟨.nil, ?_, fun t ht => by cases ht⟩
    rintro - ⟨t, ht, -⟩
    cases ht
  | @snoc acts d d' a run last ih =>
    obtain ⟨hrun, hall, hstored⟩ := ih
    have hfor := run_commitFor run.forget
    have hcloses : ClosesInOrder d a := by
      rintro i elapsed p c rfl ht -
      exact (hstored _ (List.mem_of_getElem? ht)).2 c rfl
    exact ⟨hrun.snoc ⟨hcloses, last.2⟩, allOrNothing_step hall hfor hcloses last.2,
      storedIn_step hstored hfor last.1 last.2⟩

end Cryptod

end SmartSfp
