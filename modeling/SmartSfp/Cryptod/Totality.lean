import SmartSfp.Cryptod.Sequential
import SmartSfp.Cryptod.Interleave

/-!
# Totality — every request is answered

The release profile aborts on a panic, so a handler that panics takes the daemon down.  No handler
does, in any state the daemon can reach, whatever key and provider meet in it; and no handler waits
for a lock for ever.
-/

namespace SmartSfp

namespace Cryptod

open Lib Exec Ipc

variable {crate : Gcm.Crate} {s₀ : CryptodState} {d d' : Daemon} {a : Pool.Act Request UInt64}
  {i : Nat} {sh sh' : Shared} {t t' : Task}

/-- The task was answered, or takes its next step as soon as `active_key` is free. -/
def Task.Live (crate : Gcm.Crate) (t : Task) : Prop :=
  (∃ r, t.pc = .done r) ∨
    ∀ i elapsed s, ∃ sh' t', taskStep crate i elapsed ⟨s, none⟩ t = some (sh', t')

theorem live_received (req : Request) : Task.Live crate ⟨req, .received⟩ := by
  refine .inr fun i elapsed s => ?_
  cases req with
  | getStatus => exact ⟨_, _, rfl⟩
  | setPolicy p => exact ⟨_, _, rfl⟩
  | rotateKey p =>
    simp only [taskStep, requestStep, rotateStep]
    cases (rotatePrepare crate p : Exec CryptodState Response Commit).run s <;> exact ⟨_, _, rfl⟩
  | encrypt p => exact ⟨_, _, rfl⟩
  | decrypt p => exact ⟨_, _, rfl⟩

theorem Move.live (h : Move crate i sh t sh' t') : t'.Live crate := by
  cases h with
  | status hmove =>
    cases hmove with
    | answer => exact .inl ⟨_, rfl⟩
    | _ => exact .inr fun i elapsed s => ⟨_, _, rfl⟩
  | prepared haccepted => exact .inr fun i elapsed s => ⟨_, _, rfl⟩
  | storedProvider => exact .inr fun i elapsed s => ⟨_, _, rfl⟩
  | storedAlgo => exact .inr fun i elapsed s => ⟨_, _, rfl⟩
  | sealCopied hkey => exact .inr fun i elapsed s => ⟨_, _, rfl⟩
  | openCopied hkey => exact .inr fun i elapsed s => ⟨_, _, rfl⟩
  | _ => exact .inl ⟨_, rfl⟩

/-- `GetStatus` is loading the counters. -/
def Task.Loading (t : Task) : Prop :=
  t.request = .getStatus ∧
    ((∃ r, t.pc = .loadSealed r) ∨ (∃ r, t.pc = .loadOpened r) ∨ ∃ r, t.pc = .loadErrors r)

/-- Every task is live, and the guard of `active_key` is held by a task that will give it back. -/
structure Sound (crate : Gcm.Crate) (d : Daemon) : Prop where
  live : ∀ t ∈ d.tasks, t.Live crate
  guard : ∀ i, d.shared.keyGuard = some i → ∃ t, d.tasks[i]? = some t ∧ t.Loading

theorem sound_step (h : Sound crate d) (hstep : Pool.Step (daemon crate) d a d') :
    Sound crate d' := by
  obtain ⟨req, rfl, rfl⟩ | ⟨i, elapsed, t, sh', t', rfl, ht, hmove, rfl⟩ := daemon_cases hstep
  · constructor
    · intro u hu
      rcases List.mem_append.mp hu with hu | hu
      · exact h.live u hu
      · rw [List.mem_singleton.mp hu]
        exact live_received req
    · intro j hj
      obtain ⟨u, hu, hloading⟩ := h.guard j hj
      exact ⟨u, by rwa [List.getElem?_append_left (List.getElem?_eq_some_iff.mp hu).1], hloading⟩
  · constructor
    · intro u hu
      rcases List.mem_or_eq_of_mem_set hu with hu | rfl
      · exact h.live u hu
      · exact hmove.live
    · intro j hj
      simp only [Pool.getElem?_set ht]
      -- the guard stays with the status that has it, whether another task steps or that one
      have hkeep (hguard : d.shared.keyGuard = some j) (hnot : ¬ t.Loading) :
          ∃ u, (if j = i then some t' else d.tasks[j]?) = some u ∧ u.Loading := by
        obtain ⟨u, hu, hloading⟩ := h.guard j hguard
        refine ⟨u, ?_, hloading⟩
        rw [if_neg, hu]
        rintro rfl
        rw [ht] at hu
        cases hu
        exact hnot hloading
      have hself (hguard : d.shared.keyGuard = some j) (hloading : t'.Loading) :
          ∃ u, (if j = i then some t' else d.tasks[j]?) = some u ∧ u.Loading := by
        by_cases hji : j = i
        · exact ⟨t', if_pos hji, hloading⟩
        · rw [if_neg hji]
          exact h.guard j hguard
      cases hmove with
      | status hmove' =>
        cases hmove' with
        | readAlgo =>
          refine hkeep hj ?_
          rintro ⟨-, ⟨r, hr⟩ | ⟨r, hr⟩ | ⟨r, hr⟩⟩ <;> cases hr
        | readKey hguard =>
          cases hj
          exact ⟨_, if_pos rfl, rfl, .inl ⟨_, rfl⟩⟩
        | readSealed => exact hself hj ⟨rfl, .inr (.inl ⟨_, rfl⟩)⟩
        | readOpened => exact hself hj ⟨rfl, .inr (.inr ⟨_, rfl⟩)⟩
        | answer => cases hj
      | _ =>
        refine hkeep hj ?_
        rintro ⟨hreq, -⟩
        cases hreq

theorem run_sound {acts : List (Pool.Act Request UInt64)}
    (h : Run (Pool.Step (daemon crate)) (idle s₀) acts d) : Sound crate d := by
  induction h with
  | nil => exact ⟨fun t ht => absurd ht (not_mem_idle _ _), fun i hi => by cases hi⟩
  | snoc _ hlast ih => exact sound_step ih hlast

/-- How many steps a handler is from its answer. -/
def Pc.rank : Pc → Nat
  | .received => 5
  | .storeProvider _ => 3
  | .storeAlgo _ => 2
  | .storeKey _ => 1
  | .statusKey _ => 4
  | .loadSealed _ => 3
  | .loadOpened _ => 2
  | .loadErrors _ => 1
  | .sealing _ => 1
  | .opening _ => 1
  | .done _ => 0
  | .aborted _ => 0

theorem Move.rank_lt (h : Move crate i sh t sh' t') : t'.pc.rank < t.pc.rank := by
  cases h with
  | status hmove => cases hmove <;> simp [Pc.rank]
  | _ => simp [Pc.rank]

theorem Move.request_eq (h : Move crate i sh t sh' t') : t'.request = t.request := by
  cases h <;> rfl

/-- As long as a handler has not answered, some handler can take a step. -/
theorem progress (h : Sound crate d) (hwaiting : ∃ t ∈ d.tasks, ¬ ∃ r, t.pc = .done r) :
    ∃ i elapsed d', Pool.Step (daemon crate) d (.run i elapsed) d' := by
  obtain ⟨⟨s, guard⟩, tasks⟩ := d
  cases guard with
  | some i =>
    obtain ⟨t, ht, hreq, hpc⟩ := h.guard i rfl
    obtain ⟨request, pc⟩ := t
    cases hreq
    rcases hpc with ⟨r, hr⟩ | ⟨r, hr⟩ | ⟨r, hr⟩
    · cases hr
      exact ⟨i, 0, _, Pool.step_run ht rfl⟩
    · cases hr
      exact ⟨i, 0, _, Pool.step_run ht rfl⟩
    · cases hr
      exact ⟨i, 0, _, Pool.step_run ht rfl⟩
  | none =>
    obtain ⟨t, ht, hnot⟩ := hwaiting
    obtain ⟨i, hi⟩ := List.getElem?_of_mem ht
    obtain hdone | hstep := h.live t ht
    · exact absurd hdone hnot
    · obtain ⟨sh', t', htask⟩ := hstep i 0 s
      exact ⟨i, 0, _, Pool.step_run hi htask⟩

theorem requests_eq {acts : List (Pool.Act Request UInt64)}
    (h : Run (Pool.Step (daemon crate)) d acts d') (hacts : ∀ a ∈ acts, ∃ i x, a = .run i x) :
    d'.tasks.map Task.request = d.tasks.map Task.request := by
  induction h with
  | nil => rfl
  | @snoc ls u v a _ hlast ih =>
    rw [← ih fun a ha => hacts a (List.mem_append_left _ ha)]
    obtain ⟨i, x, rfl⟩ := hacts _ (List.mem_append_right _ (List.mem_singleton_self _))
    obtain ⟨t, sh', t', ht, hmove, rfl⟩ := run_cases hlast
    have hget : (u.tasks.map Task.request)[i]? = some t.request := by
      rw [List.getElem?_map, ht]
      rfl
    obtain ⟨hi, hreq⟩ := List.getElem?_eq_some_iff.mp hget
    rw [List.map_set, hmove.request_eq, ← hreq, List.set_getElem_self]

/-- No request aborts the daemon: in every state reached by any interleaving of any requests no
handler has panicked, and from there the handlers in flight can all be run to their answers. The
one length `Vec::truncate` is given does not exceed the vector's. -/
theorem every_request_answered (crate : Gcm.Crate) (s₀ : CryptodState)
    (acts : List (Pool.Act Request UInt64)) (d : Daemon)
    (hrun : Run (Pool.Step (daemon crate)) (idle s₀) acts d) :
    (∀ t ∈ d.tasks, ∀ reason, t.pc ≠ .aborted reason) ∧
    (∀ (p : DecryptParams) key n out,
      (Wire.open_ (d.shared.state.provider.toProvider crate) key p.frame.data).run
        (List.replicate p.frame.data.length 0) = .ok n out → n ≤ out.length) ∧
    ∃ acts' d', (∀ a ∈ acts', ∃ i elapsed, a = .run i elapsed) ∧
      Run (Pool.Step (daemon crate)) d acts' d' ∧
      d'.tasks.map Task.request = d.tasks.map Task.request ∧
      ∀ t ∈ d'.tasks, ∃ response, t.pc = .done response := by
  have hsound := run_sound hrun
  refine ⟨?_, fun p key n out h => truncate_le crate _ key h, ?_⟩
  · intro t ht reason hpc
    obtain ⟨r, hr⟩ | hstep := hsound.live t ht
    · rw [hr] at hpc
      cases hpc
    · obtain ⟨request, pc⟩ := t
      cases hpc
      obtain ⟨sh', t', htask⟩ := hstep 0 0 s₀
      cases request <;> cases htask
  · obtain ⟨acts', d', hrun', hruns, hall⟩ := Pool.exists_drained (daemon crate)
      (fun t : Task => t.pc.rank) (fun _ _ _ hs hstep => sound_step hs hstep)
      (fun _ _ _ _ _ _ htask => (move_of_step htask).rank_lt)
      (fun _ hs hwaiting => progress hs hwaiting) hsound
    exact ⟨acts', d', hruns, hrun', requests_eq hrun' hruns, hall⟩

namespace Kat

/-- A rotation between its stores, and an encryption that has just arrived. -/
def half : Daemon where
  shared := ⟨⟨provider128, .aes256Gcm, none, 0, 0, 0⟩, none⟩
  tasks := [⟨.rotateKey rotate128, .storeAlgo ⟨provider128, .aes128Gcm, Gcm.Kat.handle128⟩⟩,
    ⟨.encrypt encryptText, .received⟩]

theorem half_run : Run (Pool.Step (daemon Gcm.kat)) (idle fresh)
    [.spawn (.rotateKey rotate128), .run 0 0, .run 0 0, .spawn (.encrypt encryptText)] half :=
  Pool.run_of_exec (by rfl)

end Kat

theorem every_request_answered_kat :
    ∃ acts d, Run (Pool.Step (daemon Gcm.kat)) Kat.half acts d ∧
      ∀ t ∈ d.tasks, ∃ response, t.pc = .done response := by
  obtain ⟨-, -, acts, d, -, hrun, -, hall⟩ :=
    every_request_answered Gcm.kat Kat.fresh _ Kat.half Kat.half_run
  exact ⟨acts, d, hrun, hall⟩

end Cryptod

end SmartSfp
