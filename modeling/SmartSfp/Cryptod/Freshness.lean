import SmartSfp.Cryptod.Rotation
import SmartSfp.Lib.Line

/-!
# Freshness — which key a request uses after a rotation was acknowledged

A handler keeps a copy of the key long after it has released the lock, so the final state says
nothing about the key it used.  The history of a run holds every store into `active_key` and every
use of a copied key, in their order; the copy is made of the last store before it.
-/

namespace SmartSfp

namespace Cryptod

open Lib Exec Ipc

/-- What a step does with keys. -/
inductive KeyEvent where
  /-- The task stores the key into `active_key`. -/
  | stored (task : Nat) (key : KeyHandle)
  /-- The task seals or opens under the key. -/
  | used (task : Nat) (key : KeyHandle)
  deriving DecidableEq

/-- What the next step of task `i` does with keys. -/
def Task.keyEvents (i : Nat) (t : Task) : List KeyEvent :=
  match t.pc with
  | .storeKey c => [.stored i c.newKey]
  | .sealing key => [.used i key]
  | .opening key => [.used i key]
  | _ => []

def keyEvents (d : Daemon) : Pool.Act Request UInt64 → List KeyEvent
  | .spawn _ => []
  | .run i _ =>
    match d.tasks[i]? with
    | some t => t.keyEvents i
    | none => []

/-- The daemon with the history of its keys. -/
abbrev KeyStep (crate : Gcm.Crate) :
    Daemon × List KeyEvent → Pool.Act Request UInt64 → Daemon × List KeyEvent → Prop :=
  Recorded keyEvents (Pool.Step (daemon crate))

/-- The key of the last store, with `start` before the first one. -/
def lastStored (start : Option KeyHandle) (log : List KeyEvent) : Option KeyHandle :=
  log.foldl (fun last e => match e with
    | .stored _ key => some key
    | .used _ _ => last) start

/-- `key` was stored by the store of `first`, or by one in `later`. -/
def Since (first : KeyHandle) (later : List KeyEvent) (key : KeyHandle) : Prop :=
  key = first ∨ ∃ j, .stored j key ∈ later

theorem Since.mono {first key : KeyHandle} {later : List KeyEvent} (h : Since first later key)
    (more : List KeyEvent) : Since first (later ++ more) key := by
  obtain h | ⟨j, hj⟩ := h
  · exact .inl h
  · exact .inr ⟨j, List.mem_append_left _ hj⟩

theorem lastStored_append (start : Option KeyHandle) (log more : List KeyEvent) :
    lastStored start (log ++ more) = lastStored (lastStored start log) more :=
  List.foldl_append

/-- After a store the last one is that store or a later one. -/
theorem since_lastStored {first key : KeyHandle} {later : List KeyEvent}
    (h : lastStored (some first) later = some key) : Since first later key := by
  induction later generalizing first with
  | nil => exact .inl (Option.some.inj h).symm
  | cons e later ih =>
    cases e with
    | stored j k =>
      have hk : Since k later key := ih h
      obtain rfl | ⟨j', hj'⟩ := hk
      · exact .inr ⟨j, List.mem_cons_self⟩
      · exact .inr ⟨j', List.mem_cons_of_mem _ hj'⟩
    | used j k =>
      obtain hfirst | ⟨j', hj'⟩ := ih h
      · exact .inl hfirst
      · exact .inr ⟨j', List.mem_cons_of_mem _ hj'⟩

variable {crate : Gcm.Crate} {d d' : Daemon} {log log' : List KeyEvent}
  {a : Pool.Act Request UInt64} {i : Nat} {sh sh' : Shared} {t t' : Task}

/-- The task's result, if it was answered with one, is what sealing or opening under `key` gives. -/
def Task.ResultOf (crate : Gcm.Crate) (t : Task) (key : KeyHandle) : Prop :=
  (∀ q frame, t = ⟨.encrypt q, .done (.ciphertext frame)⟩ →
    ∃ provider, ∃ hn : q.nonce.data.length = 12,
      Wire.ringSealFrame crate provider key ⟨q.nonce.data, hn⟩ q.plaintext.data = .ok frame) ∧
  ∀ q plaintext, t = ⟨.decrypt q, .done (.plaintext plaintext)⟩ →
    ∃ provider, Wire.ringOpenFrame crate provider key q.frame.data = .ok plaintext

/-- The task was answered with a frame or a plaintext. -/
def Task.HasResult (t : Task) : Prop :=
  (∃ q frame, t = ⟨.encrypt q, .done (.ciphertext frame)⟩) ∨
    ∃ q plaintext, t = ⟨.decrypt q, .done (.plaintext plaintext)⟩

/-- The task holds a copy of `key`. -/
def Task.Holds (t : Task) (key : KeyHandle) : Prop := t.pc = .sealing key ∨ t.pc = .opening key

/-- What the steps that neither store nor use a key have in common. -/
structure KeyQuiet (sh sh' : Shared) (t' : Task) : Prop where
  activeKey_eq : sh'.state.activeKey = sh.state.activeKey
  not_rotatedOk : ¬ t'.RotatedOk
  not_hasResult : ¬ t'.HasResult
  copied : ∀ key, t'.Holds key → sh.state.activeKey = some key

theorem keyQuiet_of_pc {pc' : Pc} {request : Request}
    (hkey : sh'.state.activeKey = sh.state.activeKey) (hok : pc' ≠ .done .ok)
    (hcipher : ∀ frame, pc' ≠ .done (.ciphertext frame))
    (hplain : ∀ plaintext, pc' ≠ .done (.plaintext plaintext))
    (hcopied : ∀ key, pc' = .sealing key ∨ pc' = .opening key → sh.state.activeKey = some key) :
    KeyQuiet sh sh' ⟨request, pc'⟩ where
  activeKey_eq := hkey
  not_rotatedOk := by
    rintro ⟨p, h⟩
    exact hok (congrArg Task.pc h)
  not_hasResult := by
    rintro (⟨q, frame, h⟩ | ⟨q, plaintext, h⟩)
    · exact hcipher frame (congrArg Task.pc h)
    · exact hplain plaintext (congrArg Task.pc h)
  copied := hcopied

/-- An answer to an encryption or a decryption. -/
structure KeyUse (crate : Gcm.Crate) (sh sh' : Shared) (t' : Task) (key : KeyHandle) : Prop where
  activeKey_eq : sh'.state.activeKey = sh.state.activeKey
  done : ∃ response, t'.pc = .done response
  not_rotatedOk : ¬ t'.RotatedOk
  resultOf : t'.ResultOf crate key

theorem keyUse_of_error {p : Request} {code : UInt32} {message : String} {key : KeyHandle}
    (hkey : sh'.state.activeKey = sh.state.activeKey) :
    KeyUse crate sh sh' ⟨p, .done (.error code message)⟩ key where
  activeKey_eq := hkey
  done := ⟨_, rfl⟩
  not_rotatedOk := by
    rintro ⟨p, h⟩
    cases h
  resultOf := by
    constructor
    · intro q frame h
      cases h
    · intro q plaintext h
      cases h

/-- A step stores a key, uses a key, or does neither. -/
theorem Move.key_cases (h : Move crate i sh t sh' t') :
    (t.keyEvents i = [] ∧ KeyQuiet sh sh' t') ∨
    (∃ p c, t = ⟨.rotateKey p, .storeKey c⟩ ∧ t' = ⟨.rotateKey p, .done .ok⟩ ∧
      sh'.state.activeKey = some c.newKey) ∨
    ∃ key, t.keyEvents i = [.used i key] ∧ t.Holds key ∧ KeyUse crate sh sh' t' key := by
  cases h with
  | status hmove =>
    refine .inl ⟨?_, ?_⟩
    · cases hmove <;> rfl
    · have hkey := congrArg CryptodState.activeKey hmove.state_eq
      cases hmove <;> exact keyQuiet_of_pc hkey (by simp) (by simp) (by simp) (by simp)
  | policy =>
    refine .inl ⟨rfl, rfl, ?_, ?_, ?_⟩
    · rintro ⟨p, h⟩
      cases h
    · rintro (⟨q, frame, h⟩ | ⟨q, plaintext, h⟩) <;> cases h
    · rintro key (h | h) <;> cases h
  | storedKey hguard => exact .inr (.inl ⟨_, _, rfl, rfl, rfl⟩)
  | sealCopied hkey =>
    refine .inl ⟨rfl, keyQuiet_of_pc rfl (by simp) (by simp) (by simp) ?_⟩
    rintro key (h | h) <;> cases h
    exact hkey
  | openCopied hkey =>
    refine .inl ⟨rfl, keyQuiet_of_pc rfl (by simp) (by simp) (by simp) ?_⟩
    rintro key (h | h) <;> cases h
    exact hkey
  | @sealed p key frame hn hseal =>
    refine .inr (.inr ⟨key, rfl, .inl rfl, rfl, ⟨_, rfl⟩, ?_, ?_, ?_⟩)
    · rintro ⟨p, h⟩
      cases h
    · intro q frame' h
      cases h
      exact ⟨_, hn, hseal⟩
    · intro q plaintext h
      cases h
  | @opened p key plaintext hopen =>
    refine .inr (.inr ⟨key, rfl, .inr rfl, rfl, ⟨_, rfl⟩, ?_, ?_, ?_⟩)
    · rintro ⟨p, h⟩
      cases h
    · intro q frame h
      cases h
    · intro q plaintext' h
      cases h
      exact ⟨_, hopen⟩
  -- an error is an answer too, and used the key it was found with
  | sealNonce hn => exact .inr (.inr ⟨_, rfl, .inl rfl, keyUse_of_error rfl⟩)
  | sealFailed hn hseal => exact .inr (.inr ⟨_, rfl, .inl rfl, keyUse_of_error rfl⟩)
  | openFailed hopen => exact .inr (.inr ⟨_, rfl, .inr rfl, keyUse_of_error rfl⟩)
  | _ => exact .inl ⟨rfl, keyQuiet_of_pc rfl (by simp) (by simp) (by simp) (by simp)⟩

/-! ## The history of a run -/

/-- The store of `first` by task `r` is in the log, once. -/
def StoredOnce (log before after : List KeyEvent) (r : Nat) (first : KeyHandle) : Prop :=
  log = before ++ .stored r first :: after ∧
    ∀ k, .stored r k ∉ before ∧ .stored r k ∉ after

/-- Task `i` used one key, and its result is what that key gives. -/
def UsedOnce (crate : Gcm.Crate) (log : List KeyEvent) (i : Nat) (t : Task) : Prop :=
  ∃ key, .used i key ∈ log ∧ (∀ key', .used i key' ∈ log → key' = key) ∧ t.ResultOf crate key

/-- The log holds one store of every rotation answered `Ok` and one use by every task answered with
a result, and `active_key` is what was stored last. -/
structure KeyLog (crate : Gcm.Crate) (d : Daemon) (log : List KeyEvent) : Prop where
  active : d.shared.state.activeKey = lastStored none log
  stored : ∀ i key, .stored i key ∈ log → ∃ p, d.tasks[i]? = some ⟨.rotateKey p, .done .ok⟩
  used : ∀ i key, .used i key ∈ log → ∃ t response, d.tasks[i]? = some t ∧ t.pc = .done response
  rotated : ∀ i p, d.tasks[i]? = some ⟨.rotateKey p, .done .ok⟩ →
    ∃ (c : Commit) (before after : List KeyEvent), c.For p ∧ StoredOnce log before after i c.newKey
  results : ∀ i t, d.tasks[i]? = some t → t.HasResult → UsedOnce crate log i t

theorem StoredOnce.append {before after more : List KeyEvent} {r : Nat} {first : KeyHandle}
    (h : StoredOnce log before after r first) (hmore : ∀ k, .stored r k ∉ more) :
    StoredOnce (log ++ more) before (after ++ more) r first := by
  refine ⟨by rw [h.1, List.append_assoc, List.cons_append], fun k => ⟨(h.2 k).1, fun hk => ?_⟩⟩
  rcases List.mem_append.mp hk with hk | hk
  · exact (h.2 k).2 hk
  · exact hmore k hk

theorem UsedOnce.append {more : List KeyEvent} (h : UsedOnce crate log i t)
    (hmore : ∀ k, .used i k ∉ more) : UsedOnce crate (log ++ more) i t := by
  obtain ⟨key, hkey, honly, hresult⟩ := h
  refine ⟨key, List.mem_append_left _ hkey, fun key' hkey' => ?_, hresult⟩
  rcases List.mem_append.mp hkey' with hkey' | hkey'
  · exact honly key' hkey'
  · exact absurd hkey' (hmore key')

theorem keyLog_idle {s : CryptodState} (hnew : CryptodState.new = .ok s) :
    KeyLog crate (idle s) [] where
  active := by
    cases hnew
    rfl
  stored i key h := absurd h List.not_mem_nil
  used i key h := absurd h List.not_mem_nil
  rotated i p h := by cases h
  results i t h := by cases h

namespace KeyLog

variable (h : KeyLog crate d log)
include h

theorem spawn (req : Request) :
    KeyLog crate ⟨d.shared, d.tasks ++ [⟨req, .received⟩]⟩ log where
  active := h.active
  stored j key hj := by
    obtain ⟨p, hp⟩ := h.stored j key hj
    exact ⟨p, getElem?_of_initial (List.prefix_append _ _) hp⟩
  used j key hj := by
    obtain ⟨t, response, ht, hpc⟩ := h.used j key hj
    exact ⟨t, response, getElem?_of_initial (List.prefix_append _ _) ht, hpc⟩
  rotated j p hp := by
    rw [List.getElem?_append] at hp
    split at hp
    · exact h.rotated j p hp
    · cases List.mem_singleton.mp (List.mem_of_getElem? hp)
  results j t ht hresult := by
    rw [List.getElem?_append] at ht
    split at ht
    · exact h.results j t ht hresult
    · rw [List.mem_singleton.mp (List.mem_of_getElem? ht)] at hresult
      rcases hresult with ⟨q, frame, hq⟩ | ⟨q, plaintext, hq⟩ <;> cases hq

/-- A step of task `i`, which had not been answered, with what it adds to the log. -/
theorem run_step {added : List KeyEvent} (ht : d.tasks[i]? = some t)
    (hopen : ∀ response, t.pc ≠ .done response)
    (hactive : sh'.state.activeKey = lastStored none (log ++ added))
    (hstored : ∀ j key, .stored j key ∈ added → j = i ∧ t'.RotatedOk)
    (hused : ∀ j key, .used j key ∈ added → j = i ∧ ∃ response, t'.pc = .done response)
    (hrotated : ∀ p, t' = ⟨.rotateKey p, .done .ok⟩ →
      ∃ c : Commit, c.For p ∧ added = [.stored i c.newKey])
    (hresults : t'.HasResult → ∃ key, added = [.used i key] ∧ t'.ResultOf crate key) :
    KeyLog crate ⟨sh', d.tasks.set i t'⟩ (log ++ added) := by
  -- a task that has not been answered has left nothing in the log yet
  have hnot (k : KeyHandle) : .stored i k ∉ log ∧ .used i k ∉ log := by
    constructor
    · intro hk
      obtain ⟨p, hp⟩ := h.stored i k hk
      rw [ht] at hp
      cases hp
      exact hopen _ rfl
    · intro hk
      obtain ⟨u, response, hu, hpc⟩ := h.used i k hk
      rw [ht] at hu
      cases hu
      exact hopen _ hpc
  have hself : (d.tasks.set i t')[i]? = some t' := by rw [Pool.getElem?_set ht, if_pos rfl]
  have hother {j : Nat} (hj : j ≠ i) : (d.tasks.set i t')[j]? = d.tasks[j]? := by
    rw [Pool.getElem?_set ht, if_neg hj]
  refine ⟨hactive, fun j key hj => ?_, fun j key hj => ?_, fun j p hp => ?_, fun j u hu hres => ?_⟩
  · rcases List.mem_append.mp hj with hj | hj
    · obtain ⟨p, hp⟩ := h.stored j key hj
      have hji : j ≠ i := fun hji => (hnot key).1 (hji ▸ hj)
      exact ⟨p, (hother hji).trans hp⟩
    · obtain ⟨rfl, p, hp⟩ := hstored j key hj
      exact ⟨p, hself.trans (congrArg some hp)⟩
  · rcases List.mem_append.mp hj with hj | hj
    · obtain ⟨u, response, hu, hpc⟩ := h.used j key hj
      have hji : j ≠ i := fun hji => (hnot key).2 (hji ▸ hj)
      exact ⟨u, response, (hother hji).trans hu, hpc⟩
    · obtain ⟨rfl, response, hpc⟩ := hused j key hj
      exact ⟨t', response, hself, hpc⟩
  · by_cases hji : j = i
    · subst hji
      rw [hself] at hp
      obtain ⟨c, hfor, rfl⟩ := hrotated p (Option.some.inj hp)
      exact ⟨c, log, [], hfor, rfl, fun k => ⟨(hnot k).1, List.not_mem_nil⟩⟩
    · obtain ⟨c, before, after, hfor, honce⟩ := h.rotated j p ((hother hji).symm.trans hp)
      exact ⟨c, before, after ++ added, hfor, honce.append fun k hk => hji (hstored j k hk).1⟩
  · by_cases hji : j = i
    · subst hji
      rw [hself] at hu
      cases hu
      obtain ⟨key, rfl, hresult⟩ := hresults hres
      refine ⟨key, List.mem_append_right _ List.mem_cons_self, fun key' hkey' => ?_, hresult⟩
      rcases List.mem_append.mp hkey' with hkey' | hkey'
      · exact absurd hkey' (hnot key').2
      · cases List.mem_singleton.mp hkey'
        rfl
    · exact (h.results j u ((hother hji).symm.trans hu) hres).append fun k hk =>
        hji (hused j k hk).1

end KeyLog

theorem Move.not_done (h : Move crate i sh t sh' t') (response : Response) :
    t.pc ≠ .done response := by
  intro hpc
  cases h with
  | status hmove =>
    cases hpc
    cases hmove
  | _ => cases hpc

/-- A step of the daemon and what it adds to the history. -/
theorem keyStep_cases (h : KeyStep crate (d, log) a (d', log')) :
    (∃ req, d' = ⟨d.shared, d.tasks ++ [⟨req, .received⟩]⟩ ∧ log' = log) ∨
    ∃ i t sh' t', d.tasks[i]? = some t ∧ Move crate i d.shared t sh' t' ∧
      d' = ⟨sh', d.tasks.set i t'⟩ ∧ log' = log ++ t.keyEvents i := by
  obtain ⟨hstep, rfl⟩ := h
  obtain ⟨req, rfl, rfl⟩ | ⟨i, elapsed, t, sh', t', rfl, ht, hmove, rfl⟩ := daemon_cases hstep
  · exact .inl ⟨req, rfl, List.append_nil log⟩
  · have hevents : keyEvents d (.run i elapsed) = t.keyEvents i := by simp only [keyEvents, ht]
    exact .inr ⟨i, t, sh', t', ht, hmove, rfl, congrArg (log ++ ·) hevents⟩

theorem keyLog_step (h : KeyLog crate d log) (hfor : ∀ t ∈ d.tasks, t.CommitFor crate)
    (hstep : KeyStep crate (d, log) a (d', log')) : KeyLog crate d' log' := by
  obtain ⟨req, rfl, rfl⟩ | ⟨i, t, sh', t', ht, hmove, rfl, rfl⟩ := keyStep_cases hstep
  · exact h.spawn req
  · obtain ⟨hnone, hquiet⟩ | ⟨p, c, rfl, rfl, hkey⟩ | ⟨key, hused, -, huse⟩ := hmove.key_cases
    · rw [hnone]
      refine h.run_step ht hmove.not_done ?_ (by simp) (by simp) ?_ ?_
      · rw [List.append_nil, hquiet.activeKey_eq, h.active]
      · exact fun p hp => absurd ⟨p, hp⟩ hquiet.not_rotatedOk
      · exact fun hres => absurd hres hquiet.not_hasResult
    · obtain ⟨p', hp', haccepted⟩ := hfor _ (List.mem_of_getElem? ht) c rfl
      cases hp'
      refine h.run_step ht hmove.not_done ?_ ?_ ?_ ?_ ?_
      · rw [lastStored_append]
        exact hkey
      · intro j key hj
        cases List.mem_singleton.mp hj
        exact ⟨rfl, p, rfl⟩
      · intro j key hj
        cases List.mem_singleton.mp hj
      · intro p' hp'
        cases hp'
        exact ⟨c, haccepted.commit_for, rfl⟩
      · rintro (⟨q, frame, hq⟩ | ⟨q, plaintext, hq⟩) <;> cases hq
    · rw [hused]
      refine h.run_step ht hmove.not_done ?_ ?_ ?_ ?_ ?_
      · rw [lastStored_append, huse.activeKey_eq, h.active]
        rfl
      · intro j k hj
        cases List.mem_singleton.mp hj
      · intro j k hj
        cases List.mem_singleton.mp hj
        exact ⟨rfl, huse.done⟩
      · exact fun p hp => absurd ⟨p, hp⟩ huse.not_rotatedOk
      · exact fun _ => ⟨key, rfl, huse.resultOf⟩

theorem run_keyLog {s₀ : CryptodState} (hnew : CryptodState.new = .ok s₀)
    {acts : List (Pool.Act Request UInt64)} {q : Daemon × List KeyEvent}
    (hrun : Run (KeyStep crate) (idle s₀, []) acts q) : KeyLog crate q.1 q.2 := by
  induction hrun with
  | nil => exact keyLog_idle hnew
  | snoc run hlast ih => exact keyLog_step ih (run_commitFor run.unrecord) hlast

/-! ## After a store -/

/-- Behind `initial`, whose last event is the store of `first`, every key that a task started after
the first `n` holds or has used was stored by that store or a later one. -/
structure FreshFrom (n : Nat) (initial : List KeyEvent) (first : KeyHandle) (d : Daemon)
    (log : List KeyEvent) : Prop where
  grown : ∃ later, log = initial ++ later
  held : ∀ i t key, n ≤ i → d.tasks[i]? = some t → t.Holds key →
    ∃ later, log = initial ++ later ∧ Since first later key
  used : ∀ i key early rest, n ≤ i → log = early ++ .used i key :: rest →
    ∃ later, early = initial ++ later ∧ Since first later key

/-- An entry of a log is the last one, or one of those before it. -/
theorem last_or_before {early rest : List KeyEvent} {e last : KeyEvent}
    (h : log ++ [last] = early ++ e :: rest) :
    (log = early ∧ last = e) ∨ ∃ rest', log = early ++ e :: rest' := by
  rcases List.eq_nil_or_concat rest with rfl | ⟨rest', e', rfl⟩
  · obtain ⟨hlog, hlast⟩ := List.append_inj' h rfl
    exact .inl ⟨hlog, List.singleton_inj.mp hlast⟩
  · rw [List.concat_eq_append, ← List.cons_append, ← List.append_assoc] at h
    exact .inr ⟨rest', (List.append_inj' h rfl).1⟩

theorem FreshFrom.append {n : Nat} {initial added : List KeyEvent} {first : KeyHandle}
    {tasks : List Task} (h : FreshFrom n initial first d log)
    (hheld : ∀ i t key, n ≤ i → tasks[i]? = some t → t.Holds key →
      d.tasks[i]? = some t ∨ ∃ later, log = initial ++ later ∧ Since first later key)
    (hadded : added = [] ∨ (∃ i key, added = [.stored i key]) ∨
      ∃ i key t, added = [.used i key] ∧ d.tasks[i]? = some t ∧ t.Holds key) :
    FreshFrom n initial first ⟨sh', tasks⟩ (log ++ added) := by
  obtain ⟨later, hlater⟩ := h.grown
  refine ⟨⟨later ++ added, by rw [hlater, List.append_assoc]⟩, fun i t key hi ht hkey => ?_,
    fun i key early rest hi heq => ?_⟩
  · have hsince : ∃ later, log = initial ++ later ∧ Since first later key := by
      obtain hold | hnew := hheld i t key hi ht hkey
      · exact h.held i t key hi hold hkey
      · exact hnew
    obtain ⟨later', hlater', hsince⟩ := hsince
    exact ⟨later' ++ added, by rw [hlater', List.append_assoc], hsince.mono added⟩
  · -- the use is an old one, or the one just added
    obtain rfl | ⟨j, k, rfl⟩ | ⟨j, k, t, rfl, ht, hkey⟩ := hadded
    · exact h.used i key early rest hi (by rw [← heq, List.append_nil])
    · obtain ⟨-, hlast⟩ | ⟨rest', hbefore⟩ := last_or_before heq
      · cases hlast
      · exact h.used i key early rest' hi hbefore
    · obtain ⟨rfl, hlast⟩ | ⟨rest', hbefore⟩ := last_or_before heq
      · cases hlast
        exact h.held i t key hi ht hkey
      · exact h.used i key early rest' hi hbefore

theorem freshFrom_step {n r : Nat} {before : List KeyEvent} {first : KeyHandle}
    (h : FreshFrom n (before ++ [.stored r first]) first d log) (hlog : KeyLog crate d log)
    (hstep : KeyStep crate (d, log) a (d', log')) :
    FreshFrom n (before ++ [.stored r first]) first d' log' := by
  obtain ⟨req, rfl, rfl⟩ | ⟨i, t, sh', t', ht, hmove, rfl, rfl⟩ := keyStep_cases hstep
  · rw [← List.append_nil log']
    refine h.append (fun j u key hj hu hkey => .inl ?_) (.inl rfl)
    rw [List.getElem?_append] at hu
    split at hu
    · exact hu
    · rw [List.mem_singleton.mp (List.mem_of_getElem? hu)] at hkey
      rcases hkey with hkey | hkey <;> cases hkey
  · have hold {j : Nat} {u : Task} {key : KeyHandle}
        (hself : t'.Holds key → ∃ later, log = before ++ [.stored r first] ++ later ∧
          Since first later key)
        (hu : (d.tasks.set i t')[j]? = some u) (hkey : u.Holds key) :
        d.tasks[j]? = some u ∨ ∃ later, log = before ++ [.stored r first] ++ later ∧
          Since first later key := by
      rw [Pool.getElem?_set ht] at hu
      split at hu
      · cases hu
        exact .inr (hself hkey)
      · exact .inl hu
    obtain ⟨hnone, hquiet⟩ | ⟨p, c, rfl, rfl, -⟩ | ⟨key, hused, hkey, huse⟩ := hmove.key_cases
    · refine h.append (fun j u key _ hu hkey => hold (fun hself => ?_) hu hkey) (.inl hnone)
      -- a copy is made of the last store
      obtain ⟨later, hlater⟩ := h.grown
      refine ⟨later, hlater, since_lastStored ?_⟩
      have hactive := (hquiet.copied key hself).symm.trans hlog.active
      rw [hlater, lastStored_append, lastStored_append] at hactive
      exact hactive.symm
    · refine h.append (fun j u key _ hu hkey => hold (fun hself => ?_) hu hkey)
        (.inr (.inl ⟨i, c.newKey, rfl⟩))
      rcases hself with hself | hself <;> cases hself
    · refine h.append (fun j u key' _ hu hkey' => hold (fun hself => ?_) hu hkey')
        (.inr (.inr ⟨i, key, t, hused, ht, hkey⟩))
      obtain ⟨response, hdone⟩ := huse.done
      rcases hself with hself | hself <;> (rw [hdone] at hself; cases hself)

theorem run_freshFrom {n r : Nat} {before : List KeyEvent} {first : KeyHandle}
    {acts acts' : List (Pool.Act Request UInt64)} {s₀ : CryptodState}
    {q q' : Daemon × List KeyEvent} (hnew : CryptodState.new = .ok s₀)
    (hrun : Run (KeyStep crate) (idle s₀, []) acts q)
    (h : FreshFrom n (before ++ [.stored r first]) first q.1 q.2)
    (hrun' : Run (KeyStep crate) q acts' q') :
    FreshFrom n (before ++ [.stored r first]) first q'.1 q'.2 := by
  induction hrun' with
  | nil => exact h
  | snoc run hlast ih => exact freshFrom_step ih (run_keyLog hnew (hrun.append run)) hlast

/-- A rotation was answered `Ok` before a task is started: its one store is in the history, every
key the task uses was stored by it or after it, and a frame or plaintext the task is answered with
is what sealing or opening under the one key it used gives. -/
theorem keys_fresh_after_ack (crate : Gcm.Crate) (s₀ : CryptodState)
    (hnew : CryptodState.new = .ok s₀) (acts : List (Pool.Act Request UInt64)) (d : Daemon)
    (hrun : Run (Pool.Step (daemon crate)) (idle s₀) acts d) (r : Nat) (p : RotateKeyParams)
    (hacked : d.tasks[r]? = some ⟨.rotateKey p, .done .ok⟩)
    (acts' : List (Pool.Act Request UInt64)) (d' : Daemon)
    (hrun' : Run (Pool.Step (daemon crate)) d acts' d') :
    ∃ log log', Run (KeyStep crate) (idle s₀, []) acts (d, log) ∧
      Run (KeyStep crate) (d, log) acts' (d', log') ∧
      ∃ (c : Commit) (before after : List KeyEvent), c.For p ∧
        StoredOnce log before after r c.newKey ∧
        ∀ i t, d.tasks.length ≤ i → d'.tasks[i]? = some t →
          (∀ key early rest, log' = early ++ .used i key :: rest →
            ∃ later, early = before ++ [.stored r c.newKey] ++ later ∧
              Since c.newKey later key) ∧
          (t.HasResult → UsedOnce crate log' i t) := by
  obtain ⟨log, hlog⟩ := hrun.record keyEvents []
  obtain ⟨added, hadded⟩ := hrun'.record keyEvents log
  have hkeys : KeyLog crate d log := run_keyLog hnew hlog
  have hkeys' : KeyLog crate d' (log ++ added) := run_keyLog hnew (hlog.append hadded)
  obtain ⟨c, before, after, hfor, honce⟩ := hkeys.rotated r p hacked
  have hinitial : log = before ++ [.stored r c.newKey] ++ after := by
    rw [honce.1, List.append_assoc]
    rfl
  have hstart : FreshFrom d.tasks.length (before ++ [.stored r c.newKey]) c.newKey d log := by
    refine ⟨⟨after, hinitial⟩, fun i t key hi ht => ?_, fun i key early rest hi heq => ?_⟩
    · exact absurd (List.getElem?_eq_some_iff.mp ht).1 (Nat.not_lt.mpr hi)
    · obtain ⟨t, response, ht, -⟩ := hkeys.used i key
        (heq ▸ List.mem_append_right _ List.mem_cons_self)
      exact absurd (List.getElem?_eq_some_iff.mp ht).1 (Nat.not_lt.mpr hi)
  have hfresh := run_freshFrom hnew hlog hstart hadded
  exact ⟨log, log ++ added, hlog, hadded, c, before, after, hfor, honce, fun i t hi ht =>
    ⟨fun key early rest heq => hfresh.used i key early rest hi heq, hkeys'.results i t ht⟩⟩

namespace Kat

/-- The rotation to key 7 is answered, one to key 9 has stored its provider, and an encryption
received now uses key 7. -/
def afterAckActs : List (Pool.Act Request UInt64) :=
  [.spawn (.encrypt encryptText), .run 2 0, .run 2 0, .run 1 0, .run 1 0, .run 1 0]

def acked : Daemon where
  shared := ⟨rotated, none⟩
  tasks := [⟨.rotateKey rotate256, .done .ok⟩,
    ⟨.rotateKey rotate128, .storeProvider ⟨provider128, .aes128Gcm, Gcm.Kat.handle128⟩⟩]

def afterAck : Daemon where
  shared := ⟨⟨provider128, .aes128Gcm, some Gcm.Kat.handle128, 1, 0, 0⟩, none⟩
  tasks := [⟨.rotateKey rotate256, .done .ok⟩, ⟨.rotateKey rotate128, .done .ok⟩,
    ⟨.encrypt encryptText, .done (.ciphertext Gcm.Kat.frame256)⟩]

theorem acked_run : Run (Pool.Step (daemon Gcm.kat)) (idle fresh)
    [.spawn (.rotateKey rotate256), .run 0 0, .run 0 0, .run 0 0, .run 0 0,
      .spawn (.rotateKey rotate128), .run 1 0] acked :=
  Pool.run_of_exec (by rfl)

theorem afterAck_run : Run (Pool.Step (daemon Gcm.kat)) acked afterAckActs afterAck :=
  Pool.run_of_exec (by rfl)

end Kat

theorem keys_fresh_after_ack_kat : ∃ log, UsedOnce Gcm.kat log 2
    ⟨.encrypt Kat.encryptText, .done (.ciphertext Gcm.Kat.frame256)⟩ := by
  obtain ⟨log, log', -, -, c, before, after, -, -, hlater⟩ := keys_fresh_after_ack Gcm.kat
    Kat.fresh rfl _ Kat.acked Kat.acked_run 0 Kat.rotate256 rfl Kat.afterAckActs Kat.afterAck
    Kat.afterAck_run
  exact ⟨log', (hlater 2 _ (by decide) rfl).2 (.inl ⟨_, _, rfl⟩)⟩

end Cryptod

end SmartSfp
