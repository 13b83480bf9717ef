import SmartSfp.Node.Handlers

/-!
# Flight — one rotation in flight

While the rotation of one HTTP request is the only one in flight, how far its handler has come
decides what the daemon holds: the state of before the request with the stores made so far.
-/

namespace SmartSfp

namespace Node

open Lib Ipc Cryptod Httpapi World

variable {pf : Platform} {w w' : World} {a : Act} {s₀ before now now' : CryptodState}
  {log log' : List KeyEvent} {h i j j' k : Nat} {p : Post} {c : Commit}

/-! ## The HTTP requests -/

/-- The call and the answer of a request are those of its handler. -/
def Post.Agrees (pf : Platform) (ipc : System) (p : Post) : Prop :=
  match p.call with
  | none => ∀ answer, p.answer = some answer →
    beforeRotateKey pf.decodeBody p.method p.body = .error answer
  | some i => ∃ keyId algo material pc,
    beforeRotateKey pf.decodeBody p.method p.body = .ok (keyId, algo, material) ∧
    ipc.calls[i]? = some ⟨.request (.rotateKey keyId algo (some material)), pc⟩ ∧
    ∀ answer, p.answer = some answer →
      ∃ line r, pc = .done line r ∧ answer = afterRotateKey pf.errorText r

theorem Post.Agrees.step {ipc ipc' : System} {x : Ipc.Act} (hp : p.Agrees pf ipc)
    (hstep : System.Step pf.go pf.serde ipc x ipc') : p.Agrees pf ipc' := by
  unfold Post.Agrees at *
  cases hcall : p.call with
  | none =>
    rw [hcall] at hp
    exact hp
  | some i =>
    rw [hcall] at hp
    obtain ⟨keyId, algo, material, pc, hbefore, ht, hanswer⟩ := hp
    obtain ⟨⟨call, pc'⟩, ht', hcall', hdone⟩ := System.calls_step hstep ht
    cases hcall'
    refine ⟨keyId, algo, material, pc', hbefore, ht', fun answer ha => ?_⟩
    obtain ⟨line, r, hpc, hr⟩ := hanswer answer ha
    cases hdone line r hpc
    exact ⟨line, r, hpc, hr⟩

theorem Move.agrees (hposts : ∀ q ∈ w.posts, q.Agrees pf w.ipc) (hmove : Move pf w a w') :
    ∀ q ∈ w'.posts, q.Agrees pf w'.ipc := by
  have hkeep (p : Post) (hp : p ∈ w.posts) : p.Agrees pf w'.ipc := by
    obtain hsame | ⟨x, hstep⟩ := hmove.ipc
    · exact hsame ▸ hposts p hp
    · exact (hposts p hp).step hstep
  cases hmove with
  | posted =>
    intro p hp
    rcases List.mem_append.mp hp with hp | hp
    · exact hkeep p hp
    · rw [List.mem_singleton.mp hp]
      intro answer hanswer
      cases hanswer
  | @refused h q answer hq hcall hanswer hbefore =>
    intro p hp
    rcases List.mem_or_eq_of_mem_set hp with hp | rfl
    · exact hkeep p hp
    · simp only [Post.Agrees, hcall]
      intro answer' hanswer'
      cases hanswer'
      exact hbefore
  | @called h q keyId algo material hq hcall hanswer hbefore =>
    intro p hp
    rcases List.mem_or_eq_of_mem_set hp with hp | rfl
    · exact hkeep p hp
    · refine ⟨keyId, algo, material, .waiting, hbefore, List.getElem?_concat_length .., ?_⟩
      intro answer hanswer'
      rw [hanswer] at hanswer'
      cases hanswer'
  | @replied h i q call line r hq hcall hanswer ht =>
    intro p hp
    rcases List.mem_or_eq_of_mem_set hp with hp | rfl
    · exact hkeep p hp
    · have hagrees := hkeep q (List.mem_of_getElem? hq)
      simp only [Post.Agrees, hcall] at hagrees ⊢
      obtain ⟨keyId, algo, material, pc, hbefore, ht', -⟩ := hagrees
      refine ⟨keyId, algo, material, pc, hbefore, ht', fun answer hanswer' => ?_⟩
      cases hanswer'
      rw [ht] at ht'
      cases ht'
      exact ⟨line, r, rfl, rfl⟩
  | _ => exact hkeep

theorem run_agrees {acts : List Act} (hrun : Run (Step pf) (new s₀) acts w) :
    ∀ p ∈ w.posts, p.Agrees pf w.ipc :=
  hrun.invariant (fun _ hp => absurd hp List.not_mem_nil)
    fun _ _ _ hposts hstep => (move_of_step hstep).agrees hposts

/-! ## The handler of a request -/

/-- The call of the `h`-th HTTP request. -/
def World.callOf (w : World) (h : Nat) : Option Nat := w.posts[h]?.bind Post.call

/-- Task `j` handles a line of the call of the `h`-th HTTP request. -/
def Own (w : World) (h j : Nat) : Prop :=
  ∃ i, w.callOf h = some i ∧ ∃ hd ∈ w.handlings, hd.task = j ∧ mentions i hd.line = true

/-- The handler of a rotation that is not answered. -/
def rotating (t : Task) : Bool :=
  match t.request, t.pc with
  | .rotateKey _, .done _ => false
  | .rotateKey _, _ => true
  | _, _ => false

/-- Every rotation in flight in the daemon is that of the `h`-th HTTP request. -/
def Alone (h : Nat) (w : World) (_ : Act) : Prop :=
  ∀ j t, w.daemon.tasks[j]? = some t → rotating t = true → Own w h j

instance (w : World) (h j : Nat) : Decidable (Own w h j) :=
  decidable_of_iff (∃ i ∈ w.callOf h, ∃ hd ∈ w.handlings, hd.task = j ∧ mentions i hd.line = true)
    Iff.rfl

instance (h : Nat) (w : World) (a : Act) : Decidable (Alone h w a) :=
  decidable_of_iff (∀ j, (hj : j < w.daemon.tasks.length) →
      rotating w.daemon.tasks[j] = true → Own w h j) <| by
    constructor
    · intro hall j t ht
      obtain ⟨hj, rfl⟩ := List.getElem?_eq_some_iff.mp ht
      exact hall j hj
    · intro halone j hj
      exact halone j _ (List.getElem?_eq_getElem hj)

theorem eq_of_countP_le_one {α : Type} {f : α → Bool} {l : List α} {a b : α}
    (hcount : l.countP f ≤ 1) (ha : a ∈ l) (hb : b ∈ l) (hfa : f a = true) (hfb : f b = true) :
    a = b := by
  rw [List.countP_eq_length_filter] at hcount
  have ha' := List.mem_filter.mpr ⟨ha, hfa⟩
  have hb' := List.mem_filter.mpr ⟨hb, hfb⟩
  generalize l.filter f = l' at *
  cases l' with
  | nil => cases ha'
  | cons x xs =>
    have hxs : xs = [] := List.length_eq_zero_iff.mp (by rw [List.length_cons] at hcount; omega)
    subst hxs
    rw [List.mem_singleton.mp ha', List.mem_singleton.mp hb']

/-- A line of a call is handled once. -/
theorem handling_unique {acts : List Act} (hrun : Run (Step pf) (new s₀) acts w) {hd hd' : Handling}
    (hhd : hd ∈ w.handlings) (hhd' : hd' ∈ w.handlings) (hi : mentions i hd.line = true)
    (hi' : mentions i hd'.line = true) : hd = hd' := by
  obtain ⟨xs, hipc⟩ := run_ipc hrun
  have hone : w.ipc.executions i ≤ 1 :=
    Nat.le_trans (Nat.le_add_left _ _) (System.run_tokens hipc i)
  rw [(run_linked hrun).executions] at hone
  exact eq_of_countP_le_one hone hhd hhd' hi hi'

theorem own_unique {acts : List Act} (hrun : Run (Step pf) (new s₀) acts w) (hj : Own w h j)
    (hj' : Own w h j') : j = j' := by
  obtain ⟨i, hcall, hd, hhd, rfl, hi⟩ := hj
  obtain ⟨i', hcall', hd', hhd', rfl, hi'⟩ := hj'
  rw [hcall] at hcall'
  cases hcall'
  rw [handling_unique hrun hhd hhd' hi hi']

theorem Own.lt_length {acts : List Act} (hrun : Run (Step pf) (new s₀) acts w) (hj : Own w h j) :
    j < w.daemon.tasks.length := by
  obtain ⟨i, -, hd, hhd, rfl, -⟩ := hj
  obtain ⟨t, ht, -⟩ := (run_linked hrun).records hd hhd
  exact (List.getElem?_eq_some_iff.mp ht).1

/-- No line was taken up of a call that was not made. -/
theorem lt_calls_of_mentions {acts : List Act} (hrun : Run (Step pf) (new s₀) acts w)
    {hd : Handling} (hhd : hd ∈ w.handlings) (hi : mentions i hd.line = true) :
    i < w.ipc.calls.length := by
  obtain ⟨xs, hipc⟩ := run_ipc hrun
  by_contra hlt
  have htokens := System.run_tokens hipc i
  have hunspent : System.unspent pf.go w.ipc i = 1 := by
    simp only [System.unspent, List.getElem?_eq_none (Nat.le_of_not_lt hlt)]
  have hpos : 0 < w.handlings.countP fun hd => mentions i hd.line :=
    List.countP_pos_iff.mpr ⟨hd, hhd, hi⟩
  simp only [System.tokens, hunspent, (run_linked hrun).executions] at htokens
  omega

theorem own_congr (hcall : w'.callOf h = w.callOf h) (hhandlings : w'.handlings = w.handlings) :
    Own w' h j ↔ Own w h j := by
  unfold Own
  rw [hcall, hhandlings]

theorem callOf_posted (w : World) (method : String) (body : Octets) (h : Nat) :
    (w.posted method body).callOf h = w.callOf h := by
  unfold World.callOf World.posted
  rw [List.getElem?_append]
  split
  · rfl
  · rename_i hlen
    rw [List.getElem?_eq_none (Nat.le_of_not_lt hlen)]
    cases h - w.posts.length with
    | zero => rfl
    | succ n => rfl

theorem getElem?_posts_set (hp : w.posts[k]? = some p) (p' : Post) (h : Nat) :
    (w.posts.set k p')[h]? = if h = k then some p' else w.posts[h]? :=
  Pool.getElem?_set (p := ⟨(), w.posts⟩) hp h

theorem callOf_posts_set (hp : w.posts[k]? = some p) {p' : Post} (hcall : p'.call = p.call)
    (h : Nat) : ({ w with posts := w.posts.set k p' } : World).callOf h = w.callOf h := by
  unfold World.callOf
  rw [getElem?_posts_set hp]
  split
  · rename_i hhk
    rw [hhk, hp]
    exact hcall
  · rfl

/-! ## The stores of a rotation -/

/-- The key events of a step. -/
def keyEventsOf (w : World) : Act → List KeyEvent
  | .task j elapsed => keyEvents w.daemon (.run j elapsed)
  | _ => []

/-- What the daemon holds when the handler of the rotation `q`, task `j`, has come to `pc`. -/
def Progress (before now : CryptodState) (log : List KeyEvent) (j : Nat) (q : RotateKeyParams) :
    Pc → Prop
  | .storeProvider c => c.For q ∧ SameKey before now
  | .storeAlgo c => c.For q ∧ SameKey { before with provider := c.newProvider } now
  | .storeKey c =>
    c.For q ∧ SameKey { before with provider := c.newProvider, activeAlgo := c.newAlgo } now
  | .done .ok => ∃ c, c.For q ∧ SameKey (before.commit c) now ∧ .stored j c.newKey ∈ log
  | _ => SameKey before now

/-- The rotation of the `h`-th HTTP request has come from `before` to where it is, alone. -/
structure Flight (h : Nat) (before : CryptodState) (w : World) (log : List KeyEvent) : Prop where
  unbegun : (∀ j q pc, Own w h j → w.daemon.tasks[j]? ≠ some ⟨.rotateKey q, pc⟩) →
    SameKey before w.daemon.shared.state
  progress : ∀ j q pc, Own w h j → w.daemon.tasks[j]? = some ⟨.rotateKey q, pc⟩ →
    Progress before w.daemon.shared.state log j q pc

theorem Progress.mono {q : RotateKeyParams} {pc : Pc} (hp : Progress before now log j q pc)
    (hsame : SameKey now now') (more : List KeyEvent) :
    Progress before now' (log ++ more) j q pc := by
  cases pc with
  | storeProvider c => exact ⟨hp.1, hp.2.trans hsame⟩
  | storeAlgo c => exact ⟨hp.1, hp.2.trans hsame⟩
  | storeKey c => exact ⟨hp.1, hp.2.trans hsame⟩
  | done response =>
    cases response with
    | ok =>
      obtain ⟨c, hfor, hcommit, hstored⟩ := hp
      exact ⟨c, hfor, hcommit.trans hsame, List.mem_append_left _ hstored⟩
    | _ => exact SameKey.trans hp hsame
  | _ => exact SameKey.trans hp hsame

/-- A step of the rotation's handler makes the store that is next. -/
theorem Progress.move {crate : Gcm.Crate} {sh sh' : Shared} {q : RotateKeyParams} {pc : Pc}
    {t' : Task} (hp : Progress before sh.state log j q pc)
    (hmove : Cryptod.Move crate j sh ⟨.rotateKey q, pc⟩ sh' t') :
    Progress before sh'.state (log ++ Task.keyEvents j ⟨.rotateKey q, pc⟩) j q t'.pc := by
  cases hmove with
  | refused => exact hp
  | prepared haccepted => exact ⟨haccepted.commit_for, hp⟩
  | storedProvider => exact ⟨hp.1, rfl, hp.2.2.1, hp.2.2.2⟩
  | storedAlgo => exact ⟨hp.1, hp.2.1, rfl, hp.2.2.2⟩
  | @storedKey _ c hguard =>
    exact ⟨c, hp.1, ⟨hp.2.1, hp.2.2.1, rfl⟩, List.mem_append_right _ List.mem_cons_self⟩

/-- Only rotations store what `SameKey` compares. -/
theorem sameKey_of_move {crate : Gcm.Crate} {sh sh' : Shared} {t t' : Task}
    (hmove : Cryptod.Move crate j sh t sh' t') (hnot : ∀ q, t.request ≠ .rotateKey q) :
    SameKey sh.state sh'.state := by
  cases hmove with
  | status hmove =>
    rw [hmove.state_eq]
    exact .refl _
  | refused => exact absurd rfl (hnot _)
  | prepared haccepted => exact absurd rfl (hnot _)
  | storedProvider => exact absurd rfl (hnot _)
  | storedAlgo => exact absurd rfl (hnot _)
  | storedKey hguard => exact absurd rfl (hnot _)
  | _ => exact ⟨rfl, rfl, rfl⟩

/-- Nothing of the rotation changes. -/
theorem Flight.keep (hf : Flight h before w log) (hown : ∀ j, Own w' h j ↔ Own w h j)
    (htasks : ∀ j q pc, Own w h j → (w'.daemon.tasks[j]? = some ⟨.rotateKey q, pc⟩ ↔
      w.daemon.tasks[j]? = some ⟨.rotateKey q, pc⟩))
    (hsame : SameKey w.daemon.shared.state w'.daemon.shared.state) (more : List KeyEvent) :
    Flight h before w' (log ++ more) where
  unbegun hnone := by
    refine SameKey.trans (hf.unbegun fun j q pc hj ht => ?_) hsame
    exact hnone j q pc ((hown j).mpr hj) ((htasks j q pc hj).mpr ht)
  progress j q pc hj ht := by
    have hj' := (hown j).mp hj
    exact (hf.progress j q pc hj' ((htasks j q pc hj').mp ht)).mono hsame more

/-- A new handler, of no line of the rotation. -/
theorem Flight.spawn {acts : List Act} (hrun : Run (Step pf) (new s₀) acts w)
    (hf : Flight h before w log) (request : Request)
    (hdaemon : w'.daemon = (w.spawn request).daemon) (hown : ∀ j, Own w' h j ↔ Own w h j) :
    Flight h before w' log := by
  rw [← List.append_nil log]
  refine hf.keep hown (fun j q pc hj => ?_) ?_ []
  · rw [hdaemon, World.spawn, List.getElem?_append_left (hj.lt_length hrun)]
  · rw [hdaemon]
    exact .refl _

theorem Flight.tookUp {acts acts' : List Act} {line : List Tagged} {request : Request}
    {ipc : System} (hrun : Run (Step pf) (new s₀) acts w)
    (hrun' : Run (Step pf) (new s₀) acts' { w.startHandler k line request with ipc := ipc })
    (hf : Flight h before w log) :
    Flight h before { w.startHandler k line request with ipc := ipc } log := by
  have hold {j : Nat} (hj : Own w h j) :
      Own { w.startHandler k line request with ipc := ipc } h j := by
    obtain ⟨i, hcall, hd, hhd, hj, hi⟩ := hj
    exact ⟨i, hcall, hd, List.mem_cons_of_mem _ hhd, hj, hi⟩
  by_cases hmine : ∃ i, w.callOf h = some i ∧ mentions i line = true
  · -- the handler is that of the rotation, and the only one there will be
    obtain ⟨i, hcall, hi⟩ := hmine
    have hnew : Own { w.startHandler k line request with ipc := ipc } h w.daemon.tasks.length :=
      ⟨i, hcall, ⟨k, w.daemon.tasks.length, line⟩, List.mem_cons_self, rfl, hi⟩
    have hsame : SameKey before w.daemon.shared.state := by
      refine hf.unbegun fun j q pc hj _ => ?_
      have heq := own_unique hrun' (hold hj) hnew
      exact Nat.lt_irrefl _ (heq ▸ hj.lt_length hrun)
    refine ⟨fun _ => hsame, fun j q pc hj ht => ?_⟩
    cases own_unique hrun' hj hnew
    have hlast : (w.daemon.tasks ++ [⟨request, .received⟩])[w.daemon.tasks.length]? =
        some ⟨request, .received⟩ := List.getElem?_concat_length ..
    cases hlast.symm.trans ht
    exact hsame
  · refine hf.spawn hrun request rfl fun j => ⟨?_, hold⟩
    rintro ⟨i, hcall, hd, hhd, hj, hi⟩
    rcases List.mem_cons.mp hhd with rfl | hhd
    · exact absurd ⟨i, hcall, hi⟩ hmine
    · exact ⟨i, hcall, hd, hhd, hj, hi⟩

theorem Flight.ran {acts : List Act} {elapsed : UInt64} {d : Daemon}
    (hrun : Run (Step pf) (new s₀) acts w)
    (halone : Alone h w (.task j elapsed)) (hf : Flight h before w log)
    (hstep : Pool.Step (Cryptod.daemon pf.crate) w.daemon (.run j elapsed) d) :
    Flight h before { w with daemon := d } (log ++ keyEventsOf w (.task j elapsed)) := by
  obtain ⟨t, sh', t', ht, hmove, rfl⟩ := run_cases hstep
  have hown (i : Nat) : Own { w with daemon := ⟨sh', w.daemon.tasks.set j t'⟩ } h i ↔ Own w h i :=
    own_congr rfl rfl
  have htask (i : Nat) : (w.daemon.tasks.set j t')[i]? =
      if i = j then some t' else w.daemon.tasks[i]? := Pool.getElem?_set ht i
  by_cases hrotation : ∃ q, t.request = .rotateKey q
  · -- a rotation that takes a step is in flight, so it is the one of this request
    obtain ⟨q, hq⟩ := hrotation
    obtain ⟨request, pc⟩ := t
    cases hq
    have hj : Own w h j := by
      refine halone j _ ht ?_
      cases hmove <;> rfl
    have hevents : keyEventsOf w (.task j elapsed) = Task.keyEvents j ⟨.rotateKey q, pc⟩ := by
      simp only [keyEventsOf, keyEvents, ht]
    have hprogress := (hf.progress j q pc hj ht).move hmove
    obtain ⟨request', pc'⟩ := t'
    cases hmove.request_eq
    refine ⟨fun hnone => ?_, fun i q' pc'' hi hi' => ?_⟩
    · exact absurd ((htask j).trans (if_pos rfl)) (hnone j q pc' ((hown j).mpr hj))
    · -- no other task is of this request
      cases own_unique hrun ((hown i).mp hi) hj
      cases ((htask j).trans (if_pos rfl)).symm.trans hi'
      rw [hevents]
      exact hprogress
  · -- other handlers read, or store what `SameKey` does not look at
    have hnot (q : RotateKeyParams) : t.request ≠ .rotateKey q := fun hq => hrotation ⟨q, hq⟩
    refine hf.keep hown (fun i q pc _ => ?_) (sameKey_of_move hmove hnot) _
    show (w.daemon.tasks.set j t')[i]? = _ ↔ _
    rw [htask]
    split
    · rename_i hij
      subst hij
      rw [ht]
      constructor
      · intro heq
        cases heq
        exact absurd hmove.request_eq.symm (hnot q)
      · intro heq
        cases heq
        exact absurd rfl (hnot q)
    · exact Iff.rfl

theorem Flight.step {acts acts' : List Act} (hrun : Run (Step pf) (new s₀) acts w)
    (hrun' : Run (Step pf) (new s₀) acts' w') (halone : Alone h w a)
    (hf : Flight h before w log) (hmove : Move pf w a w') :
    Flight h before w' (log ++ keyEventsOf w a) := by
  have hkeep (hdaemon : w'.daemon = w.daemon) (hown : ∀ j, Own w' h j ↔ Own w h j) :
      Flight h before w' (log ++ keyEventsOf w a) := by
    refine hf.keep hown (fun j q pc _ => ?_) ?_ _
    · rw [hdaemon]
    · rw [hdaemon]
      exact .refl _
  cases hmove with
  | posted => exact hkeep rfl fun j => own_congr (callOf_posted w _ _ h) rfl
  | refused hp hcall hanswer hbefore =>
    exact hkeep rfl fun j => own_congr (callOf_posts_set hp (by rfl) h) rfl
  | replied hp hcall hanswer ht =>
    exact hkeep rfl fun j => own_congr (callOf_posts_set hp (by rfl) h) rfl
  | @called h' p keyId algo material hp hcall hanswer hbefore =>
    refine hkeep rfl fun j => ?_
    by_cases hh : h = h'
    · -- the call is new: no line of it was taken up
      subst hh
      constructor
      · rintro ⟨i, hi, hd, hhd, -, hmem⟩
        have hlen := lt_calls_of_mentions hrun hhd hmem
        simp only [World.callOf, getElem?_posts_set hp, if_pos, Option.bind_some] at hi
        cases hi
        exact absurd hlen (Nat.lt_irrefl _)
      · rintro ⟨i, hi, -⟩
        simp only [World.callOf, hp, Option.bind_some, hcall] at hi
        cases hi
    · refine own_congr ?_ rfl
      simp only [World.callOf, getElem?_posts_set hp, if_neg hh]
  | started => exact hkeep rfl fun j => own_congr rfl rfl
  | client hstep => exact hkeep rfl fun j => own_congr rfl rfl
  | tookUp hstep hwaiting =>
    show Flight h before _ (log ++ [])
    rw [List.append_nil]
    exact hf.tookUp hrun hrun'
  | served hstep hreceive hrespond => exact hkeep rfl fun j => own_congr rfl rfl
  | ran hstep => exact hf.ran hrun halone hstep
  | other =>
    show Flight h before _ (log ++ [])
    rw [List.append_nil]
    exact hf.spawn hrun _ rfl fun j => own_congr rfl rfl

/-! ## The flight of one request -/

/-- A request stays what it is. -/
theorem Move.post_kept (hmove : Move pf w a w') (hp : w.posts[h]? = some p) :
    ∃ p', w'.posts[h]? = some p' ∧ p'.method = p.method ∧ p'.body = p.body := by
  have hset {k : Nat} {q q' : Post} (hq : w.posts[k]? = some q) (hmethod : q'.method = q.method)
      (hbody : q'.body = q.body) : ∃ p', (w.posts.set k q')[h]? = some p' ∧
        p'.method = p.method ∧ p'.body = p.body := by
    rw [getElem?_posts_set hq]
    by_cases hhk : h = k
    · subst hhk
      rw [hq] at hp
      cases hp
      exact ⟨q', if_pos rfl, hmethod, hbody⟩
    · exact ⟨p, (if_neg hhk).trans hp, rfl, rfl⟩
  cases hmove with
  | posted => exact ⟨p, getElem?_of_initial (List.prefix_append _ _) hp, rfl, rfl⟩
  | refused hq hcall hanswer hbefore => exact hset hq rfl rfl
  | called hq hcall hanswer hbefore => exact hset hq rfl rfl
  | replied hq hcall hanswer ht => exact hset hq rfl rfl
  | _ => exact ⟨p, hp, rfl, rfl⟩

theorem flight_posted (w : World) (method : String) (body : Octets) :
    Flight w.posts.length w.daemon.shared.state (w.posted method body) [] where
  unbegun _ := .refl _
  progress j q pc hj := by
    obtain ⟨i, hi, -⟩ := hj
    rw [callOf_posted, World.callOf, List.getElem?_eq_none (Nat.le_refl _)] at hi
    cases hi

/-- From the arrival of a request on, as long as its rotation is the only one in flight. -/
theorem run_flight {acts₀ acts : List Act} {method : String} {body : Octets}
    {q : World × List KeyEvent} (hreach : Run (Step pf) (new s₀) acts₀ w)
    (hrun : Run (Recorded keyEventsOf (When (Alone w.posts.length) (Step pf)))
      (w.posted method body, []) acts q) :
    (∃ acts', Run (Step pf) (new s₀) acts' q.1) ∧
      (∃ p, q.1.posts[w.posts.length]? = some p ∧ p.method = method ∧ p.body = body) ∧
      Flight w.posts.length w.daemon.shared.state q.1 q.2 := by
  have harrived : Run (Step pf) (new s₀) (acts₀ ++ [.post method body]) (w.posted method body) :=
    hreach.snoc rfl
  induction hrun with
  | nil =>
    exact ⟨⟨_, harrived⟩, ⟨_, List.getElem?_concat_length .., rfl, rfl⟩,
      flight_posted w method body⟩
  | @snoc acts t u a run last ih =>
    obtain ⟨⟨acts', hacts'⟩, ⟨p, hp, hmethod, hbody⟩, hflight⟩ := ih
    obtain ⟨⟨halone, hstep⟩, hlog⟩ := last
    have hmove := move_of_step hstep
    have hacts'' := hacts'.snoc hstep
    obtain ⟨p', hp', hmethod', hbody'⟩ := hmove.post_kept hp
    refine ⟨⟨_, hacts''⟩, ⟨p', hp', hmethod'.trans hmethod, hbody'.trans hbody⟩, ?_⟩
    rw [hlog]
    exact hflight.step hacts' hacts'' halone hmove

/-! ## Running a schedule -/

/-- Execute a schedule as long as the rotation of the `h`-th request is alone. -/
def execAlone (pf : Platform) (h : Nat) :
    World × List KeyEvent → List Act → Option (World × List KeyEvent)
  | q, [] => some q
  | q, a :: as =>
    if Alone h q.1 a then
      (World.next pf q.1 a).bind fun w => execAlone pf h (w, q.2 ++ keyEventsOf q.1 a) as
    else none

theorem run_of_execAlone {q q' : World × List KeyEvent} {acts : List Act}
    (hexec : execAlone pf h q acts = some q') :
    Run (Recorded keyEventsOf (When (Alone h) (Step pf))) q acts q' := by
  induction acts generalizing q with
  | nil =>
    cases hexec
    exact .nil
  | cons a acts ih =>
    rw [execAlone] at hexec
    split at hexec
    · rename_i halone
      obtain ⟨w, hw, hacts⟩ := Option.bind_eq_some_iff.mp hexec
      have hstep : Recorded keyEventsOf (When (Alone h) (Step pf)) q a
          (w, q.2 ++ keyEventsOf q.1 a) := ⟨⟨halone, hw⟩, rfl⟩
      exact Run.cons hstep (ih hacts)
    · cases hexec

end Node

end SmartSfp
