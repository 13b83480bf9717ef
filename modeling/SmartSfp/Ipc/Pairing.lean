import SmartSfp.Ipc.Invariant

/-!
# Pairing — no request is handled twice

It is counted by tokens: a call comes with one, spends it on the connection it writes to, and the
server spends it there when it starts the handler.
-/

namespace SmartSfp

namespace Ipc

open Lib Conn

variable {go : GoJson} {serde : Serde} {s s' : System} {i j k : Nat} {t : CallState}
  {req : ClientRequest} {c c' : Conn} {log log' : Log} {line : List Tagged}

/-- The line holds a byte of call `j`. -/
def mentions (j : Nat) (line : List Tagged) : Bool := line.any fun b => b.1 == j

/-- The server of the connection may still take up a byte of call `j`. -/
def Conn.holds (j : Nat) (c : Conn) : Bool :=
  match c.server with
  | .reading line => mentions j (line ++ c.toServer)
  | _ => false

/-- The call has not written anything yet. -/
def CallState.fresh (go : GoJson) (t : CallState) : Bool :=
  match t.pc, t.call with
  | .waiting, _ => true
  | .locked, _ => true
  | .writing rest, .request req => decide ((go.requestLine req).length ≤ rest.length)
  | _, _ => false

namespace System

/-- How often the handler was started for a request of call `j`. -/
def executions (s : System) (j : Nat) : Nat := s.log.started.countP (mentions j)

def unspent (go : GoJson) (s : System) (j : Nat) : Nat :=
  match s.calls[j]? with
  | none => 1
  | some t => if t.fresh go then 1 else 0

/-- The chances left that the handler is started for call `j`, and the times it was. -/
def tokens (go : GoJson) (s : System) (j : Nat) : Nat :=
  unspent go s j + s.conns.countP (Conn.holds j) + s.executions j

end System

/-! ## The server's steps -/

theorem mentions_append (j : Nat) (p q : List Tagged) :
    mentions j (p ++ q) = (mentions j p || mentions j q) :=
  List.any_append

theorem Taken.holds (h : Taken serde log c line log' c') (j : Nat) :
    c'.holds j = false ∧ log'.started.countP (mentions j) ≤
      log.started.countP (mentions j) + if mentions j line then 1 else 0 := by
  cases h with
  | notUtf8 => exact ⟨rfl, Nat.le_add_right _ _⟩
  | refused => exact ⟨rfl, Nat.le_add_right _ _⟩
  | started =>
    exact ⟨rfl, Nat.le_of_eq (by rw [List.countP_append, List.countP_singleton])⟩

theorem ite_le_ite {p q : Bool} (h : p = true → q = true) :
    (if p then 1 else 0) ≤ if q then 1 else 0 := by
  cases p with
  | false => exact Nat.zero_le _
  | true => exact Nat.le_of_eq (by rw [h rfl])

/-- Starting the handler costs the connection its token. -/
theorem ServerMove.holds (h : ServerMove serde log c log' c') (hc : c.Orderly) (j : Nat) :
    (if c'.holds j then 1 else 0) + log'.started.countP (mentions j) ≤
      (if c.holds j then 1 else 0) + log.started.countP (mentions j) := by
  have hkeep (hle : c'.holds j = true → c.holds j = true) (hlog : log'.started = log.started) :
      (if c'.holds j then 1 else 0) + log'.started.countP (mentions j) ≤
        (if c.holds j then 1 else 0) + log.started.countP (mentions j) := by
    rw [hlog]
    exact Nat.add_le_add_right (ite_le_ite hle) _
  have htake {d : Conn} {taken : List Tagged} (htaken : Taken serde log d taken log' c')
      (hle : mentions j taken = true → c.holds j = true) :
      (if c'.holds j then 1 else 0) + log'.started.countP (mentions j) ≤
        (if c.holds j then 1 else 0) + log.started.countP (mentions j) := by
    obtain ⟨hnot, hcount⟩ := htaken.holds j
    have hle' := ite_le_ite hle
    rw [hnot]
    simp only [Bool.false_eq_true, if_false]
    omega
  cases h with
  | @received l rest b hserver hto hb =>
    refine hkeep (fun hmem => ?_) rfl
    simpa only [Conn.holds, hserver, hto, List.append_assoc, List.singleton_append] using hmem
  | @tookLine l rest b _ _ hserver hto hb htaken =>
    refine htake htaken fun hmem => ?_
    simp only [Conn.holds, hserver, hto]
    rw [List.append_cons, mentions_append, hmem, Bool.true_or]
  | @tookRest l _ _ hserver hto hup hl htaken =>
    refine htake htaken fun hmem => ?_
    simp only [Conn.holds, hserver, hto, List.append_nil]
    exact hmem
  | responded hserver => exact hkeep (fun hmem => by cases hmem) rfl
  -- a server that writes has read everything, so the connection holds no byte of a call
  | @sent rest b hserver =>
    unfold Orderly at hc
    rw [hserver] at hc
    have hto : c.toServer = [] := hc
    refine hkeep (fun hmem => ?_) rfl
    by_cases hrest : rest = []
    · simp only [Conn.holds, if_pos hrest, hto] at hmem
      cases hmem
    · simp only [Conn.holds, if_neg hrest] at hmem
      cases hmem
  | finished => exact hkeep (fun hmem => by cases hmem) rfl
  | @cut m n =>
    refine hkeep (fun hmem => ?_) rfl
    cases hserver : c.server with
    | reading l =>
      simp only [Conn.holds, hserver, mentions_append, Bool.or_eq_true] at hmem ⊢
      refine hmem.imp_right fun htaken => ?_
      obtain ⟨b, hb, hj⟩ := List.any_eq_true.mp htaken
      exact List.any_eq_true.mpr ⟨b, List.mem_of_mem_take hb, hj⟩
    | _ =>
      simp only [Conn.holds, hserver] at hmem
      cases hmem

/-! ## The client's steps -/

theorem holds_push {b : Tagged} (hj : b.1 ≠ j) : (c.push b).holds j = c.holds j := by
  unfold Conn.push
  split
  · have hb : mentions j [b] = false := by simp [mentions, hj]
    cases hserver : c.server with
    | reading l =>
      simp only [Conn.holds, hserver]
      rw [← List.append_assoc, mentions_append _ _ [b], hb, Bool.or_false]
    | _ => simp only [Conn.holds, hserver]
  · rfl

/-- The first byte of a request costs the call its token and gives it to the connection; no later
byte adds one. -/
theorem Phase.push_token {answered : List Exchange} {whole rest : Octets} {b : UInt8}
    {seen : List Tagged} {fresh fresh' : Bool}
    (h : Phase serde answered (tagged i whole) ((i, b) :: tagged i rest) seen c)
    (hfresh : whole.length ≤ rest.length + 1 → fresh = true)
    (hfresh' : fresh' = true → whole.length ≤ rest.length) :
    (if fresh' then 1 else 0) + (if (c.push (i, b)).holds i then 1 else 0) ≤
      (if fresh then 1 else 0) + if c.holds i then 1 else 0 := by
  cases h with
  | @asking l hup hserver hline hseen =>
    have hlen := congrArg List.length hline
    simp only [List.length_append, List.length_cons, length_tagged] at hlen
    have hspent : fresh' = false := by
      refine Bool.eq_false_iff.mpr fun hf => ?_
      have hle := hfresh' hf
      omega
    have hone : (if (c.push (i, b)).holds i then 1 else 0) ≤ 1 := by split <;> omega
    rw [hspent]
    simp only [Bool.false_eq_true, if_false]
    -- nothing of the request is on the connection yet, or the connection has the token already
    by_cases hempty : l ++ c.toServer = []
    · have hnil := congrArg List.length hempty
      simp only [List.length_append, List.length_nil] at hnil
      rw [hfresh (by omega)]
      simp only [if_true]
      omega
    · obtain ⟨d, hd⟩ := List.exists_mem_of_ne_nil _ hempty
      have htag : d.1 = i := by
        obtain ⟨a, -, rfl⟩ := List.mem_map.mp
          (show d ∈ tagged i whole from hline ▸ List.mem_append_left _ hd)
        rfl
      have hholds : c.holds i = true := by
        simp only [Conn.holds, hserver, mentions]
        exact List.any_eq_true.mpr ⟨d, hd, by simp [htag]⟩
      rw [hholds]
      simp only [if_true]
      omega
  | handling hup hserver hto hunsent => cases hunsent
  | replying hup hserver hrest hto hunsent => cases hunsent
  | replied hup hserver hto hunsent => cases hunsent
  | cut hup hheard hsettled =>
    -- bytes written to a connection that is down are lost
    have hsame : c.push (i, b) = c := by simp [Conn.push, hup]
    rw [hsame]
    refine Nat.add_le_add_right (ite_le_ite fun hf => hfresh ?_) _
    have hle := hfresh' hf
    omega

namespace System

theorem unspent_set (ht : s.calls[i]? = some t) {t' : CallState} {s₁ : System}
    (hcalls : s₁.calls = s.calls.set i t') (j : Nat) :
    unspent go s₁ j = if j = i then (if t'.fresh go then 1 else 0) else unspent go s j := by
  unfold unspent
  rw [hcalls, getElem?_calls_set ht]
  by_cases hji : j = i
  · rw [if_pos hji, if_pos hji]
  · rw [if_neg hji, if_neg hji]

theorem unspent_eq (ht : s.calls[i]? = some t) :
    unspent go s i = if t.fresh go then 1 else 0 := by
  simp only [unspent, ht]

theorem unspent_le_one (go : GoJson) (s : System) (j : Nat) : unspent go s j ≤ 1 := by
  unfold unspent
  split
  · exact Nat.le_refl 1
  · split <;> omega

/-- A call that gives up its token, or keeps it, adds none. -/
theorem unspent_le (ht : s.calls[i]? = some t) {t' : CallState} {s₁ : System}
    (hcalls : s₁.calls = s.calls.set i t') (hfresh : t'.fresh go = true → t.fresh go = true)
    (j : Nat) : unspent go s₁ j ≤ unspent go s j := by
  rw [unspent_set ht hcalls]
  split
  · rename_i hji
    rw [hji, unspent_eq ht]
    exact ite_le_ite hfresh
  · exact Nat.le_refl _

theorem countP_conns_set (c' : Conn) (hk : s.conns[k]? = some c) (j : Nat) :
    (s.conns.set k c').countP (Conn.holds j) + (if c.holds j then 1 else 0) =
      s.conns.countP (Conn.holds j) + if c'.holds j then 1 else 0 :=
  Pool.countP_set (p := ⟨(), s.conns⟩) (Conn.holds j) c' hk

theorem countP_set_of_eq (hk : s.conns[k]? = some c) (hsame : c'.holds j = c.holds j) :
    (s.conns.set k c').countP (Conn.holds j) = s.conns.countP (Conn.holds j) := by
  have hcount := countP_conns_set c' hk j
  rw [hsame] at hcount
  exact Nat.add_right_cancel hcount

theorem countP_dropConn (s : System) (j : Nat) :
    s.dropConn.conns.countP (Conn.holds j) = s.conns.countP (Conn.holds j) := by
  obtain heq | ⟨k, c, hk, heq⟩ := s.dropConn_conns
  · rw [heq]
  · rw [heq]
    exact countP_set_of_eq hk rfl

theorem tokens_le (hunspent : unspent go s' j ≤ unspent go s j)
    (hconns : s'.conns.countP (Conn.holds j) ≤ s.conns.countP (Conn.holds j))
    (hlog : s'.log = s.log) : tokens go s' j ≤ tokens go s j := by
  simp only [tokens, executions, hlog]
  omega

/-- A call writes a byte to a connection. -/
theorem tokens_write (t' : CallState) (c' : Conn) (ht : s.calls[i]? = some t)
    (hk : s.conns[k]? = some c) (hcalls : s'.calls = s.calls.set i t')
    (hconns : s'.conns = s.conns.set k c') (hlog : s'.log = s.log)
    (htoken : (if t'.fresh go then 1 else 0) + (if c'.holds i then 1 else 0) ≤
      (if t.fresh go then 1 else 0) + if c.holds i then 1 else 0)
    (hother : ∀ j, j ≠ i → c'.holds j = c.holds j) (j : Nat) :
    tokens go s' j ≤ tokens go s j := by
  have hunspent : unspent go s' j = _ := unspent_set ht hcalls j
  by_cases hji : j = i
  · subst hji
    have hcount := countP_conns_set c' hk j
    rw [if_pos rfl] at hunspent
    simp only [tokens, executions, unspent_eq ht, hunspent, hconns, hlog]
    omega
  · rw [if_neg hji] at hunspent
    refine tokens_le (Nat.le_of_eq hunspent) ?_ hlog
    rw [hconns]
    exact Nat.le_of_eq (countP_set_of_eq hk (hother j hji))

theorem tokens_move (h : Inv go serde s) (ht : s.calls[i]? = some t)
    (hmove : Client.Move go i t s s') (j : Nat) : tokens go s' j ≤ tokens go s j := by
  obtain ⟨call, pc⟩ := t
  have hdrop := Nat.le_of_eq (s.countP_dropConn j)
  cases hmove with
  | locked hpc hmu =>
    cases hpc
    exact tokens_le (unspent_le ht rfl (fun _ => rfl) j) (Nat.le_refl _) rfl
  | closed hpc hconn =>
    exact tokens_le (unspent_le ht rfl (fun hf => by cases hf) j) hdrop rfl
  | closedIdle hpc hconn =>
    exact tokens_le (unspent_le ht rfl (fun hf => by cases hf) j) (Nat.le_refl _) rfl
  | reused hpc hcall hconn =>
    cases hpc
    exact tokens_le (unspent_le ht rfl (fun _ => rfl) j) (Nat.le_refl _) rfl
  | dialFailed hpc hconn =>
    exact tokens_le (unspent_le ht rfl (fun hf => by cases hf) j) (Nat.le_refl _) rfl
  | dialed hpc hcall hconn =>
    cases hpc
    refine tokens_le (unspent_le ht rfl (fun _ => rfl) j) ?_ rfl
    simp only [goto, dialed, List.countP_append, List.countP_singleton]
    exact Nat.le_refl _
  | @wrote b rest k hpc hconn =>
    cases hpc
    obtain ⟨-, req, c, buf, rfl, hreader, hk, hphase⟩ := h.writer ht hconn
    have hfresh' : CallState.fresh go
        ⟨.request req, if rest = [] then .reading else .writing rest⟩ = true →
        (go.requestLine req).length ≤ rest.length := by
      split
      · exact fun hf => by cases hf
      · exact of_decide_eq_true
    refine tokens_write ⟨.request req, if rest = [] then .reading else .writing rest⟩
      (c.push (i, b)) ht hk ?_ ?_ ?_ ?_ ?_ j
    · rfl
    · exact modify_eq_set_of_getElem? hk
    · rfl
    · exact hphase.push_token (fun hle => decide_eq_true hle) hfresh'
    · exact fun j hj => holds_push fun hi => hj hi.symm
  | writeFailed hpc =>
    exact tokens_le (unspent_le ht rfl (fun hf => by cases hf) j) hdrop rfl
  | @filled r c b rest hpc hreader hc hto =>
    refine tokens_le (Nat.le_refl _) (Nat.le_of_eq ?_) rfl
    exact countP_set_of_eq hc rfl
  | returned hpc hcall hreader hline =>
    exact tokens_le (unspent_le ht rfl (fun hf => by cases hf) j) (Nat.le_refl _) rfl
  | readFailed hpc =>
    exact tokens_le (unspent_le ht rfl (fun hf => by cases hf) j) hdrop rfl

theorem tokens_step {a : Act} (h : Inv go serde s) (hstep : System.Step go serde s a s')
    (j : Nat) : tokens go s' j ≤ tokens go s j := by
  obtain ⟨call, rfl⟩ | ⟨i, t, ht, hmove⟩ | ⟨k, c, log', c', hk, hmove, rfl⟩ := step_cases hstep
  · refine tokens_le ?_ (Nat.le_refl _) rfl
    cases hj : s.calls[j]? with
    | none =>
      have hone : unspent go s j = 1 := by simp only [unspent, hj]
      rw [hone]
      exact unspent_le_one go _ j
    | some t =>
      simp only [unspent, hj, getElem?_of_initial (List.prefix_append _ _) hj]
      exact Nat.le_refl _
  · exact tokens_move h ht hmove j
  · have hholds := hmove.holds (h.orderly c (List.mem_of_getElem? hk)) j
    have hcount := countP_conns_set c' hk j
    have hunspent : unspent go { s with log := log', conns := s.conns.set k c' } j =
        unspent go s j := rfl
    simp only [tokens, executions, hunspent]
    omega

theorem run_tokens {acts : List Act} (h : Run (System.Step go serde) new acts s) (j : Nat) :
    tokens go s j ≤ 1 := by
  induction h with
  | nil => exact Nat.le_refl 1
  | snoc run last ih => exact Nat.le_trans (tokens_step (run_inv run) last j) ih

end System

namespace Kat

def octets (text : String) : Octets := text.toList.map fun c => UInt8.ofNat c.toNat

/-- `Decrypt` of no bytes at all, as both ends write it. -/
def decryptText : String := "\x7b\"method\":\"decrypt\",\"params\":\x7b\"frame\":\"\"\x7d\x7d"

def errorText : String := "\x7b\"code\":409,\"message\":\"no active key\"\x7d"

def responseText : String := "\x7b\"result\":\"error\",\"data\":" ++ errorText ++ "\x7d"

def decryptNothing : ClientRequest := .decrypt (some [])

def noActiveKey : Response := .error 409 "no active key"

def goJson : GoJson where
  marshal req := if req = decryptNothing then octets decryptText else []
  newline_not_mem req := by
    split
    · decide
    · exact List.not_mem_nil
  envelope line :=
    if line = octets responseText ++ [newline] then .ok ⟨"error", octets errorText⟩
    else .error "unexpected end of JSON input"
  statusReport _ := .error "unexpected end of JSON input"
  bytesPayload _ := .error "unexpected end of JSON input"
  errorResponse data := if data = octets errorText then ⟨409, "no active key"⟩ else ⟨0, ""⟩

def serdeJson : Serde where
  fromUtf8 line :=
    if line.all (· < 0x80) then some (String.ofList (line.map fun b => Char.ofNat b.toNat))
    else none
  fromStr text :=
    if text = decryptText ++ "\n" then .ok (.decrypt ⟨.empty⟩)
    else .error "expected value at line 1 column 1"
  toText response := if response = noActiveKey then octets responseText else []
  newline_not_mem response := by
    split
    · decide
    · exact List.not_mem_nil

/-- A call of `Decrypt` from its start to the end of `Write`, over connection `i`. -/
def asking (i : Nat) : List Act :=
  [.start (.request decryptNothing), .client i .lock, .client i (.enter (.ok ()))] ++
    List.replicate 43 (.client i .write) ++ List.replicate 43 (.server i .receive)

/-- The first call times out while the handler works; its answer comes when the second call has
already asked on a connection of its own. -/
def lateActs : List Act :=
  asking 0 ++ [.client 0 (.readFailed "i/o timeout")] ++ asking 1 ++
    [.server 0 (.respond noActiveKey), .server 1 (.respond noActiveKey)] ++
    List.replicate 65 (.server 0 .send) ++ List.replicate 65 (.server 1 .send) ++
    List.replicate 65 (.client 1 .fill) ++ [.client 1 .readLine]

/-- Where the two calls leave the client and the server. -/
def late : System where
  conns := [⟨false, [], [], .reading []⟩, ⟨true, [], [], .reading []⟩]
  log := ⟨[tagged 0 (goJson.requestLine decryptNothing),
      tagged 1 (goJson.requestLine decryptNothing)],
    [⟨tagged 0 (goJson.requestLine decryptNothing), noActiveKey⟩,
      ⟨tagged 1 (goJson.requestLine decryptNothing), noActiveKey⟩]⟩
  mu := none
  conn := some 1
  reader := some ⟨1, []⟩
  calls := [⟨.request decryptNothing, .done [] (.failed (.read "i/o timeout"))⟩,
    ⟨.request decryptNothing, .done (tagged 1 (serdeJson.responseLine noActiveKey))
      (.errorResponse ⟨409, "no active key"⟩)⟩]

theorem late_run : Run (System.Step goJson serdeJson) System.new lateActs late :=
  System.run_of_exec (by decide +kernel)

end Kat

end Ipc

end SmartSfp
