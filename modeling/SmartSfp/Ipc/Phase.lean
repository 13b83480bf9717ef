import SmartSfp.Ipc.Socket

/-!
# Phase — one connection while a call uses it

How far a request has come on a connection: what of its line the server still has to read and what
of the answer the client has heard.  The server's steps move a connection from phase to phase, and
none of them leaves two answers on the stream or the answer to another line.
-/

namespace SmartSfp

namespace Ipc

open Lib

variable {serde : Serde} {log log' : Log} {c c' : Conn} {i n : Nat}
  {line unsent seen buf : List Tagged} {answered : List Exchange} {response : Response}

theorem tagged_append (i : Nat) (p q : Octets) : tagged i (p ++ q) = tagged i p ++ tagged i q :=
  List.map_append

@[simp] theorem tagged_nil (i : Nat) : tagged i [] = [] := rfl

@[simp] theorem tagged_cons (i : Nat) (b : UInt8) (p : Octets) :
    tagged i (b :: p) = (i, b) :: tagged i p := rfl

@[simp] theorem length_tagged (i : Nat) (p : Octets) : (tagged i p).length = p.length :=
  List.length_map _

theorem bytesOf_tagged (i : Nat) (p : Octets) : bytesOf (tagged i p) = p := by
  simp only [bytesOf, tagged, List.map_map]
  exact List.map_id p

theorem isLine_tagged {p : Octets} (i : Nat) (h : newline ∉ p) :
    IsLine isNewline (tagged i (p ++ [newline])) := by
  rw [tagged_append]
  refine isLine_concat rfl fun a ha => ?_
  obtain ⟨b, hb, rfl⟩ := List.mem_map.mp ha
  exact beq_eq_false_iff_ne.mpr fun hnl => h (hnl ▸ hb)

theorem Serde.isLine (serde : Serde) (n : Nat) (response : Response) :
    IsLine isNewline (tagged n (serde.responseLine response)) :=
  isLine_tagged n (serde.newline_not_mem response)

/-- What waits to be read comes from one call and has no line end before its own. -/
def OfCall (i : Nat) (bytes : List Tagged) : Prop :=
  (∀ b ∈ bytes, b.1 = i) ∧ PartLine isNewline bytes

namespace Conn

/-- The server has nothing to do: it waits for a request or is gone. -/
structure Settled (c : Conn) : Prop where
  toServer_eq : c.toServer = []
  server : c.server = .reading [] ∨ c.server = .ended

/-- Settled, and the client has taken everything that was sent. -/
structure Quiet (c : Conn) : Prop extends Settled c where
  toClient_eq : c.toClient = []

/-- The server has at most one request before it. -/
def Orderly (c : Conn) : Prop :=
  match c.server with
  | .reading line => ∃ i, OfCall i (line ++ c.toServer)
  | .handling _ _ => c.toServer = []
  | .writing _ => c.toServer = []
  | .ended => c.toServer = [] ∧ c.up = false

end Conn

open Conn

theorem ofCall_nil (i : Nat) : OfCall i [] :=
  ⟨fun _ hb => absurd hb List.not_mem_nil, partLine_nil⟩

theorem OfCall.of_initial {p q : List Tagged} (h : OfCall i q) (hp : p <+: q) : OfCall i p :=
  ⟨fun b hb => h.1 b (hp.subset hb), h.2.of_initial hp⟩

theorem orderly_accepted : accepted.Orderly := ⟨0, ofCall_nil 0⟩

theorem orderly_finish (c : Conn) : c.finish.Orderly := ⟨rfl, rfl⟩

theorem quiet_accepted : accepted.Quiet := ⟨⟨rfl, .inl rfl⟩, rfl⟩

theorem settled_finish (c : Conn) : c.finish.Settled := ⟨rfl, .inr rfl⟩

theorem Conn.Orderly.hangUp (h : c.Orderly) : c.hangUp.Orderly := by
  unfold Orderly at *
  cases hserver : c.server with
  | ended =>
    rw [hserver] at h
    simp only [Conn.hangUp, hserver]
    exact ⟨h.1, trivial⟩
  | _ =>
    rw [hserver] at h
    simp only [Conn.hangUp, hserver]
    exact h

/-- A line taken up leaves nothing for the server to read. -/
theorem Taken.orderly (h : Taken serde log c line log' c') (hto : c.toServer = []) :
    c'.Orderly := by
  cases h with
  | notUtf8 => exact orderly_finish c
  | refused => exact hto
  | started => exact hto

theorem ServerMove.orderly (h : ServerMove serde log c log' c') (hc : c.Orderly) : c'.Orderly := by
  cases h with
  | received hserver hto hb =>
    unfold Orderly at hc
    rw [hserver] at hc
    obtain ⟨i, hi⟩ := hc
    rw [hto, List.append_cons] at hi
    exact ⟨i, hi⟩
  | tookLine hserver hto hb htaken =>
    unfold Orderly at hc
    rw [hserver] at hc
    obtain ⟨i, hi⟩ := hc
    exact htaken.orderly (hi.2 _ _ _ (by rw [hto]) hb)
  | tookRest hserver hto hup hline htaken => exact htaken.orderly hto
  | responded hserver =>
    unfold Orderly at hc
    rw [hserver] at hc
    exact hc
  | @sent rest b hserver =>
    unfold Orderly at hc
    rw [hserver] at hc
    have hto : c.toServer = [] := hc
    by_cases hrest : rest = []
    · simp only [Orderly, if_pos hrest, hto]
      exact ⟨0, ofCall_nil 0⟩
    · simp only [Orderly, if_neg hrest, hto]
  | finished => exact orderly_finish c
  | @cut m n =>
    unfold Orderly at hc ⊢
    have htake : ∀ {l : List Tagged}, l = [] → l.take m = [] := fun hl => by simp [hl]
    cases hserver : c.server with
    | reading line =>
      rw [hserver] at hc
      obtain ⟨i, hi⟩ := hc
      exact ⟨i, hi.of_initial ((List.prefix_append_right_inj line).mpr (List.take_prefix _ _))⟩
    | handling line request =>
      rw [hserver] at hc
      exact htake hc
    | writing rest =>
      rw [hserver] at hc
      exact htake hc
    | ended =>
      rw [hserver] at hc
      exact ⟨htake hc.1, rfl⟩

/-- A settled server sends nothing and stays settled. -/
theorem ServerMove.settled (h : ServerMove serde log c log' c') (hc : c.Settled) :
    c'.Settled ∧ c'.toClient <+: c.toClient := by
  have hreading {line : List Tagged} (hserver : c.server = .reading line) : line = [] := by
    rcases hc.server with hq | hq
    · rw [hq] at hserver
      cases hserver
      rfl
    · rw [hq] at hserver
      cases hserver
  have hnot {pc : ServerPc} (hserver : c.server = pc) : pc = .reading [] ∨ pc = .ended :=
    hserver ▸ hc.server
  cases h with
  | received hserver hto hb =>
    rw [hc.toServer_eq] at hto
    cases hto
  | tookLine hserver hto hb htaken =>
    rw [hc.toServer_eq] at hto
    cases hto
  | tookRest hserver hto hup hline htaken => exact absurd (hreading hserver) hline
  | responded hserver =>
    rcases hnot hserver with h | h
    · cases h
    · cases h
  | sent hserver =>
    rcases hnot hserver with h | h
    · cases h
    · cases h
  | finished => exact ⟨settled_finish c, List.prefix_refl _⟩
  | cut => exact ⟨⟨by simp [hc.toServer_eq], hc.server⟩, List.take_prefix _ _⟩

/-- Nothing a server does disturbs a quiet connection. -/
theorem ServerMove.quiet (h : ServerMove serde log c log' c') (hc : c.Quiet) : c'.Quiet := by
  obtain ⟨hsettled, hto⟩ := h.settled hc.toSettled
  rw [hc.toClient_eq] at hto
  exact ⟨hsettled, List.prefix_nil.mp hto⟩

theorem Taken.toClient_eq (h : Taken serde log c line log' c') : c'.toClient = c.toClient := by
  cases h <;> rfl

theorem Taken.of_down (h : Taken serde log c line log' c') (hup : c.up = false) :
    c'.up = false := by
  cases h with
  | notUtf8 => rfl
  | refused => exact hup
  | started => exact hup

/-- Nothing more arrives on a connection that is down. -/
theorem ServerMove.of_down (h : ServerMove serde log c log' c') (hup : c.up = false) :
    c'.up = false ∧ c'.toClient <+: c.toClient := by
  cases h with
  | received hserver hto hb => exact ⟨hup, List.prefix_refl _⟩
  | tookLine hserver hto hb htaken =>
    exact ⟨htaken.of_down hup, htaken.toClient_eq ▸ List.prefix_refl _⟩
  | tookRest hserver hto hup' hline htaken =>
    exact ⟨htaken.of_down hup, htaken.toClient_eq ▸ List.prefix_refl _⟩
  | responded hserver => exact ⟨hup, List.prefix_refl _⟩
  | sent hserver =>
    rw [hup]
    exact ⟨rfl, List.prefix_refl _⟩
  | finished => exact ⟨rfl, List.prefix_refl _⟩
  | cut => exact ⟨rfl, List.take_prefix _ _⟩

/-! ## The phases of a request -/

/-- What the client has heard is the beginning of an answer to the line, if anything. -/
def Heard (serde : Serde) (answered : List Exchange) (line seen : List Tagged) : Prop :=
  seen = [] ∨ ∃ n response, answered[n]? = some ⟨line, response⟩ ∧
    seen <+: tagged n (serde.responseLine response)

/-- How far the request `line` has come, with `unsent` still to be written by the client and `seen`
written by the server and not taken by the client yet. -/
inductive Phase (serde : Serde) (answered : List Exchange) (line unsent seen : List Tagged)
    (c : Conn) : Prop where
  | asking {l : List Tagged} (hup : c.up = true) (hserver : c.server = .reading l)
      (hline : l ++ c.toServer ++ unsent = line) (hseen : seen = [])
  | handling {request : Request} (hup : c.up = true) (hserver : c.server = .handling line request)
      (hto : c.toServer = []) (hunsent : unsent = []) (hseen : seen = [])
  | replying {n : Nat} {response : Response} {rest : List Tagged} (hup : c.up = true)
      (hserver : c.server = .writing rest) (hrest : rest ≠ []) (hto : c.toServer = [])
      (hunsent : unsent = []) (hanswer : answered[n]? = some ⟨line, response⟩)
      (hseen : seen ++ rest = tagged n (serde.responseLine response))
  | replied {n : Nat} {response : Response} (hup : c.up = true) (hserver : c.server = .reading [])
      (hto : c.toServer = []) (hunsent : unsent = [])
      (hanswer : answered[n]? = some ⟨line, response⟩)
      (hseen : seen = tagged n (serde.responseLine response))
  | cut (hup : c.up = false) (hheard : Heard serde answered line seen)
      (hsettled : ∀ b ∈ seen, isNewline b = true → c.Settled)

variable {serde : Serde}

theorem Heard.mono (h : Heard serde answered line seen) (hlog : answered <+: log'.answered) :
    Heard serde log'.answered line seen := by
  obtain rfl | ⟨n, response, hanswer, hseen⟩ := h
  · exact .inl rfl
  · exact .inr ⟨n, response, getElem?_of_initial hlog hanswer, hseen⟩

theorem Heard.of_initial {seen' : List Tagged} (h : Heard serde answered line seen)
    (hp : seen' <+: seen) : Heard serde answered line seen' := by
  obtain rfl | ⟨n, response, hanswer, hseen⟩ := h
  · exact .inl (List.prefix_nil.mp hp)
  · exact .inr ⟨n, response, hanswer, hp.trans hseen⟩

/-- The log only grows. -/
theorem Taken.log_initial (h : Taken serde log c line log' c') :
    log.answered <+: log'.answered := by
  cases h with
  | notUtf8 => exact List.prefix_refl _
  | refused => exact List.prefix_append _ _
  | started => exact List.prefix_refl _

theorem ServerMove.log_initial (h : ServerMove serde log c log' c') :
    log.answered <+: log'.answered := by
  cases h with
  | tookLine hserver hto hb htaken => exact htaken.log_initial
  | tookRest hserver hto hup hline htaken => exact htaken.log_initial
  | responded hserver => exact List.prefix_append _ _
  | _ => exact List.prefix_refl _

namespace Phase

theorem heard (h : Phase serde answered line unsent seen c) : Heard serde answered line seen := by
  cases h with
  | asking hup hserver hline hseen => exact .inl hseen
  | handling hup hserver hto hunsent hseen => exact .inl hseen
  | replying hup hserver hrest hto hunsent hanswer hseen =>
    exact .inr ⟨_, _, hanswer, hseen ▸ List.prefix_append _ _⟩
  | replied hup hserver hto hunsent hanswer hseen =>
    exact .inr ⟨_, _, hanswer, hseen ▸ List.prefix_refl _⟩
  | cut hup hheard hsettled => exact hheard

/-- Once the client has heard a line end, the server has nothing left to do. -/
theorem settled_of_newline {b : Tagged} (h : Phase serde answered line unsent seen c)
    (hmem : b ∈ seen) (hb : isNewline b = true) : c.Settled := by
  cases h with
  | asking hup hserver hline hseen =>
    rw [hseen] at hmem
    exact absurd hmem List.not_mem_nil
  | handling hup hserver hto hunsent hseen =>
    rw [hseen] at hmem
    exact absurd hmem List.not_mem_nil
  | @replying n response rest hup hserver hrest hto hunsent hanswer hseen =>
    have hwhole := (serde.isLine n response).partLine.eq_of_initial ⟨rest, hseen⟩ hmem hb
    rw [← hseen, List.self_eq_append_right] at hwhole
    exact absurd hwhole hrest
  | replied hup hserver hto hunsent hanswer hseen => exact ⟨hto, .inl hserver⟩
  | cut hup hheard hsettled => exact hsettled b hmem hb

theorem mono (h : Phase serde answered line unsent seen c) (hlog : answered <+: log'.answered) :
    Phase serde log'.answered line unsent seen c := by
  cases h with
  | asking hup hserver hline hseen => exact .asking hup hserver hline hseen
  | handling hup hserver hto hunsent hseen => exact .handling hup hserver hto hunsent hseen
  | replying hup hserver hrest hto hunsent hanswer hseen =>
    exact .replying hup hserver hrest hto hunsent (getElem?_of_initial hlog hanswer) hseen
  | replied hup hserver hto hunsent hanswer hseen =>
    exact .replied hup hserver hto hunsent (getElem?_of_initial hlog hanswer) hseen
  | cut hup hheard hsettled => exact .cut hup (hheard.mono hlog) hsettled

/-- The server's end is gone; what it has sent still arrives. -/
theorem finish (h : Phase serde answered line unsent seen c) :
    Phase serde answered line unsent seen c.finish :=
  .cut rfl h.heard fun _ _ _ => settled_finish c

theorem cutOff {seen' : List Tagged} {m n : Nat} (h : Phase serde answered line unsent seen c)
    (hp : seen' <+: seen) : Phase serde answered line unsent seen'
      { c with up := false, toServer := c.toServer.take m, toClient := c.toClient.take n } := by
  refine .cut rfl (h.heard.of_initial hp) fun b hmem hb => ?_
  have hc := h.settled_of_newline (hp.subset hmem) hb
  exact ⟨by simp [hc.toServer_eq], hc.server⟩

/-- The server answers the line it has taken up. -/
theorem answer (hup : c.up = true) (hto : c.toServer = []) (response : Response) :
    Phase serde (writeResponse serde log c line response).1.answered line [] []
      (writeResponse serde log c line response).2 :=
  .replying hup rfl (serde.isLine log.answered.length response).ne_nil hto rfl
    (List.getElem?_concat_length ..) rfl

theorem of_taken (h : Taken serde log c line log' c') (hup : c.up = true)
    (hto : c.toServer = []) : Phase serde log'.answered line [] [] c' := by
  cases h with
  | notUtf8 => exact .cut rfl (.inl rfl) fun b hmem => absurd hmem List.not_mem_nil
  | refused => exact answer hup hto _
  | started => exact .handling hup rfl hto rfl rfl

/-- Every step of the server keeps the request on its way from phase to phase. -/
theorem step (h : ServerMove serde log c log' c')
    (hphase : Phase serde log.answered line unsent (buf ++ c.toClient) c)
    (hline : IsLine isNewline line) :
    Phase serde log'.answered line unsent (buf ++ c'.toClient) c' := by
  have hfinish := (hphase.finish : Phase serde log.answered line unsent _ c.finish)
  have hcut {m n : Nat} := hphase.cutOff (m := m) (n := n)
    ((List.prefix_append_right_inj buf).mpr (List.take_prefix n c.toClient))
  cases hphase with
  | @asking l hup hserver hl hseen =>
    cases h with
    | @received l' rest b hserver' hto hb =>
      rw [hserver] at hserver'
      cases hserver'
      rw [hto, List.append_cons] at hl
      exact .asking hup rfl hl hseen
    | @tookLine l' rest b _ _ hserver' hto hb htaken =>
      rw [hserver] at hserver'
      cases hserver'
      -- the line end is the last byte of the request
      have hrest : rest ++ unsent = [] :=
        hline.partLine l b (rest ++ unsent) (by rw [← hl, hto]; simp) hb
      obtain ⟨rfl, rfl⟩ := List.append_eq_nil_iff.mp hrest
      have hwhole : l ++ [b] = line := by rw [← hl, hto]; simp
      rw [hwhole] at htaken
      rw [htaken.toClient_eq, hseen]
      exact of_taken htaken hup rfl
    | finished => exact hfinish
    | cut => exact hcut
    | _ => simp_all
  -- only the answer, the end or a cut is possible while the handler runs
  | handling hup hserver hto hunsent hseen =>
    cases h with
    | responded hserver' =>
      rw [hserver] at hserver'
      cases hserver'
      rw [hunsent]
      change Phase serde _ line [] (buf ++ c.toClient) _
      rw [hseen]
      exact answer hup hto _
    | finished => exact hfinish
    | cut => exact hcut
    | _ => simp_all
  -- each byte moves from what the server still writes to what the client has heard
  | replying hup hserver hrest hto hunsent hanswer hseen =>
    cases h with
    | @sent rest' b hserver' =>
      rw [hserver] at hserver'
      cases hserver'
      simp only [hup, if_true]
      rw [List.append_cons, List.append_assoc buf] at hseen
      by_cases hrest' : rest' = []
      · rw [if_pos hrest']
        rw [hrest', List.append_nil] at hseen
        exact .replied rfl rfl hto hunsent hanswer hseen
      · rw [if_neg hrest']
        exact .replying rfl rfl hrest' hto hunsent hanswer hseen
    | finished => exact hfinish
    | cut => exact hcut
    | _ => simp_all
  | replied hup hserver hto hunsent hanswer hseen =>
    cases h with
    | finished => exact hfinish
    | cut => exact hcut
    | _ => simp_all
  -- a connection that is down only loses bytes
  | cut hup hheard hsettled =>
    obtain ⟨hup', hto⟩ := h.of_down hup
    have hp := (List.prefix_append_right_inj buf).mpr hto
    exact .cut hup' ((hheard.mono h.log_initial).of_initial hp)
      fun b hmem hb => (h.settled (hsettled b (hp.subset hmem) hb)).1

/-! ## The client's steps -/

/-- The client starts to write a request on a quiet connection. -/
theorem start (hquiet : c.Quiet) (hc : c.Orderly) : Phase serde answered line line [] c := by
  cases hup : c.up with
  | true =>
    rcases hquiet.server with hserver | hserver
    · exact .asking hup hserver (by rw [hquiet.toServer_eq]; rfl) rfl
    · unfold Orderly at hc
      rw [hserver, hup] at hc
      cases hc.2
  | false => exact .cut hup (.inl rfl) fun b hmem => absurd hmem List.not_mem_nil

theorem push {b : Tagged} (h : Phase serde answered line (b :: unsent) seen c) :
    Phase serde answered line unsent seen (c.push b) := by
  cases h with
  | asking hup hserver hline hseen =>
    rw [Conn.push, if_pos hup]
    refine .asking hup hserver ?_ hseen
    rw [← hline]
    simp only [List.append_assoc, List.singleton_append]
  | handling hup hserver hto hunsent => cases hunsent
  | replying hup hserver hrest hto hunsent => cases hunsent
  | replied hup hserver hto hunsent => cases hunsent
  | cut hup hheard hsettled =>
    rw [Conn.push, if_neg (by rw [hup]; exact Bool.false_ne_true)]
    exact .cut hup hheard hsettled

theorem orderly_push {b : Tagged} (h : Phase serde answered line (b :: unsent) seen c)
    (hline : OfCall i line) (hc : c.Orderly) : (c.push b).Orderly := by
  cases h with
  | @asking l hup hserver hl hseen =>
    rw [Conn.push, if_pos hup]
    unfold Orderly
    rw [hserver]
    refine ⟨i, hline.of_initial ⟨unsent, ?_⟩⟩
    rw [← hl]
    simp only [List.append_assoc, List.singleton_append]
  | handling hup hserver hto hunsent => cases hunsent
  | replying hup hserver hrest hto hunsent => cases hunsent
  | replied hup hserver hto hunsent => cases hunsent
  | cut hup hheard hsettled => rwa [Conn.push, if_neg (by rw [hup]; exact Bool.false_ne_true)]

theorem of_toClient (h : Phase serde answered line unsent seen c) (rest : List Tagged) :
    Phase serde answered line unsent seen { c with toClient := rest } := by
  cases h with
  | asking hup hserver hline hseen => exact .asking hup hserver hline hseen
  | handling hup hserver hto hunsent hseen => exact .handling hup hserver hto hunsent hseen
  | replying hup hserver hrest hto hunsent hanswer hseen =>
    exact .replying hup hserver hrest hto hunsent hanswer hseen
  | replied hup hserver hto hunsent hanswer hseen =>
    exact .replied hup hserver hto hunsent hanswer hseen
  | cut hup hheard hsettled =>
    exact .cut hup hheard fun b hmem hb => ⟨(hsettled b hmem hb).1, (hsettled b hmem hb).2⟩

/-- The line the client reads is the whole answer to its request, and the last thing on the
connection. -/
theorem readLine {l rest : List Tagged} (hl : IsLine isNewline l)
    (h : Phase serde answered line [] (l ++ rest ++ c.toClient) c) :
    rest = [] ∧ c.Quiet ∧ ∃ n response, answered[n]? = some ⟨line, response⟩ ∧
      l = tagged n (serde.responseLine response) := by
  obtain ⟨b, hmem, hb⟩ := hl.exists_stop
  have hsettled := h.settled_of_newline (by simp [hmem]) hb
  obtain hnil | ⟨n, response, hanswer, hseen⟩ := h.heard
  · simp [hl.ne_nil] at hnil
  · have hpart := (serde.isLine n response).partLine
    have hwhole := hpart.eq_of_initial hseen (by simp [hmem]) hb
    have hlwhole := hpart.eq_of_initial (p := l)
      ((List.prefix_append l _).trans (List.append_assoc l rest _ ▸ hseen)) hmem hb
    rw [← hlwhole, List.append_assoc, List.append_right_eq_self] at hwhole
    obtain ⟨hrest, hto⟩ := List.append_eq_nil_iff.mp hwhole
    exact ⟨hrest, ⟨hsettled, hto⟩, n, response, hanswer, hlwhole⟩

end Phase

end Ipc

end SmartSfp
