import SmartSfp.Httpapi.Status
import SmartSfp.Metrics.Cryptod
import SmartSfp.Node.Sequence

/-!
# Monitor — what an operator sees of the daemon

`/metrics`, `/api/v1/status` and `/readyz` each make one call of `GetStatus` and show what comes of
it.
-/

namespace SmartSfp

namespace Node

open Lib Ipc Cryptod Httpapi Metrics World

variable {pf : Platform} {s₀ : CryptodState} {acts : List Act} {w w₁ w₂ : World} {i j : Nat}
  {line : List Tagged} {r : Returned}

/-! ## One call -/

theorem requestLine_getStatus_fits : (Ipc.requestLine .getStatus).length ≤ isizeMax := by
  decide

/-- A call of `GetStatus` fails, or returns the report of the one handler that ran for it. -/
theorem getStatus_cases (hrun : Run (Step pf.decoding) (new s₀) acts w)
    (ht : w.ipc.calls[i]? = some ⟨.request .getStatus, .done line r⟩) :
    (∃ e, r = .failed e) ∨ ∃ hd report, r = .status report ∧
      Delivered w i .getStatus r hd .getStatus (.status report) := by
  obtain ⟨xs, hipc⟩ := run_ipc hrun
  obtain ⟨-, hfailed⟩ | ⟨hne, -⟩ := System.run_ends hipc ht
  · exact .inl hfailed
  · obtain hrefused | ⟨hd, request, response, hdelivered⟩ := returned_of_line hrun ht hne
    · have hlong := hrefused.reason trivial
      have hfits := requestLine_getStatus_fits
      omega
    · right
      obtain ⟨ys, hdaemon⟩ := run_daemon hrun
      have hmeans := hdelivered.means
      have hkind := inKind_run hdaemon _ (List.mem_of_getElem? hdelivered.answered) response rfl
      cases request with
      | getStatus =>
        cases response with
        | status report => exact ⟨hd, report, hdelivered.returned, hdelivered⟩
        | _ => exact hkind.elim
      | _ => exact hmeans.elim

/-- A counter of the daemon under the name it is scraped by. -/
def figures : List (Counter × Desc) :=
  [(.sealed, CryptodCollector.packetsSealed), (.opened, CryptodCollector.packetsOpened),
    (.errors, CryptodCollector.cryptoErrors)]

theorem figures_cases {x : Counter × Desc} (hx : x ∈ figures) :
    x = (.sealed, CryptodCollector.packetsSealed) ∨ x = (.opened, CryptodCollector.packetsOpened) ∨
      x = (.errors, CryptodCollector.cryptoErrors) := by
  simpa only [figures, List.mem_cons, List.not_mem_nil, or_false] using hx

/-- What is scraped is the field of the report. -/
theorem valueOf_collect {x : Counter × Desc} (hx : x ∈ figures) (scrapeSec : ℚ)
    (report : StatusReport) :
    valueOf x.2 (CryptodCollector.collect scrapeSec (.status report)) =
      some ((x.1.field report).toNat : ℚ) := by
  obtain rfl | rfl | rfl := figures_cases hx <;> rfl

theorem valueOf_activeKeyID (scrapeSec : ℚ) (report : StatusReport) :
    valueOf CryptodCollector.activeKeyID (CryptodCollector.collect scrapeSec (.status report)) =
      some (CryptodCollector.keyIdValue report.activeKeyId) :=
  rfl

/-- The metrics show the report, each of its fields once.  A `float64` has room for the uptime and
the counters up to `exactInts`. -/
structure Shows (report : StatusReport) (ms : List Metric) : Prop where
  once : (ms.map Metric.desc).Nodup
  up : valueOf CryptodCollector.up ms = some 1
  uptime : report.uptimeS.toNat ≤ exactInts →
    valueOf CryptodCollector.uptimeSeconds ms = some (report.uptimeS.toNat : ℚ)
  version : ∃ m ∈ ms, m.desc = CryptodCollector.versionInfo ∧ m.value = 1 ∧
    m.labelValues = [Text.utf8 report.version, Text.utf8 report.activeProvider]
  someKey : ∀ id, report.activeKeyId = some id →
    valueOf CryptodCollector.activeKeyID ms = some (id.toNat : ℚ)
  noKey : report.activeKeyId = none → valueOf CryptodCollector.activeKeyID ms = some (-1)
  counters : ∀ x ∈ figures, (x.1.field report).toNat ≤ exactInts →
    valueOf x.2 ms = some ((x.1.field report).toNat : ℚ)

theorem shows_collect (scrapeSec : ℚ) (report : StatusReport) :
    Shows report (CryptodCollector.collect scrapeSec (.status report)) where
  once := by
    have hdescs : (CryptodCollector.collect scrapeSec (.status report)).map Metric.desc =
        [CryptodCollector.ipcScrapeLatency, CryptodCollector.up, CryptodCollector.uptimeSeconds,
          CryptodCollector.versionInfo, CryptodCollector.activeKeyID,
          CryptodCollector.packetsSealed, CryptodCollector.packetsOpened,
          CryptodCollector.cryptoErrors] := rfl
    rw [hdescs]
    decide
  up := rfl
  uptime _ := rfl
  version := by
    refine ⟨gauge CryptodCollector.versionInfo 1
      [Text.utf8 report.version, Text.utf8 report.activeProvider], ?_, rfl, rfl, rfl⟩
    simp [CryptodCollector.collect, CryptodCollector.reportMetrics]
  someKey id hid := by
    rw [valueOf_activeKeyID, hid]
    rfl
  noKey hnone := by
    rw [valueOf_activeKeyID, hnone]
    rfl
  counters x hx _ := valueOf_collect hx scrapeSec report

/-- What is shown of a call of `GetStatus`.  In every run, with any failures, a call that has
returned has failed, and then the three of them say so: the metrics are the latency and an `up` of
0, `/api/v1/status` answers 502 and `/readyz` 503; or one handler ran for it, and then the metrics
show the latency and the report of that handler, each field under its own name, `/api/v1/status`
shows the report as well, and `/readyz` answers 200. -/
theorem monitors_agree (pf : Platform) (s₀ : CryptodState) (acts : List Act) (w : World)
    (hrun : Run (Step pf.decoding) (new s₀) acts w) (i : Nat) (line : List Tagged) (r : Returned)
    (ht : w.ipc.calls[i]? = some ⟨.request .getStatus, .done line r⟩) (scrapeSec : ℚ) :
    (∃ e, r = .failed e ∧
      CryptodCollector.collect scrapeSec r =
        [gauge CryptodCollector.ipcScrapeLatency scrapeSec [], gauge CryptodCollector.up 0 []] ∧
      handleStatus pf.errorText "GET" r = ⟨502, .error (pf.errorText e)⟩ ∧
      afterReadyz pf.errorText r = ⟨503, .error ("cryptod unreachable: " ++ pf.errorText e)⟩) ∨
    ∃ hd report, Delivered w i .getStatus r hd .getStatus (.status report) ∧
      Shows report (CryptodCollector.collect scrapeSec r) ∧
      valueOf CryptodCollector.ipcScrapeLatency (CryptodCollector.collect scrapeSec r) =
        some scrapeSec ∧
      handleStatus pf.errorText "GET" r = ⟨200, .report (some report)⟩ ∧
      afterReadyz pf.errorText r = ⟨200, .plain "ready\n"⟩ := by
  obtain ⟨e, rfl⟩ | ⟨hd, report, rfl, hdelivered⟩ := getStatus_cases hrun ht
  · exact .inl ⟨e, rfl, rfl, rfl, rfl⟩
  · exact .inr ⟨hd, report, hdelivered, shows_collect scrapeSec report, rfl, rfl, rfl⟩

/-! ## One call after another -/

/-- The handler of a call that was made later has its place behind every task of the daemon. -/
theorem length_le_task (hrun₁ : Run (Step pf) (new s₀) acts w₁) {acts₂ : List Act}
    (hrun₂ : Run (Step pf) w₁ acts₂ w₂) {hd : Handling} (hhd : hd ∈ w₂.handlings)
    (hj : mentions j hd.line = true) (hlate : w₁.ipc.calls.length ≤ j) :
    w₁.daemon.tasks.length ≤ hd.task := by
  obtain hold | hle := (task_le_of_later hrun₂).2 hd hhd
  · have hlt := lt_calls_of_mentions hrun₁ hold hj
    omega
  · exact hle

/-- The field of a report, as long as the counter has not wrapped: a number the counter has had
since the call was made. -/
theorem field_between (c : Counter) (hzero : c.value s₀ = 0)
    (hrun₁ : Run (Step pf) (new s₀) acts w₁) {acts₂ : List Act} (hrun₂ : Run (Step pf) w₁ acts₂ w₂)
    (hwrap : w₂.daemon.tasks.length < UInt64.size) {k : Nat} {report : StatusReport}
    (hk : w₁.daemon.tasks.length ≤ k)
    (ht : w₂.daemon.tasks[k]? = some ⟨.getStatus, .done (.status report)⟩) :
    c.total w₁.daemon ≤ (c.field report).toNat ∧ (c.field report).toNat ≤ c.total w₂.daemon := by
  obtain ⟨xs, hdaemon₁⟩ := run_daemon hrun₁
  obtain ⟨ys, hdaemon₂⟩ : ∃ ys, Run (Pool.Step (Cryptod.daemon pf.crate)) w₁.daemon ys w₂.daemon :=
    hrun₂.project World.daemon fun _ _ _ hstep => (move_of_step hstep).daemon
  have hvalue := c.run_value hdaemon₁
  have hstart : c.Reports (c.value s₀) w₁.daemon.tasks.length (c.total w₁.daemon) w₁.daemon := by
    refine ⟨Nat.le_refl _, fun j t r hj ht => ?_⟩
    have hlt := (List.getElem?_eq_some_iff.mp ht).1
    omega
  obtain ⟨-, hreports⟩ := c.reports_run hstart hvalue hdaemon₂
  obtain ⟨m, hbase, hm, hfield⟩ := hreports k _ report hk ht rfl
  have hcount : c.total w₂.daemon ≤ w₂.daemon.tasks.length := List.countP_le_length
  have hsmall : m < UInt64.size := by omega
  have hnat : (c.field report).toNat = m := by
    rw [hfield, hzero, UInt64.zero_add, UInt64.toNat_ofNat', Nat.mod_eq_of_lt hsmall]
  rw [hnat]
  exact ⟨hbase, hm⟩

/-- A scrape that failed shows no counter. -/
theorem valueOf_failed {x : Counter × Desc} (hx : x ∈ figures) (scrapeSec : ℚ) (e : ClientError) :
    valueOf x.2 (CryptodCollector.collect scrapeSec (.failed e)) = none := by
  obtain rfl | rfl | rfl := figures_cases hx <;> rfl

theorem value_new (hnew : CryptodState.new = .ok s₀) {x : Counter × Desc} (hx : x ∈ figures) :
    x.1.value s₀ = 0 := by
  cases hnew
  obtain rfl | rfl | rfl := figures_cases hx <;> rfl

/-- What a scrape shows of a counter, when its call was made after the first of two moments. -/
theorem value_between (hnew : CryptodState.new = .ok s₀)
    (hrun₁ : Run (Step pf.decoding) (new s₀) acts w₁) {acts₂ : List Act}
    (hrun₂ : Run (Step pf.decoding) w₁ acts₂ w₂) (hexact : w₂.daemon.tasks.length ≤ exactInts)
    (ht : w₂.ipc.calls[j]? = some ⟨.request .getStatus, .done line r⟩)
    (hlate : w₁.ipc.calls.length ≤ j) {scrapeSec v : ℚ} {x : Counter × Desc} (hx : x ∈ figures)
    (hv : valueOf x.2 (CryptodCollector.collect scrapeSec r) = some v) :
    x.1.total w₁.daemon ≤ v ∧ v ≤ x.1.total w₂.daemon := by
  obtain ⟨e, rfl⟩ | ⟨hd, report, rfl, hdelivered⟩ := getStatus_cases (hrun₁.append hrun₂) ht
  · rw [valueOf_failed hx] at hv
    cases hv
  · rw [valueOf_collect hx] at hv
    cases hv
    have hmentions : mentions j hd.line = true := by
      rw [hdelivered.own]
      exact mentions_tagged j _ (by simp [Ipc.requestLine])
    have hplace := length_le_task hrun₁ hrun₂ hdelivered.handled hmentions hlate
    have hwrap : w₂.daemon.tasks.length < UInt64.size := Nat.lt_of_le_of_lt hexact (by decide)
    obtain ⟨hlow, hhigh⟩ := field_between x.1 (value_new hnew hx) hrun₁ hrun₂ hwrap hplace
      hdelivered.answered
    exact ⟨Nat.cast_le.mpr hlow, Nat.cast_le.mpr hhigh⟩

/-- What the counters of a scrape count.  In every run, with any failures and any other clients, as
long as the daemon has not had more requests than a `float64` can count: a scrape whose call is made
after some moment and does not fail shows every counter; and what it shows is at least what was
counted up to that moment and no more than has been counted since, so no less than any scrape shows
that had returned at that moment. -/
theorem scrapes_between (pf : Platform) (s₀ : CryptodState) (hnew : CryptodState.new = .ok s₀)
    (acts₁ acts₂ : List Act) (w₁ w₂ : World) (hrun₁ : Run (Step pf.decoding) (new s₀) acts₁ w₁)
    (hrun₂ : Run (Step pf.decoding) w₁ acts₂ w₂)
    (hexact : w₂.daemon.tasks.length ≤ exactInts) (j : Nat) (line : List Tagged) (r : Returned)
    (ht : w₂.ipc.calls[j]? = some ⟨.request .getStatus, .done line r⟩)
    (hlate : w₁.ipc.calls.length ≤ j) (scrapeSec : ℚ) :
    ∀ x ∈ figures,
      ((∃ e, r = .failed e) ∨
        ∃ v, valueOf x.2 (CryptodCollector.collect scrapeSec r) = some v) ∧
      ∀ v, valueOf x.2 (CryptodCollector.collect scrapeSec r) = some v →
        (x.1.total w₁.daemon ≤ v ∧ v ≤ x.1.total w₂.daemon) ∧
          ∀ (i : Nat) (line' : List Tagged) (r' : Returned) (scrapeSec' v' : ℚ),
            w₁.ipc.calls[i]? = some ⟨.request .getStatus, .done line' r'⟩ →
            valueOf x.2 (CryptodCollector.collect scrapeSec' r') = some v' → v' ≤ v := by
  intro x hx
  constructor
  · obtain hfailed | ⟨hd, report, rfl, -⟩ := getStatus_cases (hrun₁.append hrun₂) ht
    · exact .inl hfailed
    · exact .inr ⟨_, valueOf_collect hx scrapeSec report⟩
  intro v hv
  have hbetween := value_between hnew hrun₁ hrun₂ hexact ht hlate hx hv
  refine ⟨hbetween, fun i line' r' scrapeSec' v' ht' hv' => ?_⟩
  -- the earlier scrape shows no more than has been counted when it has returned
  have hlength := (task_le_of_later hrun₂).1
  have hearlier := value_between hnew .nil hrun₁ (hlength.trans hexact) ht'
    (Nat.zero_le i) hx hv'
  exact hearlier.2.trans hbetween.1

namespace Kat

/-- Call `i`, for the `n`-th task of the daemon, on the connection there is or a new one. -/
def statusActs (i : Nat) (elapsed : UInt64) : List Act :=
  [.start (.request .getStatus), .client i .lock, .client i (.enter (.ok ()))] ++
    List.replicate 24 (.client i .write) ++ List.replicate 24 (.server 0 .receive) ++
    List.replicate 5 (.task i elapsed) ++
    [.server 0 (.respond (.status (report elapsed .aes256Gcm Cryptod.Kat.fresh)))] ++
    List.replicate 189 (.server 0 .send) ++ List.replicate 189 (.client i .fill) ++
    [.client i .readLine]

def statusLine (i : Nat) : List Tagged := tagged i (Ipc.requestLine .getStatus)

def reportLine (i : Nat) (elapsed : UInt64) : List Tagged :=
  tagged i (platform.serde.responseLine (.status (report elapsed .aes256Gcm Cryptod.Kat.fresh)))

/-- Call `i` when it has returned. -/
def statusCall (i : Nat) (elapsed : UInt64) : CallState :=
  ⟨.request .getStatus,
    .done (reportLine i elapsed) (.status (report elapsed .aes256Gcm Cryptod.Kat.fresh))⟩

/-- After the scrapes that returned with the given uptimes. -/
def scraped (uptimes : List UInt64) : World where
  posts := []
  ipc := {
    conns := [⟨true, [], [], .reading []⟩]
    log := ⟨uptimes.mapIdx fun i _ => statusLine i, uptimes.mapIdx fun i elapsed =>
      ⟨statusLine i, .status (report elapsed .aes256Gcm Cryptod.Kat.fresh)⟩⟩
    mu := none
    conn := some 0
    reader := some ⟨0, []⟩
    calls := uptimes.mapIdx statusCall }
  daemon := {
    shared := ⟨Cryptod.Kat.fresh, none⟩
    tasks := uptimes.map fun elapsed =>
      ⟨.getStatus, .done (.status (report elapsed .aes256Gcm Cryptod.Kat.fresh))⟩ }
  handlings := (uptimes.mapIdx fun i _ => ⟨0, i, statusLine i⟩).reverse

theorem scraped_once :
    Run (Step platform.decoding) (new Cryptod.Kat.fresh) (statusActs 0 7) (scraped [7]) :=
  run_of_exec (by decide +kernel)

theorem scraped_twice :
    Run (Step platform.decoding) (scraped [7]) (statusActs 1 9) (scraped [7, 9]) :=
  run_of_exec (by decide +kernel)

end Kat

/-- The one call has returned the report of its handler. -/
theorem monitors_agree_scraped : ∃ hd report, Delivered (Kat.scraped [7]) 0 .getStatus
    (.status (Cryptod.report 7 .aes256Gcm Cryptod.Kat.fresh)) hd .getStatus (.status report) ∧
    Shows report (CryptodCollector.collect (1 / 1000)
      (.status (Cryptod.report 7 .aes256Gcm Cryptod.Kat.fresh))) := by
  obtain ⟨e, he, -⟩ | ⟨hd, report, hdelivered, hshows, -⟩ := monitors_agree Kat.platform
    Cryptod.Kat.fresh (Kat.statusActs 0 7) (Kat.scraped [7]) Kat.scraped_once 0 (Kat.reportLine 0 7)
    (.status (Cryptod.report 7 .aes256Gcm Cryptod.Kat.fresh)) rfl (1 / 1000)
  · cases he
  · exact ⟨hd, report, hdelivered, hshows⟩

/-- Nothing is counted up to the first scrape, nor between it and the second. -/
theorem scrapes_between_scraped :
    Counter.sealed.total (Kat.scraped [7]).daemon ≤ (0 : ℚ) ∧
      (0 : ℚ) ≤ Counter.sealed.total (Kat.scraped [7, 9]).daemon := by
  have hfigure : (Counter.sealed, CryptodCollector.packetsSealed) ∈ figures := List.mem_cons_self
  exact ((scrapes_between Kat.platform Cryptod.Kat.fresh rfl (Kat.statusActs 0 7)
    (Kat.statusActs 1 9) (Kat.scraped [7]) (Kat.scraped [7, 9]) Kat.scraped_once Kat.scraped_twice
    (by decide) 1 (Kat.reportLine 1 9) (.status (Cryptod.report 9 .aes256Gcm Cryptod.Kat.fresh)) rfl
    (by decide) (1 / 1000) _ hfigure).2 0 (by rfl)).1

end Node

end SmartSfp
