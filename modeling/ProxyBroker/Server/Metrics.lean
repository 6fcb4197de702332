import Mathlib.Algebra.Order.BigOperators.Group.List
import ProxyBroker.Books
import ProxyBroker.Lib.Exposition
import ProxyBroker.Lib.Head
import ProxyBroker.Rotations

/-!
# The metrics endpoint (`server.rs`: `snapshot`, `render_metrics`, `serve_metrics`)

`render_metrics` reads three times: the vector once, under its lock (`snapshot`), then either counter. The rest of the
system moves in between. `renderMetrics` writes what was read as an exposition, and `metricsReply` is what the responder
writes to whoever connects. `metrics_scraped` says what a collector reads in it, in any interleaving.
-/

namespace ProxyBroker
open Lib

namespace Server

/-- `server.rs:PoolSnapshot`. -/
structure PoolSnapshot where
  http : Nat
  https : Nat
  total : Nat
  avgErrorRate : ℚ
  avgRespTime : ℚ
  probeLatencyAvg : ℚ
deriving DecidableEq, Repr

/-- What the loop over the proxies adds up. -/
structure Sums where
  http : Nat
  https : Nat
  err : ℚ
  rt : ℚ
  probe : ℚ

namespace Sums

def zero : Sums := ⟨0, 0, 0, 0, 0⟩

/-- One turn of the loop. -/
def add (s : Sums) (p : Proxy) : Sums where
  http := if p.servesScheme .http then s.http + 1 else s.http
  https := if p.servesScheme .https then s.https + 1 else s.https
  err := F64.add s.err p.errorRate
  rt := F64.add s.rt p.avgRespTime
  probe := F64.add s.probe p.probeLatency

/-- The snapshot of `total` proxies with these sums. -/
def snapshot (s : Sums) (total : Nat) : PoolSnapshot where
  http := s.http
  https := s.https
  total := total
  avgErrorRate := if 0 < total then F64.div s.err (F64.round total) else 0
  avgRespTime := if 0 < total then F64.div s.rt (F64.round total) else 0
  probeLatencyAvg := if 0 < total then F64.div s.probe (F64.round total) else 0

theorem foldl_add (s : Sums) (ps : List Proxy) :
    ps.foldl add s =
      ⟨s.http + ps.countP (·.servesScheme .http), s.https + ps.countP (·.servesScheme .https),
        (ps.map Proxy.errorRate).foldl F64.add s.err, (ps.map Proxy.avgRespTime).foldl F64.add s.rt,
        (ps.map Proxy.probeLatency).foldl F64.add s.probe⟩ := by
  induction ps generalizing s with
  | nil => simp
  | cons p ps ih =>
    rw [List.foldl_cons, ih]
    have next (n : Nat) (b : Bool) (k : Nat) : (if b = true then n + 1 else n) + k = n + (k + if b = true then 1 else 0) := by
      cases b
      · rfl
      · show n + 1 + k = n + (k + 1)
        omega
    simp only [add, List.countP_cons, List.map_cons, List.foldl_cons, next]

end Sums

/-- `Pool::snapshot`. -/
def Pool.snapshot (pool : Pool) : PoolSnapshot :=
  (pool.state.foldl (fun s e => s.add e.proxy) Sums.zero).snapshot pool.state.length

/-- The lines of `render_metrics`, from what it reads. -/
def metricsLines (s : PoolSnapshot) (evict rot : UInt64) : List Line :=
  [.note "HELP proxybroker_pool_size Proxies currently available in the pool.".toList,
    .note "TYPE proxybroker_pool_size gauge".toList,
    .sample "proxybroker_pool_size\x7bscheme=\"http\"\x7d".toList (showNat s.http),
    .sample "proxybroker_pool_size\x7bscheme=\"https\"\x7d".toList (showNat s.https),
    .note "HELP proxybroker_pool_error_rate_avg Mean proxy error rate over the pool.".toList,
    .note "TYPE proxybroker_pool_error_rate_avg gauge".toList,
    .sample "proxybroker_pool_error_rate_avg".toList (showFixed2 s.avgErrorRate),
    .note "HELP proxybroker_pool_resp_time_avg_seconds Mean proxy response time over the pool.".toList,
    .note "TYPE proxybroker_pool_resp_time_avg_seconds gauge".toList,
    .sample "proxybroker_pool_resp_time_avg_seconds".toList (showFixed2 s.avgRespTime),
    .note "HELP proxybroker_pool_probe_latency_avg_seconds Mean judge-probe latency (check-time) over the pool.".toList,
    .note "TYPE proxybroker_pool_probe_latency_avg_seconds gauge".toList,
    .sample "proxybroker_pool_probe_latency_avg_seconds".toList (showFixed2 s.probeLatencyAvg),
    .note "HELP proxybroker_evictions_total Proxies hard-evicted from the pool.".toList,
    .note "TYPE proxybroker_evictions_total counter".toList,
    .sample "proxybroker_evictions_total".toList (showNat evict.toNat),
    .note "HELP proxybroker_rotations_total Mid-request rotations to a different proxy.".toList,
    .note "TYPE proxybroker_rotations_total counter".toList,
    .sample "proxybroker_rotations_total".toList (showNat rot.toNat)]

/-- `render_metrics`. -/
def renderMetrics (s : PoolSnapshot) (evict rot : UInt64) : Text := expose (metricsLines s evict rot)

/-- What `serve_metrics` answers, whatever it is sent. -/
def metricsReply (s : PoolSnapshot) (evict rot : UInt64) : Bytes :=
  let body := utf8 (renderMetrics s evict rot)
  ascii "HTTP/1.1 200 OK\r\nContent-Type: text/plain; version=0.0.4\r\nContent-Length: " ++ utf8 (showNat body.length) ++
    ascii "\r\nConnection: close\r\n\r\n" ++ body

/-! ## The snapshot -/

/-- The float mean over the entries, zero over none. -/
def meanOver (f : Proxy → ℚ) (ps : List Proxy) : ℚ := if ps = [] then 0 else Precision.binary64.mean (ps.map f)

/-- **The loop counts and averages.** -/
theorem snapshot_eq (ps : List Proxy) :
    (ps.foldl Sums.add Sums.zero).snapshot ps.length =
      ⟨ps.countP (·.servesScheme .http), ps.countP (·.servesScheme .https), ps.length, meanOver Proxy.errorRate ps,
        meanOver Proxy.avgRespTime ps, meanOver Proxy.probeLatency ps⟩ := by
  have mean (f : Proxy → ℚ) :
      (if 0 < ps.length then F64.div ((ps.map f).foldl F64.add 0) (F64.round (ps.length : ℚ)) else 0) = meanOver f ps := by
    unfold meanOver
    cases ps with
    | nil => rfl
    | cons p ps =>
      rw [if_pos (by simp), if_neg (by simp), Precision.mean, List.length_map]
      rfl
  rw [Sums.foldl_add]
  simp only [Sums.snapshot, Sums.zero, mean, Nat.zero_add]

theorem snapshot_pool (pool : Pool) :
    pool.snapshot = ((pool.state.map Pooled.proxy).foldl Sums.add Sums.zero).snapshot (pool.state.map Pooled.proxy).length := by
  rw [Pool.snapshot, List.foldl_map, List.length_map]

/-! ## A collector -/

variable {s : PoolSnapshot} {evict rot : UInt64}

/-- What a collector makes of a reply: it cuts it at the first blank line, takes as much body as the head announces, and
reads the samples and their values. -/
def collect (reply : Bytes) : Option (List (Text × ℚ)) := do
  let (head, body) ← splitOnceAt [13, 10, 13, 10] reply
  let n ← (headerValue (head ++ [13, 10, 13, 10]) "Content-Length".toList).bind readDecimal
  if n = body.length then
    let samples ← scrape (fromUtf8Lossy body)
    samples.mapM fun s => (readDecimal s.2).map fun v => (s.1, v)
  else none

/-- The lines of the reply's head. -/
def replyLines (n : Nat) : List Text :=
  ["HTTP/1.1 200 OK".toList, "Content-Type: text/plain; version=0.0.4".toList, "Content-Length: ".toList ++ showNat n,
    "Connection: close".toList]

theorem metricsReply_head (s : PoolSnapshot) (evict rot : UInt64) :
    metricsReply s evict rot = headOf 13 10 ((replyLines (utf8 (renderMetrics s evict rot)).length).map utf8) ++
      utf8 (renderMetrics s evict rot) := by
  have front : ascii "HTTP/1.1 200 OK\r\nContent-Type: text/plain; version=0.0.4\r\nContent-Length: " =
      utf8 ("HTTP/1.1 200 OK".toList ++ ['\r', '\n'] ++ "Content-Type: text/plain; version=0.0.4".toList ++ ['\r', '\n'] ++
        "Content-Length: ".toList) := ascii_utf8 (by decide)
  have back : ascii "\r\nConnection: close\r\n\r\n" =
      utf8 (['\r', '\n'] ++ "Connection: close".toList ++ ['\r', '\n'] ++ ['\r', '\n']) := ascii_utf8 (by decide)
  rw [metricsReply, front, back, ← utf8_headOf, ← utf8_append, ← utf8_append]
  simp only [replyLines, headOf, List.append_assoc]

theorem replyLines_headLine (n : Nat) : ∀ l ∈ replyLines n, HeadLine '\n' l := by
  have digits : '\n' ∉ showNat n := not_mem_showNat (by decide) n
  intro l mem
  simp only [replyLines, List.mem_cons, List.not_mem_nil, or_false] at mem
  rcases mem with rfl | rfl | rfl | rfl
  · exact ⟨by decide, by decide⟩
  · exact ⟨by decide, by decide⟩
  · refine ⟨by simp, ?_⟩
    rw [List.mem_append, not_or]
    exact ⟨by decide, digits⟩
  · exact ⟨by decide, by decide⟩

theorem digit_not_white {c : Char} (digit : c.isDigit = true) : isWhitespace c = false := by
  have range := isDigit_range digit
  simp only [isWhitespace, Bool.or_eq_false_iff, Bool.and_eq_false_iff, decide_eq_false_iff_not, beq_eq_false_iff_ne]
  omega

/-- The head announces its number. -/
theorem headerValue_reply (n : Nat) :
    headerValue (headOf 13 10 ((replyLines n).map utf8)) "Content-Length".toList = some (showNat n) := by
  have clean : ∀ l ∈ replyLines n, '\n' ∉ l := fun l mem => (replyLines_headLine n l mem).2
  have other : ¬ isHeader "Content-Length".toList "Content-Type: text/plain; version=0.0.4".toList = true := by decide
  have here : isHeader "Content-Length".toList ("Content-Length: ".toList ++ showNat n) = true := rfl
  have value : ("Content-Length: ".toList ++ showNat n).drop ("Content-Length".toList.length + 1) = ' ' :: showNat n := rfl
  have white (c : Char) (mem : c ∈ showNat n) : isWhitespace c = false := digit_not_white (showNat_isDigit n c mem)
  rw [headerValue, ← utf8_headOf, lossy_utf8, lines_headOf clean]
  show Option.map _ (List.find? _ ("Content-Type: text/plain; version=0.0.4".toList :: ("Content-Length: ".toList ++ showNat n) :: _)) = _
  rw [List.find?_cons_of_neg other, List.find?_cons_of_pos here, Option.map_some, value, trim_spaced]
  · intro c first
    exact white c (List.mem_of_mem_head? first)
  · intro c last
    exact white c (List.mem_of_getLast? last)

/-- What is to be read: the averages to two decimals. -/
def readings (s : PoolSnapshot) (evict rot : UInt64) : List (Text × ℚ) :=
  [("proxybroker_pool_size\x7bscheme=\"http\"\x7d".toList, s.http), ("proxybroker_pool_size\x7bscheme=\"https\"\x7d".toList, s.https),
    ("proxybroker_pool_error_rate_avg".toList, round2 .exact s.avgErrorRate),
    ("proxybroker_pool_resp_time_avg_seconds".toList, round2 .exact s.avgRespTime),
    ("proxybroker_pool_probe_latency_avg_seconds".toList, round2 .exact s.probeLatencyAvg),
    ("proxybroker_evictions_total".toList, evict.toNat), ("proxybroker_rotations_total".toList, rot.toNat)]

theorem metricsLines_clean (s : PoolSnapshot) (evict rot : UInt64) : ∀ l ∈ metricsLines s evict rot, l.Clean := by
  have nat (n : Nat) : '\n' ∉ showNat n ∧ ' ' ∉ showNat n := ⟨not_mem_showNat (by decide) n, not_mem_showNat (by decide) n⟩
  have fixed (x : ℚ) : '\n' ∉ showFixed2 x ∧ ' ' ∉ showFixed2 x := by
    constructor
    all_goals
      intro mem
      have := showFixed2_clean x _ mem
      revert this
      decide
  have note (t : Text) (one : '\n' ∉ t) : Line.Clean (.note t) := one
  have sample (name : Text) {v : Text} (good : '\n' ∉ name ∧ name ≠ [] ∧ name.head? ≠ some '#') (value : '\n' ∉ v ∧ ' ' ∉ v) :
      Line.Clean (.sample name v) := ⟨good.1, good.2.1, good.2.2, value⟩
  intro l mem
  simp only [metricsLines, List.mem_cons, List.not_mem_nil, or_false] at mem
  rcases mem with rfl | rfl | rfl | rfl | rfl | rfl | rfl | rfl | rfl | rfl | rfl | rfl | rfl | rfl | rfl | rfl | rfl | rfl | rfl
  all_goals
    first
    | exact sample _ (by decide) (nat _)
    | exact sample _ (by decide) (fixed _)
    | exact note _ (by decide)

/-- **A collector reads what was read of the pool**, where no average is negative. -/
theorem collect_metricsReply (rate : 0 ≤ s.avgErrorRate) (time : 0 ≤ s.avgRespTime) (probe : 0 ≤ s.probeLatencyAvg) :
    collect (metricsReply s evict rot) = some (readings s evict rot) := by
  have lines := headLines_utf8 (replyLines_headLine (utf8 (renderMetrics s evict rot)).length)
  have differ : (13 : UInt8) ≠ 10 := by decide
  obtain ⟨head, whole, cut⟩ := splitOnceAt_headOf differ lines (by simp [replyLines]) (utf8 (renderMetrics s evict rot))
  have announced := headerValue_reply (utf8 (renderMetrics s evict rot)).length
  rw [whole] at announced
  have samples : scrape (renderMetrics s evict rot) = some ((metricsLines s evict rot).filterMap Line.reading) :=
    scrape_expose (metricsLines_clean s evict rot)
  unfold collect
  rw [metricsReply_head, cut]
  show (Option.bind ((headerValue (head ++ [13, 10, 13, 10]) "Content-Length".toList).bind readDecimal) _) = _
  rw [announced, Option.bind_some, readDecimal_showNat, Option.bind_some, if_pos rfl, lossy_utf8, samples]
  simp only [Option.bind_eq_bind, Option.bind_some, metricsLines, List.filterMap_cons, Line.reading, List.filterMap_nil,
    List.mapM_cons, List.mapM_nil, readDecimal_showNat,
    readDecimal_showFixed2 rate, readDecimal_showFixed2 time, readDecimal_showFixed2 probe]
  rfl

/-! ## No average is negative -/

theorem round2_nonneg {x : ℚ} (nonneg : 0 ≤ x) : 0 ≤ round2 .binary64 x := by
  have whole : (0 : ℤ) ≤ roundHalfEven (x * 100) := le_roundHalfEven (by push_cast; linarith)
  apply F64.round_nonneg
  exact div_nonneg (by exact_mod_cast whole) (by norm_num)

theorem meanOver_nonneg {f : Proxy → ℚ} {ps : List Proxy} (nonneg : ∀ p ∈ ps, 0 ≤ f p) : 0 ≤ meanOver f ps := by
  unfold meanOver
  split
  · exact le_refl 0
  · apply Precision.mean_nonneg
    intro x mem
    obtain ⟨p, at_p, rfl⟩ := List.mem_map.1 mem
    exact nonneg p at_p

/-- Times are not negative. -/
structure Timed (p : Proxy) : Prop where
  runtimes : ∀ r ∈ p.runtimes, 0 ≤ r
  probes : ∀ r ∈ p.probeRuntimes, 0 ≤ r

theorem errorRate_nonneg (p : Proxy) : 0 ≤ p.errorRate := by
  unfold Proxy.errorRate
  split
  · exact le_refl 0
  · apply round2_nonneg
    exact F64.round_nonneg (div_nonneg (Nat.cast_nonneg _) (Nat.cast_nonneg _))

theorem Timed.avgRespTime {p : Proxy} (timed : Timed p) : 0 ≤ p.avgRespTime := by
  unfold Proxy.avgRespTime
  split
  · exact le_refl 0
  · exact round2_nonneg (Precision.binary64.mean_nonneg timed.runtimes)

theorem Timed.probeLatency {p : Proxy} (timed : Timed p) : 0 ≤ p.probeLatency := by
  unfold Proxy.probeLatency
  split
  · exact le_refl 0
  · exact round2_nonneg (Precision.binary64.mean_nonneg timed.probes)

/-- Serving measures nothing that is negative. -/
theorem Timed.recordAll {q : Proxy} (timed : Timed q) (os : List Served) : Timed (Served.recordAll q os) := by
  have probes : (Served.recordAll q os).probeRuntimes = q.probeRuntimes := by
    induction os using List.reverseRecOn with
    | nil => rfl
    | append_singleton os o ih =>
      rw [Sys.recordAll_concat, ← ih]
      rcases o with (_ | e | e | _) | (_ | e) <;> rfl
  constructor
  · intro r mem
    rw [Served.runtimes_recordAll, List.mem_append] at mem
    rcases mem with old | new
    · exact timed.runtimes r old
    · rw [List.eq_of_mem_replicate new]
  · rw [probes]
    exact timed.probes

end Server

/-! ## In the running system -/

open Server

namespace Task
variable {sh sh' : Shared} {t t' : Task} {i : Input}

/-- The count of rotations is left alone or raised. -/
theorem rotations_grow (h : t.step sh i = some (sh', t')) : ∃ n ≤ 1, sh'.pool.rotations = sh.pool.rotations + .ofNat n := by
  have same {r : UInt64} (eq : r = sh.pool.rotations) : ∃ n ≤ 1, r = sh.pool.rotations + .ofNat n :=
    ⟨0, Nat.zero_le 1, eq.trans (UInt64.add_zero _).symm⟩
  cases step_move h with
  | lease _ moved => exact same (Lease.step_rotations moved)
  | @put now p failed =>
    obtain ⟨state, evictions, eq⟩ := sh.putBack_frame p failed now
    exact same (by rw [eq])
  | rotate => exact ⟨1, le_rfl, rfl⟩
  | io | deliver | notify | remove | lookUp | record => exact same rfl

end Task

namespace Sys
variable {s t u v : Sys} {b : Books} {i : Input} {is js ks : List Input}

/-- How far the two counters get in a number of steps. -/
structure Grown (t u : Sys) (steps : Nat) : Prop where
  evicted : t.shared.evicted.length ≤ u.shared.evicted.length
  few : u.shared.evicted.length ≤ t.shared.evicted.length + steps
  rotations : ∃ n ≤ steps, u.pool.rotations = t.pool.rotations + .ofNat n

theorem grown_step (kept : t.Kept) (h : step t i = some u) : Grown t u 1 where
  evicted := (step_out kept h).1.length_le
  few := by
    rcases step_cases kept.sound h with ⟨⟨_, _, _, -, -, effect⟩, -, -⟩ | ⟨p, admits⟩
    · exact effect.evicted_length
    · obtain ⟨epoch, shared⟩ := admits.shared
      rw [shared]
      exact Nat.le_succ _
  rotations := by
    by_cases inside : ∃ n j, i = .task n j
    · obtain ⟨n, j, rfl⟩ := inside
      cases step_move h with
      | task _ moved => exact Task.rotations_grow moved
    · exact ⟨0, Nat.zero_le 1, (step_outside (fun n j same => inside ⟨n, j, same⟩) h).2.trans (UInt64.add_zero _).symm⟩

/-- Neither counter runs backwards, and neither runs ahead of the steps. -/
theorem grown_run (kept : t.Kept) (h : run step t js = some u) : u.Kept ∧ Grown t u js.length := by
  refine run_reached (P := fun js u => Sys.Kept u ∧ Grown t u js.length) ?_
    ⟨kept, Nat.le_refl _, Nat.le_refl _, 0, Nat.le_refl _, (UInt64.add_zero _).symm⟩ h
  rintro js v i w - ⟨kept, evicted, few, n, le, rotations⟩ next
  obtain ⟨evicted', few', m, le', rotations'⟩ := grown_step kept next
  rw [List.length_append, List.length_singleton]
  refine ⟨kept_step kept next, evicted.trans evicted', by omega, n + m, by omega, ?_⟩
  rw [rotations', rotations, UInt64.ofNat_add, UInt64.add_assoc]

/-- What the counters show after a run that is shorter than they are wide. -/
theorem counters_run (start : Initial s) (h : run step s is = some t) (short : is.length < 2 ^ 64) :
    t.pool.evictions.toNat = t.shared.evicted.length ∧ t.shared.evicted.length ≤ is.length ∧ t.pool.rotations.toNat ≤ is.length := by
  have fresh : s.shared.evicted.length = 0 ∧ s.pool.rotations = 0 := by
    rcases start with ⟨auth, proxies, config, rfl⟩ | ⟨auth, config, rfl⟩ <;> exact ⟨rfl, rfl⟩
  obtain ⟨kept, -, few, n, le, rotations⟩ := grown_run (kept_initial start) h
  rw [fresh.1] at few
  rw [fresh.2, UInt64.zero_add] at rotations
  refine ⟨?_, by omega, ?_⟩
  · rw [kept.counted, UInt64.toNat_ofNat_of_lt' (by change _ < 2 ^ 64; omega)]
  · rw [rotations, UInt64.toNat_ofNat_of_lt' (by change _ < 2 ^ 64; omega)]
    exact le

/-- **The metrics endpoint.** In every interleaving, where no proxy was supplied with a negative time: `render_metrics`
reads the vector in one state, the evictions in a later one and the rotations in a still later one. A collector that
reads the reply as a response and its body as an exposition gets the number of entries of the first state that serve
either scheme, the float means of their error rates, response times and probe latencies to two decimals, the number of
instances evicted by the second state, and the count of rotations of the third; and neither counter is lower in a later
reply. The whole run is shorter than the counters are wide. -/
theorem metrics_scraped (start : Initial s) (h : run (noting step observe) (s, s.opening) is = some (t, b))
    (timed : ∀ q ∈ b.supplied, Timed q) (evict : run step t js = some u) (rot : run step u ks = some v)
    (short : (is ++ js ++ ks).length < 2 ^ 64) :
    collect (metricsReply t.pool.snapshot u.pool.evictions v.pool.rotations) = some
      [("proxybroker_pool_size\x7bscheme=\"http\"\x7d".toList, ((t.shared.values.countP (·.servesScheme .http) : Nat) : ℚ)),
        ("proxybroker_pool_size\x7bscheme=\"https\"\x7d".toList, t.shared.values.countP (·.servesScheme .https)),
        ("proxybroker_pool_error_rate_avg".toList, round2 .exact (meanOver Proxy.errorRate t.shared.values)),
        ("proxybroker_pool_resp_time_avg_seconds".toList, round2 .exact (meanOver Proxy.avgRespTime t.shared.values)),
        ("proxybroker_pool_probe_latency_avg_seconds".toList, round2 .exact (meanOver Proxy.probeLatency t.shared.values)),
        ("proxybroker_evictions_total".toList, u.shared.evicted.length),
        ("proxybroker_rotations_total".toList, v.pool.rotations.toNat)] ∧
    ∀ ls w, run step v ls = some w → (is ++ js ++ ks ++ ls).length < 2 ^ 64 →
      u.pool.evictions ≤ w.pool.evictions ∧ v.pool.rotations ≤ w.pool.rotations := by
  have balanced := balanced_run start h
  have plain : run step s is = some t := run_of_noting h
  have to_u : run step s (is ++ js) = some u := (run_append plain).trans evict
  have to_v : run step s (is ++ js ++ ks) = some v := (run_append to_u).trans rot
  simp only [List.length_append] at short ⊢
  have entries : ∀ p ∈ t.shared.values, Timed p := by
    intro p mem
    obtain ⟨q, supplied, told⟩ := balanced.tells p (List.mem_append_left _ mem)
    rw [told]
    exact (timed q (List.mem_of_getElem? supplied)).recordAll _
  have snapshot : t.pool.snapshot =
      ⟨t.shared.values.countP (·.servesScheme .http), t.shared.values.countP (·.servesScheme .https), t.shared.values.length,
        meanOver Proxy.errorRate t.shared.values, meanOver Proxy.avgRespTime t.shared.values,
        meanOver Proxy.probeLatency t.shared.values⟩ := (snapshot_pool t.pool).trans (snapshot_eq t.shared.values)
  obtain ⟨counted, few, -⟩ := counters_run start to_u (by rw [List.length_append]; omega)
  refine ⟨?_, fun ls w later shorter => ?_⟩
  · rw [collect_metricsReply, readings, snapshot, counted]
    · rw [snapshot]
      exact meanOver_nonneg fun p _ => errorRate_nonneg p
    · rw [snapshot]
      exact meanOver_nonneg fun p mem => (entries p mem).avgRespTime
    · rw [snapshot]
      exact meanOver_nonneg fun p mem => (entries p mem).probeLatency
  · obtain ⟨kept_u, -⟩ := grown_run balanced.kept evict
    obtain ⟨kept_v, evicted, -⟩ := grown_run kept_u rot
    obtain ⟨-, evicted', -, n, le, rotations⟩ := grown_run kept_v later
    have at_w : run step s (is ++ js ++ ks ++ ls) = some w := (run_append to_v).trans later
    obtain ⟨-, -, at_v⟩ := counters_run start to_v (by simp only [List.length_append]; omega)
    obtain ⟨counted', -⟩ := counters_run start at_w (by simp only [List.length_append]; omega)
    simp only [List.length_append] at at_v
    constructor
    · rw [UInt64.le_iff_toNat_le, counted, counted']
      exact evicted.trans evicted'
    · rw [rotations, UInt64.le_iff_toNat_le, UInt64.toNat_add, UInt64.toNat_ofNat_of_lt' (by change n < 2 ^ 64; omega),
        Nat.mod_eq_of_lt (by omega)]
      exact Nat.le_add_right _ _

/-- The metrics in the course of the failed dial of `evicted_by_books_connector`: the vector is read before the proxy is
put back, the counters after its eviction. -/
theorem metrics_scraped_connector :
    ∃ t b u, run (noting step observe) (strict, strict.opening) (connecting ++ failing.take 1) = some (t, b) ∧
      run step t (failing.drop 1 |>.take 1) = some u ∧
      (collect (metricsReply t.pool.snapshot u.pool.evictions u.pool.rotations)).bind
        (List.lookup "proxybroker_evictions_total".toList) = some 1 := by
  have ran : (run (noting step observe) (strict, strict.opening) (connecting ++ failing.take 1)).bind
      (fun w => (run step w.1 (failing.drop 1 |>.take 1)).map fun u =>
        (u.shared.evicted.length, w.2.supplied.map fun q => (q.runtimes, q.probeRuntimes))) = some (1, [([], [])]) := by
    decide +kernel
  obtain ⟨⟨t, b⟩, ran, out⟩ := Option.bind_eq_some_iff.1 ran
  obtain ⟨u, put, out⟩ := Option.map_eq_some_iff.1 out
  obtain ⟨evicted, times⟩ := Prod.mk.inj out
  have timed : ∀ q ∈ b.supplied, Timed q := by
    intro q mem
    have here := List.mem_map_of_mem (f := fun q : Proxy => (q.runtimes, q.probeRuntimes)) mem
    rw [times, List.mem_singleton, Prod.mk.injEq] at here
    exact ⟨by simp [here.1], by simp [here.2]⟩
  obtain ⟨read, -⟩ := metrics_scraped (Or.inl ⟨_, _, _, rfl⟩) ran timed put run_nil (by decide)
  refine ⟨t, b, u, ran, put, ?_⟩
  rw [read, evicted]
  rfl

end Sys

end ProxyBroker
