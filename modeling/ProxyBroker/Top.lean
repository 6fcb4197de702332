import ProxyBroker.Lib.Window
import ProxyBroker.Render
import ProxyBroker.Server.Metrics

/-!
# The dashboard (`tui.rs`)

`DashboardState` is rebuilt from the pool at every tick and changed by keys; `render` is what a frame shows, as texts and
numbers. The dashboard runs beside everything else that uses the pool, so its machine is a step of the system, a draw, or
an event of the terminal. `top_shows` says what is on the screen after any of these, given the vectors it was handed so far.
-/

namespace ProxyBroker
open Lib Server

/-- `Pool::proxies`. -/
def Server.Pool.proxies (pool : Pool) : List Proxy := pool.state.map Pooled.proxy

/-- `str::cmp(..).is_le()`: the order of the bytes of UTF-8 is that of the characters. -/
def textLe : Text → Text → Bool
  | [], _ => true
  | _ :: _, [] => false
  | x :: s, y :: t => x.toNat < y.toNat || (x.toNat == y.toNat && textLe s t)

theorem textLe_total (s t : Text) : (textLe s t || textLe t s) = true := by
  induction s generalizing t with
  | nil => rfl
  | cons x s ih =>
    cases t with
    | nil => rfl
    | cons y t =>
      have rest := ih t
      simp only [textLe, Bool.or_eq_true, Bool.and_eq_true, decide_eq_true_eq, beq_iff_eq] at rest ⊢
      rcases Nat.lt_trichotomy x.toNat y.toNat with less | same | more
      · exact Or.inl (Or.inl less)
      · exact rest.imp (fun le => Or.inr ⟨same, le⟩) fun le => Or.inr ⟨same.symm, le⟩
      · exact Or.inr (Or.inl more)

theorem textLe_trans {s t u : Text} (first : textLe s t = true) (second : textLe t u = true) : textLe s u = true := by
  induction s generalizing t u with
  | nil => rfl
  | cons x s ih =>
    cases t with
    | nil => cases first
    | cons y t =>
      cases u with
      | nil => cases second
      | cons z u =>
        simp only [textLe, Bool.or_eq_true, Bool.and_eq_true, decide_eq_true_eq, beq_iff_eq] at first second ⊢
        rcases first with less | ⟨same, front⟩
        · omega
        · rcases second with less | ⟨same', back⟩
          · omega
          · exact Or.inr ⟨same.trans same', ih front back⟩

namespace Top

/-- `tui.rs:Row`. -/
structure Row where
  key : Addr
  addr : Text
  protos : Text
  errorRate : ℚ
  respTime : ℚ
  country : Text

/-- `tui.rs:SortKey`. -/
inductive SortKey where
  | addr | errorRate | respTime | country
deriving DecidableEq, Repr

/-- `RING_CAP`. -/
def ringCap : Nat := 60

/-- `tui.rs:DashboardState`. -/
structure DashboardState where
  rows : List Row
  snapshot : PoolSnapshot
  sort : SortKey
  history : List (Addr × List ℚ)
  selected : Nat

/-- `DashboardState::default`. -/
def DashboardState.default : DashboardState := ⟨[], ⟨0, 0, 0, 0, 0, 0⟩, .respTime, [], 0⟩

/-- The row of a proxy. -/
def Row.of (p : Proxy) : Row where
  key := p.addr
  addr := p.addrText
  protos := joinText [','] (p.typeKeys.map Proto.asStr)
  errorRate := p.errorRate
  respTime := p.avgRespTime
  country := p.geo.elim [] Country.code

/-- The comparison of `sort_rows`. -/
def SortKey.le : SortKey → Row → Row → Bool
  | .addr, a, b => textLe a.addr b.addr
  | .errorRate, a, b => a.errorRate ≤ b.errorRate
  | .respTime, a, b => a.respTime ≤ b.respTime
  | .country, a, b => textLe a.country b.country

theorem SortKey.le_total (k : SortKey) (a b : Row) : (k.le a b || k.le b a) = true := by
  cases k with
  | addr => exact textLe_total a.addr b.addr
  | country => exact textLe_total a.country b.country
  | errorRate | respTime =>
    simp only [le, Bool.or_eq_true, decide_eq_true_eq]
    exact Rat.le_total

theorem SortKey.le_trans (k : SortKey) {a b c : Row} (first : k.le a b = true) (second : k.le b c = true) : k.le a c = true := by
  cases k with
  | addr | country => exact textLe_trans first second
  | errorRate | respTime =>
    simp only [le, decide_eq_true_eq] at first second ⊢
    exact first.trans second

namespace DashboardState

/-- `sort_rows`. `sort_by` is stable. -/
def sortRows (d : DashboardState) : DashboardState := { d with rows := d.rows.mergeSort d.sort.le }

/-- `apply`. -/
def apply (d : DashboardState) (proxies : List Proxy) : DashboardState :=
  let d := { d with rows := proxies.map Row.of }
  let d := { d with history := proxies.foldl (fun rings (p : Proxy) => ringPush ringCap rings p.addr p.avgRespTime) d.history }
  let d := { d with snapshot := (proxies.foldl Sums.add Sums.zero).snapshot proxies.length }
  let d := d.sortRows
  { d with selected := min d.selected (d.rows.length - 1) }

end DashboardState

/-- The keys that `on_key` tells apart. -/
inductive KeyCode where
  | char (c : Char)
  | esc
  | down
  | up
  | other
deriving DecidableEq, Repr

/-- The column that a key sorts by. -/
def sortKey : KeyCode → Option SortKey
  | .char 'a' => some .addr
  | .char 'e' => some .errorRate
  | .char 'r' => some .respTime
  | .char 'c' => some .country
  | _ => none

/-- `on_key`, with whether to go on. -/
def DashboardState.onKey (d : DashboardState) (key : KeyCode) : DashboardState × Bool :=
  if key = .char 'q' ∨ key = .esc then (d, false)
  else
    match sortKey key with
    | some k => (({ d with sort := k }).sortRows, true)
    | none =>
      if key = .down ∨ key = .char 'j' then
        (if d.rows = [] then d else { d with selected := min (d.selected + 1) (d.rows.length - 1) }, true)
      else if key = .up ∨ key = .char 'k' then ({ d with selected := d.selected - 1 }, true)
      else (d, true)

/-- `(secs * 1000.0).round() as u64`, of a time that is not negative. -/
def millis (secs : ℚ) : Nat := ⌊F64.mul secs 1000 + 1 / 2⌋.toNat

/-- What a frame shows: the header line, the cells of the table, and the sparkline. -/
structure Frame where
  header : Text
  cells : List (List Text)
  spark : List Nat
deriving DecidableEq, Repr

/-- `render`, up to the drawing of the widgets. -/
def render (d : DashboardState) : Frame where
  header := "total ".toList ++ showNat d.snapshot.total ++ " | http ".toList ++ showNat d.snapshot.http ++ " | https ".toList ++
    showNat d.snapshot.https ++ " | avg err ".toList ++ showFixed2 d.snapshot.avgErrorRate ++ " | avg resp ".toList ++
    showFixed2 d.snapshot.avgRespTime ++ "s".toList
  cells := d.rows.map fun r => [r.addr, r.protos, showFixed2 r.errorRate, showFixed2 r.respTime, r.country]
  spark := ((d.rows[d.selected]?).bind fun r => d.history.lookup r.key).elim [] (List.map millis)

/-! ## The loop -/

/-- Where `run_top` stands: before a draw, in the `select!`, or after the loop. -/
inductive Phase where
  | drawing | waiting | left
deriving DecidableEq, Repr

/-- The system, the dashboard, the frame that was drawn last, and where the loop stands. -/
structure State where
  sys : Sys
  dash : DashboardState
  screen : Option Frame
  phase : Phase

/-- A step of the system; a draw, with whether the terminal took the frame; or an event of the `select!`: a tick, a key
event, another terminal event, a failed or ended event stream. -/
inductive Input where
  | system (i : Sys.Input)
  | draw (ok : Bool)
  | tick
  | key (code : KeyCode) (press : Bool)
  | other
  | failed
  | ended

/-- `run_top`, up to its loop. -/
def opened (s : Sys) : State := ⟨s, DashboardState.default.apply s.pool.proxies, none, .drawing⟩

/-- The arm of the `select!` that an event takes: the dashboard, and whether the loop goes on. -/
def arm (w : State) : Input → Option (DashboardState × Bool)
  | .tick => some (w.dash.apply w.sys.pool.proxies, true)
  | .key code true => some (w.dash.onKey code)
  | .key _ false | .other => some (w.dash, true)
  | .failed | .ended => some (w.dash, false)
  | .system _ | .draw _ => none

/-- One step of the system, or of the loop. -/
def step (w : State) (i : Input) : Option State :=
  match w.phase, i with
  | _, .system i => (Sys.step w.sys i).map fun s => { w with sys := s }
  | .drawing, .draw true => some { w with screen := some (render w.dash), phase := .waiting }
  -- `term.draw(..)?`
  | .drawing, .draw false => some { w with phase := .left }
  | .waiting, i => (arm w i).map fun r => { w with dash := r.1, phase := if r.2 then .drawing else .left }
  | _, _ => none

/-- The vectors that the dashboard was handed. -/
def reads (rs : List (List Proxy)) (w : State) (i : Input) (_ : State) : List (List Proxy) :=
  match i with
  | .tick => rs ++ [w.sys.pool.proxies]
  | _ => rs

/-- What ends the loop. -/
def quits : Input → Bool
  | .draw ok => !ok
  | .key code true => code == .char 'q' || code == .esc
  | .failed | .ended => true
  | _ => false

/-- The response times that were read for an address, in order. -/
def samples (rs : List (List Proxy)) (a : Addr) : List ℚ := rs.flatMap fun ps => (ps.filter fun p => p.addr = a).map Proxy.avgRespTime

/-! ## What is on the screen -/

variable {d : DashboardState} {ps : List Proxy} {rs : List (List Proxy)} {w : State} {is : List Input}

/-- The dashboard shows the last of the vectors it was handed. -/
structure Shows (rs : List (List Proxy)) (d : DashboardState) : Prop where
  last : ∃ before ps, rs = before ++ [ps] ∧ d.rows.Perm (ps.map Row.of) ∧
    d.snapshot = (ps.foldl Sums.add Sums.zero).snapshot ps.length
  sorted : d.rows.Pairwise fun a b => d.sort.le a b = true
  inside : d.rows ≠ [] → d.selected < d.rows.length
  rings : ∀ a, d.history.lookup a = ringOf ringCap (samples rs a)

theorem sorted_sortRows (d : DashboardState) : d.sortRows.rows.Pairwise fun a b => d.sort.le a b = true := by
  have trans (a b c : Row) (first : d.sort.le a b = true) (second : d.sort.le b c = true) : d.sort.le a c = true :=
    d.sort.le_trans first second
  exact List.pairwise_mergeSort trans d.sort.le_total d.rows

theorem perm_sortRows (d : DashboardState) : d.sortRows.rows.Perm d.rows := List.mergeSort_perm _ _

theorem samples_concat (rs : List (List Proxy)) (ps : List Proxy) (a : Addr) :
    samples (rs ++ [ps]) a = samples rs a ++ (ps.filter fun p => p.addr = a).map Proxy.avgRespTime := by
  simp [samples]

/-- A read of the pool. -/
theorem shows_apply (rings : ∀ a, d.history.lookup a = ringOf ringCap (samples rs a)) (ps : List Proxy) :
    Shows (rs ++ [ps]) (d.apply ps) := by
  have rows := perm_sortRows { d with rows := ps.map Row.of }
  refine ⟨⟨rs, ps, rfl, rows, rfl⟩, sorted_sortRows { d with rows := ps.map Row.of }, ?_, ?_⟩
  · intro nonempty
    have pos := List.length_pos_of_ne_nil nonempty
    show min d.selected ((d.apply ps).rows.length - 1) < (d.apply ps).rows.length
    omega
  · intro a
    have pushed := lookup_pushAll rings (ps.map fun p => (p.addr, p.avgRespTime)) a
    rw [List.foldl_map] at pushed
    rw [samples_concat]
    show List.lookup a (ps.foldl (fun rings (p : Proxy) => ringPush ringCap rings p.addr p.avgRespTime) d.history) = _
    rw [pushed, List.filter_map, List.map_map]
    rfl

/-- A key moves the selection or sorts the rows again. -/
theorem shows_onKey (shows : Shows rs d) (key : KeyCode) : Shows rs (d.onKey key).1 := by
  unfold DashboardState.onKey
  split
  · exact shows
  · split
    · rename_i k _
      obtain ⟨before, ps, eq, rows, snapshot⟩ := shows.last
      have perm := perm_sortRows { d with sort := k }
      refine ⟨⟨before, ps, eq, perm.trans rows, snapshot⟩, sorted_sortRows { d with sort := k }, ?_, shows.rings⟩
      intro nonempty
      have some : d.rows ≠ [] := by
        intro empty
        exact nonempty (List.perm_nil.1 (empty ▸ perm))
      show d.selected < (DashboardState.sortRows { d with sort := k }).rows.length
      rw [perm.length_eq]
      exact shows.inside some
    · split
      · split
        · exact shows
        · rename_i some
          refine ⟨shows.last, shows.sorted, ?_, shows.rings⟩
          intro _
          have pos := List.length_pos_of_ne_nil some
          show min (d.selected + 1) (d.rows.length - 1) < d.rows.length
          omega
      · split
        · refine ⟨shows.last, shows.sorted, ?_, shows.rings⟩
          intro some
          have before := shows.inside some
          show d.selected - 1 < d.rows.length
          omega
        · exact shows

theorem onKey_on (d : DashboardState) (key : KeyCode) : (d.onKey key).2 = !(key == .char 'q' || key == .esc) := by
  unfold DashboardState.onKey
  split
  · rename_i quit
    rcases quit with rfl | rfl <;> rfl
  · rename_i stay
    rw [not_or] at stay
    have both : (key == .char 'q' || key == .esc) = false := by simp [stay.1, stay.2]
    rw [both]
    split
    · rfl
    · split
      · rfl
      · split <;> rfl

/-- The row that is selected has a ring, which ends in what was read for its address. -/
theorem Shows.ring (shows : Shows rs d) {r : Row} (mem : r ∈ d.rows) :
    d.history.lookup r.key = some (lastN ringCap (samples rs r.key)) ∧ r.respTime ∈ samples rs r.key := by
  obtain ⟨before, ps, eq, rows, -⟩ := shows.last
  obtain ⟨p, at_p, rfl⟩ := List.mem_map.1 (rows.mem_iff.1 mem)
  have here : (Row.of p).respTime ∈ samples rs (Row.of p).key := by
    rw [eq, samples_concat]
    refine List.mem_append_right _ (List.mem_map.2 ⟨p, ?_, rfl⟩)
    exact List.mem_filter.2 ⟨at_p, by simp [Row.of]⟩
  refine ⟨?_, here⟩
  rw [shows.rings, ringOf, if_neg (List.ne_nil_of_mem here)]

/-- What an arm of the `select!` does. -/
theorem shows_arm (shows : Shows rs w.dash) {i : Input} {r : DashboardState × Bool} (taken : arm w i = some r) :
    Shows (reads rs w i w) r.1 ∧ r.2 = !quits i := by
  cases i with
  | system | draw => cases taken
  | tick =>
    cases taken
    exact ⟨shows_apply shows.rings _, rfl⟩
  | key code press =>
    cases press with
    | true =>
      cases taken
      exact ⟨shows_onKey shows code, onKey_on w.dash code⟩
    | false =>
      cases taken
      exact ⟨shows, rfl⟩
  | other | failed | ended =>
    cases taken
    exact ⟨shows, rfl⟩

/-- What holds of the loop: the dashboard shows the last vector, and while the loop waits so does the screen. -/
structure Looping (rs : List (List Proxy)) (w : State) : Prop where
  shows : Shows rs w.dash
  drawn : w.phase = .waiting → w.screen = some (render w.dash)

/-- **One step**: it keeps the loop looping, and the loop is left exactly at what ends it. -/
theorem looping_step {x : State} {i : Input} (looping : Looping rs w) (h : step w i = some x) :
    Looping (reads rs w i x) x ∧ (x.phase ≠ .left ↔ w.phase ≠ .left ∧ quits i = false) := by
  unfold step at h
  split at h
  · obtain ⟨t, -, rfl⟩ := Option.map_eq_some_iff.1 h
    exact ⟨⟨looping.shows, looping.drawn⟩, (and_iff_left rfl).symm⟩
  · rename_i at_w
    cases h
    exact ⟨⟨looping.shows, fun _ => rfl⟩, by simp [at_w, quits]⟩
  · rename_i at_w
    cases h
    exact ⟨⟨looping.shows, by simp⟩, by simp [quits]⟩
  · rename_i i _ _ at_w _
    obtain ⟨r, taken, rfl⟩ := Option.map_eq_some_iff.1 h
    obtain ⟨shows, on⟩ := shows_arm looping.shows taken
    constructor
    · have same : reads rs w i w = reads rs w i { w with dash := r.1, phase := if r.2 then .drawing else .left } := by
        cases i <;> rfl
      rw [← same]
      refine ⟨shows, ?_⟩
      dsimp only
      split <;> simp
    · rw [on, at_w]
      cases quits i <;> simp
  · cases h

/-- **What the dashboard shows.** After any interleaving of steps of the system, draws and events of the terminal: the rows
are those of the vector it was handed last, each once and in the order of the chosen column, and the header is that vector's
snapshot; a row is selected when there is one, and its sparkline is not empty and holds the last sixty response times
that were read for its address, in milliseconds; while the loop waits all this is on the screen; and the loop runs as long
as no draw failed and no event ended it. -/
theorem top_shows (s : Sys) (h : run (noting step reads) (opened s, [s.pool.proxies]) is = some (w, rs)) :
    (∃ before ps, rs = before ++ [ps] ∧ w.dash.rows.Perm (ps.map Row.of) ∧
      ∀ pool : Pool, pool.proxies = ps → w.dash.snapshot = pool.snapshot) ∧
    (w.dash.rows.Pairwise fun a b => w.dash.sort.le a b = true) ∧
    (w.dash.rows ≠ [] → ∃ r, w.dash.rows[w.dash.selected]? = some r ∧
      (render w.dash).spark = (lastN ringCap (samples rs r.key)).map millis ∧ (render w.dash).spark ≠ []) ∧
    (w.phase = .waiting → w.screen = some (render w.dash)) ∧
    (w.phase ≠ .left ↔ ∀ i ∈ is, quits i = false) := by
  have start : Shows [s.pool.proxies] (opened s).dash :=
    show Shows ([] ++ [s.pool.proxies]) (opened s).dash from shows_apply (d := .default) (fun _ => rfl) s.pool.proxies
  have inv : Looping rs w ∧ (w.phase ≠ .left ↔ ∀ i ∈ is, quits i = false) := by
    refine run_history (P := fun is x => Looping x.2 x.1 ∧ (x.1.phase ≠ .left ↔ ∀ i ∈ is, quits i = false)) ?_
      ⟨⟨start, by simp [opened]⟩, by simp [opened]⟩ h
    rintro is ⟨w, rs⟩ i ⟨x, rs'⟩ ⟨looping, runs⟩ next
    obtain ⟨moved, eq⟩ := noting_eq next
    obtain ⟨kept, left⟩ := looping_step looping moved
    rw [eq]
    refine ⟨kept, left.trans ?_⟩
    rw [runs]
    simp only [List.mem_append, List.mem_singleton, or_imp, forall_and, forall_eq]
  obtain ⟨⟨shows, drawn⟩, runs⟩ := inv
  obtain ⟨before, ps, eq, rows, snapshot⟩ := shows.last
  refine ⟨⟨before, ps, eq, rows, ?_⟩, shows.sorted, ?_, drawn, runs⟩
  · rintro pool rfl
    rw [snapshot, snapshot_pool]
    rfl
  · intro nonempty
    obtain ⟨r, at_r⟩ : ∃ r, w.dash.rows[w.dash.selected]? = some r := ⟨_, List.getElem?_eq_getElem (shows.inside nonempty)⟩
    obtain ⟨ring, here⟩ := shows.ring (List.mem_of_getElem? at_r)
    have spark : (render w.dash).spark = (lastN ringCap (samples rs r.key)).map millis := by
      show Option.elim (Option.bind w.dash.rows[w.dash.selected]? fun r => w.dash.history.lookup r.key) [] (List.map millis) = _
      rw [at_r, Option.bind_some, ring]
      rfl
    refine ⟨r, at_r, spark, ?_⟩
    rw [spark, ne_eq, List.map_eq_nil_iff]
    exact lastN_ne_nil (by decide) (List.ne_nil_of_mem here)

/-- A tick and two keys, each after a draw. -/
def browsing : List Input := [.draw true, .tick, .draw true, .key (.char 'e') true, .draw true, .key .down true]

/-- They leave it running, with a row selected. -/
theorem top_shows_browsing :
    ∃ w rs, run (noting step reads) (opened Sys.strict, [Sys.strict.pool.proxies]) browsing = some (w, rs) ∧
      w.phase ≠ .left ∧ (∃ r, w.dash.rows[w.dash.selected]? = some r) ∧ (render w.dash).spark ≠ [] := by
  have ran : ∃ w rs, run (noting step reads) (opened Sys.strict, [Sys.strict.pool.proxies]) browsing = some (w, rs) ∧
      rs = [] ++ [Sys.strict.pool.proxies] ++ [Sys.strict.pool.proxies] := ⟨_, _, rfl, rfl⟩
  obtain ⟨w, rs, ran, handed⟩ := ran
  obtain ⟨⟨before, ps, eq, rows, -⟩, -, selected, -, runs⟩ := top_shows Sys.strict ran
  have last : ps = Sys.strict.pool.proxies := by
    rw [handed] at eq
    exact (List.singleton_inj.1 (List.append_inj_right' eq rfl)).symm
  have some : w.dash.rows ≠ [] := by
    intro empty
    rw [empty, last] at rows
    have length := rows.length_eq
    revert length
    decide
  obtain ⟨r, at_r, -, spark⟩ := selected some
  exact ⟨w, rs, ran, runs.2 (by decide), ⟨r, at_r⟩, spark⟩

end Top
end ProxyBroker
