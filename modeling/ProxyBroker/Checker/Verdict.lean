import Mathlib.Data.List.Induction
import ProxyBroker.Checker.Retry

/-!
# The verdict of a check

`TypeSpec` is documented as a protocol with the levels it is narrowed to, where no level means any and levels count
for HTTP alone. `documented` is that rule. The source has it twice more, in `TypeSpec::accepts` and in
`types_passed`, and neither follows it for every request: both look at the levels of other protocols, `accepts`
takes an empty list for no level at all, and `types_passed` reads the last of several requests for a protocol.
`verdict_iff` says for which requests and findings the three agree.
-/

namespace ProxyBroker

/-- The rule in the documentation of `TypeSpec`. -/
def TypeSpec.documented (spec : TypeSpec) (proto : Proto) (level : Option AnonLevel) : Bool :=
  spec.proto = proto && (!proto.checksAnonLevel || (spec.levels.getD []).isEmpty || level.any ((spec.levels.getD []).contains ·))

/-- The levels are absent, or there are some and the protocol is one that has levels. -/
def TypeSpec.Plain (spec : TypeSpec) : Prop := spec.levels = none ∨ spec.proto = .http ∧ spec.levels ≠ some []

/-- **When `accepts` follows the rule.** -/
theorem TypeSpec.accepts_eq_iff (spec : TypeSpec) :
    (∀ proto level, spec.accepts proto level = spec.documented proto level) ↔ spec.Plain := by
  obtain ⟨proto, levels⟩ := spec
  constructor
  · intro agree
    have bare := agree proto none
    cases levels with
    | none => exact Or.inl rfl
    | some want =>
      refine Or.inr ?_
      cases proto <;> cases want <;> simp_all [accepts, documented, Proto.checksAnonLevel]
  · rintro (none | ⟨http, some⟩) q level
    · cases none
      by_cases same : proto = q <;> simp [accepts, documented, same]
    · cases http
      cases levels with
      | none => by_cases same : Proto.http = q <;> simp [accepts, documented, same]
      | some want =>
        have wants : want ≠ [] := by simpa using some
        by_cases same : Proto.http = q
        · subst same
          cases level <;> simp [accepts, documented, Proto.checksAnonLevel, wants]
        · simp [accepts, documented, same]

namespace Checker
variable {c : Checker} {net : Net} {p : Proxy} {requested : List TypeSpec} {q : Proto} {level : Option AnonLevel}

/-- A confirmed protocol is one that was asked for, by the rule. -/
def Satisfied (requested : List TypeSpec) (proto : Proto) (level : Option AnonLevel) : Bool :=
  requested.any fun spec => spec.documented proto level

/-- The last request for a protocol. -/
def lastFor (requested : List TypeSpec) (proto : Proto) : Option TypeSpec :=
  (requested.filter fun spec => spec.proto = proto).getLast?

theorem requestedLevels_eq (requested : List TypeSpec) (q : Proto) :
    requestedLevels requested q = (lastFor requested q).map TypeSpec.levels := by
  induction requested using List.reverseRecOn with
  | nil => rfl
  | append_singleton l t ih =>
    have next : requestedLevels (l ++ [t]) q = if q = t.proto then some t.levels else requestedLevels l q := by
      simp [requestedLevels, List.foldl_append]
    rw [next, ih]
    by_cases same : t.proto = q
    · simp [lastFor, same]
    · simp [lastFor, same, Ne.symm same]

/-- What `check_one` confirmed. -/
def Checked.confirmed (r : Checked) : TypeMap :=
  fun q => (r.calls.find? fun call => call.proto = q).bind fun call => found call.outcomes

/-- The test of `types_passed` on a confirmed protocol. -/
def fits (requested : List TypeSpec) (proto : Proto) (level : Option AnonLevel) : Bool :=
  levelMatches (requestedLevels requested proto) level

/-! ## What `types_passed` does -/

theorem mem_confirmed : (q, level) ∈ confirmed p ↔ p.types q = some level := by
  simp [confirmed, Proto.mem_all]

theorem isWorking_iff : p.isWorking = true ↔ ∃ q level, p.types q = some level := by
  have keys : p.isWorking = true ↔ ∃ q, p.hasType q = true := by
    simp [Proxy.isWorking, Proxy.typeKeys, Proto.mem_all]
  rw [keys]
  simp [Proxy.hasType, Option.isSome_iff_exists]

/-- The proxy after the verdict. -/
theorem typesPassed_types (some_request : c.requested ≠ []) (q : Proto) :
    (typesPassed c p).2.types q = if c.strict then (p.types q).filter (fits c.requested q) else p.types q := by
  unfold typesPassed
  rw [if_neg some_request]
  dsimp only
  split
  · rename_i strict
    rw [(foldl_removeType _ p).2.2 q]
    have removed : q ∈ ((confirmed p).filter fun t => !levelMatches (requestedLevels c.requested t.1) t.2).map Prod.fst ↔
        ∃ level, p.types q = some level ∧ fits c.requested q level = false := by
      simp [mem_confirmed, fits]
    cases types : p.types q with
    | none => simp
    | some level =>
      simp only [types, Option.some.injEq, exists_eq_left'] at removed
      cases fit : fits c.requested q level <;> simp [removed, fit, Option.filter]
  · rfl

/-- The verdict: some confirmed protocol passes the test, strict or not. -/
theorem typesPassed_iff (some_request : c.requested ≠ []) :
    (typesPassed c p).1 = true ↔ ∃ q level, p.types q = some level ∧ fits c.requested q level = true := by
  cases strict : c.strict with
  | true =>
    have works : (typesPassed c p).1 = (typesPassed c p).2.isWorking := by
      simp [typesPassed, some_request, strict]
    rw [works, isWorking_iff]
    simp [typesPassed_types some_request, strict, Option.filter_eq_some_iff]
  | false =>
    have any : (typesPassed c p).1 = (confirmed p).any fun t => fits c.requested t.1 t.2 := by
      simp [typesPassed, some_request, strict, fits]
    rw [any]
    simp [mem_confirmed]

/-! ## What a check does -/

theorem accounted_surveyed (c : Checker) (net : Net) (p : Proxy) : Accounted c p (ngtrs c p) false (surveyed c net p) :=
  accounted_survey (nodup_ngtrs c p) false 0 p

theorem check_unlisted (unlisted : listed c net p.host = false) : check c net p = conclude c (surveyed c net p) := by
  simp [check, unlisted]

theorem call_of_confirmed {r : Checked} (h : r.confirmed q = some level) :
    ∃ call ∈ r.calls, call.proto = q ∧ found call.outcomes = some level := by
  obtain ⟨call, here, found⟩ := Option.bind_eq_some_iff.1 h
  exact ⟨call, List.mem_of_find?_eq_some here, by simpa using List.find?_some here, found⟩

/-- The types of a new proxy are those that were confirmed. -/
theorem types_surveyed (fresh : ∀ q, p.types q = none) (unlisted : listed c net p.host = false) :
    (surveyed c net p).proxy.types = (check c net p).confirmed := by
  have accounted := accounted_surveyed c net p
  funext q
  rw [check_unlisted unlisted, Checked.confirmed, (conclude_spec c _).1]
  cases here : (surveyed c net p).calls.find? fun call => call.proto = q with
  | none =>
    have other : q ∉ (surveyed c net p).calls.map Call.proto := by simpa using here
    rw [accounted.others q other, fresh]
    rfl
  | some call =>
    have same : call.proto = q := by simpa using List.find?_some here
    have types := accounted.types call (List.mem_of_find?_eq_some here)
    rw [same, fresh, Option.or_none] at types
    exact types

/-- Only what is requested is confirmed. -/
theorem asked_of_confirmed (h : (check c net p).confirmed q = some level) : ∃ spec ∈ c.requested, spec.proto = q := by
  obtain ⟨call, mem, rfl, -⟩ := call_of_confirmed h
  cases unlisted : listed c net p.host with
  | true => simp [check, unlisted] at mem
  | false =>
    rw [check_unlisted unlisted, (conclude_spec c _).1] at mem
    exact (mem_ngtrs.1 ((accounted_surveyed c net p).order.subset (List.mem_map_of_mem mem))).1

/-- A call that confirms makes the check go on to the verdict. -/
theorem any_of_confirmed {b : Bool} (unlisted : listed c net p.host = false) (returns : (surveyed c net p).any = some b)
    (h : (check c net p).confirmed q = some level) : b = true := by
  obtain ⟨call, mem, -, found⟩ := call_of_confirmed h
  rw [check_unlisted unlisted, (conclude_spec c _).1] at mem
  rw [(accounted_surveyed c net p).works b returns, Bool.false_or, List.any_eq_true]
  exact ⟨call, mem, by simp [found]⟩

/-- Nothing is confirmed of a proxy that is in a block list. -/
theorem confirmed_listed (listed : listed c net p.host = true) : (check c net p).confirmed q = none := by
  simp [check, listed, Checked.confirmed]

/-- What the verdict is by the code. -/
def Judged (c : Checker) (r : Checked) : Prop :=
  (r.passed = some true ↔ ∃ q level, r.confirmed q = some level ∧ fits c.requested q level = true) ∧
    ∀ q, r.proxy.types q = if c.strict then (r.confirmed q).filter (fits c.requested q) else r.confirmed q

theorem judged_nothing {r : Checked} (failed : r.passed = some false) (nothing : ∀ q, r.confirmed q = none)
    (types : ∀ q, r.proxy.types q = none) : Judged c r :=
  ⟨by simp [failed, nothing], fun q => by simp [nothing, types]⟩

/-- **The verdict of a check that returns**: it passes when a confirmed protocol passes the test of `types_passed`,
and a strict check keeps those that do. -/
theorem judged_check (fresh : ∀ q, p.types q = none) (returns : (check c net p).passed.isSome = true) :
    Judged c (check c net p) := by
  cases unlisted : listed c net p.host with
  | true =>
    have nothing (q : Proto) : (check c net p).confirmed q = none := confirmed_listed unlisted
    have result : check c net p = ⟨some false, p, []⟩ := by simp [check, unlisted]
    exact judged_nothing (by rw [result]) nothing (by rw [result]; exact fresh)
  | false =>
    have types := types_surveyed fresh unlisted
    have whole := check_unlisted unlisted
    cases any : (surveyed c net p).any with
    | none =>
      rw [whole, Option.isSome_iff_ne_none] at returns
      exact absurd ((conclude_spec c _).2.2.2.2 any) returns
    | some b =>
      have found {q : Proto} {level : Option AnonLevel} (h : (check c net p).confirmed q = some level) : b = true :=
        any_of_confirmed unlisted any h
      cases b with
      | false =>
        have nothing (q : Proto) : (check c net p).confirmed q = none := by
          cases here : (check c net p).confirmed q with
          | none => rfl
          | some level => cases found here
        have result : check c net p = ⟨some false, (surveyed c net p).proxy, (surveyed c net p).calls⟩ := by
          rw [whole, conclude, any]
        have unchanged : (check c net p).proxy.types = (check c net p).confirmed := by rw [← types, result]
        exact judged_nothing (by rw [result]) nothing fun q => by rw [unchanged, nothing]
      | true =>
        have result : check c net p = ⟨some (typesPassed c (surveyed c net p).proxy).1,
            (typesPassed c (surveyed c net p).proxy).2, (surveyed c net p).calls⟩ := by
          rw [whole, conclude, any]
        have some_request : c.requested ≠ [] := by
          have works := (accounted_surveyed c net p).works true any
          obtain ⟨call, mem, -⟩ := List.any_eq_true.1 (by simpa using works.symm)
          intro none
          have asked := mem_ngtrs.1 ((accounted_surveyed c net p).order.subset (List.mem_map_of_mem mem))
          simp [none] at asked
        unfold Judged
        rw [← types]
        constructor
        · rw [result, Option.some.injEq]
          exact typesPassed_iff some_request
        · intro q
          rw [result]
          exact typesPassed_types some_request q

/-! ## When the rule is followed -/

theorem lastFor_mem {spec : TypeSpec} (h : lastFor requested q = some spec) : spec ∈ requested ∧ spec.proto = q := by
  have mem := List.mem_of_getLast? h
  simpa using mem

theorem exists_lastFor (asked : ∃ spec ∈ requested, spec.proto = q) : ∃ spec, lastFor requested q = some spec := by
  obtain ⟨spec, mem, same⟩ := asked
  cases last : lastFor requested q with
  | some spec => exact ⟨spec, rfl⟩
  | none =>
    have none := List.filter_eq_nil_iff.1 (List.getLast?_eq_none_iff.1 last) spec mem
    simp [same] at none

/-- The test of `types_passed` asks the last request. -/
theorem fits_eq {spec : TypeSpec} (plain : spec.Plain) (last : lastFor requested q = some spec) :
    fits requested q level = spec.accepts q level := by
  have same := (lastFor_mem last).2
  rw [fits, requestedLevels_eq, last]
  obtain ⟨proto, levels⟩ := spec
  rcases plain with none | ⟨-, some⟩
  · cases none
    simp_all [levelMatches, TypeSpec.accepts]
  · cases levels with
    | none => simp_all [levelMatches, TypeSpec.accepts]
    | some want => cases level <;> simp_all [levelMatches, TypeSpec.accepts]

theorem satisfied_iff (plain : ∀ spec ∈ requested, spec.Plain) :
    Satisfied requested q level = true ↔ ∃ spec ∈ requested, spec.accepts q level = true := by
  simp only [Satisfied, List.any_eq_true]
  constructor
  · rintro ⟨spec, mem, accepted⟩
    exact ⟨spec, mem, by rw [spec.accepts_eq_iff.2 (plain spec mem), accepted]⟩
  · rintro ⟨spec, mem, accepted⟩
    exact ⟨spec, mem, by rw [← spec.accepts_eq_iff.2 (plain spec mem), accepted]⟩

/-- A protocol other than HTTP is accepted without a look at its level. -/
theorem accepts_other {spec : TypeSpec} (plain : spec.Plain) (same : spec.proto = q) (other : q ≠ .http) :
    spec.accepts q level = true := by
  rcases plain with none | ⟨http, -⟩
  · obtain ⟨proto, levels⟩ := spec
    cases none
    simp_all [TypeSpec.accepts]
  · exact absurd (same.symm.trans http) other

/-- A confirmed protocol other than HTTP passes the test and is what was asked for. -/
theorem other_fits (plain : ∀ spec ∈ requested, spec.Plain) (asked : ∃ spec ∈ requested, spec.proto = q) (other : q ≠ .http) :
    fits requested q level = true ∧ Satisfied requested q level = true := by
  obtain ⟨spec, last⟩ := exists_lastFor asked
  obtain ⟨mem, same⟩ := lastFor_mem last
  have accepted : spec.accepts q level = true := accepts_other (plain spec mem) same other
  exact ⟨(fits_eq (plain spec mem) last).trans accepted, (satisfied_iff plain).2 ⟨spec, mem, accepted⟩⟩

/-- A confirmed protocol that passes the test is what was asked for. -/
theorem satisfied_of_fits (plain : ∀ spec ∈ requested, spec.Plain) (asked : ∃ spec ∈ requested, spec.proto = q)
    (fit : fits requested q level = true) : Satisfied requested q level = true := by
  obtain ⟨spec, last⟩ := exists_lastFor asked
  have mem := (lastFor_mem last).1
  exact (satisfied_iff plain).2 ⟨spec, mem, (fits_eq (plain spec mem) last).symm.trans fit⟩

/-- The verdict, the types that are kept and `accepts` are as documented. -/
structure FollowsRule (c : Checker) (r : Checked) : Prop where
  verdict : r.passed = some true ↔ ∃ q level, r.confirmed q = some level ∧ Satisfied c.requested q level = true
  kept : ∀ q, r.proxy.types q = if c.strict then (r.confirmed q).filter (Satisfied c.requested q) else r.confirmed q
  accepts : ∀ spec ∈ c.requested, ∀ proto level, spec.accepts proto level = spec.documented proto level

/-- If HTTP is confirmed, and the check is strict or nothing else is confirmed: when some request accepts its level,
the last request for HTTP does. -/
def LastDecides (c : Checker) (r : Checked) : Prop :=
  ∀ level, r.confirmed .http = some level → (c.strict = true ∨ ∀ q, q ≠ .http → r.confirmed q = none) →
    (∃ spec ∈ c.requested, spec.accepts .http level = true) →
      ∃ spec, lastFor c.requested .http = some spec ∧ spec.accepts .http level = true

theorem fits_of_lastDecides {r : Checked} (plain : ∀ spec ∈ c.requested, spec.Plain) (last : LastDecides c r)
    (here : r.confirmed .http = some level) (alone : c.strict = true ∨ ∀ q, q ≠ .http → r.confirmed q = none)
    (satisfied : Satisfied c.requested .http level = true) : fits c.requested .http level = true := by
  obtain ⟨spec, last, accepted⟩ := last level here alone ((satisfied_iff plain).1 satisfied)
  exact (fits_eq (plain spec (lastFor_mem last).1) last).trans accepted

/-- A confirmed protocol is HTTP when no other one is confirmed. -/
theorem eq_http_of_alone {r : Checked} (alone : ∀ q, q ≠ .http → r.confirmed q = none) (confirmed : r.confirmed q = some level) :
    q = .http := by
  by_contra other
  rw [alone q other] at confirmed
  cases confirmed

/-- Where the rule is followed, an accepted level of HTTP passes the test of `types_passed`. -/
theorem FollowsRule.fits (fresh : ∀ q, p.types q = none) (returns : (check c net p).passed.isSome = true)
    (rule : FollowsRule c (check c net p)) (here : (check c net p).confirmed .http = some level)
    (alone : c.strict = true ∨ ∀ q, q ≠ .http → (check c net p).confirmed q = none)
    (satisfied : Satisfied c.requested .http level = true) : Checker.fits c.requested .http level = true := by
  obtain ⟨passed, kept⟩ := judged_check fresh returns
  rcases alone with strict | alone
  · have both := (kept .http).symm.trans (rule.kept .http)
    simp only [strict, here, if_true, Option.filter, satisfied] at both
    by_contra no
    simp [no] at both
  · obtain ⟨q, level', confirmed, fit⟩ := passed.1 (rule.verdict.2 ⟨.http, level, here, satisfied⟩)
    obtain rfl := eq_http_of_alone alone confirmed
    cases here.symm.trans confirmed
    exact fit

/-- Where the last request decides, a type that is what was asked for is a reason for the verdict. -/
theorem passes_of_lastDecides (plain : ∀ spec ∈ c.requested, spec.Plain) (last : LastDecides c (check c net p))
    (confirmed : (check c net p).confirmed q = some level) (satisfied : Satisfied c.requested q level = true) :
    ∃ q level, (check c net p).confirmed q = some level ∧ fits c.requested q level = true := by
  by_cases others : ∃ r level, r ≠ .http ∧ (check c net p).confirmed r = some level
  · obtain ⟨r, level, other, confirmed⟩ := others
    exact ⟨r, level, confirmed, (other_fits plain (asked_of_confirmed confirmed) other).1⟩
  · have alone (r : Proto) (other : r ≠ .http) : (check c net p).confirmed r = none := by
      cases at_r : (check c net p).confirmed r with
      | none => rfl
      | some level => exact absurd ⟨r, level, other, at_r⟩ others
    obtain rfl := eq_http_of_alone alone confirmed
    exact ⟨.http, level, confirmed, fits_of_lastDecides plain last confirmed (Or.inr alone) satisfied⟩

/-- Where the last request decides, a strict check tests for what was asked for. -/
theorem fits_eq_satisfied (plain : ∀ spec ∈ c.requested, spec.Plain) (last : LastDecides c (check c net p)) (strict : c.strict = true)
    (confirmed : (check c net p).confirmed q = some level) : fits c.requested q level = Satisfied c.requested q level := by
  have asked := asked_of_confirmed confirmed
  by_cases http : q = .http
  · subst http
    exact Bool.eq_iff_iff.2 ⟨satisfied_of_fits plain asked, fits_of_lastDecides plain last confirmed (Or.inl strict)⟩
  · obtain ⟨fit, satisfied⟩ := other_fits plain asked http
    rw [fit, satisfied]

/-- **When a check follows the documented rule.** For a new proxy, and a check that returns: exactly when every
request is without levels, or one for HTTP with some, and the last request for HTTP decides as any of them. -/
theorem verdict_iff (fresh : ∀ q, p.types q = none) (returns : (check c net p).passed.isSome = true) :
    FollowsRule c (check c net p) ↔ (∀ spec ∈ c.requested, spec.Plain) ∧ LastDecides c (check c net p) := by
  obtain ⟨passed, kept⟩ := judged_check fresh returns
  constructor
  · intro rule
    have plain : ∀ spec ∈ c.requested, spec.Plain := fun spec mem => spec.accepts_eq_iff.1 (rule.accepts spec mem)
    refine ⟨plain, fun level here alone accepted => ?_⟩
    have fit := rule.fits fresh returns here alone ((satisfied_iff plain).2 accepted)
    obtain ⟨spec, last⟩ := exists_lastFor (asked_of_confirmed here)
    exact ⟨spec, last, (fits_eq (plain spec (lastFor_mem last).1) last).symm.trans fit⟩
  · rintro ⟨plain, last⟩
    refine ⟨?_, ?_, fun spec mem => spec.accepts_eq_iff.2 (plain spec mem)⟩
    · rw [passed]
      constructor
      · rintro ⟨q, level, confirmed, fit⟩
        exact ⟨q, level, confirmed, satisfied_of_fits plain (asked_of_confirmed confirmed) fit⟩
      · rintro ⟨q, level, confirmed, satisfied⟩
        exact passes_of_lastDecides plain last confirmed satisfied
    · intro q
      rw [kept q]
      cases strict : c.strict with
      | false => rfl
      | true =>
        cases confirmed : (check c net p).confirmed q with
        | none => rfl
        | some level =>
          have same := fits_eq_satisfied plain last strict confirmed
          simp [Option.filter, same]

/-- A checker with these requests. -/
def asking (requested : List TypeSpec) (strict : Bool) : Checker := ⟨requested, strict, .default, [], fun _ => 1, .judged⟩

/-- Every attempt is answered with a page that shows this level. -/
def willingNet (level : AnonLevel) : Net :=
  ⟨fun _ => .answered ⟨true, level, ⟨true, true⟩, []⟩, fun _ => 1, fun _ => 0, fun x _ => x, fun _ => false⟩

def newProxy : Proxy := Proxy.new (.v4 0) 80 []

/-- A strict check for an anonymous HTTP proxy, or any SOCKS5 proxy. -/
def mixed : Checker := asking [⟨.http, some [.anonymous, .high]⟩, .any .socks5] true

/-- It drops the HTTP that is transparent. -/
theorem verdict_mixed :
    (check mixed (willingNet .transparent) newProxy).passed = some true ∧ FollowsRule mixed (check mixed (willingNet .transparent) newProxy) := by
  have passed : (check mixed (willingNet .transparent) newProxy).passed = some true := by decide +kernel
  refine ⟨passed, (verdict_iff (fun _ => rfl) (by rw [passed]; rfl)).2 ⟨?_, ?_⟩⟩
  · intro spec mem
    rcases List.mem_pair.1 mem with rfl | rfl
    · exact Or.inr ⟨rfl, by simp⟩
    · exact Or.inl rfl
  · intro level here _ accepted
    have http : (check mixed (willingNet .transparent) newProxy).confirmed .http = some (some .transparent) := by decide +kernel
    cases here.symm.trans http
    exact absurd accepted (by decide)

/-- A level that was requested for HTTPS fails every HTTPS proxy. -/
theorem levels_not_ignored :
    let c := asking (typesFrom [.https] [.high]) false
    (check c (willingNet .high) newProxy).confirmed .https = some none ∧ Satisfied c.requested .https none = true ∧
      (check c (willingNet .high) newProxy).passed = some false ∧ ¬ FollowsRule c (check c (willingNet .high) newProxy) := by
  intro c
  have confirmed : (check c (willingNet .high) newProxy).confirmed .https = some none := by decide +kernel
  have satisfied : Satisfied c.requested .https none = true := by decide
  have passed : (check c (willingNet .high) newProxy).passed = some false := by decide +kernel
  refine ⟨confirmed, satisfied, passed, fun rule => ?_⟩
  have verdict := rule.verdict.2 ⟨.https, none, confirmed, satisfied⟩
  rw [passed] at verdict
  cases verdict

end Checker
end ProxyBroker
