import Mathlib.Data.Set.Basic
import ProxyBroker.Broker.Source
import ProxyBroker.Lib.Buffered

/-!
# The order of the providers

The batches come in as the fetches end, `MAX_CONCURRENT_PROVIDERS` of them at a time. Which addresses are
yielded does not depend on that order. What an address is expected to speak does: of the batches that name
it, the first to come in decides. `provider_order` says when it makes no difference.
-/

namespace ProxyBroker.Broker
open Lib Buffered

/-- `MAX_CONCURRENT_PROVIDERS`. -/
def maxConcurrentProviders : Nat := 3

/-- The protocols that a batch names an address with, if it does. -/
def offer (addr : Addr) (candidates : List Candidate) : Option (List Proto) :=
  (candidates.find? fun cand => cand.addr = some addr).map Candidate.protocols

/-- What is yielded, as `(host, port, expected_types)`. -/
def triples (ps : List Proxy) : Set (IpAddr × UInt16 × List Proto) := {t | ∃ p ∈ ps, t = (p.host, p.port, p.expectedTypes)}

/-- The addresses that are yielded. -/
def addrs (ps : List Proxy) : Set Addr := {a | ∃ p ∈ ps, a = p.addr}

variable {toUppercase : Text → Text} {dbs : Databases} {countries : Option (List Text)} {batches order order' : List (List Candidate)}

theorem findSome?_offer (addr : Addr) (order : List (List Candidate)) :
    order.findSome? (offer addr) = (order.flatten.find? fun cand => cand.addr = some addr).map Candidate.protocols := by
  induction order with
  | nil => rfl
  | cons batch order ih =>
    rw [List.findSome?_cons, List.flatten_cons, List.find?_append, ih, offer]
    cases batch.find? fun cand => cand.addr = some addr with
    | none => rfl
    | some cand => rfl

/-- **What is yielded**: each address that passes, with what the first batch names it with. -/
theorem mem_triples {host : IpAddr} {port : UInt16} {ts : List Proto} :
    (host, port, ts) ∈ triples (findSource toUppercase dbs countries order) ↔
      passes toUppercase dbs (uppercaseSet toUppercase countries) (host, port) = true ∧ order.findSome? (offer (host, port)) = some ts := by
  rw [findSome?_offer, Option.map_eq_some_iff]
  constructor
  · rintro ⟨p, mem, same⟩
    obtain ⟨cand, first, addr, keyed, ok, rfl⟩ := mem_sourceFrom.1 mem
    obtain ⟨key, -, found⟩ := mem_firsts.1 first
    have at_key : cand.addr = some key := by simpa using List.find?_some found
    obtain rfl : addr = key := Option.some.inj (keyed.symm.trans at_key)
    have here : (host, port) = (made dbs addr cand.protocols).addr := congrArg (fun t => (t.1, t.2.1)) same
    have types : ts = (made dbs addr cand.protocols).expectedTypes := congrArg (fun t => t.2.2) same
    rw [here, types, made_addr, made_expectedTypes]
    exact ⟨ok, cand, found, rfl⟩
  · rintro ⟨ok, cand, found, rfl⟩
    have keyed : cand.addr = some (host, port) := by simpa using List.find?_some found
    refine ⟨made dbs (host, port) cand.protocols, ?_, ?_⟩
    · exact mem_sourceFrom.2 ⟨cand, mem_firsts.2 ⟨(host, port), by simp, found⟩, (host, port), keyed, ok, rfl⟩
    · have at_addr : ((made dbs (host, port) cand.protocols).host, (made dbs (host, port) cand.protocols).port) = (host, port) :=
        made_addr (host, port) cand.protocols
      rw [made_expectedTypes, (Prod.mk.inj at_addr).1, (Prod.mk.inj at_addr).2]

theorem mem_addrs {addr : Addr} : addr ∈ addrs (findSource toUppercase dbs countries order) ↔
    passes toUppercase dbs (uppercaseSet toUppercase countries) addr = true ∧ ∃ candidates ∈ order, (offer addr candidates).isSome = true := by
  obtain ⟨host, port⟩ := addr
  have some_types : (host, port) ∈ addrs (findSource toUppercase dbs countries order) ↔
      ∃ ts, (host, port, ts) ∈ triples (findSource toUppercase dbs countries order) := by
    constructor
    · rintro ⟨p, mem, same⟩
      cases same
      exact ⟨p.expectedTypes, p, mem, rfl⟩
    · rintro ⟨ts, p, mem, same⟩
      cases same
      exact ⟨p, mem, rfl⟩
  rw [some_types]
  simp only [mem_triples, exists_and_left]
  refine and_congr_right fun _ => ?_
  rw [← Option.isSome_iff_exists, List.findSome?_isSome_iff]

/-- **The order of the providers.** For every list of batches: in whichever orders the fetches end, the
unlimited `grab` yields what the source of `find` does, and the same addresses; and what they are expected to
speak is the same in all these orders, if and only if for each address that passes the first
`MAX_CONCURRENT_PROVIDERS` batches that name it name it with the same protocols. -/
theorem provider_order (toUppercase : Text → Text) (dbs : Databases) (countries : Option (List Text))
    (batches : List (List Candidate)) :
    (∀ order, Completes maxConcurrentProviders batches order →
      grabTask toUppercase dbs ⟨countries, none⟩ none order = findSource toUppercase dbs countries order) ∧
    (∀ order order', Completes maxConcurrentProviders batches order → Completes maxConcurrentProviders batches order' →
      addrs (findSource toUppercase dbs countries order) = addrs (findSource toUppercase dbs countries order')) ∧
    ((∀ order order', Completes maxConcurrentProviders batches order → Completes maxConcurrentProviders batches order' →
      triples (findSource toUppercase dbs countries order) = triples (findSource toUppercase dbs countries order')) ↔
      ∀ addr, passes toUppercase dbs (uppercaseSet toUppercase countries) addr = true →
        ∀ ts ∈ (batches.filterMap (offer addr)).take maxConcurrentProviders,
        ∀ us ∈ (batches.filterMap (offer addr)).take maxConcurrentProviders, ts = us) := by
  have named {order order' : List (List Candidate)} (one : Completes maxConcurrentProviders batches order)
      (other : Completes maxConcurrentProviders batches order') {addr : Addr} :
      (∃ candidates ∈ order, (offer addr candidates).isSome = true) ↔ ∃ candidates ∈ order', (offer addr candidates).isSome = true :=
    exists_congr fun candidates => and_congr_left fun _ => (one.perm.trans other.perm.symm).mem_iff
  refine ⟨fun order _ => grabTask_eq toUppercase dbs ⟨countries, none⟩ none order, ?_, ?_, ?_⟩
  · intro order order' one other
    ext addr
    rw [mem_addrs, mem_addrs, named one other]
  · intro same addr ok ts first us second
    obtain ⟨order, one, found⟩ := firstDone_iff.2 first
    obtain ⟨order', other, found'⟩ := firstDone_iff.2 second
    have here : (addr.1, addr.2, ts) ∈ triples (findSource toUppercase dbs countries order) := mem_triples.2 ⟨ok, found⟩
    rw [same order order' one other] at here
    have there := (mem_triples.1 here).2
    rw [show (addr.1, addr.2) = addr from rfl, found'] at there
    exact (Option.some.inj there).symm
  · intro agree order order' one other
    have part {order order' : List (List Candidate)} (one : Completes maxConcurrentProviders batches order)
        (other : Completes maxConcurrentProviders batches order') :
        triples (findSource toUppercase dbs countries order) ⊆ triples (findSource toUppercase dbs countries order') := by
      rintro ⟨host, port, ts⟩ mem
      obtain ⟨ok, found⟩ := mem_triples.1 mem
      have some_batch : (order'.findSome? (offer (host, port))).isSome = true := by
        rw [List.findSome?_isSome_iff, ← named one other, ← List.findSome?_isSome_iff, found]
        rfl
      obtain ⟨us, found'⟩ := Option.isSome_iff_exists.1 some_batch
      have same : ts = us := agree (host, port) ok ts (firstDone_iff.1 ⟨order, one, found⟩) us (firstDone_iff.1 ⟨order', other, found'⟩)
      exact mem_triples.2 ⟨ok, by rw [found', same]⟩
    exact Set.Subset.antisymm (part one other) (part other one)

/-- A provider's batch that names `1.1.1.1:80`. -/
def naming (protocols : List Proto) : List Candidate := [⟨"1.1.1.1".toList, 80, protocols⟩]

/-- Two providers name one address, one for HTTP and one for SOCKS5, and either can come in first. -/
theorem order_matters :
    Completes maxConcurrentProviders [naming [.http], naming [.socks5]] [naming [.http], naming [.socks5]] ∧
    Completes maxConcurrentProviders [naming [.http], naming [.socks5]] [naming [.socks5], naming [.http]] ∧
    triples (findSource id ⟨none, none⟩ none [naming [.http], naming [.socks5]]) ≠
      triples (findSource id ⟨none, none⟩ none [naming [.socks5], naming [.http]]) := by
  refine ⟨⟨[.start, .start, .finish 0, .finish 0], rfl⟩, ⟨[.start, .start, .finish 1, .finish 0], rfl⟩, ?_⟩
  intro same
  have http : (IpAddr.v4 0x01010101, 80, [Proto.http]) ∈ triples (findSource id ⟨none, none⟩ none [naming [.http], naming [.socks5]]) :=
    mem_triples.2 ⟨rfl, by decide⟩
  rw [same] at http
  exact absurd (mem_triples.1 http).2 (by decide)

end ProxyBroker.Broker
