import ProxyBroker.Lib.Substitution
import ProxyBroker.Proxy

/-!
# Output templates (`bin/proxybroker.rs`)

`renderTemplate` replaces the eleven tokens of a template one after another. `renderOnce` is what the command
line promises: one pass over the template. A country or an organisation is any text, an empty value joins what
is around it, and so a later replacement can find a token that the template does not have. `renderTemplate_iff`
says when it does not.
-/

namespace ProxyBroker
open Lib

/-- The token of a name: the name in double braces. -/
def token (name : String) : Text := '{' :: '{' :: name.toList ++ ['}', '}']

/-- `scheme_str`. -/
def schemeStr (p : Proxy) : Text :=
  if p.hasType .socks5 then "socks5".toList
  else if p.hasType .socks4 then "socks4".toList
  else "http".toList

/-- `proto_list`. -/
def protoList (p : Proxy) : Text := joinText ['|'] (p.typeKeys.map Proto.asStr)

/-- `anon_str`. -/
def anonStr (p : Proxy) : Text := (p.types .http).join.elim [] AnonLevel.asStr

/-- `country_str`. -/
def countryStr (p : Proxy) : Text := p.geo.elim [] Country.code

/-- `asn_str`. -/
def asnStr (p : Proxy) : Text := p.asn.elim [] fun a => showNat a.number.toNat

/-- `asn_org_str`. -/
def asnOrgStr (p : Proxy) : Text := (p.asn.bind Asn.org).getD []

/-- `f64::to_string` of the float next to a number with two decimals, and so what `round2` returns: the shortest text
that reads back as the float is that number, without trailing zeros and without a point before none. -/
def showHundredths (x : ℚ) : Text :=
  let n := roundHalfEven (x * 100)
  let r := n.natAbs % 100
  (if n < 0 then ['-'] else []) ++ showNat (n.natAbs / 100) ++
    if r = 0 then [] else '.' :: showNat (r / 10) ++ if r % 10 = 0 then [] else showNat (r % 10)

/-- `render_template`. -/
def renderTemplate (tmpl : Text) (p : Proxy) : Text :=
  tmpl
    |> replace (token "proxy") p.addrText
    |> replace (token "host") p.host.display
    |> replace (token "port") (showNat p.port.toNat)
    |> replace (token "scheme") (schemeStr p)
    |> replace (token "protocols") (protoList p)
    |> replace (token "anon") (anonStr p)
    |> replace (token "country") (countryStr p)
    |> replace (token "asn") (asnStr p)
    |> replace (token "asn_org") (asnOrgStr p)
    |> replace (token "duration") (showHundredths p.avgRespTime)
    |> replace (token "error_rate") (showHundredths p.errorRate)

/-- The tokens of a template with their values, in the order of the replacements. -/
def tokens (p : Proxy) : List (Text × Text) :=
  [(token "proxy", p.addrText), (token "host", p.host.display), (token "port", showNat p.port.toNat),
    (token "scheme", schemeStr p), (token "protocols", protoList p), (token "anon", anonStr p),
    (token "country", countryStr p), (token "asn", asnStr p), (token "asn_org", asnOrgStr p),
    (token "duration", showHundredths p.avgRespTime), (token "error_rate", showHundredths p.errorRate)]

/-- One simultaneous substitution. -/
def renderOnce (tmpl : Text) (p : Proxy) : Text := substitute (tokens p) tmpl

theorem renderTemplate_eq_chain (tmpl : Text) (p : Proxy) : renderTemplate tmpl p = chain (tokens p) tmpl := by
  rw [chain, tokens]
  simp only [List.foldl_cons, List.foldl_nil]
  rfl

/-- The names of the tokens. -/
def tokenNames : List String :=
  ["proxy", "host", "port", "scheme", "protocols", "anon", "country", "asn", "asn_org", "duration", "error_rate"]

theorem keys_tokens (p : Proxy) : (tokens p).map Prod.fst = tokenNames.map token := rfl

/-- No token overlaps another one or itself. -/
theorem separate_tokens (p : Proxy) : Separate ((tokens p).map Prod.fst) where
  nodup := by
    rw [keys_tokens]
    decide +kernel
  nonempty := by simp [tokens, token]
  apart := by
    rw [keys_tokens]
    decide +kernel

/-! ## Values without a brace -/

/-- A text that starts no token. -/
def NoBrace (t : Text) : Prop := '{' ∉ t

theorem NoBrace.append {s t : Text} (hs : NoBrace s) (ht : NoBrace t) : NoBrace (s ++ t) := by
  simp only [NoBrace, List.mem_append, not_or] at hs ht ⊢
  exact ⟨hs, ht⟩

theorem NoBrace.cons {c : Char} {t : Text} (hc : '{' ≠ c) (ht : NoBrace t) : NoBrace (c :: t) := by
  simp only [NoBrace, List.mem_cons, not_or] at ht ⊢
  exact ⟨hc, ht⟩

theorem noBrace_nil : NoBrace [] := List.not_mem_nil

theorem noBrace_showNat (n : Nat) : NoBrace (showNat n) := not_mem_showNat (by decide) n

theorem noBrace_display (a : IpAddr) : NoBrace a.display := not_mem_display (by decide) a

theorem noBrace_hostColonPort (host : IpAddr) (port : UInt16) : NoBrace (hostColonPort host port) :=
  (noBrace_display host).append (.cons (by decide) (noBrace_showNat port.toNat))

theorem noBrace_addrText (p : Proxy) : NoBrace p.addrText := by
  unfold Proxy.addrText
  split
  · exact noBrace_hostColonPort _ _
  · exact .cons (by decide) ((noBrace_display _).append (.cons (by decide) (.cons (by decide) (noBrace_showNat _))))

theorem noBrace_schemeStr (p : Proxy) : NoBrace (schemeStr p) := by
  unfold schemeStr NoBrace
  split_ifs <;> decide

theorem noBrace_protoList (p : Proxy) : NoBrace (protoList p) := by
  intro mem
  rcases mem_joinText mem with bar | ⟨t, named, here⟩
  · exact absurd bar (by decide)
  · obtain ⟨proto, -, rfl⟩ := List.mem_map.1 named
    cases proto <;> exact absurd here (by decide)

theorem noBrace_anonStr (p : Proxy) : NoBrace (anonStr p) := by
  have named (level : AnonLevel) : '{' ∉ level.asStr := by cases level <;> decide
  unfold anonStr
  cases (p.types .http).join with
  | none => exact noBrace_nil
  | some level => exact named level

theorem noBrace_asnStr (p : Proxy) : NoBrace (asnStr p) := by
  unfold asnStr
  cases p.asn with
  | none => exact noBrace_nil
  | some a => exact noBrace_showNat _

theorem noBrace_showHundredths (x : ℚ) : NoBrace (showHundredths x) := by
  unfold showHundredths
  dsimp only
  refine (NoBrace.append ?_ (noBrace_showNat _)).append ?_
  · split_ifs
    · exact .cons (by decide) noBrace_nil
    · exact noBrace_nil
  · split_ifs
    · exact noBrace_nil
    · exact (NoBrace.cons (by decide) (noBrace_showNat _)).append noBrace_nil
    · exact (NoBrace.cons (by decide) (noBrace_showNat _)).append (noBrace_showNat _)

/-- Only the country and the organisation can hold a brace. -/
theorem noBrace_values {p : Proxy} (country : NoBrace (countryStr p)) (org : NoBrace (asnOrgStr p)) : ∀ r ∈ tokens p, NoBrace r.2 := by
  intro r mem
  simp only [tokens, List.mem_cons, List.not_mem_nil, or_false] at mem
  rcases mem with rfl | rfl | rfl | rfl | rfl | rfl | rfl | rfl | rfl | rfl | rfl
  · exact noBrace_addrText p
  · exact noBrace_display p.host
  · exact noBrace_showNat _
  · exact noBrace_schemeStr p
  · exact noBrace_protoList p
  · exact noBrace_anonStr p
  · exact country
  · exact noBrace_asnStr p
  · exact org
  · exact noBrace_showHundredths _
  · exact noBrace_showHundredths _

theorem count_tokens (p : Proxy) : ∀ r ∈ tokens p, r.1.count '{' = 2 := by
  have names : ∀ t ∈ (tokens p).map Prod.fst, t.count '{' = 2 := by
    rw [keys_tokens]
    decide +kernel
  exact fun r mem => names r.1 (List.mem_map_of_mem mem)

/-! ## The result -/

/-- **When rendering is one simultaneous substitution.** The chain of replacements gives the one pass and re-reads
nothing that it wrote, exactly where the pass with the earlier tokens leaves each token as often as the
template has it. Where neither the country nor the organisation holds a brace, the results agree only then. -/
theorem renderTemplate_iff (tmpl : Text) (p : Proxy) :
    ((renderTemplate tmpl p = renderOnce tmpl p ∧ NothingReread (tokens p) tmpl) ↔ NothingFormed (tokens p) tmpl) ∧
      ('{' ∉ countryStr p ∧ '{' ∉ asnOrgStr p →
        (renderTemplate tmpl p = renderOnce tmpl p ↔ NothingFormed (tokens p) tmpl)) := by
  rw [renderTemplate_eq_chain, renderOnce]
  have exact_chain := chain_iff (separate_tokens p) (s := tmpl)
  refine ⟨exact_chain, ?_⟩
  rintro ⟨country, org⟩
  constructor
  · intro same
    have values : ∀ r ∈ tokens p, r.2.count '{' = 0 := fun r mem => List.count_eq_zero.2 (noBrace_values country org r mem)
    exact exact_chain.1 ⟨same, nothingReread_of_eq (separate_tokens p) (by decide) (count_tokens p) values same⟩
  · intro nothingFormed
    exact (exact_chain.2 nothingFormed).1

/-- An organisation that is called like a later token. -/
def namedLikeAToken : Proxy :=
  { Proxy.new (.v4 0x01010101) 80 [] with asn := some ⟨13335, some (token "duration")⟩ }

/-- The name is replaced by a response time. -/
theorem renderTemplate_rereads : renderTemplate (token "asn_org") namedLikeAToken ≠ renderOnce (token "asn_org") namedLikeAToken := by
  have rendered : renderTemplate (token "asn_org") namedLikeAToken = "0".toList := by decide +kernel
  have copied : renderOnce (token "asn_org") namedLikeAToken = token "duration" := by decide +kernel
  rw [rendered, copied]
  decide

end ProxyBroker
