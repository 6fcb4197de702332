import ProxyBroker.Judge

/-!
# Anonymity (`checker.rs:anonymity_level`)

The level of a proxy is read off the judge's page. A real address on the page, in its canonical text and between
delimiters, makes the proxy transparent, whatever else the page says (`transparent_of_leak`).
-/

namespace ProxyBroker.Checker
open Lib

/-- `Checker::anonymity_level`. -/
def anonymityLevel (d : Parse.DigitClass) (toLowercase : Text → Text) (realExtIps : List IpAddr) (content : Text) (judge : Judge) :
    AnonLevel :=
  let lower := toLowercase content
  let via := decide (judge.marks.via < countMatches "via".toList lower) || decide (judge.marks.proxy < countMatches "proxy".toList lower)
  if realVisible d realExtIps lower then .transparent
  else if via then .anonymous
  else .high

/-- A page that shows the address, with no character of an address or of a word around it. -/
def Leaks (d : Parse.DigitClass) (page : Text) (ip : IpAddr) : Prop :=
  ∃ before after, page = before ++ (ip.display ++ after) ∧ (∀ c ∈ before.getLast?, Delimiter d c) ∧ ∀ c ∈ after.head?, Delimiter d c

theorem realVisible_of_leak {d : Parse.DigitClass} {realExtIps : List IpAddr} {page : Text} {ip : IpAddr} (real : ip ∈ realExtIps)
    (leaks : Leaks d page ip) : realVisible d realExtIps page := by
  obtain ⟨before, after, rfl, left, right⟩ := leaks
  exact List.any_eq_true.2 ⟨ip, real, decide_eq_true (mem_getAllIp ip left right)⟩

/-- **A leaked address is noticed.** -/
theorem transparent_of_leak (d : Parse.DigitClass) (toLowercase : Text → Text) (realExtIps : List IpAddr) (content : Text) (judge : Judge)
    {ip : IpAddr} (real : ip ∈ realExtIps) (leaks : Leaks d (toLowercase content) ip) :
    anonymityLevel d toLowercase realExtIps content judge = .transparent := by
  rw [anonymityLevel, if_pos (realVisible_of_leak real leaks)]

theorem transparent_of_leak_shouted : anonymityLevel .least (·.map Char.toLower) [.v4 0x0A000001, .v6 0x20010DB8000000000000000000000001]
    "Via: 10.0.0.10%PROXY, [2001:DB8::1]".toList ⟨[], .http, [], [], none, ⟨0, 0⟩⟩ = .transparent := by
  have real : IpAddr.v6 0x20010DB8000000000000000000000001 ∈ [IpAddr.v4 0x0A000001, .v6 0x20010DB8000000000000000000000001] := by simp
  refine transparent_of_leak .least (·.map Char.toLower) _ _ _ real
    ⟨"via: 10.0.0.10%proxy, [".toList, "]".toList, by decide, ?_, ?_⟩
  · intro c last
    obtain rfl := Option.mem_some.1 (show c ∈ some '[' from last)
    decide
  · intro c next
    obtain rfl := Option.mem_some.1 (show c ∈ some ']' from next)
    decide

end ProxyBroker.Checker
