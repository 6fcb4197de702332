import ProxyBroker.Lib.IpText

/-!
# The characters of an address literal

What `parseIpAddr` accepts is written with hexadecimal digits, dots and colons. Each reader of the parser takes
such characters off the front of its text (`Takes`), and the whole text is taken. An address of IPv6 has a colon, and
its text starts and ends with no dot.
-/

namespace ProxyBroker.Lib

/-- A character of an address literal. -/
def LiteralChar (c : Char) : Prop := (toDigit 16 c).isSome ∨ c = '.' ∨ c = ':'

/-- `rest` is what is left of `t` after literal characters. -/
def Takes (t rest : Text) : Prop := ∃ w, t = w ++ rest ∧ ∀ c ∈ w, LiteralChar c

namespace Takes

variable {t u rest : Text}

theorem refl (t : Text) : Takes t t := ⟨[], rfl, by simp⟩

theorem trans (first : Takes t u) (second : Takes u rest) : Takes t rest := by
  obtain ⟨w, rfl, chars⟩ := first
  obtain ⟨v, rfl, more⟩ := second
  refine ⟨w ++ v, by rw [List.append_assoc], ?_⟩
  intro c mem
  rcases List.mem_append.1 mem with here | there
  · exact chars c here
  · exact more c there

end Takes

variable {t rest : Text}

theorem toDigit_mono {c : Char} (digit : (toDigit 10 c).isSome) : (toDigit 16 c).isSome := by
  unfold toDigit at digit ⊢
  dsimp only at digit ⊢
  generalize (if 48 ≤ c.toNat ∧ c.toNat ≤ 57 then c.toNat - 48 else if 97 ≤ c.toNat ∧ c.toNat ≤ 122 then c.toNat - 87
    else if 65 ≤ c.toNat ∧ c.toNat ≤ 90 then c.toNat - 55 else 36) = d at digit ⊢
  split at digit
  · rw [if_pos (by omega)]
    rfl
  · cases digit

theorem takes_readNumber {radix maxDigits bound : Nat} {zeros : Bool} {n : Nat} (base : radix = 10 ∨ radix = 16)
    (h : readNumber radix maxDigits bound zeros t = some (n, rest)) : Takes t rest := by
  unfold readNumber at h
  dsimp only at h
  split_ifs at h
  cases h
  refine ⟨t.takeWhile fun c => (toDigit radix c).isSome, ?_, ?_⟩
  · exact (List.prefix_iff_eq_append.1 (List.takeWhile_prefix _)).symm
  · intro c mem
    have digit := List.mem_takeWhile_imp mem
    rcases base with rfl | rfl
    · exact Or.inl (toDigit_mono digit)
    · exact Or.inl digit

theorem takes_readSeparator {sep : Char} {index : Nat} (literal : LiteralChar sep) (h : readSeparator sep index t = some rest) :
    Takes t rest := by
  unfold readSeparator at h
  split at h
  · cases h
    exact .refl t
  · cases t with
    | nil => cases h
    | cons c t =>
      rw [readChar] at h
      split at h
      · rename_i same
        cases h
        refine ⟨[c], rfl, ?_⟩
        intro x mem
        rw [List.mem_singleton.1 mem, same]
        exact literal
      · cases h

theorem takes_readV4Octets {n index : Nat} {octets : List Nat} (h : readV4Octets n index t = some (octets, rest)) : Takes t rest := by
  induction n generalizing index t octets rest with
  | zero =>
    cases h
    exact .refl t
  | succ n ih =>
    simp only [readV4Octets, Option.bind_eq_bind, Option.bind_eq_some_iff, Option.pure_def] at h
    obtain ⟨u, separator, ⟨octet, v⟩, number, ⟨more, w⟩, others, same⟩ := h
    cases same
    exact ((takes_readSeparator (Or.inr (Or.inl rfl)) separator).trans (takes_readNumber (Or.inl rfl) number)).trans (ih others)

theorem takes_readGroups (left index : Nat) (t : Text) : Takes t (readGroups left index t).2.2 := by
  induction left generalizing index t with
  | zero => exact .refl t
  | succ left ih =>
    have colon : LiteralChar ':' := Or.inr (Or.inr rfl)
    rw [readGroups]
    dsimp only
    split
    · rename_i octets u embedded
      split at embedded
      · obtain ⟨v, separator, octets_read⟩ := Option.bind_eq_some_iff.1 embedded
        exact (takes_readSeparator colon separator).trans (takes_readV4Octets octets_read)
      · cases embedded
    · split
      · rename_i g u group
        obtain ⟨v, separator, number⟩ := Option.bind_eq_some_iff.1 group
        exact ((takes_readSeparator colon separator).trans (takes_readNumber (Or.inr rfl) number)).trans (ih (index + 1) u)
      · exact .refl t

theorem takes_readChar {c : Char} (literal : LiteralChar c) (h : readChar c t = some rest) : Takes t rest :=
  @takes_readSeparator t rest c 1 literal h

theorem takes_readV6 {segs : List Nat} (h : readV6 t = some (segs, rest)) : Takes t rest := by
  have colon : LiteralChar ':' := Or.inr (Or.inr rfl)
  have groups := takes_readGroups 8 0 t
  rw [readV6] at h
  dsimp only at h
  split at h
  · cases h
    exact groups
  · split at h
    · cases h
    · simp only [Option.bind_eq_bind, Option.bind_eq_some_iff, Option.pure_def] at h
      obtain ⟨u, first, v, second, same⟩ := h
      cases same
      exact ((groups.trans (takes_readChar colon first)).trans (takes_readChar colon second)).trans (takes_readGroups _ 0 v)

/-- **The characters of a literal.** -/
theorem literalChar_of_parse {a : IpAddr} (h : parseIpAddr t = some a) : ∀ c ∈ t, LiteralChar c := by
  have whole : Takes t [] := by
    unfold parseIpAddr at h
    split at h
    · rename_i octets read
      exact takes_readV4Octets read
    · cases h
    · split at h
      · rename_i segs read
        exact takes_readV6 read
      · cases h
  obtain ⟨w, rfl, chars⟩ := whole
  rwa [List.append_nil]

theorem readChar_eq_none {c : Char} (missing : c ∉ t) : readChar c t = none := by
  cases t with
  | nil => rfl
  | cons d t =>
    rw [List.mem_cons, not_or] at missing
    exact if_neg (Ne.symm missing.1)

/-- Without a colon, at most one group is read. -/
theorem readV6_eq_none (noColon : ':' ∉ t) : readV6 t = none := by
  cases embedded : readV4 t with
  | some r => simp [readV6, readGroups, readSeparator, embedded]
  | none =>
    cases number : readNumber 16 4 65536 true t with
    | none => simp [readV6, readGroups, readSeparator, embedded, number, readChar_eq_none noColon]
    | some r =>
      obtain ⟨g, u⟩ := r
      have missing : ':' ∉ u := fun mem => noColon (readNumber_subset number mem)
      simp [readV6, readGroups, readSeparator, embedded, number, readChar_eq_none missing]

theorem colon_mem_of_parse {bits : BitVec 128} (h : parseIpAddr t = some (.v6 bits)) : ':' ∈ t := by
  by_contra noColon
  rw [parseIpAddr, readV6_eq_none noColon] at h
  split at h
  · cases h
  · cases h
  · cases h

/-- Dots are only in an embedded address of IPv4. -/
theorem showV6_dots (bits : Nat) : '.' ∉ showV6 bits ∨ ∃ n, showV6 bits = "::ffff:".toList ++ showV4 n := by
  rw [showV6]
  dsimp only
  split
  · exact Or.inr ⟨_, rfl⟩
  · left
    split
    · simp only [List.mem_append, not_or]
      exact ⟨⟨dot_not_mem_showHexGroups _, by decide⟩, dot_not_mem_showHexGroups _⟩
    · exact dot_not_mem_showHexGroups _

theorem getLast?_showV4 (n : Nat) : (showV4 n).getLast? ≠ some '.' := by
  have four : (fields 8 4 n).length = 4 := fields_length
  rw [showV4]
  generalize fields 8 4 n = os at four
  obtain ⟨a, b, c, e, rfl⟩ := List.length_eq_four.1 four
  have last : joinText ['.'] ([a, b, c, e].map showNat) = (showNat a ++ ['.'] ++ (showNat b ++ ['.'] ++ (showNat c ++ ['.']))) ++ showNat e := by
    simp [joinText]
  have some_digit : showNat e ≠ [] := Nat.toDigits_ne_nil
  intro dot
  rw [last, List.getLast?_append_of_ne_nil _ some_digit] at dot
  exact not_mem_showNat (by decide) e (List.mem_of_getLast? dot)

theorem head?_showV6 (bits : Nat) : (showV6 bits).head? ≠ some '.' := by
  rcases showV6_dots bits with none_there | ⟨n, eq⟩
  · exact fun dot => none_there (List.mem_of_head? dot)
  · rw [eq]
    simp

theorem getLast?_showV6 (bits : Nat) : (showV6 bits).getLast? ≠ some '.' := by
  rcases showV6_dots bits with none_there | ⟨n, eq⟩
  · exact fun dot => none_there (List.mem_of_getLast? dot)
  · have some_text : showV4 n ≠ [] := by
      intro empty
      have nothing : Ends 10 [] := by simp [Ends]
      have parsed := readV4_showV4 n nothing
      rw [empty, List.append_nil] at parsed
      cases parsed
    rw [eq, List.getLast?_append_of_ne_nil _ some_text]
    exact getLast?_showV4 n

/-! ## How long a text is -/

theorem length_joinText_le {sep : Text} {ts : List Text} {n : Nat} (small : ∀ t ∈ ts, t.length ≤ n) :
    (joinText sep ts).length ≤ ts.length * (n + sep.length) := by
  induction ts with
  | nil => exact Nat.zero_le _
  | cons t ts ih =>
    have first := small t List.mem_cons_self
    have rest := ih fun u mem => small u (List.mem_cons_of_mem t mem)
    rw [List.length_cons, Nat.add_mul, Nat.one_mul]
    cases ts with
    | nil =>
      rw [joinText]
      omega
    | cons u us =>
      rw [joinText, List.length_append, List.length_append]
      · omega
      · simp

theorem mem_fields {width n bits f : Nat} (mem : f ∈ fields width n bits) : f < 2 ^ width := by
  obtain ⟨k, -, rfl⟩ := List.mem_map.1 mem
  exact Nat.mod_lt _ (by positivity)

theorem length_showV4_le (bits : Nat) : (showV4 bits).length ≤ 16 := by
  refine (length_joinText_le (n := 3) ?_).trans (by simp [fields])
  intro t mem
  obtain ⟨f, field, rfl⟩ := List.mem_map.1 mem
  have lt := mem_fields field
  exact (Nat.length_toDigits_le_iff (by omega) (by omega)).2 (by omega)

theorem length_showHexGroups_le {segs : List Nat} (small : ∀ f ∈ segs, f < 2 ^ 16) :
    (showHexGroups segs).length ≤ segs.length * 5 := by
  have digits : ∀ t ∈ segs.map (Nat.toDigits 16), t.length ≤ 4 := by
    intro t mem
    obtain ⟨f, field, rfl⟩ := List.mem_map.1 mem
    have lt := small f field
    exact (Nat.length_toDigits_le_iff (by omega) (by omega)).2 (by omega)
  have joined := @length_joinText_le [':'] _ 4 digits
  rw [List.length_map] at joined
  exact joined

/-- The text of an address is short. -/
theorem length_display_le (ip : IpAddr) : ip.display.length ≤ 82 := by
  cases ip with
  | v4 bits => exact (length_showV4_le _).trans (by omega)
  | v6 bits =>
    have small : ∀ f ∈ fields 16 8 bits.toNat, f < 2 ^ 16 := fun f mem => mem_fields mem
    have eight : (fields 16 8 bits.toNat).length = 8 := by simp [fields]
    show (showV6 bits.toNat).length ≤ 82
    unfold showV6
    dsimp only
    split
    · have v4 := length_showV4_le (bits.toNat % 2 ^ 32)
      rw [List.length_append]
      change 7 + _ ≤ 82
      omega
    · split
      · have before := @length_showHexGroups_le ((fields 16 8 bits.toNat).take (longestZeros (fields 16 8 bits.toNat)).start)
          fun f mem => small f (List.mem_of_mem_take mem)
        have after := @length_showHexGroups_le ((fields 16 8 bits.toNat).drop
          ((longestZeros (fields 16 8 bits.toNat)).start + (longestZeros (fields 16 8 bits.toNat)).len))
          fun f mem => small f (List.mem_of_mem_drop mem)
        rw [List.length_take, eight] at before
        rw [List.length_drop, eight] at after
        rw [List.length_append, List.length_append]
        change _ + 2 + _ ≤ 82
        omega
      · have all := length_showHexGroups_le small
        rw [eight] at all
        omega

end ProxyBroker.Lib
