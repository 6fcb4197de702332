import Mathlib.Data.List.Induction
import Mathlib.Tactic.IntervalCases
import ProxyBroker.Lib.Ip

/-!
# The text of an address is read back

`parse_display`: the parser of `FromStr` inverts `Display`, for every IPv4 and IPv6 address. Numbers
first, then the dotted and the colon-separated lists, then the zero run that `::` stands for. The last
section does the same for `host:port`.
-/

namespace ProxyBroker.Lib

/-! ## Numbers -/

theorem toDigit_digitChar {radix d : Nat} (le : radix ≤ 16) (lt : d < radix) : toDigit radix d.digitChar = some d := by
  have value : ∀ d < 16, (if 48 ≤ d.digitChar.toNat ∧ d.digitChar.toNat ≤ 57 then d.digitChar.toNat - 48
      else if 97 ≤ d.digitChar.toNat ∧ d.digitChar.toNat ≤ 122 then d.digitChar.toNat - 87
      else if 65 ≤ d.digitChar.toNat ∧ d.digitChar.toNat ≤ 90 then d.digitChar.toNat - 55 else 36) = d := by decide +kernel
  simp only [toDigit, value d (by omega), if_pos lt]

variable {radix n : Nat}

theorem mem_toDigits (two : 2 ≤ radix) {c : Char} (mem : c ∈ Nat.toDigits radix n) : ∃ d, d < radix ∧ c = d.digitChar := by
  induction n using Nat.strongRecOn with
  | ind n ih =>
    rw [Nat.toDigits_eq_if (by omega)] at mem
    split at mem
    · rename_i lt
      exact ⟨n, lt, List.mem_singleton.1 mem⟩
    · rcases List.mem_append.1 mem with high | low
      · exact ih (n / radix) (Nat.div_lt_self (by omega) (by omega)) high
      · exact ⟨n % radix, Nat.mod_lt _ (by omega), List.mem_singleton.1 low⟩

theorem toDigit_of_mem (two : 2 ≤ radix) (le : radix ≤ 16) {c : Char} (mem : c ∈ Nat.toDigits radix n) :
    (toDigit radix c).isSome = true := by
  obtain ⟨d, lt, rfl⟩ := mem_toDigits two mem
  rw [toDigit_digitChar le lt]
  rfl

theorem value_toDigits (two : 2 ≤ radix) (le : radix ≤ 16) (n : Nat) :
    (Nat.toDigits radix n).foldl (fun n c => n * radix + (toDigit radix c).getD 0) 0 = n := by
  induction n using Nat.strongRecOn with
  | ind n ih =>
    rw [Nat.toDigits_eq_if (by omega)]
    split
    · rename_i lt
      simp [toDigit_digitChar le lt]
    · rw [List.foldl_append, ih (n / radix) (Nat.div_lt_self (by omega) (by omega))]
      simp only [List.foldl_cons, List.foldl_nil, toDigit_digitChar le (Nat.mod_lt n (by omega : 0 < radix)), Option.getD_some]
      exact Nat.div_add_mod' n radix

/-- Only zero begins with a zero. -/
theorem head_toDigits (two : 2 ≤ radix) (pos : n ≠ 0) : (Nat.toDigits radix n).head? ≠ some '0' := by
  induction n using Nat.strongRecOn with
  | ind n ih =>
    rw [Nat.toDigits_eq_if (by omega)]
    split
    · simpa using pos
    · have more : (Nat.toDigits radix (n / radix)).head? ≠ some '0' :=
        ih (n / radix) (Nat.div_lt_self (by omega) (by omega)) (Nat.div_pos (by omega) (by omega)).ne'
      rw [List.head?_append_of_ne_nil _ Nat.toDigits_ne_nil]
      exact more

/-- The text goes on with something that is not a digit. -/
def Ends (radix : Nat) (rest : Text) : Prop := ∀ c ∈ rest.head?, toDigit radix c = none

theorem readNumber_toDigits {maxDigits bound : Nat} {zero : Bool} {rest : Text} (two : 2 ≤ radix) (le : radix ≤ 16)
    (short : n < radix ^ maxDigits) (pos : 0 < maxDigits) (below : n < bound) (ends : Ends radix rest) :
    readNumber radix maxDigits bound zero (Nat.toDigits radix n ++ rest) = some (n, rest) := by
  have none_more : rest.takeWhile (fun c => (toDigit radix c).isSome) = [] := by
    cases rest with
    | nil => rfl
    | cons c rest => rw [List.takeWhile_cons_of_neg]; simp [ends c rfl]
  have digits : (Nat.toDigits radix n ++ rest).takeWhile (fun c => (toDigit radix c).isSome) = Nat.toDigits radix n := by
    rw [List.takeWhile_append_of_pos fun c mem => toDigit_of_mem two le mem, none_more, List.append_nil]
  have length : (Nat.toDigits radix n).length ≤ maxDigits := (Nat.length_toDigits_le_iff (by omega) pos).2 short
  have some_digit : 0 < (Nat.toDigits radix n).length := Nat.length_toDigits_pos
  have leading : ¬ ((Nat.toDigits radix n).head? = some '0' ∧ 1 < (Nat.toDigits radix n).length) := by
    rintro ⟨head, long⟩
    by_cases null : n = 0
    · rw [null, Nat.toDigits_zero] at long
      simp at long
    · exact head_toDigits two null head
  simp only [readNumber, digits, value_toDigits two le]
  rw [if_neg (by omega), if_neg (fun h => leading h.2), if_neg (by omega), List.drop_left]

theorem readNumber_eq_none {maxDigits bound : Nat} {zero : Bool} {rest : Text} (ends : Ends radix rest) :
    readNumber radix maxDigits bound zero rest = none := by
  have none_there : rest.takeWhile (fun c => (toDigit radix c).isSome) = [] := by
    cases rest with
    | nil => rfl
    | cons c rest => rw [List.takeWhile_cons_of_neg]; simp [ends c rfl]
  simp [readNumber, none_there]

theorem readNumber_subset {maxDigits bound : Nat} {zero : Bool} {t rest : Text}
    (h : readNumber radix maxDigits bound zero t = some (n, rest)) : rest ⊆ t := by
  simp only [readNumber] at h
  split at h
  · cases h
  · split at h
    · cases h
    · split at h
      · cases h
      · cases h
        exact List.drop_subset _ _

/-! ## Lists with separators -/

/-- The items, each led by the separator. -/
def led (sep : Char) (ts : List Text) : Text := ts.flatMap fun t => sep :: t

theorem joinText_cons (sep : Char) (t : Text) (ts : List Text) : joinText [sep] (t :: ts) = t ++ led sep ts := by
  induction ts generalizing t with
  | nil => simp [joinText, led]
  | cons u us ih =>
    rw [joinText, ih]
    · simp [led]
    · simp

theorem ends_led {sep : Char} {ts : List Text} {rest : Text} (sepEnds : toDigit radix sep = none) (ends : Ends radix rest) :
    Ends radix (led sep ts ++ rest) := by
  cases ts with
  | nil => exact ends
  | cons t ts =>
    intro c head
    cases head
    exact sepEnds

theorem readV4Octets_led {os : List Nat} {rest : Text} (index : Nat) (small : ∀ o ∈ os, o < 256) (ends : Ends 10 rest) :
    readV4Octets os.length (index + 1) (led '.' (os.map showNat) ++ rest) = some (os, rest) := by
  induction os generalizing index with
  | nil => rfl
  | cons o os ih =>
    have one : o < 256 := small o List.mem_cons_self
    have number : readNumber 10 3 256 false (showNat o ++ (led '.' (os.map showNat) ++ rest)) =
        some (o, led '.' (os.map showNat) ++ rest) :=
      readNumber_toDigits (by decide) (by decide) (by omega) (by decide) one (ends_led (by decide) ends)
    have others := ih (index + 1) fun p mem => small p (List.mem_cons_of_mem o mem)
    simp [led, readV4Octets, readSeparator, readChar] at number others ⊢
    simp [number, others]

theorem readV4_show {os : List Nat} {rest : Text} (four : os.length = 4) (small : ∀ o ∈ os, o < 256) (ends : Ends 10 rest) :
    readV4 (joinText ['.'] (os.map showNat) ++ rest) = some (os, rest) := by
  cases os with
  | nil => cases four
  | cons o os =>
    have three : os.length = 3 := by simpa using four
    have one : o < 256 := small o List.mem_cons_self
    have number : readNumber 10 3 256 false (showNat o ++ (led '.' (os.map showNat) ++ rest)) =
        some (o, led '.' (os.map showNat) ++ rest) :=
      readNumber_toDigits (by decide) (by decide) (by omega) (by decide) one (ends_led (by decide) ends)
    have others : readV4Octets os.length 1 (led '.' (os.map showNat) ++ rest) = some (os, rest) :=
      readV4Octets_led 0 (fun p mem => small p (List.mem_cons_of_mem o mem)) ends
    rw [three] at others
    rw [List.map_cons, joinText_cons, List.append_assoc, readV4, readV4Octets]
    simp only [readSeparator, if_true, Option.bind_eq_bind, Option.bind_some, number, others]
    rfl

/-- An IPv4 address is read only where a dot follows. -/
theorem readV4_eq_none {t : Text} (noDot : '.' ∉ t) : readV4 t = none := by
  simp only [readV4, readV4Octets, readSeparator, if_true, Option.bind_eq_bind, Option.bind_some]
  cases number : readNumber 10 3 256 false t with
  | none => rfl
  | some r =>
    obtain ⟨o, rest⟩ := r
    have part := readNumber_subset number
    have stops : readChar '.' rest = none := by
      cases rest with
      | nil => rfl
      | cons c rest =>
        have other : c ≠ '.' := by
          rintro rfl
          exact noDot (part List.mem_cons_self)
        simp [readChar, other]
    simp [stops]

/-! ## Fields -/

theorem fields_lt {width n bits : Nat} : ∀ f ∈ fields width n bits, f < 2 ^ width := by
  intro f mem
  obtain ⟨k, -, rfl⟩ := List.mem_map.1 mem
  exact Nat.mod_lt _ (Nat.two_pow_pos width)

theorem fields_length {width n bits : Nat} : (fields width n bits).length = n := by simp [fields]

theorem fields_succ (width n x : Nat) : fields width (n + 1) x = fields width n (x / 2 ^ width) ++ [x % 2 ^ width] := by
  rw [fields, List.range_succ, List.map_append, fields]
  congr 1
  · refine List.map_congr_left fun k mem => ?_
    have before := List.mem_range.1 mem
    have shift : n + 1 - 1 - k = 1 + (n - 1 - k) := by omega
    rw [shift, Nat.mul_add, Nat.mul_one, pow_add, Nat.div_div_eq_div_mul]
  · simp

theorem joinFields_fields {width n x : Nat} (lt : x < 2 ^ (width * n)) : joinFields width (fields width n x) = x := by
  induction n generalizing x with
  | zero =>
    have zero : x = 0 := by simpa using lt
    rw [zero]
    rfl
  | succ n ih =>
    have high : x / 2 ^ width < 2 ^ (width * n) := by
      rw [Nat.div_lt_iff_lt_mul (by positivity), ← pow_add]
      exact lt
    rw [fields_succ, joinFields, List.foldl_append, ← joinFields, ih high]
    exact Nat.div_add_mod' x (2 ^ width)

theorem joinFields_v4 {bits : Nat} (lt : bits < 2 ^ 32) : joinFields 8 (fields 8 4 bits) = bits := joinFields_fields lt

theorem joinFields_v6 {bits : Nat} (lt : bits < 2 ^ 128) : joinFields 16 (fields 16 8 bits) = bits := joinFields_fields lt

theorem readV4_showV4 (bits : Nat) {rest : Text} (ends : Ends 10 rest) : readV4 (showV4 bits ++ rest) = some (fields 8 4 bits, rest) :=
  readV4_show fields_length fields_lt ends

theorem parse_showV4 {bits : Nat} (lt : bits < 2 ^ 32) : parseIpAddr (showV4 bits) = some (.v4 (BitVec.ofNat 32 bits)) := by
  have read : readV4 (showV4 bits ++ []) = some (fields 8 4 bits, []) := readV4_showV4 bits (by simp [Ends])
  rw [List.append_nil] at read
  simp only [parseIpAddr, read, joinFields_v4 lt]

/-! ## Groups -/

/-- The groups end here: at the end of the text, or at a `::`. -/
def Stops (rest : Text) : Prop := rest = [] ∨ ∃ r, rest = ':' :: ':' :: r

theorem Stops.ends {rest : Text} (stops : Stops rest) : Ends 16 rest := by
  rcases stops with rfl | ⟨r, rfl⟩
  · simp [Ends]
  · intro c head
    cases head
    decide

theorem Stops.no_group {rest : Text} (stops : Stops rest) (index : Nat) :
    (readSeparator ':' index rest).bind (readNumber 16 4 65536 true) = none := by
  unfold readSeparator
  split
  · exact readNumber_eq_none stops.ends
  · rcases stops with rfl | ⟨r, rfl⟩
    · rfl
    · have colon : Ends 16 (':' :: r) := by
        intro c head
        cases head
        decide
      have none_there : readNumber 16 4 65536 true (':' :: r) = none := readNumber_eq_none colon
      exact none_there

theorem readSeparator_subset {sep : Char} {index : Nat} {t rest : Text} (h : readSeparator sep index t = some rest) : rest ⊆ t := by
  unfold readSeparator at h
  split at h
  · cases h
    exact List.Subset.refl t
  · cases t with
    | nil => cases h
    | cons c t =>
      simp only [readChar] at h
      split at h
      · cases h
        exact List.subset_cons_self _ _
      · cases h

theorem embedded_eq_none {left index : Nat} {t : Text} (noDot : '.' ∉ t) :
    (if 0 < left then (readSeparator ':' index t).bind readV4 else none) = none := by
  split
  · cases sep : readSeparator ':' index t with
    | none => rfl
    | some rest => exact readV4_eq_none fun mem => noDot (readSeparator_subset sep mem)
  · rfl

/-- A segment in hexadecimal. -/
def hex (g : Nat) : Text := Nat.toDigits 16 g

theorem dot_not_mem_hex (g : Nat) : '.' ∉ hex g := by
  intro mem
  obtain ⟨d, lt, eq⟩ := mem_toDigits (by decide) mem
  interval_cases d <;> cases eq

theorem dot_not_mem_led (gs : List Nat) : '.' ∉ led ':' (gs.map hex) := by
  simp [led, dot_not_mem_hex]

/-- One more group. -/
theorem readGroups_succ {left index g : Nat} {gs : List Nat} {t after rest : Text} (noDot : '.' ∉ t)
    (number : (readSeparator ':' index t).bind (readNumber 16 4 65536 true) = some (g, after))
    (others : readGroups left (index + 1) after = (gs, false, rest)) :
    readGroups (left + 1) index t = (g :: gs, false, rest) := by
  rw [readGroups, embedded_eq_none noDot]
  simp only [number, others]

/-- No more groups. -/
theorem readGroups_stops {left index : Nat} {rest : Text} (noDot : '.' ∉ rest) (stops : Stops rest) :
    readGroups left index rest = ([], false, rest) := by
  cases left with
  | zero => rfl
  | succ left =>
    rw [readGroups, embedded_eq_none noDot]
    simp only [stops.no_group]

theorem readHex {g : Nat} {rest : Text} (lt : g < 65536) (ends : Ends 16 rest) :
    readNumber 16 4 65536 true (hex g ++ rest) = some (g, rest) :=
  readNumber_toDigits (by decide) (by decide) lt (by decide) lt ends

theorem readGroups_led {left : Nat} {gs : List Nat} {rest : Text} (index : Nat) (room : gs.length ≤ left)
    (small : ∀ g ∈ gs, g < 65536) (noDot : '.' ∉ rest) (stops : Stops rest) :
    readGroups left (index + 1) (led ':' (gs.map hex) ++ rest) = (gs, false, rest) := by
  induction gs generalizing left index with
  | nil => exact readGroups_stops noDot stops
  | cons g gs ih =>
    obtain ⟨left, rfl⟩ : ∃ n, left = n + 1 := ⟨left - 1, by simp only [List.length_cons] at room; omega⟩
    refine readGroups_succ ?_ ?_ (ih (index + 1) (by simpa using room) fun h mem => small h (List.mem_cons_of_mem g mem))
    · rw [List.mem_append, not_or]
      exact ⟨dot_not_mem_led (g :: gs), noDot⟩
    · have after : Ends 16 (led ':' (gs.map hex) ++ rest) := ends_led (by decide) stops.ends
      simpa [led, readSeparator, readChar] using readHex (small g List.mem_cons_self) after

theorem readGroups_show {left : Nat} {gs : List Nat} {rest : Text} (room : gs.length ≤ left)
    (small : ∀ g ∈ gs, g < 65536) (noDot : '.' ∉ rest) (stops : Stops rest) :
    readGroups left 0 (showHexGroups gs ++ rest) = (gs, false, rest) := by
  cases gs with
  | nil => exact readGroups_stops noDot stops
  | cons g gs =>
    obtain ⟨left, rfl⟩ : ∃ n, left = n + 1 := ⟨left - 1, by simp only [List.length_cons] at room; omega⟩
    have text : showHexGroups (g :: gs) ++ rest = hex g ++ (led ':' (gs.map hex) ++ rest) := by
      rw [← List.append_assoc, ← joinText_cons]
      rfl
    rw [text]
    refine readGroups_succ ?_ ?_ (readGroups_led 0 (by simpa using room) (fun h mem => small h (List.mem_cons_of_mem g mem)) noDot stops)
    · simp only [List.mem_append, not_or]
      exact ⟨dot_not_mem_hex g, dot_not_mem_led gs, noDot⟩
    · exact readHex (small g List.mem_cons_self) (ends_led (by decide) stops.ends)

/-! ## The zero run -/

/-- The span is a run of zeros. -/
structure Span.Zeros (segs : List Nat) (sp : Span) : Prop where
  inside : sp.start + sp.len ≤ segs.length
  zero : ∀ j, sp.start ≤ j → j < sp.start + sp.len → segs[j]? = some 0

theorem Span.Zeros.append {segs : List Nat} {sp : Span} (zeros : sp.Zeros segs) (x : Nat) : sp.Zeros (segs ++ [x]) := by
  refine ⟨?_, ?_⟩
  · rw [List.length_append]
    exact Nat.le_trans zeros.inside (Nat.le_add_right _ _)
  · intro j low high
    rw [List.getElem?_append_left (Nat.lt_of_lt_of_le high zeros.inside)]
    exact zeros.zero j low high

/-- A run that reaches the end goes on with a zero. -/
theorem Span.Zeros.extend {segs : List Nat} {sp : Span} (zeros : sp.Zeros segs) (reaches : sp.start + sp.len = segs.length) :
    (Span.mk sp.start (sp.len + 1)).Zeros (segs ++ [0]) := by
  refine ⟨?_, ?_⟩
  · simp [← reaches, Nat.add_assoc]
  · intro j low high
    by_cases before : j < segs.length
    · rw [List.getElem?_append_left before]
      exact zeros.zero j low (by omega)
    · obtain rfl : j = segs.length := by simp only at high; omega
      simp

/-- The step of `longestZeros`, on the longest run and the current one. -/
def growRun (st : Span × Span) (s : Nat × Nat) : Span × Span :=
  if s.1 = 0 then
    let current : Span := if st.2.len = 0 then ⟨s.2, 1⟩ else ⟨st.2.start, st.2.len + 1⟩
    (if current.len > st.1.len then current else st.1, current)
  else (st.1, ⟨0, 0⟩)

theorem longestZeros_eq (segs : List Nat) : longestZeros segs = (segs.zipIdx.foldl growRun (⟨0, 0⟩, ⟨0, 0⟩)).1 := rfl

/-- Both are runs of zeros, and the current one is empty or reaches the end. -/
structure Runs (segs : List Nat) (st : Span × Span) : Prop where
  longest : st.1.Zeros segs
  current : st.2.Zeros segs
  reaches : st.2.len ≠ 0 → st.2.start + st.2.len = segs.length

theorem zeros_empty (segs : List Nat) : (Span.mk 0 0).Zeros segs := ⟨Nat.zero_le _, fun j _ high => absurd high (Nat.not_lt_zero j)⟩

theorem Runs.grow {segs : List Nat} {st : Span × Span} (runs : Runs segs st) (x : Nat) :
    Runs (segs ++ [x]) (growRun st (x, segs.length)) := by
  unfold growRun
  by_cases isZero : x = 0
  · subst isZero
    obtain ⟨current, isCurrent, zeros, ends⟩ : ∃ current,
        (if st.2.len = 0 then Span.mk segs.length 1 else Span.mk st.2.start (st.2.len + 1)) = current ∧
        current.Zeros (segs ++ [0]) ∧ current.start + current.len = (segs ++ [0]).length := by
      by_cases fresh : st.2.len = 0
      · refine ⟨⟨segs.length, 1⟩, if_pos fresh, ⟨by simp, ?_⟩, by simp⟩
        intro j low high
        obtain rfl : j = segs.length := by simp only at low high; omega
        simp
      · have ends := runs.reaches fresh
        exact ⟨⟨st.2.start, st.2.len + 1⟩, if_neg fresh, runs.current.extend ends, by simp [← ends, Nat.add_assoc]⟩
    simp only [if_true, isCurrent]
    refine ⟨?_, zeros, fun _ => ends⟩
    dsimp only
    split
    · exact zeros
    · exact runs.longest.append 0
  · rw [if_neg isZero]
    exact ⟨runs.longest.append x, zeros_empty _, fun h => absurd rfl h⟩

theorem longestZeros_zeros (segs : List Nat) : (longestZeros segs).Zeros segs := by
  have runs : Runs segs (segs.zipIdx.foldl growRun (⟨0, 0⟩, ⟨0, 0⟩)) := by
    induction segs using List.reverseRecOn with
    | nil => exact ⟨zeros_empty [], zeros_empty [], fun h => absurd rfl h⟩
    | append_singleton segs x ih =>
      rw [List.zipIdx_append, List.foldl_append]
      simpa using ih.grow x
  rw [longestZeros_eq]
  exact runs.longest

/-- A list with its run of zeros written out. -/
theorem Span.Zeros.split {segs : List Nat} {sp : Span} (zeros : sp.Zeros segs) :
    segs.take sp.start ++ List.replicate sp.len 0 ++ segs.drop (sp.start + sp.len) = segs := by
  have run : (segs.drop sp.start).take sp.len = List.replicate sp.len 0 := by
    apply List.ext_getElem?
    intro j
    by_cases inside : j < sp.len
    · rw [List.getElem?_take_of_lt inside, List.getElem?_drop, zeros.zero _ (by omega) (by omega), List.getElem?_replicate_of_lt inside]
    · rw [List.getElem?_eq_none, List.getElem?_eq_none]
      · simpa using Nat.le_of_not_lt inside
      · simp only [List.length_take, List.length_drop]
        omega
  rw [← run, List.append_assoc, ← List.drop_drop, List.take_append_drop, List.take_append_drop]

/-! ## IPv6 -/

theorem dot_not_mem_showHexGroups (gs : List Nat) : '.' ∉ showHexGroups gs := by
  cases gs with
  | nil => simp [showHexGroups, joinText]
  | cons g gs =>
    have text : showHexGroups (g :: gs) = hex g ++ led ':' (gs.map hex) := by
      rw [← joinText_cons]
      rfl
    rw [text, List.mem_append, not_or]
    exact ⟨dot_not_mem_hex g, dot_not_mem_led gs⟩

/-- All eight groups are written out. -/
theorem readV6_groups {segs : List Nat} (eight : segs.length = 8) (small : ∀ g ∈ segs, g < 65536) :
    readV6 (showHexGroups segs) = some (segs, []) := by
  have read : readGroups 8 0 (showHexGroups segs ++ []) = (segs, false, []) :=
    readGroups_show (Nat.le_of_eq eight) small (by simp) (Or.inl rfl)
  rw [List.append_nil] at read
  simp only [readV6, read, eight, if_true]

/-- The longest zero run is written as `::`. -/
theorem readV6_zeros {segs : List Nat} {sp : Span} (eight : segs.length = 8) (small : ∀ g ∈ segs, g < 65536)
    (zeros : sp.Zeros segs) (long : 1 < sp.len) :
    readV6 (showHexGroups (segs.take sp.start) ++ "::".toList ++ showHexGroups (segs.drop (sp.start + sp.len))) = some (segs, []) := by
  have inside := zeros.inside
  have headLength : (segs.take sp.start).length = sp.start := by simp; omega
  have tailLength : (segs.drop (sp.start + sp.len)).length = 8 - sp.start - sp.len := by simp; omega
  have noDot : '.' ∉ "::".toList ++ showHexGroups (segs.drop (sp.start + sp.len)) := by
    rw [List.mem_append, not_or]
    exact ⟨by decide, dot_not_mem_showHexGroups _⟩
  have head : readGroups 8 0 (showHexGroups (segs.take sp.start) ++ ("::".toList ++ showHexGroups (segs.drop (sp.start + sp.len)))) =
      (segs.take sp.start, false, ':' :: ':' :: showHexGroups (segs.drop (sp.start + sp.len))) :=
    readGroups_show (by omega) (fun g mem => small g (List.mem_of_mem_take mem)) noDot (Or.inr ⟨_, rfl⟩)
  have tail : readGroups (8 - (sp.start + 1)) 0 (showHexGroups (segs.drop (sp.start + sp.len)) ++ []) =
      (segs.drop (sp.start + sp.len), false, []) :=
    readGroups_show (by omega) (fun g mem => small g (List.mem_of_mem_drop mem)) (by simp) (Or.inl rfl)
  rw [List.append_nil] at tail
  have run : 8 - sp.start - (8 - sp.start - sp.len) = sp.len := by omega
  rw [List.append_assoc]
  simp only [readV6, head, headLength, if_neg (show ¬ sp.start = 8 by omega), Bool.false_eq_true, if_false, readChar, if_true,
    Option.bind_eq_bind, Option.bind_some, tail, tailLength, run, zeros.split]
  rfl

theorem readV4_of_ends {t : Text} (ends : Ends 10 t) : readV4 t = none := by
  have none_there : readNumber 10 3 256 false t = none := readNumber_eq_none ends
  simp only [readV4, readV4Octets, readSeparator, if_true, Option.bind_eq_bind, Option.bind_some, none_there, Option.bind_none]

/-- An IPv4-mapped address ends in dotted form. -/
theorem readV6_mapped (bits : Nat) :
    readV6 ("::ffff:".toList ++ showV4 bits) =
      some ([0, 0, 0, 0, 0, 0xFFFF] ++ [(fields 8 4 bits).getD 0 0 * 256 + (fields 8 4 bits).getD 1 0,
        (fields 8 4 bits).getD 2 0 * 256 + (fields 8 4 bits).getD 3 0], []) := by
  have dotted : readV4 (showV4 bits ++ []) = some (fields 8 4 bits, []) := readV4_showV4 bits (by simp [Ends])
  rw [List.append_nil] at dotted
  have colon16 (t : Text) : Ends 16 (':' :: t) := by
    intro c head
    cases head
    decide
  have colon10 (t : Text) : Ends 10 (':' :: t) := by
    intro c head
    cases head
    decide
  have letter : Ends 10 ('f' :: 'f' :: 'f' :: 'f' :: ':' :: showV4 bits) := by
    intro c head
    cases head
    decide
  have head : readGroups 8 0 (':' :: ':' :: 'f' :: 'f' :: 'f' :: 'f' :: ':' :: showV4 bits) =
      ([], false, ':' :: ':' :: 'f' :: 'f' :: 'f' :: 'f' :: ':' :: showV4 bits) := by
    have no_number : readNumber 16 4 65536 true (':' :: ':' :: 'f' :: 'f' :: 'f' :: 'f' :: ':' :: showV4 bits) = none :=
      readNumber_eq_none (colon16 _)
    rw [readGroups]
    simp only [readSeparator, if_true, Option.bind_some, readV4_of_ends (colon10 _), no_number, ite_self]
  have group : readNumber 16 4 65536 true ('f' :: 'f' :: 'f' :: 'f' :: ':' :: showV4 bits) = some (0xFFFF, ':' :: showV4 bits) := by
    have digits : hex 0xFFFF = ['f', 'f', 'f', 'f'] := by decide
    have read : readNumber 16 4 65536 true (hex 0xFFFF ++ ':' :: showV4 bits) = some (0xFFFF, ':' :: showV4 bits) :=
      readHex (by decide) (colon16 _)
    rw [digits] at read
    exact read
  have last : readGroups 6 1 (':' :: showV4 bits) =
      ([(fields 8 4 bits).getD 0 0 * 256 + (fields 8 4 bits).getD 1 0,
        (fields 8 4 bits).getD 2 0 * 256 + (fields 8 4 bits).getD 3 0], true, []) := by
    rw [readGroups]
    simp only [readSeparator, readChar, if_true, Option.bind_some, dotted, Nat.one_ne_zero, if_false, Nat.zero_lt_succ]
  have tail : readGroups 7 0 ('f' :: 'f' :: 'f' :: 'f' :: ':' :: showV4 bits) =
      (0xFFFF :: [(fields 8 4 bits).getD 0 0 * 256 + (fields 8 4 bits).getD 1 0,
        (fields 8 4 bits).getD 2 0 * 256 + (fields 8 4 bits).getD 3 0], true, []) := by
    rw [readGroups]
    simp only [readSeparator, if_true, Option.bind_some, readV4_of_ends letter, group, last, ite_self, Nat.zero_add]
  have text : "::ffff:".toList ++ showV4 bits = ':' :: ':' :: 'f' :: 'f' :: 'f' :: 'f' :: ':' :: showV4 bits := rfl
  rw [text]
  simp only [readV6, head, List.length_nil, Bool.false_eq_true, if_false, readChar, if_true, Option.bind_eq_bind, Option.bind_some]
  rw [if_neg (by decide), tail]
  rfl

/-- The last two segments of an IPv4-mapped address, from its octets. -/
theorem mapped_segments {bits : Nat} (mapped : (fields 16 8 bits).take 6 = [0, 0, 0, 0, 0, 0xFFFF]) :
    [0, 0, 0, 0, 0, 0xFFFF] ++ [(fields 8 4 (bits % 2 ^ 32)).getD 0 0 * 256 + (fields 8 4 (bits % 2 ^ 32)).getD 1 0,
      (fields 8 4 (bits % 2 ^ 32)).getD 2 0 * 256 + (fields 8 4 (bits % 2 ^ 32)).getD 3 0] = fields 16 8 bits := by
  rw [← List.take_append_drop 6 (fields 16 8 bits), mapped]
  congr 1
  simp [fields, List.range_succ]
  omega

theorem readV6_show (bits : Nat) : readV6 (showV6 bits) = some (fields 16 8 bits, []) := by
  simp only [showV6]
  split
  · rename_i mapped
    rw [readV6_mapped, mapped_segments mapped]
  · split
    · rename_i long
      exact readV6_zeros fields_length fields_lt (longestZeros_zeros _) long
    · exact readV6_groups fields_length fields_lt

theorem readV4_showV6 (bits : Nat) : readV4 (showV6 bits) = none := by
  simp only [showV6]
  split
  · refine readV4_of_ends ?_
    intro c head
    cases head
    decide
  · split
    · refine readV4_eq_none ?_
      simp only [List.mem_append, not_or]
      exact ⟨⟨dot_not_mem_showHexGroups _, by decide⟩, dot_not_mem_showHexGroups _⟩
    · exact readV4_eq_none (dot_not_mem_showHexGroups _)

/-- **The text of an address is read back.** -/
theorem parse_display (a : IpAddr) : parseIpAddr a.display = some a := by
  cases a with
  | v4 bits => simpa [IpAddr.display] using parse_showV4 bits.isLt
  | v6 bits =>
    simp only [IpAddr.display, parseIpAddr, readV4_showV6, readV6_show, joinFields_v6 bits.isLt, BitVec.ofNat_toNat,
      BitVec.setWidth_eq]

theorem display_inj {a b : IpAddr} (h : a.display = b.display) : a = b := by
  have same := parse_display a
  rw [h, parse_display b] at same
  exact (Option.some.inj same).symm

theorem mem_joinText {sep c : Char} {ts : List Text} (mem : c ∈ joinText [sep] ts) : c = sep ∨ ∃ t ∈ ts, c ∈ t := by
  induction ts with
  | nil => cases mem
  | cons t ts ih =>
    rw [joinText_cons, led, List.mem_append, List.mem_flatMap] at mem
    rcases mem with here | ⟨u, later, here⟩
    · exact Or.inr ⟨t, List.mem_cons_self, here⟩
    · rcases List.mem_cons.1 here with rfl | here
      · exact Or.inl rfl
      · exact Or.inr ⟨u, List.mem_cons_of_mem t later, here⟩

/-- An address is written with digits, dots and colons. -/
theorem mem_display {a : IpAddr} {c : Char} (mem : c ∈ a.display) : c = '.' ∨ c = ':' ∨ ∃ d < 16, c = d.digitChar := by
  have v4 {bits : Nat} (mem : c ∈ showV4 bits) : c = '.' ∨ c = ':' ∨ ∃ d < 16, c = d.digitChar := by
    rcases mem_joinText mem with dot | ⟨t, octet, here⟩
    · exact Or.inl dot
    · obtain ⟨o, -, rfl⟩ := List.mem_map.1 octet
      obtain ⟨d, lt, rfl⟩ := mem_toDigits (by decide) here
      exact Or.inr (Or.inr ⟨d, by omega, rfl⟩)
  have groups {gs : List Nat} (mem : c ∈ showHexGroups gs) : c = '.' ∨ c = ':' ∨ ∃ d < 16, c = d.digitChar := by
    rcases mem_joinText mem with colon | ⟨t, group, here⟩
    · exact Or.inr (Or.inl colon)
    · obtain ⟨g, -, rfl⟩ := List.mem_map.1 group
      exact Or.inr (Or.inr (mem_toDigits (by decide) here))
  cases a with
  | v4 bits => exact v4 mem
  | v6 bits =>
    rw [IpAddr.display, showV6] at mem
    dsimp only at mem
    split at mem
    · rcases List.mem_append.1 mem with front | back
      · have letters : ∀ c ∈ "::ffff:".toList, c = ':' ∨ c = Nat.digitChar 15 := by simp
        rcases letters c front with colon | f
        · exact Or.inr (Or.inl colon)
        · exact Or.inr (Or.inr ⟨15, by decide, f⟩)
      · exact v4 back
    · split at mem
      · rcases List.mem_append.1 mem with front | back
        · rcases List.mem_append.1 front with front | colons
          · exact groups front
          · have letters : ∀ c ∈ "::".toList, c = ':' := by simp
            exact Or.inr (Or.inl (letters c colons))
        · exact groups back
      · exact groups mem

/-- An address is written in dots, colons and hexadecimal digits. -/
theorem not_mem_display {c : Char} (other : c ≠ '.' ∧ c ≠ ':' ∧ ∀ d < 16, c ≠ d.digitChar) (a : IpAddr) : c ∉ a.display := by
  obtain ⟨no_dot, no_colon, no_digit⟩ := other
  intro mem
  rcases mem_display mem with dot | colon | ⟨d, lt, digit⟩
  · exact no_dot dot
  · exact no_colon colon
  · exact no_digit d lt digit

/-! ## `host:port` -/

theorem showNat_isDigit (n : Nat) : ∀ c ∈ showNat n, c.isDigit = true :=
  fun _ mem => Nat.isDigit_of_mem_toDigits (by decide) (by decide) mem

theorem not_mem_showNat {c : Char} (other : c.isDigit = false) (n : Nat) : c ∉ showNat n :=
  not_mem_of_isDigit (showNat_isDigit n) other

theorem parseUnsigned_showNat {bound n : Nat} (lt : n < bound) : parseUnsigned bound (showNat n) = some n := by
  have some_digit : showNat n ≠ [] := Nat.toDigits_ne_nil
  have value : (showNat n).foldl (fun n c => n * 10 + (c.toNat - '0'.toNat)) 0 = n := by
    have back : Nat.ofDigitChars 10 (showNat n) 0 = n := Nat.ofDigitChars_ten_toDigits
    rw [Nat.ofDigitChars_eq_foldl] at back
    simpa only [Nat.mul_comm 10] using back
  rw [parseUnsigned_digits (showNat_isDigit n) some_digit, value]
  exact if_pos lt

theorem parseU16_showNat (port : UInt16) : parseU16 (showNat port.toNat) = some port := by
  rw [parseU16, parseUnsigned_showNat port.toNat_lt]
  simp

theorem rsplitOnce_eq {α : Type} [DecidableEq α] {c : α} {a b : List α} (last : c ∉ b) : rsplitOnce c (a ++ c :: b) = some (a, b) := by
  have reversed : (a ++ c :: b).reverse = b.reverse ++ c :: a.reverse := by simp
  rw [rsplitOnce, reversed]
  rcases splitOnce_cases c (b.reverse ++ c :: a.reverse) with ⟨-, absent⟩ | ⟨l, r, eq, split, first⟩
  · simp at absent
  · obtain ⟨rfl, rfl⟩ := (append_sep_inj (by simpa using last) first).1 split
    rw [eq]
    simp

/-- `format!("{host}:{port}")`. -/
def hostColonPort (host : IpAddr) (port : UInt16) : Text := host.display ++ ':' :: showNat port.toNat

theorem rsplitOnce_hostColonPort (host : IpAddr) (port : UInt16) :
    rsplitOnce ':' (hostColonPort host port) = some (host.display, showNat port.toNat) :=
  rsplitOnce_eq (not_mem_showNat (by decide) _)

theorem hostColonPort_inj {h k : IpAddr} {p q : UInt16} (same : hostColonPort h p = hostColonPort k q) : h = k ∧ p = q := by
  have split := rsplitOnce_hostColonPort h p
  rw [same, rsplitOnce_hostColonPort k q] at split
  obtain ⟨hosts, ports⟩ := Prod.mk.inj (Option.some.inj split)
  refine ⟨(display_inj hosts).symm, ?_⟩
  have back := parseU16_showNat p
  rw [← ports, parseU16_showNat q] at back
  exact (Option.some.inj back).symm

end ProxyBroker.Lib
