import ProxyBroker.Lib.F64
import ProxyBroker.Lib.IpText

/-!
# The text exposition format

A document is a list of lines: notes, and samples of a series. `expose` writes it and `scrape` is what a collector
reads of it. The value of a sample is a decimal; `readDecimal` reads the values that `showNat` and `showFixed2` write.
-/

namespace ProxyBroker.Lib

/-! ## Decimals -/

/-- The number that digits write. -/
def digitsValue (t : Text) : Nat := t.foldl (fun n c => n * 10 + (c.toNat - '0'.toNat)) 0

theorem digitsValue_showNat (n : Nat) : digitsValue (showNat n) = n := by
  have back : Nat.ofDigitChars 10 (showNat n) 0 = n := Nat.ofDigitChars_ten_toDigits
  rw [Nat.ofDigitChars_eq_foldl] at back
  unfold digitsValue
  simpa only [Nat.mul_comm 10] using back

/-- A decimal digit. -/
def digit (n : Nat) : Char := Nat.digitChar (n % 10)

theorem digit_spec (n : Nat) : (digit n).isDigit = true ∧ (digit n).toNat - '0'.toNat = n % 10 := by
  have all : ∀ k < 10, (Nat.digitChar k).isDigit = true ∧ (Nat.digitChar k).toNat - '0'.toNat = k := by decide
  apply all
  omega

/-- `{:.2}` of a value that is not negative: rounded to hundredths, ties to even. -/
def showFixed2 (x : ℚ) : Text :=
  let n := (roundHalfEven (x * 100)).toNat
  showNat (n / 100) ++ ['.', digit (n / 10), digit n]

/-- A decimal: digits, and perhaps a point and more digits. -/
def readDecimal (t : Text) : Option ℚ :=
  let whole := t.takeWhile Char.isDigit
  if whole = [] then none
  else
    match t.dropWhile Char.isDigit with
    | [] => some (digitsValue whole)
    | c :: part =>
      if c = '.' ∧ part ≠ [] ∧ part.all Char.isDigit then some (digitsValue whole + digitsValue part / 10 ^ part.length) else none

theorem readDecimal_showNat (n : Nat) : readDecimal (showNat n) = some (n : ℚ) := by
  have nonempty : showNat n ≠ [] := Nat.toDigits_ne_nil
  have all := showNat_isDigit n
  have whole : (showNat n).takeWhile Char.isDigit = showNat n := List.takeWhile_eq_self_iff.2 all
  have rest : (showNat n).dropWhile Char.isDigit = [] := List.dropWhile_eq_nil_iff.2 all
  unfold readDecimal
  rw [whole, rest, if_neg nonempty, digitsValue_showNat]

/-- **What is written with two decimals is read as the rounded value.** -/
theorem readDecimal_showFixed2 {x : ℚ} (nonneg : 0 ≤ x) : readDecimal (showFixed2 x) = some ((roundHalfEven (x * 100) : ℚ) / 100) := by
  have positive : 0 ≤ roundHalfEven (x * 100) := le_roundHalfEven (by push_cast; linarith)
  obtain ⟨n, eq⟩ := Int.eq_ofNat_of_zero_le positive
  have nonempty : showNat (n / 100) ≠ [] := Nat.toDigits_ne_nil
  have all := showNat_isDigit (n / 100)
  have whole : (showNat (n / 100) ++ ['.', digit (n / 10), digit n]).takeWhile Char.isDigit = showNat (n / 100) := by
    rw [List.takeWhile_append_of_pos all, List.takeWhile_cons_of_neg (by decide), List.append_nil]
  have rest : (showNat (n / 100) ++ ['.', digit (n / 10), digit n]).dropWhile Char.isDigit = ['.', digit (n / 10), digit n] := by
    rw [List.dropWhile_append_of_pos all, List.dropWhile_cons_of_neg (by decide)]
  have tens := digit_spec (n / 10)
  have ones := digit_spec n
  have part : digitsValue [digit (n / 10), digit n] = n % 100 := by
    show (0 * 10 + _) * 10 + _ = _
    rw [tens.2, ones.2]
    omega
  have split : n = n / 100 * 100 + n % 100 := by omega
  unfold readDecimal showFixed2
  simp only [eq, Int.toNat_natCast, whole, rest, if_neg nonempty]
  rw [if_pos ⟨trivial, by simp, by simp [tens.1, ones.1]⟩, digitsValue_showNat, part]
  apply congrArg some
  show (_ : ℚ) + _ / 10 ^ 2 = _
  have cast : (n : ℚ) = (n / 100 : Nat) * 100 + (n % 100 : Nat) := by exact_mod_cast split
  rw [Int.cast_natCast, cast]
  ring

theorem showFixed2_clean (x : ℚ) : ∀ c ∈ showFixed2 x, c.isDigit = true ∨ c = '.' := by
  intro c mem
  simp only [showFixed2, List.mem_append, List.mem_cons, List.not_mem_nil, or_false] at mem
  rcases mem with whole | rfl | rfl | rfl
  · exact Or.inl (showNat_isDigit _ c whole)
  · exact Or.inr rfl
  · exact Or.inl (digit_spec _).1
  · exact Or.inl (digit_spec _).1

/-! ## Documents -/

/-- A line of a document. -/
inductive Line where
  | note (t : Text)
  | sample (series value : Text)

namespace Line

def text : Line → Text
  | .note t => '#' :: ' ' :: t
  | .sample s v => s ++ ' ' :: v

/-- What a collector takes from the line. -/
def reading : Line → Option (Text × Text)
  | .note _ => none
  | .sample s v => some (s, v)

/-- A line that is read back: it is one line, a sample does not look like a note, and its value is one word. -/
def Clean : Line → Prop
  | .note t => '\n' ∉ t
  | .sample s v => '\n' ∉ s ∧ s ≠ [] ∧ s.head? ≠ some '#' ∧ '\n' ∉ v ∧ ' ' ∉ v

variable {l : Line}

theorem Clean.one (clean : l.Clean) : '\n' ∉ l.text := by
  cases l with
  | note t =>
    have plain : '\n' ∉ t := clean
    simp [text, plain]
  | sample s v =>
    obtain ⟨series, -, -, value, -⟩ := clean
    simp [text, series, value]

end Line

/-- The document. -/
def expose (ls : List Line) : Text := ls.flatMap fun l => l.text ++ ['\n']

/-- The lines that a collector reads as samples. -/
def isSample (l : Text) : Bool := l ≠ [] && l.head? ≠ some '#'

/-- What a collector reads: every line that is neither empty nor a note, cut before its last word. -/
def scrape (t : Text) : Option (List (Text × Text)) := ((splitOn '\n' t).filter isSample).mapM (rsplitOnce ' ')

/-- **A document is read back.** -/
theorem scrape_expose {ls : List Line} (clean : ∀ l ∈ ls, l.Clean) : scrape (expose ls) = some (ls.filterMap Line.reading) := by
  unfold scrape
  induction ls with
  | nil => rfl
  | cons l ls ih =>
    have here := clean l List.mem_cons_self
    have rest := ih fun m mem => clean m (List.mem_cons_of_mem l mem)
    have cut : splitOn '\n' (expose (l :: ls)) = l.text :: splitOn '\n' (expose ls) := by
      unfold expose
      rw [List.flatMap_cons, List.append_assoc]
      exact splitOn_append here.one _
    rw [cut]
    cases l with
    | note t =>
      rw [List.filter_cons_of_neg (by simp [isSample, Line.text]), rest]
      rfl
    | sample s v =>
      obtain ⟨-, nonempty, other, -, word⟩ := here
      have counts : isSample (Line.text (.sample s v)) = true := by
        obtain ⟨c, s', rfl⟩ := List.exists_cons_of_ne_nil nonempty
        simpa [isSample, Line.text] using other
      rw [List.filter_cons_of_pos counts, List.mapM_cons, rest]
      show (rsplitOnce ' ' (s ++ ' ' :: v)).bind _ = _
      rw [rsplitOnce_eq word]
      rfl

end ProxyBroker.Lib
