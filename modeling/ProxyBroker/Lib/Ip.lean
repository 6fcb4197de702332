import ProxyBroker.Lib.Text

/-!
# `std::net::IpAddr`

Addresses, their canonical text (`Display`, RFC 5952 for IPv6) and the parser of `FromStr`, after
the standard library. The parser works on the text left to read; `none` means the alternative does
not apply and nothing was consumed.
-/

namespace ProxyBroker.Lib

/-- An address: 32 or 128 bits, most significant octet first. -/
inductive IpAddr where
  | v4 (bits : BitVec 32)
  | v6 (bits : BitVec 128)
deriving DecidableEq, Repr

/-- The octets `w` of width 8, or segments of width 16, of an address of `n` of them. -/
def fields (width n : Nat) (bits : Nat) : List Nat :=
  (List.range n).map fun k => bits / 2 ^ (width * (n - 1 - k)) % 2 ^ width

/-- The address whose big-endian fields are `fs`. -/
def joinFields (width : Nat) (fs : List Nat) : Nat := fs.foldl (fun acc f => acc * 2 ^ width + f) 0

/-- `Ipv4Addr::from(octets)` and `Ipv6Addr::from(octets)`. -/
def IpAddr.ofOctets4 (bs : Bytes) : IpAddr := .v4 (BitVec.ofNat 32 (joinFields 8 (bs.map UInt8.toNat)))
def IpAddr.ofOctets6 (bs : Bytes) : IpAddr := .v6 (BitVec.ofNat 128 (joinFields 8 (bs.map UInt8.toNat)))

/-! ## Display -/

def joinText (sep : Text) : List Text → Text
  | [] => []
  | [t] => t
  | t :: ts => t ++ sep ++ joinText sep ts

def showV4 (bits : Nat) : Text := joinText ['.'] ((fields 8 4 bits).map showNat)

/-- A run of zero segments: where it starts and how long it is. -/
structure Span where
  start : Nat
  len : Nat
deriving DecidableEq, Repr

/-- The first longest run of zeros. -/
def longestZeros (segs : List Nat) : Span :=
  (segs.zipIdx.foldl (fun (st : Span × Span) s =>
    if s.1 = 0 then
      let current : Span := if st.2.len = 0 then ⟨s.2, 1⟩ else ⟨st.2.start, st.2.len + 1⟩
      (if current.len > st.1.len then current else st.1, current)
    else (st.1, ⟨0, 0⟩)) (⟨0, 0⟩, ⟨0, 0⟩)).1

def showHexGroups (segs : List Nat) : Text := joinText [':'] (segs.map (Nat.toDigits 16))

def showV6 (bits : Nat) : Text :=
  let segs := fields 16 8 bits
  if segs.take 6 = [0, 0, 0, 0, 0, 0xFFFF] then "::ffff:".toList ++ showV4 (bits % 2 ^ 32)
  else
    let zeros := longestZeros segs
    if zeros.len > 1 then
      showHexGroups (segs.take zeros.start) ++ "::".toList ++ showHexGroups (segs.drop (zeros.start + zeros.len))
    else showHexGroups segs

/-- `IpAddr::to_string`. -/
def IpAddr.display : IpAddr → Text
  | .v4 bits => showV4 bits.toNat
  | .v6 bits => showV6 bits.toNat

/-! ## FromStr -/

/-- `char::to_digit(radix)`. -/
def toDigit (radix : Nat) (c : Char) : Option Nat :=
  let n := c.toNat
  let d := if 48 ≤ n ∧ n ≤ 57 then n - 48 else if 97 ≤ n ∧ n ≤ 122 then n - 87
    else if 65 ≤ n ∧ n ≤ 90 then n - 55 else 36
  if d < radix then some d else none

/-- `read_number`: a run of digits, at most `maxDigits` long, whose value is below `bound`. -/
def readNumber (radix maxDigits bound : Nat) (allowZeroPrefix : Bool) (t : Text) : Option (Nat × Text) :=
  let digits := t.takeWhile fun c => (toDigit radix c).isSome
  let value := digits.foldl (fun n c => n * radix + (toDigit radix c).getD 0) 0
  if digits.length = 0 ∨ maxDigits < digits.length then none
  else if ¬ allowZeroPrefix ∧ digits.head? = some '0' ∧ 1 < digits.length then none
  else if bound ≤ value then none
  else some (value, t.drop digits.length)

/-- `read_given_char`. -/
def readChar (c : Char) : Text → Option Text
  | x :: t => if x = c then some t else none
  | [] => none

/-- `read_separator`: the separator before every item but the first. -/
def readSeparator (sep : Char) (index : Nat) (t : Text) : Option Text :=
  if index = 0 then some t else readChar sep t

/-- `read_ipv4_addr`, from octet `4 - n` on. -/
def readV4Octets : Nat → Nat → Text → Option (List Nat × Text)
  | 0, _, t => some ([], t)
  | n + 1, index, t => do
    let t ← readSeparator '.' index t
    let (octet, t) ← readNumber 10 3 256 false t
    let (rest, t) ← readV4Octets n (index + 1) t
    return (octet :: rest, t)

def readV4 (t : Text) : Option (List Nat × Text) := readV4Octets 4 0 t

/-- `read_groups`: up to `left` groups of hexadecimal digits, or an embedded IPv4 address where two
groups are left. Returns the groups read, whether they ended in an IPv4 address, and the rest. -/
def readGroups : Nat → Nat → Text → List Nat × Bool × Text
  | 0, _, t => ([], false, t)
  | left + 1, index, t =>
    let embedded := if 0 < left then (readSeparator ':' index t).bind readV4 else none
    match embedded with
    | some (octets, t) =>
      ([octets.getD 0 0 * 256 + octets.getD 1 0, octets.getD 2 0 * 256 + octets.getD 3 0], true, t)
    | none =>
      match (readSeparator ':' index t).bind (readNumber 16 4 65536 true) with
      | some (g, t) =>
        let (gs, v4, t) := readGroups left (index + 1) t
        (g :: gs, v4, t)
      | none => ([], false, t)

/-- `read_ipv6_addr`. -/
def readV6 (t : Text) : Option (List Nat × Text) :=
  let (head, headV4, t) := readGroups 8 0 t
  if head.length = 8 then some (head, t)
  else if headV4 then none
  else do
    let t ← readChar ':' t
    let t ← readChar ':' t
    let (tail, _, t) := readGroups (8 - (head.length + 1)) 0 t
    return (head ++ List.replicate (8 - head.length - tail.length) 0 ++ tail, t)

/-- `IpAddr::from_str`: the whole text is one address. -/
def parseIpAddr (t : Text) : Option IpAddr :=
  match readV4 t with
  | some (octets, []) => some (.v4 (BitVec.ofNat 32 (joinFields 8 octets)))
  | some _ => none
  | none =>
    match readV6 t with
    | some (segs, []) => some (.v6 (BitVec.ofNat 128 (joinFields 16 segs)))
    | _ => none

example : parseIpAddr "1.2.3.4".toList = some (.v4 0x01020304) := by decide
example : (parseIpAddr "2001:db8::1".toList).map IpAddr.display = some "2001:db8::1".toList := by decide

end ProxyBroker.Lib
