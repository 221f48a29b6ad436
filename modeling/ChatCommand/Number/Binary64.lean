import ChatCommand.Number.Integer

namespace ChatCommand

/-- A number of the format binary64 of IEEE 754, kept as its word. -/
structure Binary64 where
  bits : UInt64
  deriving DecidableEq

namespace Binary64

inductive Magnitude where
  | nan
  | infinite
  /-- The number `significand * 2 ^ exponent`. -/
  | finite (significand : Nat) (exponent : Int)
  deriving DecidableEq

def isNegative (x : Binary64) : Bool :=
  x.bits.toNat.testBit 63

def hidden : Nat :=
  1 <<< 52

def magnitude (x : Binary64) : Magnitude :=
  let exponent : Nat := x.bits.toNat / hidden % 2048
  let fraction : Nat := x.bits.toNat % hidden
  if exponent = 2047 then if fraction = 0 then .infinite else .nan
  else if exponent = 0 then .finite fraction (-1074)
  else .finite (hidden + fraction) ((exponent : Int) - 1075)

def isFinite (x : Binary64) : Bool :=
  match x.magnitude with
  | .finite _ _ => true
  | _ => false

def ofMagnitudeBits (negative : Bool) (bits : Nat) : Binary64 :=
  ⟨.ofNat (if negative then (1 <<< 63) + bits else bits)⟩

def infinityBits : Nat :=
  2047 * hidden

def nanBits : Nat :=
  infinityBits + hidden / 2

def roundDiv (a b : Nat) : Nat :=
  let q := a / b
  let r := a % b
  if b < 2 * r ∨ (b = 2 * r ∧ q % 2 = 1) then q + 1 else q

def scale (a b : Nat) (e : Int) : Nat × Nat :=
  (a <<< e.toNat, b <<< (-e).toNat)

/-- The word of the number nearest to `a / b`. Counting from the spacing of the subnormals, a
significand that rounds up to the next power of two carries into the exponent. -/
def nearestBits (a b : Nat) : Nat :=
  if a = 0 then 0
  else
    let e : Int := (a.log2 : Int) - b.log2
    let (c, d) := scale a b (-e)
    let top := if d ≤ c then e else e - 1
    let unit := max (top - 52) (-1074)
    let (c, d) := scale a b (-unit)
    min infinityBits ((unit + 1074).toNat * hidden + roundDiv c d)

def tenTo (n : Nat) : Nat :=
  Nat.pow 10 n

/-- The word nearest to `m * 10 ^ e`. Numbers far outside the range are settled by their number of
digits. -/
def decimalBits (m : Nat) (e : Int) : Nat :=
  let size := (Nat.toDigits 10 m).length + e
  if m = 0 ∨ size < -330 then 0
  else if 330 < size then infinityBits
  else nearestBits (m * tenTo e.toNat) (tenTo (-e).toNat)

/-- Digits with at most one point among them, then perhaps `e` and an integer. The number is the
first part of the pair times ten to the second. -/
def decimal? (s : Text) : Option (Nat × Int) :=
  let whole := s.takeWhile Char.isDigit
  let (fraction, left) :=
    match s.dropWhile Char.isDigit with
    | '.' :: t => (t.takeWhile Char.isDigit, t.dropWhile Char.isDigit)
    | t => ([], t)
  if whole ++ fraction = [] then none
  else
    let m := Nat.ofDigitChars 10 (whole ++ fraction) 0
    match left with
    | [] => some (m, -fraction.length)
    | c :: t =>
      if c = 'e' ∨ c = 'E' then (Number.integer? t).map fun e ↦ (m, e - fraction.length)
      else none

def magnitudeBits? (s : Text) : Option Nat :=
  let lower := s.map Char.toLower
  if lower = "inf".toList ∨ lower = "infinity".toList then some infinityBits
  else if lower = "nan".toList then some nanBits
  else (decimal? s).map fun p ↦ decimalBits p.1 p.2

/-- A sign at most, then a decimal, an infinity or a NaN, rounded to the nearest number. -/
def ofText? : Text → Option Binary64
  | '-' :: s => (magnitudeBits? s).map (ofMagnitudeBits true)
  | '+' :: s => (magnitudeBits? s).map (ofMagnitudeBits false)
  | s => (magnitudeBits? s).map (ofMagnitudeBits false)

end Binary64

end ChatCommand
