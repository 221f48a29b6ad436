import ChatCommand.Number.Binary64

namespace ChatCommand.Binary64

/-- The numbers `low / unit` to `high / unit` round to `value / unit`. -/
structure Interval where
  low : Nat
  value : Nat
  high : Nat
  unit : Nat
  closed : Bool

/-- The numbers that round to `m * 2 ^ e`: half the distance to each neighbour, of which the lower
one is nearer at a power of two. The ends round to the number if its significand is even. -/
def interval (m : Nat) (e : Int) : Interval :=
  let factor := 1 <<< (e - 2).toNat
  let lower := if m = hidden ∧ -1074 < e then 1 else 2
  { low := (4 * m - lower) * factor
    value := 4 * m * factor
    high := (4 * m + 2) * factor
    unit := 1 <<< (2 - e).toNat
    closed := m % 2 = 0 }

def Interval.holds (i : Interval) (c d : Nat) : Bool :=
  if i.closed then i.low * d ≤ c * i.unit && c * i.unit ≤ i.high * d
  else i.low * d < c * i.unit && c * i.unit < i.high * d

/-- Of the multiples of `10 ^ g` on both sides of the value, the nearest one in the interval, the
upper one if they are equally near. -/
def Interval.onGrid (i : Interval) (g : Int) : Option Nat :=
  let p := tenTo g.toNat
  let d := tenTo (-g).toNat
  let below := i.value * d / (i.unit * p)
  let holdsBelow := i.holds (below * p) d
  let holdsAbove := i.holds ((below + 1) * p) d
  if holdsBelow && holdsAbove then
    let rest := i.value * d % (i.unit * p)
    some (if i.unit * p ≤ 2 * rest then below + 1 else below)
  else if holdsBelow then some below
  else if holdsAbove then some (below + 1)
  else none

/-- The decimal with the fewest digits that rounds to the number: a multiple of the greatest power
of ten that has one in the interval. The spacing of all numbers exceeds `10 ^ -324`, so the search
finds one. -/
def shortest (m : Nat) (e : Int) : Nat × Int :=
  if m = 0 then (0, 0)
  else
    let i := interval m e
    let size := (Nat.toDigits 10 (i.value / i.unit)).length
    ((List.range (size + 325)).findSome? fun n : Nat ↦
      (i.onGrid (size - n)).map (·, (size : Int) - n)).getD (0, 0)

def sign (x : Binary64) : Text :=
  if x.isNegative then ['-'] else []

def positional (m : Nat) (e : Int) : Text :=
  let digits := Number.naturalText m
  let places := (-e).toNat
  if places = 0 then digits ++ (if m = 0 then [] else List.replicate e.toNat '0')
  else
    let padded := List.replicate (places + 1 - digits.length) '0' ++ digits
    let whole := padded.length - places
    padded.take whole ++ '.' :: padded.drop whole

def text (x : Binary64) : Text :=
  match x.magnitude with
  | .nan => "NaN".toList
  | .infinite => x.sign ++ "inf".toList
  | .finite m e => x.sign ++ positional (shortest m e).1 (shortest m e).2

def scientific (m : Nat) (e : Int) : Text :=
  let digits := Number.naturalText m
  let exponent := e + digits.length - 1
  let fraction := digits.tail
  digits.take 1 ++ (if fraction.isEmpty then [] else '.' :: fraction) ++
    'e' :: Number.integerText exponent

/-- The shortest decimal in a form that no integer has: with a point, or with an exponent if it is
below `1e-4` or from `1e16` up. -/
def literal (x : Binary64) : Text :=
  match x.magnitude with
  | .nan => "NaN".toList
  | .infinite => x.sign ++ "inf".toList
  | .finite m e =>
    let (digits, power) := shortest m e
    let exponent := power + (Nat.toDigits 10 digits).length - 1
    if m ≠ 0 ∧ (exponent < -4 ∨ 16 ≤ exponent) then x.sign ++ scientific digits power
    else
      x.sign ++ positional digits power ++ (if 0 ≤ power then ".0".toList else [])

end ChatCommand.Binary64
