import PipeTable.Decimal.Rounding
import PipeTable.Text.Blank

/-! # Shortest decimals

A decimal is read as the nearest binary number with 53 significant bits and an exponent of at
least -1074, and such a number is written with the fewest digits that read back as it. Of the
decimals with so many digits the nearest to the number is taken.
-/

namespace PipeTable.Decimal

/-- The number `significand * 2 ^ exponent`. -/
structure Binary where
  significand : Nat
  exponent : Int
deriving DecidableEq

/-- A quotient of whole numbers. -/
structure Ratio where
  num : Nat
  den : Nat

def Ratio.scale (r : Ratio) (base : Nat) (e : Int) : Ratio :=
  if e < 0 then { r with den := r.den * Nat.pow base e.natAbs }
  else { r with num := r.num * Nat.pow base e.natAbs }

def Ratio.floor (r : Ratio) : Nat := r.num / r.den

def leastExponent : Int := -1074

def greatestExponent : Int := 971

/-- The binary number nearest to a positive quotient, unless it is too large. -/
def nearest (r : Ratio) : Option Binary :=
  let guess : Int := Int.ofNat r.num.log2 - Int.ofNat r.den.log2 - 53
  let e := if Nat.pow 2 53 ≤ (r.scale 2 (-guess)).floor then guess + 1 else guess
  let e := max e leastExponent
  let scaled := r.scale 2 (-e)
  let m := roundDiv scaled.num scaled.den
  let b : Binary := if m = Nat.pow 2 53 then ⟨Nat.pow 2 52, e + 1⟩ else ⟨m, e⟩
  if greatestExponent < b.exponent then none else some b

/-- Four times the significand and the ends of the interval that rounds to the number, in
quarters of its unit. Below a power of two the interval is half as long. -/
def quarters (b : Binary) : Nat × Nat × Nat :=
  let m := 4 * b.significand
  let below := if b.significand = Nat.pow 2 52 ∧ leastExponent < b.exponent then 1 else 2
  (m - below, m, m + 2)

/-- `d * 10 ^ e` reads back as the number. -/
def readsBack (b : Binary) (d : Nat) (e : Int) : Bool :=
  let (low, _, high) := quarters b
  let r := (Ratio.scale ⟨d, 1⟩ 10 e).scale 2 (2 - b.exponent)
  if b.significand % 2 = 0 then low * r.den ≤ r.num && r.num ≤ high * r.den
  else low * r.den < r.num && r.num < high * r.den

/-- The number of places before the point; none or less for a number below one. -/
def places (r : Ratio) : Nat → Int
  | 0 => 0
  | n + 1 =>
    if r.den ≤ r.num then (Nat.toDigits 10 r.floor).length
    else places { r with num := r.num * 10 } n - 1

/-- Of the two multiples of a power of ten around the number the nearer one that reads back, the
upper one if both are equally near. -/
def onGrid (b : Binary) (value : Ratio) (e : Int) : Option Nat :=
  let scaled := value.scale 10 (-e)
  let d := scaled.floor
  let upIsNearer := scaled.den ≤ 2 * (scaled.num % scaled.den)
  match readsBack b d e, readsBack b (d + 1) e with
  | true, true => some (if upIsNearer then d + 1 else d)
  | true, false => some d
  | false, true => some (d + 1)
  | false, false => none

/-- Try one digit more until a decimal reads back; 17 digits always suffice. A multiple of ten is
the next power of ten, which has one digit. -/
def shortestFrom (b : Binary) (value : Ratio) (top : Int) : Nat → Nat → Nat × Int
  | 0, digits => (0, top - digits)
  | tries + 1, digits =>
    match onGrid b value (top - digits) with
    | some d => if d % 10 = 0 then (1, top) else (d, top - digits)
    | none => shortestFrom b value top tries (digits + 1)

/-- The digits and the power of ten of the shortest decimal for a positive number. -/
def shortest (b : Binary) : Nat × Int :=
  let value := Ratio.scale ⟨b.significand, 1⟩ 2 b.exponent
  shortestFrom b value (places value 400) 17 1

/-- `d * 10 ^ e` without an exponent, with one place after the point at least. -/
def positional (d : Nat) (e : Int) : Text :=
  let digits := Nat.toDigits 10 d
  if e < 0 then
    let digits := List.replicate (e.natAbs + 1 - digits.length) '0' ++ digits
    let whole := digits.length - e.natAbs
    digits.take whole ++ '.' :: digits.drop whole
  else digits ++ List.replicate e.natAbs '0' ++ ['.', '0']

/-- The text of the binary number nearest to `d * 10 ^ e`, unless it is too large. Beyond 400
places there is nothing but zero and the too large. -/
def nearestText (d : Nat) (e : Int) : Option Text :=
  let top := Int.ofNat (Nat.toDigits 10 d).length + e
  if d = 0 ∨ top < -400 then some (positional 0 0)
  else if 400 < top then none
  else
    (nearest (Ratio.scale ⟨d, 1⟩ 10 e)).map fun b =>
      if b.significand = 0 then positional 0 0
      else
        let (d, e) := shortest b
        positional d e

end PipeTable.Decimal
