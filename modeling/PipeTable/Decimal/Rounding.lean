/-! # Rounding quotients

A quotient is rounded to the nearest whole number, and a quotient halfway between two of them to
the even one.
-/

namespace PipeTable.Decimal

/-- The whole number nearest to `num / den`. -/
def roundDiv (num den : Nat) : Nat :=
  let q := num / den
  let twice := 2 * (num % den)
  if den < twice || (twice == den && q % 2 == 1) then q + 1 else q

/-- A quotient with one place after the point. -/
def onePlace (num den : Nat) : String :=
  let tenths := roundDiv (10 * num) den
  s!"{tenths / 10}.{tenths % 10}"

end PipeTable.Decimal
