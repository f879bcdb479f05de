import SingleTable.Binary64

set_option autoImplicit false

/-!
# Whole and fractional parts

Sums and whole parts of finite numbers, computed exactly in units of the least positive number and
rounded once.
-/

namespace SingleTable

namespace Binary64

/-- The number of units in one. -/
def unitsPerOne : Nat := 1 <<< 1074

/-- The number nearest to a count of units. -/
def ofUnits (u : Int) : Binary64 := ofRatio (u < 0) u.natAbs unitsPerOne

/-- The rounded sum of two finite numbers. -/
def add (x y : Binary64) : Binary64 :=
  match x.units?, y.units? with
  | some u, some v => ofUnits (u + v)
  | _, _ => .nan

/-- The greatest integer that is not greater than a finite number. -/
def floor (x : Binary64) : Int := (x.units?.getD 0).fdiv unitsPerOne

/-- What is left of a finite number after its whole part. -/
def fraction (x : Binary64) : Binary64 := ofUnits ((x.units?.getD 0).fmod unitsPerOne)

end Binary64

end SingleTable
