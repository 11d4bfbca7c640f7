/-
The program's numbers: 64-bit floating point as the carrier of the statistics.
-/
import RunCompare.Scalar
import RunCompare.Binary64.Basic
import RunCompare.Binary64.Normal

namespace RunCompare.Binary64

instance : BEq Binary64 := ⟨eqb⟩

instance : Scalar Binary64 where
  decLt := inferInstance
  decLe := inferInstance
  totalLe := totalLe
  isFinite := isFinite
  abs := abs
  sqrt := sqrt
  normalCdf := normalCdf
  floorNat := floorNat
  ceilNat := ceilNat

end RunCompare.Binary64
