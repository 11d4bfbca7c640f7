/-
The standard normal distribution function on 64-bit floating-point numbers.
-/
import RunCompare.Binary64.Basic
import RunCompare.Stats.Normal

namespace RunCompare.Binary64

/-- The processor's exponential function, and constants rounded to the nearest value. -/
def normalFunctions : Stats.NormalFunctions Binary64 where
  abs := abs
  exp := exp
  sqrtTwo := (ofNat 2).sqrt
  ofRatio := ofRatio

/-- Distribution function of the standard normal distribution. -/
def normalCdf (x : Binary64) : Binary64 := normalFunctions.cdf x

end RunCompare.Binary64
