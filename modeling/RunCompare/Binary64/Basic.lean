/-
Binary floating-point numbers of 64 bits.

A `Binary64` is its bit pattern: a sign, an exponent of eleven bits and a
fraction of fifty-two.  The sign, the class (finite, infinite, not a number),
the magnitude `significand · 2 ^ exponent`, both orders and the rounding of a
quotient of naturals to the nearest value are defined on the pattern, in
integer arithmetic.  Only sums, products, quotients, square roots and the
exponential are left to the processor's own arithmetic.
-/

namespace RunCompare

/-- A 64-bit binary floating-point number, given by its bit pattern. -/
structure Binary64 where
  bits : UInt64
deriving DecidableEq, Inhabited, Repr

namespace Binary64

/-! ### Parts of the pattern -/

/-- The weight of the sign bit, `2 ^ 63`. -/
def signWeight : Nat := 0x8000000000000000

/-- The number of fractions, `2 ^ 52`: the weight of the lowest bit of the exponent. -/
def fractionCount : Nat := 0x10000000000000

/-- The pattern without its sign bit, as a natural number below `2 ^ 63`. -/
def magnitude (x : Binary64) : Nat := x.bits.toNat % signWeight

/-- Whether the sign bit is set. -/
def isNegative (x : Binary64) : Bool := decide (signWeight ≤ x.bits.toNat)

/-- The magnitude of the two infinities; a larger one is not a number. -/
def infinityMagnitude : Nat := 2047 * fractionCount

/-- Whether the value is not a number. -/
def isNaN (x : Binary64) : Bool := decide (infinityMagnitude < x.magnitude)

/-- Whether the value is neither infinite nor not a number. -/
def isFinite (x : Binary64) : Bool := decide (x.magnitude < infinityMagnitude)

/-- Value from a sign and a magnitude below `2 ^ 63`. -/
def ofParts (negative : Bool) (magnitude : Nat) : Binary64 :=
  ⟨UInt64.ofNat (if negative then signWeight + magnitude else magnitude)⟩

/-- The same magnitude with the other sign. -/
def negate (x : Binary64) : Binary64 := ofParts (!x.isNegative) x.magnitude

/-- The same magnitude without a sign. -/
def abs (x : Binary64) : Binary64 := ofParts false x.magnitude

/-- Positive infinity. -/
def infinity : Binary64 := ofParts false infinityMagnitude

/-- Negative infinity. -/
def negativeInfinity : Binary64 := ofParts true infinityMagnitude

/-- The positive quiet value that is not a number. -/
def quietNaN : Binary64 := ofParts false (infinityMagnitude + fractionCount / 2)

/-- The significand `m` of a finite magnitude `m · 2 ^ (exponent - 1074)`. -/
def significand (x : Binary64) : Nat :=
  if x.magnitude / fractionCount = 0 then x.magnitude
  else fractionCount + x.magnitude % fractionCount

/-- The exponent of a finite magnitude, counted up from `2 ^ -1074`. -/
def exponent (x : Binary64) : Nat := x.magnitude / fractionCount - 1

/-- The number of least positive values `2 ^ -1074` in one. -/
def unitsInOne : Nat := 1 <<< 1074

/-- A finite magnitude, counted in least positive values. -/
def units (x : Binary64) : Nat := x.significand <<< x.exponent

/-! ### Orders -/

/-- Place of a number among the integers by numeric order: both zeros are `0`. -/
def numericKey (x : Binary64) : Int :=
  if x.isNegative then -(x.magnitude : Int) else x.magnitude

/-- Place of a pattern in the total order: negative zero lies below zero, and values that are
not numbers lie beyond the infinity of their sign. -/
def totalKey (x : Binary64) : Int :=
  if x.isNegative then -(x.magnitude : Int) - 1 else x.magnitude

/-- Numeric `<`; false if either side is not a number. -/
def ltb (x y : Binary64) : Bool :=
  !x.isNaN && !y.isNaN && decide (x.numericKey < y.numericKey)

/-- Numeric `≤`; false if either side is not a number. -/
def leb (x y : Binary64) : Bool :=
  !x.isNaN && !y.isNaN && decide (x.numericKey ≤ y.numericKey)

/-- Numeric equality: the zeros are equal, and a value that is not a number equals nothing. -/
def eqb (x y : Binary64) : Bool :=
  !x.isNaN && !y.isNaN && decide (x.numericKey = y.numericKey)

/-- The total order on patterns. -/
def totalLe (x y : Binary64) : Bool := decide (x.totalKey ≤ y.totalKey)

/-! ### Rounding -/

/-- The quotient of `num` by `den`, a half going to the even neighbour. -/
def divToEven (num den : Nat) : Nat :=
  let q := num / den
  let twice := 2 * (num % den)
  if den < twice || (twice == den && q % 2 == 1) then q + 1 else q

/-- The magnitude nearest to `num / den` (`den > 0`), a half going to the even neighbour;
overflow gives infinity.

`shift` is the exponent of the last place of the result, counted up from `2 ^ -1074`: the least
one for which the quotient rounds to at most 53 bits.  A significand that rounds up to the next
power of two carries into the exponent by itself, because the two parts of a pattern are
adjacent. -/
def magnitudeOfRatio (num den : Nat) : Nat :=
  let scaled := num * unitsInOne
  let shift := (scaled / den).log2 - 52
  min (shift * fractionCount + divToEven scaled (den <<< shift)) infinityMagnitude

/-- The value nearest to a quotient of naturals, with a sign. -/
def ofRatio (negative : Bool) (num den : Nat) : Binary64 :=
  ofParts negative (magnitudeOfRatio num den)

/-- The value nearest to a natural number. -/
def ofNat (n : Nat) : Binary64 := ofRatio false n 1

/-! ### Whole numbers near a value -/

/-- The greatest natural number at most the value, `0` if it is negative or not finite. -/
def floorNat (x : Binary64) : Nat :=
  if x.isNegative || !x.isFinite then 0 else x.units / unitsInOne

/-- The least natural number at least the value, `0` if it is negative or not finite. -/
def ceilNat (x : Binary64) : Nat :=
  if x.isNegative || !x.isFinite then 0 else (x.units + (unitsInOne - 1)) / unitsInOne

/-- Whether a finite value is a whole number. -/
def isIntegral (x : Binary64) : Bool := x.units % unitsInOne == 0

/-! ### Arithmetic -/

/-- The processor's number with this pattern. -/
def toFloat (x : Binary64) : Float := Float.ofBits x.bits

/-- The pattern of the processor's number. -/
def ofFloat (x : Float) : Binary64 := ⟨x.toBits⟩

/-- Rounded sum. -/
def add (x y : Binary64) : Binary64 := ofFloat (x.toFloat + y.toFloat)

/-- Rounded difference. -/
def sub (x y : Binary64) : Binary64 := ofFloat (x.toFloat - y.toFloat)

/-- Rounded product. -/
def mul (x y : Binary64) : Binary64 := ofFloat (x.toFloat * y.toFloat)

/-- Rounded quotient. -/
def div (x y : Binary64) : Binary64 := ofFloat (x.toFloat / y.toFloat)

/-- Rounded square root. -/
def sqrt (x : Binary64) : Binary64 := ofFloat x.toFloat.sqrt

/-- Exponential function. -/
def exp (x : Binary64) : Binary64 := ofFloat x.toFloat.exp

instance : Add Binary64 := ⟨add⟩
instance : Sub Binary64 := ⟨sub⟩
instance : Mul Binary64 := ⟨mul⟩
instance : Div Binary64 := ⟨div⟩
instance : Neg Binary64 := ⟨negate⟩
instance : NatCast Binary64 := ⟨ofNat⟩
instance : LT Binary64 := ⟨fun x y => x.ltb y = true⟩
instance : LE Binary64 := ⟨fun x y => x.leb y = true⟩
instance : DecidableLT Binary64 := fun x y => inferInstanceAs (Decidable (x.ltb y = true))
instance : DecidableLE Binary64 := fun x y => inferInstanceAs (Decidable (x.leb y = true))

end Binary64

end RunCompare
