/-!
# The logarithm of one more than a number

`logOnePlus x` is the logarithm of `1 + x`, also where `1 + x` cannot be told from `1`. The sum is
split into a power of two and a factor `1 + f` between `√½` and `√2`. With `s = f / (2 + f)` the
factor is `(1 + s) / (1 - s)`, and its logarithm is a series in `s` with odd powers only. What the
sum `1 + x` loses when it is rounded is added at the end.
-/

namespace DesignMatrix

namespace LogOnePlus

/-- The logarithm of two, without its last digits. -/
def logTwo : Float := 6.93147180369123816490e-01

/-- What `logTwo` lacks. -/
def logTwoRest : Float := 1.90821492927058770002e-10

/-- A sum of one and a number, in parts. -/
structure Parts where
  /-- The exponent of the power of two. -/
  power : Float
  /-- The factor less one. -/
  fraction : Float
  /-- The fraction is so small that its cube ends the series. -/
  isSmall : Bool
  /-- What is lost in rounding, as a part of the sum. -/
  loss : Float

/-- A sum as the power of two and the factor. -/
def split (sum loss : Float) : Parts :=
  let bits := sum.toBits
  let exponent : Int := (bits >>> 52).toNat - 1023
  let digits := bits &&& 0xFFFFFFFFFFFFF
  let leading := (digits >>> 32).toNat
  if leading < 0x6A09E then
    ⟨.ofInt exponent, .ofBits (digits ||| 0x3FF0000000000000) - 1, leading = 0, loss⟩
  else
    ⟨.ofInt (exponent + 1), .ofBits (digits ||| 0x3FE0000000000000) - 1,
      (0x100000 - leading) / 4 = 0, loss⟩

/-- The sum of one and a number above `-1`. -/
def partsOf (x : Float) : Parts :=
  if .ofBits 0xBFD2BEC400000000 < x && x < .ofBits 0x3FDA827A00000000 then ⟨0, x, false, 0⟩
  else if x < 9007199254740992 then
    let sum := 1 + x
    split sum ((if 2 ≤ sum then 1 - (sum - x) else x - (sum - 1)) / sum)
  else split x 0

/-- The series behind its first two terms, in the square of `s`. -/
def tail (square : Float) : Float :=
  let square2 := square * square
  let square4 := square2 * square2
  let square6 := square4 * square2
  square * 6.666666666666735130e-01
    + square2 * (3.999999999940941908e-01 + square * 2.857142874366239149e-01)
    + square4 * (2.222219843214978396e-01 + square * 1.818357216161805012e-01)
    + square6 * (1.531383769920937332e-01 + square * 1.479819860510658591e-01)

/-- The logarithm of the sum. -/
def Parts.log (parts : Parts) : Float :=
  let f := parts.fraction
  let half := 0.5 * f * f
  let rest := parts.power * logTwoRest + parts.loss
  let whole := parts.power * logTwo
  if parts.isSmall then
    if f == 0 then whole + (parts.loss + parts.power * logTwoRest)
    else
      let correction := half * (1 - 0.66666666666666666 * f)
      if parts.power == 0 then f - correction else whole - ((correction - rest) - f)
  else
    let s := f / (2 + f)
    let correction := s * (half + tail (s * s))
    if parts.power == 0 then f - (half - correction)
    else whole - ((half - (correction + rest)) - f)

end LogOnePlus

/-- The logarithm of `1 + x`. -/
def logOnePlus (x : Float) : Float :=
  if x.abs < .ofBits 0x3C90000000000000 then x
  else if x.abs < .ofBits 0x3E20000000000000 then x - x * x * 0.5
  else if x == -1 then -1 / 0
  else if x < -1 then 0 / 0
  else if x.isInf || x.isNaN then x
  else (LogOnePlus.partsOf x).log

end DesignMatrix
