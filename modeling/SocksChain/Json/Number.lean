/-!
JSON numbers as they stand in a text, and which of them are too large to be kept in double
precision. A number that is kept goes through three roundings: its leading digits, its power of ten,
and their product each take the nearest value of 53 binary digits.
-/

namespace SocksChain.Json

/-- A number as written: its digits without the point, and the power of ten they stand for. -/
structure Number where
  negative : Bool := false
  digits : Nat
  exponent : Int := 0
  /-- Whether there is neither a point nor an exponent. -/
  plain : Bool := true
deriving DecidableEq

namespace Number

/-- What is not negative and has neither a point nor an exponent. -/
def natural? (x : Number) : Option Nat :=
  if x.plain && !x.negative then some x.digits else none

/-- The nearest number with at most 53 binary digits before its zeros; a tie goes to the even one. -/
def rounded (n : Nat) : Nat :=
  let unit := 1 <<< (n.log2 - 52)
  let up := unit < 2 * (n % unit) || 2 * (n % unit) = unit && n / unit % 2 = 1
  (if up then n / unit + 1 else n / unit) * unit

/-- The leading digits that fit 64 bits, and how many digits follow them. -/
def leading (n : Nat) : Nat × Nat :=
  if n < UInt64.size then (n, 0)
  else
    let (m, following) := leading (n / 10)
    (m, following + 1)
termination_by n
decreasing_by
  unfold UInt64.size at *
  omega

/-- Whether the value stays in the range of double precision, which ends half a step below
`2 ^ 1024`. The largest power of ten within the range is that of 308. -/
def isFinite (x : Number) : Bool :=
  let (m, following) := leading x.digits
  let e := x.exponent + (following : Int)
  m = 0 || e < 0 ||
    e ≤ 308 && rounded m * rounded (Nat.pow 10 e.toNat) < 1 <<< 1024 - 1 <<< 970

end Number

end SocksChain.Json
