import RemoteCalc.Binary64.Basic

/-! Rounding of a quotient to a whole number and to a double, a tie going to the even one. -/

namespace RemoteCalc.Binary64

/-- The whole number nearest to `n / d`. -/
def roundHalfEven (n d : Nat) : Nat :=
  let q := n / d
  let r := 2 * (n % d)
  if r < d then q else if d < r then q + 1 else q + q % 2

/-- The ordinal of the double nearest to `n / d`. The quotient in units fixes the exponent; a
significand that rounds up to 2^53 carries into the ordinal of the next exponent. -/
def nearest (n d : Nat) : Nat :=
  let n := n * one
  let e := (n / d).log2 - 52
  min (e <<< 52 + roundHalfEven n (d <<< e)) infinity

end RemoteCalc.Binary64
