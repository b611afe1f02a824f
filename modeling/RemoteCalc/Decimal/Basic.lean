import RemoteCalc.Binary64.Rounding
import RemoteCalc.Text.Blank

/-! Decimal numbers, their nearest doubles and their text without exponent. -/

namespace RemoteCalc

/-- The number `digits * 10 ^ exponent`. -/
structure Decimal where
  digits : Nat
  exponent : Int
deriving DecidableEq, Repr

namespace Decimal

def numeral (n : Nat) : Text := Nat.toDigits 10 n

/-- The ordinal of the nearest double. Beyond 10^400 that is infinity and below 10^-400 zero; the
power of ten is formed only in between. -/
def nearest (d : Decimal) : Nat :=
  if d.digits = 0 then 0
  else if 400 < d.exponent then Binary64.infinity
  else if d.exponent + (numeral d.digits).length < -400 then 0
  else match d.exponent with
    | .ofNat e => Binary64.nearest (d.digits * Nat.pow 10 e) 1
    | .negSucc e => Binary64.nearest d.digits (Nat.pow 10 (e + 1))

/-- Digits with a point before the last `places` of them, padded so that one stands before it. -/
def pointed (places : Nat) (ds : Text) : Text :=
  let ds := List.replicate (places + 1 - ds.length) '0' ++ ds
  ds.take (ds.length - places) ++ '.' :: ds.drop (ds.length - places)

/-- All digits down to the last nonzero place, or down to the point. -/
def positional (d : Decimal) : Text :=
  match d.exponent with
  | .ofNat e => numeral d.digits ++ List.replicate e '0'
  | .negSucc e => pointed (e + 1) (numeral d.digits)

end Decimal

end RemoteCalc
