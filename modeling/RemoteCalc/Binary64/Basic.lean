/-!
The magnitudes of the finite doubles, counted from zero. The magnitude of ordinal `k` is a whole
number of units of 2^-1074, so that all of them are natural numbers.
-/

namespace RemoteCalc.Binary64

/-- The ordinal one past the largest finite magnitude. -/
def infinity : Nat := 2047 <<< 52

/-- The binary exponent of a magnitude's last place, above that of the smallest magnitude. -/
def exponent (k : Nat) : Nat := k >>> 52 - 1

/-- The 53-bit significand; below 2^52 only where the exponent is least. -/
def significand (k : Nat) : Nat := k - exponent k <<< 52

/-- The magnitude of ordinal `k` in units of 2^-1074. -/
def units (k : Nat) : Nat := significand k <<< exponent k

/-- How many units of 2^-1074 make one. -/
def one : Nat := 1 <<< 1074

def isNegative (x : Float) : Bool := 1 <<< 63 ≤ x.toBits.toNat

/-- The ordinal of a double's magnitude; above `infinity` for a NaN. -/
def ordinal (x : Float) : Nat := x.toBits.toNat % 1 <<< 63

def isNaN (x : Float) : Bool := infinity < ordinal x

def isInfinite (x : Float) : Bool := ordinal x = infinity

def ofOrdinal (negative : Bool) (k : Nat) : Float :=
  Float.ofBits (UInt64.ofNat (if negative then 1 <<< 63 + k else k))

def nan : Float := Float.ofBits 0x7FF8000000000000

end RemoteCalc.Binary64
