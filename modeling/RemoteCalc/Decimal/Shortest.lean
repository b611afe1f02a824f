import RemoteCalc.Decimal.Basic

/-!
The shortest decimal that reads back as a given double, and of those the nearest to it. On the
grid of decimals with `n` significant digits only the value's two neighbours can be nearest, so it
is enough to try these for `n` = 1, 2, ... 17.
-/

namespace RemoteCalc.Decimal

/-- Values are scaled by this power of ten, which gives even the smallest 18 digits before the
point. -/
def scale : Nat := 342

def scaled (k : Nat) : Nat := Binary64.units k * Nat.pow 10 scale / Binary64.one

/-- The neighbour of the magnitude on the grid of multiples of `10 ^ j` that reads back as it; if
both do, the nearer one, and at equal distance the one above. -/
def onGrid? (k v j : Nat) : Option Decimal :=
  let step := Nat.pow 10 j
  let e : Int := (j : Int) - scale
  let below : Decimal := ⟨v / step, e⟩
  let above : Decimal := if v / step = 9 then ⟨1, e + 1⟩ else ⟨v / step + 1, e⟩
  let fitsBelow := below.nearest == k
  let fitsAbove := above.nearest == k
  if fitsBelow && (!fitsAbove || 2 * (v % step) < step) then some below
  else if fitsAbove then some above
  else none

/-- The magnitude itself: a multiple of 2^-1074 is one of 10^-1074. -/
def exact (k : Nat) : Decimal := ⟨Binary64.units k * Nat.pow 5 1074, -1074⟩

/-- The shortest decimal for the magnitude of ordinal `k`, which is neither zero nor infinity. -/
def shortest (k : Nat) : Decimal :=
  let v := scaled k
  let width := (numeral v).length
  ((List.range' 1 17).findSome? fun n => onGrid? k v (width - n)).getD (exact k)

end RemoteCalc.Decimal
