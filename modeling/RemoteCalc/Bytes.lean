import RemoteCalc.Cut

/-! Byte strings, and the portions in which they are delivered. -/

namespace RemoteCalc

abbrev Bytes := List UInt8

namespace Bytes

/-- Consecutive pieces of at most `size` bytes, all but the last full; `room` is what the first
may still hold. -/
def piecesFrom (size : Nat) : Nat → Bytes → Bytes × List Bytes
  | _, [] => ([], [])
  | 0, b :: bs =>
    let (p, ps) := piecesFrom size (size - 1) bs
    ([], (b :: p) :: ps)
  | room + 1, b :: bs =>
    let (p, ps) := piecesFrom size room bs
    (b :: p, ps)

/-- A byte string as delivered to a buffer of `size` bytes, in one or more portions. -/
def pieces (size : Nat) (bs : Bytes) : List Bytes :=
  let (p, ps) := piecesFrom size size bs
  p :: ps

theorem flatten_piecesFrom (size room : Nat) (bs : Bytes) :
    (piecesFrom size room bs).1 ++ (piecesFrom size room bs).2.flatten = bs := by
  induction bs generalizing room with
  | nil => cases room <;> simp [piecesFrom]
  | cons b bs ih => cases room <;> simp [piecesFrom, ih]

theorem flatten_pieces (size : Nat) (bs : Bytes) : (pieces size bs).flatten = bs :=
  flatten_piecesFrom size size bs

end Bytes

end RemoteCalc
