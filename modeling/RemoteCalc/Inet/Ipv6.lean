import RemoteCalc.Inet.Ipv4

/-!
IPv6 addresses: eight groups of 16 bits, of which a run of zeros may be left out once. The last two
groups can be written as a strict IPv4 address. A zone, a number, may follow.
-/

namespace RemoteCalc

structure Ipv6 where
  groups : List Nat
  zone : Nat
deriving DecidableEq, Repr

namespace Ipv6

def size : Nat := 8

def readGroup? (t : Text) : Option Nat := if t.length ≤ 4 then Numeral.read? 16 t else none

/-- Groups with colons between them, or none at all. -/
def readGroups? (t : Text) : Option (List Nat) :=
  if t = [] then some [] else (cut ':' t).mapM readGroup?

/-- Groups that end the address. -/
def readLast? (t : Text) : Option (List Nat) :=
  let pieces := cut ':' t
  match pieces.getLast?.bind Ipv4.readStrict? with
  | none => readGroups? t
  | some a => (pieces.dropLast.mapM readGroup?).map
      (· ++ [a.bits.toNat >>> 16, a.bits.toNat % 1 <<< 16])

/-- All the groups; a run that is left out has at least one. -/
def readAll? (t : Text) : Option (List Nat) :=
  match splitAt? [':', ':'] t with
  | none => match readLast? t with
    | some gs => if gs.length = size then some gs else none
    | none => none
  | some (left, right) => match readGroups? left, readLast? right with
    | some ls, some rs =>
      if ls.length + rs.length < size then
        some (ls ++ List.replicate (size - ls.length - rs.length) 0 ++ rs)
      else none
    | _, _ => none

def read? (t : Text) : Option Ipv6 :=
  match splitAt? ['%'] t with
  | none => (readAll? t).map fun groups => ⟨groups, 0⟩
  | some (t, zone) => match readAll? t, Numeral.read? 10 zone with
    | some groups, some zone => if zone < 1 <<< 32 then some ⟨groups, zone⟩ else none
    | _, _ => none

def mapped? (a : Ipv6) : Option Ipv4 :=
  match a.groups with
  | [0, 0, 0, 0, 0, 0xFFFF, high, low] => some ⟨UInt32.ofNat (high <<< 16 + low)⟩
  | _ => none

def isUnspecified (a : Ipv6) : Bool := a.groups.all (· = 0)

def isMulticast (a : Ipv6) : Bool := a.groups.headD 0 >>> 8 = 0xFF

/-- Whether an address has a meaning only on one link. -/
def isLinkLocal (a : Ipv6) : Bool :=
  a.groups.headD 0 >>> 6 = 0xFE80 >>> 6 ||
    a.isMulticast && (a.groups.headD 0 % 16 = 1 || a.groups.headD 0 % 16 = 2)

/-- Whether the link that gives the address its meaning is missing. -/
def lacksZone (a : Ipv6) : Bool := a.isLinkLocal && a.zone = 0

def groupsText (gs : List Nat) : String :=
  ":".intercalate (gs.map fun g => String.ofList (Nat.toDigits 16 g))

def leadingZeros (gs : List Nat) : Nat := (gs.takeWhile (· = 0)).length

/-- Where the longest run of zeros begins, the first of several. -/
def longestRun (gs : List Nat) : Nat :=
  (List.range gs.length).foldl
    (fun best i =>
      if leadingZeros (gs.drop best) < leadingZeros (gs.drop i) then i else best) 0

/-- The longest run of at least two zeros is left out. -/
def text (a : Ipv6) : String :=
  match a.mapped? with
  | some v4 => "::ffff:" ++ v4.text
  | none =>
    let i := longestRun a.groups
    let n := leadingZeros (a.groups.drop i)
    if n < 2 then groupsText a.groups
    else groupsText (a.groups.take i) ++ "::" ++ groupsText (a.groups.drop (i + n))

end Ipv6

end RemoteCalc
