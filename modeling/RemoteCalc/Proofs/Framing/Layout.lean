import RemoteCalc.Proofs.Framing.Feeding

/-!
A ring field by field, with a check at each access to its cells. Wherever it stands in a stream, no
access is out of bounds, and it takes every byte as the ring does that has these fields.
-/

namespace RemoteCalc

variable {σ ε : Type}

namespace Ring

/-- A ring field by field: what its phase says is spread over the last three. -/
structure Layout where
  role : Role
  cells : Array UInt8
  cursor : Nat
  /-- The cell in which the message in flight began, if there is one. -/
  start? : Option Nat
  length : Nat
  /-- Whether the rest of a message that was too long is being skipped. -/
  discarding : Bool

namespace Layout

def capacity (l : Layout) : Nat := l.cells.size

def empty (role : Role) (capacity : Nat) : Layout :=
  ⟨role, Array.replicate (max capacity minCapacity) 0, 0, none, 0, false⟩

def reset (l : Layout) : Layout :=
  { l with cursor := 0, start? := none, length := 0, discarding := false }

/-- The cells from `lo` up to `hi`, unless that is out of bounds. -/
def slice? (l : Layout) (lo hi : Nat) : Option Bytes :=
  if lo ≤ hi ∧ hi ≤ l.capacity then some (l.cells.extract lo hi).toList else none

/-- The bytes of `len` cells from `start` on, unless an access is out of bounds. -/
def span? (l : Layout) (start len : Nat) : Option Bytes :=
  if start + len ≤ l.capacity then l.slice? start (start + len)
  else do
    let upper ← l.slice? start l.capacity
    let lower ← l.slice? 0 (start + len - l.capacity)
    return upper ++ lower

/-- Puts a byte at the cursor, unless that is out of bounds. -/
def store? (l : Layout) (byte : UInt8) : Option Layout :=
  if l.cursor < l.capacity then
    some { l with
      cells := l.cells.setIfInBounds l.cursor byte
      cursor := (l.cursor + 1) % l.capacity
      length := l.length + 1 }
  else none

/-- Takes one byte, unless an access is out of bounds. -/
def push? (l : Layout) (byte : UInt8) : Option (Layout × Option Event) :=
  if l.discarding then
    some (if byte = endMark then { l with discarding := false } else l, none)
  else if byte = endMark then
    match l.start? with
    | none => some (l, none)
    | some start =>
      (l.span? start l.length).map fun body =>
        ({ l with start? := none, length := 0 }, some (l.role.read body))
  else
    match l.start? with
    | none => ({ l with start? := some l.cursor }.store? byte).map (·, none)
    | some _ =>
      if l.capacity ≤ l.length + 1 then
        some ({ l with start? := none, length := 0, discarding := true },
          some (.rejection (.unattributed .overflow)))
      else (l.store? byte).map (·, none)

/-- Feeds bytes after `found` messages have already ended, unless an access is out of bounds. -/
def feedFrom? (handle : Handler σ ε) (found : Nat) (l : Layout) (s : σ) :
    Bytes → Option (Layout × σ × Except ε Nat)
  | [] => some (l, s, .ok found)
  | b :: bs =>
    match l.push? b with
    | none => none
    | some (l, none) => feedFrom? handle found l s bs
    | some (l, some event) =>
      match handle event s with
      | (s, some e) => some (l, s, .error e)
      | (s, none) => feedFrom? handle (if b = endMark then found + 1 else found) l s bs

def feed? (handle : Handler σ ε) (l : Layout) (s : σ) (bs : Bytes) :
    Option (Layout × σ × Except ε Nat) :=
  feedFrom? handle 0 l s bs

def phase (l : Layout) : Phase :=
  match l.start? with
  | some start => .accumulating start l.length
  | none => if l.discarding then .discarding else .idle

/-- The ring that has these fields. -/
def ring (l : Layout) : Ring := ⟨l.role, l.cells, l.cursor, l.phase⟩

/-- The fields do not contradict one another, and so the phase says all of them. -/
structure Coherent (l : Layout) : Prop where
  length_eq : l.start? = none → l.length = 0
  started : l.start?.isSome → l.discarding = false

variable {l : Layout}

theorem ring_empty (role : Role) (c : Nat) : (empty role c).ring = .empty role c := rfl

theorem ring_reset (l : Layout) : l.reset.ring = l.ring.reset := rfl

theorem coherent_empty (role : Role) (c : Nat) : (empty role c).Coherent where
  length_eq := fun _ => rfl
  started := fun _ => rfl

theorem coherent_reset (l : Layout) : l.reset.Coherent where
  length_eq := fun _ => rfl
  started := fun _ => rfl

theorem phase_accumulating_iff {start len : Nat} :
    l.phase = .accumulating start len ↔ l.start? = some start ∧ l.length = len := by
  rw [phase]
  cases hs : l.start? with
  | none => cases l.discarding <;> simp
  | some start' => simp

theorem Coherent.phase_discarding_iff (h : l.Coherent) :
    l.phase = .discarding ↔ l.discarding := by
  rw [phase]
  cases hs : l.start? with
  | none => cases l.discarding <;> simp
  | some start =>
    rw [h.started (Option.isSome_of_eq_some hs)]
    simp

theorem span?_eq {start len : Nat} (hs : start < l.capacity) (hl : len ≤ l.capacity) :
    l.span? start len = some (l.ring.span start len) := by
  have hcapacity : l.ring.capacity = l.capacity := rfl
  rw [span?, span, hcapacity]
  split
  · rename_i hfits
    rw [slice?, if_pos ⟨Nat.le_add_right _ _, hfits⟩]
    rfl
  · rename_i hwraps
    rw [slice?, if_pos ⟨Nat.le_of_lt hs, Nat.le_refl _⟩, slice?,
      if_pos ⟨Nat.zero_le _, by omega⟩]
    rfl

end Layout

variable {role : Role} {capacity : Nat} {seen : Bytes} {r : Ring}

namespace Tracks

theorem cursor_lt (h : r.Tracks role capacity seen) : r.cursor < capacity := by
  have hroom := h.roomy
  rw [h.cursor_eq]
  exact Nat.mod_lt _ (by omega)

theorem accumulating_iff {start len : Nat} (h : r.Tracks role capacity seen) :
    r.phase = .accumulating start len ↔ start = Framing.origin capacity seen ∧
      len = seen.rest.length ∧ seen.rest ≠ [] ∧ seen.rest.length < capacity := by
  rw [h.phase_eq, Framing.phase]
  constructor
  · intro hp
    split at hp
    · cases hp
    · rename_i hne
      split at hp
      · cases hp
      · rename_i hlt
        cases hp
        exact ⟨rfl, rfl, hne, Nat.lt_of_not_le hlt⟩
  · rintro ⟨rfl, rfl, hne, hlt⟩
    rw [if_neg hne, if_neg (Nat.not_le_of_lt hlt)]

end Tracks

namespace Layout

variable {l : Layout}

theorem store?_eq {start : Nat} (hcursor : l.cursor < l.capacity) (hs : l.start? = some start)
    (hd : l.discarding = false) (b : UInt8) :
    ∃ l', l.store? b = some l' ∧ l'.Coherent ∧ l'.ring = l.ring.store b start (l.length + 1) := by
  refine ⟨_, if_pos hcursor, ⟨?_, fun _ => hd⟩, ?_⟩
  · intro hnone
    exact absurd (hs.symm.trans hnone) (Option.some_ne_none start)
  · simp only [ring, phase, hs]
    rfl

theorem span?_current {start : Nat} (ht : l.ring.Tracks role capacity seen)
    (hs : l.start? = some start) :
    l.ring.span start l.length = seen.rest ∧ l.span? start l.length = some seen.rest := by
  obtain ⟨hstart, hlen, -, hlt⟩ := ht.accumulating_iff.1 (phase_accumulating_iff.2 ⟨hs, rfl⟩)
  have hcapacity : l.capacity = capacity := ht.capacity_eq
  have hspan : l.ring.span start l.length = seen.rest := by
    rw [hstart, hlen]
    exact ht.span_eq hlt
  refine ⟨hspan, ?_⟩
  rw [span?_eq (by rw [hstart, hcapacity]; exact ht.origin_lt) (by omega), hspan]

/-- A byte is taken field by field as it is by the ring, and no access is out of bounds. -/
theorem Coherent.push?_eq (h : l.Coherent) (ht : l.ring.Tracks role capacity seen) (b : UInt8) :
    ∃ l', l.push? b = some (l', (l.ring.push b).2) ∧ l'.Coherent ∧
      l'.ring = (l.ring.push b).1 := by
  have hcursor : l.cursor < l.ring.capacity := ht.capacity_eq ▸ ht.cursor_lt
  -- Where a message is in flight none is skipped, so the order of the tests does not matter.
  cases hs : l.start? with
  | none =>
    have hlength := h.length_eq hs
    by_cases hd : l.discarding
    · have hp : l.ring.phase = .discarding := by simp only [ring, phase, hs, hd, if_true]
      by_cases hb : b = endMark
      · simp only [push?, Ring.push, hp, hd, hb, if_true]
        refine ⟨_, rfl, ⟨fun _ => hlength, fun _ => rfl⟩, ?_⟩
        simp only [ring, phase, hs, Bool.false_eq_true, if_false]
      · simp only [push?, Ring.push, hp, hd, hb, if_true, if_false]
        exact ⟨l, rfl, h, rfl⟩
    · have hp : l.ring.phase = .idle := by simp only [ring, phase, hs, if_neg hd]
      by_cases hb : b = endMark
      · simp only [push?, Ring.push, hp, if_neg hd, hs, hb, if_true]
        exact ⟨l, rfl, h, rfl⟩
      · -- The length counts up from what the message before left, which is nothing.
        have hgoing := Bool.eq_false_iff.2 hd
        obtain ⟨l', hstore, hcoherent, hring⟩ :=
          @store?_eq { l with start? := some l.cursor } l.cursor hcursor rfl hgoing b
        simp only [hlength] at hring
        simp only [push?, Ring.push, hp, if_neg hd, hs, hb, if_false, hstore]
        exact ⟨l', rfl, hcoherent, hring⟩
  | some start =>
    have hgoing : l.discarding = false := h.started (Option.isSome_of_eq_some hs)
    have hd : ¬ l.discarding := Bool.eq_false_iff.1 hgoing
    have hp : l.ring.phase = .accumulating start l.length := phase_accumulating_iff.2 ⟨hs, rfl⟩
    by_cases hb : b = endMark
    · obtain ⟨hspan, hchecked⟩ := span?_current ht hs
      simp only [push?, Ring.push, hp, if_neg hd, hs, hb, if_true, hspan, hchecked]
      refine ⟨_, rfl, ⟨fun _ => rfl, fun _ => hgoing⟩, ?_⟩
      simp only [ring, phase, if_neg hd]
    · by_cases hfull : l.capacity ≤ l.length + 1
      · have hfull' : l.ring.capacity ≤ l.length + 1 := hfull
        simp only [push?, Ring.push, hp, if_neg hd, hs, hb, hfull, hfull', if_true, if_false]
        exact ⟨_, rfl, ⟨fun _ => rfl, fun hsome => absurd hsome Bool.false_ne_true⟩, rfl⟩
      · have hroom : ¬ l.ring.capacity ≤ l.length + 1 := hfull
        obtain ⟨l', hstore, hcoherent, hring⟩ := store?_eq hcursor hs hgoing b
        simp only [push?, Ring.push, hp, if_neg hd, hs, hb, hfull, hroom, if_false, hstore]
        exact ⟨l', rfl, hcoherent, hring⟩

/-- A feed, whatever its handler, goes field by field as it does for the ring, and no access is out
of bounds. -/
theorem Coherent.feedFrom?_eq (h : l.Coherent) (ht : l.ring.Tracks role capacity seen)
    (handle : Handler σ ε) (n : Nat) (s : σ) (bs : Bytes) :
    let fed := feedFrom handle n l.ring s bs
    ∃ l', feedFrom? handle n l s bs = some (l', fed.state, fed.outcome) ∧ l'.Coherent ∧
      l'.ring = fed.ring := by
  intro fed
  induction bs generalizing l seen n s with
  | nil => exact ⟨l, rfl, h, rfl⟩
  | cons b bs ih =>
    obtain ⟨l₁, hpush, hcoherent, hring⟩ := h.push?_eq ht b
    obtain ⟨htracks, -⟩ := ht.push b
    cases hp : l.ring.push b with
    | mk r₁ raised =>
      rw [hp] at hpush hring htracks
      subst hring
      cases raised with
      | none =>
        simp only [fed, feedFrom?, hpush, feedFrom_quiet hp]
        exact ih hcoherent htracks n s
      | some event =>
        cases hh : handle event s with
        | mk s₁ failure =>
          cases failure with
          | some e =>
            simp only [fed, feedFrom?, hpush, hh, feedFrom_failed hp hh]
            exact ⟨l₁, rfl, hcoherent, rfl⟩
          | none =>
            simp only [fed, feedFrom?, feedFrom, hpush, hp, hh]
            exact ih hcoherent htracks _ s₁

end Layout

end Ring

end RemoteCalc
