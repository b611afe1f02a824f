import Mathlib.Algebra.Ring.Nat
import Mathlib.Data.List.Induction
import RemoteCalc.Framing.Ring

/-!
The segments of a stream of bytes, and what a ring makes of them. Events, count and phase are said
here of the whole stream and of nothing but its segments; adding one byte changes them by
`Framing.raised?`.
-/

namespace RemoteCalc

namespace Bytes

/-- The segments that an end mark closes, in order. -/
def closed (bs : Bytes) : List Bytes := (cut endMark bs).dropLast

/-- What follows the last end mark. -/
def rest (bs : Bytes) : Bytes := (cut endMark bs).getLastD []

@[simp] theorem closed_nil : closed [] = [] := rfl

@[simp] theorem rest_nil : rest [] = [] := rfl

@[simp] theorem closed_concat_mark (bs : Bytes) :
    closed (bs ++ [endMark]) = bs.closed ++ [bs.rest] := by
  have h := List.dropLast_concat_getLast (cut_ne_nil endMark bs)
  simp only [closed, rest, cut_concat_self, List.dropLast_concat, List.getLastD_eq_getLast?,
    List.getLast?_eq_some_getLast (cut_ne_nil endMark bs), Option.getD_some, h]

@[simp] theorem rest_concat_mark (bs : Bytes) : rest (bs ++ [endMark]) = [] := by
  simp [rest, cut_concat_self]

theorem closed_concat {b : UInt8} (h : b ≠ endMark) (bs : Bytes) :
    closed (bs ++ [b]) = bs.closed := by
  obtain ⟨ps, p, he, he'⟩ := cut_concat h bs
  simp [closed, he, he']

theorem rest_concat {b : UInt8} (h : b ≠ endMark) (bs : Bytes) :
    rest (bs ++ [b]) = bs.rest ++ [b] := by
  obtain ⟨ps, p, he, he'⟩ := cut_concat h bs
  simp [rest, he, he']

theorem closed_append_mark {p : Bytes} (h : endMark ∉ p) (bs : Bytes) :
    closed (p ++ endMark :: bs) = p :: bs.closed := by
  simp only [closed, cut_append_cons h]
  exact List.dropLast_cons_of_ne_nil (cut_ne_nil endMark bs)

theorem rest_append_mark {p : Bytes} (h : endMark ∉ p) (bs : Bytes) :
    rest (p ++ endMark :: bs) = bs.rest := by
  simp only [rest, cut_append_cons h]
  cases hc : cut endMark bs with
  | nil => exact absurd hc (cut_ne_nil endMark bs)
  | cons q qs => simp

/-- Behind an end mark a stream falls apart as if nothing had gone before. -/
theorem split_append {seen : Bytes} (h : seen.rest = []) (bs : Bytes) :
    closed (seen ++ bs) = seen.closed ++ bs.closed ∧ rest (seen ++ bs) = bs.rest := by
  induction bs using List.reverseRecOn with
  | nil =>
    rw [List.append_nil, closed_nil, rest_nil, List.append_nil]
    exact ⟨rfl, h⟩
  | append_singleton bs b ih =>
    obtain ⟨hclosed, hrest⟩ := ih
    rw [← List.append_assoc]
    by_cases hb : b = endMark
    · rw [hb, closed_concat_mark, closed_concat_mark, rest_concat_mark, rest_concat_mark, hclosed,
        hrest, List.append_assoc]
      exact ⟨rfl, rfl⟩
    · rw [closed_concat hb, closed_concat hb, rest_concat hb, rest_concat hb, hrest]
      exact ⟨hclosed, rfl⟩

theorem count_endMark (bs : Bytes) : bs.count endMark = bs.closed.length := by
  induction bs using List.reverseRecOn with
  | nil => rfl
  | append_singleton bs b ih =>
    rw [List.count_append, ih]
    by_cases hb : b = endMark
    · rw [hb, closed_concat_mark, List.count_singleton_self, List.length_append,
        List.length_singleton]
    · rw [closed_concat hb, List.count_eq_zero.2 (by simpa using Ne.symm hb), Nat.add_zero]

theorem rest_of_ended {bs : Bytes} (h : bs.getLast? = some endMark) : bs.rest = [] := by
  obtain ⟨body, rfl⟩ := List.getLast?_eq_some_iff.1 h
  exact rest_concat_mark body

theorem eq_nil_of_split {bs : Bytes} (hclosed : bs.closed = []) (hrest : bs.rest = []) :
    bs = [] := by
  induction bs using List.reverseRecOn with
  | nil => rfl
  | append_singleton bs b _ =>
    by_cases hb : b = endMark
    · rw [hb, closed_concat_mark] at hclosed
      exact absurd hclosed (List.concat_ne_nil _ _)
    · rw [rest_concat hb] at hrest
      exact absurd hrest (List.concat_ne_nil _ _)

theorem closed_eq_singleton_nil {bs : Bytes} (h : bs.getLast? = some endMark) :
    bs.closed = [[]] ↔ bs = [endMark] := by
  obtain ⟨body, rfl⟩ := List.getLast?_eq_some_iff.1 h
  constructor
  · intro hclosed
    rw [closed_concat_mark] at hclosed
    rcases List.append_eq_singleton_iff.1 hclosed with ⟨hnil, hrest⟩ | ⟨-, hrest⟩
    · rw [eq_nil_of_split hnil (List.singleton_inj.1 hrest), List.nil_append]
    · cases hrest
  · intro heq
    rw [heq]
    rfl

end Bytes

namespace Framing

variable (role : Role) (capacity : Nat)

def overflow : Event := .rejection (.unattributed .overflow)

/-- The event of a segment that an end mark closes. An empty one has none, and one that fills a
ring of this capacity overflows it. -/
def closedEvent? (seg : Bytes) : Option Event :=
  if seg = [] then none else if capacity ≤ seg.length then some overflow else some (role.read seg)

/-- The event of a segment that nothing closes: it can only overflow. -/
def openEvent? (seg : Bytes) : Option Event :=
  if capacity ≤ seg.length then some overflow else none

/-- The events of a stream, in order. -/
def events (bs : Bytes) : List Event :=
  bs.closed.filterMap (closedEvent? role capacity) ++ (openEvent? capacity bs.rest).toList

/-- Whether a closed segment is a message: it has a body, and the body fits. -/
def isMessage (seg : Bytes) : Bool := seg ≠ [] ∧ seg.length < capacity

/-- The number of messages that a stream completes. -/
def found (bs : Bytes) : Nat := bs.closed.countP (isMessage capacity)

/-- The cell where the segment after the last end mark begins: every earlier one took a cell for
each of its bytes but those that overflowed. -/
def origin (bs : Bytes) : Nat :=
  (bs.closed.map fun seg => min seg.length (capacity - 1)).sum % capacity

/-- Where a stream leaves the ring. -/
def phase (bs : Bytes) : Phase :=
  if bs.rest = [] then .idle
  else if capacity ≤ bs.rest.length then .discarding
  else .accumulating (origin capacity bs) bs.rest.length

/-- The number of bytes that are held of a message in flight. -/
def buffered (bs : Bytes) : Nat := if capacity ≤ bs.rest.length then 0 else bs.rest.length

/-- The event that one more byte raises. -/
def raised? (seen : Bytes) (b : UInt8) : Option Event :=
  if b = endMark then
    if isMessage capacity seen.rest then some (role.read seen.rest) else none
  else if seen.rest.length + 1 = capacity then some overflow else none

/-- The events that more bytes raise. -/
def raised (seen : Bytes) : Bytes → List Event
  | [] => []
  | b :: bs => (raised? role capacity seen b).toList ++ raised (seen ++ [b]) bs

variable {role capacity}

theorem events_nil (h : 0 < capacity) : events role capacity [] = [] := by
  rw [events, Bytes.closed_nil, Bytes.rest_nil, openEvent?, List.length_nil,
    if_neg (Nat.not_le_of_gt h)]
  rfl

theorem events_segment {seg : Bytes} (h : endMark ∉ seg) (bs : Bytes) :
    events role capacity (seg ++ endMark :: bs) =
      (closedEvent? role capacity seg).toList ++ events role capacity bs := by
  rw [events, Bytes.closed_append_mark h, Bytes.rest_append_mark h, events]
  cases he : closedEvent? role capacity seg with
  | none => rw [List.filterMap_cons_none he, Option.toList_none, List.nil_append]
  | some event =>
    rw [List.filterMap_cons_some he, Option.toList_some, List.cons_append, List.singleton_append]

theorem events_concat (h : 0 < capacity) (bs : Bytes) (b : UInt8) :
    events role capacity (bs ++ [b]) =
      events role capacity bs ++ (raised? role capacity bs b).toList := by
  by_cases hb : b = endMark
  · subst hb
    have ho : openEvent? capacity [] = none := by simp [openEvent?, Nat.not_le_of_gt h]
    simp only [events, Bytes.closed_concat_mark, Bytes.rest_concat_mark, List.filterMap_append, ho,
      Option.toList_none, List.append_nil, List.append_assoc, List.append_cancel_left_eq, raised?]
    by_cases he : bs.rest = []
    · simp [he, closedEvent?, ho, isMessage]
    · by_cases hl : capacity ≤ bs.rest.length
      · simp [he, hl, closedEvent?, openEvent?, isMessage, Nat.not_lt_of_ge hl]
      · simp [he, hl, closedEvent?, openEvent?, isMessage, Nat.lt_of_not_ge hl]
  · simp only [events, Bytes.closed_concat hb, Bytes.rest_concat hb, List.append_assoc,
      List.append_cancel_left_eq, raised?, if_neg hb, openEvent?, List.length_append,
      List.length_singleton]
    rcases Nat.lt_trichotomy (bs.rest.length + 1) capacity with hl | hl | hl
    · simp [Nat.not_le_of_gt hl, Nat.ne_of_lt hl, Nat.not_le_of_gt (Nat.lt_of_succ_lt hl)]
    · simp [← hl]
    · simp [Nat.le_of_lt hl, Nat.ne_of_gt hl, Nat.le_of_lt_succ hl]

theorem events_append (h : 0 < capacity) (seen bs : Bytes) :
    events role capacity (seen ++ bs) =
      events role capacity seen ++ raised role capacity seen bs := by
  induction bs generalizing seen with
  | nil => simp [raised]
  | cons b bs ih =>
    have he : seen ++ b :: bs = seen ++ [b] ++ bs := by simp
    rw [he, ih, events_concat h, raised, List.append_assoc]

theorem found_concat (role : Role) (bs : Bytes) (b : UInt8) :
    found capacity (bs ++ [b]) = found capacity bs +
      if b = endMark ∧ (raised? role capacity bs b).isSome then 1 else 0 := by
  by_cases hb : b = endMark
  · subst hb
    by_cases hm : isMessage capacity bs.rest
    · simp [found, raised?, hm]
    · simp [found, raised?, hm]
  · simp [found, Bytes.closed_concat hb, hb]

theorem origin_concat_mark (bs : Bytes) :
    origin capacity (bs ++ [endMark]) =
      (origin capacity bs + min bs.rest.length (capacity - 1)) % capacity := by
  simp [origin]

theorem origin_concat {b : UInt8} (h : b ≠ endMark) (bs : Bytes) :
    origin capacity (bs ++ [b]) = origin capacity bs := by
  simp [origin, Bytes.closed_concat h]

section Idle

variable {seen : Bytes}

theorem events_append_of_rest_nil (hc : 0 < capacity) (h : seen.rest = []) (bs : Bytes) :
    events role capacity (seen ++ bs) = events role capacity seen ++ events role capacity bs := by
  obtain ⟨hclosed, hrest⟩ := Bytes.split_append h bs
  have hopen : openEvent? capacity [] = none := if_neg (Nat.not_le_of_gt hc)
  simp only [events, hclosed, hrest, h, hopen, List.filterMap_append, Option.toList_none,
    List.append_nil, List.append_assoc]

theorem raised_of_rest_nil (hc : 0 < capacity) (h : seen.rest = []) (bs : Bytes) :
    raised role capacity seen bs = events role capacity bs := by
  have happend := @events_append_of_rest_nil role capacity seen hc h bs
  rw [events_append hc] at happend
  exact List.append_cancel_left happend

theorem found_append_of_rest_nil (h : seen.rest = []) (bs : Bytes) :
    found capacity (seen ++ bs) = found capacity seen + found capacity bs := by
  rw [found, (Bytes.split_append h bs).1, List.countP_append, found, found]

end Idle

/-- A stream raises one event for each segment with bytes in it that is closed, and one for an open
segment that fills the ring. -/
theorem length_events (role : Role) (capacity : Nat) (bs : Bytes) :
    (events role capacity bs).length =
      bs.closed.countP (· ≠ []) + if capacity ≤ bs.rest.length then 1 else 0 := by
  have hclosed : (bs.closed.filterMap (closedEvent? role capacity)).length =
      bs.closed.countP (· ≠ []) := by
    rw [List.length_filterMap_eq_countP]
    apply List.countP_congr
    intro seg _
    by_cases he : seg = []
    · simp [closedEvent?, he]
    · by_cases hl : capacity ≤ seg.length
      · simp [closedEvent?, he, hl]
      · simp [closedEvent?, he, hl]
  rw [events, List.length_append, hclosed, openEvent?]
  split
  · rfl
  · rfl

theorem found_le_length (role : Role) (capacity : Nat) (bs : Bytes) :
    found capacity bs ≤ (events role capacity bs).length := by
  have hmessage : found capacity bs ≤ bs.closed.countP (· ≠ []) := by
    apply List.countP_mono_left
    intro seg _ hseg
    simp only [isMessage, decide_eq_true_eq] at hseg
    exact decide_eq_true hseg.1
  rw [length_events]
  exact Nat.le_trans hmessage (Nat.le_add_right _ _)

/-- Where no message is found, the ring can only have overflowed. -/
theorem eq_overflow_of_found {bs : Bytes} (h : found capacity bs = 0) {event : Event}
    (hevent : event ∈ events role capacity bs) : event = overflow := by
  rcases List.mem_append.1 hevent with hclosed | hopen
  · obtain ⟨seg, hseg, hraised⟩ := List.mem_filterMap.1 hclosed
    have hmessage := List.countP_eq_zero.1 h seg hseg
    simp only [isMessage, decide_eq_true_eq, not_and, Nat.not_lt] at hmessage
    unfold closedEvent? at hraised
    split at hraised
    · cases hraised
    · rename_i hne
      rw [if_pos (hmessage hne)] at hraised
      exact (Option.some.inj hraised).symm
  · unfold openEvent? at hopen
    split at hopen
    · rw [Option.toList_some, List.mem_singleton] at hopen
      exact hopen
    · cases hopen

end Framing

end RemoteCalc
