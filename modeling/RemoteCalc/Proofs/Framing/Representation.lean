import RemoteCalc.Proofs.Framing.Layout

/-!
What the fields of a ring say of the bytes that it has taken, whatever handlers its feeds had and
wherever these failed. The message in flight stands in the cells from its start up to the cursor; no
access is out of bounds; and what is read of a message that ends is all its bytes, in order.
-/

namespace RemoteCalc

variable {σ ε : Type}

/-- The messages of a stream that an end mark closes and that a ring of this capacity holds. -/
def Framing.messages (capacity : Nat) (bs : Bytes) : List Bytes :=
  bs.closed.filter (isMessage capacity)

namespace Ring

/-- The bytes that a feed takes: those up to the first whose event the handler fails at. -/
def taken (handle : Handler σ ε) (r : Ring) (s : σ) : Bytes → Bytes
  | [] => []
  | b :: bs =>
    match r.push b with
    | (r, none) => b :: taken handle r s bs
    | (r, some event) =>
      match handle event s with
      | (_, some _) => [b]
      | (s, none) => b :: taken handle r s bs

/-- The bytes that are read as a message when this byte is pushed, if it ends one. -/
def ended? (r : Ring) (b : UInt8) : Option Bytes :=
  match r.phase with
  | .accumulating start len => if b = endMark then some (r.span start len) else none
  | .idle | .discarding => none

/-- The bytes of the messages that are read in the course of a feed. -/
def ended (handle : Handler σ ε) (r : Ring) (s : σ) : Bytes → List Bytes
  | [] => []
  | b :: bs =>
    (r.ended? b).toList ++
      match r.push b with
      | (r, none) => ended handle r s bs
      | (r, some event) =>
        match handle event s with
        | (_, some _) => []
        | (s, none) => ended handle r s bs

variable {role : Role} {capacity : Nat} {seen : Bytes} {r : Ring}

namespace Tracks

theorem discarding_iff (h : r.Tracks role capacity seen) :
    r.phase = .discarding ↔ capacity ≤ seen.rest.length := by
  have hroom := h.roomy
  rw [h.phase_eq, Framing.phase]
  by_cases he : seen.rest = []
  · simp [he]
    omega
  · by_cases hl : capacity ≤ seen.rest.length
    · simp [he, hl]
    · simp [he, hl]

theorem ended?_eq (h : r.Tracks role capacity seen) (b : UInt8) :
    r.ended? b =
      if b = endMark ∧ Framing.isMessage capacity seen.rest then some seen.rest else none := by
  rw [ended?, h.phase_eq, Framing.phase]
  by_cases he : seen.rest = []
  · simp [he, Framing.isMessage]
  · by_cases hl : capacity ≤ seen.rest.length
    · simp [he, hl, Framing.isMessage, Nat.not_lt_of_ge hl]
    · have hlt := Nat.lt_of_not_le hl
      simp [he, hl, Framing.isMessage, hlt, h.span_eq hlt]

theorem ended_concat (h : r.Tracks role capacity seen) (b : UInt8) :
    Framing.messages capacity (seen ++ [b]) =
      Framing.messages capacity seen ++ (r.ended? b).toList := by
  rw [h.ended?_eq, Framing.messages, Framing.messages]
  by_cases hb : b = endMark
  · rw [hb, Bytes.closed_concat_mark, List.filter_append]
    by_cases hm : Framing.isMessage capacity seen.rest
    · simp [hm]
    · simp [hm]
  · rw [Bytes.closed_concat hb, if_neg fun hand => hb hand.1, Option.toList_none, List.append_nil]

/-- A feed leaves the ring a view of the bytes that it took, and reads the messages that these
bytes end. -/
theorem feedFrom_taken (h : r.Tracks role capacity seen) (handle : Handler σ ε) (n : Nat) (s : σ)
    (bs : Bytes) :
    (feedFrom handle n r s bs).ring.Tracks role capacity (seen ++ r.taken handle s bs) ∧
      Framing.messages capacity (seen ++ r.taken handle s bs) =
        Framing.messages capacity seen ++ r.ended handle s bs := by
  induction bs generalizing r seen n s with
  | nil =>
    rw [taken, ended, List.append_nil, List.append_nil]
    exact ⟨h, rfl⟩
  | cons b bs ih =>
    have hended := h.ended_concat b
    obtain ⟨ht, -⟩ := h.push b
    cases hp : r.push b with
    | mk r₁ raised =>
      rw [hp] at ht
      cases raised with
      | none =>
        obtain ⟨htracks, hmessages⟩ := ih ht n s
        simp only [taken, ended, hp, feedFrom_quiet hp]
        rw [List.append_cons, hmessages, hended, List.append_assoc (Framing.messages capacity seen)]
        exact ⟨htracks, rfl⟩
      | some event =>
        cases hh : handle event s with
        | mk s₁ failure =>
          cases failure with
          | some e =>
            simp only [taken, ended, hp, hh, feedFrom_failed hp hh]
            rw [hended, List.append_nil]
            exact ⟨ht, rfl⟩
          | none =>
            obtain ⟨htracks, hmessages⟩ := ih ht (if b = endMark then n + 1 else n) s₁
            simp only [taken, ended, feedFrom, hp, hh]
            rw [List.append_cons, hmessages, hended,
              List.append_assoc (Framing.messages capacity seen)]
            exact ⟨htracks, rfl⟩

end Tracks

theorem taken_isPrefix (handle : Handler σ ε) (r : Ring) (s : σ) (bs : Bytes) :
    r.taken handle s bs <+: bs := by
  induction bs generalizing r s with
  | nil => exact List.prefix_rfl
  | cons b bs ih =>
    rw [taken]
    split
    · exact List.prefix_cons_inj b |>.2 (ih _ s)
    · split
      · exact List.prefix_append [b] bs
      · exact List.prefix_cons_inj b |>.2 (ih _ _)

theorem taken_of_ok {handle : Handler σ ε} {s : σ} {n m : Nat} {bs : Bytes}
    (h : (feedFrom handle n r s bs).outcome = .ok m) : r.taken handle s bs = bs := by
  induction bs generalizing r n s with
  | nil => rfl
  | cons b bs ih =>
    cases hp : r.push b with
    | mk r₁ raised =>
      cases raised with
      | none =>
        rw [feedFrom_quiet hp] at h
        simp only [taken, hp, ih h]
      | some event =>
        cases hh : handle event s with
        | mk s₁ failure =>
          cases failure with
          | some e =>
            rw [feedFrom_failed hp hh] at h
            cases h
          | none =>
            rw [feedFrom_taken hp hh] at h
            simp only [taken, hp, hh, ih h]

theorem sum_nonempty (capacity : Nat) (segs : List Bytes) :
    ((segs.filter (· ≠ [])).map fun m => min m.length (capacity - 1)).sum =
      (segs.map fun m => min m.length (capacity - 1)).sum := by
  induction segs with
  | nil => rfl
  | cons seg segs ih =>
    by_cases he : seg = []
    · simpa [he] using ih
    · simpa [he] using ih

namespace Layout

/-- Made empty, and then fed, with whatever handlers, and reset; and the bytes that were taken since
the last reset. -/
inductive Took (role : Role) (c : Nat) : Bytes → Layout → Prop
  | empty : Took role c [] (.empty role c)
  | feed {σ ε : Type} {seen : Bytes} {l l' : Layout} {handle : Handler σ ε} {s s' : σ} {bs : Bytes}
      {outcome : Except ε Nat} (h : Took role c seen l)
      (hfeed : l.feed? handle s bs = some (l', s', outcome)) :
      Took role c (seen ++ l.ring.taken handle s bs) l'
  | reset {seen : Bytes} {l : Layout} : Took role c seen l → Took role c [] l.reset

/-- What the fields say, at this capacity, of the bytes that were taken. -/
structure Represents (capacity : Nat) (seen : Bytes) (l : Layout) : Prop where
  capacity_eq : l.capacity = capacity
  cursor_lt : l.cursor < capacity
  length_le : l.length ≤ capacity - 1
  started_iff : l.start?.isSome ↔ seen.rest ≠ [] ∧ seen.rest.length < capacity
  discarding_iff : l.discarding ↔ capacity ≤ seen.rest.length
  unoccupied : l.start? = none → l.length = 0
  /-- The message in flight stands in the cells from its start up to the cursor, and it starts
  where the messages before it end, each of which took a cell for every byte that fitted. -/
  accumulating : ∀ start, l.start? = some start →
    1 ≤ l.length ∧ start < capacity ∧ l.discarding = false ∧
      l.cursor = (start + l.length) % capacity ∧ l.length = seen.rest.length ∧
      (∀ i < l.length, l.cells[(start + i) % capacity]? = seen.rest[i]?) ∧
      start = ((seen.closed.filter (· ≠ [])).map fun m => min m.length (capacity - 1)).sum
        % capacity

variable {l : Layout}

theorem Took.tracks {c : Nat} (h : l.Took role c seen) :
    l.Coherent ∧ l.ring.Tracks role (max c minCapacity) seen := by
  induction h with
  | empty =>
    refine ⟨coherent_empty role c, ?_⟩
    rw [ring_empty]
    exact tracks_empty role c
  | @feed σ ε seen l l' handle s s' bs outcome _ hfeed ih =>
    obtain ⟨hcoherent, ht⟩ := ih
    obtain ⟨htracks, -⟩ := ht.feedFrom_taken handle 0 s bs
    obtain ⟨l₁, hfed, hcoherent₁, hring⟩ := hcoherent.feedFrom?_eq ht handle 0 s bs
    rw [feed?, hfed] at hfeed
    cases hfeed
    exact ⟨hcoherent₁, hring ▸ htracks⟩
  | @reset _ l _ ih =>
    refine ⟨coherent_reset l, ?_⟩
    rw [ring_reset]
    exact ih.2.reset

theorem Coherent.represents (h : l.Coherent) (ht : l.ring.Tracks role capacity seen) :
    l.Represents capacity seen := by
  have hcurrent (start : Nat) (hs : l.start? = some start) :=
    ht.accumulating_iff.1 (phase_accumulating_iff.2 ⟨hs, rfl⟩)
  constructor
  case capacity_eq => exact ht.capacity_eq
  case cursor_lt => exact ht.cursor_lt
  case length_le =>
    cases hs : l.start? with
    | none =>
      rw [h.length_eq hs]
      exact Nat.zero_le _
    | some start =>
      obtain ⟨-, hlen, -, hlt⟩ := hcurrent start hs
      omega
  case started_iff =>
    rw [Option.isSome_iff_exists]
    constructor
    · rintro ⟨start, hs⟩
      exact (hcurrent start hs).2.2
    · rintro ⟨hne, hlt⟩
      have hp := ht.accumulating_iff.2 ⟨rfl, rfl, hne, hlt⟩
      exact ⟨_, (phase_accumulating_iff.1 hp).1⟩
  case discarding_iff => exact h.phase_discarding_iff.symm.trans ht.discarding_iff
  case unoccupied => exact h.length_eq
  case accumulating =>
    intro start hs
    obtain ⟨hstart, hlen, hne, hlt⟩ := hcurrent start hs
    have hpos := List.length_pos_iff.2 hne
    have hcursor := ht.cursor_eq
    rw [Nat.min_eq_left (by omega), ← hstart, ← hlen] at hcursor
    refine ⟨by omega, ?_, h.started (Option.isSome_of_eq_some hs), hcursor, hlen, ?_, ?_⟩
    · rw [hstart]
      exact ht.origin_lt
    · intro i hi
      have hcell := ht.cells_eq hlt i (hlen ▸ hi)
      rw [← hstart] at hcell
      rw [List.getElem?_eq_getElem (hlen ▸ hi)]
      exact hcell
    · rw [hstart, Framing.origin, sum_nonempty]

/-- Whatever was fed to a ring, with whatever handlers: its fields represent the bytes that it has
taken, the message in flight is read as it was taken, and the next feed goes as it does for the ring
that has these fields, is never out of bounds and reads the messages that its bytes end, in
order. -/
theorem took_represents {c : Nat} (h : l.Took role c seen) :
    l.Represents (max c minCapacity) seen ∧
    (∀ start, l.start? = some start → l.span? start l.length = some seen.rest ∧
      ∃ l', l.push? endMark = some (l', some (role.read seen.rest))) ∧
    ∀ {σ ε : Type} (handle : Handler σ ε) (s : σ) (bs : Bytes),
      let fed := l.ring.feed handle s bs
      (∃ l', l.feed? handle s bs = some (l', fed.state, fed.outcome) ∧ l'.ring = fed.ring) ∧
      l.ring.taken handle s bs <+: bs ∧
      (∀ n, fed.outcome = .ok n → l.ring.taken handle s bs = bs) ∧
      Framing.messages (max c minCapacity) (seen ++ l.ring.taken handle s bs) =
        Framing.messages (max c minCapacity) seen ++ l.ring.ended handle s bs := by
  obtain ⟨hcoherent, ht⟩ := h.tracks
  refine ⟨hcoherent.represents ht, ?read, ?feed⟩
  case read =>
    intro start hs
    have hp : l.ring.phase = .accumulating start l.length := phase_accumulating_iff.2 ⟨hs, rfl⟩
    obtain ⟨hspan, hchecked⟩ := span?_current ht hs
    obtain ⟨l', hpush, -⟩ := hcoherent.push?_eq ht endMark
    simp only [Ring.push, hp, if_true, hspan, ht.role_eq] at hpush
    exact ⟨hchecked, l', hpush⟩
  case feed =>
    intro σ ε handle s bs fed
    obtain ⟨-, hmessages⟩ := ht.feedFrom_taken handle 0 s bs
    obtain ⟨l', hfeed, -, hring⟩ := hcoherent.feedFrom?_eq ht handle 0 s bs
    exact ⟨⟨l', hfeed, hring⟩, taken_isPrefix handle l.ring s bs, fun _ => taken_of_ok, hmessages⟩

/-- Four cells: a message whose event is refused, then one that goes around the end and leaves no
cell but one. -/
theorem took_represents_wrapped :
    let refuse : Handler Unit Unit := fun _ s => (s, some ())
    let seen : Bytes := [97, 98, endMark, 99, 100, 101]
    ∃ l : Layout, l.Took .server 4 seen ∧ l.start? = some 2 ∧ l.length = 3 ∧
      l.Represents 4 seen ∧
      (∀ start, l.start? = some start → l.span? start l.length = some [99, 100, 101] ∧
        ∃ l', l.push? endMark = some (l', some (Role.server.read [99, 100, 101]))) ∧
      let fed := l.ring.feed refuse () [endMark, 97]
      (∃ l', l.feed? refuse () [endMark, 97] = some (l', fed.state, fed.outcome) ∧
        l'.ring = fed.ring) ∧
      Framing.messages 4 (seen ++ l.ring.taken refuse () [endMark, 97]) =
        Framing.messages 4 seen ++ l.ring.ended refuse () [endMark, 97] := by
  intro refuse seen
  have hrefused : (empty .server 4).feed? refuse () [97, 98, endMark, 99] =
      some (⟨.server, #[97, 98, 0, 0], 2, none, 0, false⟩, (), .error ()) := rfl
  have haccumulated : feed? refuse ⟨.server, #[97, 98, 0, 0], 2, none, 0, false⟩ ()
      [99, 100, 101] = some (⟨.server, #[101, 98, 99, 100], 1, some 2, 3, false⟩, (), .ok 0) := rfl
  have h : Took .server 4 seen ⟨.server, #[101, 98, 99, 100], 1, some 2, 3, false⟩ :=
    .feed (.feed .empty hrefused) haccumulated
  obtain ⟨hrepresents, hread, hfeed⟩ := took_represents h
  obtain ⟨hfed, -, -, hmessages⟩ := hfeed refuse () [endMark, 97]
  exact ⟨_, h, rfl, rfl, hrepresents, hread, hfed, hmessages⟩

end Layout

end Ring

end RemoteCalc
