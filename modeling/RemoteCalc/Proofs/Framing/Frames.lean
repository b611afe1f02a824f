import Mathlib.Data.List.Forall2
import RemoteCalc.Proofs.Framing.Feeding

/-! A stream made of frames that fit: each is one message, and nothing else comes out of it. -/

namespace RemoteCalc

/-- A body that a ring of this capacity can hold, and that its end mark ends. -/
structure Bytes.Fits (capacity : Nat) (body : Bytes) : Prop where
  unmarked : endMark ∉ body
  nonempty : body ≠ []
  short : body.length < capacity

namespace Framing

variable {role : Role} {capacity c : Nat} {body bs f : Bytes} {event : Event}
variable {spelled : List Event} {frames : List Bytes}

/-- A frame that fits a ring and means this event to it. -/
def Spells (role : Role) (capacity : Nat) (event : Event) (f : Bytes) : Prop :=
  ∃ body : Bytes, f = body ++ [endMark] ∧ body.Fits capacity ∧ role.read body = event

theorem Spells.mono (h : Spells role capacity event f) (hc : capacity ≤ c) :
    Spells role c event f := by
  obtain ⟨body, hf, hfits, hread⟩ := h
  have hshort := Nat.lt_of_lt_of_le hfits.short hc
  exact ⟨body, hf, ⟨hfits.unmarked, hfits.nonempty, hshort⟩, hread⟩

theorem events_append_mark (h : body.Fits capacity) (bs : Bytes) :
    events role capacity (body ++ endMark :: bs) = role.read body :: events role capacity bs := by
  have hevent : closedEvent? role capacity body = some (role.read body) := by
    rw [closedEvent?, if_neg h.nonempty, if_neg (Nat.not_le_of_gt h.short)]
  rw [events_segment h.unmarked, hevent, Option.toList_some, List.singleton_append]

theorem found_append_mark (h : body.Fits capacity) (bs : Bytes) :
    found capacity (body ++ endMark :: bs) = found capacity bs + 1 := by
  have hmessage : isMessage capacity body = true := by
    simp [isMessage, h.nonempty, h.short]
  rw [found, Bytes.closed_append_mark h.unmarked, List.countP_cons_of_pos hmessage, found]

theorem events_frames (hc : 0 < capacity) (h : List.Forall₂ (Spells role capacity) spelled frames) :
    events role capacity frames.flatten = spelled ∧
      found capacity frames.flatten = spelled.length := by
  induction h with
  | nil => exact ⟨events_nil hc, rfl⟩
  | cons hf _ ih =>
    obtain ⟨body, rfl, hfits, rfl⟩ := hf
    obtain ⟨hevents, hfound⟩ := ih
    rw [List.flatten_cons, List.append_assoc, List.singleton_append, events_append_mark hfits,
      found_append_mark hfits, hevents, hfound, List.length_cons]
    exact ⟨rfl, rfl⟩

theorem rest_frames (h : List.Forall₂ (Spells role capacity) spelled frames) :
    Bytes.rest frames.flatten = [] := by
  induction h with
  | nil => rfl
  | cons hf _ ih =>
    obtain ⟨body, rfl, hfits, -⟩ := hf
    rw [List.flatten_cons, List.append_assoc, List.singleton_append,
      Bytes.rest_append_mark hfits.unmarked, ih]

/-- The events in a beginning of some frames are the first of those that the frames spell. -/
theorem events_of_prefix (hc : 0 < capacity) {bs : Bytes}
    (h : List.Forall₂ (Spells role capacity) spelled frames) (hbs : bs <+: frames.flatten) :
    events role capacity bs <+: spelled := by
  obtain ⟨more, hmore⟩ := hbs
  obtain ⟨hevents, -⟩ := events_frames hc h
  rw [← hmore, events_append hc] at hevents
  exact ⟨_, hevents⟩

theorem nil_not_mem_frames (h : List.Forall₂ (Spells role capacity) spelled frames) :
    [] ∉ frames := by
  induction h with
  | nil => exact List.not_mem_nil
  | cons hf _ ih =>
    obtain ⟨body, rfl, -⟩ := hf
    rw [List.mem_cons, not_or]
    exact ⟨(List.concat_ne_nil _ _).symm, ih⟩

/-- The first of some frames are all of them when no bytes are missing. -/
theorem eq_of_prefix {first frames : List Bytes} (hframes : [] ∉ frames) (h : first <+: frames)
    (hbytes : first.flatten = frames.flatten) : first = frames := by
  obtain ⟨more, rfl⟩ := h
  rw [List.flatten_append, List.self_eq_append_right, List.flatten_eq_nil_iff] at hbytes
  cases more with
  | nil => exact (List.append_nil first).symm
  | cons f more =>
    rw [hbytes f (List.mem_cons_self ..)] at hframes
    exact absurd (List.mem_append_right first (List.mem_cons_self ..)) hframes

end Framing

namespace Ring

variable {role : Role} {c : Nat} {bs : Bytes}

section Feed

variable {σ ε : Type} {handle : Handler σ ε} {s s' : σ}

/-- A ring that holds no part of a message treats a feed as its first. -/
theorem Tracks.feed_of_rest_nil {capacity : Nat} {seen : Bytes} {r : Ring} {failure : Option ε}
    (h : r.Tracks role capacity seen) (hrest : seen.rest = [])
    (hrun : Handler.run handle s (Framing.events role capacity bs) = (s', failure)) :
    ∃ r' seen', r'.Tracks role capacity seen' ∧ (failure = none → seen'.rest = bs.rest) ∧
      r.feed handle s bs =
        ⟨r', s', match failure with
          | none => .ok (Framing.found capacity bs)
          | some e => .error e⟩ := by
  have hpos : 0 < capacity := Nat.lt_of_lt_of_le (by decide) h.roomy
  rw [← Framing.raised_of_rest_nil hpos hrest] at hrun
  cases failure with
  | none =>
    obtain ⟨r', k, ht, hk, hf⟩ := h.feedFrom_ok 0 hrun
    rw [Framing.found_append_of_rest_nil hrest, Nat.add_left_cancel_iff] at hk
    refine ⟨r', _, ht, fun _ => (Bytes.split_append hrest bs).2, ?_⟩
    rw [feed, hf, ← hk, Nat.zero_add]
  | some e =>
    obtain ⟨r', pre, -, -, ht, -, hf⟩ := h.feedFrom_error 0 hrun
    refine ⟨r', _, ht, ?_, hf⟩
    intro hnone
    cases hnone

theorem feed_empty_ok
    (h : Handler.run handle s (Framing.events role (max c minCapacity) bs) = (s', none)) :
    ∃ r, (empty role c).feed handle s bs =
      ⟨r, s', .ok (Framing.found (max c minCapacity) bs)⟩ := by
  obtain ⟨r, -, -, -, hf⟩ := (tracks_empty role c).feed_of_rest_nil Bytes.rest_nil h
  exact ⟨r, hf⟩

end Feed

/-- A ring that keeps its events keeps those of the whole stream, however it was cut. -/
theorem feedAll_collect (role : Role) (c : Nat) (chunks : List Bytes) :
    ∃ r, (empty role c).feedAll collect [] chunks =
      ⟨r, Framing.events role (max c minCapacity) chunks.flatten,
        .ok (Framing.found (max c minCapacity) chunks.flatten)⟩ := by
  rw [feedAll_eq_feed]
  exact feed_empty_ok (Handler.run_collect [] _)

/-- A ring that holds no part of a message takes frames in whole, and again holds none. -/
theorem Tracks.feed_frames {capacity : Nat} {seen : Bytes} {r : Ring} {spelled : List Event}
    {frames : List Bytes} (h : r.Tracks role capacity seen) (hrest : seen.rest = [])
    (hframes : List.Forall₂ (Framing.Spells role capacity) spelled frames) (events : List Event) :
    ∃ r' seen', r'.Tracks role capacity seen' ∧ seen'.rest = [] ∧
      r.feed collect events frames.flatten = ⟨r', events ++ spelled, .ok spelled.length⟩ := by
  have hpos : 0 < capacity := Nat.lt_of_lt_of_le (by decide) h.roomy
  obtain ⟨hevents, hfound⟩ := Framing.events_frames hpos hframes
  have hrun := Handler.run_collect events (Framing.events role capacity frames.flatten)
  obtain ⟨r', seen', ht, hrest', hfeed⟩ := h.feed_of_rest_nil hrest hrun
  rw [hevents, hfound] at hfeed
  exact ⟨r', seen', ht, (hrest' rfl).trans (Framing.rest_frames hframes), hfeed⟩

/-- Frames that fit come out one by one, in order. -/
theorem feedAll_frames {role : Role} {capacity : Nat} {spelled : List Event}
    {frames chunks : List Bytes} (hcap : minCapacity ≤ capacity)
    (h : List.Forall₂ (Framing.Spells role capacity) spelled frames)
    (hchunks : chunks.flatten = frames.flatten) :
    ∃ r, (empty role capacity).feedAll collect [] chunks = ⟨r, spelled, .ok spelled.length⟩ := by
  have ht := tracks_empty role capacity
  rw [Nat.max_eq_left hcap] at ht
  obtain ⟨r, -, -, -, hfeed⟩ := ht.feed_frames Bytes.rest_nil h []
  rw [feedAll_eq_feed, hchunks]
  exact ⟨r, hfeed⟩

end Ring

end RemoteCalc
