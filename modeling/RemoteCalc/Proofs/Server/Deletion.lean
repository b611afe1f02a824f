import RemoteCalc.Proofs.Server.Agreement
import RemoteCalc.Proofs.Server.Sharing

/-!
Segments that do not ask to write memory leave no trace. Wherever they stand in a stream, and
however many they are, without them the other segments are answered by the same bytes, and the same
memory is left.
-/

namespace RemoteCalc

variable {divide : Divider}

/-- Whether a ring of this capacity holds a segment in whole, and it asks to write memory. -/
def Bytes.writesMemory (capacity : Nat) (seg : Bytes) : Bool :=
  seg.length < max capacity Ring.minCapacity &&
    match Request.ofBody seg with
    | .ok r => r.method.writesMemory
    | .error _ => false

namespace Conversation

variable {c : Conversation (List Bytes)} {capacity : Nat} {seg : Bytes}

/-- The event of a segment, if it has one, to a server whose ring has this capacity. -/
def segmentEvent? (capacity : Nat) (seg : Bytes) : Option Event :=
  Framing.closedEvent? .server (max capacity Ring.minCapacity) seg

/-- The frames that answer segments which are fed in turn, each with its end mark: for each segment
what the outlet took meanwhile. -/
def replies (divide : Divider) (c : Conversation (List Bytes)) : List Bytes → List (List Bytes)
  | [] => []
  | seg :: segs =>
    let next := (c.feed divide accept (seg ++ [endMark])).1
    next.session.outlet.drop c.session.outlet.length :: replies divide next segs

/-- Between two messages, its ring having at least this many cells. -/
def Rested (capacity : Nat) (c : Conversation (List Bytes)) : Prop :=
  ∃ seen, c.ring.Tracks .server (max capacity Ring.minCapacity) seen ∧ seen.rest = []

theorem rested_start (capacity : Nat) (calculator : Calculator) :
    (start capacity [] calculator).Rested capacity :=
  ⟨[], Ring.tracks_empty .server capacity, Bytes.rest_nil⟩

/-- A segment is answered by the frame of its event, if it has one, and nothing of it is kept. -/
theorem Rested.feed_segment (h : c.Rested capacity) (hseg : endMark ∉ seg) :
    let event := (segmentEvent? capacity seg).toList
    let next := (c.feed divide accept (seg ++ [endMark])).1
    next.Rested capacity ∧
      next.session.outlet = c.session.outlet ++ Session.frames divide c.calculator event ∧
      next.calculator = Session.after divide c.calculator event := by
  intro event next
  obtain ⟨seen, ht, hrest⟩ := h
  have hevents : events capacity (seg ++ [endMark]) = event := by
    rw [events, Framing.events_segment hseg,
      Framing.events_nil (Ring.max_minCapacity_pos capacity), List.append_nil]
    rfl
  have hinbound := inbound_events capacity (seg ++ [endMark])
  have hrun := @Session.run_handler _ divide accept _ hinbound c.session c.calculator
  simp only [sendAll_accept, Session.length_frames hinbound, List.take_length] at hrun
  obtain ⟨ring, seen', ht', hrest', hfeed⟩ := ht.feed_of_rest_nil hrest hrun
  rw [hevents] at hfeed
  obtain ⟨handled, rejected, hnext⟩ : ∃ handled rejected, next = ⟨ring,
      ⟨c.session.outlet ++ Session.frames divide c.calculator event, handled, rejected⟩,
      Session.after divide c.calculator event⟩ := by
    simp only [next, feed, hfeed]
    exact ⟨_, _, rfl⟩
  rw [hnext]
  exact ⟨⟨seen', ht', (hrest' rfl).trans (Bytes.rest_concat_mark seg)⟩, rfl, rfl⟩

theorem events_marked_cons (hseg : endMark ∉ seg) (segs : List Bytes) :
    events capacity (Bytes.marked (seg :: segs)) =
      (segmentEvent? capacity seg).toList ++ events capacity (Bytes.marked segs) := by
  rw [events, Bytes.marked, List.map_cons, List.flatten_cons, List.append_assoc,
    List.singleton_append, Framing.events_segment hseg]
  rfl

theorem Rested.flatten_replies (h : c.Rested capacity) {segs : List Bytes}
    (hsegs : ∀ seg ∈ segs, endMark ∉ seg) : (c.replies divide segs).flatten =
      Session.frames divide c.calculator (events capacity (Bytes.marked segs)) := by
  induction segs generalizing c with
  | nil =>
    have hnone : events capacity (Bytes.marked []) = [] :=
      Framing.events_nil (Ring.max_minCapacity_pos capacity)
    rw [hnone]
    rfl
  | cons seg segs ih =>
    rw [List.forall_mem_cons] at hsegs
    obtain ⟨hnext, houtlet, hcalculator⟩ := @Rested.feed_segment divide c capacity seg h hsegs.1
    rw [replies, List.flatten_cons, ih hnext hsegs.2, events_marked_cons hsegs.1,
      Session.frames_append, hcalculator, houtlet, List.drop_left]

theorem after_of_not_writesMemory (h : seg.writesMemory capacity = false)
    (calculator : Calculator) :
    Session.after divide calculator (segmentEvent? capacity seg).toList = calculator := by
  rw [segmentEvent?, Framing.closedEvent?]
  split
  · rfl
  · split
    · rfl
    · rename_i hshort
      rw [Bytes.writesMemory, decide_eq_true (Nat.lt_of_not_le hshort), Bool.true_and] at h
      rw [Role.read, Option.toList_some]
      cases hr : Request.ofBody seg with
      | error e => rfl
      | ok r =>
        rw [hr] at h
        have hkeeps : (Task.compute r).writesMemory = false := h
        exact Task.leaves_of_not_writesMemory hkeeps

section Thinned

variable {d : Conversation (List Bytes)} {segs : List (Bytes × Bool)}

/-- The segments that are kept, out of those of which the mark says so. -/
def kept (segs : List (Bytes × Bool)) : List Bytes := (segs.filter Prod.snd).map Prod.fst

/-- Two conversations with the same memory answer the segments alike that both are given, if none
that only the first is given writes memory. -/
theorem Rested.replies_kept (hc : c.Rested capacity) (hd : d.Rested capacity)
    (hsame : c.calculator = d.calculator) (hsegs : ∀ seg ∈ segs, endMark ∉ seg.1)
    (hdeleted : ∀ seg ∈ segs, seg.2 = false → seg.1.writesMemory capacity = false) :
    d.replies divide (kept segs) =
      (((c.replies divide (segs.map Prod.fst)).zip segs).filter (·.2.2)).map Prod.fst := by
  induction segs generalizing c d with
  | nil => rfl
  | cons seg segs ih =>
    obtain ⟨body, mark⟩ := seg
    rw [List.forall_mem_cons] at hsegs hdeleted
    obtain ⟨hnext, houtlet, hcalculator⟩ := @Rested.feed_segment divide c capacity body hc hsegs.1
    cases mark with
    | false =>
      rw [after_of_not_writesMemory (hdeleted.1 rfl), hsame] at hcalculator
      exact ih hnext hd hcalculator hsegs.2 hdeleted.2
    | true =>
      obtain ⟨hnext', houtlet', hcalculator'⟩ :=
        @Rested.feed_segment divide d capacity body hd hsegs.1
      have hrest := ih hnext hnext' (by rw [hcalculator, hcalculator', hsame]) hsegs.2 hdeleted.2
      rw [kept] at hrest
      simp only [kept, List.filter_cons_of_pos, List.map_cons, replies, List.zip_cons_cons, hrest,
        houtlet, houtlet', List.drop_left, hsame]

theorem after_kept (hsegs : ∀ seg ∈ segs, endMark ∉ seg.1)
    (hdeleted : ∀ seg ∈ segs, seg.2 = false → seg.1.writesMemory capacity = false)
    (calculator : Calculator) :
    Session.after divide calculator (events capacity (Bytes.marked (kept segs))) =
      Session.after divide calculator (events capacity (Bytes.marked (segs.map Prod.fst))) := by
  induction segs generalizing calculator with
  | nil => rfl
  | cons seg segs ih =>
    obtain ⟨body, mark⟩ := seg
    rw [List.forall_mem_cons] at hsegs hdeleted
    rw [List.map_cons, events_marked_cons hsegs.1, Session.after_append]
    cases mark with
    | false =>
      rw [after_of_not_writesMemory (hdeleted.1 rfl)]
      exact ih hsegs.2 hdeleted.2 calculator
    | true =>
      rw [kept, List.filter_cons_of_pos rfl, List.map_cons, events_marked_cons hsegs.1,
        Session.after_append]
      exact ih hsegs.2 hdeleted.2 _

/-- Whatever segments are deleted from a stream of which none asks to write memory, the others are
answered by the same frames, and the same memory is left. -/
theorem deletion_untraced (divide : Divider) (capacity : Nat) (calculator : Calculator)
    (hsegs : ∀ seg ∈ segs, endMark ∉ seg.1)
    (hdeleted : ∀ seg ∈ segs, seg.2 = false → seg.1.writesMemory capacity = false)
    {chunks pieces : List Bytes} (hchunks : chunks.flatten = Bytes.marked (segs.map Prod.fst))
    (hpieces : pieces.flatten = Bytes.marked (kept segs)) :
    let c := start capacity [] calculator
    ∃ full reduced n k,
      c.feedAll divide accept chunks = (full, .ok n) ∧
      c.feedAll divide accept pieces = (reduced, .ok k) ∧
      full.session.outlet = (c.replies divide (segs.map Prod.fst)).flatten ∧
      reduced.session.outlet = (c.replies divide (kept segs)).flatten ∧
      c.replies divide (kept segs) =
        (((c.replies divide (segs.map Prod.fst)).zip segs).filter (·.2.2)).map Prod.fst ∧
      reduced.calculator = full.calculator := by
  intro c
  have hrested : c.Rested capacity := rested_start capacity calculator
  have hbodies : ∀ seg ∈ segs.map Prod.fst, endMark ∉ seg := by
    intro seg hseg
    obtain ⟨marked, hmarked, rfl⟩ := List.mem_map.1 hseg
    exact hsegs marked hmarked
  have hkept : ∀ seg ∈ kept segs, endMark ∉ seg := by
    intro seg hseg
    obtain ⟨marked, hmarked, rfl⟩ := List.mem_map.1 hseg
    exact hsegs marked (List.mem_of_mem_filter hmarked)
  obtain ⟨ring, hfull⟩ := feed_accept divide capacity calculator chunks.flatten
  obtain ⟨ring', hreduced⟩ := feed_accept divide capacity calculator pieces.flatten
  rw [← feedAll_eq_feed] at hfull hreduced
  rw [hchunks] at hfull
  rw [hpieces] at hreduced
  refine ⟨_, _, _, _, hfull, hreduced, ?_, ?_, ?_, after_kept hsegs hdeleted calculator⟩
  · exact (hrested.flatten_replies hbodies).symm
  · exact (hrested.flatten_replies hkept).symm
  · exact hrested.replies_kept hrested rfl hsegs hdeleted

/-- A fold and a look at memory are kept, and what stood around them goes: nothing, a division by
zero, a message without fields, a fold that the ring cannot hold, and a sum. -/
theorem deletion_untraced_mixed :
    let segs : List (Bytes × Bool) :=
      [([], false), (Utf8.ofString "1#DIV#1#0", false), (Utf8.ofString "2#ADDM#2#3", true),
        (Utf8.ofString "x", false), (Utf8.ofString "3#ADDM#4#0000005", false),
        (Utf8.ofString "4#ADD#1#1", false), (Utf8.ofString "5#GETMEM#0#0", true)]
    let c := start 16 [] .fresh
    (∀ seg ∈ segs, endMark ∉ seg.1) ∧
    (∀ seg ∈ segs, seg.2 = false → seg.1.writesMemory 16 = false) ∧
    ∃ full reduced n k,
      c.feedAll Calculator.div accept [Bytes.marked (segs.map Prod.fst)] = (full, .ok n) ∧
      c.feedAll Calculator.div accept ((kept segs).map (· ++ [endMark])) = (reduced, .ok k) ∧
      full.session.outlet = (c.replies Calculator.div (segs.map Prod.fst)).flatten ∧
      reduced.session.outlet = (c.replies Calculator.div (kept segs)).flatten ∧
      c.replies Calculator.div (kept segs) =
        (((c.replies Calculator.div (segs.map Prod.fst)).zip segs).filter (·.2.2)).map Prod.fst ∧
      reduced.calculator = full.calculator :=
  ⟨by decide +kernel, by decide +kernel,
    deletion_untraced Calculator.div 16 .fresh (by decide +kernel) (by decide +kernel)
      List.flatten_singleton rfl⟩

example : (start 16 [] .fresh).replies Calculator.div
    [Utf8.ofString "2#ADDM#2#3", [], Utf8.ofString "5#GETMEM#0#0"] =
      [[Utf8.ofString "2#0#5$"], [], [Utf8.ofString "5#0#5$"]] := by
  decide +kernel

end Thinned

end Conversation

end RemoteCalc
