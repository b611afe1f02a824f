import RemoteCalc.Proofs.Client.Steps
import RemoteCalc.Proofs.Framing.Refinement

/-!
What a client hears of the bytes of a stream. The portions in which they arrive do not matter, and
each frame that fits its ring is one event.
-/

namespace RemoteCalc

namespace Client

/-- The client reads, and its ring holds no part of a message. -/
structure Listening (capacity : Nat) (c : Client) : Prop where
  reading : c.reading = true
  rested : ∃ seen, c.ring.Tracks .client capacity seen ∧ seen.rest = []

def arrivals (chunks : List Bytes) : List Occurrence := chunks.map fun bs => .incoming (.bytes bs)

variable {c : Client} {capacity : Nat}

theorem listening_start (config : ClientConfig) :
    (start config).Listening (max config.ringBufferSize Ring.minCapacity) where
  reading := rfl
  rested := ⟨[], Ring.tracks_empty .client config.ringBufferSize, Bytes.rest_nil⟩

theorem take_bytes {bs : Bytes} (h : bs ≠ []) (c : Client) : c.take (.bytes bs) = c.arrive bs := by
  cases bs with
  | nil => exact absurd rfl h
  | cons b bs => rfl

theorem arrive_stream (hstream : c.transport.isStream = true) (hreading : c.reading = true)
    (bs : Bytes) : c.arrive bs = { c with
      ring := (c.ring.feed Ring.collect c.events bs).ring
      events := (c.ring.feed Ring.collect c.events bs).state } := by
  simp only [arrive, hreading, hstream, if_true, Bool.true_or]

theorem arrive_arrive (hstream : c.transport.isStream = true) (hreading : c.reading = true)
    (bs more : Bytes) : (c.arrive bs).arrive more = c.arrive (bs ++ more) := by
  obtain ⟨hring, hstate⟩ := Ring.feed_append Ring.collect c.ring c.events bs more
  have hsecond := @arrive_stream { c with
    ring := (c.ring.feed Ring.collect c.events bs).ring
    events := (c.ring.feed Ring.collect c.events bs).state } hstream hreading more
  rw [arrive_stream hstream hreading bs, hsecond, arrive_stream hstream hreading (bs ++ more),
    hring, hstate]

theorem foldl_arrive (hstream : c.transport.isStream = true) (hreading : c.reading = true)
    (chunks : List Bytes) : chunks.foldl arrive c = c.arrive chunks.flatten := by
  induction chunks generalizing c with
  | nil =>
    rw [List.flatten_nil, arrive_stream hstream hreading]
    rfl
  | cons bs chunks ih =>
    have harrive := arrive_stream hstream hreading bs
    rw [List.foldl_cons, @ih (c.arrive bs) (by rw [harrive]; exact hstream)
      (by rw [harrive]; exact hreading), arrive_arrive hstream hreading, List.flatten_cons]

/-- The portions in which the bytes of a stream arrive do not matter. -/
theorem undergoAll_stream {chunks : List Bytes} (hstream : c.transport.isStream = true)
    (hreading : c.reading = true) (hchunks : [] ∉ chunks) :
    c.undergoAll (arrivals chunks) = c.arrive chunks.flatten := by
  rw [← foldl_arrive hstream hreading, undergoAll, arrivals, List.foldl_map]
  apply List.foldl_ext
  intro c bs hbs
  apply take_bytes
  rintro rfl
  exact hchunks hbs

/-- To hear frames adds to the events and moves the ring, and changes nothing else. -/
theorem Listening.hear_stream {spelled : List Event} {frames chunks : List Bytes}
    (h : c.Listening capacity) (hstream : c.transport.isStream = true)
    (hframes : List.Forall₂ (Framing.Spells .client capacity) spelled frames)
    (hchunks : chunks.flatten = frames.flatten) (hcut : [] ∉ chunks) :
    ∃ ring, c.undergoAll (arrivals chunks) = { c with ring, events := c.events ++ spelled } ∧
      (c.undergoAll (arrivals chunks)).Listening capacity := by
  obtain ⟨seen, ht, hrest⟩ := h.rested
  obtain ⟨ring, seen', ht', hrest', hfeed⟩ := ht.feed_frames hrest hframes c.events
  rw [undergoAll_stream hstream h.reading hcut, hchunks, arrive_stream hstream h.reading, hfeed]
  exact ⟨ring, rfl, h.reading, seen', ht', hrest'⟩

end Client

end RemoteCalc
