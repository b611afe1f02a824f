import RemoteCalc.Proofs.Client.Hearing

/-!
What a client's reader makes of all that it receives. A stream is heard as one text of bytes, in
whatever portions it comes; of packets each is heard as if there were no other.
-/

namespace RemoteCalc

namespace Incoming

/-- The reader goes on after a receive unless a stream has ended or the socket has failed. -/
def goesOn (t : Transport) : Incoming → Bool
  | .bytes bs => ¬ (t.isStream ∧ bs = [])
  | .fail kind => kind.isTimeout ∨ kind = .interrupted

def bytes? : Incoming → Option Bytes
  | .bytes bs => some bs
  | .fail _ => none

end Incoming

namespace Client

/-- The bytes of each receive up to the one that ends the reading. -/
def received (t : Transport) (receives : List Incoming) : List Bytes :=
  (receives.takeWhile (·.goesOn t)).filterMap Incoming.bytes?

/-- The events that bytes raise in a ring that has held none before. -/
def raisedAlone (config : ClientConfig) (bs : Bytes) : List Event :=
  ((Ring.empty .client config.ringBufferSize).feed Ring.collect [] bs).state

variable {c : Client} {i : Incoming} {receives : List Incoming}

theorem take_transport (c : Client) (i : Incoming) : (c.take i).transport = c.transport := by
  obtain ⟨ring, reading, hindrance, more, h⟩ := c.undergo_eq (.incoming i)
  rw [undergo] at h
  rw [h]

theorem arrive_reading (c : Client) (bs : Bytes) : (c.arrive bs).reading = c.reading := by
  obtain ⟨ring, more, h⟩ := c.arrive_eq bs
  rw [h]

/-- Once the reading has ended, nothing that is received has an effect. -/
theorem take_ended (h : c.reading = false) (i : Incoming) : c.take i = c := by
  have hsame : ({ c with reading := false } : Client) = c := by rw [← h]
  cases i with
  | fail kind =>
    rw [take, hsame, ite_self]
  | bytes bs =>
    cases bs with
    | nil => rw [take, peerFinished, hsame, ite_self]
    | cons b bs => rw [take_bytes (List.cons_ne_nil b bs), arrive, h, if_neg Bool.false_ne_true]

theorem foldl_take_ended (h : c.reading = false) (receives : List Incoming) :
    receives.foldl take c = c := by
  induction receives with
  | nil => rfl
  | cons i receives ih => rw [List.foldl_cons, take_ended h, ih]

/-- The receive that ends the reading does no more than that. -/
theorem take_ending (h : i.goesOn c.transport = false) :
    c.take i = { c with reading := false } := by
  cases i with
  | fail kind =>
    rw [Incoming.goesOn, decide_eq_false_iff_not] at h
    rw [take, if_neg h]
  | bytes bs =>
    rw [Incoming.goesOn, decide_eq_false_iff_not, not_not] at h
    obtain ⟨hstream, rfl⟩ := h
    rw [take, peerFinished, if_pos hstream]

theorem take_reading (hreading : c.reading = true) (h : i.goesOn c.transport = true) :
    (c.take i).reading = true := by
  cases i with
  | fail kind =>
    rw [Incoming.goesOn, decide_eq_true_eq] at h
    rw [take, if_pos h, hreading]
  | bytes bs =>
    cases bs with
    | nil =>
      rw [Incoming.goesOn, decide_eq_true_eq] at h
      rw [take, peerFinished, if_neg fun hstream => h ⟨hstream, rfl⟩, hreading]
    | cons b bs => rw [take_bytes (List.cons_ne_nil b bs), arrive_reading, hreading]

theorem foldl_take_reading (h : c.reading = true) (receives : List Incoming) :
    (receives.foldl take c).reading = receives.all (·.goesOn c.transport) := by
  induction receives generalizing c with
  | nil => exact h
  | cons i receives ih =>
    rw [List.foldl_cons, List.all_cons]
    cases hgoes : i.goesOn c.transport with
    | true => rw [ih (take_reading h hgoes), take_transport, Bool.true_and]
    | false => rw [take_ending hgoes, foldl_take_ended rfl, Bool.false_and]

section Received

variable {t : Transport}

theorem received_ending (h : i.goesOn t = false) : received t (i :: receives) = [] := by
  simp [received, h]

theorem received_cons (h : i.goesOn t = true) :
    received t (i :: receives) = i.bytes?.toList ++ received t receives := by
  cases i with
  | fail kind =>
    have hnone : Incoming.bytes? (.fail kind) = none := rfl
    simp [received, h, hnone]
  | bytes bs =>
    have hsome : Incoming.bytes? (.bytes bs) = some bs := rfl
    simp [received, h, hsome]

end Received

theorem arrive_nil_events (c : Client) : (c.arrive []).events = c.events := by
  rw [arrive]
  split
  · simp [Ring.feed, Ring.feedFrom]
  · rfl

/-- The portions of a stream, and the receives in vain between them, do not matter. -/
theorem foldl_take_stream (hstream : c.transport.isStream = true) (hreading : c.reading = true)
    (receives : List Incoming) : (receives.foldl take c).events =
      (c.arrive (received c.transport receives).flatten).events := by
  induction receives generalizing c with
  | nil => exact (arrive_nil_events c).symm
  | cons i receives ih =>
    rw [List.foldl_cons]
    cases hgoes : i.goesOn c.transport with
    | false =>
      rw [take_ending hgoes, foldl_take_ended rfl, received_ending hgoes, List.flatten_nil,
        arrive_nil_events]
    | true =>
      rw [ih (take_transport c i ▸ hstream) (take_reading hreading hgoes), take_transport,
        received_cons hgoes, List.flatten_append]
      cases i with
      | fail kind =>
        rw [Incoming.goesOn, decide_eq_true_eq] at hgoes
        rw [take, if_pos hgoes]
        rfl
      | bytes bs =>
        have hne : bs ≠ [] := by
          rw [Incoming.goesOn, decide_eq_true_eq] at hgoes
          exact fun hnil => hgoes ⟨hstream, hnil⟩
        have hbytes : (Incoming.bytes? (.bytes bs)).toList.flatten = bs := List.flatten_singleton
        rw [take_bytes hne, arrive_arrive hstream hreading, hbytes]

theorem arrive_of_packet (hpacket : c.transport.isStream = false) (hreading : c.reading = true)
    (bs : Bytes) :
    let fed := c.ring.feed Ring.collect c.events (bs.take packetSize)
    c.arrive bs =
      { c with
        ring := if fed.ring.isIdle then fed.ring else fed.ring.reset
        events := fed.state } := by
  simp only [arrive, hreading, hpacket, if_true, Bool.false_eq_true, if_false, Bool.false_or]

section Packets

variable {config : ClientConfig}

theorem raisedAlone_eq (config : ClientConfig) (bs : Bytes) : raisedAlone config bs =
    Framing.events .client (max config.ringBufferSize Ring.minCapacity) bs := by
  obtain ⟨r, hfeed⟩ := @Ring.feed_empty_ok .client config.ringBufferSize bs _ _ Ring.collect [] _
    (Handler.run_collect [] _)
  rw [raisedAlone, hfeed]
  rfl

/-- A packet is heard as by a new ring, and what it leaves of a message is dropped. -/
theorem Listening.arrive_packet (h : c.Listening (max config.ringBufferSize Ring.minCapacity))
    (hpacket : c.transport.isStream = false) (bs : Bytes) :
    (c.arrive bs).Listening (max config.ringBufferSize Ring.minCapacity) ∧
      (c.arrive bs).events = c.events ++ raisedAlone config (bs.take packetSize) := by
  obtain ⟨seen, ht, hrest⟩ := h.rested
  obtain ⟨r, seen', ht', -, hfeed⟩ := ht.feed_of_rest_nil hrest
    (Handler.run_collect c.events (Framing.events .client _ (bs.take packetSize)))
  rw [arrive_of_packet hpacket h.reading, hfeed, raisedAlone_eq]
  exact ⟨⟨h.reading, ht'.settle⟩, rfl⟩

theorem Listening.take_packet (h : c.Listening (max config.ringBufferSize Ring.minCapacity))
    (hpacket : c.transport.isStream = false) (hgoes : i.goesOn c.transport = true) :
    (c.take i).Listening (max config.ringBufferSize Ring.minCapacity) ∧
      (c.take i).events = c.events ++
        i.bytes?.toList.flatMap fun bs => raisedAlone config (bs.take packetSize) := by
  cases i with
  | fail kind =>
    rw [Incoming.goesOn, decide_eq_true_eq] at hgoes
    rw [take, if_pos hgoes]
    exact ⟨h, (List.append_nil _).symm⟩
  | bytes bs =>
    have hbytes : (Incoming.bytes? (.bytes bs)).toList.flatMap
        (fun bs => raisedAlone config (bs.take packetSize)) =
          raisedAlone config (bs.take packetSize) := List.flatMap_singleton ..
    rw [hbytes]
    cases bs with
    | nil =>
      rw [take, peerFinished, if_neg (Bool.eq_false_iff.1 hpacket)]
      exact ⟨h, (List.append_nil _).symm⟩
    | cons b bs =>
      rw [take_bytes (List.cons_ne_nil b bs)]
      exact h.arrive_packet hpacket (b :: bs)

/-- Of packets each is heard alone. -/
theorem Listening.foldl_take (h : c.Listening (max config.ringBufferSize Ring.minCapacity))
    (hpacket : c.transport.isStream = false) (receives : List Incoming) :
    (receives.foldl take c).events = c.events ++
      (received c.transport receives).flatMap
        fun bs => raisedAlone config (bs.take packetSize) := by
  induction receives generalizing c with
  | nil => exact (List.append_nil _).symm
  | cons i receives ih =>
    rw [List.foldl_cons]
    cases hgoes : i.goesOn c.transport with
    | false =>
      rw [take_ending hgoes, foldl_take_ended rfl, received_ending hgoes, List.flatMap_nil,
        List.append_nil]
    | true =>
      obtain ⟨hlistening, hevents⟩ := h.take_packet hpacket hgoes
      rw [ih hlistening (take_transport c i ▸ hpacket), hevents, take_transport,
        received_cons hgoes, List.flatMap_append, List.append_assoc]

/-- An empty packet is heard as nothing at all. -/
theorem foldl_take_filter (hpacket : c.transport.isStream = false) (receives : List Incoming) :
    (receives.filter (· ≠ .bytes [])).foldl take c = receives.foldl take c := by
  induction receives generalizing c with
  | nil => rfl
  | cons i receives ih =>
    by_cases hempty : i = .bytes []
    · rw [List.filter_cons_of_neg (by simpa using hempty), ih hpacket, hempty, List.foldl_cons,
        take, peerFinished, if_neg (Bool.eq_false_iff.1 hpacket)]
    · rw [List.filter_cons_of_pos (by simpa using hempty), List.foldl_cons, List.foldl_cons,
        ih (take_transport c i ▸ hpacket)]

end Packets

/-- The reader queues the events of what it receives, up to the peer's end or a failure of the
socket, and no others. Those of a stream are what one ring makes of all its bytes; those of packets
are, one packet after the other, what a new ring makes of the packet's first 512 bytes. -/
theorem reader_hears (config : ClientConfig) (receives : List Incoming) :
    let reader := receives.foldl take (start config)
    let heard := received config.transport receives
    reader.reading = receives.all (·.goesOn config.transport) ∧
      if config.transport.isStream then reader.events = raisedAlone config heard.flatten
      else reader.events = heard.flatMap (fun bs => raisedAlone config (bs.take 512)) ∧
        (receives.filter (· ≠ .bytes [])).foldl take (start config) = reader := by
  intro reader heard
  refine ⟨foldl_take_reading rfl receives, ?_⟩
  cases hstream : config.transport.isStream with
  | true =>
    rw [if_pos rfl]
    have hevents := @foldl_take_stream (start config) hstream rfl receives
    rw [arrive_stream hstream rfl] at hevents
    exact hevents
  | false =>
    rw [if_neg Bool.false_ne_true]
    exact ⟨(listening_start config).foldl_take hstream receives,
      foldl_take_filter hstream receives⟩

end Client

end RemoteCalc
