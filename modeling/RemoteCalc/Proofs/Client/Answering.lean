import RemoteCalc.Proofs.Client.Calls
import RemoteCalc.Proofs.Client.Reading

/-!
A peer that answers in frames. What a client hears is what its reader makes of all that it has
received, whatever it did in between; so a peer that answers each request once and in order, in
frames that the client's ring holds, is heard to do so, and a call returns the reply to its own
request or none.
-/

namespace RemoteCalc

namespace Client

/-- What happens to a client as its reader takes it: a peer that goes away is a failed receive. -/
def Occurrence.receive? : Occurrence → Option Incoming
  | .incoming i => some i
  | .departure => some (.fail .brokenPipe)
  | .hindered _ => none

def receives (os : List Occurrence) : List Incoming := os.filterMap Occurrence.receive?

/-- A client that only receives. -/
def reader (config : ClientConfig) (is : List Incoming) : Client := is.foldl take (start config)

/-- A client that has received what a reader has, and has consumed these events. -/
structure Follows (consumed : List Event) (c reader : Client) : Prop where
  transport_eq : c.transport = reader.transport
  ring_eq : c.ring = reader.ring
  reading_eq : c.reading = reader.reading
  events_eq : consumed ++ c.events = reader.events

variable {c reader : Client} {consumed : List Event}

namespace Follows

theorem arrive (h : Follows consumed c reader) (bs : Bytes) :
    Follows consumed (c.arrive bs) (reader.arrive bs) := by
  obtain ⟨htransport, hring, hreading, hevents⟩ := h
  rw [Client.arrive, Client.arrive, htransport, hring, hreading]
  split
  · simp only [Ring.feed_collect _ c.events, Ring.feed_collect _ reader.events]
    exact ⟨rfl, rfl, rfl, by rw [← hevents, List.append_assoc]⟩
  · exact ⟨htransport, hring, hreading, hevents⟩

theorem take (h : Follows consumed c reader) (i : Incoming) :
    Follows consumed (c.take i) (reader.take i) := by
  cases i with
  | fail kind =>
    rw [Client.take, Client.take]
    split
    · exact h
    · exact ⟨h.transport_eq, h.ring_eq, rfl, h.events_eq⟩
  | bytes bs =>
    cases bs with
    | nil =>
      have htransport := h.transport_eq
      simp only [Client.take, peerFinished, htransport]
      split
      · exact ⟨rfl, h.ring_eq, rfl, h.events_eq⟩
      · exact h
    | cons b bs => exact h.arrive (b :: bs)

theorem undergo (h : Follows consumed c reader) (o : Occurrence) :
    Follows consumed (c.undergo o) (o.receive?.toList.foldl Client.take reader) := by
  cases o with
  | incoming i => exact h.take i
  | departure => exact ⟨h.transport_eq, h.ring_eq, rfl, h.events_eq⟩
  | hindered hindrance => exact ⟨h.transport_eq, h.ring_eq, h.reading_eq, h.events_eq⟩

theorem undergoAll (h : Follows consumed c reader) (os : List Occurrence) :
    Follows consumed (c.undergoAll os) ((receives os).foldl Client.take reader) := by
  induction os generalizing c reader with
  | nil => exact h
  | cons o os ih =>
    have hrest := ih (h.undergo o)
    rw [← List.foldl_append] at hrest
    have hreceives : receives (o :: os) = o.receive?.toList ++ receives os := by
      rw [receives, List.filterMap_cons]
      cases o.receive? with
      | none => rfl
      | some i => rfl
    rw [hreceives]
    exact hrest

/-- Whatever else a client does, it only takes events from the front. -/
theorem leaving (h : Follows consumed c reader) {taken rest : List Event}
    (hevents : c.events = taken ++ rest) (n : Nat) :
    Follows (consumed ++ taken) (c.leaving n rest) reader := by
  refine ⟨h.transport_eq, h.ring_eq, h.reading_eq, ?_⟩
  rw [← h.events_eq, hevents, List.append_assoc]
  rfl

end Follows

section Heard

variable {config : ClientConfig} {spelled : List Event} {frames : List Bytes}

/-- A packet that is a frame is heard as the event that it spells. -/
theorem raisedAlone_frame {event : Event} {f : Bytes}
    (hf : Framing.Spells .client (max config.ringBufferSize Ring.minCapacity) event f)
    (hsize : f.length ≤ packetSize) : raisedAlone config (f.take packetSize) = [event] := by
  obtain ⟨hevents, -⟩ := Framing.events_frames (Ring.max_minCapacity_pos _) (.cons hf .nil)
  rw [List.flatten_singleton] at hevents
  rw [List.take_of_length_le hsize, raisedAlone_eq, hevents]

theorem raisedAlone_frames
    (h : List.Forall₂ (Framing.Spells .client (max config.ringBufferSize Ring.minCapacity))
      spelled frames) (hsizes : ∀ f ∈ frames, f.length ≤ packetSize) :
    frames.flatMap (fun f => raisedAlone config (f.take packetSize)) = spelled := by
  induction h with
  | nil => rfl
  | @cons event f spelled frames hf _ ih =>
    rw [List.flatMap_cons, raisedAlone_frame hf (hsizes f (List.mem_cons_self ..)),
      ih fun g hg => hsizes g (List.mem_cons_of_mem f hg), List.singleton_append]

theorem flatMap_filter_nonempty (config : ClientConfig) (packets : List Bytes) :
    (packets.filter (· ≠ [])).flatMap (fun bs => raisedAlone config (bs.take packetSize)) =
      packets.flatMap fun bs => raisedAlone config (bs.take packetSize) := by
  induction packets with
  | nil => rfl
  | cons bs packets ih =>
    by_cases hbs : bs = []
    · have hnone : raisedAlone config [] = [] := rfl
      rw [List.filter_cons_of_neg (by simpa using hbs), ih, List.flatMap_cons, hbs,
        List.take_nil, hnone, List.nil_append]
    · rw [List.filter_cons_of_pos (by simpa using hbs), List.flatMap_cons, List.flatMap_cons, ih]

end Heard

end Client

namespace Exchange

open Client

/-- What a client has received comes from a peer that answers these requests, each once and in
order, in frames that the client's ring holds: over a stream a beginning of the frames, in any
portions, else the first of them, each in a packet. -/
structure Answers (config : ClientConfig) (asked : List Int32) (is : List Incoming)
    (replies : List Response) (frames : List Bytes) : Prop where
  replies_to : List.Forall₂ Replies (asked.take replies.length) replies
  spelled : List.Forall₂ (Framing.Spells .client (max config.ringBufferSize Ring.minCapacity))
    (replies.map .response) frames
  arrived : if config.transport.isStream then
      (received config.transport is).flatten <+: frames.flatten
    else (received config.transport is).filter (· ≠ []) <+: frames ∧
      ∀ f ∈ frames, f.length ≤ packetSize

/-- What a client comes to that only sends, receives and calls, when it has received this from a
peer that answers in frames. -/
inductive Answered (config : ClientConfig) : List Incoming → Exchange → Prop
  | start : Answered config [] (start config)
  | send {is : List Incoming} {e : Exchange} (h : Answered config is e) (m : Method)
      (a b : Float) : Answered config is (e.send m a b).1
  | receive {is : List Incoming} {e : Exchange} (h : Answered config is e) :
      Answered config is e.receive.1
  | undergo {is : List Incoming} {e : Exchange} {replies : List Response} {frames : List Bytes}
      (h : Answered config is e) (os : List Occurrence) :
      Answers config e.asked (is ++ receives os) replies frames →
      Answered config (is ++ receives os) (e.undergo os)
  | call {is : List Incoming} {e : Exchange} {id : Int32} {replies : List Response}
      {frames : List Bytes} (h : Answered config is e) (m : Method) (a b : Float)
      (os : List Occurrence) : (e.send m a b).2 = .ok id →
      Answers config (e.send m a b).1.asked (is ++ receives os) replies frames →
      Answered config (is ++ receives os) (e.call m a b os).1
  /-- A call whose request is not sent ends at once. -/
  | unsent {is : List Incoming} {e : Exchange} {failure : Failure} (h : Answered config is e)
      (m : Method) (a b : Float) (os : List Occurrence) : (e.send m a b).2 = .error failure →
      Answered config is (e.call m a b os).1

variable {config : ClientConfig} {e : Exchange} {is : List Incoming}
variable {replies : List Response} {frames : List Bytes}

/-- The reader hears the first of the replies, and all of them once all bytes have come. -/
theorem Answers.heard {asked : List Int32} (h : Answers config asked is replies frames) :
    (reader config is).events <+: replies.map .response ∧
      ((received config.transport is).flatten = frames.flatten →
        (reader config is).events = replies.map .response) := by
  have hpos := Ring.max_minCapacity_pos config.ringBufferSize
  have harrived := h.arrived
  obtain ⟨-, hheard⟩ := reader_hears config is
  cases hstream : config.transport.isStream with
  | true =>
    rw [hstream, if_pos rfl] at harrived
    rw [hstream, if_pos rfl, raisedAlone_eq] at hheard
    rw [reader, hheard]
    refine ⟨Framing.events_of_prefix hpos h.spelled harrived, ?_⟩
    intro hbytes
    rw [hbytes, (Framing.events_frames hpos h.spelled).1]
  | false =>
    rw [hstream, if_neg Bool.false_ne_true] at harrived
    rw [hstream, if_neg Bool.false_ne_true] at hheard
    obtain ⟨hfirst, hsizes⟩ := harrived
    have hpackets := hheard.1
    rw [← packetSize, ← flatMap_filter_nonempty] at hpackets
    rw [reader, hpackets]
    have hall := raisedAlone_frames h.spelled hsizes
    constructor
    · rw [← hall]
      exact hfirst.flatMap _
    · intro hbytes
      rw [← List.flatten_filter_ne_nil] at hbytes
      rw [Framing.eq_of_prefix (Framing.nil_not_mem_frames h.spelled) hfirst hbytes, hall]

/-- A client that follows its reader hears of such a peer what it should. -/
theorem Answers.honest (h : Answers config e.asked is replies frames)
    (hfollows : Follows e.consumed e.client (reader config is)) : e.Honest := by
  obtain ⟨hbeginning, -⟩ := h.heard
  obtain ⟨n, hn⟩ : ∃ n, n = (reader config is).events.length := ⟨_, rfl⟩
  refine ⟨replies.take n, ?_, ?_⟩
  · rw [hfollows.events_eq, List.map_take, hn, ← List.prefix_iff_eq_take]
    exact hbeginning
  · have hfirst := List.forall₂_take n h.replies_to
    rw [List.take_take, ← List.length_take] at hfirst
    exact hfirst

theorem follows_consuming {reader : Client} (h : Follows e.consumed e.client reader)
    {taken rest : List Event} (hevents : e.client.events = taken ++ rest) :
    Follows (e.consuming (e.client.leaving taken.length rest)).consumed
      (e.consuming (e.client.leaving taken.length rest)).client reader := by
  rw [consumed_consuming hevents]
  exact h.leaving hevents _

theorem follows_send {reader : Client} (h : Follows e.consumed e.client reader) (m : Method)
    (a b : Float) : Follows (e.send m a b).1.consumed (e.send m a b).1.client reader := by
  rcases e.client.send_cases m a b with ⟨f, -, hsend⟩ | ⟨failure, hsend⟩
  · rw [send, hsend]
    exact ⟨h.transport_eq, h.ring_eq, h.reading_eq, h.events_eq⟩
  · rw [send, hsend]
    exact ⟨h.transport_eq, h.ring_eq, h.reading_eq, h.events_eq⟩

theorem follows_undergo (h : Follows e.consumed e.client (reader config is))
    (os : List Occurrence) : Follows (e.undergo os).consumed (e.undergo os).client
      (reader config (is ++ receives os)) := by
  rw [reader, List.foldl_append]
  exact h.undergoAll os

theorem call_of_error {m : Method} {a b : Float} {failure : Failure}
    (h : (e.send m a b).2 = .error failure) (os : List Occurrence) :
    e.call m a b os = ((e.send m a b).1, .error failure) := by
  rw [call]
  cases hsend : e.send m a b with
  | mk sent result =>
    rw [hsend] at h
    simp only at h
    rw [h]

/-- A peer that answers in frames is an honest one. -/
theorem Answered.reached (h : Answered config is e) :
    Reached config e ∧ Follows e.consumed e.client (reader config is) := by
  induction h with
  | start => exact ⟨.start, rfl, rfl, rfl, rfl⟩
  | send _ m a b ih => exact ⟨ih.1.send m a b, follows_send ih.2 m a b⟩
  | @receive is e _ ih =>
    obtain ⟨hreached, hfollows⟩ := ih
    obtain ⟨taken, rest, hevents, hreceive⟩ := e.receive_eq
    refine ⟨hreached.receive, ?_⟩
    rw [hreceive]
    exact follows_consuming hfollows hevents
  | undergo _ os hanswers ih =>
    have hfollows := follows_undergo ih.2 os
    exact ⟨ih.1.undergo os (Answers.honest hanswers hfollows), hfollows⟩
  | @call is e id _ _ _ m a b os hsend hanswers ih =>
    have hfollows := follows_undergo (follows_send ih.2 m a b) os
    refine ⟨ih.1.call m a b os (Answers.honest hanswers hfollows), ?_⟩
    obtain ⟨taken, rest, hevents, hawait⟩ := ((e.send m a b).1.undergo os).await_eq id
    rw [call_of_send hsend, hawait]
    exact follows_consuming hfollows hevents
  | unsent _ m a b os hsend ih =>
    rw [call_of_error hsend]
    exact ⟨ih.1.send m a b, follows_send ih.2 m a b⟩

/-- When all replies have come in whole, the call returns the last of them, which is its own. -/
theorem Answered.call_last {m : Method} {a b : Float} {id : Int32} {os : List Occurrence}
    (h : Answered config is e) (hids : e.allocated < 2 ^ 32 - 1)
    (hpatience : config.responseTimeoutMs ≠ 0) (hsend : (e.send m a b).2 = .ok id)
    (hanswers : Answers config (e.send m a b).1.asked (is ++ receives os) replies frames)
    (hall : replies.length = (e.send m a b).1.asked.length)
    (hbytes : (received config.transport (is ++ receives os)).flatten = frames.flatten) :
    ∃ own, replies.getLast? = some own ∧ (e.call m a b os).2 = .ok own := by
  obtain ⟨hreached, hfollows⟩ := h.reached
  obtain ⟨-, hasked, hconsumed⟩ := send_asked hsend
  have hwaiting := follows_undergo (follows_send hfollows m a b) os
  have hhonest : ((e.send m a b).1.undergo os).Honest := Answers.honest hanswers hwaiting
  obtain ⟨heard, hconcluded⟩ :=
    hreached.consistent.concludes hids hpatience hsend hhonest
  have hevents : e.consumed ++ heard.map .response = replies.map .response := by
    rw [← hanswers.heard.2 hbytes, ← hwaiting.events_eq, hconcluded.available_eq, ← hconsumed]
    rfl
  have hcount := congrArg List.length hevents
  have hdue := hreached.consistent.outstanding_eq
  rw [hasked] at hall
  simp only [List.length_append, List.length_map, List.length_singleton] at hcount hall
  obtain ⟨stale, own, rfl, -, -, hresult, -⟩ := hconcluded.replied (by
    rw [List.length_drop]
    omega)
  refine ⟨own, ?_, hresult⟩
  have hlast := congrArg List.getLast? hevents
  rw [List.map_append, ← List.append_assoc, List.map_singleton, List.getLast?_concat,
    List.getLast?_map] at hlast
  obtain ⟨r, hr, heq⟩ := Option.map_eq_some_iff.1 hlast.symm
  rw [hr, Event.response.inj heq]

/-- With a peer that answers every frame once and in order, the replies due are the frames sent
less the events taken, and a call returns the reply to its own request or none. One that answers
in frames that the client's ring holds is such a peer, and when the frames of all replies are in,
the call returns. -/
theorem call_concludes (config : ClientConfig) :
    (∀ e, Reached config e → e.client.outstanding + e.consumed.length = e.client.sent.length ∧
      List.Forall₂ (fun id f => ∃ r : Request, r.id = id ∧ r.encode = .ok f)
        e.asked e.client.sent) ∧
    (∀ e, Reached config e → e.allocated < 2 ^ 32 - 1 → config.responseTimeoutMs ≠ 0 →
      ∀ (m : Method) (a b : Float) (os : List Client.Occurrence) (id : Int32),
      (e.send m a b).2 = .ok id → ((e.send m a b).1.undergo os).Honest →
      ∃ heard, Concluded (e.asked.drop e.consumed.length) id heard
        ((e.send m a b).1.undergo os) (e.call m a b os).1 (e.call m a b os).2) ∧
    (∀ is e, Answered config is e → Reached config e ∧
      ∀ (m : Method) (a b : Float) (os : List Client.Occurrence) (id : Int32) replies frames,
      (e.send m a b).2 = .ok id →
      Answers config (e.send m a b).1.asked (is ++ receives os) replies frames →
      ((e.send m a b).1.undergo os).Honest ∧
        (e.allocated < 2 ^ 32 - 1 → config.responseTimeoutMs ≠ 0 →
          replies.length = (e.send m a b).1.asked.length →
          (received config.transport (is ++ receives os)).flatten = frames.flatten →
          ∃ own, replies.getLast? = some own ∧ (e.call m a b os).2 = .ok own)) ∧
    ∀ (e : Exchange) (m : Method) (a b : Float) (os : List Client.Occurrence),
      ((e.call m a b os).1.client, (e.call m a b os).2) = e.client.callDuring m a b os := by
  refine ⟨?_, ?_, ?_, call_client⟩
  · intro e hreached
    have h := hreached.consistent
    rw [h.outstanding_eq]
    exact ⟨h.sent_asked.length_eq, h.sent_asked⟩
  · intro e hreached hids hpatience m a b os id hsend hhonest
    exact hreached.consistent.concludes hids hpatience hsend hhonest
  · intro is e h
    obtain ⟨hreached, hfollows⟩ := h.reached
    refine ⟨hreached, ?_⟩
    intro m a b os id replies frames hsend hanswers
    refine ⟨Answers.honest hanswers (follows_undergo (follows_send hfollows m a b) os), ?_⟩
    intro hids hpatience hall hbytes
    exact h.call_last hids hpatience hsend hanswers hall hbytes

/-- A call that timed out is rejected while the next one waits, which gets its own reply. -/
theorem call_concludes_late_rejection :
    let before := ((start {}).call .add 1 1 []).1
    let rejection := Utf8.ofString "-1#1#0$"
    let reply := Utf8.ofString "1#0#7$"
    let os := [Client.Occurrence.incoming (.bytes (rejection ++ reply))]
    Answered {} [] before ∧ before.allocated < 2 ^ 32 - 1 ∧
      ({} : ClientConfig).responseTimeoutMs ≠ 0 ∧ (before.send .mul 7 1).2 = .ok 1 ∧
      Answers {} (before.send .mul 7 1).1.asked (receives os)
        [.refusal (-1) .invalidRequest, .success 1 7] [rejection, reply] ∧
      (∃ heard, Concluded (before.asked.drop before.consumed.length) 1 heard
        ((before.send .mul 7 1).1.undergo os) (before.call .mul 7 1 os).1
        (before.call .mul 7 1 os).2) ∧
      (before.call .mul 7 1 os).2 = .ok (.success 1 7) := by
  intro before rejection reply os
  have hbefore : Answered {} [] before := by
    refine @Answered.call {} [] (start {}) 0 [] [] .start .add 1 1 [] ?_ ?_
    · decide +kernel
    · exact ⟨.nil, .nil, List.nil_prefix⟩
  have hids : before.allocated < 2 ^ 32 - 1 := by decide +kernel
  have hsend : (before.send .mul 7 1).2 = .ok 1 := by decide +kernel
  have hasked : (before.send .mul 7 1).1.asked = [0, 1] := by decide +kernel
  have hbytes : (received .tcp (receives os)).flatten = [rejection, reply].flatten := by
    decide +kernel
  have hanswers : Answers {} (before.send .mul 7 1).1.asked (receives os)
      [.refusal (-1) .invalidRequest, .success 1 7] [rejection, reply] := by
    rw [hasked]
    constructor
    case replies_to => exact .cons (.inr rfl) (.cons (.inl rfl) .nil)
    case spelled =>
      refine .cons ⟨Utf8.ofString "-1#1#0", by decide +kernel, ?_, by decide +kernel⟩
        (.cons ⟨Utf8.ofString "1#0#7", by decide +kernel, ?_, by decide +kernel⟩ .nil)
      · exact ⟨by decide +kernel, by decide +kernel, by decide +kernel⟩
      · exact ⟨by decide +kernel, by decide +kernel, by decide +kernel⟩
    case arrived =>
      rw [if_pos (by decide), hbytes]
  obtain ⟨-, hconcludes, hframes, -⟩ := call_concludes {}
  obtain ⟨hreached, hcalls⟩ := hframes [] before hbefore
  obtain ⟨hhonest, hreturns⟩ := hcalls .mul 7 1 os 1 _ _ hsend hanswers
  obtain ⟨own, hlast, hresult⟩ := hreturns hids (by decide) (by rw [hasked]; rfl) hbytes
  cases hlast
  exact ⟨hbefore, hids, by decide, hsend, hanswers,
    hconcludes before hreached hids (by decide) .mul 7 1 os 1 hsend hhonest, hresult⟩

end Exchange

end RemoteCalc
