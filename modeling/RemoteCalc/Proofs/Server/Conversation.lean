import RemoteCalc.Proofs.Framing.Frames
import RemoteCalc.Proofs.Session.Sending
import RemoteCalc.Server.Conversation

/-!
A conversation with an outlet that takes everything: whatever bytes arrive, each message and each
fault is answered by one response, in order, and a client can read them all.
-/

namespace RemoteCalc

namespace Conversation

variable {ω : Type} {divide : Divider} {send : Sender ω}

/-- Feeds chunks in turn until a response cannot be sent; `found` messages have already ended. -/
def feedAllFrom (divide : Divider) (send : Sender ω) (found : Nat) (c : Conversation ω) :
    List Bytes → Conversation ω × Except Failure Nat
  | [] => (c, .ok found)
  | bs :: chunks =>
    match c.feed divide send bs with
    | (c, .ok n) => feedAllFrom divide send (found + n) c chunks
    | (c, .error e) => (c, .error e)

/-- Feeds chunks in turn, and counts the messages that they end. -/
def feedAll (divide : Divider) (send : Sender ω) (c : Conversation ω) (chunks : List Bytes) :
    Conversation ω × Except Failure Nat :=
  feedAllFrom divide send 0 c chunks

theorem feedAllFrom_eq (n : Nat) (c : Conversation ω) (chunks : List Bytes) :
    feedAllFrom divide send n c chunks =
      let fed := c.ring.feedAllFrom (Session.handler divide send) n (c.session, c.calculator) chunks
      (⟨fed.ring, fed.state.1, fed.state.2⟩, fed.outcome) := by
  induction chunks generalizing n c with
  | nil => rfl
  | cons bs chunks ih =>
    simp only [feedAllFrom, feed, Ring.feedAllFrom]
    cases hf : c.ring.feed (Session.handler divide send) (c.session, c.calculator) bs with
    | mk ring state outcome =>
      cases outcome with
      | ok k => simp only [ih]
      | error e => rfl

/-- The boundaries of the chunks do not matter to a conversation either. -/
theorem feedAll_eq_feed (c : Conversation ω) (chunks : List Bytes) :
    c.feedAll divide send chunks = c.feed divide send chunks.flatten := by
  rw [feedAll, feedAllFrom_eq, Ring.feedAllFrom_eq, feed, Ring.feed]

/-- The events of a stream as a server with a ring of this capacity sees them. -/
def events (capacity : Nat) (bs : Bytes) : List Event :=
  Framing.events .server (max capacity Ring.minCapacity) bs

theorem inbound_events (capacity : Nat) (bs : Bytes) :
    ∀ event ∈ events capacity bs, event.Inbound :=
  Framing.inbound_events _ bs

/-- What is left of a conversation is what sending its frames in turn left, and the counts and the
calculator of the events that were answered. -/
theorem feed_of_rest_nil {c : Conversation ω} {capacity : Nat} {seen : Bytes}
    (ht : c.ring.Tracks .server (max capacity Ring.minCapacity) seen) (hrest : seen.rest = [])
    (bs : Bytes) :
    let sent := sendAll send c.session.outlet
      (Session.frames divide c.calculator (events capacity bs))
    let answered := (events capacity bs).take sent.count
    ∃ ring seen', ring.Tracks .server (max capacity Ring.minCapacity) seen' ∧
      c.feed divide send bs =
        (⟨ring, ⟨sent.outlet, c.session.handled + answered.countP Event.isRequest,
          c.session.rejected + answered.countP Event.isRejection⟩,
          Session.after divide c.calculator answered⟩,
        match sent.failure with
          | none => .ok (Framing.found (max capacity Ring.minCapacity) bs)
          | some e => .error (.io e)) := by
  intro sent answered
  have hrun := @Session.run_handler ω divide send _ (inbound_events capacity bs)
    c.session c.calculator
  obtain ⟨ring, seen', ht', -, hring⟩ := ht.feed_of_rest_nil hrest hrun
  refine ⟨ring, seen', ht', ?_⟩
  have hsent : sendAll send c.session.outlet
    (Session.frames divide c.calculator (events capacity bs)) = sent := rfl
  rw [feed, hring, hsent]
  cases sent.failure with
  | none => rfl
  | some e => rfl

theorem feed_start (capacity : Nat) (o : ω) (calculator : Calculator) (bs : Bytes) :
    let sent := sendAll send o (Session.frames divide calculator (events capacity bs))
    let answered := (events capacity bs).take sent.count
    ∃ ring outcome, (start capacity o calculator).feed divide send bs =
      (⟨ring, ⟨sent.outlet, answered.countP Event.isRequest, answered.countP Event.isRejection⟩,
        Session.after divide calculator answered⟩, outcome) ∧
      outcome = match sent.failure with
        | none => .ok (Framing.found (max capacity Ring.minCapacity) bs)
        | some e => .error (.io e) := by
  have ht : (start capacity o calculator).ring.Tracks .server (max capacity Ring.minCapacity) [] :=
    Ring.tracks_empty .server capacity
  obtain ⟨ring, -, -, hfeed⟩ := @feed_of_rest_nil ω divide send _ _ _ ht Bytes.rest_nil bs
  simp only [start, Session.start, Nat.zero_add] at hfeed
  exact ⟨ring, _, hfeed, rfl⟩

theorem feed_accept (divide : Divider) (capacity : Nat) (calculator : Calculator) (bs : Bytes) :
    ∃ ring, (start capacity [] calculator).feed divide accept bs =
      (⟨ring, ⟨Session.frames divide calculator (events capacity bs),
        (events capacity bs).countP Event.isRequest,
        (events capacity bs).countP Event.isRejection⟩,
        Session.after divide calculator (events capacity bs)⟩,
        .ok (Framing.found (max capacity Ring.minCapacity) bs)) := by
  obtain ⟨ring, outcome, hfeed, houtcome⟩ :=
    @feed_start (List Bytes) divide accept capacity [] calculator bs
  have hlen : (events capacity bs).take
      (Session.frames divide calculator (events capacity bs)).length = events capacity bs := by
    rw [Session.length_frames (inbound_events capacity bs), List.take_length]
  simp only [sendAll_accept, List.nil_append, hlen] at hfeed houtcome
  exact ⟨ring, by rw [hfeed, houtcome]⟩

end Conversation

/-- Every message gets one well-formed reply, in order. Whatever bytes arrive, in whatever chunks,
no feed fails; a client that reads what was sent, in any chunks, gets one response for each event
of the server's ring, which answers it; and no response is without a frame. -/
theorem one_reply_each (divide : Divider) (capacity : Nat) (calculator : Calculator)
    (chunks : List Bytes) :
    ∃ (events : List Event) (ring : Ring) (n : Nat) (conversation : Conversation (List Bytes))
      (responses : List Response),
      (Ring.empty .server capacity).feedAll Ring.collect [] chunks = ⟨ring, events, .ok n⟩ ∧
      (Conversation.start capacity [] calculator).feedAll divide accept chunks =
        (conversation, .ok n) ∧
      conversation.session.handled + conversation.session.rejected =
        conversation.session.outlet.length ∧
      List.Forall₂ Session.Answers events responses ∧
      (∀ clientCapacity pieces, Response.maxFrame ≤ clientCapacity →
        pieces.flatten = conversation.session.outlet.flatten →
        ∃ client, (Ring.empty .client clientCapacity).feedAll Ring.collect [] pieces =
          ⟨client, responses.map .response, .ok responses.length⟩) ∧
      ∀ r : Response, ∃ f, r.frame = .ok f := by
  obtain ⟨ring, hring⟩ := Ring.feedAll_collect .server capacity chunks
  obtain ⟨ring', hfeed⟩ := Conversation.feed_accept divide capacity calculator chunks.flatten
  have hinbound := Conversation.inbound_events capacity chunks.flatten
  have hanswers := @Session.forall₂_answers divide _ hinbound calculator
  rw [← Conversation.feedAll_eq_feed] at hfeed
  refine ⟨_, ring, _, _,
    (Session.replies divide calculator (Conversation.events capacity chunks.flatten)).map
      Response.delivered, hring, hfeed, ?_, ?_, ?_, ?_⟩
  · rw [Session.countP_add_countP hinbound, Session.length_frames hinbound]
  · exact List.forall₂_map_right_iff.2 (hanswers.imp fun _ _ h => h.delivered)
  · intro clientCapacity pieces hcap hpieces
    have hspells := @Session.spells_frames divide calculator
      (Conversation.events capacity chunks.flatten) _ hcap
    have hmin : Ring.minCapacity ≤ clientCapacity := Nat.le_trans (by decide) hcap
    obtain ⟨client, hclient⟩ := Ring.feedAll_frames hmin hspells hpieces
    exact ⟨client, by rw [hclient, List.length_map]⟩
  · intro r
    exact ⟨r.bytes, r.frame_eq_bytes⟩

end RemoteCalc
