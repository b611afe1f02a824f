import RemoteCalc.Proofs.Framing.Refinement
import RemoteCalc.Proofs.Server.Conversation
import RemoteCalc.Proofs.Transport.Mailbox
import RemoteCalc.Server.PacketService

/-!
Every packet is served as if it were the first: between two packets the ring holds no part of a
message, so that what comes of a packet is decided by its bytes, the memory and the outcomes of its
own sends. It is answered at least once, and nothing of it is worked out past the first answer that
cannot be sent.
-/

namespace RemoteCalc

namespace PacketService

/-- The messages of a packet: its requests and its faults. -/
def messages (config : Config) (bs : Bytes) : List Event :=
  Conversation.events config.ringBufferSize bs

/-- The frames due to a packet: one for each message, or the one that says that there is none. -/
def due (config : Config) (calculator : Calculator) (bs : Bytes) : List Bytes :=
  if messages config bs = [] then [noMessage.bytes]
  else Session.frames Calculator.div calculator (messages config bs)

/-- Handles packets in turn, whatever comes of each. -/
def handleAll (s : PacketService) (history : List (String × Bytes)) : PacketService :=
  history.foldl (fun s packet => (s.handlePacket packet.1 packet.2).1) s

/-- The ring holds no part of a message. -/
def Rested (s : PacketService) : Prop :=
  ∃ seen, s.ring.Tracks .server (max s.config.ringBufferSize Ring.minCapacity) seen ∧
    seen.rest = []

theorem rested_start (config : Config) (sends : List SendStep) : (start config sends).Rested :=
  ⟨[], Ring.tracks_empty .server config.ringBufferSize, Bytes.rest_nil⟩

variable {s : PacketService}

theorem Rested.isIdle (h : s.Rested) : s.ring.isIdle := by
  obtain ⟨seen, ht, hrest⟩ := h
  rw [ht.isIdle_eq, hrest]
  rfl

theorem found_of_messages_nil {config : Config} {bs : Bytes} (h : messages config bs = []) :
    Framing.found (max config.ringBufferSize Ring.minCapacity) bs = 0 := by
  have hle := Framing.found_le_length .server (max config.ringBufferSize Ring.minCapacity) bs
  rw [messages, Conversation.events] at h
  rw [h] at hle
  exact Nat.le_zero.1 hle

theorem rejected_of_found {config : Config} {bs : Bytes} (h : messages config bs ≠ [])
    (hfound : Framing.found (max config.ringBufferSize Ring.minCapacity) bs = 0) :
    (messages config bs).countP Event.isRejection ≠ 0 := by
  obtain ⟨event, hevent⟩ := List.exists_mem_of_ne_nil _ h
  have hoverflow := Framing.eq_overflow_of_found hfound hevent
  intro hnone
  have hno := List.countP_eq_zero.1 hnone event hevent
  rw [hoverflow] at hno
  exact hno rfl

/-- What a service becomes when it has answered a packet. -/
def answering (s : PacketService) (ring : Ring) (calculator : Calculator) (mailbox : Mailbox) :
    PacketService :=
  { s with ring := if ring.isIdle then ring else ring.reset, calculator, mailbox }

theorem answering_rested {ring : Ring} {seen : Bytes}
    (h : ring.Tracks .server (max s.config.ringBufferSize Ring.minCapacity) seen)
    (calculator : Calculator) (mailbox : Mailbox) : (s.answering ring calculator mailbox).Rested :=
  h.settle

/-- How the sending of the answers ends the handling of a packet. -/
def outcomeOf : Option IoError → Except Failure Unit
  | none => .ok ()
  | some e => .error (.io e)

theorem handlePacket_none {ring : Ring} {calculator : Calculator} {session : Session Mailbox}
    {peer : String} {bs : Bytes}
    (hfeed : Conversation.feed Calculator.div (Mailbox.send peer)
      ⟨s.ring, .start s.mailbox, s.calculator⟩ bs = (⟨ring, session, calculator⟩, .ok 0))
    (hrejected : session.rejected = 0) :
    s.handlePacket peer bs =
      (s.answering ring calculator (Mailbox.send peer noMessage.bytes session.outlet).1,
        outcomeOf (Mailbox.send peer noMessage.bytes session.outlet).2) := by
  simp only [handlePacket, hfeed, hrejected, and_self, if_true, Session.reply_eq]
  cases (Mailbox.send peer noMessage.bytes session.outlet).2 with
  | none => rfl
  | some e => rfl

theorem handlePacket_some {ring : Ring} {calculator : Calculator} {session : Session Mailbox}
    {peer : String} {bs : Bytes} {found : Nat} {failure : Option IoError}
    (hfeed : Conversation.feed Calculator.div (Mailbox.send peer)
      ⟨s.ring, .start s.mailbox, s.calculator⟩ bs = (⟨ring, session, calculator⟩,
        match failure with
        | none => .ok found
        | some e => .error (.io e)))
    (hmessage : failure = none → ¬ (found = 0 ∧ session.rejected = 0)) :
    s.handlePacket peer bs =
      (s.answering ring calculator session.outlet, outcomeOf failure) := by
  cases failure with
  | none =>
    simp only [handlePacket, hfeed, if_neg (hmessage rfl)]
    rfl
  | some e =>
    simp only [handlePacket, hfeed]
    rfl

/-- What a service that is at rest makes of a packet: it sends the frames that are due in turn, has
worked out the messages up to the last of them, and is at rest again. -/
theorem Rested.handlePacket (h : s.Rested) (peer : String) (bs : Bytes) :
    let sent := sendAll (Mailbox.send peer) s.mailbox (due s.config s.calculator bs)
    ∃ after : PacketService, s.handlePacket peer bs = (after, outcomeOf sent.failure) ∧
      after.Rested ∧ after.config = s.config ∧ after.mailbox = sent.outlet ∧
      after.calculator =
        Session.after Calculator.div s.calculator ((messages s.config bs).take sent.count) := by
  intro sent
  obtain ⟨seen, ht, hrest⟩ := h
  obtain ⟨ring, seen', ht', hfeed⟩ := @Conversation.feed_of_rest_nil Mailbox Calculator.div
    (Mailbox.send peer) ⟨s.ring, .start s.mailbox, s.calculator⟩ _ _ ht hrest bs
  have hmessages : Conversation.events s.config.ringBufferSize bs = messages s.config bs := rfl
  simp only [Session.start, Nat.zero_add, hmessages] at hfeed
  by_cases hnone : messages s.config bs = []
  · have hsent : sent = ⟨(Mailbox.send peer noMessage.bytes s.mailbox).1, 1,
        (Mailbox.send peer noMessage.bytes s.mailbox).2⟩ := by
      simp only [sent, due, if_pos hnone, sendAll_singleton]
    simp only [hnone, Session.frames, Session.replies, List.map_nil, sendAll, List.take_nil,
      found_of_messages_nil hnone, List.countP_nil, Session.after] at hfeed
    refine ⟨_, ?_, answering_rested ht' s.calculator sent.outlet, rfl, rfl, ?_⟩
    · rw [hsent]
      exact handlePacket_none hfeed rfl
    · rw [hnone, List.take_nil]
      rfl
  · have hsent : sendAll (Mailbox.send peer) s.mailbox
        (Session.frames Calculator.div s.calculator (messages s.config bs)) = sent := by
      simp only [sent, due, if_neg hnone]
    rw [hsent] at hfeed
    refine ⟨_, handlePacket_some hfeed ?_, answering_rested ht' _ sent.outlet, rfl, rfl, rfl⟩
    rintro hfailure ⟨hfound, hrejected⟩
    have hcount : sent.count = (messages s.config bs).length := by
      rw [← hsent] at hfailure ⊢
      rw [sendAll_count hfailure]
      exact Session.length_frames (Conversation.inbound_events _ bs) _
    rw [hcount, List.take_length] at hrejected
    exact rejected_of_found hnone hfound hrejected

theorem handleAll_rested (h : s.Rested) (history : List (String × Bytes)) :
    (s.handleAll history).Rested ∧ (s.handleAll history).config = s.config := by
  induction history generalizing s with
  | nil => exact ⟨h, rfl⟩
  | cons packet history ih =>
    obtain ⟨after, heq, hrested, hconfig, -, -⟩ := h.handlePacket packet.1 packet.2
    have hstep : s.handleAll (packet :: history) = after.handleAll history := by
      rw [handleAll, List.foldl_cons, heq]
      rfl
    rw [hstep, ← hconfig]
    exact ih hrested

theorem length_due (config : Config) (calculator : Calculator) (bs : Bytes) :
    (due config calculator bs).length = max 1 (bs.closed.countP (· ≠ []) +
      if max config.ringBufferSize Ring.minCapacity ≤ bs.rest.length then 1 else 0) := by
  have hlength : (messages config bs).length = bs.closed.countP (· ≠ []) +
      if max config.ringBufferSize Ring.minCapacity ≤ bs.rest.length then 1 else 0 :=
    Framing.length_events .server _ bs
  rw [← hlength, due]
  split
  · rename_i hnone
    rw [hnone]
    rfl
  · rename_i hsome
    have hframes : (Session.frames Calculator.div calculator (messages config bs)).length =
        (messages config bs).length :=
      Session.length_frames (Conversation.inbound_events _ bs) calculator
    rw [hframes]
    exact (Nat.max_eq_right (List.length_pos_iff.2 hsome)).symm

/-- What one packet comes to. -/
structure Answered (before : PacketService) (peer : String) (bs : Bytes) (after : PacketService)
    (outcome : Except Failure Unit) : Prop where
  idle_before : before.ring.isIdle
  idle_after : after.ring.isIdle
  due_none : messages before.config bs = [] →
    due before.config before.calculator bs = [Utf8.ofString "-1#1#0$"]
  /-- The frames are those of a session whose outlet takes everything. -/
  due_some : messages before.config bs ≠ [] → ∃ conversation n,
    (Conversation.start before.config.ringBufferSize [] before.calculator).feed Calculator.div
        accept bs = (conversation, .ok n) ∧
      conversation.session.outlet = due before.config before.calculator bs
  length_due : (due before.config before.calculator bs).length =
    max 1 (bs.closed.countP (· ≠ []) +
      if max before.config.ringBufferSize Ring.minCapacity ≤ bs.rest.length then 1 else 0)
  /-- The frames are offered in turn, to the sender of the packet, until one fails. -/
  mailbox_eq : after.mailbox = (sendAll (Mailbox.send peer) before.mailbox
    (due before.config before.calculator bs)).outlet
  /-- A service that has seen no packet, has the same memory and knows only the outcomes of this
  packet's sends does the same. -/
  alone :
    let own := before.mailbox.script.take (due before.config before.calculator bs).length
    let answer := { start before.config own with calculator := before.calculator }.handlePacket
      peer bs
    outcome = answer.2 ∧ after.calculator = answer.1.calculator ∧
      after.mailbox.sent = before.mailbox.sent ++ answer.1.mailbox.sent
  whole : SendStep.SendsAll before.mailbox.script (due before.config before.calculator bs) →
    outcome = .ok () ∧
    after.mailbox.sent =
      before.mailbox.sent ++ (due before.config before.calculator bs).map (peer, ·) ∧
    after.calculator =
      Session.after Calculator.div before.calculator (messages before.config bs)
  /-- A send that fails, the one at `j`, is the last, and so is the message that it answers. -/
  cut : ∀ (j : Nat) (step : SendStep) (frame : Bytes) (e : IoError),
    SendStep.SendsAll before.mailbox.script
      ((due before.config before.calculator bs).take j) →
    before.mailbox.script[j]? = some step →
    (due before.config before.calculator bs)[j]? = some frame →
    step.failure? frame = some e →
    outcome = .error (.io e) ∧
    after.mailbox = ⟨before.mailbox.script.drop (j + 1), before.mailbox.sent ++
      ((due before.config before.calculator bs).take j).map (peer, ·) ++
        step.packets peer frame⟩ ∧
    after.calculator = Session.after Calculator.div before.calculator
      ((messages before.config bs).take (j + 1))

theorem due_of_messages_nil {config : Config} {bs : Bytes} (h : messages config bs = [])
    (calculator : Calculator) : due config calculator bs = [Utf8.ofString "-1#1#0$"] := by
  have hbytes : noMessage.bytes = Utf8.ofString "-1#1#0$" := by decide +kernel
  rw [due, if_pos h, hbytes]

theorem Rested.answered (h : s.Rested) (peer : String) (bs : Bytes) :
    Answered s peer bs (s.handlePacket peer bs).1 (s.handlePacket peer bs).2 := by
  obtain ⟨after, heq, hrested, -, hmailbox, hcalculator⟩ := h.handlePacket peer bs
  rw [heq]
  constructor
  case idle_before => exact h.isIdle
  case idle_after => exact hrested.isIdle
  case due_none => exact fun hnone => due_of_messages_nil hnone s.calculator
  case due_some =>
    intro hsome
    obtain ⟨ring, hfeed⟩ := Conversation.feed_accept Calculator.div s.config.ringBufferSize
      s.calculator bs
    exact ⟨_, _, hfeed, by rw [due, if_neg hsome, messages]⟩
  case length_due => exact length_due s.config s.calculator bs
  case mailbox_eq => exact hmailbox
  case alone =>
    intro own answer
    have hfresh : ({ start s.config own with calculator := s.calculator }).Rested :=
      rested_start s.config own
    obtain ⟨after', heq', -, -, hmailbox', hcalculator'⟩ := hfresh.handlePacket peer bs
    have hanswer : answer = _ := heq'
    have hsent := sendAll_mailbox peer s.mailbox.script s.mailbox.sent
      (due s.config s.calculator bs)
    rw [hanswer, hcalculator, hmailbox, hcalculator', hmailbox']
    simp only at hsent ⊢
    rw [hsent]
    exact ⟨rfl, rfl, rfl⟩
  case whole =>
    intro hwhole
    have hsent := sendAll_whole peer hwhole s.mailbox.sent
    have hlength : (messages s.config bs).length ≤ (due s.config s.calculator bs).length := by
      rw [length_due, messages, Conversation.events, Framing.length_events]
      exact Nat.le_max_right _ _
    rw [hcalculator, hmailbox, hsent, List.take_of_length_le hlength]
    exact ⟨rfl, rfl, rfl⟩
  case cut =>
    intro j step frame e hbefore hstep hframe hfail
    have hsent := sendAll_fails peer hbefore hstep hframe hfail s.mailbox.sent
    rw [hcalculator, hmailbox, hsent]
    exact ⟨rfl, rfl, rfl⟩

/-- Every packet stands alone and is answered, whatever came before it and whatever became of the
answers to that. -/
theorem handlePacket_answered (config : Config) (sends : List SendStep)
    (history : List (String × Bytes)) (peer : String) (bs : Bytes) :
    let before := (start config sends).handleAll history
    Answered before peer bs (before.handlePacket peer bs).1 (before.handlePacket peer bs).2 ∧
      before.config = config := by
  intro before
  obtain ⟨hrested, hconfig⟩ := handleAll_rested (rested_start config sends) history
  exact ⟨hrested.answered peer bs, hconfig⟩

end PacketService

end RemoteCalc
