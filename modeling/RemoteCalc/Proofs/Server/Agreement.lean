import RemoteCalc.Proofs.Server.Connection
import RemoteCalc.Proofs.Server.PacketService

/-!
A stream of messages and the same messages as packets are answered alike. Each message is one event
to either server: what is too long for the ring overflows it, whether the rest of it is skipped up
to its end mark or never got into the receive buffer.
-/

namespace RemoteCalc

/-- A message as its sender means it: something, with no end mark in it. -/
structure Bytes.IsMessage (m : Bytes) : Prop where
  nonempty : m ≠ []
  unmarked : endMark ∉ m

/-- Messages one after another, each with its end mark. -/
def Bytes.marked (ms : List Bytes) : Bytes := (ms.map (· ++ [endMark])).flatten

namespace Framing

variable {role : Role} {capacity size : Nat} {m : Bytes}

/-- The one event of a message. -/
def messageEvent (role : Role) (capacity : Nat) (m : Bytes) : Event :=
  if capacity ≤ m.length then overflow else role.read m

theorem events_message (h : m.IsMessage) (bs : Bytes) :
    events role capacity (m ++ endMark :: bs) =
      messageEvent role capacity m :: events role capacity bs := by
  have hevent : closedEvent? role capacity m = some (messageEvent role capacity m) := by
    rw [closedEvent?, if_neg h.nonempty, messageEvent]
    split
    · rfl
    · rfl
  rw [events_segment h.unmarked, hevent, Option.toList_some, List.singleton_append]

theorem events_marked (hc : 0 < capacity) {ms : List Bytes} (h : ∀ m ∈ ms, m.IsMessage) :
    events role capacity (Bytes.marked ms) = ms.map (messageEvent role capacity) := by
  induction ms with
  | nil => exact events_nil hc
  | cons m ms ih =>
    have hrest := ih fun n hn => h n (List.mem_cons_of_mem m hn)
    rw [Bytes.marked] at hrest ⊢
    rw [List.map_cons, List.flatten_cons, List.append_assoc, List.singleton_append,
      events_message (h m (List.mem_cons_self ..)), hrest, List.map_cons]

/-- A message that nothing ends, and that fills the ring, has overflowed it. -/
theorem events_unended (h : endMark ∉ m) (hlong : capacity ≤ m.length) :
    events role capacity m = [overflow] := by
  have hclosed : m.closed = [] := by
    rw [Bytes.closed, cut_of_not_mem h]
    rfl
  have hrest : m.rest = m := by
    rw [Bytes.rest, cut_of_not_mem h]
    rfl
  rw [events, hclosed, hrest, openEvent?, if_pos hlong]
  rfl

/-- To a ring that holds no more than the receive buffer, what the buffer cuts off makes no
difference. -/
theorem events_take (hc : 0 < capacity) (h : m.IsMessage) (hsize : capacity ≤ size) :
    events role capacity ((m ++ [endMark]).take size) = [messageEvent role capacity m] := by
  by_cases hfits : (m ++ [endMark]).length ≤ size
  · rw [List.take_of_length_le hfits, events_message h, events_nil hc]
  · rw [List.length_append, List.length_singleton] at hfits
    have hle : size ≤ m.length := by omega
    have hlength : (m.take size).length = size := List.length_take_of_le hle
    have hunmarked : endMark ∉ m.take size := fun hmem => h.unmarked (List.mem_of_mem_take hmem)
    rw [List.take_append_of_le_length hle, events_unended hunmarked (by rw [hlength]; exact hsize),
      messageEvent, if_pos (Nat.le_trans hsize hle)]

end Framing

namespace Session

theorem frames_singleton (divide : Divider) (c : Calculator) {event : Event} (h : event.Inbound) :
    ∃ f, frames divide c [event] = [f] := by
  cases event with
  | request r => exact ⟨_, rfl⟩
  | rejection r => exact ⟨_, rfl⟩
  | response r => exact h.elim

end Session

theorem SendStep.sendsAll_cons {script : List SendStep} {f : Bytes} {frames : List Bytes}
    (h : SendsAll script (f :: frames)) :
    SendsAll script [f] ∧ SendsAll (script.drop 1) frames := by
  constructor
  · intro i step frame hstep hframe
    cases i with
    | zero => exact h 0 step frame hstep hframe
    | succ i => cases hframe
  · intro i step frame hstep hframe
    rw [List.getElem?_drop, Nat.add_comm] at hstep
    exact h (i + 1) step frame hstep hframe

namespace Conversation

/-- The one event of a message to a server whose ring has this capacity. -/
def messageEvent (capacity : Nat) (m : Bytes) : Event :=
  Framing.messageEvent .server (max capacity Ring.minCapacity) m

theorem events_marked (capacity : Nat) {ms : List Bytes} (h : ∀ m ∈ ms, m.IsMessage) :
    events capacity (Bytes.marked ms) = ms.map (messageEvent capacity) :=
  Framing.events_marked (Ring.max_minCapacity_pos capacity) h

theorem inbound_messageEvent (capacity : Nat) (m : Bytes) : (messageEvent capacity m).Inbound := by
  rw [messageEvent, Framing.messageEvent]
  split
  · trivial
  · exact inbound_read m

end Conversation

namespace PacketService

open Conversation

variable {config : Config} {s : PacketService} {m : Bytes} {peer : String}

/-- The packets that carry messages, each from a peer of its own. -/
def receipts (ms : List (String × Bytes)) : List Receipt :=
  ms.map fun m => .packet m.1 (m.2 ++ [endMark])

theorem messages_kept (hring : Ring.minCapacity ≤ config.ringBufferSize)
    (hbuffer : config.ringBufferSize ≤ config.datagramBufferSize) (h : m.IsMessage) :
    messages config (kept config (m ++ [endMark])) = [messageEvent config.ringBufferSize m] := by
  apply Framing.events_take (Ring.max_minCapacity_pos config.ringBufferSize) h
  rw [Nat.max_eq_left hring]
  exact Nat.le_trans hbuffer (Nat.le_max_left _ _)

theorem Rested.handlePacket_message (hs : s.Rested) {event : Event} {f bs : Bytes}
    (hevents : messages s.config bs = [event])
    (hframe : Session.frames Calculator.div s.calculator [event] = [f])
    (hsend : SendStep.SendsAll s.mailbox.script [f]) :
    ∃ after : PacketService, s.handlePacket peer bs = (after, .ok ()) ∧ after.Rested ∧
      after.config = s.config ∧
      after.mailbox = ⟨s.mailbox.script.drop 1, s.mailbox.sent ++ [(peer, f)]⟩ ∧
      after.calculator = Session.after Calculator.div s.calculator [event] := by
  obtain ⟨after, hhandled, hrested, hconfig, hmailbox, hcalculator⟩ := hs.handlePacket peer bs
  have hdue : due s.config s.calculator bs = [f] := by
    rw [due, hevents, if_neg (List.cons_ne_nil _ _), hframe]
  have hsent : sendAll (Mailbox.send peer) s.mailbox [f] =
      ⟨⟨s.mailbox.script.drop 1, s.mailbox.sent ++ [(peer, f)]⟩, 1, none⟩ :=
    sendAll_whole peer hsend s.mailbox.sent
  rw [hdue, hsent] at hhandled hmailbox hcalculator
  rw [hevents] at hcalculator
  exact ⟨after, hhandled, hrested, hconfig, hmailbox, hcalculator⟩

/-- Messages that came as packets are answered by a frame each, which goes to the message's peer. -/
theorem Rested.serve_messages (hs : s.Rested) (hconfig : s.config = config)
    (hring : Ring.minCapacity ≤ config.ringBufferSize)
    (hbuffer : config.ringBufferSize ≤ config.datagramBufferSize) {ms : List (String × Bytes)}
    (hms : ∀ m ∈ ms, m.2.IsMessage)
    (hsends : SendStep.SendsAll s.mailbox.script (Session.frames Calculator.div s.calculator
      (ms.map fun m => messageEvent config.ringBufferSize m.2))) :
    let events := ms.map fun m => messageEvent config.ringBufferSize m.2
    ∃ after, s.serve (receipts ms) = (after, .ok ()) ∧
      after.mailbox.sent = s.mailbox.sent ++
        (ms.map Prod.fst).zip (Session.frames Calculator.div s.calculator events) ∧
      after.calculator = Session.after Calculator.div s.calculator events := by
  induction ms generalizing s with
  | nil => exact ⟨s, rfl, (List.append_nil _).symm, rfl⟩
  | cons m ms ih =>
    intro events
    obtain ⟨f, hframe⟩ := Session.frames_singleton Calculator.div s.calculator
      (inbound_messageEvent config.ringBufferSize m.2)
    rw [List.map_cons, Session.frames_cons, hframe, List.singleton_append] at hsends
    obtain ⟨hfirst, hrest⟩ := SendStep.sendsAll_cons hsends
    have hkept := messages_kept hring hbuffer (hms m (List.mem_cons_self ..))
    rw [← hconfig] at hkept hframe
    have hcounted : ({ s with received := s.received + 1 } : PacketService).Rested := hs
    obtain ⟨next, hhandled, hrested, hsame, hmailbox, hcalculator⟩ : ∃ next,
        ({ s with received := s.received + 1 } : PacketService).handlePacket m.1
          (kept s.config (m.2 ++ [endMark])) = (next, .ok ()) ∧ next.Rested ∧
        next.config = s.config ∧
        next.mailbox = ⟨s.mailbox.script.drop 1, s.mailbox.sent ++ [(m.1, f)]⟩ ∧
        next.calculator = Session.after Calculator.div s.calculator
          [messageEvent s.config.ringBufferSize m.2] :=
      hcounted.handlePacket_message hkept hframe hfirst
    rw [hconfig] at hframe hcalculator
    have hsends' : SendStep.SendsAll next.mailbox.script (Session.frames Calculator.div
        next.calculator (ms.map fun m => messageEvent config.ringBufferSize m.2)) := by
      rw [hmailbox, hcalculator]
      exact hrest
    -- the rest is served on the memory that this message leaves
    obtain ⟨after, hserve, hsent, hafter⟩ := ih hrested (hsame.trans hconfig)
      (fun n hn => hms n (List.mem_cons_of_mem m hn)) hsends'
    rw [hmailbox, hcalculator] at hsent
    rw [hcalculator] at hafter
    have hevents : events = messageEvent config.ringBufferSize m.2 ::
      ms.map fun m => messageEvent config.ringBufferSize m.2 := rfl
    refine ⟨after, ?_, ?_, ?_⟩
    · rw [receipts] at hserve
      rw [receipts, List.map_cons, serve, hhandled]
      exact hserve
    · rw [hsent, hevents, Session.frames_cons, hframe, List.map_cons, List.singleton_append,
        List.zip_cons_cons, List.append_assoc, List.singleton_append]
    · rw [hafter, hevents]
      exact (Session.after_cons ..).symm

theorem run_messages (hring : Ring.minCapacity ≤ config.ringBufferSize)
    (hbuffer : config.ringBufferSize ≤ config.datagramBufferSize) {ms : List (String × Bytes)}
    (hms : ∀ m ∈ ms, m.2.IsMessage) {sends : List SendStep}
    (hsends : SendStep.SendsAll sends (Session.frames Calculator.div .fresh
      (ms.map fun m => messageEvent config.ringBufferSize m.2))) :
    let events := ms.map fun m => messageEvent config.ringBufferSize m.2
    ∃ after, run config none false sends (receipts ms) = (after, .ok ()) ∧
      after.mailbox.sent = (ms.map Prod.fst).zip (Session.frames Calculator.div .fresh events) ∧
      after.calculator = Session.after Calculator.div .fresh events :=
  (rested_start config sends).serve_messages rfl hring hbuffer hms hsends

end PacketService

theorem ReadStep.reading_chunks {chunks : List Bytes} (h : [] ∉ chunks) :
    reading (chunks.map .chunk) = (chunks.flatten, .closed) := by
  induction chunks with
  | nil => rfl
  | cons bs chunks ih =>
    rw [List.mem_cons, not_or] at h
    rw [List.map_cons, reading, if_neg (Ne.symm h.1), ih h.2, List.flatten_cons]

/-- Packets and a stream of the same messages get the same answers and leave the same memory,
whatever their messages are and in whatever chunks the stream brings them. -/
theorem packets_answered_as_stream (config : Config) (hring : 2 ≤ config.ringBufferSize)
    (hbuffer : config.ringBufferSize ≤ config.datagramBufferSize) (ms : List (String × Bytes))
    (hms : ∀ m ∈ ms, m.2 ≠ [] ∧ endMark ∉ m.2) :
    ∃ (frames : List Bytes) (memory : Float), frames.length = ms.length ∧
      (∀ sends, SendStep.SendsAll sends frames → ∃ service,
        PacketService.run config none false sends
          (ms.map fun m => .packet m.1 (m.2 ++ [endMark])) = (service, .ok ()) ∧
        service.mailbox.sent = (ms.map Prod.fst).zip frames ∧
        service.calculator.memory = memory) ∧
      ∀ (chunks : List Bytes) (s s' : Stream), s.timeoutFailure = none → s.clone = .ok s' →
        s.reads = chunks.map .chunk → [] ∉ chunks →
        chunks.flatten = (ms.map fun m => m.2 ++ [endMark]).flatten →
        (∀ step ∈ s.writes, step.isHealthy) →
        ∃ c, Connection.run config .fresh s = .ok (c, .closed) ∧
          c.conversation.session.outlet.written = frames.flatten ∧
          c.conversation.calculator.memory = memory := by
  have hmessages : ∀ m ∈ ms, m.2.IsMessage := fun m hm => ⟨(hms m hm).1, (hms m hm).2⟩
  obtain ⟨events, hevents⟩ : ∃ events, events =
    ms.map fun m => Conversation.messageEvent config.ringBufferSize m.2 := ⟨_, rfl⟩
  have hinbound : ∀ event ∈ events, event.Inbound := by
    intro event hevent
    rw [hevents] at hevent
    obtain ⟨m, -, rfl⟩ := List.mem_map.1 hevent
    exact Conversation.inbound_messageEvent config.ringBufferSize m.2
  refine ⟨Session.frames Calculator.div .fresh events,
    (Session.after Calculator.div .fresh events).memory, ?length, ?packets, ?stream⟩
  case length =>
    rw [Session.length_frames hinbound, hevents, List.length_map]
  case packets =>
    intro sends hsends
    rw [hevents] at hsends ⊢
    obtain ⟨service, hrun, hsent, hmemory⟩ :=
      PacketService.run_messages hring hbuffer hmessages hsends
    exact ⟨service, hrun, hsent, congrArg Calculator.memory hmemory⟩
  case stream =>
    intro chunks s s' hlimit hclone hreads hchunks hflatten hwrites
    obtain ⟨c, hrun, hwritten, hcalculator⟩ :=
      Connection.run_whole config .fresh hlimit hclone hwrites
    have hmarked : chunks.flatten = Bytes.marked (ms.map Prod.snd) := by
      rw [hflatten, Bytes.marked, List.map_map]
      rfl
    have hstream : Conversation.events config.ringBufferSize (Bytes.marked (ms.map Prod.snd)) =
        events := by
      rw [Conversation.events_marked, List.map_map, hevents]
      · rfl
      · intro bs hbs
        obtain ⟨m, hm, rfl⟩ := List.mem_map.1 hbs
        exact hmessages m hm
    rw [hreads, ReadStep.reading_chunks hchunks] at hrun hwritten hcalculator
    rw [hmarked, hstream] at hwritten hcalculator
    exact ⟨c, hrun, hwritten, congrArg Calculator.memory hcalculator⟩

/-- A sum, a message without fields, and one that neither the ring nor the buffer can hold. -/
theorem packets_answered_as_stream_truncated :
    let config : Config := { ringBufferSize := 16, datagramBufferSize := 16 }
    let ms : List (String × Bytes) :=
      [("a", Utf8.ofString "1#ADDM#2#3"), ("b", Utf8.ofString "x"), ("a", List.replicate 20 0x30)]
    2 ≤ config.ringBufferSize ∧ config.ringBufferSize ≤ config.datagramBufferSize ∧
    (∀ m ∈ ms, m.2 ≠ [] ∧ endMark ∉ m.2) ∧
    ∃ (frames : List Bytes) (memory : Float), frames.length = 3 ∧
      (∃ service, PacketService.run config none false []
          (ms.map fun m => .packet m.1 (m.2 ++ [endMark])) = (service, .ok ()) ∧
        service.mailbox.sent = ["a", "b", "a"].zip frames ∧
        service.calculator.memory = memory) ∧
      ∃ c, Connection.run config .fresh
          { reads := [.chunk (ms.map fun m => m.2 ++ [endMark]).flatten] } = .ok (c, .closed) ∧
        c.conversation.session.outlet.written = frames.flatten ∧
        c.conversation.calculator.memory = memory := by
  intro config ms
  have hms : ∀ m ∈ ms, m.2 ≠ [] ∧ endMark ∉ m.2 := by decide +kernel
  obtain ⟨frames, memory, hlength, hpackets, hstream⟩ :=
    packets_answered_as_stream config (by decide) (by decide) ms hms
  have hsends : SendStep.SendsAll [] frames := by
    intro i step frame hstep
    cases hstep
  have hwhole : [] ∉ [(ms.map fun m => m.2 ++ [endMark]).flatten] := by decide +kernel
  have hwrites : ∀ step ∈ ({} : Stream).writes, step.isHealthy := by
    intro step hstep
    cases hstep
  exact ⟨by decide, by decide, hms, frames, memory, hlength, hpackets [] hsends,
    hstream _ _ _ rfl rfl rfl hwhole (List.flatten_singleton) hwrites⟩

end RemoteCalc
