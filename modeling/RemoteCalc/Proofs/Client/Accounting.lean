import RemoteCalc.Proofs.Client.Steps
import RemoteCalc.Proofs.Server.Connection
import RemoteCalc.Proofs.Server.PacketService

/-!
The replies that a client takes to be due, and those that a server sends. The client counts end
marks; the server answers messages, and an end mark with nothing before it ends none.
-/

namespace RemoteCalc

namespace Bytes

/-- The number of end marks that have nothing before them. -/
def stray (bs : Bytes) : Nat := bs.closed.count []

variable {bs : Bytes}

theorem stray_eq_zero : bs.stray = 0 ↔ [] ∉ bs.closed := List.count_eq_zero

theorem count_endMark_eq_add_stray (bs : Bytes) :
    bs.count endMark = bs.closed.countP (· ≠ []) + bs.stray := by
  rw [count_endMark, List.length_eq_countP_add_countP (· ≠ []), stray, List.count]
  congr 1
  apply List.countP_congr
  intro seg _
  simp

theorem countP_eq_count : bs.closed.countP (· ≠ []) = bs.count endMark ↔ [] ∉ bs.closed := by
  rw [count_endMark_eq_add_stray, ← stray_eq_zero]
  omega

theorem count_endMark_eq_one (h : bs.getLast? = some endMark)
    (hnone : bs.closed.countP (· ≠ []) = 0) : bs.count endMark = 1 ↔ bs = [endMark] := by
  rw [count_endMark, ← closed_eq_singleton_nil h, List.length_eq_one_iff]
  constructor
  · rintro ⟨seg, hseg⟩
    rw [hseg] at hnone ⊢
    have hempty : seg = [] := by
      simpa using List.countP_eq_zero.1 hnone seg (List.mem_singleton_self seg)
    rw [hempty]
  · intro hclosed
    exact ⟨[], hclosed⟩

theorem max_countP_eq_max_count (h : bs.getLast? = some endMark) :
    max 1 (bs.closed.countP (· ≠ [])) = max (bs.count endMark) 1 ↔
      [] ∉ bs.closed ∨ bs = [endMark] := by
  have hsplit := count_endMark_eq_add_stray bs
  have hpos : 0 < bs.count endMark := by
    rw [List.count_pos_iff]
    exact List.mem_of_getLast? h
  rw [← stray_eq_zero]
  by_cases hnone : bs.closed.countP (· ≠ []) = 0
  · rw [← count_endMark_eq_one h hnone]
    omega
  · have hne : bs ≠ [endMark] := by
      rintro rfl
      exact hnone rfl
    simp only [hne, or_false]
    omega

end Bytes

theorem Conversation.length_events {bs : Bytes} (h : bs.getLast? = some endMark) (capacity : Nat) :
    (events capacity bs).length = bs.closed.countP (· ≠ []) := by
  rw [events, Framing.length_events, Bytes.rest_of_ended h, List.length_nil,
    if_neg (Nat.not_le_of_gt (Ring.max_minCapacity_pos capacity))]
  rfl

theorem PacketService.length_due_ended {bs : Bytes} (h : bs.getLast? = some endMark)
    (config : Config) (calculator : Calculator) :
    (due config calculator bs).length = max 1 (bs.closed.countP (· ≠ [])) := by
  rw [length_due, Bytes.rest_of_ended h, List.length_nil,
    if_neg (Nat.not_le_of_gt (Ring.max_minCapacity_pos config.ringBufferSize)), Nat.add_zero]

theorem Client.outstanding_start (config : ClientConfig) (bs : Bytes) :
    ((start config).sendRaw bs).1.outstanding = repliesDue config.transport bs := by
  rw [sendRaw_sent (sendFailure?_unhindered rfl bs)]
  exact Nat.zero_add _

/-- A connection whose writes all succeed writes the frames of the replies to all it reads. -/
theorem Connection.run_healthy (config : Config) (calculator : Calculator) {s s' : Stream}
    (hlimit : s.timeoutFailure = none) (hclone : s.clone = .ok s')
    (hwrites : ∀ step ∈ s.writes, step.isHealthy) :
    ∃ c ending, run config calculator s = .ok (c, ending) ∧
      c.conversation.session.outlet.written = (Session.frames Calculator.div calculator
        (Conversation.events config.ringBufferSize (ReadStep.reading s.reads).1)).flatten := by
  obtain ⟨c, hrun, hwritten, -⟩ := run_whole config calculator hlimit hclone hwrites
  exact ⟨c, _, hrun, hwritten⟩

theorem Session.decode_frames {divide : Divider} {c : Calculator} {events : List Event} {f : Bytes}
    (h : f ∈ frames divide c events) : ∃ r, Response.decode f = .ok r := by
  obtain ⟨r, -, rfl⟩ := List.mem_map.1 h
  exact ⟨r.delivered, r.decode_bytes⟩

namespace Client

/-- Of bytes that end with an end mark, a client counts as many replies as the server sends exactly
where no end mark has nothing before it. A packet of one end mark gets the one that it counts. -/
theorem outstanding_eq_replies_iff (client : ClientConfig) (config : Config) {bs : Bytes}
    (h : bs.getLast? = some endMark) :
    let due := ((start client).sendRaw bs).1.outstanding
    (client.transport.isStream = true →
      ∀ (calculator : Calculator) (s s' : Stream), s.timeoutFailure = none → s.clone = .ok s' →
      (∀ step ∈ s.writes, step.isHealthy) → (ReadStep.reading s.reads).1 = bs →
      ∃ (c : Connection) (ending : Ending) (frames : List Bytes),
        Connection.run config calculator s = .ok (c, ending) ∧
        c.conversation.session.outlet.written = frames.flatten ∧
        (∀ f ∈ frames, ∃ r, Response.decode f = .ok r) ∧
        (due = frames.length ↔ [] ∉ bs.closed)) ∧
    (client.transport.isStream = false →
      ∀ (sends : List SendStep) (history : List (String × Bytes)) (peer : String),
      let before := (PacketService.start config sends).handleAll history
      SendStep.SendsAll before.mailbox.script
        (PacketService.due config before.calculator bs) →
      ∃ (after : PacketService) (frames : List Bytes),
        before.handlePacket peer bs = (after, .ok ()) ∧
        after.mailbox.sent = before.mailbox.sent ++ frames.map (peer, ·) ∧
        (due = frames.length ↔ [] ∉ bs.closed ∨ bs = [endMark])) := by
  intro due
  have hdue : due = repliesDue client.transport bs := outstanding_start client bs
  constructor
  · intro hstream calculator s s' hlimit hclone hwrites hread
    obtain ⟨c, ending, hrun, hwritten⟩ := @Connection.run_healthy config calculator s s'
      hlimit hclone hwrites
    rw [hread] at hwritten
    refine ⟨c, ending, _, hrun, hwritten, fun f hf => Session.decode_frames hf, ?_⟩
    rw [Session.length_frames (Conversation.inbound_events _ bs), Conversation.length_events h,
      hdue, repliesDue, if_pos hstream, eq_comm]
    exact Bytes.countP_eq_count
  · intro hpacket sends history peer before hsends
    obtain ⟨hrested, hconfig⟩ : before.Rested ∧ before.config = config :=
      PacketService.handleAll_rested (PacketService.rested_start config sends) history
    have hanswered := hrested.answered peer bs
    rw [← hconfig] at hsends
    obtain ⟨houtcome, hsent, -⟩ := hanswered.whole hsends
    refine ⟨_, _, Prod.ext rfl houtcome, hsent, ?_⟩
    rw [hdue, repliesDue, if_neg (Bool.eq_false_iff.1 hpacket), PacketService.length_due_ended h,
      eq_comm]
    exact Bytes.max_countP_eq_max_count h

/-- One request, over a stream and as a packet. -/
theorem outstanding_eq_replies_sum :
    let bs := Utf8.ofString "1#ADD#1#2$"
    bs.getLast? = some endMark ∧
    (∃ (c : Connection) (ending : Ending) (frames : List Bytes),
      Connection.run {} .fresh { reads := [.chunk bs] } = .ok (c, ending) ∧
      c.conversation.session.outlet.written = frames.flatten ∧
      (∀ f ∈ frames, ∃ r, Response.decode f = .ok r) ∧
      (((start {}).sendRaw bs).1.outstanding = frames.length ↔ [] ∉ bs.closed)) ∧
    ∃ (after : PacketService) (frames : List Bytes),
      (PacketService.start {} []).handlePacket "client" bs = (after, .ok ()) ∧
      after.mailbox.sent = frames.map ("client", ·) ∧
      (((start { transport := .udp }).sendRaw bs).1.outstanding = frames.length ↔
        [] ∉ bs.closed ∨ bs = [endMark]) := by
  refine ⟨by decide +kernel, ?stream, ?packet⟩
  case stream =>
    exact (outstanding_eq_replies_iff {} {} (by decide +kernel)).1 rfl .fresh
      { reads := [.chunk _] } _ rfl rfl (by simp) (by decide +kernel)
  case packet =>
    exact (outstanding_eq_replies_iff { transport := .udp } {} (by decide +kernel)).2 rfl [] []
      "client" (by intro i step frame hstep; cases hstep)

/-- Two end marks are two replies to the client, and none or one to the server. -/
theorem outstanding_ne_replies :
    let bs := [endMark, endMark]
    ((start {}).sendRaw bs).1.outstanding = 2 ∧
    (Connection.run {} .fresh { reads := [.chunk bs] }).map
      (fun served => served.1.conversation.session.outlet.written) = .ok [] ∧
    ((start { transport := .udp }).sendRaw bs).1.outstanding = 2 ∧
    ((PacketService.start {} []).handlePacket "client" bs).1.mailbox.sent =
      [("client", Utf8.ofString "-1#1#0$")] := by
  decide +kernel

end Client

end RemoteCalc
