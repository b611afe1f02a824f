import RemoteCalc.Proofs.Message.Inbound
import RemoteCalc.Proofs.Framing.Feeding
import RemoteCalc.Proofs.Session.Replies

/-!
A session and its outlet. Whatever the outlet does, a session offers it the frames of the replies
in order and stops at the first that fails; what it counts and computes is that of the events
answered so far.
-/

namespace RemoteCalc

variable {ω : Type}

/-- What came of sending frames in turn: the outlet, the number of frames offered, and the failure
of the last of them, if it failed. -/
structure Sent (ω : Type) where
  outlet : ω
  count : Nat
  failure : Option IoError

/-- Offers frames in turn until one fails. -/
def sendAll (send : Sender ω) (o : ω) : List Bytes → Sent ω
  | [] => ⟨o, 0, none⟩
  | f :: frames =>
    match send f o with
    | (o, some e) => ⟨o, 1, some e⟩
    | (o, none) =>
      let sent := sendAll send o frames
      { sent with count := sent.count + 1 }

theorem sendAll_singleton (send : Sender ω) (o : ω) (f : Bytes) :
    sendAll send o [f] = ⟨(send f o).1, 1, (send f o).2⟩ := by
  simp only [sendAll]
  split
  · rename_i o' e ho
    rw [ho]
  · rename_i o' ho
    rw [ho]

theorem sendAll_count {send : Sender ω} {o : ω} {frames : List Bytes}
    (h : (sendAll send o frames).failure = none) :
    (sendAll send o frames).count = frames.length := by
  induction frames generalizing o with
  | nil => rfl
  | cons f frames ih =>
    rw [sendAll] at h ⊢
    split at h
    · cases h
    · rename_i o' ho
      simp only [ih h, List.length_cons]

/-- Frames that are offered after others make no difference to the failure of one of those. -/
theorem sendAll_append (send : Sender ω) (o : ω) (frames more : List Bytes) :
    (sendAll send o (frames ++ more)).failure = (sendAll send o frames).failure.or
      (sendAll send (sendAll send o frames).outlet more).failure := by
  induction frames generalizing o with
  | nil => rfl
  | cons f frames ih =>
    rw [List.cons_append, sendAll, sendAll]
    split
    · rfl
    · exact ih _

/-- An outlet that takes every frame. -/
def accept : Sender (List Bytes) := fun f frames => (frames ++ [f], none)

theorem sendAll_accept (taken frames : List Bytes) :
    sendAll accept taken frames = ⟨taken ++ frames, frames.length, none⟩ := by
  induction frames generalizing taken with
  | nil => simp [sendAll]
  | cons f frames ih => simp [sendAll, accept, ih]

namespace Event

def isRequest : Event → Bool
  | .request _ => true
  | .response _ | .rejection _ => false

def isRejection : Event → Bool
  | .rejection _ => true
  | .request _ | .response _ => false

theorem Inbound.isRejection_eq {event : Event} (h : event.Inbound) :
    event.isRejection = !event.isRequest := by
  cases event with
  | request r => rfl
  | rejection r => rfl
  | response r => exact h.elim

end Event

namespace Session

variable {divide : Divider} {send : Sender ω}

/-- The frames of the responses to events. -/
def frames (divide : Divider) (c : Calculator) (events : List Event) : List Bytes :=
  (replies divide c events).map Response.bytes

theorem frames_cons (divide : Divider) (c : Calculator) (event : Event) (events : List Event) :
    frames divide c (event :: events) =
      frames divide c [event] ++ frames divide (after divide c [event]) events := by
  cases event with
  | request r => rfl
  | rejection r => rfl
  | response r => rfl

theorem frames_append (c : Calculator) (events more : List Event) :
    frames divide c (events ++ more) =
      frames divide c events ++ frames divide (after divide c events) more := by
  induction events generalizing c with
  | nil => rfl
  | cons event events ih =>
    rw [List.cons_append, frames_cons, ih, frames_cons divide c event events,
      after_cons divide c event events, List.append_assoc]

theorem reply_eq (s : Session ω) (r : Response) :
    s.reply send r =
      ({ s with outlet := (send r.bytes s.outlet).1 }, (send r.bytes s.outlet).2.map .io) := by
  rw [reply, r.frame_eq_bytes]

/-- What a session does at one event: it answers with one response, and counts the event. -/
theorem handler_inbound {event : Event} (h : event.Inbound) (c : Calculator) :
    ∃ r c', Answers event r ∧
      (∀ events, replies divide c (event :: events) = r :: replies divide c' events) ∧
      (∀ events, after divide c (event :: events) = after divide c' events) ∧
      ∀ s : Session ω, handler divide send event (s, c) =
        ((⟨(send r.bytes s.outlet).1, s.handled + if event.isRequest then 1 else 0,
          s.rejected + if event.isRejection then 1 else 0⟩, c'),
          (send r.bytes s.outlet).2.map .io) := by
  cases event with
  | request r =>
    refine ⟨_, _, answers_respond c h, fun _ => rfl, fun _ => rfl, ?_⟩
    intro s
    simp only [handler, onRequest, reply_eq]
    rfl
  | rejection r =>
    refine ⟨_, _, .rejection r, fun _ => rfl, fun _ => rfl, ?_⟩
    intro s
    simp only [handler, onRejection, reply_eq]
    rfl
  | response r => exact h.elim

theorem forall₂_answers {events : List Event} (h : ∀ event ∈ events, event.Inbound)
    (c : Calculator) : List.Forall₂ Answers events (replies divide c events) := by
  induction events generalizing c with
  | nil => exact .nil
  | cons event events ih =>
    obtain ⟨r, c', hanswer, hreplies, -, -⟩ :=
      @handler_inbound _ divide accept event (h event (List.mem_cons_self ..)) c
    rw [hreplies]
    exact .cons hanswer (ih (fun e he => h e (List.mem_cons_of_mem event he)) c')

theorem length_frames {events : List Event} (h : ∀ event ∈ events, event.Inbound)
    (c : Calculator) : (frames divide c events).length = events.length := by
  rw [frames, List.length_map]
  exact (@forall₂_answers divide events h c).length_eq.symm

theorem spells_frames (c : Calculator) (events : List Event) {capacity : Nat}
    (hcap : Response.maxFrame ≤ capacity) :
    List.Forall₂ (Framing.Spells .client capacity)
      (((replies divide c events).map Response.delivered).map .response)
      (frames divide c events) := by
  rw [frames, List.map_map, List.forall₂_map_left_iff, List.forall₂_map_right_iff,
    List.forall₂_same]
  intro r _
  exact r.spells_bytes.mono hcap

theorem countP_add_countP {events : List Event} (h : ∀ event ∈ events, event.Inbound) :
    events.countP Event.isRequest + events.countP Event.isRejection = events.length := by
  have hcount : events.countP Event.isRejection =
      events.countP fun event => ¬ event.isRequest := by
    apply List.countP_congr
    intro event hevent
    rw [(h event hevent).isRejection_eq]
    simp
  rw [hcount, ← List.length_eq_countP_add_countP]

theorem run_handler {events : List Event} (h : ∀ event ∈ events, event.Inbound) (s : Session ω)
    (c : Calculator) :
    Handler.run (handler divide send) (s, c) events =
      let sent := sendAll send s.outlet (frames divide c events)
      let answered := events.take sent.count
      ((⟨sent.outlet, s.handled + answered.countP Event.isRequest,
        s.rejected + answered.countP Event.isRejection⟩, after divide c answered),
        sent.failure.map .io) := by
  induction events generalizing s c with
  | nil => rfl
  | cons event events ih =>
    obtain ⟨r, c', -, hreplies, hafter, hhandler⟩ :=
      @handler_inbound _ divide send event (h event (List.mem_cons_self ..)) c
    have hevents := ih fun e he => h e (List.mem_cons_of_mem event he)
    rw [Handler.run, hhandler, frames, hreplies, List.map_cons, sendAll]
    cases send r.bytes s.outlet with
    | mk o failure =>
      cases failure with
      | some e => simp [hafter, after]
      | none =>
        simp only [Option.map_none, hevents, frames, List.take_succ_cons, hafter, List.countP_cons,
          Nat.add_assoc]
        simp only [Nat.add_comm]

end Session

end RemoteCalc
