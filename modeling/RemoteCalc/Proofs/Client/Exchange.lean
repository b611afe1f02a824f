import RemoteCalc.Proofs.Client.Steps

/-!
A client and a peer that answers every frame once and in order, be it with the id of the request or
with none. The replies due are the frames sent less the events taken, whatever calls gave up
waiting; so a reply without an id is taken for the answer to a call only where it is.
-/

namespace RemoteCalc

/-- A client, and what has passed between it and its peer. -/
structure Exchange where
  client : Client
  /-- The ids of the requests whose frames went out. -/
  asked : List Int32
  /-- The events that the client has taken. -/
  consumed : List Event
  /-- How many ids the client has given out. -/
  allocated : Nat

namespace Exchange

/-- Whether a response answers the request with this id: it has the id, or none. -/
def Replies (id : Int32) (r : Response) : Prop := r.id = id ∨ r.id = Response.unattributed

/-- All that the client has heard answers the frames that it sent, each once and in order. What its
ring cannot hold is no well-formed response to it. -/
def Honest (e : Exchange) : Prop :=
  ∃ heard : List Response, e.consumed ++ e.client.events = heard.map .response ∧
    List.Forall₂ Replies (e.asked.take heard.length) heard

def start (config : ClientConfig) : Exchange := ⟨.start config, [], [], 0⟩

/-- The events that the client no longer has were consumed. -/
def consuming (e : Exchange) (client : Client) : Exchange :=
  { e with
    client
    consumed := e.consumed ++
      e.client.events.take (e.client.events.length - client.events.length) }

def send (e : Exchange) (m : Method) (a b : Float) : Exchange × Except Failure Int32 :=
  let (client, result) := e.client.send m a b
  ({ e with
    client
    asked := e.asked ++ result.toOption.toList
    allocated := e.allocated + 1 }, result)

def receive (e : Exchange) : Exchange × Except Failure Event :=
  let (client, result) := e.client.receive
  (e.consuming client, result)

def undergo (e : Exchange) (os : List Client.Occurrence) : Exchange :=
  { e with client := e.client.undergoAll os }

def await (e : Exchange) (id : Int32) : Exchange × Except Failure Response :=
  let (client, result) := e.client.await id
  (e.consuming client, result)

/-- A call, and what happens while it waits. -/
def call (e : Exchange) (m : Method) (a b : Float) (os : List Client.Occurrence) :
    Exchange × Except Failure Response :=
  match e.send m a b with
  | (e, .error failure) => (e, .error failure)
  | (e, .ok id) => (e.undergo os).await id

/-- What a client comes to that only sends, receives and calls, with a peer that is honest. -/
inductive Reached (config : ClientConfig) : Exchange → Prop
  | start : Reached config (start config)
  | send {e : Exchange} (h : Reached config e) (m : Method) (a b : Float) :
      Reached config (e.send m a b).1
  | receive {e : Exchange} (h : Reached config e) : Reached config e.receive.1
  | undergo {e : Exchange} (h : Reached config e) (os : List Client.Occurrence) :
      (e.undergo os).Honest → Reached config (e.undergo os)
  | call {e : Exchange} (h : Reached config e) (m : Method) (a b : Float)
      (os : List Client.Occurrence) :
      ((e.send m a b).1.undergo os).Honest → Reached config (e.call m a b os).1

variable {config : ClientConfig} {e : Exchange}

theorem call_client (e : Exchange) (m : Method) (a b : Float) (os : List Client.Occurrence) :
    ((e.call m a b os).1.client, (e.call m a b os).2) = e.client.callDuring m a b os := by
  rw [call, send, Client.callDuring]
  cases e.client.send m a b with
  | mk client result =>
    cases result with
    | error failure => rfl
    | ok id => rfl

theorem consumed_consuming {taken rest : List Event} (h : e.client.events = taken ++ rest) :
    (e.consuming (e.client.leaving taken.length rest)).consumed = e.consumed ++ taken := by
  simp only [consuming, Client.leaving, h, List.length_append, Nat.add_sub_cancel, List.take_left]

theorem receive_eq (e : Exchange) : ∃ taken rest, e.client.events = taken ++ rest ∧
    e.receive.1 = e.consuming (e.client.leaving taken.length rest) := by
  rw [receive]
  cases hevents : e.client.events with
  | nil =>
    have hsame : e.client.leaving 0 [] = e.client := by
      rw [Client.leaving, ← hevents]
      rfl
    refine ⟨[], [], rfl, ?_⟩
    rw [Client.receive_nil hevents, List.length_nil, hsame]
  | cons event events =>
    refine ⟨[event], events, rfl, ?_⟩
    rw [Client.receive_cons hevents]
    rfl

theorem await_eq (e : Exchange) (id : Int32) : ∃ taken rest, e.client.events = taken ++ rest ∧
    (e.await id).1 = e.consuming (e.client.leaving taken.length rest) := by
  rw [await, Client.await]
  by_cases hpatience : e.client.patience = 0
  · rw [if_pos hpatience]
    exact ⟨[], e.client.events, rfl, rfl⟩
  · obtain ⟨taken, rest, hevents, hawait⟩ := Client.awaitFrom_cut id e.client e.client.events
    rw [if_neg hpatience]
    simp only [hawait]
    exact ⟨taken, rest, hevents, rfl⟩

/-- What holds of a client and its peer whatever the client does. -/
structure Consistent (config : ClientConfig) (e : Exchange) : Prop where
  patience_eq : e.client.patience = config.responseTimeoutMs
  nextId_eq : e.client.nextId = Int32.ofNat e.allocated
  asked_before : ∀ id ∈ e.asked, ∃ n < e.allocated, id = Int32.ofNat n
  sent_asked : List.Forall₂ (fun id f => ∃ r : Request, r.id = id ∧ r.encode = .ok f)
    e.asked e.client.sent
  outstanding_eq : e.client.outstanding + e.consumed.length = e.asked.length
  honest : e.Honest

theorem Honest.length_le (h : e.Honest) :
    e.consumed.length + e.client.events.length ≤ e.asked.length := by
  obtain ⟨heard, hheard, hreplies⟩ := h
  have hlength := congrArg List.length hheard
  have htake := hreplies.length_eq
  rw [List.length_append, List.length_map] at hlength
  rw [List.length_take] at htake
  omega

theorem replies_append {ids : List Int32} {heard : List Response}
    (h : List.Forall₂ Replies (ids.take heard.length) heard) (more : List Int32) :
    List.Forall₂ Replies ((ids ++ more).take heard.length) heard := by
  have hlength := h.length_eq
  rw [List.length_take] at hlength
  rw [List.take_append_of_le_length (by omega)]
  exact h

theorem consistent_start (config : ClientConfig) : Consistent config (start config) where
  patience_eq := rfl
  nextId_eq := rfl
  asked_before := by
    intro id hid
    cases hid
  sent_asked := .nil
  outstanding_eq := rfl
  honest := ⟨[], rfl, .nil⟩

namespace Consistent

theorem send (h : Consistent config e) (m : Method) (a b : Float) :
    Consistent config (e.send m a b).1 := by
  have hnext : e.client.nextId + 1 = Int32.ofNat (e.allocated + 1) := by
    rw [h.nextId_eq, Int32.ofNat_add]
    rfl
  have hbefore : ∀ id ∈ e.asked, ∃ n < e.allocated + 1, id = Int32.ofNat n := by
    intro id hid
    obtain ⟨n, hn, heq⟩ := h.asked_before id hid
    exact ⟨n, Nat.lt_succ_of_lt hn, heq⟩
  rcases e.client.send_cases m a b with ⟨f, hf, hsend⟩ | ⟨failure, hsend⟩
  · rw [Exchange.send, hsend]
    constructor
    case patience_eq => exact h.patience_eq
    case nextId_eq => exact hnext
    case asked_before =>
      intro id hid
      rcases List.mem_append.1 hid with hold | hnew
      · exact hbefore id hold
      · rw [List.mem_singleton.1 hnew]
        exact ⟨e.allocated, Nat.lt_succ_self _, h.nextId_eq⟩
    case sent_asked => exact List.rel_append h.sent_asked (.cons ⟨_, rfl, hf⟩ .nil)
    case outstanding_eq =>
      have hout := h.outstanding_eq
      simp only [Except.toOption, Option.toList_some, List.length_append, List.length_singleton]
      omega
    case honest =>
      obtain ⟨heard, hheard, hreplies⟩ := h.honest
      exact ⟨heard, hheard, replies_append hreplies _⟩
  · rw [Exchange.send, hsend]
    have hasked : e.asked ++ (Except.error failure : Except Failure Int32).toOption.toList =
      e.asked := List.append_nil _
    simp only [hasked]
    exact ⟨h.patience_eq, hnext, hbefore, h.sent_asked, h.outstanding_eq, h.honest⟩

theorem undergo (h : Consistent config e) {os : List Client.Occurrence}
    (hhonest : (e.undergo os).Honest) : Consistent config (e.undergo os) := by
  obtain ⟨ring, reading, hindrance, more, hclient⟩ := e.client.undergoAll_eq os
  rw [Exchange.undergo, hclient] at hhonest ⊢
  exact ⟨h.patience_eq, h.nextId_eq, h.asked_before, h.sent_asked, h.outstanding_eq, hhonest⟩

theorem consuming (h : Consistent config e) {taken rest : List Event}
    (hevents : e.client.events = taken ++ rest) :
    Consistent config (e.consuming (e.client.leaving taken.length rest)) := by
  have hconsumed := consumed_consuming hevents
  constructor
  case patience_eq => exact h.patience_eq
  case nextId_eq => exact h.nextId_eq
  case asked_before => exact h.asked_before
  case sent_asked => exact h.sent_asked
  case outstanding_eq =>
    have hout := h.outstanding_eq
    have hle := h.honest.length_le
    rw [hevents, List.length_append] at hle
    rw [hconsumed, List.length_append]
    simp only [Exchange.consuming, Client.leaving]
    omega
  case honest =>
    obtain ⟨heard, hheard, hreplies⟩ := h.honest
    refine ⟨heard, ?_, hreplies⟩
    rw [hconsumed, List.append_assoc, ← hheard, hevents]
    rfl

theorem receive (h : Consistent config e) : Consistent config e.receive.1 := by
  obtain ⟨taken, rest, hevents, hreceive⟩ := e.receive_eq
  rw [hreceive]
  exact h.consuming hevents

theorem await (h : Consistent config e) (id : Int32) : Consistent config (e.await id).1 := by
  obtain ⟨taken, rest, hevents, hawait⟩ := e.await_eq id
  rw [hawait]
  exact h.consuming hevents

end Consistent

theorem Reached.consistent (h : Reached config e) : Consistent config e := by
  induction h with
  | start => exact consistent_start config
  | send _ m a b ih => exact ih.send m a b
  | receive _ ih => exact ih.receive
  | undergo _ os hhonest ih => exact ih.undergo hhonest
  | @call e _ m a b os hhonest ih =>
    have hsent := ih.send m a b
    rw [Exchange.call]
    split
    · rename_i heq
      rw [heq] at hsent
      exact hsent
    · rename_i heq
      rw [heq] at hsent hhonest
      exact (hsent.undergo hhonest).await _

end Exchange

end RemoteCalc
