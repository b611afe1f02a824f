import RemoteCalc.Client.Link
import RemoteCalc.Proofs.Client.Hearing
import RemoteCalc.Proofs.Server.Connection

/-!
A client and the connection that serves it, with nothing lost between them. The server reads what
the client sent, and the client what the server wrote, in any portions. Whatever requests were sent
and replies taken before, both sides are found at the end of a frame, and the replies due are the
events that the client has not taken.
-/

namespace RemoteCalc

/-- A way in which a stream cuts what passes through it. -/
structure Cutting where
  portions : Bytes → List Bytes
  flatten_portions : ∀ bs, (portions bs).flatten = bs
  nil_not_mem : ∀ bs, [] ∉ portions bs

namespace Cutting

/-- All at once. -/
def whole : Cutting where
  portions bs := if bs = [] then [] else [bs]
  flatten_portions bs := by
    split
    · rename_i h
      rw [h]
      rfl
    · exact List.flatten_singleton
  nil_not_mem bs := by
    split
    · exact List.not_mem_nil
    · rename_i h
      rw [List.mem_singleton]
      exact Ne.symm h

/-- Byte by byte. -/
def single : Cutting where
  portions bs := bs.map fun b => [b]
  flatten_portions bs := by rw [← List.flatMap_def, List.flatMap_singleton']
  nil_not_mem bs := by simp

theorem portions_nil (cutting : Cutting) : cutting.portions [] = [] := by
  have hflatten := List.flatten_eq_nil_iff.1 (cutting.flatten_portions [])
  have hcut := cutting.nil_not_mem []
  cases hportions : cutting.portions [] with
  | nil => rfl
  | cons p ps =>
    rw [hportions] at hflatten hcut
    have hp := hflatten p (List.mem_cons_self ..)
    rw [hp] at hcut
    exact absurd (List.mem_cons_self ..) hcut

end Cutting

section Server

variable {c : Conversation Outlet} {capacity : Nat} {event : Event} {f bs : Bytes}

/-- The conversation holds no part of a message or of a frame, and all its writes succeed. -/
structure Conversation.Waiting (capacity : Nat) (c : Conversation Outlet) : Prop where
  rested : ∃ seen, c.ring.Tracks .server capacity seen ∧ seen.rest = []
  sent : c.session.outlet.unsent = []
  healthy : ∀ step ∈ c.session.outlet.script, step.isHealthy

/-- It answers every event in what it is fed. -/
theorem Conversation.Waiting.feed (h : c.Waiting capacity) (bs : Bytes) :
    let events := Framing.events .server capacity bs
    ∃ conversation, c.feed Calculator.div Connection.send bs =
        (conversation, .ok (Framing.found capacity bs)) ∧
      (bs.rest = [] → conversation.Waiting capacity) ∧
      c.session.outlet.chunks <+: conversation.session.outlet.chunks ∧
      conversation.session.outlet.written = c.session.outlet.written ++
        (Session.frames Calculator.div c.calculator events).flatten ∧
      conversation.calculator = Session.after Calculator.div c.calculator events := by
  intro events
  obtain ⟨sent, hsent⟩ : ∃ sent, sendAll Connection.send c.session.outlet
    (Session.frames Calculator.div c.calculator events) = sent := ⟨_, rfl⟩
  obtain ⟨seen, ht, hrest⟩ := h.rested
  have hinbound : ∀ event ∈ events, event.Inbound := Framing.inbound_events capacity bs
  have hnone : sent.failure = none := by
    rw [← hsent]
    exact sendAll_healthy h.healthy _
  have hcount : sent.count = events.length := by
    rw [← hsent] at hnone ⊢
    rw [sendAll_count hnone, Session.length_frames hinbound]
  have hwritten := @sendAll_written .bufferNotWritten c.session.outlet h.sent
    (Session.frames Calculator.div c.calculator events)
  have hscript := @sendAll_script .bufferNotWritten c.session.outlet h.healthy
    (Session.frames Calculator.div c.calculator events)
  have hchunks := @sendAll_chunks .bufferNotWritten c.session.outlet
    (Session.frames Calculator.div c.calculator events)
  rw [← Connection.send, hsent] at hwritten hscript hchunks
  obtain ⟨hwritten, hunsent⟩ := hwritten
  rw [hunsent hnone, List.append_nil, hcount, ← Session.length_frames hinbound c.calculator,
    List.take_length] at hwritten
  have hrun := @Session.run_handler _ Calculator.div Connection.send _ hinbound
    c.session c.calculator
  simp only [hsent, hcount, List.take_length] at hrun
  obtain ⟨ring, seen', ht', hrest', hfeed⟩ := ht.feed_of_rest_nil hrest hrun
  simp only [hnone, Option.map_none] at hfeed
  refine ⟨⟨ring, ⟨sent.outlet, _, _⟩, _⟩, by rw [Conversation.feed, hfeed], ?_, hchunks,
    hwritten, rfl⟩
  intro hbs
  exact ⟨⟨seen', ht', (hrest' (by rw [hnone]; rfl)).trans hbs⟩, hunsent hnone, hscript⟩

/-- What has gone out to the peer. -/
def Connection.written (c : Connection) : Bytes := c.conversation.session.outlet.written

/-- A waiting connection that reads whole messages and then no more waits again. -/
theorem Connection.serve_waiting {c : Connection} (h : c.conversation.Waiting capacity)
    {portions : List Bytes} (hrest : Bytes.rest portions.flatten = []) :
    let events := Framing.events .server capacity portions.flatten
    let served := c.serve (portions.map .data ++ [.hold])
    served.2 = .held ∧ served.1.conversation.Waiting capacity ∧
      served.1.written = c.written ++
        (Session.frames Calculator.div c.conversation.calculator events).flatten ∧
      served.1.conversation.calculator =
        Session.after Calculator.div c.conversation.calculator events := by
  intro events served
  obtain ⟨chunks, outcome, hfeed, -, -, hend⟩ := c.serve_reads 0 (portions.map .data ++ [.hold])
  obtain ⟨conversation, hwhole, hwaiting, -, hwritten, hcalculator⟩ := h.feed chunks.flatten
  have hsame := hfeed
  rw [← Conversation.feedAll, Conversation.feedAll_eq_feed, hwhole, Prod.mk.injEq] at hsame
  obtain ⟨hserved, rfl⟩ := hsame
  rw [Delivery.reading_data, Delivery.reading, List.append_nil, Prod.mk.injEq] at hend
  obtain ⟨hchunks, hending⟩ := hend
  rw [← hchunks] at hwaiting hwritten hcalculator
  rw [hserved] at hwaiting hwritten hcalculator
  exact ⟨hending.symm, hwaiting hrest, hwritten, hcalculator⟩

end Server

/-- The client when it has sent this frame with its next id. -/
def Client.asking (c : Client) (f : Bytes) : Client :=
  { c with nextId := c.nextId + 1, sent := c.sent ++ [f], outstanding := c.outstanding + 1 }

theorem Client.sent_asking (c : Client) (f : Bytes) : (c.asking f).sent = c.sent ++ [f] :=
  rfl

theorem Request.spells {r : Request} {a b : Text} (ha : NumberField.write r.operand1 = .ok a)
    (hb : NumberField.write r.operand2 = .ok b) :
    Framing.Spells .server maxFrame (Role.server.read (joined (r.texts a b)))
      (joined (r.texts a b) ++ [endMark]) :=
  ⟨_, rfl, fits_texts (NumberField.readable_write ha) (NumberField.readable_write hb), rfl⟩

/-- Whatever request goes out, the server sees one event, which it answers. -/
theorem Request.spells_encode {r : Request} {f : Bytes} (h : r.encode = .ok f) :
    ∃ event, event.Inbound ∧ Framing.Spells .server maxFrame event f := by
  obtain ⟨a, b, ha, hb, rfl⟩ := exists_texts h
  exact ⟨_, inbound_read _, spells ha hb⟩

/-- A line between a client and the connection that serves it. -/
structure Line where
  client : Client
  server : Connection

namespace Line

/-- The ring of a server is as large as its configuration has it from the start. -/
def serverCapacity : Nat := ({} : Config).ringBufferSize

def clientCapacity : Nat := ({} : ClientConfig).ringBufferSize

/-- A line with the sizes of the configurations' own, where the client is about to use this id and
the server's calculator is this one. -/
def start (t : Transport) (id : Int32) (c : Calculator) (writes : List WriteStep) : Line :=
  ⟨{ Client.start { transport := t } with nextId := id }, .start {} c writes⟩

/-- The server reads the bytes, and the client what it writes in answer. -/
def exchange (l : Line) (there back : Cutting) (bs : Bytes) : Line :=
  let server := (l.server.serve ((there.portions bs).map .data ++ [.hold])).1
  let answer := server.written.drop l.server.written.length
  ⟨l.client.undergoAll (Client.arrivals (back.portions answer)), server⟩

def send (l : Line) (there back : Cutting) (m : Method) (a b : Float) :
    Line × Except Failure Int32 :=
  let (client, result) := l.client.send m a b
  (exchange { l with client } there back (client.sent.drop l.client.sent.length).flatten, result)

def receive (l : Line) : Line × Except Failure Event :=
  let (client, result) := l.client.receive
  ({ l with client }, result)

def call (l : Line) (there back : Cutting) (m : Method) (a b : Float) :
    Line × Except Failure Response :=
  match l.send there back m a b with
  | (l, .error e) => (l, .error e)
  | (l, .ok id) =>
    let (client, result) := l.client.await id
    ({ l with client }, result)

/-- The lines that requests and the taking of replies lead to, from any memory and any id, as long
as writes succeed. -/
inductive Reached : Line → Prop
  | start {t : Transport} {writes : List WriteStep} (id : Int32) (c : Calculator) :
      t.isStream → (∀ step ∈ writes, step.isHealthy) → Reached (start t id c writes)
  | send {l : Line} (there back : Cutting) (m : Method) (a b : Float) :
      Reached l → Reached (l.send there back m a b).1
  | receive {l : Line} : Reached l → Reached l.receive.1
  | call {l : Line} (there back : Cutting) (m : Method) (a b : Float) :
      Reached l → Reached (l.call there back m a b).1

/-- Nothing is on its way, and both sides can go on. -/
structure Ready (l : Line) : Prop where
  stream : l.client.transport.isStream = true
  unhindered : l.client.hindrance = none
  patient : l.client.patience ≠ 0
  listening : l.client.Listening clientCapacity
  waiting : l.server.conversation.Waiting serverCapacity

variable {l : Line}

/-- Whole messages are answered at once, and their replies are heard. -/
theorem Ready.exchange (h : l.Ready) (there back : Cutting) {bs : Bytes} (hrest : bs.rest = []) :
    let events := Framing.events .server serverCapacity bs
    let heard := ((Session.replies Calculator.div l.server.conversation.calculator events).map
      Response.delivered).map Event.response
    (∃ ring, (l.exchange there back bs).client =
      { l.client with ring, events := l.client.events ++ heard }) ∧
      (l.exchange there back bs).server.conversation.calculator =
        Session.after Calculator.div l.server.conversation.calculator events ∧
      (l.exchange there back bs).Ready := by
  intro events heard
  obtain ⟨frames, hframes⟩ : ∃ frames, Session.frames Calculator.div
    l.server.conversation.calculator events = frames := ⟨_, rfl⟩
  have hportions := there.flatten_portions bs
  obtain ⟨-, hwaiting, hwritten, hcalculator⟩ :=
    Connection.serve_waiting h.waiting (by rw [hportions]; exact hrest)
  rw [hportions] at hwritten hcalculator
  rw [hframes] at hwritten
  have hspells := @Session.spells_frames Calculator.div l.server.conversation.calculator events
    clientCapacity (by decide)
  rw [hframes] at hspells
  obtain ⟨ring, hheard, hlistening⟩ := h.listening.hear_stream h.stream hspells
    (back.flatten_portions frames.flatten) (back.nil_not_mem frames.flatten)
  have hclient : (l.exchange there back bs).client =
      l.client.undergoAll (Client.arrivals (back.portions frames.flatten)) := by
    rw [Line.exchange, hwritten, List.drop_left]
  rw [hheard] at hclient hlistening
  refine ⟨⟨ring, hclient⟩, hcalculator, ?_⟩
  constructor
  case stream =>
    rw [hclient]
    exact h.stream
  case unhindered =>
    rw [hclient]
    exact h.unhindered
  case patient =>
    rw [hclient]
    exact h.patient
  case listening =>
    rw [hclient]
    exact hlistening
  case waiting => exact hwaiting

theorem Ready.asking (h : l.Ready) (f : Bytes) :
    Ready { l with client := l.client.asking f } :=
  ⟨h.stream, h.unhindered, h.patient, ⟨h.listening.reading, h.listening.rested⟩, h.waiting⟩

section Send

variable {m : Method} {a b : Float} {f : Bytes} {event : Event}

/-- What is sent in a frame is answered once, and the reply is heard. -/
theorem Ready.send_frame (h : l.Ready) (there back : Cutting)
    (hf : (Request.mk l.client.nextId m a b).encode = .ok f) (hin : event.Inbound)
    (hspells : Framing.Spells .server serverCapacity event f) :
    ∃ ring reply, Session.replies Calculator.div l.server.conversation.calculator [event] =
        [reply] ∧ Session.Answers event reply ∧
      (l.send there back m a b).2 = .ok l.client.nextId ∧
      (l.send there back m a b).1.client = { l.client.asking f with
        ring, events := l.client.events ++ [.response reply.delivered] } ∧
      (l.send there back m a b).1.server.conversation.calculator =
        Session.after Calculator.div l.server.conversation.calculator [event] ∧
      (l.send there back m a b).1.Ready := by
  have hframe : List.Forall₂ (Framing.Spells .server serverCapacity) [event] [f] :=
    .cons hspells .nil
  have hrest := Framing.rest_frames hframe
  obtain ⟨hevents, -⟩ := Framing.events_frames (by decide) hframe
  rw [List.flatten_singleton] at hrest hevents
  obtain ⟨reply, c, hanswer, hreplies, -⟩ := @Session.handler_inbound _ Calculator.div accept
    event hin l.server.conversation.calculator
  obtain ⟨⟨ring, hclient⟩, hcalculator, hready⟩ := (h.asking f).exchange there back hrest
  rw [hevents] at hclient hcalculator
  have hone : Session.replies Calculator.div l.server.conversation.calculator [event] = [reply] :=
    hreplies []
  have hsend : l.send there back m a b =
      (Line.exchange { l with client := l.client.asking f } there back f,
        .ok l.client.nextId) := by
    rw [Line.send, Client.send_sent (Client.sendFailure?_unhindered h.unhindered f) hf,
      ← Client.asking]
    simp only [Client.sent_asking, List.drop_left, List.flatten_singleton]
  rw [hsend]
  refine ⟨ring, reply, hone, hanswer, rfl, ?_, hcalculator, hready⟩
  rw [hclient, hone]
  rfl

theorem Ready.send_error (h : l.Ready) (there back : Cutting) {e : Failure}
    (hsend : l.client.send m a b =
      ({ l.client with nextId := l.client.nextId + 1 }, .error e)) :
    ∃ ring, (l.send there back m a b).2 = .error e ∧
      (l.send there back m a b).1.client =
        { l.client with ring, nextId := l.client.nextId + 1 } ∧
      (l.send there back m a b).1.Ready := by
  have hready : Ready { l with client := { l.client with nextId := l.client.nextId + 1 } } :=
    ⟨h.stream, h.unhindered, h.patient, ⟨h.listening.reading, h.listening.rested⟩, h.waiting⟩
  obtain ⟨⟨ring, hclient⟩, -, hready'⟩ := hready.exchange there back Bytes.rest_nil
  have heq : l.send there back m a b = (Line.exchange { l with client :=
      { l.client with nextId := l.client.nextId + 1 } } there back [], .error e) := by
    rw [Line.send, hsend]
    simp only [List.drop_length, List.flatten_nil]
  rw [heq]
  refine ⟨ring, rfl, ?_, hready'⟩
  rw [hclient, Framing.events_nil (by decide), Session.replies, List.map_nil, List.map_nil,
    List.append_nil]

end Send

/-- The replies due are the events that the client has not taken. -/
structure Prompt (l : Line) : Prop extends Ready l where
  due_eq : l.client.outstanding = l.client.events.length

theorem prompt_start {t : Transport} {writes : List WriteStep} (id : Int32) (c : Calculator)
    (ht : t.isStream) (hwrites : ∀ step ∈ writes, step.isHealthy) :
    (start t id c writes).Prompt where
  stream := ht
  unhindered := rfl
  patient := Nat.succ_ne_zero _
  listening := ⟨rfl, [], Ring.tracks_empty .client clientCapacity, Bytes.rest_nil⟩
  waiting := ⟨⟨[], Ring.tracks_empty .server serverCapacity, Bytes.rest_nil⟩, rfl, hwrites⟩
  due_eq := rfl

theorem Prompt.send (h : l.Prompt) (there back : Cutting) (m : Method) (a b : Float) :
    (l.send there back m a b).1.Prompt := by
  obtain ⟨f, hf, -⟩ | ⟨e, hsend⟩ := l.client.send_cases m a b
  · obtain ⟨event, hin, hspells⟩ := Request.spells_encode hf
    obtain ⟨ring, reply, -, -, -, hclient, -, hready⟩ :=
      h.send_frame there back hf hin (hspells.mono (by decide))
    refine ⟨hready, ?_⟩
    rw [hclient, List.length_append, ← h.due_eq, List.length_singleton]
    rfl
  · obtain ⟨ring, -, hclient, hready⟩ := h.send_error there back hsend
    refine ⟨hready, ?_⟩
    rw [hclient]
    exact h.due_eq

theorem Prompt.leaving (h : l.Prompt) {taken rest : List Event}
    (hevents : l.client.events = taken ++ rest) :
    Prompt { l with client := l.client.leaving taken.length rest } where
  stream := h.stream
  unhindered := h.unhindered
  patient := h.patient
  listening := ⟨h.listening.reading, h.listening.rested⟩
  waiting := h.waiting
  due_eq := by
    have hdue := h.due_eq
    rw [hevents, List.length_append] at hdue
    change l.client.outstanding - taken.length = rest.length
    omega

theorem Prompt.receive (h : l.Prompt) : l.receive.1.Prompt := by
  rw [Line.receive]
  cases hevents : l.client.events with
  | nil =>
    rw [Client.receive_nil hevents]
    exact h
  | cons event events =>
    have hone : l.client.events = [event] ++ events := hevents
    rw [Client.receive_cons hevents]
    exact h.leaving hone

theorem Prompt.await (h : l.Prompt) (id : Int32) :
    Prompt { l with client := (l.client.await id).1 } := by
  obtain ⟨taken, rest, hevents, hawait⟩ := Client.awaitFrom_cut id l.client l.client.events
  rw [Client.await, if_neg h.patient, hawait]
  exact h.leaving hevents

theorem Prompt.call (h : l.Prompt) (there back : Cutting) (m : Method) (a b : Float) :
    (l.call there back m a b).1.Prompt := by
  have hsent := h.send there back m a b
  rw [Line.call]
  split
  · rename_i heq
    rw [heq] at hsent
    exact hsent
  · rename_i id heq
    rw [heq] at hsent
    exact hsent.await id

theorem Ready.exchange_whole (h : l.Ready) (back : Cutting) {bs : Bytes} (hbs : bs ≠ []) :
    ∃ replies, Counterpart.exchange bs (.stream l.server.conversation) =
        (.stream (l.exchange .whole back bs).server.conversation, replies) ∧
      (l.exchange .whole back bs).client = replies.foldl Client.arrive l.client := by
  obtain ⟨conversation, hfeed, -, ⟨replies, hreplies⟩, -, -⟩ := h.waiting.feed bs
  have hserved : (l.server.serve
      ((Cutting.whole.portions bs).map .data ++ [.hold])).1.conversation = conversation := by
    have hportions : Cutting.whole.portions bs = [bs] := if_neg hbs
    rw [hportions, List.map_singleton, List.singleton_append, Connection.serve_data_ok hfeed]
    rfl
  have hanswer : (l.server.serve ((Cutting.whole.portions bs).map .data ++ [.hold])).1.written.drop
      l.server.written.length = replies.flatten := by
    simp only [Connection.written, hserved, Outlet.written, ← hreplies, List.flatten_append,
      List.drop_left]
  have hheard := Client.undergoAll_stream h.stream h.listening.reading
    (back.nil_not_mem replies.flatten)
  rw [back.flatten_portions, ← Client.foldl_arrive h.stream h.listening.reading] at hheard
  refine ⟨replies, ?_, ?_⟩
  · simp only [Counterpart.exchange, hfeed, ← hreplies, List.drop_left, Line.exchange, hserved]
  · rw [Line.exchange, hanswer]
    exact hheard

/-- A link to a server of streams is a line on which a request arrives at once. -/
theorem Ready.link_call (h : l.Ready) (back : Cutting) (m : Method) (a b : Float) :
    Link.call ⟨l.client, .stream l.server.conversation⟩ m a b =
      let called := l.call .whole back m a b
      (⟨called.1.client, .stream called.1.server.conversation⟩, called.2) := by
  obtain ⟨f, hf, hsend⟩ | ⟨e, hsend⟩ := l.client.send_cases m a b
  · have hne : f ≠ [] := by
      rintro rfl
      cases Request.count_endMark hf
    obtain ⟨replies, hexchange, hclient⟩ := (h.asking f).exchange_whole back hne
    rw [← Client.asking] at hsend
    simp only [Link.call, Line.call, Line.send, hsend, Client.sent_asking, List.drop_left,
      List.flatten_singleton, hexchange, hclient]
  · have hserve : l.server.serve [.hold] = (l.server, .held) := rfl
    simp only [Link.call, Line.call, Line.send, hsend, List.drop_length, List.flatten_nil,
      Line.exchange, Cutting.portions_nil, List.map_nil, List.nil_append, hserve]
    rfl

theorem Reached.prompt (h : Reached l) : l.Prompt := by
  induction h with
  | start id c ht hwrites => exact prompt_start id c ht hwrites
  | send there back m a b _ ih => exact ih.send there back m a b
  | receive _ ih => exact ih.receive
  | call there back m a b _ ih => exact ih.call there back m a b

end Line

end RemoteCalc
