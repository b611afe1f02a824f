import RemoteCalc.Proofs.Server.Conversation
import RemoteCalc.Proofs.Transport.Outlet
import RemoteCalc.Server.Connection

/-!
A connection under any behaviour of its stream. What its outlet takes is cut from the replies that
the bytes read call for; it is all of them unless a write or a flush fails, and nothing is computed
past the first reply that cannot be sent.
-/

namespace RemoteCalc

/-- The bytes that a delivery brings. -/
def Delivery.bytes : Delivery → Bytes
  | .data bs => bs
  | .fail _ | .hold | .finish => []

/-- What is read as long as every reply can be sent: the bytes, and how reading ends. -/
def Delivery.reading : List Delivery → Bytes × Ending
  | [] | .finish :: _ => ([], .closed)
  | .data bs :: ds => (bs ++ (reading ds).1, (reading ds).2)
  | .hold :: _ => ([], .held)
  | .fail kind :: ds =>
    if kind = .interrupted then reading ds
    else if kind.isDisconnect ∨ kind.isTimeout then ([], .closed)
    else ([], .failed (.io (.plain kind)))

/-- The bytes that arrive in a step. -/
def ReadStep.bytes : ReadStep → Bytes
  | .chunk bs => bs
  | .fail _ | .hold => []

/-- What a script of reads comes to: the bytes before its end, which is the end of the stream, the
peer going away, a read that times out, or any other failure but an interruption. -/
def ReadStep.reading : List ReadStep → Bytes × Ending
  | [] => ([], .closed)
  | .chunk bs :: steps =>
    if bs = [] then ([], .closed) else (bs ++ (reading steps).1, (reading steps).2)
  | .hold :: _ => ([], .held)
  | .fail kind :: steps =>
    if kind = .interrupted then reading steps
    else if kind.isDisconnect ∨ kind.isTimeout then ([], .closed)
    else ([], .failed (.io (.plain kind)))

/-- All bytes that a stream can bring. -/
def Stream.data (s : Stream) : Bytes := s.reads.flatMap ReadStep.bytes

theorem ReadStep.deliveries_chunk {bs : Bytes} (h : bs ≠ []) (size : Nat) :
    (chunk bs).deliveries size = (bs.pieces size).map .data := by
  cases bs with
  | nil => exact absurd rfl h
  | cons b bs => rfl

theorem ReadStep.bytes_deliveries (size : Nat) (step : ReadStep) :
    (step.deliveries size).flatMap Delivery.bytes = step.bytes := by
  cases step with
  | chunk bs =>
    by_cases h : bs = []
    · rw [h]
      rfl
    · have hdata (ps : List Bytes) : ps.flatMap (fun p => (Delivery.data p).bytes) = ps.flatten :=
        List.flatMap_id
      rw [deliveries_chunk h, List.flatMap_map, hdata, Bytes.flatten_pieces, bytes]
  | fail kind => rfl
  | hold => rfl

theorem Stream.bytes_deliveries (s : Stream) (size : Nat) :
    (s.deliveries size).flatMap Delivery.bytes = s.data := by
  rw [deliveries, data, List.flatMap_assoc]
  congr 1
  funext step
  exact step.bytes_deliveries size

theorem Delivery.reading_data (pieces : List Bytes) (ds : List Delivery) :
    reading (pieces.map .data ++ ds) = (pieces.flatten ++ (reading ds).1, (reading ds).2) := by
  induction pieces with
  | nil => rfl
  | cons p pieces ih =>
    rw [List.map_cons, List.cons_append, reading, ih, List.flatten_cons, List.append_assoc]

/-- Nothing is read after the end of the reading. -/
theorem Delivery.reading_within (ds : List Delivery) : (reading ds).1 <+: ds.flatMap bytes := by
  induction ds with
  | nil => exact List.nil_prefix
  | cons d ds ih =>
    cases d with
    | data bs => exact (List.prefix_append_right_inj bs).2 ih
    | finish => exact List.nil_prefix
    | hold => exact List.nil_prefix
    | fail kind =>
      rw [reading]
      split
      · exact ih
      · split
        · exact List.nil_prefix
        · exact List.nil_prefix

theorem Stream.clone_eq_ok {s s' : Stream} (h : s.clone = .ok s') :
    s'.reads = s.reads ∧ s'.writes = s.writes := by
  rw [clone] at h
  split at h
  · cases h
  · cases h
    exact ⟨rfl, rfl⟩
  · cases h
    exact ⟨rfl, rfl⟩

/-- The size of the reads has no part in what they come to. -/
theorem Stream.reading_deliveries (s : Stream) (size : Nat) :
    Delivery.reading (s.deliveries size) = ReadStep.reading s.reads := by
  rw [deliveries]
  induction s.reads with
  | nil => rfl
  | cons step steps ih =>
    rw [List.flatMap_cons]
    cases step with
    | chunk bs =>
      by_cases h : bs = []
      · rw [h]
        rfl
      · rw [ReadStep.deliveries_chunk h, Delivery.reading_data, Bytes.flatten_pieces, ih,
          ReadStep.reading, if_neg h]
    | fail kind =>
      rw [ReadStep.deliveries, List.singleton_append, Delivery.reading, ReadStep.reading, ih]
    | hold => rfl

/-- How many bytes a read brought. -/
def ReadResult.count : ReadResult → Nat
  | .size n => n
  | .failed _ => 0

namespace Connection

/-- How many bytes were read. -/
def readSize (c : Connection) : Nat := (c.reads.map ReadResult.count).sum

theorem readSize_note (c : Connection) (r : ReadResult) :
    (c.note r).readSize = c.readSize + r.count := by
  simp [readSize, note]

variable {c : Connection} {conversation : Conversation Outlet} {bs : Bytes}

theorem serve_data_ok {k : Nat}
    (h : c.conversation.feed Calculator.div send bs = (conversation, .ok k)) (ds : List Delivery) :
    c.serve (.data bs :: ds) = serve { c.note (.size bs.length) with conversation } ds := by
  have hnote : (c.note (.size bs.length)).conversation = c.conversation := rfl
  simp only [serve, hnote, h]

theorem serve_data_error {e : Failure}
    (h : c.conversation.feed Calculator.div send bs = (conversation, .error e))
    (ds : List Delivery) :
    c.serve (.data bs :: ds) =
      ({ c.note (.size bs.length) with conversation }, endingOf e) := by
  have hnote : (c.note (.size bs.length)).conversation = c.conversation := rfl
  simp only [serve, hnote, h]

/-- Serving feeds what is read to the conversation, in the portions in which it is read, and stops
where reading ends or a reply fails. -/
theorem serve_reads (c : Connection) (n : Nat) (ds : List Delivery) :
    ∃ chunks outcome,
      c.conversation.feedAllFrom Calculator.div send n chunks =
        ((c.serve ds).1.conversation, outcome) ∧
      chunks.flatten <+: (Delivery.reading ds).1 ∧
      (c.serve ds).1.readSize = c.readSize + chunks.flatten.length ∧
      match outcome with
      | .ok _ => Delivery.reading ds = (chunks.flatten, (c.serve ds).2)
      | .error e => (c.serve ds).2 = endingOf e := by
  induction ds generalizing c n with
  | nil => exact ⟨[], .ok n, rfl, List.nil_prefix, readSize_note c _, rfl⟩
  | cons d ds ih =>
    cases d with
    | finish => exact ⟨[], .ok n, rfl, List.nil_prefix, readSize_note c _, rfl⟩
    | hold => exact ⟨[], .ok n, rfl, List.nil_prefix, rfl, rfl⟩
    | fail kind =>
      rw [serve, Delivery.reading]
      by_cases hi : kind = .interrupted
      · rw [if_pos hi, if_pos hi]
        obtain ⟨chunks, outcome, hfeed, hread, hsize, hend⟩ := ih (c.note (.failed kind)) n
        rw [readSize_note] at hsize
        exact ⟨chunks, outcome, hfeed, hread, hsize, hend⟩
      · rw [if_neg hi, if_neg hi]
        by_cases hq : kind.isDisconnect ∨ kind.isTimeout
        · rw [if_pos hq, if_pos hq]
          exact ⟨[], .ok n, rfl, List.nil_prefix, readSize_note c _, rfl⟩
        · rw [if_neg hq, if_neg hq]
          exact ⟨[], .ok n, rfl, List.nil_prefix, readSize_note c _, rfl⟩
    | data bs =>
      rw [Delivery.reading]
      cases hf : c.conversation.feed Calculator.div send bs with
      | mk conversation outcome =>
        have hnote := readSize_note c (.size bs.length)
        rw [ReadResult.count] at hnote
        cases outcome with
        | error e =>
          rw [serve_data_error hf]
          refine ⟨[bs], .error e, by simp only [Conversation.feedAllFrom, hf], ?_, ?_, rfl⟩
          · rw [List.flatten_singleton]
            exact List.prefix_append bs _
          · rw [List.flatten_singleton]
            exact hnote
        | ok k =>
          rw [serve_data_ok hf]
          obtain ⟨chunks, outcome, hfeed, hread, hsize, hend⟩ :=
            ih { c.note (.size bs.length) with conversation } (n + k)
          refine ⟨bs :: chunks, outcome, ?_, ?_, ?_, ?_⟩
          · simp only [Conversation.feedAllFrom, hf]
            exact hfeed
          · rw [List.flatten_cons]
            exact (List.prefix_append_right_inj bs).2 hread
          · rw [List.flatten_cons, List.length_append, ← Nat.add_assoc, ← hnote]
            exact hsize
          · cases outcome with
            | error e => exact hend
            | ok m =>
              simp only at hend ⊢
              rw [hend, List.flatten_cons]

/-- The bytes that were read of a stream. -/
def received (c : Connection) (s : Stream) : Bytes := s.data.take c.readSize

/-- The events in the bytes that were read. -/
def seen (config : Config) (s : Stream) (c : Connection) : List Event :=
  Conversation.events config.ringBufferSize (c.received s)

/-- The frames of the replies to what was read. -/
def due (config : Config) (calculator : Calculator) (s : Stream) (c : Connection) : List Bytes :=
  Session.frames Calculator.div calculator (c.seen config s)

/-- What comes of sending the frames that are due in turn, as the stream's writes allow. -/
def sent (config : Config) (calculator : Calculator) (s : Stream) (c : Connection) : Sent Outlet :=
  sendAll send (.ofScript s.writes) (c.due config calculator s)

/-- What a connection owes to its peer. -/
structure Delivers (config : Config) (calculator : Calculator) (s : Stream) (c : Connection)
    (ending : Ending) : Prop where
  /-- An outlet that takes everything gets the frames that are due, however the bytes are cut. -/
  due_eq : ∀ chunks : List Bytes, chunks.flatten = c.received s → ∃ conversation n,
    (Conversation.start config.ringBufferSize [] calculator).feedAll Calculator.div accept chunks =
      (conversation, .ok n) ∧ conversation.session.outlet = c.due config calculator s
  written_within : c.conversation.session.outlet.written <+: (c.due config calculator s).flatten
  written_whole : (c.sent config calculator s).failure = none →
    c.conversation.session.outlet.written = (c.due config calculator s).flatten
  failure_none : (∀ step ∈ s.writes, step.isHealthy) → (c.sent config calculator s).failure = none
  /-- Nothing is answered after the first reply that fails. -/
  calculator_eq : c.conversation.calculator = Session.after Calculator.div calculator
    ((c.seen config s).take (c.sent config calculator s).count)
  handled_eq : c.conversation.session.handled =
    ((c.seen config s).take (c.sent config calculator s).count).countP Event.isRequest
  rejected_eq : c.conversation.session.rejected =
    ((c.seen config s).take (c.sent config calculator s).count).countP Event.isRejection
  /-- A reply that fails ends the connection; else all is read that arrives before the end. -/
  ending_eq : match (c.sent config calculator s).failure with
    | some e => ending = endingOf (.io e)
    | none => ReadStep.reading s.reads = (c.received s, ending)

/-- Serving a stream feeds the bytes that were read of it, and no others. -/
theorem serve_feed (config : Config) (calculator : Calculator) (s : Stream) (size : Nat) :
    let served := (start config calculator s.writes).serve (s.deliveries size)
    let bs := served.1.received s
    ∃ outcome, (Conversation.start config.ringBufferSize (.ofScript s.writes) calculator).feed
        Calculator.div send bs = (served.1.conversation, outcome) ∧
      bs <+: (ReadStep.reading s.reads).1 ∧
      match outcome with
      | .ok _ => ReadStep.reading s.reads = (bs, served.2)
      | .error e => served.2 = endingOf e := by
  intro served bs
  obtain ⟨chunks, outcome, hfeed, hread, hsize, hend⟩ :=
    serve_reads (start config calculator s.writes) 0 (s.deliveries size)
  have hzero : (start config calculator s.writes).readSize = 0 := rfl
  have hdata := hread.trans (Delivery.reading_within _)
  rw [s.bytes_deliveries] at hdata
  rw [hzero, Nat.zero_add] at hsize
  have hbs : bs = chunks.flatten := by
    rw [List.prefix_iff_eq_take.1 hdata, ← hsize]
    rfl
  refine ⟨outcome, ?_, ?_, ?_⟩
  · rw [hbs, ← Conversation.feedAll_eq_feed]
    exact hfeed
  · rw [hbs, ← s.reading_deliveries size]
    exact hread
  · rw [s.reading_deliveries] at hend
    rw [hbs]
    exact hend

/-- What serving leaves is what sending the frames that are due leaves. -/
theorem serve_sent (config : Config) (calculator : Calculator) (s : Stream) (size : Nat) :
    let served := (start config calculator s.writes).serve (s.deliveries size)
    let sent := served.1.sent config calculator s
    let answered := (served.1.seen config s).take sent.count
    served.1.conversation.session = ⟨sent.outlet, answered.countP Event.isRequest,
        answered.countP Event.isRejection⟩ ∧
      served.1.conversation.calculator = Session.after Calculator.div calculator answered ∧
      served.1.received s <+: (ReadStep.reading s.reads).1 ∧
      match sent.failure with
      | some e => served.2 = endingOf (.io e)
      | none => ReadStep.reading s.reads = (served.1.received s, served.2) := by
  intro served sent answered
  obtain ⟨outcome, hfeed, hread, hend⟩ := serve_feed config calculator s size
  obtain ⟨ring, outcome', hstart, houtcome⟩ := @Conversation.feed_start Outlet Calculator.div send
    config.ringBufferSize (.ofScript s.writes) calculator (served.1.received s)
  have heq := hstart.symm.trans hfeed
  rw [Prod.mk.injEq] at heq
  obtain ⟨hconversation, rfl⟩ := heq
  refine ⟨(congrArg Conversation.session hconversation).symm,
    (congrArg Conversation.calculator hconversation).symm, hread, ?_⟩
  have hsent : sendAll send (.ofScript s.writes) (Session.frames Calculator.div calculator
      (Conversation.events config.ringBufferSize (served.1.received s))) = sent := rfl
  rw [hsent] at houtcome
  cases hfail : sent.failure with
  | none =>
    rw [houtcome, hfail] at hend
    exact hend
  | some e =>
    rw [houtcome, hfail] at hend
    exact hend

section Sent

variable (config : Config) (calculator : Calculator) (s : Stream) (c : Connection)

theorem sent_written :
    (c.sent config calculator s).outlet.written ++ (c.sent config calculator s).outlet.unsent =
      ((c.due config calculator s).take (c.sent config calculator s).count).flatten :=
  (@sendAll_written .bufferNotWritten (.ofScript s.writes) rfl (c.due config calculator s)).1

variable {config calculator s c}

theorem sent_unsent (h : (c.sent config calculator s).failure = none) :
    (c.sent config calculator s).outlet.unsent = [] :=
  (@sendAll_written .bufferNotWritten (.ofScript s.writes) rfl (c.due config calculator s)).2 h

theorem close_sent_within :
    ((c.sent config calculator s).outlet.close .bufferNotWritten).written <+:
      (c.due config calculator s).flatten := by
  refine (Outlet.close_written _).trans ?_
  rw [sent_written]
  have hsplit := List.take_append_drop (c.sent config calculator s).count
    (c.due config calculator s)
  refine ⟨((c.due config calculator s).drop (c.sent config calculator s).count).flatten, ?_⟩
  rw [← List.flatten_append, hsplit]

theorem close_sent_whole (h : (c.sent config calculator s).failure = none) :
    ((c.sent config calculator s).outlet.close .bufferNotWritten).written =
      (c.due config calculator s).flatten := by
  have hwritten := sent_written config calculator s c
  have hcount : (c.sent config calculator s).count = (c.due config calculator s).length :=
    sendAll_count h
  rw [sent_unsent h, List.append_nil, hcount, List.take_length] at hwritten
  rw [Outlet.close_of_sent (sent_unsent h), hwritten]

/-- Closing keeps all but the outlet, which offers once more what it holds. -/
theorem delivers_close {ending : Ending}
    (hsession : c.conversation.session = ⟨(c.sent config calculator s).outlet,
      ((c.seen config s).take (c.sent config calculator s).count).countP Event.isRequest,
      ((c.seen config s).take (c.sent config calculator s).count).countP Event.isRejection⟩)
    (hcalculator : c.conversation.calculator = Session.after Calculator.div calculator
      ((c.seen config s).take (c.sent config calculator s).count))
    (hend : match (c.sent config calculator s).failure with
      | some e => ending = endingOf (.io e)
      | none => ReadStep.reading s.reads = (c.received s, ending)) :
    Delivers config calculator s c.close ending := by
  have hclose : c.close.conversation.session.outlet =
      (c.sent config calculator s).outlet.close .bufferNotWritten :=
    congrArg (fun session => session.outlet.close .bufferNotWritten) hsession
  constructor
  case due_eq =>
    intro chunks hchunks
    obtain ⟨ring, haccept⟩ := Conversation.feed_accept Calculator.div config.ringBufferSize
      calculator chunks.flatten
    rw [← Conversation.feedAll_eq_feed, hchunks] at haccept
    exact ⟨_, _, haccept, rfl⟩
  case written_within =>
    rw [hclose]
    exact close_sent_within
  case written_whole =>
    intro hnone
    rw [hclose]
    exact close_sent_whole hnone
  case failure_none =>
    intro hhealthy
    exact @sendAll_healthy .bufferNotWritten (.ofScript s.writes) hhealthy _
  case calculator_eq => exact hcalculator
  case handled_eq => exact congrArg Session.handled hsession
  case rejected_eq => exact congrArg Session.rejected hsession
  case ending_eq => exact hend

end Sent

theorem serve_delivers (config : Config) (calculator : Calculator) (s : Stream) (size : Nat) :
    let served := (start config calculator s.writes).serve (s.deliveries size)
    Delivers config calculator s served.1.close served.2 := by
  obtain ⟨hsession, hcalculator, -, hend⟩ := serve_sent config calculator s size
  exact delivers_close hsession hcalculator hend

/-- A connection whose writes all succeed answers all that it reads, and ends as its reading
does. -/
theorem run_whole (config : Config) (calculator : Calculator) {s s' : Stream}
    (hlimit : s.timeoutFailure = none) (hclone : s.clone = .ok s')
    (hwrites : ∀ step ∈ s.writes, step.isHealthy) :
    let events := Conversation.events config.ringBufferSize (ReadStep.reading s.reads).1
    ∃ c, run config calculator s = .ok (c, (ReadStep.reading s.reads).2) ∧
      c.conversation.session.outlet.written =
        (Session.frames Calculator.div calculator events).flatten ∧
      c.conversation.calculator = Session.after Calculator.div calculator events := by
  intro events
  obtain ⟨hreads, hwrites'⟩ := Stream.clone_eq_ok hclone
  have hdelivers := serve_delivers config calculator s' (max config.readChunkSize 1)
  rw [← hwrites'] at hwrites
  have hnone := hdelivers.failure_none hwrites
  have hwritten := hdelivers.written_whole hnone
  have hcalculator := hdelivers.calculator_eq
  have hread := hdelivers.ending_eq
  rw [hnone, hreads] at hread
  have hseen :
    Conversation.events config.ringBufferSize (ReadStep.reading s.reads).1 = events := rfl
  rw [hread] at hseen
  rw [sent, sendAll_count hnone, due, seen, hseen,
    Session.length_frames (Conversation.inbound_events _ _), List.take_length] at hcalculator
  rw [due, seen, hseen] at hwritten
  refine ⟨_, ?_, hwritten, hcalculator⟩
  rw [run, hlimit, hclone, hread]

/-- A connection delivers a clean beginning of the right replies, whatever its stream does. -/
theorem run_delivers (config : Config) (calculator : Calculator) (s : Stream) :
    match run config calculator s with
    | .error kind =>
      s.timeoutFailure = some kind ∨ s.timeoutFailure = none ∧ s.clone = .error kind
    | .ok (c, ending) => Delivers config calculator s c ending := by
  rw [run]
  cases ht : s.timeoutFailure with
  | some kind => exact .inl rfl
  | none =>
    cases hc : s.clone with
    | error kind => exact .inr ⟨rfl, rfl⟩
    | ok s' =>
      have hsame : s'.reads = s.reads ∧ s'.writes = s.writes := Stream.clone_eq_ok hc
      have hdelivers := serve_delivers config calculator s (max config.readChunkSize 1)
      rw [Stream.deliveries, ← hsame.1, ← Stream.deliveries, ← hsame.2] at hdelivers
      exact hdelivers

end Connection

end RemoteCalc
