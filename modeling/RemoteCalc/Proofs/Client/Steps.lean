import RemoteCalc.Client.Basic
import RemoteCalc.Proofs.Framing.Abort
import RemoteCalc.Proofs.Message.Inbound
import RemoteCalc.Proofs.Message.RoundTrip

/-!
What each step changes of a client. What comes from outside only adds to its events, and taking
events only drops them from the front; the counts and the ids change where the client acts itself.
-/

namespace RemoteCalc

theorem Request.count_endMark {r : Request} {f : Bytes} (h : r.encode = .ok f) :
    f.count endMark = 1 := by
  obtain ⟨a, b, ha, hb, rfl⟩ := exists_texts h
  have hunmarked : endMark ∉ joined (r.texts a b) := endMark_not_mem_joined
    (inert_texts (NumberField.readable_write ha).2.1 (NumberField.readable_write hb).2.1)
  rw [List.count_append, List.count_eq_zero.2 hunmarked, List.count_singleton_self]

namespace Client

/-- The client when it has taken so many events and has these left. -/
def leaving (c : Client) (n : Nat) (rest : List Event) : Client :=
  { c with events := rest, outstanding := c.outstanding - n }

variable {c : Client} {id : Int32}

theorem arrive_eq (c : Client) (bs : Bytes) :
    ∃ ring more, c.arrive bs = { c with ring, events := c.events ++ more } := by
  rw [arrive]
  split
  · have hstate := Ring.feedFrom_collect_state c.ring 0 c.events
      (if c.transport.isStream then bs else bs.take packetSize)
    exact ⟨_, _, by rw [← hstate]; rfl⟩
  · exact ⟨c.ring, [], by rw [List.append_nil]⟩

/-- Whatever happens to a client, it keeps the events that it has, its counts and its ids. -/
theorem undergo_eq (c : Client) (o : Occurrence) : ∃ ring reading hindrance more,
    c.undergo o = { c with ring, reading, hindrance, events := c.events ++ more } := by
  cases o with
  | departure =>
    exact ⟨c.ring, false, some (.refusal .brokenPipe), [], by rw [List.append_nil]; rfl⟩
  | hindered hindrance => exact ⟨c.ring, c.reading, hindrance, [], by rw [List.append_nil]; rfl⟩
  | incoming i =>
    cases i with
    | fail kind =>
      rw [undergo, take]
      split
      · exact ⟨c.ring, c.reading, c.hindrance, [], by rw [List.append_nil]⟩
      · exact ⟨c.ring, false, c.hindrance, [], by rw [List.append_nil]⟩
    | bytes bs =>
      cases bs with
      | nil =>
        rw [undergo, take, peerFinished]
        split
        · exact ⟨c.ring, false, c.hindrance, [], by rw [List.append_nil]⟩
        · exact ⟨c.ring, c.reading, c.hindrance, [], by rw [List.append_nil]⟩
      | cons b bs =>
        obtain ⟨ring, more, harrive⟩ := c.arrive_eq (b :: bs)
        exact ⟨ring, c.reading, c.hindrance, more, harrive⟩

theorem undergoAll_eq (c : Client) (os : List Occurrence) : ∃ ring reading hindrance more,
    c.undergoAll os = { c with ring, reading, hindrance, events := c.events ++ more } := by
  induction os generalizing c with
  | nil => exact ⟨c.ring, c.reading, c.hindrance, [], by rw [List.append_nil]; rfl⟩
  | cons o os ih =>
    obtain ⟨ring, reading, hindrance, more, hfirst⟩ := c.undergo_eq o
    obtain ⟨ring', reading', hindrance', more', hrest⟩ := ih (c.undergo o)
    refine ⟨ring', reading', hindrance', more ++ more', ?_⟩
    rw [undergoAll, List.foldl_cons]
    rw [undergoAll] at hrest
    rw [hrest, hfirst, List.append_assoc]

theorem sendRaw_sent {bs : Bytes} (h : c.sendFailure? bs = none) :
    c.sendRaw bs = ({ c with
      sent := c.sent ++ [bs]
      outstanding := c.outstanding + repliesDue c.transport bs }, none) := by
  rw [sendRaw, h]

theorem sendRaw_failed {bs : Bytes} {e : Failure} (h : c.sendFailure? bs = some e) :
    c.sendRaw bs = (c, some e) := by
  rw [sendRaw, h]

theorem sendFailure?_unhindered (h : c.hindrance = none) (bs : Bytes) :
    c.sendFailure? bs = none := by
  rw [sendFailure?, h]
  rfl

theorem send_sent {m : Method} {a b : Float} {f : Bytes} (h : c.sendFailure? f = none)
    (hf : (Request.mk c.nextId m a b).encode = .ok f) :
    c.send m a b = ({ c with
      nextId := c.nextId + 1
      sent := c.sent ++ [f]
      outstanding := c.outstanding + 1 }, .ok c.nextId) := by
  have hdue : repliesDue c.transport f = 1 := by
    rw [repliesDue, Request.count_endMark hf]
    split
    · rfl
    · rfl
  have hsend := @sendRaw_sent { c with nextId := c.nextId + 1 } f h
  rw [hdue] at hsend
  simp only [send, sendRequest, hf, hsend]

/-- To send is to give out the next id, and to have one more reply due if the frame goes out. -/
theorem send_cases (c : Client) (m : Method) (a b : Float) :
    (∃ f, (Request.mk c.nextId m a b).encode = .ok f ∧
      c.send m a b = ({ c with
        nextId := c.nextId + 1
        sent := c.sent ++ [f]
        outstanding := c.outstanding + 1 }, .ok c.nextId)) ∨
    ∃ e, c.send m a b = ({ c with nextId := c.nextId + 1 }, .error e) := by
  cases hf : (Request.mk c.nextId m a b).encode with
  | error e =>
    refine .inr ⟨.tooWide e, ?_⟩
    simp only [send, sendRequest, hf]
  | ok f =>
    cases hfail : c.sendFailure? f with
    | none => exact .inl ⟨f, rfl, send_sent hfail hf⟩
    | some e =>
      have hsend := @sendRaw_failed { c with nextId := c.nextId + 1 } f e hfail
      exact .inr ⟨e, by simp only [send, sendRequest, hf, hsend]⟩

theorem receive_cons {event : Event} {events : List Event} (h : c.events = event :: events) :
    c.receive = (c.leaving 1 events, .ok event) := by
  rw [receive, h]
  rfl

theorem receive_nil (h : c.events = []) : c.receive = (c, .error c.nothingLeft) := by
  rw [receive, h]

theorem awaitFrom_events (id : Int32) (c : Client) (events es : List Event) :
    awaitFrom id { c with events } es = awaitFrom id c es := by
  cases es with
  | nil => rfl
  | cons e es => rfl

theorem awaitFrom_cut (id : Int32) (c : Client) (es : List Event) :
    ∃ taken rest, es = taken ++ rest ∧ (awaitFrom id c es).1 = c.leaving taken.length rest := by
  induction es generalizing c with
  | nil => exact ⟨[], [], rfl, rfl⟩
  | cons e es ih =>
    rw [awaitFrom]
    split
    · exact ⟨[e], es, rfl, rfl⟩
    · obtain ⟨taken, rest, hes, hawait⟩ := ih (c.leaving 1 es)
      refine ⟨e :: taken, rest, by rw [hes, List.cons_append], ?_⟩
      rw [leaving] at hawait
      rw [hawait]
      simp only [leaving, List.length_cons, Nat.sub_sub, Nat.add_comm]

/-- Responses with other ids are passed over, as long as another reply is due after them. -/
theorem awaitFrom_stale {stale : List Response} (hid : ∀ r ∈ stale, r.id ≠ id)
    (hdue : stale.length < c.outstanding) (rest : List Event) :
    awaitFrom id c (stale.map .response ++ rest) =
      awaitFrom id (c.leaving stale.length rest) rest := by
  induction stale generalizing c with
  | nil => exact (awaitFrom_events id c rest rest).symm
  | cons r stale ih =>
    rw [List.length_cons] at hdue
    have hother := hid r (List.mem_cons_self ..)
    have hmore : ¬ c.outstanding ≤ 1 := by omega
    rw [List.map_cons, List.cons_append, awaitFrom]
    simp only [answer?, hother, hmore, decide_false, Bool.false_eq_true, and_false, or_self,
      if_false]
    have hstale := @ih (c.leaving 1 (stale.map .response ++ rest))
      (fun r' hr => hid r' (List.mem_cons_of_mem r hr)) (by simp only [leaving]; omega)
    rw [leaving] at hstale
    rw [hstale]
    simp only [leaving, List.length_cons, Nat.sub_sub, Nat.add_comm]

theorem awaitFrom_own {own : Response} (hid : own.id = id ∨ own.id = Response.unattributed)
    (hsole : c.outstanding = 1) (rest : List Event) :
    awaitFrom id c (.response own :: rest) = (c.leaving 1 rest, .ok own) := by
  rw [awaitFrom]
  simp only [answer?, hsole, Nat.le_refl, decide_true, and_true, if_pos hid, leaving]

end Client

end RemoteCalc
