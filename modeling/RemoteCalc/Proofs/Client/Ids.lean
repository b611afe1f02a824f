import RemoteCalc.Proofs.Client.Calls
import RemoteCalc.Proofs.Server.Conversation

/-!
The ids that a client gives out. They count up and wrap around, so that two of them are the same
only if all others were given out between them; and the last before the first comes again is the one
that stands for no id.
-/

namespace RemoteCalc.Client

/-- What a client does, and what happens to it. -/
inductive Action where
  | send (m : Method) (a b : Float)
  /-- A call, and what happens while it waits. -/
  | call (m : Method) (a b : Float) (os : List Occurrence)
  | sendRequest (r : Request)
  | sendRaw (bs : Bytes)
  | receive
  | undergo (o : Occurrence)
  | close

namespace Action

/-- Whether it gives out an id, be it for a frame that cannot be sent. -/
def takesId : Action → Bool
  | send _ _ _ | call _ _ _ _ => true
  | sendRequest _ | sendRaw _ | receive | undergo _ | close => false

end Action

def act (c : Client) : Action → Client
  | .send m a b => (c.send m a b).1
  | .call m a b os => (c.callDuring m a b os).1
  | .sendRequest r => (c.sendRequest r).1
  | .sendRaw bs => (c.sendRaw bs).1
  | .receive => c.receive.1
  | .undergo o => c.undergo o
  | .close => c.close

def actAll (c : Client) (as : List Action) : Client := as.foldl act c

/-- The ids that are given out in the course of actions. -/
def ids (c : Client) : List Action → List Int32
  | [] => []
  | a :: as => (if a.takesId then [c.nextId] else []) ++ ids (c.act a) as

variable {c : Client}

theorem nextId_send (c : Client) (m : Method) (a b : Float) :
    (c.send m a b).1.nextId = c.nextId + 1 := by
  rcases c.send_cases m a b with ⟨f, -, hsend⟩ | ⟨e, hsend⟩
  · rw [hsend]
  · rw [hsend]

theorem nextId_sendRaw (c : Client) (bs : Bytes) : (c.sendRaw bs).1.nextId = c.nextId := by
  rw [sendRaw]
  split
  · rfl
  · rfl

theorem nextId_undergoAll (c : Client) (os : List Occurrence) :
    (c.undergoAll os).nextId = c.nextId := by
  obtain ⟨ring, reading, hindrance, more, hclient⟩ := c.undergoAll_eq os
  rw [hclient]

theorem nextId_await (c : Client) (id : Int32) : (c.await id).1.nextId = c.nextId := by
  rw [await]
  split
  · rfl
  · obtain ⟨taken, rest, -, hawait⟩ := awaitFrom_cut id c c.events
    rw [hawait]
    rfl

/-- The next id changes where one is given out, and nowhere else. -/
theorem nextId_act (c : Client) (a : Action) :
    (c.act a).nextId = if a.takesId then c.nextId + 1 else c.nextId := by
  cases a with
  | send m a b => exact c.nextId_send m a b
  | call m a b os =>
    have hsent := c.nextId_send m a b
    rw [act, callDuring]
    cases hsend : c.send m a b with
    | mk sent result =>
      rw [hsend] at hsent
      cases result with
      | error e => exact hsent
      | ok id =>
        rw [nextId_await, nextId_undergoAll]
        exact hsent
  | sendRequest r =>
    rw [act, sendRequest]
    split
    · rfl
    · exact nextId_sendRaw c _
  | sendRaw bs => exact c.nextId_sendRaw bs
  | receive =>
    rw [act, receive]
    split
    · rfl
    · rfl
  | undergo o => exact c.nextId_undergoAll [o]
  | close => rfl

theorem ids_eq {n : Nat} (h : c.nextId = Int32.ofNat n) (as : List Action) :
    c.ids as = (List.range' n (as.countP Action.takesId)).map Int32.ofNat := by
  induction as generalizing c n with
  | nil => rfl
  | cons a as ih =>
    have hnext := c.nextId_act a
    rw [ids]
    cases ha : a.takesId with
    | true =>
      rw [ha, if_pos rfl, h] at hnext
      have hsucc : (c.act a).nextId = Int32.ofNat (n + 1) := by
        rw [hnext, Int32.ofNat_add]
        rfl
      rw [if_pos rfl, ih hsucc, List.countP_cons_of_pos ha, List.range'_succ, List.map_cons, h,
        List.singleton_append]
    | false =>
      rw [ha, if_neg Bool.false_ne_true] at hnext
      rw [if_neg Bool.false_ne_true, ih (hnext.trans h), List.nil_append,
        List.countP_cons_of_neg (Bool.eq_false_iff.1 ha)]

theorem ids_start (config : ClientConfig) (as : List Action) :
    (start config).ids as = (List.range (as.countP Action.takesId)).map Int32.ofNat := by
  rw [List.range_eq_range']
  exact ids_eq rfl as

/-- Two ids are the same only if at least all the others were given out between them, and the id
that stands for none is the last of them, which no client gives out before. -/
theorem ids_apart (config : ClientConfig) (as : List Action) :
    let ids := (start config).ids as
    ids.length = as.countP Action.takesId ∧
    (∀ i j id, i < j → j < i + 2 ^ 32 → ids[i]? = some id → ids[j]? ≠ some id) ∧
    (∀ i < ids.length, ids[i]? = some Response.unattributed ↔ (i + 1) % 2 ^ 32 = 0) ∧
    (Response.unattributed ∈ ids ↔ 2 ^ 32 ≤ ids.length) := by
  intro ids
  have hids : ids = (List.range (as.countP Action.takesId)).map Int32.ofNat := ids_start config as
  have hlength : ids.length = as.countP Action.takesId := by
    rw [hids, List.length_map, List.length_range]
  have hget (i : Nat) (h : i < ids.length) : ids[i]? = some (Int32.ofNat i) := by
    rw [hids, List.getElem?_map, List.getElem?_range (hlength ▸ h), Option.map_some]
  have hlast : Response.unattributed = Int32.ofNat (2 ^ 32 - 1) := by decide
  have hnone (i : Nat) (h : i < ids.length) :
      ids[i]? = some Response.unattributed ↔ (i + 1) % 2 ^ 32 = 0 := by
    rw [hget i h, Option.some.injEq, hlast, int32_ofNat_eq_iff]
    omega
  refine ⟨hlength, ?apart, hnone, ?given⟩
  case apart =>
    intro i j id hlt hnear hi hj
    have hjlt : j < ids.length := (List.getElem?_eq_some_iff.1 hj).1
    rw [hget i (by omega)] at hi
    rw [hget j hjlt, ← hi, Option.some.injEq, int32_ofNat_eq_iff] at hj
    omega
  case given =>
    rw [List.mem_iff_getElem?]
    constructor
    · rintro ⟨i, hi⟩
      have hlt : i < ids.length := (List.getElem?_eq_some_iff.1 hi).1
      have hwrap := (hnone i hlt).1 hi
      omega
    · intro hle
      exact ⟨2 ^ 32 - 1, (hnone _ (by omega)).2 rfl⟩

theorem send_tooWide {a : Float} {e : TooWide} (h : NumberField.write a = .error e) (c : Client)
    (m : Method) (b : Float) :
    c.send m a b = ({ c with nextId := c.nextId + 1 }, .error (.tooWide e)) := by
  have hencode : (Request.mk c.nextId m a b).encode = .error e := by
    rw [Request.encode, h]
    rfl
  simp only [send, sendRequest, hencode]

/-- Requests that cannot be written use up ids and nothing else. -/
theorem actAll_tooWide {a : Float} {e : TooWide} (h : NumberField.write a = .error e) (c : Client)
    (n : Nat) : c.actAll (List.replicate n (.send .add a 0)) =
      { c with nextId := c.nextId + Int32.ofNat n } := by
  induction n generalizing c with
  | zero => simp [actAll]
  | succ n ih =>
    simp only [actAll] at ih
    simp only [actAll, List.replicate_succ, List.foldl_cons, ih, act, send_tooWide h]
    rw [Nat.add_comm n 1, Int32.ofNat_add, ← Int32.add_assoc]
    rfl

/-- After `2 ^ 32 - 1` ids comes the one that stands for none. A call that gets it takes the
rejection of the frame before its own for the answer, though another reply is due. -/
theorem unattributed_given_out :
    Response.unattributed ∈ (start {}).ids (List.replicate (2 ^ 32) (.send .add 1 2)) ∧
    let huge := Float.ofBits 0x7E37E43C8800759C
    let long := Float.ofBits 0x4A511B0EC57E649A
    let c := (start {}).actAll
      (List.replicate (2 ^ 32 - 2) (.send .add huge 0) ++ [.send .add long long])
    let called := c.callDuring .add 1 2
      [.incoming (.bytes (Utf8.ofString "-1#1#0$-1#0#3$"))]
    c.nextId = Response.unattributed ∧ c.outstanding = 1 ∧
    ((Conversation.start 64 [] .fresh).feed Calculator.div accept
      called.1.sent.flatten).1.session.outlet =
        [Utf8.ofString "-1#1#0$", Utf8.ofString "-1#0#3$"] ∧
    called.2 = .ok (.refusal Response.unattributed .invalidRequest) ∧
    called.1.events = [.response (.success Response.unattributed 3)] := by
  constructor
  · have htakes : (Action.send .add 1 2).takesId = true := rfl
    rw [ids_start, List.countP_replicate, if_pos htakes]
    exact List.mem_map.2 ⟨2 ^ 32 - 1, List.mem_range.2 (by omega), rfl⟩
  · intro huge long c
    have htooWide : NumberField.write huge = .error ⟨301⟩ := by decide +kernel
    have hc : c =
        { start {} with nextId := Int32.ofNat (2 ^ 32 - 2) }.act (.send .add long long) := by
      have hfirst := actAll_tooWide htooWide (start {}) (2 ^ 32 - 2)
      simp only [actAll] at hfirst
      simp only [c, actAll, List.foldl_append, hfirst]
      rfl
    rw [hc]
    decide +kernel

end RemoteCalc.Client
