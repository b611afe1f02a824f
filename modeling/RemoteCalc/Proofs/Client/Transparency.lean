import RemoteCalc.Proofs.Client.Calls
import RemoteCalc.Proofs.Client.Line
import RemoteCalc.Proofs.Message.WideNumber

/-!
A remote call is a local computation. The request reaches the server as it was asked, the server's
calculator computes it, and the reply comes back as it was computed, but for a result that no field
can hold: of such a result only the sign comes back, or that it could not be sent.
-/

namespace RemoteCalc

open Decimal RemoteCalc.NumberField

namespace Response

variable {r : Response}

theorem delivered_of_fits (h : (display r.result).length ≤ maxWidth) : r.delivered = r := by
  rw [delivered, write_of_fits h]
  simp only [readFloat?_display, Option.getD_some]

theorem delivered_of_tiny (hwide : maxWidth < (display r.result).length)
    (h : Binary64.units (Binary64.ordinal r.result) < Binary64.one) :
    r.delivered = { r with
      result := Binary64.ofOrdinal (Binary64.isNegative r.result) 0 } := by
  rw [delivered, (write_of_wide hwide).1 h]
  simp only [readFloat?_zero, Option.getD_some]

theorem delivered_of_huge (hwide : maxWidth < (display r.result).length)
    (h : Binary64.one ≤ Binary64.units (Binary64.ordinal r.result)) :
    r.delivered = refusal r.id .internalError := by
  obtain ⟨e, he⟩ := (write_of_wide hwide).2 h
  rw [delivered, he]

end Response

theorem Session.Answers.id_eq {r : Request} {reply : Response}
    (h : Session.Answers (.request r) reply) : reply.id = r.id := by
  cases h with
  | success r x => rfl
  | refusal r status hstatus => rfl

/-- A request whose operands fit comes to the server as it was asked. -/
theorem Request.spells_self {r : Request} (hm : r.method ≠ .none)
    (ha : (display r.operand1).length ≤ maxWidth) (hb : (display r.operand2).length ≤ maxWidth) :
    ∃ f, r.encode = .ok f ∧ Framing.Spells .server maxFrame (.request r) f := by
  have hbody := ofBody_joined (readable_display r.operand1).1 (readable_display r.operand2).1
    (readFloat?_display r.operand1) (readFloat?_display r.operand2) hm
  have hspells := spells (write_of_fits ha) (write_of_fits hb)
  simp only [Role.read, hbody] at hspells
  exact ⟨_, encode_eq (write_of_fits ha) (write_of_fits hb), hspells⟩

namespace Line

variable {l : Line} {m : Method} {a b : Float}

/-- The call returns what the client reads of the response that the server's calculator gives. -/
theorem Prompt.call_delivered (h : l.Prompt) (hnone : l.client.outstanding = 0)
    (there back : Cutting) (hm : m ≠ .none) (ha : (display a).length ≤ maxWidth)
    (hb : (display b).length ≤ maxWidth) :
    let computed := l.server.conversation.calculator.respond Calculator.div
      ⟨l.client.nextId, m, a, b⟩
    (l.call there back m a b).2 = .ok computed.1.delivered ∧
      (l.call there back m a b).1.server.conversation.calculator = computed.2 := by
  intro computed
  obtain ⟨f, hencode, hspells⟩ :=
    Request.spells_self (r := ⟨l.client.nextId, m, a, b⟩) hm ha hb
  have hin : Event.Inbound (.request ⟨l.client.nextId, m, a, b⟩) := hm
  obtain ⟨ring, reply, hreplies, hanswer, hid, hclient, hcalculator, -⟩ :=
    h.send_frame there back hencode hin
      (hspells.mono (by decide : Request.maxFrame ≤ serverCapacity))
  have hreply : computed.1 = reply := List.singleton_inj.1 hreplies
  have hsent : l.send there back m a b =
      ((l.send there back m a b).1, .ok l.client.nextId) := Prod.ext rfl hid
  -- nothing else is heard before the reply
  have hevents : l.client.events = [] := by
    rw [← List.length_eq_zero_iff, ← h.due_eq, hnone]
  have hawait : (l.send there back m a b).1.client.await l.client.nextId =
      ((l.send there back m a b).1.client.leaving 1 [], .ok reply.delivered) := by
    apply @Client.await_answered _ _ []
    · rw [hclient]
      exact h.patient
    · rw [hclient, hevents]
      rfl
    · intro r hr
      cases hr
    · exact .inl hanswer.delivered.id_eq
    · rw [hclient]
      exact congrArg (· + 1) hnone
  rw [Line.call, hsent]
  simp only [hawait]
  rw [hcalculator, hreply]
  exact ⟨rfl, rfl⟩

/-- A call with nothing outstanding returns what the server's calculator computes, and leaves the
calculator so. A call over a link is one whose request arrives at once. -/
theorem call_transparent (hreached : Reached l) (hnone : l.client.outstanding = 0)
    (there back : Cutting) (hm : m ≠ .none) (ha : (display a).length ≤ maxWidth)
    (hb : (display b).length ≤ maxWidth) :
    let computed := l.server.conversation.calculator.respond Calculator.div
      ⟨l.client.nextId, m, a, b⟩
    let x := computed.1.result
    let called := l.call there back m a b
    called.1.server.conversation.calculator = computed.2 ∧
      ((display x).length ≤ maxWidth → called.2 = .ok computed.1) ∧
      (maxWidth < (display x).length →
        (Binary64.units (Binary64.ordinal x) < Binary64.one → called.2 =
          .ok { computed.1 with result := Binary64.ofOrdinal (Binary64.isNegative x) 0 }) ∧
        (Binary64.one ≤ Binary64.units (Binary64.ordinal x) → called.2 =
          .ok (.refusal l.client.nextId .internalError))) ∧
      Link.call ⟨l.client, .stream l.server.conversation⟩ m a b =
        let linked := l.call .whole back m a b
        (⟨linked.1.client, .stream linked.1.server.conversation⟩, linked.2) := by
  intro computed x called
  obtain ⟨hresult, hcalculator⟩ :=
    hreached.prompt.call_delivered hnone there back hm ha hb
  have hresult : called.2 = .ok computed.1.delivered := hresult
  have hanswer := @Session.answers_respond Calculator.div l.server.conversation.calculator
    ⟨l.client.nextId, m, a, b⟩ hm
  have hid : computed.1.id = l.client.nextId := hanswer.id_eq
  refine ⟨hcalculator, ?_, ?_, hreached.prompt.link_call back m a b⟩
  · intro hfits
    rw [hresult, Response.delivered_of_fits hfits]
  · intro hwide
    constructor
    · intro htiny
      rw [hresult, Response.delivered_of_tiny hwide htiny]
    · intro hhuge
      rw [hresult, Response.delivered_of_huge hwide hhuge, hid]

/-- Memory read from afar: minus 5e-324, and 1e64, whose text has 65 digits. -/
theorem call_transparent_lossy :
    ((start .tcp 7 ⟨Float.ofBits 0x8000000000000001⟩ [.takeUpTo 1]).call .single .whole
        .getMemory 0 0).2 = .ok (.success 7 (Float.ofBits 0x8000000000000000)) ∧
      ((start .unixStream (-2) ⟨Float.ofBits 0x4D384F03E93FF9F5⟩ []).call .whole .single
        .getMemory 0 0).2 = .ok (.refusal (-2) .internalError) := by
  have hzero : (display 0).length ≤ maxWidth := by decide +kernel
  constructor
  · obtain ⟨-, -, hwide, -⟩ := call_transparent
      (@Reached.start .tcp [.takeUpTo 1] 7 ⟨Float.ofBits 0x8000000000000001⟩ rfl (by decide)) rfl
      .single .whole (m := .getMemory) (by decide) hzero hzero
    exact (hwide (by decide +kernel)).1 (by decide +kernel)
  · obtain ⟨-, -, hwide, -⟩ := call_transparent
      (@Reached.start .unixStream [] (-2) ⟨Float.ofBits 0x4D384F03E93FF9F5⟩ rfl (by decide)) rfl
      .whole .single (m := .getMemory) (by decide) hzero hzero
    exact (hwide (by decide +kernel)).2 (by decide +kernel)

end Line

end RemoteCalc
