import RemoteCalc.Proofs.Message.RoundTrip
import RemoteCalc.Session

/-!
The responses that a list of events is answered with. Each has a frame, and a client that reads
the frame gets the response, or an internal error where its result was too wide.
-/

namespace RemoteCalc

open Decimal RemoteCalc.NumberField

namespace Response

/-- The bytes that a response goes out as. -/
def bytes (r : Response) : Bytes := r.frame.toOption.getD []

/-- The response that a client reads: the result as written, or an internal error. -/
def delivered (r : Response) : Response :=
  match write r.result with
  | .ok t => ⟨r.id, r.status, (readFloat? t).getD 0⟩
  | .error _ => refusal r.id .internalError

theorem write_refusal (id : Int32) (status : Status) :
    write (refusal id status).result = .ok (display 0) := by
  have hfits : (display 0).length ≤ maxWidth := by decide +kernel
  exact write_of_fits hfits

theorem frame_eq_ok (r : Response) :
    ∃ f, r.frame = .ok f ∧ Framing.Spells .client maxFrame (.response r.delivered) f := by
  cases ha : write r.result with
  | ok t =>
    obtain ⟨x, hx, hspells⟩ := spells ha
    refine ⟨_, by rw [frame, encode_eq ha], ?_⟩
    rw [delivered, ha]
    simpa only [hx, Option.getD_some] using hspells
  | error e =>
    have hzero := write_refusal r.id .internalError
    obtain ⟨x, hx, hspells⟩ := spells hzero
    have hfail : r.encode = .error e := by
      rw [encode, ha]
      rfl
    rw [readFloat?_display, Option.some.injEq] at hx
    rw [← hx] at hspells
    refine ⟨_, by rw [frame, hfail]; exact encode_eq hzero, ?_⟩
    rw [delivered, ha]
    exact hspells

/-- No response is without a frame: a refusal's result always has a text. -/
theorem frame_eq_bytes (r : Response) : r.frame = .ok r.bytes := by
  obtain ⟨f, hf, -⟩ := r.frame_eq_ok
  rw [bytes, hf]
  rfl

theorem spells_bytes (r : Response) :
    Framing.Spells .client maxFrame (.response r.delivered) r.bytes := by
  obtain ⟨f, hf, hspells⟩ := r.frame_eq_ok
  rw [frame_eq_bytes, Except.ok.injEq] at hf
  rw [hf]
  exact hspells

theorem decode_bytes (r : Response) : decode r.bytes = .ok r.delivered := r.spells_bytes.decode

theorem delivered_refusal (id : Int32) (status : Status) :
    (refusal id status).delivered = refusal id status := by
  rw [delivered, write_refusal]
  simp only [readFloat?_display]
  rfl

end Response

namespace Session

variable (divide : Divider)

/-- The responses to events, in order; a session takes no notice of responses. -/
def replies (c : Calculator) : List Event → List Response
  | [] => []
  | .request r :: events => (c.respond divide r).1 :: replies (c.respond divide r).2 events
  | .rejection r :: events => .refusal r.id r.fault.status :: replies c events
  | .response _ :: events => replies c events

/-- The calculator after events. -/
def after (c : Calculator) : List Event → Calculator
  | [] => c
  | .request r :: events => after (c.respond divide r).2 events
  | .rejection _ :: events => after c events
  | .response _ :: events => after c events

/-- What a response has to do with the event that it answers, as the client reads it. -/
inductive Answers : Event → Response → Prop
  | success (r : Request) (x : Float) : Answers (.request r) (.success r.id x)
  | refusal (r : Request) (status : Status) : status = .divByZero ∨ status = .internalError →
      Answers (.request r) (.refusal r.id status)
  | rejection (r : Rejection) : Answers (.rejection r) (.refusal r.id r.fault.status)

variable {divide}

theorem after_cons (divide : Divider) (c : Calculator) (event : Event) (events : List Event) :
    after divide c (event :: events) = after divide (after divide c [event]) events := by
  cases event with
  | request r => rfl
  | rejection r => rfl
  | response r => rfl

theorem after_append (c : Calculator) (events more : List Event) :
    after divide c (events ++ more) = after divide (after divide c events) more := by
  induction events generalizing c with
  | nil => rfl
  | cons event events ih =>
    rw [List.cons_append, after_cons, ih, after_cons divide c event events]

/-- A request for an operation gets a result or one of two refusals. -/
theorem answers_respond (c : Calculator) {r : Request} (hm : r.method ≠ .none) :
    Answers (.request r) (c.respond divide r).1 := by
  cases h : r.method with
  | none => exact absurd h hm
  | div =>
    simp only [Calculator.respond, h]
    cases divide r.operand1 r.operand2 with
    | ok q => exact .success r q
    | error e =>
      cases e with
      | divisionByZero => exact .refusal r _ (.inl rfl)
      | _ => exact .refusal r _ (.inr rfl)
  | _ =>
    simp only [Calculator.respond, h]
    exact .success r _

theorem Answers.delivered {event : Event} {r : Response} (h : Answers event r) :
    Answers event r.delivered := by
  cases h with
  | success r x =>
    rw [Response.delivered]
    cases write (Response.success r.id x).result with
    | ok t => exact .success r _
    | error e => exact .refusal r _ (.inr rfl)
  | refusal r status hstatus =>
    rw [Response.delivered_refusal]
    exact .refusal r status hstatus
  | rejection r =>
    rw [Response.delivered_refusal]
    exact .rejection r

end Session

end RemoteCalc
