import RemoteCalc.Proofs.Session.Sending

/-!
What a refused message leaves in memory. A session refuses in two places: before it computes, which
leaves memory alone, and after it, where the value that was folded into memory has no text.
-/

namespace RemoteCalc

open RemoteCalc.NumberField

namespace Calculator

variable {divide : Divider} {c : Calculator} {r : Request}

/-- The value that a request folds into memory, if that is what it asks for. -/
def folded? (c : Calculator) (r : Request) : Option Float :=
  match r.method with
  | .addToMemory => some (r.operand1 + r.operand2 + c.memory)
  | .subFromMemory => some (r.operand1 - r.operand2 - c.memory)
  | .mulIntoMemory => some (r.operand1 * r.operand2 * c.memory)
  | .none | .getMemory | .resetMemory | .add | .sub | .mul | .div => none

theorem respond_folded {x : Float} (h : c.folded? r = some x) :
    c.respond divide r = (.success r.id x, ⟨x⟩) := by
  cases hm : r.method with
  | addToMemory =>
    simp only [folded?, hm, Option.some.injEq] at h
    simp only [respond, hm, add, keep, if_true, h]
  | subFromMemory =>
    simp only [folded?, hm, Option.some.injEq] at h
    simp only [respond, hm, sub, keep, if_true, h]
  | mulIntoMemory =>
    simp only [folded?, hm, Option.some.injEq] at h
    simp only [respond, hm, mul, keep, if_true, h]
  | _ => simp only [folded?, hm, reduceCtorEq] at h

/-- A request that folds nothing keeps memory, but for a reset, which is never refused. -/
theorem respond_unfolded (h : c.folded? r = none) :
    (c.respond divide r).2 = c ∨ (c.respond divide r).1 = .success r.id 0 := by
  cases hm : r.method with
  | addToMemory | subFromMemory | mulIntoMemory => simp only [folded?, hm, reduceCtorEq] at h
  | resetMemory =>
    right
    simp only [respond, hm]
  | div =>
    left
    simp only [respond, hm]
    split <;> rfl
  | none | getMemory =>
    left
    simp only [respond, hm]
  | add | sub | mul =>
    left
    simp only [respond, hm]
    rfl

end Calculator

namespace Response

theorem delivered_success {x : Float} {t : Text} (h : write x = .ok t) (id : Int32) :
    (success id x).delivered.status = .ok := by
  simp only [delivered, success, h]

theorem delivered_tooWide {x : Float} {e : TooWide} (h : write x = .error e) (id : Int32) :
    (success id x).delivered = refusal id .internalError := by
  simp only [delivered, success, h]

theorem delivered_zero (id : Int32) : (success id 0).delivered.status = .ok :=
  delivered_success (write_refusal id .ok) id

end Response

namespace Session

variable {divide : Divider} {c : Calculator}

/-- A refused request has not changed memory, or has folded into it what cannot be sent. -/
theorem respond_refused {r : Request}
    (h : (c.respond divide r).1.delivered.status ≠ .ok) :
    (c.respond divide r).2 = c ∨ ∃ x e, c.folded? r = some x ∧ write x = .error e := by
  cases hx : c.folded? r with
  | some x =>
    rw [Calculator.respond_folded hx] at h
    cases he : write x with
    | ok t => exact absurd (Response.delivered_success he r.id) h
    | error e => exact .inr ⟨x, e, rfl, he⟩
  | none =>
    rcases @Calculator.respond_unfolded divide c r hx with hkept | hzero
    · exact .inl hkept
    · rw [hzero] at h
      exact absurd (Response.delivered_zero r.id) h

/-- The event is a request that folds this value into memory, and no field can hold the value. -/
structure UnwritableFold (c : Calculator) (event : Event) (q : Request) (x : Float) : Prop where
  asked : event = .request q
  folded : c.folded? q = some x
  tooWide : ∃ e, write x = .error e

/-- A refused message leaves memory as it was, unless it folds into memory a value that no field
can hold: then it is answered by an internal error, and the value stays. -/
theorem refused_keeps_memory {event : Event} (hevent : ∀ r, event ≠ .response r)
    (c : Calculator) :
    ∃ (f : Bytes) (r : Response) (c' : Calculator),
      (∀ {ω : Type} (send : Sender ω) (s : Session ω), ∃ s',
        handler Calculator.div send event (s, c) = ((s', c'), (send f s.outlet).2.map .io) ∧
          s'.outlet = (send f s.outlet).1) ∧
      Response.decode f = .ok r ∧
      (r.status ≠ .ok → (∀ q x, ¬ UnwritableFold c event q x) → c' = c) ∧
      ∀ q x, UnwritableFold c event q x → r = .refusal q.id .internalError ∧ c'.memory = x := by
  cases event with
  | response r => exact absurd rfl (hevent r)
  | rejection r =>
    let response := Response.refusal r.id r.fault.status
    refine ⟨response.bytes, response.delivered, c, ?sent, response.decode_bytes, ?kept, ?folded⟩
    case sent =>
      intro ω send s
      refine ⟨⟨_, s.handled, s.rejected + 1⟩, ?_, rfl⟩
      simp only [handler, onRejection, reply_eq]
      rfl
    case kept =>
      intro _ _
      rfl
    case folded =>
      intro q x h
      cases h.asked
  | request r =>
    obtain ⟨response, hresponse⟩ : ∃ response, c.respond Calculator.div r = response := ⟨_, rfl⟩
    refine ⟨response.1.bytes, response.1.delivered, response.2, ?sent, response.1.decode_bytes,
      ?kept, ?folded⟩
    case sent =>
      intro ω send s
      refine ⟨⟨_, s.handled + 1, s.rejected⟩, ?_, rfl⟩
      simp only [handler, onRequest, hresponse, reply_eq]
    case kept =>
      intro hstatus hwritable
      rw [← hresponse] at hstatus ⊢
      rcases respond_refused hstatus with hkept | ⟨x, e, hx, he⟩
      · exact hkept
      · exact absurd ⟨rfl, hx, e, he⟩ (hwritable r x)
    case folded =>
      rintro q x ⟨hq, hx, e, he⟩
      cases hq
      rw [← hresponse, Calculator.respond_folded hx]
      exact ⟨Response.delivered_tooWide he r.id, rfl⟩

/-- A division by zero after a fold: the sum stays. -/
theorem refused_keeps_memory_division :
    (∀ r, Event.request ⟨4, .div, 1, 0⟩ ≠ .response r) ∧
      ∃ (f : Bytes) (r : Response) (c' : Calculator),
        (∀ {ω : Type} (send : Sender ω) (s : Session ω), ∃ s',
          handler Calculator.div send (.request ⟨4, .div, 1, 0⟩) (s, ⟨3⟩) =
            ((s', c'), (send f s.outlet).2.map .io) ∧ s'.outlet = (send f s.outlet).1) ∧
        Response.decode f = .ok r ∧
        (r.status ≠ .ok → (∀ q x, ¬ UnwritableFold ⟨3⟩ (.request ⟨4, .div, 1, 0⟩) q x) → c' = ⟨3⟩) ∧
        ∀ q x, UnwritableFold ⟨3⟩ (.request ⟨4, .div, 1, 0⟩) q x →
          r = .refusal q.id .internalError ∧ c'.memory = x :=
  ⟨by simp, refused_keeps_memory (by simp) ⟨3⟩⟩

/-- The sum of 1e64 and zero is refused, for a text of 65 digits, and memory is no longer zero. -/
theorem refused_fold_changes_memory :
    let result := handler Calculator.div accept
      (.request ⟨9, .addToMemory, Float.ofBits 0x4D384F03E93FF9F5, 0⟩) (start [], .fresh)
    result.1.1.outlet = [Utf8.ofString "9#20#0$"] ∧ result.2 = none ∧
      Response.decode (Utf8.ofString "9#20#0$") = .ok (.refusal 9 .internalError) ∧
      result.1.2.memory = Float.ofBits 0x4D384F03E93FF9F5 ∧ result.1.2 ≠ .fresh := by
  decide +kernel

end Session

end RemoteCalc
