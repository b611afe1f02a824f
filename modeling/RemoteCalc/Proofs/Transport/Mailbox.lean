import RemoteCalc.Proofs.Session.Sending
import RemoteCalc.Transport.Mailbox

/-!
Sending frames as packets to one peer. Each send takes one step of the script, which alone decides
what goes out and whether the send fails; the first that fails is the last.
-/

namespace RemoteCalc

namespace SendStep

/-- What the sending of a frame fails with, if it does. A packet that goes out short is a
failure. -/
def failure? (frame : Bytes) : SendStep → Option IoError
  | .whole => none
  | .upTo n => if n < frame.length then some (.datagramTruncated n frame.length) else none
  | .fail kind => some (.plain kind)

def packets (peer : String) (frame : Bytes) : SendStep → List (String × Bytes)
  | .whole => [(peer, frame)]
  | .upTo n => [(peer, frame.take n)]
  | .fail _ => []

/-- No frame fails to be sent whole. Frames for which there is no step are sent. -/
def SendsAll (script : List SendStep) (frames : List Bytes) : Prop :=
  ∀ (i : Nat) (step : SendStep) (frame : Bytes),
    script[i]? = some step → frames[i]? = some frame → step.failure? frame = none

variable {peer : String} {frame : Bytes} {step : SendStep}

theorem packets_of_whole (h : step.failure? frame = none) :
    step.packets peer frame = [(peer, frame)] := by
  cases step with
  | whole => rfl
  | fail kind => cases h
  | upTo n =>
    have hn : frame.length ≤ n := by simpa [failure?] using h
    rw [packets, List.take_of_length_le hn]

end SendStep

namespace Mailbox

variable (peer : String)

theorem send_eq (frame : Bytes) (m : Mailbox) :
    m.send peer frame =
      (⟨m.script.tail, m.sent ++ (m.script.headD .whole).packets peer frame⟩,
        (m.script.headD .whole).failure? frame) := by
  obtain ⟨script, sent⟩ := m
  cases script with
  | nil => rfl
  | cons step script =>
    cases step with
    | whole => rfl
    | fail kind =>
      rw [List.headD_cons, List.tail_cons, SendStep.packets, List.append_nil]
      rfl
    | upTo n =>
      by_cases hn : n < frame.length
      · simp [send, deliver, SendStep.packets, SendStep.failure?, hn]
      · simp [send, deliver, SendStep.packets, SendStep.failure?, hn, Nat.le_of_not_lt hn]

end Mailbox

section SendAll

open SendStep

variable (peer : String)

/-- How far the sending of frames gets is decided by a step for each of them, and what goes out is
added to what went out before. -/
theorem sendAll_mailbox (script : List SendStep) (sent : List (String × Bytes))
    (frames : List Bytes) :
    let alone := sendAll (Mailbox.send peer) ⟨script.take frames.length, []⟩ frames
    sendAll (Mailbox.send peer) ⟨script, sent⟩ frames =
      ⟨⟨script.drop alone.count, sent ++ alone.outlet.sent⟩, alone.count, alone.failure⟩ := by
  induction frames generalizing script sent with
  | nil => simp [sendAll]
  | cons frame frames ih =>
    have htail : (script.take (frames.length + 1)).tail = script.tail.take frames.length := by
      cases script <;> simp
    have hhead : (script.take (frames.length + 1)).headD .whole = script.headD .whole := by
      cases script <;> rfl
    simp only [List.length_cons, sendAll, Mailbox.send_eq, htail, hhead, List.nil_append]
    cases (script.headD .whole).failure? frame with
    | some e => simp
    | none =>
      have hrest := ih script.tail (sent ++ (script.headD .whole).packets peer frame)
      have hfirst := ih (script.tail.take frames.length)
        ((script.headD .whole).packets peer frame)
      rw [List.take_take, Nat.min_self] at hfirst
      simp only [hrest, hfirst, List.append_assoc, List.drop_tail]

theorem sendAll_whole {script : List SendStep} {frames : List Bytes} (h : SendsAll script frames)
    (sent : List (String × Bytes)) :
    sendAll (Mailbox.send peer) ⟨script, sent⟩ frames =
      ⟨⟨script.drop frames.length, sent ++ frames.map (peer, ·)⟩, frames.length, none⟩ := by
  induction frames generalizing script sent with
  | nil => simp [sendAll]
  | cons frame frames ih =>
    have hstep : (script.headD .whole).failure? frame = none := by
      cases script with
      | nil => rfl
      | cons step script => exact h 0 step frame rfl rfl
    have hrest : SendsAll script.tail frames := by
      intro i step f hs hf
      rw [List.getElem?_tail] at hs
      exact h (i + 1) step f hs hf
    simp only [sendAll, Mailbox.send_eq, hstep, packets_of_whole hstep, ih hrest, List.drop_tail,
      List.map_cons, List.append_assoc, List.singleton_append, List.length_cons]

/-- The first send that fails ends the sending: it and those before it take one step each. -/
theorem sendAll_fails {script : List SendStep} {frames : List Bytes} {j : Nat} {step : SendStep}
    {frame : Bytes} {e : IoError} (hbefore : SendsAll script (frames.take j))
    (hstep : script[j]? = some step) (hframe : frames[j]? = some frame)
    (hfail : step.failure? frame = some e) (sent : List (String × Bytes)) :
    sendAll (Mailbox.send peer) ⟨script, sent⟩ frames =
      ⟨⟨script.drop (j + 1), sent ++ (frames.take j).map (peer, ·) ++ step.packets peer frame⟩,
        j + 1, some e⟩ := by
  induction j generalizing script frames sent with
  | zero =>
    cases frames with
    | nil => cases hframe
    | cons f frames =>
      cases script with
      | nil => cases hstep
      | cons s script =>
        cases hstep
        cases hframe
        simp [sendAll, Mailbox.send_eq, hfail]
  | succ j ih =>
    cases frames with
    | nil => cases hframe
    | cons f frames =>
      cases script with
      | nil => cases hstep
      | cons s script =>
        have hfirst : s.failure? f = none := hbefore 0 s f rfl rfl
        have hrest : SendsAll script (frames.take j) :=
          fun i step' f' hs hf => hbefore (i + 1) step' f' hs hf
        have hsent := ih hrest hstep hframe (sent ++ [(peer, f)])
        simp only [sendAll, Mailbox.send_eq, List.headD_cons, List.tail_cons, hfirst,
          packets_of_whole hfirst, hsent, List.drop_succ_cons, List.take_succ_cons, List.map_cons,
          List.append_assoc, List.singleton_append]

end SendAll

end RemoteCalc
