import RemoteCalc.Framing.Ring

/-!
Feeding bytes to a ring whose events go to a handler. A handler that fails ends the feed at once;
the ring is then left as it is after the byte that raised the event.
-/

namespace RemoteCalc

/-- Takes an event and answers with its new state and the failure, if it failed. -/
abbrev Handler (σ ε : Type) := Event → σ → σ × Option ε

/-- What a feed leaves: the ring, the handler's state, and the number of messages that ended or
the failure that cut the feed short. -/
structure Fed (σ ε : Type) where
  ring : Ring
  state : σ
  outcome : Except ε Nat

namespace Ring

variable {σ ε : Type}

/-- Feeds bytes after `found` messages have already ended. -/
def feedFrom (handle : Handler σ ε) (found : Nat) (r : Ring) (s : σ) : Bytes → Fed σ ε
  | [] => ⟨r, s, .ok found⟩
  | b :: bs =>
    match r.push b with
    | (r, none) => feedFrom handle found r s bs
    | (r, some event) =>
      match handle event s with
      | (s, some e) => ⟨r, s, .error e⟩
      | (s, none) => feedFrom handle (if b = endMark then found + 1 else found) r s bs

/-- Feeds bytes and counts the messages that they end; an overflow is not one. -/
def feed (handle : Handler σ ε) (r : Ring) (s : σ) (bs : Bytes) : Fed σ ε :=
  feedFrom handle 0 r s bs

/-- A handler that keeps every event and never fails. -/
def collect : Handler (List Event) Empty := fun event events => (events ++ [event], none)

end Ring

end RemoteCalc
