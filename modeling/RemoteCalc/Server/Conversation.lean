import RemoteCalc.Session

/-! The server's part of a conversation: bytes in, responses out through an outlet of any kind. -/

namespace RemoteCalc

structure Conversation (ω : Type) where
  ring : Ring
  session : Session ω
  calculator : Calculator

namespace Conversation

variable {ω : Type}

def start (capacity : Nat) (outlet : ω) (calculator : Calculator) : Conversation ω :=
  ⟨.empty .server capacity, .start outlet, calculator⟩

/-- Answers all the messages that the bytes complete, until a response cannot be sent. -/
def feed (divide : Divider) (send : Sender ω) (c : Conversation ω) (bs : Bytes) :
    Conversation ω × Except Failure Nat :=
  let fed := c.ring.feed (Session.handler divide send) (c.session, c.calculator) bs
  (⟨fed.ring, fed.state.1, fed.state.2⟩, fed.outcome)

end Conversation

end RemoteCalc
