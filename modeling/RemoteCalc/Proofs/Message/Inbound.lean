import RemoteCalc.Proofs.Framing.Segments
import RemoteCalc.Proofs.Message.Grammar

/-! What a server's ring can raise: requests for an operation, and rejections. -/

namespace RemoteCalc

theorem Request.method_ne_none {body : Bytes} {r : Request} (h : ofBody body = .ok r) :
    r.method ≠ .none := by
  obtain ⟨fs, hfields⟩ : ∃ fs, fields body = fs := ⟨_, rfl⟩
  have hreads := reads_ofBody body
  rw [h, hfields] at hreads
  cases hreads with
  | accepted _ hm =>
    obtain ⟨t, u, -, -, hne, -⟩ := hm
    exact hne

/-- An event that a server answers. -/
def Event.Inbound : Event → Prop
  | .request r => r.method ≠ .none
  | .rejection _ => True
  | .response _ => False

theorem inbound_read (body : Bytes) : (Role.server.read body).Inbound := by
  rw [Role.read]
  split
  · rename_i r hr
    exact Request.method_ne_none hr
  · trivial

theorem Framing.inbound_events (capacity : Nat) (bs : Bytes) :
    ∀ event ∈ events .server capacity bs, event.Inbound := by
  intro event hevent
  rcases List.mem_append.1 hevent with hclosed | hopen
  · obtain ⟨seg, -, hseg⟩ := List.mem_filterMap.1 hclosed
    unfold closedEvent? at hseg
    split at hseg
    · cases hseg
    · split at hseg
      · cases hseg
        trivial
      · cases hseg
        exact inbound_read seg
  · unfold openEvent? at hopen
    split at hopen
    · rw [Option.toList_some, List.mem_singleton] at hopen
      rw [hopen]
      trivial
    · cases hopen

end RemoteCalc
