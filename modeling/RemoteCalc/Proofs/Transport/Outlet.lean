import RemoteCalc.Proofs.Session.Sending
import RemoteCalc.Transport.Outlet

/-!
An outlet neither loses nor repeats bytes: what it took and what it still holds make up the frames
that it was offered, whatever its writes and flushes do.
-/

namespace RemoteCalc

variable {stuck : IoError}

theorem offer_taken (script : List WriteStep) (bs : Bytes) :
    (offer stuck script bs).chunks.flatten ++ (offer stuck script bs).unsent = bs := by
  induction script generalizing bs with
  | nil => simp [offer]
  | cons step script ih =>
    cases step with
    | takeAll => simp [offer]
    | takeUpTo n =>
      rw [offer]
      split
      · rfl
      · split
        · simp
        · simp only [List.flatten_cons, List.append_assoc, ih, List.take_append_drop]
    | fail kind =>
      rw [offer]
      split
      · exact ih bs
      · rfl
    | failForever kind => rfl
    | failFlush kind => simp [offer]

theorem offer_unsent {script : List WriteStep} {bs : Bytes}
    (h : (offer stuck script bs).failure = none) : (offer stuck script bs).unsent = [] := by
  induction script generalizing bs with
  | nil => rfl
  | cons step script ih =>
    cases step with
    | takeAll => rfl
    | takeUpTo n =>
      rw [offer] at h ⊢
      split at h
      · cases h
      · rename_i hn
        rw [if_neg hn]
        split at h
        · rename_i hfits
          rw [if_pos hfits]
        · rename_i hlong
          rw [if_neg hlong]
          exact ih h
    | fail kind =>
      rw [offer] at h ⊢
      split at h
      · rename_i hkind
        rw [if_pos hkind]
        exact ih h
      · cases h
    | failForever kind => cases h
    | failFlush kind => rfl

/-- A write step that fails neither a write nor a flush; an interruption does not count. -/
def WriteStep.isHealthy : WriteStep → Bool
  | .takeAll => true
  | .takeUpTo n => n ≠ 0
  | .fail kind => kind = .interrupted
  | .failForever _ | .failFlush _ => false

theorem offer_healthy {script : List WriteStep} (h : ∀ step ∈ script, step.isHealthy) (bs : Bytes) :
    (offer stuck script bs).failure = none ∧
      ∀ step ∈ (offer stuck script bs).script, step.isHealthy := by
  induction script generalizing bs with
  | nil => exact ⟨rfl, h⟩
  | cons step script ih =>
    have hstep := h step (List.mem_cons_self ..)
    have hscript := fun s hs => h s (List.mem_cons_of_mem step hs)
    cases step with
    | takeAll => exact ⟨rfl, hscript⟩
    | takeUpTo n =>
      rw [offer, if_neg (of_decide_eq_true hstep)]
      split
      · exact ⟨rfl, hscript⟩
      · exact ih hscript _
    | fail kind =>
      rw [offer, if_pos (of_decide_eq_true hstep)]
      exact ih hscript bs
    | failForever kind => cases hstep
    | failFlush kind => cases hstep

namespace Outlet

variable {o : Outlet}

theorem write_written (o : Outlet) (bs : Bytes) :
    (o.write stuck bs).1.written ++ (o.write stuck bs).1.unsent = o.written ++ bs := by
  simp only [write, written, List.flatten_append, List.append_assoc, offer_taken]

theorem unsent_flush (o : Outlet) : o.flush.1.unsent = o.unsent := by
  rw [flush]
  split
  · rfl
  · rfl

theorem chunks_flush (o : Outlet) : o.flush.1.chunks = o.chunks := by
  rw [flush]
  split
  · rfl
  · rfl

theorem send_written (o : Outlet) (f : Bytes) :
    (o.send stuck f).1.written ++ (o.send stuck f).1.unsent = o.written ++ f := by
  have hwrite := @write_written stuck o f
  rw [send]
  split
  · rename_i o' e ho
    rw [ho] at hwrite
    exact hwrite
  · rename_i o' ho
    rw [ho] at hwrite
    rw [written, chunks_flush, unsent_flush]
    exact hwrite

theorem send_unsent {f : Bytes} (h : (o.send stuck f).2 = none) :
    (o.send stuck f).1.unsent = [] := by
  rw [send] at h ⊢
  split at h
  · cases h
  · rename_i o' ho
    rw [write, Prod.mk.injEq] at ho
    rw [unsent_flush, ← ho.1]
    exact offer_unsent ho.2

theorem send_healthy (h : ∀ step ∈ o.script, step.isHealthy) (f : Bytes) :
    (o.send stuck f).2 = none ∧ ∀ step ∈ (o.send stuck f).1.script, step.isHealthy := by
  obtain ⟨hnone, hscript⟩ := @offer_healthy stuck o.script h f
  rw [send, write, hnone]
  simp only [flush]
  split
  · rename_i kind script hs
    have hflush := hscript (.failFlush kind) (by simp [hs])
    cases hflush
  · exact ⟨rfl, hscript⟩

/-- What was taken stays as it was taken. -/
theorem send_chunks (o : Outlet) (f : Bytes) : o.chunks <+: (o.send stuck f).1.chunks := by
  have hwrite : o.chunks <+: (o.write stuck f).1.chunks := List.prefix_append _ _
  rw [send]
  split
  · rename_i o' e ho
    rw [ho] at hwrite
    exact hwrite
  · rename_i o' ho
    rw [ho] at hwrite
    rw [chunks_flush]
    exact hwrite

/-- What is still held is offered once more; it follows what was taken, as it should. -/
theorem close_written (o : Outlet) : (o.close stuck).written <+: o.written ++ o.unsent := by
  rw [close]
  split
  · exact List.prefix_append _ _
  · exact ⟨_, write_written o o.unsent⟩

theorem close_of_sent (h : o.unsent = []) : o.close stuck = o := if_pos h

end Outlet

section SendAll

theorem sendAll_written {o : Outlet} (ho : o.unsent = []) (frames : List Bytes) :
    let sent := sendAll (Outlet.send stuck) o frames
    sent.outlet.written ++ sent.outlet.unsent = o.written ++ (frames.take sent.count).flatten ∧
      (sent.failure = none → sent.outlet.unsent = []) := by
  induction frames generalizing o with
  | nil => simp [sendAll, ho]
  | cons f frames ih =>
    have hwritten := @Outlet.send_written stuck o f
    rw [sendAll]
    split
    · rename_i o' e hsend
      rw [hsend] at hwritten
      simpa using hwritten
    · rename_i o' hsend
      have hunsent := Outlet.send_unsent (congrArg Prod.snd hsend)
      rw [hsend] at hwritten hunsent
      obtain ⟨hrest, hnone⟩ := ih hunsent
      rw [hunsent, List.append_nil] at hwritten
      refine ⟨?_, hnone⟩
      simp only [hrest, hwritten, List.take_succ_cons, List.flatten_cons, List.append_assoc]

theorem sendAll_healthy {o : Outlet} (h : ∀ step ∈ o.script, step.isHealthy)
    (frames : List Bytes) : (sendAll (Outlet.send stuck) o frames).failure = none := by
  induction frames generalizing o with
  | nil => rfl
  | cons f frames ih =>
    obtain ⟨hnone, hscript⟩ := @Outlet.send_healthy stuck o h f
    rw [sendAll]
    split
    · rename_i o' e hsend
      rw [hsend] at hnone
      cases hnone
    · rename_i o' hsend
      rw [hsend] at hscript
      exact ih hscript

theorem sendAll_chunks (o : Outlet) (frames : List Bytes) :
    o.chunks <+: (sendAll (Outlet.send stuck) o frames).outlet.chunks := by
  induction frames generalizing o with
  | nil => exact List.prefix_refl _
  | cons f frames ih =>
    have hfirst := @Outlet.send_chunks stuck o f
    rw [sendAll]
    split
    · rename_i o' e hsend
      rw [hsend] at hfirst
      exact hfirst
    · rename_i o' hsend
      rw [hsend] at hfirst
      exact hfirst.trans (ih o')

theorem sendAll_script {o : Outlet} (h : ∀ step ∈ o.script, step.isHealthy) (frames : List Bytes) :
    ∀ step ∈ (sendAll (Outlet.send stuck) o frames).outlet.script, step.isHealthy := by
  induction frames generalizing o with
  | nil => exact h
  | cons f frames ih =>
    obtain ⟨-, hscript⟩ := @Outlet.send_healthy stuck o h f
    rw [sendAll]
    split
    · rename_i o' e hsend
      rw [hsend] at hscript
      exact hscript
    · rename_i o' hsend
      rw [hsend] at hscript
      exact ih hscript

end SendAll

end RemoteCalc
