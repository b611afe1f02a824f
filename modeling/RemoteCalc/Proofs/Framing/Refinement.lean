import RemoteCalc.Proofs.Framing.Feeding

/-!
A ring and its reference. The reference keeps no cells and no cursor: all that can be seen after a
call it reads off the bytes fed since the last reset. The two agree after every call.
-/

namespace RemoteCalc

variable {σ : Type}

/-- What can be asked of a ring. -/
inductive Call where
  | feed (bs : Bytes)
  | reset

/-- What can be seen after a call. -/
structure View (σ : Type) where
  /-- The handler's state, which any record of the events is a case of. -/
  state : σ
  /-- The count that the call returned. -/
  count : Nat
  phase : Phase
  isIdle : Bool
  buffered : Nat

namespace Ring

/-- The views that calls leave, with a handler that has no failures. -/
def trace (handle : Handler σ Empty) (r : Ring) (s : σ) : List Call → List (View σ)
  | [] => []
  | .reset :: calls =>
    let r := r.reset
    ⟨s, 0, r.phase, r.isIdle, r.buffered⟩ :: trace handle r s calls
  | .feed bs :: calls =>
    match r.feed handle s bs with
    | ⟨r, s, .ok n⟩ => ⟨s, n, r.phase, r.isIdle, r.buffered⟩ :: trace handle r s calls
    | ⟨_, _, .error e⟩ => e.elim

end Ring

namespace Framing

/-- A handler's state after the events of a stream. -/
def heard (role : Role) (capacity : Nat) (handle : Handler σ Empty) (s : σ) (seen : Bytes) : σ :=
  (events role capacity seen).foldl (fun s event => (handle event s).1) s

/-- The view that a stream leaves; `s` is the handler's state before its first byte. -/
def view (role : Role) (capacity : Nat) (handle : Handler σ Empty) (s : σ) (count : Nat)
    (seen : Bytes) : View σ where
  state := heard role capacity handle s seen
  count
  phase := phase capacity seen
  isIdle := seen.rest = []
  buffered := buffered capacity seen

/-- The views that calls leave when `seen` was fed since the last reset. A feed returns the number
of messages that its own bytes complete. -/
def trace (role : Role) (capacity : Nat) (handle : Handler σ Empty) (s : σ) (seen : Bytes) :
    List Call → List (View σ)
  | [] => []
  | .reset :: calls =>
    let s := heard role capacity handle s seen
    view role capacity handle s 0 [] :: trace role capacity handle s [] calls
  | .feed bs :: calls =>
    let count := found capacity (seen ++ bs) - found capacity seen
    view role capacity handle s count (seen ++ bs) ::
      trace role capacity handle s (seen ++ bs) calls

end Framing

namespace Ring

variable {role : Role} {capacity : Nat} {seen : Bytes} {r : Ring}

theorem Tracks.isIdle_eq (h : r.Tracks role capacity seen) :
    r.isIdle = (seen.rest = [] : Bool) := by
  rw [isIdle, h.phase_eq, Framing.phase]
  by_cases he : seen.rest = []
  · simp [he]
  · by_cases hl : capacity ≤ seen.rest.length
    · simp [he, hl]
    · simp [he, hl]

/-- A ring that is reset where it is not idle holds no part of a message. -/
theorem Tracks.settle (h : r.Tracks role capacity seen) :
    ∃ seen', (if r.isIdle then r else r.reset).Tracks role capacity seen' ∧ seen'.rest = [] := by
  by_cases hidle : r.isIdle
  · have hrest := h.isIdle_eq
    rw [hidle] at hrest
    rw [if_pos hidle]
    exact ⟨seen, h, of_decide_eq_true hrest.symm⟩
  · rw [if_neg hidle]
    exact ⟨[], h.reset, Bytes.rest_nil⟩

theorem Tracks.buffered_eq (h : r.Tracks role capacity seen) :
    r.buffered = Framing.buffered capacity seen := by
  rw [buffered, h.phase_eq, Framing.phase, Framing.buffered]
  by_cases he : seen.rest = []
  · simp [he]
  · by_cases hl : capacity ≤ seen.rest.length
    · simp [he, hl]
    · simp [he, hl]

theorem Tracks.view_eq (h : r.Tracks role capacity seen) (handle : Handler σ Empty) (s : σ)
    (count : Nat) :
    (⟨Framing.heard role capacity handle s seen, count, r.phase, r.isIdle, r.buffered⟩ : View σ) =
      Framing.view role capacity handle s count seen := by
  rw [h.phase_eq, h.isIdle_eq, h.buffered_eq, Framing.view]

/-- A feed hands the handler the events of its bytes and no others. -/
theorem Tracks.feed_heard (h : r.Tracks role capacity seen) (handle : Handler σ Empty) (s : σ)
    (bs : Bytes) : ∃ r', r'.Tracks role capacity (seen ++ bs) ∧
      r.feed handle (Framing.heard role capacity handle s seen) bs =
        ⟨r', Framing.heard role capacity handle s (seen ++ bs),
          .ok (Framing.found capacity (seen ++ bs) - Framing.found capacity seen)⟩ := by
  have hroom := h.roomy
  have hrun : Handler.run handle (Framing.heard role capacity handle s seen)
      (Framing.raised role capacity seen bs) =
      (Framing.heard role capacity handle s (seen ++ bs), none) := by
    rw [Handler.run_eq_foldl, Framing.heard, Framing.heard, Framing.events_append (by omega),
      List.foldl_append]
  obtain ⟨r', k, ht, hk, hf⟩ := h.feedFrom_ok 0 hrun
  refine ⟨r', ht, ?_⟩
  rw [feed, hf, hk, Nat.zero_add, Nat.add_sub_cancel_left]

theorem Tracks.trace_eq (h : r.Tracks role capacity seen) (handle : Handler σ Empty) (s : σ)
    (calls : List Call) :
    r.trace handle (Framing.heard role capacity handle s seen) calls =
      Framing.trace role capacity handle s seen calls := by
  have hroom := h.roomy
  induction calls generalizing r seen s with
  | nil => rfl
  | cons call calls ih =>
    cases call with
    | reset =>
      have hnil (s : σ) : Framing.heard role capacity handle s [] = s := by
        rw [Framing.heard, Framing.events_nil (by omega), List.foldl_nil]
      have ht := h.reset
      have hi := ih ht (Framing.heard role capacity handle s seen)
      have hv := ht.view_eq handle (Framing.heard role capacity handle s seen) 0
      rw [hnil] at hi hv
      rw [Ring.trace, Framing.trace, hi, hv]
    | feed bs =>
      obtain ⟨r', ht, hf⟩ := h.feed_heard handle s bs
      simp only [Ring.trace, Framing.trace, hf, ih ht, ht.view_eq]

/-- A ring of any capacity shows after every call what its reference shows, which works on the
bytes fed since the last reset alone. -/
theorem trace_empty (role : Role) (c : Nat) (handle : Handler σ Empty) (s : σ)
    (calls : List Call) :
    (empty role c).trace handle s calls =
      Framing.trace role (max c minCapacity) handle s [] calls := by
  have ht := tracks_empty role c
  have hroom := ht.roomy
  have h := ht.trace_eq handle s calls
  rw [Framing.heard, Framing.events_nil (by omega), List.foldl_nil] at h
  exact h

end Ring

end RemoteCalc
