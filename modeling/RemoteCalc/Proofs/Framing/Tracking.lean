import RemoteCalc.Framing.Feed
import RemoteCalc.Proofs.Framing.Segments

/-!
A ring is a view of the bytes fed since its last reset: `Ring.Tracks` says where its cursor stands,
which cells hold the message in flight and what its phase is. Every push keeps that and raises the
event that the stream asks for, so that a feed hands exactly the events of its bytes to the handler.
-/

namespace RemoteCalc

namespace Ring

theorem store_capacity (r : Ring) (b : UInt8) (start len : Nat) :
    (r.store b start len).capacity = r.capacity := by
  simp [store, capacity]

theorem length_span {r : Ring} {start len : Nat} (hs : start < r.capacity)
    (hl : len ≤ r.capacity) : (r.span start len).length = len := by
  rw [span]
  unfold capacity at *
  split
  · simp; omega
  · simp; omega

/-- A span that wraps around the end still has its bytes in order. -/
theorem getElem?_span {r : Ring} {start len i : Nat} (hs : start < r.capacity)
    (hl : len ≤ r.capacity) (hi : i < len) :
    (r.span start len)[i]? = r.cells[(start + i) % r.capacity]? := by
  rw [span]
  unfold capacity at *
  split
  · rw [Nat.mod_eq_of_lt (by omega)]
    simp only [Array.getElem?_toList, Array.getElem?_extract]
    rw [if_pos (by omega)]
  · by_cases hw : start + i < r.cells.size
    · rw [Nat.mod_eq_of_lt hw, List.getElem?_append_left (by simp; omega)]
      simp only [Array.getElem?_toList, Array.getElem?_extract]
      rw [if_pos (by omega)]
    · have hm : (start + i) % r.cells.size = start + i - r.cells.size := by
        rw [Nat.mod_eq_sub_mod (by omega), Nat.mod_eq_of_lt (by omega)]
      rw [hm, List.getElem?_append_right (by simp; omega)]
      simp only [Array.length_toList, Array.size_extract, Array.getElem?_toList,
        Array.getElem?_extract]
      rw [if_pos (by omega)]
      congr 1
      omega

/-- A ring of this role and capacity is as these bytes leave it, fed since the last reset. -/
structure Tracks (role : Role) (capacity : Nat) (seen : Bytes) (r : Ring) : Prop where
  roomy : 2 ≤ capacity
  role_eq : r.role = role
  capacity_eq : r.capacity = capacity
  phase_eq : r.phase = Framing.phase capacity seen
  cursor_eq : r.cursor =
    (Framing.origin capacity seen + min seen.rest.length (capacity - 1)) % capacity
  cells_eq : seen.rest.length < capacity → ∀ (i : Nat) (h : i < seen.rest.length),
    r.cells[(Framing.origin capacity seen + i) % capacity]? = some seen.rest[i]

variable {role : Role} {capacity : Nat} {seen : Bytes} {r : Ring}

theorem max_minCapacity_pos (capacity : Nat) : 0 < max capacity minCapacity :=
  Nat.lt_of_lt_of_le (by decide) (Nat.le_max_right capacity minCapacity)

theorem tracks_empty (role : Role) (c : Nat) :
    (empty role c).Tracks role (max c minCapacity) [] where
  roomy := by simp only [minCapacity]; omega
  role_eq := rfl
  capacity_eq := by simp [empty, Ring.capacity]
  phase_eq := by simp [empty, Framing.phase]
  cursor_eq := by simp [empty, Framing.origin]
  cells_eq := by simp

theorem Tracks.reset (h : r.Tracks role capacity seen) : r.reset.Tracks role capacity [] where
  roomy := h.roomy
  role_eq := h.role_eq
  capacity_eq := h.capacity_eq
  phase_eq := by simp [Ring.reset, Framing.phase]
  cursor_eq := by simp [Ring.reset, Framing.origin]
  cells_eq := by simp

theorem Tracks.origin_lt (h : r.Tracks role capacity seen) :
    Framing.origin capacity seen < capacity := by
  have := h.roomy
  exact Nat.mod_lt _ (by omega)

theorem Tracks.span_eq (h : r.Tracks role capacity seen) (hl : seen.rest.length < capacity) :
    r.span (Framing.origin capacity seen) seen.rest.length = seen.rest := by
  have hs : Framing.origin capacity seen < r.capacity := h.capacity_eq ▸ h.origin_lt
  have hr : seen.rest.length ≤ r.capacity := by rw [h.capacity_eq]; omega
  apply List.ext_getElem?
  intro i
  by_cases hi : i < seen.rest.length
  · rw [getElem?_span hs hr hi, h.capacity_eq, h.cells_eq hl i hi, List.getElem?_eq_getElem hi]
  · have hi' : seen.rest.length ≤ i := Nat.le_of_not_lt hi
    rw [List.getElem?_eq_none hi', List.getElem?_eq_none (by rw [length_span hs hr]; exact hi')]

theorem Tracks.concat_mark (h : r.Tracks role capacity seen) :
    ({ r with phase := .idle } : Ring).Tracks role capacity (seen ++ [endMark]) where
  roomy := h.roomy
  role_eq := h.role_eq
  capacity_eq := h.capacity_eq
  phase_eq := by simp [Framing.phase]
  cursor_eq := by
    rw [Framing.origin_concat_mark]
    simpa using h.cursor_eq
  cells_eq := by simp

/-- A byte with room for it goes to the cell after those of the message in flight. -/
theorem Tracks.concat_store (h : r.Tracks role capacity seen) {b : UInt8} (hb : b ≠ endMark)
    (hl : seen.rest.length + 1 < capacity) :
    (r.store b (Framing.origin capacity seen) (seen.rest.length + 1)).Tracks role capacity
      (seen ++ [b]) where
  roomy := h.roomy
  role_eq := h.role_eq
  capacity_eq := (store_capacity ..).trans h.capacity_eq
  phase_eq := by
    simp [store, Framing.phase, Bytes.rest_concat hb, Framing.origin_concat hb,
      Nat.not_le_of_gt hl]
  cursor_eq := by
    have hm : min seen.rest.length (capacity - 1) = seen.rest.length := by omega
    have hm' : min (seen.rest.length + 1) (capacity - 1) = seen.rest.length + 1 := by omega
    simp only [store, Framing.origin_concat hb, Bytes.rest_concat hb, List.length_append,
      List.length_singleton, h.capacity_eq, h.cursor_eq, hm, hm', Nat.mod_add_mod, Nat.add_assoc]
  cells_eq := by
    intro _ i hi
    have hm : min seen.rest.length (capacity - 1) = seen.rest.length := by omega
    have hc : r.cursor = (Framing.origin capacity seen + seen.rest.length) % capacity := by
      rw [h.cursor_eq, hm]
    have hsize : r.cells.size = capacity := h.capacity_eq
    have hin : r.cursor < r.cells.size := by
      rw [hc, hsize]
      exact Nat.mod_lt _ (by omega)
    simp only [store, Framing.origin_concat hb, Bytes.rest_concat hb]
    simp only [Bytes.rest_concat hb, List.length_append, List.length_singleton] at hi
    by_cases he : i = seen.rest.length
    · subst he
      rw [← hc, Array.getElem?_setIfInBounds_self_of_lt hin]
      simp
    · have hlt : i < seen.rest.length := by omega
      have hne : r.cursor ≠ (Framing.origin capacity seen + i) % capacity := by
        rw [hc]
        intro hcell
        -- two cells of one turn of the ring
        have hturn := Nat.sub_mod_eq_zero_of_mod_eq hcell
        rw [Nat.add_sub_add_left, Nat.mod_eq_of_lt (by omega)] at hturn
        omega
      rw [Array.getElem?_setIfInBounds_ne hne, h.cells_eq (by omega) i hlt]
      simp [List.getElem_append_left hlt]

theorem Tracks.concat_overflow (h : r.Tracks role capacity seen) {b : UInt8} (hb : b ≠ endMark)
    (hl : capacity ≤ seen.rest.length + 1) :
    ({ r with phase := .discarding } : Ring).Tracks role capacity (seen ++ [b]) where
  roomy := h.roomy
  role_eq := h.role_eq
  capacity_eq := h.capacity_eq
  phase_eq := by simp [Framing.phase, Bytes.rest_concat hb, hl]
  cursor_eq := by
    have hm : min seen.rest.length (capacity - 1) = capacity - 1 := by omega
    have hm' : min (seen.rest.length + 1) (capacity - 1) = capacity - 1 := by omega
    simp only [Framing.origin_concat hb, Bytes.rest_concat hb, List.length_append,
      List.length_singleton, h.cursor_eq, hm, hm']
  cells_eq := by
    intro hlt
    simp only [Bytes.rest_concat hb, List.length_append, List.length_singleton] at hlt
    omega

/-- A push makes the view one byte longer and raises what the stream asks for. -/
theorem Tracks.push (h : r.Tracks role capacity seen) (b : UInt8) :
    (r.push b).1.Tracks role capacity (seen ++ [b]) ∧
      (r.push b).2 = Framing.raised? role capacity seen b := by
  have hroom := h.roomy
  by_cases he : seen.rest = []
  · have hp : r.phase = .idle := by rw [h.phase_eq, Framing.phase, if_pos he]
    by_cases hb : b = endMark
    · subst hb
      have hr : ({ r with phase := .idle } : Ring) = r := by rw [← hp]
      have ht := h.concat_mark
      rw [hr] at ht
      simpa [Ring.push, hp, Framing.raised?, Framing.isMessage, he] using ht
    · have ho : r.cursor = Framing.origin capacity seen := by
        rw [h.cursor_eq, he]
        simp [Nat.mod_eq_of_lt h.origin_lt]
      have ht := h.concat_store hb (by rw [he]; exact hroom)
      simp only [he, List.length_nil, Nat.zero_add] at ht
      refine ⟨by simpa [Ring.push, hp, hb, ho] using ht, ?_⟩
      have hne : 1 ≠ capacity := by omega
      simp [Ring.push, hp, hb, Framing.raised?, he, hne]
  by_cases hl : capacity ≤ seen.rest.length
  · have hp : r.phase = .discarding := by rw [h.phase_eq, Framing.phase, if_neg he, if_pos hl]
    by_cases hb : b = endMark
    · subst hb
      refine ⟨by simpa [Ring.push, hp] using h.concat_mark, ?_⟩
      simp [Ring.push, hp, Framing.raised?, Framing.isMessage, Nat.not_lt_of_ge hl]
    · have hr : ({ r with phase := .discarding } : Ring) = r := by rw [← hp]
      have ht := h.concat_overflow hb (Nat.le_succ_of_le hl)
      rw [hr] at ht
      have hne : seen.rest.length + 1 ≠ capacity := by omega
      refine ⟨by simpa [Ring.push, hp, hb] using ht, ?_⟩
      simp [Ring.push, hp, hb, Framing.raised?, hne]
  · have hp : r.phase = .accumulating (Framing.origin capacity seen) seen.rest.length := by
      rw [h.phase_eq, Framing.phase, if_neg he, if_neg hl]
    have hlt : seen.rest.length < capacity := Nat.lt_of_not_le hl
    by_cases hb : b = endMark
    · subst hb
      refine ⟨by simpa [Ring.push, hp] using h.concat_mark, ?_⟩
      simp [Ring.push, hp, Framing.raised?, Framing.isMessage, he, hlt, h.role_eq, h.span_eq hlt]
    · by_cases hf : capacity ≤ seen.rest.length + 1
      · have heq : seen.rest.length + 1 = capacity := by omega
        refine ⟨by simpa [Ring.push, hp, hb, h.capacity_eq, hf] using h.concat_overflow hb hf, ?_⟩
        simp [Ring.push, hp, hb, h.capacity_eq, Framing.raised?, heq, Framing.overflow]
      · have hne : seen.rest.length + 1 ≠ capacity := by omega
        have ht := h.concat_store hb (Nat.lt_of_not_le hf)
        refine ⟨by simpa [Ring.push, hp, hb, h.capacity_eq, hf] using ht, ?_⟩
        simp [Ring.push, hp, hb, h.capacity_eq, hf, Framing.raised?, hne]

end Ring

end RemoteCalc
