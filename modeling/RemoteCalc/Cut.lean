/-! Cutting lists where a delimiter occurs. -/

namespace RemoteCalc

variable {α : Type} [DecidableEq α]

/-- The pieces between the occurrences of `d`; there is always at least one. -/
def cut (d : α) : List α → List (List α)
  | [] => [[]]
  | a :: as =>
    if a = d then [] :: cut d as
    else match cut d as with
      | [] => [[a]]
      | p :: ps => (a :: p) :: ps

theorem cut_ne_nil (d : α) (as : List α) : cut d as ≠ [] := by
  cases as with
  | nil => simp [cut]
  | cons a as =>
    unfold cut
    split
    · simp
    · split <;> simp

theorem cut_of_not_mem {d : α} {as : List α} (h : d ∉ as) : cut d as = [as] := by
  induction as with
  | nil => rfl
  | cons a as ih =>
    simp only [List.mem_cons, not_or] at h
    simp [cut, ih h.2, Ne.symm h.1]

theorem cut_append_cons {d : α} {p : List α} (h : d ∉ p) (as : List α) :
    cut d (p ++ d :: as) = p :: cut d as := by
  induction p with
  | nil => simp [cut]
  | cons a p ih =>
    simp only [List.mem_cons, not_or] at h
    simp [cut, ih h.2, Ne.symm h.1]

theorem cut_concat_self (d : α) (as : List α) : cut d (as ++ [d]) = cut d as ++ [[]] := by
  induction as with
  | nil => simp [cut]
  | cons a as ih =>
    simp only [List.cons_append, cut, ih]
    split
    · rfl
    · cases h : cut d as with
      | nil => exact absurd h (cut_ne_nil d as)
      | cons p ps => rfl

/-- An element that is no delimiter goes to the last piece. -/
theorem cut_concat {d a : α} (h : a ≠ d) (as : List α) :
    ∃ ps p, cut d as = ps ++ [p] ∧ cut d (as ++ [a]) = ps ++ [p ++ [a]] := by
  induction as with
  | nil => exact ⟨[], [], rfl, by simp [cut, h]⟩
  | cons b as ih =>
    obtain ⟨ps, p, he, he'⟩ := ih
    by_cases hb : b = d
    · exact ⟨[] :: ps, p, by simp [cut, hb, he], by simp [cut, hb, he']⟩
    · cases ps with
      | nil => exact ⟨[], b :: p, by simp [cut, hb, he], by simp [cut, hb, he']⟩
      | cons q ps => exact ⟨(b :: q) :: ps, p, by simp [cut, hb, he], by simp [cut, hb, he']⟩

/-- What stands before and after the first occurrence of `op`. -/
def splitAt? (op : List α) : List α → Option (List α × List α)
  | [] => none
  | a :: as =>
    if op.isPrefixOf (a :: as) then some ([], (a :: as).drop op.length)
    else (splitAt? op as).map fun (left, right) => (a :: left, right)

end RemoteCalc
