import RemoteCalc.Message.Decode
import RemoteCalc.Proofs.Decimal.Grammar
import RemoteCalc.Proofs.Text.Utf8

/-! What a message's fields are, and what stands in a field. -/

namespace RemoteCalc

section Cut

variable {α : Type} [DecidableEq α] {d : α} {as p : List α} {ps : List (List α)}

theorem cut_eq_splitOn (d : α) (as : List α) : cut d as = as.splitOn d := by
  induction as with
  | nil => rfl
  | cons a as ih =>
    have hne := List.splitOnP_ne_nil (· == d) as
    simp only [cut, ih, List.splitOn, List.splitOnP_cons_eq_if_modifyHead, beq_iff_eq]
    split
    · rfl
    · cases hsplit : as.splitOnP (· == d) with
      | nil => exact absurd hsplit hne
      | cons p ps => rfl

theorem not_mem_of_mem_cut (h : p ∈ cut d as) : d ∉ p := by
  induction as generalizing p with
  | nil => simp_all [cut]
  | cons a as ih =>
    rw [cut] at h
    split at h
    · rcases List.mem_cons.1 h with rfl | h
      · exact List.not_mem_nil
      · exact ih h
    · rename_i ha
      cases hcut : cut d as with
      | nil => exact absurd hcut (cut_ne_nil d as)
      | cons q qs =>
        rw [hcut] at h ih
        rcases List.mem_cons.1 h with rfl | h
        · rw [List.mem_cons, not_or]
          exact ⟨Ne.symm ha, ih (List.mem_cons_self ..)⟩
        · exact ih (List.mem_cons_of_mem q h)

/-- A list falls into the pieces, without a delimiter in them, that make it up with a delimiter
between each two. -/
theorem cut_eq_iff : cut d as = ps ↔ ps ≠ [] ∧ (∀ p ∈ ps, d ∉ p) ∧ [d].intercalate ps = as := by
  constructor
  · rintro rfl
    refine ⟨cut_ne_nil d as, fun p hp => not_mem_of_mem_cut hp, ?_⟩
    rw [cut_eq_splitOn, List.intercalate_splitOn]
  · rintro ⟨hne, hps, rfl⟩
    rw [cut_eq_splitOn, List.splitOn_intercalate d hps hne]

end Cut

namespace Text

/-- What is left of a text without the blanks around it. -/
structure Trimmed (t u : Text) : Prop where
  padded : ∃ before after, t = before ++ u ++ after ∧ (∀ c ∈ before, isBlank c) ∧
    ∀ c ∈ after, isBlank c
  first : ∀ c ∈ u.head?, isBlank c = false
  last : ∀ c ∈ u.getLast?, isBlank c = false

variable {t u : Text}

theorem dropWhile_blank {before : Text} (h : ∀ c ∈ before, isBlank c)
    (hu : ∀ c ∈ u.head?, isBlank c = false) : (before ++ u).dropWhile isBlank = u := by
  rw [List.dropWhile_append_of_pos h]
  cases u with
  | nil => rfl
  | cons c u => rw [List.dropWhile_cons_of_neg (by simp [hu c rfl])]

theorem trim_eq_iff : trim t = u ↔ Trimmed t u := by
  constructor
  · rintro rfl
    obtain ⟨u, hu⟩ : ∃ u, t.dropWhile isBlank = u := ⟨_, rfl⟩
    obtain ⟨v, hv⟩ : ∃ v, u.reverse.dropWhile isBlank = v := ⟨_, rfl⟩
    have htrim : trim t = v.reverse := by rw [trim, trimEnd, trimStart, hu, hv]
    have hstart : t = t.takeWhile isBlank ++ u := by rw [← hu, List.takeWhile_append_dropWhile]
    have hend : u = v.reverse ++ (u.reverse.takeWhile isBlank).reverse := by
      rw [← hv, ← List.reverse_append, List.takeWhile_append_dropWhile, List.reverse_reverse]
    rw [htrim]
    constructor
    case padded =>
      refine ⟨t.takeWhile isBlank, (u.reverse.takeWhile isBlank).reverse, ?_, ?_, ?_⟩
      · rw [List.append_assoc, ← hend]
        exact hstart
      · intro c hc
        exact List.mem_takeWhile_imp hc
      · intro c hc
        exact List.mem_takeWhile_imp (List.mem_reverse.1 hc)
    case first =>
      intro c hc
      have hfirst := List.head?_dropWhile_not isBlank t
      rw [hu, hend, List.head?_append, Option.mem_def.1 hc] at hfirst
      exact hfirst
    case last =>
      intro c hc
      have hlast := List.head?_dropWhile_not isBlank u.reverse
      rw [List.getLast?_reverse] at hc
      rw [hv, Option.mem_def.1 hc] at hlast
      exact hlast
  · rintro ⟨⟨before, after, rfl, hbefore, hafter⟩, hfirst, hlast⟩
    have hafter' : ∀ c ∈ after.reverse, isBlank c := by
      intro c hc
      exact hafter c (List.mem_reverse.1 hc)
    rw [trim, trimEnd, trimStart, List.append_assoc]
    cases u with
    | nil =>
      -- nothing but blanks: all of them go from the front
      have hall : ∀ c ∈ before ++ after, isBlank c := by
        intro c hc
        rcases List.mem_append.1 hc with hc | hc
        · exact hbefore c hc
        · exact hafter c hc
      have hdrop := dropWhile_blank hall (u := []) (by simp)
      rw [List.append_nil] at hdrop
      rw [List.nil_append, hdrop]
      rfl
    | cons c u =>
      have hstart : (before ++ (c :: u ++ after)).dropWhile isBlank = c :: u ++ after :=
        dropWhile_blank hbefore hfirst
      rw [hstart, List.reverse_append, dropWhile_blank hafter', List.reverse_reverse]
      intro b hb
      rw [List.head?_reverse] at hb
      exact hlast b hb

end Text

/-- A field holds a value: its bytes are those of a text that, without the blanks around it, writes
the value. -/
def Holds {α : Type} (writes : Text → α → Prop) (field : Bytes) (a : α) : Prop :=
  ∃ t u, Utf8.encode t = field ∧ t.Trimmed u ∧ writes u a

def Decimal.Int32Text (t : Text) (i : Int32) : Prop := Whole t i.toInt

/-- The method has this name, and it is one that a message can ask for. -/
def Method.Named (t : Text) (m : Method) : Prop := m ≠ .none ∧ t = m.name

/-- The status has the code that the text writes. -/
def Status.Coded (t : Text) (s : Status) : Prop := Decimal.Int32Text t s.code

section Field

variable {α : Type} {writes : Text → α → Prop} {read : Text → Option α} {field : Bytes}

theorem holds_iff (h : ∀ t a, read t = some a ↔ writes t a) {a : α} :
    (fieldText? field).bind read = some a ↔ Holds writes field a := by
  rw [fieldText?, Option.bind_eq_some_iff]
  constructor
  · rintro ⟨u, hu, ha⟩
    obtain ⟨t, ht, htrim⟩ := Option.map_eq_some_iff.1 hu
    exact ⟨t, u, Utf8.decode?_eq_some.1 ht, Text.trim_eq_iff.1 htrim, (h u a).1 ha⟩
  · rintro ⟨t, u, ht, htrim, ha⟩
    refine ⟨u, ?_, (h u a).2 ha⟩
    rw [Utf8.decode?_eq_some.2 ht, Option.map_some, Text.trim_eq_iff.2 htrim]

theorem fieldInt32?_eq_some {i : Int32} :
    fieldInt32? field = some i ↔ Holds Decimal.Int32Text field i :=
  holds_iff fun _ _ => Decimal.readInt32?_eq_some

theorem fieldFloat?_eq_some {x : Float} :
    fieldFloat? field = some x ↔ Holds Decimal.FloatText field x :=
  holds_iff fun _ _ => Decimal.readFloat?_eq_some

theorem fieldMethod?_eq_some {m : Method} :
    fieldMethod? field = some m ↔ Holds Method.Named field m := by
  apply holds_iff
  intro t m
  constructor
  · exact Method.ofName?_eq_some
  · rintro ⟨hm, rfl⟩
    exact Method.ofName?_name hm

theorem fieldStatus?_eq_some {s : Status} :
    fieldStatus? field = some s ↔ Holds Status.Coded field s := by
  rw [fieldStatus?, fieldInt32?, Option.bind_assoc]
  apply holds_iff
  intro t s
  rw [Option.bind_eq_some_iff]
  constructor
  · rintro ⟨i, hi, hs⟩
    rw [Status.ofCode?_eq_some hs] at hi
    exact Decimal.readInt32?_eq_some.1 hi
  · intro h
    exact ⟨s.code, Decimal.readInt32?_eq_some.2 h, Status.ofCode?_code s⟩

end Field

end RemoteCalc
