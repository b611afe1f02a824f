import RemoteCalc.Proofs.Server.Holding
import RemoteCalc.Server.Listener

/-!
The slots of a listener. What became of each stream that connected is told here by their history
alone: a stream is refused when as many of the earlier ones wait for their peers as there are slots,
and one waits exactly where its script holds it. The listener's count and its registry, which every
way out of serving has to restore, agree with that history before every accept, and at the end
nothing is left of either.
-/

namespace RemoteCalc

/-- What becomes of a stream that connects. -/
inductive Fate where
  | refused
  /-- It gets no slot: it cannot be set to block, or there is no second handle to shut it down. -/
  | dropped (blocking : Bool)
  | served (s : Stream) (result : Except IoKind (Connection × Ending))

theorem StreamReport.shutDown_ofRun (config : Config)
    (result : Except IoKind (Connection × Ending)) : (ofRun config result).shutDown = false := by
  cases result with
  | error kind => rfl
  | ok served => rfl

/-- The memory that a connection leaves which has been served on `c`. -/
def Connection.left (c : Calculator) : Except IoKind (Connection × Ending) → Calculator
  | .ok (connection, _) => connection.conversation.calculator
  | .error _ => c

namespace Fate

/-- Whether the connection still waits for its peer. -/
def waits : Fate → Bool
  | served _ (.ok (_, ending)) => ending = .held
  | served _ (.error _) | refused | dropped _ => false

/-- Whether its stream holds the connection, when it is served on this memory. -/
def Holds (config : Config) (calculator : Calculator) : Fate → Prop
  | served s _ => s.Holds config calculator
  | refused | dropped _ => False

/-- The memory that is left to the next connection, if they share it. -/
def leaves (c : Calculator) : Fate → Calculator
  | served _ result => Connection.left c result
  | refused | dropped _ => c

def report (config : Config) : Fate → StreamReport
  | refused => { shutDown := true }
  | dropped blocking => { blocking }
  | served _ result => { StreamReport.ofRun config result with blocking := true }

/-- The report at the end, when those that wait have been shut down. -/
def finalReport (config : Config) (f : Fate) : StreamReport :=
  if f.waits then { f.report config with shutDown := true } else f.report config

end Fate

namespace Listener

/-- How many connections wait for their peers. -/
def waiting (past : List Fate) : Nat := past.countP Fate.waits

/-- The memory that those so far leave, if they share it. -/
def memory (past : List Fate) : Calculator := past.foldl Fate.leaves .fresh

/-- The memory that the next connection is served on. -/
def granted (config : Config) (past : List Fate) : Calculator :=
  if config.sharedMemory then memory past else .fresh

/-- The connections that wait are those that their streams hold. -/
def Scripted (config : Config) (past : List Fate) : Prop :=
  ∀ (i : Nat) (f : Fate), past[i]? = some f →
    (f.waits ↔ f.Holds config (granted config (past.take i)))

def fateOf (config : Config) (past : List Fate) (s : Stream) : Fate :=
  if waiting past = config.maxConnections then .refused
  else if s.blockingFailure.isSome then .dropped false
  else match s.clone with
    | .error _ => .dropped true
    | .ok s =>
      .served s (Connection.run config (if config.sharedMemory then memory past else .fresh) s)

/-- The fates of the streams that connect before the stop, after those in the past. -/
def fates (config : Config) (past : List Fate) : List Arrival → List Fate
  | [] | .stop :: _ => past
  | .fail _ :: rest => fates config past rest
  | .connect s :: rest => fates config (past ++ [fateOf config past s]) rest

/-- A listener's books are those of this history. -/
structure Accounts (config : Config) (past : List Fate) (l : Listener) : Prop where
  config_eq : l.config = config
  reports_eq : l.reports = past.map (Fate.report config)
  active_eq : l.active = waiting past
  active_le : waiting past ≤ config.maxConnections
  mem_registry : ∀ i, i ∈ l.registry ↔ ∃ f, past[i]? = some f ∧ f.waits
  length_registry : l.registry.length = l.active
  calculator_eq : config.sharedMemory → l.calculator = memory past

variable {config : Config} {past : List Fate} {l : Listener} {f : Fate}

theorem accounts_start (config : Config) : (start config).Accounts config [] where
  config_eq := rfl
  reports_eq := rfl
  active_eq := rfl
  active_le := Nat.zero_le _
  mem_registry := by
    intro i
    simp [start]
  length_registry := rfl
  calculator_eq := fun _ => rfl

/-- A listener that has entered the fate of one more stream in its books. -/
def enter (l : Listener) (f : Fate) : Listener :=
  { l with
    reports := l.reports ++ [f.report l.config]
    active := l.active + if f.waits then 1 else 0
    registry := l.registry ++ if f.waits then [l.reports.length] else []
    calculator := if l.config.sharedMemory then f.leaves l.calculator else l.calculator }

/-- A stream that takes no slot, or gives it back, and leaves memory alone only has its report. -/
theorem enter_eq_record (hwaits : f.waits = false) (hleaves : ∀ c, f.leaves c = c) :
    l.enter f = l.record (f.report l.config) := by
  simp [enter, record, hwaits, hleaves]

theorem waiting_concat (past : List Fate) (f : Fate) :
    waiting (past ++ [f]) = waiting past + if f.waits then 1 else 0 := by
  rw [waiting, List.countP_append, List.countP_singleton, waiting]

theorem memory_concat (past : List Fate) (f : Fate) :
    memory (past ++ [f]) = f.leaves (memory past) := by
  rw [memory, List.foldl_append, memory]
  rfl

theorem waits_concat_iff {i : Nat} :
    (∃ g, (past ++ [f])[i]? = some g ∧ g.waits) ↔
      (∃ g, past[i]? = some g ∧ g.waits) ∨ i = past.length ∧ f.waits := by
  rcases Nat.lt_trichotomy i past.length with hlt | heq | hgt
  · rw [List.getElem?_append_left hlt]
    constructor
    · exact .inl
    · rintro (h | ⟨heq, -⟩)
      · exact h
      · exact absurd heq (Nat.ne_of_lt hlt)
  · rw [heq, List.getElem?_concat_length, List.getElem?_eq_none (Nat.le_refl _)]
    simp
  · rw [List.getElem?_eq_none (Nat.le_of_lt hgt), List.getElem?_eq_none (by simp; omega)]
    simp [Nat.ne_of_gt hgt]

theorem Accounts.enter (h : l.Accounts config past)
    (hroom : f.waits → waiting past < config.maxConnections) :
    (l.enter f).Accounts config (past ++ [f]) := by
  have hplace : l.reports.length = past.length := by rw [h.reports_eq, List.length_map]
  constructor
  case config_eq => exact h.config_eq
  case reports_eq =>
    rw [Listener.enter, h.reports_eq, h.config_eq, List.map_append, List.map_singleton]
  case active_eq => rw [waiting_concat, ← h.active_eq, Listener.enter]
  case active_le =>
    have hle := h.active_le
    rw [waiting_concat]
    split
    · rename_i hwaits
      exact hroom hwaits
    · exact hle
  case mem_registry =>
    intro i
    rw [waits_concat_iff, ← h.mem_registry, Listener.enter, List.mem_append, hplace]
    by_cases hwaits : f.waits
    · rw [if_pos hwaits, List.mem_singleton, and_iff_left hwaits]
    · rw [if_neg hwaits]
      simp [hwaits]
  case length_registry =>
    rw [Listener.enter, List.length_append, h.length_registry]
    split
    · rfl
    · rfl
  case calculator_eq =>
    intro hshared
    rw [memory_concat, ← h.calculator_eq hshared, Listener.enter, h.config_eq, if_pos hshared]

/-- A slot that is given back leaves the books as if it had not been taken. -/
theorem release_eq {l' : Listener} {i : Nat} (h : i ∉ l.registry)
    (hactive : l'.active = l.active + 1) (hregistry : l'.registry = l.registry ++ [i]) :
    l'.release i = { l' with active := l.active, registry := l.registry } := by
  have herase : (l.registry ++ [i]).erase i = l.registry := by
    rw [List.erase_append_right _ h, List.erase_cons_head, List.append_nil]
  rw [release, hactive, hregistry, herase, Nat.add_sub_cancel]

theorem Accounts.place_not_mem (h : l.Accounts config past) : l.reports.length ∉ l.registry := by
  intro hmem
  obtain ⟨f, hf, -⟩ := (h.mem_registry _).1 hmem
  rw [h.reports_eq, List.length_map, List.getElem?_eq_none (Nat.le_refl _)] at hf
  cases hf

/-- To accept a stream is to enter its fate: every way out restores the count and the registry. -/
theorem Accounts.accept_eq (h : l.Accounts config past) (s : Stream) :
    l.accept s = l.enter (fateOf config past s) := by
  have hplace := h.place_not_mem
  have hle := h.active_le
  obtain rfl := h.config_eq
  rw [accept, fateOf, h.active_eq]
  by_cases hfull : waiting past = l.config.maxConnections
  · rw [if_pos hfull, if_pos (Nat.le_of_eq hfull.symm)]
    exact (enter_eq_record (f := .refused) rfl fun _ => rfl).symm
  rw [if_neg hfull, if_neg (by omega)]
  by_cases hblocking : s.blockingFailure.isSome
  · rw [if_pos hblocking, if_pos hblocking]
    exact (enter_eq_record (f := .dropped false) rfl fun _ => rfl).symm
  rw [if_neg hblocking, if_neg hblocking]
  cases s.clone with
  | error kind => exact (enter_eq_record (f := .dropped true) rfl fun _ => rfl).symm
  | ok s =>
    have hcalculator : (if l.config.sharedMemory then l.calculator else .fresh) =
        if l.config.sharedMemory then memory past else .fresh := by
      split
      · rename_i hshared
        exact h.calculator_eq hshared
      · rfl
    simp only [hcalculator]
    cases Connection.run l.config (if l.config.sharedMemory then memory past else .fresh) s with
    | error kind =>
      rw [enter_eq_record rfl fun _ => rfl]
      exact release_eq hplace rfl rfl
    | ok served =>
      obtain ⟨c, ending⟩ := served
      have hsame (r : StreamReport) :
        ((l.register l.reports.length).record r).config = l.config := rfl
      simp only [hsame, Listener.enter, Fate.waits, Fate.leaves, Connection.left, Fate.report,
        decide_eq_true_eq]
      by_cases hheld : ending = .held
      · -- the slot stays taken
        rw [if_pos hheld, if_pos hheld, if_pos hheld]
        split
        · rfl
        · rfl
      · -- the worker gives the slot back
        rw [if_neg hheld, if_neg hheld, if_neg hheld, Nat.add_zero, List.append_nil]
        split
        · exact release_eq hplace rfl rfl
        · exact release_eq hplace rfl rfl

theorem waits_served {s : Stream} {calculator : Calculator} :
    (Fate.served s (Connection.run config calculator s)).waits ↔ s.Holds config calculator := by
  rw [← Connection.run_held_iff]
  cases Connection.run config calculator s with
  | error kind => simp [Fate.waits]
  | ok served => simp [Fate.waits, Prod.ext_iff]

theorem waits_fateOf_iff (s : Stream) :
    (fateOf config past s).waits ↔ (fateOf config past s).Holds config (granted config past) := by
  rw [fateOf]
  split
  · exact iff_of_false Bool.false_ne_true id
  · split
    · exact iff_of_false Bool.false_ne_true id
    · split
      · exact iff_of_false Bool.false_ne_true id
      · exact waits_served

theorem Scripted.concat (h : Scripted config past) (s : Stream) :
    Scripted config (past ++ [fateOf config past s]) := by
  intro i f hf
  rcases Nat.lt_trichotomy i past.length with hlt | heq | hgt
  · rw [List.getElem?_append_left hlt] at hf
    rw [List.take_append_of_le_length (Nat.le_of_lt hlt)]
    exact h i f hf
  · rw [heq, List.getElem?_concat_length, Option.some.injEq] at hf
    rw [heq, List.take_left, ← hf]
    exact waits_fateOf_iff s
  · rw [List.getElem?_eq_none (by simp; omega)] at hf
    cases hf

theorem Scripted.fates (h : Scripted config past) (arrivals : List Arrival) :
    Scripted config (fates config past arrivals) := by
  induction arrivals generalizing past with
  | nil => exact h
  | cons arrival arrivals ih =>
    cases arrival with
    | connect s => exact ih (h.concat s)
    | fail kind => exact ih h
    | stop => exact h

theorem scripted_nil (config : Config) : Scripted config [] := by
  intro i f hf
  cases hf

theorem waits_fateOf {s : Stream} (h : (fateOf config past s).waits) :
    waiting past ≠ config.maxConnections := by
  intro hfull
  rw [fateOf, if_pos hfull] at h
  cases h

theorem Accounts.accept (h : l.Accounts config past) (s : Stream) :
    (l.accept s).Accounts config (past ++ [fateOf config past s]) := by
  rw [h.accept_eq]
  apply h.enter
  intro hwaits
  exact Nat.lt_of_le_of_ne h.active_le (waits_fateOf hwaits)

theorem Accounts.serve (h : l.Accounts config past) (arrivals : List Arrival) :
    (l.serve arrivals).Accounts config (fates config past arrivals) := by
  induction arrivals generalizing l past with
  | nil => exact h
  | cons arrival arrivals ih =>
    cases arrival with
    | connect s => exact ih (h.accept s)
    | fail kind => exact ih h
    | stop => exact h

theorem serve_append {pre : List Arrival} (h : .stop ∉ pre) (l : Listener) (rest : List Arrival) :
    l.serve (pre ++ rest) = (l.serve pre).serve rest := by
  induction pre generalizing l with
  | nil => rfl
  | cons arrival pre ih =>
    rw [List.mem_cons, not_or] at h
    cases arrival with
    | connect s => exact ih h.2 (l.accept s)
    | fail kind => exact ih h.2 l
    | stop => exact absurd rfl h.1

/-- What comes of a stream that connects after others of which this became. -/
structure Admits (config : Config) (past : List Fate) (l : Listener) (s : Stream)
    (after : Listener) : Prop where
  refused_iff : after = l.record { shutDown := true } ↔ waiting past = config.maxConnections
  unready : waiting past ≠ config.maxConnections → s.blockingFailure.isSome → after = l.record {}
  unregistered : waiting past ≠ config.maxConnections → s.blockingFailure = none →
    ∀ kind, s.clone = .error kind → after = l.record { blocking := true }
  served : waiting past ≠ config.maxConnections → s.blockingFailure = none →
    ∀ s', s.clone = .ok s' →
    let calculator := if config.sharedMemory then l.calculator else .fresh
    let report := StreamReport.ofRun config (Connection.run config calculator s')
    after.reports = l.reports ++ [{ report with blocking := true }] ∧
      -- it waits for its peer and keeps the slot, or ends in some way and gives it back
      (s'.Holds config calculator ∨ s'.Ends config calculator) ∧
      (s'.Holds config calculator →
        after.active = l.active + 1 ∧ after.registry = l.registry ++ [l.reports.length]) ∧
      (s'.Ends config calculator → after.active = l.active ∧ after.registry = l.registry)

theorem shutDown_report {s : Stream} (h : waiting past ≠ config.maxConnections) :
    ((fateOf config past s).report config).shutDown = false := by
  rw [fateOf, if_neg h]
  split
  · rfl
  · split
    · rfl
    · exact StreamReport.shutDown_ofRun config _

theorem Accounts.admits (h : l.Accounts config past) (s : Stream) :
    Admits config past l s (l.accept s) := by
  have haccept := h.accept_eq s
  obtain rfl := h.config_eq
  constructor
  case refused_iff =>
    constructor
    · intro hrefused
      by_contra hroom
      rw [haccept] at hrefused
      have hreports := List.append_cancel_left (congrArg reports hrefused)
      have hshut := shutDown_report (s := s) hroom
      rw [List.singleton_inj.1 hreports] at hshut
      cases hshut
    · intro hfull
      rw [haccept, fateOf, if_pos hfull]
      exact enter_eq_record (f := .refused) rfl fun _ => rfl
  case unready =>
    intro hroom hblocking
    rw [haccept, fateOf, if_neg hroom, if_pos hblocking]
    exact enter_eq_record (f := .dropped false) rfl fun _ => rfl
  case unregistered =>
    intro hroom hblocking kind hclone
    rw [haccept, fateOf, if_neg hroom, hblocking, hclone]
    exact enter_eq_record (f := .dropped true) rfl fun _ => rfl
  case served =>
    intro hroom hblocking s' hclone calculator report
    have hcalculator : calculator = granted l.config past := by
      rw [granted]
      by_cases hshared : l.config.sharedMemory
      · rw [if_pos hshared, ← h.calculator_eq hshared]
        exact if_pos hshared
      · rw [if_neg hshared]
        exact if_neg hshared
    have hfate : fateOf l.config past s =
        .served s' (Connection.run l.config calculator s') := by
      rw [fateOf, if_neg hroom, hblocking, hclone, hcalculator]
      rfl
    rw [haccept, hfate]
    refine ⟨rfl, ?_, ?_, ?_⟩
    · rw [Stream.ends_iff]
      exact Classical.em _
    · intro hholds
      have hwaits := waits_served.2 hholds
      rw [Listener.enter, if_pos hwaits, if_pos hwaits]
      exact ⟨rfl, rfl⟩
    · intro hends
      have hwaits := mt waits_served.1 (Stream.ends_iff.1 hends)
      rw [Listener.enter, if_neg hwaits, if_neg hwaits]
      exact ⟨rfl, List.append_nil _⟩

def shut (r : StreamReport) : StreamReport := { r with shutDown := true }

theorem shutDown_eq {i : Nat} {rest : List Nat} (h : l.registry = i :: rest) :
    l.shutDown i = { l with
      reports := l.reports.modify i shut, active := l.active - 1, registry := rest } := by
  rw [shutDown, release, h, List.erase_cons_head]
  rfl

theorem stop_eq (l : Listener) : l.stop = { l with
    reports := l.registry.foldl (fun reports i => reports.modify i shut) l.reports
    active := l.active - l.registry.length
    registry := [] } := by
  obtain ⟨is, his⟩ : ∃ is, is = l.registry := ⟨_, rfl⟩
  rw [stop, ← his]
  induction is generalizing l with
  | nil =>
    have hnil : l.registry = [] := his.symm
    rw [List.foldl_nil, List.foldl_nil, List.length_nil, Nat.sub_zero, ← hnil]
  | cons i is ih =>
    -- the one shut down is always the first in the registry
    have hrest := shutDown_eq his.symm
    rw [List.foldl_cons, ih (l.shutDown i) (by rw [hrest]), hrest]
    simp only [List.foldl_cons, List.length_cons, Nat.sub_sub, Nat.add_comm]

theorem getElem?_foldl_modify (is : List Nat) (reports : List StreamReport) (j : Nat) :
    (is.foldl (fun reports i => reports.modify i shut) reports)[j]? =
      reports[j]?.map fun r => if j ∈ is then shut r else r := by
  induction is generalizing reports with
  | nil => simp
  | cons i is ih =>
    rw [List.foldl_cons, ih, List.getElem?_modify]
    by_cases hi : i = j
    · simp [hi, shut, Function.comp_def]
    · simp [hi, Ne.symm hi]

/-- At the stop all that waited have been shut down, and nothing is left in the books. -/
theorem Accounts.stop_eq (h : l.Accounts config past) :
    l.stop.reports = past.map (Fate.finalReport config) ∧ l.stop.active = 0 ∧
      l.stop.registry = [] := by
  rw [Listener.stop_eq, h.length_registry]
  refine ⟨?_, Nat.sub_self _, rfl⟩
  apply List.ext_getElem?
  intro i
  rw [getElem?_foldl_modify, h.reports_eq, List.getElem?_map, List.getElem?_map, Option.map_map]
  cases hf : past[i]? with
  | none => rfl
  | some f =>
    have hmem : i ∈ l.registry ↔ f.waits := by
      rw [h.mem_registry, hf]
      simp
    simp only [Option.map_some, Function.comp_apply, hmem, Fate.finalReport]
    rfl

theorem shutDown_finalReport (h : f.waits) : (f.finalReport config).shutDown = true := by
  rw [Fate.finalReport, if_pos h]

/-- Slots are neither lost nor granted twice: before every accept those taken are those of the
connections that their streams hold, and a stream is refused exactly when these are as many as
there may be. After the stop none is taken, and all that waited have been shut down. -/
theorem run_slots (config : Config) :
    (∀ kind stopped arrivals, run config (some kind) stopped arrivals =
      (start config, .error (.io (.plain kind)))) ∧
    (∀ arrivals, Scripted config (fates config [] arrivals)) ∧
    (∀ pre rest, .stop ∉ pre →
      let l := (start config).serve pre
      (start config).serve (pre ++ rest) = l.serve rest ∧
        l.Accounts config (fates config [] pre) ∧
        ∀ s, Admits config (fates config [] pre) l s (l.accept s)) ∧
    ∀ stopped arrivals, ∃ l, run config none stopped arrivals = (l, .ok ()) ∧
      l.active = 0 ∧ l.registry = [] ∧
      let past := if stopped then [] else fates config [] arrivals
      l.reports = past.map (Fate.finalReport config) ∧
        ∀ (i : Nat) (f : Fate), past[i]? = some f → f.waits →
          ∃ r : StreamReport, l.reports[i]? = some r ∧ r.shutDown := by
  refine ⟨fun kind stopped arrivals => rfl, (scripted_nil config).fates, ?_, ?_⟩
  · intro pre rest hpre l
    have haccounts := (accounts_start config).serve pre
    exact ⟨serve_append hpre _ rest, haccounts, haccounts.admits⟩
  · intro stopped arrivals
    have haccounts : (if stopped then start config else (start config).serve arrivals).Accounts
        config (if stopped then [] else fates config [] arrivals) := by
      split
      · exact accounts_start config
      · exact (accounts_start config).serve arrivals
    obtain ⟨hreports, hactive, hregistry⟩ := haccounts.stop_eq
    refine ⟨_, rfl, hactive, hregistry, hreports, ?_⟩
    intro i f hf hwaits
    refine ⟨f.finalReport config, ?_, shutDown_finalReport hwaits⟩
    rw [hreports, List.getElem?_map, hf, Option.map_some]

/-- A read that fails gives the only slot back; a stream that is held keeps it. -/
theorem run_slots_single :
    let config : Config := { maxConnections := 1 }
    let failed : Stream := { reads := [.fail .interrupted, .fail .other] }
    let held : Stream := { reads := [.fail .interrupted, .hold] }
    let l := (start config).serve [.fail .other, .connect failed, .connect held]
    failed.Ends config .fresh ∧ held.Holds config .fresh ∧ l.active = 1 ∧ l.registry = [1] ∧
      l.accept {} = l.record { shutDown := true } := by
  intro config failed held l
  have hends : failed.Ends config .fresh := .readError rfl
  have hholds : held.Holds config .fresh := ⟨rfl, ⟨held, rfl⟩, rfl, by decide⟩
  obtain ⟨-, -, hbefore, -⟩ := run_slots config
  obtain ⟨-, -, hfirst⟩ := hbefore [.fail .other] [] (by simp)
  obtain ⟨-, -, hsecond⟩ := hbefore [.fail .other, .connect failed] [] (by simp)
  obtain ⟨-, -, hthird⟩ := hbefore [.fail .other, .connect failed, .connect held] [] (by simp)
  obtain ⟨hreports, -, -, hgiven⟩ := (hfirst failed).served (by decide) rfl failed rfl
  obtain ⟨-, -, hkept, -⟩ := (hsecond held).served (by decide) rfl held rfl
  obtain ⟨hactive, hregistry⟩ := hkept hholds
  have hempty : ((start config).serve [.fail .other, .connect failed]).active = 0 ∧
    ((start config).serve [.fail .other, .connect failed]).registry = [] := hgiven hends
  have hplace : ((start config).serve [.fail .other, .connect failed]).reports.length = 1 :=
    congrArg List.length hreports
  rw [hempty.1] at hactive
  rw [hempty.2, hplace] at hregistry
  exact ⟨hends, hholds, hactive, hregistry, (hthird {}).refused_iff.2 (by decide)⟩

end Listener

end RemoteCalc
