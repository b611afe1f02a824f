import RemoteCalc.Proofs.Server.Listener

/-!
What passes between the connections of a listener. With memories of their own nothing does: each is
served as if it were alone. With a shared memory they are served as if one after the other, each
from where its predecessor left the memory, and whatever is refused or fails to start counts for
nothing in between.
-/

namespace RemoteCalc

namespace Connection

/-- Serves streams one after the other, each on the memory that its predecessor left. -/
def runAll (config : Config) (c : Calculator) :
    List Stream → List (Except IoKind (Connection × Ending))
  | [] => []
  | s :: ss => run config c s :: runAll config (left c (run config c s)) ss

/-- The memory that they leave. -/
def leftAll (config : Config) (c : Calculator) (ss : List Stream) : Calculator :=
  ss.foldl (fun c s => left c (run config c s)) c

theorem runAll_concat (config : Config) (c : Calculator) (ss : List Stream) (s : Stream) :
    runAll config c (ss ++ [s]) =
      runAll config c ss ++ [run config (leftAll config c ss) s] := by
  induction ss generalizing c with
  | nil => rfl
  | cons s' ss ih =>
    rw [List.cons_append, runAll, runAll, ih, List.cons_append]
    rfl

theorem leftAll_concat (config : Config) (c : Calculator) (ss : List Stream) (s : Stream) :
    leftAll config c (ss ++ [s]) =
      left (leftAll config c ss) (run config (leftAll config c ss) s) := by
  rw [leftAll, List.foldl_append]
  rfl

/-- The events that a connection answered or tried to: all it saw, unless a reply failed. -/
def executed (config : Config) (calculator : Calculator) (s : Stream) (c : Connection) :
    List Event :=
  (c.seen config s).take (c.sent config calculator s).count

/-- What a connection leaves is the effect of the requests it executed, those before a failed
write and the one whose reply failed. -/
theorem left_run {config : Config} {calculator : Calculator} {s : Stream} {c : Connection}
    {ending : Ending} (h : run config calculator s = .ok (c, ending)) :
    left calculator (run config calculator s) =
      Session.after Calculator.div calculator (c.executed config calculator s) := by
  rw [h, left]
  rw [run] at h
  split at h
  · cases h
  · split at h
    · cases h
    · rename_i s' hclone
      obtain ⟨hreads, hwrites⟩ := Stream.clone_eq_ok hclone
      have hdelivers := serve_delivers config calculator s' (max config.readChunkSize 1)
      cases h
      rw [hdelivers.calculator_eq, executed]
      simp only [sent, due, seen, received, Stream.data, hreads, hwrites]

end Connection

/-- What a stream sees of its server. -/
def StreamReport.traffic (r : StreamReport) : List ReadResult × List Bytes := (r.reads, r.chunks)

namespace Fate

def stream? : Fate → Option Stream
  | served s _ => some s
  | refused | dropped _ => none

def result? : Fate → Option (Except IoKind (Connection × Ending))
  | served _ result => some result
  | refused | dropped _ => none

/-- What is read of the stream and written to it. -/
def traffic : Fate → List ReadResult × List Bytes
  | served _ (.ok (c, _)) => (c.reads, c.conversation.session.outlet.chunks)
  | served _ (.error _) | refused | dropped _ => ([], [])

theorem traffic_finalReport (config : Config) (f : Fate) :
    (f.finalReport config).traffic = f.traffic := by
  have hreport : (f.report config).traffic = f.traffic := by
    cases f with
    | refused => rfl
    | dropped blocking => rfl
    | served s result =>
      cases result with
      | error kind => rfl
      | ok served => rfl
  rw [finalReport]
  split
  · exact hreport
  · exact hreport

end Fate

namespace Listener

/-- The streams that connect before the stop. -/
def connected : List Arrival → List Stream
  | [] | .stop :: _ => []
  | .fail _ :: rest => connected rest
  | .connect s :: rest => s :: connected rest

/-- The arrivals that a listener attends to, which are none if it cannot start to. -/
def attended (pollingFailure : Option IoKind) (stopped : Bool) (arrivals : List Arrival) :
    List Arrival :=
  if pollingFailure.isSome ∨ stopped then [] else arrivals

/-- Streams came to their fates with nothing between them but the memory, if they share it. -/
structure Isolated (config : Config) (ss : List Stream) (past : List Fate) : Prop where
  clones : List.Forall₂ (fun s f => ∀ s', f.stream? = some s' → s.clone = .ok s') ss past
  alone : config.sharedMemory = false →
    ∀ s result, .served s result ∈ past → result = Connection.run config .fresh s
  inTurn : config.sharedMemory = true →
    past.filterMap Fate.result? = Connection.runAll config .fresh (past.filterMap Fate.stream?)
  memory_eq : config.sharedMemory = true →
    memory past = Connection.leftAll config .fresh (past.filterMap Fate.stream?)

variable {config : Config} {past : List Fate} {ss : List Stream}

theorem isolated_nil (config : Config) : Isolated config [] [] where
  clones := .nil
  alone := by
    intro _ s result hmem
    cases hmem
  inTurn := fun _ => rfl
  memory_eq := fun _ => rfl

theorem fateOf_cases (config : Config) (past : List Fate) (s : Stream) :
    (fateOf config past s).stream? = none ∧ (fateOf config past s).result? = none ∧
        (∀ c, (fateOf config past s).leaves c = c) ∨
      ∃ s', s.clone = .ok s' ∧ fateOf config past s = .served s'
        (Connection.run config (if config.sharedMemory then memory past else .fresh) s') := by
  rw [fateOf]
  split
  · exact .inl ⟨rfl, rfl, fun _ => rfl⟩
  · split
    · exact .inl ⟨rfl, rfl, fun _ => rfl⟩
    · split
      · exact .inl ⟨rfl, rfl, fun _ => rfl⟩
      · rename_i s' hclone
        exact .inr ⟨s', hclone, rfl⟩

theorem Isolated.concat (h : Isolated config ss past) (s : Stream) :
    Isolated config (ss ++ [s]) (past ++ [fateOf config past s]) := by
  obtain ⟨hstream, hresult, hleaves⟩ | ⟨s', hclone, hfate⟩ := fateOf_cases config past s
  · -- a stream that is not served counts for nothing
    constructor
    case clones =>
      refine List.rel_append h.clones (.cons ?_ .nil)
      intro s' hs'
      rw [hstream] at hs'
      cases hs'
    case alone =>
      intro hown s' result hmem
      obtain hmem | hmem := List.mem_append.1 hmem
      · exact h.alone hown s' result hmem
      · rw [← List.mem_singleton.1 hmem] at hstream
        cases hstream
    case inTurn =>
      intro hshared
      rw [List.filterMap_append, List.filterMap_append, List.filterMap_cons_none hresult,
        List.filterMap_cons_none hstream, List.filterMap_nil, List.filterMap_nil,
        List.append_nil, List.append_nil]
      exact h.inTurn hshared
    case memory_eq =>
      intro hshared
      rw [memory_concat, hleaves, List.filterMap_append, List.filterMap_cons_none hstream,
        List.filterMap_nil, List.append_nil]
      exact h.memory_eq hshared
  · -- one that is served starts from what those before it left
    rw [hfate]
    constructor
    case clones =>
      refine List.rel_append h.clones (.cons ?_ .nil)
      intro s'' hs''
      cases hs''
      exact hclone
    case alone =>
      intro hown s'' result hmem
      obtain hmem | hmem := List.mem_append.1 hmem
      · exact h.alone hown s'' result hmem
      · cases List.mem_singleton.1 hmem
        rw [hown]
        rfl
    case inTurn =>
      intro hshared
      rw [List.filterMap_append, List.filterMap_append, h.inTurn hshared, if_pos hshared,
        h.memory_eq hshared]
      exact (Connection.runAll_concat config .fresh _ s').symm
    case memory_eq =>
      intro hshared
      rw [memory_concat, List.filterMap_append, if_pos hshared, h.memory_eq hshared]
      exact (Connection.leftAll_concat config .fresh _ s').symm

theorem Isolated.fates (h : Isolated config ss past) (arrivals : List Arrival) :
    Isolated config (ss ++ connected arrivals) (fates config past arrivals) := by
  induction arrivals generalizing ss past with
  | nil =>
    rw [connected, List.append_nil]
    exact h
  | cons arrival arrivals ih =>
    cases arrival with
    | stop =>
      rw [connected, List.append_nil]
      exact h
    | fail kind => exact ih h
    | connect s =>
      have hrest := ih (h.concat s)
      rw [List.append_assoc] at hrest
      exact hrest

theorem reports_run (config : Config) (pollingFailure : Option IoKind) (stopped : Bool)
    (arrivals : List Arrival) :
    (run config pollingFailure stopped arrivals).1.reports =
      (fates config [] (attended pollingFailure stopped arrivals)).map
        (Fate.finalReport config) := by
  cases pollingFailure with
  | some kind => rfl
  | none =>
    cases stopped with
    | true => rfl
    | false => exact ((accounts_start config).serve arrivals).stop_eq.1

/-- What the streams saw of the listener, in the order in which they connected. -/
def traffic (l : Listener) : List (List ReadResult × List Bytes) :=
  l.reports.map StreamReport.traffic

theorem traffic_run (config : Config) (pollingFailure : Option IoKind) (stopped : Bool)
    (arrivals : List Arrival) :
    (run config pollingFailure stopped arrivals).1.traffic =
      (fates config [] (attended pollingFailure stopped arrivals)).map Fate.traffic := by
  rw [traffic, reports_run, List.map_map]
  congr 1
  funext f
  exact f.traffic_finalReport config

theorem Isolated.traffic_eq {ss' : List Stream} {past' : List Fate} {i j : Nat} {s : Stream}
    {result result' : Except IoKind (Connection × Ending)} (h : Isolated config ss past)
    (h' : Isolated config ss' past') (hown : config.sharedMemory = false)
    (hi : past[i]? = some (.served s result)) (hj : past'[j]? = some (.served s result')) :
    (past.map Fate.traffic)[i]? = (past'.map Fate.traffic)[j]? := by
  have hresult := h.alone hown s result (List.mem_of_getElem? hi)
  have hresult' := h'.alone hown s result' (List.mem_of_getElem? hj)
  rw [List.getElem?_map, List.getElem?_map, hi, hj, hresult, hresult']

/-- Connections are isolated, or share exactly the memory cell. -/
theorem run_isolated (config : Config) (pollingFailure : Option IoKind) (stopped : Bool)
    (arrivals : List Arrival) :
    let heard := attended pollingFailure stopped arrivals
    let past := fates config [] heard
    let l := (run config pollingFailure stopped arrivals).1
    l.traffic = past.map Fate.traffic ∧
    List.Forall₂ (fun s f => ∀ s', f.stream? = some s' → s.clone = .ok s') (connected heard) past ∧
    (config.sharedMemory = false →
      (∀ s result, Fate.served s result ∈ past → result = Connection.run config .fresh s) ∧
      ∀ pollingFailure' stopped' arrivals' (i j : Nat) s result result',
        past[i]? = some (Fate.served s result) →
        (fates config [] (attended pollingFailure' stopped' arrivals'))[j]? =
          some (Fate.served s result') →
        l.traffic[i]? = (run config pollingFailure' stopped' arrivals').1.traffic[j]?) ∧
    (config.sharedMemory = true →
      past.filterMap Fate.result? =
        Connection.runAll config .fresh (past.filterMap Fate.stream?)) ∧
    -- what one that is served passes on to the next
    ∀ calculator s, match Connection.run config calculator s with
      | .error kind => Connection.left calculator (.error kind) = calculator
      | .ok (c, ending) => Connection.left calculator (.ok (c, ending)) =
        Session.after Calculator.div calculator (c.executed config calculator s) := by
  intro heard past l
  have hisolated : Isolated config (connected heard) past := (isolated_nil config).fates heard
  refine ⟨traffic_run config pollingFailure stopped arrivals, hisolated.clones, ?_,
    hisolated.inTurn, ?_⟩
  · intro hown
    refine ⟨hisolated.alone hown, ?_⟩
    intro pollingFailure' stopped' arrivals' i j s result result' hi hj
    have hisolated' := (isolated_nil config).fates (attended pollingFailure' stopped' arrivals')
    rw [traffic_run config pollingFailure stopped arrivals, traffic_run]
    exact hisolated.traffic_eq hisolated' hown hi hj
  · intro calculator s
    cases hrun : Connection.run config calculator s with
    | error kind => rfl
    | ok served =>
      have hleft := Connection.left_run hrun
      rw [hrun] at hleft
      exact hleft

theorem run_isolated_third :
    let config : Config := { maxConnections := 1 }
    let third : Stream := { reads := [.chunk [36]] }
    (run config none false [.connect { reads := [.fail .other] },
        .connect { reads := [.chunk [36]], timeoutFailure := some .other },
        .connect third]).1.traffic[2]? =
      (run config none false [.connect third]).1.traffic[0]? := by
  intro config third
  obtain ⟨-, -, halone, -⟩ := run_isolated config none false
    [.connect { reads := [.fail .other] },
      .connect { reads := [.chunk [36]], timeoutFailure := some .other }, .connect third]
  exact (halone rfl).2 none false [.connect third] 2 0 third _ _ rfl rfl

end Listener

end RemoteCalc
