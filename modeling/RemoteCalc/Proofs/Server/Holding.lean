import RemoteCalc.Proofs.Server.Connection

/-!
Which streams keep a connection waiting. Reading goes on through bytes and interruptions. The first
step of another kind ends it, and only where that step is a hold, and every reply to the bytes
before it could be sent, does the connection wait for its peer.
-/

namespace RemoteCalc

namespace ReadStep

/-- Whether reading goes on after a step. -/
def passes : ReadStep → Bool
  | .chunk bs => bs ≠ []
  | .fail kind => kind = .interrupted
  | .hold => false

theorem reading_data (steps : List ReadStep) :
    (reading steps).1 = (steps.takeWhile passes).flatMap bytes := by
  induction steps with
  | nil => rfl
  | cons step steps ih =>
    cases step with
    | chunk bs =>
      by_cases h : bs = []
      · simp [reading, passes, h]
      · simp [reading, passes, bytes, h, ih]
    | fail kind =>
      by_cases h : kind = .interrupted
      · simp [reading, passes, bytes, h, ih]
      · rw [reading, if_neg h, List.takeWhile_cons_of_neg (by simp [passes, h])]
        split
        · rfl
        · rfl
    | hold => rfl

theorem reading_held_iff (steps : List ReadStep) :
    (reading steps).2 = .held ↔ steps.find? (!·.passes) = some .hold := by
  induction steps with
  | nil => simp [reading]
  | cons step steps ih =>
    cases step with
    | chunk bs =>
      by_cases h : bs = []
      · simp [reading, passes, h]
      · simp [reading, passes, h, ih]
    | fail kind =>
      by_cases h : kind = .interrupted
      · simp [reading, passes, h, ih]
      · rw [reading, if_neg h, List.find?_cons_of_pos (by simp [passes, h])]
        split
        · simp
        · simp
    | hold => simp [reading, passes]

end ReadStep

namespace Stream

/-- The first step that reading does not go on after. -/
def readEnd? (s : Stream) : Option ReadStep := s.reads.find? (!·.passes)

/-- The bytes that arrive before that step. -/
def dataRead (s : Stream) : Bytes := (s.reads.takeWhile ReadStep.passes).flatMap ReadStep.bytes

/-- The failed write or flush among those for the replies to these bytes, if one fails. -/
def writeFailure? (config : Config) (calculator : Calculator) (s : Stream) : Option IoError :=
  (sendAll Connection.send (.ofScript s.writes) (Session.frames Calculator.div calculator
    (Conversation.events config.ringBufferSize s.dataRead))).failure

/-- A connection on this stream comes to wait for its peer. -/
structure Holds (config : Config) (calculator : Calculator) (s : Stream) : Prop where
  timeoutFailure_eq : s.timeoutFailure = none
  clone_eq : ∃ s', s.clone = .ok s'
  readEnd_eq : s.readEnd? = some .hold
  writeFailure_eq : s.writeFailure? config calculator = none

/-- A connection on this stream comes to an end of its own. -/
inductive Ends (config : Config) (calculator : Calculator) (s : Stream) : Prop
  /-- The time limits, or the second handle, are refused, and it is not served at all. -/
  | limits {kind : IoKind} (h : s.timeoutFailure = some kind) : Ends config calculator s
  | handle {kind : IoKind} (h : s.clone = .error kind) : Ends config calculator s
  | finished (h : s.readEnd? = none) : Ends config calculator s
  | closed {bs : Bytes} (h : s.readEnd? = some (.chunk bs)) : Ends config calculator s
  | readError {kind : IoKind} (h : s.readEnd? = some (.fail kind)) : Ends config calculator s
  | writeError {e : IoError} (h : s.writeFailure? config calculator = some e) :
    Ends config calculator s

variable {config : Config} {calculator : Calculator} {s : Stream}

/-- A connection either comes to wait or ends, and not both. -/
theorem ends_iff : s.Ends config calculator ↔ ¬ s.Holds config calculator := by
  constructor
  · intro hends hholds
    obtain ⟨hlimits, ⟨s', hclone⟩, hread, hwrite⟩ := hholds
    cases hends with
    | limits h => cases hlimits.symm.trans h
    | handle h => cases hclone.symm.trans h
    | finished h => cases hread.symm.trans h
    | closed h => cases hread.symm.trans h
    | readError h => cases hread.symm.trans h
    | writeError h => cases hwrite.symm.trans h
  · intro hnot
    cases hlimits : s.timeoutFailure with
    | some kind => exact .limits hlimits
    | none =>
      cases hclone : s.clone with
      | error kind => exact .handle hclone
      | ok s' =>
        cases hwrite : s.writeFailure? config calculator with
        | some e => exact .writeError hwrite
        | none =>
          cases hread : s.readEnd? with
          | none => exact .finished hread
          | some step =>
            cases step with
            | chunk bs => exact .closed hread
            | fail kind => exact .readError hread
            | hold => exact absurd ⟨hlimits, ⟨s', hclone⟩, hread, hwrite⟩ hnot

end Stream

namespace Connection

variable (config : Config) (calculator : Calculator) (s : Stream)

theorem endingOf_ne_held (e : Failure) : endingOf e ≠ .held := by
  cases e with
  | io e =>
    rw [endingOf]
    split
    · simp
    · simp
  | _ => simp [endingOf]

/-- Serving ends as the reading does, or by the first reply that cannot be sent. -/
theorem serve_ending (size : Nat) :
    ((start config calculator s.writes).serve (s.deliveries size)).2 =
      match s.writeFailure? config calculator with
      | some e => endingOf (.io e)
      | none => (ReadStep.reading s.reads).2 := by
  obtain ⟨-, -, hread, hend⟩ := serve_sent config calculator s size
  obtain ⟨served, hserved⟩ : ∃ served, served =
    (start config calculator s.writes).serve (s.deliveries size) := ⟨_, rfl⟩
  rw [← hserved] at hread hend ⊢
  obtain ⟨more, hmore⟩ := hread
  -- what was read is a beginning of what arrives, and its replies are the first
  have hfailure : s.writeFailure? config calculator =
      (served.1.sent config calculator s).failure.or
        (sendAll send (served.1.sent config calculator s).outlet
          (Session.frames Calculator.div
            (Session.after Calculator.div calculator (served.1.seen config s))
            (Framing.raised .server (max config.ringBufferSize Ring.minCapacity)
              (served.1.received s) more))).failure := by
    rw [Stream.writeFailure?, Stream.dataRead, ← ReadStep.reading_data, ← hmore,
      Conversation.events, Framing.events_append (Ring.max_minCapacity_pos _),
      Session.frames_append, sendAll_append]
    rfl
  cases hsent : (served.1.sent config calculator s).failure with
  | some e =>
    rw [hsent] at hend hfailure
    rw [hfailure]
    exact hend
  | none =>
    rw [hsent] at hend
    have hwhole : s.writeFailure? config calculator = none := by
      rw [← hsent, Stream.writeFailure?, Stream.dataRead, ← ReadStep.reading_data, hend]
      rfl
    rw [hwhole, hend]

theorem serve_held_iff (size : Nat) :
    ((start config calculator s.writes).serve (s.deliveries size)).2 = .held ↔
      s.readEnd? = some .hold ∧ s.writeFailure? config calculator = none := by
  rw [serve_ending]
  cases s.writeFailure? config calculator with
  | some e => simp [endingOf_ne_held]
  | none => simp [ReadStep.reading_held_iff, Stream.readEnd?]

/-- A connection waits for its peer exactly where its stream holds it. -/
theorem run_held_iff :
    (∃ c, run config calculator s = .ok (c, .held)) ↔ s.Holds config calculator := by
  rw [run]
  cases hlimits : s.timeoutFailure with
  | some kind => simp [Stream.ends_iff.1 (.limits hlimits)]
  | none =>
    cases hclone : s.clone with
    | error kind => simp [Stream.ends_iff.1 (.handle hclone)]
    | ok s' =>
      obtain ⟨hreads, hwrites⟩ := Stream.clone_eq_ok hclone
      have hheld := serve_held_iff config calculator s (max config.readChunkSize 1)
      rw [← hwrites, Stream.deliveries, ← hreads, ← Stream.deliveries] at hheld
      constructor
      · rintro ⟨c, hc⟩
        rw [Except.ok.injEq, Prod.mk.injEq] at hc
        obtain ⟨hend, hwrite⟩ := hheld.1 hc.2
        exact ⟨hlimits, ⟨s', hclone⟩, hend, hwrite⟩
      · intro hholds
        have hend := hheld.2 ⟨hholds.readEnd_eq, hholds.writeFailure_eq⟩
        exact ⟨_, congrArg Except.ok (Prod.ext rfl hend)⟩

end Connection

end RemoteCalc
