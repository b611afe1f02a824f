import RemoteCalc.Proofs.Server.PacketService

/-!
To serve packets is to handle them in turn. What is received up to the stop, or up to the first
failure of the socket itself, decides all that comes of it: each packet of it is handled as the
buffer holds it, and nothing but the memory goes from one packet to the next.
-/

namespace RemoteCalc

/-- A receive that fails in this way ends the service: it was no timeout and no interruption, and no
word of a peer that went away or refused an answer. -/
def IoKind.IsFatal (kind : IoKind) : Prop :=
  ¬ kind.isTimeout ∧ kind ≠ .interrupted ∧ ¬ kind.isDisconnect ∧ kind ≠ .connectionRefused

instance : DecidablePred IoKind.IsFatal := fun _ => inferInstanceAs (Decidable (_ ∧ _ ∧ _ ∧ _))

namespace Receipt

def fatal? : Receipt → Option IoKind
  | .packet _ _ => none
  | .fail kind => if kind.IsFatal then some kind else none

/-- A packet and its sender, as far as the buffer holds it. -/
def packet? (config : Config) : Receipt → Option (String × Bytes)
  | .packet peer bs => some (peer, bs.take (max config.datagramBufferSize 1))
  | .fail _ => none

/-- A failure that the service goes on after. -/
def passes : Receipt → Bool
  | .packet _ _ => false
  | .fail kind => ¬ kind.IsFatal

end Receipt

namespace PacketService

/-- The packets that come before the first fatal failure. -/
def packets (config : Config) (receipts : List Receipt) : List (String × Bytes) :=
  (receipts.takeWhile (·.fatal?.isNone)).filterMap (Receipt.packet? config)

/-- Answers a packet with a ring that has held no other one: only the memory and the mailbox are
carried on. -/
def answerAlone (config : Config) (carried : Calculator × Mailbox) (packet : String × Bytes) :
    Calculator × Mailbox :=
  let alone := { start config [] with calculator := carried.1, mailbox := carried.2 }
  let after := (alone.handlePacket packet.1 packet.2).1
  (after.calculator, after.mailbox)

variable {s : PacketService} {kind : IoKind}

theorem isPassing_iff : isPassing kind = true ↔ ¬ kind.IsFatal := by
  cases kind <;> decide

theorem handlePacket_config (s : PacketService) (peer : String) (bs : Bytes) :
    (s.handlePacket peer bs).1.config = s.config := by
  simp only [handlePacket]
  split
  · rfl
  · split <;> rfl

/-- The count of the packets has no part in their handling. -/
theorem handlePacket_counted (s : PacketService) (n : Nat) (peer : String) (bs : Bytes) :
    ({ s with received := n } : PacketService).handlePacket peer bs =
      ({ (s.handlePacket peer bs).1 with received := n }, (s.handlePacket peer bs).2) := by
  simp only [handlePacket]
  split
  · rfl
  · split <;> rfl

theorem handleAll_cons (s : PacketService) (packet : String × Bytes)
    (history : List (String × Bytes)) :
    s.handleAll (packet :: history) = (s.handlePacket packet.1 packet.2).1.handleAll history := rfl

theorem handleAll_counted (s : PacketService) (n : Nat) (history : List (String × Bytes)) :
    ({ s with received := n } : PacketService).handleAll history =
      { s.handleAll history with received := n } := by
  induction history generalizing s with
  | nil => rfl
  | cons packet history ih =>
    rw [handleAll_cons, handlePacket_counted, ih, handleAll_cons]

section Serve

variable {rest : List Receipt}

theorem packets_fatal (config : Config) (h : kind.IsFatal) :
    packets config (.fail kind :: rest) = [] := by
  simp [packets, Receipt.fatal?, h]

theorem packets_passing (config : Config) (h : ¬ kind.IsFatal) :
    packets config (.fail kind :: rest) = packets config rest := by
  have hnone : Receipt.packet? config (.fail kind) = none := rfl
  simp [packets, Receipt.fatal?, h, hnone]

theorem packets_packet (config : Config) (peer : String) (bs : Bytes) :
    packets config (.packet peer bs :: rest) = (peer, kept config bs) :: packets config rest := by
  have hsome : Receipt.packet? config (.packet peer bs) = some (peer, kept config bs) := rfl
  simp [packets, Receipt.fatal?, hsome]

/-- The loop handles the packets in turn and counts them; whether a packet could be answered has no
part in it. -/
theorem serve_eq (s : PacketService) (receipts : List Receipt) :
    s.serve receipts =
      ({ s.handleAll (packets s.config receipts) with
          received := s.received + (packets s.config receipts).length },
        outcomeOf ((receipts.findSome? Receipt.fatal?).map .plain)) := by
  induction receipts generalizing s with
  | nil => rfl
  | cons receipt rest ih =>
    cases receipt with
    | packet peer bs =>
      have hfirst := s.handlePacket_counted (s.received + 1) peer (kept s.config bs)
      have hconfig := s.handlePacket_config peer (kept s.config bs)
      rw [serve, ih, hfirst, handleAll_counted, packets_packet, handleAll_cons, List.length_cons]
      simp only [hconfig, List.findSome?_cons, Receipt.fatal?]
      rw [Nat.add_assoc, Nat.add_comm 1]
    | fail kind =>
      by_cases hfatal : kind.IsFatal
      · have hstop : ¬ isPassing kind = true := fun h => isPassing_iff.1 h hfatal
        rw [serve, if_neg hstop, packets_fatal _ hfatal]
        simp only [List.findSome?_cons, Receipt.fatal?, if_pos hfatal]
        rfl
      · rw [serve, if_pos (isPassing_iff.2 hfatal), ih, packets_passing _ hfatal]
        simp only [List.findSome?_cons, Receipt.fatal?, if_neg hfatal]

end Serve

/-- A service at rest does with a packet what a new one does that has its memory. -/
theorem Rested.handlePacket_alone (h : s.Rested) (packet : String × Bytes) :
    let after := (s.handlePacket packet.1 packet.2).1
    after.Rested ∧ after.config = s.config ∧
      (after.calculator, after.mailbox) =
        answerAlone s.config (s.calculator, s.mailbox) packet := by
  have hnew : ({ start s.config [] with calculator := s.calculator, mailbox := s.mailbox } :
      PacketService).Rested := rested_start s.config []
  obtain ⟨after, heq, hrested, hconfig, hmailbox, hcalculator⟩ :=
    h.handlePacket packet.1 packet.2
  obtain ⟨after', heq', -, -, hmailbox', hcalculator'⟩ := hnew.handlePacket packet.1 packet.2
  rw [answerAlone, heq, heq']
  refine ⟨hrested, hconfig, ?_⟩
  rw [hmailbox, hcalculator, hmailbox', hcalculator']
  rfl

theorem Rested.handleAll_alone (h : s.Rested) (history : List (String × Bytes)) :
    ((s.handleAll history).calculator, (s.handleAll history).mailbox) =
      history.foldl (answerAlone s.config) (s.calculator, s.mailbox) := by
  induction history generalizing s with
  | nil => rfl
  | cons packet history ih =>
    obtain ⟨hrested, hconfig, hcarried⟩ := h.handlePacket_alone packet
    rw [handleAll_cons, ih hrested, hconfig, hcarried, List.foldl_cons]

/-- Failures that pass can be left out of what is received. -/
theorem serve_filter (s : PacketService) (receipts : List Receipt) :
    s.serve (receipts.filter (¬ ·.passes)) = s.serve receipts := by
  induction receipts generalizing s with
  | nil => rfl
  | cons receipt rest ih =>
    cases receipt with
    | packet peer bs =>
      rw [List.filter_cons_of_pos rfl, serve, serve, ih]
    | fail kind =>
      by_cases hfatal : kind.IsFatal
      · have hstop : ¬ isPassing kind = true := fun h => isPassing_iff.1 h hfatal
        rw [List.filter_cons_of_pos (by simpa [Receipt.passes] using hfatal), serve, serve,
          if_neg hstop, if_neg hstop]
      · rw [List.filter_cons_of_neg (by simpa [Receipt.passes] using hfatal), ih, serve,
          if_pos (isPassing_iff.2 hfatal)]

/-- A run handles the packets that are received before the stop and before the first fatal failure,
in turn and whatever comes of each; it counts them, carries on the memory alone, and ends with that
failure or without one. `receipts` ends where the stop is asked for, and where the socket refuses a
time limit nothing is received. -/
theorem run_folds (config : Config) (limitFailure : Option IoKind) (stopped : Bool)
    (sends : List SendStep) (receipts : List Receipt) :
    let served := run config limitFailure stopped sends receipts
    let heard := if limitFailure = none ∧ stopped = false then receipts else []
    let taken := packets config heard
    served.1 = { (start config sends).handleAll taken with received := taken.length } ∧
      (served.1.calculator, served.1.mailbox) =
        taken.foldl (answerAlone config) (.fresh, ⟨sends, []⟩) ∧
      (served.2 = match limitFailure <|> heard.findSome? Receipt.fatal? with
        | some kind => .error (.io (.plain kind))
        | none => .ok ()) ∧
      run config limitFailure stopped sends (receipts.filter (¬ ·.passes)) = served := by
  intro served heard taken
  have hcarried := (rested_start config sends).handleAll_alone taken
  obtain ⟨hstate, houtcome, hfilter⟩ :
      served.1 = { (start config sends).handleAll taken with received := taken.length } ∧
      served.2 = outcomeOf ((limitFailure <|> heard.findSome? Receipt.fatal?).map .plain) ∧
      run config limitFailure stopped sends (receipts.filter (¬ ·.passes)) = served := by
    cases limitFailure with
    | some kind => exact ⟨rfl, rfl, rfl⟩
    | none =>
      cases stopped with
      | true => exact ⟨rfl, rfl, rfl⟩
      | false =>
        have hserved : served = (start config sends).serve receipts := rfl
        have hserve := (start config sends).serve_eq receipts
        have hcount : (start config sends).received + taken.length = taken.length :=
          Nat.zero_add _
        rw [hserved, hserve]
        refine ⟨?_, rfl, ?_⟩
        · exact congrArg (fun n : Nat =>
            { (start config sends).handleAll taken with received := n }) hcount
        · rw [← hserve]
          exact (start config sends).serve_filter receipts
  refine ⟨hstate, ?_, ?_, hfilter⟩
  · rw [hstate]
    exact hcarried
  · rw [houtcome]
    cases limitFailure <|> heard.findSome? Receipt.fatal? with
    | none => rfl
    | some kind => rfl

end PacketService

end RemoteCalc
