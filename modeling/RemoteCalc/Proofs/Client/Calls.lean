import RemoteCalc.Proofs.Client.Exchange

/-!
A call returns the reply to its own request. The replies to earlier requests stand before it: those
with an id have another one, and one without is passed over because more replies are due.
-/

namespace RemoteCalc

theorem int32_ofNat_eq_iff {n k : Nat} :
    Int32.ofNat n = Int32.ofNat k ↔ n % 2 ^ 32 = k % 2 ^ 32 := by
  rw [← Int32.toBitVec_inj, Int32.toBitVec_ofNat', Int32.toBitVec_ofNat', ← BitVec.toNat_inj,
    BitVec.toNat_ofNat, BitVec.toNat_ofNat]

theorem int32_ofNat_inj {n k : Nat} (hn : n < 2 ^ 32) (hk : k < 2 ^ 32)
    (h : Int32.ofNat n = Int32.ofNat k) : n = k := by
  have hmod := int32_ofNat_eq_iff.1 h
  rwa [Nat.mod_eq_of_lt hn, Nat.mod_eq_of_lt hk] at hmod

namespace Client

variable {c : Client} {id : Int32}

theorem await_unanswered {heard : List Response} (hpatience : c.patience ≠ 0)
    (hevents : c.events = heard.map .response) (hid : ∀ r ∈ heard, r.id ≠ id)
    (hdue : heard.length < c.outstanding) :
    c.await id = (c.leaving heard.length [], .error c.nothingLeft) := by
  have hstale := awaitFrom_stale hid hdue []
  rw [List.append_nil] at hstale
  rw [await, if_neg hpatience, hevents, hstale]
  rfl

theorem await_answered {stale : List Response} {own : Response} (hpatience : c.patience ≠ 0)
    (hevents : c.events = (stale ++ [own]).map .response) (hid : ∀ r ∈ stale, r.id ≠ id)
    (hown : own.id = id ∨ own.id = Response.unattributed)
    (hdue : c.outstanding = stale.length + 1) :
    c.await id = (c.leaving (stale ++ [own]).length [], .ok own) := by
  have hsole : (c.leaving stale.length [.response own]).outstanding = 1 := by
    simp only [leaving]
    omega
  rw [await, if_neg hpatience, hevents, List.map_append, awaitFrom_stale hid (by omega),
    List.map_singleton, awaitFrom_own hown hsole]
  simp only [leaving, Nat.sub_sub, List.length_append, List.length_singleton]

end Client

namespace Exchange

variable {config : ClientConfig} {e : Exchange}

theorem id_ne_of_replies {ids : List Int32} {id : Int32} {stale : List Response}
    (h : List.Forall₂ Replies ids stale) (hids : id ∉ ids) (hid : id ≠ Response.unattributed) :
    ∀ r ∈ stale, r.id ≠ id := by
  induction h with
  | nil =>
    intro r hr
    cases hr
  | @cons i r ids stale hreply _ ih =>
    rw [List.mem_cons, not_or] at hids
    intro r' hr'
    rcases List.mem_cons.1 hr' with rfl | hlater
    · rcases hreply with hown | hnone
      · rw [hown]
        exact Ne.symm hids.1
      · rw [hnone]
        exact Ne.symm hid
    · exact ih hids.2 r' hlater

theorem replies_concat {ids : List Int32} {id : Int32} {heard : List Response}
    (h : List.Forall₂ Replies (ids ++ [id]) heard) : ∃ stale own,
      heard = stale ++ [own] ∧ List.Forall₂ Replies ids stale ∧ Replies id own := by
  induction ids generalizing heard with
  | nil =>
    obtain ⟨own, rest, hown, hrest, rfl⟩ := List.forall₂_cons_left_iff.1 h
    rw [List.forall₂_nil_left_iff.1 hrest]
    exact ⟨[], own, rfl, .nil, hown⟩
  | cons i ids ih =>
    obtain ⟨r, rest, hr, hrest, rfl⟩ := List.forall₂_cons_left_iff.1 h
    obtain ⟨stale, own, rfl, hstale, hown⟩ := ih hrest
    exact ⟨r :: stale, own, rfl, .cons hr hstale, hown⟩

theorem Consistent.nextId_fresh (h : Consistent config e) (hlt : e.allocated < 2 ^ 32 - 1) :
    e.client.nextId ∉ e.asked ∧ e.client.nextId ≠ Response.unattributed := by
  rw [h.nextId_eq]
  constructor
  · intro hmem
    obtain ⟨n, hn, heq⟩ := h.asked_before _ hmem
    have hsame := int32_ofNat_inj (by omega) (by omega) heq
    omega
  · intro hnone
    have hlast : Response.unattributed = Int32.ofNat (2 ^ 32 - 1) := by decide
    rw [hlast] at hnone
    have hsame := int32_ofNat_inj (by omega) (by omega) hnone
    omega

theorem send_asked {m : Method} {a b : Float} {id : Int32} (h : (e.send m a b).2 = .ok id) :
    id = e.client.nextId ∧ (e.send m a b).1.asked = e.asked ++ [id] ∧
      (e.send m a b).1.consumed = e.consumed := by
  rcases e.client.send_cases m a b with ⟨f, -, hsend⟩ | ⟨failure, hsend⟩
  · rw [send, hsend] at h ⊢
    cases h
    exact ⟨rfl, rfl, rfl⟩
  · rw [send, hsend] at h
    cases h

theorem call_of_send {m : Method} {a b : Float} {id : Int32} (h : (e.send m a b).2 = .ok id)
    (os : List Client.Occurrence) :
    e.call m a b os = ((e.send m a b).1.undergo os).await id := by
  rw [call]
  cases hsend : e.send m a b with
  | mk sent result =>
    rw [hsend] at h
    simp only at h
    rw [h]

/-- What a client has heard and not taken: replies to the first of the requests whose replies it
has not taken. -/
theorem Honest.available (h : e.Honest) :
    ∃ heard : List Response, e.client.events = heard.map .response ∧
      List.Forall₂ Replies ((e.asked.drop e.consumed.length).take heard.length) heard := by
  obtain ⟨heard, hheard, hreplies⟩ := h
  have hevents := congrArg (List.drop e.consumed.length) hheard
  rw [List.drop_left, ← List.map_drop] at hevents
  have hlater := List.forall₂_drop e.consumed.length hreplies
  rw [List.drop_take, ← List.length_drop] at hlater
  exact ⟨_, hevents, hlater⟩

/-- How a call with this id ends, when `heard` are the replies that it finds. The earlier requests
whose replies have not been taken are `unanswered`. -/
structure Concluded (unanswered : List Int32) (id : Int32) (heard : List Response)
    (waiting after : Exchange) (result : Except Failure Response) : Prop where
  available_eq : waiting.client.events = heard.map .response
  heard_le : heard.length ≤ unanswered.length + 1
  consumed_eq : after.consumed = waiting.consumed ++ waiting.client.events
  events_eq : after.client.events = []
  /-- The call's own reply is the last of them, and the call returns it. -/
  replied : heard.length = unanswered.length + 1 → ∃ stale own, heard = stale ++ [own] ∧
    List.Forall₂ Replies unanswered stale ∧ Replies id own ∧ result = .ok own ∧
    after.client.outstanding = 0
  /-- All of them answer earlier requests, and the call waits in vain. -/
  unreplied : heard.length ≤ unanswered.length →
    List.Forall₂ Replies (unanswered.take heard.length) heard ∧
    (result = .error .timeout ∨ result = .error .disconnected)

section Await

variable {unanswered : List Int32} {id : Int32} {heard : List Response}

theorem await_of_client {client : Client} {result : Except Failure Response}
    (h : e.client.await id = (client, result)) : e.await id = (e.consuming client, result) := by
  rw [await, h]

theorem consumed_all (h : e.client.events = heard.map .response) :
    (e.consuming (e.client.leaving heard.length [])).consumed = e.consumed ++ e.client.events := by
  have hall : e.client.events = heard.map .response ++ [] := by
    rw [List.append_nil]
    exact h
  have hconsumed := consumed_consuming hall
  rw [List.length_map, ← h] at hconsumed
  exact hconsumed

theorem concluded_replied {stale : List Response} {own : Response}
    (hpatience : e.client.patience ≠ 0) (hdue : e.client.outstanding = unanswered.length + 1)
    (hids : id ∉ unanswered) (hid : id ≠ Response.unattributed)
    (hevents : e.client.events = (stale ++ [own]).map .response)
    (hstale : List.Forall₂ Replies unanswered stale) (hown : Replies id own) :
    Concluded unanswered id (stale ++ [own]) e (e.await id).1 (e.await id).2 := by
  have hlength : (stale ++ [own]).length = unanswered.length + 1 := by
    rw [List.length_append, List.length_singleton, hstale.length_eq]
  have hother := id_ne_of_replies hstale hids hid
  rw [hstale.length_eq] at hdue
  rw [await_of_client (Client.await_answered hpatience hevents hother hown hdue)]
  constructor
  case available_eq => exact hevents
  case heard_le => exact Nat.le_of_eq hlength
  case consumed_eq => exact consumed_all hevents
  case events_eq => rfl
  case replied =>
    intro _
    have hnone : e.client.outstanding - (stale ++ [own]).length = 0 := by
      rw [hdue, hlength, hstale.length_eq, Nat.sub_self]
    exact ⟨stale, own, rfl, hstale, hown, rfl, hnone⟩
  case unreplied =>
    intro hle
    omega

theorem concluded_unreplied (hpatience : e.client.patience ≠ 0)
    (hdue : e.client.outstanding = unanswered.length + 1)
    (hids : id ∉ unanswered) (hid : id ≠ Response.unattributed)
    (hevents : e.client.events = heard.map .response) (hle : heard.length ≤ unanswered.length)
    (hreplies : List.Forall₂ Replies (unanswered.take heard.length) heard) :
    Concluded unanswered id heard e (e.await id).1 (e.await id).2 := by
  have hother := id_ne_of_replies hreplies (fun hmem => hids (List.mem_of_mem_take hmem)) hid
  rw [await_of_client (Client.await_unanswered hpatience hevents hother (by omega))]
  constructor
  case available_eq => exact hevents
  case heard_le => exact Nat.le_succ_of_le hle
  case consumed_eq => exact consumed_all hevents
  case events_eq => rfl
  case replied =>
    intro hlength
    omega
  case unreplied =>
    intro _
    refine ⟨hreplies, ?_⟩
    rw [Client.nothingLeft]
    split
    · exact .inl rfl
    · exact .inr rfl

theorem Consistent.await_concludes (h : Consistent config e)
    (hpatience : config.responseTimeoutMs ≠ 0)
    (hasked : e.asked.drop e.consumed.length = unanswered ++ [id]) (hids : id ∉ unanswered)
    (hid : id ≠ Response.unattributed) :
    ∃ heard, Concluded unanswered id heard e (e.await id).1 (e.await id).2 := by
  obtain ⟨heard, hevents, hreplies⟩ := h.honest.available
  rw [← h.patience_eq] at hpatience
  rw [hasked] at hreplies
  have hlength : (unanswered ++ [id]).length = unanswered.length + 1 := by
    rw [List.length_append, List.length_singleton]
  have hdue : e.client.outstanding = unanswered.length + 1 := by
    have hout := h.outstanding_eq
    rw [← hlength, ← hasked, List.length_drop]
    omega
  refine ⟨heard, ?_⟩
  -- replies come in order, so the own one is there exactly when there is one for every request
  by_cases hle : heard.length ≤ unanswered.length
  · rw [List.take_append_of_le_length hle] at hreplies
    exact concluded_unreplied hpatience hdue hids hid hevents hle hreplies
  · rw [List.take_of_length_le (by omega)] at hreplies
    obtain ⟨stale, own, rfl, hstale, hown⟩ := replies_concat hreplies
    exact concluded_replied hpatience hdue hids hid hevents hstale hown

end Await

theorem Consistent.concludes {m : Method} {a b : Float} {id : Int32}
    {os : List Client.Occurrence} (h : Consistent config e)
    (hids : e.allocated < 2 ^ 32 - 1) (hpatience : config.responseTimeoutMs ≠ 0)
    (hsend : (e.send m a b).2 = .ok id) (hhonest : ((e.send m a b).1.undergo os).Honest) :
    ∃ heard, Concluded (e.asked.drop e.consumed.length) id heard ((e.send m a b).1.undergo os)
      (e.call m a b os).1 (e.call m a b os).2 := by
  have hwaiting := (h.send m a b).undergo hhonest
  obtain ⟨hid, hsent, hconsumed⟩ := send_asked hsend
  have hle : e.consumed.length ≤ e.asked.length := by
    have hout := h.outstanding_eq
    omega
  have hasked : (e.asked ++ [id]).drop e.consumed.length =
    e.asked.drop e.consumed.length ++ [id] := List.drop_append_of_le_length hle
  rw [← hsent, ← hconsumed] at hasked
  obtain ⟨hfresh, hattributed⟩ := h.nextId_fresh hids
  rw [← hid] at hfresh hattributed
  have hlater : id ∉ e.asked.drop (e.send m a b).1.consumed.length :=
    fun hmem => hfresh (List.mem_of_mem_drop hmem)
  rw [call_of_send hsend, ← hconsumed]
  exact hwaiting.await_concludes hpatience hasked hlater hattributed

end Exchange

end RemoteCalc
