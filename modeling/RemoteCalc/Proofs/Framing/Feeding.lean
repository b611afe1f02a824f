import RemoteCalc.Proofs.Framing.Tracking

/-!
Feeding a ring is handing over the events of its bytes: a handler sees them in order, up to the one
at which it fails, and the boundaries of the chunks do not matter.
-/

namespace RemoteCalc

variable {σ ε : Type}

namespace Handler

/-- Hands events over in turn, until the handler fails at one. -/
def run (handle : Handler σ ε) (s : σ) : List Event → σ × Option ε
  | [] => (s, none)
  | event :: events =>
    match handle event s with
    | (s, some e) => (s, some e)
    | (s, none) => run handle s events

theorem run_eq_foldl (handle : Handler σ Empty) (s : σ) (events : List Event) :
    run handle s events = (events.foldl (fun s event => (handle event s).1) s, none) := by
  induction events generalizing s with
  | nil => rfl
  | cons event events ih =>
    simp only [run, List.foldl_cons]
    split
    · rename_i e _
      exact e.elim
    · rename_i s' hs
      rw [ih, hs]

theorem run_collect (seen events : List Event) :
    run Ring.collect seen events = (seen ++ events, none) := by
  induction events generalizing seen with
  | nil => simp [run]
  | cons event events ih => simp [run, Ring.collect, ih]

end Handler

namespace Ring

variable {role : Role} {capacity : Nat} {seen bs : Bytes} {r r' : Ring} {b : UInt8} {event : Event}
variable {handle : Handler σ ε} {s s' : σ} {e : ε}

theorem feedFrom_quiet (hp : r.push b = (r', none)) (n : Nat) (s : σ) (bs : Bytes) :
    feedFrom handle n r s (b :: bs) = feedFrom handle n r' s bs := by
  simp [feedFrom, hp]

theorem feedFrom_taken (hp : r.push b = (r', some event)) (ht : handle event s = (s', none))
    (n : Nat) (bs : Bytes) : feedFrom handle n r s (b :: bs) =
      feedFrom handle (n + if b = endMark then 1 else 0) r' s' bs := by
  simp only [feedFrom, hp, ht]
  split <;> rfl

theorem feedFrom_failed (hp : r.push b = (r', some event)) (ht : handle event s = (s', some e))
    (n : Nat) (bs : Bytes) : feedFrom handle n r s (b :: bs) = ⟨r', s', .error e⟩ := by
  simp [feedFrom, hp, ht]

/-- Events that are all taken leave the ring a view of all bytes, and the count of the messages
among them. -/
theorem Tracks.feedFrom_ok (h : r.Tracks role capacity seen) (n : Nat)
    (hrun : Handler.run handle s (Framing.raised role capacity seen bs) = (s', none)) :
    ∃ r' k, r'.Tracks role capacity (seen ++ bs) ∧
      Framing.found capacity (seen ++ bs) = Framing.found capacity seen + k ∧
      feedFrom handle n r s bs = ⟨r', s', .ok (n + k)⟩ := by
  induction bs generalizing r seen n s with
  | nil =>
    cases hrun
    exact ⟨r, 0, by simpa using h, by simp, rfl⟩
  | cons b bs ih =>
    obtain ⟨ht, hev⟩ := h.push b
    have hcat : seen ++ b :: bs = seen ++ [b] ++ bs := by simp
    have hfound := @Framing.found_concat capacity role seen b
    rw [Framing.raised, ← hev] at hrun
    rw [← hev] at hfound
    cases hp : r.push b with
    | mk r₁ ev =>
      rw [hp] at ht hrun hfound
      cases ev with
      | none =>
        obtain ⟨r', k, ht', hk, hf⟩ := ih ht n (by simpa using hrun)
        simp only [Option.isSome_none, Bool.false_eq_true, and_false, if_false] at hfound
        exact ⟨r', k, hcat ▸ ht', by rw [hcat, hk, hfound]; rfl, by rw [feedFrom_quiet hp, hf]⟩
      | some event =>
        simp only [Option.toList_some, List.singleton_append, Handler.run] at hrun
        simp only [Option.isSome_some, and_true] at hfound
        cases htaken : handle event s with
        | mk s₁ failure =>
          rw [htaken] at hrun
          cases failure with
          | some e => cases hrun
          | none =>
            obtain ⟨r', k, ht', hk, hf⟩ := ih ht (n + if b = endMark then 1 else 0) hrun
            refine ⟨r', (if b = endMark then 1 else 0) + k, hcat ▸ ht', ?_, ?_⟩
            · rw [hcat, hk, hfound, Nat.add_assoc]
            · rw [feedFrom_taken hp htaken, hf, Nat.add_assoc]

/-- A failure leaves the ring as it is after the byte whose event it met. -/
theorem Tracks.feedFrom_error (h : r.Tracks role capacity seen) (n : Nat)
    (hrun : Handler.run handle s (Framing.raised role capacity seen bs) = (s', some e)) :
    ∃ r' pre post, bs = pre ++ post ∧ r'.Tracks role capacity (seen ++ pre) ∧
      Handler.run handle s (Framing.raised role capacity seen pre) = (s', some e) ∧
      feedFrom handle n r s bs = ⟨r', s', .error e⟩ := by
  induction bs generalizing r seen n s with
  | nil => cases hrun
  | cons b bs ih =>
    obtain ⟨ht, hev⟩ := h.push b
    rw [Framing.raised, ← hev] at hrun
    have hmore (pre : Bytes) : Framing.raised role capacity seen (b :: pre) =
        (r.push b).2.toList ++ Framing.raised role capacity (seen ++ [b]) pre := by
      rw [hev, Framing.raised]
    cases hp : r.push b with
    | mk r₁ ev =>
      rw [hp] at ht hrun hmore
      cases ev with
      | none =>
        obtain ⟨r', pre, post, hbs, ht', hr', hf⟩ := ih ht n (by simpa using hrun)
        refine ⟨r', b :: pre, post, by simp [hbs], by simpa using ht', ?_, ?_⟩
        · simpa [hmore] using hr'
        · rw [feedFrom_quiet hp, hf]
      | some event =>
        simp only [Option.toList_some, List.singleton_append, Handler.run] at hrun hmore
        cases htaken : handle event s with
        | mk s₁ failure =>
          rw [htaken] at hrun
          cases failure with
          | some e' =>
            cases hrun
            refine ⟨r₁, [b], bs, rfl, ht, ?_, feedFrom_failed hp htaken n bs⟩
            simp [hmore, Handler.run, htaken]
          | none =>
            obtain ⟨r', pre, post, hbs, ht', hr', hf⟩ :=
              ih ht (n + if b = endMark then 1 else 0) hrun
            refine ⟨r', b :: pre, post, by simp [hbs], by simpa using ht', ?_, ?_⟩
            · simpa [hmore, Handler.run, htaken] using hr'
            · rw [feedFrom_taken hp htaken, hf]

theorem feedFrom_eq_add (handle : Handler σ ε) (n : Nat) (r : Ring) (s : σ) (bs : Bytes) :
    feedFrom handle n r s bs =
      { feedFrom handle 0 r s bs with
        outcome := (feedFrom handle 0 r s bs).outcome.map (n + ·) } := by
  induction bs generalizing n r s with
  | nil => rfl
  | cons b bs ih =>
    cases hp : r.push b with
    | mk r' ev =>
      cases ev with
      | none => rw [feedFrom_quiet hp, feedFrom_quiet hp, ih]
      | some event =>
        cases ht : handle event s with
        | mk s' failure =>
          cases failure with
          | some e => rw [feedFrom_failed hp ht, feedFrom_failed hp ht]; rfl
          | none =>
            rw [feedFrom_taken hp ht, feedFrom_taken hp ht, ih, ih (0 + _)]
            cases (feedFrom handle 0 r' s' bs).outcome with
            | error e => rfl
            | ok k => simp [Except.map, Nat.add_assoc]

theorem feedFrom_append (handle : Handler σ ε) (n : Nat) (r : Ring) (s : σ) (bs more : Bytes) :
    feedFrom handle n r s (bs ++ more) =
      match feedFrom handle n r s bs with
      | ⟨r', s', .ok k⟩ => feedFrom handle k r' s' more
      | fed => fed := by
  induction bs generalizing n r s with
  | nil => rfl
  | cons b bs ih =>
    rw [List.cons_append]
    cases hp : r.push b with
    | mk r' ev =>
      cases ev with
      | none => rw [feedFrom_quiet hp, feedFrom_quiet hp, ih]
      | some event =>
        cases ht : handle event s with
        | mk s' failure =>
          cases failure with
          | some e => rw [feedFrom_failed hp ht, feedFrom_failed hp ht]
          | none => rw [feedFrom_taken hp ht, feedFrom_taken hp ht, ih]

/-- A handler without failures takes what is fed at once as if it were fed in two parts. -/
theorem feed_append (handle : Handler σ Empty) (r : Ring) (s : σ) (bs more : Bytes) :
    let first := r.feed handle s bs
    (r.feed handle s (bs ++ more)).ring = (first.ring.feed handle first.state more).ring ∧
      (r.feed handle s (bs ++ more)).state = (first.ring.feed handle first.state more).state := by
  simp only [feed]
  rw [feedFrom_append]
  cases feedFrom handle 0 r s bs with
  | mk r' s' outcome =>
    cases outcome with
    | error e => exact e.elim
    | ok k =>
      simp only
      rw [feedFrom_eq_add handle k]
      exact ⟨rfl, rfl⟩

/-- Feeds chunks in turn, until the handler fails; `found` messages have already ended. -/
def feedAllFrom (handle : Handler σ ε) (found : Nat) (r : Ring) (s : σ) : List Bytes → Fed σ ε
  | [] => ⟨r, s, .ok found⟩
  | bs :: chunks =>
    match r.feed handle s bs with
    | ⟨r, s, .ok n⟩ => feedAllFrom handle (found + n) r s chunks
    | fed => fed

/-- Feeds chunks in turn, and counts the messages that they end. -/
def feedAll (handle : Handler σ ε) (r : Ring) (s : σ) (chunks : List Bytes) : Fed σ ε :=
  feedAllFrom handle 0 r s chunks

theorem feedAllFrom_eq (handle : Handler σ ε) (n : Nat) (r : Ring) (s : σ)
    (chunks : List Bytes) :
    feedAllFrom handle n r s chunks = feedFrom handle n r s chunks.flatten := by
  induction chunks generalizing n r s with
  | nil => rfl
  | cons bs chunks ih =>
    rw [feedAllFrom, List.flatten_cons, feedFrom_append, feed, feedFrom_eq_add handle n]
    cases hf : feedFrom handle 0 r s bs with
    | mk r' s' outcome =>
      cases outcome with
      | error e => rfl
      | ok k => exact ih (n + k) r' s'

/-- The boundaries of the chunks do not matter, to a handler that fails either. -/
theorem feedAll_eq_feed (handle : Handler σ ε) (r : Ring) (s : σ) (chunks : List Bytes) :
    r.feedAll handle s chunks = r.feed handle s chunks.flatten :=
  feedAllFrom_eq handle 0 r s chunks

end Ring

end RemoteCalc
