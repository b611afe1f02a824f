import RemoteCalc.Proofs.Framing.Feeding

/-!
Feeds that a failing handler cuts short. Bytes may be fed at once or in two parts, whether or not
the handler fails. Where it fails, the ring is as a handler without failures would have left it
after the byte that raised the event: between two messages, or in one that is being skipped.
-/

namespace RemoteCalc

variable {σ ε τ φ : Type}

namespace Handler

/-- A handler that also keeps the events it was given, the one it failed at included. -/
def recorded (handle : Handler σ ε) : Handler (σ × List Event) ε := fun event state =>
  (((handle event state.1).1, state.2 ++ [event]), (handle event state.1).2)

theorem run_recorded {handle : Handler σ ε} {s s' : σ} {events : List Event}
    (h : run handle s events = (s', none)) (seen : List Event) :
    run handle.recorded (s, seen) events = ((s', seen ++ events), none) := by
  induction events generalizing s seen with
  | nil =>
    cases h
    rw [List.append_nil]
    rfl
  | cons event events ih =>
    rw [run] at h
    split at h
    · cases h
    · rename_i s₁ htaken
      have hrec : handle.recorded event (s, seen) = ((s₁, seen ++ [event]), none) := by
        rw [recorded, htaken]
      simp only [run, hrec, ih h, List.append_assoc, List.singleton_append]

end Handler

namespace Ring

variable {handle : Handler σ ε} {r r' : Ring} {s s' : σ} {bs : Bytes} {b : UInt8} {n m : Nat}
variable {e : ε}
variable {event : Event}

/-- A byte that raises an event either ends a message or begins the skipping of one. -/
theorem push_raises (h : r.push b = (r', some event)) :
    b = endMark ∧ r'.phase = .idle ∨
      b ≠ endMark ∧ event = Framing.overflow ∧ r'.phase = .discarding := by
  rw [push] at h
  split at h
  · split at h
    · cases h
    · cases h
  · split at h
    · rename_i hb
      cases h
      exact .inl ⟨hb, rfl⟩
    · rename_i hb
      split at h
      · cases h
        exact .inr ⟨hb, rfl, rfl⟩
      · cases h
  · split at h
    · cases h
    · cases h

/-- A feed that ends well has raised events that its handler takes, and any other handler that
takes them is fed as well and leaves the same ring. -/
theorem feedFrom_ok (h : feedFrom handle n r s bs = ⟨r', s', .ok m⟩) :
    ∃ events, Handler.run handle s events = (s', none) ∧
      ∀ {τ φ : Type} {other : Handler τ φ} {t t' : τ}, Handler.run other t events = (t', none) →
        feedFrom other n r t bs = ⟨r', t', .ok m⟩ := by
  induction bs generalizing n r s with
  | nil =>
    cases h
    refine ⟨[], rfl, ?_⟩
    intro τ φ other t t' hother
    cases hother
    rfl
  | cons b bs ih =>
    cases hp : r.push b with
    | mk r₁ raised =>
      cases raised with
      | none =>
        rw [feedFrom_quiet hp] at h
        obtain ⟨events, hrun, hothers⟩ := ih h
        refine ⟨events, hrun, ?_⟩
        intro τ φ other t t' hother
        rw [feedFrom_quiet hp, hothers hother]
      | some event =>
        cases ht : handle event s with
        | mk s₁ failure =>
          cases failure with
          | some e =>
            rw [feedFrom_failed hp ht] at h
            cases h
          | none =>
            rw [feedFrom_taken hp ht] at h
            obtain ⟨events, hrun, hothers⟩ := ih h
            refine ⟨event :: events, ?_, ?_⟩
            · rw [Handler.run, ht]
              exact hrun
            · intro τ φ other t t' hother
              rw [Handler.run] at hother
              split at hother
              · cases hother
              · rename_i t₁ htaken
                rw [feedFrom_taken hp htaken, hothers hother]

/-- A feed that fails has gone well up to the byte whose event failed. -/
theorem feedFrom_failure (h : feedFrom handle n r s bs = ⟨r', s', .error e⟩) :
    ∃ pre b post r₀ s₀ k event, bs = pre ++ b :: post ∧
      feedFrom handle n r s pre = ⟨r₀, s₀, .ok k⟩ ∧ r₀.push b = (r', some event) ∧
      handle event s₀ = (s', some e) := by
  induction bs generalizing n r s with
  | nil => cases h
  | cons b bs ih =>
    cases hp : r.push b with
    | mk r₁ raised =>
      cases raised with
      | none =>
        rw [feedFrom_quiet hp] at h
        obtain ⟨pre, c, post, r₀, s₀, k, event, hbs, hpre, hpush, hfail⟩ := ih h
        refine ⟨b :: pre, c, post, r₀, s₀, k, event, ?_, ?_, hpush, hfail⟩
        · rw [hbs, List.cons_append]
        · rw [feedFrom_quiet hp, hpre]
      | some event =>
        cases ht : handle event s with
        | mk s₁ failure =>
          cases failure with
          | some e' =>
            rw [feedFrom_failed hp ht] at h
            cases h
            exact ⟨[], b, bs, r, s, n, event, rfl, rfl, hp, ht⟩
          | none =>
            rw [feedFrom_taken hp ht] at h
            obtain ⟨pre, c, post, r₀, s₀, k, event', hbs, hpre, hpush, hfail⟩ := ih h
            refine ⟨b :: pre, c, post, r₀, s₀, k, event', ?_, ?_, hpush, hfail⟩
            · rw [hbs, List.cons_append]
            · rw [feedFrom_taken hp ht, hpre]

/-- To keep a record of the events changes nothing else. -/
theorem exists_feedFrom_recorded (handle : Handler σ ε) (n : Nat) (r : Ring) (s : σ) (bs : Bytes) :
    ∃ events, ∀ seen, feedFrom handle.recorded n r (s, seen) bs =
      ⟨(feedFrom handle n r s bs).ring, ((feedFrom handle n r s bs).state, seen ++ events),
        (feedFrom handle n r s bs).outcome⟩ := by
  induction bs generalizing n r s with
  | nil =>
    refine ⟨[], ?_⟩
    intro seen
    rw [List.append_nil]
    rfl
  | cons b bs ih =>
    cases hp : r.push b with
    | mk r₁ raised =>
      cases raised with
      | none =>
        obtain ⟨events, hrecorded⟩ := ih n r₁ s
        refine ⟨events, ?_⟩
        intro seen
        rw [feedFrom_quiet hp, feedFrom_quiet hp, hrecorded]
      | some event =>
        cases ht : handle event s with
        | mk s₁ failure =>
          have hrec (seen : List Event) :
              handle.recorded event (s, seen) = ((s₁, seen ++ [event]), failure) := by
            rw [Handler.recorded, ht]
          cases failure with
          | some e =>
            refine ⟨[event], ?_⟩
            intro seen
            rw [feedFrom_failed hp (hrec seen), feedFrom_failed hp ht]
          | none =>
            obtain ⟨events, hrecorded⟩ := ih (n + if b = endMark then 1 else 0) r₁ s₁
            refine ⟨event :: events, ?_⟩
            intro seen
            rw [feedFrom_taken hp (hrec seen), feedFrom_taken hp ht, hrecorded, List.append_assoc]
            rfl

/-- The events that a feed hands to its handler, in order, the one it fails at included. -/
def handed (handle : Handler σ ε) (r : Ring) (s : σ) (bs : Bytes) : List Event :=
  (r.feed handle.recorded (s, []) bs).state.2

theorem feedFrom_recorded (handle : Handler σ ε) (n : Nat) (r : Ring) (s : σ) (seen : List Event)
    (bs : Bytes) : feedFrom handle.recorded n r (s, seen) bs =
      ⟨(feedFrom handle n r s bs).ring,
        ((feedFrom handle n r s bs).state, seen ++ r.handed handle s bs),
        (feedFrom handle n r s bs).outcome⟩ := by
  obtain ⟨events, hrecorded⟩ := exists_feedFrom_recorded handle 0 r s bs
  have hevents : r.handed handle s bs = events := by
    rw [handed, feed, hrecorded, List.nil_append]
  rw [feedFrom_eq_add handle.recorded, feedFrom_eq_add handle n, hrecorded, hevents]

theorem handed_of_ok (h : feedFrom handle n r s bs = ⟨r', s', .ok m⟩) :
    Handler.run handle s (r.handed handle s bs) = (s', none) ∧
      ∀ seen, feedFrom collect n r seen bs = ⟨r', seen ++ r.handed handle s bs, .ok m⟩ := by
  obtain ⟨events, hrun, hothers⟩ := feedFrom_ok h
  have hrecorded := hothers (Handler.run_recorded hrun [])
  rw [feedFrom_recorded, h] at hrecorded
  have hevents : r.handed handle s bs = events := by simpa using hrecorded
  rw [hevents]
  refine ⟨hrun, ?_⟩
  intro seen
  exact hothers (Handler.run_collect seen events)

theorem feedFrom_discarding (h : r.phase = .discarding) {tail : Bytes} (ht : endMark ∉ tail)
    (handle : Handler σ ε) (n : Nat) (s : σ) (more : Bytes) :
    feedFrom handle n r s (tail ++ more) = feedFrom handle n r s more := by
  induction tail with
  | nil => rfl
  | cons b tail ih =>
    rw [List.mem_cons, not_or] at ht
    have hp : r.push b = (r, none) := by
      simp only [push, h, if_neg (Ne.symm ht.1)]
    rw [List.cons_append, feedFrom_quiet hp, ih ht.2]

/-- What has been collected before has no part in what a feed does. -/
theorem feed_collect (r : Ring) (seen : List Event) (bs : Bytes) :
    r.feed collect seen bs = { r.feed collect [] bs with
      state := seen ++ (r.feed collect [] bs).state } := by
  cases hf : r.feed collect [] bs with
  | mk r' events outcome =>
    cases outcome with
    | error e => exact e.elim
    | ok k =>
      obtain ⟨hrun, hcollect⟩ := handed_of_ok hf
      rw [Handler.run_collect, List.nil_append, Prod.mk.injEq] at hrun
      rw [feed, hcollect, hrun.1]

theorem feedFrom_collect_state (r : Ring) (n : Nat) (seen : List Event) (bs : Bytes) :
    (feedFrom collect n r seen bs).state = seen ++ (r.feed collect [] bs).state := by
  rw [feedFrom_eq_add, ← feed, feed_collect]

/-- The handler fails at the event of the byte `b`, after the events of `pre`. -/
structure Aborted (handle : Handler σ ε) (r : Ring) (s : σ) (pre : Bytes) (b : UInt8) (r' : Ring)
    (s' : σ) (e : ε) : Prop where
  /-- The ring is as a handler without failures has it by then. -/
  leaves : (r.feed collect [] (pre ++ [b])).ring = r'
  /-- What follows has no effect, and no event is handed over but those of the bytes so far. -/
  stops : ∀ post, r.feed handle s (pre ++ b :: post) = ⟨r', s', .error e⟩ ∧
    r.handed handle s (pre ++ b :: post) = (r.feed collect [] (pre ++ [b])).state
  /-- All of them but the last were taken, and no part of a message is left. -/
  fails : ∃ event s₀,
    (r.feed collect [] (pre ++ [b])).state = (r.feed collect [] pre).state ++ [event] ∧
      Handler.run handle s (r.feed collect [] pre).state = (s₀, none) ∧
      handle event s₀ = (s', some e) ∧
      (b = endMark ∧ r'.phase = .idle ∨
        b ≠ endMark ∧ event = Framing.overflow ∧ r'.phase = .discarding)
  /-- The next feed hands over the events that would have followed. -/
  continues : ∀ more, (r.feed collect [] (pre ++ b :: more)).state =
    (r.feed collect [] (pre ++ [b])).state ++ (r'.feed collect [] more).state
  /-- What is left of a message that was too long is passed over up to its end mark. -/
  skips : r'.phase = .discarding → ∀ tail, endMark ∉ tail →
    ∀ {τ φ : Type} (next : Handler τ φ) (t : τ), r'.feed next t tail = ⟨r', t, .ok 0⟩ ∧
      ∀ more, r'.feed next t (tail ++ endMark :: more) =
        { r' with phase := .idle }.feed next t more

theorem aborted_of_failure {pre : Bytes} {r₀ : Ring} {s₀ : σ} {k : Nat}
    (hpre : feedFrom handle 0 r s pre = ⟨r₀, s₀, .ok k⟩) (hpush : r₀.push b = (r', some event))
    (hfail : handle event s₀ = (s', some e)) : Aborted handle r s pre b r' s' e := by
  obtain ⟨before, hbefore⟩ : ∃ before, r.handed handle s pre = before := ⟨_, rfl⟩
  obtain ⟨hrun, hcollect⟩ := handed_of_ok hpre
  rw [hbefore] at hrun hcollect
  have hseen : r.feed collect [] pre = ⟨r₀, before, .ok k⟩ := hcollect []
  have hmore (more : Bytes) : r.feed collect [] (pre ++ b :: more) =
      feedFrom collect (k + if b = endMark then 1 else 0) r' (before ++ [event]) more := by
    rw [feed, feedFrom_append, hcollect]
    exact feedFrom_taken hpush rfl k more
  have hlast : r.feed collect [] (pre ++ [b]) =
      ⟨r', before ++ [event], .ok (k + if b = endMark then 1 else 0)⟩ := hmore []
  constructor
  case leaves => rw [hlast]
  case stops =>
    intro post
    have hrec : handle.recorded event (s₀, before) = ((s', before ++ [event]), some e) := by
      rw [Handler.recorded, hfail]
    rw [hlast]
    constructor
    · rw [feed, feedFrom_append, hpre]
      exact feedFrom_failed hpush hfail k post
    · rw [handed, feed, feedFrom_append, feedFrom_recorded, hpre, hbefore]
      exact congrArg (fun fed => fed.state.2) (feedFrom_failed hpush hrec k post)
  case fails =>
    rw [hlast, hseen]
    exact ⟨event, s₀, rfl, hrun, hfail, push_raises hpush⟩
  case continues =>
    intro more
    rw [hlast, hmore, feedFrom_collect_state]
  case skips =>
    intro hphase tail htail τ φ next t
    have hend : r'.push endMark = ({ r' with phase := .idle }, none) := by
      simp only [push, hphase, if_true]
    constructor
    · have hskip := feedFrom_discarding hphase htail next 0 t []
      rw [List.append_nil] at hskip
      exact hskip
    · intro more
      rw [feed, feedFrom_discarding hphase htail, feedFrom_quiet hend, feed]

/-- What is fed in two parts is fed as a whole, counts added; and a feed that fails stops at the
byte whose event failed, with the ring as a handler without failures leaves it there. -/
theorem feed_parts (handle : Handler σ ε) (r : Ring) (s : σ) (u : Bytes) :
    (∀ n, (r.feed handle s u).outcome = .ok n → ∀ v,
      let fed := r.feed handle s u
      let next := fed.ring.feed handle fed.state v
      r.feed handle s (u ++ v) = { next with outcome := next.outcome.map (n + ·) } ∧
        r.handed handle s (u ++ v) =
          r.handed handle s u ++ fed.ring.handed handle fed.state v) ∧
    ∀ e, (r.feed handle s u).outcome = .error e →
      (∀ v, r.feed handle s (u ++ v) = r.feed handle s u ∧
        r.handed handle s (u ++ v) = r.handed handle s u) ∧
      ∃ pre b post r' s', u = pre ++ b :: post ∧ Aborted handle r s pre b r' s' e := by
  cases hf : r.feed handle s u with
  | mk r' s' outcome =>
    have hfeed : feedFrom handle 0 r s u = ⟨r', s', outcome⟩ := hf
    cases outcome with
    | ok k =>
      constructor
      · intro n hok v
        cases hok
        constructor
        · rw [feed, feedFrom_append, hfeed, feed]
          exact feedFrom_eq_add handle k r' s' v
        · rw [handed, feed, feedFrom_append, feedFrom_recorded, hfeed, List.nil_append]
          simp only [feedFrom_recorded handle k r' s']
      · intro e herror
        cases herror
    | error e =>
      constructor
      · intro n hok
        cases hok
      · intro e' herror
        cases herror
        obtain ⟨pre, b, post, r₀, s₀, k, event, rfl, hpre, hpush, hfail⟩ := feedFrom_failure hfeed
        have habort := aborted_of_failure hpre hpush hfail
        refine ⟨?_, pre, b, post, r', s', rfl, habort⟩
        intro v
        obtain ⟨hstops, hhanded⟩ := habort.stops post
        obtain ⟨hstops', hhanded'⟩ := habort.stops (post ++ v)
        rw [List.append_assoc, List.cons_append, hhanded, hhanded', hstops']
        exact ⟨rfl, rfl⟩

/-- A handler that takes nothing fails at the overflow of a ring of three cells. -/
theorem feed_parts_overflow :
    let refuse : Handler Unit Unit := fun _ s => (s, some ())
    ((empty .server 3).feed refuse () [97, 98, 99, 100]).outcome = .error () ∧
      ∃ pre b post r' s', [97, 98, 99, 100] = pre ++ b :: post ∧
        Aborted refuse (empty .server 3) () pre b r' s' () :=
  ⟨rfl, ((feed_parts _ (empty .server 3) () [97, 98, 99, 100]).2 () rfl).2⟩

end Ring

end RemoteCalc
