import RemoteCalc.Proofs.Session.Memory
import RemoteCalc.Server.Hub
import RemoteCalc.Transport.Outlet

/-!
Sessions that share a calculator. In whatever order they are called, and whatever their outlets do,
each call comes to what it would come to if all of them were made on one session.
-/

namespace RemoteCalc

variable {ω τ : Type}

namespace Method

def writesMemory : Method → Bool
  | resetMemory | addToMemory | subFromMemory | mulIntoMemory => true
  | none | getMemory | add | sub | mul | div => false

end Method

/-- An outlet and the frames that it was offered, whatever became of them. -/
structure Watched (ω : Type) where
  outlet : ω
  offered : List Bytes

def Sender.watched (send : Sender ω) : Sender (Watched ω) := fun f o =>
  (⟨(send f o.outlet).1, o.offered ++ [f]⟩, (send f o.outlet).2)

/-- What a call comes to: the response that is worked out, the frames that are offered to the
outlet, and the memory afterwards. -/
structure Turn where
  response : Option Response
  offered : List Bytes
  memory : Float

namespace TaskResult

def computed? : TaskResult → Option Response
  | computed r => some r
  | sent _ | fed _ => none

end TaskResult

namespace Task

/-- A task that is one call on the session. -/
def IsCall : Task → Prop
  | feed _ => False
  | compute _ | answer _ | refuse _ | reply _ => True

def isAnswer : Task → Bool
  | answer _ => true
  | compute _ | refuse _ | reply _ | feed _ => false

def isRefusal : Task → Bool
  | refuse _ => true
  | compute _ | answer _ | reply _ | feed _ => false

def request? : Task → Option Request
  | compute r | answer r => some r
  | refuse _ | reply _ | feed _ => none

def writesMemory (t : Task) : Bool := t.request?.any (·.method.writesMemory)

end Task

namespace Conversation

/-- The response that a call works out, which for an answer is the one that the same request gets
when it is only computed. -/
def response? (divide : Divider) (send : Sender ω) (c : Conversation ω) : Task → Option Response
  | .compute r | .answer r => (c.perform divide send (.compute r)).2.computed?
  | .refuse r => some (.refusal r.id r.fault.status)
  | .reply r => some r
  | .feed _ => none

/-- The same conversation with an outlet that is watched from now on. -/
def watched (c : Conversation ω) : Conversation (Watched ω) :=
  ⟨c.ring, ⟨⟨c.session.outlet, []⟩, c.session.handled, c.session.rejected⟩, c.calculator⟩

def turn (divide : Divider) (send : Sender ω) (c : Conversation ω) (t : Task) : Turn where
  response := c.response? divide send t
  offered := (c.watched.perform divide send.watched t).1.session.outlet.offered
  memory := (c.perform divide send t).1.calculator.memory

/-- What calls come to that are made one after another. -/
def turns (divide : Divider) (send : Sender ω) (c : Conversation ω) : List Task → List Turn
  | [] => []
  | t :: ts => c.turn divide send t :: turns divide send (c.perform divide send t).1 ts

end Conversation

namespace Hub

/-- What calls on several sessions come to that are made one after another. -/
def turns (divide : Divider) (send : Sender ω) (h : Hub ω) : List (Nat × Task) → List Turn
  | [] => []
  | (i, t) :: calls =>
    match h.conversations[i]? with
    | none => turns divide send h calls
    | some c =>
      { c with calculator := h.calculator }.turn divide send t ::
        turns divide send (h.perform divide send i t).1 calls

def run (divide : Divider) (send : Sender ω) (h : Hub ω) (calls : List (Nat × Task)) : Hub ω :=
  calls.foldl (fun h call => (h.perform divide send call.1 call.2).1) h

end Hub

/-- The value that the last call to write memory left there. -/
def lastWritten (memory : Float) (history : List (Task × Turn)) : Float :=
  history.foldl (fun m step => if step.1.writesMemory then step.2.memory else m) memory

namespace Turn

/-- A computation offers nothing, and every other call the frame of its response. -/
def Offers (t : Task) (turn : Turn) : Prop :=
  ∃ response, turn.response = some response ∧
    match t with
    | .compute _ => turn.offered = []
    | .answer _ | .refuse _ | .reply _ | .feed _ =>
      ∃ f, response.frame = .ok f ∧ turn.offered = [f]

end Turn

variable {divide : Divider} {send : Sender ω}

namespace Task

/-- The calculator that a call leaves. -/
def leaves (divide : Divider) (c : Calculator) (t : Task) : Calculator :=
  match t.request? with
  | some r => (c.respond divide r).2
  | none => c

/-- What a call comes to, said of the calculator alone. -/
def turn (divide : Divider) (c : Calculator) (t : Task) : Turn where
  response := match t with
    | compute r | answer r => some (c.respond divide r).1
    | refuse r => some (.refusal r.id r.fault.status)
    | reply r => some r
    | feed _ => none
  offered := match t with
    | compute _ | feed _ => []
    | answer r => [(c.respond divide r).1.bytes]
    | refuse r => [(Response.refusal r.id r.fault.status).bytes]
    | reply r => [r.bytes]
  memory := (t.leaves divide c).memory

def turns (divide : Divider) (c : Calculator) : List Task → List Turn
  | [] => []
  | t :: ts => t.turn divide c :: turns divide (t.leaves divide c) ts

end Task

namespace Conversation

variable {c : Conversation ω} {t : Task}

/-- What a call does to its session: it counts, whatever becomes of the frame that it offers. -/
theorem perform_call (ht : t.IsCall) :
    (c.perform divide send t).1.calculator = t.leaves divide c.calculator ∧
      (c.perform divide send t).1.session.handled =
        c.session.handled + (if t.isAnswer then 1 else 0) ∧
      (c.perform divide send t).1.session.rejected =
        c.session.rejected + (if t.isRefusal then 1 else 0) := by
  cases t with
  | feed bs => exact ht.elim
  | compute r => exact ⟨rfl, rfl, rfl⟩
  | answer r =>
    simp only [perform, Session.onRequest, Session.reply_eq]
    exact ⟨rfl, rfl, rfl⟩
  | refuse r =>
    simp only [perform, Session.onRejection, Session.reply_eq]
    exact ⟨rfl, rfl, rfl⟩
  | reply r =>
    simp only [perform, Session.reply_eq]
    exact ⟨rfl, rfl, rfl⟩

theorem turn_eq (ht : t.IsCall) : c.turn divide send t = t.turn divide c.calculator := by
  have hmemory := congrArg Calculator.memory (@perform_call ω divide send c t ht).1
  rw [turn, hmemory]
  cases t with
  | feed bs => exact ht.elim
  | compute r => rfl
  | answer r =>
    simp only [perform, Session.onRequest, Session.reply_eq]
    rfl
  | refuse r =>
    simp only [perform, Session.onRejection, Session.reply_eq]
    rfl
  | reply r =>
    simp only [perform, Session.reply_eq]
    rfl

theorem turns_eq {ts : List Task} (hts : ∀ t ∈ ts, t.IsCall) :
    c.turns divide send ts = Task.turns divide c.calculator ts := by
  induction ts generalizing c with
  | nil => rfl
  | cons t ts ih =>
    have ht := hts t (List.mem_cons_self ..)
    have hrest := fun u hu => hts u (List.mem_cons_of_mem t hu)
    rw [turns, turn_eq ht, ih hrest, (perform_call ht).1]
    rfl

end Conversation

namespace Task

variable {c : Calculator} {t : Task}

theorem leaves_of_not_writesMemory (ht : t.writesMemory = false) : t.leaves divide c = c := by
  rw [leaves]
  rw [writesMemory] at ht
  cases hr : t.request? with
  | none => rfl
  | some r =>
    rw [hr, Option.any_some] at ht
    cases hm : r.method with
    | resetMemory | addToMemory | subFromMemory | mulIntoMemory =>
      rw [hm] at ht
      cases ht
    | div =>
      simp only [Calculator.respond, hm]
      split
      · rfl
      · rfl
      · rfl
    | none | getMemory => simp only [Calculator.respond, hm]
    | add | sub | mul =>
      simp only [Calculator.respond, hm]
      rfl

theorem turns_append (divide : Divider) (c : Calculator) (ts us : List Task) :
    turns divide c (ts ++ us) =
      turns divide c ts ++ turns divide (ts.foldl (fun c t => t.leaves divide c) c) us := by
  induction ts generalizing c with
  | nil => rfl
  | cons t ts ih => rw [List.cons_append, turns, ih, turns, List.cons_append, List.foldl_cons]

theorem length_turns (divide : Divider) (c : Calculator) (ts : List Task) :
    (turns divide c ts).length = ts.length := by
  induction ts generalizing c with
  | nil => rfl
  | cons t ts ih => rw [turns, List.length_cons, ih, List.length_cons]

/-- Memory holds what the last call to write it left. -/
theorem lastWritten_turns (divide : Divider) (c : Calculator) (ts : List Task) :
    lastWritten c.memory (ts.zip (turns divide c ts)) =
      (ts.foldl (fun c t => t.leaves divide c) c).memory := by
  induction ts generalizing c with
  | nil => rfl
  | cons t ts ih =>
    have hrest := ih (t.leaves divide c)
    rw [lastWritten] at hrest ⊢
    rw [turns, List.zip_cons_cons, List.foldl_cons, List.foldl_cons, ← hrest]
    cases hwrites : t.writesMemory with
    | true => rfl
    | false => rw [if_neg (Bool.false_ne_true), leaves_of_not_writesMemory hwrites]

theorem offers_turns (divide : Divider) (c : Calculator) {ts : List Task}
    (hts : ∀ t ∈ ts, t.IsCall) : List.Forall₂ Turn.Offers ts (turns divide c ts) := by
  induction ts generalizing c with
  | nil => exact .nil
  | cons t ts ih =>
    have ht := hts t (List.mem_cons_self ..)
    apply List.Forall₂.cons
    · cases t with
      | feed bs => exact ht.elim
      | compute r => exact ⟨_, rfl, rfl⟩
      | answer r => exact ⟨_, rfl, _, Response.frame_eq_bytes _, rfl⟩
      | refuse r => exact ⟨_, rfl, _, Response.frame_eq_bytes _, rfl⟩
      | reply r => exact ⟨_, rfl, _, Response.frame_eq_bytes _, rfl⟩
    · apply ih
      intro u hu
      exact hts u (List.mem_cons_of_mem t hu)

/-- A request that folds gets the new value of memory for a result. -/
theorem turn_folded {r : Request} {x : Float} (hr : t.request? = some r)
    (hx : c.folded? r = some x) :
    ∃ offered, t.turn divide c = ⟨some (.success r.id x), offered, x⟩ := by
  have hrespond := @Calculator.respond_folded divide c r x hx
  cases t with
  | compute r' =>
    cases hr
    refine ⟨[], ?_⟩
    simp only [turn, leaves, request?, hrespond]
  | answer r' =>
    cases hr
    refine ⟨[(Response.success r.id x).bytes], ?_⟩
    simp only [turn, leaves, request?, hrespond]
  | refuse r' => cases hr
  | reply r' => cases hr
  | feed bs => cases hr

end Task

namespace Hub

variable {h : Hub ω} {calls : List (Nat × Task)} {i : Nat} {c : Conversation ω} {t : Task}

theorem perform_some (hi : h.conversations[i]? = some c) (t : Task) :
    let done := { c with calculator := h.calculator }.perform divide send t
    h.perform divide send i t =
      (⟨done.1.calculator, h.conversations.set i done.1⟩, some done.2) := by
  simp only [perform, hi]

theorem length_perform (h : Hub ω) (i : Nat) (t : Task) :
    (h.perform divide send i t).1.conversations.length = h.conversations.length := by
  cases hi : h.conversations[i]? with
  | none => simp only [perform, hi]
  | some c => rw [perform_some hi, List.length_set]

theorem turns_eq (hcalls : ∀ call ∈ calls, call.1 < h.conversations.length ∧ call.2.IsCall) :
    h.turns divide send calls = Task.turns divide h.calculator (calls.map Prod.snd) := by
  induction calls generalizing h with
  | nil => rfl
  | cons call calls ih =>
    obtain ⟨i, t⟩ := call
    obtain ⟨hi, ht⟩ := hcalls (i, t) (List.mem_cons_self ..)
    have hc : h.conversations[i]? = some h.conversations[i] := List.getElem?_eq_getElem hi
    have hrest : ∀ call ∈ calls,
        call.1 < (h.perform divide send i t).1.conversations.length ∧ call.2.IsCall := by
      intro call hcall
      rw [length_perform]
      exact hcalls call (List.mem_cons_of_mem _ hcall)
    simp only [turns, hc]
    rw [ih hrest, perform_some hc, Conversation.turn_eq ht, (Conversation.perform_call ht).1]
    rfl

/-- A call changes the counters of its own session only. -/
theorem perform_counts (hi : h.conversations[i]? = some c) {j : Nat} (ht : t.IsCall) :
    ∃ c', (h.perform divide send j t).1.conversations[i]? = some c' ∧
      c'.session.handled = c.session.handled + (if j = i ∧ t.isAnswer then 1 else 0) ∧
      c'.session.rejected = c.session.rejected + (if j = i ∧ t.isRefusal then 1 else 0) := by
  cases hj : h.conversations[j]? with
  | none =>
    have hne : j ≠ i := by
      rintro rfl
      rw [hi] at hj
      cases hj
    refine ⟨c, ?_, ?_, ?_⟩
    · simp only [perform, hj, hi]
    · simp only [hne, false_and, if_false, Nat.add_zero]
    · simp only [hne, false_and, if_false, Nat.add_zero]
  | some d =>
    rw [perform_some hj]
    by_cases hji : j = i
    · subst hji
      rw [hi] at hj
      cases hj
      obtain ⟨-, hhandled, hrejected⟩ :=
        @Conversation.perform_call ω divide send { c with calculator := h.calculator } t ht
      refine ⟨_, List.getElem?_set_self (List.getElem?_eq_some_iff.1 hi).1, ?_, ?_⟩
      · simpa only [true_and] using hhandled
      · simpa only [true_and] using hrejected
    · refine ⟨c, ?_, ?_, ?_⟩
      · rw [List.getElem?_set_ne hji, hi]
      · simp only [hji, false_and, if_false, Nat.add_zero]
      · simp only [hji, false_and, if_false, Nat.add_zero]

theorem run_counts (hi : h.conversations[i]? = some c) (hcalls : ∀ call ∈ calls, call.2.IsCall) :
    ∃ c', (h.run divide send calls).conversations[i]? = some c' ∧
      c'.session.handled =
        c.session.handled + calls.countP (fun call => call.1 = i ∧ call.2.isAnswer) ∧
      c'.session.rejected =
        c.session.rejected + calls.countP (fun call => call.1 = i ∧ call.2.isRefusal) := by
  induction calls generalizing h c with
  | nil => exact ⟨c, hi, rfl, rfl⟩
  | cons call calls ih =>
    obtain ⟨j, t⟩ := call
    have ht : t.IsCall := hcalls (j, t) (List.mem_cons_self ..)
    obtain ⟨c₁, hc₁, hhandled, hrejected⟩ := @perform_counts ω divide send h i c t hi j ht
    obtain ⟨c', hc', hhandled', hrejected'⟩ :=
      ih hc₁ fun call hcall => hcalls call (List.mem_cons_of_mem _ hcall)
    refine ⟨c', hc', ?_, ?_⟩
    · rw [hhandled', hhandled, List.countP_cons]
      simp only [decide_eq_true_eq]
      omega
    · rw [hrejected', hrejected, List.countP_cons]
      simp only [decide_eq_true_eq]
      omega

/-- Calls on sessions that share a calculator come to what they come to on one session that gets
them in the same order, whatever the outlets do; a value folded into memory is folded over the
last one written; and a session counts its own calls. -/
theorem turns_serial (hcalls : ∀ call ∈ calls, call.1 < h.conversations.length ∧ call.2.IsCall) :
    (∀ {τ : Type} (send' : Sender τ) (capacity : Nat) (outlet : τ),
      h.turns divide send calls =
        (Conversation.start capacity outlet h.calculator).turns divide send'
          (calls.map Prod.snd)) ∧
    List.Forall₂ Turn.Offers (calls.map Prod.snd) (h.turns divide send calls) ∧
    (∀ before i t after r x, calls = before ++ (i, t) :: after → t.request? = some r →
      (⟨lastWritten h.calculator.memory
        ((before.map Prod.snd).zip (h.turns divide send before))⟩ : Calculator).folded? r = some x →
      ∃ offered, (h.turns divide send calls)[before.length]? =
        some ⟨some (.success r.id x), offered, x⟩) ∧
    ∀ i c, h.conversations[i]? = some c →
      ∃ c', (h.run divide send calls).conversations[i]? = some c' ∧
        c'.session.handled =
          c.session.handled + calls.countP (fun call => call.1 = i ∧ call.2.isAnswer) ∧
        c'.session.rejected =
          c.session.rejected + calls.countP (fun call => call.1 = i ∧ call.2.isRefusal) := by
  have htasks : ∀ t ∈ calls.map Prod.snd, t.IsCall := by
    intro t ht
    obtain ⟨call, hcall, rfl⟩ := List.mem_map.1 ht
    exact (hcalls call hcall).2
  rw [turns_eq hcalls]
  refine ⟨?alone, Task.offers_turns divide h.calculator htasks, ?folded, ?counted⟩
  case alone =>
    intro τ send' capacity outlet
    rw [Conversation.turns_eq htasks]
    rfl
  case folded =>
    intro before i t after r x hsplit hr hx
    subst hsplit
    rw [turns_eq fun call hcall => hcalls call (List.mem_append_left _ hcall),
      Task.lastWritten_turns] at hx
    obtain ⟨offered, hturn⟩ := @Task.turn_folded divide _ t r x hr hx
    refine ⟨offered, ?_⟩
    rw [List.map_append, Task.turns_append, List.getElem?_append_right]
    · rw [Task.length_turns, List.length_map, Nat.sub_self, List.map_cons, Task.turns,
        List.getElem?_cons_zero, hturn]
    · rw [Task.length_turns, List.length_map]
  case counted =>
    intro i c hi
    exact run_counts hi fun call hcall => (hcalls call hcall).2

/-- One session has lost its peer and the other's flushes fail. -/
theorem turns_serial_broken :
    let h : Hub Outlet := ⟨.fresh, [.start 16 (.ofScript [.failForever .brokenPipe]) .fresh,
      .start 16 (.ofScript [.takeUpTo 2, .failFlush .timedOut]) .fresh]⟩
    let calls : List (Nat × Task) := [(0, .answer ⟨1, .addToMemory, 2, 3⟩),
      (1, .answer ⟨2, .mulIntoMemory, 2, 4⟩), (0, .refuse (.unattributed .overflow)),
      (1, .compute ⟨3, .getMemory, 0, 0⟩)]
    (∀ call ∈ calls, call.1 < h.conversations.length ∧ call.2.IsCall) ∧
      h.turns Calculator.div (Outlet.send .frameNotWritten) calls =
        (Conversation.start 16 [] .fresh).turns Calculator.div accept (calls.map Prod.snd) ∧
      ∃ c', (h.run Calculator.div (Outlet.send .frameNotWritten) calls).conversations[0]? =
        some c' ∧ c'.session.handled = 1 ∧ c'.session.rejected = 1 := by
  intro h calls
  have hcalls : ∀ call ∈ calls, call.1 < h.conversations.length ∧ call.2.IsCall := by
    simp [calls, h, Task.IsCall]
  obtain ⟨halone, -, -, hcounted⟩ :=
    @turns_serial Outlet Calculator.div (Outlet.send .frameNotWritten) h calls hcalls
  exact ⟨hcalls, halone accept 16 [], hcounted 0 _ rfl⟩

end Hub

end RemoteCalc
