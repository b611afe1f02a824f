import RemoteCalc.Proofs.Framing.Frames
import RemoteCalc.Proofs.Framing.Refinement
import RemoteCalc.Proofs.Message.Fields
import RemoteCalc.Proofs.Message.Inert

/-!
The grammar of messages, and what is said of bytes that are none. A body, a frame and a stream are
read by three functions, which agree.
-/

namespace RemoteCalc

open Decimal (Int32Text FloatText)

/-- The id that a message with the wrong number of fields is rejected with. -/
inductive LeadingId : List Bytes → Int32 → Prop
  | held {field : Bytes} {fields : List Bytes} {id : Int32} : Holds Int32Text field id →
      LeadingId (field :: fields) id
  | missing {field : Bytes} {fields : List Bytes} : (∀ id, ¬ Holds Int32Text field id) →
      LeadingId (field :: fields) (-1)

/-- What fields are read as: a request, or the rejection for the first field that is wrong. -/
inductive Request.Reads : List Bytes → Except Rejection Request → Prop
  | accepted {i m a b : Bytes} {r : Request} : Holds Int32Text i r.id →
      Holds Method.Named m r.method → Holds FloatText a r.operand1 →
      Holds FloatText b r.operand2 → Reads [i, m, a, b] (.ok r)
  | badId {i m a b : Bytes} : (∀ id, ¬ Holds Int32Text i id) →
      Reads [i, m, a, b] (.error ⟨-1, .requestId⟩)
  | badMethod {i m a b : Bytes} {id : Int32} : Holds Int32Text i id →
      (∀ v, ¬ Holds Method.Named m v) → Reads [i, m, a, b] (.error ⟨id, .requestMethod⟩)
  | badOperand1 {i m a b : Bytes} {id : Int32} {method : Method} : Holds Int32Text i id →
      Holds Method.Named m method → (∀ x, ¬ Holds FloatText a x) →
      Reads [i, m, a, b] (.error ⟨id, .requestOperand1⟩)
  | badOperand2 {i m a b : Bytes} {id : Int32} {method : Method} {x : Float} :
      Holds Int32Text i id → Holds Method.Named m method → Holds FloatText a x →
      (∀ y, ¬ Holds FloatText b y) → Reads [i, m, a, b] (.error ⟨id, .requestOperand2⟩)
  | badShape {fields : List Bytes} {id : Int32} : fields.length ≠ 4 → LeadingId fields id →
      Reads fields (.error ⟨id, .requestShape⟩)

/-- What fields are read as: a response, or the rejection for the first field that is wrong. -/
inductive Response.Reads : List Bytes → Except Rejection Response → Prop
  | accepted {i s a : Bytes} {r : Response} : Holds Int32Text i r.id →
      Holds Status.Coded s r.status → Holds FloatText a r.result → Reads [i, s, a] (.ok r)
  | badId {i s a : Bytes} : (∀ id, ¬ Holds Int32Text i id) →
      Reads [i, s, a] (.error ⟨-1, .responseId⟩)
  | badStatus {i s a : Bytes} {id : Int32} : Holds Int32Text i id →
      (∀ v, ¬ Holds Status.Coded s v) → Reads [i, s, a] (.error ⟨id, .responseStatus⟩)
  | badResult {i s a : Bytes} {id : Int32} {status : Status} : Holds Int32Text i id →
      Holds Status.Coded s status → (∀ x, ¬ Holds FloatText a x) →
      Reads [i, s, a] (.error ⟨id, .responseResult⟩)
  | badShape {fields : List Bytes} {id : Int32} : fields.length ≠ 3 → LeadingId fields id →
      Reads fields (.error ⟨id, .responseShape⟩)

section Field

variable {α : Type} {writes : Text → α → Prop} {field : Bytes} {value : Option α}

theorem eq_none_iff (h : ∀ a, value = some a ↔ Holds writes field a) :
    value = none ↔ ∀ a, ¬ Holds writes field a := by
  rw [Option.eq_none_iff_forall_ne_some]
  exact forall_congr' fun a => not_congr (h a)

/-- Every field either holds a value or holds none, and is read as such. -/
theorem holds_or_not (h : ∀ a, value = some a ↔ Holds writes field a) :
    (∃ a, value = some a ∧ Holds writes field a) ∨
      value = none ∧ ∀ a, ¬ Holds writes field a := by
  cases hv : value with
  | none => exact .inr ⟨rfl, (eq_none_iff h).1 hv⟩
  | some a => exact .inl ⟨a, rfl, (h a).1 hv⟩

end Field

variable {body frame : Bytes}

theorem leadingId_iff {id : Int32} : leadingId body = id ↔ LeadingId (fields body) id := by
  have hne : fields body ≠ [] := cut_ne_nil fieldMark body
  rw [leadingId]
  cases hfields : fields body with
  | nil => exact absurd hfields hne
  | cons field fs =>
    rw [List.head?_cons, Option.bind_some]
    constructor
    · rintro rfl
      rcases holds_or_not fun i => @fieldInt32?_eq_some field i with ⟨i, hread, hi⟩ | ⟨hread, hi⟩
      · rw [hread]
        exact .held hi
      · rw [hread]
        exact .missing hi
    · intro h
      cases h with
      | held hi =>
        rw [fieldInt32?_eq_some.2 hi]
        rfl
      | missing hi =>
        rw [(eq_none_iff fun _ => fieldInt32?_eq_some).2 hi]
        rfl

namespace Request

theorem ofBody_of_length (h : (fields body).length ≠ fieldCount) :
    ofBody body = .error ⟨leadingId body, .requestShape⟩ := by
  rw [ofBody]
  split
  · rename_i hfields
    rw [hfields] at h
    exact absurd rfl h
  · rfl

theorem reads_ofBody (body : Bytes) : Reads (fields body) (ofBody body) := by
  by_cases hlength : (fields body).length = fieldCount
  · obtain ⟨i, fs, hcons, hfs⟩ := List.length_eq_succ_iff.1 hlength
    obtain ⟨m, a, b, rfl⟩ := List.length_eq_three.1 hfs
    rw [ofBody, ← hcons]
    rcases holds_or_not fun v => @fieldInt32?_eq_some i v with ⟨id, hid, hi⟩ | ⟨hid, hi⟩
    · rcases holds_or_not fun v => @fieldMethod?_eq_some m v with ⟨v, hv, hm⟩ | ⟨hv, hm⟩
      · rcases holds_or_not fun v => @fieldFloat?_eq_some a v with ⟨x, hx, ha⟩ | ⟨hx, ha⟩
        · rcases holds_or_not fun v => @fieldFloat?_eq_some b v with ⟨y, hy, hb⟩ | ⟨hy, hb⟩
          · simp only [hid, hv, hx, hy]
            exact .accepted hi hm ha hb
          · simp only [hid, hv, hx, hy]
            exact .badOperand2 hi hm ha hb
        · simp only [hid, hv, hx]
          exact .badOperand1 hi hm ha
      · simp only [hid, hv]
        exact .badMethod hi hm
    · simp only [hid]
      exact .badId hi
  · rw [ofBody_of_length hlength]
    exact .badShape hlength (leadingId_iff.1 rfl)

theorem ofBody_of_reads {result : Except Rejection Request} (h : Reads (fields body) result) :
    ofBody body = result := by
  obtain ⟨fs, hfields⟩ : ∃ fs, fields body = fs := ⟨_, rfl⟩
  rw [hfields] at h
  cases h with
  | accepted hi hm ha hb =>
    simp only [ofBody, hfields, fieldInt32?_eq_some.2 hi, fieldMethod?_eq_some.2 hm,
      fieldFloat?_eq_some.2 ha, fieldFloat?_eq_some.2 hb]
    rfl
  | badId hi =>
    simp only [ofBody, hfields, (eq_none_iff fun _ => fieldInt32?_eq_some).2 hi]
    rfl
  | badMethod hi hm =>
    simp only [ofBody, hfields, fieldInt32?_eq_some.2 hi,
      (eq_none_iff fun _ => fieldMethod?_eq_some).2 hm]
    rfl
  | badOperand1 hi hm ha =>
    simp only [ofBody, hfields, fieldInt32?_eq_some.2 hi, fieldMethod?_eq_some.2 hm,
      (eq_none_iff fun _ => fieldFloat?_eq_some).2 ha]
    rfl
  | badOperand2 hi hm ha hb =>
    simp only [ofBody, hfields, fieldInt32?_eq_some.2 hi, fieldMethod?_eq_some.2 hm,
      fieldFloat?_eq_some.2 ha, (eq_none_iff fun _ => fieldFloat?_eq_some).2 hb]
    rfl
  | badShape hlength hid =>
    rw [← hfields] at hlength hid
    rw [ofBody_of_length hlength, leadingId_iff.2 hid]

end Request

namespace Response

theorem ofBody_of_length (h : (fields body).length ≠ fieldCount) :
    ofBody body = .error ⟨leadingId body, .responseShape⟩ := by
  rw [ofBody]
  split
  · rename_i hfields
    rw [hfields] at h
    exact absurd rfl h
  · rfl

theorem reads_ofBody (body : Bytes) : Reads (fields body) (ofBody body) := by
  by_cases hlength : (fields body).length = fieldCount
  · obtain ⟨i, s, a, hfields⟩ := List.length_eq_three.1 hlength
    rw [ofBody, hfields]
    rcases holds_or_not fun v => @fieldInt32?_eq_some i v with ⟨id, hid, hi⟩ | ⟨hid, hi⟩
    · rcases holds_or_not fun v => @fieldStatus?_eq_some s v with ⟨v, hv, hs⟩ | ⟨hv, hs⟩
      · rcases holds_or_not fun v => @fieldFloat?_eq_some a v with ⟨x, hx, ha⟩ | ⟨hx, ha⟩
        · simp only [hid, hv, hx]
          exact .accepted hi hs ha
        · simp only [hid, hv, hx]
          exact .badResult hi hs ha
      · simp only [hid, hv]
        exact .badStatus hi hs
    · simp only [hid]
      exact .badId hi
  · rw [ofBody_of_length hlength]
    exact .badShape hlength (leadingId_iff.1 rfl)

theorem ofBody_of_reads {result : Except Rejection Response} (h : Reads (fields body) result) :
    ofBody body = result := by
  obtain ⟨fs, hfields⟩ : ∃ fs, fields body = fs := ⟨_, rfl⟩
  rw [hfields] at h
  cases h with
  | accepted hi hs ha =>
    simp only [ofBody, hfields, fieldInt32?_eq_some.2 hi, fieldStatus?_eq_some.2 hs,
      fieldFloat?_eq_some.2 ha]
    rfl
  | badId hi =>
    simp only [ofBody, hfields, (eq_none_iff fun _ => fieldInt32?_eq_some).2 hi]
    rfl
  | badStatus hi hs =>
    simp only [ofBody, hfields, fieldInt32?_eq_some.2 hi,
      (eq_none_iff fun _ => fieldStatus?_eq_some).2 hs]
    rfl
  | badResult hi hs ha =>
    simp only [ofBody, hfields, fieldInt32?_eq_some.2 hi, fieldStatus?_eq_some.2 hs,
      (eq_none_iff fun _ => fieldFloat?_eq_some).2 ha]
    rfl
  | badShape hlength hid =>
    rw [← hfields] at hlength hid
    rw [ofBody_of_length hlength, leadingId_iff.2 hid]

end Response

/-- A ring as it can come to be: made empty, then fed with whatever handlers, and reset. -/
inductive Ring.Reachable (role : Role) : Ring → Prop
  | empty (c : Nat) : Reachable role (.empty role c)
  | feed {σ ε : Type} {r : Ring} (handle : Handler σ ε) (s : σ) (bs : Bytes) : Reachable role r →
      Reachable role (r.feed handle s bs).ring
  | reset {r : Ring} : Reachable role r → Reachable role r.reset

theorem Ring.Reachable.tracks {role : Role} {r : Ring} (h : r.Reachable role) :
    ∃ capacity seen, r.Tracks role capacity seen := by
  induction h with
  | empty c => exact ⟨_, _, tracks_empty role c⟩
  | @feed σ ε r handle s bs _ ih =>
    obtain ⟨capacity, seen, ht⟩ := ih
    cases hrun : Handler.run handle s (Framing.raised role capacity seen bs) with
    | mk s' failure =>
      cases failure with
      | none =>
        obtain ⟨r', k, ht', -, hfeed⟩ := ht.feedFrom_ok 0 hrun
        rw [Ring.feed, hfeed]
        exact ⟨capacity, _, ht'⟩
      | some e =>
        obtain ⟨r', pre, -, -, ht', -, hfeed⟩ := ht.feedFrom_error 0 hrun
        rw [Ring.feed, hfeed]
        exact ⟨capacity, _, ht'⟩
  | reset _ ih =>
    obtain ⟨capacity, seen, ht⟩ := ih
    exact ⟨capacity, [], ht.reset⟩

/-- A frame that fits comes out of an idle ring as the one event of its body. -/
theorem Ring.Reachable.feed_frame {role : Role} {r : Ring} (h : r.Reachable role)
    (hidle : r.isIdle = true) (hbody : body.Fits r.capacity) :
    ∃ r', r'.isIdle = true ∧
      r.feed collect [] (body ++ [endMark]) = ⟨r', [role.read body], .ok 1⟩ := by
  obtain ⟨capacity, seen, ht⟩ := h.tracks
  rw [ht.isIdle_eq, decide_eq_true_eq] at hidle
  rw [ht.capacity_eq] at hbody
  have hspells : Framing.Spells role capacity (role.read body) (body ++ [endMark]) :=
    ⟨body, rfl, hbody, rfl⟩
  obtain ⟨r', seen', ht', hrest, hfeed⟩ := ht.feed_frames hidle (.cons hspells .nil) []
  rw [List.flatten_cons, List.flatten_nil, List.append_nil] at hfeed
  refine ⟨r', ?_, hfeed⟩
  rw [ht'.isIdle_eq, decide_eq_true_eq]
  exact hrest

/-- The bytes of a body, of a frame and of a stream are all read by one grammar. -/
structure ReadBy {α : Type} (role : Role) (reads : List Bytes → Except Rejection α → Prop)
    (event : α → Event) (ofBody decode : Bytes → Except Rejection α) : Prop where
  body : ∀ body result, ofBody body = result ↔
    ∃ fields, fields ≠ [] ∧ (∀ field ∈ fields, fieldMark ∉ field) ∧
      [fieldMark].intercalate fields = body ∧ reads fields result
  accepts : ∀ frame m, decode frame = .ok m ↔
    ∃ body, frame = body ++ [endMark] ∧ endMark ∉ body ∧ ofBody body = .ok m
  frame : ∀ body, endMark ∉ body → decode (body ++ [endMark]) = ofBody body
  stream : ∀ (r : Ring) body, r.Reachable role → r.isIdle = true → body.Fits r.capacity →
    ∃ r', r'.isIdle = true ∧ r.feed Ring.collect [] (body ++ [endMark]) =
      ⟨r', [match ofBody body with | .ok m => event m | .error e => .rejection e], .ok 1⟩

theorem body?_eq_some : body? frame = some body ↔ frame = body ++ [endMark] ∧ endMark ∉ body := by
  constructor
  · intro h
    rw [body?] at h
    split at h
    · rename_i hended
      obtain ⟨hlast, hunmarked⟩ := hended
      rw [Option.some.inj h] at hunmarked
      obtain ⟨init, rfl⟩ := List.getLast?_eq_some_iff.1 hlast
      rw [List.dropLast_concat] at h
      cases h
      exact ⟨rfl, hunmarked⟩
    · cases h
  · rintro ⟨rfl, h⟩
    exact body?_frame h

theorem readBy_of_reads {α : Type} {role : Role} {reads : List Bytes → Except Rejection α → Prop}
    {event : α → Event} {ofBody decode : Bytes → Except Rejection α} {shape : Bytes → Rejection}
    (hreads : ∀ body, reads (fields body) (ofBody body))
    (hbody : ∀ body result, reads (fields body) result → ofBody body = result)
    (hdecode : ∀ frame, decode frame = match body? frame with
      | some body => ofBody body
      | none => .error (shape frame))
    (hread : ∀ body, role.read body = match ofBody body with
      | .ok m => event m
      | .error e => .rejection e) : ReadBy role reads event ofBody decode := by
  constructor
  case body =>
    intro body result
    constructor
    · rintro rfl
      obtain ⟨hne, hunmarked, hjoin⟩ := cut_eq_iff.1 (rfl : fields body = _)
      exact ⟨fields body, hne, hunmarked, hjoin, hreads body⟩
    · rintro ⟨fs, hne, hunmarked, hjoin, h⟩
      have hfields : fields body = fs := cut_eq_iff.2 ⟨hne, hunmarked, hjoin⟩
      rw [← hfields] at h
      exact hbody body result h
  case accepts =>
    intro frame m
    rw [hdecode]
    constructor
    · intro h
      split at h
      · rename_i body heq
        obtain ⟨hframe, hunmarked⟩ := body?_eq_some.1 heq
        exact ⟨body, hframe, hunmarked, h⟩
      · cases h
    · rintro ⟨body, rfl, hunmarked, h⟩
      rw [body?_frame hunmarked]
      exact h
  case frame =>
    intro body hunmarked
    rw [hdecode, body?_frame hunmarked]
  case stream =>
    intro r body hreachable hidle hfits
    obtain ⟨r', hidle', hfeed⟩ := hreachable.feed_frame hidle hfits
    rw [hread] at hfeed
    exact ⟨r', hidle', hfeed⟩

/-- Requests are read by the grammar of requests, and responses by that of responses. -/
theorem readers_agree :
    ReadBy .server Request.Reads .request Request.ofBody Request.decode ∧
      ReadBy .client Response.Reads .response Response.ofBody Response.decode := by
  constructor
  · apply readBy_of_reads Request.reads_ofBody (fun _ _ => Request.ofBody_of_reads) (fun _ => rfl)
    intro body
    rw [Role.read]
    cases Request.ofBody body with
    | ok r => rfl
    | error e => rfl
  · apply readBy_of_reads Response.reads_ofBody (fun _ _ => Response.ofBody_of_reads) (fun _ => rfl)
    intro body
    rw [Role.read]
    cases Response.ofBody body with
    | ok r => rfl
    | error e => rfl

example : Request.ofBody (Utf8.ofString " +7 #ADD#1.#x") = .error ⟨7, .requestOperand2⟩ := rfl

end RemoteCalc
