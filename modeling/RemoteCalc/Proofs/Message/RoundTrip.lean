import RemoteCalc.Proofs.Framing.Frames
import RemoteCalc.Proofs.Message.NumberField

/-!
What is written of a message is read as that message, by itself and out of a stream that holds
one after another, as long as its numbers are short enough to be written in full.
-/

namespace RemoteCalc

open Decimal RemoteCalc.NumberField

variable {a b t : Text}

theorem bind_eq_ok {ε α β : Type} {x : Except ε α} {f : α → Except ε β} {b : β} :
    (x >>= f) = .ok b ↔ ∃ a, x = .ok a ∧ f a = .ok b := by
  cases x with
  | error e => simp [bind, Except.bind]
  | ok a => simp [bind, Except.bind]

theorem fieldInt32?_encode (i : Int32) : fieldInt32? (Utf8.encode (printInt32 i)) = some i := by
  rw [fieldInt32?, fieldText?_encode (Text.inert_printInt32 i)]
  exact readInt32?_printInt32 i

theorem fieldFloat?_encode (h : t.Inert) : fieldFloat? (Utf8.encode t) = readFloat? t := by
  rw [fieldFloat?, fieldText?_encode h]
  rfl

theorem fieldMethod?_encode (m : Method) :
    fieldMethod? (Utf8.encode m.name) = Method.ofName? m.name := by
  rw [fieldMethod?, fieldText?_encode (Text.inert_name m)]
  rfl

theorem fieldStatus?_encode (s : Status) :
    fieldStatus? (Utf8.encode (printInt32 s.code)) = some s := by
  rw [fieldStatus?, fieldInt32?_encode]
  exact Status.ofCode?_code s

theorem fits_joined {u : Text} {ts : List Text} {capacity : Nat}
    (h : ∀ v ∈ t :: u :: ts, v.Inert)
    (hlen : ((t :: u :: ts).map fun v => v.length + 1).sum ≤ capacity) :
    (joined (t :: u :: ts)).Fits capacity where
  unmarked := endMark_not_mem_joined h
  nonempty := by simp [joined]
  short := by
    rw [← length_joined (List.cons_ne_nil _ _) h] at hlen
    exact hlen

namespace Request

/-- The texts of a request's fields, with `a` and `b` for its operands. -/
def texts (r : Request) (a b : Text) : List Text := [printInt32 r.id, r.method.name, a, b]

/-- The capacity that any request fits into. -/
def maxFrame : Nat := 149

variable {r : Request}

theorem encode_eq (ha : write r.operand1 = .ok a) (hb : write r.operand2 = .ok b) :
    r.encode = .ok (joined (r.texts a b) ++ [endMark]) := by
  rw [encode, ha, hb, texts, ← frame_eq]
  rfl

/-- What is encoded is made of texts of both operands. -/
theorem exists_texts {f : Bytes} (h : r.encode = .ok f) :
    ∃ a b, write r.operand1 = .ok a ∧ write r.operand2 = .ok b ∧
      f = joined (r.texts a b) ++ [endMark] := by
  have hencode := h
  rw [encode] at hencode
  obtain ⟨a, ha, hencode⟩ := bind_eq_ok.1 hencode
  obtain ⟨b, hb, -⟩ := bind_eq_ok.1 hencode
  rw [encode_eq ha hb, Except.ok.injEq] at h
  exact ⟨a, b, ha, hb, h.symm⟩

theorem inert_texts (ha : a.Inert) (hb : b.Inert) : ∀ t ∈ r.texts a b, t.Inert := by
  intro t ht
  simp only [texts, List.mem_cons, List.not_mem_nil, or_false] at ht
  rcases ht with rfl | rfl | rfl | rfl
  · exact Text.inert_printInt32 r.id
  · exact Text.inert_name r.method
  · exact ha
  · exact hb

theorem fits_texts (ha : a.length ≤ maxWidth ∧ Readable a) (hb : b.length ≤ maxWidth ∧ Readable b) :
    (joined (r.texts a b)).Fits maxFrame := by
  apply fits_joined (inert_texts ha.2.1 hb.2.1)
  have hid := length_printInt32_le r.id
  have hname : r.method.name.length ≤ 6 := by cases r.method <;> decide
  have hwidth : maxWidth = 64 := rfl
  simp only [List.map_cons, List.map_nil, List.sum_cons, List.sum_nil, maxFrame]
  omega

theorem ofBody_joined {x y : Float} (ha : a.Inert) (hb : b.Inert) (hx : readFloat? a = some x)
    (hy : readFloat? b = some y) (hm : r.method ≠ .none) :
    ofBody (joined (r.texts a b)) = .ok ⟨r.id, r.method, x, y⟩ := by
  have hfields := fields_joined (List.cons_ne_nil _ _) (@inert_texts a b r ha hb)
  simp only [List.map_cons, List.map_nil] at hfields
  simp only [ofBody, texts, hfields, fieldInt32?_encode, fieldMethod?_encode,
    Method.ofName?_name hm, fieldFloat?_encode ha, fieldFloat?_encode hb, hx, hy]
  rfl

theorem ofBody_joined_none (ha : a.Inert) (hb : b.Inert) (hm : r.method = .none) :
    ofBody (joined (r.texts a b)) = .error ⟨r.id, .requestMethod⟩ := by
  have hfields := fields_joined (List.cons_ne_nil _ _) (@inert_texts a b r ha hb)
  have hnone : Method.ofName? r.method.name = none := by
    rw [hm]
    decide
  simp only [List.map_cons, List.map_nil] at hfields
  simp only [ofBody, texts, hfields, fieldInt32?_encode, fieldMethod?_encode, hnone]
  rfl

end Request

namespace Response

/-- The texts of a response's fields, with `a` for its result. -/
def texts (r : Response) (a : Text) : List Text := [printInt32 r.id, printInt32 r.status.code, a]

/-- The capacity that any response fits into. -/
def maxFrame : Nat := 80

variable {r : Response}

theorem encode_eq (ha : write r.result = .ok a) :
    r.encode = .ok (joined (r.texts a) ++ [endMark]) := by
  rw [encode, ha, texts, ← frame_eq]
  rfl

theorem inert_texts (ha : a.Inert) : ∀ t ∈ r.texts a, t.Inert := by
  intro t ht
  simp only [texts, List.mem_cons, List.not_mem_nil, or_false] at ht
  rcases ht with rfl | rfl | rfl
  · exact Text.inert_printInt32 r.id
  · exact Text.inert_printInt32 r.status.code
  · exact ha

theorem fits_texts (ha : a.length ≤ maxWidth ∧ Readable a) :
    (joined (r.texts a)).Fits maxFrame := by
  apply fits_joined (inert_texts ha.2.1)
  have hid := length_printInt32_le r.id
  have hcode : (printInt32 r.status.code).length ≤ 2 := by cases r.status <;> decide
  have hwidth : maxWidth = 64 := rfl
  simp only [List.map_cons, List.map_nil, List.sum_cons, List.sum_nil, maxFrame]
  omega

theorem ofBody_joined {x : Float} (ha : a.Inert) (hx : readFloat? a = some x) :
    ofBody (joined (r.texts a)) = .ok ⟨r.id, r.status, x⟩ := by
  have hfields := fields_joined (List.cons_ne_nil _ _) (@inert_texts a r ha)
  simp only [List.map_cons, List.map_nil] at hfields
  simp only [ofBody, texts, hfields, fieldInt32?_encode, fieldStatus?_encode,
    fieldFloat?_encode ha, hx]
  rfl

end Response

theorem Response.spells {r : Response} (ha : write r.result = .ok a) :
    ∃ x, readFloat? a = some x ∧ Framing.Spells .client maxFrame
      (.response ⟨r.id, r.status, x⟩) (joined (r.texts a) ++ [endMark]) := by
  have hread := readable_write ha
  obtain ⟨x, hx⟩ := hread.2.2
  have hbody := ofBody_joined (r := r) hread.2.1 hx
  exact ⟨x, hx, _, rfl, fits_texts hread, by simp only [Role.read, hbody]⟩

/-- A frame that spells a response is decoded as that response. -/
theorem Framing.Spells.decode {r : Response} {capacity : Nat} {f : Bytes}
    (h : Framing.Spells .client capacity (.response r) f) : Response.decode f = .ok r := by
  obtain ⟨body, hf, hfits, hread⟩ := h
  rw [hf, Response.decode, body?_frame hfits.unmarked]
  simp only [Role.read] at hread
  split at hread
  · rename_i r' hbody
    rw [Event.response.inj hread] at hbody
    exact hbody
  · cases hread

/-- Messages whose frames spell them travel: alone, and in order out of any cut of the stream. -/
theorem travel {α : Type} {encode : α → Except TooWide Bytes}
    {decode : Bytes → Except Rejection α} {event : α → Event} {role : Role} {capacity : Nat}
    {messages : List α} (hcap : Ring.minCapacity ≤ capacity)
    (h : ∀ m ∈ messages, ∃ f, encode m = .ok f ∧ decode f = .ok m ∧
      Framing.Spells role capacity (event m) f) :
    ∃ frames, List.Forall₂ (fun m f => encode m = .ok f ∧ decode f = .ok m) messages frames ∧
      ∀ c chunks, capacity ≤ c → chunks.flatten = frames.flatten →
        ∃ ring, (Ring.empty role c).feedAll Ring.collect [] chunks =
          ⟨ring, messages.map event, .ok messages.length⟩ := by
  obtain ⟨frames, hframes⟩ : ∃ frames, List.Forall₂ (fun m f => (encode m = .ok f ∧
      decode f = .ok m) ∧ Framing.Spells role capacity (event m) f) messages frames := by
    induction messages with
    | nil => exact ⟨[], .nil⟩
    | cons m messages ih =>
      obtain ⟨f, hencode, hdecode, hspells⟩ := h m (List.mem_cons_self ..)
      obtain ⟨frames, hframes⟩ := ih fun n hn => h n (List.mem_cons_of_mem m hn)
      exact ⟨f :: frames, .cons ⟨⟨hencode, hdecode⟩, hspells⟩ hframes⟩
  refine ⟨frames, hframes.imp fun m f hf => hf.1, ?_⟩
  intro c chunks hc hchunks
  have hspells : List.Forall₂ (Framing.Spells role c) (messages.map event) frames :=
    List.forall₂_map_left_iff.2 (hframes.imp fun m f hf => hf.2.mono hc)
  have hring := Ring.feedAll_frames (Nat.le_trans hcap hc) hspells hchunks
  rw [List.length_map] at hring
  exact hring

/-- Encoding and decoding are inverse for every list of messages whose numbers are short enough to
be written in full, frame by frame and through a ring. A request for no operation is refused. -/
theorem decode_encode :
    (∀ requests : List Request,
      (∀ r ∈ requests, r.method ≠ .none ∧ (display r.operand1).length ≤ maxWidth ∧
        (display r.operand2).length ≤ maxWidth) →
      ∃ frames,
        List.Forall₂ (fun r f => r.encode = .ok f ∧ Request.decode f = .ok r) requests frames ∧
        ∀ capacity chunks, Request.maxFrame ≤ capacity → chunks.flatten = frames.flatten →
          ∃ ring, (Ring.empty .server capacity).feedAll Ring.collect [] chunks =
            ⟨ring, requests.map .request, .ok requests.length⟩) ∧
    (∀ responses : List Response, (∀ r ∈ responses, (display r.result).length ≤ maxWidth) →
      ∃ frames,
        List.Forall₂ (fun r f => r.encode = .ok f ∧ Response.decode f = .ok r) responses frames ∧
        ∀ capacity chunks, Response.maxFrame ≤ capacity → chunks.flatten = frames.flatten →
          ∃ ring, (Ring.empty .client capacity).feedAll Ring.collect [] chunks =
            ⟨ring, responses.map .response, .ok responses.length⟩) ∧
    (∀ (r : Request) (a b : Text), r.method = .none → write r.operand1 = .ok a →
      write r.operand2 = .ok b →
      ∃ f, r.encode = .ok f ∧ Request.decode f = .error ⟨r.id, .requestMethod⟩) := by
  refine ⟨fun requests h => travel (by decide) fun r hr => ?_,
    fun responses h => travel (by decide) fun r hr => ?_, fun r a b hm ha hb => ?_⟩
  · obtain ⟨hm, ha, hb⟩ := h r hr
    have ha := write_of_fits ha
    have hb := write_of_fits hb
    have hfits := Request.fits_texts (r := r) (readable_write ha) (readable_write hb)
    have hbody := Request.ofBody_joined (r := r) (readable_write ha).2.1 (readable_write hb).2.1
      (readFloat?_display _) (readFloat?_display _) hm
    refine ⟨_, Request.encode_eq ha hb, ?_, _, rfl, hfits, ?_⟩
    · rw [Request.decode, body?_frame hfits.unmarked]
      exact hbody
    · simp only [Role.read, hbody]
  · have ha := write_of_fits (h r hr)
    have hfits := Response.fits_texts (r := r) (readable_write ha)
    have hbody := Response.ofBody_joined (r := r) (readable_write ha).2.1 (readFloat?_display _)
    refine ⟨_, Response.encode_eq ha, ?_, _, rfl, hfits, ?_⟩
    · rw [Response.decode, body?_frame hfits.unmarked]
      exact hbody
    · simp only [Role.read, hbody]
  · have hread := readable_write ha
    have hread' := readable_write hb
    have hfits := Request.fits_texts (r := r) hread hread'
    refine ⟨_, Request.encode_eq ha hb, ?_⟩
    rw [Request.decode, body?_frame hfits.unmarked]
    exact Request.ofBody_joined_none hread.2.1 hread'.2.1 hm

/-- The longest id, a negative zero, a NaN, an infinity and a number with places. -/
theorem decode_encode_extremes :
    (∃ frames,
      List.Forall₂ (fun r f => Request.encode r = .ok f ∧ Request.decode f = .ok r)
        [⟨-2147483648, .subFromMemory, Float.ofBits 0x4004000000000000,
          Float.ofBits 0x8000000000000000⟩, ⟨0, .div, Binary64.nan, 0⟩] frames ∧
      ∀ capacity chunks, Request.maxFrame ≤ capacity → chunks.flatten = frames.flatten →
        ∃ ring, (Ring.empty .server capacity).feedAll Ring.collect [] chunks =
          ⟨ring, [.request ⟨-2147483648, .subFromMemory, Float.ofBits 0x4004000000000000,
            Float.ofBits 0x8000000000000000⟩, .request ⟨0, .div, Binary64.nan, 0⟩], .ok 2⟩) ∧
    (∃ frames,
      List.Forall₂ (fun r f => Response.encode r = .ok f ∧ Response.decode f = .ok r)
        [⟨-1, .internalError, Float.ofBits 0xFFF0000000000000⟩] frames ∧
      ∀ capacity chunks, Response.maxFrame ≤ capacity → chunks.flatten = frames.flatten →
        ∃ ring, (Ring.empty .client capacity).feedAll Ring.collect [] chunks =
          ⟨ring, [.response ⟨-1, .internalError, Float.ofBits 0xFFF0000000000000⟩], .ok 1⟩) ∧
    ∃ f, Request.encode ⟨7, .none, 0, Binary64.nan⟩ = .ok f ∧
      Request.decode f = .error ⟨7, .requestMethod⟩ :=
  ⟨decode_encode.1 _ (by decide +kernel), decode_encode.2.1 _ (by decide +kernel),
    decode_encode.2.2 ⟨7, .none, 0, Binary64.nan⟩ _ _ rfl (write_of_fits (by decide +kernel))
      (write_of_fits (by decide +kernel))⟩

end RemoteCalc
