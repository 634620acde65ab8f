import Arts.Outbound.Basic

/-!
# The stream of an outbound queue

`offsetPayload` is a 32-bit number, so a payload that reaches byte `2 ^ 32` is sent from byte 0 on
(`OutQueue.payload_from_start`); otherwise the stream is intact (`OutQueue.intact_of_fit`).
-/

namespace Arts

open List Option

/-! ### Windows -/

@[simp] lemma window_zero (id : ℕ) (part : Part) (offset : ℕ) : window id part offset 0 = [] :=
  rfl

@[simp] lemma length_window (id : ℕ) (part : Part) (offset len : ℕ) :
    (window id part offset len).length = len :=
  length_readMem _ _ _

lemma window_append (id : ℕ) (part : Part) (offset : ℕ) {a b len : ℕ} (h : a + b = len) :
    window id part offset a ++ window id part (offset + a) b = window id part offset len :=
  readMem_append _ offset h

@[simp] lemma places_nil : places [] = [] := rfl

@[simp] lemma places_cons (c : Chunk) (cs : List Chunk) :
    places (c :: cs) = c.places ++ places cs := rfl

@[simp] lemma places_append (cs ds : List Chunk) :
    places (cs ++ ds) = places cs ++ places ds := flatMap_append

/-! ### One call -/

/-- The socket makes progress or asks to try again. -/
def SendResult.Smooth : SendResult → Prop
  | .accept n => n ≠ 0
  | .again => True
  | .error => False

/-- The number of accepted bytes fits into an `int`. -/
def SendResult.Narrow : SendResult → Prop
  | .accept n => n < 0x80000000
  | _ => True

instance SendResult.decidableSmooth (r : SendResult) : Decidable r.Smooth := by
  cases r <;> unfold SendResult.Smooth <;> infer_instance

instance SendResult.decidableNarrow (r : SendResult) : Decidable r.Narrow := by
  cases r <;> unfold SendResult.Narrow <;> infer_instance

variable (lim : SendLimits) (id : ℕ) (part : Part) (base : ℕ)

lemma toUInt64_toUInt32 {k : UInt64} (h : k.toNat < 2 ^ 31) : k.toUInt32.toUInt64 = k := by
  refine UInt64.toNat_inj.1 ?_
  rw [UInt32.toNat_toUInt64, UInt64.toNat_toUInt32, Nat.mod_eq_of_lt (by omega)]

/-- An iteration in which the socket accepts fewer than `2 ^ 31` bytes: the loop ends with the rest,
or goes on with it. -/
theorem sendLoop_accept {n : UInt64} (rs : List SendResult) (total : UInt64) {length : UInt64}
    (iterations : ℕ) (errnoAgain : Bool) (hlen : length ≠ 0) (hn : n ≠ 0) (hlt : n < 0x80000000) :
    ∃ k : UInt64, 0 < k.toNat ∧ k.toNat ≤ length.toNat ∧
      (sendLoop lim id part base (.accept n :: rs) total length iterations errnoAgain =
        .stop ⟨id, part, base + total.toNat, k.toNat⟩ (length - k) errnoAgain ∨
      sendLoop lim id part base (.accept n :: rs) total length iterations errnoAgain =
        (sendLoop lim id part base rs (total + k) (length - k) (iterations + 1) errnoAgain).prepend
          ⟨id, part, base + total.toNat, k.toNat⟩) := by
  have hn' : n.toNat < 2 ^ 31 := UInt64.lt_iff_toNat_lt.1 hlt
  have hne : ∀ {a : UInt64}, a ≠ 0 → 0 < a.toNat := fun h =>
    Nat.pos_of_ne_zero fun h0 => h (UInt64.toNat_inj.1 h0)
  obtain ⟨k, hk, hpos, hle, hk31⟩ : ∃ k : UInt64, (if n ≤ length then n else length) = k ∧
      0 < k.toNat ∧ k.toNat ≤ length.toNat ∧ k.toNat < 2 ^ 31 := by
    refine ⟨_, rfl, ?_⟩
    split_ifs with h
    · exact ⟨hne hn, UInt64.le_iff_toNat_le.1 h, hn'⟩
    · rw [UInt64.le_iff_toNat_le] at h
      exact ⟨hne hlen, Nat.le_refl _, by omega⟩
  have hres : k.toUInt32.toNat = k.toNat := by
    rw [UInt64.toNat_toUInt32, Nat.mod_eq_of_lt (by omega)]
  have hres0 : k.toUInt32 ≠ 0 := fun h0 => by
    rw [h0, UInt32.toNat_zero] at hres
    omega
  have hres31 : ¬ 0x80000000 ≤ k.toUInt32 := fun h => by
    rw [UInt32.le_iff_toNat_le, hres] at h
    exact absurd h (Nat.not_le.2 hk31)
  refine ⟨k, hpos, hle, ?_⟩
  simp only [sendLoop, if_neg hlen, if_neg hn, hk, if_neg hres0, toUInt64_toUInt32 hk31]
  split_ifs
  · exact .inl rfl
  · exact .inl rfl
  · exact .inl rfl
  · exact .inr rfl

/-- **The loop of one call**: what the socket accepts is the beginning of what it is given, and the
result is the length of the rest. -/
theorem sendLoop_spec {rs : List SendResult} (hrs : ∀ r ∈ rs, r.Smooth ∧ r.Narrow)
    (total length : UInt64) (iterations : ℕ) (errnoAgain : Bool)
    (hlen : total.toNat + length.toNat < 2 ^ 64) :
    let s := sendLoop lim id part base rs total length iterations errnoAgain
    s.remaining.toNat ≤ length.toNat ∧
      places s.chunks = window id part (base + total.toNat) (length.toNat - s.remaining.toNat) := by
  induction rs generalizing total length iterations with
  | nil => simp [sendLoop, Sent.idle]
  | cons r rs ih =>
    by_cases hzero : length = 0
    · simp [sendLoop, Sent.idle, hzero]
    · cases r with
      | again => simp [sendLoop, Sent.idle, hzero]
      | error => exact ((hrs _ mem_cons_self).1).elim
      | accept n =>
        obtain ⟨hn, hlt⟩ := hrs _ mem_cons_self
        obtain ⟨k, hpos, hle, hstep⟩ :=
          sendLoop_accept lim id part base rs total iterations errnoAgain hzero
            hn hlt
        have hsub : (length - k).toNat = length.toNat - k.toNat :=
          UInt64.toNat_sub_of_le _ _ (UInt64.le_iff_toNat_le.2 hle)
        rcases hstep with hstop | hgo
        · rw [hstop]
          simp only [Sent.stop, places_cons, places_nil, append_nil, Chunk.places, hsub]
          refine ⟨Nat.sub_le _ _, ?_⟩
          rw [Nat.sub_sub_self hle]
        · have hadd : (total + k).toNat = total.toNat + k.toNat := by
            rw [UInt64.toNat_add, Nat.mod_eq_of_lt (by omega)]
          obtain ⟨hrem, hplaces⟩ := ih (fun r hr => hrs r (mem_cons_of_mem _ hr)) (total + k)
            (length - k) (iterations + 1) (by omega)
          rw [hgo]
          simp only [Sent.prepend, places_cons, Chunk.places, hplaces, hadd]
          refine ⟨by omega, ?_⟩
          rw [← Nat.add_assoc, window_append]
          omega

/-! ### One message -/

/-- All sends of the visit make progress or ask to try again. -/
def Visit.Smooth (v : Visit) : Prop := ∀ r ∈ v.header ++ v.payload, r.Smooth

/-- All sends of the visit accept fewer than `2 ^ 31` bytes. -/
def Visit.Narrow (v : Visit) : Prop := ∀ r ∈ v.header ++ v.payload, r.Narrow

instance Visit.decidableSmooth (v : Visit) : Decidable v.Smooth :=
  inferInstanceAs (Decidable (∀ r ∈ _, _))

instance Visit.decidableNarrow (v : Visit) : Decidable v.Narrow :=
  inferInstanceAs (Decidable (∀ r ∈ _, _))

namespace OutMsg

variable {m : OutMsg} {v : Visit}

/-- The places of the message have 32-bit indices. -/
structure Fits (m : OutMsg) : Prop where
  header : m.offset.toNat + m.length.toNat < 2 ^ 32
  payload : m.payload = true → m.offsetPayload.toNat + m.payloadSize.toNat ≤ 2 ^ 32

/-- What is stored after a call that has sent `sent`, with `remaining` bytes left. -/
structure Resumes (m : OutMsg) (sent : List BytePos) (remaining : UInt64) : Prop where
  le : remaining.toNat ≤ 2 ^ 33
  complete : remaining = 0 → m.rest = sent
  partly : remaining ≠ 0 → m.rest = sent ++ (m.partialSendStore remaining).rest ∧
    (m.partialSendStore remaining).Fits

lemma toNat_toUInt32_of_lt {a : UInt64} (h : a.toNat < 2 ^ 32) : a.toUInt32.toNat = a.toNat := by
  rw [UInt64.toNat_toUInt32, Nat.mod_eq_of_lt h]

lemma toNat_advance {offset : UInt32} {size rem : UInt64} (hle : rem.toNat ≤ size.toNat)
    (hlt : offset.toNat + (size.toNat - rem.toNat) < 2 ^ 32) :
    (offset.toUInt64 + (size - rem)).toUInt32.toNat =
      offset.toNat + (size.toNat - rem.toNat) := by
  have hadd : (offset.toUInt64 + (size - rem)).toNat =
      offset.toNat + (size.toNat - rem.toNat) := by
    rw [UInt64.toNat_add, UInt64.toNat_sub_of_le _ _ (UInt64.le_iff_toNat_le.2 hle),
      UInt32.toNat_toUInt64, Nat.mod_eq_of_lt (by omega)]
  rw [toNat_toUInt32_of_lt (by omega), hadd]

variable {r : UInt64}

lemma toNat_advance_header (hm : m.Fits) (hle : r.toNat ≤ m.length.toNat) :
    (m.offset.toUInt64 + (m.length.toUInt64 - r)).toUInt32.toNat =
      m.offset.toNat + (m.length.toNat - r.toNat) := by
  have hfit := hm.header
  have hlen : m.length.toUInt64.toNat = m.length.toNat := UInt32.toNat_toUInt64 _
  rw [toNat_advance (by omega) (by omega), hlen]

/-- The test of `partial_send_store` finds the header sent when the payload covers what is left. -/
theorem length_le_sent_iff (hm : m.Fits) (hp : m.payload = true)
    (hle : r.toNat ≤ m.length.toNat + m.payloadSize.toNat) :
    m.length.toUInt64 ≤ m.length.toUInt64 + m.payloadSize - r ↔
      r.toNat ≤ m.payloadSize.toNat := by
  have hfit := hm.header
  have hpay := hm.payload hp
  have hadd : (m.length.toUInt64 + m.payloadSize).toNat =
      m.length.toNat + m.payloadSize.toNat := by
    rw [UInt64.toNat_add, UInt32.toNat_toUInt64, Nat.mod_eq_of_lt (by omega)]
  rw [UInt64.le_iff_toNat_le,
    UInt64.toNat_sub_of_le _ _ (by rw [UInt64.le_iff_toNat_le, hadd]; omega), hadd,
    UInt32.toNat_toUInt64]
  omega

lemma resumes_header (hm : m.Fits) (hp : m.payload = false)
    (hle : r.toNat ≤ m.length.toNat) :
    m.Resumes (window m.id .header m.offset.toNat (m.length.toNat - r.toNat)) r := by
  have hfit := hm.header
  have hoff := toNat_advance_header hm hle
  have hrem : r.toUInt32.toNat = r.toNat := toNat_toUInt32_of_lt (by omega)
  refine ⟨by omega, fun h0 => ?_, fun _ => ⟨?_, ?_⟩⟩
  · simp [rest, hp, h0]
  · simp only [rest, partialSendStore, hp, Bool.false_eq_true, if_false, append_nil, hoff]
    rw [window_append]
    omega
  · refine ⟨?_, fun h => ?_⟩
    · simp only [partialSendStore, hp, Bool.false_eq_true, if_false]
      omega
    · simp [partialSendStore, hp] at h

lemma resumes_header_payload (hm : m.Fits) (hp : m.payload = true)
    (hle : r.toNat ≤ m.length.toNat) (hne : r ≠ 0) :
    m.Resumes (window m.id .header m.offset.toNat (m.length.toNat - r.toNat))
      (r + m.payloadSize) := by
  have hfit := hm.header
  have hpay := hm.payload hp
  have hpos : 0 < r.toNat := Nat.pos_of_ne_zero fun h0 => hne (UInt64.toNat_inj.1 h0)
  have hsum : (r + m.payloadSize).toNat = r.toNat + m.payloadSize.toNat := by
    rw [UInt64.toNat_add, Nat.mod_eq_of_lt (by omega)]
  have hback : r + m.payloadSize - m.payloadSize = r := by
    refine UInt64.toNat_inj.1 ?_
    rw [UInt64.toNat_sub_of_le _ _ (by rw [UInt64.le_iff_toNat_le, hsum]; omega), hsum,
      Nat.add_sub_cancel]
  have hbranch : ¬ m.length.toUInt64 ≤
      m.length.toUInt64 + m.payloadSize - (r + m.payloadSize) := by
    rw [length_le_sent_iff hm hp (by omega)]
    omega
  have hoff := toNat_advance_header hm hle
  have hrem : r.toUInt32.toNat = r.toNat := toNat_toUInt32_of_lt (by omega)
  have hstore : m.partialSendStore (r + m.payloadSize) =
      { m with
        offset := (m.offset.toUInt64 + (m.length.toUInt64 - r)).toUInt32
        length := r.toUInt32 } := by
    rw [partialSendStore, if_pos hp, if_neg hbranch, hback]
  refine ⟨by omega, fun h0 => ?_, fun _ => ?_⟩
  · rw [h0, UInt64.toNat_zero] at hsum
    omega
  · rw [hstore]
    refine ⟨?_, ?_, fun _ => hpay⟩
    · simp only [rest, hoff]
      rw [← append_assoc, window_append]
      omega
    · simp only [hrem]
      omega

lemma resumes_payload (hm : m.Fits) (hp : m.payload = true)
    (hle : r.toNat ≤ m.payloadSize.toNat) :
    m.Resumes (window m.id .header m.offset.toNat m.length.toNat ++
      window m.id .payload m.offsetPayload.toNat (m.payloadSize.toNat - r.toNat)) r := by
  have hfit := hm.header
  have hpay := hm.payload hp
  have hbranch := (length_le_sent_iff hm hp (by omega)).2 hle
  have hstore : m.partialSendStore r =
      { m with
        length := 0
        offsetPayload := (m.offsetPayload.toUInt64 + (m.payloadSize - r)).toUInt32
        payloadSize := r } := by
    rw [partialSendStore, if_pos hp, if_pos hbranch]
  refine ⟨by omega, fun h0 => ?_, fun hne => ?_⟩
  · simp [rest, hp, h0]
  · have hpos : 0 < r.toNat := Nat.pos_of_ne_zero fun h0 => hne (UInt64.toNat_inj.1 h0)
    -- something is left, so the new offset is below `2 ^ 32`
    have hoff : (m.offsetPayload.toUInt64 + (m.payloadSize - r)).toUInt32.toNat =
        m.offsetPayload.toNat + (m.payloadSize.toNat - r.toNat) :=
      toNat_advance hle (by omega)
    rw [hstore]
    refine ⟨?_, ?_, fun _ => ?_⟩
    · simp only [rest, hp, if_true, hoff, UInt32.toNat_zero, window_zero, nil_append]
      rw [append_assoc, window_append]
      omega
    · simp only [UInt32.toNat_zero]
      omega
    · simp only [hoff]
      omega

lemma resumes_idle (hm : m.Fits) : m.Resumes [] m.pendingLength := by
  cases hp : m.payload with
  | false =>
    have h := resumes_header hm hp (r := m.length.toUInt64) (by simp)
    simpa [pendingLength, hp] using h
  | true =>
    have hlen : m.pendingLength = m.length.toUInt64 + m.payloadSize := by simp [pendingLength, hp]
    rw [hlen]
    by_cases h0 : m.length = 0
    · have h := resumes_payload hm hp (Nat.le_refl m.payloadSize.toNat)
      simpa [h0] using h
    · have h := resumes_header_payload hm hp (r := m.length.toUInt64) (by simp) (fun h => h0 ?_)
      · simpa using h
      · have := congrArg UInt64.toNat h
        exact UInt32.toNat_inj.1 this

/-- **One call**: what the socket accepts, followed by what is stored, is what was to be sent. -/
theorem resumes_send (errnoAgain : Bool) (hm : m.Fits) (hs : v.Smooth) (hn : v.Narrow) :
    m.Resumes (places (m.send v errnoAgain).chunks) (m.send v errnoAgain).remaining := by
  have hheader : ∀ r ∈ v.header, r.Smooth ∧ r.Narrow := fun r hr =>
    ⟨hs r (mem_append_left _ hr), hn r (mem_append_left _ hr)⟩
  have hpayload : ∀ r ∈ v.payload, r.Smooth ∧ r.Narrow := fun r hr =>
    ⟨hs r (mem_append_right _ hr), hn r (mem_append_right _ hr)⟩
  have hfit := hm.header
  cases hc : v.connected with
  | false =>
    cases hp : m.payload with
    | false => simpa [send, hp, sendRequest, hc, Sent.idle, pendingLength] using resumes_idle hm
    | true =>
      simpa [send, hp, sendPayloadRequest, hc, Sent.idle, pendingLength] using resumes_idle hm
  | true =>
    obtain ⟨hle, hplaces⟩ := sendLoop_spec v.limits m.id .header m.offset.toNat
      hheader 0 m.length.toUInt64 0 errnoAgain
      (by rw [UInt64.toNat_zero, UInt32.toNat_toUInt64]; omega)
    cases hp : m.payload with
    | false =>
      simp only [send, hp, Bool.false_eq_true, if_false, sendRequest, hc, if_true, actualSend,
        hplaces]
      exact resumes_header hm hp hle
    | true =>
      have hpay := hm.payload hp
      simp only [send, sendPayloadRequest]
      split_ifs with hrem
      · simp only [actualSend, hplaces]
        exact resumes_header_payload hm hp hle hrem
      · have hzero : (sendLoop v.limits m.id .header m.offset.toNat v.header 0 m.length.toUInt64 0
            errnoAgain).remaining = 0 := not_not.1 hrem
        rw [hzero, UInt64.toNat_zero, Nat.sub_zero] at hplaces
        obtain ⟨hle', hplaces'⟩ := sendLoop_spec v.limits m.id .payload
          m.offsetPayload.toNat hpayload 0 m.payloadSize 0
          (actualSend v.limits m.id .header m.offset.toNat m.length.toUInt64 v.header
            errnoAgain).errnoAgain
          (by rw [UInt64.toNat_zero]; omega)
        simp only [actualSend, places_append, hplaces] at hplaces' ⊢
        rw [hplaces']
        exact resumes_payload hm hp hle'

lemma rest_eq_of_asyncVisit (errnoAgain : Bool) (hm : m.Fits) (hs : v.Smooth) (hn : v.Narrow) :
    let h := m.asyncVisit v errnoAgain
    m.rest = places h.chunks ++ h.pending.elim [] rest ∧ (∀ m' ∈ h.pending, m'.Fits) ∧
      (h.freed = true → h.pending = none) := by
  have hr := resumes_send errnoAgain hm hs hn
  have herr : (m.send v errnoAgain).remaining ≠ Sent.errorValue := fun he => by
    have := hr.le
    rw [he] at this
    exact absurd this (by decide)
  simp only [asyncVisit, if_neg herr, store]
  by_cases h0 : (m.send v errnoAgain).remaining = 0
  · simp [h0, hr.complete h0]
  · obtain ⟨hrest, hfits⟩ := hr.partly h0
    simp [h0, hrest, hfits]

end OutMsg

/-! ### The queue -/

namespace OutQueue

variable {q q' : OutQueue}

/-- The concatenation of the messages, each one with its header and then its payload. -/
def stream (ms : List OutMsg) : List BytePos := ms.flatMap OutMsg.rest

@[simp] lemma stream_nil : stream [] = [] := rfl

@[simp] lemma stream_append (ms ns : List OutMsg) : stream (ms ++ ns) = stream ms ++ stream ns :=
  flatMap_append

@[simp] lemma stream_cons (m : OutMsg) (ms : List OutMsg) :
    stream (m :: ms) = m.rest ++ stream ms := rfl

/-- **Stream integrity.**  The bytes on the wire are the beginning of the stream of all messages,
each byte taken from its own place and whatever the memory contains, and whenever a payload was
freed, the stream up to the end of its message had been accepted. -/
structure Intact (q : OutQueue) : Prop where
  ordered : places q.wire <+: stream q.enqueued
  bytes : ∀ mem : BytePos → UInt8, (places q.wire).map mem <+: (stream q.enqueued).map mem
  freed : ∀ e ∈ q.freed, (stream (q.enqueued.take (e.1 + 1))).length ≤ e.2 ∧
    e.2 ≤ (places q.wire).length

/-- Only the payload itself is looked at, not all triples of its type. -/
instance (priority := 2000) {p : UInt32 × UInt64 × Bool → Prop} [DecidablePred p]
    (payload : Option (UInt32 × UInt64 × Bool)) : Decidable (∀ x ∈ payload, p x) :=
  decidableForallMem payload

/-- The steps of a queue whose socket makes progress or asks to try again; a payload message has a
header and a payload that are not empty. -/
def next (q : OutQueue) : Step → Option OutQueue
  | .enqueue length payload =>
    if ∀ p ∈ payload, length ≠ 0 ∧ p.2.1 ≠ 0 then some (q.enqueue length payload) else none
  | .visit v => if v.Smooth then some (q.visit v).1 else none

/-- An outbound queue and the thread that sends its messages. -/
def machine : Machine OutQueue Step where
  init q := q = create
  next := next

/-- **The condition on the steps**: payloads end at or before byte `2 ^ 32` of their memory, and a
send accepts fewer than `2 ^ 31` bytes. -/
def Fit (_ : OutQueue) : Step → Prop
  | .enqueue _ payload => ∀ p ∈ payload, p.1.toNat + p.2.1.toNat ≤ 2 ^ 32
  | .visit v => v.Narrow

instance (q : OutQueue) (l : Step) : Decidable (q.Fit l) := by
  cases l <;> unfold Fit <;> infer_instance

/-- What holds in every state of a run that meets the condition. -/
structure Inv (q : OutQueue) : Prop where
  stream : places q.wire ++ (q.resend.elim [] OutMsg.rest ++ stream q.list) = stream q.enqueued
  list : ∃ ms, q.enqueued.drop q.finished = ms ++ q.list ∧ ms.length = q.resend.toList.length ∧
    (q.resend.elim [] OutMsg.rest).length ≤ (OutQueue.stream ms).length
  finished : q.finished ≤ q.enqueued.length
  fits : (∀ m ∈ q.list, m.Fits) ∧ ∀ m ∈ q.resend, m.Fits
  freed : ∀ e ∈ q.freed, e.1 < q.finished ∧
    (OutQueue.stream (q.enqueued.take (e.1 + 1))).length ≤ e.2 ∧ e.2 ≤ (places q.wire).length

lemma inv_create : Inv create where
  stream := rfl
  list := ⟨[], rfl, rfl, Nat.le_refl _⟩
  finished := Nat.le_refl _
  fits := ⟨by simp [create], by simp [create]⟩
  freed := by simp [create]

namespace Inv

lemma enqueue (h : q.Inv) {length : UInt32} {payload : Option (UInt32 × UInt64 × Bool)}
    (hfit : ∀ p ∈ payload, p.1.toNat + p.2.1.toNat ≤ 2 ^ 32) :
    (q.enqueue length payload).Inv := by
  obtain ⟨ms, hdrop, hlen, hle⟩ := h.list
  refine ⟨?_, ⟨ms, ?_, hlen, hle⟩, ?_, ⟨?_, h.fits.2⟩, ?_⟩
  · simp [OutQueue.enqueue, ← h.stream]
  · simp only [OutQueue.enqueue]
    rw [drop_append_of_le_length h.finished, hdrop, append_assoc]
  · simp only [OutQueue.enqueue, length_append]
    exact Nat.le_succ_of_le h.finished
  · intro m hm
    simp only [OutQueue.enqueue, mem_append, mem_singleton] at hm
    rcases hm with hm | rfl
    · exact h.fits.1 m hm
    · refine ⟨by simpa using length.toNat_lt, fun hp => ?_⟩
      obtain ⟨p, rfl⟩ := isSome_iff_exists.1 hp
      exact hfit p rfl
  · intro e he
    obtain ⟨hlt, hstream, hwire⟩ := h.freed e he
    refine ⟨hlt, ?_, hwire⟩
    simp only [OutQueue.enqueue]
    rwa [take_append_of_le_length (by have := h.finished; omega)]

lemma of_pop (h : q.Inv) {m : OutMsg} {list : List OutMsg} (hpop : q.pop = some (m, list)) :
    places q.wire ++ (m.rest ++ OutQueue.stream list) = OutQueue.stream q.enqueued ∧
      (∃ m₀, q.enqueued.drop q.finished = m₀ :: list ∧ m.rest.length ≤ m₀.rest.length) ∧
      m.Fits ∧ ∀ m' ∈ list, m'.Fits := by
  obtain ⟨ms, hdrop, hlen, hle⟩ := h.list
  have hstream := h.stream
  cases hr : q.resend with
  | some m' =>
    simp only [pop, hr, some.injEq, Prod.mk.injEq] at hpop
    obtain ⟨rfl, rfl⟩ := hpop
    simp only [hr] at hstream hlen hle
    obtain ⟨m₀, rfl⟩ := length_eq_one_iff.1 hlen
    refine ⟨hstream, ⟨m₀, hdrop, by simpa using hle⟩, h.fits.2 m' hr, h.fits.1⟩
  | none =>
    simp only [hr]
      at hstream hlen
    obtain rfl := length_eq_zero_iff.1 hlen
    cases hl : q.list with
    | nil => simp [pop, hr, hl] at hpop
    | cons m' ms =>
      simp only [pop, hr, hl, some.injEq, Prod.mk.injEq] at hpop
      obtain ⟨rfl, rfl⟩ := hpop
      have hfits := h.fits.1
      rw [hl] at hfits hstream hdrop
      exact ⟨hstream, ⟨m', hdrop, Nat.le_refl _⟩, hfits m' mem_cons_self,
        fun n hn => hfits n (mem_cons_of_mem _ hn)⟩

lemma visit (h : q.Inv) {v : Visit} (hs : v.Smooth) (hn : v.Narrow) : (q.visit v).1.Inv := by
  rw [OutQueue.visit]
  split
  case h_1 => exact h
  case h_2 m list hpop =>
    obtain ⟨hstream, ⟨m₀, hdrop, hle⟩, hm, hlist⟩ := h.of_pop hpop
    obtain ⟨hrest, hfits, hfreed⟩ :=
      OutMsg.rest_eq_of_asyncVisit q.errnoAgain hm hs hn
    generalize m.asyncVisit v q.errnoAgain = r at hrest hfits hfreed ⊢
    have hfinished : q.finished < q.enqueued.length := by
      have := congrArg length hdrop
      simp only [length_drop, length_cons] at this
      omega
    have hdrop' : q.enqueued.drop (q.finished + 1) = list := by
      rw [← drop_drop, hdrop, drop_one, tail_cons]
    have hwire : places (q.wire ++ r.chunks) ++
        (r.pending.elim [] OutMsg.rest ++ OutQueue.stream list) =
        OutQueue.stream q.enqueued := by
      rw [places_append, ← hstream, hrest]
      simp only [append_assoc]
    have hgrow : (places q.wire).length ≤ (places (q.wire ++ r.chunks)).length := by
      rw [places_append, length_append]
      exact Nat.le_add_right _ _
    have hold : ∀ e ∈ q.freed, e.1 < q.finished ∧
        (OutQueue.stream (q.enqueued.take (e.1 + 1))).length ≤ e.2 ∧
        e.2 ≤ (places (q.wire ++ r.chunks)).length := fun e he =>
      ⟨(h.freed e he).1, (h.freed e he).2.1, Nat.le_trans (h.freed e he).2.2 hgrow⟩
    cases hp : r.pending with
    | some m' =>
      have hnot : r.freed = false := by
        cases hf : r.freed with
        | false => rfl
        | true => exact absurd (hfreed hf) (by simp [hp])
      rw [hp] at hwire hrest hfits
      refine ⟨?_, ⟨[m₀], ?_, ?_, ?_⟩, ?_, ⟨hlist, ?_⟩, ?_⟩
      · simpa [handled, hp] using hwire
      · simpa [handled, hp] using hdrop
      · simp [handled, hp]
      · have := congrArg length hrest
        simp only [elim_some, length_append] at this
        simp only [handled, hp, elim_some, stream_cons, stream_nil, append_nil]
        omega
      · simpa [handled, hp] using h.finished
      · simpa [handled, hp] using hfits m' rfl
      · simpa [handled, hp, hnot] using hold
    | none =>
      rw [hp] at hwire
      -- the message is complete: the wire holds the stream up to its end
      have hcut : places (q.wire ++ r.chunks) =
          OutQueue.stream (q.enqueued.take (q.finished + 1)) := by
        have hall : OutQueue.stream (q.enqueued.take (q.finished + 1)) ++ OutQueue.stream list =
            OutQueue.stream q.enqueued := by
          rw [← hdrop', ← stream_append, take_append_drop]
        rw [← hall] at hwire
        exact append_cancel_right (by simpa using hwire)
      refine ⟨?_, ⟨[], ?_, ?_, ?_⟩, ?_, ⟨hlist, ?_⟩, ?_⟩
      · simpa [handled, hp] using hwire
      · simpa [handled, hp] using hdrop'
      · simp [handled, hp]
      · simp [handled, hp]
      · simpa [handled, hp] using Nat.succ_le_of_lt hfinished
      · simp [handled, hp]
      · intro e he
        have hold' : ∀ e ∈ q.freed, e.1 < q.finished + 1 ∧
            (OutQueue.stream (q.enqueued.take (e.1 + 1))).length ≤ e.2 ∧
            e.2 ≤ (places (q.wire ++ r.chunks)).length := fun e he =>
          ⟨Nat.lt_succ_of_lt (hold e he).1, (hold e he).2⟩
        simp only [handled, hp] at he ⊢
        split_ifs at he with hf
        · rcases mem_cons.1 he with rfl | he
          · exact ⟨Nat.lt_succ_self _, by simp [hcut], Nat.le_refl _⟩
          · exact hold' e he
        · exact hold' e he

lemma intact (h : q.Inv) : q.Intact := by
  have hbegin : places q.wire <+: OutQueue.stream q.enqueued := ⟨_, h.stream⟩
  exact ⟨hbegin, fun mem => hbegin.map mem, fun e he => (h.freed e he).2⟩

end Inv

/-- **The stream is intact in every run that meets the condition.** -/
theorem intact_of_fit (h : (machine.restrict Fit).Reachable q) : q.Intact := by
  refine Inv.intact (h.invariant ?_ ?_)
  · rintro _ rfl
    exact inv_create
  · rintro q l q' - hi hst
    obtain ⟨hfit, hst⟩ := Machine.restrict_next.1 hst
    cases l with
    | enqueue length payload =>
      simp only [machine, next] at hst
      split_ifs at hst
      cases hst
      exact hi.enqueue hfit
    | visit v =>
      simp only [machine, next] at hst
      split_ifs at hst with hs
      cases hst
      exact hi.visit hs hfit

/-- Two messages, the second one with a payload that is freed; the socket accepts parts. -/
theorem intact_of_fit_run : ∃ q, (machine.restrict Fit).Reachable q ∧ q.finished = 2 ∧
    q.freed = [(1, 20)] ∧ q.Intact :=
  Machine.Reachable.exists_and₂ (r := [.enqueue 4 none, .enqueue 10 (some (8, 6, true)),
      .visit ⟨true, ⟨0, 0⟩, [.accept 100], []⟩, .visit ⟨true, ⟨0, 1⟩, [.accept 7, .accept 2], []⟩,
      .visit ⟨false, ⟨0, 0⟩, [], []⟩, .visit ⟨true, ⟨4, 0⟩, [.accept 3], [.accept 4]⟩,
      .visit ⟨true, ⟨0, 0⟩, [], [.accept 1, .accept 1]⟩])
    rfl (by decide +kernel) fun _ hq _ _ => intact_of_fit hq

/-- Two streams of the same length that differ in their last place: one of them is not the beginning
of the other. -/
theorem not_isPrefix_of_last {α β : Type*} {as bs : List α} {a b : α} {f : α → β}
    (hlen : as.length = bs.length) (hne : f a ≠ f b) :
    ¬ (as ++ [a]).map f <+: (bs ++ [b]).map f := by
  intro h
  have heq := h.eq_of_length (by simp [hlen])
  rw [map_append, map_append] at heq
  have := (append_inj heq (by simp [hlen])).2
  exact hne (by simpa using this)

/-- **A payload is sent from its start again**: of `2 ^ 32 + 1` bytes the socket accepts all but
one, and the last byte is taken from byte 0. -/
theorem payload_from_start : ∃ q, machine.Reachable q ∧ ¬ q.Intact := by
  obtain ⟨q, hq, hwire, henq⟩ := Machine.Reachable.exists_of_exec (M := machine)
    (P := fun q => q.wire = [⟨0, .header, 0, 10⟩, ⟨0, .payload, 0, 2 ^ 31 - 1⟩,
        ⟨0, .payload, 2 ^ 31 - 1, 2 ^ 31 - 1⟩, ⟨0, .payload, 2 ^ 32 - 2, 2⟩, ⟨0, .payload, 0, 1⟩] ∧
      q.enqueued = [⟨0, 0, 10, true, 0x100000001, 0, false⟩])
    (r := [.enqueue 10 (some (0, 0x100000001, false)),
      .visit ⟨true, ⟨0, 0⟩, [.accept 10],
        [.accept 0x7FFFFFFF, .accept 0x7FFFFFFF, .accept 2, .again]⟩,
      .visit ⟨true, ⟨0, 0⟩, [], [.accept 1]⟩])
    rfl (by decide +kernel)
  refine ⟨q, hq, fun hintact => ?_⟩
  have hsent : places q.wire =
      (window 0 .header 0 10 ++ window 0 .payload 0 (2 ^ 32)) ++ [(0, .payload, 0)] := by
    rw [hwire]
    have hfirst : window 0 .payload 0 (2 ^ 31 - 1) ++
        window 0 .payload (2 ^ 31 - 1) (2 ^ 31 - 1) = window 0 .payload 0 (2 ^ 32 - 2) :=
      window_append 0 .payload 0 rfl
    have hsecond : window 0 .payload 0 (2 ^ 32 - 2) ++ window 0 .payload (2 ^ 32 - 2) 2 =
        window 0 .payload 0 (2 ^ 32) := window_append 0 .payload 0 rfl
    rw [← hsecond, ← hfirst]
    simp only [append_assoc]
    rfl
  have hstream : stream q.enqueued =
      (window 0 .header 0 10 ++ window 0 .payload 0 (2 ^ 32)) ++ [(0, .payload, 2 ^ 32)] := by
    rw [henq]
    simp only [stream_cons, stream_nil, append_nil]
    have hwhole : window 0 .payload 0 (2 ^ 32) ++ window 0 .payload (2 ^ 32) 1 =
        window 0 .payload 0 (2 ^ 32 + 1) := window_append 0 .payload 0 rfl
    rw [append_assoc]
    exact congrArg (window 0 .header 0 10 ++ ·) hwhole.symm
  have hbytes := hintact.bytes fun p => if p = (0, .payload, 0) then 1 else 0
  rw [hsent, hstream] at hbytes
  exact not_isPrefix_of_last rfl (by decide) hbytes

lemma sendRound_leads {vs : List Visit} (hvs : ∀ v ∈ vs, v.Smooth) {qs : List OutQueue} {i : ℕ}
    (hi : qs[i]? = some q) : ∃ q', (sendRound vs qs).1[i]? = some q' ∧ machine.Leads q q' := by
  induction vs generalizing qs i with
  | nil =>
    cases qs with
    | nil => simp at hi
    | cons q₀ qs => exact ⟨q, hi, .refl q⟩
  | cons v vs ih =>
    cases qs with
    | nil => simp at hi
    | cons q₀ qs =>
      have hvisit : machine.Leads q₀ (q₀.visit v).1 := by
        refine .of_next (l := .visit v) ?_
        simp [machine, next, hvs v mem_cons_self]
      simp only [sendRound]
      cases i with
      | zero =>
        obtain rfl : q₀ = q := by simpa using hi
        split_ifs <;> exact ⟨_, rfl, hvisit⟩
      | succ i =>
        split_ifs
        · exact ⟨q, hi, .refl q⟩
        · exact ih (fun w hw => hvs w (mem_cons_of_mem _ hw)) hi

end OutQueue

end Arts
