import Arts.Outbound.Stream

/-!
# A send that fails

The size of the payload is added to the error value of the header, and a flush keeps a message as it
was (`OutMsg.failure_unreported`). `OutMsg.reported_iff` says exactly when a failure is reported.
-/

namespace Arts

open List Sent

variable {id : ℕ} {part : Part} {lim : SendLimits} {base : ℕ} {rs : List SendResult}
  {total length : UInt64} {iterations : ℕ} {errnoAgain : Bool}

/-! ### The loop -/

lemma sendLoop_accept_chunks (lim : SendLimits) (id : ℕ) (part : Part) (base : ℕ)
    (rs : List SendResult) (total : UInt64) (iterations : ℕ) (errnoAgain : Bool) {n : UInt64}
    (hlen : length ≠ 0) (hn : n ≠ 0) :
    ∃ c cs, (sendLoop lim id part base (.accept n :: rs) total length iterations
      errnoAgain).chunks = c :: cs ∧ c.places ≠ [] := by
  obtain ⟨k, hk, hpos⟩ : ∃ k : UInt64, (if n ≤ length then n else length) = k ∧ 0 < k.toNat := by
    refine ⟨_, rfl, Nat.pos_of_ne_zero fun h0 => ?_⟩
    split_ifs at h0
    · exact hn (UInt64.toNat_inj.1 h0)
    · exact hlen (UInt64.toNat_inj.1 h0)
  have hplaces : (Chunk.mk id part (base + total.toNat) k.toNat).places ≠ [] := by
    intro h
    have := congrArg List.length h
    rw [Chunk.places, length_window, length_nil] at this
    exact Nat.ne_of_gt hpos this
  refine ⟨⟨id, part, base + total.toNat, k.toNat⟩, ?_⟩
  simp only [sendLoop, if_neg hlen, if_neg hn, hk]
  split_ifs <;> exact ⟨_, rfl, hplaces⟩

lemma remaining_of_failed
    (h : (sendLoop lim id part base rs total length iterations errnoAgain).failed = true) :
    (sendLoop lim id part base rs total length iterations errnoAgain).remaining =
      errorValue := by
  induction rs generalizing total length iterations with
  | nil => simp [sendLoop, idle] at h
  | cons r rs ih =>
    by_cases hzero : length = 0
    · simp [sendLoop, hzero, idle] at h
    · cases r with
      | again => simp [sendLoop, hzero, idle] at h
      | error => simp [sendLoop, hzero, fail]
      | accept n =>
        by_cases hn : n = 0
        · simp [sendLoop, hzero, hn, fail]
        · simp only [sendLoop, if_neg hzero, if_neg hn] at h ⊢
          generalize (if n ≤ length then n else length) = k at h ⊢
          split_ifs at h ⊢ <;> first | exact ih h | cases h

/-- If nothing was accepted, the result is the whole length, or the first send failed. -/
theorem sendLoop_of_places_nil
    (h : places (sendLoop lim id part base rs total length iterations errnoAgain).chunks = []) :
    ((sendLoop lim id part base rs total length iterations errnoAgain).failed = false ∧
      (sendLoop lim id part base rs total length iterations errnoAgain).remaining = length) ∨
    (length ≠ 0 ∧ ∃ r ∈ rs.head?, ¬ r.Smooth) := by
  by_cases hzero : length = 0
  · cases rs <;> simp [sendLoop, idle, hzero]
  · cases rs with
    | nil => simp [sendLoop, idle]
    | cons r rs =>
      cases r with
      | again => simp [sendLoop, idle, hzero]
      | error => exact .inr ⟨hzero, _, rfl, fun hs => hs⟩
      | accept n =>
        by_cases hn : n = 0
        · exact .inr ⟨hzero, _, rfl, fun hs => hs hn⟩
        · obtain ⟨c, cs, hcs, hne⟩ :=
            sendLoop_accept_chunks lim id part base rs total iterations errnoAgain hzero hn
          rw [hcs, places_cons, append_eq_nil_iff] at h
          exact absurd h.1 hne

lemma sendLoop_of_head (hlen : length ≠ 0) {r : SendResult} (hr : r ∈ rs.head?)
    (hs : ¬ r.Smooth) :
    ∃ e, sendLoop lim id part base rs total length iterations errnoAgain = .fail e := by
  cases rs with
  | nil => cases hr
  | cons r' rs =>
    obtain rfl : r' = r := by simpa using hr
    cases r' with
    | again => exact absurd trivial hs
    | error => exact ⟨false, by simp [sendLoop, hlen]⟩
    | accept n =>
      have hn : n = 0 := not_not.1 hs
      exact ⟨errnoAgain, by simp [sendLoop, hlen, hn]⟩

/-! ### One message -/

namespace OutMsg

variable {m : OutMsg} {v : Visit} {h : Handled}

/-- **A failure is reported**: the caller sees the error value and does not count the message as
sent or the call as progress, and what it keeps of the message is what the socket has not accepted
yet. -/
structure Reported (m : OutMsg) (h : Handled) : Prop where
  remaining : h.remaining = errorValue
  complete : h.complete = false
  progress : h.progress = false
  pending : ∀ m' ∈ h.pending, places h.chunks ++ m'.rest = m.rest

/-- The first send of a visit: of the header, or of the payload if the header has been sent. -/
def firstSend (m : OutMsg) (v : Visit) : Option SendResult :=
  if m.length ≠ 0 then v.header.head? else v.payload.head?

/-- **The condition**: the first send fails, and the message has no payload or its header has been
sent. -/
def FailsAtOnce (m : OutMsg) (v : Visit) : Prop :=
  (∃ r ∈ m.firstSend v, ¬ r.Smooth) ∧ (m.payload = true → m.payloadSize = 0 ∨ m.length = 0)

lemma toUInt64_ne_zero (hlen : m.length ≠ 0) : m.length.toUInt64 ≠ 0 := fun h0 => by
  refine hlen (UInt32.toNat_inj.1 ?_)
  rw [← UInt32.toNat_toUInt64, h0]
  rfl

/-- The sender thread deletes the message and the flush keeps it, which is right only if nothing was
accepted. -/
theorem reported_iff_of_error
    (hrem : (m.send v errnoAgain).remaining = errorValue) :
    m.Reported (m.asyncVisit v errnoAgain) ∧
      (m.Reported (m.flushVisit v errnoAgain) ↔ places (m.send v errnoAgain).chunks = []) := by
  refine ⟨?_, fun hr => ?_, fun hnil => ?_⟩
  · simp only [asyncVisit, if_pos hrem]
    exact ⟨hrem, rfl, rfl, fun m' hm' => by cases hm'⟩
  · have := hr.pending m (by simp [flushVisit, if_pos hrem])
    simp only [flushVisit, if_pos hrem] at this
    exact append_left_eq_self.1 this
  · simp only [flushVisit, if_pos hrem]
    refine ⟨hrem, rfl, rfl, fun m' hm' => ?_⟩
    obtain rfl : m = m' := by simpa using hm'
    rw [hnil, nil_append]

lemma not_reported_of_ne
    (hrem : (m.send v errnoAgain).remaining ≠ errorValue) :
    ¬ m.Reported (m.flushVisit v errnoAgain) := by
  intro hr
  have := hr.remaining
  simp only [flushVisit, if_neg hrem] at this
  exact hrem this

lemma failed_header (hp : m.payload = false) (hf : (m.send v errnoAgain).failed = true) :
    (m.send v errnoAgain).remaining = errorValue ∧
      (places (m.send v errnoAgain).chunks = [] ↔ m.FailsAtOnce v) := by
  have hsend : m.send v errnoAgain = m.sendRequest v errnoAgain := by simp [send, hp]
  cases hc : v.connected with
  | false => simp [hsend, sendRequest, hc, idle] at hf
  | true =>
    have hloop : m.send v errnoAgain = sendLoop v.limits m.id .header m.offset.toNat v.header 0
        m.length.toUInt64 0 errnoAgain := by simp [hsend, sendRequest, hc, actualSend]
    rw [hloop] at hf ⊢
    refine ⟨remaining_of_failed hf, fun hnil => ?_, fun hcond => ?_⟩
    · rcases sendLoop_of_places_nil hnil with ⟨hnot, -⟩ | ⟨hlen, hhead⟩
      · rw [hf] at hnot
        cases hnot
      · have hlen' : m.length ≠ 0 := fun h0 => hlen (by rw [h0]; rfl)
        refine ⟨?_, fun h => absurd h (by simp [hp])⟩
        rwa [firstSend, if_pos hlen']
    · obtain ⟨⟨r, hr, hs⟩, -⟩ := hcond
      by_cases hlen : m.length = 0
      · rw [hlen] at hf
        cases hh : v.header <;> simp [hh, sendLoop, idle] at hf
      · rw [firstSend, if_pos hlen] at hr
        obtain ⟨e, he⟩ := sendLoop_of_head (toUInt64_ne_zero hlen) hr hs
        rw [he]
        rfl

lemma failed_payload (hp : m.payload = true) (hf : (m.send v errnoAgain).failed = true) :
    ((m.send v errnoAgain).remaining = errorValue ∧
      places (m.send v errnoAgain).chunks = []) ↔ m.FailsAtOnce v := by
  have hsend : m.send v errnoAgain = m.sendPayloadRequest v errnoAgain := by simp [send, hp]
  cases hc : v.connected with
  | false => simp [hsend, sendPayloadRequest, hc, idle] at hf
  | true =>
    obtain ⟨t, ht⟩ : ∃ t, sendLoop v.limits m.id .header m.offset.toNat v.header 0
      m.length.toUInt64 0 errnoAgain = t := ⟨_, rfl⟩
    by_cases ht0 : t.remaining = 0
    · obtain ⟨u, hu⟩ : ∃ u, sendLoop v.limits m.id .payload m.offsetPayload.toNat v.payload 0
        m.payloadSize 0 t.errnoAgain = u := ⟨_, rfl⟩
      have hmsg : m.send v errnoAgain = { u with chunks := t.chunks ++ u.chunks } := by
        simp [hsend, sendPayloadRequest, hc, actualSend, ht, ht0, hu]
      rw [hmsg] at hf ⊢
      have hfu : u.failed = true := hf
      have hrem : u.remaining = errorValue := hu ▸ remaining_of_failed (hu ▸ hfu)
      refine ⟨fun h => ?_, fun hcond => ⟨hrem, ?_⟩⟩
      · have hnil := h.2
        rw [places_append, append_eq_nil_iff] at hnil
        have hlen : m.length = 0 := by
          rcases sendLoop_of_places_nil (ht ▸ hnil.1) with ⟨-, hle⟩ | ⟨hne, r, hr, hs⟩
          · rw [ht, ht0] at hle
            exact not_not.1 fun hne => toUInt64_ne_zero hne hle.symm
          · obtain ⟨e, he⟩ := sendLoop_of_head hne hr hs
            rw [ht] at he
            rw [he] at ht0
            cases ht0
        refine ⟨?_, fun _ => .inr hlen⟩
        rcases sendLoop_of_places_nil (hu ▸ hnil.2) with ⟨hnot, -⟩ | ⟨-, hhead⟩
        · rw [hu, hfu] at hnot
          cases hnot
        · rwa [firstSend, if_neg (not_not.2 hlen)]
      · obtain ⟨⟨r, hr, hs⟩, hor⟩ := hcond
        have hlen : m.length = 0 := by
          rcases hor hp with hsize | hlen
          · rw [← hu, hsize] at hfu
            cases hh : v.payload <;> simp [hh, sendLoop, idle] at hfu
          · exact hlen
        rw [firstSend, if_neg (not_not.2 hlen)] at hr
        have hsize : m.payloadSize ≠ 0 := fun h0 => by
          rw [← hu, h0] at hfu
          cases hh : v.payload <;> simp [hh, sendLoop, idle] at hfu
        obtain ⟨e, he⟩ := sendLoop_of_head hsize hr hs
        rw [hu] at he
        have hnone : t.chunks = [] := by
          rw [← ht, hlen]
          cases v.header <;> simp [sendLoop, idle]
        rw [hnone, he]
        rfl
    · have hmsg : m.send v errnoAgain = { t with remaining := t.remaining + m.payloadSize } := by
        simp [hsend, sendPayloadRequest, hc, actualSend, ht, ht0]
      rw [hmsg] at hf ⊢
      have hft : t.failed = true := hf
      have hrem : t.remaining = errorValue := ht ▸ remaining_of_failed (ht ▸ hft)
      have hlen : m.length ≠ 0 := fun h0 => by
        rw [← ht, h0] at hft
        cases hh : v.header <;> simp [hh, sendLoop, idle] at hft
      have hsum : t.remaining + m.payloadSize = errorValue ↔ m.payloadSize = 0 := by
        rw [hrem]
        exact ⟨fun h => by simpa using h, fun h => by rw [h]; rfl⟩
      refine ⟨fun h => ⟨?_, fun _ => .inl (hsum.1 h.1)⟩, fun hcond => ?_⟩
      · rcases sendLoop_of_places_nil (ht ▸ h.2) with ⟨hnot, -⟩ | ⟨-, hhead⟩
        · rw [ht, hft] at hnot
          cases hnot
        · rwa [firstSend, if_pos hlen]
      · obtain ⟨⟨r, hr, hs⟩, hor⟩ := hcond
        rw [firstSend, if_pos hlen] at hr
        obtain ⟨e, he⟩ := sendLoop_of_head (toUInt64_ne_zero hlen) hr hs
        rw [ht] at he
        refine ⟨hsum.2 ((hor hp).resolve_right hlen), ?_⟩
        rw [he]
        rfl

/-- **When a failure is reported** by both callers, at any point of the header or payload. -/
theorem reported_iff (hf : (m.send v errnoAgain).failed = true) :
    (m.Reported (m.asyncVisit v errnoAgain) ∧ m.Reported (m.flushVisit v errnoAgain)) ↔
      m.FailsAtOnce v := by
  have hboth : (m.Reported (m.asyncVisit v errnoAgain) ∧
      m.Reported (m.flushVisit v errnoAgain)) ↔
      ((m.send v errnoAgain).remaining = errorValue ∧
        places (m.send v errnoAgain).chunks = []) := by
    by_cases hrem : (m.send v errnoAgain).remaining = errorValue
    · obtain ⟨hasync, hflush⟩ := reported_iff_of_error hrem
      exact ⟨fun h => ⟨hrem, hflush.1 h.2⟩, fun h => ⟨hasync, hflush.2 h.2⟩⟩
    · exact ⟨fun h => absurd h.2 (not_reported_of_ne hrem), fun h => absurd h.1 hrem⟩
  rw [hboth]
  cases hp : m.payload with
  | true => exact failed_payload hp hf
  | false =>
    obtain ⟨hrem, hiff⟩ := failed_header hp hf
    exact ⟨fun h => hiff.1 h.2, fun h => ⟨hrem, hiff.2 h⟩⟩

/-- A message whose header is on the wire already and whose payload fails at its next byte. -/
theorem reported_iff_payload :
    OutMsg.Reported ⟨0, 0, 0, true, 5, 3, true⟩
        (OutMsg.asyncVisit ⟨0, 0, 0, true, 5, 3, true⟩ ⟨true, ⟨0, 0⟩, [], [.error]⟩ false) ∧
      OutMsg.Reported ⟨0, 0, 0, true, 5, 3, true⟩
        (OutMsg.flushVisit ⟨0, 0, 0, true, 5, 3, true⟩ ⟨true, ⟨0, 0⟩, [], [.error]⟩ false) :=
  (reported_iff (by decide)).2 ⟨⟨.error, by decide, fun h => h⟩, fun _ => .inr rfl⟩

/-- **A failure that is not reported**: the header of a message with a payload of 5 bytes fails
after 4 of 10 bytes, and both callers see 4 remaining bytes. -/
theorem failure_unreported :
    (OutMsg.send ⟨0, 0, 10, true, 5, 0, true⟩ ⟨true, ⟨0, 0⟩, [.accept 4, .error], []⟩
        false).failed = true ∧
      ¬ OutMsg.Reported ⟨0, 0, 10, true, 5, 0, true⟩ (OutMsg.asyncVisit ⟨0, 0, 10, true, 5, 0, true⟩
        ⟨true, ⟨0, 0⟩, [.accept 4, .error], []⟩ false) ∧
      ¬ OutMsg.Reported ⟨0, 0, 10, true, 5, 0, true⟩ (OutMsg.flushVisit ⟨0, 0, 10, true, 5, 0, true⟩
        ⟨true, ⟨0, 0⟩, [.accept 4, .error], []⟩ false) ∧
      (OutMsg.asyncVisit ⟨0, 0, 10, true, 5, 0, true⟩
        ⟨true, ⟨0, 0⟩, [.accept 4, .error], []⟩ false).pending =
          some ⟨0, 0, 0, true, 4, 1, true⟩ :=
  ⟨by decide, fun h => absurd h.remaining (by decide), fun h => absurd h.remaining (by decide),
    by decide⟩

end OutMsg

end Arts
