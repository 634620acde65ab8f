import Arts.Epoch.History
import Arts.Epoch.Owner
import Arts.Epoch.Reply

/-!
# The counts a rank reports

`Snap`: a worker that could still report holds a finished count above the *level*, so its report is
as new as the round or shows more than the previous one, if none publishes in a window
(`Call.reading`).
-/

namespace Arts

open List Call

namespace Call

variable {ε : Type*}

/-- The counts that a worker saw when it published its finish, while it may still report them. -/
def snapshot : Call ε → Option (UInt32 × UInt32)
  | .finish _ (.load ca nf) | .finish _ (.cas ca nf _) => some (ca, nf)
  | _ => none

def readsActive : Call ε → Option UInt32
  | .send (.read a _) => a
  | _ => none

def readsFinish : Call ε → Option UInt32
  | .send (.read _ f) => f
  | _ => none

def reply : Call ε → Option (UInt32 × UInt32)
  | .finish _ (.send a f) | .send (.send a f) => some (a, f)
  | _ => none

/-- A handler has won the right to answer and has not read the finished count. -/
def reading : Call ε → Bool
  | .send (.read _ none) => true
  | _ => false

lemma owes_of_snapshot {c : Call ε} {v : UInt32 × UInt32} (h : c.snapshot = some v) :
    c.owes = 1 := by
  cases c with
  | finish x pc => cases pc <;> simp_all [snapshot, owes, queuedEdt]
  | send pc | reduce a f pc => simp [snapshot] at h

lemma blank_of_winner_eq_zero {c : Call ε} (h : c.winner = 0) :
    c.readsActive = none ∧ c.readsFinish = none ∧ c.reply = none := by
  cases c with
  | finish x pc | send pc => cases pc <;> simp_all [winner, readsActive, readsFinish, reply]
  | reduce a f pc => exact ⟨rfl, rfl, rfl⟩

lemma winner_of_reading {c : Call ε} (h : c.reading = true) : c.winner = 1 := by
  cases c with
  | finish x pc | reduce a f pc => simp [reading] at h
  | send pc => cases pc <;> simp_all [reading, winner]

end Call

/-- What a round has to know about the past of a rank. -/
structure Cut where
  prev : ℕ × ℕ
  base : ℕ × ℕ
  level : ℕ

/-- The report is the latest one, and it is as new as the round or shows more finished EDTs than
the previous report. -/
def Cut.Good (k : Cut) (counts : ℕ × ℕ) (v : UInt32 × UInt32) : Prop :=
  v.1.toNat ≤ counts.1 ∧ v.2.toNat = k.level ∧
    (k.prev.2 < k.level ∨ k.base.1 ≤ v.1.toNat ∧ k.base.2 ≤ k.level)

variable {ε : Type*}

structure Call.Fits (k : Cut) (counts : ℕ × ℕ) (c : Call ε) : Prop where
  snapshot : ∀ v, c.snapshot = some v →
    v.1.toNat ≤ counts.1 ∧ k.level < v.2.toNat ∧ v.2.toNat ≤ counts.2
  readsActive : ∀ a, c.readsActive = some a → k.base.1 ≤ a.toNat ∧ a.toNat ≤ counts.1
  readsFinish : ∀ f, c.readsFinish = some f → f.toNat = k.level ∧ k.base.2 ≤ k.level
  reply : ∀ v, c.reply = some v → k.Good counts v

structure Snap (calls : List (Call ε)) (counts : ℕ × ℕ) (k : Cut) : Prop where
  prev_le : k.prev ≤ k.base
  base_le : k.base ≤ counts
  prev_level : k.prev.2 ≤ k.level
  level_le : k.level ≤ counts.2
  fits : ∀ c ∈ calls, c.Fits k counts
  reading : ∀ c ∈ calls, c.reading = true → ∀ d ∈ calls, d.snapshot = none

section Mono

variable {k : Cut} {counts counts' : ℕ × ℕ} {c : Call ε} {calls : List (Call ε)}

lemma Cut.Good.mono {v : UInt32 × UInt32} (h : k.Good counts v) (hle : counts ≤ counts') :
    k.Good counts' v :=
  ⟨h.1.trans hle.1, h.2⟩

lemma Call.Fits.mono (h : c.Fits k counts) (hle : counts ≤ counts') : c.Fits k counts' := by
  refine ⟨fun v hv => ?_, fun a ha => ?_, h.readsFinish, fun v hv => (h.reply v hv).mono hle⟩
  · obtain ⟨ha, hl, hf⟩ := h.snapshot v hv
    exact ⟨ha.trans hle.1, hl, hf.trans hle.2⟩
  · obtain ⟨hb, ha⟩ := h.readsActive a ha
    exact ⟨hb, ha.trans hle.1⟩

lemma Call.fits_of_blank (hs : c.snapshot = none) (hw : c.winner = 0) : c.Fits k counts := by
  obtain ⟨ha, hf, hr⟩ := blank_of_winner_eq_zero hw
  exact ⟨by simp [hs], by simp [ha], by simp [hf], by simp [hr]⟩

lemma Snap.mono (h : Snap calls counts k) (hle : counts ≤ counts') : Snap calls counts' k :=
  ⟨h.prev_le, h.base_le.trans hle, h.prev_level, h.level_le.trans hle.2,
    fun c hc => (h.fits c hc).mono hle, h.reading⟩

lemma Snap.start (h : Snap calls counts k) (hs : c.snapshot = none) (hw : c.winner = 0) :
    Snap (calls ++ [c]) counts k := by
  have hr : c.reading = false := by
    by_contra hne
    have := winner_of_reading (Bool.not_eq_false _ ▸ hne)
    omega
  refine ⟨h.prev_le, h.base_le, h.prev_level, h.level_le,
    forall_mem_append_singleton h.fits (fits_of_blank hs hw),
    forall_mem_append_singleton (fun d hd hdr => ?_) fun hc => by rw [hr] at hc; cases hc⟩
  exact forall_mem_append_singleton (h.reading d hd hdr) hs

end Mono

/-! ### The counts of the record -/

/-- The record holds the counts, which fit in 32 bits. -/
structure Epoch.Holds (e : Epoch) (counts : ℕ × ℕ) : Prop where
  packed : e.epochCounts = packed counts.1 counts.2
  active_lt : counts.1 < 2 ^ 32
  finished_lt : counts.2 < 2 ^ 32

section Holds

variable {e : Epoch} {counts : ℕ × ℕ}

lemma Epoch.Holds.toNat_active (h : e.Holds counts) : e.active.toNat = counts.1 := by
  rw [Epoch.active, h.packed, toNat_activeHalf_packed, Nat.div_eq_of_lt h.finished_lt,
    Nat.add_zero, Nat.mod_eq_of_lt h.active_lt]

lemma Epoch.Holds.toNat_finished (h : e.Holds counts) : e.finished.toNat = counts.2 := by
  rw [Epoch.finished, h.packed, toNat_finishedHalf_packed, Nat.mod_eq_of_lt h.finished_lt]

lemma Epoch.Holds.toNat_newFinished (h : e.Holds counts) (hlt : counts.2 + 1 < 2 ^ 32) :
    (newFinished e.epochCounts).toNat = counts.2 + 1 := by
  rw [h.packed, toNat_newFinished_packed, Nat.mod_eq_of_lt h.finished_lt, Nat.mod_eq_of_lt hlt]

end Holds

/-! ### A step of a call -/

namespace Snap

variable {k : Cut} {counts counts' : ℕ × ℕ} {calls : List (Call ε)} {i : ℕ} {c c' : Call ε}

lemma keep (h : Snap calls counts k) (hc : calls[i]? = some c) (hle : counts ≤ counts')
    (hfit : c'.Fits k counts') (hs : c.snapshot = none → c'.snapshot = none)
    (hr : c'.reading = true → c.reading = true) : Snap (calls.set i c') counts' k := by
  have hmem := mem_of_getElem? hc
  have hnone : (∀ d ∈ calls, d.snapshot = none) → ∀ d ∈ calls.set i c', d.snapshot = none :=
    fun hall => forall_mem_set hall (hs (hall c hmem))
  exact ⟨h.prev_le, h.base_le.trans hle, h.prev_level, h.level_le.trans hle.2,
    forall_mem_set (fun d hd => (h.fits d hd).mono hle) hfit,
    forall_mem_set (fun d hd hdr => hnone (h.reading d hd hdr))
      fun hcr => hnone (h.reading c hmem (hr hcr))⟩

lemma report (h : Snap calls counts k) {level : ℕ}
    (hblank : ∀ j d, i ≠ j → calls[j]? = some d → d.snapshot = none ∧ d.winner = 0)
    (hfit : c'.Fits { k with level } counts) (hs : c'.snapshot = none)
    (hprev : k.prev.2 ≤ level) (hle : level ≤ counts.2) :
    Snap (calls.set i c') counts { k with level } := by
  have hall : ∀ d ∈ calls.set i c', d.Fits { k with level } counts ∧ d.snapshot = none := by
    intro d hd
    obtain ⟨j, hj⟩ := mem_iff_getElem?.1 hd
    rcases getElem?_set_cases hj with ⟨-, rfl⟩ | ⟨hij, hj⟩
    · exact ⟨hfit, hs⟩
    · obtain ⟨hds, hdw⟩ := hblank j d hij hj
      exact ⟨fits_of_blank hds hdw, hds⟩
  exact ⟨h.prev_le, h.base_le, hprev, hle, fun d hd => (hall d hd).1,
    fun _ _ _ d hd => (hall d hd).2⟩

end Snap

lemma Call.OtherStep.reply_eq {ff : Bool} {e e' : Epoch} {c c' : Call ε} {a f : UInt32}
    (h : OtherStep ff e c e' c' (some (.epochSend a f))) : c.reply = some (a, f) := by
  cases h <;> rfl

lemma Call.OtherStep.countRequest_eq {ff : Bool} {e e' : Epoch} {c c' : Call ε}
    {out : Option Out} (h : OtherStep ff e c e' c' out) : countRequest out = 0 := by
  cases h <;> rfl

section Step

variable {s : Served EdtGuid} {k : Cut} {counts : ℕ × ℕ} {i : ℕ} {ff : Bool}
  {c c' : Call EdtGuid} {e' : Epoch} {out : Option Out}

lemma Served.Inv.winner_unique (hi : s.Inv) (hc : s.node.calls[i]? = some c)
    (hw : c.winner = 1) : s.replies < s.requests ∧
      ∀ j d, i ≠ j → s.node.calls[j]? = some d → d.winner = 0 := by
  obtain ⟨idle, -, hcount, -⟩ := hi.word
  have hle := le_weight_of_getElem? winner hc
  have hone := hi.atMostOne
  refine ⟨by omega, fun j d hij hd => ?_⟩
  have := add_le_weight winner hc hd hij
  omega

/-- A step of a call keeps what the calls of the rank hold. It fixes a new report only while a
request is unanswered. -/
theorem Snap.otherStep (h : Snap s.node.calls counts k) (hi : s.Inv)
    (he : s.node.epoch.Holds counts) (hc : s.node.calls[i]? = some c)
    (hst : OtherStep ff s.node.epoch c e' c' out)
    (hpub : c.unpublished = 1 → (∀ d ∈ s.node.calls, d.reading = false) ∧ counts.2 + 1 < 2 ^ 32) :
    ∃ level, Snap (s.node.calls.set i c') (counts.1, counts.2 + c.unpublished)
      { k with level } ∧ (level = k.level ∨ s.replies < s.requests ∧ out = none) := by
  have hmem := mem_of_getElem? hc
  have hfits := h.fits c hmem
  have hlt := Node.queueLen_lt hi.nodup
  have hact := he.toNat_active
  have hfin := he.toNat_finished
  have hno {α : Type} {p : α → Prop} : ∀ v, none = some v → p v := by rintro _ ⟨⟩
  have hfalse {p : Prop} : false = true → p := by rintro ⟨⟩
  -- the steps that fix no report
  have hkeep : c.unpublished = 0 → c'.Fits k counts →
      (c.snapshot = none → c'.snapshot = none) → (c'.reading = true → c.reading = true) →
      ∃ level, Snap (s.node.calls.set i c') (counts.1, counts.2 + c.unpublished)
        { k with level } ∧ (level = k.level ∨ s.replies < s.requests ∧ out = none) := by
    intro h0 hfit hs hr
    rw [h0]
    exact ⟨k.level, h.keep hc le_rfl hfit hs hr, .inl rfl⟩
  cases hst with
  | add x =>
    obtain ⟨hread, hlt'⟩ := hpub rfl
    have hle : counts ≤ (counts.1, counts.2 + 1) := ⟨le_rfl, Nat.le_succ _⟩
    have hca : (activeHalf s.node.epoch.epochCounts).toNat = counts.1 := hact
    have hnf := he.toNat_newFinished hlt'
    have hlevel := h.level_le
    refine ⟨k.level, ⟨h.prev_le, h.base_le.trans hle, h.prev_level, hlevel.trans hle.2,
      forall_mem_set (fun d hd => (h.fits d hd).mono hle) ⟨?_, hno, hno, hno⟩,
      forall_mem_set (fun d hd hdr => ?_) hfalse⟩, .inl rfl⟩
    · rintro v hv
      cases hv
      exact ⟨hca.le, by simp only [hnf]; omega, hnf.le⟩
    · rw [hread d hd] at hdr
      cases hdr
  | load x ca nf | retry x ca nf =>
    exact hkeep rfl ⟨hfits.snapshot, hno, hno, hno⟩ id hfalse
  | drain x ca nf h1 =>
    obtain ⟨hca, hlevel, hnf⟩ := hfits.snapshot (ca, nf) rfl
    obtain ⟨idle, hq, hcount, -⟩ := hi.word
    -- the word is 1: a request waits, and no other worker is counted
    rw [hq, ← queueWord_one, queueWord_inj hlt (by omega)] at h1
    obtain ⟨rfl, h1⟩ := h1
    have hone := hi.atMostOne
    simp only [Bool.false_eq_true, ↓reduceIte] at hcount
    refine ⟨nf.toNat, h.report (fun j d hij hd => ?_) ⟨hno, hno, hno, ?_⟩ rfl
      (h.prev_level.trans hlevel.le) hnf, .inr ⟨by omega, rfl⟩⟩
    · have howes := add_le_weight owes hc hd hij
      have hwin := le_weight_of_getElem? winner hd
      simp only [Node.queueLen] at h1
      refine ⟨Option.eq_none_iff_forall_ne_some.2 fun v hv => ?_, by omega⟩
      have := owes_of_snapshot hv
      simp [owes, queuedEdt] at howes this
      omega
    · rintro v hv
      cases hv
      exact ⟨hca, rfl, .inl (h.prev_level.trans_lt hlevel)⟩
  | leave x ca nf | workerSend | mask | lose | handlerSend =>
    exact hkeep rfl (fits_of_blank rfl rfl) (fun _ => rfl) hfalse
  | win h1 =>
    obtain ⟨idle, hq, hcount, -⟩ := hi.word
    rw [hq, ← queueWord_zero, queueWord_inj hlt (by omega)] at h1
    have hnone : ∀ d ∈ s.node.calls, d.snapshot = none := by
      intro d hd
      refine Option.eq_none_iff_forall_ne_some.2 fun v hv => ?_
      have := owes_of_snapshot hv
      have := le_weight owes hd
      simp only [Node.queueLen] at h1
      omega
    refine ⟨k.level, ⟨h.prev_le, h.base_le, h.prev_level, h.level_le,
      forall_mem_set h.fits ⟨hno, hno, hno, hno⟩, fun _ _ _ => forall_mem_set hnone rfl⟩,
      .inl rfl⟩
  | readActive _ =>
    refine hkeep rfl ⟨hno, ?_, hno, hno⟩ id fun _ => rfl
    rintro a ha
    cases ha
    have := h.base_le.1
    omega
  | readFinish _ =>
    obtain ⟨hun, hother⟩ := hi.winner_unique hc rfl
    refine ⟨s.node.epoch.finished.toNat, h.report (fun j d hij hd => ⟨?_, hother j d hij hd⟩)
      ⟨hno, hno, ?_, hno⟩ rfl ?_ hfin.le, .inr ⟨hun, rfl⟩⟩
    · exact h.reading _ hmem rfl d (mem_of_getElem? hd)
    · rintro f hf
      cases hf
      exact ⟨rfl, by simp only [hfin]; exact h.base_le.2⟩
    · rw [hfin]
      exact h.prev_level.trans h.level_le
  | thenFinish a =>
    obtain ⟨hun, hother⟩ := hi.winner_unique hc rfl
    obtain ⟨hb, ha⟩ := hfits.readsActive a rfl
    refine ⟨s.node.epoch.finished.toNat, h.report (fun j d hij hd => ⟨?_, hother j d hij hd⟩)
      ⟨hno, hno, hno, ?_⟩ rfl ?_ hfin.le, .inr ⟨hun, rfl⟩⟩
    · exact h.reading _ hmem rfl d (mem_of_getElem? hd)
    · rintro v hv
      cases hv
      exact ⟨ha, rfl, .inr ⟨hb, by simp only [hfin]; exact h.base_le.2⟩⟩
    · rw [hfin]
      exact h.prev_level.trans h.level_le
  | thenActive f =>
    obtain ⟨hf, hb⟩ := hfits.readsFinish f rfl
    refine hkeep rfl ⟨hno, hno, hno, ?_⟩ id hfalse
    rintro v hv
    cases hv
    exact ⟨hact.le, hf, .inr ⟨by simp only [hact]; exact h.base_le.1, hb⟩⟩
  | bothRead a f =>
    obtain ⟨hf, hb⟩ := hfits.readsFinish f rfl
    obtain ⟨hb', ha⟩ := hfits.readsActive a rfl
    refine hkeep rfl ⟨hno, hno, hno, ?_⟩ id hfalse
    rintro v hv
    cases hv
    exact ⟨ha, hf, .inr ⟨hb', hb⟩⟩

end Step

end Arts
