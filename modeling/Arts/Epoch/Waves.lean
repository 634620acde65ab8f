import Arts.Epoch.Confirm
import Arts.Epoch.Snapshot
import Arts.Epoch.Wiring

/-!
# Two rounds of reports

`Waves` has for every rank the counts now, the previous report and the counts when the round was
opened (`base`). `Sound` is what is known until two rounds agree; `Safe` adds that it was not
quiescent.
-/

namespace Arts

open List Function Arts.System Links

/-- The counts of all ranks: now, as reported in the previous round, and when the current round
was opened. Counts are pairs of the activated and the finished EDTs. -/
structure Waves (p : Layout) where
  counts : p.Rank → ℕ × ℕ
  prev : p.Rank → ℕ × ℕ
  base : p.Rank → ℕ × ℕ
  /-- The finished count of the latest report of a rank. -/
  level : p.Rank → ℕ

def Waves.cut {p : Layout} (w : Waves p) (r : p.Rank) : Cut := ⟨w.prev r, w.base r, w.level r⟩

/-- The component of a pair of counts. -/
def Side.of (k : Side) (v : ℕ × ℕ) : ℕ :=
  match k with
  | .active => v.1
  | .finish => v.2

variable {p : Layout}

/-- The report of a rank that the owner has received in this round. -/
def Links.report (l : Links p) (r : p.Rank) : ℕ × ℕ :=
  match l.got r with
  | none => 0
  | some v => (v.1.toNat, v.2.toNat)

/-- The totals of a round that are equal and not zero: the reports of the other ranks and counts
that the owner had in this round. -/
def Balanced (l : Links p) (w : Waves p) (ta tf : UInt32) : Prop :=
  ta = tf ∧ tf ≠ 0 ∧ ∃ own, w.base p.origin ≤ own ∧ own ≤ w.counts p.origin ∧
    ((ta.toNat, tf.toNat) : ℕ × ℕ) = ∑ r, update l.report p.origin own r

/-- The records hold the counts, and the counts are the EDTs of the history. -/
structure Tally (s : System p EdtGuid) (w : Waves p) : Prop where
  packed : ∀ r, (s.node r).epoch.epochCounts = packed (w.counts r).1 (w.counts r).2
  sum : ∑ r, w.counts r = (s.history.activated.length, s.history.finished.length)
  few : s.history.activated.length < 2 ^ 32

/-- What is known about a rank that does not own the epoch. -/
structure RankSafe (calls : List (Call EdtGuid)) (sends : List (UInt32 × UInt32))
    (got : Option (UInt32 × UInt32)) (counts : ℕ × ℕ) (k : Cut) : Prop where
  snap : Snap calls counts k
  sends : ∀ v ∈ sends, k.Good counts v
  got : ∀ v, got = some v → k.Good counts v

/-- What is known about the owner before the epoch is quiescent. -/
structure OwnerSafe (n : Node EdtGuid) (l : Links p) (w : Waves p) : Prop where
  present : n.present = true
  self : l.got p.origin = none
  heard : ∀ k : Side, (l.heard.map k.count).sum = ∑ r, k.of (l.report r)
  single : weight Call.handling n.calls ≤ 1
  late : ∀ (k : Side) (i : ℕ) (c : Call EdtGuid), n.calls[i]? = some c →
    (c.partialTotal k).isSome = true ∨ (c.fullTotal k).isSome = true → (l.log k).late i = 0
  own : ∀ (k : Side), ∀ c ∈ n.calls, (c.fullTotal k).isSome = true →
    k.of (w.base p.origin) ≤ (l.own k).toNat ∧ (l.own k).toNat ≤ k.of (w.counts p.origin)
  prev_le : w.prev p.origin ≤ w.base p.origin
  base_le : w.base p.origin ≤ w.counts p.origin
  stage : ∀ c ∈ n.calls, c.Stage n.epoch (Balanced l w)
  phase : n.epoch.phase ≠ .phase3
  idle : n.epoch.outstanding.toNat = 0 → n.epoch.phase = .phase1
  last : n.epoch.phase = .phase2 → (∀ c ∈ n.calls, c.recording = false) →
    ((n.epoch.lastActiveCount.toNat, n.epoch.lastFinishedCount.toNat) : ℕ × ℕ) = ∑ r, w.prev r

/-- What is known about the system before the epoch is quiescent. -/
structure Safe (s : System p EdtGuid) (l : Links p) (w : Waves p) : Prop where
  tally : Tally s w
  rank : ∀ r, r ≠ p.origin →
    RankSafe (s.node r).calls (s.sends r) (l.got r) (w.counts r) (w.cut r)
  owner : OwnerSafe (s.node p.origin) l w
  fresh : (∑ r, w.base r).2 ≠ 0 → (∑ r, w.base r).1 ≠ (∑ r, w.base r).2

/-- What is known about the system until the totals of two rounds agree. -/
structure Sound (s : System p EdtGuid) (l : Links p) (w : Waves p) : Prop where
  tally : Tally s w
  rank : ∀ r, r ≠ p.origin →
    RankSafe (s.node r).calls (s.sends r) (l.got r) (w.counts r) (w.cut r)
  owner : OwnerSafe (s.node p.origin) l w

variable {l : Links p} {w : Waves p}

lemma Safe.sound {s : System p EdtGuid} (h : Safe s l w) : Sound s l w :=
  { h with }

/-! ### Sums of counts -/

lemma Side.of_sum (k : Side) (f : p.Rank → ℕ × ℕ) : k.of (∑ r, f r) = ∑ r, k.of (f r) := by
  cases k
  · exact Prod.fst_sum ..
  · exact Prod.snd_sum ..

lemma Side.of_le (k : Side) {u v : ℕ × ℕ} (h : u ≤ v) : k.of u ≤ k.of v := by
  cases k
  · exact h.1
  · exact h.2

lemma counts_le_sum (f : p.Rank → ℕ × ℕ) (r : p.Rank) : f r ≤ ∑ q, f q :=
  Finset.single_le_sum (fun q _ => (⟨Nat.zero_le _, Nat.zero_le _⟩ : (0, 0) ≤ f q))
    (Finset.mem_univ r)

section Totals

variable {s : System p EdtGuid} {l : Links p} {w : Waves p}

lemma Tally.holds (h : Tally s w)
    (hle : s.history.finished.length ≤ s.history.activated.length) (r : p.Rank) :
    (s.node r).epoch.Holds (w.counts r) := by
  have hsum := counts_le_sum w.counts r
  rw [h.sum] at hsum
  have hfew := h.few
  exact ⟨h.packed r, hsum.1.trans_lt hfew, (hsum.2.trans hle).trans_lt hfew⟩

variable {r : p.Rank}

lemma Links.report_of_got {v : UInt32 × UInt32} (h : l.got r = some v) :
    l.report r = (v.1.toNat, v.2.toNat) := by
  simp [report, h]

lemma Links.report_of_none (h : l.got r = none) : l.report r = 0 := by
  simp [report, h]

lemma Links.exists_got (h : l.received r = 1) : ∃ v, l.got r = some v := by
  refine Option.isSome_iff_exists.1 ?_
  by_contra hne
  simp [received, hne] at h

lemma Sound.report_le (h : Sound s l w) (r : p.Rank) : l.report r ≤ w.counts r := by
  cases hgot : l.got r with
  | none =>
    rw [report_of_none hgot]
    exact ⟨Nat.zero_le _, Nat.zero_le _⟩
  | some v =>
    have hr : r ≠ p.origin := by
      rintro rfl
      rw [h.owner.self] at hgot
      cases hgot
    obtain ⟨ha, hf, -⟩ := (h.rank r hr).got v hgot
    rw [report_of_got hgot]
    exact ⟨ha, hf.le.trans (h.rank r hr).snap.level_le⟩

lemma Sound.sum_update_le (h : Sound s l w) {own : ℕ × ℕ} (hown : own ≤ w.counts p.origin) :
    ∑ r, update l.report p.origin own r ≤ ∑ r, w.counts r := by
  refine Finset.sum_le_sum fun r _ => ?_
  by_cases hr : r = p.origin
  · subst hr
    rwa [update_self]
  · rw [update_of_ne hr]
    exact h.report_le r

variable {ta : UInt32}

/-- **Complete totals**: the sums of the reports and of counts that the owner had in this round. -/
theorem Sound.balanced_of_check (h : Sound s l w) (hw : Wiring s l)
    (hle : s.history.finished.length ≤ s.history.activated.length) {i : ℕ} {a f : UInt32}
    (hc : (s.node p.origin).calls[i]? = some (.reduce a f (.check ta ta))) (h0 : ta ≠ 0) :
    Balanced l w ta ta := by
  have hmem := mem_of_getElem? hc
  have hclosing := hw.round.tokens.closing
  have hlec := le_weight_of_getElem? Call.closing hc
  have hone : (Call.reduce a f (.check ta ta) : Call EdtGuid).closing = 1 := rfl
  obtain ⟨lost, -, hacc⟩ := hw.round.tokens.account
  have hans := hw.round.tokens.answered
  simp only [Links.round] at hclosing hacc hans
  have hunits : ∀ d ∈ (s.node p.origin).calls, d.units (p.config p.origin) = 0 :=
    weight_eq_zero.1 (by omega)
  have hfull : ∀ k : Side,
      (Call.reduce a f (.check ta ta) : Call EdtGuid).fullTotal k = some ta := fun k => by
    cases k <;> rfl
  have hown : ∀ k : Side, _ := fun k => h.owner.own k _ hmem (by rw [hfull k]; rfl)
  -- every reply was added before the closing call read the owner's counts
  have htotal : ∀ k : Side,
      ta.toNat = (k.of (∑ r, l.report r) + (l.own k).toNat) % 2 ^ 32 := by
    intro k
    have hlate := h.owner.late k i _ hc (.inr (by rw [hfull k]; rfl))
    have hlogged := (hw.round.side k).logged
    simp only [Links.round] at hlogged
    rw [weight_eq_zero.2 fun d hd => Call.unadded_eq_zero (hunits d hd)] at hlogged
    have hsplit := AddLog.late_add_upTo (l.log k) i
    have hheard := h.owner.heard k
    have hta := (hw.round.side k).fullTotal i _ ta hc (hfull k)
    simp only [Links.round, Round.repliesTotal] at hlogged hta
    rw [hta, Side.of_sum, ← hheard]
    omega
  let own : ℕ × ℕ := ((l.own .active).toNat, (l.own .finish).toNat)
  have hown_le : own ≤ w.counts p.origin := ⟨(hown .active).2, (hown .finish).2⟩
  have hupdate : ∑ r, update l.report p.origin own r = ∑ r, l.report r + own := by
    have := TwoWave.sum_add_of_ne (f := update l.report p.origin own)
      fun r hr => update_of_ne hr _ _
    rwa [report_of_none h.owner.self, add_zero, update_self] at this
  have hsum := h.sum_update_le hown_le
  rw [hupdate, h.tally.sum] at hsum
  have hfew := h.tally.few
  have h1 := hsum.1
  have h2 := hsum.2
  have ha := htotal .active
  have hf := htotal .finish
  simp only [Prod.fst_add, Prod.snd_add, Side.of, own] at h1 h2 ha hf
  refine ⟨rfl, h0, own, ⟨(hown .active).1, (hown .finish).1⟩, hown_le, ?_⟩
  rw [hupdate]
  refine Prod.ext ?_ ?_
  · simp only [Prod.fst_add, own]
    omega
  · simp only [Prod.snd_add, own]
    omega

/-- **Two equal rounds**: every rank has reported the counts that it had when the round was opened.
-/
theorem Sound.base_eq (h : Sound s l w) (hw : Wiring s l)
    (hone : (s.node p.origin).epoch.outstanding.toNat = 1) {tf : UInt32}
    (hb : Balanced l w ta tf)
    (hlast : ((ta.toNat, tf.toNat) : ℕ × ℕ) = ∑ r, w.prev r) :
    ta = tf ∧ tf ≠ 0 ∧ ∑ r, w.base r = (ta.toNat, tf.toNat) ∧
      ∀ r, r ≠ p.origin → ∃ v, l.got r = some v ∧ w.base r = (v.1.toNat, v.2.toNat) := by
  obtain ⟨rfl, h0, own, hbase, hown, hsum⟩ := hb
  have hreport : ∀ r, r ≠ p.origin → ∃ v, l.got r = some v ∧
      l.report r = (v.1.toNat, v.2.toNat) ∧ (w.cut r).Good (w.counts r) v := by
    intro r hr
    obtain ⟨v, hv⟩ := exists_got (hw.all_received hone hr).2.2
    exact ⟨v, hv, report_of_got hv, (h.rank r hr).got v hv⟩
  have heq : ∀ r, w.base r = update l.report p.origin own r :=
    TwoWave.eq_of_sum_eq (fun r => ?_) (fun r => ?_) (fun r => ?_) (hlast.symm.trans hsum)
  · refine ⟨rfl, h0, ?_, fun r hr => ?_⟩
    · rw [hsum]
      exact Finset.sum_congr rfl fun r _ => heq r
    · obtain ⟨v, hv, hrep, -⟩ := hreport r hr
      exact ⟨v, hv, by rw [heq r, update_of_ne hr, hrep]⟩
  · by_cases hr : r = p.origin
    · subst hr
      exact h.owner.prev_le
    · exact (h.rank r hr).snap.prev_le
  · by_cases hr : r = p.origin
    · subst hr
      rw [update_self]
      exact h.owner.prev_le.2.trans hbase.2
    · obtain ⟨v, -, hv, -, hf, -⟩ := hreport r hr
      rw [update_of_ne hr, hv, hf]
      exact (h.rank r hr).snap.prev_level
  · by_cases hr : r = p.origin
    · subst hr
      rw [update_self]
      exact .inr hbase
    · obtain ⟨v, -, hv, -, hf, hgood⟩ := hreport r hr
      rw [update_of_ne hr, hv, hf]
      exact hgood.imp id fun hb => ⟨hb.1, hb.2⟩

end Totals

/-! ### Moves -/

/-- What an event does to the reports and to the rounds. -/
inductive Moves (s : System p EdtGuid) (l : Links p) (w : Waves p) (e : System.Event p EdtGuid)
    (l' : Links p) (w' : Waves p) : Prop
  /-- The round goes on; a report can arrive at the owner. -/
  | stays (counts : ∀ r, w.counts r ≤ w'.counts r)
      (published : ∀ r i ff, e = .step r i ff → ∀ c ∈ (s.node r).calls[i]?,
        (w.counts r).2 + c.unpublished ≤ (w'.counts r).2)
      (base : w'.base = w.base)
      (got : ∀ r v, l'.got r = some v →
        l.got r = some v ∨ ∃ k, e = .deliverSend r k ∧ (s.sends r)[k]? = some v)
      (calm : ∀ i ff, e = .step p.origin i ff →
        ∀ c ∈ (s.node p.origin).calls[i]?, c.opensRound (s.node p.origin).epoch = false)
  /-- A call of the owner opens a round, which is compared with the counts at this moment. -/
  | opens (i : ℕ) (ff : Bool) (c : Call EdtGuid) (event : e = .step p.origin i ff)
      (call : (s.node p.origin).calls[i]? = some c)
      (opening : c.opensRound (s.node p.origin).epoch = true)
      (counts : w'.counts = w.counts) (base : w'.base = w.counts)
      (got : ∀ r, l'.got r = none)

variable {l' : Links p} {w' : Waves p}

/-- The system after an event that keeps the invariant. -/
def Kept (s : System p EdtGuid) (l : Links p) (w : Waves p) (e : System.Event p EdtGuid)
    (s' : System p EdtGuid) : Prop :=
  ∃ l' w', Wiring s' l' ∧ Sound s' l' w' ∧ Moves s l w e l' w'

section Moves

variable {s s' : System p EdtGuid} {l l' : Links p} {w w' : Waves p}
  {e : System.Event p EdtGuid}

lemma Moves.counts_le (h : Moves s l w e l' w') (r : p.Rank) : w.counts r ≤ w'.counts r := by
  cases h with
  | stays counts => exact counts r
  | opens i ff c _ _ _ counts => rw [counts]

lemma Moves.published_lt (h : Moves s l w e l' w') {r : p.Rank} {i : ℕ} {ff : Bool}
    {c : Call EdtGuid} (he : e = .step r i ff) (hc : (s.node r).calls[i]? = some c)
    (hone : c.unpublished = 1) : (w.counts r).2 < (w'.counts r).2 := by
  cases h with
  | stays _ published =>
    have := published r i ff he c hc
    omega
  | opens j gg d event call opening =>
    subst he
    cases event
    rw [hc] at call
    cases call
    have := (Call.confirms_of_opens p.isOwner ff opening).2.1
    omega

lemma Moves.of_got (hcounts : ∀ r, w.counts r ≤ w'.counts r) (hbase : w'.base = w.base)
    (hgot : l'.got = l.got) (he : ∀ r i ff, e ≠ .step r i ff) : Moves s l w e l' w' :=
  .stays hcounts (fun r i ff heq => absurd heq (he r i ff)) hbase
    (fun r v hv => .inl (by rwa [← hgot])) fun i ff heq => absurd heq (he _ i ff)

end Moves

/-! ### Ranks that do not own the epoch -/

lemma Balanced.mono {ta tf : UInt32} (h : Balanced l w ta tf)
    (hgot : l'.got = l.got) (hbase : w'.base = w.base)
    (hle : w.counts p.origin ≤ w'.counts p.origin) : Balanced l' w' ta tf := by
  obtain ⟨heq, h0, own, hb, ho, hsum⟩ := h
  have hreport : l'.report = l.report := by
    funext r
    simp [report, hgot]
  exact ⟨heq, h0, own, by rwa [hbase], ho.trans hle, by rwa [hreport]⟩

lemma OwnerSafe.mono {n : Node EdtGuid} (h : OwnerSafe n l w)
    (hgot : l'.got = l.got) (hheard : l'.heard = l.heard) (hlog : l'.log = l.log)
    (hown : l'.own = l.own) (hprev : w'.prev = w.prev) (hbase : w'.base = w.base)
    (hle : w.counts p.origin ≤ w'.counts p.origin) : OwnerSafe n l' w' := by
  refine ⟨h.present, by rw [hgot]; exact h.self, ?_, h.single, by rw [hlog]; exact h.late, ?_,
    by rw [hprev, hbase]; exact h.prev_le, by rw [hbase]; exact h.base_le.trans hle, ?_, h.phase,
    h.idle, by rw [hprev]; exact h.last⟩
  · intro k
    simp only [hheard, report, hgot]
    exact h.heard k
  · intro k c hc hf
    obtain ⟨hb, ho⟩ := h.own k c hc hf
    rw [hown, hbase]
    exact ⟨hb, ho.trans (k.of_le hle)⟩
  · exact fun c hc => (h.stage c hc).congr ⟨rfl, rfl, rfl⟩ fun ta tf hb => hb.mono hgot hbase hle

lemma RankSafe.mono {calls : List (Call EdtGuid)} {sends : List (UInt32 × UInt32)}
    {got : Option (UInt32 × UInt32)} {counts counts' : ℕ × ℕ} {k : Cut}
    (h : RankSafe calls sends got counts k) (hle : counts ≤ counts') :
    RankSafe calls sends got counts' k :=
  ⟨h.snap.mono hle, fun v hv => (h.sends v hv).mono hle, fun v hv => (h.got v hv).mono hle⟩

section Step

variable {s s' : System p EdtGuid} {l : Links p} {w : Waves p} {r : p.Rank}

/-- The counts after an event on rank `r`. -/
def Waves.grow (w : Waves p) (r : p.Rank) (counts : ℕ × ℕ) : Waves p :=
  { w with counts := update w.counts r counts }

variable {counts : ℕ × ℕ}

lemma Waves.le_grow (hle : w.counts r ≤ counts) (q : p.Rank) :
    w.counts q ≤ (w.grow r counts).counts q := by
  by_cases hq : q = r
  · subst hq
    simpa [Waves.grow] using hle
  · simp [Waves.grow, hq]

variable {i : ℕ} {ff : Bool} {c : Call EdtGuid}

lemma Moves.step {l' : Links p} {level : p.Rank → ℕ}
    (hc : (s.node r).calls[i]? = some c) (hgot : l'.got = l.got)
    (hno : r = p.origin → c.opensRound (s.node p.origin).epoch = false) :
    Moves s l w (.step r i ff) l'
      { w.grow r ((w.counts r).1, (w.counts r).2 + c.unpublished) with level } := by
  refine .stays (w.le_grow ⟨le_rfl, Nat.le_add_right _ _⟩) ?_ rfl
    (fun q v hv => .inl (by rwa [← hgot])) ?_
  · rintro q j gg he d hd
    cases he
    rw [hc] at hd
    cases hd
    simp [Waves.grow]
  · rintro j gg he d hd
    cases he
    rw [hc] at hd
    cases hd
    exact hno rfl

variable {n : Node EdtGuid}

/-- An event on rank `r` that changes the history as it changes the counts of that rank. -/
theorem Tally.grow (h : Tally s w) (hnode : s'.node = update s.node r n)
    (hpacked : n.epoch.epochCounts = Arts.packed counts.1 counts.2)
    (hact : s'.history.activated.length + (w.counts r).1 = s.history.activated.length + counts.1)
    (hfin : s'.history.finished.length + (w.counts r).2 = s.history.finished.length + counts.2)
    (hfew : s'.history.activated.length < 2 ^ 32) : Tally s' (w.grow r counts) := by
  refine ⟨fun q => ?_, ?_, hfew⟩
  · by_cases hq : q = r
    · subst hq
      simpa [hnode, Waves.grow] using hpacked
    · simpa [hnode, Waves.grow, hq] using h.packed q
  · have hadd := TwoWave.sum_add_of_ne (f := (w.grow r counts).counts)
      fun q hq => update_of_ne hq _ _
    have hself : (w.grow r counts).counts r = counts := update_self ..
    rw [h.sum, hself] at hadd
    obtain ⟨h1, h2⟩ := Prod.ext_iff.1 hadd
    simp only [Prod.fst_add, Prod.snd_add] at h1 h2
    exact Prod.ext (by simp only; omega) (by simp only; omega)

lemma Sound.onOther (h : Sound s l w) (hr : r ≠ p.origin) (counts : ℕ × ℕ) (level : ℕ) {a : Act EdtGuid} {out : Option Out}
    (hnode : s'.node = update s.node r n) (hsends : ∀ q, q ≠ r → s'.sends q = s.sends q)
    (htally : Tally s' (w.grow r counts))
    (hrank : RankSafe n.calls (s'.sends r) (l.got r) counts ⟨w.prev r, w.base r, level⟩) :
    Sound s' (l.onOther r a out)
      { w.grow r counts with level := update w.level r level } := by
  refine ⟨{ htally with }, fun q hq => ?_, ?_⟩
  · by_cases hqr : q = r
    · subst hqr
      simpa [hnode, Waves.cut, Waves.grow, onOther] using hrank
    · have := h.rank q hq
      simpa [hnode, hqr, Waves.cut, Waves.grow, Links.onOther, hsends q hqr] using this
  · rw [hnode, update_of_ne hr.symm]
    refine h.owner.mono rfl rfl rfl rfl rfl rfl ?_
    simp [Waves.grow, hr.symm]

variable {edt : EdtGuid}

lemma Sound.activate_other (h : Sound s l w) (hw : Wiring s l) (hr : r ≠ p.origin) (hfew : s.history.activated.length + 1 < 2 ^ 32)
    (hst : s.next (.activate r edt) = some s') : Kept s l w (.activate r edt) s' := by
  obtain ⟨-, rfl⟩ := next_activate.1 hst
  refine ⟨_, _, hw.onOther hr (a := .activate) trivial rfl rfl (fun _ _ => rfl) rfl
    (fun _ _ => rfl) rfl, h.onOther hr ((w.counts r).1 + 1, (w.counts r).2)
    (w.level r) rfl (fun _ _ => rfl) (h.tally.grow rfl ?_ ?_ rfl hfew) ?_,
    .of_got (w.le_grow ⟨Nat.le_succ _, le_rfl⟩) rfl rfl nofun⟩
  · rw [Node.activate_epoch (hw.present hr)]
    simp [h.tally.packed r, packed_activate]
  · simp only [length_cons]
    omega
  · rw [Node.activate_calls]
    exact (h.rank r hr).mono ⟨Nat.le_succ _, le_rfl⟩

lemma Sound.enqueue_other (h : Sound s l w) (hw : Wiring s l) (hr : r ≠ p.origin) (hst : s.next (.enqueue r edt) = some s') :
    Kept s l w (.enqueue r edt) s' := by
  obtain ⟨-, hnew, rfl⟩ := next_enqueue.1 hst
  refine ⟨_, _, hw.onOther hr (a := .enqueue edt) trivial (Node.next_enqueue.2 ⟨hnew, rfl, rfl⟩)
    rfl (fun _ _ => rfl) rfl (fun _ _ => rfl) rfl, h.onOther hr (w.counts r)
    (w.level r) rfl (fun _ _ => rfl) (h.tally.grow rfl ?_ rfl rfl h.tally.few)
    (h.rank r hr), .of_got (w.le_grow le_rfl) rfl rfl nofun⟩
  rw [Node.enqueue_epochCounts]
  exact h.tally.packed r

lemma RankSafe.start {calls : List (Call EdtGuid)} {sends : List (UInt32 × UInt32)}
    {got : Option (UInt32 × UInt32)} {k : Cut}
    (h : RankSafe calls sends got counts k) (hs : c.snapshot = none)
    (hw : c.winner = 0) : RankSafe (calls ++ [c]) sends got counts k :=
  ⟨h.snap.start hs hw, h.sends, h.got⟩

lemma Sound.finish_other (h : Sound s l w) (hw : Wiring s l) (hr : r ≠ p.origin) (hst : s.next (.finish r edt) = some s') :
    Kept s l w (.finish r edt) s' := by
  obtain ⟨hmem, rfl⟩ := next_finish.1 hst
  refine ⟨_, _, hw.onOther hr (a := .finish edt) trivial (Node.next_finish.2 ⟨hmem, rfl, rfl⟩)
    rfl (fun _ _ => rfl) rfl (fun _ _ => rfl) rfl, h.onOther hr (w.counts r)
    (w.level r) rfl (fun _ _ => rfl) (h.tally.grow rfl (h.tally.packed r) rfl rfl
    h.tally.few) ?_, .of_got (w.le_grow le_rfl) rfl rfl nofun⟩
  rw [Node.finish_calls (hw.present hr)]
  exact (h.rank r hr).start rfl rfl

lemma Sound.request_other (h : Sound s l w) (hw : Wiring s l) (hr : r ≠ p.origin)
    (hst : s.next (.deliverReq r) = some s') : Kept s l w (.deliverReq r) s' := by
  obtain ⟨hpos, rfl⟩ := next_deliverReq.1 hst
  have hadm : l.handled r = l.answered r := by
    obtain ⟨idle, -, hcount, -⟩ := (hw.served r hr).word
    have htoken := hw.token r hr
    simp only [flight, served] at htoken hcount
    omega
  refine ⟨_, _, hw.onOther hr (a := .request) hadm rfl rfl (fun q hq => ?_) ?_ (fun _ _ => rfl)
    rfl, h.onOther hr (w.counts r) (w.level r) rfl (fun _ _ => rfl)
    (h.tally.grow rfl (h.tally.packed r) rfl rfl h.tally.few) ?_, .of_got (w.le_grow le_rfl) rfl rfl (by simp)⟩
  · simp [hq]
  · simp only [update_self, Served.countRequest]
    omega
  · rw [Node.start_calls (hw.present hr)]
    exact (h.rank r hr).start rfl rfl

/-- A step of a call. It fixes a new report only while no report of the round is under way. -/
theorem Sound.step_other (h : Sound s l w) (hw : Wiring s l) (hr : r ≠ p.origin)
    (hle : s.history.finished.length ≤ s.history.activated.length)
    (hpub : ∀ c, (s.node r).calls[i]? = some c → c.unpublished = 1 →
      (∀ d ∈ (s.node r).calls, d.reading = false) ∧
        s.history.finished.length < s.history.activated.length)
    (hst : s.next (.step r i ff) = some s') : Kept s l w (.step r i ff) s' := by
  obtain ⟨c, hc, hd, rfl⟩ := next_step.1 hst
  have hi := hw.served r hr
  have hrank := h.rank r hr
  have hother := Call.otherStep_step (p.isOther hr) ff (s.node r).epoch
    (hi.onOther c (mem_of_getElem? hc)) hd
  have hholds := h.tally.holds hle r
  have hcounts := counts_le_sum w.counts r
  rw [h.tally.sum] at hcounts
  obtain ⟨level, hsnap, hlevel⟩ := hrank.snap.otherStep hi hholds hc hother fun hone => by
    obtain ⟨hread, hlt⟩ := hpub c hc hone
    have hfin : (w.counts r).2 ≤ s.history.finished.length := hcounts.2
    have hfew := h.tally.few
    exact ⟨hread, by omega⟩
  have hle' : w.counts r ≤ ((w.counts r).1, (w.counts r).2 + c.unpublished) :=
    ⟨le_rfl, Nat.le_add_right _ _⟩
  refine ⟨_, _, hw.onOther hr (a := .step i ff) trivial (Node.next_step.2 ⟨c, hc, hd, rfl, rfl⟩)
    emit_node (fun q hq => ?_) ?_ (fun q hq => emit_sends_of_ne hq)
    emit_sends_length, h.onOther hr
    ((w.counts r).1, (w.counts r).2 + c.unpublished) level emit_node
    (fun q hq => emit_sends_of_ne hq)
    (h.tally.grow emit_node (Call.packed_step _ ff c (h.tally.packed r)) ?_ ?_ ?_)
    ⟨hsnap, fun v hv => ?_, fun v hv => ?_⟩, .step hc rfl fun he => absurd he hr⟩
  · rw [emit_reqs hother.countRequest_eq]
  · rw [emit_reqs hother.countRequest_eq]
    rfl
  · simp
  · simp only [emit_history, History.length_finished_publish]
    omega
  · simpa using h.tally.few
  · rcases hlevel with rfl | ⟨hun, hnone⟩
    · rcases mem_emit_sends hv with hv | hout
      · exact (hrank.sends v hv).mono hle'
      · rw [hout] at hother
        exact ((hrank.snap.fits c (mem_of_getElem? hc)).reply v hother.reply_eq).mono hle'
    · rw [hnone] at hv
      have hv : v ∈ s.sends r := hv
      rw [(hw.unreported hr hun).1] at hv
      cases hv
  · rcases hlevel with rfl | ⟨hun, -⟩
    · exact (hrank.got v hv).mono hle'
    · rw [(hw.unreported hr hun).2] at hv
      cases hv

end Step

end Arts
