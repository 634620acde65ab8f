import Arts.Epoch.Waves

/-!
# Safety of the termination detection

In `PHASE_3` all activated EDTs have finished (`terminated_of_phase3`), unless a worker publishes
its finish while a handler has won the right to answer and has not read the count
(`confirmed_too_early`).
-/


namespace Arts

open List Function Option Links Call Arts.System EdtGuid

variable {p : Layout}

section Step

variable {s s' : System p EdtGuid} {l : Links p} {w : Waves p} {r : p.Rank}

/-! ### The owner -/

lemma OwnerSafe.congr {n : Node EdtGuid} (h : OwnerSafe n l w) (n' : Node EdtGuid)
    (hcalls : n'.calls = n.calls) (hpres : n'.present = n.present)
    (hout : n'.epoch.outstanding = n.epoch.outstanding) (he : Confirms n.epoch n'.epoch) :
    OwnerSafe n' l w := by
  refine ⟨by rw [hpres]; exact h.present, h.self, h.heard, by rw [hcalls]; exact h.single,
    by rw [hcalls]; exact h.late, by rw [hcalls]; exact h.own, h.prev_le, h.base_le, ?_,
    by rw [he.1]; exact h.phase, by rw [hout, he.1]; exact h.idle, ?_⟩
  · rw [hcalls]
    exact fun c hc => (h.stage c hc).congr he fun _ _ => id
  · rw [he.1, he.2.1, he.2.2, hcalls]
    exact h.last

lemma OwnerSafe.start {n : Node EdtGuid} (h : OwnerSafe n l w) (n' : Node EdtGuid)
    {l' : Links p} {c : Call EdtGuid} (hcalls : n'.calls = n.calls ++ [c])
    (hpres : n'.present = n.present) (he : n'.epoch = n.epoch) (hlog : l'.log = l.log)
    (hown : l'.own = l.own) (hself : l'.got p.origin = none)
    (hheard : ∀ k : Side, (l'.heard.map k.count).sum = ∑ r, k.of (l'.report r))
    (hp : ∀ k, c.partialTotal k = none) (hf : ∀ k, c.fullTotal k = none)
    (hsingle : weight handling n'.calls ≤ 1)
    (hstage : ∀ d ∈ n'.calls, d.Stage n.epoch (Balanced l' w)) : OwnerSafe n' l' w := by
  refine ⟨by rw [hpres]; exact h.present, hself, hheard, hsingle, ?_, ?_, h.prev_le, h.base_le,
    by rw [he]; exact hstage, by rw [he]; exact h.phase, by rw [he]; exact h.idle, ?_⟩
  · intro k i d hd htot
    rw [hcalls, getElem?_append] at hd
    rw [hlog]
    split_ifs at hd
    · exact h.late k i d hd htot
    · rw [mem_singleton.1 (mem_of_getElem? hd), hp, hf] at htot
      simp at htot
  · rw [hcalls, hown]
    exact fun k => forall_mem_append_singleton (h.own k) fun hc => by simp [hf] at hc
  · rw [hcalls, he]
    exact fun h2 hrec => h.last h2 fun d hd => hrec d (mem_append_left _ hd)

lemma Sound.onOwner (h : Sound s l w) (counts : ℕ × ℕ) {n : Node EdtGuid} {l' : Links p}
    (hnode : s'.node = update s.node p.origin n)
    (hsends : ∀ q, q ≠ p.origin → s'.sends q = s.sends q) (hgot : l'.got = l.got)
    (htally : Tally s' (w.grow p.origin counts)) (howner : OwnerSafe n l' (w.grow p.origin counts)) :
    Sound s' l' (w.grow p.origin counts) := by
  refine ⟨htally, fun q hq => ?_, by rwa [hnode, update_self]⟩
  have := h.rank q hq
  simpa [hnode, hq, Waves.cut, Waves.grow, hsends q hq, hgot] using this

lemma OwnerSafe.grow {n : Node EdtGuid} (h : OwnerSafe n l w) (counts : ℕ × ℕ)
    (hle : w.counts p.origin ≤ counts) : OwnerSafe n l (w.grow p.origin counts) :=
  h.mono rfl rfl rfl rfl rfl rfl (by simpa [Waves.grow] using hle)

lemma Sound.activate_owner (h : Sound s l w) (hw : Wiring s l) {edt : EdtGuid}
    (hfew : s.history.activated.length + 1 < 2 ^ 32)
    (hst : s.next (.activate p.origin edt) = some s') : Kept s l w (.activate p.origin edt) s' := by
  obtain ⟨-, rfl⟩ := next_activate.1 hst
  have hpres := h.owner.present
  have hle : w.counts p.origin ≤ ((w.counts p.origin).1 + 1, (w.counts p.origin).2) :=
    ⟨Nat.le_succ _, le_rfl⟩
  have howner := (h.owner.congr ((s.node p.origin).activate) (by simp) (by simp) (by simp)
    (by simp [Node.activate_epoch hpres, Confirms])).grow _ hle
  refine ⟨_, _, hw.local_owner (a := .activate) ?_ rfl rfl rfl (by simp) (by simp),
    h.onOwner ((w.counts p.origin).1 + 1, (w.counts p.origin).2) rfl (fun _ _ => rfl) rfl
      (h.tally.grow rfl ?_ ?_ rfl hfew) howner, .of_got (w.le_grow hle) rfl rfl nofun⟩
  · rfl
  · rw [Node.activate_epoch hpres]
    simp [h.tally.packed p.origin, packed_activate]
  · simp only [length_cons]
    omega

lemma Sound.enqueue_owner (h : Sound s l w) (hw : Wiring s l) {edt : EdtGuid}
    (hst : s.next (.enqueue p.origin edt) = some s') : Kept s l w (.enqueue p.origin edt) s' := by
  obtain ⟨-, hnew, rfl⟩ := next_enqueue.1 hst
  have hpres := h.owner.present
  have howner := (h.owner.congr ((s.node p.origin).enqueue edt) rfl rfl (by simp)
    (by simp [Node.enqueue_epoch hpres, Confirms])).grow _ le_rfl
  refine ⟨_, _, hw.local_owner (a := .enqueue edt) ?_ rfl rfl rfl (by simp) (by simp),
    h.onOwner _ rfl (fun _ _ => rfl) rfl (h.tally.grow rfl ?_ rfl rfl h.tally.few) howner,
    .of_got (w.le_grow le_rfl) rfl rfl nofun⟩
  · simp [Round.machine, Owner.next, Owner.Admits, Links.round, Node.next, hnew, Round.track,
      countRequest, Owner.countReply]
  · rw [Node.enqueue_epochCounts]
    exact h.tally.packed p.origin

lemma Sound.finish_owner (h : Sound s l w) (hw : Wiring s l) {edt : EdtGuid}
    (hst : s.next (.finish p.origin edt) = some s') : Kept s l w (.finish p.origin edt) s' := by
  obtain ⟨hmem, rfl⟩ := next_finish.1 hst
  have hcalls := Node.finish_calls h.owner.present edt
  have howner : OwnerSafe ((s.node p.origin).finish edt) l w := by
    refine h.owner.start _ hcalls rfl rfl rfl rfl h.owner.self h.owner.heard (fun _ => rfl)
      (fun _ => rfl) ?_ ?_
    · rw [hcalls]
      simpa [handling] using h.owner.single
    · rw [hcalls]
      exact forall_mem_append_singleton h.owner.stage trivial
  refine ⟨_, _, hw.local_owner (a := .finish edt) ?_ rfl rfl rfl rfl fun j => ?_,
    h.onOwner _ rfl (fun _ _ => rfl) rfl (h.tally.grow rfl (h.tally.packed p.origin) rfl rfl
    h.tally.few) (howner.grow _ le_rfl), .of_got (w.le_grow le_rfl) rfl rfl (by simp)⟩
  · simp [Round.machine, Owner.next, Owner.Admits, Links.round, Node.next, hmem, Round.track,
      countRequest, Owner.countReply]
  · simp [hcalls, toReq]

/-- The report of a rank arrives: the owner's thread is free, so the round is not being closed. -/
theorem Sound.receive (h : Sound s l w) (hw : Wiring s l) {k : ℕ}
    (hst : s.next (.deliverSend r k) = some s') : Kept s l w (.deliverSend r k) s' := by
  obtain ⟨v, hv, hfree, rfl⟩ := next_deliverSend.1 hst
  have hpres := h.owner.present
  have hcalls := Node.start_calls hpres (.reduce v.1 v.2 .test)
  have hrec : r ≠ p.origin ∧ l.got r = none ∧ Wiring { s with
      node := update s.node p.origin ((s.node p.origin).start (.reduce v.1 v.2 .test))
      sends := update s.sends r ((s.sends r).eraseIdx k) } (l.receive s r v) :=
    hw.receive hv rfl rfl rfl
  obtain ⟨hr, hnone, hw'⟩ := hrec
  have hself : (l.receive s r v).report r = (v.1.toNat, v.2.toNat) :=
    report_of_got (update_self ..)
  have hreport : ∀ q, q ≠ r → (l.receive s r v).report q = l.report q := fun q hq => by
    simp [report, receive, hq]
  -- no call is closing the round
  have hclosing : ∀ c ∈ (s.node p.origin).calls, c.closing = 0 := by
    refine weight_eq_zero.1 ?_
    have hsum := hw.round.tokens.closing
    simp only [Links.round] at hsum
    by_contra hne
    have := (hw.all_received (by omega) hr).2.1
    have hlt := (List.getElem?_eq_some_iff.1 hv).1
    simp only [flight] at this
    omega
  refine ⟨_, w, hw', ⟨⟨fun q => ?_, h.tally.sum, h.tally.few⟩, fun q hq => ?_, ?_⟩,
    .stays (fun _ => le_rfl) (by simp) rfl (fun q u hu => ?_) (by simp)⟩
  · by_cases hq : q = p.origin
    · subst hq
      simpa using h.tally.packed p.origin
    · simpa [hq] using h.tally.packed q
  · have hrank := h.rank q hq
    by_cases hqr : q = r
    · subst hqr
      simp only [update_self, update_of_ne hq, receive]
      refine ⟨hrank.snap, fun u hu => hrank.sends u (mem_of_mem_eraseIdx hu), fun u hu => ?_⟩
      cases hu
      exact hrank.sends v (mem_of_getElem? hv)
    · simpa [hq, hqr, receive] using hrank
  · simp only [update_self]
    refine h.owner.start _ hcalls rfl rfl rfl rfl ?_ (fun k => ?_) (fun k => by cases k <;> rfl)
      (fun k => by cases k <;> rfl) ?_ ?_
    · simpa [receive, hr.symm] using h.owner.self
    · have hsum := TwoWave.sum_add_of_ne (f := fun q => k.of ((l.receive s r v).report q))
        fun q hq => by rw [hreport q hq]
      have hheard := h.owner.heard k
      have hcons : (l.receive s r v).heard = v :: l.heard := by simp [receive, hpres]
      have hcount : k.of (v.1.toNat, v.2.toNat) = k.count v ∧ k.of (0 : ℕ × ℕ) = 0 := by
        cases k <;> exact ⟨rfl, rfl⟩
      rw [hself, report_of_none hnone, hcount.1, hcount.2] at hsum
      rw [hcons, map_cons, sum_cons, hheard]
      omega
    · rw [hcalls]
      simp [hfree, handling]
    · rw [hcalls]
      exact forall_mem_append_singleton
        (fun d hd => (h.owner.stage d hd).of_closing_eq_zero (hclosing d hd)) trivial
  · by_cases hqr : q = r
    · subst hqr
      simp only [receive, update_self] at hu
      exact .inr ⟨k, rfl, hu ▸ hv⟩
    · simp only [receive, update_of_ne hqr] at hu
      exact .inl hu

section OwnerStep

variable {i : ℕ} {ff : Bool} {c : Call EdtGuid}

/-- Only one reply is handled at a time, so no reply is added after one whose handling goes on. -/
theorem Sound.late_step (h : Sound s l w) (hw : Wiring s l)
    (hc : (s.node p.origin).calls[i]? = some c) {k : Side} {j : ℕ} {d : Call EdtGuid}
    (hd : ((s.node p.origin).calls.set i
      (c.step (p.config p.origin) ff (s.node p.origin).epoch).2.1)[j]? = some d)
    (htot : (d.partialTotal k).isSome = true ∨ (d.fullTotal k).isSome = true) :
    (c.logStep k i (l.log k)).late j = 0 := by
  have hmem := mem_of_getElem? hc
  have hside := sideStep_step k ff (s.node p.origin).epoch
    (hw.round.tokens.onOwner c hmem) (hw.round.noUndo c hmem)
    (hw.round.tokens.two_le_outstanding hmem)
  rcases getElem?_set_cases hd with ⟨rfl, rfl⟩ | ⟨hij, hd⟩
  · have hold := h.owner.late k i c hc
    cases hside with
    | keep hl _ _ _ hp hf =>
      rw [hl]
      refine hold (htot.imp (fun ht => ?_) fun ht => ?_)
      · obtain ⟨t, ht⟩ := isSome_iff_exists.1 ht
        rw [hp t ht]
        rfl
      · obtain ⟨t, ht⟩ := isSome_iff_exists.1 ht
        rw [hf t ht]
        rfl
    | adds v hl =>
      rw [hl]
      exact AddLog.late_cons_self i v _
    | reads t hl _ _ _ hp =>
      rw [hl]
      exact hold (.inl (by rw [hp]; rfl))
    | resets hl _ _ _ hp hf =>
      rw [hl]
      rw [hp, hf] at htot
      exact hold (.inr (by simpa using htot))
  · by_cases hl : c.logStep k i (l.log k) = l.log k
    · rw [hl]
      exact h.owner.late k j d hd htot
    · have := add_le_weight handling hc hd hij
      have := handling_of_logStep hl
      have := handling_of_total htot
      have := h.owner.single
      omega

lemma Sound.own_step (h : Sound s l w) (hw : Wiring s l)
    (hle : s.history.finished.length ≤ s.history.activated.length)
    (hc : (s.node p.origin).calls[i]? = some c) {k : Side} {d : Call EdtGuid}
    (hd : d ∈ (s.node p.origin).calls.set i
      (c.step (p.config p.origin) ff (s.node p.origin).epoch).2.1)
    (hfull : (d.fullTotal k).isSome = true) :
    k.of (w.base p.origin) ≤ (c.ownStep k (s.node p.origin).epoch (l.own k)).toNat ∧
      (c.ownStep k (s.node p.origin).epoch (l.own k)).toNat ≤ k.of (w.counts p.origin) := by
  have hmem := mem_of_getElem? hc
  have hside := sideStep_step k ff (s.node p.origin).epoch
    (hw.round.tokens.onOwner c hmem) (hw.round.noUndo c hmem)
    (hw.round.tokens.two_le_outstanding hmem)
  have hholds := h.tally.holds hle p.origin
  have hnow : (k.own (s.node p.origin).epoch).toNat = k.of (w.counts p.origin) := by
    cases k
    · exact hholds.toNat_active
    · exact hholds.toNat_finished
  obtain ⟨j, hj⟩ := mem_iff_getElem?.1 hd
  cases hside with
  | reads t _ ho =>
    rw [ho, hnow]
    exact ⟨k.of_le h.owner.base_le, le_rfl⟩
  | keep _ ho _ _ _ hf =>
    rw [ho]
    rcases getElem?_set_cases hj with ⟨rfl, rfl⟩ | ⟨-, hj⟩
    · obtain ⟨t, ht⟩ := isSome_iff_exists.1 hfull
      exact h.owner.own k c hmem (by rw [hf t ht]; rfl)
    · exact h.owner.own k d (mem_of_getElem? hj) hfull
  | adds v _ ho _ _ _ _ hf =>
    rw [ho]
    rcases getElem?_set_cases hj with ⟨rfl, rfl⟩ | ⟨-, hj⟩
    · rw [hf] at hfull
      cases hfull
    · exact h.owner.own k d (mem_of_getElem? hj) hfull
  | resets _ ho _ _ _ hf =>
    rw [ho]
    rcases getElem?_set_cases hj with ⟨rfl, rfl⟩ | ⟨-, hj⟩
    · exact h.owner.own k c hmem (hf ▸ hfull)
    · exact h.owner.own k d (mem_of_getElem? hj) hfull

/-- The `i`-th call of the owner finds that the totals of the round are those of the previous
one. -/
def System.Agrees (s : System p EdtGuid) (i : ℕ) : Prop :=
  ∃ a f ta tf, (s.node p.origin).calls[i]? = some (.reduce a f (.testLastFinish ta tf)) ∧
    (s.node p.origin).epoch.lastFinishedCount = tf

/-- When two rounds agree, every rank has reported the counts it had when the second one was opened.
-/
theorem Sound.base_of_agrees (h : Sound s l w) (hw : Wiring s l) (hagree : s.Agrees i) :
    (∑ r, w.base r).1 = (∑ r, w.base r).2 ∧ (∑ r, w.base r).2 ≠ 0 ∧
      (s.node p.origin).epoch.outstanding.toNat = 1 ∧
      ∀ r, r ≠ p.origin → ∃ v, l.got r = some v ∧ w.base r = (v.1.toNat, v.2.toNat) := by
  obtain ⟨a, f, ta, tf, hc, hlast⟩ := hagree
  have hmem := mem_of_getElem? hc
  obtain ⟨hb, h2, ha⟩ := h.owner.stage _ hmem
  have hclosing := hw.round.tokens.closing
  have hlec := le_weight_of_getElem? closing hc
  have hone : (reduce a f (.testLastFinish ta tf) : Call EdtGuid).closing = 1 := rfl
  simp only [Links.round] at hclosing
  -- the call is the only one that closes the round, so no other one is recording its totals
  have hrec : ∀ d ∈ (s.node p.origin).calls, d.recording = false := by
    intro d hd
    obtain ⟨j, hj⟩ := mem_iff_getElem?.1 hd
    by_cases hij : i = j
    · subst hij
      rw [hc] at hj
      cases hj
      rfl
    · by_contra hrec
      have := closing_of_recording (Bool.not_eq_false _ ▸ hrec)
      have := add_le_weight closing hc hj hij
      omega
  have hprev := h.owner.last h2 hrec
  rw [ha, hlast] at hprev
  obtain ⟨rfl, h0, hsum, hgot⟩ := h.base_eq hw (by omega) hb hprev
  rw [hsum]
  exact ⟨rfl, fun hz => h0 (UInt32.toNat_inj.1 hz), by omega, hgot⟩

lemma Sound.owner_step (h : Sound s l w) (hw : Wiring s l)
    (hle : s.history.finished.length ≤ s.history.activated.length)
    (hnew : ¬ s.Agrees i) (hc : (s.node p.origin).calls[i]? = some c)
    (hno : c.opensRound (s.node p.origin).epoch = false) (ff : Bool) :
    OwnerSafe ((s.node p.origin).advance (p.config p.origin) i ff c) (l.onOwner s i ff c) w := by
  have hmem := mem_of_getElem? hc
  have hon := hw.round.tokens.onOwner c hmem
  have hclosing := hw.round.tokens.closing
  have hlec := le_weight_of_getElem? closing hc
  have hopen := hw.round.tokens.two_le_outstanding hmem
  simp only [Links.round] at hclosing hopen
  have hunique : c.closing = 1 → ∀ j d, i ≠ j → (s.node p.origin).calls[j]? = some d →
      d.closing = 0 := fun hcl j d hij hd => by
    have := add_le_weight closing hc hd hij
    omega
  have hmem' := List.mem_set (List.getElem?_eq_some_iff.1 hc).1
    (c.step (p.config p.origin) ff (s.node p.origin).epoch).2.1
  have hout := outstanding_step (p.config p.origin) ff (s.node p.origin).epoch hno
  have hgot : (l.onOwner s i ff c).got = l.got := got_onOwner hno
  have hmono : ∀ ta tf, Balanced l w ta tf → Balanced (l.onOwner s i ff c) w ta tf :=
    fun ta tf hb => hb.mono hgot rfl le_rfl
  have hconf := confirmStep_step p.isOwner ff hon h.owner.phase (h.owner.stage c hmem) hno
    (fun a f ta he h0 => h.balanced_of_check hw hle (he ▸ hc) h0)
    fun a f ta tf he hlast => hnew ⟨a, f, ta, tf, he ▸ hc, hlast⟩
  refine ⟨?_, by rw [hgot]; exact h.owner.self, fun k => ?_, ?_, fun k j d hd htot => ?_,
    fun k d hd hfull => ?_, h.owner.prev_le, h.owner.base_le, fun d hd => ?_, hconf.phase, ?_, ?_⟩
  · simp [Node.advance, h.owner.present, (h.owner.stage c hmem).ne_deleteEpoch hon ff]
  · have := h.owner.heard k
    simpa [Links.onOwner, hno, Links.report] using this
  · have := weight_set handling hc (c.step (p.config p.origin) ff (s.node p.origin).epoch).2.1
    have := handling_step (p.config p.origin) ff (s.node p.origin).epoch c
    have := h.owner.single
    simp only [Node.advance]
    omega
  · have := h.late_step hw hc hd htot
    simpa [Links.onOwner, hno] using this
  · have := h.own_step hw hle hc hd hfull
    simpa [Links.onOwner, hno] using this
  · obtain ⟨j, hj⟩ := mem_iff_getElem?.1 hd
    rcases getElem?_set_cases hj with ⟨-, rfl⟩ | ⟨hij, hj⟩
    · exact hconf.stage.congr ⟨rfl, rfl, rfl⟩ hmono
    · have hold := h.owner.stage d (mem_of_getElem? hj)
      by_cases hcl : c.closing = 0
      · exact hold.congr (hconf.still hcl) hmono
      · exact hold.of_closing_eq_zero (hunique (by omega) j d hij hj)
  · intro h0
    simp only [Node.advance] at h0 ⊢
    by_cases hcl : c.closing = 0
    · rw [(hconf.still hcl).1]
      refine h.owner.idle ?_
      rcases hout with hsame | ⟨hsub, hu | hcl'⟩
      · rwa [← hsame]
      · rw [hsub, toNat_sub_one (by omega)] at h0
        omega
      · have := closing_of_cleared (hcl' .active)
        omega
    · rcases hconf.closes (by omega) with hsame | h1
      · rw [hsame] at h0
        omega
      · exact h1
  · intro h2 hrec
    obtain ⟨hcr, hp, ha, hf⟩ := hconf.last h2 (hrec _ hmem')
    simp only [Node.advance] at h2 ⊢
    rw [ha, hf]
    refine h.owner.last (hp ▸ h2) fun d hd => ?_
    obtain ⟨j, hj⟩ := mem_iff_getElem?.1 hd
    by_cases hij : i = j
    · subst hij
      rw [hc] at hj
      cases hj
      exact hcr
    · refine hrec d (mem_of_getElem? (i := j) ?_)
      simp only [Node.advance]
      rw [getElem?_set_ne hij]
      exact hj

/-- The reports that the next round is compared with: those of the round that was recorded last,
if there is one. -/
theorem Sound.exists_prev (h : Sound s l w) (hw : Wiring s l)
    (hc : (s.node p.origin).calls[i]? = some c)
    (hop : c.opensRound (s.node p.origin).epoch = true) :
    ∃ prev : p.Rank → ℕ × ℕ, (∀ r, prev r ≤ w.counts r) ∧
      (∀ r, r ≠ p.origin → (prev r).2 ≤ w.level r) ∧
      ((s.node p.origin).epoch.phase = .phase2 →
        (((s.node p.origin).epoch.lastActiveCount.toNat,
          (s.node p.origin).epoch.lastFinishedCount.toNat) : ℕ × ℕ) = ∑ r, prev r) := by
  by_cases h2 : (s.node p.origin).epoch.phase = .phase2
  · have hmem := mem_of_getElem? hc
    have hstage := h.owner.stage c hmem
    have hone : (s.node p.origin).epoch.outstanding.toNat = 1 := by
      have := (hw.settled_of_opens hc hop).1
      have hidle := h.owner.idle
      rw [h2] at hidle
      have : (s.node p.origin).epoch.outstanding.toNat ≠ 0 := fun h0 => nomatch hidle h0
      omega
    have hbal : Balanced l w (s.node p.origin).epoch.lastActiveCount
        (s.node p.origin).epoch.lastFinishedCount := by
      cases c with
      | finish x pc =>
        cases pc <;> simp [opensRound] at hop
        simp [hop] at hone
      | send pc => simp [opensRound] at hop
      | reduce a f pc =>
        cases pc <;> simp [opensRound] at hop
        exact hstage h2
    obtain ⟨-, -, own, -, hown, hsum⟩ := hbal
    refine ⟨update l.report p.origin own, fun r => ?_, fun r hr => ?_, fun _ => hsum⟩
    · by_cases hr : r = p.origin
      · subst hr
        rwa [update_self]
      · rw [update_of_ne hr]
        exact h.report_le r
    · obtain ⟨v, hv⟩ := exists_got (hw.all_received hone hr).2.2
      obtain ⟨-, hf, -⟩ := (h.rank r hr).got v hv
      rw [update_of_ne hr, report_of_got hv]
      exact hf.le
  · refine ⟨w.prev, fun r => ?_, fun r hr => (h.rank r hr).snap.prev_level,
      fun h2' => absurd h2' h2⟩
    by_cases hr : r = p.origin
    · subst hr
      exact h.owner.prev_le.trans h.owner.base_le
    · exact (h.rank r hr).snap.prev_le.trans (h.rank r hr).snap.base_le

/-- **A new round.**  It is compared with the counts at this moment. -/
theorem Sound.opens (h : Sound s l w) (hw : Wiring s l)
    (hw' : Wiring s' (l.onOwner s i ff c))
    (hc : (s.node p.origin).calls[i]? = some c)
    (hop : c.opensRound (s.node p.origin).epoch = true)
    (hnode : s'.node = update s.node p.origin
      ((s.node p.origin).advance (p.config p.origin) i ff c))
    (hsends : ∀ q, q ≠ p.origin → s'.sends q = s.sends q)
    (hact : s'.history.activated = s.history.activated)
    (hfin : s'.history.finished.length = s.history.finished.length + c.unpublished) :
    ∃ w', Sound s' (l.onOwner s i ff c) w' ∧
      Moves s l w (.step p.origin i ff) (l.onOwner s i ff c) w' := by
  have hmem := mem_of_getElem? hc
  obtain ⟨prev, hprev, hlevel, hlast⟩ := h.exists_prev hw hc hop
  obtain ⟨-, hweight, hflight⟩ := hw.settled_of_opens hc hop
  obtain ⟨hconf, hunp, hunits, hstage⟩ := confirms_of_opens p.isOwner ff hop
  have hgot : ∀ r, (l.onOwner s i ff c).got r = none := got_onOwner_of_opens hop
  have hstep := fun k => opensRound_step k (p.config p.origin) ff hop
  have hhandling := handling_step (p.config p.origin) ff (s.node p.origin).epoch c
  set c' := (c.step (p.config p.origin) ff (s.node p.origin).epoch).2.1 with hc'
  -- the call that opens the round was the only one that could close the previous one
  have hclosing : ∀ d ∈ (s.node p.origin).calls.set i c', d.closing = 0 := by
    refine weight_eq_zero.1 ?_
    have hset := weight_set closing hc c'
    have := (hstep .active).2.2.2.2.1
    omega
  have hsum : ∑ r, w.counts r = (s'.history.activated.length, s'.history.finished.length) := by
    rw [h.tally.sum, hact, hfin, hunp, Nat.add_zero]
  refine ⟨⟨w.counts, prev, w.counts, w.level⟩, ⟨⟨fun q => ?_, hsum, ?_⟩, fun q hq => ?_, ?_⟩,
    .opens i ff c rfl hc hop rfl rfl hgot⟩
  · by_cases hq : q = p.origin
    · subst hq
      have := packed_step (p.config p.origin) ff c (h.tally.packed p.origin)
      simpa [hnode, Node.advance, hunp] using this
    · simpa [hnode, hq] using h.tally.packed q
  · rw [hact]
    exact h.tally.few
  · have hold := h.rank q hq
    have hzero := hflight q hq
    obtain ⟨idle, -, hcount, -⟩ := (hw.served q hq).word
    simp only [flight, served] at hzero hcount
    have hwin : ∀ d ∈ (s.node q).calls, d.winner = 0 := weight_eq_zero.1 (by omega)
    have hnil : s.sends q = [] := eq_nil_of_length_eq_zero (by omega)
    rw [hnode, update_of_ne hq, hsends q hq, hnil, hgot]
    refine ⟨⟨hprev q, le_rfl, hlevel q hq, hold.snap.level_le, fun d hd => ?_, hold.snap.reading⟩,
      by simp, by simp⟩
    obtain ⟨ha, hf, hr⟩ := blank_of_winner_eq_zero (hwin d hd)
    exact ⟨(hold.snap.fits d hd).snapshot, by simp [ha], by simp [hf], by simp [hr]⟩
  · rw [hnode, update_self]
    refine ⟨?_, hgot _, fun k => ?_, ?_, fun k j d hd htot => ?_, fun k d hd hfull => ?_, hprev _,
      le_rfl, fun d hd => ?_, ?_, fun h0 => ?_, fun h2 _ => ?_⟩
    · simp [Node.advance, h.owner.present, (h.owner.stage c hmem).ne_deleteEpoch
        (hw.round.tokens.onOwner c hmem) ff]
    · have hzero : ∀ r, (l.onOwner s i ff c).report r = 0 := fun r => report_of_none (hgot r)
      have hk : k.of (0 : ℕ × ℕ) = 0 := by cases k <;> rfl
      have hnil : (l.onOwner s i ff c).heard = [] := by simp [Links.onOwner, hop]
      simp [hzero, hk, hnil]
    · have := weight_set handling hc c'
      have := h.owner.single
      simp only [Node.advance, ← hc']
      omega
    · simp [Links.onOwner, hop, AddLog.late, AddLog.total]
    · obtain ⟨t, ht⟩ := isSome_iff_exists.1 hfull
      have := closing_of_fullTotal ht
      have := hclosing d hd
      omega
    · rcases mem_or_eq_of_mem_set hd with hd' | rfl
      · exact (h.owner.stage d hd').of_closing_eq_zero (hclosing d hd)
      · exact hstage _ _
    · rw [Node.advance, hconf.1]
      exact h.owner.phase
    · have hmem' := List.mem_set (List.getElem?_eq_some_iff.1 hc).1 c'
      have htwo := hw'.round.tokens.two_le_outstanding
        (by rw [Links.round, hnode, update_self]; exact hmem') hunits
      simp only [Links.round, hnode, update_self] at htwo
      omega
    · rw [Node.advance] at h2 ⊢
      simp only [hconf.1, hconf.2.1, hconf.2.2] at h2 ⊢
      exact hlast h2

lemma Sound.step_owner (h : Sound s l w) (hw : Wiring s l)
    (hle : s.history.finished.length ≤ s.history.activated.length) (hnew : ¬ s.Agrees i)
    (hst : s.next (.step p.origin i ff) = some s') : Kept s l w (.step p.origin i ff) s' := by
  obtain ⟨c, hc, hd, rfl⟩ := next_step.1 hst
  have hw' := hw.onOwner ff hc hd (t := { s with
    node := update s.node p.origin ((s.node p.origin).advance (p.config p.origin) i ff c)
    history := s.history.publish c }) rfl rfl rfl
  cases hop : c.opensRound (s.node p.origin).epoch with
  | true =>
    obtain ⟨w', hsound, hmoves⟩ := h.opens hw hw' hc hop emit_node
      (fun q hq => emit_sends_of_ne hq) (by simp)
      (by rw [emit_history, History.length_finished_publish])
    exact ⟨_, w', hw', hsound, hmoves⟩
  | false =>
    let counts : ℕ × ℕ := ((w.counts p.origin).1, (w.counts p.origin).2 + c.unpublished)
    have hle' : w.counts p.origin ≤ counts := ⟨le_rfl, Nat.le_add_right _ _⟩
    have howner := (h.owner_step hw hle hnew hc hop ff).grow counts hle'
    refine ⟨_, _, hw', h.onOwner counts emit_node (fun q hq => emit_sends_of_ne hq)
      (got_onOwner hop) (h.tally.grow emit_node
        (packed_step _ ff c (h.tally.packed p.origin)) ?_ ?_ ?_) howner,
      .step hc (got_onOwner hop) fun _ => hop⟩
    · simp [counts]
    · simp only [emit_history, History.length_finished_publish, counts]
      omega
    · simpa using h.tally.few

end OwnerStep

lemma Safe.not_agrees (hs : Safe s l w) (hw : Wiring s l) (i : ℕ) : ¬ s.Agrees i := by
  intro hagree
  obtain ⟨heq, h0, -⟩ := hs.sound.base_of_agrees hw hagree
  exact hs.fresh h0 heq

/-- A round that is opened before the epoch is quiescent is compared with counts that are not
balanced. -/
theorem Moves.fresh {l' : Links p} {w' : Waves p} {e : System.Event p EdtGuid}
    (h : Moves s l w e l' w') (hs : Safe s l w)
    (hquiet : ¬ s.history.Quiescent) :
    (∑ r, w'.base r).2 ≠ 0 → (∑ r, w'.base r).1 ≠ (∑ r, w'.base r).2 := by
  cases h with
  | stays _ _ base => rw [base]; exact hs.fresh
  | opens i ff c _ _ _ _ base =>
    rw [base, hs.tally.sum]
    intro h0 heq
    refine hquiet ⟨fun hnil => ?_, heq.symm⟩
    simp [hnil] at heq
    exact h0 (by simp [heq])

end Step

/-! ### Runs -/

namespace System

/-- The condition on runs. Fewer than `2 ^ 32` EDTs are activated; and on a rank that does not own
the epoch, no worker publishes a finish between the moment `send_epoch` has won the right to answer
and its read of the finished count. -/
def Orderly (s : System p EdtGuid) : Event p EdtGuid → Prop
  | .activate _ _ => s.history.activated.length + 1 < 2 ^ 32
  | .step r i _ => r ≠ p.origin → (∃ c ∈ (s.node r).calls[i]?, c.unpublished = 1) →
      ∀ d ∈ (s.node r).calls, d.reading = false
  | _ => True

instance (s : System p EdtGuid) (e : Event p EdtGuid) : Decidable (s.Orderly e) := by
  cases e <;> unfold Orderly <;> infer_instance

/-- The discipline of the history; and the epoch is quiescent, or the detection is as described by
`Safe`. -/
structure Secure (s : System p EdtGuid) : Prop where
  ok : s.history.Ok s.waiting
  safe : s.history.Quiescent ∨ ∃ l w, Wiring s l ∧ Safe s l w

/-- No message was sent. -/
def noLinks (p : Layout) : Links p :=
  ⟨fun _ => 0, fun _ => 0, 0, 0, [], fun _ => [], fun _ => 0, fun _ => none⟩

/-- No EDT was activated. -/
def noWaves (p : Layout) : Waves p := ⟨fun _ => 0, fun _ => 0, fun _ => 0, fun _ => 0⟩

lemma wiring_init {s : System p EdtGuid} (h : (machine p).init s) : Wiring s (noLinks p) := by
  obtain ⟨guid, edtGuid, slot, rfl⟩ := h
  refine ⟨fun r hr => ?_, ?_, rfl, ?_, fun r hr => .inl ⟨rfl, rfl⟩⟩
  · have := Served.inv_init (show (Served.machine (p.config r)).init
      ⟨.create guid edtGuid slot false, 0, 0⟩ from ⟨guid, edtGuid, slot, rfl⟩)
    simpa [served, noLinks, hr] using this
  · have := Round.inv_init (show (Round.machine (p.config p.origin)).init
      ⟨⟨.create guid edtGuid slot true, 0, 0⟩, [], fun _ => [], fun _ => (0 : UInt32)⟩ from
      ⟨guid, edtGuid, slot, rfl⟩) (ε := EdtGuid)
    simpa [Links.round, noLinks] using this
  · simp [flight, noLinks]

lemma safe_init {s : System p EdtGuid} (h : (machine p).init s) :
    Safe s (noLinks p) (noWaves p) := by
  obtain ⟨guid, edtGuid, slot, rfl⟩ := h
  refine ⟨⟨fun r => packed_zero.symm, ?_, by simp⟩, fun r hr => ⟨⟨le_rfl, le_rfl, le_rfl, le_rfl,
    nofun, nofun⟩, nofun, nofun⟩, ⟨rfl, rfl, fun k => ?_, Nat.zero_le _, nofun, fun _ => nofun,
    le_rfl, le_rfl, nofun, nofun, fun _ => rfl, nofun⟩, ?_⟩
  · exact Finset.sum_eq_zero fun _ _ => rfl
  · cases k <;> simp [noLinks, report, Side.of]
  · simp [noWaves]

lemma secure_init {s : System p EdtGuid} (h : (machine p).init s) : s.Secure := by
  have hw := wiring_init h
  have hs := safe_init h
  obtain ⟨guid, edtGuid, slot, rfl⟩ := h
  refine ⟨?_, .inr ⟨_, _, hw, hs⟩⟩
  simpa [waiting, Node.create, Node.waiting] using History.ok_init

/-- **Every event of an orderly run keeps what is known**, unless two rounds agree. -/
theorem kept_next {s s' : System p EdtGuid} {l : Links p} {w : Waves p} {e : Event p EdtGuid}
    (hs : Sound s l w) (hw : Wiring s l) (hok : s.history.Ok s.waiting) (hord : s.Orderly e)
    (hnew : ∀ i ff, e = .step p.origin i ff → ¬ s.Agrees i) (hst : s.next e = some s') :
    Kept s l w e s' := by
  have hadd := hok.finished_add_le
  have hle : s.history.finished.length ≤ s.history.activated.length := by omega
  cases e with
  | activate r edt =>
    by_cases hr : r = p.origin
    · subst hr; exact hs.activate_owner hw hord hst
    · exact hs.activate_other hw hr hord hst
  | enqueue r edt =>
    by_cases hr : r = p.origin
    · subst hr; exact hs.enqueue_owner hw hst
    · exact hs.enqueue_other hw hr hst
  | finish r edt =>
    by_cases hr : r = p.origin
    · subst hr; exact hs.finish_owner hw hst
    · exact hs.finish_other hw hr hst
  | deliverReq r =>
    have hr : r ≠ p.origin := by
      rintro rfl
      have hself := hw.self
      have := (next_deliverReq.1 hst).1
      simp only [flight] at hself
      omega
    exact hs.request_other hw hr hst
  | deliverSend r k => exact hs.receive hw hst
  | step r i ff =>
    by_cases hr : r = p.origin
    · subst hr; exact hs.step_owner hw hle (hnew i ff rfl) hst
    · refine hs.step_other hw hr hle (fun c hc hone => ⟨hord hr ⟨c, hc, hone⟩, ?_⟩) hst
      have := unpublished_le_waiting hc
      omega

lemma secure_next {s s' : System p EdtGuid} {e : Event p EdtGuid} (h : s.Secure)
    (hord : s.Orderly e) (hst : s.next e = some s') : s'.Secure := by
  refine ⟨ok_next h.ok hst, ?_⟩
  by_cases hq : s.history.Quiescent
  · exact .inl (quiescent_next h.ok hq hst)
  obtain ⟨l, w, hw, hs⟩ := h.safe.resolve_left hq
  obtain ⟨l', w', hw', hs', hmoves⟩ :=
    kept_next hs.sound hw h.ok hord (fun i _ _ => hs.not_agrees hw i) hst
  exact .inr ⟨l', w', hw', hs'.tally, hs'.rank, hs'.owner, hmoves.fresh hs hq⟩

lemma reachable_secure {s : System p EdtGuid}
    (h : ((machine p).restrict Orderly).Reachable s) : s.Secure :=
  h.invariant (fun _ => secure_init) fun _ _ _ _ hi hst =>
    secure_next hi (Machine.restrict_next.1 hst).1 (Machine.restrict_next.1 hst).2

lemma Secure.quiescent {s : System p EdtGuid} (h : s.Secure)
    (hphase : (s.node p.origin).epoch.phase = .phase3) : s.history.Quiescent :=
  h.safe.resolve_right fun ⟨_, _, _, hs⟩ => hs.owner.phase hphase

end System

/-- **Safety of the termination detection**, if no worker publishes its finish while `send_epoch` of
its rank stands between its compare-and-swap and its read of the finished count. -/
theorem terminated_of_phase3 {s s' : System p EdtGuid}
    (h : ((machine p).restrict Orderly).Reachable s)
    (hphase : (s.node p.origin).epoch.phase = .phase3) (hl : (machine p).Leads s s') :
    s'.history.activated.length = s'.history.finished.length := by
  have hs := reachable_secure h
  have hend := hl.invariant (I := fun t => t.history.Ok t.waiting ∧ t.history.Quiescent)
    ⟨hs.ok, hs.quiescent hphase⟩
    fun t e t' ⟨hok, hq⟩ hst => ⟨ok_next hok hst, quiescent_next hok hq hst⟩
  exact hend.2.2.symm

/-- Two EDTs, one on each rank: both rounds see two activations and two finishes. -/
theorem terminated_of_phase3_two_edts :
    ∃ s : System .pair EdtGuid,
      ((machine .pair).restrict Orderly).Reachable s ∧
      (s.node Layout.pair.origin).epoch.phase = .phase3 ∧ s.history.activated.length = 2 ∧
      s.history.activated.length = s.history.finished.length := by
  let o : Layout.pair.Rank := ⟨0, by decide⟩
  let q : Layout.pair.Rank := ⟨1, by decide⟩
  let x := ofKey 1
  let y := ofKey 2
  exact Machine.Reachable.exists_and₂
    (r := flatten [[.activate o x, .activate o y, .enqueue o x, .enqueue q y, .finish q y],
      replicate 3 (.step q 0 false), [.finish o x], replicate 5 (.step o 0 false),
      [.deliverReq q], replicate 5 (.step q 1 false), [.deliverSend q 0],
      replicate 17 (.step o 1 false), [.deliverReq q], replicate 5 (.step q 2 false),
      [.deliverSend q 0], replicate 13 (.step o 2 false)])
    ⟨0, 0, 0, rfl⟩ (by decide +kernel)
    fun s hr hphase _ => terminated_of_phase3 hr hphase (Machine.Leads.refl s)

/-- **Confirmed too early.** Before the handler of the first request reads the finished count, the
worker of `y` publishes its finish and is interrupted. In the second round this worker drains the
queue and reports the counts it saw then, which are those of the first report, while `v` runs. -/
theorem confirmed_too_early :
    ∃ s : System .pair EdtGuid, (machine .pair).Reachable s ∧
      (s.node Layout.pair.origin).epoch.phase = .phase3 ∧
      s.history.activated.length = 5 ∧ s.history.finished.length = 4 := by
  let o : Layout.pair.Rank := ⟨0, by decide⟩
  let q : Layout.pair.Rank := ⟨1, by decide⟩
  let x := ofKey 1
  let y := ofKey 2
  let z := ofKey 3
  let w := ofKey 4
  let v := ofKey 5
  exact Machine.Reachable.exists_of_exec
    (r := flatten [
      [.activate o x, .activate o y, .activate o z, .enqueue o x, .finish o x],
      replicate 5 (.step o 0 false),
      [.deliverReq q, .step q 0 false, .step q 0 false, .enqueue q y, .finish q y, .step q 1 false],
      replicate 3 (.step q 0 false),
      [.enqueue q z, .activate q w, .enqueue o w, .finish o w], replicate 3 (.step o 1 false),
      [.deliverSend q 0], replicate 17 (.step o 2 false),
      [.deliverReq q, .step q 2 false, .step q 2 false, .activate q v, .finish q z],
      replicate 3 (.step q 3 false), replicate 3 (.step q 1 false),
      [.deliverSend q 0], replicate 13 (.step o 3 false)])
    ⟨0, 0, 0, rfl⟩ (by decide +kernel)

end Arts
