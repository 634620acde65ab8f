import Arts.Epoch.Owner

/-!
# Wake-ups of the owner

A finish that drains the queue while the closing call has read it as non-empty is lost
(`lost_wakeup`); without that, an idle owner with an empty queue has a round open
(`no_lost_wakeup`).
-/

namespace Arts

open List Call Owner

namespace Call

variable {ε : Type*}

/-- A finish that has taken its EDT off the queue of the owner. -/
def left : Call ε → ℕ
  | .finish _ .casOutstanding | .finish _ (.broadcast _) | .finish _ .done => 1
  | _ => 0

/-- A finish that has drained the queue and is about to open a round. -/
def draining : Call ε → ℕ
  | .finish _ .casOutstanding => 1
  | _ => 0

/-- A closing call that is about to take the last unit off `outstanding`. -/
def retiring : Call ε → ℕ
  | .reduce _ _ .closeRound => 1
  | _ => 0

/-- A closing call that has not given up opening the next round. -/
def deciding (c : Call ε) : ℕ := c.closing - c.retiring

/-- The phase that the confirmation steps of `check_epoch` rely on. -/
def wants : Call ε → Option Phase
  | .reduce _ _ (.testLastActive _ _) | .reduce _ _ (.testLastFinish _ _) |
    .reduce _ _ (.casPhase _) => some .phase2
  | .reduce _ _ (.complete _) | .reduce _ _ (.fire _) => some .phase3
  | _ => none

lemma closing_eq (c : Call ε) : c.closing = c.deciding + c.retiring := by
  have : c.retiring ≤ c.closing := by
    cases c with
    | reduce a f pc => cases pc <;> simp [retiring, closing]
    | finish x pc | send pc => exact Nat.zero_le _
  simp only [deciding]
  omega

variable {c : Call ε} {p : Phase}

lemma closing_of_wants (h : c.wants = some p) : c.closing = 1 := by
  cases c with
  | reduce a f pc => cases pc <;> simp_all [wants, closing]
  | finish x pc => simp [wants] at h
  | send pc => simp [wants] at h

variable {cfg : Config}

lemma phase_step (ff : Bool) (e : Epoch)
    (hc : c.onOwner cfg = true) (hcl : c.closing = 0) : (c.step cfg ff e).1.phase = e.phase := by
  cases c with
  | finish x pc =>
    cases pc <;> simp only [step, finishStep] <;> (try split_ifs) <;> simp_all [onOwner]
  | send pc => simp [onOwner] at hc
  | reduce a f pc =>
    cases pc <;> simp only [step, reduceStep] <;> (try split_ifs) <;> simp_all [closing]

lemma wants_step (ff : Bool) (e : Epoch)
    (hc : c.onOwner cfg = true) (hw : ∀ p, c.wants = some p → e.phase = p)
    (hp : (c.step cfg ff e).2.1.wants = some p) : (c.step cfg ff e).1.phase = p := by
  cases c with
  | finish x pc => simp [step, wants] at hp
  | send pc => simp [onOwner] at hc
  | reduce a f pc =>
    cases pc <;> simp only [step, reduceStep, checkStep] at hp ⊢ <;> (try split_ifs at hp ⊢) <;>
      simp_all [wants]

lemma queued_step (hcfg : cfg.IsOwner) (ff : Bool) (e : Epoch)
    (hc : c.onOwner cfg = true) (hsub : ∀ x, c ≠ .finish x .subQueued) :
    (c.step cfg ff e).1.queued = e.queued ∧ (c.step cfg ff e).2.1.owes = c.owes := by
  cases c with
  | finish x pc =>
    cases pc <;> simp only [step, finishStep, FinishPc.afterAdd] <;> (try split_ifs) <;>
      simp_all [onOwner, owes, queuedEdt, hcfg.rankCount_ne_one]
  | send pc => simp [onOwner] at hc
  | reduce a f pc =>
    refine ⟨?_, rfl⟩
    cases pc <;> simp only [step, reduceStep, checkStep] <;> (try split_ifs) <;> rfl

end Call

namespace Owner

variable {cfg : Config} {s s' : Owner EdtGuid}

/-- The queue word counts the queued EDTs. EDTs enqueued after the deletion are not counted. -/
structure Queue (s : Owner EdtGuid) : Prop where
  nodup : s.node.queueIds.Nodup
  owed : weight owes s.node.calls ≤ s.node.epoch.queued.toNat
  lt : s.node.epoch.queued.toNat < 2 ^ 63
  counted : s.node.present = true → s.node.epoch.queued.toNat = s.node.queueLen

lemma queue_init (h : (machine cfg).init s) : s.Queue := by
  obtain ⟨guid, edtGuid, slot, rfl⟩ := h
  exact ⟨nodup_nil, Nat.zero_le _, Nat.two_pow_pos 63, fun _ => rfl⟩

variable {a : Act EdtGuid}

lemma queue_next (hcfg : cfg.IsOwner) (ht : s.Tokens cfg) (h : s.Queue)
    (hst : s.next cfg a = some s') : s'.Queue := by
  obtain ⟨hadm, n, out, hn, rfl⟩ := next_eq_some.1 hst
  have hnodup := Node.queueIds_nodup_next hn h.nodup
  have hlt := Node.queueLen_lt hnodup
  cases a with
  | activate =>
    obtain ⟨rfl, rfl⟩ := Node.next_activate.1 hn
    refine ⟨hnodup, by simpa using h.owed, by simpa using h.lt, ?_⟩
    simpa using h.counted
  | enqueue edt =>
    obtain ⟨-, rfl, rfl⟩ := Node.next_enqueue.1 hn
    by_cases hp : s.node.present = true
    · have hcount := h.counted hp
      rw [Node.queueLen_enqueue] at hlt
      have hq : (s.node.enqueue edt).epoch.queued.toNat = s.node.queueLen + 1 := by
        simp only [Node.enqueue_epoch hp, UInt64.toNat_add, UInt64.toNat_one]
        omega
      refine ⟨hnodup, ?_, by rw [hq]; exact hlt, fun _ => by rw [hq, Node.queueLen_enqueue]⟩
      rw [hq, ← hcount]
      exact h.owed.trans (Nat.le_succ _)
    · have hq : (s.node.enqueue edt).epoch = s.node.epoch := by simp [Node.enqueue, hp]
      exact ⟨hnodup, by rw [hq]; exact h.owed, by rw [hq]; exact h.lt, fun hp' => absurd hp' hp⟩
  | finish edt =>
    obtain ⟨hmem, rfl, rfl⟩ := Node.next_finish.1 hn
    by_cases hp : s.node.present = true
    · have hlen := Node.queueLen_finish hp hmem
      have hcount := h.counted hp
      refine ⟨hnodup, ?_, h.lt, fun _ => by rw [hlen, ← hcount]; rfl⟩
      rw [Node.finish_epoch, hcount, ← hlen]
      exact Nat.le_add_left _ _
    · refine ⟨hnodup, ?_, h.lt, fun hp' => absurd hp' hp⟩
      rw [Node.finish_calls_of_not_present hp]
      exact h.owed
  | request => exact absurd hadm id
  | reply x y =>
    obtain ⟨rfl, rfl⟩ := Node.next_reply.1 hn
    refine ⟨hnodup, ?_, h.lt, fun hp => by rw [Node.queueLen_start _ rfl]; exact h.counted hp⟩
    by_cases hp : s.node.present = true
    · simpa [Node.start_calls hp, owes, queuedEdt] using h.owed
    · rw [Node.start_of_not_present hp]
      exact h.owed
  | step i ff =>
    obtain ⟨c, hc, -, rfl, rfl⟩ := Node.next_step.1 hn
    have hown := ht.onOwner c (mem_of_getElem? hc)
    have hw := weight_set owes hc (c.step cfg ff s.node.epoch).2.1
    have howed := h.owed
    have hbound := h.lt
    have hcount : (s.node.advance cfg i ff c).present = true →
        s.node.epoch.queued.toNat = s.node.ready.length + weight owes s.node.calls := by
      simp only [Node.advance, Bool.and_eq_true]
      exact fun hp => h.counted hp.1
    by_cases hsub : ∃ x, c = .finish x .subQueued
    · obtain ⟨x, rfl⟩ := hsub
      have howes : (finish x .subQueued).owes = 1 := rfl
      have howes' : ((finish x .subQueued).step cfg ff s.node.epoch).2.1.owes = 0 := by
        simp only [step, finishStep]
        split_ifs <;> rfl
      have hq : ((finish x .subQueued).step cfg ff s.node.epoch).1.queued.toNat =
          s.node.epoch.queued.toNat - 1 := toNat_sub_one (by omega)
      refine ⟨hnodup, ?_, ?_, fun hp => ?_⟩
      · simp only [Node.advance, hq]
        omega
      · simp only [Node.advance]
        omega
      · have := hcount hp
        simp only [Node.advance, Node.queueLen, hq]
        omega
    · obtain ⟨hq, ho⟩ := queued_step hcfg ff s.node.epoch hown
        fun x hx => hsub ⟨x, hx⟩
      refine ⟨hnodup, ?_, ?_, fun hp => ?_⟩
      · simp only [Node.advance, hq]
        omega
      · simp only [Node.advance, hq]
        omega
      · have := hcount hp
        simp only [Node.advance, Node.queueLen, hq]
        omega

/-- No finish tries to open a round while a closing call, having found the queue non-empty, is
about to take the last unit off `outstanding`. -/
def Timely (s : Owner EdtGuid) : Act EdtGuid → Prop
  | .step i _ => (∃ c ∈ s.node.calls[i]?, 0 < c.draining) → s.node.epoch.phase ≠ .phase3 →
      weight retiring s.node.calls = 0
  | _ => True

instance (s : Owner EdtGuid) (a : Act EdtGuid) : Decidable (s.Timely a) := by
  cases a <;> unfold Timely <;> infer_instance

/-- While the queue is empty, a round is open or some call is about to open one. -/
structure Awake (s : Owner EdtGuid) : Prop where
  phase : ∀ c ∈ s.node.calls, ∀ p, c.wants = some p → s.node.epoch.phase = p
  round : 0 < weight left s.node.calls → s.node.epoch.phase ≠ .phase3 →
    s.node.epoch.queued = 0 → 2 ≤ s.node.epoch.outstanding.toNat ∨
      0 < weight draining s.node.calls ∨ 0 < weight deciding s.node.calls

lemma awake_init (h : (machine cfg).init s) : s.Awake := by
  obtain ⟨guid, edtGuid, slot, rfl⟩ := h
  refine ⟨?_, fun h => absurd h (Nat.lt_irrefl 0)⟩
  intro c hc
  cases hc

variable {i : ℕ} {ff : Bool} {c : Call EdtGuid}

/-- The phase clause is kept: only the closing call writes the phase, and it is alone. -/
theorem awake_phase_step (ht : s.Tokens cfg) (h : s.Awake) (hc : s.node.calls[i]? = some c) :
    ∀ d ∈ (s.node.advance cfg i ff c).calls, ∀ p, d.wants = some p →
      (s.node.advance cfg i ff c).epoch.phase = p := by
  intro d hd p hp
  have hmem := mem_of_getElem? hc
  have hown := ht.onOwner c hmem
  by_cases hcl : c.closing = 0
  · rw [show (s.node.advance cfg i ff c).epoch.phase = s.node.epoch.phase from
      phase_step ff _ hown hcl]
    rcases mem_or_eq_of_mem_set hd with hd | rfl
    · exact h.phase d hd p hp
    · have := wants_step ff _ hown (h.phase c hmem) hp
      rwa [phase_step ff _ hown hcl] at this
  · have hw : weight closing s.node.calls ≤ 1 := by
      have := ht.closing
      omega
    have hdc := eq_of_mem_set_of_weight_le_one hw hc (Nat.pos_of_ne_zero hcl) hd
      (by rw [closing_of_wants hp]; exact Nat.one_pos)
    subst hdc
    exact wants_step ff _ hown (h.phase c hmem) hp

lemma awake_round_step (hcfg : cfg.IsOwner) (ht : s.Tokens cfg) (h : s.Awake) (hc : s.node.calls[i]? = some c) (hok : s.Timely (.step i ff)) :
    0 < weight left (s.node.advance cfg i ff c).calls →
      (s.node.advance cfg i ff c).epoch.phase ≠ .phase3 →
      (s.node.advance cfg i ff c).epoch.queued = 0 →
      2 ≤ (s.node.advance cfg i ff c).epoch.outstanding.toNat ∨
        0 < weight draining (s.node.advance cfg i ff c).calls ∨
        0 < weight deciding (s.node.advance cfg i ff c).calls := by
  have hmem := mem_of_getElem? hc
  have hown := ht.onOwner c hmem
  have hround := h.round
  have hphase := h.phase c hmem
  have hclosing := ht.closing
  set e' := (c.step cfg ff s.node.epoch).1 with he'
  set c' := (c.step cfg ff s.node.epoch).2.1 with hc'
  -- a call that accounts for units after the step leaves the round open
  have hunits : 0 < c'.units cfg → 2 ≤ e'.outstanding.toNat := by
    intro hu
    exact (tokens_step hcfg ht ff hc).two_le_outstanding
      (List.mem_set (List.getElem?_eq_some_iff.1 hc).1 _) hu
  have hl := weight_set left hc c'
  have hd := weight_set draining hc c'
  have hg := weight_set deciding hc c'
  have hsplit : weight closing s.node.calls =
      weight deciding s.node.calls + weight retiring s.node.calls := by
    rw [← weight_add]
    exact congrArg (weight · _) (funext closing_eq)
  have hlr := le_weight_of_getElem? retiring hc
  simp only [Node.advance, ← he', ← hc']
  intro hleft hph hq
  -- most steps do not touch what the clause is about
  have keep : e'.queued = s.node.epoch.queued → e'.phase = s.node.epoch.phase →
      e'.outstanding = s.node.epoch.outstanding → c'.left = c.left →
      c'.draining = c.draining → c'.deciding = c.deciding →
      2 ≤ e'.outstanding.toNat ∨ 0 < weight draining (s.node.calls.set i c') ∨
        0 < weight deciding (s.node.calls.set i c') := by
    intro hq' hp' ho' hl' hd' hg'
    have := hround (by omega) (hp' ▸ hph) (hq' ▸ hq)
    rw [ho']
    omega
  have decides : c'.deciding = 1 → 2 ≤ e'.outstanding.toNat ∨
      0 < weight draining (s.node.calls.set i c') ∨
        0 < weight deciding (s.node.calls.set i c') := by
    intro hg'
    have : c.deciding ≤ weight deciding s.node.calls := le_weight_of_getElem? _ hc
    omega
  cases c with
  | finish x pc =>
    cases pc with
    | subQueued =>
      have hq0 : s.node.epoch.queued - 1 = 0 := hq
      simp only [he', hc', step, finishStep, hq0, ↓reduceIte, draining] at hd ⊢
      omega
    | casOutstanding =>
      by_cases h0 : s.node.epoch.outstanding = 0
      · refine .inl (hunits ?_)
        have := hcfg.rankCount
        simp only [hc', step, finishStep, h0, ↓reduceIte, units, cfg.requestsFrom_zero]
        omega
      · simp only [he', hc', step, finishStep, h0, ↓reduceIte] at hph hd hg ⊢
        have hret := hok ⟨_, hc, Nat.one_pos⟩ hph
        have h0' : s.node.epoch.outstanding.toNat ≠ 0 := by
          rwa [← UInt64.toNat_zero, Ne, UInt64.toNat_inj]
        simp only [deciding, closing] at hg
        omega
    | add =>
      apply keep <;> simp [he', hc', step, finishStep, FinishPc.afterAdd, hcfg.rankCount_ne_one,
        hcfg.own, left, draining, deciding, closing]
    | broadcast j =>
      apply keep <;> simp only [he', hc', step, finishStep] <;> split_ifs <;> rfl
    | done => exact keep rfl rfl rfl rfl rfl rfl
    | casPhase | complete | fire | delete | load | cas | send => simp [onOwner] at hown
  | send pc => simp [onOwner] at hown
  | reduce a f pc =>
    cases pc with
    | cas ta tf before =>
      by_cases hb : s.node.epoch.outstanding = before
      · by_cases h1 : before - 1 = 1
        · exact decides (by simp [hc', step, reduceStep, hb, h1, deciding, closing,
            retiring])
        · have h2 := ht.two_le_outstanding hmem Nat.one_pos
          subst hb
          have h1' : s.node.epoch.outstanding.toNat - 1 ≠ 1 := by
            rwa [← toNat_sub_one (by omega), ← UInt64.toNat_one, Ne, UInt64.toNat_inj]
          simp only [he', hc', step, reduceStep, ↓reduceIte]
          rw [toNat_sub_one (by omega)]
          omega
      · apply keep <;> simp [he', hc', step, reduceStep, hb, left, draining, deciding,
          closing]
    | casPhase tf =>
      have h2 : s.node.epoch.phase = .phase2 := hphase .phase2 rfl
      exact decides (by simp [hc', step, reduceStep, h2, deciding, closing,
        retiring])
    | fire tf => exact absurd (hphase .phase3 rfl) hph
    | readQueued =>
      have hq0 : s.node.epoch.queued = 0 := hq
      exact decides (by simp [hc', step, reduceStep, hq0, deciding, closing,
        retiring])
    | openRound =>
      refine .inl (hunits ?_)
      have := hcfg.rankCount
      simp only [hc', step, reduceStep, units, cfg.requestsFrom_zero]
      omega
    | closeRound =>
      -- the closing call is alone and has given up, so some finish is about to open a round
      have hr : (reduce a f .closeRound : Call EdtGuid).retiring = 1 := rfl
      have hl' : (reduce a f .closeRound : Call EdtGuid).left = 0 := rfl
      simp only [he', hc', step, left, draining] at hl hd hleft hq hph ⊢
      have := hround (by omega) hph hq
      omega
    | test | load | testPhase | broadcast =>
      apply keep <;> simp only [he', hc', step, reduceStep] <;> split_ifs <;> rfl
    | addActive | addFinish | undoActive | undoFinish | delete | done =>
      exact keep rfl rfl rfl rfl rfl rfl
    | check | testLastActive | testLastFinish =>
      apply decides
      simp only [hc', step, reduceStep, checkStep, hcfg.rankCount_ne_one, ↓reduceIte]
      split_ifs <;> rfl
    | readActive | readFinish | resetActive | resetFinish | complete | recordActive |
      recordFinish | setPhase2 => exact decides rfl

lemma awake_next (hcfg : cfg.IsOwner) (ht : s.Tokens cfg) (hq : s.Queue)
    (h : s.Awake) (hok : s.Timely a) (hst : s.next cfg a = some s') : s'.Awake := by
  have hq' := queue_next hcfg ht hq hst
  obtain ⟨hadm, n, out, hn, rfl⟩ := next_eq_some.1 hst
  cases a with
  | activate =>
    obtain ⟨rfl, rfl⟩ := Node.next_activate.1 hn
    exact ⟨by simpa using h.phase, by simpa using h.round⟩
  | enqueue edt =>
    obtain ⟨-, rfl, rfl⟩ := Node.next_enqueue.1 hn
    refine ⟨by simpa using h.phase, fun hl hp h0 => ?_⟩
    by_cases hpr : s.node.present = true
    · have hlen : (s.node.enqueue edt).epoch.queued.toNat = s.node.queueLen + 1 := by
        rw [hq'.counted hpr, Node.queueLen_enqueue]
      have h0' : (s.node.enqueue edt).epoch.queued.toNat = 0 := by
        rw [show (s.node.enqueue edt).epoch.queued = 0 from h0, UInt64.toNat_zero]
      omega
    · have hep : (s.node.enqueue edt).epoch = s.node.epoch := by simp [Node.enqueue, hpr]
      rw [hep] at hp h0
      simpa using h.round hl hp h0
  | finish edt =>
    obtain ⟨-, rfl, rfl⟩ := Node.next_finish.1 hn
    by_cases hpr : s.node.present = true
    · have hcalls := Node.finish_calls hpr edt
      refine ⟨?_, ?_⟩
      · rw [hcalls]
        exact forall_mem_append_singleton h.phase (by rintro _ ⟨⟩)
      · simpa [hcalls, left, draining, deciding, closing] using h.round
    · have hcalls := Node.finish_calls_of_not_present hpr edt
      exact ⟨by rw [hcalls]; exact h.phase, by rw [hcalls]; exact h.round⟩
  | request => exact absurd hadm id
  | reply x y =>
    obtain ⟨rfl, rfl⟩ := Node.next_reply.1 hn
    by_cases hpr : s.node.present = true
    · have hcalls := Node.start_calls hpr (.reduce x y .test : Call EdtGuid)
      refine ⟨?_, ?_⟩
      · rw [hcalls]
        exact forall_mem_append_singleton h.phase (by rintro _ ⟨⟩)
      · simpa [hcalls, left, draining, deciding, closing] using h.round
    · rw [Node.start_of_not_present hpr]
      exact ⟨h.phase, h.round⟩
  | step i ff =>
    obtain ⟨c, hc, -, rfl, rfl⟩ := Node.next_step.1 hn
    exact ⟨awake_phase_step ht h hc, awake_round_step hcfg ht h hc hok⟩

lemma reachable_awake (hcfg : cfg.IsOwner) (h : ((machine cfg).restrict Timely).Reachable s) :
    s.Awake := by
  have key : s.Tokens cfg ∧ s.Queue ∧ s.Awake := by
    refine h.invariant (I := fun s => s.Tokens cfg ∧ s.Queue ∧ s.Awake)
      (fun s (h : (machine cfg).init s) => ⟨tokens_init h, queue_init h, awake_init h⟩) ?_
    rintro s a s' - ⟨ht, hq, ha⟩ hst
    obtain ⟨hok, hst⟩ := Machine.restrict_next.1 hst
    exact ⟨tokens_next hcfg ht hst, queue_next hcfg ht hq hst, awake_next hcfg ht hq ha hok hst⟩
  exact key.2.2

end Owner

/-- **No lost wake-up**, if no finish tries to open a round while the closing call is about to take
the last unit off `outstanding`. -/
theorem no_lost_wakeup {cfg : Config} (hcfg : cfg.IsOwner) {s : Owner EdtGuid}
    (h : ((machine cfg).restrict Timely).Reachable s) (hidle : s.node.Idle)
    (hphase : s.node.epoch.phase ≠ .phase3) (hfin : ∃ x, .finish x .done ∈ s.node.calls)
    (hq : s.node.epoch.queued = 0) : 0 < s.node.epoch.outstanding := by
  obtain ⟨x, hx⟩ := hfin
  have hleft : 0 < weight left s.node.calls :=
    Nat.lt_of_lt_of_le Nat.one_pos (le_weight left hx)
  have hdrain : weight draining s.node.calls = 0 := weight_eq_zero.2 fun c hc => by
    have := hidle c hc
    cases c <;> simp_all [isDone, draining]
  have hdec : weight deciding s.node.calls = 0 := weight_eq_zero.2 fun c hc => by
    have := hidle c hc
    cases c <;> simp_all [isDone, deciding, closing]
  have hround := (reachable_awake hcfg h).round hleft hphase hq
  rw [UInt64.lt_iff_toNat_lt, UInt64.toNat_zero]
  omega

/-- The second EDT finishes while the round is open, and the closing call opens the next round. -/
theorem no_lost_wakeup_two_rounds :
    ∃ s : Owner EdtGuid, ((machine ⟨2, 0, 0⟩).restrict Timely).Reachable s ∧
      s.requests = 2 ∧ 0 < s.node.epoch.outstanding := by
  let x := EdtGuid.ofKey 1
  let y := EdtGuid.ofKey 2
  obtain ⟨s, hr, hreq, hidle, hph, hfin, hq⟩ :=
    Machine.Reachable.exists_of_exec (M := (machine ⟨2, 0, 0⟩).restrict Timely)
      (P := fun s : Owner EdtGuid => s.requests = 2 ∧ s.node.Idle ∧
        s.node.epoch.phase ≠ .phase3 ∧ .finish x .done ∈ s.node.calls ∧ s.node.epoch.queued = 0)
      (r := flatten [[.activate, .activate, .activate, .enqueue x, .finish x],
        replicate 5 (.step 0 false), [.enqueue y, .finish y],
        replicate 3 (.step 1 false), [.reply 0 0], replicate 15 (.step 2 false)])
      ⟨0, 0, 0, rfl⟩ (by decide +kernel)
  exact ⟨s, hr, hreq, no_lost_wakeup ⟨by decide, rfl, by decide⟩ hr hidle hph ⟨x, hfin⟩ hq⟩

/-- **A lost wake-up.** The closing call finds an EDT queued; before it takes the last unit off
`outstanding`, that EDT drains the queue and finds the round still open. -/
theorem lost_wakeup :
    ∃ s : Owner EdtGuid, (machine ⟨2, 0, 0⟩).Reachable s ∧ s.node.Idle ∧
      s.node.epoch.phase ≠ .phase3 ∧ (∃ x, .finish x .done ∈ s.node.calls) ∧
      s.node.epoch.queued = 0 ∧ ¬ 0 < s.node.epoch.outstanding := by
  let x := EdtGuid.ofKey 1
  let y := EdtGuid.ofKey 2
  obtain ⟨s, hr, hidle, hph, hfin, hq, hout⟩ :=
    Machine.Reachable.exists_of_exec (M := machine ⟨2, 0, 0⟩)
      (P := fun s : Owner EdtGuid => s.node.Idle ∧ s.node.epoch.phase ≠ .phase3 ∧
        .finish x .done ∈ s.node.calls ∧ s.node.epoch.queued = 0 ∧
        ¬ 0 < s.node.epoch.outstanding)
      (r := flatten [[.activate, .enqueue x, .activate, .finish x],
        replicate 5 (.step 0 false), [.enqueue y, .reply 0 0],
        replicate 11 (.step 1 false),
        [.finish y, .step 2 false, .step 2 false, .step 2 false, .step 1 false, .step 1 false]])
      ⟨0, 0, 0, rfl⟩ (by decide +kernel)
  exact ⟨s, hr, hidle, hph, ⟨x, hfin⟩, hq, hout⟩

end Arts
