import Arts.Epoch.Owner

/-!
# The totals of a round

The closing call uses the values its own adds returned, so they are complete exactly if what is
added after them sums to zero (`reduction_totals_iff`). `Round` is the history of the adds,
`SideInv` one counter.
-/

namespace Arts

open List Option Call

/-- The two counters of a round. -/
inductive Side where
  | active
  | finish
  deriving DecidableEq, Repr

namespace Side

def global (k : Side) (e : Epoch) : UInt32 :=
  match k with
  | .active => e.globalActiveCount
  | .finish => e.globalFinishedCount

def own (k : Side) (e : Epoch) : UInt32 :=
  match k with
  | .active => e.active
  | .finish => e.finished

def count (k : Side) (r : UInt32 × UInt32) : ℕ :=
  match k with
  | .active => r.1.toNat
  | .finish => r.2.toNat

end Side

/-! ### Logs of additions -/

/-- The additions to a counter, the latest one first: the call that added and the value. -/
abbrev AddLog := List (ℕ × UInt32)

namespace AddLog

def total (log : AddLog) : ℕ := (log.map (·.2.toNat)).sum

/-- The sum of the additions up to the one of call `i`. -/
def upTo (log : AddLog) (i : ℕ) : ℕ := total (log.dropWhile fun p => p.1 ≠ i)

/-- The sum of the additions after the one of call `i`. -/
def late (log : AddLog) (i : ℕ) : ℕ := total (log.takeWhile fun p => p.1 ≠ i)

lemma late_add_upTo (log : AddLog) (i : ℕ) : log.late i + log.upTo i = log.total := by
  rw [late, upTo, total, total, total, ← sum_append, ← map_append,
    takeWhile_append_dropWhile]

@[simp] lemma total_cons (i : ℕ) (v : UInt32) (log : AddLog) :
    total ((i, v) :: log) = v.toNat + total log := by
  simp [total]

lemma upTo_cons_self (i : ℕ) (v : UInt32) (log : AddLog) :
    upTo ((i, v) :: log) i = total ((i, v) :: log) := by
  simp [upTo]

lemma upTo_cons_ne {i j : ℕ} (h : j ≠ i) (v : UInt32) (log : AddLog) :
    upTo ((j, v) :: log) i = upTo log i := by
  simp [upTo, h]

lemma late_cons_self (i : ℕ) (v : UInt32) (log : AddLog) : late ((i, v) :: log) i = 0 := by
  simp [late, total]

end AddLog

namespace Call

variable {ε : Type*}

/-- The count that a call has yet to add to the counter. -/
def unadded (k : Side) : Call ε → ℕ
  | .reduce x y .test | .reduce x y .addActive => k.count (x, y)
  | .reduce _ y (.addFinish _) => match k with
    | .active => 0
    | .finish => y.toNat
  | _ => 0

/-- The sum that a call kept from its add. -/
def partialTotal (k : Side) : Call ε → Option UInt32
  | .reduce _ _ (.addFinish ta) => match k with
    | .active => some ta
    | .finish => none
  | .reduce _ _ (.load ta tf) | .reduce _ _ (.cas ta tf _) | .reduce _ _ (.readActive ta tf) =>
    match k with
    | .active => some ta
    | .finish => some tf
  | .reduce _ _ (.readFinish _ tf) => match k with
    | .active => none
    | .finish => some tf
  | _ => none

/-- The total after the owner's own count was added to it. -/
def fullTotal (k : Side) : Call ε → Option UInt32
  | .reduce _ _ (.readFinish ta _) => match k with
    | .active => some ta
    | .finish => none
  | .reduce _ _ (.resetActive ta tf) | .reduce _ _ (.resetFinish ta tf) |
    .reduce _ _ (.check ta tf) => match k with
    | .active => some ta
    | .finish => some tf
  | _ => none

def cleared (k : Side) : Call ε → Bool
  | .reduce _ _ (.readActive _ _) | .reduce _ _ (.readFinish _ _) |
    .reduce _ _ (.resetActive _ _) => false
  | .reduce _ _ (.resetFinish _ _) => decide (k = .active)
  | c => decide (c.closing = 1)

def opensRound (e : Epoch) : Call ε → Bool
  | .finish _ .casOutstanding => decide (e.outstanding = 0)
  | .reduce _ _ .openRound => true
  | _ => false

/-- The log of a counter after a step of the `i`-th call. -/
def logStep (k : Side) (i : ℕ) (log : AddLog) : Call ε → AddLog
  | .reduce x _ .addActive => match k with
    | .active => (i, x) :: log
    | .finish => log
  | .reduce _ y (.addFinish _) => match k with
    | .active => log
    | .finish => (i, y) :: log
  | _ => log

def ownStep (k : Side) (e : Epoch) (own : UInt32) : Call ε → UInt32
  | .reduce _ _ (.readActive _ _) => match k with
    | .active => e.active
    | .finish => own
  | .reduce _ _ (.readFinish _ _) => match k with
    | .active => own
    | .finish => e.finished
  | _ => own

/-- The call takes its counts back because the round was closed meanwhile. -/
def undoing : Call ε → Bool
  | .reduce _ _ .undoActive | .reduce _ _ .undoFinish => true
  | _ => false

/-- What a step of a call does to one of the counters. -/
inductive SideStep (k : Side) (cfg : Config) (e : Epoch) (c : Call ε) (e' : Epoch)
    (c' : Call ε) : Prop
  | keep : (∀ i log, c.logStep k i log = log) → (∀ o, c.ownStep k e o = o) →
      k.global e' = k.global e → c'.unadded k = c.unadded k →
      (∀ t, c'.partialTotal k = some t → c.partialTotal k = some t) →
      (∀ t, c'.fullTotal k = some t → c.fullTotal k = some t) →
      (c'.cleared k = true → c.cleared k = true) → SideStep k cfg e c e' c'
  | adds (v : UInt32) : (∀ i log, c.logStep k i log = (i, v) :: log) →
      (∀ o, c.ownStep k e o = o) → k.global e' = k.global e + v → c.unadded k = v.toNat →
      c'.unadded k = 0 → c'.partialTotal k = some (k.global e + v) → c'.fullTotal k = none →
      c'.cleared k = false → 0 < c.units cfg → SideStep k cfg e c e' c'
  /-- The closing call adds the owner's own count to its total. -/
  | reads (t : UInt32) : (∀ i log, c.logStep k i log = log) → (∀ o, c.ownStep k e o = k.own e) →
      k.global e' = k.global e → c'.unadded k = c.unadded k → c.partialTotal k = some t →
      c'.partialTotal k = none → c'.fullTotal k = some (t + k.own e) → c'.cleared k = false →
      c.closing = 1 → SideStep k cfg e c e' c'
  | resets : (∀ i log, c.logStep k i log = log) → (∀ o, c.ownStep k e o = o) →
      k.global e' = 0 → c'.unadded k = c.unadded k → c'.partialTotal k = none →
      c'.fullTotal k = c.fullTotal k → c.closing = 1 → SideStep k cfg e c e' c'

variable {cfg : Config} {c : Call ε}

lemma not_le_one {n : UInt64} (h : 2 ≤ n.toNat) : ¬ n ≤ 1 := fun hle => by
  have := UInt64.le_iff_toNat_le.1 hle
  rw [UInt64.toNat_one] at this
  omega

/-- Every step of a call on the owner is one of these, as long as a reply that is being handled
finds its round open. -/
theorem sideStep_step (k : Side) (ff : Bool) (e : Epoch) (hc : c.onOwner cfg = true) (hundo : c.undoing = false)
    (hopen : 0 < c.units cfg → 2 ≤ e.outstanding.toNat) :
    SideStep k cfg e c (c.step cfg ff e).1 (c.step cfg ff e).2.1 := by
  have hnle := fun hu => not_le_one (hopen hu)
  have hn {p : UInt32 → Prop} : ∀ t, none = some t → p t := by rintro _ ⟨⟩
  have hf {p : Prop} : false = true → p := by rintro ⟨⟩
  cases c with
  | finish x pc =>
    refine .keep (fun _ _ => rfl) (fun _ => rfl) ?_ rfl hn hn hf
    cases pc <;> simp only [step, finishStep] <;> (try split_ifs) <;> cases k <;> rfl
  | send pc => simp [onOwner] at hc
  | reduce x y pc =>
    cases pc with
    | addActive =>
      cases k
      · exact .adds x (fun _ _ => rfl) (fun _ => rfl) rfl rfl rfl rfl rfl rfl Nat.one_pos
      · exact .keep (fun _ _ => rfl) (fun _ => rfl) rfl rfl hn hn hf
    | addFinish ta =>
      cases k
      · exact .keep (fun _ _ => rfl) (fun _ => rfl) rfl rfl (fun _ => id) hn hf
      · exact .adds y (fun _ _ => rfl) (fun _ => rfl) rfl rfl rfl rfl rfl rfl Nat.one_pos
    | readActive ta tf =>
      cases k
      · exact .reads ta (fun _ _ => rfl) (fun _ => rfl) rfl rfl rfl rfl rfl rfl rfl
      · exact .keep (fun _ _ => rfl) (fun _ => rfl) rfl rfl (fun _ => id) hn hf
    | readFinish ta tf =>
      cases k
      · exact .keep (fun _ _ => rfl) (fun _ => rfl) rfl rfl hn (fun _ => id) hf
      · exact .reads tf (fun _ _ => rfl) (fun _ => rfl) rfl rfl rfl rfl rfl rfl rfl
    | resetActive ta tf =>
      cases k
      · exact .resets (fun _ _ => rfl) (fun _ => rfl) rfl rfl rfl rfl rfl
      · exact .keep (fun _ _ => rfl) (fun _ => rfl) rfl rfl hn (fun _ => id) hf
    | resetFinish ta tf =>
      cases k
      · exact .keep (fun _ _ => rfl) (fun _ => rfl) rfl rfl hn (fun _ => id) (fun _ => rfl)
      · exact .resets (fun _ _ => rfl) (fun _ => rfl) rfl rfl rfl rfl rfl
    | test =>
      simp only [step, reduceStep, hnle Nat.one_pos]
      exact .keep (fun _ _ => rfl) (fun _ => rfl) rfl rfl hn hn hf
    | load ta tf =>
      simp only [step, reduceStep, hnle Nat.one_pos]
      exact .keep (fun _ _ => rfl) (fun _ => rfl) rfl rfl (fun _ => id) hn hf
    | cas ta tf before =>
      simp only [step, reduceStep]
      split_ifs <;> cases k <;>
        exact .keep (fun _ _ => rfl) (fun _ => rfl) rfl rfl (by simp [partialTotal]) hn hf
    | undoActive | undoFinish => simp [undoing] at hundo
    | check ta tf =>
      simp only [step, reduceStep, checkStep]
      split_ifs <;> cases k <;>
        exact .keep (fun _ _ => rfl) (fun _ => rfl) rfl rfl hn hn (fun _ => rfl)
    | testLastActive | testLastFinish | casPhase | readQueued =>
      simp only [step, reduceStep]
      split_ifs <;> cases k <;>
        exact .keep (fun _ _ => rfl) (fun _ => rfl) rfl rfl hn hn (fun _ => rfl)
    | broadcast | testPhase =>
      simp only [step, reduceStep]
      split_ifs <;> cases k <;>
        exact .keep (fun _ _ => rfl) (fun _ => rfl) rfl rfl hn hn hf
    | complete | fire | recordActive | recordFinish | setPhase2 | openRound | closeRound =>
      cases k <;> exact .keep (fun _ _ => rfl) (fun _ => rfl) rfl rfl hn hn (fun _ => rfl)
    | delete | done =>
      cases k <;> exact .keep (fun _ _ => rfl) (fun _ => rfl) rfl rfl hn hn hf

variable {e : Epoch}

lemma undoing_step (ff : Bool)
    (hundo : c.undoing = false) (hopen : 0 < c.units cfg → 2 ≤ e.outstanding.toNat) :
    (c.step cfg ff e).2.1.undoing = false := by
  cases c with
  | finish x pc => rfl
  | send pc => rfl
  | reduce x y pc =>
    cases pc with
    | load ta tf =>
      simp [step, reduceStep, not_le_one (hopen Nat.one_pos), undoing]
    | undoActive | undoFinish => simp [undoing] at hundo
    | _ => simp only [step, reduceStep, checkStep]; (try split_ifs) <;> rfl

lemma outstanding_step (cfg : Config) (ff : Bool) (e : Epoch)
    (hno : c.opensRound e = false) : (c.step cfg ff e).1.outstanding = e.outstanding ∨
      (c.step cfg ff e).1.outstanding = e.outstanding - 1 ∧
        (0 < c.units cfg ∨ ∀ k, c.cleared k = true) := by
  cases c with
  | finish x pc =>
    cases pc <;> simp only [step, finishStep] <;> (try split_ifs) <;> simp_all [opensRound]
  | send pc =>
    refine .inl ?_
    cases pc with
    | read a f => cases a <;> cases f <;> rfl
    | cas => simp only [step, sendStep]; split_ifs <;> rfl
    | mask | send | done => rfl
  | reduce x y pc =>
    cases pc with
    | openRound => simp [opensRound] at hno
    | closeRound => exact .inr ⟨rfl, .inr fun _ => rfl⟩
    | cas ta tf before =>
      simp only [step, reduceStep]
      split_ifs with h
      · subst h; exact .inr ⟨rfl, .inl Nat.one_pos⟩
      · subst h; exact .inr ⟨rfl, .inl Nat.one_pos⟩
      · exact .inl rfl
    | check | casPhase =>
      refine .inl ?_
      simp only [step, reduceStep, checkStep]
      split_ifs <;> rfl
    | _ => exact .inl rfl

lemma opensRound_step (k : Side) (cfg : Config) (ff : Bool)
    (hopen : c.opensRound e = true) : k.global (c.step cfg ff e).1 = k.global e ∧
      (c.step cfg ff e).2.1.unadded k = 0 ∧ (c.step cfg ff e).2.1.partialTotal k = none ∧
      (c.step cfg ff e).2.1.fullTotal k = none ∧ (c.step cfg ff e).2.1.closing = 0 ∧
      (e.outstanding.toNat = 0 ∨ c.cleared k = true) := by
  cases c with
  | finish x pc =>
    cases pc <;> simp_all [opensRound, step, finishStep]
    cases k <;> simp [Side.global, unadded, partialTotal, fullTotal, closing]
  | send pc => simp [opensRound] at hopen
  | reduce x y pc =>
    cases pc <;> simp_all [opensRound, step, reduceStep]
    cases k <;> simp [Side.global, unadded, partialTotal, fullTotal, closing, cleared]

section Places

variable {k : Side} {cfg : Config} {c : Call ε}

lemma unadded_eq_zero (h : c.units cfg = 0) : c.unadded k = 0 := by
  cases c with
  | reduce x y pc => cases pc <;> simp_all [units, unadded]
  | finish x pc => rfl
  | send pc => rfl

variable {t : UInt32}

lemma units_or_closing_of_partialTotal (cfg : Config) (h : c.partialTotal k = some t) :
    0 < c.units cfg ∨ c.closing = 1 := by
  cases c with
  | reduce x y pc => cases pc <;> simp_all [units, closing, partialTotal]
  | finish x pc | send pc => simp [partialTotal] at h

lemma closing_of_fullTotal (h : c.fullTotal k = some t) : c.closing = 1 := by
  cases c with
  | reduce x y pc => cases pc <;> simp_all [closing, fullTotal]
  | finish x pc | send pc => simp [fullTotal] at h

lemma closing_of_cleared (h : c.cleared k = true) : c.closing = 1 := by
  cases c with
  | reduce x y pc => cases pc <;> simp_all [closing, cleared]
  | finish x pc | send pc => simp [cleared, closing] at h

end Places

end Call

/-- The owner with the history of the current round. -/
structure Round (ε : Type*) where
  owner : Owner ε
  /-- The replies received since the round was opened. -/
  replies : List (UInt32 × UInt32)
  /-- The adds to the counters since the round was opened. -/
  log : Side → AddLog
  /-- The owner's own counts, as read by the last closing call. -/
  own : Side → UInt32

namespace Round

variable {ε : Type*}

/-- The history after a step of the `i`-th call `c`. -/
def record (s : Round ε) (o : Owner ε) (i : ℕ) (c : Call ε) : Round ε :=
  if c.opensRound s.owner.node.epoch then ⟨o, [], fun _ => [], s.own⟩
  else ⟨o, s.replies, fun k => c.logStep k i (s.log k),
    fun k => c.ownStep k s.owner.node.epoch (s.own k)⟩

/-- The history after an action that takes the owner to `o`. -/
def track (s : Round ε) (o : Owner ε) : Act ε → Round ε
  | .reply x y =>
    { s with owner := o, replies := if s.owner.node.present then (x, y) :: s.replies else s.replies }
  | .step i _ =>
    match s.owner.node.calls[i]? with
    | none => { s with owner := o }
    | some c => s.record o i c
  | _ => { s with owner := o }

/-- The owner as a machine that keeps the history of the current round. -/
def machine [DecidableEq ε] (cfg : Config) : Machine (Round ε) (Act ε) where
  init s := ∃ guid edtGuid slot,
    s = ⟨⟨.create guid edtGuid slot true, 0, 0⟩, [], fun _ => [], fun _ => 0⟩
  next s a := (s.owner.next cfg a).map fun o => s.track o a

def repliesTotal (k : Side) (s : Round ε) : ℕ := (s.replies.map k.count).sum

structure SideInv (k : Side) (s : Round ε) : Prop where
  logged : s.repliesTotal k = (s.log k).total + weight (unadded k) s.owner.node.calls
  global : 2 ≤ s.owner.node.epoch.outstanding.toNat →
    (k.global s.owner.node.epoch).toNat = (s.log k).total % 2 ^ 32
  idle : s.owner.node.epoch.outstanding.toNat = 0 → k.global s.owner.node.epoch = 0
  cleared : ∀ c ∈ s.owner.node.calls, c.cleared k = true → k.global s.owner.node.epoch = 0
  partialTotal : ∀ (i : ℕ) (c : Call ε) (t : UInt32), s.owner.node.calls[i]? = some c →
    c.partialTotal k = some t → t.toNat = (s.log k).upTo i % 2 ^ 32
  fullTotal : ∀ (i : ℕ) (c : Call ε) (t : UInt32), s.owner.node.calls[i]? = some c →
    c.fullTotal k = some t → t.toNat = ((s.log k).upTo i + (s.own k).toNat) % 2 ^ 32

section Step

variable {cfg : Config} {k : Side} {s : Round ε} {i : ℕ} {ff : Bool} {c : Call ε}

variable {o : Owner ε}

lemma sideInv_open (ht : s.owner.Tokens cfg) (h : s.SideInv k)
    (hc : s.owner.node.calls[i]? = some c) (hopen : c.opensRound s.owner.node.epoch = true) (ho : o.node = s.owner.node.advance cfg i ff c) :
    SideInv k ⟨o, [], fun _ => [], s.own⟩ := by
  obtain ⟨hglobal, hun, hpart, hfull, hcl', hwhy⟩ :=
    opensRound_step k cfg ff hopen
  have hclosing := ht.closing
  have hlec := le_weight_of_getElem? closing hc
  have hone : s.owner.node.epoch.outstanding.toNat ≤ 1 := by
    rcases hwhy with h0 | hcl
    · omega
    · have := closing_of_cleared hcl
      omega
  -- nobody handles a reply, and nobody but the opening call closes a round
  have hunits : ∀ d ∈ s.owner.node.calls, d.units cfg = 0 := by
    obtain ⟨lost, -, hacc⟩ := ht.account
    have := ht.answered
    exact weight_eq_zero.1 (by omega)
  have hset := weight_set closing hc (c.step cfg ff s.owner.node.epoch).2.1
  have hother : ∀ d ∈ s.owner.node.calls.set i (c.step cfg ff s.owner.node.epoch).2.1,
      d.closing = 0 := by
    refine weight_eq_zero.1 ?_
    rcases hwhy with h0 | hcl
    · omega
    · have := closing_of_cleared hcl
      omega
  have hzero : k.global s.owner.node.epoch = 0 := by
    rcases hwhy with h0 | hcl
    · exact h.idle h0
    · exact h.cleared c (mem_of_getElem? hc) hcl
  have hzero' : k.global (s.owner.node.advance cfg i ff c).epoch = 0 := hglobal.trans hzero
  have hmem : ∀ d ∈ s.owner.node.calls.set i (c.step cfg ff s.owner.node.epoch).2.1,
      d.unadded k = 0 ∧ d.partialTotal k = none ∧ d.fullTotal k = none := by
    intro d hd
    have hdc := hother d hd
    rcases mem_or_eq_of_mem_set hd with hd | rfl
    · refine ⟨unadded_eq_zero (hunits d hd), ?_, ?_⟩
      · refine eq_none_iff_forall_ne_some.2 fun t hdt => ?_
        have := hunits d hd
        have := units_or_closing_of_partialTotal cfg hdt
        omega
      · refine eq_none_iff_forall_ne_some.2 fun t hdt => ?_
        have := closing_of_fullTotal hdt
        omega
    · exact ⟨hun, hpart, hfull⟩
  refine ⟨?_, ?_, ?_, ?_, ?_, ?_⟩
  · simp only [ho, AddLog.total, map_nil, sum_nil, Nat.zero_add]
    exact (weight_eq_zero.2 fun d hd => (hmem d hd).1).symm
  · rw [ho, hzero']
    exact fun _ => rfl
  · rw [ho, hzero']
    exact fun _ => rfl
  · rw [ho, hzero']
    exact fun _ _ _ => rfl
  · intro j d t hd hdt
    rw [ho] at hd
    rw [(hmem d (mem_of_getElem? hd)).2.1] at hdt
    cases hdt
  · intro j d t hd hdt
    rw [ho] at hd
    rw [(hmem d (mem_of_getElem? hd)).2.2] at hdt
    cases hdt

lemma sideInv_step (ht : s.owner.Tokens cfg) (h : s.SideInv k)
    (hundo : c.undoing = false) (hc : s.owner.node.calls[i]? = some c)
    (hno : c.opensRound s.owner.node.epoch = false)
    (ho : o.node = s.owner.node.advance cfg i ff c) :
    SideInv k ⟨o, s.replies, fun k => c.logStep k i (s.log k),
      fun k => c.ownStep k s.owner.node.epoch (s.own k)⟩ := by
  have hmem := mem_of_getElem? hc
  have hopen := ht.two_le_outstanding hmem
  have hclosing := ht.closing
  have hlec := le_weight_of_getElem? closing hc
  have hun := weight_set (unadded k) hc (c.step cfg ff s.owner.node.epoch).2.1
  -- `outstanding` does not grow, and drops to `0` only when the counter is clear
  have hout : (2 ≤ (c.step cfg ff s.owner.node.epoch).1.outstanding.toNat →
      2 ≤ s.owner.node.epoch.outstanding.toNat) ∧
      ((c.step cfg ff s.owner.node.epoch).1.outstanding.toNat = 0 →
        k.global s.owner.node.epoch = 0) := by
    rcases outstanding_step cfg ff _ hno with hsame | ⟨hsub, hu | hcl⟩
    · rw [hsame]
      exact ⟨id, h.idle⟩
    · have h2 := hopen hu
      rw [hsub, toNat_sub_one (by omega)]
      exact ⟨fun _ => h2, fun h0 => by omega⟩
    · have := closing_of_cleared (hcl k)
      rw [hsub, toNat_sub_one (by omega)]
      exact ⟨fun h2 => by omega, fun _ => h.cleared c hmem (hcl k)⟩
  have hother : c.closing = 1 → ∀ j d, i ≠ j → s.owner.node.calls[j]? = some d →
      d.closing ≠ 1 := by
    intro hcl j d hij hd hdc
    have := add_le_weight closing hc hd hij
    omega
  have hlogged := h.logged
  simp only [repliesTotal] at hlogged
  cases sideStep_step k ff s.owner.node.epoch (ht.onOwner c hmem) hundo hopen with
  | keep hl hw hg hu hp hf hcl =>
    refine ⟨?_, ?_, ?_, ?_, ?_, ?_⟩ <;> simp only [ho, Node.advance, hl, hw, hg, repliesTotal]
    · omega
    · exact fun h2 => h.global (hout.1 h2)
    · exact hout.2
    · exact forall_mem_set h.cleared fun hd => h.cleared c hmem (hcl hd)
    · intro j d t hd hdt
      rcases getElem?_set_cases hd with ⟨rfl, rfl⟩ | ⟨-, hd⟩
      · exact h.partialTotal i c t hc (hp t hdt)
      · exact h.partialTotal j d t hd hdt
    · intro j d t hd hdt
      rcases getElem?_set_cases hd with ⟨rfl, rfl⟩ | ⟨-, hd⟩
      · exact h.fullTotal i c t hc (hf t hdt)
      · exact h.fullTotal j d t hd hdt
  | adds v hl hw hg hu hu' hp hf hcl hunit =>
    -- the round is open, so no call is closing it
    have h2 := hopen hunit
    have hsum : (k.global s.owner.node.epoch + v).toNat =
        (v.toNat + (s.log k).total) % 2 ^ 32 := by
      rw [UInt32.toNat_add, h.global h2]
      omega
    have hnone : ∀ d ∈ s.owner.node.calls, d.closing = 0 := weight_eq_zero.1 (by omega)
    refine ⟨?_, ?_, ?_, ?_, ?_, ?_⟩ <;>
      simp only [ho, Node.advance, hl, hw, hg, repliesTotal, AddLog.total_cons]
    · omega
    · exact fun _ => hsum
    · intro h0
      rcases outstanding_step cfg ff _ hno with hsame | ⟨hsub, -⟩
      · rw [hsame] at h0
        omega
      · rw [hsub, toNat_sub_one (by omega)] at h0
        omega
    · refine forall_mem_set (fun d hd hdc => ?_) fun hd => ?_
      · have := hnone d hd
        have := closing_of_cleared hdc
        omega
      · rw [hcl] at hd
        cases hd
    · intro j d t hd hdt
      rcases getElem?_set_cases hd with ⟨rfl, rfl⟩ | ⟨hij, hd⟩
      · rw [hp] at hdt
        cases hdt
        rw [AddLog.upTo_cons_self, AddLog.total_cons, hsum]
      · rw [AddLog.upTo_cons_ne hij]
        exact h.partialTotal j d t hd hdt
    · intro j d t hd hdt
      rcases getElem?_set_cases hd with ⟨rfl, rfl⟩ | ⟨hij, hd⟩
      · rw [hf] at hdt
        cases hdt
      · rw [AddLog.upTo_cons_ne hij]
        exact h.fullTotal j d t hd hdt
  | reads t hl hw hg hu hp hp' hf hcl hclose =>
    refine ⟨?_, ?_, ?_, ?_, ?_, ?_⟩ <;> simp only [ho, Node.advance, hl, hw, hg, repliesTotal]
    · omega
    · exact fun h2 => h.global (hout.1 h2)
    · exact hout.2
    · refine forall_mem_set h.cleared fun hd => ?_
      rw [hcl] at hd
      cases hd
    · intro j d t' hd hdt
      rcases getElem?_set_cases hd with ⟨rfl, rfl⟩ | ⟨-, hd⟩
      · rw [hp'] at hdt
        cases hdt
      · exact h.partialTotal j d t' hd hdt
    · intro j d t' hd hdt
      rcases getElem?_set_cases hd with ⟨rfl, rfl⟩ | ⟨hij, hd⟩
      · rw [hf] at hdt
        cases hdt
        rw [UInt32.toNat_add, h.partialTotal i c t hc hp]
        omega
      · exact absurd (closing_of_fullTotal hdt) (hother hclose j d hij hd)
  | resets hl hw hg hu hp hf hclose =>
    refine ⟨?_, ?_, ?_, ?_, ?_, ?_⟩ <;> simp only [ho, Node.advance, hl, hw, hg, repliesTotal]
    · omega
    · intro h2
      omega
    · exact fun _ => trivial
    · exact fun _ _ _ => trivial
    · intro j d t hd hdt
      rcases getElem?_set_cases hd with ⟨rfl, rfl⟩ | ⟨-, hd⟩
      · rw [hp] at hdt
        cases hdt
      · exact h.partialTotal j d t hd hdt
    · intro j d t hd hdt
      rcases getElem?_set_cases hd with ⟨rfl, rfl⟩ | ⟨-, hd⟩
      · exact h.fullTotal i c t hc (hf ▸ hdt)
      · exact h.fullTotal j d t hd hdt

lemma SideInv.congr (h : s.SideInv k) (hcalls : o.node.calls = s.owner.node.calls)
    (hout : o.node.epoch.outstanding = s.owner.node.epoch.outstanding)
    (hglobal : k.global o.node.epoch = k.global s.owner.node.epoch) :
    SideInv k { s with owner := o } := by
  refine ⟨?_, ?_, ?_, ?_, ?_, ?_⟩ <;> simp only [hcalls, hout, hglobal]
  · exact h.logged
  · exact h.global
  · exact h.idle
  · exact h.cleared
  · exact h.partialTotal
  · exact h.fullTotal

lemma SideInv.start (h : s.SideInv k) {rs : List (UInt32 × UInt32)}
    (hcalls : o.node.calls = s.owner.node.calls ++ [c])
    (hepoch : o.node.epoch = s.owner.node.epoch)
    (hrs : (rs.map k.count).sum = c.unadded k + s.repliesTotal k) (hp : c.partialTotal k = none)
    (hf : c.fullTotal k = none) (hcl : c.cleared k = false) :
    SideInv k { s with owner := o, replies := rs } := by
  have hcases : ∀ {j : ℕ} {d : Call ε}, (s.owner.node.calls ++ [c])[j]? = some d →
      s.owner.node.calls[j]? = some d ∨ d = c := by
    intro j d hd
    rw [getElem?_append] at hd
    split_ifs at hd
    · exact .inl hd
    · exact .inr (mem_singleton.1 (mem_of_getElem? hd))
  refine ⟨?_, ?_, ?_, ?_, ?_, ?_⟩ <;> simp only [hcalls, hepoch, repliesTotal]
  · rw [hrs, h.logged, weight_append, weight_cons, weight_nil]
    omega
  · exact h.global
  · exact h.idle
  · exact forall_mem_append_singleton h.cleared fun hc => by rw [hcl] at hc; cases hc
  · intro j d t hd hdt
    rcases hcases hd with hd | rfl
    · exact h.partialTotal j d t hd hdt
    · rw [hp] at hdt
      cases hdt
  · intro j d t hd hdt
    rcases hcases hd with hd | rfl
    · exact h.fullTotal j d t hd hdt
    · rw [hf] at hdt
      cases hdt

end Step

/-- The accounts of `outstanding` and of both counters. -/
structure Inv (cfg : Config) (s : Round ε) : Prop where
  tokens : s.owner.Tokens cfg
  noUndo : ∀ c ∈ s.owner.node.calls, c.undoing = false
  side : ∀ k, s.SideInv k

variable [DecidableEq ε] {cfg : Config} {s s' : Round ε}

lemma inv_init (h : (machine cfg).init s) : s.Inv cfg := by
  obtain ⟨guid, edtGuid, slot, rfl⟩ := h
  refine ⟨Owner.tokens_init ⟨guid, edtGuid, slot, rfl⟩, ?_, fun k => ?_⟩
  · intro c hc
    cases hc
  · refine ⟨rfl, fun _ => ?_, fun _ => ?_, ?_, ?_, ?_⟩
    · cases k <;> rfl
    · cases k <;> rfl
    · intro c hc
      cases hc
    · intro i c t hc
      simp [Node.create] at hc
    · intro i c t hc
      simp [Node.create] at hc

lemma inv_next (hcfg : cfg.IsOwner) {a : Act ε} (h : s.Inv cfg)
    (hnext : (machine cfg).next s a = some s') : s'.Inv cfg := by
  obtain ⟨o, hst, rfl⟩ := map_eq_some_iff.1 hnext
  have htok := Owner.tokens_next hcfg h.tokens hst
  obtain ⟨hadm, n, out, hn, rfl⟩ := Owner.next_eq_some.1 hst
  cases a with
  | activate =>
    obtain ⟨rfl, rfl⟩ := Node.next_activate.1 hn
    refine ⟨htok, by simpa [track] using h.noUndo, fun k =>
      (h.side k).congr (by simp) (by simp) ?_⟩
    cases k <;> cases hp : s.owner.node.present <;> simp [Side.global, Node.activate, hp]
  | enqueue edt =>
    obtain ⟨-, rfl, rfl⟩ := Node.next_enqueue.1 hn
    refine ⟨htok, h.noUndo, fun k => (h.side k).congr rfl (by simp) ?_⟩
    cases k <;> cases hp : s.owner.node.present <;> simp [Side.global, Node.enqueue, hp]
  | finish edt =>
    obtain ⟨-, rfl, rfl⟩ := Node.next_finish.1 hn
    by_cases hp : s.owner.node.present = true
    · have hcalls := Node.finish_calls hp edt
      refine ⟨htok, ?_, fun k => ?_⟩
      · simp only [track, hcalls]
        exact forall_mem_append_singleton h.noUndo rfl
      · exact (h.side k).start hcalls rfl (by simp [repliesTotal, unadded]) rfl rfl rfl
    · have hcalls := Node.finish_calls_of_not_present hp edt
      exact ⟨htok, by simp only [track, hcalls]; exact h.noUndo,
        fun k => (h.side k).congr hcalls rfl rfl⟩
  | request => exact absurd hadm id
  | reply x y =>
    obtain ⟨rfl, rfl⟩ := Node.next_reply.1 hn
    by_cases hp : s.owner.node.present = true
    · have hcalls := Node.start_calls hp (.reduce x y .test)
      refine ⟨htok, ?_, fun k => ?_⟩
      · simp only [track, hcalls]
        exact forall_mem_append_singleton h.noUndo rfl
      · simp only [track, hp]
        exact (h.side k).start hcalls rfl (by simp [repliesTotal, unadded]) rfl rfl rfl
    · have hcalls : (s.owner.node.start (.reduce x y .test)).calls = s.owner.node.calls := by
        rw [Node.start_of_not_present hp]
      refine ⟨htok, by simp only [track, hcalls]; exact h.noUndo, fun k => ?_⟩
      simp only [track, hp]
      exact (h.side k).congr hcalls rfl rfl
  | step i ff =>
    obtain ⟨c, hc, -, rfl, rfl⟩ := Node.next_step.1 hn
    have hmem := mem_of_getElem? hc
    have hundo := undoing_step ff (h.noUndo c hmem) (h.tokens.two_le_outstanding hmem)
    simp only [track, hc, record]
    split_ifs with hopen
    · exact ⟨htok, forall_mem_set h.noUndo hundo, fun k =>
        sideInv_open h.tokens (h.side k) hc hopen rfl⟩
    · exact ⟨htok, forall_mem_set h.noUndo hundo, fun k =>
        sideInv_step h.tokens (h.side k) (h.noUndo c hmem) hc (by simpa using hopen) rfl⟩

lemma reachable_inv (hcfg : cfg.IsOwner) (h : (machine cfg).Reachable s) : s.Inv cfg :=
  h.invariant (fun _ => inv_init) fun _ _ _ _ hi hst => inv_next hcfg hi hst

end Round

/-- **When the totals of a round are complete**: exactly if what other calls added after the adds of
the closing call sums to zero, for both counters. -/
theorem reduction_totals_iff {ε : Type*} [DecidableEq ε] {cfg : Config} (hcfg : cfg.IsOwner)
    {s : Round ε} (h : (Round.machine cfg).Reachable s) {i : ℕ} {a f ta tf : UInt32}
    (hc : s.owner.node.calls[i]? = some (.reduce a f (.check ta tf))) :
    weight closing s.owner.node.calls = 1 ∧
      ((ta.toNat = (s.repliesTotal .active + (s.own .active).toNat) % 2 ^ 32 ∧
          tf.toNat = (s.repliesTotal .finish + (s.own .finish).toNat) % 2 ^ 32) ↔
        (s.log .active).late i % 2 ^ 32 = 0 ∧ (s.log .finish).late i % 2 ^ 32 = 0) := by
  have hi := Round.reachable_inv hcfg h
  have hclosing := hi.tokens.closing
  have hone : (reduce a f (.check ta tf) : Call ε).closing = 1 := rfl
  have hle := le_weight_of_getElem? closing hc
  -- the round is being closed, so every reply has been added
  have hunits : ∀ d ∈ s.owner.node.calls, d.units cfg = 0 := by
    obtain ⟨lost, -, hacc⟩ := hi.tokens.account
    have := hi.tokens.answered
    exact weight_eq_zero.1 (by omega)
  have hadded : ∀ k, s.repliesTotal k = (s.log k).late i + (s.log k).upTo i := fun k => by
    rw [(hi.side k).logged, weight_eq_zero.2 fun d hd => unadded_eq_zero (hunits d hd),
      AddLog.late_add_upTo, Nat.add_zero]
  have hta := (hi.side .active).fullTotal i _ ta hc rfl
  have htf := (hi.side .finish).fullTotal i _ tf hc rfl
  have ha := hadded .active
  have hf := hadded .finish
  omega

/-- Two replies handled one after the other: the totals are complete. -/
theorem reduction_totals_in_turn :
    ∃ (s : Round EdtGuid) (ta tf : UInt32), (Round.machine ⟨3, 0, 0⟩).Reachable s ∧
      s.owner.node.calls[2]? = some (.reduce 5 5 (.check ta tf)) ∧
      ta.toNat = (s.repliesTotal .active + (s.own .active).toNat) % 2 ^ 32 := by
  let x := EdtGuid.ofKey 1
  obtain ⟨s, hr, hc, ha, hf⟩ :=
    Machine.Reachable.exists_of_exec (M := Round.machine ⟨3, 0, 0⟩)
      (P := fun s : Round EdtGuid => s.owner.node.calls[2]? = some (.reduce 5 5 (.check 7 7)) ∧
        (s.log .active).late 2 % 2 ^ 32 = 0 ∧ (s.log .finish).late 2 % 2 ^ 32 = 0)
      (r := flatten [[.activate, .enqueue x, .finish x], replicate 6 (.step 0 false),
        [.reply 1 1], replicate 5 (.step 1 false), [.reply 5 5],
        replicate 9 (.step 2 false)])
      ⟨0, 0, 0, rfl⟩ (by decide +kernel)
  exact ⟨s, 7, 7, hr, hc, ((reduction_totals_iff ⟨by decide, rfl, by decide⟩ hr hc).2.2 ⟨ha, hf⟩).1⟩

/-- **Lost counts.** The second reply adds its counts and takes its unit after the adds of the first
one, which then closes the round. -/
theorem reduction_totals_overtaken :
    ∃ s : Round EdtGuid, (Round.machine ⟨3, 0, 0⟩).Reachable s ∧ s.replies = [(5, 5), (1, 1)] ∧
      s.own .active = 1 ∧ s.own .finish = 1 ∧
      s.owner.node.calls[1]? = some (.reduce 1 1 (.check 2 2)) := by
  let x := EdtGuid.ofKey 1
  exact Machine.Reachable.exists_of_exec
    (r := flatten [[.activate, .enqueue x, .finish x], replicate 6 (.step 0 false),
        [.reply 1 1, .reply 5 5], replicate 3 (.step 1 false),
        replicate 5 (.step 2 false), replicate 6 (.step 1 false)])
    ⟨0, 0, 0, rfl⟩ (by decide +kernel)

end Arts
