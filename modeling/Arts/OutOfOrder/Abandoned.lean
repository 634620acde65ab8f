import Arts.OutOfOrder.Overflow

/-!
# A replay is abandoned after the last attempt

A fire gives up after 1000 attempts (`OoRun.fire_gives_up`). If its last attempt finds no adders,
or another fire at work, every accepted item is replayed (`OoRun.never_abandoned`).
-/

namespace Arts

open List Option OoList OoPc

variable {α : Type*}

namespace OoPc

/-- The fire has obtained the lock and has the rest of its batch to replay. -/
def replaying : OoPc α → Bool
  | .fireMark | .fireCount | .fireNext _ _ | .fireSwap _ _ | .fireCall _ _ _ | .fireClear _ => true
  | _ => false

/-- The fire has set `isFired` and has the lock. -/
def marked : OoPc α → Bool
  | .fireCount | .fireNext _ _ | .fireSwap _ _ | .fireCall _ _ _ | .fireClear _ | .fireDetach
  | .fireUnlock => true
  | _ => false

lemma phase_of_replaying {p : OoPc α} (h : p.replaying) : p.phase = .writing := by
  cases p <;> first | rfl | cases h

lemma phase_of_marked {p : OoPc α} (h : p.marked) : p.phase = .writing := by
  cases p <;> first | rfl | cases h

lemma marked_of_replaying {p : OoPc α} (h : p.replaying) : p = .fireMark ∨ p.marked := by
  cases p <;> first | exact .inl rfl | exact .inr rfl | cases h

lemma marked_addFrom (x : α) (pos i : ℕ) : (addFrom x pos i).marked = false := by
  unfold addFrom
  split_ifs <;> rfl

lemma marked_retry (n : ℕ) : (retry n : OoPc α).marked = false := by
  unfold retry
  split_ifs <;> rfl

lemma replaying_fireFrom (pos j : ℕ) : (fireFrom pos j : OoPc α).replaying := by
  unfold fireFrom
  split_ifs <;> rfl

end OoPc

namespace OoList

variable {m m' : OoList α} {p p' : OoPc α}

/-- The step leaves `isFired` and the batch alone; a fire that replays goes on replaying. -/
structure Keeps (m : OoList α) (p : OoPc α) (m' : OoList α) (p' : OoPc α) : Prop where
  isFired : m'.isFired = m.isFired
  positions : m'.positions = m.positions
  fires : m'.fires = m.fires
  replaying : p.replaying → p'.replaying
  marked : p'.marked → p.marked

/-- **Which steps touch** `isFired`, the batch and the standing of a fire. -/
theorem step_marks (hst : m.step p = some (m', p')) :
    (p = .fireMark ∧ p' = .fireCount ∧ m'.isFired = true) ∨
    (p = .resetMark ∧ p' = .resetUnlock ∧ m'.isFired = false) ∨
    ((∃ x, p = .addPosition x) ∧ p'.marked = false ∧ m'.isFired = m.isFired) ∨
    ((∃ pos, p = .fireClear pos) ∧ p' = .fireDetach ∧ m' = m.clear) ∨ Keeps m p m' p' := by
  have hno {q : Prop} : false = true → q := by rintro ⟨⟩
  cases p with
  | idle | added | fired | resetDone => cases hst
  | fireMark =>
    cases hst
    exact .inl ⟨rfl, rfl, rfl⟩
  | resetMark =>
    cases hst
    exact .inr (.inl ⟨rfl, rfl, rfl⟩)
  | addPosition x =>
    cases hst
    exact .inr (.inr (.inl ⟨⟨x, rfl⟩, marked_addFrom .., rfl⟩))
  | fireClear pos =>
    cases hst
    exact .inr (.inr (.inr (.inl ⟨⟨pos, rfl⟩, rfl, rfl⟩)))
  | addWalk x pos k =>
    refine .inr (.inr (.inr (.inr ?_)))
    simp only [step] at hst
    split_ifs at hst <;> obtain ⟨rfl, rfl⟩ := Prod.mk.inj (some.inj hst)
    · exact ⟨rfl, rfl, rfl, hno, by simp [marked_addFrom]⟩
    · exact ⟨rfl, rfl, rfl, hno, hno⟩
  | addAlloc x pos k =>
    cases hst
    exact .inr (.inr (.inr (.inr ⟨rfl, rfl, rfl, hno, by simp [marked_addFrom]⟩)))
  | fireTry n =>
    refine .inr (.inr (.inr (.inr ?_)))
    simp only [step] at hst
    split_ifs at hst <;> obtain ⟨rfl, rfl⟩ := Prod.mk.inj (some.inj hst)
    · exact ⟨rfl, rfl, rfl, hno, hno⟩
    · exact ⟨rfl, rfl, rfl, hno, by simp [marked_retry]⟩
  | fireWithdraw n =>
    cases hst
    exact .inr (.inr (.inr (.inr ⟨rfl, rfl, rfl, hno, by simp [marked_retry]⟩)))
  | fireCount | fireCall pos j x =>
    cases hst
    exact .inr (.inr (.inr (.inr
      ⟨rfl, rfl, rfl, fun _ => replaying_fireFrom .., fun _ => rfl⟩)))
  | addInsert x pos | fireSwap pos j =>
    refine .inr (.inr (.inr (.inr ?_)))
    simp only [step] at hst
    split at hst <;> cases hst
    exact ⟨rfl, rfl, rfl, id, id⟩
  | addSpin x | fireNext pos j | resetTry =>
    refine .inr (.inr (.inr (.inr ?_)))
    simp only [step] at hst
    split_ifs at hst <;> cases hst <;> exact ⟨rfl, rfl, rfl, id, id⟩
  | addEnter x | addRecheck x | addFired x | fireReaders n | resetReaders =>
    cases hst
    refine .inr (.inr (.inr (.inr ?_)))
    split_ifs <;> exact ⟨rfl, rfl, rfl, hno, hno⟩
  | fireDetach =>
    cases hst
    exact .inr (.inr (.inr (.inr ⟨rfl, rfl, rfl, hno, fun _ => rfl⟩)))
  | _ =>
    cases hst
    exact .inr (.inr (.inr (.inr ⟨rfl, rfl, rfl, hno, hno⟩)))

/-- **Which steps let a fire return or withdraw.** -/
theorem step_gives_up (hst : m.step p = some (m', p')) :
    (∀ res, p' = .fired res → p = .fireUnlock ∨ ∃ n, ¬ n + 1 < maxRetries ∧
      (p = .fireTry n ∧ m.writerLock ≠ .free ∨ p = .fireWithdraw n)) ∧
    (∀ n, p' = .fireWithdraw n → p = .fireReaders n ∧ m.readerLock ≠ 0) := by
  cases p with
  | idle | added | fired | resetDone => cases hst
  | fireUnlock =>
    cases hst
    exact ⟨fun _ _ => .inl rfl, by rintro _ ⟨⟩⟩
  | fireTry n =>
    simp only [step, retry] at hst
    split_ifs at hst with hfree hlast <;> obtain ⟨rfl, rfl⟩ := Prod.mk.inj (some.inj hst)
    · constructor <;> rintro _ ⟨⟩
    · constructor <;> rintro _ ⟨⟩
    · exact ⟨fun _ _ => .inr ⟨n, hlast, .inl ⟨rfl, hfree⟩⟩, by rintro _ ⟨⟩⟩
  | fireWithdraw n =>
    simp only [step, retry] at hst
    split_ifs at hst with hlast <;> obtain ⟨rfl, rfl⟩ := Prod.mk.inj (some.inj hst)
    · constructor <;> rintro _ ⟨⟩
    · exact ⟨fun _ _ => .inr ⟨n, hlast, .inr rfl⟩, by rintro _ ⟨⟩⟩
  | fireReaders n =>
    simp only [step] at hst
    split_ifs at hst with hr <;> obtain ⟨rfl, rfl⟩ := Prod.mk.inj (some.inj hst)
    · constructor <;> rintro _ ⟨⟩
    · refine ⟨by rintro _ ⟨⟩, fun k hk => ?_⟩
      cases hk
      exact ⟨rfl, hr⟩
  | addInsert x pos | fireSwap pos j =>
    simp only [step] at hst
    split at hst <;> cases hst
    constructor <;> rintro _ ⟨⟩
  | addPosition x | addWalk x pos k | addAlloc x pos k | fireCount | fireCall pos j x | addSpin x
  | fireNext pos j | resetTry | addEnter x | addRecheck x | addFired x | resetReaders =>
    simp only [step, addFrom, fireFrom] at hst
    split_ifs at hst <;> cases hst <;> constructor <;> rintro _ ⟨⟩
  | _ =>
    cases hst
    constructor <;> rintro _ ⟨⟩

/-- What a call must find for its last attempt not to fail. -/
def LastAttempt (m : OoList α) (ps : List (OoPc α)) : OoPc α → Prop
  | .fireTry n => n + 1 < maxRetries ∨ m.writerLock = .free ∨ ∃ q ∈ ps, q.replaying ∨ q.marked
  | .fireReaders n => n + 1 < maxRetries ∨ m.readerLock = 0
  | _ => True

instance (m : OoList α) (ps : List (OoPc α)) (p : OoPc α) : Decidable (m.LastAttempt ps p) := by
  induction p using OoPc.casesOn <;> dsimp only [LastAttempt] <;> infer_instance

end OoList

namespace OoRun

/-- **The last attempt of a fire does not fail**: the lock is free and no adder is counted, or another
fire has obtained it. -/
def LastAttempt (s : OoRun α) : Act α → Prop
  | .call i => ∀ p ∈ s.calls[i]?, s.list.LastAttempt s.calls p
  | _ => True

instance (s : OoRun α) (l : Act α) : Decidable (s.LastAttempt l) := by
  induction l using Act.casesOn <;> dsimp only [LastAttempt] <;> infer_instance

/-- What is known once a fire has returned. -/
structure Answered (s : OoRun α) : Prop where
  fired : s.answered → s.list.isFired ∨ .fireMark ∈ s.calls
  rest : s.list.isFired → s.list.batch s.list.fires = [] ∨ ∃ p ∈ s.calls, p.replaying
  marked : ∀ p ∈ s.calls, p.marked → s.list.isFired
  withdraw : ∀ n, .fireWithdraw n ∈ s.calls → n + 1 < maxRetries

namespace Answered

variable {s s' : OoRun α} {m' : OoList α} {i : ℕ} {p p' : OoPc α}

lemma spawn (h : s.Answered) (hlist : s'.list = s.list) (hans : s'.answered = s.answered)
    (hcalls : s'.calls = s.calls ++ [p]) (hp : p.phase = .outside) : s'.Answered := by
  refine ⟨fun ha => ?_, fun hf => ?_, ?_, fun n hn => ?_⟩
  · rw [hlist, hcalls]
    exact (h.fired (hans ▸ ha)).imp_right (mem_append_left _)
  · rw [hlist] at hf ⊢
    refine (h.rest hf).imp_right fun ⟨q, hq, hrep⟩ => ⟨q, ?_, hrep⟩
    exact hcalls ▸ mem_append_left _ hq
  · rw [hlist, hcalls]
    refine forall_mem_append_singleton h.marked fun hm => ?_
    have := phase_of_marked hm
    simp [hp] at this
  · rw [hcalls] at hn
    rcases mem_append.1 hn with hn | hn
    · exact h.withdraw n hn
    · rw [← mem_singleton.1 hn] at hp
      cases hp

lemma marked_step (h : s.Answered) (hinv : s.list.Inv s.calls) (hi : s.calls[i]? = some p)
    (hst : s.list.step p = some (m', p')) : ∀ q ∈ s.calls.set i p', q.marked → m'.isFired := by
  have hold : ∀ q ∈ s.calls, q.marked → s.list.isFired := h.marked
  obtain ⟨rfl, rfl, hf⟩ | ⟨rfl, rfl, -⟩ | ⟨-, hp', hf⟩ | ⟨⟨pos, rfl⟩, rfl, hm⟩ | hk :=
    step_marks hst
  · exact fun _ _ _ => hf
  · refine forall_mem_set_of_ne nofun fun j q hij hj hq => ?_
    exact absurd (phase_of_marked hq) (hinv.phase_of_writing hi rfl hj hij).2
  · rw [hf]
    exact forall_mem_set hold fun hq => by simp [hp'] at hq
  · rw [hm]
    exact forall_mem_set hold fun _ => hold _ (mem_of_getElem? hi) rfl
  · rw [hk.isFired]
    exact forall_mem_set hold fun hq => hold _ (mem_of_getElem? hi) (hk.marked hq)

lemma rest_step (h : s.Answered) (hinv : s.list.Inv s.calls) (hi : s.calls[i]? = some p)
    (hst : s.list.step p = some (m', p')) (hf' : m'.isFired) :
    m'.batch m'.fires = [] ∨ ∃ q ∈ s.calls.set i p', q.replaying := by
  obtain ⟨rfl, rfl, -⟩ | ⟨-, -, hf⟩ | ⟨⟨x, rfl⟩, -, hf⟩ | ⟨-, -, hm⟩ | hk := step_marks hst
  · obtain ⟨hlt, -⟩ := List.getElem?_eq_some_iff.1 hi
    exact .inr ⟨_, mem_set hlt _, rfl⟩
  · simp [hf] at hf'
  · have hno : s.list.isFired = false := hinv.calls _ (mem_of_getElem? hi)
    simp [hf, hno] at hf'
  · rw [hm]
    exact .inl hinv.batch_succ
  · have hb : m'.batch m'.fires = s.list.batch s.list.fires := by
      rw [batch, batch, hk.positions, hk.fires]
    rw [hb]
    exact (h.rest (hk.isFired ▸ hf')).imp_right fun hq =>
      exists_mem_set hi hq hk.replaying

lemma isFired_step (hst : s.list.step p = some (m', p')) (hp : p ≠ .resetMark)
    (hf : s.list.isFired) : m'.isFired := by
  obtain ⟨-, -, hf'⟩ | ⟨rfl, -⟩ | ⟨-, -, hf'⟩ | ⟨-, -, hm⟩ | hk := step_marks hst
  · exact hf'
  · exact absurd rfl hp
  · rwa [hf']
  · rw [hm]
    exact hf
  · rwa [hk.isFired]

lemma mark_step (hi : s.calls[i]? = some p) (hst : s.list.step p = some (m', p'))
    (hp : p ≠ .resetMark) (hf : s.list.isFired ∨ .fireMark ∈ s.calls) :
    m'.isFired ∨ .fireMark ∈ s.calls.set i p' := by
  rcases hf with hf | hf
  · exact .inl (isFired_step hst hp hf)
  · by_cases hpm : p = .fireMark
    · subst hpm
      obtain ⟨hm, -⟩ := Prod.mk.inj (some.inj hst)
      exact .inl (hm ▸ rfl)
    · obtain ⟨q, hq, rfl⟩ := exists_mem_set (P := (· = .fireMark)) hi ⟨_, hf, rfl⟩
        fun hpm' => absurd hpm' hpm
      exact .inr hq

lemma returned_step (h : s.Answered) (hi : s.calls[i]? = some p)
    (hlast : s.list.LastAttempt s.calls p) {res : Bool}
    (hst : s.list.step p = some (m', .fired res)) :
    s.list.isFired ∨ .fireMark ∈ s.calls := by
  have hmem := mem_of_getElem? hi
  obtain rfl | ⟨n, hn, ⟨rfl, hbusy⟩ | rfl⟩ := (step_gives_up hst).1 res rfl
  · exact .inl (h.marked _ hmem rfl)
  · obtain ⟨q, hq, hrep | hm⟩ := (hlast.resolve_left hn).resolve_left hbusy
    · rcases marked_of_replaying hrep with rfl | hm
      · exact .inr hq
      · exact .inl (h.marked q hq hm)
    · exact .inl (h.marked q hq hm)
  · exact absurd (h.withdraw n hmem) hn

lemma fired_step (h : s.Answered) (hi : s.calls[i]? = some p)
    (hlast : s.list.LastAttempt s.calls p) (hst : s.list.step p = some (m', p'))
    (hans : answer s.answered p p' = true) :
    m'.isFired ∨ .fireMark ∈ s.calls.set i p' := by
  unfold answer at hans
  split at hans
  · cases hans
  · rename_i hne
    exact mark_step hi hst hne (h.returned_step hi hlast hst)
  · rename_i hne _
    exact mark_step hi hst hne (h.fired hans)

lemma withdraw_step (h : s.Answered) (hlast : s.list.LastAttempt s.calls p)
    (hst : s.list.step p = some (m', p')) (n : ℕ)
    (hn : .fireWithdraw n ∈ s.calls.set i p') : n + 1 < maxRetries := by
  rcases mem_or_eq_of_mem_set hn with hn | hp'
  · exact h.withdraw n hn
  · obtain ⟨rfl, hr⟩ := (step_gives_up hst).2 n hp'.symm
    exact hlast.resolve_right hr

/-- **A step of a call keeps what is known.** -/
theorem step (h : s.Answered) (hinv : s.list.Inv s.calls) (hi : s.calls[i]? = some p)
    (hlast : s.list.LastAttempt s.calls p) (hst : s.list.step p = some (m', p')) :
    Answered ⟨m', s.calls.set i p', answer s.answered p p'⟩ :=
  ⟨h.fired_step hi hlast hst, h.rest_step hinv hi hst, h.marked_step hinv hi hst,
    h.withdraw_step hlast hst⟩

lemma reenter (h : s.Answered) (hi : s.calls[i]? = some p) (hp : p.phase = .outside)
    (hp' : p'.phase = .outside) : Answered ⟨s.list, s.calls.set i p', s.answered⟩ := by
  refine ⟨fun ha => (h.fired ha).imp_right fun hm => ?_, fun hf => (h.rest hf).imp_right fun hr => ?_,
    forall_mem_set h.marked fun hm => ?_, fun n hn => ?_⟩
  · have hne : p ≠ .fireMark := fun hpm => by
      rw [hpm] at hp
      cases hp
    have hmem : ∃ q ∈ s.calls.set i p', q = .fireMark :=
      exists_mem_set hi ⟨_, hm, rfl⟩ fun hpm => absurd hpm hne
    obtain ⟨q, hq, rfl⟩ := hmem
    exact hq
  · refine exists_mem_set hi hr fun hrep => ?_
    rw [phase_of_replaying hrep] at hp
    cases hp
  · rw [phase_of_marked hm] at hp'
    cases hp'
  · rcases mem_or_eq_of_mem_set hn with hn | hp''
    · exact h.withdraw n hn
    · rw [← hp''] at hp'
      cases hp'

end Answered

section Machine

variable [DecidableEq α] {s s' : OoRun α} {l : Act α}

/-- **Every step keeps what is known.** -/
theorem Answered.next (h : s.Answered) (hinv : s.list.Inv s.calls) (hlast : s.LastAttempt l)
    (hst : s.next l = some s') : s'.Answered := by
  obtain ⟨hm, ha, p, hps, hph, -⟩ | ⟨i, p, p', rfl, hi, hstep, hps, ha⟩ := next_cases hst
  · exact h.spawn hm ha hps hph
  · have hkept := h.step hinv hi (hlast p hi) hstep
    rw [← hps, ← ha] at hkept
    exact hkept

/-- **A replay is never abandoned** if no counter wraps and no last attempt of a fire fails. -/
theorem never_abandoned
    (h : (machine.restrict fun s l => s.NoWrap l ∧ s.LastAttempt l).Reachable s)
    (ha : s.answered) (x : α) (hx : .added x true ∈ s.calls) :
    (∃ g, (g, x) ∈ s.list.replays) ∨ ∃ p ∈ s.calls, p.replaying ∧
      x ∈ (s.list.batch s.list.fires).drop p.progress ∧ (s.list.step p).isSome := by
  obtain ⟨hinv, hans⟩ : s.list.Inv s.calls ∧ s.Answered := by
    refine h.invariant (I := fun s => s.list.Inv s.calls ∧ s.Answered) ?_ ?_
    · rintro s rfl
      exact ⟨inv_empty, nofun, nofun, nofun, nofun⟩
    · intro s l s' _ ⟨hinv, hans⟩ hst
      obtain ⟨⟨hwrap, hlast⟩, hst⟩ := Machine.restrict_next.1 hst
      exact ⟨inv_next hinv hwrap hst, hans.next hinv hlast hst⟩
  obtain ⟨g, hg⟩ := hinv.accepted hx
  rcases Nat.lt_or_ge g s.list.fires with hlt | hge
  · exact .inl ⟨g, (hinv.first hg).1 hlt⟩
  · obtain rfl : g = s.list.fires := Nat.le_antisymm (hinv.positions_le _ hg) hge
    have hmem : x ∈ s.list.batch s.list.fires := mem_batch.2 hg
    obtain ⟨p, hp, hrep⟩ : ∃ p ∈ s.calls, p.replaying := by
      rcases hans.fired ha with hf | hmark
      · refine (hans.rest hf).resolve_left fun hnil => ?_
        simp [hnil] at hmem
      · exact ⟨_, hmark, rfl⟩
    have hw := phase_of_replaying hrep
    obtain ⟨i, hi⟩ := mem_iff_getElem?.1 hp
    -- the fire has replayed the first part of its batch
    rw [← take_append_drop p.progress (s.list.batch s.list.fires), mem_append,
      ← hinv.progress_eq hi hw, ← hinv.current, mem_replayed] at hmem
    rcases hmem with hmem | hmem
    · exact .inl ⟨_, hmem⟩
    · rw [hinv.progress_eq hi hw] at hmem
      exact .inr ⟨p, hp, hrep, hmem, hinv.fire_goes_on hp hw⟩

end Machine

/-- Two items are accepted, a fire replays them and returns. -/
theorem never_abandoned_two_items : ∃ s : OoRun ℕ,
    (machine.restrict fun s l => s.NoWrap l ∧ s.LastAttempt l).Reachable s ∧ s.answered ∧
      .added 1 true ∈ s.calls ∧
      ((∃ g, (g, 1) ∈ s.list.replays) ∨ ∃ p ∈ s.calls, p.replaying ∧
        1 ∈ (s.list.batch s.list.fires).drop p.progress ∧ (s.list.step p).isSome) :=
  Machine.Reachable.exists_and₂ (r := [[.add 1, .add 2], goOn 0 8, goOn 1 8, [.fire], goOn 2 11].flatten)
    rfl (by decide +kernel) fun _ hr ha hx => never_abandoned hr ha 1 hx

section GivesUp

variable {m : OoList ℕ} {c : List (OoPc ℕ)} {n : ℕ}

lemma leads_retry (hw : m.writerLock = .free) (hr : m.readerLock ≠ 0) :
    machine.Leads ⟨m, c ++ [.fireTry n], false⟩
      ⟨m, c ++ [.retry n], answer false (.fireWithdraw n : OoPc ℕ) (.retry n)⟩ := by
  have htry : m.step (.fireTry n) = some ({ m with writerLock := .fire }, .fireReaders n) := by
    simp [OoList.step, hw]
  have hread : OoList.step { m with writerLock := .fire } (.fireReaders n) =
      some ({ m with writerLock := .fire }, .fireWithdraw n) := by simp [OoList.step, hr]
  have hout : OoList.step { m with writerLock := .fire } (.fireWithdraw n) =
      some (m, .retry n) := by
    cases m
    cases hw
    rfl
  exact (leads_last htry).trans ((leads_last hread).trans (leads_last hout))

lemma leads_gives_up (hw : m.writerLock = .free) (hr : m.readerLock ≠ 0) (hn : n < maxRetries) :
    machine.Leads ⟨m, c ++ [.fireTry n], false⟩ ⟨m, c ++ [.fired false], true⟩ := by
  have hround := leads_retry (c := c) (n := n) hw hr
  induction hk : maxRetries - (n + 1) generalizing n with
  | zero =>
    have hlast : (retry n : OoPc ℕ) = .fired false := if_neg (by omega)
    rwa [hlast] at hround
  | succ k ih =>
    have hmore : (retry n : OoPc ℕ) = .fireTry (n + 1) := if_pos (by omega)
    rw [hmore] at hround
    exact hround.trans (ih (by omega) (leads_retry hw hr) (by omega))

end GivesUp

/-- **An accepted item that is left in the list.** An adder is descheduled after it has been
counted, for all 1000 attempts of a fire, and then its item is accepted. -/
theorem fire_gives_up :
    ∃ s : OoRun ℕ, machine.Reachable s ∧ s.answered ∧
      s.calls = [.added 0 true, .fired false] ∧ s.list.replays = [] := by
  have hcounted : machine.Reachable ⟨({ readerLock := 1 } : OoList ℕ), [.addRecheck 0], false⟩ :=
    ⟨{}, rfl, .add 0 :: goOn 0 3, rfl⟩
  have hfire : machine.Leads ⟨({ readerLock := 1 } : OoList ℕ), [.addRecheck 0], false⟩
      ⟨{ readerLock := 1 }, [.addRecheck 0] ++ [.fireTry 0], false⟩ := .of_next (l := .fire) rfl
  have hgive := leads_gives_up (m := { readerLock := 1 }) (c := [.addRecheck 0]) rfl (by decide)
    (by decide : 0 < maxRetries)
  obtain ⟨s, hl, hs⟩ := Machine.Leads.exists_of_exec (M := machine (α := ℕ))
    (P := fun s : OoRun ℕ => s.answered ∧ s.calls = [.added 0 true, .fired false] ∧
      s.list.replays = [])
    (s := ⟨{ readerLock := 1 }, [.addRecheck 0, .fired false], true⟩) (r := goOn 0 5)
    (by decide +kernel)
  exact ⟨s, hcounted.leads (hfire.trans (hgive.trans hl)), hs⟩

end OoRun

end Arts
