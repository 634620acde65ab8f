import Arts.Edt.Slots

/-!
# When all threads have returned

The list is closed and empty, nothing is left to take off the counter, and `arts_handle_ready_edt`
has been called (`Inv.once_of_finished`).
-/

namespace Arts

open List

def MainPc.passed : MainPc → Bool
  | .fire (.fired _) | .sentinel | .ready | .done => true
  | _ => false

namespace EdtRun

def oo (w : EdtRun) : OoRun ℕ := ⟨w.list, w.ooCalls, false⟩

/-- **What holds in every state.** -/
structure Inv (a : EdtArrival) (w : EdtRun) : Prop where
  shape : w.Shape a
  fits : Fits a w.main
  ledger : w.Ledger a
  slots : ∀ k, k < a.count.toNat → k < a.slots → w.SlotOk a k
  calls : ∀ v ∈ w.calls, ∀ k, k < a.count.toNat → k < a.slots → (v k).data = a.delivered k

/-- What holds if the replay obtains the lock of the list. -/
structure Closing (a : EdtArrival) (w : EdtRun) : Prop where
  answered : w.oo.Answered
  passed : w.main.passed → w.list.isFired ∨ a.count = 0

variable {a : EdtArrival} {w w' : EdtRun} {l : Act}

lemma inv_start (a : EdtArrival) : (start a).Inv a := by
  refine ⟨shape_start a, ?_, ledger_start a, fun k hk _ => slotOk_start hk, nofun⟩
  unfold start
  split_ifs with h
  · trivial
  · simpa [Fits] using h

/-- **Every step keeps the invariant.** -/
theorem Inv.next (h : w.Inv a) (huntested : w.Untested l) (hst : EdtRun.next a w l = some w') :
    w'.Inv a := by
  have heffect := h.shape.effect h.fits huntested hst
  refine ⟨h.shape.next hst, fits_next h.fits hst, h.ledger.step h.fits heffect,
    fun k hk hs => (h.slots k hk hs).next h.shape hs hst, ?_⟩
  cases heffect with
  | quiet _ _ _ hcalls | create _ _ _ _ _ hcalls | takeOff _ _ _ _ hcalls =>
    rw [hcalls]; exact h.calls
  | call _ _ _ _ hcallers hcalls =>
    -- somebody is about to call, so nothing is left to take off
    have hzero : w.total a = 0 := by
      by_contra hne
      have := h.ledger.once
      rw [if_neg hne] at this
      omega
    rw [hcalls]
    refine forall_mem_append_singleton h.calls fun k hk hs => ?_
    exact (h.slots k hk hs).written h.shape hzero
  | test v _ heq => rw [heq]; exact h.calls

variable {p : SignalPc}

lemma Shape.not_fire (h : w.Shape a) (hp : p ∈ w.signals) : p.oo.isFire = false := by
  obtain ⟨k, hk⟩ := mem_iff_getElem?.1 hp
  cases p with
  | defer q => exact OoPc.not_isFire_of_item (h.deferring k q hk)
  | _ => rfl

/-! ### The list is closed -/

lemma Closing.congr (h : w.Closing a) (hoo : w'.oo = w.oo)
    (hpassed : w'.main.passed → w.list.isFired ∨ a.count = 0) : w'.Closing a := by
  have hlist : w'.list = w.list := congrArg OoRun.list hoo
  refine ⟨hoo ▸ h.answered, ?_⟩
  rw [hlist]
  exact hpassed

variable {t : MainPc}

lemma Closing.set_main (h : w.Closing a) (hp : w.main.oo.phase = .outside)
    (ht : t.oo.phase = .outside) (hpassed : t.passed → w.list.isFired ∨ a.count = 0) :
    { w with main := t }.Closing a :=
  ⟨h.answered.reenter (i := 0) rfl hp ht, hpassed⟩

variable {k : ℕ}

lemma Closing.set_signal (h : w.Closing a) {t : SignalPc} (hk : w.signals[k]? = some p)
    (hp : p.oo.phase = .outside) (ht : t.oo.phase = .outside) :
    { w with signals := w.signals.set k t }.Closing a := by
  have hi : w.oo.calls[k + 1]? = some p.oo := by simp [oo, getElem?_ooCalls_succ, hk]
  have hre := h.answered.reenter hi hp ht
  refine ⟨?_, h.passed⟩
  simpa [oo, ooCalls] using hre

lemma answered_forget {s : OoRun ℕ} (h : s.Answered) : OoRun.Answered ⟨s.list, s.calls, false⟩ :=
  { h with fired := nofun }

variable {m : OoList ℕ} {q : OoPc ℕ}

lemma lastAttempt_of_item {ps : List (OoPc ℕ)} {x : ℕ}
    (hq : q.item = some x) : m.LastAttempt ps q := by
  cases q <;> trivial

lemma lastAttempt_of_nil (ps : List (OoPc ℕ)) (h : m.LastAttempt [] q) : m.LastAttempt ps q := by
  cases q with
  | fireTry n => exact h.imp_right (.imp_right nofun)
  | fireReaders n => exact h
  | _ => trivial

variable {q' : OoPc ℕ} {m' : OoList ℕ}

lemma Closing.step_defer (h : w.Closing a) (hshape : w.Shape a) (hk : w.signals[k]? = some (.defer q)) (hst : w.list.step q = some (m', q')) :
    { w with list := m', signals := w.signals.set k (.defer q') }.Closing a := by
  have hitem := hshape.deferring k q hk
  have hi : w.oo.calls[k + 1]? = some q := by simp [oo, getElem?_ooCalls_succ, hk, SignalPc.oo]
  have hstep := answered_forget (h.answered.step hshape.list hi (lastAttempt_of_item hitem) hst)
  refine ⟨?_, fun hp => ?_⟩
  · simpa [oo, ooCalls, SignalPc.oo] using hstep
  · rw [(OoList.step_adds hitem hst).isFired]
    exact h.passed hp

lemma passed_atFire (h : (atFire q).passed) : ∃ res, q = .fired res := by
  cases q with
  | fired res => exact ⟨res, rfl⟩
  | _ => cases h

lemma Closing.step_fire (h : w.Closing a) (hshape : w.Shape a)
    (hm : w.main.oo = q) (hq : q.isFire) (hlast : w.list.LastAttempt [] q)
    (hst : w.list.step q = some (m', q')) : { w with list := m', main := atFire q' }.Closing a := by
  have hi : w.oo.calls[0]? = some q := by simp [oo, ooCalls, hm]
  have hlast' := lastAttempt_of_nil w.ooCalls hlast
  have hstep := answered_forget (h.answered.step hshape.list hi hlast' hst)
  refine ⟨?_, fun hp => ?_⟩
  · simpa [oo, ooCalls] using hstep
  · obtain ⟨res, rfl⟩ := passed_atFire hp
    rcases h.answered.returned_step hi hlast' hst with hf | hmark
    · refine .inl (OoRun.Answered.isFired_step hst ?_ hf)
      rintro rfl
      cases hq
    · rcases mem_cons.1 hmark with heq | hmem
      · rw [← hm, ← heq] at hst
        cases hst
      · obtain ⟨p, hp, heq⟩ := mem_map.1 hmem
        have hno := hshape.not_fire hp
        rw [heq] at hno
        cases hno

variable {u : EdtRun}

lemma Closing.signal (h : w.Closing a) (hshape : w.Shape a) {t : SignalPc}
    (hk : w.signals[k]? = some p) (hst : w.signalStep a k p = some (u, t)) :
    { u with signals := w.signals.set k t }.Closing a := by
  cases p with
  | lookup again | check =>
    cases hst
    split_ifs <;> exact h.set_signal hk rfl rfl
  | reserve =>
    simp only [signalStep] at hst
    split_ifs at hst <;> obtain ⟨rfl, rfl⟩ := Prod.mk.inj (Option.some.inj hst)
    · exact (h.set_signal hk rfl rfl).congr rfl h.passed
    · exact h.set_signal hk rfl rfl
  | defer q =>
    obtain ⟨x, rfl, rfl, rfl⟩ | ⟨m', q', hq, rfl, rfl⟩ := signalStep_defer hst
    · exact h.set_signal hk rfl rfl
    · exact h.step_defer hshape hk hq
  | write again =>
    cases hst
    exact (h.set_signal hk rfl rfl).congr rfl h.passed
  | sub =>
    cases hst
    split_ifs
    · exact (h.set_signal hk rfl rfl).congr rfl h.passed
    · exact (h.set_signal hk rfl rfl).congr rfl h.passed
  | ready =>
    cases hst
    exact (h.set_signal hk rfl rfl).congr rfl h.passed
  | done => cases hst

variable {pos j : ℕ} {d : ReplayPc}

lemma Closing.replayed (h : w.Closing a) (hshape : w.Shape a) (hm : w.main = .replay pos j k d) :
    { w with main := .fire (.fireFrom pos (j + 1)) }.Closing a := by
  rw [atFire_fireFrom]
  exact h.step_fire hshape (q := .fireCall pos j k) (by rw [hm]; rfl) rfl trivial rfl

lemma Closing.set_replay (h : w.Closing a) {e : ReplayPc}
    (hm : w.main = .replay pos j k d) : { w with main := .replay pos j k e }.Closing a := by
  refine h.congr ?_ nofun
  simp only [oo, ooCalls, hm]
  rfl

lemma Closing.main (h : w.Closing a) (hinv : w.Inv a) {v : UInt32}
    (hlast : w.Obtains (.main v)) (hst : w.mainStep a v w.main = some (u, t)) :
    { u with main := t }.Closing a := by
  obtain ⟨item, list, needed, depv, main, signals, calls⟩ := w
  cases main with
  | create =>
    cases hst
    exact (h.set_main (t := .publish) rfl rfl nofun).congr rfl nofun
  | publish =>
    cases hst
    exact (h.set_main (t := .store) rfl rfl nofun).congr rfl nofun
  | store =>
    cases hst
    split_ifs
    · exact (h.set_main (t := .test) rfl rfl nofun).congr rfl nofun
    · exact (h.set_main (t := .fireOo) rfl rfl nofun).congr rfl nofun
  | test =>
    cases hst
    have hseen := hinv.ledger.seen rfl hinv.fits v
    by_cases hzero : total a ⟨item, list, needed, depv, .test, signals, calls⟩ = 0
    · rw [if_pos (hseen.2 hzero)]
      exact h.set_main rfl rfl fun _ => .inr ((hinv.ledger.total_eq_zero rfl hinv.fits).1 hzero)
    · rw [if_neg fun hz => hzero (hseen.1 hz)]
      exact h.set_main rfl rfl nofun
  | fireOo =>
    cases hst
    rw [if_pos (hinv.shape.available.2 rfl)]
    exact h.set_main rfl rfl nofun
  | fire q =>
    obtain ⟨res, rfl, rfl, rfl⟩ | ⟨m', q', hq, rfl, rfl⟩ := mainStep_fire hst
    · refine h.set_main rfl ?_ fun _ => h.passed rfl
      obtain ⟨hafter, -⟩ | ⟨hafter, -⟩ := afterFire_cases a <;> rw [hafter] <;> rfl
    · exact h.step_fire hinv.shape rfl (hinv.shape.firing q rfl).1 hlast hq
  | replay pos j k d =>
    have hrep := h.replayed hinv.shape rfl
    cases d with
    | lookup =>
      obtain ⟨-, ⟨⟩⟩ := Option.ite_none_right_eq_some.1 hst
      exact h.set_replay rfl
    | write =>
      cases hst
      exact (h.set_replay rfl).congr rfl nofun
    | sub =>
      cases hst
      split_ifs
      · exact (h.set_replay rfl).congr rfl nofun
      · exact hrep.congr rfl hrep.passed
    | ready =>
      cases hst
      exact hrep.congr rfl hrep.passed
  | sentinel =>
    cases hst
    have hpassed := h.passed rfl
    split_ifs
    · exact (h.set_main rfl rfl fun _ => hpassed).congr rfl fun _ => hpassed
    · exact (h.set_main rfl rfl fun _ => hpassed).congr rfl fun _ => hpassed
  | ready =>
    cases hst
    have hpassed := h.passed rfl
    exact (h.set_main rfl rfl fun _ => hpassed).congr rfl fun _ => hpassed
  | done => cases hst

/-- **Every step keeps it.** -/
theorem Closing.next (h : w.Closing a) (hinv : w.Inv a) (hlast : w.Obtains l)
    (hst : EdtRun.next a w l = some w') : w'.Closing a := by
  obtain ⟨v, u, t, rfl, hmain, rfl⟩ | ⟨k, p, u, t, -, hk, hsignal, rfl⟩ := next_cases hst
  · exact h.main hinv hlast hmain
  · exact h.signal hinv.shape hk hsignal

lemma closing_start (a : EdtArrival) : (start a).Closing a := by
  refine ⟨⟨nofun, nofun, fun p hp hm => ?_, fun n hn => ?_⟩, fun hp => ?_⟩
  · rw [oo, ooCalls_start] at hp
    rw [eq_of_mem_replicate hp] at hm
    cases hm
  · rw [oo, ooCalls_start] at hn
    cases eq_of_mem_replicate hn
  · unfold start at hp
    split_ifs at hp <;> cases hp

/-! ### No deferred signal is left -/

lemma isFire_of_replaying {p : OoPc ℕ} (h : p.replaying) : p.isFire := by
  cases p <;> first | rfl | cases h

lemma Shape.replaying_main (h : w.Shape a) (hr : ∃ p ∈ w.ooCalls, p.replaying) :
    w.main.oo.replaying := by
  obtain ⟨p, hp, hrep⟩ := hr
  rcases mem_cons.1 hp with rfl | hp
  · exact hrep
  · obtain ⟨q, hq, rfl⟩ := mem_map.1 hp
    have := h.not_fire hq
    rw [isFire_of_replaying hrep] at this
    cases this

/-- **No deferred signal is left in a closed list.** -/
theorem Closing.waiting_eq_zero (h : w.Closing a) (hshape : w.Shape a) (hp : w.main.passed) :
    w.waiting = 0 := by
  rcases h.passed hp with hf | hc
  · have hnil : w.list.batch w.list.fires = [] := by
      refine (h.answered.rest hf).resolve_right fun hr => ?_
      have hrep := hshape.replaying_main hr
      cases hm : w.main with
      | fire q =>
        rw [hm] at hp hrep
        cases q <;> contradiction
      | replay pos j k d =>
        rw [hm] at hp
        cases hp
      | _ =>
        rw [hm] at hrep
        cases hrep
    have hsub : w.list.positions.Subperm w.list.replays := by
      refine subperm_of_subset (List.Nodup.of_map _ hshape.list.positions_nodup) ?_
      rintro ⟨g, k⟩ hg
      rcases Nat.lt_or_ge g w.list.fires with hlt | hge
      · exact (hshape.list.first hg).1 hlt
      · obtain rfl : g = w.list.fires := Nat.le_antisymm (hshape.list.positions_le _ hg) hge
        have := OoList.mem_batch.2 hg
        simp [hnil] at this
    exact Nat.sub_eq_zero_of_le hsub.length_le
  · have hlen : w.signals = [] := by
      rw [← length_eq_zero_iff, hshape.length, hc]
      rfl
    have hplaced := hshape.list.placed.length_eq
    rw [ooCalls, hlen, map_nil, filterMap_cons_none hshape.main_placed] at hplaced
    simp only [length_map] at hplaced
    simp [waiting, ← hplaced]

/-- **When all threads have returned, `arts_handle_ready_edt` has been called once**, and no deferred
signal is left. -/
theorem Inv.once_of_finished (h : w.Inv a) (hc : w.Closing a) (hf : w.Finished) :
    w.calls.length = 1 ∧ w.waiting = 0 := by
  obtain ⟨hm, hs⟩ := hf
  have hwaiting := hc.waiting_eq_zero h.shape (by rw [hm]; rfl)
  have howed : ∀ p ∈ w.signals, p.owed = 0 ∧ p.calling = 0 := by
    intro p hp
    have hfin := hs p hp
    cases p with
    | done => exact ⟨rfl, rfl⟩
    | defer q =>
      cases q with
      | added x res =>
        cases res with
        | true => exact ⟨rfl, rfl⟩
        | false => cases hfin
      | _ => cases hfin
    | _ => cases hfin
  have htotal : w.total a = 0 := by
    rw [total, hwaiting, weight_eq_zero.2 fun p hp => (howed p hp).1, hm]
    rfl
  have hcallers : w.callers = 0 := by
    rw [callers, weight_eq_zero.2 fun p hp => (howed p hp).2, hm]
    rfl
  have hdue : w.due a = 0 := by simp [due, hm, MainPc.tested]
  have honce := h.ledger.once
  rw [if_pos htotal] at honce
  exact ⟨by omega, hwaiting⟩

end EdtRun

end Arts
