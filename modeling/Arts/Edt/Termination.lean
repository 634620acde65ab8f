import Arts.Edt.Finish
import Arts.OutOfOrder.Measure

/-!
# An EDT's arrival comes to an end

Between two steps of the main thread a signal can start again only once, so the steps of the main
thread count more than those (`EdtRun.left`).
-/

namespace Arts

open List Option

def ReplayPc.left : ReplayPc → ℕ
  | .lookup => 3
  | .write => 2
  | .sub => 1
  | .ready => 0

def MainPc.left : MainPc → ℕ
  | .done => 0
  | .ready => 1
  | .sentinel => 2
  | .fire p => 3 + 4 * p.fireLeft
  | .replay pos j k d => 3 + 4 * (OoPc.fireCall pos j k).fireLeft + d.left
  | .fireOo => 4 + 4 * (.fireTry 0 : OoPc ℕ).fireLeft
  | .test => 5 + 4 * (.fireTry 0 : OoPc ℕ).fireLeft
  | .store => 6 + 4 * (.fireTry 0 : OoPc ℕ).fireLeft
  | .publish => 7 + 4 * (.fireTry 0 : OoPc ℕ).fireLeft
  | .create => 8 + 4 * (.fireTry 0 : OoPc ℕ).fireLeft

/-- What is left of a signal, if `held` says whether a fire has the lock of the list. -/
def SignalPc.left (held available : Bool) : SignalPc → ℕ
  | .done => 0
  | .ready => 1
  | .sub => 2
  | .write _ => 3
  | .lookup _ => if available then 4 else 2 ^ 32 + 8
  | .check => if available then 5 else 2 ^ 32 + 6
  | .reserve => if available then 6 else 2 ^ 32 + 7
  | .defer p => p.addLeft held (if available then 5 else 2 ^ 32 + 9)

namespace EdtRun

def signalsLeft (w : EdtRun) : ℕ :=
  weight (SignalPc.left (w.list.writerLock = .fire) (w.item = .available)) w.signals

/-- **What is left to do.** -/
def left (a : EdtArrival) (w : EdtRun) : ℕ :=
  w.main.left * (a.count.toNat * 2 ^ 34 + 1) + w.signalsLeft

/-- A signal that has found the item of the GUID finds it reserved or available. -/
def Reserved (w : EdtRun) : Prop := .check ∈ w.signals → w.item ≠ .none

variable {a : EdtArrival} {w w' : EdtRun} {l : Act}

section Main

variable {u : EdtRun} {t : MainPc} {v : UInt32}

lemma left_atFire (q : OoPc ℕ) : (atFire q).left ≤ 3 + 4 * q.fireLeft + 3 := by
  cases q <;> simp only [atFire, MainPc.left, ReplayPc.left] <;> omega

lemma left_afterFire (a : EdtArrival) : (afterFire a).left < 3 := by
  obtain ⟨hafter, -⟩ | ⟨hafter, -⟩ := afterFire_cases a <;> rw [hafter] <;> decide

lemma left_fireFrom {pos j k : ℕ} (hlt : j < pos) :
    (MainPc.fire (.fireFrom pos (j + 1))).left <
      3 + 4 * (OoPc.fireCall pos j k : OoPc ℕ).fireLeft := by
  have := OoPc.fireLeft_fireFrom (α := ℕ) pos (j + 1)
  show 3 + 4 * _ < 3 + 4 * (3 + 3 * (pos - j) + 1)
  omega

/-- **A step of the main thread brings it nearer to its end.** -/
theorem Shape.left_main (h : w.Shape a) (hst : w.mainStep a v w.main = some (u, t)) :
    t.left < w.main.left := by
  have hok := h.list.calls w.main.oo (mem_cons_self)
  cases hm : w.main with
  | create | publish =>
    rw [hm] at hst
    cases hst
    exact Nat.add_lt_add_right (by decide) _
  | store | test =>
    rw [hm] at hst
    cases hst
    split_ifs <;> simp only [MainPc.left] <;> omega
  | fireOo =>
    rw [hm] at hst
    cases hst
    have hafter := left_afterFire a
    split_ifs
    · exact Nat.add_lt_add_right (by decide) _
    · show _ < 4 + 4 * _
      omega
  | fire q =>
    rw [hm] at hst hok
    obtain ⟨res, rfl, -, rfl⟩ | ⟨m', q', hq, -, rfl⟩ := mainStep_fire hst
    · exact left_afterFire a
    · have hlt : q'.fireLeft < q.fireLeft := OoList.step_fireLeft hok (h.firing q hm).1 hq
      have hat := left_atFire q'
      show _ < 3 + 4 * q.fireLeft
      omega
  | replay pos j k d =>
    rw [hm] at hst hok
    have hlt := left_fireFrom (k := k) hok.2
    cases d with
    | lookup =>
      obtain ⟨-, hst⟩ := ite_none_right_eq_some.1 hst
      cases hst
      exact Nat.add_lt_add_left (by decide) _
    | write =>
      cases hst
      exact Nat.add_lt_add_left (by decide) _
    | sub =>
      cases hst
      split_ifs
      · exact Nat.add_lt_add_left (by decide) _
      · exact hlt.trans (Nat.lt_succ_self _)
    | ready =>
      cases hst
      exact hlt
  | sentinel =>
    rw [hm] at hst
    cases hst
    split_ifs <;> decide
  | ready =>
    rw [hm] at hst
    cases hst
    decide
  | done =>
    rw [hm] at hst
    cases hst

end Main

section Signals

variable {u : EdtRun} {p t : SignalPc} {k : ℕ}

lemma Shape.signal_kept (h : w.Shape a) (hk : w.signals[k]? = some p)
    (hst : w.signalStep a k p = some (u, t)) :
    u.list.writerLock = w.list.writerLock ∧ (u.item = .available ↔ w.item = .available) := by
  cases p with
  | reserve =>
    simp only [signalStep] at hst
    split_ifs at hst with hnone <;> obtain ⟨rfl, -⟩ := Prod.mk.inj (some.inj hst)
    · exact ⟨rfl, by simp [hnone]⟩
    · exact ⟨rfl, .rfl⟩
  | defer q =>
    obtain ⟨x, -, rfl, -⟩ | ⟨m', q', hq, rfl, -⟩ := signalStep_defer hst
    · exact ⟨rfl, .rfl⟩
    · exact ⟨(OoList.step_adds (h.deferring k q hk) hq).writerLock, .rfl⟩
  | done => cases hst
  | _ =>
    cases hst
    exact ⟨rfl, .rfl⟩

/-- **A step of a signal brings it nearer to its end.** -/
theorem Shape.left_signal (h : w.Shape a) (hr : w.Reserved) (hk : w.signals[k]? = some p)
    (hst : w.signalStep a k p = some (u, t)) :
    t.left (w.list.writerLock = .fire) (w.item = .available) <
      p.left (w.list.writerLock = .fire) (w.item = .available) := by
  have hmem := mem_of_getElem? hk
  -- no fire before the EDT is there
  have hheld : w.item ≠ .available → w.list.writerLock ≠ .fire := fun hno hf =>
    hno (h.closed (.inr (by rw [hf]; simp)))
  cases p with
  | lookup again =>
    cases hst
    by_cases hav : w.item = .available <;> simp [hav, SignalPc.left]
  | reserve =>
    simp only [signalStep] at hst
    split_ifs at hst with hnone <;> obtain ⟨-, rfl⟩ := Prod.mk.inj (some.inj hst)
    · have := hheld (by rw [hnone]; simp)
      simp [hnone, this, SignalPc.left, OoPc.addLeft]
    · by_cases hav : w.item = .available <;> simp [hav, SignalPc.left]
  | check =>
    cases hst
    have hsome := hr hmem
    cases hitem : w.item with
    | none => exact absurd hitem hsome
    | reserved =>
      have := hheld (by rw [hitem]; simp)
      simp [this, SignalPc.left, OoPc.addLeft]
    | available => simp [SignalPc.left]
  | defer q =>
    obtain ⟨x, rfl, -, rfl⟩ | ⟨m', q', hq, -, rfl⟩ := signalStep_defer hst
    · by_cases hav : w.item = .available <;> simp [hav, SignalPc.left, OoPc.addLeft]
    · have hok : w.list.CallOk q := by
        refine h.list.calls q ?_
        exact mem_cons_of_mem _ (mem_map.2 ⟨_, hmem, rfl⟩)
      refine OoList.step_addLeft hok (h.deferring k q hk) h.noReset (fun hc => ?_) hq
      simp [h.closed hc]
  | write again | ready =>
    cases hst
    exact Nat.lt_succ_self _
  | sub =>
    cases hst
    split_ifs <;> simp [SignalPc.left]
  | done => cases hst

lemma Shape.signalsLeft_le (h : w.Shape a) : w.signalsLeft ≤ a.count.toNat * 2 ^ 34 := by
  rw [← h.length]
  refine weight_le fun p hp => ?_
  cases p with
  | defer q =>
    have hok : w.list.CallOk q :=
      h.list.calls q (mem_cons_of_mem _ (mem_map.2 ⟨_, hp, rfl⟩))
    have hb : (w.list.batch w.list.fires).length ≤ 2 ^ 32 := by
      rw [← h.list.count]
      exact w.list.count.toNat_lt.le
    refine (OoList.addLeft_le hok hb).trans ?_
    split_ifs <;> omega
  | lookup | check | reserve =>
    simp only [SignalPc.left]
    split_ifs <;> omega
  | _ => simp [SignalPc.left]

end Signals

/-- **Every step brings the whole nearer to its end.** -/
theorem Shape.left_next (h : w.Shape a) (hr : w.Reserved) (hst : EdtRun.next a w l = some w') :
    w'.left a < w.left a := by
  have hle' := (h.next hst).signalsLeft_le
  obtain ⟨v, u, t, -, hmain, rfl⟩ | ⟨k, p, u, t, -, hk, hsignal, rfl⟩ := next_cases hst
  · have hlt : t.left + 1 ≤ w.main.left := h.left_main hmain
    have hmul := Nat.mul_le_mul_right (a.count.toNat * 2 ^ 34 + 1) hlt
    rw [Nat.add_mul] at hmul
    simp only [left]
    omega
  · have hlt := h.left_signal hr hk hsignal
    obtain ⟨hlock, hitem⟩ := h.signal_kept hk hsignal
    have hset := weight_set
      (SignalPc.left (w.list.writerLock = .fire) (w.item = .available)) hk t
    have hmain := signalStep_main hsignal
    simp only [left, signalsLeft, hlock, hitem, hmain]
    omega

lemma signalStep_item {p t : SignalPc} {u : EdtRun} {k : ℕ}
    (hst : w.signalStep a k p = some (u, t)) :
    (w.item ≠ .none → u.item ≠ .none) ∧ (t = .check → w.item ≠ .none ∧ u = w) := by
  cases p with
  | reserve =>
    simp only [signalStep] at hst
    split_ifs at hst with hnone <;> obtain ⟨rfl, rfl⟩ := Prod.mk.inj (some.inj hst)
    · exact ⟨by simp, by simp⟩
    · exact ⟨id, fun _ => ⟨hnone, rfl⟩⟩
  | defer q =>
    obtain ⟨x, -, rfl, rfl⟩ | ⟨m', q', hq, rfl, rfl⟩ := signalStep_defer hst <;> exact ⟨id, by simp⟩
  | lookup again | check | sub =>
    cases hst
    refine ⟨id, fun ht => ?_⟩
    split_ifs at ht
  | write again | ready =>
    cases hst
    exact ⟨id, by simp⟩
  | done => cases hst

lemma mainStep_item {p t : MainPc} {u : EdtRun} {v : UInt32}
    (hst : w.mainStep a v p = some (u, t)) :
    u.signals = w.signals ∧ (w.item ≠ .none → u.item ≠ .none) := by
  cases p with
  | publish =>
    cases hst
    exact ⟨rfl, fun hi => by simp [hi]⟩
  | store =>
    cases hst
    exact ⟨rfl, nofun⟩
  | fire q =>
    obtain ⟨res, -, rfl, -⟩ | ⟨m', q', -, rfl, -⟩ := mainStep_fire hst <;> exact ⟨rfl, id⟩
  | replay pos j k d =>
    cases d with
    | lookup =>
      obtain ⟨-, hst⟩ := ite_none_right_eq_some.1 hst
      cases hst
      exact ⟨rfl, id⟩
    | _ =>
      cases hst
      exact ⟨rfl, id⟩
  | done => cases hst
  | _ =>
    cases hst
    exact ⟨rfl, id⟩

lemma Reserved.next (h : w.Reserved) (hst : EdtRun.next a w l = some w') : w'.Reserved := by
  obtain ⟨v, u, t, -, hmain, rfl⟩ | ⟨k, p, u, t, -, hk, hsignal, rfl⟩ := next_cases hst
  · obtain ⟨hsignals, hkept⟩ := mainStep_item hmain
    intro hc
    exact hkept (h (hsignals ▸ hc))
  · intro hc
    obtain ⟨hkept, hnew⟩ := signalStep_item hsignal
    rcases mem_or_eq_of_mem_set hc with hc | ht
    · exact hkept (h hc)
    · obtain ⟨hne, rfl⟩ := hnew ht.symm
      exact hne

end EdtRun

end Arts
