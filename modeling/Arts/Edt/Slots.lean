import Arts.Edt.Ledger

/-!
# What the slots of an EDT hold

A signal that has not written its slot is with its thread, in the list, or with the fire
(`EdtRun.Pending`), so in the end all slots are written (`Slots.written`).
-/

namespace Arts

open List Option

namespace EdtSignal

lemma data_write_of_data {s : EdtSignal} {d d₀ : DepSlot} (h : d.data = (s.write d₀).data) :
    (s.write d).data = (s.write d₀).data := by
  simp only [write, DepSlot.data] at h ⊢
  split_ifs at h ⊢ <;> simp_all

end EdtSignal

/-- The data that signal `k` delivers. -/
def EdtArrival.delivered (a : EdtArrival) (k : ℕ) : Guid × SlotPtr × AccessMode :=
  ((a.signal k).write (a.depv k)).data

/-- The thread of the signal has not written the slot and has not handed the signal over. -/
def SignalPc.unwritten : SignalPc → Bool
  | .lookup _ | .reserve | .check | .write _ => true
  | .defer p => p.placed.isNone
  | .sub | .ready | .done => false

/-- The callback has not written the slot of signal `k`. -/
def MainPc.unwritten (k : ℕ) : MainPc → Bool
  | .replay _ _ k' .lookup | .replay _ _ k' .write => k' = k
  | _ => false

namespace EdtRun

/-- Signal `k` is on its way. -/
def Pending (w : EdtRun) (k : ℕ) : Prop :=
  (∃ p, w.signals[k]? = some p ∧ p.unwritten) ∨ w.main.unwritten k ∨
    ∃ g, (g, k) ∈ w.list.positions ∧ ∀ g', (g', k) ∉ w.list.replays

/-- The slot of signal `k` has been written, or it is untouched and the signal is on its way. -/
def SlotOk (a : EdtArrival) (w : EdtRun) (k : ℕ) : Prop :=
  (w.depv k).data = a.delivered k ∨ w.depv k = a.depv k ∧ w.Pending k

variable {a : EdtArrival} {w w' : EdtRun} {k j : ℕ}

lemma SlotOk.mono (h : w.SlotOk a k) (hdepv : w'.depv k = w.depv k)
    (hpending : w.Pending k → w'.Pending k) : w'.SlotOk a k := by
  unfold SlotOk
  rw [hdepv]
  exact h.imp_right (And.imp_right hpending)

lemma data_delivered (h : w.SlotOk a k) (b : Bool) :
    ((if b then (a.signal k).deferred else a.signal k).write (w.depv k)).data = a.delivered k := by
  have hwrite : ((a.signal k).write (w.depv k)).data = a.delivered k := by
    rcases h with h | ⟨h, -⟩
    · exact EdtSignal.data_write_of_data h
    · rw [h]
      rfl
  split_ifs
  · rw [EdtSignal.data_write_deferred, hwrite]
  · exact hwrite

lemma SlotOk.writeSlot (hk : k < a.slots) (h : w.SlotOk a k) (b : Bool)
    (hdepv : w'.depv = (w.writeSlot a j (if b then (a.signal j).deferred else a.signal j)).depv)
    (hpending : k ≠ j → w.Pending k → w'.Pending k) : w'.SlotOk a k := by
  by_cases hkj : k = j
  · subst hkj
    refine .inl ?_
    rw [hdepv]
    simp only [EdtRun.writeSlot, if_pos hk, Function.update_self]
    exact data_delivered h b
  · refine h.mono ?_ (hpending hkj)
    rw [hdepv]
    simp only [EdtRun.writeSlot]
    by_cases hj : j < a.slots
    · rw [if_pos hj, Function.update_of_ne hkj]
    · rw [if_neg hj]

section Signals

variable {p t : SignalPc} {u : EdtRun}

lemma Pending.of_ne (h : w.Pending k) (hne : j ≠ k) (hmain : u.main = w.main)
    (hpos : ∀ e ∈ w.list.positions, e ∈ u.list.positions)
    (hrep : u.list.replays = w.list.replays) :
    { u with signals := w.signals.set j t }.Pending k := by
  rcases h with ⟨q, hq, hu⟩ | h | ⟨g, hg, hn⟩
  · exact .inl ⟨q, (getElem?_set_ne hne).trans hq, hu⟩
  · exact .inr (.inl (by rw [← hmain] at h; exact h))
  · exact .inr (.inr ⟨g, hpos _ hg, by rw [← hrep] at hn; exact hn⟩)

lemma Pending.of_eq (h : w.Pending k) (hk : w.signals[k]? = some p) (hmain : u.main = w.main)
    (hlist : u.list = w.list) (hu : p.unwritten → t.unwritten) :
    { u with signals := w.signals.set k t }.Pending k := by
  obtain ⟨hlt, -⟩ := List.getElem?_eq_some_iff.1 hk
  rcases h with ⟨q, hq, hqu⟩ | h | ⟨g, hg, hn⟩
  · obtain rfl := some.inj (hk.symm.trans hq)
    exact .inl ⟨t, getElem?_set_self hlt, hu hqu⟩
  · exact .inr (.inl (by rw [← hmain] at h; exact h))
  · exact .inr (.inr ⟨g, by rw [← hlist] at hg; exact hg, by rw [← hlist] at hn; exact hn⟩)

lemma SlotOk.of_signal (h : w.SlotOk a k) (hj : w.signals[j]? = some p)
    (hmain : u.main = w.main) (hlist : u.list = w.list) (hdepv : u.depv = w.depv)
    (hu : p.unwritten → t.unwritten) :
    { u with signals := w.signals.set j t }.SlotOk a k := by
  refine h.mono (congrFun hdepv k) fun hp => ?_
  by_cases hjk : j = k
  · subst hjk
    exact hp.of_eq hj hmain hlist hu
  · exact hp.of_ne hjk hmain (by simp [hlist]) (by rw [hlist])

lemma Shape.notMem_replays (h : w.Shape a) {q q' : OoPc ℕ} {m' : OoList ℕ} {x : ℕ}
    (hk : w.signals[k]? = some (.defer q)) (hst : w.list.step q = some (m', q'))
    (hpos : m'.positions = w.list.positions ++ [(w.list.fires, x)]) (g : ℕ) :
    (g, x) ∉ w.list.replays := by
  intro hmem
  have hnodup := (h.step_defer hk hst).list.positions_nodup
  rw [hpos, map_append, nodup_append] at hnodup
  have hold := mem_map_of_mem (f := Prod.snd) (h.list.replays_subperm.subset hmem)
  exact hnodup.2.2 x hold x (by simp) rfl

/-- **A step of a signal keeps the slots.** -/
theorem SlotOk.signal (hshape : w.Shape a) (hk : k < a.slots) (h : w.SlotOk a k)
    (hj : w.signals[j]? = some p) (hst : w.signalStep a j p = some (u, t)) :
    { u with signals := w.signals.set j t }.SlotOk a k := by
  cases p with
  | lookup again | check =>
    cases hst
    split_ifs <;> exact h.of_signal hj rfl rfl rfl fun _ => rfl
  | reserve =>
    simp only [signalStep] at hst
    split_ifs at hst <;> obtain ⟨rfl, rfl⟩ := Prod.mk.inj (some.inj hst)
    all_goals exact h.of_signal hj rfl rfl rfl fun _ => rfl
  | defer q =>
    obtain ⟨x, rfl, rfl, rfl⟩ | ⟨m', q', hq, rfl, rfl⟩ := signalStep_defer hst
    · exact h.of_signal hj rfl rfl rfl fun _ => rfl
    · have hitem := hshape.deferring j q hj
      have hadds := OoList.step_adds hitem hq
      obtain ⟨hlt, -⟩ := List.getElem?_eq_some_iff.1 hj
      refine h.mono rfl fun hp => ?_
      have hsub : ∀ e ∈ w.list.positions, e ∈ m'.positions := by
        obtain ⟨hpos, -⟩ | ⟨x, hpos, -⟩ := hadds.positions <;> simp +contextual [hpos]
      by_cases hjk : j = k
      · subst hjk
        obtain ⟨hpos, hplaced⟩ | ⟨x, hpos, hx, -, -⟩ := hadds.positions
        · rcases hp with ⟨r, hr, hu⟩ | hp | ⟨g, hg, hn⟩
          · obtain rfl := some.inj (hj.symm.trans hr)
            refine .inl ⟨_, getElem?_set_self hlt, ?_⟩
            simpa [SignalPc.unwritten, hplaced] using hu
          · exact .inr (.inl hp)
          · exact .inr (.inr ⟨g, hsub _ hg, hadds.replays ▸ hn⟩)
        · obtain rfl := some.inj (hitem.symm.trans hx)
          refine .inr (.inr ⟨w.list.fires, by simp [hpos], fun g => ?_⟩)
          rw [hadds.replays]
          exact hshape.notMem_replays hj hq hpos g
      · exact hp.of_ne hjk rfl hsub hadds.replays
  | write again =>
    cases hst
    exact h.writeSlot hk again rfl fun hne hp => hp.of_ne (Ne.symm hne) rfl (fun _ => id) rfl
  | sub | ready =>
    cases hst
    exact h.of_signal hj rfl rfl rfl (by rintro ⟨⟩)
  | done => cases hst

end Signals

section Main

variable {t : MainPc} {u : EdtRun} {v : UInt32}

lemma SlotOk.of_main (h : w.SlotOk a k) (hlist : u.list = w.list) (hdepv : u.depv = w.depv)
    (hsignals : u.signals = w.signals) (hu : w.main.unwritten k → t.unwritten k) :
    { u with main := t }.SlotOk a k := by
  refine h.mono (congrFun hdepv k) fun hp => ?_
  rcases hp with ⟨q, hq, hqu⟩ | hp | ⟨g, hg, hn⟩
  · exact .inl ⟨q, by rw [← hsignals] at hq; exact hq, hqu⟩
  · exact .inr (.inl (hu hp))
  · exact .inr (.inr ⟨g, by rw [← hlist] at hg; exact hg, by rw [← hlist] at hn; exact hn⟩)

lemma SlotOk.step_fire (hshape : w.Shape a) (h : w.SlotOk a k) {q q' : OoPc ℕ} {m' : OoList ℕ}
    (hm : w.main = .fire q) (hst : w.list.step q = some (m', q')) :
    { w with list := m', main := atFire q' }.SlotOk a k := by
  refine h.mono rfl fun hp => ?_
  have hq := (hshape.firing q hm).1
  obtain ⟨hpos, -, hrep⟩ := OoList.step_replays hq hst
  rcases hp with hp | hp | ⟨g, hg, hn⟩
  · exact .inl hp
  · rw [hm] at hp
    cases hp
  · obtain ⟨pos, i, x, rfl, hrep⟩ | ⟨-, hrep⟩ := hrep
    · by_cases hx : x = k
      · refine .inr (.inl ?_)
        simp [atFire, MainPc.unwritten, hx]
      · refine .inr (.inr ⟨g, hpos ▸ hg, fun g' hg' => ?_⟩)
        rw [hrep, mem_append, mem_singleton] at hg'
        rcases hg' with hg' | hg'
        · exact hn g' hg'
        · exact hx (Prod.mk.inj hg').2.symm
    · exact .inr (.inr ⟨g, hpos ▸ hg, hrep ▸ hn⟩)

/-- **A step of the main thread keeps the slots.** -/
theorem SlotOk.main (hshape : w.Shape a) (hk : k < a.slots) (h : w.SlotOk a k)
    (hst : w.mainStep a v w.main = some (u, t)) : { u with main := t }.SlotOk a k := by
  cases hm : w.main with
  | fire q =>
    rw [hm] at hst
    obtain ⟨res, rfl, rfl, rfl⟩ | ⟨m', q', hq, rfl, rfl⟩ := mainStep_fire hst
    · exact h.of_main rfl rfl rfl (by rw [hm]; nofun)
    · exact h.step_fire hshape hm hq
  | replay pos j i d =>
    rw [hm] at hst
    cases d with
    | lookup =>
      obtain ⟨-, hst⟩ := ite_none_right_eq_some.1 hst
      cases hst
      exact h.of_main rfl rfl rfl (by rw [hm]; exact id)
    | write =>
      cases hst
      refine h.writeSlot hk true rfl fun hne hp => ?_
      rcases hp with hp | hp | hp
      · exact .inl hp
      · rw [hm] at hp
        exact absurd (of_decide_eq_true hp).symm hne
      · exact .inr (.inr hp)
    | sub | ready =>
      cases hst
      exact h.of_main rfl rfl rfl (by rw [hm]; nofun)
  | done =>
    rw [hm] at hst
    cases hst
  | _ =>
    rw [hm] at hst
    cases hst
    exact h.of_main rfl rfl rfl (by rw [hm]; nofun)

end Main

/-- **Every step keeps the slots.** -/
theorem SlotOk.next (hshape : w.Shape a) (hk : k < a.slots) (h : w.SlotOk a k) {l : Act}
    (hst : EdtRun.next a w l = some w') : w'.SlotOk a k := by
  obtain ⟨v, u, t, -, hmain, rfl⟩ | ⟨j, p, u, t, -, hj, hsignal, rfl⟩ := next_cases hst
  · exact h.main hshape hk hmain
  · exact h.signal hshape hk hj hsignal

lemma slotOk_start (hk : k < a.count.toNat) : (start a).SlotOk a k := by
  refine .inr ⟨rfl, .inl ⟨.lookup false, ?_, rfl⟩⟩
  simp [start, hk]

lemma Shape.not_pending (h : w.Shape a) (hzero : w.total a = 0) : ¬ w.Pending k := by
  have hsum : w.main.owed a = 0 ∧ weight SignalPc.owed w.signals = 0 ∧ w.waiting = 0 := by
    simp only [total] at hzero
    omega
  rintro (⟨p, hp, hu⟩ | hu | ⟨g, hg, hn⟩)
  · have howed := weight_eq_zero.1 hsum.2.1 p (mem_of_getElem? hp)
    cases p <;> simp_all [SignalPc.owed, SignalPc.unwritten]
  · obtain ⟨howed, -⟩ := hsum
    cases hm : w.main with
    | replay pos j i d =>
      cases d <;> simp_all [MainPc.owed, MainPc.unwritten, ReplayPc.owed]
    | _ =>
      rw [hm] at hu
      cases hu
  · have hlen : w.list.positions.length ≤ w.list.replays.length := Nat.le_of_sub_eq_zero hsum.2.2
    have hperm := h.list.replays_subperm.perm_of_length_le hlen
    exact hn g (hperm.symm.subset hg)

/-- **All slots are written when nothing is left to take off.** -/
theorem SlotOk.written (h : w.SlotOk a k) (hshape : w.Shape a) (hzero : w.total a = 0) :
    (w.depv k).data = a.delivered k :=
  h.resolve_right fun hp => hshape.not_pending hzero hp.2

end EdtRun

end Arts
