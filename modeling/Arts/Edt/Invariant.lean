import Arts.Edt.Basic
import Arts.OutOfOrder.Embedding

/-!
# The shape of an EDT's arrival

The calls on the list meet its invariant, the item is available once the EDT is stored, and the list
is closed only after that.
-/

namespace Arts

open List Option

def SignalPc.oo : SignalPc → OoPc ℕ
  | .defer p => p
  | _ => .idle

def MainPc.oo : MainPc → OoPc ℕ
  | .fire p => p
  | .replay pos j k _ => .fireCall pos j k
  | _ => .idle

def MainPc.published : MainPc → Bool
  | .create | .publish | .store => false
  | _ => true

def SignalPc.found : SignalPc → Bool
  | .write _ | .sub | .ready | .done => true
  | _ => false

namespace EdtRun

/-- The calls on the list: that of the main thread, then those of the signals. -/
def ooCalls (w : EdtRun) : List (OoPc ℕ) := w.main.oo :: w.signals.map SignalPc.oo

/-- **The shape of a state.** -/
structure Shape (a : EdtArrival) (w : EdtRun) : Prop where
  list : w.list.Inv w.ooCalls
  length : w.signals.length = a.count.toNat
  deferring : ∀ (k : ℕ) (p : OoPc ℕ), w.signals[k]? = some (.defer p) → p.item = some k
  firing : ∀ p, w.main = .fire p → p.isFire ∧ ∀ pos j k, p ≠ .fireCall pos j k
  noReset : w.list.writerLock ≠ .reset
  available : w.item = .available ↔ w.main.published
  closed : w.list.isFired ∨ w.list.writerLock ≠ .free → w.item = .available
  found : ∀ p ∈ w.signals, p.found → w.item = .available

variable {a : EdtArrival} {w w' : EdtRun} {k : ℕ}

@[simp] lemma oo_atFire (p : OoPc ℕ) : (atFire p).oo = p := by
  cases p <;> rfl

lemma getElem?_ooCalls_succ : w.ooCalls[k + 1]? = w.signals[k]?.map SignalPc.oo := by
  simp [ooCalls]

lemma Shape.main_item (h : w.Shape a) : w.main.oo.item = none := by
  cases hm : w.main with
  | fire p => exact OoPc.item_of_isFire (h.firing p hm).1
  | _ => rfl

lemma Shape.item_ne (h : w.Shape a) {j : ℕ} {q : OoPc ℕ} (hj : k + 1 ≠ j)
    (hq : w.ooCalls[j]? = some q) : q.item ≠ some k := by
  cases j with
  | zero =>
    obtain rfl : w.main.oo = q := by simpa [ooCalls] using hq
    simp [h.main_item]
  | succ j =>
    rw [getElem?_ooCalls_succ] at hq
    obtain ⟨p, hp, rfl⟩ := map_eq_some_iff.1 hq
    cases p with
    | defer p =>
      rw [SignalPc.oo, h.deferring j p hp]
      simp
      omega
    | _ => simp [SignalPc.oo, OoPc.item]

lemma Shape.noWrap (h : w.Shape a) {i : ℕ} {p : OoPc ℕ} (hi : w.ooCalls[i]? = some p) :
    w.list.NoWrap p := by
  refine h.list.noWrap hi ?_
  have hle : (w.ooCalls.filterMap OoPc.item).length ≤ w.signals.length := by
    rw [ooCalls, filterMap_cons_none h.main_item]
    exact (length_filterMap_le _ _).trans (by simp)
  have := a.count.toNat_lt
  have := h.length
  omega

lemma Shape.congr (h : w.Shape a) (hlist : w'.list = w.list) (hitem : w'.item = w.item)
    (hmain : w'.main = w.main) (hsignals : w'.signals = w.signals) : w'.Shape a := by
  cases w'
  cases hlist
  cases hitem
  cases hmain
  cases hsignals
  exact { h with }

section Signals

variable {p t : SignalPc}

lemma oo_eq_idle (hp : ∀ q, p ≠ .defer q) : p.oo = .idle := by
  cases p with
  | defer q => exact absurd rfl (hp q)
  | _ => rfl

lemma signalStep_defer {q : OoPc ℕ} {u : EdtRun}
    (hst : w.signalStep a k (.defer q) = some (u, t)) :
    (∃ x, q = .added x false ∧ u = w ∧ t = .lookup true) ∨
      ∃ m' q', w.list.step q = some (m', q') ∧ u = { w with list := m' } ∧ t = .defer q' := by
  have hlist : (w.list.step q).map (fun r => ({ w with list := r.1 }, SignalPc.defer r.2)) =
      some (u, t) → ∃ m' q', w.list.step q = some (m', q') ∧ u = { w with list := m' } ∧
        t = .defer q' := by
    intro hst
    obtain ⟨r, hr, heq⟩ := map_eq_some_iff.1 hst
    obtain ⟨rfl, rfl⟩ := Prod.mk.inj heq
    exact ⟨r.1, r.2, hr, rfl, rfl⟩
  cases q with
  | added x res =>
    cases res with
    | false =>
      cases hst
      exact .inl ⟨x, rfl, rfl, rfl⟩
    | true => exact .inr (hlist hst)
  | _ => exact .inr (hlist hst)

lemma Shape.list_signal (h : w.Shape a) (hk : w.signals[k]? = some p) (hp : p.oo.phase = .outside)
    (hplaced : p.oo.placed = none) (hp' : t.oo = .idle ∨ t.oo = .addEnter k) :
    w.list.Inv (w.main.oo :: (w.signals.set k t).map SignalPc.oo) := by
  have hi : w.ooCalls[k + 1]? = some p.oo := by simp [getElem?_ooCalls_succ, hk]
  have hre := h.list.reenter (t := t.oo) hi hp hplaced
    (by rcases hp' with h | h <;> rw [h] <;> rfl) (by rcases hp' with h | h <;> rw [h] <;> rfl)
    (fun x hx j q hj hq => ?_)
  · rwa [ooCalls, set_cons_succ, ← map_set] at hre
  · rcases hp' with hp' | hp' <;> rw [hp'] at hx
    · cases hx
    · cases hx
      exact h.item_ne hj hq

lemma Shape.deferring_set (h : w.Shape a) (hp' : ∀ q, t = .defer q → q.item = some k) :
    ∀ (j : ℕ) (q : OoPc ℕ), (w.signals.set k t)[j]? = some (.defer q) → q.item = some j := by
  intro j q hj
  rcases getElem?_set_cases hj with ⟨rfl, heq⟩ | ⟨-, hj⟩
  · exact hp' q heq.symm
  · exact h.deferring j q hj

lemma Shape.set_signal (h : w.Shape a) (hk : w.signals[k]? = some p)
    (hp : p.oo.phase = .outside) (hplaced : p.oo.placed = none) (hp' : ∀ q, t ≠ .defer q)
    (hfound : t.found → w.item = .available) :
    { w with signals := w.signals.set k t }.Shape a :=
  ⟨h.list_signal hk hp hplaced (.inl (oo_eq_idle hp')), by rw [length_set, h.length],
    h.deferring_set fun q hq => absurd hq (hp' q), h.firing, h.noReset, h.available, h.closed,
    forall_mem_set h.found hfound⟩

lemma Shape.set_defer (h : w.Shape a) (hk : w.signals[k]? = some p) (hp : p.oo = .idle) :
    { w with signals := w.signals.set k (.defer (.addEnter k)) }.Shape a := by
  refine ⟨h.list_signal hk (hp ▸ rfl) (hp ▸ rfl) (.inr rfl), by rw [length_set, h.length],
    h.deferring_set fun q hq => ?_, h.firing, h.noReset, h.available, h.closed,
    forall_mem_set h.found nofun⟩
  cases hq
  rfl

lemma Shape.step_defer (h : w.Shape a) {q q' : OoPc ℕ} {m' : OoList ℕ}
    (hk : w.signals[k]? = some (.defer q)) (hst : w.list.step q = some (m', q')) :
    { w with list := m', signals := w.signals.set k (.defer q') }.Shape a := by
  have hi : w.ooCalls[k + 1]? = some q := by simp [getElem?_ooCalls_succ, hk, SignalPc.oo]
  have hitem := h.deferring k q hk
  have hadds := OoList.step_adds hitem hst
  have hinv := h.list.step hi (h.noWrap hi) hst
  refine ⟨?_, by rw [length_set, h.length], h.deferring_set fun r hr => ?_, h.firing, ?_,
    h.available, ?_, forall_mem_set h.found nofun⟩
  · rw [ooCalls, map_set]
    exact hinv
  · cases hr
    exact (OoList.step_kind hst).1.trans hitem
  · rw [hadds.writerLock]
    exact h.noReset
  · rw [hadds.writerLock, hadds.isFired]
    exact h.closed

/-- **A step of a signal keeps the shape.** -/
theorem Shape.signal (h : w.Shape a) {u : EdtRun} (hk : w.signals[k]? = some p)
    (hst : w.signalStep a k p = some (u, t)) :
    { u with signals := w.signals.set k t }.Shape a := by
  have hmem := mem_of_getElem? hk
  cases p with
  | lookup again =>
    cases hst
    split_ifs with hav
    · exact h.set_signal hk rfl rfl nofun fun _ => hav
    · exact h.set_signal hk rfl rfl nofun nofun
  | reserve =>
    simp only [signalStep] at hst
    split_ifs at hst with hnone <;> obtain ⟨rfl, rfl⟩ := Prod.mk.inj (some.inj hst)
    · have hno : w.item ≠ .available := by simp [hnone]
      have hset := h.set_defer hk rfl
      refine ⟨hset.list, hset.length, hset.deferring, hset.firing, hset.noReset, ?_,
        fun hc => absurd (h.closed hc) hno, fun q hq hf => absurd (hset.found q hq hf) hno⟩
      simpa [hnone] using h.available
    · exact h.set_signal hk rfl rfl nofun nofun
  | check =>
    cases hst
    split_ifs
    · exact h.set_defer hk rfl
    · exact h.set_signal hk rfl rfl nofun nofun
  | defer q =>
    obtain ⟨x, rfl, rfl, rfl⟩ | ⟨m', q', hq, rfl, rfl⟩ := signalStep_defer hst
    · exact h.set_signal hk rfl rfl nofun nofun
    · exact h.step_defer hk hq
  | write again =>
    cases hst
    exact (h.set_signal (t := .sub) hk rfl rfl nofun fun _ => h.found _ hmem rfl).congr
      rfl rfl rfl rfl
  | sub =>
    cases hst
    refine (h.set_signal hk rfl rfl ?_
      fun _ => h.found _ hmem rfl).congr rfl rfl rfl rfl
    intro q
    split_ifs <;> nofun
  | ready =>
    cases hst
    exact (h.set_signal (t := .done) hk rfl rfl nofun fun _ => h.found _ hmem rfl).congr
      rfl rfl rfl rfl
  | done => cases hst

end Signals

section Main

variable {t : MainPc} {v : UInt32}

lemma Shape.main_placed (h : w.Shape a) : w.main.oo.placed = none := by
  cases hm : w.main with
  | fire p => exact OoPc.placed_of_isFire (h.firing p hm).1
  | _ => rfl

lemma Shape.set_main (h : w.Shape a) (hp : w.main.oo.phase = .outside)
    (hp' : t.oo = .idle ∨ t = .fire (.fireTry 0)) (hpub : t.published = w.main.published)
    (hfire : ∀ q, t = .fire q → q = .fireTry 0) : { w with main := t }.Shape a := by
  have hre := h.list.reenter (i := 0) (t := t.oo) (by simp [ooCalls]) hp
    h.main_placed (by rcases hp' with h | rfl <;> [rw [h]; skip] <;> rfl)
    (by rcases hp' with h | rfl <;> [rw [h]; skip] <;> rfl)
    (by rcases hp' with h | rfl <;> [rw [h]; skip] <;> nofun)
  refine { h with list := ?_, firing := fun q hq => ?_, available := ?_ }
  · simpa [ooCalls] using hre
  · rw [hfire q hq]
    exact ⟨rfl, nofun⟩
  · rw [hpub]
    exact h.available

lemma Shape.step_fire (h : w.Shape a) {q q' : OoPc ℕ} {m' : OoList ℕ} (hm : w.main.oo = q)
    (hpub : w.main.published) (hq : q.isFire) (hst : w.list.step q = some (m', q'))
    (hp' : t = atFire q') : { w with list := m', main := t }.Shape a := by
  have hi : w.ooCalls[0]? = some q := by simp [ooCalls, hm]
  have hinv := h.list.step hi (h.noWrap hi) hst
  obtain ⟨-, hreset, -⟩ := OoList.step_replays hq hst
  have hkind := (OoList.step_kind hst).2
  have hav := h.available.2 hpub
  subst hp'
  refine ⟨?_, h.length, h.deferring, fun r hr => ?_, hreset h.noReset, ?_, fun _ => hav, h.found⟩
  · simpa [ooCalls] using hinv
  · cases q' with
    | fireCall pos j k => cases hr
    | _ =>
      cases hr
      exact ⟨hkind.trans hq, nofun⟩
  · simp only [hav, true_iff]
    cases q' <;> rfl

lemma atFire_fireFrom (pos j : ℕ) :
    MainPc.fire (.fireFrom pos j) = atFire (.fireFrom pos j) := by
  unfold OoPc.fireFrom
  split_ifs <;> rfl

lemma mainStep_fire {q : OoPc ℕ} {u : EdtRun} (hst : w.mainStep a v (.fire q) = some (u, t)) :
    (∃ res, q = .fired res ∧ u = w ∧ t = afterFire a) ∨
      ∃ m' q', w.list.step q = some (m', q') ∧ u = { w with list := m' } ∧ t = atFire q' := by
  have hlist : (w.list.step q).map (fun r => ({ w with list := r.1 }, atFire r.2)) =
      some (u, t) → ∃ m' q', w.list.step q = some (m', q') ∧ u = { w with list := m' } ∧
        t = atFire q' := by
    intro hst
    obtain ⟨r, hr, heq⟩ := map_eq_some_iff.1 hst
    obtain ⟨rfl, rfl⟩ := Prod.mk.inj heq
    exact ⟨r.1, r.2, hr, rfl, rfl⟩
  cases q with
  | fired res =>
    cases hst
    exact .inl ⟨res, rfl, rfl, rfl⟩
  | _ => exact .inr (hlist hst)

lemma afterFire_cases (a : EdtArrival) :
    afterFire a = .done ∧ a.moved ∨ afterFire a = .sentinel ∧ ¬ a.moved := by
  unfold afterFire
  split_ifs with h
  · exact .inl ⟨rfl, h⟩
  · exact .inr ⟨rfl, h⟩

lemma Shape.set_afterFire (h : w.Shape a) (hp : w.main.oo.phase = .outside)
    (hpub : w.main.published) : { w with main := afterFire a }.Shape a := by
  obtain ⟨hafter, -⟩ | ⟨hafter, -⟩ := afterFire_cases a <;> rw [hafter]
  · exact h.set_main hp (.inl rfl) hpub.symm nofun
  · exact h.set_main hp (.inl rfl) hpub.symm nofun

lemma Shape.set_replay (h : w.Shape a) {pos j k : ℕ} {d d' : ReplayPc}
    (hm : w.main = .replay pos j k d) : { w with main := .replay pos j k d' }.Shape a := by
  have hlist := h.list
  have hav := h.available
  rw [ooCalls, hm] at hlist
  rw [hm] at hav
  exact { h with list := hlist, firing := nofun, available := hav }

lemma Shape.replayed (h : w.Shape a) {pos j k : ℕ} {d : ReplayPc}
    (hm : w.main = .replay pos j k d) :
    { w with main := .fire (.fireFrom pos (j + 1)) }.Shape a :=
  h.step_fire (q := .fireCall pos j k) (by rw [hm]; rfl) (by rw [hm]; rfl) rfl rfl
    (atFire_fireFrom pos (j + 1))

/-- **A step of the main thread keeps the shape.** -/
theorem Shape.main (h : w.Shape a) {u : EdtRun} (hst : w.mainStep a v w.main = some (u, t)) :
    { u with main := t }.Shape a := by
  obtain ⟨item, list, needed, depv, main, signals, calls⟩ := w
  cases main with
  | create =>
    cases hst
    exact (h.set_main (t := .publish) rfl (.inl rfl) rfl nofun).congr rfl rfl rfl rfl
  | publish =>
    cases hst
    have hset := h.set_main (t := .store) rfl (.inl rfl) rfl nofun
    have hno : item ≠ .available := fun hit => Bool.noConfusion (h.available.1 hit)
    have hno' : (if item = .none then .reserved else item) ≠ ItemState.available := by
      split_ifs
      · nofun
      · exact hno
    exact ⟨hset.list, hset.length, hset.deferring, hset.firing, hset.noReset,
      ⟨fun hit => absurd hit hno', nofun⟩, fun hc => absurd (h.closed hc) hno,
      fun q hq hf => absurd (h.found q hq hf) hno⟩
  | store =>
    cases hst
    split_ifs
    all_goals
      exact ⟨h.list, h.length, h.deferring, nofun, h.noReset, by simp [MainPc.published],
        fun _ => rfl, fun _ _ _ => rfl⟩
  | test =>
    cases hst
    split_ifs
    all_goals exact h.set_main rfl (.inl rfl) rfl nofun
  | fireOo =>
    cases hst
    split_ifs
    · refine h.set_main rfl (.inr rfl) rfl fun q hq => ?_
      cases hq
      rfl
    · exact h.set_afterFire rfl rfl
  | fire q =>
    obtain ⟨res, rfl, rfl, rfl⟩ | ⟨m', q', hq, rfl, rfl⟩ := mainStep_fire hst
    · exact h.set_afterFire rfl rfl
    · exact h.step_fire rfl rfl (h.firing q rfl).1 hq rfl
  | replay pos j k d =>
    cases d with
    | lookup =>
      obtain ⟨-, ⟨⟩⟩ := ite_none_right_eq_some.1 hst
      exact h.set_replay rfl
    | write =>
      cases hst
      exact (h.set_replay rfl).congr rfl rfl rfl rfl
    | sub =>
      cases hst
      split_ifs
      · exact (h.set_replay rfl).congr rfl rfl rfl rfl
      · exact (h.replayed rfl).congr rfl rfl rfl rfl
    | ready =>
      cases hst
      exact (h.replayed rfl).congr rfl rfl rfl rfl
  | sentinel =>
    cases hst
    split_ifs
    · exact (h.set_main (t := .ready) rfl (.inl rfl) rfl nofun).congr rfl rfl rfl rfl
    · exact (h.set_main (t := .done) rfl (.inl rfl) rfl nofun).congr rfl rfl rfl rfl
  | ready =>
    cases hst
    exact (h.set_main (t := .done) rfl (.inl rfl) rfl nofun).congr rfl rfl rfl rfl
  | done => cases hst

end Main

lemma next_cases {l : Act} (hst : next a w l = some w') :
    (∃ v u t, l = .main v ∧ w.mainStep a v w.main = some (u, t) ∧ w' = { u with main := t }) ∨
    ∃ k p u t, l = .signal k ∧ w.signals[k]? = some p ∧ w.signalStep a k p = some (u, t) ∧
      w' = { u with signals := w.signals.set k t } := by
  cases l with
  | main v =>
    obtain ⟨r, hr, rfl⟩ := map_eq_some_iff.1 hst
    exact .inl ⟨v, r.1, r.2, rfl, hr, rfl⟩
  | signal k =>
    obtain ⟨p, hp, hst⟩ := bind_eq_some_iff.1 hst
    obtain ⟨r, hr, rfl⟩ := map_eq_some_iff.1 hst
    exact .inr ⟨k, p, r.1, r.2, rfl, hp, hr, rfl⟩

/-- **Every step keeps the shape.** -/
theorem Shape.next (h : w.Shape a) {l : Act} (hst : next a w l = some w') : w'.Shape a := by
  obtain ⟨v, u, t, -, hmain, rfl⟩ | ⟨k, p, u, t, -, hk, hsignal, rfl⟩ := next_cases hst
  · exact h.main hmain
  · exact h.signal hk hsignal

lemma ooCalls_start (a : EdtArrival) :
    (start a).ooCalls = replicate (a.count.toNat + 1) .idle := by
  rw [ooCalls, start, map_replicate, replicate_succ]
  split_ifs <;> rfl

lemma shape_start (a : EdtArrival) : (start a).Shape a := by
  have hsignal : ∀ p ∈ (start a).signals, p = .lookup false := fun _ hp =>
    eq_of_mem_replicate hp
  refine ⟨ooCalls_start a ▸ OoList.inv_idle _, length_replicate, fun k p hp => ?_, fun p hp => ?_, nofun,
    ?_, fun hc => ?_, fun p hp hf => ?_⟩
  · cases hsignal _ (mem_of_getElem? hp)
  · unfold start at hp
    split_ifs at hp
  · unfold start
    split_ifs <;> simp [MainPc.published]
  · simp [start] at hc
  · rw [hsignal p hp] at hf
    cases hf

end EdtRun

end Arts
