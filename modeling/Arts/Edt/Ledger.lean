import Arts.Edt.Invariant

/-!
# What the counter of an EDT counts

`depc_needed` counts the signals not taken off yet, and the sentinel (`EdtRun.total`). A moved EDT
has no sentinel: its counter must not become 0 before the test (`EdtRun.Untested`).
-/

namespace Arts

open List Option MainPc

def SignalPc.owed : SignalPc → ℕ
  | .lookup _ | .reserve | .check | .write _ | .sub => 1
  | .defer p => if p.placed.isNone then 1 else 0
  | .ready | .done => 0

def ReplayPc.owed : ReplayPc → ℕ
  | .lookup | .write | .sub => 1
  | .ready => 0

/-- The sentinel of a created EDT. -/
def EdtArrival.extra (a : EdtArrival) : ℕ := if a.moved then 0 else 1

def MainPc.owed (a : EdtArrival) : MainPc → ℕ
  | .replay _ _ _ d => a.extra + d.owed
  | .ready | .done => 0
  | _ => a.extra

/-- The thread is about to call `arts_handle_ready_edt`. -/
def SignalPc.calling : SignalPc → ℕ
  | .ready => 1
  | _ => 0

/-- The main thread is about to call `arts_handle_ready_edt`. -/
def MainPc.calling : MainPc → ℕ
  | .ready | .replay _ _ _ .ready => 1
  | _ => 0

/-- The main thread has passed the test of the counter, if it makes one. -/
def MainPc.tested : MainPc → Bool
  | .create | .publish | .store | .test => false
  | _ => true

namespace EdtRun

/-- The deferred signals that have not been replayed. -/
def waiting (w : EdtRun) : ℕ := w.list.positions.length - w.list.replays.length

/-- **What has not been taken off yet.** -/
def total (a : EdtArrival) (w : EdtRun) : ℕ :=
  w.main.owed a + weight SignalPc.owed w.signals + w.waiting

/-- The threads that are about to call `arts_handle_ready_edt`. -/
def callers (w : EdtRun) : ℕ := w.main.calling + weight SignalPc.calling w.signals

/-- The main thread will find the counter at 0 when it tests it, because there are no signals. -/
def due (a : EdtArrival) (w : EdtRun) : ℕ :=
  if a.moved ∧ a.count = 0 ∧ w.main.tested = false then 1 else 0

/-- **The counter does not become 0 between the publication of a moved EDT and the test.** -/
def Untested (w : EdtRun) : Act → Prop
  | .main _ => True
  | .signal k => w.main = .test → w.signals[k]? = some .sub → w.needed ≠ 1

instance (w : EdtRun) (l : Act) : Decidable (w.Untested l) := by
  induction l using Act.casesOn <;> dsimp only [Untested] <;> infer_instance

/-- **What a step can do** to the counter and to the calls. -/
inductive Effect (a : EdtArrival) (w w' : EdtRun) : Prop where
  | quiet (total : w'.total a = w.total a) (needed : w'.needed = w.needed)
      (callers : w'.callers = w.callers) (calls : w'.calls = w.calls)
      (tested : a.moved → w'.main.tested = w.main.tested)
      (published : w'.main.published = false → w.main.published = false)
      (main : w.main = .create → w'.main = .create)
  | create (main : w.main = .create) (main' : w'.main = .publish)
      (total : w'.total a = w.total a) (needed : w'.needed = a.count + 1)
      (callers : w'.callers = w.callers) (calls : w'.calls = w.calls)
  | takeOff (published : w.main.published) (total : w'.total a + 1 = w.total a)
      (needed : w'.needed = w.needed - 1)
      (callers : w'.callers = w.callers + if w.needed - 1 = 0 then 1 else 0)
      (calls : w'.calls = w.calls) (tested : w'.main.tested = w.main.tested)
      (published' : w'.main.published)
      (untested : w.main = .test → w.needed ≠ 1)
  | call (published : w.main.published) (published' : w'.main.published)
      (total : w'.total a = w.total a)
      (needed : w'.needed = w.needed)
      (callers : w'.callers + 1 = w.callers) (calls : w'.calls = w.calls ++ [w.depv])
      (tested : w'.main.tested = w.main.tested)
  | test (v : UInt32) (main : w.main = .test)
      (eq : w' = { w with main := if (if w.calls.isEmpty then w.needed else v) = 0
        then .ready else .fireOo })

/-- The main thread is on one of the two ways. -/
def Fits (a : EdtArrival) : MainPc → Prop
  | .create | .sentinel => a.moved = false
  | .test => a.moved = true
  | _ => True

variable {a : EdtArrival} {w w' : EdtRun} {k : ℕ}

section Signals

variable {p t : SignalPc} {u : EdtRun}

lemma total_set_signal (hk : w.signals[k]? = some p) (hlist : u.list = w.list)
    (hmain : u.main = w.main) :
    { u with signals := w.signals.set k t }.total a + p.owed = w.total a + t.owed := by
  have hset := weight_set SignalPc.owed hk t
  simp only [total, waiting, hlist, hmain]
  omega

lemma callers_set_signal (hk : w.signals[k]? = some p) (hmain : u.main = w.main) :
    { u with signals := w.signals.set k t }.callers + p.calling =
      w.callers + t.calling := by
  have hset := weight_set SignalPc.calling hk t
  simp only [callers, hmain]
  omega

lemma Effect.of_signal (hk : w.signals[k]? = some p) (hlist : u.list = w.list)
    (hmain : u.main = w.main) (hneeded : u.needed = w.needed) (hcalls : u.calls = w.calls)
    (howed : t.owed = p.owed) (hcalling : t.calling = p.calling) :
    Effect a w { u with signals := w.signals.set k t } := by
  have htotal := total_set_signal (a := a) (t := t) hk hlist hmain
  have hcallers := callers_set_signal (t := t) hk hmain
  refine .quiet (by omega) hneeded (by omega) hcalls ?_ ?_ ?_
  · intro _
    rw [hmain]
  · intro hpub
    rwa [← hmain]
  · exact hmain.trans

lemma signalStep_main (hst : w.signalStep a k p = some (u, t)) : u.main = w.main := by
  cases p with
  | defer q =>
    obtain ⟨x, -, rfl, -⟩ | ⟨m', q', -, rfl, -⟩ := signalStep_defer hst <;> rfl
  | reserve =>
    simp only [signalStep] at hst
    split_ifs at hst <;> cases hst <;> rfl
  | done => cases hst
  | _ =>
    cases hst
    rfl

/-- **What a step of a signal does.** -/
theorem Shape.effect_signal (h : w.Shape a) (hk : w.signals[k]? = some p)
    (hst : w.signalStep a k p = some (u, t)) (huntested : w.Untested (.signal k)) :
    Effect a w { u with signals := w.signals.set k t } := by
  have hmem := mem_of_getElem? hk
  cases p with
  | lookup again | check =>
    cases hst
    split_ifs <;> exact .of_signal hk rfl rfl rfl rfl rfl rfl
  | reserve =>
    simp only [signalStep] at hst
    split_ifs at hst <;> obtain ⟨rfl, rfl⟩ := Prod.mk.inj (some.inj hst)
    all_goals exact .of_signal hk rfl rfl rfl rfl rfl rfl
  | defer q =>
    obtain ⟨x, rfl, rfl, rfl⟩ | ⟨m', q', hq, rfl, rfl⟩ := signalStep_defer hst
    · exact .of_signal hk rfl rfl rfl rfl rfl rfl
    · have hadds := OoList.step_adds (h.deferring k q hk) hq
      have hset := weight_set SignalPc.owed hk (.defer q')
      have hcallers := callers_set_signal (t := .defer q') hk rfl
      have hle := h.list.replays_subperm.length_le
      refine .quiet ?_ rfl hcallers rfl (fun _ => rfl) id id
      obtain ⟨hpos, hplaced⟩ | ⟨x, hpos, -, hplaced, hplaced'⟩ := hadds.positions
      · simp only [SignalPc.owed, hplaced] at hset
        simp only [total, waiting, hadds.replays, hpos]
        omega
      · simp only [SignalPc.owed, hplaced, hplaced', isNone_none, isNone_some,
          if_true, Bool.false_eq_true, if_false] at hset
        simp only [total, waiting, hadds.replays, hpos, length_append, length_singleton]
        omega
  | write again =>
    cases hst
    exact .of_signal hk rfl rfl rfl rfl rfl rfl
  | sub =>
    cases hst
    have hpub := h.available.1 (h.found _ hmem rfl)
    have htotal := total_set_signal (a := a)
      (t := if w.needed - 1 = 0 then .ready else .done) hk rfl rfl
    have hcallers := callers_set_signal (u := w.takeOff)
      (t := if w.needed - 1 = 0 then .ready else .done) hk rfl
    refine .takeOff hpub ?_ rfl ?_ rfl rfl hpub fun hm => huntested hm hk
    · split_ifs at htotal ⊢ <;> exact htotal
    · split_ifs at hcallers ⊢ <;> exact hcallers
  | ready =>
    cases hst
    have htotal := total_set_signal (a := a) (t := .done) hk rfl rfl
    have hcallers := callers_set_signal (u := w.callReady) (t := .done) hk rfl
    have hpub := h.available.1 (h.found _ hmem rfl)
    exact .call hpub hpub htotal rfl hcallers rfl rfl
  | done => cases hst

end Signals

section Main

variable {t : MainPc} {u : EdtRun} {v : UInt32}

lemma total_set_main (hlist : u.list = w.list) (hsignals : u.signals = w.signals) :
    { u with main := t }.total a + w.main.owed a = w.total a + t.owed a := by
  simp only [total, waiting, hlist, hsignals]
  omega

lemma callers_set_main (hsignals : u.signals = w.signals) :
    { u with main := t }.callers + w.main.calling = w.callers + t.calling := by
  simp only [callers, hsignals]
  omega

lemma Effect.of_main (hlist : u.list = w.list) (hsignals : u.signals = w.signals)
    (hneeded : u.needed = w.needed) (hcalls : u.calls = w.calls)
    (howed : t.owed a = w.main.owed a) (hcalling : t.calling = w.main.calling)
    (htested : a.moved → t.tested = w.main.tested)
    (hpub : t.published = false → w.main.published = false)
    (hmain : w.main ≠ .create) : Effect a w { u with main := t } := by
  have htotal := total_set_main (a := a) (t := t) hlist hsignals
  have hcallers := callers_set_main (t := t) hsignals
  exact .quiet (by omega) hneeded (by omega) hcalls htested hpub fun hm => absurd hm hmain

lemma owed_afterFire (a : EdtArrival) : (afterFire a).owed a = a.extra := by
  unfold afterFire EdtArrival.extra
  split_ifs with h
  · rfl
  · simp [owed, EdtArrival.extra, h]

lemma Effect.of_afterFire (howed : w.main.owed a = a.extra) (hcalling : w.main.calling = 0)
    (htested : w.main.tested) : Effect a w { w with main := afterFire a } := by
  have hmain : w.main ≠ .create := fun hm => by
    rw [hm] at htested
    cases htested
  have howed' := (owed_afterFire a).trans howed.symm
  obtain ⟨hafter, -⟩ | ⟨hafter, -⟩ := afterFire_cases a <;> rw [hafter] at howed' ⊢
  · exact .of_main rfl rfl rfl rfl howed' hcalling.symm (fun _ => htested.symm) nofun hmain
  · exact .of_main rfl rfl rfl rfl howed' hcalling.symm (fun _ => htested.symm) nofun hmain

lemma Shape.effect_fire (h : w.Shape a) {q q' : OoPc ℕ} {m' : OoList ℕ} (hm : w.main = .fire q)
    (hst : w.list.step q = some (m', q')) :
    Effect a w { w with list := m', main := atFire q' } := by
  have hq := (h.firing q hm).1
  have hle := (h.step_fire (by rw [hm]; rfl) (by rw [hm]; rfl) hq hst rfl).list.replays_subperm.length_le
  obtain ⟨hpos, -, ⟨pos, j, k, rfl, hrep⟩ | ⟨hne, hrep⟩⟩ := OoList.step_replays hq hst
  · rw [hpos, hrep, length_append, length_singleton] at hle
    refine .quiet ?_ rfl ?_ rfl ?_ nofun fun hc => by rw [hm] at hc; cases hc
    · simp only [total, waiting, hpos, hrep, hm, atFire, owed, ReplayPc.owed,
        length_append, length_singleton]
      omega
    · simp only [callers, hm]
      rfl
    · simp only [hm]
      exact fun _ => rfl
  · have hat : atFire q' = .fire q' := by
      cases q' with
      | fireCall pos j k => exact absurd rfl (hne pos j k)
      | _ => rfl
    rw [hat]
    refine .quiet ?_ rfl ?_ rfl ?_ nofun fun hc => by rw [hm] at hc; cases hc
    · simp only [total, waiting, hpos, hrep, hm, owed]
    · simp only [callers, hm]
      rfl
    · simp only [hm]
      exact fun _ => rfl

lemma Effect.of_takeOff (hlist : u.list = w.list) (hsignals : u.signals = w.signals)
    (hneeded : u.needed = w.needed - 1) (hcalls : u.calls = w.calls)
    (hpub : w.main.published) (htest : w.main ≠ .test) (howed : t.owed a + 1 = w.main.owed a)
    (hcalling : t.calling = w.main.calling + if w.needed - 1 = 0 then 1 else 0)
    (htested : t.tested = w.main.tested) (hpub' : t.published) :
    Effect a w { u with main := t } := by
  have htotal := total_set_main (a := a) (t := t) hlist hsignals
  have hcallers := callers_set_main (t := t) hsignals
  exact .takeOff hpub (by omega) hneeded (by omega) hcalls htested hpub' fun hm => absurd hm htest

/-- **What a step of the main thread does.** -/
theorem Shape.effect_main (h : w.Shape a) (hfits : Fits a w.main)
    (hst : w.mainStep a v w.main = some (u, t)) : Effect a w { u with main := t } := by
  obtain ⟨item, list, needed, depv, main, signals, calls⟩ := w
  cases main with
  | create =>
    cases hst
    exact .create rfl rfl rfl rfl rfl rfl
  | publish =>
    cases hst
    exact .of_main rfl rfl rfl rfl rfl rfl (fun _ => rfl) (fun _ => rfl) nofun
  | store =>
    cases hst
    split_ifs with hmoved
    · exact .of_main rfl rfl rfl rfl rfl rfl (fun _ => rfl) nofun nofun
    · exact .of_main rfl rfl rfl rfl rfl rfl (fun h => absurd h hmoved) nofun nofun
  | test =>
    cases hst
    exact .test v rfl rfl
  | fireOo =>
    cases hst
    split_ifs
    · exact .of_main rfl rfl rfl rfl rfl rfl (fun _ => rfl) nofun nofun
    · exact .of_afterFire rfl rfl rfl
  | fire q =>
    obtain ⟨res, rfl, rfl, rfl⟩ | ⟨m', q', hq, rfl, rfl⟩ := mainStep_fire hst
    · exact .of_afterFire rfl rfl rfl
    · exact h.effect_fire rfl hq
  | replay pos j k d =>
    cases d with
    | lookup =>
      obtain ⟨-, ⟨⟩⟩ := ite_none_right_eq_some.1 hst
      exact .of_main rfl rfl rfl rfl rfl rfl (fun _ => rfl) nofun nofun
    | write =>
      cases hst
      exact .of_main rfl rfl rfl rfl rfl rfl (fun _ => rfl) nofun nofun
    | sub =>
      cases hst
      split_ifs with hz
      · exact .of_takeOff rfl rfl rfl rfl rfl nofun rfl (by rw [if_pos hz]; rfl) rfl rfl
      · exact .of_takeOff rfl rfl rfl rfl rfl nofun rfl (by rw [if_neg hz]; rfl) rfl rfl
    | ready =>
      cases hst
      exact .call rfl rfl rfl rfl (Nat.add_right_comm _ _ _) rfl rfl
  | sentinel =>
    cases hst
    have hextra : 0 + 1 = a.extra := (if_neg (by simpa [Fits] using hfits)).symm
    split_ifs with hz
    · exact .of_takeOff rfl rfl rfl rfl rfl nofun hextra (by rw [if_pos hz]; rfl) rfl rfl
    · exact .of_takeOff rfl rfl rfl rfl rfl nofun hextra (by rw [if_neg hz]; rfl) rfl rfl
  | ready =>
    cases hst
    exact .call rfl rfl rfl rfl (Nat.add_right_comm _ _ _) rfl rfl
  | done => cases hst

end Main

lemma fits_next (h : Fits a w.main) {l : Act} (hst : next a w l = some w') : Fits a w'.main := by
  obtain ⟨v, u, t, -, hmain, rfl⟩ | ⟨k, p, u, t, -, -, hsignal, rfl⟩ := next_cases hst
  · have hafter : Fits a (afterFire a) := by
      unfold afterFire
      split_ifs with hm
      · trivial
      · simpa [Fits] using hm
    have hat : ∀ q, Fits a (atFire q) := fun q => by cases q <;> trivial
    cases hm : w.main with
    | fire q =>
      rw [hm] at hmain
      obtain ⟨res, rfl, rfl, rfl⟩ | ⟨m', q', -, rfl, rfl⟩ := mainStep_fire hmain
      · exact hafter
      · exact hat q'
    | store =>
      rw [hm] at hmain
      cases hmain
      split_ifs with hmoved
      · exact hmoved
      · trivial
    | fireOo =>
      rw [hm] at hmain
      cases hmain
      split_ifs
      · trivial
      · exact hafter
    | replay pos j k d =>
      rw [hm] at hmain
      cases d with
      | lookup =>
        obtain ⟨-, hmain⟩ := ite_none_right_eq_some.1 hmain
        cases hmain
        trivial
      | sub =>
        cases hmain
        split_ifs <;> trivial
      | write | ready =>
        cases hmain
        trivial
    | test | sentinel =>
      rw [hm] at hmain
      cases hmain
      split_ifs <;> trivial
    | create | publish | ready =>
      rw [hm] at hmain
      cases hmain
      trivial
    | done =>
      rw [hm] at hmain
      cases hmain
  · rwa [signalStep_main hsignal]

/-- **What a step does.** -/
theorem Shape.effect (h : w.Shape a) (hfits : Fits a w.main) {l : Act} (huntested : w.Untested l)
    (hst : EdtRun.next a w l = some w') : Effect a w w' := by
  obtain ⟨v, u, t, -, hmain, rfl⟩ | ⟨k, p, u, t, rfl, hk, hsignal, rfl⟩ := next_cases hst
  · exact h.effect_main hfits hmain
  · exact h.effect_signal hk hsignal huntested

/-! ### The ledger -/

/-- **The counter and the calls.** -/
structure Ledger (a : EdtArrival) (w : EdtRun) : Prop where
  le : w.total a ≤ a.count.toNat + a.extra
  full : w.main.published = false → w.total a = a.count.toNat + a.extra
  needed : w.main ≠ .create → w.needed = UInt32.ofNat (w.total a)
  /-- Someone has called, calls or will call once nothing is left to take off, and not before. -/
  once : w.calls.length + w.callers + w.due a = if w.total a = 0 then 1 else 0
  /-- The test of a moved EDT that waits for signals does not find the counter at 0. -/
  untested : a.moved → a.count ≠ 0 → w.main.tested = false → w.total a ≠ 0

lemma Ledger.last (h : w.Ledger a) (hmain : w.main ≠ .create) (hpos : 0 < w.total a) :
    w.needed - 1 = 0 ↔ w.total a = 1 := by
  have hle : w.total a ≤ 2 ^ 32 := by
    have := h.le
    have := a.count.toNat_lt
    unfold EdtArrival.extra at *
    split_ifs at * <;> omega
  rw [h.needed hmain, UInt32.ofNat_sub_one_eq_zero hpos hle]

lemma main_eq_test {m : MainPc} (hpub : m.published) (htested : m.tested = false) : m = .test := by
  cases m <;> simp_all [published, tested]

lemma Ledger.needed_eq (h : w.Ledger a) (hm : w.main = .test) (hfits : Fits a w.main) :
    w.needed.toNat = w.total a := by
  rw [hm] at hfits
  have hextra : a.extra = 0 := if_pos hfits
  have hle := h.le
  have hlt := a.count.toNat_lt
  have hsize : w.total a < UInt32.size := by
    show w.total a < 4294967296
    omega
  rw [h.needed (by rw [hm]; nofun), UInt32.toNat_ofNat_of_lt' hsize]

lemma Ledger.total_eq_zero (h : w.Ledger a) (hm : w.main = .test) (hfits : Fits a w.main) :
    w.total a = 0 ↔ a.count = 0 := by
  have hmoved : a.moved := by rwa [hm] at hfits
  have hextra : a.extra = 0 := if_pos hmoved
  refine ⟨fun h0 => ?_, fun h0 => ?_⟩
  · by_contra hne
    exact h.untested hmoved hne (by rw [hm]; rfl) h0
  · have hle := h.le
    rw [h0, hextra] at hle
    exact Nat.le_zero.1 hle

lemma Ledger.due_test (h : w.Ledger a) (hm : w.main = .test) (hfits : Fits a w.main) :
    w.due a = if w.total a = 0 then 1 else 0 := by
  have hmoved : a.moved := by rwa [hm] at hfits
  simp [due, hmoved, hm, tested, h.total_eq_zero hm hfits]

lemma Ledger.seen (h : w.Ledger a) (hm : w.main = .test) (hfits : Fits a w.main) (v : UInt32) :
    (if w.calls.isEmpty then w.needed else v) = 0 ↔ w.total a = 0 := by
  have honce := h.once
  rw [h.due_test hm hfits] at honce
  have hempty : w.calls.isEmpty := isEmpty_iff_length_eq_zero.2 (by omega)
  rw [if_pos hempty, ← h.needed_eq hm hfits, ← UInt32.toNat_inj]
  rfl

lemma Ledger.test (h : w.Ledger a) (hfits : Fits a w.main) (v : UInt32) (hm : w.main = .test) :
    { w with main := if (if w.calls.isEmpty then w.needed else v) = 0
      then .ready else .fireOo }.Ledger a := by
  have hseen := h.seen hm hfits v
  have hneeded := h.needed (by rw [hm]; nofun)
  have honce := h.once
  rw [h.due_test hm hfits] at honce
  have hle := h.le
  have hmoved : a.moved := by rwa [hm] at hfits
  have hextra : a.extra = 0 := if_pos hmoved
  have hdone : ∀ m : MainPc, m.tested → { w with main := m }.due a = 0 := fun m hm => by
    simp [due, hm]
  by_cases hzero : w.total a = 0
  · rw [if_pos (hseen.2 hzero)]
    have htotal : { w with main := .ready }.total a = w.total a := by
      simp [total, waiting, hm, owed, hextra]
    have hcall : { w with main := .ready }.callers + 0 = w.callers + 1 := by
      simpa [hm, calling] using callers_set_main (w := w) (u := w) rfl
    refine ⟨htotal ▸ hle, nofun, fun _ => htotal ▸ hneeded, ?_, nofun⟩
    rw [htotal, if_pos hzero, hdone _ rfl]
    show w.calls.length + _ + 0 = 1
    omega
  · rw [if_neg (fun h => hzero (hseen.1 h))]
    have htotal : { w with main := .fireOo }.total a = w.total a := by
      simp [total, waiting, hm, owed]
    have hcall : { w with main := .fireOo }.callers + 0 = w.callers + 0 := by
      simpa [hm, calling] using callers_set_main (u := w) (t := .fireOo) rfl
    refine ⟨htotal ▸ hle, nofun, fun _ => htotal ▸ hneeded, ?_, nofun⟩
    rw [htotal, if_neg hzero, hdone _ rfl]
    show w.calls.length + _ + 0 = 0
    omega

/-- **Every step keeps the ledger.** -/
theorem Ledger.step (h : w.Ledger a) (hfits : Fits a w.main) (he : Effect a w w') :
    w'.Ledger a := by
  have honce := h.once
  cases he with
  | quiet htotal hneeded hcallers hcalls htested hpub hmain =>
    have hdue : w'.due a = w.due a := by
      unfold due
      by_cases hm : a.moved
      · rw [htested hm]
      · simp [hm]
    refine ⟨htotal ▸ h.le, fun hp => htotal ▸ h.full (hpub hp), fun hm => ?_, ?_, ?_⟩
    · rw [hneeded, htotal]
      exact h.needed fun hc => hm (hmain hc)
    · rwa [hcalls, hcallers, hdue, htotal]
    · rw [htotal]
      exact fun hm hc ht => h.untested hm hc (htested hm ▸ ht)
  | create hmain hmain' htotal hneeded hcallers hcalls =>
    rw [hmain] at hfits
    have hmoved : a.moved = false := hfits
    have hextra : a.extra = 1 := by simp [EdtArrival.extra, hmoved]
    have hfull := h.full (by rw [hmain]; rfl)
    refine ⟨htotal ▸ h.le, fun _ => htotal ▸ hfull, fun _ => ?_, ?_, ?_⟩
    · rw [hneeded, htotal, hfull, hextra]
      simp
    · have hdue : w'.due a = w.due a := by simp [due, hmoved]
      rwa [hcalls, hcallers, hdue, htotal]
    · simp [hmoved]
  | takeOff hpub htotal hneeded hcallers hcalls htested hpub' huntested =>
    have hcreate : w.main ≠ .create := fun hm => by
      rw [hm] at hpub
      cases hpub
    have hlast := h.last hcreate (by omega)
    have hdue : w'.due a = w.due a := by rw [due, due, htested]
    have hle := h.le
    refine ⟨by omega, fun hp => absurd hpub' (by simp [hp]), fun _ => ?_, ?_, ?_⟩
    · rw [hneeded, h.needed hcreate, UInt32.ofNat_sub_one (by omega)]
      congr 1
      omega
    · rw [hcalls, hcallers, hdue]
      rw [if_neg (by omega)] at honce
      by_cases hone : w.total a = 1
      · rw [if_pos (hlast.2 hone), if_pos (by omega)]
        omega
      · rw [if_neg (fun hz => hone (hlast.1 hz)), if_neg (by omega)]
        omega
    · intro hm hc ht hzero
      have htest := main_eq_test hpub (htested ▸ ht)
      have htoNat := h.needed_eq htest hfits
      refine huntested htest (UInt32.toNat_inj.1 ?_)
      rw [htoNat]
      show w.total a = 1
      omega
  | call hpub hpub' htotal hneeded hcallers hcalls htested =>
    have hcreate : w.main ≠ .create := fun hm => by
      rw [hm] at hpub
      cases hpub
    have hdue : w'.due a = w.due a := by rw [due, due, htested]
    refine ⟨htotal ▸ h.le, fun hp => absurd hpub' (by simp [hp]), fun _ => ?_, ?_, ?_⟩
    · rw [hneeded, htotal]
      exact h.needed hcreate
    · rw [hcalls, hdue, htotal, length_append, length_singleton]
      omega
    · rw [htotal]
      exact fun hm hc ht => h.untested hm hc (htested ▸ ht)
  | test v hmain heq =>
    rw [heq]
    exact h.test hfits v hmain

lemma ledger_start (a : EdtArrival) : (start a).Ledger a := by
  have hmain : (start a).main.owed a = a.extra ∧ (start a).main.calling = 0 ∧
      (start a).main.published = false ∧ (start a).main.tested = false := by
    unfold start
    split_ifs <;> exact ⟨rfl, rfl, rfl, rfl⟩
  have htotal : (start a).total a = a.count.toNat + a.extra := by
    rw [total, hmain.1, start, waiting, weight_replicate]
    simp [SignalPc.owed]
    omega
  have hcallers : (start a).callers = 0 := by
    rw [callers, hmain.2.1, start, weight_replicate]
    rfl
  refine ⟨htotal.le, fun _ => htotal, fun hm => ?_, ?_, fun hm hc _ => ?_⟩
  · have hmoved : a.moved := by
      by_contra hno
      exact hm (if_neg hno)
    have hextra : a.extra = 0 := if_pos hmoved
    rw [htotal, hextra, start, if_pos hmoved]
    simp
  · rw [hcallers, htotal]
    unfold due EdtArrival.extra
    by_cases hmoved : a.moved
    · simp [hmoved, tested, ← UInt32.toNat_inj, start]
    · simp [hmoved, start]
  · intro hzero
    exact hc (UInt32.toNat_inj.1 (by simp; omega))

end EdtRun

end Arts
