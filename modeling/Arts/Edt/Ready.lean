import Arts.Edt.Termination

/-!
# An EDT becomes ready exactly once

So it is if the replay obtains the lock and the counter of a moved EDT does not become 0 too early
(`readyOnce_of_reachable`); the sentinel of a created EDT sees to the latter. A moved one is
published before `depc_needed` is tested (`EdtRun.moved_ready_twice`).
-/

namespace Arts.EdtRun

open List

variable {a : EdtArrival} {w w' : EdtRun}

section Progress

lemma isSome_next_signal {k : ℕ} {p : SignalPc} (hk : w.signals[k]? = some p)
    (h : (w.signalStep a k p).isSome) : (EdtRun.next a w (.signal k)).isSome := by
  simpa [next, hk] using h

lemma isSome_signalStep_defer {k : ℕ} {q : OoPc ℕ} (h : (w.list.step q).isSome) :
    (w.signalStep a k (.defer q)).isSome := by
  cases q with
  | added x res => cases h
  | _ => simpa [signalStep] using h

lemma Shape.exists_defer (h : w.Shape a) {q : OoPc ℕ} {x : ℕ} (hq : q ∈ w.ooCalls)
    (hx : q.item = some x) : ∃ k : ℕ, w.signals[k]? = some (SignalPc.defer q) := by
  rcases mem_cons.1 hq with rfl | hq
  · simp [h.main_item] at hx
  · obtain ⟨p, hp, rfl⟩ := mem_map.1 hq
    obtain ⟨k, hk⟩ := mem_iff_getElem?.1 hp
    cases p with
    | defer q => exact ⟨k, hk⟩
    | _ => cases hx

lemma Shape.walk_goes_on (h : w.Shape a) {x pos i : ℕ} (hq : .addWalk x pos i ∈ w.ooCalls) :
    ∃ k, (EdtRun.next a w (.signal k)).isSome := by
  cases hst : w.list.step (.addWalk x pos i) with
  | some r =>
    obtain ⟨k, hk⟩ := h.exists_defer hq rfl
    exact ⟨k, isSome_next_signal hk (isSome_signalStep_defer (by simp [hst]))⟩
  | none =>
    obtain ⟨q, hq, y, hins⟩ := h.list.exists_provider hq hst
    have hitem := OoPc.item_of_placed (OoPc.placed_of_inserting hins)
    obtain ⟨k, hk⟩ := h.exists_defer hq hitem
    exact ⟨k, isSome_next_signal hk
      (isSome_signalStep_defer (h.list.provider_goes_on hq hins))⟩

/-- **As long as a signal has not finished, some signal goes on.** -/
theorem Shape.signal_goes_on (h : w.Shape a) {p : SignalPc} (hp : p ∈ w.signals)
    (hf : SignalPc.finished p = false) : ∃ k, (EdtRun.next a w (.signal k)).isSome := by
  obtain ⟨k, hk⟩ := mem_iff_getElem?.1 hp
  cases p with
  | defer q =>
    have hq : q ∈ w.ooCalls := mem_cons_of_mem _ (mem_map.2 ⟨_, hp, rfl⟩)
    have hitem := h.deferring k q hk
    have hgo : (w.list.step q).isSome → ∃ k, (EdtRun.next a w (.signal k)).isSome := fun hs =>
      ⟨k, isSome_next_signal hk (isSome_signalStep_defer hs)⟩
    cases q with
    | added x res =>
      cases res with
      | true => cases hf
      | false => exact ⟨k, isSome_next_signal hk rfl⟩
    | addWalk x pos i => exact h.walk_goes_on hq
    | addInsert x pos => exact hgo (h.list.add_inserts hq)
    | addSpin x => exact hgo (by simp [OoList.step, h.noReset])
    | addEnter | addCount | addRecheck | addUncount | addFired | addRefuse | addPosition | addAlloc
    | addUnlock => exact hgo rfl
    | _ => cases hitem
  | reserve =>
    refine ⟨k, isSome_next_signal hk ?_⟩
    simp only [signalStep]
    split_ifs <;> rfl
  | done => cases hf
  | _ => exact ⟨k, isSome_next_signal hk rfl⟩

lemma Shape.exists_counted (h : w.Shape a) (hr : w.list.readerLock ≠ 0) :
    ∃ p ∈ w.signals, SignalPc.finished p = false := by
  have hpos : 0 < weight Lock.Phase.readers (w.ooCalls.map OoPc.phase) := by
    rw [h.list.lock.reader]
    exact Nat.pos_of_ne_zero fun hz => hr (UInt32.toNat_inj.1 hz)
  obtain ⟨ph, hph, hpos⟩ := exists_of_weight_pos hpos
  obtain ⟨q, hq, rfl⟩ := mem_map.1 hph
  obtain ⟨x, hx⟩ : ∃ x, q.item = some x := by
    have := q.readers_le
    cases hi : q.item with
    | none => simp [hi] at this; omega
    | some x => exact ⟨x, rfl⟩
  obtain ⟨k, hk⟩ := h.exists_defer hq hx
  refine ⟨_, mem_of_getElem? hk, ?_⟩
  cases q with
  | added x res => cases hpos
  | _ => rfl

lemma Shape.writerLock_free (h : w.Shape a) (hm : w.main.oo.phase.writers = 0) :
    w.list.writerLock = .free := by
  have hzero : weight Lock.Phase.writers (w.ooCalls.map OoPc.phase) = 0 := by
    refine weight_eq_zero.2 fun ph hph => ?_
    obtain ⟨q, hq, rfl⟩ := mem_map.1 hph
    rcases mem_cons.1 hq with rfl | hq
    · exact hm
    · obtain ⟨p, hp, rfl⟩ := mem_map.1 hq
      obtain ⟨k, hk⟩ := mem_iff_getElem?.1 hp
      cases p with
      | defer q => exact OoPc.phase_of_item (h.deferring k q hk)
      | _ => rfl
  have hw := h.list.lock.writer
  rw [hzero] at hw
  by_contra hne
  simp [OoList.words, hne] at hw

lemma Shape.main_goes_on (h : w.Shape a) (hm : w.main ≠ .done) (v : UInt32) :
    (EdtRun.next a w (.main v)).isSome := by
  have hmem : w.main.oo ∈ w.ooCalls := mem_cons_self
  suffices hs : (w.mainStep a v w.main).isSome by simpa [EdtRun.next] using hs
  cases hmain : w.main with
  | fire q =>
    rw [hmain] at hmem
    obtain ⟨hq, hcall⟩ := h.firing q hmain
    suffices hs : (∃ res, q = .fired res) ∨ (w.list.step q).isSome by
      rcases hs with ⟨res, rfl⟩ | hs
      · rfl
      · cases q with
        | fired => rfl
        | _ => simpa [mainStep] using hs
    cases q with
    | fired res => exact .inl ⟨res, rfl⟩
    | fireTry n =>
      refine .inr ?_
      simp only [OoList.step]
      split_ifs <;> rfl
    | fireReaders | fireWithdraw => exact .inr rfl
    | fireCall pos j x => exact absurd rfl (hcall pos j x)
    | fireMark | fireCount | fireNext | fireSwap | fireClear | fireDetach | fireUnlock =>
      exact .inr (h.list.fire_goes_on hmem rfl)
    | _ => cases hq
  | replay pos j k d =>
    have hav : w.item = .available := h.available.2 (by rw [hmain]; rfl)
    cases d with
    | lookup => simp [mainStep, replayStep, hav]
    | _ => rfl
  | done => exact absurd hmain hm
  | _ => rfl

/-- **As long as a thread has not returned, some thread goes on** in a way that meets the
conditions. -/
theorem Shape.goes_on (h : w.Shape a) (hf : ¬ w.Finished) :
    ∃ l, w.Obtains l ∧ w.Untested l ∧ (EdtRun.next a w l).isSome := by
  -- a signal may go on unless the main thread is about to test the counter
  have hsignal : ∀ p ∈ w.signals, SignalPc.finished p = false → w.main ≠ .test →
      ∃ l, w.Obtains l ∧ w.Untested l ∧ (EdtRun.next a w l).isSome := by
    intro p hp hfin hm
    obtain ⟨k, hk⟩ := h.signal_goes_on hp hfin
    exact ⟨.signal k, trivial, fun hm' => absurd hm' hm, hk⟩
  by_cases hm : w.main = .done
  · have hex : ¬ ∀ p ∈ w.signals, SignalPc.finished p := fun hall => hf ⟨hm, hall⟩
    push Not at hex
    obtain ⟨p, hp, hfin⟩ := hex
    exact hsignal p hp (by simpa using hfin) (by rw [hm]; simp)
  · by_cases hlast : w.Obtains (.main 0)
    · exact ⟨.main 0, hlast, trivial, h.main_goes_on hm 0⟩
    · cases hmain : w.main with
      | fire q =>
        cases q with
        | fireTry n =>
          have hfree := h.writerLock_free (by rw [hmain]; rfl)
          exact absurd (by simp [Obtains, hmain, OoList.LastAttempt, hfree]) hlast
        | fireReaders n =>
          obtain ⟨p, hp, hfin⟩ := h.exists_counted (fun hr => hlast (by
            simp [Obtains, hmain, OoList.LastAttempt, hr]))
          exact hsignal p hp hfin (by rw [hmain]; simp)
        | _ => exact absurd (by simp [Obtains, hmain, OoList.LastAttempt]) hlast
      | _ => exact absurd (by simp [Obtains, hmain]) hlast

end Progress

/-- **The EDT becomes ready exactly once** in the runs of `M` that pass through `w`. -/
structure ReadyOnce (M : Machine EdtRun Act) (a : EdtArrival) (w : EdtRun) : Prop where
  once : w.calls.length ≤ 1
  delivered : ∀ v ∈ w.calls, ∀ k, k < a.count.toNat → k < a.slots → (v k).data = a.delivered k
  taken : w.calls ≠ [] → w.total a = 0
  /-- When all threads have returned it has been called, and no deferred signal is left. -/
  finished : w.Finished → w.calls.length = 1 ∧ w.waiting = 0
  goes_on : ¬ w.Finished → ∃ l, (M.next w l).isSome
  ends : ∃ n, ∀ ls w', M.exec w ls = some w' → ls.length ≤ n

/-- In every run in which the replay obtains the lock and the counter of a moved EDT does not become 0
before the test. -/
theorem readyOnce_of_reachable {ok : EdtRun → Act → Prop} [∀ w l, Decidable (ok w l)]
    (hok : ∀ w l, w.Inv a → (ok w l ↔ w.Obtains l ∧ w.Untested l))
    (h : ((machine a).restrict ok).Reachable w) : w.ReadyOnce ((machine a).restrict ok) a := by
  have hstep : ∀ w l w', (w.Inv a ∧ w.Closing a ∧ w.Reserved) →
      ((machine a).restrict ok).next w l = some w' →
      (w'.Inv a ∧ w'.Closing a ∧ w'.Reserved) ∧ w'.left a < w.left a := by
    rintro w l w' ⟨hinv, hclosing, hreserved⟩ hst
    obtain ⟨hl, hst⟩ := Machine.restrict_next.1 hst
    obtain ⟨hobtains, huntested⟩ := (hok w l hinv).1 hl
    exact ⟨⟨hinv.next huntested hst, hclosing.next hinv hobtains hst, hreserved.next hst⟩,
      hinv.shape.left_next hreserved hst⟩
  have hall : w.Inv a ∧ w.Closing a ∧ w.Reserved := by
    refine h.invariant (I := fun w => w.Inv a ∧ w.Closing a ∧ w.Reserved) ?_ ?_
    · rintro w rfl
      refine ⟨inv_start a, closing_start a, fun hc => ?_⟩
      cases eq_of_mem_replicate hc
    · exact fun w l w' _ hw hst => (hstep w l w' hw hst).1
  have ⟨hinv, hclosing, _⟩ := hall
  have honce := hinv.ledger.once
  refine ⟨?_, hinv.calls, fun hne => ?_, hinv.once_of_finished hclosing, fun hf => ?_, ?_⟩
  · split_ifs at honce <;> omega
  · by_contra hpos
    rw [if_neg hpos] at honce
    exact hne (length_eq_zero_iff.1 (by omega))
  · obtain ⟨l, hobtains, huntested, hst⟩ := hinv.shape.goes_on hf
    obtain ⟨w', hw'⟩ := Option.isSome_iff_exists.1 hst
    exact ⟨l, Option.isSome_iff_exists.2
      ⟨w', Machine.restrict_next.2 ⟨(hok w l hinv).2 ⟨hobtains, huntested⟩, hw'⟩⟩⟩
  · exact ⟨w.left a, fun ls w' hrun => Machine.exec_length_le hstep hall hrun⟩

/-- The main thread makes `n` steps. -/
def mainOn (n : ℕ) : List Act := replicate n (.main 0)

/-- Signal `k` makes `n` steps. -/
def signalOn (k n : ℕ) : List Act := replicate n (.signal k)

/-- An EDT with `n` slots; the signals carry the values 7, 8, … -/
def values (moved : Bool) (n : UInt32) : EdtArrival where
  moved := moved
  count := n
  slots := n.toNat
  signal k := { dataGuid := UInt64.ofNat (k + 7), mode := .value }
  depv _ := {}

/-- **A moved EDT becomes ready exactly once**, if the counter does not become 0 between the
publication and the test and the replay obtains the lock of the list. -/
theorem moved_ready_once {a : EdtArrival} {w : EdtRun}
    (h : ((machine a).restrict fun w l => w.Obtains l ∧ w.Untested l).Reachable w) :
    w.ReadyOnce ((machine a).restrict fun w l => w.Obtains l ∧ w.Untested l) a :=
  readyOnce_of_reachable (fun _ _ _ => .rfl) h

/-- The first signal comes before the EDT and is deferred, the second one after the test. -/
theorem moved_ready_once_two_signals : ∃ w : EdtRun,
    ((machine (values true 2)).restrict fun w l => w.Obtains l ∧ w.Untested l).Reachable w ∧
      w.Finished ∧ w.ReadyOnce
        ((machine (values true 2)).restrict fun w l => w.Obtains l ∧ w.Untested l)
        (values true 2) :=
  Machine.Reachable.exists_and (r := [signalOn 0 10, mainOn 3, signalOn 1 3, mainOn 14].flatten)
    rfl (by decide +kernel) fun _ hr _ => moved_ready_once hr

/-- The only signal takes the counter to 0 between the publication and the test: both threads call
`arts_handle_ready_edt`. -/
theorem moved_ready_twice : ∃ w : EdtRun,
    ((machine (values true 1)).restrict Obtains).Reachable w ∧ w.Finished ∧ w.calls.length = 2 :=
  Machine.Reachable.exists_of_exec
    (r := [mainOn 2, signalOn 0 3, mainOn 1, signalOn 0 1, mainOn 1].flatten) rfl
    (by decide +kernel)

end Arts.EdtRun
