import Arts.OutOfOrder.Invariant

/-!
# The steps of the calls keep the invariant

They touch only the lock (`Inv.relock`), or belong to an add beside other adds, or to a fire or a
reset.
-/

namespace Arts

open List Function Option OoPc

variable {α : Type*}

namespace OoList

variable {m m' : OoList α} {ps : List (OoPc α)} {i : ℕ} {p p' : OoPc α}

lemma Inv.relock (h : m.Inv ps) (hi : ps[i]? = some p) {r : UInt32} {w : WriterLock}
    (hlock : Lock.Consistent { m with readerLock := r, writerLock := w }.words
      ((ps.map phase).set i p'.phase))
    (hitem : p'.item = p.item) (hplaced : p'.placed = p.placed)
    (hins : p'.inserting = p.inserting) (hprog : p'.progress = p.progress)
    (hok : m.CallOk p') : { m with readerLock := r, writerLock := w }.Inv (ps.set i p') := by
  have hw : weight progress (ps.set i p') = weight progress ps := by
    have := weight_set progress hi p'
    omega
  refine ⟨by rwa [map_set], by rw [filterMap_set_of_eq hi hitem]; exact h.nodup,
    by rw [filterMap_set_of_eq hi hplaced]; exact h.placed, h.positions_le, h.replays_le,
    h.replayed_eq, h.count, by rw [hw]; exact h.current, ?_, by rw [hw]; exact h.slot_some, ?_,
    h.elements_pos⟩
  · exact forall_mem_set
      h.calls hok
  · rw [hw]
    intro k x hk hx hle
    exact exists_mem_set hi (h.slot_none k x hk hx hle) fun he => hins.trans he

lemma Inv.goto (h : m.Inv ps) (hi : ps[i]? = some p)
    (hlock : Lock.Move m.words p.phase m.words p'.phase)
    (hitem : p'.item = p.item) (hplaced : p'.placed = p.placed)
    (hins : p'.inserting = p.inserting) (hprog : p'.progress = p.progress)
    (hok : m.CallOk p') : m.Inv (ps.set i p') :=
  h.relock hi (h.lock.move (by simp [hi]) hlock) hitem hplaced hins hprog hok

lemma toNat_add_one {r : UInt32} (h : r.toNat + 1 < 2 ^ 32) : (r + 1).toNat = r.toNat + 1 := by
  exact Nat.mod_eq_of_lt h

lemma toNat_sub_one_of_pos {r : UInt32} (h : 0 < r.toNat) : (r - 1).toNat = r.toNat - 1 := by
  have hle : (1 : UInt32) ≤ r := UInt32.le_iff_toNat_le.2 h
  rw [UInt32.toNat_sub_of_le _ _ hle]
  rfl

lemma Inv.readerLock_pos (h : m.Inv ps) (hi : ps[i]? = some p) (hp : p.phase.readers = 1) :
    0 < m.readerLock.toNat := by
  have hle := le_weight_of_getElem? Lock.Phase.readers
    (show (ps.map phase)[i]? = some p.phase by simp [hi])
  have := h.lock.reader
  simp only [words] at this
  omega

lemma Inv.leave (h : m.Inv ps) (hi : ps[i]? = some p) (hp : p.phase.readers = 1)
    (hp' : p'.phase = .outside) (hitem : p'.item = p.item) (hplaced : p'.placed = p.placed)
    (hins : p'.inserting = p.inserting) :
    { m with readerLock := m.readerLock - 1 }.Inv (ps.set i p') := by
  have hpos := h.readerLock_pos hi hp
  have hnw : p.phase ≠ .writing := by rintro hw; simp [hw, Lock.Phase.readers] at hp
  refine h.relock hi ?_ hitem hplaced hins ?_ ?_
  · refine h.lock.move (p := p.phase) (by simp [hi]) ?_
    simp only [words, toNat_sub_one_of_pos hpos]
    rw [hp']
    have hph : p.phase = .counted ∨ p.phase = .reading := by
      cases hph : p.phase <;> simp_all [Lock.Phase.readers]
    rcases hph with hph | hph
    · rw [hph]
      exact .uncount _ _
    · rw [hph]
      exact .leave _ _
  · rw [OoPc.progress_eq_zero hnw, OoPc.progress_eq_zero (by simp [hp'])]
  · exact callOk_of_phase (by simp [hp']) (by simp [hp'])

lemma Inv.unlock (h : m.Inv ps) (hi : ps[i]? = some p)
    (hp : p.phase = .writing ∨ p.phase = .draining) (hp' : p'.phase = .outside)
    (hitem : p'.item = p.item) (hplaced : p'.placed = p.placed)
    (hins : p'.inserting = p.inserting) (hprog : p.progress = 0) :
    { m with writerLock := .free }.Inv (ps.set i p') := by
  refine h.relock hi ?_ hitem hplaced hins ?_ ?_
  · rw [hp']
    rcases hp with hp | hp
    · exact h.lock.move (by simp [hi, hp]) (.unlock _ _)
    · exact h.lock.withdraw (by simp [hi, hp])
  · rw [hprog, OoPc.progress_eq_zero (by simp [hp'])]
  · exact callOk_of_phase (by simp [hp']) (by simp [hp'])

section Adders

lemma batch_takePosition (x : α) (g : ℕ) :
    (m.takePosition x).batch g = if m.fires = g then m.batch g ++ [x] else m.batch g := by
  by_cases hg : m.fires = g <;> simp [takePosition, batch, hg]

lemma Inv.calls_set (h : m.Inv ps) (hi : ps[i]? = some p) (hp : p.phase = .reading)
    (hok : m'.CallOk p') (hfired : m'.isFired = m.isFired)
    (hins : ∀ j q e, i ≠ j → ps[j]? = some q → q.inserting = some e → m.CallOk q → m'.CallOk q) :
    ∀ q ∈ ps.set i p', m'.CallOk q := by
  intro q hq
  obtain ⟨j, hj⟩ := mem_iff_getElem?.1 hq
  rcases getElem?_set_cases hj with ⟨-, rfl⟩ | ⟨hne, hj⟩
  · exact hok
  · have hmem := mem_of_getElem? hj
    have hnw := h.not_writing (mem_of_getElem? hi) hp hmem
    have hq := h.calls q hmem
    cases q with
    | addWalk x pos k | addAlloc x pos k | addInsert x pos => exact hins j _ _ hne hj rfl hq
    | addPosition x => exact hfired.trans hq
    | fireNext | fireSwap | fireCall | fireClear | fireDetach | fireUnlock => exact absurd rfl hnw
    | _ => trivial

lemma Inv.takePosition (h : m.Inv ps) {x : α} (hi : ps[i]? = some (.addPosition x))
    (hwrap : m.count.toNat + 1 < 2 ^ 32) (hph : p'.phase = .reading) (hitem : p'.item = some x)
    (hplaced : p'.placed = some x) (hins : p'.inserting = some (m.count.toNat, x))
    (hok : m.slot m.count.toNat = none →
      (m.batch m.fires ++ [x])[m.count.toNat]? = some x → (m.takePosition x).CallOk p') :
    (m.takePosition x).Inv (ps.set i p') := by
  have hmem := mem_of_getElem? hi
  have hbatch : (m.takePosition x).batch m.fires = m.batch m.fires ++ [x] := by
    rw [batch_takePosition, if_pos rfl]
  have hprog := h.progress_eq_zero hmem rfl
  have hw : weight progress (ps.set i p') = 0 := by
    have hset : _ + 0 = _ + _ := weight_set progress hi p'
    have := OoPc.progress_eq_zero (p := p') (by simp [hph])
    omega
  have hfree : m.slot m.count.toNat = none := by
    by_contra hne
    obtain ⟨y, hy⟩ := ne_none_iff_exists'.1 hne
    have := (List.getElem?_eq_some_iff.1 (h.slot_some _ y hy).1).1
    have := h.count
    omega
  have hlast : (m.batch m.fires ++ [x])[m.count.toNat]? = some x := by
    rw [h.count]
    simp
  have hkeep {k : ℕ} {y : α} (hk : (m.batch m.fires)[k]? = some y) :
      ((m.takePosition x).batch m.fires)[k]? = some y := by
    rw [hbatch, List.getElem?_append_left (List.getElem?_eq_some_iff.1 hk).1]
    exact hk
  refine ⟨?_, ?_, ?_, ?_, h.replays_le, ?_, ?_, ?_, ?_, ?_, ?_, h.elements_pos⟩
  · rw [map_set, hph]
    exact h.lock.move (p := .reading) (by simp [hi, phase]) (.stay _ _)
  · rw [filterMap_set_of_eq hi hitem]
    exact h.nodup
  · refine (filterMap_set_perm hi rfl hplaced).trans ((h.placed.cons x).trans ?_)
    have : (m.takePosition x).positions.map Prod.snd = m.positions.map Prod.snd ++ [x] := by
      simp [OoList.takePosition]
    rw [this]
    exact (perm_append_singleton x _).symm
  · exact forall_mem_append_singleton h.positions_le (Nat.le_refl m.fires)
  · intro g (hg : g < m.fires)
    rw [batch_takePosition, if_neg (by omega)]
    exact h.replayed_eq g hg
  · show (m.count + 1).toNat = ((m.takePosition x).batch m.fires).length
    rw [hbatch, toNat_add_one hwrap, h.count, length_append]
    rfl
  · have := h.current
    rw [hprog, take_zero] at this
    rw [hw, take_zero]
    exact this
  · refine h.calls_set (p := .addPosition x) hi rfl (hok hfree hlast) rfl ?_
    intro j q e _ _ he hq
    cases q <;> simp only [inserting, reduceCtorEq, some.injEq] at he
    all_goals exact ⟨hkeep hq.1, hq.2⟩
  · intro k y hk
    obtain ⟨hb, -, hle⟩ := h.slot_some k y hk
    exact ⟨hkeep hb, by omega, hle⟩
  · intro k y hk hy _
    have hy : (m.batch m.fires ++ [x])[k]? = some y := hbatch ▸ hy
    by_cases hlt : k < (m.batch m.fires).length
    · rw [getElem?_append_left hlt] at hy
      exact exists_mem_set hi (h.slot_none k y hk hy (by omega)) fun he => by cases he
    · have hk' := (List.getElem?_eq_some_iff.1 hy).1
      rw [length_append, length_singleton] at hk'
      obtain rfl : k = m.count.toNat := by rw [h.count]; omega
      rw [hlast] at hy
      cases hy
      exact ⟨p', List.mem_set (List.getElem?_eq_some_iff.1 hi).1 p', hins⟩

lemma Inv.adder (h : m.Inv ps) (hi : ps[i]? = some p) {n : ℕ} {slot : ℕ → Option α}
    (hp : p.phase = .reading) (hp' : p'.phase = .reading) (hitem : p'.item = p.item)
    (hplaced : p'.placed = p.placed)
    (hcalls : ∀ q ∈ ps.set i p', { m with elements := n, slot := slot }.CallOk q)
    (hsome : ∀ k x, slot k = some x → (m.batch m.fires)[k]? = some x ∧ k / perElement < n)
    (hnone : ∀ k x, slot k = none → (m.batch m.fires)[k]? = some x →
      ∃ q ∈ ps.set i p', q.inserting = some (k, x))
    (hpos : 0 < n) : { m with elements := n, slot := slot }.Inv (ps.set i p') := by
  have hmem := mem_of_getElem? hi
  have hw : weight progress (ps.set i p') = weight progress ps := by
    have := weight_set progress hi p'
    rw [OoPc.progress_eq_zero (by simp [hp]),
      OoPc.progress_eq_zero (by simp [hp'])] at this
    omega
  refine ⟨?_, by rw [filterMap_set_of_eq hi hitem]; exact h.nodup,
    by rw [filterMap_set_of_eq hi hplaced]; exact h.placed, h.positions_le, h.replays_le,
    h.replayed_eq, h.count, by rw [hw]; exact h.current, hcalls, ?_, ?_, hpos⟩
  · rw [map_set, hp']
    exact h.lock.move (by simp [hi, hp]) (.stay _ _)
  · intro k x hk
    have hprog := h.progress_eq_zero hmem hp
    exact ⟨(hsome k x hk).1, by omega, (hsome k x hk).2⟩
  · exact fun k x hk hx _ => hnone k x hk hx

lemma Inv.link (h : m.Inv ps) {x : α} {pos k : ℕ} (hi : ps[i]? = some (.addAlloc x pos k)) :
    (m.link k).Inv (ps.set i (.addFrom x pos (k + 1))) := by
  obtain ⟨hb, hfree, hpos, hel⟩ := h.calls _ (mem_of_getElem? hi)
  have hprog := h.progress_eq_zero (mem_of_getElem? hi) rfl
  have hdiv : pos / perElement = k + 1 := by
    rw [hpos]
    exact Nat.mul_div_cancel_left _ (by decide)
  -- nothing is in the slots of an element that does not exist
  have hslot : (fun j => if j / perElement = k + 1 then none else m.slot j) = m.slot := by
    funext j
    split_ifs with hj
    · by_contra hne
      obtain ⟨y, hy⟩ := ne_none_iff_exists'.1 (Ne.symm hne)
      have := (h.slot_some j y hy).2.2
      omega
    · rfl
  rw [show m.link k = { m with elements := k + 2, slot := m.slot } by rw [OoList.link, hslot],
    addFrom, if_neg (by omega)]
  refine h.adder hi rfl rfl rfl rfl ?_ ?_ ?_ (by omega)
  · refine h.calls_set hi rfl ⟨hb, hfree, by show pos / perElement < k + 2; omega⟩ rfl ?_
    intro j q e hne hj he hq
    cases q <;> simp only [inserting, reduceCtorEq] at he
    · exact ⟨hq.1, hq.2.1, hq.2.2.1, by have := hq.2.2.2; show _ < k + 2; omega⟩
    · refine absurd ?_ (h.inserting_ne hi hj hne rfl rfl)
      have := hq.2.2.2
      show pos = _
      rw [hpos, hq.2.2.1]
      congr 1
      omega
    · exact ⟨hq.1, hq.2.1, by have := hq.2.2; show _ < k + 2; omega⟩
  · intro j y hj
    obtain ⟨hy, -, hle⟩ := h.slot_some j y hj
    exact ⟨hy, by omega⟩
  · intro j y hj hy
    exact exists_mem_set hi (h.slot_none j y hj hy (by omega)) fun he => he

lemma Inv.insert (h : m.Inv ps) {x : α} {pos : ℕ} (hi : ps[i]? = some (.addInsert x pos)) :
    (m.insert pos x).Inv (ps.set i (.addUnlock x)) := by
  obtain ⟨hb, hfree, hel⟩ := h.calls _ (mem_of_getElem? hi)
  have hprog := h.progress_eq_zero (mem_of_getElem? hi) rfl
  refine h.adder hi rfl rfl rfl rfl ?_ ?_ ?_ h.elements_pos
  · refine h.calls_set hi rfl trivial rfl ?_
    intro j q e hne hj he hq
    have hpos := h.inserting_ne hi hj hne rfl he
    have hslot {k : ℕ} (hk : pos ≠ k) (hq : m.slot k = none) :
        update m.slot pos (some x) k = none := by
      rw [update_of_ne hk.symm]
      exact hq
    cases q <;> simp only [inserting, reduceCtorEq, some.injEq] at he <;> subst he
    all_goals exact ⟨hq.1, hslot hpos hq.2.1, hq.2.2⟩
  · intro k y hk
    by_cases hkp : k = pos
    · subst hkp
      rw [update_self] at hk
      exact ⟨hk ▸ hb, hel⟩
    · rw [update_of_ne hkp] at hk
      exact ⟨(h.slot_some k y hk).1, (h.slot_some k y hk).2.2⟩
  · intro k y hk hy
    by_cases hkp : k = pos
    · subst hkp
      rw [update_self] at hk
      cases hk
    · rw [update_of_ne hkp] at hk
      refine exists_mem_set hi (h.slot_none k y hk hy (by omega)) fun he => ?_
      simp only [inserting, some.injEq, Prod.mk.injEq] at he
      exact absurd he.1.symm hkp

end Adders

section Writers

/-- A call that has the lock for itself finds every item that is not replayed in its slot. -/
theorem Inv.slot_ne_none (h : m.Inv ps) (hi : ps[i]? = some p) (hp : p.phase = .writing) {k : ℕ}
    {x : α} (hx : (m.batch m.fires)[k]? = some x) (hle : p.progress ≤ k) : m.slot k ≠ none := by
  intro hk
  obtain ⟨q, hq, he⟩ := h.slot_none k x hk hx (h.progress_eq hi hp ▸ hle)
  exact h.not_writing hq (phase_of_inserting he) (mem_of_getElem? hi) hp

lemma item_of_writing (hp : p.phase = .writing) : p.item = none ∧ p.placed = none := by
  cases p <;> simp_all [phase, item, placed]

lemma Inv.writer (h : m.Inv ps) (hi : ps[i]? = some p) (hp : p.phase = .writing)
    (hp' : p'.phase = .writing) (hwords : m'.words = m.words) (hpos : m'.positions = m.positions)
    (hfires : m.fires ≤ m'.fires) (hrep : ∀ e ∈ m'.replays, e.1 ≤ m'.fires)
    (hold : ∀ g < m'.fires, m'.replayed g = m'.batch g)
    (hcount : m'.count.toNat = (m'.batch m'.fires).length)
    (hcur : m'.replayed m'.fires = (m'.batch m'.fires).take p'.progress) (hok : m'.CallOk p')
    (hsome : ∀ k x, m'.slot k = some x → (m'.batch m'.fires)[k]? = some x ∧
      p'.progress ≤ k ∧ k / perElement < m'.elements)
    (hnone : ∀ k x, (m'.batch m'.fires)[k]? = some x → p'.progress ≤ k → m'.slot k ≠ none)
    (hel : 0 < m'.elements) : m'.Inv (ps.set i p') := by
  have hothers {j : ℕ} {q : OoPc α} (hne : i ≠ j) (hj : ps[j]? = some q) :=
    h.phase_of_writing hi hp hj hne
  have hw : weight progress (ps.set i p') = p'.progress := by
    have := weight_set progress hi p'
    rw [h.progress_eq hi hp] at this
    omega
  refine ⟨?_, ?_, ?_, ?_, hrep, hold, hcount, by rw [hw]; exact hcur, ?_, by rw [hw]; exact hsome,
    ?_, hel⟩
  · rw [map_set, hp', hwords]
    exact h.lock.move (by simp [hi, hp]) (.stay _ _)
  · rw [filterMap_set_of_eq hi ((item_of_writing hp').1.trans (item_of_writing hp).1.symm)]
    exact h.nodup
  · rw [filterMap_set_of_eq hi ((item_of_writing hp').2.trans (item_of_writing hp).2.symm), hpos]
    exact h.placed
  · intro e he
    rw [hpos] at he
    exact (h.positions_le e he).trans hfires
  · intro q hq
    obtain ⟨j, hj⟩ := mem_iff_getElem?.1 hq
    rcases getElem?_set_cases hj with ⟨-, rfl⟩ | ⟨hne, hj⟩
    · exact hok
    · exact callOk_of_phase (hothers hne hj).1 (hothers hne hj).2
  · rw [hw]
    exact fun k x hk hx hle => absurd hk (hnone k x hx hle)

lemma Inv.mark (h : m.Inv ps) (hi : ps[i]? = some p) (hp : p.phase = .writing)
    (hp' : p'.phase = .writing) (hprog : p'.progress = p.progress) (hok : m.CallOk p') {b : Bool}
    (hpos : ∀ x, p' ≠ .addPosition x) : { m with isFired := b }.Inv (ps.set i p') := by
  have hprog' := h.progress_eq hi hp
  refine h.writer hi hp hp' rfl rfl le_rfl h.replays_le h.replayed_eq h.count ?_ ?_ ?_ ?_
    h.elements_pos
  · rw [hprog, ← hprog']
    exact h.current
  · cases p' with
    | addPosition x => exact absurd rfl (hpos x)
    | _ => exact hok
  · intro k x hk
    rw [hprog, ← hprog']
    exact h.slot_some k x hk
  · rw [hprog]
    exact fun k x hx hle => h.slot_ne_none hi hp hx hle

lemma replayed_takeOut (j : ℕ) (x : α) (g : ℕ) :
    (m.takeOut j x).replayed g = if m.fires = g then m.replayed g ++ [x] else m.replayed g := by
  by_cases hg : m.fires = g <;> simp [takeOut, replayed, hg]

lemma Inv.takeOut (h : m.Inv ps) {pos j : ℕ} {x : α} (hi : ps[i]? = some (.fireSwap pos j))
    (hx : m.slot j = some x) : (m.takeOut j x).Inv (ps.set i (.fireCall pos j x)) := by
  have hok := h.calls _ (mem_of_getElem? hi)
  have hprog : weight progress ps = j := h.progress_eq hi rfl
  have hj := (h.slot_some j x hx).1
  refine h.writer hi rfl rfl rfl rfl le_rfl ?_ ?_ h.count ?_ hok ?_ ?_ h.elements_pos
  · exact forall_mem_append_singleton h.replays_le (Nat.le_refl m.fires)
  · intro g (hg : g < m.fires)
    rw [replayed_takeOut, if_neg (by omega)]
    exact h.replayed_eq g hg
  · show (m.takeOut j x).replayed m.fires = (m.batch m.fires).take (j + 1)
    rw [replayed_takeOut, if_pos rfl, h.current, hprog, take_add_one, hj]
    rfl
  · intro k y hk
    have hkj : k ≠ j := by
      rintro rfl
      simp [OoList.takeOut] at hk
    have hk : m.slot k = some y := by
      simpa [OoList.takeOut, update_of_ne hkj] using hk
    obtain ⟨hy, hle, hel⟩ := h.slot_some k y hk
    exact ⟨hy, by show j + 1 ≤ k; omega, hel⟩
  · intro k y hy (hle : j + 1 ≤ k)
    have := h.slot_ne_none hi rfl hy (by show j ≤ k; omega)
    simpa [OoList.takeOut, update_of_ne (show k ≠ j by omega)] using this

lemma Inv.batch_succ (h : m.Inv ps) : m.batch (m.fires + 1) = [] := by
  simp only [batch, map_eq_nil_iff, filter_eq_nil_iff]
  intro e he
  have := h.positions_le e he
  simp only [decide_eq_true_eq]
  omega

lemma Inv.replayed_succ (h : m.Inv ps) : m.replayed (m.fires + 1) = [] := by
  simp only [replayed, map_eq_nil_iff, filter_eq_nil_iff]
  intro e he
  have := h.replays_le e he
  simp only [decide_eq_true_eq]
  omega

lemma Inv.clear (h : m.Inv ps) {pos : ℕ} (hi : ps[i]? = some (.fireClear pos)) :
    m.clear.Inv (ps.set i .fireDetach) := by
  have hok : pos = _ := h.calls _ (mem_of_getElem? hi)
  have hprog : weight progress ps = pos := h.progress_eq hi rfl
  have hbatch : m.clear.batch m.clear.fires = [] := h.batch_succ
  have hempty {k : ℕ} : m.slot k = none := by
    by_contra hne
    obtain ⟨x, hx⟩ := ne_none_iff_exists'.1 hne
    obtain ⟨hb, hle, -⟩ := h.slot_some k x hx
    have := (List.getElem?_eq_some_iff.1 hb).1
    omega
  refine h.writer hi rfl rfl rfl rfl (Nat.le_succ _) ?_ ?_ ?_ ?_ hbatch ?_ ?_ h.elements_pos
  · exact fun e he => (h.replays_le e he).trans (Nat.le_succ _)
  · intro g (hg : g < m.fires + 1)
    rcases Nat.lt_succ_iff_lt_or_eq.1 hg with hlt | rfl
    · exact h.replayed_eq g hlt
    · exact h.current.trans (by rw [hprog, hok, take_length]; rfl)
  · rw [hbatch]
    rfl
  · exact h.replayed_succ
  · intro k x (hk : m.slot k = some x)
    rw [hempty] at hk
    cases hk
  · intro k x hx
    rw [hbatch] at hx
    cases hx

lemma Inv.detach (h : m.Inv ps) (hi : ps[i]? = some .fireDetach) :
    m.detach.Inv (ps.set i .fireUnlock) := by
  have hok : m.batch m.fires = [] := h.calls _ (mem_of_getElem? hi)
  have hprog : weight progress ps = 0 := h.progress_eq hi rfl
  refine h.writer hi rfl rfl rfl rfl le_rfl h.replays_le h.replayed_eq h.count ?_ hok ?_ ?_
    Nat.one_pos
  · have := h.current
    rw [hprog] at this
    exact this
  · intro k x hk
    have hk : (if k / perElement = 0 then m.slot k else none) = some x := hk
    split_ifs at hk with h0
    obtain ⟨hb, hle, -⟩ := h.slot_some k x hk
    exact ⟨hb, Nat.zero_le _, by show k / perElement < 1; omega⟩
  · intro k x (hx : (m.batch m.fires)[k]? = some x)
    rw [hok] at hx
    cases hx

end Writers

section Step

lemma perElement_pos : 0 < perElement := by decide

lemma Inv.walk (h : m.Inv ps) {x : α} {pos k : ℕ} (hi : ps[i]? = some (.addWalk x pos k))
    (hst : m.step (.addWalk x pos k) = some (m', p')) : m'.Inv (ps.set i p') := by
  obtain ⟨hb, hfree, hlt, hel⟩ := h.calls _ (mem_of_getElem? hi)
  simp only [step] at hst
  split_ifs at hst with hnext halloc
  · cases hst
    unfold addFrom
    split_ifs with hmore
    · exact h.goto hi (.stay _ _) rfl rfl rfl rfl ⟨hb, hfree, hmore, hnext⟩
    · exact h.goto hi (.stay _ _) rfl rfl rfl rfl ⟨hb, hfree, by omega⟩
  · cases hst
    refine h.goto hi (.stay _ _) rfl rfl rfl rfl ⟨hb, hfree, ?_, by omega⟩
    have := Nat.div_add_mod pos perElement
    rw [← halloc.1, halloc.2] at this
    omega

lemma Inv.fireFrom (h : m.Inv ps) (hi : ps[i]? = some p) (hp : p.phase = .writing) {j : ℕ}
    (hprog : p.progress = j) (hj : j ≤ (m.batch m.fires).length) :
    m.Inv (ps.set i (.fireFrom (m.batch m.fires).length j)) := by
  have hmove : Lock.Move m.words p.phase m.words .writing := hp ▸ .stay _ _
  have hitem := item_of_writing hp
  have hins : p.inserting = none := by
    cases hins : p.inserting with
    | none => rfl
    | some e => rw [phase_of_inserting hins] at hp; cases hp
  unfold OoPc.fireFrom
  split_ifs with hend hnext
  · exact h.goto hi hmove hitem.1.symm hitem.2.symm hins.symm (hend ▸ hprog.symm) rfl
  · exact h.goto hi hmove hitem.1.symm hitem.2.symm hins.symm hprog.symm ⟨rfl, by omega⟩
  · exact h.goto hi hmove hitem.1.symm hitem.2.symm hins.symm hprog.symm ⟨rfl, by omega⟩

lemma retry_facts (n : ℕ) : (retry n : OoPc α).phase = .outside ∧
    (retry n : OoPc α).item = none ∧ (retry n : OoPc α).placed = none ∧
    (retry n : OoPc α).inserting = none := by
  unfold retry
  split_ifs <;> exact ⟨rfl, rfl, rfl, rfl⟩

lemma Inv.setWriter (h : m.Inv ps) (hi : ps[i]? = some p) (hp : p.phase = .outside)
    (hp' : p'.phase = .draining) (hfree : m.writerLock = .free) {w : WriterLock} (hw : w ≠ .free)
    (hitem : p'.item = p.item) (hplaced : p'.placed = p.placed)
    (hins : p'.inserting = p.inserting) : { m with writerLock := w }.Inv (ps.set i p') := by
  refine h.relock hi ?_ hitem hplaced hins ?_ ?_
  · refine h.lock.move (p := .outside) (by simp [hi, hp]) ?_
    simp only [words, hfree, hp', ne_eq, hw]
    exact .set _
  · have hzero : p.progress = 0 := OoPc.progress_eq_zero (by simp [hp])
    have hzero' : p'.progress = 0 := OoPc.progress_eq_zero (by simp [hp'])
    rw [hzero, hzero']
  · exact callOk_of_phase (by simp [hp']) (by simp [hp'])

lemma toNat_eq_zero {r : UInt32} (h : r = 0) : r.toNat = 0 := by rw [h]; rfl

/-- **Every step of a call keeps the invariant.** -/
theorem Inv.step (h : m.Inv ps) (hi : ps[i]? = some p) (hwrap : m.NoWrap p)
    (hst : m.step p = some (m', p')) : m'.Inv (ps.set i p') := by
  cases p with
  | idle | added | fired | resetDone => cases hst
  | addEnter x =>
    cases hst
    split_ifs
    · exact h.goto hi (.stay _ _) rfl rfl rfl rfl trivial
    · exact h.goto hi (.stay _ _) rfl rfl rfl rfl trivial
  | addSpin x =>
    obtain ⟨-, hst⟩ := ite_none_left_eq_some.1 hst
    cases hst
    exact h.goto hi (.stay _ _) rfl rfl rfl rfl trivial
  | addCount x =>
    cases hst
    refine h.relock hi ?_ rfl rfl rfl rfl trivial
    refine h.lock.move (p := .outside) (by simp [hi, phase]) ?_
    simp only [words, toNat_add_one hwrap]
    exact .count _ _
  | addRecheck x =>
    cases hst
    split_ifs with hfree
    · refine h.goto hi ?_ rfl rfl rfl rfl trivial
      simp only [words, hfree]
      exact .enter _
    · exact h.goto hi (.stay _ _) rfl rfl rfl rfl trivial
  | addUncount x | addRefuse x | addUnlock x =>
    cases hst
    exact h.leave hi rfl rfl rfl rfl rfl
  | addFired x =>
    cases hst
    split_ifs with hf
    · exact h.goto hi (.stay _ _) rfl rfl rfl rfl trivial
    · exact h.goto hi (.stay _ _) rfl rfl rfl rfl (Bool.eq_false_iff.2 hf)
  | addPosition x =>
    cases hst
    unfold addFrom
    have hbatch : (m.takePosition x).batch m.fires = m.batch m.fires ++ [x] := by
      rw [batch_takePosition, if_pos rfl]
    split_ifs with hlt
    · refine h.takePosition hi hwrap rfl rfl rfl rfl fun hfree hlast => ?_
      exact ⟨hbatch ▸ hlast, hfree, hlt, h.elements_pos⟩
    · refine h.takePosition hi hwrap rfl rfl rfl rfl fun hfree hlast => ?_
      have := h.elements_pos
      exact ⟨hbatch ▸ hlast, hfree, by show _ < m.elements; omega⟩
  | addWalk x pos k => exact h.walk hi hst
  | addAlloc x pos k =>
    cases hst
    exact h.link hi
  | addInsert x pos =>
    simp only [OoList.step] at hst
    split at hst
    · cases hst
      exact h.insert hi
    · cases hst
  | fireTry n =>
    obtain ⟨hph, hitem, hplaced, hins⟩ := retry_facts (α := α) n
    simp only [OoList.step] at hst
    split_ifs at hst with hfree
    · cases hst
      exact h.setWriter hi rfl rfl hfree (by simp) rfl rfl rfl
    · cases hst
      exact h.goto hi (hph ▸ .stay _ _) hitem hplaced hins
        (OoPc.progress_eq_zero (by simp [hph])) (callOk_of_phase (by simp [hph]) (by simp [hph]))
  | fireReaders n | resetReaders =>
    cases hst
    split_ifs with hr
    · refine h.goto hi ?_ rfl rfl rfl rfl trivial
      simp only [words, toNat_eq_zero hr]
      exact .drained _
    · exact h.goto hi (.stay _ _) rfl rfl rfl rfl trivial
  | fireWithdraw n =>
    obtain ⟨hph, hitem, hplaced, hins⟩ := retry_facts (α := α) n
    cases hst
    exact h.unlock hi (.inr rfl) hph hitem hplaced hins rfl
  | fireMark | resetMark =>
    cases hst
    exact h.mark hi rfl (by rfl) (by rfl) (by trivial) (by simp)
  | fireCount =>
    cases hst
    rw [h.count]
    exact h.fireFrom hi rfl rfl (Nat.zero_le _)
  | fireNext pos j =>
    obtain ⟨-, hst⟩ := ite_none_right_eq_some.1 hst
    cases hst
    have hok := h.calls _ (mem_of_getElem? hi)
    exact h.goto hi (.stay _ _) rfl rfl rfl rfl hok
  | fireSwap pos j =>
    simp only [OoList.step] at hst
    split at hst
    · cases hst
      exact h.takeOut hi ‹_›
    · cases hst
  | fireCall pos j x =>
    cases hst
    obtain ⟨rfl, hlt⟩ := h.calls _ (mem_of_getElem? hi)
    exact h.fireFrom hi rfl rfl hlt
  | fireClear pos =>
    cases hst
    exact h.clear hi
  | fireDetach =>
    cases hst
    exact h.detach hi
  | fireUnlock | resetUnlock =>
    cases hst
    exact h.unlock hi (.inl rfl) rfl rfl rfl rfl rfl
  | resetTry =>
    simp only [OoList.step] at hst
    split_ifs at hst with hfree
    · cases hst
      exact h.setWriter hi rfl rfl hfree (by simp) rfl rfl rfl
    · cases hst
      exact h.goto hi (.stay _ _) rfl rfl rfl rfl trivial
  | resetWithdraw =>
    cases hst
    exact h.unlock hi (.inr rfl) rfl rfl rfl rfl rfl

lemma Inv.spawn (h : m.Inv ps) (hp : p.phase = .outside) (hplaced : p.placed = none)
    (hitem : ∀ q ∈ ps, ∀ x, p.item = some x → q.item ≠ some x) : m.Inv (ps ++ [p]) := by
  have hzero : p.progress = 0 := OoPc.progress_eq_zero (by simp [hp])
  have hw : weight progress (ps ++ [p]) = weight progress ps := by
    simp [hzero]
  refine ⟨by simpa [hp] using h.lock.start, ?_, ?_, h.positions_le, h.replays_le, h.replayed_eq,
    h.count, by rw [hw]; exact h.current,
    forall_mem_append_singleton h.calls (callOk_of_phase (by simp [hp]) (by simp [hp])),
    by rw [hw]; exact h.slot_some, ?_, h.elements_pos⟩
  · rw [filterMap_append, nodup_append]
    refine ⟨h.nodup, ?_, ?_⟩
    · cases hx : p.item <;> simp [hx]
    · rintro x hx y hy rfl
      obtain ⟨q, hq, hqx⟩ := mem_filterMap.1 hx
      obtain ⟨r, hr, hrx⟩ := mem_filterMap.1 hy
      rw [mem_singleton.1 hr] at hrx
      exact hitem q hq x hrx hqx
  · simpa [hplaced] using h.placed
  · rw [hw]
    intro k x hk hx hle
    obtain ⟨q, hq, he⟩ := h.slot_none k x hk hx hle
    exact ⟨q, mem_append_left _ hq, he⟩

lemma inv_empty : (({} : OoList α)).Inv [] :=
  ⟨⟨rfl, rfl, by simp⟩, by simp, by simp, by simp, by simp, by simp, rfl, rfl, by simp, by simp,
    by simp [batch], Nat.one_pos⟩

end Step

end OoList

end Arts
