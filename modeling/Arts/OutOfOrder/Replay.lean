import Arts.OutOfOrder.Steps

/-!
# Deferred operations are replayed exactly once, in order

`OoRun.Replays` is what the list guarantees as long as its 32-bit words do not wrap
(`OoRun.replays_of_reachable`).
-/

namespace Arts

open List Option OoPc Prod

variable {α : Type*}

/-- A fire that has replayed its batch. -/
def OoPc.completed : OoPc α → ℕ
  | .fireDetach | .fireUnlock | .fired true => 1
  | _ => 0

namespace OoRun

/-- **What the list guarantees.** -/
structure Replays (s : OoRun α) : Prop where
  accepted : ∀ x, .added x true ∈ s.calls → ∃ g, (g, x) ∈ s.list.positions
  /-- The fires that come before the position do not replay the item, the first one after it does. -/
  first : ∀ g x, (g, x) ∈ s.list.positions →
    (g < s.list.fires → (g, x) ∈ s.list.replays) ∧ ∀ g', (g', x) ∈ s.list.replays → g' = g
  once : (s.list.replays.map snd).Nodup
  order : ∀ g, s.list.replayed g <+: s.list.batch g
  refused : ∀ x, .added x false ∈ s.calls → x ∉ s.list.replays.map snd
  /-- The fires are numbered by their completion, and no fire or reset has the lock while an add
  takes its position: the fires to come are those that obtain the lock later. -/
  fires_eq : weight completed s.calls = s.list.fires
  alone : ∀ p ∈ s.calls, p.phase = .reading → ∀ q ∈ s.calls, q.phase ≠ .writing
  fire_goes_on : ∀ p ∈ s.calls, p.phase = .writing → (s.list.step p).isSome
  add_inserts : ∀ x pos, .addInsert x pos ∈ s.calls → (s.list.step (.addInsert x pos)).isSome
  element_comes : ∀ x pos i, .addWalk x pos i ∈ s.calls → s.list.step (.addWalk x pos i) = none →
    ∃ q ∈ s.calls, (∃ y, q.inserting = some (perElement * s.list.elements, y)) ∧
      (s.list.step q).isSome

end OoRun

namespace OoList

variable {m m' : OoList α} {ps : List (OoPc α)} {p p' : OoPc α} {x : α} {g : ℕ}

lemma mem_batch : x ∈ m.batch g ↔ (g, x) ∈ m.positions := by simp [batch]

lemma mem_replayed : x ∈ m.replayed g ↔ (g, x) ∈ m.replays := by simp [replayed]

lemma Inv.order (h : m.Inv ps) (g : ℕ) : m.replayed g <+: m.batch g := by
  rcases Nat.lt_trichotomy g m.fires with hlt | rfl | hgt
  · exact h.replayed_eq g hlt ▸ prefix_rfl
  · rw [h.current]
    exact take_prefix _ _
  · have hnil : m.replayed g = [] := by
      rw [eq_nil_iff_forall_not_mem]
      intro x hx
      have := h.replays_le _ (mem_replayed.1 hx)
      omega
    rw [hnil]
    exact nil_prefix

lemma count_filter_fst [DecidableEq α] (l : List (ℕ × α)) (g : ℕ) (x : α) :
    ((l.filter fun e => e.1 = g).map snd).count x = l.count (g, x) := by
  induction l with
  | nil => rfl
  | cons e l ih =>
    obtain ⟨k, y⟩ := e
    by_cases hk : k = g
    · subst hk
      simp [count_cons, ih]
    · simp [hk, ih]

lemma Inv.replays_subperm (h : m.Inv ps) : m.replays.Subperm m.positions := by
  classical
  rw [subperm_ext_iff]
  rintro ⟨g, x⟩ -
  rw [← count_filter_fst, ← count_filter_fst]
  exact (h.order g).sublist.count_le x

lemma filterMap_placed_sublist (ps : List (OoPc α)) :
    (ps.filterMap placed).Sublist (ps.filterMap item) := by
  induction ps with
  | nil => exact .slnil
  | cons p ps ih =>
    cases hp : p.placed with
    | some x =>
      rw [filterMap_cons_some hp, filterMap_cons_some (item_of_placed hp)]
      exact ih.cons_cons x
    | none =>
      rw [filterMap_cons_none hp]
      exact ih.trans ((sublist_cons_self p ps).filterMap _)

lemma Inv.positions_nodup (h : m.Inv ps) : (m.positions.map snd).Nodup :=
  h.placed.nodup_iff.1 (h.nodup.sublist (filterMap_placed_sublist ps))

lemma Inv.once (h : m.Inv ps) : (m.replays.map snd).Nodup := by
  obtain ⟨l, hperm, hsub⟩ := h.replays_subperm
  exact (hperm.map snd).nodup_iff.1 (h.positions_nodup.sublist (hsub.map snd))

lemma Inv.first (h : m.Inv ps) (hx : (g, x) ∈ m.positions) :
    (g < m.fires → (g, x) ∈ m.replays) ∧ ∀ g', (g', x) ∈ m.replays → g' = g := by
  refine ⟨fun hlt => ?_, fun g' hx' => ?_⟩
  · rwa [← mem_replayed, h.replayed_eq g hlt, mem_batch]
  · have hinj := inj_on_of_nodup_map h.positions_nodup (h.replays_subperm.subset hx') hx rfl
    exact congrArg fst hinj

lemma Inv.accepted (h : m.Inv ps) (hx : .added x true ∈ ps) : ∃ g, (g, x) ∈ m.positions := by
  have hmem : x ∈ ps.filterMap OoPc.placed := mem_filterMap.2 ⟨_, hx, rfl⟩
  obtain ⟨⟨g, y⟩, he, rfl⟩ := mem_map.1 (h.placed.subset hmem)
  exact ⟨g, he⟩

lemma Inv.refused (h : m.Inv ps) (hx : .added x false ∈ ps) :
    x ∉ m.replays.map snd := by
  intro hmem
  have hpos := h.placed.symm.subset (map_subset snd h.replays_subperm.subset hmem)
  obtain ⟨q, hq, hqx⟩ := mem_filterMap.1 hpos
  obtain ⟨i, hi⟩ := mem_iff_getElem?.1 hx
  obtain ⟨j, hj⟩ := mem_iff_getElem?.1 hq
  -- the refused add is the only one with this item
  obtain rfl := index_eq_of_filterMap_nodup h.nodup hi hj rfl (item_of_placed hqx)
  rw [hi] at hj
  cases hj
  cases hqx

lemma Inv.fire_goes_on (h : m.Inv ps) (hp : p ∈ ps) (hw : p.phase = .writing) :
    (m.step p).isSome := by
  obtain ⟨i, hi⟩ := mem_iff_getElem?.1 hp
  have hfull : ∀ j, p.progress = j → j < (m.batch m.fires).length → ∃ x, m.slot j = some x := by
    intro j hj hlt
    refine ne_none_iff_exists'.1 (h.slot_ne_none hi hw (getElem?_eq_getElem hlt) ?_)
    exact hj.le
  have hok := h.calls p hp
  cases p with
  | fireNext pos j =>
    obtain ⟨rfl, hlt⟩ := hok
    obtain ⟨x, hx⟩ := hfull j rfl hlt
    simp [OoList.step, (h.slot_some j x hx).2.2]
  | fireSwap pos j =>
    obtain ⟨rfl, hlt⟩ := hok
    obtain ⟨x, hx⟩ := hfull j rfl hlt
    simp [OoList.step, hx]
  | _ => first | rfl | cases hw

/-- The first item of the first missing element is the one whose add provides the element. -/
theorem Inv.exists_provider (h : m.Inv ps) {pos i : ℕ} (hp : .addWalk x pos i ∈ ps)
    (hst : m.step (.addWalk x pos i) = none) :
    ∃ q ∈ ps, ∃ y, q.inserting = some (perElement * m.elements, y) := by
  obtain ⟨hb, -, hlt, hel⟩ := h.calls _ hp
  have hlast : i + 1 = m.elements := by
    simp only [OoList.step] at hst
    split_ifs at hst
    omega
  have hle : perElement * m.elements ≤ pos := by
    rw [← hlast]
    exact (Nat.mul_le_mul_left _ hlt).trans (Nat.mul_div_le pos perElement)
  obtain ⟨hpos, -⟩ := List.getElem?_eq_some_iff.1 hb
  obtain ⟨y, hy⟩ : ∃ y, (m.batch m.fires)[perElement * m.elements]? = some y :=
    ⟨_, getElem?_eq_getElem (by omega)⟩
  have hslot : m.slot (perElement * m.elements) = none := by
    cases hs : m.slot (perElement * m.elements) with
    | none => rfl
    | some z =>
      have := (h.slot_some _ z hs).2.2
      rw [Nat.mul_div_cancel_left _ perElement_pos] at this
      omega
  have hzero := h.progress_eq_zero hp rfl
  obtain ⟨q, hq, hins⟩ := h.slot_none _ y hslot hy (by omega)
  exact ⟨q, hq, y, hins⟩

lemma Inv.provider_goes_on (h : m.Inv ps) {y : α} (hp : p ∈ ps)
    (hins : p.inserting = some (perElement * m.elements, y)) : (m.step p).isSome := by
  have hok := h.calls p hp
  have hdiv : perElement * m.elements / perElement = m.elements :=
    Nat.mul_div_cancel_left _ perElement_pos
  have hmod : perElement * m.elements % perElement = 0 := Nat.mul_mod_right _ _
  cases p with
  | addWalk x pos i =>
    cases hins
    obtain ⟨-, -, hlt, -⟩ := hok
    simp only [OoList.step, hmod]
    split_ifs with hnext hlast
    · rfl
    · rfl
    · exact absurd ⟨by omega, trivial⟩ hlast
  | addAlloc x pos i => rfl
  | addInsert x pos =>
    obtain ⟨-, hslot, -⟩ := hok
    simp [OoList.step, hslot]
  | _ => cases hins

lemma Inv.add_inserts (h : m.Inv ps) {pos : ℕ} (hp : .addInsert x pos ∈ ps) :
    (m.step (.addInsert x pos)).isSome := by
  obtain ⟨-, hslot, -⟩ := h.calls _ hp
  simp [OoList.step, hslot]

@[simp] lemma completed_addFrom (x : α) (pos i : ℕ) : (addFrom x pos i).completed = 0 := by
  unfold addFrom
  split_ifs <;> rfl

@[simp] lemma completed_retry (n : ℕ) : (retry n : OoPc α).completed = 0 := by
  unfold retry
  split_ifs <;> rfl

@[simp] lemma completed_fireFrom (pos j : ℕ) : (fireFrom pos j : OoPc α).completed = 0 := by
  unfold fireFrom
  split_ifs <;> rfl

lemma step_fires (hst : m.step p = some (m', p')) :
    m'.fires + p.completed = m.fires + p'.completed := by
  cases p with
  | idle | added | fired | resetDone => cases hst
  | addInsert x pos | fireSwap pos j =>
    simp only [step] at hst
    split at hst <;> cases hst
    rfl
  | addSpin x | fireNext pos j | resetTry =>
    simp only [step] at hst
    split_ifs at hst <;> cases hst <;> rfl
  | addWalk x pos k =>
    simp only [step] at hst
    split_ifs at hst <;> obtain ⟨rfl, rfl⟩ := Prod.mk.inj (some.inj hst)
    · rw [completed_addFrom]
      rfl
    · rfl
  | fireTry n =>
    simp only [step] at hst
    split_ifs at hst <;> obtain ⟨rfl, rfl⟩ := Prod.mk.inj (some.inj hst)
    · rfl
    · rw [completed_retry]
      rfl
  | addEnter x | addRecheck x | addFired x | fireReaders n | resetReaders =>
    cases hst
    split_ifs <;> rfl
  | addPosition x | addAlloc x pos k | fireWithdraw n | fireCount | fireCall pos j x =>
    cases hst
    simp only [completed_addFrom, completed_retry, completed_fireFrom]
    rfl
  | _ =>
    cases hst
    rfl

end OoList

namespace OoRun

section Machine

variable [DecidableEq α] {s s' : OoRun α} {l : Act α}

lemma next_cases (hst : s.next l = some s') :
    (s'.list = s.list ∧ s'.answered = s.answered ∧ ∃ p, s'.calls = s.calls ++ [p] ∧
      p.phase = .outside ∧ p.placed = none ∧ p.completed = 0 ∧
      ∀ q ∈ s.calls, ∀ x, p.item = some x → q.item ≠ some x) ∨
    ∃ i p p', l = .call i ∧ s.calls[i]? = some p ∧ s.list.step p = some (s'.list, p') ∧
      s'.calls = s.calls.set i p' ∧ s'.answered = answer s.answered p p' := by
  cases l with
  | add x =>
    obtain ⟨hnew, hst⟩ := ite_none_right_eq_some.1 hst
    cases hst
    refine .inl ⟨rfl, rfl, _, rfl, rfl, rfl, rfl, fun q hq y hy => ?_⟩
    cases hy
    exact hnew q hq
  | fire | reset =>
    cases hst
    exact .inl ⟨rfl, rfl, _, rfl, rfl, rfl, rfl, by simp [item]⟩
  | call i =>
    obtain ⟨p, hp, hst⟩ := bind_eq_some_iff.1 hst
    obtain ⟨r, hr, rfl⟩ := map_eq_some_iff.1 hst
    exact .inr ⟨i, p, r.2, rfl, hp, hr, rfl, rfl⟩

lemma inv_next (h : s.list.Inv s.calls) (hwrap : s.NoWrap l) (hst : s.next l = some s') :
    s'.list.Inv s'.calls := by
  obtain ⟨hm, -, p, hps, hph, hpl, -, hfresh⟩ | ⟨i, p, p', rfl, hp, hstep, hps, -⟩ :=
    next_cases hst
  · rw [hm, hps]
    exact h.spawn hph hpl hfresh
  · rw [hps]
    exact h.step hp (hwrap p hp) hstep

lemma fires_next (h : weight completed s.calls = s.list.fires) (hst : s.next l = some s') :
    weight completed s'.calls = s'.list.fires := by
  obtain ⟨hm, -, p, hps, -, -, hzero, -⟩ | ⟨i, p, p', rfl, hp, hstep, hps, -⟩ := next_cases hst
  · rw [hm, hps, ← h]
    simp [hzero]
  · have hset := weight_set completed hp p'
    have hf := OoList.step_fires hstep
    rw [hps]
    omega

lemma inv_of_reachable (h : (machine.restrict NoWrap).Reachable s) :
    s.list.Inv s.calls ∧ weight completed s.calls = s.list.fires := by
  refine h.invariant (I := fun s => s.list.Inv s.calls ∧
    weight completed s.calls = s.list.fires) ?_ ?_
  · rintro s rfl
    exact ⟨OoList.inv_empty, rfl⟩
  · intro s l s' _ ⟨hinv, hf⟩ hst
    obtain ⟨hwrap, hst⟩ := Machine.restrict_next.1 hst
    exact ⟨inv_next hinv hwrap hst, fires_next hf hst⟩

/-- **Deferred operations are replayed exactly once, in order**, in every run in which no counter
wraps. -/
theorem replays_of_reachable (h : (machine.restrict NoWrap).Reachable s) : s.Replays := by
  obtain ⟨hinv, hf⟩ := inv_of_reachable h
  refine ⟨fun x hx => hinv.accepted hx, fun g x hx => hinv.first hx, hinv.once, hinv.order,
    fun x hx => hinv.refused hx, hf, fun p hp hr q hq => hinv.not_writing hp hr hq,
    fun p hp hw => hinv.fire_goes_on hp hw, fun x pos hp => hinv.add_inserts hp, ?_⟩
  intro x pos i hp hst
  obtain ⟨q, hq, y, hins⟩ := hinv.exists_provider hp hst
  exact ⟨q, hq, ⟨y, hins⟩, hinv.provider_goes_on hq hins⟩

end Machine

/-- Call `i` makes `n` steps. -/
def goOn (i n : ℕ) : List (Act ℕ) := replicate n (.call i)

/-- Five adds, the second of which overtakes the first, and a fire; an add that is refused, a reset,
another add and another fire. -/
def twoFires : List (Act ℕ) :=
  [[.add 1, .add 2, .add 3, .add 4, .add 5], goOn 0 6, goOn 1 8, goOn 0 2, goOn 2 8, goOn 3 8,
    goOn 4 10, [.fire], goOn 5 18, [.add 6], goOn 6 6, [.reset], goOn 7 4, [.add 7], goOn 8 8,
    [.fire], goOn 9 9].flatten

/-- Five items are replayed, a sixth is refused; after a reset a seventh is accepted and replayed by
the second fire. -/
theorem replays_of_reachable_two_fires :
    ∃ s : OoRun ℕ, (machine.restrict NoWrap).Reachable s ∧
      s.calls = [.added 1 true, .added 2 true, .added 3 true, .added 4 true, .added 5 true,
        .fired true, .added 6 false, .resetDone, .added 7 true, .fired true] ∧
      s.list.replays = [(0, 1), (0, 2), (0, 3), (0, 4), (0, 5), (1, 7)] ∧ s.Replays := by
  have hrun := Machine.Reachable.exists_of_exec (M := (machine (α := ℕ)).restrict NoWrap)
    (P := fun s : OoRun ℕ => s.calls = [.added 1 true, .added 2 true, .added 3 true,
        .added 4 true, .added 5 true, .fired true, .added 6 false, .resetDone, .added 7 true,
        .fired true] ∧
      s.list.replays = [(0, 1), (0, 2), (0, 3), (0, 4), (0, 5), (1, 7)])
    (r := twoFires) rfl (by decide +kernel)
  obtain ⟨s, hr, hc, hrep⟩ := hrun
  exact ⟨s, hr, hc, hrep, replays_of_reachable hr⟩

end OoRun

end Arts
