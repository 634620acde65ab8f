import Arts.OutOfOrder.Abandoned

/-!
# The out-of-order list as part of a larger program

`OoPc.idle` is a thread that is not in a call, and `Inv.reenter` lets threads leave and begin calls.
-/

namespace Arts

open List Option OoPc

variable {α : Type*}

namespace OoPc

def isFire : OoPc α → Bool
  | .fireTry _ | .fireReaders _ | .fireWithdraw _ | .fireMark | .fireCount | .fireNext _ _
  | .fireSwap _ _ | .fireCall _ _ _ | .fireClear _ | .fireDetach | .fireUnlock | .fired _ => true
  | _ => false

@[simp] lemma isFire_addFrom (x : α) (pos i : ℕ) : (addFrom x pos i).isFire = false := by
  unfold addFrom
  split_ifs <;> rfl

@[simp] lemma isFire_retry (n : ℕ) : (retry n : OoPc α).isFire := by
  unfold retry
  split_ifs <;> rfl

@[simp] lemma isFire_fireFrom (pos j : ℕ) : (fireFrom pos j : OoPc α).isFire := by
  unfold fireFrom
  split_ifs <;> rfl

lemma item_of_isFire {p : OoPc α} (h : p.isFire) : p.item = none := by
  cases p <;> first | rfl | cases h

lemma placed_of_isFire {p : OoPc α} (h : p.isFire) : p.placed = none := by
  cases p <;> first | rfl | cases h

lemma not_isFire_of_item {p : OoPc α} {x : α} (h : p.item = some x) : p.isFire = false := by
  cases p <;> first | rfl | cases h

lemma phase_of_item {p : OoPc α} {x : α} (h : p.item = some x) : p.phase.writers = 0 := by
  cases p <;> first | rfl | cases h

lemma readers_le (p : OoPc α) : p.phase.readers ≤ if p.item.isSome then 1 else 0 := by
  cases p <;> simp [phase, item, Lock.Phase.readers]

lemma placed_addFrom (x : α) (pos i : ℕ) : (addFrom x pos i).placed = some x := by
  unfold addFrom
  split_ifs <;> rfl

end OoPc

namespace OoList

variable {m m' : OoList α} {ps : List (OoPc α)} {i : ℕ} {p t : OoPc α}

/-- **A thread leaves a call that has returned, or begins one.** -/
theorem Inv.reenter (h : m.Inv ps) (hi : ps[i]? = some p) (hp : p.phase = .outside)
    (hplaced : p.placed = none) (hp' : t.phase = .outside) (hplaced' : t.placed = none)
    (hnew : ∀ x, t.item = some x → ∀ j q, i ≠ j → ps[j]? = some q → q.item ≠ some x) :
    m.Inv (ps.set i t) := by
  have hzero : p.progress = 0 := OoPc.progress_eq_zero (by simp [hp])
  have hzero' : t.progress = 0 := OoPc.progress_eq_zero (by simp [hp'])
  have hw : weight progress (ps.set i t) = weight progress ps := by
    have := weight_set progress hi t
    omega
  have hlock : Lock.Consistent m.words ((ps.set i t).map phase) := by
    rw [map_set, hp']
    exact h.lock.move (by simp [hi, hp]) (.stay _ _)
  refine ⟨hlock, nodup_filterMap_set h.nodup hnew, ?_, h.positions_le, h.replays_le, h.replayed_eq,
    h.count, by rw [hw]; exact h.current,
    forall_mem_set h.calls (callOk_of_phase (by simp [hp']) (by simp [hp'])),
    by rw [hw]; exact h.slot_some, ?_, h.elements_pos⟩
  · rw [filterMap_set_of_eq hi (hplaced'.trans hplaced.symm)]
    exact h.placed
  · rw [hw]
    intro k x hk hx hle
    refine exists_mem_set hi (h.slot_none k x hk hx hle) fun he => ?_
    have := phase_of_inserting he
    simp [hp] at this

lemma inv_idle (n : ℕ) : ({} : OoList α).Inv (replicate n .idle) := by
  induction n with
  | zero => exact inv_empty
  | succ n ih =>
    rw [replicate_succ']
    exact ih.spawn rfl rfl fun _ _ _ => nofun

lemma step_kind (hst : m.step p = some (m', t)) : t.item = p.item ∧ t.isFire = p.isFire := by
  cases p with
  | idle | added | fired | resetDone => cases hst
  | addInsert x pos | fireSwap pos j =>
    simp only [step] at hst
    split at hst <;> cases hst
    exact ⟨rfl, rfl⟩
  | addPosition x | addAlloc x pos k =>
    cases hst
    exact ⟨item_addFrom .., isFire_addFrom ..⟩
  | addWalk x pos k =>
    simp only [step] at hst
    split_ifs at hst <;> obtain ⟨rfl, rfl⟩ := Prod.mk.inj (some.inj hst)
    · exact ⟨item_addFrom .., isFire_addFrom ..⟩
    · exact ⟨rfl, rfl⟩
  | fireTry n =>
    simp only [step] at hst
    split_ifs at hst <;> obtain ⟨rfl, rfl⟩ := Prod.mk.inj (some.inj hst)
    · exact ⟨rfl, rfl⟩
    · exact ⟨item_of_isFire (isFire_retry n), isFire_retry n⟩
  | fireWithdraw n =>
    cases hst
    exact ⟨item_of_isFire (isFire_retry n), isFire_retry n⟩
  | fireCount | fireCall pos j x =>
    cases hst
    exact ⟨item_of_isFire (isFire_fireFrom ..), isFire_fireFrom ..⟩
  | addSpin x | fireNext pos j | resetTry | addEnter x | addRecheck x | addFired x | fireReaders n
  | resetReaders =>
    simp only [step] at hst
    split_ifs at hst <;> cases hst <;> exact ⟨rfl, rfl⟩
  | _ =>
    cases hst
    exact ⟨rfl, rfl⟩

/-- **What the step of an add can do.** -/
structure Adds (m : OoList α) (p : OoPc α) (m' : OoList α) (t : OoPc α) : Prop where
  writerLock : m'.writerLock = m.writerLock
  isFired : m'.isFired = m.isFired
  fires : m'.fires = m.fires
  replays : m'.replays = m.replays
  positions : (m'.positions = m.positions ∧ t.placed = p.placed) ∨
    ∃ x, m'.positions = m.positions ++ [(m.fires, x)] ∧ p.item = some x ∧ p.placed = none ∧
      t.placed = some x

lemma step_adds {x : α} (hp : p.item = some x) (hst : m.step p = some (m', t)) :
    Adds m p m' t := by
  cases p with
  | added => cases hst
  | addPosition y =>
    cases hst
    exact ⟨rfl, rfl, rfl, rfl, .inr ⟨y, rfl, rfl, rfl, placed_addFrom ..⟩⟩
  | addAlloc y pos k =>
    cases hst
    exact ⟨rfl, rfl, rfl, rfl, .inl ⟨rfl, placed_addFrom ..⟩⟩
  | addWalk y pos k =>
    simp only [step] at hst
    split_ifs at hst <;> obtain ⟨rfl, rfl⟩ := Prod.mk.inj (some.inj hst)
    · exact ⟨rfl, rfl, rfl, rfl, .inl ⟨rfl, placed_addFrom ..⟩⟩
    · exact ⟨rfl, rfl, rfl, rfl, .inl ⟨rfl, rfl⟩⟩
  | addInsert y pos =>
    simp only [step] at hst
    split at hst <;> cases hst
    exact ⟨rfl, rfl, rfl, rfl, .inl ⟨rfl, rfl⟩⟩
  | addSpin y | addEnter y | addRecheck y | addFired y =>
    simp only [step] at hst
    split_ifs at hst <;> cases hst <;> exact ⟨rfl, rfl, rfl, rfl, .inl ⟨rfl, rfl⟩⟩
  | addCount y | addUncount y | addRefuse y | addUnlock y =>
    cases hst
    exact ⟨rfl, rfl, rfl, rfl, .inl ⟨rfl, rfl⟩⟩
  | _ => cases hp

lemma fireFrom_ne_fireCall (pos j pos' j' : ℕ) (x : α) :
    (fireFrom pos j : OoPc α) ≠ .fireCall pos' j' x := by
  unfold fireFrom
  split_ifs <;> nofun

lemma retry_ne_fireCall (n pos j : ℕ) (x : α) : (retry n : OoPc α) ≠ .fireCall pos j x := by
  unfold retry
  split_ifs <;> nofun

/-- **What the step of a fire can do.** -/
theorem step_replays (hp : p.isFire) (hst : m.step p = some (m', t)) :
    m'.positions = m.positions ∧ (m.writerLock ≠ .reset → m'.writerLock ≠ .reset) ∧
    ((∃ pos j x, t = .fireCall pos j x ∧ m'.replays = m.replays ++ [(m.fires, x)]) ∨
      ((∀ pos j x, t ≠ .fireCall pos j x) ∧ m'.replays = m.replays)) := by
  cases p with
  | fired => cases hst
  | fireSwap pos j =>
    simp only [step] at hst
    split at hst
    · cases hst
      exact ⟨rfl, id, .inl ⟨pos, j, _, rfl, rfl⟩⟩
    · cases hst
  | fireTry n =>
    simp only [step] at hst
    split_ifs at hst <;> obtain ⟨rfl, rfl⟩ := Prod.mk.inj (some.inj hst)
    · exact ⟨rfl, by simp, .inr ⟨by simp, rfl⟩⟩
    · exact ⟨rfl, id, .inr ⟨retry_ne_fireCall n, rfl⟩⟩
  | fireReaders n | fireNext pos j =>
    simp only [step] at hst
    split_ifs at hst <;> cases hst <;> exact ⟨rfl, id, .inr ⟨by simp, rfl⟩⟩
  | fireWithdraw n =>
    cases hst
    exact ⟨rfl, by simp, .inr ⟨retry_ne_fireCall n, rfl⟩⟩
  | fireCount | fireCall pos j x =>
    cases hst
    exact ⟨rfl, id, .inr ⟨fireFrom_ne_fireCall _ _, rfl⟩⟩
  | fireMark | fireClear pos | fireDetach =>
    cases hst
    exact ⟨rfl, id, .inr ⟨by simp, rfl⟩⟩
  | fireUnlock =>
    cases hst
    exact ⟨rfl, by simp, .inr ⟨by simp, rfl⟩⟩
  | _ => cases hp

lemma weight_readers_le (ps : List (OoPc α)) :
    weight Lock.Phase.readers (ps.map phase) ≤ (ps.filterMap item).length := by
  induction ps with
  | nil => exact Nat.le_refl _
  | cons p ps ih =>
    have hle := p.readers_le
    rw [map_cons, weight_cons]
    cases hp : p.item with
    | none =>
      rw [hp] at hle
      rw [filterMap_cons_none hp]
      simp at hle
      omega
    | some x =>
      rw [hp] at hle
      rw [filterMap_cons_some hp, length_cons]
      simp at hle
      omega

lemma length_items {x : α} (hi : ps[i]? = some p) (hx : p.item = some x) :
    ((ps.set i .idle).filterMap item).length + 1 = (ps.filterMap item).length := by
  obtain ⟨hlt, rfl⟩ := List.getElem?_eq_some_iff.1 hi
  have hidle : (ps.set i .idle)[i]? = some (.idle : OoPc α) := getElem?_set_self hlt
  have hperm := filterMap_set_perm hidle rfl hx
  rw [set_set, set_getElem_self] at hperm
  rw [hperm.length_eq, length_cons]

lemma Inv.noWrap (h : m.Inv ps) (hi : ps[i]? = some p)
    (hn : (ps.filterMap item).length < 2 ^ 32) : m.NoWrap p := by
  cases p with
  | addCount x =>
    have hph : (ps.map phase)[i]? = some .outside := by simp [hi, phase]
    have hw := weight_set Lock.Phase.readers hph .outside
    have hle := weight_readers_le (ps.set i .idle)
    have hlen := length_items hi rfl
    have hr := h.lock.reader
    rw [map_set] at hle
    simp only [phase, words] at hw hle hr
    show m.readerLock.toNat + 1 < 2 ^ 32
    omega
  | addPosition x =>
    have hle := (filterMap_placed_sublist (ps.set i .idle)).length_le
    have hset : (ps.set i .idle).filterMap OoPc.placed = ps.filterMap OoPc.placed :=
      filterMap_set_of_eq hi rfl
    rw [hset] at hle
    have hlen := length_items hi rfl
    have hpos := h.placed.length_eq
    have hb : (m.batch m.fires).length ≤ (m.positions.map Prod.snd).length := by
      rw [batch, length_map, length_map]
      exact length_filter_le _ _
    have hcount := h.count
    show m.count.toNat + 1 < 2 ^ 32
    omega
  | _ => trivial

end OoList

end Arts
