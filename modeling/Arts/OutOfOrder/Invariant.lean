import Arts.OutOfOrder.Basic

/-!
# The invariant of the out-of-order list

The batch are the items with a position since the last fire; each is in its slot, or its add on the
way to it, or replayed. `progress` is how many a fire has replayed.
-/

namespace Arts

open List OoPc

variable {α : Type*}

namespace OoPc

/-- Where the call is in the protocol of the lock. -/
def phase : OoPc α → Lock.Phase
  | .addRecheck _ | .addUncount _ => .counted
  | .addFired _ | .addRefuse _ | .addPosition _ | .addWalk _ _ _ | .addAlloc _ _ _
  | .addInsert _ _ | .addUnlock _ => .reading
  | .fireReaders _ | .fireWithdraw _ | .resetReaders | .resetWithdraw => .draining
  | .fireMark | .fireCount | .fireNext _ _ | .fireSwap _ _ | .fireCall _ _ _ | .fireClear _
  | .fireDetach | .fireUnlock | .resetMark | .resetUnlock => .writing
  | _ => .outside

def placed : OoPc α → Option α
  | .addWalk x _ _ | .addAlloc x _ _ | .addInsert x _ | .addUnlock x | .added x true => some x
  | _ => none

/-- The position and the item of an add that has not inserted it yet. -/
def inserting : OoPc α → Option (ℕ × α)
  | .addWalk x pos _ | .addAlloc x pos _ | .addInsert x pos => some (pos, x)
  | _ => none

def progress : OoPc α → ℕ
  | .fireNext _ j | .fireSwap _ j => j
  | .fireCall _ j _ => j + 1
  | .fireClear pos => pos
  | _ => 0

lemma item_of_placed {p : OoPc α} {x : α} (h : p.placed = some x) : p.item = some x := by
  cases p with
  | added y res => cases res <;> simp_all [placed, item]
  | _ => simp_all [placed, item]

lemma placed_of_inserting {p : OoPc α} {e : ℕ × α} (h : p.inserting = some e) :
    p.placed = some e.2 := by
  cases p <;> simp_all [placed, inserting] <;> simp [← h]

lemma phase_of_inserting {p : OoPc α} {e : ℕ × α} (h : p.inserting = some e) :
    p.phase = .reading := by
  cases p <;> simp_all [phase, inserting]

lemma progress_eq_zero {p : OoPc α} (h : p.phase ≠ .writing) : p.progress = 0 := by
  cases p <;> simp_all [phase, progress]

end OoPc

namespace OoList

def words (m : OoList α) : Lock.Words := ⟨m.readerLock.toNat, m.writerLock ≠ .free⟩

def CallOk (m : OoList α) : OoPc α → Prop
  | .addPosition _ => m.isFired = false
  | .addWalk x pos i => (m.batch m.fires)[pos]? = some x ∧ m.slot pos = none ∧
    i < pos / perElement ∧ i < m.elements
  | .addAlloc x pos i => (m.batch m.fires)[pos]? = some x ∧ m.slot pos = none ∧
    pos = perElement * (i + 1) ∧ m.elements = i + 1
  | .addInsert x pos => (m.batch m.fires)[pos]? = some x ∧ m.slot pos = none ∧
    pos / perElement < m.elements
  | .fireNext pos j | .fireSwap pos j | .fireCall pos j _ =>
    pos = (m.batch m.fires).length ∧ j < pos
  | .fireClear pos => pos = (m.batch m.fires).length
  | .fireDetach | .fireUnlock => m.batch m.fires = []
  | _ => True

/-- **The invariant** of a list and the calls `ps` on it. -/
structure Inv (m : OoList α) (ps : List (OoPc α)) : Prop where
  lock : Lock.Consistent m.words (ps.map phase)
  nodup : (ps.filterMap item).Nodup
  placed : (ps.filterMap placed).Perm (m.positions.map Prod.snd)
  positions_le : ∀ e ∈ m.positions, e.1 ≤ m.fires
  replays_le : ∀ e ∈ m.replays, e.1 ≤ m.fires
  replayed_eq : ∀ g < m.fires, m.replayed g = m.batch g
  count : m.count.toNat = (m.batch m.fires).length
  current : m.replayed m.fires = (m.batch m.fires).take (weight progress ps)
  calls : ∀ p ∈ ps, m.CallOk p
  slot_some : ∀ k x, m.slot k = some x → (m.batch m.fires)[k]? = some x ∧
    weight progress ps ≤ k ∧ k / perElement < m.elements
  slot_none : ∀ k x, m.slot k = none → (m.batch m.fires)[k]? = some x →
    weight progress ps ≤ k → ∃ q ∈ ps, q.inserting = some (k, x)
  elements_pos : 0 < m.elements

section Calls

variable {m : OoList α} {ps : List (OoPc α)} {i j : ℕ} {p q : OoPc α}

lemma callOk_of_phase (hr : p.phase ≠ .reading) (hw : p.phase ≠ .writing) : m.CallOk p := by
  cases p <;> simp_all [phase, CallOk]

lemma CallOk.inserting {e : ℕ × α} (h : m.CallOk p) (he : p.inserting = some e) :
    (m.batch m.fires)[e.1]? = some e.2 ∧ m.slot e.1 = none := by
  cases p <;> simp only [inserting, reduceCtorEq, Option.some.injEq] at he <;> subst he
  all_goals exact ⟨h.1, h.2.1⟩

lemma Inv.phase_of_writing (h : m.Inv ps) (hi : ps[i]? = some p) (hp : p.phase = .writing)
    (hj : ps[j]? = some q) (hne : i ≠ j) : q.phase ≠ .reading ∧ q.phase ≠ .writing := by
  have hpi : (ps.map phase)[i]? = some .writing := by simp [hi, hp]
  have hqj : (ps.map phase)[j]? = some q.phase := by simp [hj]
  refine ⟨fun hr => ?_, fun hw => ?_⟩
  · exact h.lock.excl (mem_of_getElem? hpi) (hr ▸ mem_of_getElem? hqj)
  · have := h.lock.writers_eq_zero hpi rfl hne hqj
    simp [hw, Lock.Phase.writers] at this

lemma Inv.not_writing (h : m.Inv ps) (hp : p ∈ ps) (hr : p.phase = .reading) (hq : q ∈ ps) :
    q.phase ≠ .writing := by
  intro hw
  exact h.lock.excl (hw ▸ mem_map_of_mem hq) (hr ▸ mem_map_of_mem hp)

lemma Inv.progress_eq_zero (h : m.Inv ps) (hp : p ∈ ps) (hr : p.phase = .reading) :
    weight progress ps = 0 :=
  weight_eq_zero.2 fun _ hq => OoPc.progress_eq_zero (h.not_writing hp hr hq)

lemma Inv.progress_eq (h : m.Inv ps) (hi : ps[i]? = some p) (hp : p.phase = .writing) :
    weight progress ps = p.progress := by
  have hset : _ + p.progress = _ + 0 := weight_set progress hi .idle
  have hzero : weight progress (ps.set i .idle) = 0 := by
    refine weight_eq_zero.2 fun q hq => ?_
    obtain ⟨j, hj⟩ := mem_iff_getElem?.1 hq
    rcases getElem?_set_cases hj with ⟨-, rfl⟩ | ⟨hne, hj⟩
    · rfl
    · exact OoPc.progress_eq_zero (h.phase_of_writing hi hp hj hne).2
  omega

lemma Inv.inserting_ne (h : m.Inv ps) (hi : ps[i]? = some p) (hj : ps[j]? = some q)
    (hne : i ≠ j) {e f : ℕ × α} (he : p.inserting = some e) (hf : q.inserting = some f) :
    e.1 ≠ f.1 := by
  intro heq
  have hb := ((h.calls p (mem_of_getElem? hi)).inserting he).1
  rw [heq, ((h.calls q (mem_of_getElem? hj)).inserting hf).1] at hb
  have hx := Option.some.inj hb
  exact hne (index_eq_of_filterMap_nodup h.nodup hi hj
    (item_of_placed (placed_of_inserting he))
    (hx ▸ item_of_placed (placed_of_inserting hf)))

end Calls

end OoList

end Arts
