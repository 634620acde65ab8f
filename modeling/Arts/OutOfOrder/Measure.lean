import Arts.OutOfOrder.Embedding

/-!
# How far a call of the out-of-order list is from its return

Each step brings a fire nearer to its return (`step_fireLeft`), and an add too while it does not
change whether a fire has the lock (`step_addLeft`).
-/

namespace Arts

open OoPc

variable {α : Type*}

namespace OoPc

@[grind =] def fireLeft : OoPc α → ℕ
  | .fireUnlock => 1
  | .fireDetach => 2
  | .fireClear _ => 3
  | .fireCall pos j _ => 3 + 3 * (pos - j) + 1
  | .fireSwap pos j => 3 + 3 * (pos - j) + 2
  | .fireNext pos j => 3 + 3 * (pos - j) + 3
  | .fireCount => 3 * 2 ^ 32 + 7
  | .fireMark => 3 * 2 ^ 32 + 8
  | .fireWithdraw n => 3 * 2 ^ 32 + 9 + 3 * (maxRetries - n)
  | .fireReaders n => 3 * 2 ^ 32 + 10 + 3 * (maxRetries - n)
  | .fireTry n => 3 * 2 ^ 32 + 11 + 3 * (maxRetries - n)
  | _ => 0

/-- What is left of an add if `held` says whether a fire has the lock and `r` is what a refused item has
to do. -/
@[grind =] def addLeft (held : Bool) (r : ℕ) : OoPc α → ℕ
  | .addUnlock _ => 1
  | .addInsert _ _ => 2
  | .addAlloc _ pos i => 1 + 2 * (pos / perElement - i)
  | .addWalk _ pos i => 2 + 2 * (pos / perElement - i)
  | .addPosition _ => 2 ^ 32
  | .addFired _ => 2 ^ 32 + 1
  | .addRecheck _ => 2 ^ 32 + 2
  | .addCount _ => 2 ^ 32 + 3
  | .addSpin _ => 2 ^ 32 + 4
  | .addEnter _ => if held then r + 2 else 2 ^ 32 + 5
  | .addUncount _ => if held then r + 3 else 2 ^ 32 + 6
  | .addRefuse _ => r + 1
  | .added _ false => r
  | _ => 0

lemma fireLeft_retry (n : ℕ) :
    (retry n : OoPc α).fireLeft < 3 * 2 ^ 32 + 9 + 3 * (maxRetries - n) := by
  unfold retry
  split_ifs with h
  · simp only [fireLeft]
    omega
  · exact Nat.lt_of_lt_of_le (by decide : 0 < 3 * 2 ^ 32 + 9) (Nat.le_add_right _ _)

lemma fireLeft_fireFrom (pos j : ℕ) :
    (fireFrom pos j : OoPc α).fireLeft ≤ 3 + 3 * (pos - j) + 3 := by
  unfold fireFrom
  split_ifs <;> simp only [fireLeft] <;> omega

lemma addLeft_addFrom (held : Bool) (r : ℕ) (x : α) (pos i : ℕ) :
    (addFrom x pos i).addLeft held r = 2 + 2 * (pos / perElement - i) := by
  unfold addFrom
  split_ifs with h
  · rfl
  · simp only [addLeft]
    omega

end OoPc

namespace OoList

variable {m m' : OoList α} {ps : List (OoPc α)} {p t : OoPc α}

/-- **A step of a fire brings it nearer to its return.** -/
theorem step_fireLeft (h : m.CallOk p) (hp : p.isFire) (hst : m.step p = some (m', t)) :
    t.fireLeft < p.fireLeft := by
  cases p with
  | fired => cases hst
  | fireTry n =>
    have hretry := fireLeft_retry (α := α) n
    simp only [step] at hst
    split_ifs at hst <;> obtain ⟨-, rfl⟩ := Prod.mk.inj (Option.some.inj hst)
    · simp only [fireLeft]
      omega
    · show _ < 3 * 2 ^ 32 + 11 + 3 * (maxRetries - n)
      omega
  | fireReaders n =>
    cases hst
    split_ifs <;> simp only [fireLeft] <;> omega
  | fireWithdraw n =>
    cases hst
    exact fireLeft_retry n
  | fireMark | fireClear | fireDetach | fireUnlock =>
    cases hst
    simp only [fireLeft]
    omega
  | fireCount =>
    cases hst
    have := fireLeft_fireFrom (α := α) m.count.toNat 0
    have := m.count.toNat_lt
    show _ < 3 * 2 ^ 32 + 7
    omega
  | fireNext pos j =>
    simp only [step] at hst
    split_ifs at hst
    cases hst
    exact Nat.lt_succ_self _
  | fireSwap pos j =>
    simp only [step] at hst
    split at hst <;> cases hst
    simp only [fireLeft]
    omega
  | fireCall pos j x =>
    cases hst
    obtain ⟨-, hlt⟩ := h
    have := fireLeft_fireFrom (α := α) pos (j + 1)
    show _ < 3 + 3 * (pos - j) + 1
    omega
  | _ => cases hp

/-- **A step of an add brings it nearer to its return**, if a refused item has little to do and the list
is not being reset. -/
theorem step_addLeft {x : α} {r : ℕ} (h : m.CallOk p) (hx : p.item = some x)
    (hreset : m.writerLock ≠ .reset)
    (hr : m.isFired ∨ m.writerLock ≠ .free → r + 4 ≤ 2 ^ 32) (hst : m.step p = some (m', t)) :
    t.addLeft (m.writerLock = .fire) r < p.addLeft (m.writerLock = .fire) r := by
  cases p with
  | added => cases hst
  | addEnter x | addUncount x =>
    cases hst
    by_cases hw : m.writerLock = .fire
    · simp [hw, addLeft]
    · simp [hw, addLeft]
  | addRecheck x =>
    cases hst
    by_cases hw : m.writerLock = .free
    · rw [if_pos hw]
      exact Nat.lt_succ_self _
    · have := hr (.inr hw)
      have hfire : m.writerLock = .fire := by
        cases hl : m.writerLock <;> simp_all
      rw [if_neg hw]
      simp only [hfire, addLeft, decide_true, if_true]
      omega
  | addFired x =>
    cases hst
    by_cases hf : m.isFired
    · have := hr (.inl hf)
      simp only [if_pos hf, addLeft]
      omega
    · rw [if_neg hf]
      exact Nat.lt_succ_self _
  | addSpin x =>
    simp only [step, if_neg hreset] at hst
    cases hst
    exact Nat.lt_succ_self _
  | addCount x | addRefuse x | addUnlock x =>
    cases hst
    exact Nat.lt_succ_self _
  | addPosition x =>
    cases hst
    have := m.count.toNat_lt
    rw [addLeft_addFrom]
    simp only [addLeft, perElement]
    omega
  | addWalk x pos i =>
    obtain ⟨-, -, hlt, -⟩ := h
    simp only [step] at hst
    split_ifs at hst <;> obtain ⟨-, rfl⟩ := Prod.mk.inj (Option.some.inj hst)
    · rw [addLeft_addFrom]
      simp only [addLeft]
      omega
    · simp only [addLeft]
      omega
  | addAlloc x pos i =>
    obtain ⟨-, -, hpos, -⟩ := h
    cases hst
    have hdiv : pos / perElement = i + 1 := by
      rw [hpos, Nat.mul_div_cancel_left _ perElement_pos]
    rw [addLeft_addFrom]
    simp only [addLeft]
    omega
  | addInsert x pos =>
    simp only [step] at hst
    split at hst <;> cases hst
    exact Nat.lt_succ_self _
  | _ => cases hx

lemma addLeft_le {held : Bool} {r : ℕ} (h : m.CallOk p)
    (hb : (m.batch m.fires).length ≤ 2 ^ 32) : p.addLeft held r ≤ r + 2 ^ 32 + 6 := by
  cases p with
  | addWalk x pos i | addAlloc x pos i =>
    obtain ⟨hpos, -⟩ := List.getElem?_eq_some_iff.1 h.1
    simp only [addLeft, perElement]
    omega
  | added x res => cases res <;> simp only [addLeft] <;> omega
  | addEnter x | addUncount x =>
    simp only [addLeft]
    split_ifs <;> omega
  | _ => simp only [addLeft]; omega

end OoList

end Arts
