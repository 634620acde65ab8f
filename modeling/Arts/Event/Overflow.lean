import Arts.Event.Step

/-!
# More dependents than the lists can hold

The lists hold `2 ^ 32 - 4` entries in all; the registration that gets the next position walks for
ever (`Plain.Lost.next`).
-/

namespace Arts

open List

/-- The number of entries that the lists can hold. -/
def dependentCap : ℕ := 2 ^ 32 - 4

namespace Event

/-- The sizes double along the chain of lists. -/
structure Chained (e : Event) : Prop where
  size : ∀ k < e.lists.length, ∃ m, (e.listSize k).toNat = 2 ^ m % 2 ^ 32
  next : ∀ k n, e.listNext k = some n → n < e.lists.length ∧ e.listSize n = e.listSize k * 2

lemma listNext_eq_none {e : Event} {k : ℕ} (h : e.lists.length ≤ k) : e.listNext k = none := by
  simp [listNext, h]

lemma listSize_eq_zero {e : Event} {k : ℕ} (h : e.lists.length ≤ k) : e.listSize k = 0 := by
  simp [listSize, h]

namespace Chained

variable {e : Event}

lemma create (type : EventType) (latchCount : UInt32) : Chained (create type latchCount) where
  size k hk := by
    obtain rfl : k = 0 := by simpa [Event.create] using hk
    exact ⟨2, rfl⟩
  next k n hn := by
    rcases Nat.eq_zero_or_pos k with rfl | hk
    · simp [Event.create, listNext, DependentList.calloc] at hn
    · rw [listNext_eq_none (by simpa [Event.create] using Nat.succ_le_of_lt hk)] at hn
      cases hn

lemma size_le (hc : e.Chained) (k : ℕ) : (e.listSize k).toNat ≤ 2 ^ 31 := by
  rcases Nat.lt_or_ge k e.lists.length with hk | hk
  · obtain ⟨m, hm⟩ := hc.size k hk
    rcases Nat.lt_or_ge m 32 with hlt | hge
    · calc (e.listSize k).toNat ≤ 2 ^ m := hm ▸ Nat.mod_le _ _
        _ ≤ 2 ^ 31 := Nat.pow_le_pow_right (by decide) (by omega)
    · rw [hm, Nat.mod_eq_zero_of_dvd (Nat.pow_dvd_pow 2 hge)]
      exact Nat.zero_le _
  · simp [listSize_eq_zero hk]

lemma modifyEntry (hc : e.Chained) (k j : ℕ) (f : Entry → Entry) :
    Chained (e.modifyEntry k j f) where
  size m hm := by simpa using hc.size m (by simpa using hm)
  next m n hn := by simpa using hc.next m n (by simpa using hn)

lemma growList (hc : e.Chained) (k : ℕ) : Chained (e.growList k) where
  size m hm := by
    rcases Nat.lt_succ_iff_lt_or_eq.1 (by simpa using hm) with hlt | rfl
    · rw [listSize_growList_of_lt e k hlt]
      exact hc.size m hlt
    · rw [listSize_growList_length]
      rcases Nat.lt_or_ge k e.lists.length with hk | hk
      · obtain ⟨i, hi⟩ := hc.size k hk
        refine ⟨i + 1, ?_⟩
        rw [UInt32.toNat_mul, hi, Nat.pow_succ, Nat.mod_mul_mod]
        rfl
      · exact ⟨32, by simp [listSize_eq_zero hk]⟩
  next m n hn := by
    rw [length_growList]
    by_cases hmk : m = k
    · subst hmk
      rcases Nat.lt_or_ge m e.lists.length with hm | hm
      · rw [listNext_growList_self e m hm] at hn
        cases hn
        refine ⟨Nat.lt_succ_self _, ?_⟩
        rw [listSize_growList_length, listSize_growList_of_lt e m hm]
      · rw [listNext_growList_of_le e m hm] at hn
        cases hn
    · rw [listNext_growList_of_ne e k hmk] at hn
      have hm : m < e.lists.length := by
        by_contra hge
        rw [listNext_eq_none (Nat.le_of_not_lt hge)] at hn
        cases hn
      obtain ⟨hlt, hsize⟩ := hc.next m n hn
      refine ⟨Nat.lt_succ_of_lt hlt, ?_⟩
      rw [listSize_growList_of_lt e k hlt, listSize_growList_of_lt e k hm, hsize]

end Chained

end Event

lemma EventCall.lists_step {e e' : Event} {c c' : EventCall} {eff : Option Effect}
    (h : c.step e = some (e', c', eff)) :
    e'.lists = e.lists ∨ (∃ k j f, e' = e.modifyEntry k j f) ∨ ∃ k, e' = e.growList k := by
  cases c with
  | register d pc =>
    obtain ⟨pc', dl, hst, -, -⟩ := step_register h
    cases hst with
    | alloc => exact .inr (.inr ⟨_, rfl⟩)
    | write | publish => exact .inr (.inl ⟨_, _, _, rfl⟩)
    | _ => exact .inl rfl
  | satisfy slot data pc =>
    obtain ⟨pc', hst, -⟩ := step_satisfy h
    cases hst <;> exact .inl rfl

namespace EventCall

variable {e e' : Event} {c c' : EventCall} {eff : Option Effect}

lemma chained_step (hc : e.Chained) (h : c.step e = some (e', c', eff)) : e'.Chained := by
  rcases lists_step h with hl | ⟨k, j, f, rfl⟩ | ⟨k, rfl⟩
  · obtain ⟨hsize, hnext⟩ := hc
    constructor <;> simpa only [Event.listSize, Event.listNext, hl]
  · exact hc.modifyEntry k j f
  · exact hc.growList k

lemma listSize_step (h : c.step e = some (e', c', eff)) {k : ℕ} (hk : k < e.lists.length) :
    k < e'.lists.length ∧ e'.listSize k = e.listSize k := by
  rcases lists_step h with hl | ⟨m, j, f, rfl⟩ | ⟨m, rfl⟩
  · simp [Event.listSize, hl, hk]
  · simpa using hk
  · rw [Event.listSize_growList_of_lt e m hk, Event.length_growList]
    exact ⟨Nat.lt_succ_of_lt hk, rfl⟩

/-- A registration on its way through the lists that will never find its place. -/
def Lost (e : Event) : EventCall → Prop
  | .register _ (.walk _ k r) | .register _ (.alloc _ k r) | .register _ (.awaitNext _ k r) =>
    k < e.lists.length ∧ r + e.listSize k = 0
  | _ => False

lemma Lost.not_done (h : c.Lost e) : c.isDone = false := by
  unfold Lost at h
  split at h
  · rfl
  · rfl
  · rfl
  · exact h.elim

lemma Lost.other {d : EventCall} (hd : d.Lost e) (h : c.step e = some (e', c', eff)) :
    d.Lost e' := by
  unfold Lost at hd ⊢
  split at hd
  all_goals first
    | exact hd.elim
    | exact ⟨(listSize_step h hd.1).1, (listSize_step h hd.1).2 ▸ hd.2⟩

lemma size_le_of_add_eq_zero (hc : e.Chained) {k : ℕ} {r : UInt32}
    (h : r + e.listSize k = 0) : e.listSize k ≤ r := by
  have hadd := congrArg UInt32.toNat h
  have hle := hc.size_le k
  rw [UInt32.le_iff_toNat_le]
  simp at hadd
  omega

lemma Lost.self (hc : e.Chained) (hl : c.Lost e) (h : c.step e = some (e', c', eff)) :
    c'.Lost e' := by
  cases c with
  | satisfy slot data pc => exact hl.elim
  | register d pc =>
    obtain ⟨pc', dl, hst, rfl, -⟩ := step_register h
    cases hst with
    | missing => exact hl
    | onward => exact hl
    | found hlt => exact absurd (size_le_of_add_eq_zero hc hl.2) hlt
    | alloc => exact ⟨(listSize_step h hl.1).1, (listSize_step h hl.1).2 ▸ hl.2⟩
    | @follow p k r n hn =>
      obtain ⟨hlt, hsize⟩ := hc.next k n hn
      refine ⟨hlt, ?_⟩
      have h0 : r + e.listSize k = 0 := hl.2
      rw [hsize]
      calc r - e.listSize k + e.listSize k * 2 = r + e.listSize k := by grind
        _ = 0 := h0
    | _ => exact hl.elim

end EventCall

def Plain.Lost (s : Plain) : Prop := ∃ c ∈ s.calls, c.Lost s.event

lemma Plain.Lost.next {s s' : Plain} {a : EventAct} (hc : s.event.Chained) (hl : s.Lost)
    (h : s.next a = some s') : s'.Lost := by
  obtain ⟨d, hd, hlost⟩ := hl
  rcases next_cases h with ⟨c, -, rfl⟩ | ⟨i, c, e', c', eff, hi, hst, rfl⟩
  · refine ⟨d, ?_, hlost⟩
    unfold start
    split_ifs
    · exact mem_append_left _ hd
    · exact hd
  · obtain ⟨j, hj⟩ := mem_iff_getElem?.1 hd
    by_cases hij : i = j
    · subst hij
      obtain rfl : c = d := Option.some.inj (hi.symm.trans hj)
      refine ⟨c', ?_, ?_⟩
      · simpa using List.mem_set (List.getElem?_eq_some_iff.1 hi).1 c'
      · simpa using hlost.self hc hst
    · refine ⟨d, ?_, by simpa using hlost.other hst⟩
      rw [record_calls]
      exact mem_of_getElem? (by rw [getElem?_set_ne hij, hj])

lemma Plain.chained_next {s s' : Plain} {a : EventAct} (hc : s.event.Chained)
    (h : s.next a = some s') : s'.event.Chained := by
  rcases next_cases h with ⟨c, -, rfl⟩ | ⟨i, c, e', c', eff, hi, hst, rfl⟩
  · exact hc
  · rw [record_event]
    exact EventCall.chained_step hc hst

lemma Plain.chained_of_reachable {type : EventType} {s : Plain}
    (hr : (machine type).Reachable s) : s.event.Chained :=
  hr.invariant
    (by rintro _ ⟨latchCount, rfl⟩; exact .create type latchCount)
    fun _ _ _ _ hc hn => chained_next hc hn

end Arts
