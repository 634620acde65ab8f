import Arts.Deque.Stealing

/-!
# A doubled array size that does not fit

A full array of 2^31 + 1 slots is replaced by one of 2 slots (`Deque.wrapped_size_loses_items`).
-/

namespace Arts.Deque

open List

/-- The owner and thieves that take one item at a time, with an initial size of 2^31 + 1. -/
def large : Machine (Deque ℕ) (Act ℕ) := (machine 2147483649).restrict fun _ l => l.isSingle

/-- `n` items have been pushed and no call is in progress. -/
structure Filled (n : ℕ) (s : Deque ℕ) : Prop where
  top : s.top = 1
  bottom : s.bottom = n + 1
  owner : s.owner = .idle
  thieves : s.thieves = []
  active : s.activeArray = 0
  size : (s.arrays 0).size = 2147483649
  pushed : s.pushed = range n
  returned : s.returned = []

variable {s s' : Deque ℕ} {n : ℕ}

lemma leads_owner (h : s.ownerStep = some s') : large.Leads s s' :=
  .of_next (l := .owner) (Machine.restrict_next.2 ⟨rfl, h⟩)

lemma leads_push (h : s.owner = .idle) (x : ℕ) :
    large.Leads s { s with owner := .pushArray x } :=
  .of_next (l := .push x) (Machine.restrict_next.2 ⟨rfl, by simp [machine, next, h]⟩)

lemma Filled.leads_pushTop (h : s.Filled n) :
    large.Leads s { s with owner := .pushTop n 0 (n + 1) } := by
  refine (leads_push h.owner n).trans ((leads_owner rfl).trans (leads_owner ?_))
  simp [ownerStep, h.active, h.bottom]

lemma Filled.push (h : s.Filled n) (hn : n < 2 ^ 31) :
    ∃ s', large.Leads s s' ∧ s'.Filled (n + 1) := by
  have hfull : ¬ s.Full 0 (n + 1) := by
    have hsub : ((2147483649 : UInt32) - 1).toNat = 2 ^ 31 := rfl
    rw [Full, h.size, h.top, hsub]
    omega
  have hput : ownerStep { s with owner := .pushTop n 0 (n + 1) } =
      some { s with owner := .put n 0 (n + 1) } := if_neg hfull
  refine ⟨_, h.leads_pushTop.trans ((leads_owner hput).trans
    ((leads_owner rfl).trans (leads_owner rfl))), ?_⟩
  refine ⟨h.top, rfl, rfl, h.thieves, h.active, ?_, ?_, h.returned⟩
  · rw [size_store, h.size]
  · rw [h.pushed, range_succ]

lemma exists_filled (hn : n ≤ 2 ^ 31) : ∃ s, large.Reachable s ∧ s.Filled n := by
  induction n with
  | zero => exact ⟨new 2147483649, .of_init rfl, rfl, rfl, rfl, rfl, rfl, rfl, rfl, rfl⟩
  | succ n ih =>
    obtain ⟨s, hr, hs⟩ := ih (by omega)
    obtain ⟨s', hl, hs'⟩ := hs.push (by omega)
    exact ⟨s', hr.leads hl, hs'⟩

/-- What the copying of the entries leaves alone. -/
structure Copying (x a b i : ℕ) (s s' : Deque ℕ) : Prop where
  top : s'.top = s.top
  bottom : s'.bottom = s.bottom
  owner : s'.owner = .growLoad x a b i
  thieves : s'.thieves = s.thieves
  size : (s'.arrays (a + 1)).size = (s.arrays (a + 1)).size
  pushed : s'.pushed = s.pushed
  returned : s'.returned = s.returned

lemma exists_copying {x a b i : ℕ} (h : s.owner = .growLoad x a b i) (hi : i ≤ b) :
    ∃ s', large.Leads s s' ∧ Copying x a b b s s' := by
  induction hk : b - i generalizing s i with
  | zero =>
    obtain rfl : i = b := by omega
    exact ⟨s, .refl s, rfl, rfl, h, rfl, rfl, rfl, rfl⟩
  | succ k ih =>
    have hload : s.ownerStep =
        some { s with owner := .growStore x a b i (getCircularArray (s.arrays a) i) } := by
      simp only [ownerStep, h]
      exact if_pos (by omega)
    obtain ⟨s', hl, hc⟩ := ih (s := { s with
      arrays := s.store (a + 1) i (getCircularArray (s.arrays a) i),
      owner := .growLoad x a b (i + 1) }) rfl (by omega) (by omega)
    exact ⟨s', (leads_owner hload).trans ((leads_owner rfl).trans hl), hc.top, hc.bottom, hc.owner,
      hc.thieves, hc.size.trans size_store, hc.pushed, hc.returned⟩

lemma not_nodup_between (hsize : (s.arrays s.activeArray).size = 2) (htop : s.top = 1)
    (hb : 4 ≤ s.bottom) : ¬ s.between.Nodup := by
  have hget : s.get 1 = s.get 3 := by simp [get, getCircularArray, hsize]
  rw [between, htop, Queue.window_succ_left (by omega), Queue.window_succ_left (by omega),
    Queue.window_succ_left (by omega), nodup_cons]
  rintro ⟨hnot, -⟩
  exact hnot (by simp [hget])

lemma ownerStep_full {x a b : ℕ} (h : s.owner = .pushTop x a b) (hfull : s.Full a b)
    (hsize : (s.arrays a).size * 2 ≠ 0) :
    s.ownerStep = some { s with
      arrays := Function.update s.arrays (a + 1) (newCircularArray ((s.arrays a).size * 2)),
      owner := .growLoad x a b s.top } := by
  simp only [ownerStep, h]
  rw [if_pos hfull, if_neg hsize]

lemma Filled.push_full (h : s.Filled (2 ^ 31)) :
    ∃ s', large.Leads s s' ∧ s'.Quiet ∧ s'.top = 1 ∧ s'.bottom = 2 ^ 31 + 2 ∧
      (s'.arrays s'.activeArray).size = 2 ∧ s'.pushed = range (2 ^ 31 + 1) ∧
      s'.returned = [] := by
  have hfull : Full { s with owner := .pushTop (2 ^ 31) 0 (2 ^ 31 + 1) } 0 (2 ^ 31 + 1) := by
    have hsub : ((2147483649 : UInt32) - 1).toNat = 2 ^ 31 := rfl
    simp only [Full]
    rw [h.size, h.top, hsub]
  have hmul : (s.arrays 0).size * 2 = 2 := by rw [h.size]; rfl
  have hgrow := leads_owner (ownerStep_full rfl hfull (by simp [hmul]))
  obtain ⟨s₁, hl, hc⟩ := exists_copying (s := { s with
    arrays := Function.update s.arrays 1 (newCircularArray ((s.arrays 0).size * 2)),
    owner := .growLoad (2 ^ 31) 0 (2 ^ 31 + 1) s.top }) rfl (by rw [h.top]; omega)
  have hend : s₁.ownerStep = some { s₁ with owner := .publish (2 ^ 31) 1 (2 ^ 31 + 1) } := by
    simp only [ownerStep, hc.owner]
    exact if_neg (lt_irrefl _)
  have hlast := (leads_owner hend).trans
    ((leads_owner rfl).trans ((leads_owner rfl).trans (leads_owner rfl)))
  refine ⟨_, h.leads_pushTop.trans (hgrow.trans (hl.trans hlast)), ⟨rfl, ?_⟩,
    hc.top.trans h.top, rfl, ?_, ?_, hc.returned.trans h.returned⟩
  · rw [hc.thieves, h.thieves]
    simp
  · rw [size_store, hc.size]
    exact hmul
  · rw [hc.pushed, h.pushed, ← range_succ]

/-- **Items are lost when the doubled size wraps**: the initial size is 2^31 + 1, with as many
pushes. -/
theorem wrapped_size_loses_items :
    ∃ s : Deque ℕ, ((machine 2147483649).restrict fun _ l => l.isSingle).Reachable s ∧ s.Quiet ∧
      s.returned = [] ∧ s.pushed = range (2 ^ 31 + 1) ∧
      ¬ (s.returned.map some ++ s.between).Perm (s.pushed.map some) := by
  obtain ⟨s, hr, hs⟩ := exists_filled le_rfl
  obtain ⟨s', hl, hq, htop, hb, hsize, hp, hret⟩ := hs.push_full
  refine ⟨s', hr.leads hl, hq, hret, hp, fun hperm => ?_⟩
  have hnodup : (s'.pushed.map some).Nodup := by
    rw [hp]
    exact nodup_range.map fun _ _ => Option.some.inj
  have hbetween := (hperm.nodup_iff).2 hnodup
  rw [hret, map_nil, nil_append] at hbetween
  exact not_nodup_between hsize htop (by omega) hbetween

end Arts.Deque
