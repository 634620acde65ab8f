import Arts.Deque.Steps

/-!
# No item is lost and none is returned twice

`Deque.chaseLev`: so it is with thieves that take one item, as long as the array size fits into 32
bits. `Deque.half_steal_safe`: thieves that take half need the owner to keep out of their blocks
(`Guarded`).
-/

namespace Arts

open List Option

variable {α : Type*}

/-- The call is not `arts_deque_simple_pop_back_half`. -/
def Deque.Act.isSingle : Deque.Act α → Bool
  | .popBackHalf _ => false
  | _ => true

def ThiefPc.isSingle : ThiefPc α → Bool
  | .fastTop | .fastBottom _ | .top | .bottom _ | .array _ | .slot _ _ | .cas _ _ | .done => true
  | _ => false

namespace Deque

section Invariant

variable [DecidableEq α] {s s' : Deque α} {l : Act α}

lemma inv_new {size : UInt32} (h : 0 < size) : (new size : Deque α).Inv where
  pos := Nat.one_pos
  top_le := le_rfl
  room := by
    have hpos : 0 < size.toNat := UInt32.lt_iff_toNat_lt.1 h
    show 1 + 1 ≤ 1 + size.toNat
    omega
  owner := trivial
  thieves := by simp [new]
  account := by
    intro o
    simp [Deque.account, new, limit, OwnerPc.held, Queue.window_of_le]

lemma Inv.begin (h : s.Inv) (hpc : s.owner = .idle) {p : OwnerPc α}
    (hp : p = .fastTop ∨ ∃ x, p = .pushArray x) : { s with owner := p }.Inv := by
  rcases hp with rfl | ⟨x, rfl⟩
  · exact h.goto _ (by simp [limit, hpc]) trivial (by simp [hpc, OwnerPc.held])
      (by simp [single, hpc])
  · exact h.goto _ (by simp [limit, hpc]) trivial (by simp [hpc, OwnerPc.held])
      (by simp [single, hpc])

lemma Inv.spawn (h : s.Inv) {p : ThiefPc α} (hp : s.ThiefOk p) (hheld : p.held = []) :
    { s with thieves := s.thieves ++ [p] }.Inv where
  __ := h
  thieves := forall_mem_append_singleton h.thieves hp
  account := by
    intro o
    rw [← h.account o]
    simp [Deque.account, hheld]
    rfl

/-- **A step that fits and is guarded keeps the invariant.** -/
theorem Inv.next (h : s.Inv) (hfit : s.Fits l) (hg : s.Guarded l) (hst : s.next l = some s') :
    s'.Inv := by
  cases l with
  | push x =>
    simp only [Deque.next] at hst
    split at hst
    · cases hst
      exact h.begin ‹_› (.inr ⟨x, rfl⟩)
    · cases hst
  | pop =>
    simp only [Deque.next] at hst
    split at hst
    · cases hst
      exact h.begin ‹_› (.inl rfl)
    · cases hst
  | owner => exact h.owner_step hfit hg hst
  | popBack =>
    cases hst
    exact h.spawn trivial rfl
  | popBackHalf max =>
    obtain ⟨hmax, hst⟩ := ite_none_right_eq_some.1 hst
    cases hst
    exact h.spawn hmax rfl
  | thief i =>
    obtain ⟨p, hp, hst⟩ := bind_eq_some_iff.1 hst
    exact h.thief_step hp hst

lemma Inv.subperm (h : s.Inv) : s.returned.Subperm s.pushed := by
  refine subperm_ext_iff.2 fun x _ => ?_
  have hacc := h.account (some x)
  unfold Deque.account at hacc
  rw [count_map_of_injective _ _ fun _ _ => some.inj,
    count_map_of_injective _ _ fun _ _ => some.inj] at hacc
  omega

omit [DecidableEq α] in
lemma Quiet.limit_eq (h : s.Quiet) : s.limit = s.bottom := by simp [limit, h.1]

lemma Inv.perm (h : s.Inv) (hq : s.Quiet) :
    (s.returned.map some ++ s.between).Perm (s.pushed.map some) := by
  refine perm_iff_count.2 fun o => ?_
  have hacc := h.account o
  have hw : weight (fun p : ThiefPc α => p.held.count o) s.thieves = 0 :=
    weight_eq_zero.2 fun p hp => by rw [hq.2 p hp]; rfl
  unfold Deque.account at hacc
  rw [hw, hq.limit_eq, hq.1] at hacc
  rw [count_append, ← hacc]
  rfl

end Invariant

lemma single_next {s s' : Deque α} {l : Act α} (h : ∀ p ∈ s.thieves, p.isSingle)
    (hl : l.isSingle) (hst : s.next l = some s') : ∀ p ∈ s'.thieves, p.isSingle := by
  have howner (hst : s.ownerStep = some s') : s'.thieves = s.thieves := by
    unfold ownerStep at hst
    split at hst <;> (try split_ifs at hst) <;>
      first | (obtain rfl := some.inj hst; rfl) | cases hst
  cases l with
  | push x | pop =>
    simp only [next] at hst
    split at hst
    · cases hst
      exact h
    · cases hst
  | owner => exact howner hst ▸ h
  | popBack =>
    cases hst
    exact forall_mem_append_singleton h rfl
  | popBackHalf max => cases hl
  | thief i =>
    obtain ⟨p, hp, hst⟩ := bind_eq_some_iff.1 hst
    have hsingle := h p (mem_of_getElem? hp)
    cases p with
    | fastTop | top | array t | slot t a =>
      cases hst
      exact forall_mem_set h rfl
    | fastBottom t | bottom t =>
      cases hst
      refine forall_mem_set h ?_
      split_ifs <;> rfl
    | cas t o =>
      simp only [thiefStep] at hst
      split_ifs at hst
      · cases hst
        exact forall_mem_set h rfl
      · cases hst
        exact forall_mem_set h rfl
    | done => cases hst
    | _ => cases hsingle

lemma block_of_single {p : ThiefPc α} (hp : p.isSingle) : ∀ q ∈ p.block, q.2 = 1 := by
  cases p with
  | array t | slot t a | cas t o =>
    rintro q ⟨⟩
    rfl
  | fastTop | fastBottom t | top | bottom t | done => rintro q ⟨⟩
  | _ => cases hp

lemma unread_of_single {p : ThiefPc α} (hp : p.isSingle) : p.unread = [] := by
  cases p with
  | halfRead t a claimed out => cases hp
  | _ => rfl

lemma guarded_of_single {s : Deque α} {l : Act α} (h : ∀ p ∈ s.thieves, p.isSingle) :
    s.Guarded l := by
  unfold Guarded
  split
  · split
    · intro p hp q hq _ hlt
      have := block_of_single (h p hp) q hq
      omega
    · intro p hp q hq
      rw [unread_of_single (h p hp)] at hq
      cases hq
    · trivial
  · trivial

/-- **The Chase–Lev deque**: items are returned at most as often as they were pushed, and when no
call is in progress the others are between `top` and `bottom`. -/
theorem chaseLev {size : UInt32} (hsize : 0 < size) {s : Deque α}
    (h : ((machine size).restrict fun s l => l.isSingle ∧ s.Fits l).Reachable s) :
    s.returned.Subperm s.pushed ∧
      (s.Quiet → (s.returned.map some ++ s.between).Perm (s.pushed.map some)) := by
  classical
  have key : s.Inv ∧ ∀ p ∈ s.thieves, p.isSingle := by
    refine h.invariant (I := fun s => s.Inv ∧ ∀ p ∈ s.thieves, p.isSingle) ?_ ?_
    · rintro s rfl
      exact ⟨inv_new hsize, by simp [new]⟩
    · intro s l s' _ ⟨hinv, hsingle⟩ hst
      obtain ⟨⟨hl, hfit⟩, hst⟩ := Machine.restrict_next.1 hst
      exact ⟨hinv.next hfit (guarded_of_single hsingle) hst, single_next hsingle hl hst⟩
  exact ⟨key.1.subperm, key.1.perm⟩

/-- One push. -/
def pushRun (x : ℕ) : List (Act ℕ) := .push x :: replicate 5 .owner

/-- A worker pushes twice and pops once, a thief steals the other item. -/
theorem chaseLev_two_items :
    ∃ s : Deque ℕ, ((machine 8).restrict fun s l => l.isSingle ∧ s.Fits l).Reachable s ∧
      s.Quiet ∧ s.pushed = [1, 2] ∧ s.returned = [1, 2] ∧ s.returned.Subperm s.pushed ∧
      (s.returned.map some ++ s.between).Perm (s.pushed.map some) := by
  obtain ⟨s, hr, hq, hp, hret⟩ := Machine.Reachable.exists_of_exec
    (M := (machine 8).restrict fun s l => l.isSingle ∧ s.Fits l)
    (P := fun s : Deque ℕ => s.Quiet ∧ s.pushed = [1, 2] ∧ s.returned = [1, 2])
    (r := pushRun 1 ++ pushRun 2 ++ .popBack :: replicate 7 (.thief 0) ++
      .pop :: replicate 9 .owner)
    rfl (by decide +kernel)
  have key := chaseLev (by decide) hr
  exact ⟨s, hr, hq, hp, hret, key.1, key.2 hq⟩

/-- **Stealing half**, if the owner keeps out of the thieves' blocks: no item is lost or returned
too often. -/
theorem half_steal_safe {size : UInt32} (hsize : 0 < size) {s : Deque α}
    (h : ((machine size).restrict fun s l => s.Fits l ∧ s.Guarded l).Reachable s) :
    s.returned.Subperm s.pushed ∧ (s.Quiet → s.top ≤ s.bottom) ∧
      (∀ t a claimed out, .halfRead t a claimed out ∈ s.thieves →
        claimed[out.length]? = some (getCircularArray (s.arrays a) (t + out.length))) ∧
      (s.Quiet → (s.returned.map some ++ s.between).Perm (s.pushed.map some)) := by
  classical
  have key : s.Inv := by
    refine h.invariant ?_ ?_
    · rintro s rfl
      exact inv_new hsize
    · intro s l s' _ hinv hst
      obtain ⟨⟨hfit, hg⟩, hst⟩ := Machine.restrict_next.1 hst
      exact hinv.next hfit hg hst
  refine ⟨key.subperm, fun hq => hq.limit_eq ▸ key.top_le, ?_, key.perm⟩
  intro t a claimed out hmem
  obtain ⟨-, hlt, -, hcl⟩ := key.thieves _ hmem
  exact hcl out.length le_rfl hlt

/-- Four items are pushed, a thief steals two of them, the owner pops the others. -/
theorem half_steal_safe_four_items :
    ∃ s : Deque ℕ, ((machine 8).restrict fun s l => s.Fits l ∧ s.Guarded l).Reachable s ∧
      s.Quiet ∧ s.pushed = [1, 2, 3, 4] ∧ s.returned = [1, 2, 4, 3] ∧
      s.returned.Subperm s.pushed ∧ s.top ≤ s.bottom ∧
      (s.returned.map some ++ s.between).Perm (s.pushed.map some) := by
  obtain ⟨s, hr, hq, hp, hret⟩ := Machine.Reachable.exists_of_exec
    (M := (machine 8).restrict fun s l => s.Fits l ∧ s.Guarded l)
    (P := fun s : Deque ℕ => s.Quiet ∧ s.pushed = [1, 2, 3, 4] ∧ s.returned = [1, 2, 4, 3])
    (r := pushRun 1 ++ pushRun 2 ++ pushRun 3 ++ pushRun 4 ++
      .popBackHalf 32 :: replicate 8 (.thief 0) ++
      .pop :: replicate 7 .owner ++ .pop :: replicate 9 .owner)
    rfl (by decide +kernel)
  have key := half_steal_safe (by decide) hr
  exact ⟨s, hr, hq, hp, hret, key.1, key.2.1 hq, key.2.2.2 hq⟩

/-- **An item popped by the owner and stolen by a thief.** A thief finds four items and aims at two;
the owner pops three items, each above `top` and so without a compare-and-swap. -/
theorem popped_and_stolen :
    ∃ s : Deque ℕ, (machine 8).Reachable s ∧ s.Quiet ∧ s.pushed = [1, 2, 3, 4] ∧
      s.returned = [4, 3, 2, 1, 2] ∧ s.bottom < s.top :=
  Machine.Reachable.exists_of_exec
    (r := pushRun 1 ++ pushRun 2 ++ pushRun 3 ++ pushRun 4 ++
      .popBackHalf 32 :: replicate 5 (.thief 0) ++
      (replicate 3 (.pop :: replicate 7 .owner)).flatten ++
      replicate 3 (.thief 0))
    rfl (by decide +kernel)

end Deque

end Arts
