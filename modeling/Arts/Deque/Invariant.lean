import Arts.Deque.Basic
import Arts.Machine.Calls

/-!
# The invariant of the work-stealing deque

The deque has the items from `top` to `limit`, which is `bottom` unless the owner pops. The block
at which a thief aims is free (`Free`) if its compare-and-swap can succeed.
-/

namespace Arts

variable {α : Type*}

@[simp] lemma size_putCircularArray (a : Segment α) (i : ℕ) (o : Option α) :
    (putCircularArray a i o).size = a.size := rfl

@[simp] lemma get_putCircularArray_self (a : Segment α) (i : ℕ) (o : Option α) :
    getCircularArray (putCircularArray a i o) i = o := by
  simp [getCircularArray, putCircularArray]

lemma get_putCircularArray_of_ne {a : Segment α} {i j : ℕ} {o : Option α}
    (h : j % a.size.toNat ≠ i % a.size.toNat) :
    getCircularArray (putCircularArray a i o) j = getCircularArray a j := by
  simp [getCircularArray, putCircularArray, Function.update_of_ne h]

lemma toSteal_pos {available max : ℕ} (h : 0 < max) : 0 < toSteal available max := by
  simp only [toSteal]
  split_ifs <;> omega

lemma toSteal_le {available max : ℕ} (h : 0 < available) : toSteal available max ≤ available := by
  simp only [toSteal]
  split_ifs <;> omega

/-- What the owner has taken out of the deque and not returned. -/
def OwnerPc.held : OwnerPc α → List (Option α)
  | .popRestore _ o => o.toList.map some
  | _ => []

def ThiefPc.held : ThiefPc α → List (Option α)
  | .halfRead _ _ claimed _ => claimed
  | _ => []

/-- The block that the thief is about to claim: its first index and its length. -/
def ThiefPc.block : ThiefPc α → Option (ℕ × ℕ)
  | .array t | .slot t _ | .cas t _ => some (t, 1)
  | .halfArray max t b => if t < b then some (t, toSteal (b - t) max) else none
  | .halfCas t k _ => some (t, k)
  | _ => none

/-- The entries that the thief has claimed and not read yet: the array and the index. -/
def ThiefPc.unread : ThiefPc α → List (ℕ × ℕ)
  | .halfRead t a claimed out => Queue.window (fun i => (a, i)) (t + out.length) (t + claimed.length)
  | _ => []

namespace Deque

/-- The end of the items that are still in the deque. -/
def limit (s : Deque α) : ℕ :=
  match s.owner with
  | .popTop b | .popArray b _ | .popSlot b _ _ => b + 1
  | .popReset t => t
  | .popCas t _ | .popRestore t _ => t + 1
  | _ => s.bottom

/-- The end of the items that a thief may take one by one. -/
def single (s : Deque α) : ℕ :=
  match s.owner with
  | .popTop b => b + 1
  | .popArray b t | .popSlot b t _ => if t < b then b else b + 1
  | .popReset t => t
  | .popCas t _ | .popRestore t _ => t + 1
  | _ => s.bottom

/-- No other call takes one of the `k` items from `t` on. -/
def Free (s : Deque α) (t k : ℕ) : Prop := t + k ≤ if k = 1 then s.single else s.bottom

/-- If the thief's compare-and-swap succeeds, its block is free. -/
def Aims (s : Deque α) (t k : ℕ) : Prop := t ≤ s.top ∧ (s.top = t → s.Free t k)

/-- The array `a` holds the current items at the `k` indices from `t` on. -/
def Sees (s : Deque α) (a t k : ℕ) : Prop :=
  ∀ i, t ≤ i → i < t + k → getCircularArray (s.arrays a) i = s.get i

/-- The entries from some index, at most `top`, up to `i` have been copied from the array `a` to the
next one; the array `a` was full. -/
def Copied (s : Deque α) (a b i : ℕ) : Prop :=
  ∃ t, t ≤ s.top ∧ t ≤ i ∧ b + 1 = t + (s.arrays a).size.toNat ∧
    (s.arrays (a + 1)).size.toNat = (s.arrays a).size.toNat * 2 ∧
    ∀ j, t ≤ j → j < i → getCircularArray (s.arrays (a + 1)) j = s.get j

def OwnerOk (s : Deque α) : Prop :=
  match s.owner with
  | .idle | .pushArray _ | .fastTop | .fastBottom _ | .decLoad => True
  | .pushBottom _ a => a = s.activeArray
  | .pushTop _ a b => a = s.activeArray ∧ b = s.bottom
  | .growLoad _ a b i => a = s.activeArray ∧ b = s.bottom ∧ s.Copied a b i
  | .growStore _ a b i o =>
    a = s.activeArray ∧ b = s.bottom ∧ s.Copied a b i ∧ i < b ∧ o = s.get i
  | .publish _ a b => a = s.activeArray + 1 ∧ b = s.bottom ∧
    b + 1 < s.top + (s.arrays a).size.toNat ∧
    ∀ j, s.top ≤ j → j < b → getCircularArray (s.arrays a) j = s.get j
  | .put _ a b => a = s.activeArray ∧ b = s.bottom ∧
    b + 1 < s.top + (s.arrays s.activeArray).size.toNat
  | .storeBottom x b => b = s.bottom ∧
    b + 1 < s.top + (s.arrays s.activeArray).size.toNat ∧ s.get b = some x
  | .decStore b => s.bottom = b + 1
  | .popTop b => s.bottom = b
  | .popReset t => s.bottom + 1 = t ∧ s.top = t
  | .popArray b t => s.bottom = b ∧ t ≤ b ∧ t ≤ s.top ∧ (t < b → s.top ≤ b)
  | .popSlot b t a => s.bottom = b ∧ t ≤ b ∧ t ≤ s.top ∧ (t < b → s.top ≤ b) ∧ a = s.activeArray
  | .popCas t o => s.bottom = t ∧ t ≤ s.top ∧ (s.top = t → o = s.get t)
  | .popRestore t _ => s.bottom = t ∧ s.top = t + 1

def ThiefOk (s : Deque α) : ThiefPc α → Prop
  | .fastTop | .fastBottom _ | .top | .done => True
  | .halfFastBottom max | .halfFastTop max _ | .halfTop max => 0 < max
  | .bottom t => t ≤ s.top
  | .array t => s.Aims t 1
  | .slot t a => a ≤ s.activeArray ∧ s.Aims t 1 ∧ (s.top = t → s.Sees a t 1)
  | .cas t o => s.Aims t 1 ∧ (s.top = t → o = s.get t)
  | .halfBottom max t => 0 < max ∧ t ≤ s.top
  | .halfArray max t b => 0 < max ∧ t ≤ s.top ∧ (t < b → s.Aims t (toSteal (b - t) max))
  | .halfCas t k a => 0 < k ∧ a ≤ s.activeArray ∧ s.Aims t k ∧ (s.top = t → s.Sees a t k)
  | .halfRead t a claimed out => a ≤ s.activeArray ∧ out.length < claimed.length ∧
    out = claimed.take out.length ∧
    ∀ j, out.length ≤ j → j < claimed.length →
      claimed[j]? = some (getCircularArray (s.arrays a) (t + j))

/-- How often the entry occurs among those returned, held and still in the deque. -/
def account [DecidableEq α] (s : Deque α) (o : Option α) : ℕ :=
  (s.returned.map some).count o + weight (fun p => p.held.count o) s.thieves +
    s.owner.held.count o + (Queue.window s.get s.top s.limit).count o

structure Inv [DecidableEq α] (s : Deque α) : Prop where
  pos : 0 < s.top
  top_le : s.top ≤ s.limit
  room : s.limit + 1 ≤ s.top + (s.arrays s.activeArray).size.toNat
  owner : s.OwnerOk
  thieves : ∀ p ∈ s.thieves, s.ThiefOk p
  account : ∀ o, s.account o = (s.pushed.map some).count o

section Blocks

variable {s s' : Deque α} {t k : ℕ}

lemma bottom_le_limit (h : s.OwnerOk) : s.bottom ≤ s.limit := by
  unfold OwnerOk at h
  unfold limit
  cases hpc : s.owner with
  | popTop b | popArray b t | popSlot b t a | popReset t | popCas t o | popRestore t o =>
    simp only [hpc] at h ⊢
    omega
  | _ => exact le_rfl

lemma bottom_le_single (h : s.OwnerOk) : s.bottom ≤ s.single := by
  unfold OwnerOk at h
  unfold single
  cases hpc : s.owner with
  | popArray b t | popSlot b t a =>
    simp only [hpc] at h ⊢
    split_ifs <;> omega
  | popTop b | popReset t | popCas t o | popRestore t o =>
    simp only [hpc] at h ⊢
    omega
  | _ => exact le_rfl

lemma free_of_le_bottom (ho : s.OwnerOk) (h : t + k ≤ s.bottom) : s.Free t k := by
  unfold Free
  split_ifs
  · exact h.trans (bottom_le_single ho)
  · exact h

lemma single_le_limit : s.single ≤ s.limit := by
  unfold single limit
  cases s.owner with
  | popArray b t | popSlot b t a =>
    dsimp only
    split_ifs <;> omega
  | _ => exact le_rfl

lemma Free.le_limit (h : s.Free t k) (ho : s.OwnerOk) : t + k ≤ s.limit := by
  unfold Free at h
  split_ifs at h
  · exact h.trans single_le_limit
  · exact h.trans (bottom_le_limit ho)

lemma Aims.of_top_lt (h : s.Aims t k) (hlt : s.top < s'.top) : s'.Aims t k := by
  have := h.1
  exact ⟨by omega, fun heq => by omega⟩

/-- **What a step of the owner leaves alone** keeps what a thief knows. -/
theorem ThiefOk.frame {p : ThiefPc α} (h : s.ThiefOk p) (ho : s.OwnerOk) (htop : s'.top = s.top)
    (hact : s.activeArray ≤ s'.activeArray)
    (harr : ∀ a ≤ s.activeArray, ∀ i, s.top ≤ i → i < s.limit →
      getCircularArray (s'.arrays a) i = getCircularArray (s.arrays a) i)
    (hget : ∀ i, s.top ≤ i → i < s.limit → s'.get i = s.get i)
    (hfree : ∀ k, 0 < k → p.block = some (s.top, k) → s.Free s.top k → s'.Free s.top k)
    (hread : ∀ q ∈ p.unread, q.1 ≤ s.activeArray →
      getCircularArray (s'.arrays q.1) q.2 = getCircularArray (s.arrays q.1) q.2) :
    s'.ThiefOk p := by
  have aims {t k : ℕ} (hk : 0 < k) (hb : p.block = some (t, k)) (ha : s.Aims t k) :
      s'.Aims t k := by
    refine ⟨htop ▸ ha.1, fun heq => ?_⟩
    have heq : s.top = t := htop ▸ heq
    subst heq
    exact hfree k hk hb (ha.2 rfl)
  have sees {a t k : ℕ} (hle : a ≤ s.activeArray) (ha : s.Aims t k)
      (hs : s.top = t → s.Sees a t k) : s'.top = t → s'.Sees a t k := by
    intro heq i hti hik
    have heq : s.top = t := htop ▸ heq
    have hlim := (ha.2 heq).le_limit ho
    rw [harr a hle i (by omega) (by omega), hget i (by omega) (by omega)]
    exact hs heq i hti hik
  cases p with
  | fastTop | fastBottom | top | done => trivial
  | halfFastBottom max | halfFastTop max b | halfTop max => exact h
  | bottom t => exact h.trans htop.ge
  | array t => exact aims Nat.one_pos rfl h
  | slot t a =>
    obtain ⟨hle, ha, hs⟩ := h
    exact ⟨hle.trans hact, aims Nat.one_pos rfl ha, sees hle ha hs⟩
  | cas t o =>
    obtain ⟨ha, ho'⟩ := h
    refine ⟨aims Nat.one_pos rfl ha, fun heq => ?_⟩
    have heq : s.top = t := htop ▸ heq
    have hlim := (ha.2 heq).le_limit ho
    rw [ho' heq, hget t (by omega) (by omega)]
  | halfBottom max t => exact ⟨h.1, h.2.trans htop.ge⟩
  | halfArray max t b =>
    obtain ⟨hmax, hle, ha⟩ := h
    exact ⟨hmax, htop ▸ hle, fun hlt =>
      aims (toSteal_pos hmax) (by simp [ThiefPc.block, hlt]) (ha hlt)⟩
  | halfCas t k a =>
    obtain ⟨hk, hle, ha, hs⟩ := h
    exact ⟨hk, hle.trans hact, aims hk rfl ha, sees hle ha hs⟩
  | halfRead t a claimed out =>
    obtain ⟨hle, hlt, hout, hcl⟩ := h
    refine ⟨hle.trans hact, hlt, hout, fun j hj hj' => ?_⟩
    have hmem : (a, t + j) ∈ (ThiefPc.halfRead t a claimed out).unread :=
      Queue.mem_window.2 ⟨t + j, by omega, by omega, rfl⟩
    rw [hread _ hmem hle]
    exact hcl j hj hj'

lemma ThiefOk.of_top_lt {p : ThiefPc α} (h : s.ThiefOk p) (hlt : s.top < s'.top)
    (hact : s'.activeArray = s.activeArray) (harr : s'.arrays = s.arrays) : s'.ThiefOk p := by
  have sees {a t k : ℕ} (ha : s.Aims t k) : s'.top = t → s'.Sees a t k := by
    intro heq
    have := ha.1
    omega
  cases p with
  | fastTop | fastBottom | top | done => trivial
  | halfFastBottom max | halfFastTop max b | halfTop max => exact h
  | bottom t => exact h.trans hlt.le
  | array t => exact Aims.of_top_lt h hlt
  | slot t a => exact ⟨hact ▸ h.1, h.2.1.of_top_lt hlt, sees h.2.1⟩
  | cas t o =>
    refine ⟨h.1.of_top_lt hlt, fun heq => ?_⟩
    have := h.1.1
    omega
  | halfBottom max t => exact ⟨h.1, h.2.trans hlt.le⟩
  | halfArray max t b => exact ⟨h.1, h.2.1.trans hlt.le, fun hb => (h.2.2 hb).of_top_lt hlt⟩
  | halfCas t k a => exact ⟨h.1, hact ▸ h.2.1, h.2.2.1.of_top_lt hlt, sees h.2.2.1⟩
  | halfRead t a claimed out =>
    obtain ⟨hle, hlt', hout, hcl⟩ := h
    exact ⟨hact ▸ hle, hlt', hout, fun j hj hj' => by rw [harr]; exact hcl j hj hj'⟩

end Blocks

end Deque

end Arts
