import Arts.Deque.Invariant

/-!
# The steps of the owner and of the thieves keep the invariant

`Guarded`: the owner does not lower `bottom` into a larger block that a thief may still claim, and
does not write an entry that a thief has still to read.
-/

namespace Arts

open List Function Option Queue OwnerPc

variable {α : Type*}

namespace Deque

/-- **The owner keeps out of the thieves' blocks.** -/
def Guarded (s : Deque α) : Act α → Prop
  | .owner => match s.owner with
    | .decStore b => ∀ p ∈ s.thieves, ∀ q ∈ p.block, q.1 = s.top → 1 < q.2 → q.1 + q.2 ≤ b
    | .put _ a b => ∀ p ∈ s.thieves, ∀ q ∈ p.unread, q.1 = a →
      q.2 % (s.arrays a).size.toNat ≠ b % (s.arrays a).size.toNat
    | _ => True
  | _ => True

instance (s : Deque α) (l : Act α) : Decidable (s.Guarded l) := by
  induction l using Act.casesOn <;> dsimp only [Guarded] <;> try infer_instance
  generalize s.owner = o
  induction o using OwnerPc.casesOn <;> dsimp only <;> infer_instance

/-- What a step of the owner that leaves `top` alone keeps for the thieves. -/
structure Keeps (s s' : Deque α) : Prop where
  top : s'.top = s.top
  thieves : s'.thieves = s.thieves
  active : s.activeArray ≤ s'.activeArray
  arrays : ∀ a ≤ s.activeArray, ∀ i, s.top ≤ i → i < s.limit →
    getCircularArray (s'.arrays a) i = getCircularArray (s.arrays a) i
  get : ∀ i, s.top ≤ i → i < s.limit → s'.get i = s.get i
  free : ∀ p ∈ s.thieves, ∀ k, 0 < k → p.block = some (s.top, k) → s.Free s.top k → s'.Free s.top k
  read : ∀ p ∈ s.thieves, ∀ q ∈ p.unread, q.1 ≤ s.activeArray →
    getCircularArray (s'.arrays q.1) q.2 = getCircularArray (s.arrays q.1) q.2

section Owner

variable [DecidableEq α] {s s' : Deque α}

lemma Keeps.thiefOk (hk : Keeps s s') (h : s.Inv) : ∀ p ∈ s'.thieves, s'.ThiefOk p := by
  intro p hp
  rw [hk.thieves] at hp
  exact (h.thieves p hp).frame h.owner hk.top hk.active hk.arrays hk.get (hk.free p hp)
    (hk.read p hp)

variable {b : ℕ}

omit [DecidableEq α] in
lemma Keeps.window (hk : Keeps s s') (hb : b ≤ s.limit) :
    Queue.window s'.get s'.top b = Queue.window s.get s.top b := by
  rw [hk.top]
  exact window_congr fun i hi hi' => hk.get i hi (hi'.trans_le hb)

lemma Inv.keeps (h : s.Inv) (hk : Keeps s s') (hlim : s'.limit = s.limit)
    (hroom : s'.limit + 1 ≤ s'.top + (s'.arrays s'.activeArray).size.toNat) (hown : s'.OwnerOk)
    (hheld : s'.owner.held = s.owner.held) (hret : s'.returned = s.returned)
    (hpush : s'.pushed = s.pushed) : s'.Inv where
  pos := hk.top ▸ h.pos
  top_le := hk.top ▸ hlim ▸ h.top_le
  room := hroom
  owner := hown
  thieves := hk.thiefOk h
  account := by
    intro o
    rw [hpush, ← h.account o]
    unfold Deque.account
    rw [hlim, hk.window le_rfl, hk.thieves, hheld, hret]

lemma Inv.goto (h : s.Inv) (p : OwnerPc α) (hlim : { s with owner := p }.limit = s.limit)
    (hown : { s with owner := p }.OwnerOk) (hheld : p.held = s.owner.held)
    (hsingle : s.top < s.single → s.top < { s with owner := p }.single) :
    { s with owner := p }.Inv := by
  refine h.keeps ⟨rfl, rfl, le_rfl, fun _ _ _ _ _ => rfl, fun _ _ _ => rfl, ?_,
    fun _ _ _ _ _ => rfl⟩ hlim (hlim ▸ h.room) hown hheld rfl rfl
  intro q _ k _ _ hfree
  unfold Free at hfree ⊢
  split_ifs at hfree ⊢ with h1
  · subst h1
    exact hsingle hfree
  · exact hfree

variable {a a' i j : ℕ}

omit [DecidableEq α] in
lemma get_store_of_ne {o : Option α} (h : a' ≠ a) :
    getCircularArray (s.store a i o a') j = getCircularArray (s.arrays a') j := by
  rw [store, update_of_ne h]

omit [DecidableEq α] in
lemma get_store_of_mod_ne {o : Option α}
    (h : j % (s.arrays a).size.toNat ≠ i % (s.arrays a).size.toNat) :
    getCircularArray (s.store a i o a') j = getCircularArray (s.arrays a') j := by
  by_cases ha : a' = a
  · subst ha
    rw [store, update_self, get_putCircularArray_of_ne h]
  · exact get_store_of_ne ha

omit [DecidableEq α] in
lemma get_store_self {o : Option α} : getCircularArray (s.store a i o a) i = o := by
  rw [store, update_self, get_putCircularArray_self]

omit [DecidableEq α] in
lemma size_store {o : Option α} : (s.store a i o a').size = (s.arrays a').size := by
  by_cases ha : a' = a
  · subst ha
    rw [store, update_self, size_putCircularArray]
  · rw [store, update_of_ne ha]

lemma Inv.fresh (h : s.Inv) {arr : ℕ → Segment α} {p : OwnerPc α}
    (harr : ∀ a ≤ s.activeArray, arr a = s.arrays a)
    (hlim : { s with arrays := arr, owner := p }.limit = s.limit)
    (hown : { s with arrays := arr, owner := p }.OwnerOk) (hheld : p.held = s.owner.held)
    (hsingle : { s with arrays := arr, owner := p }.single = s.single) :
    { s with arrays := arr, owner := p }.Inv := by
  have hget (i : ℕ) : get { s with arrays := arr, owner := p } i = s.get i := by
    show getCircularArray (arr s.activeArray) i = _
    rw [harr _ le_rfl]
    rfl
  refine h.keeps ⟨rfl, rfl, le_rfl, fun a ha i _ _ => ?_, fun i _ _ => hget i, ?_,
    fun _ _ q _ ha => ?_⟩ hlim ?_ hown hheld rfl rfl
  · show getCircularArray (arr a) i = _
    rw [harr a ha]
  · intro q _ k _ _ hfree
    unfold Free at hfree ⊢
    rw [hsingle]
    exact hfree
  · show getCircularArray (arr q.1) q.2 = _
    rw [harr q.1 ha]
  · show limit _ + 1 ≤ s.top + (arr s.activeArray).size.toNat
    rw [hlim, harr _ le_rfl]
    exact h.room

variable {n : UInt32}

lemma toNat_mul_two (h : n.toNat * 2 < 2 ^ 32) : (n * 2).toNat = n.toNat * 2 := by
  exact Nat.mod_eq_of_lt h

lemma toNat_sub_one (h : 0 < n.toNat) : (n - 1).toNat + 1 = n.toNat := by
  have hle : (1 : UInt32) ≤ n := by
    exact h
  rw [UInt32.toNat_sub_of_le _ _ hle]
  have : (1 : UInt32).toNat = 1 := rfl
  omega

lemma Inv.size_pos (h : s.Inv) : 0 < (s.arrays s.activeArray).size.toNat := by
  have := h.top_le
  have := h.room
  omega

lemma Inv.grow (h : s.Inv) {x : α} (hpc : s.owner = .pushTop x a b)
    (hfull : s.Full a b) (hfit : (s.arrays a).size.toNat * 2 < 2 ^ 32) :
    { s with
      arrays := update s.arrays (a + 1) (newCircularArray ((s.arrays a).size * 2)),
      owner := .growLoad x a b s.top }.Inv := by
  have ho := h.owner
  simp only [OwnerOk, hpc] at ho
  obtain ⟨rfl, rfl⟩ := ho
  refine h.fresh (fun a ha => update_of_ne (by omega) _ _) (by simp [limit, hpc]) ?_
    (by simp [hpc, held]) (by simp [single, hpc])
  have hroom := h.room
  have hsize := toNat_sub_one h.size_pos
  have htop := h.top_le
  simp only [limit, hpc] at hroom htop
  unfold Full at hfull
  refine ⟨rfl, rfl, s.top, le_rfl, le_rfl, ?_, ?_, fun j hj hj' => absurd hj' (by omega)⟩
  · show s.bottom + 1 = s.top +
      (update s.arrays (s.activeArray + 1) _ s.activeArray).size.toNat
    rw [update_of_ne (by omega)]
    omega
  · show (update s.arrays (s.activeArray + 1) _ (s.activeArray + 1)).size.toNat =
      (update s.arrays (s.activeArray + 1) _ s.activeArray).size.toNat * 2
    rw [update_self, update_of_ne (by omega)]
    exact toNat_mul_two hfit

lemma Inv.growStore (h : s.Inv) {x : α} {o : Option α} (hpc : s.owner = .growStore x a b i o) :
    { s with arrays := s.store (a + 1) i o, owner := .growLoad x a b (i + 1) }.Inv := by
  have ho := h.owner
  simp only [OwnerOk, hpc] at ho
  obtain ⟨rfl, rfl, ⟨t, ht, hti, hb, hsize, hcopy⟩, hib, rfl⟩ := ho
  have hold {a : ℕ} (ha : a ≤ s.activeArray) :
      s.store (s.activeArray + 1) i (s.get i) a = s.arrays a := by
    rw [store, update_of_ne (by omega)]
  refine h.fresh (fun a ha => hold ha) (by simp [limit, hpc]) ?_ (by simp [hpc, held])
    (by simp [single, hpc])
  refine ⟨rfl, rfl, t, ht, by omega, ?_, ?_, fun j hj hj' => ?_⟩
  · rw [size_store]
    exact hb
  · rw [size_store, size_store]
    exact hsize
  · show getCircularArray (s.store (s.activeArray + 1) i (s.get i) (s.activeArray + 1)) j =
      getCircularArray (s.store (s.activeArray + 1) i (s.get i) s.activeArray) j
    rw [hold le_rfl]
    rcases Nat.lt_succ_iff_lt_or_eq.1 hj' with hlt | rfl
    · rw [get_store_of_mod_ne (mod_ne_mod_of_lt hlt (by omega))]
      exact hcopy j hj hlt
    · exact get_store_self

lemma Inv.publish (h : s.Inv) {x : α} (hpc : s.owner = .publish x a b) :
    { s with activeArray := a, owner := .put x a b }.Inv := by
  have ho := h.owner
  simp only [OwnerOk, hpc] at ho
  obtain ⟨rfl, rfl, hroom, hcopy⟩ := ho
  have hlim : s.limit = s.bottom := by simp [limit, hpc]
  refine h.keeps ⟨rfl, rfl, Nat.le_succ _, fun _ _ _ _ _ => rfl, fun i hi hi' => ?_, ?_,
    fun _ _ _ _ _ => rfl⟩ (by simp [limit, hpc]) ?_ ⟨rfl, rfl, hroom⟩
    (by simp [hpc, held]) rfl rfl
  · exact hcopy i hi (hlim ▸ hi')
  · intro q _ k _ _ hfree
    simpa [Free, single, hpc] using hfree
  · show s.bottom + 1 ≤ s.top + (s.arrays (s.activeArray + 1)).size.toNat
    omega

lemma Inv.put (h : s.Inv) {x : α} (hpc : s.owner = .put x a b) (hg : s.Guarded .owner) :
    { s with arrays := s.store a b (some x), owner := .storeBottom x b }.Inv := by
  have ho := h.owner
  simp only [OwnerOk, hpc] at ho
  simp only [Guarded, hpc] at hg
  obtain ⟨rfl, rfl, hroom⟩ := ho
  have hlim : s.limit = s.bottom := by simp [limit, hpc]
  -- the entries in use lie less than the size of the array below the new one
  have hkeep {a i : ℕ} (hi : s.top ≤ i) (hi' : i < s.limit) :
      getCircularArray (s.store s.activeArray s.bottom (some x) a) i =
        getCircularArray (s.arrays a) i :=
    get_store_of_mod_ne (mod_ne_mod_of_lt (by omega) (by omega))
  refine h.keeps ⟨rfl, rfl, le_rfl, fun a _ i hi hi' => hkeep hi hi', fun i hi hi' => hkeep hi hi',
    ?_, ?_⟩ (by simp [limit, hpc]) ?_ ⟨rfl, ?_, get_store_self⟩ (by simp [hpc, held]) rfl rfl
  · intro q _ k _ _ hfree
    simpa [Free, single, hpc] using hfree
  · intro p hp q hq _
    by_cases ha : q.1 = s.activeArray
    · exact get_store_of_mod_ne (hg p hp q hq ha)
    · exact get_store_of_ne ha
  · show s.bottom + 1 ≤ s.top + (s.store s.activeArray s.bottom (some x) s.activeArray).size.toNat
    rw [size_store]
    omega
  · rw [size_store]
    exact hroom

lemma Inv.storeBottom (h : s.Inv) {x : α} (hpc : s.owner = .storeBottom x b) :
    { s with bottom := b + 1, owner := .idle, pushed := s.pushed ++ [x] }.Inv := by
  have ho := h.owner
  simp only [OwnerOk, hpc] at ho
  obtain ⟨rfl, hroom, hx⟩ := ho
  have hlim : s.limit = s.bottom := by simp [limit, hpc]
  have htop := h.top_le
  have hk : Keeps s { s with bottom := s.bottom + 1, owner := .idle, pushed := s.pushed ++ [x] } := by
    refine ⟨rfl, rfl, le_rfl, fun _ _ _ _ _ => rfl, fun _ _ _ => rfl, ?_, fun _ _ _ _ _ => rfl⟩
    intro q _ k _ _ hfree
    simp only [Free, single] at hfree ⊢
    split_ifs at hfree ⊢ <;> omega
  refine ⟨h.pos, ?_, ?_, trivial, hk.thiefOk h, fun o => ?_⟩
  · show s.top ≤ s.bottom + 1
    omega
  · show s.bottom + 1 + 1 ≤ s.top + (s.arrays s.activeArray).size.toNat
    omega
  · have hacc := h.account o
    simp only [Deque.account, hlim, hpc, held] at hacc
    show (s.returned.map some).count o + weight (fun p => p.held.count o) s.thieves + 0 +
      (Queue.window s.get s.top (s.bottom + 1)).count o = ((s.pushed ++ [x]).map some).count o
    rw [window_succ_right (by omega), hx, map_append, count_append,
      count_append, ← hacc]
    simp only [map_cons, map_nil, count_nil]
    omega

lemma Inv.decStore (h : s.Inv) (hpc : s.owner = .decStore b) (hg : s.Guarded .owner) :
    { s with bottom := b, owner := .popTop b }.Inv := by
  have ho := h.owner
  simp only [OwnerOk, hpc] at ho
  simp only [Guarded, hpc] at hg
  have hlim : s.limit = b + 1 := by simp [limit, hpc, ho]
  refine h.keeps ⟨rfl, rfl, le_rfl, fun _ _ _ _ _ => rfl, fun _ _ _ => rfl, ?_,
    fun _ _ _ _ _ => rfl⟩ hlim.symm ?_ rfl (by simp [hpc, held]) rfl rfl
  · intro q hq k hpos hk hfree
    simp only [Free, single, hpc] at hfree ⊢
    split_ifs at hfree ⊢ with h1
    · omega
    · exact hg q hq _ hk rfl (by show 1 < k; omega)
  · have := h.room
    rw [hlim] at this
    exact this

lemma Inv.popTop (h : s.Inv) (hpc : s.owner = .popTop b) :
    { s with owner := if b < s.top then .popReset s.top else .popArray b s.top }.Inv := by
  have ho := h.owner
  have htop := h.top_le
  simp only [OwnerOk, hpc] at ho
  simp only [limit, hpc] at htop
  split_ifs with hlt
  · have heq : s.top = b + 1 := by omega
    exact h.goto _ (by simp [limit, hpc, heq]) ⟨by simp [ho, heq], rfl⟩ (by simp [hpc, held])
      (by simp [single, hpc, heq])
  · refine h.goto _ (by simp [limit, hpc]) ⟨ho, by omega, le_rfl, fun hlt => hlt.le⟩
      (by simp [hpc, held]) ?_
    simp only [single]
    split_ifs <;> omega

variable {t : ℕ}

lemma Inv.popReset (h : s.Inv) (hpc : s.owner = .popReset t) :
    { s with bottom := t, owner := .idle }.Inv := by
  have ho := h.owner
  simp only [OwnerOk, hpc] at ho
  refine h.keeps ⟨rfl, rfl, le_rfl, fun _ _ _ _ _ => rfl, fun _ _ _ => rfl, ?_,
    fun _ _ _ _ _ => rfl⟩ (by simp [limit, hpc]) ?_ trivial (by simp [hpc, held]) rfl rfl
  · intro q _ k _ _ hfree
    simp only [Free, single, hpc] at hfree ⊢
    split_ifs at hfree ⊢ <;> omega
  · have := h.room
    simp only [limit, hpc] at this
    exact this

omit [DecidableEq α] in
lemma Inv.exists_eq_some [DecidableEq α] (h : s.Inv) {o : Option α}
    (ho : 0 < s.account o) : ∃ x, o = some x := by
  rw [h.account o, count_pos_iff, List.mem_map] at ho
  obtain ⟨x, -, rfl⟩ := ho
  exact ⟨x, rfl⟩

lemma Inv.popLast (h : s.Inv) (hpc : s.owner = .popSlot b t a) (hlt : t < b) : { s with
      owner := .idle
      returned := s.returned ++ (getCircularArray (s.arrays a) b).toList }.Inv := by
  have ho := h.owner
  simp only [OwnerOk, hpc] at ho
  obtain ⟨rfl, -, -, htop, rfl⟩ := ho
  have hlim : s.limit = s.bottom + 1 := by simp [limit, hpc]
  have hwin := window_succ_right (f := s.get) (htop hlt)
  obtain ⟨x, hx⟩ : ∃ x, s.get s.bottom = some x := by
    refine h.exists_eq_some ?_
    rw [Deque.account, hlim, hwin, count_append, count_singleton_self]
    omega
  have hk : Keeps s { s with
      owner := .idle
      returned := s.returned ++ (getCircularArray (s.arrays s.activeArray) s.bottom).toList } := by
    refine ⟨rfl, rfl, le_rfl, fun _ _ _ _ _ => rfl, fun _ _ _ => rfl, ?_, fun _ _ _ _ _ => rfl⟩
    intro q _ k _ _ hfree
    simpa [Free, single, hpc, hlt] using hfree
  refine ⟨h.pos, htop hlt, ?_, trivial, hk.thiefOk h, fun o => ?_⟩
  · have := h.room
    show s.bottom + 1 ≤ s.top + (s.arrays s.activeArray).size.toNat
    omega
  · have hacc := h.account o
    simp only [Deque.account, hlim, hwin, hpc, held, count_append] at hacc
    show ((s.returned ++ (s.get s.bottom).toList).map some).count o +
      weight (fun p => p.held.count o) s.thieves + 0 +
      (Queue.window s.get s.top s.bottom).count o = (s.pushed.map some).count o
    rw [← hacc, hx, map_append, count_append]
    simp only [toList_some, map_cons, map_nil, count_nil]
    omega

lemma Inv.popWin (h : s.Inv) {o : Option α} (hpc : s.owner = .popCas t o)
    (heq : s.top = t) : { s with top := t + 1, owner := .popRestore t o }.Inv := by
  have ho := h.owner
  simp only [OwnerOk, hpc] at ho
  obtain ⟨hb, -, hget⟩ := ho
  subst heq
  have hlim : s.limit = s.top + 1 := by simp [limit, hpc]
  have hwin := window_succ_right (f := s.get) (le_refl s.top)
  rw [window_of_le le_rfl, nil_append] at hwin
  obtain ⟨x, hx⟩ : ∃ x, s.get s.top = some x := by
    refine h.exists_eq_some ?_
    rw [Deque.account, hlim, hwin]
    simp
  refine ⟨Nat.succ_pos _, le_rfl, ?_, ⟨hb, rfl⟩, fun q hq => ?_, fun o' => ?_⟩
  · have := h.room
    show s.top + 1 + 1 ≤ s.top + 1 + (s.arrays s.activeArray).size.toNat
    omega
  · exact (h.thieves q hq).of_top_lt (Nat.lt_succ_self _) rfl rfl
  · have hacc := h.account o'
    simp only [Deque.account, hlim, hwin, hpc, held] at hacc
    show (s.returned.map some).count o' + weight (fun p => p.held.count o') s.thieves +
      (o.toList.map some).count o' + (Queue.window s.get (s.top + 1) (s.top + 1)).count o' =
        (s.pushed.map some).count o'
    rw [← hacc, window_of_le le_rfl, hget rfl, hx]
    simp only [toList_some, map_cons, map_nil]
    omega

lemma Inv.popRestore (h : s.Inv) {o : Option α} (hpc : s.owner = .popRestore t o) :
    { s with bottom := t + 1, owner := .idle, returned := s.returned ++ o.toList }.Inv := by
  have ho := h.owner
  simp only [OwnerOk, hpc] at ho
  have hlim : s.limit = t + 1 := by simp [limit, hpc]
  have hk : Keeps s { s with
      bottom := t + 1, owner := .idle, returned := s.returned ++ o.toList } := by
    refine ⟨rfl, rfl, le_rfl, fun _ _ _ _ _ => rfl, fun _ _ _ => rfl, ?_, fun _ _ _ _ _ => rfl⟩
    intro q _ k _ _ hfree
    simp only [Free, single, hpc] at hfree ⊢
    split_ifs at hfree ⊢ <;> omega
  refine ⟨h.pos, ho.2.le, ?_, trivial, hk.thiefOk h, fun o' => ?_⟩
  · have := h.room
    rw [hlim] at this
    exact this
  · have hacc := h.account o'
    simp only [Deque.account, hlim, hpc, held] at hacc
    show ((s.returned ++ o.toList).map some).count o' +
      weight (fun p => p.held.count o') s.thieves + 0 +
      (Queue.window s.get s.top (t + 1)).count o' = (s.pushed.map some).count o'
    rw [← hacc, map_append, count_append]
    omega

/-- **Every step of the owner keeps the invariant.** -/
theorem Inv.owner_step (h : s.Inv) (hfit : s.Fits .owner) (hg : s.Guarded .owner)
    (hst : s.ownerStep = some s') : s'.Inv := by
  have ho := h.owner
  have htop := h.top_le
  have hsize := toNat_sub_one h.size_pos
  -- with the state taken apart, what the owner's place says is true by definition
  obtain ⟨top, bottom, active, arrays, owner, thieves, pushed, returned⟩ := s
  cases owner with
  | idle => cases hst
  | pushArray x =>
    cases hst
    exact h.goto _ rfl rfl rfl id
  | pushBottom x a =>
    cases hst
    exact h.goto _ rfl ⟨ho, rfl⟩ rfl id
  | pushTop x a b =>
    simp only [ownerStep] at hst
    split_ifs at hst with hfull <;> cases hst
    · exact h.grow rfl hfull (hfit hfull)
    · obtain ⟨rfl, rfl⟩ := ho
      refine h.goto _ rfl ⟨rfl, rfl, ?_⟩ rfl id
      dsimp only [Full] at hfull hsize
      show b + 1 < top + (arrays a).size.toNat
      omega
  | growLoad x a b i =>
    simp only [ownerStep] at hst
    obtain ⟨rfl, rfl, hcopy⟩ := ho
    split_ifs at hst with hib <;> cases hst
    · exact h.goto _ rfl ⟨rfl, rfl, hcopy, hib, rfl⟩ rfl id
    · obtain ⟨t, ht, hti, hb, hsz, hc⟩ := hcopy
      dsimp only at ht hb hsz hsize
      refine h.goto _ rfl ⟨rfl, rfl, ?_, fun j hj hj' => hc j (ht.trans hj) ?_⟩ rfl id
      · show b + 1 < top + (arrays (a + 1)).size.toNat
        omega
      · exact Nat.lt_of_lt_of_le hj' (Nat.not_lt.1 hib)
  | growStore x a b i o =>
    cases hst
    exact h.growStore rfl
  | publish x a b =>
    cases hst
    exact h.publish rfl
  | put x a b =>
    cases hst
    exact h.put rfl hg
  | storeBottom x b =>
    cases hst
    exact h.storeBottom rfl
  | fastTop =>
    cases hst
    exact h.goto _ rfl trivial rfl id
  | fastBottom t =>
    cases hst
    dsimp only
    split_ifs
    · exact h.goto _ rfl trivial rfl id
    · exact h.goto _ rfl trivial rfl id
  | decLoad =>
    cases hst
    refine h.goto _ rfl ?_ rfl id
    have hpos : 0 < top := h.pos
    have hle : top ≤ bottom := htop
    show bottom = bottom - 1 + 1
    omega
  | decStore b =>
    cases hst
    exact h.decStore rfl hg
  | popTop b =>
    cases hst
    exact h.popTop rfl
  | popReset t =>
    cases hst
    exact h.popReset rfl
  | popArray b t =>
    cases hst
    obtain ⟨hb, htb, htt, hlt⟩ := ho
    exact h.goto _ rfl ⟨hb, htb, htt, hlt, rfl⟩ rfl id
  | popSlot b t a =>
    simp only [ownerStep] at hst
    split_ifs at hst with hlt <;> cases hst
    · exact h.popLast rfl hlt
    · obtain ⟨hb, htb, htt, -, rfl⟩ := ho
      obtain rfl : t = b := by omega
      exact h.goto _ rfl ⟨hb, htt, fun _ => rfl⟩ rfl (by simp [single])
  | popCas t o =>
    simp only [ownerStep] at hst
    split_ifs at hst with heq <;> cases hst
    · exact h.popWin rfl heq
    · have hle : top ≤ t + 1 := htop
      have hge : t ≤ top := ho.2.1
      exact h.goto _ rfl ⟨ho.1, by show top = t + 1; omega⟩ rfl id
  | popRestore t o =>
    cases hst
    exact h.popRestore rfl

end Owner

section Thieves

variable {s s' : Deque α} {i k : ℕ} {p p' : ThiefPc α}

variable {xs : List α}

lemma OwnerOk.advance (ho : s.OwnerOk) (hk : 0 < k) (hfree : s.Free s.top k)
    {ps : List (ThiefPc α)} :
    { s with top := s.top + k, thieves := ps, returned := xs }.OwnerOk := by
  unfold Free at hfree
  cases hpc : s.owner with
  | idle | pushArray | fastTop | fastBottom | decLoad => trivial
  | pushBottom x a | pushTop x a b | decStore b | popTop b =>
    simpa [OwnerOk, hpc] using ho
  | growLoad x a b i =>
    simp only [OwnerOk, hpc] at ho ⊢
    obtain ⟨ha, hb, t, ht, hc⟩ := ho
    exact ⟨ha, hb, t, ht.trans (Nat.le_add_right _ _), hc⟩
  | growStore x a b i o =>
    simp only [OwnerOk, hpc] at ho ⊢
    obtain ⟨ha, hb, ⟨t, ht, hc⟩, hi, ho⟩ := ho
    exact ⟨ha, hb, ⟨t, ht.trans (Nat.le_add_right _ _), hc⟩, hi, ho⟩
  | publish x a b =>
    simp only [OwnerOk, hpc] at ho ⊢
    obtain ⟨ha, hb, hroom, hc⟩ := ho
    exact ⟨ha, hb, by omega, fun j hj hj' => hc j (by omega) hj'⟩
  | put x a b =>
    simp only [OwnerOk, hpc] at ho ⊢
    obtain ⟨ha, hb, hroom⟩ := ho
    exact ⟨ha, hb, by omega⟩
  | storeBottom x b =>
    simp only [OwnerOk, hpc] at ho ⊢
    obtain ⟨hb, hroom, hx⟩ := ho
    exact ⟨hb, by omega, hx⟩
  | popReset t | popRestore t o =>
    -- nothing is left to be claimed
    simp only [OwnerOk, hpc] at ho
    simp only [single, hpc] at hfree
    split_ifs at hfree <;> omega
  | popArray b t =>
    simp only [OwnerOk, hpc] at ho ⊢
    simp only [single, hpc] at hfree
    obtain ⟨hb, htb, htt, hlt⟩ := ho
    refine ⟨hb, htb, by omega, fun hlt => ?_⟩
    split_ifs at hfree <;> omega
  | popSlot b t a =>
    simp only [OwnerOk, hpc] at ho ⊢
    simp only [single, hpc] at hfree
    obtain ⟨hb, htb, htt, hlt, ha⟩ := ho
    refine ⟨hb, htb, by omega, fun hlt => ?_, ha⟩
    split_ifs at hfree <;> omega
  | popCas t o =>
    simp only [OwnerOk, hpc] at ho ⊢
    exact ⟨ho.1, by omega, fun heq => by omega⟩

variable [DecidableEq α]

lemma Inv.move (h : s.Inv) (hi : s.thieves[i]? = some p) (hok : s.ThiefOk p')
    (hheld : p'.held = p.held) : (s.move i p').Inv where
  __ := h
  thieves := forall_mem_set h.thieves hok
  account := by
    intro o
    have hw := weight_set (fun p : ThiefPc α => p.held.count o) hi p'
    simp only [hheld, Nat.add_right_cancel_iff] at hw
    have hacc := h.account o
    unfold Deque.account at hacc ⊢
    rw [← hw] at hacc
    exact hacc

lemma Inv.claim (h : s.Inv) (hi : s.thieves[i]? = some p) (hk : 0 < k) (hfree : s.Free s.top k)
    (hp : p.held = []) {q : ThiefPc α}
    (hok : { s with
      top := s.top + k, thieves := s.thieves.set i q, returned := xs }.ThiefOk q)
    (hacc : ∀ o, (xs.map some).count o + q.held.count o =
      (s.returned.map some).count o + (Queue.window s.get s.top (s.top + k)).count o) :
    { s with top := s.top + k, thieves := s.thieves.set i q, returned := xs }.Inv := by
  have hle := hfree.le_limit h.owner
  refine ⟨Nat.add_pos_left h.pos k, hle, ?_, h.owner.advance hk hfree, ?_, fun o => ?_⟩
  · have := h.room
    show s.limit + 1 ≤ s.top + k + (s.arrays s.activeArray).size.toNat
    omega
  · refine forall_mem_set (fun q hq => ?_) hok
    exact (h.thieves q hq).of_top_lt (Nat.lt_add_of_pos_right hk) rfl rfl
  · rw [← h.account o]
    have hw := weight_set (fun p : ThiefPc α => p.held.count o) hi q
    simp only [hp, count_nil] at hw
    show (xs.map some).count o + weight (fun p => p.held.count o) (s.thieves.set i q) +
      s.owner.held.count o + (Queue.window s.get (s.top + k) s.limit).count o = _
    unfold Deque.account
    rw [Queue.window_append (Nat.le_add_right s.top k) hle, count_append]
    have := hacc o
    omega

omit [DecidableEq α] in
lemma map_some_reduceOption {os : List (Option α)} (h : ∀ o ∈ os, ∃ x, o = some x) :
    os.reduceOption.map some = os := by
  induction os with
  | nil => rfl
  | cons o os ih =>
    obtain ⟨x, rfl⟩ := h o (mem_cons_self)
    rw [reduceOption_cons_of_some, map_cons, ih fun o ho => h o (mem_cons_of_mem _ ho)]

lemma Inv.yield (h : s.Inv) {t a : ℕ} {claimed out : List (Option α)}
    (hi : s.thieves[i]? = some (.halfRead t a claimed out)) : (s.yield i claimed).Inv := by
  have hsome : ∀ o ∈ claimed, ∃ x, o = some x := by
    intro o ho
    refine h.exists_eq_some ?_
    have hle : claimed.count o ≤ _ :=
      le_weight_of_getElem? (fun p : ThiefPc α => p.held.count o) hi
    have : 0 < claimed.count o := count_pos_iff.2 ho
    unfold Deque.account
    omega
  refine ⟨h.pos, h.top_le, h.room, h.owner, forall_mem_set h.thieves trivial, fun o => ?_⟩
  have hw : _ + claimed.count o = _ + 0 :=
    weight_set (fun p : ThiefPc α => p.held.count o) hi .done
  have hacc := h.account o
  unfold Deque.account at hacc
  show ((s.returned ++ claimed.reduceOption).map some).count o +
    weight (fun p => p.held.count o) (s.thieves.set i .done) + s.owner.held.count o +
    (Queue.window s.get s.top s.limit).count o = (s.pushed.map some).count o
  rw [map_append, map_some_reduceOption hsome, count_append, ← hacc]
  omega

/-- **Every step of a thief keeps the invariant.** -/
theorem Inv.thief_step (h : s.Inv) (hi : s.thieves[i]? = some p)
    (hst : s.thiefStep i p = some s') : s'.Inv := by
  have hp := h.thieves p (mem_of_getElem? hi)
  cases p with
  | fastTop =>
    cases hst
    exact h.move hi trivial rfl
  | fastBottom t =>
    cases hst
    split_ifs
    · exact h.move hi trivial rfl
    · exact h.move hi trivial rfl
  | top =>
    cases hst
    exact h.move hi (le_refl s.top) rfl
  | bottom t =>
    cases hst
    split_ifs with hlt
    · exact h.move hi ⟨hp, fun _ => free_of_le_bottom h.owner hlt⟩ rfl
    · exact h.move hi trivial rfl
  | array t =>
    cases hst
    exact h.move hi ⟨le_rfl, hp, fun _ _ _ _ => rfl⟩ rfl
  | slot t a =>
    cases hst
    obtain ⟨-, ha, hs⟩ := hp
    exact h.move hi ⟨ha, fun heq => hs heq t le_rfl (Nat.lt_succ_self t)⟩ rfl
  | cas t o =>
    obtain ⟨⟨-, hfree⟩, ho⟩ := hp
    simp only [thiefStep] at hst
    split_ifs at hst with heq
    · cases hst
      subst heq
      have hwin := window_succ_right (f := s.get) (le_refl s.top)
      rw [window_of_le le_rfl, nil_append] at hwin
      obtain ⟨x, rfl⟩ : ∃ x, o = some x := by
        refine h.exists_eq_some ?_
        rw [Deque.account, Queue.window_append (Nat.le_succ s.top)
          ((hfree rfl).le_limit h.owner), hwin, ho rfl, count_append,
          count_singleton_self]
        omega
      refine h.claim hi Nat.one_pos (hfree rfl) rfl trivial fun o' => ?_
      rw [hwin, ← ho rfl, map_append, count_append]
      rfl
    · cases hst
      exact h.move hi trivial rfl
  | halfFastBottom max =>
    cases hst
    exact h.move hi hp rfl
  | halfFastTop max b =>
    cases hst
    split_ifs
    · exact h.move hi trivial rfl
    · exact h.move hi hp rfl
  | halfTop max =>
    cases hst
    exact h.move hi ⟨hp, le_refl s.top⟩ rfl
  | halfBottom max t =>
    cases hst
    refine h.move hi ⟨hp.1, hp.2, fun hlt => ⟨hp.2, fun _ => free_of_le_bottom h.owner ?_⟩⟩ rfl
    have : toSteal (s.bottom - t) max ≤ s.bottom - t := toSteal_le (Nat.sub_pos_of_lt hlt)
    omega
  | halfArray max t b =>
    cases hst
    split_ifs with hle
    · exact h.move hi trivial rfl
    · exact h.move hi ⟨toSteal_pos hp.1, le_rfl, hp.2.2 (by omega), fun _ _ _ _ => rfl⟩ rfl
  | halfCas t k a =>
    obtain ⟨hk, ha, ⟨-, hfree⟩, hs⟩ := hp
    simp only [thiefStep] at hst
    split_ifs at hst with heq
    · obtain rfl := some.inj hst
      subst heq
      refine h.claim hi hk
        (hfree rfl) rfl ⟨ha, by simpa using hk, rfl, fun j _ hj => ?_⟩ fun o => rfl
      rw [Queue.length_window] at hj
      rw [getElem?_window (by omega)]
      exact congrArg some (hs rfl (s.top + j) (by omega) (by omega)).symm
    · cases hst
      exact h.move hi trivial rfl
  | halfRead t a claimed out =>
    obtain ⟨ha, hlt, hout, hcl⟩ := hp
    have hread := hcl out.length le_rfl hlt
    have htake : out ++ [getCircularArray (s.arrays a) (t + out.length)] =
        claimed.take (out.length + 1) := by
      rw [take_add_one, hread, ← hout]
      rfl
    simp only [thiefStep, length_append, length_singleton] at hst
    split_ifs at hst with hmore
    · cases hst
      refine h.move hi ⟨ha, by simpa using hmore, ?_, fun j hj hj' => hcl j ?_ hj'⟩ rfl
      · rw [htake, length_take, Nat.min_eq_left hlt]
      · simp only [length_append] at hj
        omega
    · cases hst
      rw [htake, take_of_length_le (by omega)]
      exact h.yield hi
  | done => simp [thiefStep] at hst

end Thieves

end Deque

end Arts
