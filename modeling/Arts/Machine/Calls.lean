import Mathlib

/-!
# Pools of calls

The `i`-th call moves by replacing the `i`-th entry of a list. `weight f cs` is the sum of `f` over
the calls, and `weight_set` says how one step changes it.
-/

namespace Arts

open List Option

variable {α β : Type*}

/-- The sum of `f` over a pool of calls. -/
def weight (f : α → ℕ) (cs : List α) : ℕ := (cs.map f).sum

@[simp] lemma weight_nil (f : α → ℕ) : weight f [] = 0 := rfl

@[simp] lemma weight_cons (f : α → ℕ) (c : α) (cs : List α) :
    weight f (c :: cs) = f c + weight f cs := by
  simp [weight]

@[simp] lemma weight_append (f : α → ℕ) (cs cs' : List α) :
    weight f (cs ++ cs') = weight f cs + weight f cs' := by
  simp [weight]

lemma weight_replicate (f : α → ℕ) (n : ℕ) (c : α) : weight f (replicate n c) = n * f c := by
  induction n with
  | zero => simp
  | succ n ih => rw [replicate_succ, weight_cons, ih, Nat.succ_mul, Nat.add_comm]

variable {cs : List α} {i : ℕ} {c : α}

lemma weight_set (f : α → ℕ) (h : cs[i]? = some c) (c' : α) :
    weight f (cs.set i c') + f c = weight f cs + f c' := by
  induction cs generalizing i with
  | nil => simp at h
  | cons a cs ih =>
    cases i with
    | zero =>
      simp only [length_cons, Nat.zero_lt_succ, getElem?_pos, getElem_cons_zero,
        some.injEq] at h
      subst h
      simp only [set_cons_zero, weight_cons]
      omega
    | succ i =>
      have := ih (by simpa using h)
      simp only [set_cons_succ, weight_cons]
      omega

lemma le_weight (f : α → ℕ) (h : c ∈ cs) : f c ≤ weight f cs := by
  induction cs with
  | nil => cases h
  | cons a cs ih =>
    rw [weight_cons]
    rcases mem_cons.1 h with rfl | h
    · omega
    · have := ih h
      omega

lemma le_weight_of_getElem? (f : α → ℕ) (h : cs[i]? = some c) : f c ≤ weight f cs :=
  le_weight f (mem_of_getElem? h)

variable {j : ℕ} {d : α}

lemma add_le_weight (f : α → ℕ) (hi : cs[i]? = some c)
    (hj : cs[j]? = some d) (hne : i ≠ j) : f c + f d ≤ weight f cs := by
  induction cs generalizing i j with
  | nil => simp at hi
  | cons a cs ih =>
    cases i with
    | zero =>
      cases j with
      | zero => exact absurd rfl hne
      | succ j =>
        have hc : a = c := by simpa using hi
        have := le_weight_of_getElem? f (by simpa using hj : cs[j]? = some d)
        simp only [weight_cons, hc]
        omega
    | succ i =>
      cases j with
      | zero =>
        have hd : a = d := by simpa using hj
        have := le_weight_of_getElem? f (by simpa using hi : cs[i]? = some c)
        simp only [weight_cons, hd]
        omega
      | succ j =>
        have := ih (by simpa using hi) (by simpa using hj) fun h => hne (by rw [h])
        simp only [weight_cons]
        omega

variable {f : α → ℕ}

lemma weight_eq_zero : weight f cs = 0 ↔ ∀ c ∈ cs, f c = 0 := by
  induction cs with
  | nil => simp
  | cons a cs ih =>
    simp only [weight_cons, mem_cons, forall_eq_or_imp, ← ih]
    omega

lemma exists_of_weight_pos (h : 0 < weight f cs) :
    ∃ c ∈ cs, 0 < f c := by
  by_contra hne
  push Not at hne
  have : weight f cs = 0 := weight_eq_zero.2 fun c hc => by have := hne c hc; omega
  omega

variable {n : ℕ}

lemma weight_le (h : ∀ c ∈ cs, f c ≤ n) : weight f cs ≤ cs.length * n := by
  induction cs with
  | nil => simp
  | cons a cs ih =>
    have ha := h a mem_cons_self
    have hcs := ih fun c hc => h c (mem_cons_of_mem _ hc)
    rw [weight_cons, length_cons, Nat.succ_mul]
    omega

lemma weight_add (f g : α → ℕ) (cs : List α) :
    weight (fun c => f c + g c) cs = weight f cs + weight g cs := by
  induction cs with
  | nil => rfl
  | cons a cs ih =>
    simp only [weight_cons]
    omega

lemma getElem?_set_cases (h : (cs.set i c)[j]? = some d) :
    i = j ∧ d = c ∨ i ≠ j ∧ cs[j]? = some d := by
  by_cases hij : i = j
  · subst hij
    have hlt : i < cs.length := by
      have := (List.getElem?_eq_some_iff.1 h).1
      rwa [length_set] at this
    rw [getElem?_set_self hlt] at h
    exact .inl ⟨rfl, (some.inj h).symm⟩
  · rw [getElem?_set_ne hij] at h
    exact .inr ⟨hij, h⟩

variable {c' : α}

/-- If at most one call has a positive weight, then after it has moved no other call has. -/
theorem eq_of_mem_set_of_weight_le_one
    (hw : weight f cs ≤ 1) (hi : cs[i]? = some c) (hc : 0 < f c) (hd : d ∈ cs.set i c')
    (hfd : 0 < f d) : d = c' := by
  obtain ⟨j, hj⟩ := mem_iff_getElem?.1 hd
  rcases getElem?_set_cases hj with ⟨-, rfl⟩ | ⟨hij, hj⟩
  · rfl
  · have := add_le_weight f hi hj hij
    omega

/-- What the calls hold does not change when the moving call holds the same as before. -/
theorem filterMap_set_of_eq {f : α → Option β}
    (h : cs[i]? = some c) (hf : f c' = f c) : (cs.set i c').filterMap f = cs.filterMap f := by
  induction cs generalizing i with
  | nil => simp at h
  | cons a cs ih =>
    cases i with
    | zero =>
      obtain rfl : a = c := by simpa using h
      simp [filterMap_cons, hf]
    | succ i => simp [filterMap_cons, ih (by simpa using h)]

variable {b : β}

lemma filterMap_set_perm {f : α → Option β}
    (h : cs[i]? = some c) (hc : f c = none) (hc' : f c' = some b) :
    ((cs.set i c').filterMap f).Perm (b :: cs.filterMap f) := by
  induction cs generalizing i with
  | nil => simp at h
  | cons a cs ih =>
    cases i with
    | zero =>
      obtain rfl : a = c := by simpa using h
      simp [hc, hc']
    | succ i =>
      have hperm := ih (by simpa using h)
      simp only [set_cons_succ, filterMap_cons]
      cases f a with
      | none => exact hperm
      | some b' => exact (hperm.cons b').trans (List.Perm.swap b b' _)

lemma index_eq_of_filterMap_nodup {f : α → Option β}
    (hnd : (cs.filterMap f).Nodup) (hi : cs[i]? = some c) (hj : cs[j]? = some d)
    (hc : f c = some b) (hd : f d = some b) : i = j := by
  rw [List.Nodup, pairwise_filterMap, pairwise_iff_getElem] at hnd
  obtain ⟨hi', rfl⟩ := List.getElem?_eq_some_iff.1 hi
  obtain ⟨hj', rfl⟩ := List.getElem?_eq_some_iff.1 hj
  rcases Nat.lt_trichotomy i j with hlt | heq | hlt
  · exact absurd rfl (hnd i j hi' hj' hlt b hc b hd)
  · exact heq
  · exact absurd rfl (hnd j i hj' hi' hlt b hd b hc)

lemma nodup_filterMap_set {f : α → Option β} (h : (cs.filterMap f).Nodup)
    (hnew : ∀ b, f c' = some b → ∀ j d, i ≠ j → cs[j]? = some d → f d ≠ some b) :
    ((cs.set i c').filterMap f).Nodup := by
  rw [List.Nodup, pairwise_filterMap, pairwise_iff_getElem] at h ⊢
  intro j k hj hk hjk b hb b' hb' heq
  subst heq
  rw [length_set] at hj hk
  rw [getElem_set] at hb hb'
  split_ifs at hb hb' with hij hik hik
  · omega
  · exact hnew b hb k _ hik (getElem?_eq_getElem hk) hb'
  · exact hnew b hb' j _ hij (getElem?_eq_getElem hj) hb
  · exact h j k hj hk hjk b hb b hb' rfl

variable {ms : List α} {m : α}

lemma eq_or_mem_eraseIdx {b : α} (h : ms[i]? = some m) (hb : b ∈ ms) :
    b = m ∨ b ∈ ms.eraseIdx i := by
  obtain ⟨j, hj⟩ := mem_iff_getElem?.1 hb
  by_cases hji : j = i
  · subst hji
    exact .inl (some.inj (hj.symm.trans h))
  · exact .inr (mem_eraseIdx_iff_getElem?.2 ⟨j, hji, hj⟩)

lemma weight_eraseIdx (f : α → ℕ) (h : ms[i]? = some m) :
    weight f (ms.eraseIdx i) + f m = weight f ms := by
  induction ms generalizing i with
  | nil => simp at h
  | cons a ms ih =>
    cases i with
    | zero =>
      obtain rfl : a = m := by simpa using h
      rw [eraseIdx_cons_zero, weight_cons, Nat.add_comm]
    | succ i =>
      have := ih (by simpa using h)
      rw [eraseIdx_cons_succ, weight_cons, weight_cons]
      omega

variable {P : α → Prop}

lemma forall_mem_set (h : ∀ d ∈ cs, P d) (hc : P c) : ∀ d ∈ cs.set i c, P d := by
  intro d hd
  rcases mem_or_eq_of_mem_set hd with hd | rfl
  · exact h d hd
  · exact hc

/-- A property of all calls after one of them has moved, where the others are known by index. -/
theorem forall_mem_set_of_ne (hc : P c)
    (h : ∀ j d, i ≠ j → cs[j]? = some d → P d) : ∀ d ∈ cs.set i c, P d := by
  intro d hd
  obtain ⟨j, hj⟩ := mem_iff_getElem?.1 hd
  rcases getElem?_set_cases hj with ⟨-, rfl⟩ | ⟨hij, hj⟩
  · exact hc
  · exact h j d hij hj

lemma exists_mem_set (hi : cs[i]? = some c)
    (h : ∃ d ∈ cs, P d) (hc : P c → P c') : ∃ d ∈ cs.set i c', P d := by
  obtain ⟨d, hd, hP⟩ := h
  obtain ⟨j, hj⟩ := mem_iff_getElem?.1 hd
  obtain ⟨hlt, -⟩ := List.getElem?_eq_some_iff.1 hi
  by_cases hij : i = j
  · subst hij
    obtain rfl := some.inj (hi.symm.trans hj)
    exact ⟨c', mem_of_getElem? (getElem?_set_self hlt), hc hP⟩
  · exact ⟨d, mem_of_getElem? ((getElem?_set_ne hij).trans hj), hP⟩

lemma forall_mem_append_singleton (h : ∀ d ∈ cs, P d) (hc : P c) : ∀ d ∈ cs ++ [c], P d := by
  intro d hd
  rcases mem_append.1 hd with hd | hd
  · exact h d hd
  · rw [mem_singleton.1 hd]
    exact hc

/-! ### A counter of the calls that still owe a decrement -/

lemma UInt32.ofNat_sub_one (hn : 0 < n) : UInt32.ofNat n - 1 = UInt32.ofNat (n - 1) := by
  obtain ⟨m, rfl⟩ := Nat.exists_eq_succ_of_ne_zero (Nat.pos_iff_ne_zero.1 hn)
  simp

/-- The counter is 0 after the last decrement and only then, also if it has wrapped at the start. -/
theorem UInt32.ofNat_sub_one_eq_zero (hn : 0 < n) (hle : n ≤ 2 ^ 32) :
    UInt32.ofNat n - 1 = 0 ↔ n = 1 := by
  have hlt : n - 1 < 2 ^ 32 := by omega
  rw [UInt32.ofNat_sub_one hn, ← UInt32.toNat_inj, UInt32.toNat_ofNat_of_lt' hlt]
  show n - 1 = 0 ↔ _
  omega

end Arts
