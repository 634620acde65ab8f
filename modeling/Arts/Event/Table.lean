import Arts.Event.Overflow

/-!
# The table of dependents

With at most `2 ^ 32 - 4` dependents, the list `k` holds the positions from `4 * (2 ^ k - 1)` on,
and is appended by the registration of its first position.
-/

namespace Arts

open List EventCall Event

/-- The size of the list `k`. -/
def listCapacity (k : ℕ) : ℕ := 4 * 2 ^ k

/-- The first position in the list `k`. -/
def listOffset (k : ℕ) : ℕ := 4 * (2 ^ k - 1)

@[simp] lemma listOffset_zero : listOffset 0 = 0 := rfl

lemma listCapacity_succ (k : ℕ) : listCapacity (k + 1) = listCapacity k * 2 := by
  simp only [listCapacity]
  omega

lemma listOffset_succ (k : ℕ) : listOffset (k + 1) = listOffset k + listCapacity k := by
  simp only [listOffset, listCapacity]
  omega

lemma lt_of_listOffset_lt {k : ℕ} (h : listOffset k < dependentCap) : k < 30 := by
  by_contra hk
  have : 2 ^ 30 ≤ 2 ^ k := Nat.pow_le_pow_right (by decide) (Nat.le_of_not_lt hk)
  simp only [listOffset, dependentCap] at h
  omega

lemma listCapacity_lt {k : ℕ} (h : k < 30) : listCapacity k < 2 ^ 32 := by
  have : 2 ^ k ≤ 2 ^ 29 := Nat.pow_le_pow_right (by decide) (by omega)
  simp only [listCapacity]
  omega

namespace Event

/-- The chain of lists as a table for the dependents registered so far. -/
structure Shaped (e : Event) : Prop where
  few : e.dependentCount.toNat ≤ dependentCap
  head : 0 < e.lists.length
  size : ∀ k < e.lists.length, (e.listSize k).toNat = listCapacity k
  next : ∀ k < e.lists.length, e.listNext k = if k + 1 < e.lists.length then some (k + 1) else none
  used : ∀ k < e.lists.length, k = 0 ∨ listOffset k < e.dependentCount.toNat
  written : ∀ k j, (e.entry k j).doneWriting → (e.entry k j).dependent.isSome

/-- What calls on their way through the lists rely on: lists and entries do not go away. -/
structure Extends (e e' : Event) : Prop where
  length : e.lists.length ≤ e'.lists.length
  count : e.dependentCount.toNat ≤ e'.dependentCount.toNat
  written : ∀ k j, (e.entry k j).dependent.isSome → (e'.entry k j).dependent.isSome
  published : ∀ k j, (e.entry k j).doneWriting → (e'.entry k j).doneWriting

lemma count_succ {e : Event} (hlt : e.dependentCount.toNat < dependentCap) :
    (e.dependentCount + 1).toNat = e.dependentCount.toNat + 1 := by
  rw [UInt32.toNat_add, UInt32.toNat_one, Nat.mod_eq_of_lt]
  simp only [dependentCap] at hlt
  omega

lemma Extends.fetchAdd {e : Event} (hlt : e.dependentCount.toNat < dependentCap) :
    Extends e { e with dependentCount := e.dependentCount + 1 } where
  length := Nat.le_refl _
  count := by simp [count_succ hlt]
  written _ _ h := h
  published _ _ h := h

lemma Extends.refl (e : Event) : Extends e e :=
  ⟨Nat.le_refl _, Nat.le_refl _, fun _ _ h => h, fun _ _ h => h⟩

lemma Extends.modifyEntry (e : Event) {k : ℕ} (j : ℕ) {f : Entry → Entry}
    (hk : k < e.lists.length) (hd : ∀ x : Entry, x.dependent.isSome → (f x).dependent.isSome)
    (hw : ∀ x : Entry, x.doneWriting → (f x).doneWriting) : Extends e (e.modifyEntry k j f) where
  length := by simp
  count := Nat.le_refl _
  written m n h := by
    by_cases hmn : m = k ∧ n = j
    · obtain ⟨rfl, rfl⟩ := hmn
      rw [entry_modifyEntry_self e m n f hk]
      exact hd _ h
    · rwa [entry_modifyEntry_of_ne e k j f hmn]
  published m n h := by
    by_cases hmn : m = k ∧ n = j
    · obtain ⟨rfl, rfl⟩ := hmn
      rw [entry_modifyEntry_self e m n f hk]
      exact hw _ h
    · rwa [entry_modifyEntry_of_ne e k j f hmn]

lemma Extends.growList (e : Event) (k : ℕ) : Extends e (e.growList k) where
  length := by simp
  count := Nat.le_refl _
  written m n h := by simpa using h
  published m n h := by simpa using h

namespace Shaped

variable {e : Event}

lemma create (type : EventType) (latchCount : UInt32) : Shaped (create type latchCount) where
  few := Nat.zero_le _
  head := Nat.zero_lt_one
  size k hk := by
    obtain rfl : k = 0 := by simpa [Event.create] using hk
    rfl
  next k hk := by
    obtain rfl : k = 0 := by simpa [Event.create] using hk
    rfl
  used k hk := .inl (by simpa [Event.create] using hk)
  written k j h := by
    rcases Nat.eq_zero_or_pos k with rfl | hk
    · simp [Event.create, entry, DependentList.calloc] at h
    · have hlen : (Event.create type latchCount).lists.length ≤ k := hk
      simp [entry, hlen] at h

lemma fetchAdd (h : e.Shaped) (hlt : e.dependentCount.toNat < dependentCap) :
    Shaped { e with dependentCount := e.dependentCount + 1 } where
  few := by
    rw [show (e.dependentCount + 1).toNat = _ from count_succ hlt]
    exact hlt
  __ := h
  used k hk := by
    rw [show (e.dependentCount + 1).toNat = _ from count_succ hlt]
    exact (h.used k hk).imp_right Nat.lt_succ_of_lt

lemma modifyEntry (h : e.Shaped) {k : ℕ} (j : ℕ) {f : Entry → Entry} (hk : k < e.lists.length)
    (hf : (f (e.entry k j)).dependent.isSome) : Shaped (e.modifyEntry k j f) where
  few := h.few
  head := by simpa using h.head
  size m hm := by simpa using h.size m (by simpa using hm)
  next m hm := by simpa using h.next m (by simpa using hm)
  used m hm := h.used m (by simpa using hm)
  written m n hw := by
    by_cases hmn : m = k ∧ n = j
    · obtain ⟨rfl, rfl⟩ := hmn
      rwa [entry_modifyEntry_self e m n f hk]
    · rw [entry_modifyEntry_of_ne e k j f hmn] at hw ⊢
      exact h.written m n hw

lemma growList (h : e.Shaped) {k : ℕ} (hk : k + 1 = e.lists.length)
    (hlt : listOffset (k + 1) < e.dependentCount.toNat) : Shaped (e.growList k) where
  few := h.few
  head := by simp
  size m hm := by
    rcases Nat.lt_succ_iff_lt_or_eq.1 (by simpa using hm) with hm | rfl
    · rw [listSize_growList_of_lt e k hm, h.size m hm]
    · have hcap := listCapacity_lt (lt_of_listOffset_lt (Nat.lt_of_lt_of_le hlt h.few))
      rw [listSize_growList_length, UInt32.toNat_mul, h.size k (by omega), ← hk]
      rw [listCapacity_succ] at hcap ⊢
      exact Nat.mod_eq_of_lt hcap
  next m hm := by
    rw [length_growList] at hm ⊢
    by_cases hmk : m = k
    · rw [hmk, listNext_growList_self e k (by omega), if_pos (by omega), hk]
    · rw [listNext_growList_of_ne e k hmk]
      rcases Nat.lt_or_ge m e.lists.length with hm' | hm'
      · rw [h.next m hm', if_pos (by omega), if_pos (by omega)]
      · rw [listNext_eq_none hm', if_neg (by omega)]
  used m hm := by
    rcases Nat.lt_succ_iff_lt_or_eq.1 (by simpa using hm) with hm | rfl
    · exact h.used m hm
    · exact .inr (hk ▸ hlt)
  written m n hw := by
    rw [entry_growList] at hw ⊢
    exact h.written m n hw

lemma next_eq (h : e.Shaped) {k n : ℕ} (hk : k < e.lists.length) (hn : e.listNext k = some n) :
    n = k + 1 ∧ k + 1 < e.lists.length := by
  rw [h.next k hk] at hn
  split_ifs at hn with hlt
  exact ⟨(Option.some.inj hn).symm, hlt⟩

lemma last_of_next (h : e.Shaped) {k : ℕ} (hk : k < e.lists.length) (hn : e.listNext k = none) :
    k + 1 = e.lists.length := by
  rw [h.next k hk] at hn
  split_ifs at hn
  omega

end Shaped

end Event

/-! ### Where the calls are -/

def RegisterPc.position : RegisterPc → Option ℕ
  | .fetchAdd => none
  | .walk p _ _ | .alloc p _ _ | .awaitNext p _ _ | .write p _ _ | .publish p _ _ => some p.toNat
  | .testFired p | .awaitPos p | .comparePos p | .signal p | .done p _ => some p.toNat

def RegisterPc.Placed (e : Event) : RegisterPc → Prop
  | .walk p k r => k < e.lists.length ∧ listOffset k + r.toNat = p.toNat
  | .alloc p k r =>
    k + 1 = e.lists.length ∧ r.toNat = listCapacity k ∧ listOffset k + r.toNat = p.toNat
  | .awaitNext p k r =>
    k < e.lists.length ∧ listCapacity k ≤ r.toNat ∧ listOffset k + r.toNat = p.toNat
  | .write p k j => k < e.lists.length ∧ listOffset k + j.toNat = p.toNat
  | .publish p k j => k < e.lists.length ∧ listOffset k + j.toNat = p.toNat ∧
      (e.entry k j.toNat).dependent.isSome
  | _ => True

def SatisfyPc.Placed (e : Event) : SatisfyPc → Prop
  | .writePos last => last.toNat ≤ e.dependentCount.toNat
  | .fire last i j k total => last.toNat ≤ e.dependentCount.toNat ∧ i.toNat ≤ last.toNat ∧
      k < e.lists.length ∧ total.toNat = listOffset k ∧ j.toNat ≤ listCapacity k ∧
      listOffset k + j.toNat = i.toNat
  | .signal last i j k total => last.toNat ≤ e.dependentCount.toNat ∧ i.toNat < last.toNat ∧
      k < e.lists.length ∧ total.toNat = listOffset k ∧ j.toNat < listCapacity k ∧
      listOffset k + j.toNat = i.toNat ∧ (e.entry k j.toNat).doneWriting
  | .awaitNext last i k total => last.toNat ≤ e.dependentCount.toNat ∧ i.toNat < last.toNat ∧
      k < e.lists.length ∧ total = i ∧ i.toNat = listOffset (k + 1)
  | _ => True

namespace EventCall

def position : EventCall → Option ℕ
  | .register _ pc => pc.position
  | .satisfy _ _ _ => none

def Placed (e : Event) : EventCall → Prop
  | .register _ pc => pc.Placed e
  | .satisfy _ _ pc => pc.Placed e

def allocates : EventCall → Bool
  | .register _ (.alloc _ _ _) => true
  | _ => false

lemma Placed.mono {e e' : Event} {c : EventCall} (h : c.Placed e) (hx : e.Extends e')
    (hlen : c.allocates = true → e.lists.length = e'.lists.length) : c.Placed e' := by
  have hl := hx.length
  have hn := hx.count
  cases c with
  | register d pc =>
    cases pc with
    | walk p k r | awaitNext p k r | write p k j => exact ⟨by have := h.1; omega, h.2⟩
    | alloc p k r => exact ⟨h.1.trans (hlen rfl), h.2⟩
    | publish p k j => exact ⟨by have := h.1; omega, h.2.1, hx.written k _ h.2.2⟩
    | _ => trivial
  | satisfy slot data pc =>
    cases pc with
    | writePos last => exact Nat.le_trans h hn
    | fire last i j k total | awaitNext last i k total =>
      obtain ⟨hlast, hi, hk, hplace⟩ := h
      exact ⟨by omega, hi, by omega, hplace⟩
    | signal last i j k total =>
      obtain ⟨hlast, hi, hk, htotal, hj, hplace, hw⟩ := h
      exact ⟨by omega, hi, by omega, htotal, hj, hplace, hx.published k _ hw⟩
    | _ => trivial

/-- A registration that is about to take a position, with no position left. -/
def Overflows (e : Event) : EventCall → Prop
  | .register _ .fetchAdd => dependentCap ≤ e.dependentCount.toNat
  | _ => False

section Step

variable {e e' : Event} {c c' : EventCall} {eff : Option Effect}

lemma shaped_step (hs : e.Shaped) (hp : c.Placed e)
    (hlt : ∀ p, c.position = some p → p < e.dependentCount.toNat) (ho : ¬ c.Overflows e)
    (h : c.step e = some (e', c', eff)) : e'.Shaped ∧ e.Extends e' := by
  cases c with
  | register d pc =>
    obtain ⟨pc', dl, hst, rfl, -⟩ := step_register h
    cases hst with
    | fetchAdd =>
      have hroom := Nat.lt_of_not_le ho
      exact ⟨hs.fetchAdd hroom, .fetchAdd hroom⟩
    | @alloc p k r =>
      obtain ⟨hk, hr, hpos⟩ := hp
      have hn := hlt p.toNat rfl
      exact ⟨hs.growList hk (by rw [listOffset_succ]; omega), .growList e k⟩
    | @write p k j =>
      exact ⟨hs.modifyEntry _ hp.1 rfl, .modifyEntry e _ hp.1 (fun _ _ => rfl) fun _ hw => hw⟩
    | @publish p k j =>
      exact ⟨hs.modifyEntry _ hp.1 hp.2.2, .modifyEntry e _ hp.1 (fun _ hd => hd) fun _ _ => rfl⟩
    | _ => exact ⟨hs, .refl e⟩
  | satisfy slot data pc =>
    obtain ⟨pc', hst, -⟩ := step_satisfy h
    cases hst <;> exact ⟨{ hs with },
      ⟨Nat.le_refl _, Nat.le_refl _, fun _ _ hd => hd, fun _ _ hw => hw⟩⟩

lemma placed_register {d : Dependent} {pc pc' : RegisterPc} {dl : Option Delivery}
    (hs : e.Shaped) (hp : pc.Placed e) (hst : RegisterStep e d pc e' pc' dl) : pc'.Placed e' := by
  cases hst with
  | fetchAdd => exact ⟨hs.head, by simp⟩
  | @missing p k r hle hz hn =>
    obtain ⟨hk, hpos⟩ := hp
    refine ⟨hs.last_of_next hk hn, ?_, hpos⟩
    have hsize := hs.size k hk
    have hsub := congrArg UInt32.toNat hz
    rw [UInt32.toNat_sub_of_le _ _ hle] at hsub
    rw [UInt32.le_iff_toNat_le] at hle
    simp only [UInt32.toNat_zero] at hsub
    omega
  | @onward p k r hle hn =>
    obtain ⟨hk, hpos⟩ := hp
    rw [UInt32.le_iff_toNat_le, hs.size k hk] at hle
    exact ⟨hk, hle, hpos⟩
  | found hlt => exact hp
  | @alloc p k r =>
    obtain ⟨hk, hr, hpos⟩ := hp
    exact ⟨by rw [length_growList]; omega, Nat.le_of_eq hr.symm, hpos⟩
  | @follow p k r n hn =>
    obtain ⟨hk, hle, hpos⟩ := hp
    obtain ⟨rfl, hk'⟩ := hs.next_eq hk hn
    have hsize := hs.size k hk
    have hle' : e.listSize k ≤ r := by rwa [UInt32.le_iff_toNat_le, hsize]
    refine ⟨hk', ?_⟩
    rw [listOffset_succ, UInt32.toNat_sub_of_le _ _ hle']
    omega
  | @write p k j =>
    refine ⟨by simpa using hp.1, hp.2, ?_⟩
    rw [entry_modifyEntry_self _ _ _ _ hp.1]
    rfl
  | _ => trivial

lemma placed_satisfy {slot : UInt32} {data : Guid} {pc pc' : SatisfyPc}
    (hs : e.Shaped) (hp : pc.Placed e) (hst : SatisfyStep e slot data pc e' pc' eff) :
    pc'.Placed e' := by
  have hcap : ∀ last : UInt32, last.toNat ≤ e.dependentCount.toNat → last.toNat < 2 ^ 32 - 3 := by
    intro last hlast
    have hfew := hs.few
    simp only [dependentCap] at hfew
    omega
  cases hst with
  | pass =>
    unfold SatisfyPc.ofSlot
    split_ifs <;> trivial
  | add | sub => split_ifs <;> trivial
  | readCount => exact Nat.le_refl _
  | @writePos last =>
    unfold SatisfyPc.afterFire
    split_ifs
    · exact ⟨hp, Nat.zero_le _, hs.head, rfl, Nat.zero_le _, rfl⟩
    · trivial
    · trivial
  | @ready last i j k total hi hj hw =>
    obtain ⟨hlast, -, hk, htotal, -, hplace⟩ := hp
    exact ⟨hlast, hi, hk, htotal, hs.size k hk ▸ hj, hplace, hw⟩
  | finish =>
    unfold SatisfyPc.afterFire
    split_ifs <;> trivial
  | @leaveList last i j k total hi hj =>
    obtain ⟨hlast, -, hk, htotal, hj', hplace⟩ := hp
    have hlt := hcap last hlast
    rw [UInt32.lt_iff_toNat_lt] at hi hj
    rw [hs.size k hk] at hj
    have hi' : i.toNat = listOffset (k + 1) := by
      rw [listOffset_succ]
      omega
    refine ⟨hlast, hi, hk, ?_, hi'⟩
    rw [← UInt32.toNat_inj, UInt32.toNat_add, hs.size k hk, htotal, ← listOffset_succ, ← hi']
    exact Nat.mod_eq_of_lt i.toNat_lt
  | @signal last i j k total =>
    obtain ⟨hlast, hi, hk, htotal, hj, hplace, -⟩ := hp
    have hlt := hcap last hlast
    have hi' : (i + 1).toNat = i.toNat + 1 := by
      rw [UInt32.toNat_add, UInt32.toNat_one, Nat.mod_eq_of_lt (by omega)]
    have hj' : (j + 1).toNat = j.toNat + 1 := by
      rw [UInt32.toNat_add, UInt32.toNat_one, Nat.mod_eq_of_lt (by omega)]
    exact ⟨hlast, by omega, hk, htotal, by omega, by omega⟩
  | @follow last i k total n hn =>
    obtain ⟨hlast, hi, hk, rfl, hplace⟩ := hp
    obtain ⟨rfl, hk'⟩ := hs.next_eq hk hn
    exact ⟨hlast, Nat.le_of_lt hi, hk', hplace, by simp, by simp [hplace]⟩
  | _ => trivial

lemma position_step (h : c.step e = some (e', c', eff)) :
    c'.position = c.position ∧ e'.dependentCount = e.dependentCount ∨
      (∃ d, c = .register d .fetchAdd) ∧ c'.position = some e.dependentCount.toNat ∧
        e'.dependentCount = e.dependentCount + 1 := by
  cases c with
  | register d pc =>
    obtain ⟨pc', dl, hst, rfl, -⟩ := step_register h
    cases hst with
    | fetchAdd => exact .inr ⟨⟨d, rfl⟩, rfl, rfl⟩
    | _ => exact .inl ⟨rfl, rfl⟩
  | satisfy slot data pc =>
    obtain ⟨pc', hst, rfl⟩ := step_satisfy h
    cases hst <;> exact .inl ⟨rfl, rfl⟩

/-- What a step writes into an entry: the dependent of the moving registration, at its place. -/
theorem entry_step (h : c.step e = some (e', c', eff)) (hp : c.Placed e) {k j : ℕ} {d : Dependent}
    (hd : (e'.entry k j).dependent = some d) :
    (e.entry k j).dependent = some d ∨ ∃ pc, c = .register d pc ∧
      pc.position = some (listOffset k + j) := by
  cases c with
  | register d' pc =>
    obtain ⟨pc', dl, hst, rfl, -⟩ := step_register h
    cases hst with
    | @write p m n =>
      by_cases hkj : k = m ∧ j = n.toNat
      · obtain ⟨rfl, rfl⟩ := hkj
        rw [entry_modifyEntry_self _ _ _ _ hp.1] at hd
        cases hd
        exact .inr ⟨_, rfl, by rw [hp.2]; rfl⟩
      · rw [entry_modifyEntry_of_ne _ _ _ _ hkj] at hd
        exact .inl hd
    | @publish p m n =>
      by_cases hkj : k = m ∧ j = n.toNat
      · obtain ⟨rfl, rfl⟩ := hkj
        rw [entry_modifyEntry_self _ _ _ _ hp.1] at hd
        exact .inl hd
      · rw [entry_modifyEntry_of_ne _ _ _ _ hkj] at hd
        exact .inl hd
    | alloc => exact .inl (by rwa [entry_growList] at hd)
    | _ => exact .inl hd
  | satisfy slot data pc =>
    obtain ⟨pc', hst, -⟩ := step_satisfy h
    cases hst <;> exact .inl hd

end Step

end EventCall

/-! ### The invariant -/

namespace Plain

/-- The registration of `d` has the position `p`. -/
def Holds (s : Plain) (p : ℕ) (d : Dependent) : Prop :=
  ∃ pc, .register d pc ∈ s.calls ∧ pc.position = some p

/-- The lists of dependents and the calls that use them. -/
structure Table (s : Plain) : Prop where
  shaped : s.event.Shaped
  positions : (s.calls.filterMap position).Perm
    (range s.event.dependentCount.toNat)
  placed : ∀ c ∈ s.calls, c.Placed s.event
  held : ∀ k j d, (s.event.entry k j).dependent = some d → s.Holds (listOffset k + j) d

namespace Table

variable {s s' : Plain}

lemma create (type : EventType) (latchCount : UInt32) : Table (create type latchCount) where
  shaped := .create type latchCount
  positions := by simp [Plain.create, Event.create]
  placed c hc := by simp [Plain.create] at hc
  held k j d hd := by
    rcases Nat.eq_zero_or_pos k with rfl | hk
    · simp [Plain.create, Event.create, entry, DependentList.calloc] at hd
    · have hlen : (Event.create type latchCount).lists.length ≤ k := hk
      simp [Plain.create, entry, hlen] at hd

lemma position_lt (h : s.Table) {c : EventCall} (hc : c ∈ s.calls) {p : ℕ}
    (hp : c.position = some p) : p < s.event.dependentCount.toNat :=
  mem_range.1 (h.positions.subset (mem_filterMap.2 ⟨c, hc, hp⟩))

lemma index_eq (h : s.Table) {i j : ℕ} {c d : EventCall} {p : ℕ} (hi : s.calls[i]? = some c)
    (hj : s.calls[j]? = some d) (hc : c.position = some p) (hd : d.position = some p) : i = j :=
  index_eq_of_filterMap_nodup (h.positions.nodup_iff.2 nodup_range) hi hj hc hd

lemma exists_holds (h : s.Table) {p : ℕ} (hp : p < s.event.dependentCount.toNat) :
    ∃ d, s.Holds p d := by
  obtain ⟨c, hc, hpos⟩ := mem_filterMap.1 (h.positions.symm.subset (mem_range.2 hp))
  cases c with
  | register d pc => exact ⟨d, pc, hc, hpos⟩
  | satisfy slot data pc => cases hpos

lemma start (h : s.Table) {c : EventCall} (hc : Starts c) : Table (s.start c) := by
  have hpos : c.position = none := by
    cases c with
    | register d pc => cases hc; rfl
    | satisfy slot data pc => rfl
  have hplaced : c.Placed s.event := by
    cases c with
    | register d pc | satisfy slot data pc => cases hc; trivial
  unfold Plain.start
  split_ifs
  · refine ⟨h.shaped, ?_, forall_mem_append_singleton h.placed hplaced, fun k j d hd => ?_⟩
    · simpa [hpos] using h.positions
    · obtain ⟨pc, hmem, hp⟩ := h.held k j d hd
      exact ⟨pc, mem_append_left _ hmem, hp⟩
  · exact h

section Step

variable {i : ℕ} {c c' : EventCall} {e' : Event} {eff : Option Effect}

lemma holds_step {p : ℕ} {d : Dependent} (hh : s.Holds p d)
    (hi : s.calls[i]? = some c) (hst : c.step s.event = some (e', c', eff)) :
    Holds ⟨e', s.present, s.calls.set i c', s.log⟩ p d := by
  obtain ⟨pc, hmem, hp⟩ := hh
  obtain ⟨j, hj⟩ := mem_iff_getElem?.1 hmem
  by_cases hij : i = j
  · subst hij
    obtain rfl : c = .register d pc := Option.some.inj (hi.symm.trans hj)
    obtain ⟨pc', dl, -, rfl, -⟩ := step_register hst
    refine ⟨pc', List.mem_set (List.getElem?_eq_some_iff.1 hi).1 _, ?_⟩
    rcases position_step hst with ⟨hpos, -⟩ | ⟨⟨d', hd'⟩, -⟩
    · exact hpos.trans hp
    · cases hd'
      cases hp
  · exact ⟨pc, mem_of_getElem? (by rw [getElem?_set_ne hij, hj]), hp⟩

lemma positions_step (h : s.Table) (hi : s.calls[i]? = some c) (ho : ¬ c.Overflows s.event)
    (hst : c.step s.event = some (e', c', eff)) :
    ((s.calls.set i c').filterMap position).Perm
      (range e'.dependentCount.toNat) := by
  rcases position_step hst with ⟨hpos, hcount⟩ | ⟨⟨d, rfl⟩, hpos, hcount⟩
  · rw [filterMap_set_of_eq hi hpos, hcount]
    exact h.positions
  · have hroom : s.event.dependentCount.toNat < dependentCap := Nat.lt_of_not_le ho
    rw [hcount, count_succ hroom, range_succ]
    exact (filterMap_set_perm hi rfl hpos).trans
      ((h.positions.cons _).trans (perm_append_singleton _ _).symm)

lemma length_eq_of_allocates (h : s.Table) (hi : s.calls[i]? = some c)
    (hst : c.step s.event = some (e', c', eff)) {j : ℕ} {d : EventCall} (hij : i ≠ j)
    (hj : s.calls[j]? = some d) (hd : d.allocates = true) :
    s.event.lists.length = e'.lists.length := by
  cases c with
  | satisfy slot data pc =>
    obtain ⟨pc', hstep, -⟩ := step_satisfy hst
    cases hstep <;> rfl
  | register dep pc =>
    obtain ⟨pc', dl, hstep, -, -⟩ := step_register hst
    cases hstep with
    | write => simp
    | publish => simp
    | @alloc p k r =>
      -- both would have the first position of the new list
      exfalso
      unfold allocates at hd
      split at hd
      · rename_i dep' p' k' r'
        obtain ⟨hk, hr, hp⟩ := h.placed _ (mem_of_getElem? hi)
        obtain ⟨hk', hr', hp'⟩ := h.placed _ (mem_of_getElem? hj)
        obtain rfl : k = k' := by omega
        exact hij (h.index_eq hi hj rfl
          (show some p'.toNat = some p.toNat by congr 1; omega))
      · cases hd
    | _ => rfl

lemma step (h : s.Table) (hi : s.calls[i]? = some c) (ho : ¬ c.Overflows s.event)
    (hst : c.step s.event = some (e', c', eff)) :
    Table ({ s with event := e', calls := s.calls.set i c' }.record eff) := by
  have hmem : c ∈ s.calls := mem_of_getElem? hi
  obtain ⟨hshaped, hx⟩ := shaped_step h.shaped (h.placed c hmem)
    (fun p hp => h.position_lt hmem hp) ho hst
  have hc' : c'.Placed e' := by
    cases c with
    | register d pc =>
      obtain ⟨pc', dl, hstep, rfl, -⟩ := step_register hst
      exact placed_register h.shaped (h.placed _ hmem) hstep
    | satisfy slot data pc =>
      obtain ⟨pc', hstep, rfl⟩ := step_satisfy hst
      exact placed_satisfy h.shaped (h.placed _ hmem) hstep
  refine ⟨?_, ?_, ?_, ?_⟩
  · simpa using hshaped
  · simpa using h.positions_step hi ho hst
  · intro d hd
    rw [record_calls] at hd
    rw [record_event]
    obtain ⟨j, hj⟩ := mem_iff_getElem?.1 hd
    rcases getElem?_set_cases hj with ⟨-, rfl⟩ | ⟨hij, hj⟩
    · exact hc'
    · exact (h.placed d (mem_of_getElem? hj)).mono hx
        (h.length_eq_of_allocates hi hst hij hj)
  · intro k j d hd
    rw [record_event] at hd
    have hold : s.Holds (listOffset k + j) d := by
      rcases entry_step hst (h.placed c hmem) hd with hd | ⟨pc, rfl, hp⟩
      · exact h.held k j d hd
      · exact ⟨pc, hmem, hp⟩
    obtain ⟨pc, hpc, hp⟩ := holds_step hold hi hst
    exact ⟨pc, by rwa [record_calls], hp⟩

lemma lost_of_overflows (h : s.Table) (hi : s.calls[i]? = some c) (ho : c.Overflows s.event)
    (hst : c.step s.event = some (e', c', eff)) :
    Lost ({ s with event := e', calls := s.calls.set i c' }.record eff) := by
  unfold Overflows at ho
  split at ho
  · obtain ⟨pc', dl, hstep, rfl, -⟩ := step_register hst
    cases hstep
    refine ⟨_, by simpa using List.mem_set (List.getElem?_eq_some_iff.1 hi).1 _, ?_⟩
    rw [record_event]
    refine ⟨h.shaped.head, ?_⟩
    have hsize : (s.event.listSize 0).toNat = 4 := h.shaped.size 0 h.shaped.head
    have hcount := Nat.le_antisymm h.shaped.few ho
    change s.event.dependentCount + s.event.listSize 0 = 0
    rw [← UInt32.toNat_inj, UInt32.toNat_add, hsize, hcount]
    rfl
  · exact ho.elim

end Step

/-- **The table of dependents**: in every reachable state the lists are in shape, or a registration
has got lost behind them. -/
theorem of_reachable {type : EventType} (hr : (machine type).Reachable s) : s.Lost ∨ s.Table := by
  refine hr.invariant (I := fun s => s.Lost ∨ s.Table) ?_ ?_
  · rintro _ ⟨latchCount, rfl⟩
    exact .inr (.create type latchCount)
  · rintro s a s' hr' (hlost | ht) hn
    · exact .inl (hlost.next (chained_of_reachable hr') hn)
    · rcases next_cases hn with ⟨c, hcs, rfl⟩ | ⟨i, c, e', c', eff, hi, hst, rfl⟩
      · exact .inr (ht.start hcs)
      · by_cases ho : c.Overflows s.event
        · exact .inl (ht.lost_of_overflows hi ho hst)
        · exact .inr (ht.step hi ho hst)

end Table

end Plain

end Arts
