import Arts.RouteTable.Insertion.Basic

/-!
# Concurrent insertion: the invariant

`HeapOk` is about the memory, `CallOk` about a call, `Apart` about two calls; `Evolves m m' c` is
all that a step of `c` may do to the memory.
-/

namespace Arts

open Option InsertCall

/-! ### What a place in the program means -/

namespace InsertPc

/-- The table and the place in it at which the call works. -/
@[simp] def place : InsertPc → Option (ℕ × ℕ)
  | scan _ t i | scanKey _ t i | probe t i | reserve t i => some (t, i)
  | readNext _ t _ | tryLock t | drain t | grow t => some (t, 0)
  | writerUnlock _ n => some (n, 0)
  | _ => none

/-- The table to which the call will go, and the one it comes from. -/
@[simp] def goes : InsertPc → Option (ℕ × ℕ)
  | readNext _ t (.leave (some n)) => some (t, n)
  | _ => none

/-- The slot that the call has reserved or fills, and whether its key is written. -/
@[simp] def owns : InsertPc → Option (SlotRef × Bool)
  | setKey p => some (p, false)
  | setData p _ | setRank p _ | writeRead p _ | writeSwap p _ _ => some (p, true)
  | _ => none

@[simp] def filled : InsertPc → Option SlotRef
  | setRank p _ | writeRead p _ | writeSwap p _ _ => some p
  | _ => none

@[simp] def seeks : InsertPc → Bool
  | probe _ _ | reserve _ _ | setKey _ | readNext .empty _ _ | readNext .again _ _ | tryLock _
  | drain _ | grow _ | writerUnlock _ _ | readNext (.scan true) _ (.leave none) => true
  | _ => false

/-- How far a search has come: slots before the `i`-th of the table `t`. -/
@[simp] def passed : InsertPc → Option (Bool × ℕ × ℕ)
  | scan locked t i | scanKey locked t i => some (locked, t, i)
  | readNext (.scan locked) t _ => some (locked, t, collisionResolves)
  | _ => none

/-- A search without the lock has come to the end of the chain. -/
@[simp] def ended : InsertPc → Bool
  | readNext (.scan false) _ (.leave none) => true
  | _ => false

@[simp] def settles : InsertPc → Bool
  | incArg _ | incRead _ _ | incSwap _ _ _ | incCheck _ _ | dec _ => true
  | release added | done _ added => added
  | _ => false

/-- The item that is counted, and the key it had. -/
@[simp] def counts : InsertPc → Option (SlotRef × Option Guid)
  | check p | incArg p => some (p, none)
  | incRead p key | incSwap p key _ | incCheck p key => some (p, some key)
  | _ => none

@[simp] def swaps : InsertPc → Option UInt64
  | incSwap _ _ seen => some seen
  | _ => none

@[simp] def locks : InsertPc → Bool
  | start | isFree | swap | scan false _ _ | scanKey false _ _ | readNext (.scan false) _ _
  | done _ _ | failed => false
  | _ => true

/-- Only a racing call comes here. -/
@[simp] def ofRace : InsertPc → Bool
  | isFree | swap | scan true _ _ | scanKey true _ _ | readNext (.scan true) _ _ | check _ | incArg _
  | incRead _ _ | incSwap _ _ _ | incCheck _ _ | dec _ | release _ => true
  | _ => false

@[simp] def ofInsert : InsertPc → Bool
  | probe _ _ | reserve _ _ | setKey _ | readNext .empty _ _ | readNext .again _ _ | tryLock _
  | drain _ | grow _ | writerUnlock _ _ | setData _ _ | setRank _ _ | writeRead _ _
  | writeSwap _ _ _ => true
  | done _ added => added
  | _ => false

lemma owns_of_filled {X : InsertPc} {p : SlotRef} (h : X.filled = some p) :
    ∃ b, X.owns = some (p, b) := by
  cases X with
  | setRank | writeRead | writeSwap =>
    cases h
    exact ⟨true, rfl⟩
  | _ => cases h

end InsertPc

namespace InsertCall

variable {δ : Type*} (c : InsertCall δ)

def inLock : Bool := c.isRace && c.pc.locks

def seeks : Bool := c.pc.seeks || c.isAdd && (c.pc = .start && c.key ≠ Guid.null)

def commits : Bool := c.seeks || c.pc.owns.isSome || c.pc.settles

variable {c}

lemma commits_of_owns {x : SlotRef × Bool} (h : c.pc.owns = some x) : c.commits := by
  simp only [commits, h, isSome_some, Bool.or_true, Bool.true_or]

end InsertCall

/-! ### Memory -/

namespace TableHeap

variable {δ : Type*} {m m' : TableHeap δ} {p : SlotRef} {key : Guid} {item : Option δ} {t i n : ℕ}

abbrev slot (m : TableHeap δ) (p : SlotRef) : Slot δ := m.tables.slotAt p

def Available (m : TableHeap δ) (p : SlotRef) (key : Guid) (item : Option δ) : Prop :=
  (∃ n < 2 ^ 61, (m.slot p).lock = word 2 n) ∧ (m.slot p).key = key ∧ (m.slot p).data = item

end TableHeap

structure HeapOk {δ : Type*} (m : TableHeap δ) : Prop where
  nonempty : 0 < m.tables.length
  links : ∀ t, m.next t = if t + 1 < m.tables.length then some (t + 1) else none
  clean : ∀ p, (m.slot p).lock = 0 ∧ (m.slot p).key = Guid.null ∨
    ∃ s n, (s = 4 ∨ s = 2) ∧ n < 2 ^ 61 ∧ (m.slot p).lock = word s n
  placed : ∀ p, (m.slot p).key ≠ Guid.null → p.1 < m.tables.length ∧
    (m.ref (m.slot p).key p.1 0).2 ≤ p.2 ∧ p.2 < (m.ref (m.slot p).key p.1 collisionResolves).2
  once : ∀ p q, (m.slot p).key = (m.slot q).key → (m.slot p).key ≠ Guid.null → p = q
  kept : ∀ key item, (key, item) ∈ m.inserted → key ≠ Guid.null ∧ ∃ p, m.Available p key item

/-! ### Calls -/

def TableHeap.Passed {δ : Type*} (m : TableHeap δ) (key : Guid) (t i : ℕ) (p : SlotRef) : Prop :=
  p.1 < t ∨ p.1 = t ∧ p.2 < (m.ref key t i).2

structure CallOk {δ : Type*} (m : TableHeap δ) (c : InsertCall δ) : Prop where
  key : c.pc ≠ .start → c.key ≠ Guid.null
  race : c.pc.ofRace → c.isRace
  insert : c.pc.ofInsert → c.isLookup = false
  place : ∀ {t i}, c.pc.place = some (t, i) → t < m.tables.length ∧ i < collisionResolves
  goes : ∀ {t n}, c.pc.goes = some (t, n) → n = t + 1 ∧ n < m.tables.length
  owns : ∀ {p b}, c.pc.owns = some (p, b) → (∃ n < 2 ^ 61, (m.slot p).lock = word 4 n) ∧
    (m.slot p).key = (if b then c.key else Guid.null) ∧ p.1 < m.tables.length ∧
    (m.ref c.key p.1 0).2 ≤ p.2 ∧ p.2 < (m.ref c.key p.1 collisionResolves).2
  filled : ∀ {p}, c.pc.filled = some p → (m.slot p).data = c.item
  seeks : c.seeks → ∀ p, (m.slot p).key ≠ c.key
  passed : ∀ {t i}, c.pc.passed = some (true, t, i) → ∀ p, m.Passed c.key t i p →
    (m.slot p).key ≠ c.key
  settles : c.pc.settles → ∃ p, m.Available p c.key c.item
  counts : ∀ {p k}, c.pc.counts = some (p, k) → (m.slot p).key = c.key ∧ k.all (· = c.key)
  swaps : ∀ {w}, c.pc.swaps = some w → checkMaxItem w ∧ ∃ s n, (s = 4 ∨ s = 2) ∧ n < 2 ^ 61 ∧ w = word s n
  noDec : ∀ p, c.pc ≠ .dec p
  lock : c.inLock → m.guidLock (guidLockIndex c.key)
  before : c.isLookup → ∀ {item}, (c.key, item) ∈ c.before → c.pc.ended = false ∧
    ∃ p, m.Available p c.key item ∧
      (∀ {l t i}, c.pc.passed = some (l, t, i) → ¬ m.Passed c.key t i p) ∧
      ∀ {r}, c.pc = .done r false → r = some p

structure Apart {δ : Type*} (c d : InsertCall δ) : Prop where
  race : c.pc ≠ .start ∨ d.pc ≠ .start → c.key = d.key → c.isLookup = false → d.isLookup = false →
    c.isRace ∧ d.isRace
  lock : c.inLock → d.inLock → guidLockIndex c.key ≠ guidLockIndex d.key
  owns : ∀ {p q b b'}, c.pc.owns = some (p, b) → d.pc.owns = some (q, b') → p ≠ q
  commits : c.commits → d.commits → c.key ≠ d.key

lemma Apart.symm {δ : Type*} {c d : InsertCall δ} (h : Apart c d) : Apart d c where
  race hs hk hc hd := (h.race hs.symm hk.symm hd hc).symm
  lock hc hd := (h.lock hd hc).symm
  owns hc hd := (h.owns hd hc).symm
  commits hc hd := (h.commits hd hc).symm

/-! ### What a step of one call does to the others -/

/-- All that a step of the call `c` may change in the memory. -/
structure Evolves {δ : Type*} (m m' : TableHeap δ) (c : InsertCall δ) : Prop where
  tables : m.tables.shape <+: m'.tables.shape
  keys : ∀ p, (m'.slot p).key = (m.slot p).key ∨
    (m.slot p).key = Guid.null ∧ (m'.slot p).key = c.key ∧ c.pc = .setKey p
  available : ∀ p n, n < 2 ^ 61 → (m.slot p).lock = word 2 n → (∃ n' < 2 ^ 61,
    (m'.slot p).lock = word 2 n') ∧ (m'.slot p).key = (m.slot p).key ∧
      (m'.slot p).data = (m.slot p).data
  reserved : ∀ p n, n < 2 ^ 61 → (m.slot p).lock = word 4 n → (∀ b, c.pc.owns ≠ some (p, b)) →
    (m'.slot p).lock = word 4 n ∧ (m'.slot p).data = (m.slot p).data
  guidLock : ∀ l, m.guidLock l → m'.guidLock l ∨ c.inLock ∧ l = guidLockIndex c.key

namespace Evolves

variable {δ : Type*} {m m' : TableHeap δ} {c d : InsertCall δ} {p : SlotRef} {key : Guid}
  {item : Option δ} {t i : ℕ}

lemma refl (m : TableHeap δ) (c : InsertCall δ) : Evolves m m c where
  tables := List.prefix_refl _
  keys _ := .inl rfl
  available _ n hn h := ⟨⟨n, hn, h⟩, rfl, rfl⟩
  reserved _ _ _ h _ := ⟨h, rfl⟩
  guidLock _ h := .inl h

lemma length_le (h : Evolves m m' c) : m.tables.length ≤ m'.tables.length := by
  have hle := h.tables.length_le
  simpa [Chain.shape] using hle

lemma ref_eq (h : Evolves m m' c) (ht : t < m.tables.length) (key : Guid) (i : ℕ) :
    m'.ref key t i = m.ref key t i := by
  have hshape : m'.tables.shape[t]? = m.tables.shape[t]? := by
    obtain ⟨l, hl⟩ := h.tables
    rw [← hl, List.getElem?_append_left (by simpa [Chain.shape] using ht)]
  have hshift : m'.tables[t]?.map (·.shift) = m.tables[t]?.map (·.shift) := by
    have := congrArg (Option.map Prod.snd) hshape
    simpa [Chain.shape, Function.comp_def] using this
  have hkey : ∀ T : Chain δ, (T[t]?.map fun T => (getRouteTableKey key T.shift).toNat) =
      (T[t]?.map (·.shift)).map fun s => (getRouteTableKey key s).toNat := by
    intro T
    rw [map_map]
    rfl
  simp [TableHeap.ref, hkey, hshift]

lemma passed_iff (h : Evolves m m' c) (ht : t < m.tables.length) :
    m'.Passed key t i p ↔ m.Passed key t i p := by
  rw [TableHeap.Passed, TableHeap.Passed, h.ref_eq ht]

lemma available_of (h : Evolves m m' c) (ha : m.Available p key item) : m'.Available p key item := by
  obtain ⟨⟨n, hn, hlock⟩, hkey, hdata⟩ := ha
  obtain ⟨hlock', hk, hd⟩ := h.available p n hn hlock
  exact ⟨hlock', hk.trans hkey, hd.trans hdata⟩

lemma key_eq (h : Evolves m m' c) (hkey : (m.slot p).key = key) (hne : key ≠ Guid.null) :
    (m'.slot p).key = key := by
  rcases h.keys p with hk | ⟨h0, -⟩
  · rw [hk, hkey]
  · exact absurd (hkey.symm.trans h0) hne

end Evolves

namespace CallOk

variable {δ : Type*} {m m' : TableHeap δ} {c d : InsertCall δ} {l : Bool} {t i : ℕ}

lemma lt_of_passed (h : CallOk m d) (hp : d.pc.passed = some (l, t, i)) : t < m.tables.length := by
  have hplace : ∃ j, d.pc.place = some (t, j) := by
    cases hpc : d.pc with
    | scan l' t' i' | scanKey l' t' i' =>
      rw [hpc] at hp
      cases hp
      exact ⟨_, rfl⟩
    | readNext why t' r =>
      rw [hpc] at hp
      cases why with
      | scan l' =>
        cases hp
        exact ⟨_, rfl⟩
      | empty | again => cases hp
    | _ => simp [hpc] at hp
  obtain ⟨j, hj⟩ := hplace
  exact (h.place hj).1

lemma inLock_of_passed (h : CallOk m d) (hp : d.pc.passed = some (true, t, i)) :
    d.isRace ∧ d.inLock := by
  have hpc : d.pc.ofRace ∧ d.pc.locks := by
    cases hpc : d.pc with
    | scan l' t' i' | scanKey l' t' i' =>
      rw [hpc] at hp
      cases hp
      exact ⟨rfl, rfl⟩
    | readNext why t' r =>
      rw [hpc] at hp
      cases why with
      | scan l' =>
        cases hp
        exact ⟨rfl, rfl⟩
      | empty | again => cases hp
    | _ => simp [hpc] at hp
  have hrace := h.race hpc.1
  exact ⟨hrace, by rw [inLock, hrace, hpc.2]; rfl⟩

/-- While a call writes its key, another call does not rely on the absence of this key. -/
theorem key_ne (hc : CallOk m c) (hd : CallOk m d) (ha : Apart c d) {p : SlotRef}
    (hpc : c.pc = .setKey p) (hd' : d.seeks ∨ d.pc.passed = some (true, t, i)) : c.key ≠ d.key := by
  rcases hd' with hseeks | hpassed
  · exact ha.commits (by simp [commits, hpc]) (by simp [commits, hseeks])
  · obtain ⟨hrace, hlock⟩ := hd.inLock_of_passed hpassed
    intro hkey
    have hnot : d.isLookup = false := by
      cases hop : d.op <;> simp [isRace, isLookup, hop] at hrace ⊢
    obtain ⟨hcr, -⟩ := ha.race (.inl (by simp [hpc])) hkey (hc.insert (by simp [hpc])) hnot
    exact ha.lock (by simp [inLock, hcr, hpc]) hlock (by rw [hkey])

/-- **A call is not disturbed by the step of another one.** -/
theorem evolves (h : CallOk m d) (hc : CallOk m c) (ha : Apart c d) (he : Evolves m m' c) :
    CallOk m' d where
  __ := h
  place hp := ⟨(h.place hp).1.trans_le he.length_le, (h.place hp).2⟩
  goes hp := ⟨(h.goes hp).1, (h.goes hp).2.trans_le he.length_le⟩
  owns := by
    intro p b hp
    obtain ⟨⟨n, hn, hlock⟩, hkey, hlt, hlo, hhi⟩ := h.owns hp
    have hne : ∀ b', c.pc.owns ≠ some (p, b') := fun b' hb => ha.owns hb hp rfl
    refine ⟨⟨n, hn, (he.reserved p n hn hlock hne).1⟩, ?_, hlt.trans_le he.length_le, ?_, ?_⟩
    · rcases he.keys p with hk | ⟨-, -, hpc⟩
      · rw [hk, hkey]
      · exact absurd (by simp [hpc]) (hne false)
    · rwa [he.ref_eq hlt]
    · rwa [he.ref_eq hlt]
  filled := by
    intro p hp
    obtain ⟨b, hb⟩ := InsertPc.owns_of_filled hp
    obtain ⟨⟨n, hn, hlock⟩, -⟩ := h.owns hb
    rw [(he.reserved p n hn hlock fun b' hb' => ha.owns hb' hb rfl).2]
    exact h.filled hp
  seeks hs p := by
    rcases he.keys p with hk | ⟨-, hk, hpc⟩
    · rw [hk]
      exact h.seeks hs p
    · rw [hk]
      exact key_ne (t := 0) (i := 0) hc h ha hpc (.inl hs)
  passed := by
    intro t i hp p hpassed
    rw [he.passed_iff (h.lt_of_passed hp)] at hpassed
    rcases he.keys p with hk | ⟨-, hk, hpc⟩
    · rw [hk]
      exact h.passed hp p hpassed
    · rw [hk]
      exact key_ne hc h ha hpc (.inr hp)
  settles hs := by
    obtain ⟨p, hp⟩ := h.settles hs
    exact ⟨p, he.available_of hp⟩
  counts := by
    intro p k hp
    have hne : d.pc ≠ .start := by
      intro hpc
      simp [hpc] at hp
    exact ⟨he.key_eq (h.counts hp).1 (h.key hne), (h.counts hp).2⟩
  lock hl := by
    rcases he.guidLock _ (h.lock hl) with hg | ⟨hcl, hidx⟩
    · exact hg
    · exact absurd hidx.symm (ha.lock hcl hl)
  before hl := by
    intro item hb
    obtain ⟨hend, p, hav, hpassed, hdone⟩ := h.before hl hb
    refine ⟨hend, p, he.available_of hav, fun hp => ?_, hdone⟩
    rw [he.passed_iff (h.lt_of_passed hp)]
    exact hpassed hp

end CallOk

end Arts
