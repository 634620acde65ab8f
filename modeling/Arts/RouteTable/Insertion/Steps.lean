import Arts.RouteTable.Insertion.Invariant

/-!
# Concurrent insertion: the steps

A call is `searching`, `seeking` an empty slot, `owning` a slot, or `settled`; for each stage one
lemma says what is left to be shown of a call that enters it.
-/

namespace Arts

open InsertCall Guid

variable {δ : Type*} {m m' : TableHeap δ} {c c' d : InsertCall δ} {p q : SlotRef} {t i n : ℕ}

/-! ### Memory that is the same for all but the locks of tables -/

/-- Only the locks of the tables differ. -/
structure TableHeap.Quiet (m m' : TableHeap δ) : Prop where
  tables : m'.tables = m.tables
  next : m'.next = m.next
  guidLock : m'.guidLock = m.guidLock
  inserted : m'.inserted = m.inserted

namespace TableHeap.Quiet

lemma refl (m : TableHeap δ) : Quiet m m := ⟨rfl, rfl, rfl, rfl⟩

lemma setWords (m : TableHeap δ) (t : ℕ) (w : Lock.Words) : Quiet m (m.setWords t w) :=
  ⟨rfl, rfl, rfl, rfl⟩

lemma heapOk (h : Quiet m m') (hm : HeapOk m) : HeapOk m' := by
  obtain ⟨tables', next', words', guidLock', inserted'⟩ := m'
  obtain ⟨ht, hn, hg, hi⟩ := h
  subst ht hn hg hi
  exact { hm with }

lemma callOk (h : Quiet m m') (hc : CallOk m c) : CallOk m' c := by
  obtain ⟨tables', next', words', guidLock', inserted'⟩ := m'
  obtain ⟨ht, hn, hg, hi⟩ := h
  subst ht hn hg hi
  exact { hc with }

lemma evolves (h : Quiet m m') (c : InsertCall δ) : Evolves m m' c := by
  obtain ⟨tables, next, words, guidLock, inserted⟩ := m
  obtain ⟨tables', next', words', guidLock', inserted'⟩ := m'
  obtain ⟨ht, hn, hg, hi⟩ := h
  subst ht hn hg hi
  have hr := Evolves.refl (δ := δ) ⟨tables', next', words, guidLock', inserted'⟩ c
  exact { hr with }

end TableHeap.Quiet

/-! ### The stages of a call -/

namespace InsertPc

def isSeeking : InsertPc → Bool
  | probe _ _ | reserve _ _ | readNext .empty _ _ | readNext .again _ _ | tryLock _ | drain _ | grow _
  | writerUnlock _ _ => true
  | _ => false

/-- The call searches for its key, or has found that it adds nothing. -/
def isSearching : InsertPc → Bool
  | isFree | swap | scan _ _ _ | scanKey _ _ _ | readNext (.scan _) _ _ | check _ | failed => true
  | release added | done _ added => !added
  | _ => false

end InsertPc

lemma InsertCall.seeks_eq {X : InsertPc} (b : List (Guid × Option δ)) (h : X ≠ .start) :
    seeks { c with pc := X, before := b } = X.seeks := by
  show (X.seeks || (c.isAdd && (decide (X = .start) && decide (c.key ≠ null)))) = X.seeks
  rw [decide_eq_false h, Bool.false_and, Bool.and_false, Bool.or_false]

lemma InsertCall.commits_eq {X : InsertPc} (b : List (Guid × Option δ)) (h : X ≠ .start) :
    commits { c with pc := X, before := b } = (X.seeks || X.owns.isSome || X.settles) := by
  rw [commits, seeks_eq b h]

namespace CallOk

variable {X : InsertPc} {b : List (Guid × Option δ)}

lemma seeking (hkey : c.key ≠ null) (hl : c.isLookup = false)
    (habs : ∀ p, (m.slot p).key ≠ c.key) (hlock : c.isRace → m.guidLock (guidLockIndex c.key))
    (hX : X.isSeeking) (hplace : ∀ {t i}, X.place = some (t, i) →
      t < m.tables.length ∧ i < collisionResolves)
    (hgoes : ∀ {t n}, X.goes = some (t, n) → n = t + 1 ∧ n < m.tables.length) :
    CallOk m { c with pc := X, before := b } := by
  cases X <;> try cases hX
  case' readNext why t r => cases why <;> try cases hX
  -- what a field says of places of another stage is void
  all_goals exact ⟨fun _ => hkey, nofun, fun _ => hl, hplace, hgoes, nofun, nofun, fun _ => habs,
    nofun, nofun, nofun, nofun, nofun, fun h => hlock (Bool.and_eq_true_iff.1 h).1,
    fun h => absurd (hl.symm.trans h) nofun⟩

lemma owning (b' : Bool) (hkey : c.key ≠ null) (hl : c.isLookup = false)
    (hlock : c.isRace → m.guidLock (guidLockIndex c.key))
    (hslot : (∃ n < 2 ^ 61, (m.slot p).lock = word 4 n) ∧
      (m.slot p).key = (if b' then c.key else null) ∧ p.1 < m.tables.length ∧
      (m.ref c.key p.1 0).2 ≤ p.2 ∧ p.2 < (m.ref c.key p.1 collisionResolves).2)
    (hfilled : ∀ {p}, X.filled = some p → (m.slot p).data = c.item)
    (habs : b' = false → ∀ p, (m.slot p).key ≠ c.key) (hX : X.owns = some (p, b')) :
    CallOk m { c with pc := X, before := b } := by
  have hseeks (hs : X ≠ .start) : InsertCall.seeks { c with pc := X, before := b } → X.seeks :=
    (seeks_eq b hs ▸ ·)
  cases X with
  | setKey | setData | setRank | writeRead | writeSwap =>
    cases hX
    exact ⟨fun _ => hkey, nofun, fun _ => hl, nofun, nofun, fun h => by cases h; exact hslot, hfilled,
      fun h => habs (by have := hseeks nofun h; simp_all), nofun, nofun, nofun, nofun, nofun,
      fun h => hlock (Bool.and_eq_true_iff.1 h).1, fun h => absurd (hl.symm.trans h) nofun⟩
  | _ => cases hX

lemma settled (hkey : c.key ≠ null) (hl : c.isLookup = false) (hrace : X.ofRace → c.isRace)
    (hlock : X.locks → m.guidLock (guidLockIndex c.key)) (hav : ∃ p, m.Available p c.key c.item)
    (hX : X.settles) (hcounts : ∀ {p k}, X.counts = some (p, k) →
      (m.slot p).key = c.key ∧ k.all (· = c.key))
    (hswaps : ∀ {w}, X.swaps = some w → checkMaxItem w ∧
      ∃ s n, (s = 4 ∨ s = 2) ∧ n < 2 ^ 61 ∧ w = word s n) (hdec : ∀ p, X ≠ .dec p) :
    CallOk m { c with pc := X, before := b } := by
  have hseeks (hs : X ≠ .start) : InsertCall.seeks { c with pc := X, before := b } → X.seeks :=
    (seeks_eq b hs ▸ ·)
  cases X with
  | incArg | incRead | incSwap | incCheck | dec | release | done =>
    exact ⟨fun _ => hkey, hrace, fun _ => hl, nofun, nofun, nofun, nofun,
      fun h => absurd (hseeks nofun h) nofun, nofun, fun _ => hav, hcounts, hswaps, hdec,
      fun h => hlock (Bool.and_eq_true_iff.1 h).2, fun h => absurd (hl.symm.trans h) nofun⟩
  | _ => cases hX

lemma searching (hkey : c.key ≠ null) (hrace : X.ofRace → c.isRace)
    (hlock : c.isRace → X.locks → m.guidLock (guidLockIndex c.key)) (hX : X.isSearching)
    (hplace : ∀ {t i}, X.place = some (t, i) → t < m.tables.length ∧ i < collisionResolves)
    (hgoes : ∀ {t n}, X.goes = some (t, n) → n = t + 1 ∧ n < m.tables.length)
    (hpassed : ∀ {t i}, X.passed = some (true, t, i) → ∀ p, m.Passed c.key t i p →
      (m.slot p).key ≠ c.key)
    (habs : X.seeks → ∀ p, (m.slot p).key ≠ c.key)
    (hcheck : ∀ {p k}, X.counts = some (p, k) → (m.slot p).key = c.key)
    (hbefore : c.isLookup → ∀ {item}, (c.key, item) ∈ b → X.ended = false ∧
      ∃ p, m.Available p c.key item ∧
        (∀ {l t i}, X.passed = some (l, t, i) → ¬ m.Passed c.key t i p) ∧
        ∀ {r}, X = .done r false → r = some p) :
    CallOk m { c with pc := X, before := b } := by
  have hfacts : X.ofInsert = false ∧ X.settles = false ∧ X.owns = none ∧ X.filled = none ∧
      X.swaps = none ∧ X ≠ .start ∧ (∀ p k, X.counts = some (p, k) → k = none) ∧
      ∀ p, X ≠ .dec p := by
    cases X with
    | isFree | swap | scan | scanKey | failed =>
      exact ⟨rfl, rfl, rfl, rfl, rfl, nofun, nofun, nofun⟩
    | check => exact ⟨rfl, rfl, rfl, rfl, rfl, nofun, by simp, nofun⟩
    | release added | done r added =>
      cases added with
      | false => exact ⟨rfl, rfl, rfl, rfl, rfl, nofun, nofun, nofun⟩
      | true => cases hX
    | readNext why t r =>
      cases why with
      | scan => exact ⟨rfl, rfl, rfl, rfl, rfl, nofun, nofun, nofun⟩
      | _ => cases hX
    | _ => cases hX
  obtain ⟨hinsert, hsettles, howns, hfilled, hswaps, hstart, hcounts, hdec⟩ := hfacts
  exact {
    key := fun _ => hkey
    race := hrace
    insert := fun h => absurd h (by simp only [hinsert]; decide)
    place := hplace
    goes := hgoes
    owns := fun h => absurd (howns.symm.trans h) nofun
    filled := fun h => absurd (hfilled.symm.trans h) nofun
    seeks := fun h => habs (seeks_eq b hstart ▸ h)
    passed := hpassed
    settles := fun h => absurd h (by simp only [hsettles]; decide)
    counts := fun h => ⟨hcheck h, by rw [hcounts _ _ h]; rfl⟩
    swaps := fun h => absurd (hswaps.symm.trans h) nofun
    noDec := hdec
    lock := fun h => hlock (Bool.and_eq_true_iff.1 h).1 (Bool.and_eq_true_iff.1 h).2
    before := hbefore }

end CallOk

/-! ### Two calls -/

lemma Apart.mono {X : InsertPc} {b : List (Guid × Option δ)} (h : Apart c d) (hs : c.pc ≠ .start)
    (hlock : c.isRace → X.locks → c.pc.locks)
    (howns : ∀ {p b}, X.owns = some (p, b) → ∃ b', c.pc.owns = some (p, b'))
    (hcommits : InsertCall.commits { c with pc := X, before := b } → c.commits) :
    Apart { c with pc := X, before := b } d where
  race _ := h.race (.inl hs)
  lock hc hd := by
    obtain ⟨hr, hX⟩ := Bool.and_eq_true_iff.1 hc
    exact h.lock (Bool.and_eq_true_iff.2 ⟨hr, hlock hr hX⟩) hd
  owns hc hd := by
    obtain ⟨b', hb⟩ := howns hc
    exact h.owns hb hd
  commits hc hd := h.commits (hcommits hc) hd

/-! ### What a step keeps -/

/-- The invariant after a step from `c` to `c'`. -/
structure StepOk (m m' : TableHeap δ) (c c' : InsertCall δ) : Prop where
  heap : HeapOk m'
  call : CallOk m' c'
  evolves : Evolves m m' c
  apart : ∀ {d}, CallOk m d → Apart c d → Apart c' d

lemma StepOk.quiet (hq : m.Quiet m') (hm : HeapOk m) (hcall : CallOk m c')
    (hapart : ∀ {d}, CallOk m d → Apart c d → Apart c' d) : StepOk m m' c c' :=
  ⟨hq.heapOk hm, hq.callOk hcall, hq.evolves c, hapart⟩

lemma InsertCall.isLookup_of_isRace (h : c.isRace) : c.isLookup = false := by
  cases hop : c.op <;> simp [isRace, isLookup, hop] at h ⊢

lemma CallOk.not_lookup (hc : CallOk m c) (h : c.pc.ofRace ∨ c.pc.ofInsert) :
    c.isLookup = false :=
  h.elim (fun h => c.isLookup_of_isRace (hc.race h)) hc.insert

lemma CallOk.guidLock (hc : CallOk m c) (h : c.pc.locks) :
    c.isRace → m.guidLock (guidLockIndex c.key) :=
  fun hr => hc.lock (Bool.and_eq_true_iff.2 ⟨hr, h⟩)

namespace HeapOk

variable {key : Guid}

lemma not_passed_zero (hm : HeapOk m) (hkey : (m.slot p).key = key) (hne : key ≠ null) :
    ¬ m.Passed key 0 0 p := by
  rintro (h | ⟨h, hlt⟩)
  · exact absurd h (Nat.not_lt_zero _)
  · subst hkey
    have hlo := (hm.placed p hne).2.1
    rw [h] at hlo
    omega

lemma passed_succ (hm : HeapOk m) (hkey : (m.slot p).key = key) (hne : key ≠ null) :
    m.Passed key (t + 1) 0 p ↔ m.Passed key t collisionResolves p := by
  subst hkey
  obtain ⟨-, hlo, hhi⟩ := hm.placed p hne
  constructor
  · rintro (h | ⟨h, hlt⟩)
    · rcases Nat.lt_succ_iff_lt_or_eq.1 h with h | h
      · exact .inl h
      · exact .inr ⟨h, h ▸ hhi⟩
    · rw [h] at hlo
      omega
  · rintro (h | ⟨h, -⟩)
    · exact .inl (Nat.lt_succ_of_lt h)
    · exact .inl (h ▸ Nat.lt_succ_self _)

lemma passed_step : m.Passed key t (i + 1) p ↔ m.Passed key t i p ∨ p = m.ref key t i := by
  obtain ⟨l, j⟩ := p
  have href : (m.ref key t (i + 1)).2 = (m.ref key t i).2 + 1 := rfl
  have heq : (l, j) = m.ref key t i ↔ l = t ∧ j = (m.ref key t i).2 := Prod.ext_iff
  simp only [TableHeap.Passed, heq]
  omega

lemma passed_of_last (hm : HeapOk m) (hnext : m.next t = none) (hkey : (m.slot p).key = key)
    (hne : key ≠ null) : m.Passed key t collisionResolves p := by
  subst hkey
  obtain ⟨hlt, -, hhi⟩ := hm.placed p hne
  rw [hm.links] at hnext
  split_ifs at hnext with hl
  rcases Nat.lt_or_ge p.1 t with h | h
  · exact .inl h
  · have hp : p.1 = t := by omega
    exact .inr ⟨hp, hp ▸ hhi⟩

lemma next_eq_some (hm : HeapOk m) (h : m.next t = some n) : n = t + 1 ∧ n < m.tables.length := by
  rw [hm.links] at h
  split_ifs at h with hl
  cases h
  exact ⟨rfl, hl⟩

lemma key_of_not_allocated (hm : HeapOk m) (h : ¬ checkItemState (m.slot p).lock .allocatedKey) :
    (m.slot p).key = null := by
  rcases hm.clean p with ⟨-, hkey⟩ | ⟨s, n, hs, hn, hlock⟩
  · exact hkey
  · refine absurd ?_ h
    rw [hlock, Slot.checkItemState_word hs hn]
    rcases hs with rfl | rfl
    · rw [Slot.getItemState_reserved hn]
      rfl
    · rw [Slot.getItemState_available hn]
      rfl

end HeapOk

lemma TableHeap.Available.check {key : Guid} {item : Option δ} (h : m.Available p key item) :
    checkItemState (m.slot p).lock .availableKey := by
  obtain ⟨⟨n, hn, hlock⟩, -⟩ := h
  rw [hlock, checkItemState, isAvail_word (by decide) hn]
  rfl

end Arts
