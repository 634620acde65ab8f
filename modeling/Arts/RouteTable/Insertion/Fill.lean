import Arts.RouteTable.Insertion.Steps

/-!
# Concurrent insertion: the slot

A call looks for an empty slot, adds a table if there is none, reserves the slot and fills it; it
writes slots that are empty or its own (`StepOk.write`).
-/

namespace Arts

open List Function InsertCall

variable {δ : Type*} {m m' : TableHeap δ} {c c' d : InsertCall δ} {p q : SlotRef} {t i n : ℕ} {l : Bool}
  {X : InsertPc} {b : List (Guid × Option δ)} {f : Slot δ → Slot δ}

/-! ### Writing a slot -/

namespace TableHeap

lemma slot_write (hp : p.1 < m.tables.length) (q : SlotRef) :
    (m.write p f).slot q = if q = p then f (m.slot p) else m.slot q := by
  show (m.tables.modifySlot p f).slotAt q = _
  rw [Chain.slotAt_modifySlot hp, update_apply]

lemma slot_write_self (hp : p.1 < m.tables.length) : (m.write p f).slot p = f (m.slot p) := by
  rw [slot_write hp, if_pos rfl]

lemma shape_write : (m.write p f).tables.shape = m.tables.shape := Chain.shape_modifySlot _ _ _

lemma length_write : (m.write p f).tables.length = m.tables.length := length_modify _ _ _

lemma ref_write (key : Guid) (t i : ℕ) : (m.write p f).ref key t i = m.ref key t i := by
  simp only [TableHeap.ref, TableHeap.write, Chain.modifySlot, getElem?_modify]
  cases m.tables[t]? with
  | none => rfl
  | some T => by_cases h : p.1 = t <;> simp [h, RouteTable.modify]

end TableHeap

/-- What may be written into a slot: it stays available if it is, and it gets a new key only if the key
is nowhere in the table. -/
structure SlotWrite (m : TableHeap δ) (c : InsertCall δ) (p : SlotRef) (s : Slot δ) : Prop where
  table : p.1 < m.tables.length
  word : ∃ t n, (t = 4 ∨ t = 2) ∧ n < 2 ^ 61 ∧ s.lock = word t n
  key : s.key = (m.slot p).key ∨ (m.slot p).key = Guid.null ∧ s.key = c.key ∧ c.pc = .setKey p ∧
    (∀ q, (m.slot q).key ≠ c.key) ∧ (m.ref c.key p.1 0).2 ≤ p.2 ∧
    p.2 < (m.ref c.key p.1 collisionResolves).2
  available : ∀ n, n < 2 ^ 61 → (m.slot p).lock = Arts.word 2 n →
    (∃ n' < 2 ^ 61, s.lock = Arts.word 2 n') ∧ s.key = (m.slot p).key ∧ s.data = (m.slot p).data
  own : ∀ n, n < 2 ^ 61 → (m.slot p).lock = Arts.word 4 n → ∃ b, c.pc.owns = some (p, b)

namespace SlotWrite

lemma evolves (h : SlotWrite m c p (f (m.slot p))) : Evolves m (m.write p f) c where
  tables := by rw [TableHeap.shape_write]
  keys q := by
    rw [TableHeap.slot_write h.table]
    split_ifs with hq
    · subst hq
      exact h.key.imp_right fun ⟨h0, hk, hpc, _⟩ => ⟨h0, hk, hpc⟩
    · exact .inl rfl
  available q n hn hq := by
    rw [TableHeap.slot_write h.table]
    split_ifs with hqp
    · subst hqp
      exact h.available n hn hq
    · exact ⟨⟨n, hn, hq⟩, rfl, rfl⟩
  reserved q n hn hq hown := by
    rw [TableHeap.slot_write h.table]
    split_ifs with hqp
    · subst hqp
      obtain ⟨b, hb⟩ := h.own n hn hq
      exact absurd hb (hown b)
    · exact ⟨hq, rfl⟩
  guidLock _ hl := .inl hl

lemma heapOk (h : SlotWrite m c p (f (m.slot p))) (hm : HeapOk m) : HeapOk (m.write p f) where
  nonempty := by
    rw [TableHeap.length_write]
    exact hm.nonempty
  links t := by
    rw [TableHeap.length_write]
    exact hm.links t
  clean q := by
    rw [TableHeap.slot_write h.table]
    split_ifs with hq
    · exact .inr h.word
    · exact hm.clean q
  placed q := by
    rw [TableHeap.slot_write h.table]
    simp only [TableHeap.ref_write, TableHeap.length_write]
    split_ifs with hq
    · subst hq
      rcases h.key with hk | ⟨-, hk, -, -, hlo, hhi⟩
      · rw [hk]
        exact hm.placed q
      · rw [hk]
        exact fun _ => ⟨h.table, hlo, hhi⟩
    · exact hm.placed q
  once q r := by
    rw [TableHeap.slot_write h.table, TableHeap.slot_write h.table]
    rcases h.key with hk | ⟨-, hk, -, habs, -⟩
    · split_ifs with hq hr hr
      · exact fun _ _ => hq.trans hr.symm
      · subst hq
        rw [hk]
        exact hm.once q r
      · subst hr
        rw [hk]
        exact hm.once q r
      · exact hm.once q r
    · split_ifs with hq hr hr
      · exact fun _ _ => hq.trans hr.symm
      · rw [hk]
        exact fun hqr => absurd hqr.symm (habs r)
      · rw [hk]
        exact fun hqr => absurd hqr (habs q)
      · exact hm.once q r
  kept key item hmem := by
    obtain ⟨hne, q, hq⟩ := hm.kept key item hmem
    exact ⟨hne, q, h.evolves.available_of hq⟩

end SlotWrite

lemma StepOk.write (hm : HeapOk m) (hw : SlotWrite m c p (f (m.slot p))) (hcall : CallOk (m.write p f) c')
    (hapart : ∀ {d}, CallOk m d → Apart c d → Apart c' d) : StepOk m (m.write p f) c c' :=
  ⟨hw.heapOk hm, hcall, hw.evolves, hapart⟩

lemma StepOk.log (h : StepOk m m' c c') {key : Guid} {item : Option δ} (hne : key ≠ Guid.null)
    (hav : ∃ p, m'.Available p key item) : StepOk m (m'.log key item) c c' where
  heap := {
    nonempty := h.heap.nonempty
    links := h.heap.links
    clean := h.heap.clean
    placed := h.heap.placed
    once := h.heap.once
    kept := fun k it hmem => by
      rcases mem_append.1 hmem with hmem | hmem
      · exact h.heap.kept k it hmem
      · cases mem_singleton.1 hmem
        exact ⟨hne, hav⟩ }
  call := by
    have hc := h.call
    exact { hc with }
  evolves := by
    have he := h.evolves
    exact { he with }
  apart := h.apart

/-! ### The search for an empty slot -/

lemma InsertPc.isSeeking_facts (h : X.isSeeking) :
    X ≠ .start ∧ X.ofInsert ∧ X.locks ∧ X.seeks ∧ X.owns = none := by
  cases X with
  | probe | reserve | tryLock | drain | grow | writerUnlock => exact ⟨nofun, rfl, rfl, rfl, rfl⟩
  | readNext why t r =>
    cases why with
    | empty | again => exact ⟨nofun, rfl, rfl, rfl, rfl⟩
    | scan => cases h
  | _ => cases h

lemma StepOk.seekOn (hq : m.Quiet m') (hm : HeapOk m) (hc : CallOk m c) (hpc : c.pc.isSeeking)
    (hX : X.isSeeking)
    (hplace : ∀ {t i}, X.place = some (t, i) → t < m.tables.length ∧ i < collisionResolves)
    (hgoes : ∀ {t n}, X.goes = some (t, n) → n = t + 1 ∧ n < m.tables.length) :
    StepOk m m' c { c with pc := X, before := c.before } := by
  obtain ⟨hs, hins, hlocks, hseeks, -⟩ := InsertPc.isSeeking_facts hpc
  obtain ⟨-, -, -, -, howns⟩ := InsertPc.isSeeking_facts hX
  have hcs : c.seeks := by simp only [seeks, hseeks, Bool.true_or]
  refine .quiet hq hm (CallOk.seeking (hc.key hs) (hc.insert hins) (hc.seeks hcs) (hc.guidLock hlocks) hX
    hplace hgoes) fun _ ha => ?_
  refine ha.mono hs (fun _ _ => hlocks) (fun hp => absurd (howns.symm.trans hp) nofun) fun _ => ?_
  simp only [commits, hcs, Bool.true_or]

lemma TableHeap.write_eq_self (h : f (m.slot p) = m.slot p) : m.write p f = m := by
  rw [TableHeap.write, Chain.modifySlot_eq_self h]

section Steps

variable (hm : HeapOk m) (hc : CallOk m c)

include hm hc

lemma stepOk_probeOn (hpc : c.pc.isSeeking) (ht : t < m.tables.length) (i : ℕ) :
    StepOk m m c { c with pc := probeOn t i, before := c.before } := by
  unfold probeOn
  split_ifs with hlt
  · exact .seekOn (.refl m) hm hc hpc rfl (by rintro _ _ ⟨⟩; exact ⟨ht, hlt⟩) nofun
  · exact .seekOn (.refl m) hm hc hpc rfl (by rintro _ _ ⟨⟩; exact ⟨ht, by decide⟩) nofun

lemma stepOk_probe (hpc : c.pc = .probe t i) : StepOk m m c { c with
    pc := if (m.slot (m.ref c.key t i)).lock = 0 then .reserve t i else probeOn t (i + 1),
    before := c.before } := by
  have hplace := hc.place (t := t) (i := i) (by simp [hpc])
  have hseek : c.pc.isSeeking := by rw [hpc]; rfl
  split_ifs
  · exact .seekOn (.refl m) hm hc hseek rfl (by rintro _ _ ⟨⟩; exact hplace) nofun
  · exact stepOk_probeOn hm hc hseek hplace.1 (i + 1)

/-- **A slot is reserved.**  The slot must not have become available. -/
theorem stepOk_reserve (hpc : c.pc = .reserve t i)
    (hcalm : c.used = false → (m.slot (m.ref c.key t i)).lock &&& availableItem = 0) :
    StepOk m (m.write (m.ref c.key t i) fun s => (s.markReserve c.used).1) c { c with
      pc := if ((m.slot (m.ref c.key t i)).markReserve c.used).2 then .setKey (m.ref c.key t i)
        else probeOn t (i + 1), before := c.before } := by
  have hplace := hc.place (t := t) (i := i) (by simp [hpc])
  have hs : c.pc ≠ .start := by simp [hpc]
  set p := m.ref c.key t i with hp
  by_cases h0 : (m.slot p).lock = 0
  · have hmark := Slot.markReserve_eq h0 c.used
    have hok : ((m.slot p).markReserve c.used).2 = true := by
      cases hu : c.used <;> simp [Slot.markReserve, h0]
    have hn : c.used.toNat < 2 ^ 61 := by cases c.used <;> decide
    have hw : SlotWrite m c p ((m.slot p).markReserve c.used).1 := by
      rw [hmark]
      refine ⟨hplace.1, ⟨4, _, .inl rfl, hn, rfl⟩, .inl rfl, fun n hn h => ?_, fun n hn h => ?_⟩
      · exact absurd (h0.symm.trans h).symm (word_ne_zero (by decide) (by decide) hn)
      · exact absurd (h0.symm.trans h).symm (word_ne_zero (by decide) (by decide) hn)
    have habs := hc.seeks (by simp [seeks, hpc])
    rw [if_pos hok]
    refine .write hm hw (CallOk.owning false (hc.key hs) (hc.insert (by simp [hpc]))
      (hc.guidLock (by simp [hpc])) ?_ (by simp) (fun _ q => ?_) rfl) fun {d} hd ha => ?_
    · rw [TableHeap.slot_write_self hw.table, hmark, TableHeap.length_write, TableHeap.ref_write,
        TableHeap.ref_write]
      refine ⟨⟨_, hn, rfl⟩, ?_, hplace.1, ?_, ?_⟩
      · rcases hm.clean p with ⟨-, hkey⟩ | ⟨s, n, hs, hn, hl⟩
        · exact hkey
        · exact absurd (hl.symm.trans h0) (word_ne_zero (by omega) (by omega) hn)
      · exact Nat.add_le_add_left (Nat.zero_le i) _
      · exact Nat.add_lt_add_left hplace.2 _
    · have hev := SlotWrite.evolves (f := fun s => (s.markReserve c.used).1) hw
      rcases hev.keys q with hk | ⟨-, -, hk⟩
      · exact hk.trans_ne (habs q)
      · rw [hpc] at hk
        cases hk
    · refine ⟨fun _ => ha.race (.inl hs), fun hcl => ha.lock ?_, fun {q q' b b'} hq hq' => ?_,
        fun _ => ha.commits (by simp [commits, seeks, hpc])⟩
      · simpa [inLock, hpc, isRace] using hcl
      · cases hq
        rintro rfl
        obtain ⟨⟨n, hn, hl⟩, -⟩ := hd.owns hq'
        exact absurd (hl.symm.trans h0) (word_ne_zero (by decide) (by decide) hn)
  · have hsame : ((m.slot p).markReserve c.used) = (m.slot p, false) := by
      cases hu : c.used with
      | true => simp [Slot.markReserve, h0]
      | false =>
        rcases hm.clean p with ⟨hl, -⟩ | ⟨s, n, hs, hn, hl⟩
        · exact absurd hl h0
        · have hres : s = 4 := by
            refine hs.resolve_right fun h2 => ?_
            have := hcalm hu
            rw [hl, h2, availableItem_eq, and_flag hn] at this
            exact absurd this (by decide)
          have hor : (m.slot p).lock ||| reservedItem = (m.slot p).lock := by
            rw [hl, hres, reservedItem_eq, word, word, or_pack hn (by decide), Nat.or_zero]
            rfl
          have hne : ((m.slot p).lock == 0) = false := by simpa using h0
          simp [Slot.markReserve, hor, hne]
    rw [TableHeap.write_eq_self (congrArg Prod.fst hsame), hsame]
    exact stepOk_probeOn hm hc (by rw [hpc]; rfl) hplace.1 (i + 1)

lemma stepOk_setKey (hpc : c.pc = .setKey p) :
    StepOk m (m.write p fun s => { s with key := c.key }) c
      { c with pc := .setData p true, before := c.before } := by
  have hs : c.pc ≠ .start := by simp [hpc]
  obtain ⟨⟨n, hn, hlock⟩, hkey, hlt, hlo, hhi⟩ := hc.owns (p := p) (b := false) (by simp [hpc])
  have habs := hc.seeks (by simp [seeks, hpc])
  have hw : SlotWrite m c p { m.slot p with key := c.key } := by
    refine ⟨hlt, ⟨4, n, .inl rfl, hn, hlock⟩, .inr ⟨hkey, rfl, hpc, habs, hlo, hhi⟩,
      fun n' hn' h => ?_, fun _ _ _ => ⟨false, by simp [hpc]⟩⟩
    exact absurd (hlock.symm.trans h) (word_ne (by decide) (by decide) hn hn' (by decide))
  refine .write hm hw (CallOk.owning true (hc.key hs) (hc.insert (by simp [hpc]))
    (hc.guidLock (by simp [hpc])) ?_ nofun nofun rfl) fun _ ha => ?_
  · rw [TableHeap.slot_write_self hlt, TableHeap.length_write, TableHeap.ref_write,
      TableHeap.ref_write]
    exact ⟨⟨n, hn, hlock⟩, rfl, hlt, hlo, hhi⟩
  · refine ha.mono hs (by simp [hpc]) ?_ fun _ => by simp [commits, hpc]
    rintro _ _ ⟨⟩
    exact ⟨false, by simp [hpc]⟩

lemma stepOk_readEmpty {why : ReadFor} (hwhy : why = .empty ∨ why = .again) (r : ReadPc)
    (hpc : c.pc = .readNext why t r) : StepOk m (c.stepRead m why t r).1 c
      { c with pc := (c.stepRead m why t r).2, before := c.before } := by
  have hseek : ∀ t r, InsertPc.isSeeking (.readNext why t r) := by
    rcases hwhy with rfl | rfl <;> exact fun _ _ => rfl
  have ht := (hc.place (t := t) (i := 0) (by simp [hpc])).1
  have hstay : ∀ {m' r'}, m.Quiet m' → (∀ n, r' ≠ .leave n) →
      StepOk m m' c { c with pc := .readNext why t r', before := c.before } := by
    intro m' r' hq hr
    refine .seekOn hq hm hc (hpc ▸ hseek t r) (hseek t r') (by rintro _ _ ⟨⟩; exact ⟨ht, by decide⟩) ?_
    cases r' with
    | leave n => exact absurd rfl (hr n)
    | _ => nofun
  cases r with
  | wait | check =>
    refine hstay (.refl m) ?_
    split_ifs <;> nofun
  | count | uncount => exact hstay (.setWords _ _ _) nofun
  | read =>
    show StepOk m m c { c with pc := .readNext why t (.leave (m.next t)), before := c.before }
    refine .seekOn (.refl m) hm hc (hpc ▸ hseek t .read) (hseek t _)
      (by rintro _ _ ⟨⟩; exact ⟨ht, by decide⟩) ?_
    cases hn : m.next t with
    | none => nofun
    | some n =>
      rintro _ _ ⟨⟩
      exact hm.next_eq_some hn
  | leave n =>
    have hq := TableHeap.Quiet.setWords m t { m.words t with reader := (m.words t).reader - 1 }
    cases n with
    | some n =>
      have hlt := (hc.goes (t := t) (n := n) (by simp [hpc])).2
      have hnext : c.follow t why (some n) = .probe n 0 := by rcases hwhy with rfl | rfl <;> rfl
      show StepOk m _ c { c with pc := c.follow t why (some n), before := c.before }
      rw [hnext]
      exact .seekOn hq hm hc (hpc ▸ hseek t _) rfl (by rintro _ _ ⟨⟩; exact ⟨hlt, by decide⟩) nofun
    | none =>
      rcases hwhy with rfl | rfl
      · exact .seekOn hq hm hc (hpc ▸ hseek t _) rfl (by rintro _ _ ⟨⟩; exact ⟨ht, by decide⟩) nofun
      · have hs : c.pc ≠ .start := by simp [hpc]
        have hl := hc.insert (by simp [hpc])
        refine .quiet hq hm (CallOk.searching (hc.key hs) nofun nofun rfl nofun nofun nofun nofun nofun
          fun h => absurd (hl.symm.trans h) nofun) fun _ ha => ?_
        refine ha.mono hs nofun nofun fun hcom => ?_
        have hno := commits_eq (c := c) (X := .failed) c.before nofun
        exact absurd (hno.symm.trans hcom) nofun

lemma stepOk_tableLock {w : Lock.Words} (hpc : c.pc.isSeeking) {t' : ℕ} (hX : X.isSeeking)
    (hplace : X.place = some (t, 0)) (hgoes : X.goes = none) (ht : t < m.tables.length) :
    StepOk m (m.setWords t' w) c { c with pc := X, before := c.before } := by
  refine .seekOn (.setWords m t' w) hm hc hpc hX (fun hp => ?_)
    fun hg => absurd (hgoes.symm.trans hg) nofun
  cases hplace.symm.trans hp
  exact ⟨ht, by decide⟩

/-- **A table is added to the chain.**  The table must still be the last one. -/
theorem stepOk_grow (hpc : c.pc = .grow t) (hlast : m.next t = none) :
    StepOk m (m.grow t) c { c with pc := .writerUnlock t m.tables.length, before := c.before } := by
  have ht := (hc.place (t := t) (i := 0) (by simp [hpc])).1
  have hs : c.pc ≠ .start := by simp [hpc]
  have hend : t + 1 = m.tables.length := by
    rw [hm.links] at hlast
    split_ifs at hlast with h
    omega
  obtain ⟨T, hT⟩ : ∃ T, m.tables[t]? = some T := ⟨_, getElem?_eq_getElem ht⟩
  have hgrow : m.grow t = { m with
      tables := m.tables ++ [newRouteTable (2 * T.size) (T.shift + 1)]
      next := update m.next t (some m.tables.length) } := by
    simp [TableHeap.grow, hT]
  have hlen : (m.grow t).tables.length = m.tables.length + 1 := by
    rw [hgrow]
    exact length_append
  have hslot : ∀ p, (m.grow t).slot p = m.slot p := by
    intro p
    rw [hgrow]
    exact congrFun (Chain.slotAt_append_new m.tables _ _) p
  have hev : Evolves m (m.grow t) c := by
    have hr := Evolves.refl m c
    refine ⟨?_, fun p => ?_, fun p => ?_, fun p => ?_, ?_⟩
    · rw [hgrow]
      exact ⟨_, (map_append).symm⟩
    · rw [hslot]
      exact hr.keys p
    · rw [hslot]
      exact hr.available p
    · rw [hslot]
      exact hr.reserved p
    · rw [hgrow]
      exact hr.guidLock
  refine ⟨⟨by omega, fun t' => ?_, fun p => ?_, fun p hp => ?_, fun p q => ?_, ?_⟩, ?_, hev,
    fun _ ha => ?_⟩
  · have hnext : (m.grow t).next = update m.next t (some m.tables.length) := by rw [hgrow]
    rw [hnext, hlen]
    by_cases htt : t' = t
    · subst htt
      rw [update_self, if_pos (by omega), hend]
    · rw [update_of_ne htt, hm.links]
      exact if_congr (by omega) rfl rfl
  · rw [hslot]
    exact hm.clean p
  · rw [hslot] at hp ⊢
    obtain ⟨hlt, hlo, hhi⟩ := hm.placed p hp
    rw [hlen, hev.ref_eq hlt, hev.ref_eq hlt]
    exact ⟨by omega, hlo, hhi⟩
  · rw [hslot, hslot]
    exact hm.once p q
  · intro key item hmem
    rw [hgrow] at hmem
    obtain ⟨hne, p, hp⟩ := hm.kept key item hmem
    exact ⟨hne, p, hev.available_of hp⟩
  · have habs := hc.seeks (by simp [seeks, hpc])
    refine CallOk.seeking (hc.key hs) (hc.insert (by simp [hpc])) (fun p => ?_) (fun hr => ?_) rfl ?_
      nofun
    · rw [hslot]
      exact habs p
    · rw [hgrow]
      exact hc.guidLock (by simp [hpc]) hr
    · rintro _ _ ⟨⟩
      exact ⟨by omega, by decide⟩
  · exact ha.mono hs (by simp [hpc]) nofun fun _ => by simp [commits, seeks, hpc]

/-! ### The slot is filled -/

lemma stepOk_fill (howns : c.pc.owns = some (p, true)) {f : Slot δ → Slot δ}
    (hf : ∀ s, (f s).lock = s.lock ∧ (f s).key = s.key) (hX : X.owns = some (p, true))
    (hdata : ∀ {q}, X.filled = some q → (f (m.slot p)).data = c.item) :
    StepOk m (m.write p f) c { c with pc := X, before := c.before } := by
  have hfacts : c.pc ≠ .start ∧ c.pc.ofInsert ∧ c.pc.locks := by
    cases hpc : c.pc with
    | setKey | setData | setRank | writeRead | writeSwap => exact ⟨nofun, rfl, rfl⟩
    | _ => simp [hpc] at howns
  obtain ⟨hs, hins, hlocks⟩ := hfacts
  obtain ⟨⟨n, hn, hlock⟩, hkey, hlt, hlo, hhi⟩ := hc.owns howns
  obtain ⟨hfl, hfk⟩ := hf (m.slot p)
  have hw : SlotWrite m c p (f (m.slot p)) := by
    refine ⟨hlt, ⟨4, n, .inl rfl, hn, hfl.trans hlock⟩, .inl hfk, fun n' hn' h => ?_,
      fun _ _ _ => ⟨true, howns⟩⟩
    exact absurd (hlock.symm.trans h) (word_ne (by decide) (by decide) hn hn' (by decide))
  refine .write hm hw (CallOk.owning true (hc.key hs) (hc.insert hins) (hc.guidLock hlocks) ?_
    (fun {q} hq => ?_) nofun hX) fun _ ha => ?_
  · rw [TableHeap.slot_write_self hlt, TableHeap.length_write, TableHeap.ref_write,
      TableHeap.ref_write]
    exact ⟨⟨n, hn, hfl.trans hlock⟩, hfk.trans hkey, hlt, hlo, hhi⟩
  · obtain ⟨b', hb'⟩ := InsertPc.owns_of_filled hq
    cases hX.symm.trans hb'
    rw [TableHeap.slot_write_self hlt]
    exact hdata hq
  · refine ha.mono hs (fun _ _ => hlocks) (fun hp => ?_) fun _ => commits_of_owns howns
    cases hX.symm.trans hp
    exact ⟨true, howns⟩

lemma stepOk_ownOn (howns : c.pc.owns = some (p, true)) (hX : X.owns = some (p, true))
    (hdata : ∀ {q}, X.filled = some q → (m.slot p).data = c.item) :
    StepOk m m c { c with pc := X, before := c.before } := by
  have h := stepOk_fill hm hc howns (f := id) (fun _ => ⟨rfl, rfl⟩) hX hdata
  rwa [TableHeap.write_eq_self rfl] at h

lemma stepOk_writeRead {fresh : Bool} (hpc : c.pc = .writeRead p fresh) :
    (m.slot p).lock &&& reservedItem ≠ 0 ∧ StepOk m m c
      { c with pc := .writeSwap p fresh (m.slot p).lock, before := c.before } := by
  have howns : c.pc.owns = some (p, true) := by simp [hpc]
  obtain ⟨n, hn, hlock⟩ := (hc.owns howns).1
  refine ⟨?_, stepOk_ownOn hm hc howns rfl fun _ => hc.filled (by simp [hpc])⟩
  rw [hlock]
  exact (word_write (.inl rfl) hn).1

lemma stepOk_writeAgain {fresh : Bool} {seen : UInt64} (hpc : c.pc = .writeSwap p fresh seen) :
    StepOk m m c { c with pc := .writeRead p fresh, before := c.before } :=
  stepOk_ownOn hm hc (by simp [hpc]) rfl fun _ => hc.filled (by simp [hpc])

end Steps

lemma InsertCall.written_facts (c : InsertCall δ) (p : SlotRef) (fresh : Bool) :
    (c.written p fresh).settles ∧ (c.written p fresh).owns = none ∧
      ((c.written p fresh).ofRace → c.isRace) ∧ ((c.written p fresh).locks → c.isRace) ∧
      (∀ {q k}, (c.written p fresh).counts = some (q, k) → q = p ∧ k = none) ∧
      (c.written p fresh).swaps = none ∧ ∀ q, c.written p fresh ≠ .dec q := by
  unfold written
  split_ifs with hr
  · refine ⟨rfl, rfl, fun _ => hr, fun _ => hr, ?_, rfl, nofun⟩
    rintro _ _ ⟨⟩
    exact ⟨rfl, rfl⟩
  · exact ⟨rfl, rfl, fun _ => hr, fun _ => hr, nofun, rfl, nofun⟩
  · exact ⟨rfl, rfl, nofun, nofun, nofun, rfl, nofun⟩

section Steps

variable (hm : HeapOk m) (hc : CallOk m c)

include hm hc

/-- **The item becomes available.** -/
theorem stepOk_writeSwap {fresh : Bool} {seen : UInt64} (hpc : c.pc = .writeSwap p fresh seen)
    (hsame : (m.slot p).lock = seen) :
    StepOk m (c.logged (m.write p fun s => { s with
        lock := seen &&& ~~~reservedItem ||| availableItem })) c
      { c with pc := c.written p fresh, before := c.before } := by
  have hs : c.pc ≠ .start := by simp [hpc]
  have hcpc : c.pc.owns = some (p, true) := by simp [hpc]
  obtain ⟨⟨n, hn, hlock⟩, hkey, hlt, -⟩ := hc.owns hcpc
  have hdata := hc.filled (p := p) (by simp [hpc])
  have hword : seen &&& ~~~reservedItem ||| availableItem = word 2 n := by
    rw [← hsame, hlock]
    exact (word_write (.inl rfl) hn).2
  rw [hword]
  have hw : SlotWrite m c p { m.slot p with lock := word 2 n } := by
    refine ⟨hlt, ⟨2, n, .inr rfl, hn, rfl⟩, .inl rfl, fun n' hn' h => ?_, fun _ _ _ => ⟨true, hcpc⟩⟩
    exact absurd (hlock.symm.trans h) (word_ne (by decide) (by decide) hn hn' (by decide))
  set m₁ := m.write p fun s => { s with lock := word 2 n }
  have hslot : m₁.slot p = { m.slot p with lock := word 2 n } := TableHeap.slot_write_self hlt
  have hav : ∃ q, m₁.Available q c.key c.item := by
    refine ⟨p, ?_⟩
    unfold TableHeap.Available
    rw [hslot]
    exact ⟨⟨n, hn, rfl⟩, hkey, hdata⟩
  obtain ⟨hsettles, howns, hrace, hlocks, hcounts, hswaps, hdec⟩ := c.written_facts p fresh
  have hlk := hc.guidLock (by simp [hpc])
  have hkept : StepOk m m₁ c { c with pc := c.written p fresh, before := c.before } := by
    refine .write hm hw (CallOk.settled (hc.key hs) (hc.insert (by simp [hpc])) hrace
      (fun hl => hlk (hlocks hl)) hav hsettles (fun hp => ?_)
      (fun hp => absurd (hswaps.symm.trans hp) nofun) hdec) fun _ ha => ?_
    · obtain ⟨rfl, rfl⟩ := hcounts hp
      rw [show (m.write _ _).slot _ = _ from hslot]
      exact ⟨hkey, rfl⟩
    · exact ha.mono hs (by simp [hpc]) (fun hp => absurd (howns.symm.trans hp) nofun)
        fun _ => commits_of_owns hcpc
  unfold logged
  split_ifs
  · exact hkept
  · exact hkept.log (hc.key hs) hav

/-! ### The item is counted -/

lemma StepOk.settledOn (hrace : c.pc.ofRace) (hlocks : c.pc.locks) (hset : c.pc.settles)
    (hX : X.settles) (hcounts : ∀ {p k}, X.counts = some (p, k) →
      (m.slot p).key = c.key ∧ k.all (· = c.key))
    (hswaps : ∀ {w}, X.swaps = some w → checkMaxItem w ∧
      ∃ s n, (s = 4 ∨ s = 2) ∧ n < 2 ^ 61 ∧ w = word s n) (hdec : ∀ p, X ≠ .dec p) :
    StepOk m m c { c with pc := X, before := c.before } := by
  have hs : c.pc ≠ .start := by
    intro hpc
    rw [hpc] at hset
    cases hset
  have howns : X.owns = none := by
    cases X with
    | incArg | incRead | incSwap | incCheck | dec | release | done => rfl
    | _ => cases hX
  refine .quiet (.refl m) hm (CallOk.settled (hc.key hs) (hc.not_lookup (.inl hrace))
    (fun _ => hc.race hrace) (fun _ => hc.guidLock hlocks (hc.race hrace)) (hc.settles hset) hX hcounts
    hswaps hdec) fun _ ha => ?_
  refine ha.mono hs (fun _ _ => hlocks) (fun hp => absurd (howns.symm.trans hp) nofun) fun _ => ?_
  simp only [commits, hset, Bool.or_true]

lemma stepOk_incArg (hpc : c.pc = .incArg p) :
    StepOk m m c { c with pc := .incRead p (m.slot p).key, before := c.before } := by
  have hkey := (hc.counts (p := p) (k := none) (by simp [hpc])).1
  refine .settledOn hm hc (by simp [hpc]) (by simp [hpc]) (by simp [hpc]) rfl ?_ nofun nofun
  rintro _ _ ⟨⟩
  exact ⟨hkey, by simpa using hkey⟩

lemma stepOk_incRead {key : Guid} (hpc : c.pc = .incRead p key) : StepOk m m c { c with
    pc := if !isDel (m.slot p).lock && checkMaxItem (m.slot p).lock && (m.slot p).key == key then
      .incSwap p key (m.slot p).lock else .release true, before := c.before } := by
  have hcount := hc.counts (p := p) (k := some key) (by simp [hpc])
  have hkey := hc.key (by simp [hpc])
  split_ifs with hcond
  · refine .settledOn hm hc (by simp [hpc]) (by simp [hpc]) (by simp [hpc]) rfl ?_ ?_ nofun
    · rintro _ _ ⟨⟩
      exact hcount
    · rintro _ ⟨⟩
      simp only [Bool.and_eq_true] at hcond
      refine ⟨hcond.1.2, ?_⟩
      rcases hm.clean p with ⟨-, h0⟩ | hword
      · exact absurd (hcount.1.symm.trans h0) hkey
      · exact hword
  · exact .settledOn hm hc (by simp [hpc]) (by simp [hpc]) (by simp [hpc]) rfl nofun nofun nofun

lemma stepOk_incAgain {key : Guid} {seen : UInt64} (hpc : c.pc = .incSwap p key seen) :
    StepOk m m c { c with pc := .incRead p key, before := c.before } := by
  refine .settledOn hm hc (by simp [hpc]) (by simp [hpc]) (by simp [hpc]) rfl ?_ nofun nofun
  rintro _ _ ⟨⟩
  exact hc.counts (by simp [hpc])

/-- **The item is counted**; it stays available. -/
theorem stepOk_incSwap {key : Guid} {seen : UInt64} (hpc : c.pc = .incSwap p key seen)
    (hsame : (m.slot p).lock = seen) : StepOk m (m.write p fun s => { s with lock := seen + 1 }) c
      { c with pc := .incCheck p key, before := c.before } := by
  have hs : c.pc ≠ .start := by simp [hpc]
  have hkey := hc.key hs
  have hcount := hc.counts (p := p) (k := some key) (by simp [hpc])
  have hrace : c.isRace := hc.race (by simp [hpc])
  -- the slot of the key is the one with the item
  obtain ⟨q, ⟨n, hn, hlock⟩, hq, hitem⟩ := hc.settles (by simp [hpc])
  obtain rfl := hm.once q p (hq.trans hcount.1.symm) (hq.trans_ne hkey)
  have hmax := (hc.swaps (w := seen) (by simp [hpc])).1
  rw [← hsame, hlock, checkMaxItem_word hn] at hmax
  have hlt := (hm.placed q (hq.trans_ne hkey)).1
  have hadd : seen + 1 = word 2 (n + 1) := by rw [← hsame, hlock]; exact pack_add_one
  rw [hadd]
  have hw : SlotWrite m c q { m.slot q with lock := word 2 (n + 1) } := by
    refine ⟨hlt, ⟨2, n + 1, .inr rfl, by omega, rfl⟩, .inl rfl,
      fun _ _ _ => ⟨⟨n + 1, by omega, rfl⟩, rfl, rfl⟩, fun n' hn' h => ?_⟩
    exact absurd (hlock.symm.trans h) (word_ne (by decide) (by decide) hn hn' (by decide))
  refine .write hm hw (CallOk.settled hkey (c.isLookup_of_isRace hrace) (fun _ => hrace)
    (fun _ => hc.guidLock (by simp [hpc]) hrace)
    ⟨q, Evolves.available_of (SlotWrite.evolves hw)
      ⟨⟨n, hn, hlock⟩, hq, hitem⟩⟩ rfl ?_ nofun nofun) fun _ ha => ?_
  · rintro _ _ ⟨⟩
    rw [TableHeap.slot_write_self hlt]
    exact hcount
  · exact ha.mono hs (by simp [hpc]) nofun fun _ => by simp [commits, hpc]

lemma stepOk_incCheck {key : Guid} (hpc : c.pc = .incCheck p key) : StepOk m m c { c with
    pc := if (m.slot p).key ≠ key then .dec p else .release true, before := c.before } := by
  have hcount := hc.counts (p := p) (k := some key) (by simp [hpc])
  have hkey : (m.slot p).key = key := hcount.1.trans (Eq.symm (by simpa using hcount.2))
  rw [if_neg (not_not_intro hkey)]
  exact .settledOn hm hc (by simp [hpc]) (by simp [hpc]) (by simp [hpc]) rfl nofun nofun nofun

/-! ### The lock is released -/

lemma stepOk_release {added : Bool} (hpc : c.pc = .release added) :
    StepOk m (if added then (m.setGuidLock c.key false).log c.key c.item else m.setGuidLock c.key false) c
      { c with pc := .done none added, before := c.before } := by
  have hs : c.pc ≠ .start := by simp [hpc]
  have hkey := hc.key hs
  have hrace : c.isRace := hc.race (by simp [hpc])
  have hnl := c.isLookup_of_isRace hrace
  have hm' : HeapOk (m.setGuidLock c.key false) :=
    { hm with }
  have hev : Evolves m (m.setGuidLock c.key false) c := by
    have hr := Evolves.refl m c
    refine { hr with guidLock := fun l hl => ?_ }
    by_cases hlx : l = guidLockIndex c.key
    · exact .inr ⟨by simp [inLock, hrace, hpc], hlx⟩
    · refine .inl ?_
      show update m.guidLock _ false l = true
      rwa [update_of_ne hlx]
  have happ : ∀ {d}, CallOk m d → Apart c d →
      Apart { c with pc := .done none added, before := c.before } d := fun _ ha =>
    ha.mono hs (by simp) (by simp) fun hcom => by
      rw [commits_eq (X := .done none added) c.before (by simp)] at hcom
      cases added with
      | false => cases hcom
      | true => simp [commits, hpc]
  cases added with
  | false =>
    exact ⟨hm', CallOk.searching hkey (by simp) (by simp) rfl (by simp) (by simp) (by simp) (by simp) (by simp)
      fun h => absurd (hnl.symm.trans h) (by simp), hev, happ⟩
  | true =>
    have hav := hc.settles (by simp [hpc])
    have hcall : CallOk (m.setGuidLock c.key false)
        { c with pc := .done none true, before := c.before } :=
      CallOk.settled hkey hnl (by simp) (by simp) hav rfl (by simp) (by simp) (by simp)
    exact StepOk.log ⟨hm', hcall, hev, happ⟩ hkey hav

end Steps

end Arts
