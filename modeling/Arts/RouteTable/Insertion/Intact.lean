import Arts.RouteTable.Insertion.Fill
import Arts.RouteTable.Insertion.Search

/-!
# Concurrent insertion: items stay reachable

**`InsertRun.intact_of_calm`**. Steps that are not calm: `mark_reserve` without a use count on a
slot that has become available (`InsertRun.item_hidden`), a second thread that adds a table
(`InsertRun.table_dropped`), and a null GUID or a key that another call adds without the lock.
-/

namespace Arts

open List Option InsertCall Chain

variable {δ : Type*} {m m' : TableHeap δ} {c c' d : InsertCall δ}

/-- The step of the call does not spoil the table. -/
def InsertCall.calm (m : TableHeap δ) (c : InsertCall δ) : Bool :=
  match c.pc with
  | .reserve t i => c.used || (m.tables.slotAt (m.ref c.key t i)).lock &&& availableItem == 0
  | .grow t => (m.next t).isNone
  | _ => true

/-- The calls may go on together: one of them looks only, or their keys differ, or both race. -/
def InsertCall.agrees (c d : InsertCall δ) : Bool :=
  d.key != c.key || c.isLookup || d.isLookup || c.isRace && d.isRace

/-- The step of the call `i` is calm. -/
def InsertRun.calm (s : InsertRun δ) (i : ℕ) : Bool :=
  match s.calls[i]? with
  | some c => c.calm s.mem &&
      (c.pc != .start || c.key != Guid.null && (s.calls.eraseIdx i).all c.agrees)
  | none => true

/-! ### The steps -/

/-- **Every calm step keeps the invariant.** -/
theorem stepOk_step (hm : HeapOk m) (hc : CallOk m c) (hcalm : c.calm m) (hs : c.pc ≠ .start)
    (hstep : c.step m = some (m', c')) : StepOk m m' c c' := by
  obtain ⟨⟨m₁, X⟩, hpc', heq⟩ := map_eq_some_iff.1 hstep
  rw [if_neg hs] at heq
  cases heq
  -- with the call taken apart, what its place says is true by definition
  obtain ⟨key, op, pc, before⟩ := c
  cases pc with
  | start => exact absurd rfl hs
  | isFree =>
    cases hpc'
    exact stepOk_isFree hm hc rfl
  | swap =>
    rw [stepPc] at hpc'
    split_ifs at hpc' with hfree
    · cases hpc'
      have hrace := hc.race rfl
      have hnl := isLookup_of_isRace hrace
      exact .quiet (.refl m) hm (CallOk.searching (hc.key hs) (fun _ => hrace) nofun rfl nofun nofun nofun
        nofun nofun fun h => absurd (hnl.symm.trans h) nofun) fun _ ha => ha.searching hs rfl rfl nofun
    · cases hpc'
      exact stepOk_swap hm hc rfl (Bool.eq_false_iff.2 hfree)
  | scan l t i =>
    cases hpc'
    exact stepOk_scan hm hc rfl
  | scanKey l t i =>
    cases hpc'
    exact stepOk_scanKey hm hc rfl
  | readNext why t r =>
    obtain ⟨rfl, rfl⟩ := Prod.ext_iff.1 (some.inj hpc')
    cases why with
    | scan l => exact stepOk_readScan hm hc r rfl
    | empty => exact stepOk_readEmpty hm hc (.inl rfl) r rfl
    | again => exact stepOk_readEmpty hm hc (.inr rfl) r rfl
  | check p =>
    cases hpc'
    exact stepOk_check hm hc rfl
  | probe t i =>
    cases hpc'
    exact stepOk_probe hm hc rfl
  | reserve t i =>
    cases hpc'
    refine stepOk_reserve hm hc rfl fun hu => ?_
    simpa [calm, hu] using hcalm
  | setKey p =>
    cases hpc'
    exact stepOk_setKey hm hc rfl
  | tryLock t =>
    have ht := (hc.place (t := t) (i := 0) rfl).1
    rw [stepPc] at hpc'
    split_ifs at hpc'
    · cases hpc'
      exact .seekOn (.refl m) hm hc rfl rfl (by rintro _ _ ⟨⟩; exact ⟨ht, by decide⟩) nofun
    · cases hpc'
      exact stepOk_tableLock hm hc rfl rfl rfl rfl ht
  | drain t =>
    have ht := (hc.place (t := t) (i := 0) rfl).1
    cases hpc'
    split_ifs
    · exact .seekOn (.refl m) hm hc rfl rfl (by rintro _ _ ⟨⟩; exact ⟨ht, by decide⟩) nofun
    · exact .seekOn (.refl m) hm hc rfl rfl (by rintro _ _ ⟨⟩; exact ⟨ht, by decide⟩) nofun
  | grow t =>
    cases hpc'
    exact stepOk_grow hm hc rfl (by simpa [calm] using hcalm)
  | writerUnlock t n =>
    cases hpc'
    have hn := (hc.place (t := n) (i := 0) rfl).1
    exact stepOk_tableLock hm hc rfl rfl rfl rfl hn
  | setData p fresh =>
    cases hpc'
    exact stepOk_fill hm hc rfl (fun _ => ⟨rfl, rfl⟩) rfl fun _ => rfl
  | setRank p fresh =>
    cases hpc'
    exact stepOk_fill hm hc rfl (fun _ => ⟨rfl, rfl⟩) rfl fun _ => hc.filled rfl
  | writeRead p fresh =>
    obtain ⟨hres, hkept⟩ := stepOk_writeRead hm hc rfl
    rw [stepPc] at hpc'
    simp only [if_pos hres] at hpc'
    cases hpc'
    exact hkept
  | writeSwap p fresh seen =>
    rw [stepPc] at hpc'
    split_ifs at hpc' with hsame
    · cases hpc'
      exact stepOk_writeSwap hm hc rfl hsame
    · cases hpc'
      exact stepOk_writeAgain hm hc rfl
  | incArg p =>
    cases hpc'
    exact stepOk_incArg hm hc rfl
  | incRead p key =>
    cases hpc'
    exact stepOk_incRead hm hc rfl
  | incSwap p key seen =>
    rw [stepPc] at hpc'
    split_ifs at hpc' with hsame
    · cases hpc'
      exact stepOk_incSwap hm hc rfl hsame
    · cases hpc'
      exact stepOk_incAgain hm hc rfl
  | incCheck p key =>
    cases hpc'
    exact stepOk_incCheck hm hc rfl
  | dec p => exact absurd rfl (hc.noDec p)
  | release added =>
    cases hpc'
    exact stepOk_release hm hc rfl
  | done r added | failed =>
    cases hpc'

lemma callOk_start (hm : HeapOk m) (hc : CallOk m c) (hkey : c.key ≠ Guid.null)
    (hpc : c.pc = .start) : CallOk m { c with pc := c.enter, before := m.inserted } := by
  obtain ⟨op, hop⟩ : ∃ op, c.op = op := ⟨_, rfl⟩
  cases op with
  | add item rank used =>
    have hadd : c.isAdd ∧ c.isLookup = false ∧ c.isRace = false := by
      simp [isAdd, isLookup, isRace, hop]
    have henter : c.enter = .probe 0 0 := by simp [enter, hop]
    have habs := hc.seeks (by simp [seeks, hpc, hadd.1, hkey])
    rw [henter]
    refine CallOk.seeking hkey hadd.2.1 habs (fun hr => absurd (hadd.2.2.symm.trans hr) (by simp)) rfl ?_ (by simp)
    rintro _ _ ⟨⟩
    exact ⟨hm.nonempty, by decide⟩
  | addRace item rank used =>
    have hrace : c.isRace := by simp [isRace, hop]
    have hnl := c.isLookup_of_isRace hrace
    have henter : c.enter = .isFree := by simp [enter, hop]
    rw [henter]
    exact CallOk.searching hkey (fun _ => hrace) (by simp) rfl (by simp) (by simp) (by simp) (by simp) (by simp)
      fun h => absurd (hnl.symm.trans h) (by simp)
  | lookup =>
    have henter : c.enter = .scan false 0 0 := by simp [enter, hop]
    have hscan : Scans m c m.inserted false 0 0 :=
      Scans.first hm hkey (by simp) (by simp) fun _ {item} hmem => (hm.kept c.key item hmem).2
    rw [henter]
    exact hscan.scanOn (Nat.zero_le _)

lemma apart_start (ha : Apart c d) (hpc : c.pc = .start) (hkey : c.key ≠ Guid.null)
    (hagree : c.agrees d) (b : List (Guid × Option δ)) :
    Apart { c with pc := c.enter, before := b } d := by
  have hfacts : (c.isRace → c.enter.locks = false) ∧ c.enter.owns = none ∧ c.enter.settles = false ∧
      c.enter ≠ .start ∧ (c.enter.seeks → c.isAdd) := by
    unfold enter isRace isAdd
    cases c.op <;> simp
  obtain ⟨hlocks, howns, hsettles, hstart, hseeks⟩ := hfacts
  refine ⟨fun _ hk hcl hdl => ?_, fun hcl => ?_, fun hp => absurd (howns.symm.trans hp) nofun,
    fun hcom => ?_⟩
  · have hk' : c.key = d.key := hk
    have hcl' : c.isLookup = false := hcl
    show c.isRace ∧ d.isRace
    simpa [agrees, hk', hcl', hdl] using hagree
  · obtain ⟨hr, hl⟩ := Bool.and_eq_true_iff.1 hcl
    exact absurd ((hlocks hr).symm.trans hl) nofun
  · rw [commits_eq b hstart, howns, hsettles] at hcom
    have hadd := hseeks (by simpa using hcom)
    exact ha.commits (by simp [commits, seeks, hpc, hadd, hkey])

/-! ### Runs -/

namespace InsertRun

variable {s s' : InsertRun δ} {i : ℕ}

/-- The invariant. -/
abbrev Ok (s : InsertRun δ) : Prop := Pool.Ok HeapOk CallOk Apart s

lemma Ok.next (h : Ok s) (hcalm : s.calm i) (hnext : Pool.advance step s i = some s') :
    Ok s' := by
  refine Pool.Ok.advance h (fun _ _ => Apart.symm) hnext fun c c' m' hc hstep => ?_
  simp only [calm, hc, Bool.and_eq_true, Bool.or_eq_true, bne_iff_ne] at hcalm
  obtain ⟨hcalm, hbegin⟩ := hcalm
  have hown := h.each hc
  by_cases hs : c.pc = .start
  · obtain ⟨hkey, hagree⟩ := hbegin.resolve_left (not_not_intro hs)
    obtain ⟨⟨m₁, X⟩, hpc', heq⟩ := map_eq_some_iff.1 hstep
    rw [hs, stepPc] at hpc'
    cases hpc'
    rw [if_pos hs] at heq
    cases heq
    refine ⟨h.mem, callOk_start h.mem hown hkey hs, fun j d hij hd => ⟨h.each hd, ?_⟩⟩
    refine apart_start (h.pair hij hc hd) hs hkey (all_eq_true.1 hagree d ?_) _
    exact mem_eraseIdx_iff_getElem?.2 ⟨j, hij.symm, hd⟩
  · have hkept := stepOk_step h.mem hown hcalm hs hstep
    exact ⟨hkept.heap, hkept.call, fun j d hij hd =>
      ⟨(h.each hd).evolves hown (h.pair hij hc hd) hkept.evolves, hkept.apart (h.each hd) (h.pair hij hc hd)⟩⟩

lemma mem_candidates_iff_ref {m : TableHeap δ} {p : SlotRef} {key : Guid} :
    p ∈ m.tables.candidates key ↔ p.1 < m.tables.length ∧ (m.ref key p.1 0).2 ≤ p.2 ∧
      p.2 < (m.ref key p.1 collisionResolves).2 := by
  rw [mem_candidates_iff]
  constructor
  · rintro ⟨t, ht, hi⟩
    have hmem := mem_range'_1.1 hi
    simp only [TableHeap.ref, ht, map_some, getD_some]
    exact ⟨(List.getElem?_eq_some_iff.1 ht).1, by omega, by omega⟩
  · rintro ⟨hlt, hlo, hhi⟩
    have ht : m.tables[p.1]? = some m.tables[p.1] := getElem?_eq_getElem hlt
    simp only [TableHeap.ref, ht, map_some, getD_some] at hlo hhi
    exact ⟨_, ht, mem_range'_1.2 ⟨by omega, by omega⟩⟩

lemma Start.ok (h : Start s) : Ok s := by
  obtain ⟨⟨T, mp, hT, hmem, hnew⟩, hfresh, hdistinct⟩ := h
  have hstart : ∀ {i : ℕ} {c}, s.calls[i]? = some c → c.pc = .start ∧ c.before = [] :=
    fun hc => hfresh _ (mem_of_getElem? hc)
  -- an empty slot has no key
  have hlock : ∀ p, (T.slotAt p).key ≠ Guid.null → (T.slotAt p).lock ≠ 0 := by
    intro p hp h0
    rcases hT.clean p with ⟨-, hk, -⟩ | ⟨t, n, ht, hn, hl⟩
    · exact hp hk
    · exact word_ne_zero (by omega) (by omega) hn (hl.symm.trans h0)
  refine ⟨?_, fun {i c} hc => ?_, fun {i j c d} hij hc hd => ?_⟩
  · rw [hmem]
    refine ⟨length_pos_iff.2 hT.nonempty, fun _ => rfl, fun p => ?_, fun p hp => ?_,
      fun p q hpq hp => ?_, nofun⟩
    · exact (hT.clean p).imp_left fun ⟨h0, hk, _⟩ => ⟨h0, hk⟩
    · exact mem_candidates_iff_ref |>.1 (hT.placed p (hlock p hp))
    · have hq : (T.slotAt q).lock ≠ 0 := hlock q fun h => hp (hpq.trans h)
      have hcq := Keeps.cells_of_lock hq
      rw [← show (T.slotAt p).key = (T.slotAt q).key from hpq] at hcq
      exact hT.map.once (Keeps.cells_of_lock (hlock p hp)) hcq
  · obtain ⟨hpc, hb⟩ := hstart hc
    refine ⟨by simp [hpc], by simp [hpc], by simp [hpc], by simp [hpc], by simp [hpc], by simp [hpc],
      by simp [hpc], fun hseeks p hp => ?_, by simp [hpc], by simp [hpc], by simp [hpc], by simp [hpc],
      by simp [hpc], by simp [inLock, hpc], by simp [hb]⟩
    simp only [seeks, hpc, InsertPc.seeks, Bool.false_or, decide_true, Bool.true_and,
      Bool.and_eq_true, decide_eq_true_eq] at hseeks
    have hnone := hnew c (mem_of_getElem? hc) hseeks.1
    rw [hmem] at hp
    have hp' : (T.slotAt p).key = c.key := hp
    have hcell := Keeps.cells_of_lock (hlock p (hp'.trans_ne hseeks.2))
    rw [hp'] at hcell
    exact absurd (hnone.symm.trans (hT.map.eq_of_cell hcell)) nofun
  · obtain ⟨hpc, -⟩ := hstart hc
    obtain ⟨hpd, -⟩ := hstart hd
    refine ⟨by simp [hpc, hpd], by simp [inLock, hpc], by simp [hpc], fun hcc hcd => ?_⟩
    simp only [commits, seeks, hpc, hpd, InsertPc.seeks, InsertPc.owns,
      InsertPc.settles, isSome_none, Bool.or_false, Bool.false_or, Bool.and_eq_true] at hcc hcd
    exact hdistinct hij hc hd hcc.1 hcd.1

/-! ### The chain -/

lemma reach_eq {next : ℕ → Option ℕ} {len : ℕ}
    (hnext : ∀ t, next t = if t + 1 < len then some (t + 1) else none) (fuel : ℕ) :
    ∀ t, t < len → len - t ≤ fuel → reach next fuel t = range' t (len - t) := by
  induction fuel with
  | zero =>
    intro t ht hf
    omega
  | succ fuel ih =>
    intro t ht hf
    rw [reach, hnext]
    obtain ⟨k, hk⟩ : ∃ k, len - t = k + 1 := ⟨len - t - 1, by omega⟩
    rw [hk, range'_succ]
    split_ifs with hlt
    · simp only
      rw [ih (t + 1) hlt (by omega), show len - (t + 1) = k by omega]
    · rw [show k = 0 by omega]
      rfl

lemma linked_eq (hm : HeapOk m) : m.linked = range m.tables.length := by
  rw [TableHeap.linked, reach_eq hm.links _ 0 hm.nonempty (Nat.sub_le _ _), range_eq_range']
  rfl

lemma chain_eq (hm : HeapOk m) : m.chain = m.tables := by
  have hmap : (range m.tables.length).map (fun t => m.tables[t]?) = m.tables.map some := by
    apply ext_getElem <;> simp
  rw [TableHeap.chain, linked_eq hm]
  calc (range m.tables.length).filterMap (fun t => m.tables[t]?)
      = ((range m.tables.length).map fun t => m.tables[t]?).filterMap id := by
        rw [filterMap_map]
        rfl
    _ = m.tables := by
        rw [hmap, filterMap_map]
        exact filterMap_some

lemma search_of_available (hm : HeapOk m) {p : SlotRef} {key : Guid} {item : Option δ}
    (hkey : key ≠ Guid.null) (h : m.Available p key item) :
    m.chain.searchForKey key .availableKey = some p := by
  have hplaced := hm.placed p (h.2.1.trans_ne hkey)
  rw [h.2.1] at hplaced
  rw [chain_eq hm, searchForKey_eq]
  refine find?_eq_some_of_unique (mem_candidates_iff_ref.2 hplaced) ?_ fun q hq => ?_
  · simp only [Slot.isFound, Bool.and_eq_true, beq_iff_eq]
    exact ⟨h.check, h.2.1⟩
  · simp only [Slot.isFound, Bool.and_eq_true, beq_iff_eq] at hq
    exact hm.once q p (hq.2.trans h.2.1.symm) (hq.2.trans_ne hkey)

lemma Ok.intact (h : Ok s) : Intact s where
  found c hc hins := by
    obtain ⟨i, hi⟩ := getElem?_of_mem hc
    have hset : c.pc.settles ∧ c.pc ≠ .start := by
      unfold hasInserted at hins
      cases hpc : c.pc with
      | done r added =>
        rw [hpc] at hins
        exact ⟨hins, nofun⟩
      | _ => simp [hpc] at hins
    obtain ⟨p, hp⟩ := (h.each hi).settles hset.1
    refine ⟨p, search_of_available h.mem ((h.each hi).key hset.2) hp, ?_⟩
    rw [chain_eq h.mem]
    exact hp.2.2
  seen c hc r hl hpc item hb := by
    obtain ⟨i, hi⟩ := getElem?_of_mem hc
    obtain ⟨-, p, hp, -, hdone⟩ := (h.each hi).before hl hb
    exact ⟨p, hdone hpc, hp.2.2⟩
  kept p hp := by
    rw [linked_eq h.mem, mem_range]
    by_contra hge
    refine hp ?_
    rw [slotAt, getElem?_eq_none (Nat.le_of_not_lt hge)]
    rfl
  once i j c d hc hd _ _ hkey hic hid := by
    by_contra hij
    have hcom : ∀ {e : InsertCall δ}, e.hasInserted → e.commits := by
      intro e he
      unfold hasInserted at he
      cases hpc : e.pc with
      | done r added =>
        rw [hpc] at he
        simp [commits, hpc, he]
      | _ => simp [hpc] at he
    exact (h.pair hij hc hd).commits (hcom hic) (hcom hid) hkey

/-- **Calm runs keep every item reachable**, drop no table with items, and of racing insertions of a
key at most one adds its item. -/
theorem intact_of_calm (h : (machine.restrict fun (s : InsertRun δ) i => s.calm i).Reachable s) :
    Intact s := by
  refine Ok.intact (h.invariant (fun _ => Start.ok) fun s i s' _ hok hnext => ?_)
  obtain ⟨hcalm, hstep⟩ := Machine.restrict_next.1 hnext
  exact hok.next hcalm hstep

lemma start_of_keeps {T : Chain δ} {mp : Contents δ} {calls : List (InsertCall δ)}
    (hT : T.Keeps mp) (hfresh : ∀ c ∈ calls, c.pc = .start ∧ c.before = [])
    (hnew : ∀ c ∈ calls, c.isAdd → mp c.key = none)
    (hdistinct : calls.Pairwise fun c d => c.isAdd → d.isAdd → c.key ≠ d.key) :
    Start (⟨TableHeap.ofChain T, calls⟩ : InsertRun δ) where
  keeps := ⟨T, mp, hT, rfl, hnew⟩
  fresh := hfresh
  distinct := by
    intro i j c d hij hc hd hca hda
    obtain ⟨hi, rfl⟩ := List.getElem?_eq_some_iff.1 hc
    obtain ⟨hj, rfl⟩ := List.getElem?_eq_some_iff.1 hd
    rcases Nat.lt_or_gt_of_ne hij with h | h
    · exact pairwise_iff_getElem.1 hdistinct i j hi hj h hca hda
    · exact (pairwise_iff_getElem.1 hdistinct j i hj hi h hda hca).symm

/-- Two racing insertions of a key, and a lookup that begins after one of them has returned. -/
theorem intact_of_calm_race : ∃ s : InsertRun ℕ,
    (machine.restrict fun (s : InsertRun ℕ) i => s.calm i).Reachable s ∧
      (∃ c ∈ s.calls, c.isRace ∧ c.hasInserted) ∧
      (∃ c ∈ s.calls, c.isLookup ∧ c.before = [(1, some 7)] ∧ c.pc = .done (some (0, 8)) false) ∧
      Intact s :=
  Machine.Reachable.exists_and₂ (s := ⟨TableHeap.ofChain [newRouteTable 2 1], [{ key := 1, op := .addRace (some 7) 0 true },
      { key := 1, op := .addRace (some 9) 0 true }, { key := 1, op := .lookup }]⟩)
    (r := [0, 1, 0, 1] ++ replicate 22 0 ++ replicate 3 2 ++ replicate 5 1) (start_of_keeps (Keeps.new 2 1) (by decide) (by decide) (by decide)) (by decide +kernel) fun _ hs _ _ => intact_of_calm hs

/-- **An item is hidden**: it is added between the two steps of another call, which has read the
slot as empty. -/
theorem item_hidden : ∃ s : InsertRun ℕ, machine.Reachable s ∧ ¬ Intact s := by
  obtain ⟨s, hs, c, hc, hins, hnone⟩ := Machine.Reachable.exists_of_exec (M := machine)
    (P := fun s : InsertRun ℕ => ∃ c ∈ s.calls, c.hasInserted = true ∧
      s.mem.chain.searchForKey c.key .availableKey = none)
    (s := ⟨TableHeap.ofChain [newRouteTable 2 1],
      [{ key := 1, op := .add (some 1) 0 false }, { key := 2, op := .add (some 2) 0 false }]⟩)
    (r := [0, 0, 1, 1, 1, 1, 1, 1, 1, 1, 0])
    (start_of_keeps (Keeps.new 2 1) (by decide) (by decide) (by decide)) (by decide +kernel)
  refine ⟨s, hs, fun h => ?_⟩
  obtain ⟨p, hp, -⟩ := h.found c hc hins
  exact absurd (hnone.symm.trans hp) nofun

/-- **A table is dropped.** Two calls find the bucket full and read `next` as `NULL`; the second
pointer overwrites the first. -/
theorem table_dropped : ∃ s : InsertRun ℕ, machine.Reachable s ∧
    ∃ p, (s.mem.tables.slotAt p).lock ≠ 0 ∧ p.1 ∉ s.mem.linked := by
  let ops : List (TableOp ℕ) :=
    [1, 2, 5, 6, 7, 10, 11, 12].map fun key => .add (some 0) key 0 false
  have hsome : (Chain.machine.exec [newRouteTable 2 1] ops).isSome := by decide +kernel
  obtain ⟨T, hT⟩ := isSome_iff_exists.1 hsome
  have hkeeps := ((Keeps.new 2 1).exec (by intro _ z hz; cases mem_singleton.1 hz; decide) hT).1
  obtain ⟨s, hs, hp⟩ := Machine.Reachable.exists_of_exec (M := machine)
    (P := fun s : InsertRun ℕ => (s.mem.tables.slotAt (1, 24)).lock ≠ 0 ∧ 1 ∉ s.mem.linked)
    (s := ⟨TableHeap.ofChain ((Chain.machine.exec [newRouteTable 2 1] ops).getD []),
      [{ key := 15, op := .add (some 15) 0 false }, { key := 16, op := .add (some 16) 0 false }]⟩)
    (r := replicate 14 0 ++ replicate 14 1 ++ replicate 11 0 ++ replicate 3 1)
    (by
      rw [hT]
      exact start_of_keeps hkeeps (by decide) (by decide) (by decide)) (by decide +kernel)
  exact ⟨s, hs, (1, 24), hp⟩

end InsertRun

end Arts
