import Arts.RouteTable.Insertion.Steps

/-!
# Concurrent insertion: the search for the key

With the lock of the GUID, a slot that was passed does not get the key afterwards; a lookup does not
pass an item that was there when it began.
-/

namespace Arts

open Function InsertCall

variable {δ : Type*} {m m' : TableHeap δ} {c d : InsertCall δ} {p q : SlotRef} {t i n : ℕ} {l : Bool}
  {X : InsertPc} {b : List (Guid × Option δ)}

/-- What a search that has come to the `i`-th slot of the table `t` knows. -/
structure Scans (m : TableHeap δ) (c : InsertCall δ) (b : List (Guid × Option δ)) (l : Bool)
    (t i : ℕ) : Prop where
  key : c.key ≠ Guid.null
  race : l → c.isRace
  lock : l → m.guidLock (guidLockIndex c.key)
  table : t < m.tables.length
  passed : l → ∀ p, m.Passed c.key t i p → (m.slot p).key ≠ c.key
  before : c.isLookup → ∀ {item}, (c.key, item) ∈ b → ∃ p, m.Available p c.key item ∧
    ¬ m.Passed c.key t i p

lemma CallOk.scans (hc : CallOk m c) (hs : c.pc ≠ .start) (hp : c.pc.passed = some (l, t, i)) :
    Scans m c c.before l t i where
  key := hc.key hs
  race hl := by
    subst hl
    exact (hc.inLock_of_passed hp).1
  lock hl := by
    subst hl
    exact hc.lock (hc.inLock_of_passed hp).2
  table := hc.lt_of_passed hp
  passed hl := by
    subst hl
    exact hc.passed hp
  before hl := by
    intro item hb
    obtain ⟨-, p, hav, hpassed, -⟩ := hc.before hl hb
    exact ⟨p, hav, hpassed hp⟩

namespace Scans

lemma callOk (h : Scans m c b l t i) (hX : X.isSearching) (hXp : X.passed = some (l, t, i))
    (hplace : ∀ {t' j}, X.place = some (t', j) → t' = t ∧ j < collisionResolves)
    (hgoes : ∀ {t n}, X.goes = some (t, n) → n = t + 1 ∧ n < m.tables.length)
    (hseeks : X.seeks → ∀ p, (m.slot p).key ≠ c.key)
    (hend : c.isLookup → X.ended → ∀ item, (c.key, item) ∉ b) :
    CallOk m { c with pc := X, before := b } := by
  have hfacts : X.counts = none ∧ (∀ r, X ≠ .done r false) ∧ (X.ofRace → l) ∧ (X.locks → l) := by
    cases X with
    | scan | scanKey =>
      cases hXp
      exact ⟨rfl, nofun, by cases l <;> simp, by cases l <;> simp⟩
    | readNext why t' r =>
      cases why with
      | scan =>
        cases hXp
        exact ⟨rfl, nofun, by cases l <;> simp, by cases l <;> simp⟩
      | _ => cases hXp
    | _ => cases hXp
  obtain ⟨hcounts, hdone, hrace, hlocks⟩ := hfacts
  refine CallOk.searching h.key (fun hr => h.race (hrace hr)) (fun _ hl => h.lock (hlocks hl)) hX
    (fun hp => ?_) hgoes (fun hp => ?_) hseeks (fun hp => absurd (hcounts.symm.trans hp) nofun) ?_
  · obtain ⟨rfl, hj⟩ := hplace hp
    exact ⟨h.table, hj⟩
  · cases hXp.symm.trans hp
    exact h.passed rfl
  · intro hl item hb
    obtain ⟨p, hav, hnot⟩ := h.before hl hb
    refine ⟨Bool.eq_false_iff.2 fun he => hend hl he item hb, p, hav, fun hp => ?_,
      fun hp => absurd hp (hdone _)⟩
    cases hXp.symm.trans hp
    exact hnot

lemma scanOn (h : Scans m c b l t i) (hi : i ≤ collisionResolves) :
    CallOk m { c with pc := scanOn l t i, before := b } := by
  unfold InsertCall.scanOn
  split_ifs with hlt
  · exact h.callOk rfl rfl (by simp; omega) (by simp) (by simp) (by simp)
  · obtain rfl : i = collisionResolves := by omega
    exact h.callOk rfl rfl (by simp [collisionResolves]) (by simp) (by cases l <;> simp)
      (by cases l <;> simp)

lemma pass (h : Scans m c b l t i) (hkey : l → (m.slot (m.ref c.key t i)).key ≠ c.key)
    (hav : ∀ {item}, ¬ m.Available (m.ref c.key t i) c.key item ∨ c.isLookup = false) :
    Scans m c b l t (i + 1) where
  __ := h
  passed hl p hp := by
    rcases HeapOk.passed_step.1 hp with hp | rfl
    · exact h.passed hl p hp
    · exact hkey hl
  before hl := by
    intro item hb
    obtain ⟨p, hp, hnot⟩ := h.before hl hb
    refine ⟨p, hp, fun hpass => ?_⟩
    rcases HeapOk.passed_step.1 hpass with hpass | rfl
    · exact hnot hpass
    · exact hav.elim (fun hno => hno hp) fun hno => absurd (hno.symm.trans hl) nofun

lemma next (hm : HeapOk m) (h : Scans m c b l t collisionResolves) (ht : t + 1 < m.tables.length) :
    Scans m c b l (t + 1) 0 where
  __ := h
  table := ht
  passed hl p hp hkey := h.passed hl p ((hm.passed_succ hkey h.key).1 hp) hkey
  before hl := by
    intro item hb
    obtain ⟨p, hp, hnot⟩ := h.before hl hb
    exact ⟨p, hp, fun hpass => hnot ((hm.passed_succ hp.2.1 h.key).1 hpass)⟩

lemma first (hm : HeapOk m) (hkey : c.key ≠ Guid.null) (hrace : l → c.isRace)
    (hlock : l → m.guidLock (guidLockIndex c.key))
    (hb : c.isLookup → ∀ {item}, (c.key, item) ∈ b → ∃ p, m.Available p c.key item) :
    Scans m c b l 0 0 where
  key := hkey
  race := hrace
  lock := hlock
  table := hm.nonempty
  passed _ p hp hk := hm.not_passed_zero hk hkey hp
  before hl := by
    intro item hmem
    obtain ⟨p, hp⟩ := hb hl hmem
    exact ⟨p, hp, hm.not_passed_zero hp.2.1 hkey⟩

end Scans

/-! ### Two calls -/

lemma Apart.searching (h : Apart c d) (hs : c.pc ≠ .start) (hX : X.isSearching)
    (hseeks : X.seeks = false) (hlock : X.locks → c.pc.locks) :
    Apart { c with pc := X, before := b } d := by
  have hfacts : X.owns = none ∧ X.settles = false ∧ X ≠ .start := by
    cases X with
    | isFree | swap | scan | scanKey | check | failed => exact ⟨rfl, rfl, nofun⟩
    | release added | done r added =>
      cases added with
      | false => exact ⟨rfl, rfl, nofun⟩
      | true => cases hX
    | readNext why t r =>
      cases why with
      | scan => exact ⟨rfl, rfl, nofun⟩
      | _ => cases hX
    | _ => cases hX
  obtain ⟨howns, hsettles, hstart⟩ := hfacts
  refine h.mono hs (fun _ => hlock) (fun hp => absurd (howns.symm.trans hp) nofun) fun hcom => ?_
  rw [commits_eq b hstart, hseeks, howns, hsettles] at hcom
  cases hcom

/-- If another call with the key of `c`, which holds the lock, adds an item, it has done so. -/
theorem CallOk.settles_of_commits (hd : CallOk m d) (ha : Apart c d)
    (hs : c.pc ≠ .start) (hlock : c.inLock) (hkey : c.key = d.key) (hcom : d.commits) :
    d.pc.settles := by
  have hrace : c.isRace := (Bool.and_eq_true_iff.1 hlock).1
  have hc' := c.isLookup_of_isRace hrace
  -- a call that has not added its item yet holds the same lock
  have hno : d.isLookup = false → d.pc.locks → False := by
    intro hl hlocks
    obtain ⟨-, hdr⟩ := ha.race (.inl hs) hkey hc' hl
    exact ha.lock hlock (Bool.and_eq_true_iff.2 ⟨hdr, hlocks⟩) (by rw [hkey])
  simp only [InsertCall.commits, InsertCall.seeks, Bool.or_eq_true, Bool.and_eq_true] at hcom
  rcases hcom with ((hseeks | ⟨hadd, -⟩) | howns) | hsettles
  · have hfacts : (d.pc.ofRace ∨ d.pc.ofInsert) ∧ d.pc.locks := by
      cases hpc : d.pc with
      | probe | reserve | setKey | tryLock | drain | grow | writerUnlock => exact ⟨.inr rfl, rfl⟩
      | readNext why t r =>
        rw [hpc] at hseeks
        cases why with
        | empty | again => exact ⟨.inr rfl, rfl⟩
        | scan l =>
          cases l with
          | true => exact ⟨.inl rfl, rfl⟩
          | false => cases hseeks
      | _ => simp [hpc] at hseeks
    exact (hno (hd.not_lookup hfacts.1) hfacts.2).elim
  · have hl : d.isLookup = false ∧ d.isRace = false := by
      cases hop : d.op <;> simp [isAdd, isLookup, isRace, hop] at hadd ⊢
    obtain ⟨-, hdr⟩ := ha.race (.inl hs) hkey hc' hl.1
    exact absurd (hl.2.symm.trans hdr) (by simp)
  · have hfacts : d.pc.ofInsert ∧ d.pc.locks := by
      cases hpc : d.pc with
      | setKey | setData | setRank | writeRead | writeSwap => exact ⟨rfl, rfl⟩
      | _ => simp [hpc] at howns
    exact (hno (hd.not_lookup (.inr hfacts.1)) hfacts.2).elim
  · exact hsettles

/-! ### The steps of the search -/

section Steps

variable (hm : HeapOk m) (hc : CallOk m c)

include hm hc

lemma stepOk_isFree (hpc : c.pc = .isFree) : StepOk m m c { c with
    pc := if m.guidLock (guidLockIndex c.key) then .scan false 0 0 else .swap, before := c.before } := by
  have hs : c.pc ≠ .start := by simp [hpc]
  have hrace : c.isRace := hc.race (by simp [hpc])
  have hl := c.isLookup_of_isRace hrace
  have hscan : Scans m c c.before false 0 0 :=
    Scans.first hm (hc.key hs) nofun nofun fun h => absurd (hl.symm.trans h) nofun
  split_ifs
  · exact .quiet (.refl m) hm (hscan.scanOn (Nat.zero_le _)) fun _ ha => ha.searching hs rfl rfl nofun
  · exact .quiet (.refl m) hm
      (CallOk.searching (hc.key hs) (fun _ => hrace) nofun rfl nofun nofun nofun nofun nofun
        fun h => absurd (hl.symm.trans h) nofun)
      fun _ ha => ha.searching hs rfl rfl nofun

lemma stepOk_scan (hpc : c.pc = .scan l t i) : StepOk m m c { c with
    pc := if checkItemState (m.slot (m.ref c.key t i)).lock (asked l) then
      .scanKey l t i else scanOn l t (i + 1), before := c.before } := by
  have hs : c.pc ≠ .start := by simp [hpc]
  have hscan := hc.scans (l := l) (t := t) (i := i) hs (by simp [hpc])
  have hi := (hc.place (t := t) (i := i) (by simp [hpc])).2
  split_ifs with hcheck
  · refine .quiet (.refl m) hm (hscan.callOk rfl rfl (by simp [hi]) nofun nofun nofun) fun _ ha => ?_
    exact ha.searching hs rfl rfl (by cases l <;> simp [hpc])
  · refine .quiet (.refl m) hm ((hscan.pass (fun hl => ?_) fun {item} => ?_).scanOn hi) fun _ ha => ?_
    · subst hl
      rw [hm.key_of_not_allocated hcheck]
      exact hscan.key.symm
    · cases l with
      | false => exact .inl fun hav => hcheck hav.check
      | true => exact .inr (c.isLookup_of_isRace (hscan.race rfl))
    · unfold scanOn
      split_ifs
      · exact ha.searching hs rfl rfl (by cases l <;> simp [hpc])
      · exact ha.searching hs rfl (by cases l <;> rfl) (by cases l <;> simp [hpc])

lemma stepOk_scanKey (hpc : c.pc = .scanKey l t i) : StepOk m m c { c with
    pc := if (m.slot (m.ref c.key t i)).key = c.key then
      if l then .check (m.ref c.key t i) else .done (some (m.ref c.key t i)) false
      else scanOn l t (i + 1), before := c.before } := by
  have hs : c.pc ≠ .start := by simp [hpc]
  have hscan := hc.scans (l := l) (t := t) (i := i) hs (by simp [hpc])
  have hi := (hc.place (t := t) (i := i) (by simp [hpc])).2
  split_ifs with hkey hl
  · subst hl
    have hrace := hscan.race rfl
    have hnl := c.isLookup_of_isRace hrace
    refine .quiet (.refl m) hm (CallOk.searching hscan.key (fun _ => hrace) (fun _ _ => hscan.lock rfl)
      rfl nofun nofun nofun nofun (fun hp => ?_) fun h => absurd (hnl.symm.trans h) nofun) fun _ ha => ?_
    · cases hp
      exact hkey
    · exact ha.searching hs rfl rfl (by simp [hpc])
  · refine .quiet (.refl m) hm (CallOk.searching hscan.key nofun nofun rfl nofun nofun nofun nofun nofun
      fun hlk {item} hb => ?_) fun _ ha => ?_
    · obtain ⟨p, hav, -⟩ := hscan.before hlk hb
      refine ⟨rfl, p, hav, nofun, fun hr => ?_⟩
      cases hr
      rw [hm.once p _ (hav.2.1.trans hkey.symm) (hav.2.1.trans_ne hscan.key)]
    · exact ha.searching hs rfl rfl nofun
  · refine .quiet (.refl m) hm ((hscan.pass (fun _ => hkey) fun {item} =>
      .inl fun hav => hkey hav.2.1).scanOn hi) fun _ ha => ?_
    unfold scanOn
    split_ifs
    · exact ha.searching hs rfl rfl (by cases l <;> simp [hpc])
    · exact ha.searching hs rfl (by cases l <;> rfl) (by cases l <;> simp [hpc])

lemma stepOk_swap (hpc : c.pc = .swap) (hfree : m.guidLock (guidLockIndex c.key) = false) :
    StepOk m (m.setGuidLock c.key true) c { c with pc := .scan true 0 0, before := c.before } := by
  have hs : c.pc ≠ .start := by simp [hpc]
  have hrace : c.isRace := hc.race (by simp [hpc])
  have hnl := c.isLookup_of_isRace hrace
  have hm' : HeapOk (m.setGuidLock c.key true) :=
    { hm with }
  have hset : (m.setGuidLock c.key true).guidLock (guidLockIndex c.key) = true :=
    update_self _ _ _
  have hscan : Scans (m.setGuidLock c.key true) c c.before true 0 0 :=
    Scans.first hm' (hc.key hs) (fun _ => hrace) (fun _ => hset) fun h => absurd (hnl.symm.trans h) nofun
  refine ⟨hm', hscan.scanOn (Nat.zero_le _), ?_, fun {d} hd ha => ?_⟩
  · have hr := Evolves.refl m c
    refine { hr with guidLock := fun l hl => .inl ?_ }
    show update m.guidLock _ true l = true
    by_cases hlx : l = guidLockIndex c.key
    · rw [hlx, update_self]
    · rwa [update_of_ne hlx]
  · refine ⟨fun _ => ha.race (.inl hs), fun _ hdl heq => ?_, nofun, fun hcom => ?_⟩
    · have hheld := hd.lock hdl
      rw [← show guidLockIndex c.key = guidLockIndex d.key from heq, hfree] at hheld
      cases hheld
    · have hno := commits_eq (c := c) (X := .scan true 0 0) c.before nofun
      exact absurd (hno.symm.trans hcom) nofun

lemma stepOk_readScan (r : ReadPc) (hpc : c.pc = .readNext (.scan l) t r) :
    StepOk m (c.stepRead m (.scan l) t r).1 c
      { c with pc := (c.stepRead m (.scan l) t r).2, before := c.before } := by
  have hs : c.pc ≠ .start := by simp [hpc]
  have hscan := hc.scans (l := l) (t := t) (i := collisionResolves) hs (by simp [hpc])
  have hstay : ∀ {m' r'}, m.Quiet m' → (∀ n, r' ≠ .leave n) →
      StepOk m m' c { c with pc := .readNext (.scan l) t r', before := c.before } := by
    intro m' r' hq hr
    have hfacts : InsertPc.goes (.readNext (.scan l) t r') = none ∧
        InsertPc.seeks (.readNext (.scan l) t r') = false ∧
        InsertPc.ended (.readNext (.scan l) t r') = false := by
      cases r' with
      | leave n => exact absurd rfl (hr n)
      | _ => cases l <;> exact ⟨rfl, rfl, rfl⟩
    refine .quiet hq hm (hscan.callOk rfl rfl (by simp [collisionResolves])
      (fun hg => absurd (hfacts.1.symm.trans hg) (by simp))
      (fun hg => absurd (hfacts.2.1.symm.trans hg) (by simp))
      fun _ hg => absurd (hfacts.2.2.symm.trans hg) (by simp)) fun _ ha => ?_
    exact ha.searching hs rfl hfacts.2.1 (by cases l <;> simp [hpc])
  cases r with
  | wait | check =>
    refine hstay (.refl m) ?_
    split_ifs <;> simp
  | count | uncount => exact hstay (.setWords _ _ _) (by simp)
  | read =>
    show StepOk m m c { c with pc := .readNext (.scan l) t (.leave (m.next t)), before := c.before }
    cases hn : m.next t with
    | some n =>
      refine .quiet (.refl m) hm (hscan.callOk rfl rfl (by simp [collisionResolves]) (fun hg => ?_)
        (by cases l <;> simp) (by cases l <;> simp)) fun _ ha => ?_
      · cases hg
        exact hm.next_eq_some hn
      · exact ha.searching hs rfl (by cases l <;> rfl) (by cases l <;> simp [hpc])
    | none =>
      have habs : l → ∀ p, (m.slot p).key ≠ c.key := fun hl p hk =>
        hscan.passed hl p (hm.passed_of_last hn hk hscan.key) hk
      refine .quiet (.refl m) hm (hscan.callOk rfl rfl (by simp [collisionResolves]) (by simp) ?_ ?_)
        fun {d} hd ha => ?_
      · cases l with
        | true => exact fun _ => habs rfl
        | false => simp
      · intro hl _ item hb
        obtain ⟨p, hav, hnot⟩ := hscan.before hl hb
        exact hnot (hm.passed_of_last hn hav.2.1 hscan.key)
      · cases l with
        | false => exact ha.searching hs rfl rfl (by simp)
        | true =>
          refine ⟨fun _ => ha.race (.inl hs), fun hcl hdl => ?_, by simp, fun _ hcom hkey => ?_⟩
          · exact ha.lock (by simpa [inLock, hpc, isRace] using hcl) hdl
          · have hset := hd.settles_of_commits ha hs
              (by simp [inLock, hpc, hscan.race rfl]) hkey hcom
            obtain ⟨p, hav⟩ := hd.settles hset
            exact habs rfl p (hav.2.1.trans hkey.symm)
  | leave n =>
    have hq := TableHeap.Quiet.setWords m t { m.words t with reader := (m.words t).reader - 1 }
    cases n with
    | some n =>
      obtain ⟨rfl, hlt⟩ := hc.goes (t := t) (n := n) (by simp [hpc])
      show StepOk m _ c { c with pc := .scan l (t + 1) 0, before := c.before }
      refine .quiet hq hm ((hscan.next hm hlt).scanOn (Nat.zero_le _)) fun _ ha => ?_
      exact ha.searching hs rfl rfl (by cases l <;> simp [hpc])
    | none =>
      cases l with
      | true =>
        have habs := hc.seeks (by simp [seeks, hpc])
        have hrace := hscan.race rfl
        refine .quiet hq hm (CallOk.seeking hscan.key (c.isLookup_of_isRace hrace) habs
          (fun _ => hscan.lock rfl) rfl (fun hp => ?_) (by rintro _ _ ⟨⟩)) fun _ ha => ?_
        · cases hp
          exact ⟨hm.nonempty, by decide⟩
        · exact ha.mono hs (by simp [hpc]) (by rintro _ _ ⟨⟩) (by simp [commits, seeks, hpc])
      | false =>
        show StepOk m _ c { c with pc := if c.isRace then .isFree else .done none false, before := c.before }
        split_ifs with hrace
        · have hnl := c.isLookup_of_isRace hrace
          exact .quiet hq hm (CallOk.searching hscan.key (fun _ => hrace) (by simp) rfl (by simp) (by simp) (by simp) (by simp)
            (by simp) fun h => absurd (hnl.symm.trans h) (by simp)) fun _ ha => ha.searching hs rfl rfl (by simp)
        · refine .quiet hq hm (CallOk.searching hscan.key (by simp) (by simp) rfl (by simp) (by simp) (by simp) (by simp) (by simp)
            fun hlk {item} hb => ?_) fun _ ha => ha.searching hs rfl rfl (by simp)
          have hend := (hc.before hlk hb).1
          simp [hpc] at hend

lemma stepOk_check (hpc : c.pc = .check p) : StepOk m m c { c with
    pc := if checkItemState (m.slot p).lock .reservedKey then .setData p false else .release false,
    before := c.before } := by
  have hs : c.pc ≠ .start := by simp [hpc]
  have hkey := hc.key hs
  have hrace : c.isRace := hc.race (by simp [hpc])
  have hnl := c.isLookup_of_isRace hrace
  have hlock := hc.guidLock (by simp [hpc])
  have hpk := (hc.counts (p := p) (k := none) (by simp [hpc])).1
  split_ifs with hres
  · have hplaced := hm.placed p (hpk.trans_ne hkey)
    rw [hpk] at hplaced
    have hword : ∃ n < 2 ^ 61, (m.slot p).lock = word 4 n := by
      rcases hm.clean p with ⟨-, h0⟩ | ⟨s, n, hs, hn, hl⟩
      · exact absurd (hpk.symm.trans h0) hkey
      · rw [hl, checkItemState, isRes_word (by omega) hn, decide_eq_true_eq] at hres
        exact ⟨n, hn, hres ▸ hl⟩
    refine .quiet (.refl m) hm (CallOk.owning true hkey hnl hlock ⟨hword, hpk, hplaced⟩ (by simp) (by simp) rfl)
      fun {d} hd ha => ?_
    have hcl : c.inLock := by simp [inLock, hrace, hpc]
    -- nobody else adds the key, or the item would be available
    have hcommits : d.commits → c.key ≠ d.key := by
      intro hcom heq
      obtain ⟨q, ⟨n', hn', hq⟩, hqk, -⟩ := hd.settles (hd.settles_of_commits ha hs hcl heq hcom)
      obtain ⟨n, hn, hl⟩ := hword
      obtain rfl := hm.once p q (hpk.trans (heq.trans hqk.symm)) (hpk.trans_ne hkey)
      rw [hl] at hq
      exact absurd hq (word_ne (by decide) (by decide) hn hn' (by decide))
    refine ⟨fun _ => ha.race (.inl hs), fun _ => ha.lock hcl, fun {q q' b b'} hq hq' => ?_,
      fun _ => hcommits⟩
    cases hq
    rintro rfl
    obtain ⟨-, hk, -⟩ := hd.owns hq'
    cases b' with
    | false => exact hkey (hpk.symm.trans hk)
    | true => exact hcommits (commits_of_owns hq') (hpk.symm.trans hk)
  · exact .quiet (.refl m) hm (CallOk.searching hkey (fun _ => hrace) (fun hr _ => hlock hr) rfl (by simp) (by simp)
      (by simp) (by simp) (by simp) fun h => absurd (hnl.symm.trans h) (by simp))
      fun _ ha => ha.searching hs rfl rfl (by simp [hpc])

end Steps

end Arts
