import Arts.Machine.Pool
import Arts.RouteTable.Item

/-!
# Receivers that wait for the state of an item

`arts_route_table_update_item` searches for the item in the state that was read before. It returns
(**`ReceiveRun.answered_of_calm`**) unless the item is made available meanwhile
(`ReceiveRun.update_hangs`).
-/

namespace Arts

open List Option

/-! ### The model -/

inductive DbMessage where
  /-- `DB_SEND`; `same` says whether a copy that is there has the size of the one that arrives. -/
  | dbSend (same : Bool)
  /-- `DB_FULL_SEND` -/
  | dbFullSend
  deriving DecidableEq

/-- The item of the datablock and the lock of its GUID. -/
structure DbTable where
  item : RouteItem
  guidLock : Bool := false
  deriving DecidableEq

inductive ReceivePc where
  | idle
  -- `arts_remote_handle_db_received`, first `arts_route_table_lookup_item_with_state`
  | lookup (same : Bool)
  | lookupInc (same : Bool)
  | lookupState (same : Bool)
  | lookupData (same : Bool) (state : KeyState)
  -- `arts_route_table_add_item_race`
  | addTry
  | addBusy
  | addSearch
  | addCheck
  | addEmpty
  | addData
  | addMark
  | addUnlock (added : Bool)
  -- `arts_remote_handle_db_full_recieved`, first `arts_route_table_reserve`
  | reserveTry
  | reserveBusy
  | reserveBusyInc
  | reserveSearch
  | reserveInc
  | reserveEmpty
  | reserveUnlock (new : Bool)
  | reserveUse
  | reserveState
  | reserveData (state : KeyState)
  -- `arts_route_table_update_item`
  | updateSearch (state : KeyState) (data : Option UInt32)
  | updateData (data : Option UInt32)
  | updateMark
  /-- `arts_route_table_fire_oo` -/
  | fire
  deriving DecidableEq

structure ReceiveThread where
  pc : ReceivePc := .idle
  inbox : List DbMessage := []
  deriving DecidableEq

def DbMessage.start : DbMessage → ReceivePc
  | dbSend same => .lookup same
  | dbFullSend => .reserveTry

namespace ReceivePc

/-- The handler after it has read the state and the data of the item; the data that are there are used
again if the item is requested. -/
def received (same : Bool) (data : Option UInt32) : KeyState → ReceivePc
  | .requestedKey => if data.isSome && same then .updateSearch .requestedKey data else .idle
  | .reservedKey => .updateSearch .reservedKey (some 1)
  | _ => .addTry

@[grind =] def step (guid : Guid) (self : ℕ) (m : DbTable) : ReceivePc → DbTable × ReceivePc
  | idle => (m, .idle)
  | lookup same => (m, if m.item.found guid .allocatedKey then .lookupInc same else .addTry)
  | lookupInc same =>
    let r := m.item.incItem 1 m.item.key
    ({ m with item := r.1 }, if r.2 then .lookupState same else .addTry)
  | lookupState same => (m, .lookupData same (getItemState m.item.lock))
  | lookupData same state => (m, received same m.item.data state)
  | addTry => if m.guidLock then (m, .addBusy) else ({ m with guidLock := true }, .addSearch)
  | addBusy => (m, if m.item.found guid .availableKey then .idle else .addTry)
  | addSearch => (m, if m.item.found guid .allocatedKey then .addCheck else .addEmpty)
  | addCheck => (m, if checkItemState m.item.lock .reservedKey then .addData else .addUnlock false)
  | addEmpty => ({ m with item := m.item.searchForEmpty guid false }, .addData)
  | addData => ({ m with item := { m.item with data := some 1, rank := self } }, .addMark)
  | addMark => ({ m with item := m.item.markWrite }, .addUnlock true)
  | addUnlock added => ({ m with guidLock := false }, if added then .fire else .idle)
  | reserveTry => if m.guidLock then (m, .reserveBusy) else ({ m with guidLock := true }, .reserveSearch)
  | reserveBusy => (m, if m.item.found guid .allocatedKey then .reserveBusyInc else .reserveTry)
  | reserveBusyInc => ({ m with item := (m.item.incItem 1 m.item.key).1 }, .reserveUse)
  | reserveSearch => (m, if m.item.found guid .allocatedKey then .reserveInc else .reserveEmpty)
  | reserveInc => ({ m with item := (m.item.incItem 1 m.item.key).1 }, .reserveUnlock false)
  | reserveEmpty => ({ m with item := m.item.searchForEmpty guid true }, .reserveUnlock true)
  | reserveUnlock new => ({ m with guidLock := false }, if new then .reserveState else .reserveUse)
  | reserveUse =>
    let r := m.item.incItem 1 m.item.key
    ({ m with item := r.1 }, if r.2 then .reserveState else .reserveTry)
  | reserveState => (m, .reserveData (getItemState m.item.lock))
  | reserveData state => (m, .updateSearch state (some (m.item.data.getD 1)))
  | updateSearch state data =>
    (m, if m.item.found guid state then .updateData data else .updateSearch state data)
  | updateData data => ({ m with item := { m.item with data := data, rank := self } }, .updateMark)
  | updateMark => ({ m with item := m.item.markWrite }, .fire)
  | fire => (m, .idle)

/-- The thread is in `arts_route_table_update_item`. -/
def inUpdate : ReceivePc → Bool
  | updateSearch _ _ | updateData _ | updateMark => true
  | _ => false

/-- The thread is at `mark_write`. -/
def marks : ReceivePc → Bool
  | addMark | updateMark => true
  | _ => false

/-- The state that the thread has read, until it has found the item in it. -/
def carries : ReceivePc → Option KeyState
  | lookupData _ state | reserveData state | updateSearch state _ => some state
  | _ => none

def awaits (pc : ReceivePc) : Bool :=
  pc.carries = some .reservedKey || pc.carries = some .requestedKey

end ReceivePc

/-- A step of a thread; an idle thread goes on to its next message. -/
def ReceiveThread.step (guid : Guid) (self : ℕ) (m : DbTable) (c : ReceiveThread) :
    Option (DbTable × ReceiveThread) :=
  if c.pc = .idle then
    match c.inbox with
    | [] => none
    | q :: inbox => some (m, { pc := q.start, inbox := inbox })
  else some ((c.pc.step guid self m).1, { c with pc := (c.pc.step guid self m).2 })

abbrev ReceiveRun := Pool DbTable ReceiveThread

namespace ReceiveRun

/-- The item is absent, reserved (4), requested (6) or available (2), and the threads are idle. -/
def Start (guid : Guid) (s : ReceiveRun) : Prop :=
  (s.mem.item.lock = 0 ∨ ∃ t n, (t = 4 ∨ t = 6 ∨ t = 2) ∧ s.mem.item.Is guid t n) ∧
    s.mem.guidLock = false ∧ ∀ c ∈ s.calls, c.pc = .idle

/-- All interleavings of the threads of the rank `self`. -/
def machine (guid : Guid) (self : ℕ) : Machine ReceiveRun ℕ :=
  Pool.machine (Start guid) (ReceiveThread.step guid self)

/-- Every search for the item finds it, and every `arts_route_table_update_item` returns after at most
three steps of its thread. -/
structure Answered (guid : Guid) (rank : ℕ) (s : ReceiveRun) : Prop where
  found : ∀ {i : ℕ} {c state data}, s.calls[i]? = some c → c.pc = .updateSearch state data →
    s.mem.item.found guid state
  returns : ∀ {i : ℕ} {c}, s.calls[i]? = some c → c.pc.inUpdate → ∃ k ≤ 3, ∃ s',
    (machine guid rank).exec s (replicate k i) = some s' ∧
      ∀ c', s'.calls[i]? = some c' → ¬ c'.pc.inUpdate

/-- A thread makes the item available only while no other thread has read that it is reserved or
requested and is still to search for it. -/
def calm (s : ReceiveRun) (i : ℕ) : Prop :=
  (s.calls[i]?).any (fun c => c.pc.marks) → s.mem.item.lock &&& reservedItem ≠ 0 →
    ∀ j < s.calls.length, j ≠ i → ¬ (s.calls[j]?).any (fun d => d.pc.awaits)

instance decidableCalm (s : ReceiveRun) (i : ℕ) : Decidable (calm s i) :=
  inferInstanceAs (Decidable (_ → _ → ∀ j < s.calls.length, _))

end ReceiveRun

/-! ### The item -/

/-- The item is absent, or in one of the states in which it may start. -/
def ItemOk (guid : Guid) (i : RouteItem) : Prop := i.lock = 0 ∨ ∃ t, i.At guid t

variable {guid : Guid} {i : RouteItem}

lemma ItemOk.lock_of_not_found (h : ItemOk guid i)
    (hno : i.found guid .allocatedKey = false) : i.lock = 0 :=
  h.resolve_right fun ⟨_, ht⟩ => by simp [ht.allocated_found] at hno

lemma ItemOk.at_of_found (h : ItemOk guid i)
    (hfound : i.found guid .allocatedKey = true) : ∃ t, i.At guid t :=
  h.resolve_left fun h0 => by simp [RouteItem.found_of_empty h0] at hfound

/-! ### Steps -/

namespace ReceivePc

def holds : ReceivePc → Bool
  | addSearch | addCheck | addEmpty | addData | addMark | addUnlock _ => true
  | reserveSearch | reserveInc | reserveEmpty | reserveUnlock _ => true
  | _ => false

def empties : ReceivePc → Bool
  | addEmpty | reserveEmpty => true
  | _ => false

lemma holds_of_empties {pc : ReceivePc} (h : pc.empties) : pc.holds := by
  cases pc with
  | addEmpty | reserveEmpty => rfl
  | _ => cases h

def hasItem : ReceivePc → Bool
  | lookupInc _ | lookupState _ | lookupData _ _ | reserveBusyInc | reserveInc | reserveUnlock _ => true
  | reserveUse | reserveState | reserveData _ | updateSearch _ _ => true
  | _ => false

variable {guid : Guid} {self : ℕ} {m : DbTable} {pc : ReceivePc} {t : ℕ}

/-- **What a step does to an item that is there.** -/
theorem step_of_at (h : m.item.At guid t) (he : pc.empties = false) :
    (pc.step guid self m).1.item.At guid (if pc.marks then 2 else t) := by
  cases pc with
  | lookupInc | reserveBusyInc | reserveInc | reserveUse => exact h.inc
  | addMark | updateMark => exact h.markWrite
  | addTry | reserveTry => cases hl : m.guidLock <;> simpa [step, hl, marks] using h
  | addEmpty | reserveEmpty => cases he
  | addData | updateData =>
    obtain ⟨ht, n, hi⟩ := h
    exact ⟨ht, n, hi.key, hi.lock, hi.status_lt, hi.count_lt⟩
  | _ => exact h

lemma step_of_empty (h : m.item.lock = 0) (he : pc.empties = false) (hi : pc.hasItem = false) :
    (pc.step guid self m).1.item.lock = 0 := by
  cases pc with
  | lookupInc | reserveBusyInc | reserveInc | reserveUse => cases hi
  | addMark | updateMark =>
    have hres : ¬ m.item.lock &&& reservedItem ≠ 0 := by rw [h]; decide
    show m.item.markWrite.lock = 0
    rwa [RouteItem.markWrite, if_neg hres]
  | addTry | reserveTry => cases hl : m.guidLock <;> simpa [step, hl] using h
  | addEmpty | reserveEmpty => cases he
  | _ => exact h

lemma step_of_empties (he : pc.empties) : (pc.step guid self m).1.item.At guid 4 := by
  cases pc with
  | addEmpty => exact RouteItem.At.searchForEmpty _ _ false
  | reserveEmpty => exact RouteItem.At.searchForEmpty _ _ true
  | _ => cases he

lemma step_guidLock (h : m.guidLock = true) (hh : pc.holds = false) :
    (pc.step guid self m).1.guidLock = true := by
  cases pc with
  | addTry | reserveTry => simp [step, h]
  | addUnlock | reserveUnlock => cases hh
  | _ => exact h

lemma holds_step (hh : (pc.step guid self m).2.holds) : pc.holds ∨ m.guidLock = false := by
  cases pc with
  | addTry | reserveTry => exact .inr (by by_contra hl; simp_all [step, holds])
  | addSearch | addCheck | addEmpty | addData | addMark | addUnlock => exact .inl rfl
  | reserveSearch | reserveInc | reserveEmpty | reserveUnlock => exact .inl rfl
  | lookupData same state =>
    cases state <;> simp only [step, received] at hh <;>
      first | cases hh | (split_ifs at hh <;> cases hh)
  | _ =>
    simp only [step] at hh
    first | cases hh | (split_ifs at hh <;> cases hh)

lemma hasItem_step (hh : (pc.step guid self m).2.hasItem) :
    pc.hasItem ∨ pc.empties ∨ m.item.found guid .allocatedKey := by
  cases pc with
  | lookup | reserveBusy | reserveSearch =>
    refine .inr (.inr ?_)
    by_contra hno
    simp [step, hno, hasItem] at hh
  | reserveEmpty => exact .inr (.inl rfl)
  | lookupInc | lookupState | lookupData | reserveBusyInc | reserveInc | reserveUnlock => exact .inl rfl
  | reserveUse | reserveState | reserveData | updateSearch => exact .inl rfl
  | _ =>
    simp only [step] at hh
    first | cases hh | (split_ifs at hh <;> cases hh)

lemma empties_step (hh : (pc.step guid self m).2.empties) :
    m.item.found guid .allocatedKey = false ∧ (pc.step guid self m).1 = m := by
  cases pc with
  | addSearch | reserveSearch =>
    cases hf : m.item.found guid .allocatedKey with
    | false => exact ⟨rfl, rfl⟩
    | true => simp [step, hf, empties] at hh
  | lookupData same state =>
    cases state <;> simp only [step, received] at hh <;>
      first | cases hh | (split_ifs at hh <;> cases hh)
  | _ =>
    simp only [step] at hh
    first | cases hh | (split_ifs at hh <;> cases hh)

lemma guidLock_step (hh : (pc.step guid self m).2.holds) (hl : pc.holds → m.guidLock = true) :
    (pc.step guid self m).1.guidLock = true := by
  cases pc with
  | addTry | reserveTry => cases hg : m.guidLock <;> simp [step, hg]
  | addUnlock | reserveUnlock =>
    simp only [step] at hh
    split_ifs at hh <;> cases hh
  | addSearch | addCheck | addEmpty | addData | addMark => exact hl rfl
  | reserveSearch | reserveInc | reserveEmpty => exact hl rfl
  | lookupData same state =>
    cases state <;> simp only [step, received] at hh <;>
      first | cases hh | (split_ifs at hh <;> cases hh)
  | _ =>
    simp only [step] at hh
    first | cases hh | (split_ifs at hh <;> cases hh)

variable {state : KeyState}

lemma carries_step (hh : (pc.step guid self m).2.carries = some state) :
    (pc.step guid self m).1 = m ∧ (getItemState m.item.lock = state ∨ pc.carries = some state) := by
  cases pc with
  | lookupState | reserveState => exact ⟨rfl, .inl (some.inj hh)⟩
  | reserveData => exact ⟨rfl, .inr hh⟩
  | updateSearch state' data =>
    refine ⟨rfl, .inr ?_⟩
    simp only [step] at hh
    split_ifs at hh
    · cases hh
    · exact hh
  | lookupData same state' =>
    refine ⟨rfl, .inr ?_⟩
    cases state' with
    | requestedKey =>
      simp only [step, received] at hh
      split_ifs at hh
      · exact hh
      · cases hh
    | reservedKey => exact hh
    | _ => cases hh
  | _ =>
    simp only [step] at hh
    first | cases hh | (split_ifs at hh <;> cases hh)

lemma hasItem_of_carries (h : pc.carries = some state) : pc.hasItem := by
  cases pc with
  | lookupData | reserveData | updateSearch => rfl
  | _ => cases h

end ReceivePc

/-! ### What holds in every run -/

/-- What a thread relies on. -/
structure ThreadOk (guid : Guid) (m : DbTable) (c : ReceiveThread) : Prop where
  item : c.pc.hasItem → ∃ t, m.item.At guid t
  empty : c.pc.empties → m.item.lock = 0
  lock : c.pc.holds → m.guidLock = true

/-- The lock of the GUID is held by one thread. -/
def Exclude (c d : ReceiveThread) : Prop := ¬ (c.pc.holds ∧ d.pc.holds)

namespace ReceiveThread

variable {guid : Guid} {self : ℕ} {m m' : DbTable} {c c' d : ReceiveThread}

lemma step_cases (h : c.step guid self m = some (m', c')) :
    (m' = m ∧ c.pc = .idle ∧ ∃ q : DbMessage, c'.pc = q.start) ∨
      m' = (c.pc.step guid self m).1 ∧ c'.pc = (c.pc.step guid self m).2 := by
  unfold step at h
  split_ifs at h with hidle
  · cases hbox : c.inbox with
    | nil => simp [hbox] at h
    | cons q inbox =>
      simp only [hbox] at h
      obtain ⟨rfl, rfl⟩ := h
      exact .inl ⟨rfl, hidle, q, rfl⟩
  · obtain ⟨rfl, rfl⟩ := h
    exact .inr ⟨rfl, rfl⟩

end ReceiveThread

namespace ThreadOk

variable {guid : Guid} {self : ℕ} {m m' : DbTable} {c c' d : ReceiveThread}

lemma itemOk_step (hm : ItemOk guid m.item) (hc : ThreadOk guid m c) :
    ItemOk guid (c.pc.step guid self m).1.item := by
  cases he : c.pc.empties with
  | true => exact .inr ⟨4, c.pc.step_of_empties he⟩
  | false =>
    rcases hm with h0 | ⟨t, ht⟩
    · cases hi : c.pc.hasItem with
      | false => exact .inl (c.pc.step_of_empty h0 he hi)
      | true =>
        obtain ⟨t, ht⟩ := hc.item hi
        exact .inr ⟨_, c.pc.step_of_at ht he⟩
    · exact .inr ⟨_, c.pc.step_of_at ht he⟩

lemma own_step (hm : ItemOk guid m.item) (hc : ThreadOk guid m c)
    (hpc : c'.pc = (c.pc.step guid self m).2) : ThreadOk guid (c.pc.step guid self m).1 c' where
  item hi := by
    rw [hpc] at hi
    cases he : c.pc.empties with
    | true => exact ⟨4, c.pc.step_of_empties he⟩
    | false =>
      have hat : ∃ t, m.item.At guid t := by
        rcases c.pc.hasItem_step hi with hi | he' | hf
        · exact hc.item hi
        · exact absurd he' (by simp [he])
        · exact hm.at_of_found hf
      obtain ⟨t, ht⟩ := hat
      exact ⟨_, c.pc.step_of_at ht he⟩
  empty he := by
    rw [hpc] at he
    obtain ⟨hno, hsame⟩ := c.pc.empties_step he
    rw [hsame]
    exact hm.lock_of_not_found hno
  lock hh := c.pc.guidLock_step (hpc ▸ hh) hc.lock

/-- **The other threads are not disturbed.** -/
theorem other_step (hc : ThreadOk guid m c) (hd : ThreadOk guid m d) (hpair : Exclude c d) :
    ThreadOk guid (c.pc.step guid self m).1 d where
  item hi := by
    obtain ⟨t, ht⟩ := hd.item hi
    cases he : c.pc.empties with
    | true => exact ⟨4, c.pc.step_of_empties he⟩
    | false => exact ⟨_, c.pc.step_of_at ht he⟩
  empty he := by
    have hno : c.pc.empties = false := by
      by_contra hce
      exact hpair ⟨ReceivePc.holds_of_empties (by simpa using hce), ReceivePc.holds_of_empties he⟩
    cases hi : c.pc.hasItem with
    | false => exact c.pc.step_of_empty (hd.empty he) hno hi
    | true =>
      obtain ⟨t, ht⟩ := hc.item hi
      exact absurd (hd.empty he) ht.lock_ne_zero
  lock hh := by
    refine c.pc.step_guidLock (hd.lock hh) ?_
    by_contra hce
    exact hpair ⟨by simpa using hce, hh⟩

lemma exclude_step (hd : ThreadOk guid m d) (hpair : Exclude c d)
    (hpc : c'.pc = (c.pc.step guid self m).2) : Exclude c' d := by
  rintro ⟨hc', hh⟩
  rw [hpc] at hc'
  rcases c.pc.holds_step hc' with hc | hfree
  · exact hpair ⟨hc, hh⟩
  · exact absurd (hd.lock hh) (by simp [hfree])

lemma begin (q : DbMessage) (hpc : c'.pc = q.start) : ThreadOk guid m c' := by
  constructor <;> rw [hpc] <;> cases q <;> nofun

end ThreadOk

namespace ReceiveRun

variable {guid : Guid} {self : ℕ} {s s' : ReceiveRun}

/-- What holds of the item and the threads. -/
abbrev Sound (guid : Guid) (s : ReceiveRun) : Prop :=
  Pool.Ok (fun m => ItemOk guid m.item) (ThreadOk guid) Exclude s

lemma sound_of_start (h : Start guid s) : s.Sound guid := by
  obtain ⟨hitem, -, hidle⟩ := h
  have hpc : ∀ {i : ℕ} {c}, s.calls[i]? = some c → c.pc = .idle :=
    fun hc => hidle _ (mem_of_getElem? hc)
  refine ⟨?_, fun hc => ?_, fun _ hc _ => ?_⟩
  · exact hitem.imp_right fun ⟨t, n, ht, hi⟩ => ⟨t, ht, n, hi⟩
  · constructor <;> rw [hpc hc] <;> nofun
  · rintro ⟨hh, -⟩
    rw [hpc hc] at hh
    cases hh

variable {i : ℕ}

lemma Sound.next (h : s.Sound guid) (hstep : (machine guid self).next s i = some s') :
    s'.Sound guid := by
  refine Pool.Ok.advance h (fun c d hcd hdc => hcd hdc.symm) hstep fun c c' m' hc hcc' => ?_
  have hown := h.each hc
  rcases ReceiveThread.step_cases hcc' with ⟨rfl, -, q, hpc⟩ | ⟨rfl, hpc⟩
  · refine ⟨h.mem, .begin q hpc, fun j d _ hd => ⟨h.each hd, ?_⟩⟩
    rintro ⟨hh, -⟩
    rw [hpc] at hh
    cases q <;> cases hh
  · exact ⟨hown.itemOk_step h.mem, hown.own_step h.mem hpc, fun j d hij hd =>
      ⟨hown.other_step (h.each hd) (h.pair hij hc hd), (h.each hd).exclude_step (h.pair hij hc hd) hpc⟩⟩

lemma sound_of_reachable (h : (machine guid self).Reachable s) : s.Sound guid :=
  h.invariant (fun _ => sound_of_start) fun _ _ _ _ hs hstep => hs.next hstep

/-! ### Searches that find the item -/

def Matched (s : ReceiveRun) : Prop :=
  ∀ {i : ℕ} {c state}, s.calls[i]? = some c → c.pc.carries = some state →
    getItemState s.mem.item.lock = state

variable {j : ℕ} {c d : ReceiveThread}

lemma calm.not_awaits (h : s.calm i) (hc : s.calls[i]? = some c)
    (hmark : c.pc.marks) (hres : s.mem.item.lock &&& reservedItem ≠ 0) (hij : i ≠ j)
    (hd : s.calls[j]? = some d) : d.pc.awaits = false := by
  have hno := h (by simpa [hc] using hmark) hres j (List.getElem?_eq_some_iff.1 hd).1 hij.symm
  simpa [hd] using hno

variable {state : KeyState}

lemma Matched.other (hm : s.Matched)
    (h : s.Sound guid) (hcalm : s.calm i) (hc : s.calls[i]? = some c) (hij : i ≠ j)
    (hd : s.calls[j]? = some d) (hcarry : d.pc.carries = some state) :
    getItemState (c.pc.step guid self s.mem).1.item.lock = state := by
  have hstate := hm hd hcarry
  obtain ⟨t, ht⟩ := (h.each hd).item (ReceivePc.hasItem_of_carries hcarry)
  have he : c.pc.empties = false := by
    by_contra hce
    exact ht.lock_ne_zero ((h.each hc).empty (by simpa using hce))
  have hafter : (c.pc.step guid self s.mem).1.item.At guid (if c.pc.marks then 2 else t) :=
    c.pc.step_of_at ht he
  rw [ht.getItemState] at hstate
  cases hmark : c.pc.marks with
  | false =>
    rw [hmark] at hafter
    exact hafter.getItemState.trans hstate
  | true =>
    rw [hmark] at hafter
    by_cases h2 : t = 2
    · subst h2
      exact hafter.getItemState.trans hstate
    · have hno := hcalm.not_awaits hc hmark (ht.reserved h2) hij hd
      rw [ReceivePc.awaits, hcarry, ← hstate] at hno
      obtain rfl | rfl | rfl := ht.1
      · simp at hno
      · simp at hno
      · exact absurd rfl h2

lemma Matched.next (hm : s.Matched) (h : s.Sound guid) (hcalm : s.calm i)
    (hstep : (machine guid self).next s i = some s') : s'.Matched := by
  obtain ⟨c, hc, hmap⟩ := bind_eq_some_iff.1 hstep
  obtain ⟨⟨m', c'⟩, hcc', rfl⟩ := map_eq_some_iff.1 hmap
  intro j d state hd hcarry
  rcases ReceiveThread.step_cases hcc' with ⟨rfl, -, q, hpc⟩ | ⟨rfl, hpc⟩
  · rcases getElem?_set_cases hd with ⟨rfl, rfl⟩ | ⟨hij, hd⟩
    · rw [hpc] at hcarry
      cases q <;> cases hcarry
    · exact hm hd hcarry
  · rcases getElem?_set_cases hd with ⟨rfl, rfl⟩ | ⟨hij, hd⟩
    · rw [hpc] at hcarry
      obtain ⟨hsame, hread | hcarried⟩ := c.pc.carries_step hcarry
      · exact (congrArg (fun m => getItemState m.item.lock) hsame).trans hread
      · exact (congrArg (fun m => getItemState m.item.lock) hsame).trans (hm hc hcarried)
    · exact hm.other h hcalm hc hij hd hcarry

variable {data : Option UInt32}

lemma Matched.found (hm : s.Matched) (h : s.Sound guid) (hc : s.calls[i]? = some c)
    (hpc : c.pc = .updateSearch state data) : s.mem.item.found guid state := by
  obtain ⟨t, ht⟩ := (h.each hc).item (by rw [hpc]; rfl)
  have hstate : getItemState s.mem.item.lock = state := hm hc (by rw [hpc]; rfl)
  exact hstate ▸ ht.found

lemma next_of_step (hc : s.calls[i]? = some c) (hpc : c.pc ≠ .idle) :
    (machine guid self).next s i = some ⟨(c.pc.step guid self s.mem).1,
      s.calls.set i { c with pc := (c.pc.step guid self s.mem).2 }⟩ := by
  show (s.calls[i]?).bind _ = _
  rw [hc, bind_some, ReceiveThread.step, if_neg hpc]
  rfl

/-- The thread leaves `arts_route_table_update_item` after `k` steps of its own. -/
def LeavesIn (guid : Guid) (self : ℕ) (s : ReceiveRun) (i k : ℕ) : Prop :=
  ∃ s', (machine guid self).exec s (replicate k i) = some s' ∧
    ∀ c', s'.calls[i]? = some c' → ¬ c'.pc.inUpdate

lemma leavesIn_succ {k : ℕ} (hc : s.calls[i]? = some c) (hpc : c.pc ≠ .idle)
    (hrest : LeavesIn guid self ⟨(c.pc.step guid self s.mem).1,
      s.calls.set i { c with pc := (c.pc.step guid self s.mem).2 }⟩ i k) :
    LeavesIn guid self s i (k + 1) := by
  obtain ⟨s', hs', hout⟩ := hrest
  refine ⟨s', ?_, hout⟩
  rw [replicate_succ, Machine.exec_cons, next_of_step hc hpc]
  exact hs'

lemma getElem?_step (hc : s.calls[i]? = some c) (c' : ReceiveThread) :
    (s.calls.set i c')[i]? = some c' :=
  List.getElem?_set_self (List.getElem?_eq_some_iff.1 hc).1

lemma leavesIn_of_mark (hc : s.calls[i]? = some c)
    (hpc : c.pc = .updateMark) : LeavesIn guid self s i 1 := by
  refine leavesIn_succ hc (by simp [hpc]) ⟨_, rfl, fun c' hc' => ?_⟩
  cases (getElem?_step hc _).symm.trans hc'
  rw [hpc]
  nofun

lemma leavesIn_of_data
    (hc : s.calls[i]? = some c) (hpc : c.pc = .updateData data) : LeavesIn guid self s i 2 := by
  refine leavesIn_succ hc (by simp [hpc]) (leavesIn_of_mark (getElem?_step hc _) ?_)
  simp [hpc, ReceivePc.step]

lemma leavesIn_of_search (hc : s.calls[i]? = some c) (hpc : c.pc = .updateSearch state data)
    (hfound : s.mem.item.found guid state) : LeavesIn guid self s i 3 := by
  have hnext : (c.pc.step guid self s.mem).2 = .updateData data := by
    simp [hpc, ReceivePc.step, hfound]
  exact leavesIn_succ hc (by simp [hpc]) (leavesIn_of_data (getElem?_step hc _) hnext)

/-- **Receive handlers do not wait for a state that is gone**, as long as every step is calm. -/
theorem answered_of_calm (h : ((machine guid self).restrict calm).Reachable s) :
    s.Answered guid self := by
  have hsound := sound_of_reachable h.of_restrict
  have hmatched : s.Matched := by
    refine h.invariant (I := Matched) ?_ ?_
    · rintro s ⟨-, -, hidle⟩ i c state hc hcarry
      rw [hidle c (mem_of_getElem? hc)] at hcarry
      cases hcarry
    · intro s i s' hr hm hstep
      obtain ⟨hcalm, hstep⟩ := Machine.restrict_next.1 hstep
      exact hm.next (sound_of_reachable hr.of_restrict) hcalm hstep
  refine ⟨fun hc hpc => hmatched.found hsound hc hpc, fun {i c} hc hin => ?_⟩
  obtain ⟨pc, hpc⟩ : ∃ pc, c.pc = pc := ⟨_, rfl⟩
  rw [hpc] at hin
  cases pc with
  | updateSearch state data =>
    exact ⟨3, Nat.le_refl 3, leavesIn_of_search hc hpc (hmatched.found hsound hc hpc)⟩
  | updateData data => exact ⟨2, by decide, leavesIn_of_data hc hpc⟩
  | updateMark => exact ⟨1, by decide, leavesIn_of_mark hc hpc⟩
  | _ => cases hin

/-- Two threads that each have a `DB_FULL_SEND` message, for a datablock that is not in the table. -/
def twoFullSends : ReceiveRun where
  mem := { item := {} }
  calls := [{ inbox := [.dbFullSend] }, { inbox := [.dbFullSend] }]

lemma twoFullSends_start : Start 5 twoFullSends := ⟨.inl rfl, rfl, by decide⟩

/-- The second thread reserves the item while the first one updates it, and both searches succeed. -/
theorem answered_of_calm_two : ∃ s : ReceiveRun, s.Answered 5 0 ∧
    (∃ d, s.calls[1]? = some d ∧ d.pc = .updateSearch .availableKey (some 1)) ∧
    s.mem.item.found 5 .availableKey := by
  obtain ⟨s, hreach, hd⟩ := Machine.Reachable.exists_of_exec (M := (machine 5 0).restrict calm)
    (P := fun s => s.calls[1]? = some { pc := .updateSearch .availableKey (some 1) })
    (r := replicate 7 0 ++ replicate 6 1 ++ replicate 3 0 ++ replicate 2 1)
    twoFullSends_start (by decide +kernel)
  have hans := answered_of_calm hreach
  exact ⟨s, hans, ⟨_, hd, rfl⟩, hans.found hd rfl⟩

/-! ### Searches that never end -/

/-- **A thread that searches for an available item as reserved or requested searches for ever.** -/
theorem stuck (h : s.Sound guid) (hitem : s.mem.item.At guid 2) (hd : s.calls[j]? = some d)
    (hpc : d.pc = .updateSearch state data) (hstate : state = .reservedKey ∨ state = .requestedKey)
    (hleads : (machine guid self).Leads s s') : s'.calls[j]? = some d := by
  have hinv := hleads.invariant (I := fun s => s.Sound guid ∧ s.mem.item.At guid 2 ∧
    s.calls[j]? = some d) ⟨h, hitem, hd⟩ fun s i s' ⟨hs, hat, hj⟩ hstep => ⟨hs.next hstep, ?_⟩
  · exact hinv.2.2
  obtain ⟨c, hc, hmap⟩ := bind_eq_some_iff.1 hstep
  obtain ⟨⟨m', c'⟩, hcc', rfl⟩ := map_eq_some_iff.1 hmap
  have he : c.pc.empties = false := by
    by_contra hce
    exact hat.lock_ne_zero ((hs.each hc).empty (by simpa using hce))
  have hat' : m'.item.At guid 2 := by
    rcases ReceiveThread.step_cases hcc' with ⟨rfl, -⟩ | ⟨rfl, -⟩
    · exact hat
    · have hafter : (c.pc.step guid self s.mem).1.item.At guid (if c.pc.marks then 2 else 2) :=
        c.pc.step_of_at hat he
      rwa [ite_self] at hafter
  refine ⟨hat', ?_⟩
  by_cases hij : i = j
  · subst hij
    have hcd : c = d := some.inj (hc.symm.trans hj)
    have hno : s.mem.item.found guid state = false := by
      obtain ⟨-, n, hi⟩ := hat
      obtain ⟨hres, -, hreq⟩ := hi.bits
      rcases hstate with rfl | rfl <;> simp [RouteItem.found, checkItemState, hres, hreq]
    have hsame : c' = d := by
      simp only [hcd, ReceiveThread.step, hpc, ReceivePc.step, hno] at hcc'
      cases hcc'
      rw [if_neg Bool.false_ne_true, ← hpc]
    rw [hsame, getElem?_step hc]
  · rw [getElem?_set_ne hij, hj]

/-- **A receive handler hangs**: it searches for the reserved item, which the other thread makes
available. -/
theorem update_hangs : ∃ s : ReceiveRun, (machine 5 0).Reachable s ∧
    ∃ d : ReceiveThread, d.pc = .updateSearch .reservedKey (some 1) ∧
      ∀ s', (machine 5 0).Leads s s' → s'.calls[1]? = some d := by
  obtain ⟨s, hreach, hkey, hlock, hd⟩ := Machine.Reachable.exists_of_exec (M := machine 5 0)
    (P := fun s => s.mem.item.key = 5 ∧ s.mem.item.lock = word 2 3 ∧
      s.calls[1]? = some { pc := .updateSearch .reservedKey (some 1) })
    (r := replicate 7 0 ++ replicate 8 1 ++ replicate 3 0)
    twoFullSends_start (by decide +kernel)
  have hat : s.mem.item.At 5 2 := ⟨.inr (.inr rfl), 3, hkey, hlock, by decide, by decide⟩
  exact ⟨s, hreach, _, rfl, fun s' hl =>
    stuck (sound_of_reachable hreach) hat hd rfl (.inl rfl) hl⟩

end ReceiveRun

end Arts
