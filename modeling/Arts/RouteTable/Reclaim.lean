import Arts.Machine.Basic
import Arts.RouteTable.Slots

/-!
# The slots of finished EDTs

What is deferred on an EDT takes a reference that the creation does not give back.
**`EdtTable.reclaims`**: `arts_edt_delete` frees the slot if and only if nothing was deferred
(`EdtTable.Holds.taken_of_deferred`).
-/

namespace Arts

open List Function Option Slot Chain

variable {δ α : Type*}

/-! ### The model -/

/-- How far an EDT is. -/
inductive EdtStage where
  /-- The GUID is reserved and the EDT does not exist. -/
  | reserved
  /-- `arts_route_table_add_item_race` -/
  | created
  /-- `arts_route_table_fire_oo` -/
  | replayed
  | completed
  /-- `arts_edt_delete` -/
  | deleted
  deriving DecidableEq

def EdtStage.alive : EdtStage → Bool
  | reserved | deleted => false
  | created | replayed | completed => true

namespace Chain

/-- `arts_route_table_lookup_item` -/
def lookupItem (T : Chain δ) (key : Guid) : Option δ :=
  (T.searchForKey key .availableKey).bind fun p => (T.slotAt p).data

/-- `arts_route_table_reserve_item_race`, with the item. -/
def reserveItem (T : Chain δ) (key : Guid) (used : Bool) : Option (Chain δ × SlotRef × Bool) :=
  match T.searchForKey key .allocatedKey with
  | some p => some (if used then T.modifySlot p fun s => s.incItem 1 s.key else T, p, false)
  | none => (T.searchForEmpty key used).map fun r => (r.1, r.2, true)

end Chain

/-- The EDTs of a rank and the table that holds them. -/
structure EdtTable (δ α : Type*) where
  chain : Chain δ
  /-- The out-of-order list of a slot, and whether it refuses further entries. -/
  ooList : SlotRef → List α := fun _ => []
  isFired : SlotRef → Bool := fun _ => false
  stage : Guid → EdtStage := fun _ => .reserved
  deferred : Guid → ℕ := fun _ => 0
  live : List Guid := []

inductive EdtTableStep (δ α : Type*) where
  /-- `internal_signal_edt_ex` or `arts_set_dep_metadata_ext`, of an EDT that is not deleted -/
  | arrive (guid : Guid) (entry : α)
  /-- `arts_edt_create` with a reserved GUID: `arts_route_table_add_item_race` -/
  | create (guid : Guid) (edt : δ)
  /-- `arts_route_table_fire_oo` after it -/
  | replay (guid : Guid)
  | complete (guid : Guid)
  /-- `arts_edt_delete` -/
  | delete (guid : Guid)

namespace EdtTable

/-- `arts_out_of_order_list_add_item` -/
def listAddItem (w : EdtTable δ α) (p : SlotRef) (x : α) : EdtTable δ α × Bool :=
  if w.isFired p then (w, false)
  else ({ w with ooList := update w.ooList p (w.ooList p ++ [x]) }, true)

/-- `arts_route_table_add_oo`, without `inc` -/
def addOo (w : EdtTable δ α) (guid : Guid) (x : α) : Option (EdtTable δ α × Bool) :=
  (w.chain.reserveItem guid true).map fun r =>
    let w := { w with chain := r.1 }
    if r.2.2 || checkItemState (r.1.slotAt r.2.1).lock .reservedKey then w.listAddItem r.2.1 x
    else (w, false)

/-- `arts_route_table_fire_oo` -/
def fireOo (w : EdtTable δ α) (guid : Guid) : EdtTable δ α :=
  match w.chain.searchForKey guid .availableKey with
  | some p =>
    { w with ooList := update w.ooList p [], isFired := update w.isFired p true }
  | none => w

/-- `arts_route_table_remove_item`, with the out-of-order list of the item that is freed. -/
def removeItem (w : EdtTable δ α) (guid : Guid) : EdtTable δ α :=
  match w.chain.searchForKey guid .availableKey with
  | some p =>
    let T := w.chain.modifySlot p (·.markDelete)
    if shouldDelete (T.slotAt p).lock then
      { w with
        chain := T.modifySlot p (·.freeItem)
        ooList := update w.ooList p []
        isFired := update w.isFired p false }
    else { w with chain := T }
  | none => w

def setStage (w : EdtTable δ α) (guid : Guid) (stage : EdtStage) : EdtTable δ α :=
  { w with stage := update w.stage guid stage }

/-- A signal or a metadata write for an EDT: it is delivered if the EDT exists, and deferred otherwise.
An entry that is refused would be signalled again, and again refused; `Holds.arrive` says that this does
not happen. -/
def arrive (w : EdtTable δ α) (guid : Guid) (x : α) : Option (EdtTable δ α) :=
  match w.chain.lookupItem guid with
  | some _ => some w
  | none =>
    (w.addOo guid x).bind fun r =>
      if r.2 then
        some { r.1 with deferred := update w.deferred guid (w.deferred guid + 1) }
      else none

/-- A step; `self` is the rank. -/
def next (self : UInt32) (w : EdtTable δ α) : EdtTableStep δ α → Option (EdtTable δ α)
  | .arrive guid x => if w.stage guid ≠ .deleted then w.arrive guid x else none
  | .create guid edt =>
    if w.stage guid = .reserved then
      (w.chain.addItemRace (some edt) guid self false).map fun r =>
        ({ w with chain := r.1, live := guid :: w.live }).setStage guid .created
    else none
  | .replay guid =>
    if w.stage guid = .created then some ((w.fireOo guid).setStage guid .replayed) else none
  | .complete guid =>
    if w.stage guid = .replayed then some (w.setStage guid .completed) else none
  | .delete guid =>
    if w.stage guid = .completed then
      some (({ w.removeItem guid with live := w.live.erase guid }).setStage guid .deleted)
    else none

def machine (self : UInt32) : Machine (EdtTable δ α) (EdtTableStep δ α) where
  init w := ∃ size shift, w = { chain := [newRouteTable size shift] }
  next := next self

/-- An EDT is created only while fewer than `B` EDTs exist. -/
def atMost (B : ℕ) (w : EdtTable δ α) : EdtTableStep δ α → Bool
  | .create _ _ => w.live.length < B
  | _ => true

/-- Nothing is deferred: a signal or a metadata write comes after the creation of its EDT. -/
def undeferred (w : EdtTable δ α) : EdtTableStep δ α → Bool
  | .arrive guid _ => w.stage guid ≠ .reserved
  | _ => true

end EdtTable

/-! ### The calls of the table -/

/-- The lock word and the data of a slot. -/
def Slot.entryView : SlotView δ (UInt64 × Option δ) where
  see s := if s.lock = 0 then none else some (s.key, s.lock, s.data)
  eq_none_iff s := by split_ifs with h <;> simp [h]
  key {s} {k} {v} h := by
    split_ifs at h
    exact (Prod.mk.inj (some.inj h)).1

namespace Chain

variable {T T' : Chain δ} {m : Guid → Option (UInt64 × Option δ)} {key : Guid} {p : SlotRef}
  {n : ℕ} {data : Option δ}

variable {s : Slot δ}

lemma isFound_iff_see (key : Guid) (state : KeyState) : s.isFound key state ↔
    ∃ v, entryView.see s = some (key, v) ∧ checkItemState v.1 state := by
  have hno : checkItemState 0 state = false := by cases state <;> decide
  simp only [isFound, entryView, Bool.and_eq_true, beq_iff_eq]
  split_ifs with h0
  · simp [h0, hno]
  · constructor
    · rintro ⟨hstate, rfl⟩
      exact ⟨_, rfl, hstate⟩
    · rintro ⟨v, hv, hstate⟩
      cases hv
      exact ⟨hstate, rfl⟩

lemma see_word {t : ℕ} (ht : t < 8) (hpos : t ≠ 0) (hn : n < 2 ^ 61)
    (hlock : s.lock = word t n) (hkey : s.key = key) (hdata : s.data = data) :
    entryView.see s = some (key, word t n, data) := by
  subst hkey hdata
  show (if s.lock = 0 then none else some (s.key, s.lock, s.data)) = _
  rw [hlock, if_neg (word_ne_zero ht hpos hn)]

lemma of_see {v : UInt64 × Option δ} (h : entryView.see s = some (key, v)) :
    s.lock ≠ 0 ∧ s.key = key ∧ s.lock = v.1 ∧ s.data = v.2 := by
  refine ⟨SlotView.lock_ne_zero h, SlotView.key _ h, ?_⟩
  change (if s.lock = 0 then none else some (s.key, s.lock, s.data)) = _ at h
  split_ifs at h
  cases h
  exact ⟨rfl, rfl⟩

namespace Shows

lemma found (h : T.Shows entryView m) {state : KeyState} {v : UInt64 × Option δ}
    (hm : m key = some v) (hstate : checkItemState v.1 state) : ∃ p,
      T.searchForKey key state = some p ∧ p ∈ T.candidates key ∧ (T.slotAt p).lock ≠ 0 ∧
        (T.slotAt p).key = key ∧ (T.slotAt p).lock = v.1 ∧ (T.slotAt p).data = v.2 := by
  obtain ⟨p, hp, hsee⟩ := h.search_of_mem (fun _ => isFound_iff_see key state) hm hstate
  exact ⟨p, hp, (h.search_eq_some (fun _ => isFound_iff_see key state) hp).1, of_see hsee⟩

lemma not_found (h : T.Shows entryView m) (key : Guid) (state : KeyState)
    (hno : ∀ v, m key = some v → ¬ checkItemState v.1 state) : T.searchForKey key state = none :=
  h.search_eq_none (fun _ => isFound_iff_see key state) hno

lemma reserveItem_new (h : T.Shows entryView m) (hm : m key = none) : ∃ T' p data,
    T.reserveItem key true = some (T', p, true) ∧
      Puts T T' entryView m key p (some (word 4 1, data)) := by
  have hs := h.not_found key .allocatedKey (by simp [hm])
  obtain ⟨T', p, heq, hlock, hw⟩ := searchForEmpty_wrote h.nonempty key true
  rw [reserveItem, hs, heq]
  exact ⟨T', p, _, rfl,
    Puts.of_wrote hw (.inl ⟨hlock, hm⟩) (see_word (by decide) (by decide) (by decide) rfl rfl rfl)⟩

lemma reserveItem_again (h : T.Shows entryView m) (hm : m key = some (word 4 n, data))
    (hn : n < 2 ^ 61) : ∃ T' p n', n ≤ n' ∧ n' < 2 ^ 61 ∧
      T.reserveItem key true = some (T', p, false) ∧
      Puts T T' entryView m key p (some (word 4 n', data)) := by
  have hstate : checkItemState (word 4 n) .allocatedKey = true := by
    simp [checkItemState, isRes_word (s := 4) (by decide) hn]
  obtain ⟨p, hs, hp, hne, hkey, hlock, hdata⟩ := h.found hm hstate
  obtain ⟨n', hn', hle, hinc⟩ := incItem_eq (.inl rfl) hlock hn
  have hw := Wrote.modify hp fun s : Slot δ => s.incItem 1 s.key
  rw [hinc] at hw
  exact ⟨_, p, n', hle, hn', by rw [reserveItem, hs]; rfl,
    Puts.of_wrote hw (.inr ⟨hne, hkey⟩) (see_word (by decide) (by decide) hn' rfl hkey hdata)⟩

lemma addItemRace_new (h : T.Shows entryView m) (hm : m key = none) (edt : δ)
    (rank : UInt32) : ∃ T' p, T.addItemRace (some edt) key rank false = some (T', true) ∧
      Puts T T' entryView m key p (some (word 2 0, some edt)) ∧
      (T'.length = T.length ∨
        T'.length = T.length + 1 ∧ ∀ q ∈ T.candidates key, (T.slotAt q).lock ≠ 0) := by
  have hs := h.not_found key .allocatedKey (by simp [hm])
  obtain ⟨T', p, heq, hlock, hw⟩ := searchForEmpty_wrote h.nonempty key false
  have hfilled := hw.again fun s => s.fill (some edt) rank
  rw [fill_eq rfl (by decide)] at hfilled
  refine ⟨_, p, ?_, Puts.of_wrote hfilled (.inl ⟨hlock, hm⟩)
    (see_word (by decide) (by decide) (by decide) rfl rfl rfl), ?_⟩
  · rw [addItemRace, hs]
    rw [addItem, heq]
    rfl
  · rw [modifySlot, length_modify]
    exact searchForEmpty_length heq

lemma addItemRace_again (h : T.Shows entryView m) (hm : m key = some (word 4 n, data))
    (hn : n < 2 ^ 61) (edt : δ) (rank : UInt32) : ∃ T' p,
      T.addItemRace (some edt) key rank false = some (T', true) ∧
      Puts T T' entryView m key p (some (word 2 n, some edt)) := by
  have hres : checkItemState (word 4 n) .reservedKey = true := by
    simp [checkItemState, isRes_word (s := 4) (by decide) hn]
  have hstate : checkItemState (word 4 n) .allocatedKey = true := by
    simp [checkItemState, isRes_word (s := 4) (by decide) hn]
  obtain ⟨p, hs, hp, hne, hkey, hlock, -⟩ := h.found hm hstate
  have hw := Wrote.modify hp fun s : Slot δ => s.fill (some edt) rank
  rw [fill_eq hlock hn] at hw
  refine ⟨_, p, ?_, Puts.of_wrote hw (.inr ⟨hne, hkey⟩)
    (see_word (by decide) (by decide) hn rfl hkey rfl)⟩
  simp only [addItemRace, hs, hlock, hres]
  rfl

end Shows

end Chain

namespace EdtTable

variable {w w' : EdtTable δ α} {m : Guid → Option (UInt64 × Option δ)} {guid : Guid} {n : ℕ}
  {data : Option δ}

lemma removeItem_free (h : w.chain.Shows entryView m) (hm : m guid = some (word 2 0, data)) :
    ∃ T p, w.chain.searchForKey guid .availableKey = some p ∧
      Puts w.chain T entryView m guid p none ∧
      w.removeItem guid = { w with
        chain := T
        ooList := update w.ooList p []
        isFired := update w.isFired p false } := by
  have hstate : checkItemState (word 2 0) .availableKey = true := by decide
  obtain ⟨p, hs, hp, hne, hkey, hlock, -⟩ := h.found hm hstate
  have hmarked := Chain.Wrote.modify hp fun s : Slot δ => s.markDelete
  have hdel : shouldDelete ((w.chain.modifySlot p fun s => s.markDelete).slotAt p).lock := by
    rw [hmarked.slot, update_self, markDelete_eq hlock (by decide)]
    exact (shouldDelete_word (by decide)).2 rfl
  refine ⟨_, p, hs, Puts.of_wrote (hmarked.again fun s => s.freeItem) (.inr ⟨hne, hkey⟩) rfl, ?_⟩
  simp [removeItem, hs, hdel]

lemma removeItem_kept (h : w.chain.Shows entryView m) (hm : m guid = some (word 2 n, data))
    (hpos : 0 < n) (hn : n < 2 ^ 61) : ∃ T p, w.chain.searchForKey guid .availableKey = some p ∧
      Puts w.chain T entryView m guid p (some (word 3 n, data)) ∧
      w.removeItem guid = { w with chain := T } := by
  have hstate : checkItemState (word 2 n) .availableKey = true := by
    simp [checkItemState, isAvail_word (s := 2) (by decide) hn]
  obtain ⟨p, hs, hp, hne, hkey, hlock, hdata⟩ := h.found hm hstate
  have hmarked := Chain.Wrote.modify hp fun s : Slot δ => s.markDelete
  have hkept : shouldDelete ((w.chain.modifySlot p fun s => s.markDelete).slotAt p).lock = false := by
    rw [hmarked.slot, update_self, markDelete_eq hlock hn]
    exact Bool.eq_false_iff.2 fun hd => hpos.ne' ((shouldDelete_word hn).1 hd)
  rw [markDelete_eq hlock hn] at hmarked
  refine ⟨_, p, hs, Puts.of_wrote hmarked (.inr ⟨hne, hkey⟩)
    (see_word (by decide) (by decide) hn rfl hkey hdata), ?_⟩
  simp only [removeItem, hs, hkept]
  rfl

lemma fireOo_frame (w : EdtTable δ α) (guid : Guid) : (w.fireOo guid).chain = w.chain ∧
    (w.fireOo guid).deferred = w.deferred ∧ (w.fireOo guid).live = w.live := by
  unfold fireOo
  split <;> exact ⟨rfl, rfl, rfl⟩

lemma removeItem_frame (w : EdtTable δ α) (guid : Guid) :
    (w.removeItem guid).chain.length = w.chain.length ∧
      (w.removeItem guid).deferred = w.deferred := by
  unfold removeItem
  split
  · dsimp only
    split_ifs
    · exact ⟨by simp [modifySlot], rfl⟩
    · exact ⟨by simp [modifySlot], rfl⟩
  · exact ⟨rfl, rfl⟩

/-! ### Invariant -/

/-- The item of an EDT in a stage, after a number of deferrals. -/
inductive Fits : EdtStage → ℕ → Option (UInt64 × Option δ) → Prop where
  | unseen : Fits .reserved 0 none
  | waiting {d n : ℕ} {data : Option δ} : 0 < n → n < 2 ^ 61 →
      Fits .reserved (d + 1) (some (word 4 n, data))
  | alive {stage : EdtStage} {d n : ℕ} {edt : δ} : stage.alive → n < 2 ^ 61 → (n = 0 ↔ d = 0) →
      Fits stage d (some (word 2 n, some edt))
  | freed : Fits .deleted 0 none
  | kept {d n : ℕ} {data : Option δ} : 0 < n → n < 2 ^ 61 →
      Fits .deleted (d + 1) (some (word 3 n, data))

lemma Fits.of_alive {stage : EdtStage} {d : ℕ} {x : Option (UInt64 × Option δ)}
    (h : Fits stage d x) (halive : stage.alive) :
    ∃ n edt, n < 2 ^ 61 ∧ (n = 0 ↔ d = 0) ∧ x = some (word 2 n, some edt) := by
  cases h with
  | alive _ hn hzero => exact ⟨_, _, hn, hzero, rfl⟩
  | unseen | waiting | freed | kept => cases halive

/-- The table holds the items `m` of the EDTs. -/
structure Holds (w : EdtTable δ α) (m : Guid → Option (UInt64 × Option δ)) : Prop where
  shown : w.chain.Shows entryView m
  fits : ∀ guid, Fits (w.stage guid) (w.deferred guid) (m guid)
  /-- A slot that is empty or belongs to an EDT that does not exist takes entries. -/
  isOpen : ∀ p, ((w.chain.slotAt p).lock ≠ 0 → w.stage (w.chain.slotAt p).key = .reserved) →
    w.isFired p = false
  live : ∀ guid, guid ∈ w.live ↔ (w.stage guid).alive
  nodup : w.live.Nodup

namespace Holds

lemma init (size shift : UInt32) :
    Holds ({ chain := [newRouteTable size shift] } : EdtTable δ α) fun _ => none where
  shown := Shows.new _ size shift
  fits _ := .unseen
  isOpen _ _ := rfl
  live _ := by simp [EdtStage.alive]
  nodup := nodup_nil

variable {p : SlotRef} {stage : EdtStage}

/-- **A step changes the item of one EDT.** -/
theorem put (h : w.Holds m) {x : Option (UInt64 × Option δ)} {d : ℕ}
    (hput : Puts w.chain w'.chain entryView m guid p x)
    (hstage : w'.stage = update w.stage guid stage)
    (hdeferred : w'.deferred = update w.deferred guid d) (hfits : Fits stage d x)
    (hfired : ∀ q ≠ p, w'.isFired q = w.isFired q)
    (hopen : (x ≠ none → stage = .reserved) → w'.isFired p = false)
    (hlive : ∀ k, k ∈ w'.live ↔ k ≠ guid ∧ k ∈ w.live ∨ k = guid ∧ stage.alive)
    (hnodup : w'.live.Nodup) : w'.Holds (update m guid x) where
  shown := hput.shows h.shown
  fits k := by
    rw [hstage, hdeferred]
    by_cases hk : k = guid
    · subst hk
      simpa only [update_self] using hfits
    · simpa only [update_of_ne hk] using h.fits k
  isOpen q hq := by
    by_cases hqp : q = p
    · subst hqp
      refine hopen fun hx => ?_
      obtain ⟨v, rfl⟩ := ne_none_iff_exists'.1 hx
      obtain ⟨hlock, hkey, -⟩ := of_see hput.see
      have hres := hq hlock
      rwa [hkey, hstage, update_self] at hres
    · rw [hfired q hqp]
      rw [hput.other hqp, hstage] at hq
      refine h.isOpen q fun hlock => ?_
      have hres := hq hlock
      rwa [update_of_ne (hput.key_ne h.shown hqp hlock)] at hres
  live k := by
    rw [hlive, hstage, h.live]
    by_cases hk : k = guid
    · subst hk
      simp
    · simp [hk]
  nodup := hnodup

/-- The EDT goes on to another stage in which it exists, or in which it does not exist either. -/
theorem live_update (h : w.Holds m) (halive : stage.alive = (w.stage guid).alive) (k : Guid) :
    k ∈ w.live ↔ k ≠ guid ∧ k ∈ w.live ∨ k = guid ∧ stage.alive := by
  rw [halive, ← h.live]
  by_cases hk : k = guid
  · subst hk
    simp
  · simp [hk]

variable {T : Chain δ}

lemma defer (h : w.Holds m) (hstage : w.stage guid = .reserved)
    {new : Bool} (hreserve : w.chain.reserveItem guid true = some (T, p, new))
    (hput : Puts w.chain T entryView m guid p (some (word 4 n, data)))
    (hpos : 0 < n) (hn : n < 2 ^ 61) (x : α) : ∃ w', w.addOo guid x = some (w', true) ∧
      Holds { w' with deferred := update w.deferred guid (w.deferred guid + 1) }
        (update m guid (some (word 4 n, data))) := by
  have hopen : w.isFired p = false := by
    refine h.isOpen p fun hlock => ?_
    rcases hput.place with ⟨h0, -⟩ | ⟨-, hkey⟩
    · exact absurd h0 hlock
    · rw [hkey, hstage]
  have hres : checkItemState (T.slotAt p).lock .reservedKey = true := by
    obtain ⟨-, -, hlock, -⟩ := of_see hput.see
    rw [hlock, checkItemState, isRes_word (by decide) hn]
    rfl
  refine ⟨{ w with chain := T, ooList := update w.ooList p (w.ooList p ++ [x]) }, ?_, ?_⟩
  · simp [addOo, hreserve, hres, listAddItem, hopen]
  · have hsame : w.stage = update w.stage guid .reserved := by
      rw [← hstage, update_eq_self]
    exact h.put hput hsame rfl (.waiting hpos hn) (fun _ _ => rfl) (fun _ => hopen)
      (h.live_update (by rw [hstage])) h.nodup

lemma found (h : w.Holds m) (halive : (w.stage guid).alive) : ∃ p n edt,
    w.chain.searchForKey guid .availableKey = some p ∧ p ∈ w.chain.candidates guid ∧
      entryView.see (w.chain.slotAt p) = some (guid, word 2 n, some edt) ∧ n < 2 ^ 61 ∧
      (n = 0 ↔ w.deferred guid = 0) ∧ m guid = some (word 2 n, some edt) := by
  obtain ⟨n, edt, hn, hzero, hm⟩ := (h.fits guid).of_alive halive
  have hstate : checkItemState (word 2 n) .availableKey = true := by
    simp [checkItemState, isAvail_word (s := 2) (by decide) hn]
  obtain ⟨p, hs, hp, -, hkey, hlock, hdata⟩ := h.shown.found hm hstate
  exact ⟨p, n, edt, hs, hp, see_word (by decide) (by decide) hn hlock hkey hdata, hn, hzero, hm⟩

lemma lookupItem (h : w.Holds m) (halive : (w.stage guid).alive) :
    ∃ edt, w.chain.lookupItem guid = some edt := by
  obtain ⟨p, n, edt, hs, -, hsee, -⟩ := h.found halive
  refine ⟨edt, ?_⟩
  rw [Chain.lookupItem, hs]
  exact (of_see hsee).2.2.2

/-- **A signal or metadata write is delivered or deferred.** -/
theorem arrive (h : w.Holds m) (hstage : w.stage guid ≠ .deleted) (x : α) :
    ∃ w' m', w.arrive guid x = some w' ∧ w'.Holds m' := by
  have hfits := h.fits guid
  generalize hst : w.stage guid = stage at hfits
  generalize hmg : m guid = v at hfits
  generalize hd : w.deferred guid = d at hfits
  cases hfits with
  | unseen =>
    have hlook : w.chain.lookupItem guid = none := by
      rw [Chain.lookupItem, h.shown.not_found guid .availableKey (by simp [hmg])]
      rfl
    obtain ⟨T, p, data, hreserve, hput⟩ := h.shown.reserveItem_new hmg
    obtain ⟨w', hadd, hw'⟩ := h.defer hst hreserve hput (by decide) (by decide) x
    exact ⟨_, _, by simp only [EdtTable.arrive, hlook, hadd]; rfl, hw'⟩
  | @waiting d n data hpos hn =>
    have hno : ¬ checkItemState (word 4 n) .availableKey := by
      simp [checkItemState, isAvail_word (s := 4) (by decide) hn]
    have hlook : w.chain.lookupItem guid = none := by
      rw [Chain.lookupItem, h.shown.not_found guid .availableKey fun v hv => ?_]
      · rfl
      · cases hmg.symm.trans hv
        exact hno
    obtain ⟨T, p, n', hle, hn', hreserve, hput⟩ := h.shown.reserveItem_again hmg hn
    obtain ⟨w', hadd, hw'⟩ := h.defer hst hreserve hput (by omega) hn' x
    exact ⟨_, _, by simp only [EdtTable.arrive, hlook, hadd]; rfl, hw'⟩
  | alive halive =>
    obtain ⟨edt, hlook⟩ := h.lookupItem (hst ▸ halive)
    exact ⟨w, m, by rw [EdtTable.arrive, hlook], h⟩
  | freed | kept => exact absurd hst hstage

lemma add (h : w.Holds m) (hstage : w.stage guid = .reserved) (edt : δ) (self : UInt32) :
    ∃ T p n, w.chain.addItemRace (some edt) guid self false = some (T, true) ∧ n < 2 ^ 61 ∧
      (n = 0 ↔ w.deferred guid = 0) ∧
      Puts w.chain T entryView m guid p (some (word 2 n, some edt)) ∧
      (w.deferred guid = 0 → T.length = w.chain.length ∨ T.length = w.chain.length + 1 ∧
        ∀ q ∈ w.chain.candidates guid, (w.chain.slotAt q).lock ≠ 0) := by
  have hfits := h.fits guid
  rw [hstage] at hfits
  generalize hmg : m guid = v at hfits
  generalize w.deferred guid = d at hfits ⊢
  cases hfits with
  | unseen =>
    obtain ⟨T, p, hadd, hput, hlen⟩ := h.shown.addItemRace_new hmg edt self
    exact ⟨T, p, 0, hadd, by decide, Iff.rfl, hput, fun _ => hlen⟩
  | waiting hpos hn =>
    obtain ⟨T, p, hadd, hput⟩ := h.shown.addItemRace_again hmg hn edt self
    exact ⟨T, p, _, hadd, hn, by omega, hput, by omega⟩
  | alive hal => cases hal

lemma create (h : w.Holds m) (hstage : w.stage guid = .reserved) {edt : δ} (hn : n < 2 ^ 61) (hzero : n = 0 ↔ w.deferred guid = 0)
    (hput : Puts w.chain T entryView m guid p (some (word 2 n, some edt))) :
    Holds (({ w with chain := T, live := guid :: w.live }).setStage guid .created)
      (update m guid (some (word 2 n, some edt))) := by
  have hnew : guid ∉ w.live := by
    rw [h.live, hstage]
    decide
  have hlive : ∀ k, k ∈ guid :: w.live ↔ k ≠ guid ∧ k ∈ w.live ∨ k = guid ∧ EdtStage.created.alive := by
    intro k
    by_cases hk : k = guid
    · subst hk
      simp [EdtStage.alive]
    · simp [hk]
  exact h.put hput rfl (update_eq_self guid w.deferred).symm (.alive rfl hn hzero) (fun _ _ => rfl)
    (fun hres => by cases hres (by simp)) hlive (nodup_cons.2 ⟨hnew, h.nodup⟩)

lemma goOn (h : w.Holds m) (guid : Guid) (halive : (w.stage guid).alive) (stage : EdtStage)
    (hnext : stage.alive) : ∃ p, w.chain.searchForKey guid .availableKey = some p ∧
      ∀ w' : EdtTable δ α, w'.chain = w.chain → w'.stage = update w.stage guid stage →
        w'.deferred = w.deferred → w'.live = w.live → (∀ q ≠ p, w'.isFired q = w.isFired q) →
        ∃ m', w'.Holds m' := by
  obtain ⟨p, n, edt, hs, hp, hsee, hn, hzero, -⟩ := h.found halive
  refine ⟨p, hs, fun w' hchain hstage hdeferred hlive hfired => ?_⟩
  have hput : Puts w.chain w'.chain entryView m guid p (some (word 2 n, some edt)) := by
    rw [hchain]
    exact Puts.refl hp hsee
  refine ⟨_, h.put hput hstage ?_ (.alive hnext hn hzero) hfired ?_ ?_ ?_⟩
  · rw [hdeferred, update_eq_self]
  · intro hres
    rw [hres (by simp)] at hnext
    cases hnext
  · rw [hlive]
    exact h.live_update (hnext.trans halive.symm)
  · rw [hlive]
    exact h.nodup

lemma delete (h : w.Holds m) (hstage : w.stage guid = .completed) :
    ∃ p m', w.chain.searchForKey guid .availableKey = some p ∧
      Holds (({ w.removeItem guid with live := w.live.erase guid }).setStage guid .deleted) m' ∧
      (((w.removeItem guid).chain.slotAt p).lock = 0 ∧ (w.removeItem guid).ooList p = [] ↔
        w.deferred guid = 0) := by
  obtain ⟨-, n, edt, -, -, -, hn, hzero, hm⟩ := h.found (by rw [hstage]; rfl)
  have hlive : ∀ k, k ∈ w.live.erase guid ↔
      k ≠ guid ∧ k ∈ w.live ∨ k = guid ∧ EdtStage.deleted.alive := by
    intro k
    rw [h.nodup.mem_erase_iff]
    simp [EdtStage.alive]
  have hnodup : (w.live.erase guid).Nodup := h.nodup.erase guid
  have hdeferred : w.deferred = update w.deferred guid (w.deferred guid) :=
    (update_eq_self guid w.deferred).symm
  rcases Nat.eq_zero_or_pos n with rfl | hpos
  · obtain ⟨T, p, hs, hput, heq⟩ := removeItem_free h.shown hm
    have hd : w.deferred guid = 0 := hzero.1 rfl
    rw [heq]
    refine ⟨p, _, hs, h.put hput rfl hdeferred ?_ (fun q hq => update_of_ne hq _ _)
      (fun _ => update_self ..) hlive hnodup, iff_of_true ⟨?_, ?_⟩ hd⟩
    · rw [hd]
      exact .freed
    · exact (entryView.eq_none_iff _).1 hput.see
    · exact update_self ..
  · obtain ⟨T, p, hs, hput, heq⟩ := removeItem_kept h.shown hm hpos hn
    obtain ⟨d, hd⟩ := Nat.exists_eq_succ_of_ne_zero fun h0 => hpos.ne' (hzero.2 h0)
    rw [heq]
    refine ⟨p, _, hs, h.put hput rfl hdeferred ?_ (fun _ _ => rfl)
      (fun hres => by cases hres (by simp)) hlive hnodup, iff_of_false ?_ (by omega)⟩
    · rw [hd]
      exact .kept hpos hn
    · exact fun hfree => (of_see hput.see).1 hfree.1

/-- **A step keeps the invariant.** -/
theorem next (h : w.Holds m) {self : UInt32} {l : EdtTableStep δ α} (hstep : w.next self l = some w') :
    ∃ m', w'.Holds m' := by
  cases l with
  | arrive guid x =>
    obtain ⟨hstage, hstep⟩ := ite_none_right_eq_some.1 hstep
    obtain ⟨w₁, m', heq, hw₁⟩ := h.arrive hstage x
    cases heq.symm.trans hstep
    exact ⟨m', hw₁⟩
  | create guid edt =>
    obtain ⟨hstage, hstep⟩ := ite_none_right_eq_some.1 hstep
    obtain ⟨T, p, n, hadd, hn, hzero, hput, -⟩ := h.add hstage edt self
    rw [hadd] at hstep
    cases hstep
    exact ⟨_, h.create hstage hn hzero hput⟩
  | replay guid =>
    obtain ⟨hstage, hstep⟩ := ite_none_right_eq_some.1 hstep
    cases hstep
    obtain ⟨p, hs, hgo⟩ := h.goOn guid (by rw [hstage]; rfl) .replayed rfl
    have hfire : w.fireOo guid = { w with
        ooList := update w.ooList p []
        isFired := update w.isFired p true } := by
      simp [fireOo, hs]
    refine hgo _ ?_ ?_ ?_ ?_ ?_ <;> rw [hfire]
    · rfl
    · rfl
    · rfl
    · rfl
    · exact fun q hq => update_of_ne hq _ _
  | complete guid =>
    obtain ⟨hstage, hstep⟩ := ite_none_right_eq_some.1 hstep
    cases hstep
    obtain ⟨p, -, hgo⟩ := h.goOn guid (by rw [hstage]; rfl) .completed rfl
    exact hgo _ rfl rfl rfl rfl fun _ _ => rfl
  | delete guid =>
    obtain ⟨hstage, hstep⟩ := ite_none_right_eq_some.1 hstep
    cases hstep
    obtain ⟨p, m', -, hw', -⟩ := h.delete hstage
    exact ⟨m', hw'⟩

lemma taken_of_deferred (h : w.Holds m) (hd : w.deferred guid ≠ 0) :
    ∃ p, (w.chain.slotAt p).lock ≠ 0 ∧ (w.chain.slotAt p).key = guid := by
  have hsome : ∃ v, m guid = some v := by
    have hfits := h.fits guid
    generalize w.stage guid = stage at hfits
    generalize m guid = x at hfits ⊢
    generalize w.deferred guid = d at hd hfits
    cases hfits with
    | unseen | freed => exact absurd rfl hd
    | waiting | alive | kept => exact ⟨_, rfl⟩
  obtain ⟨v, hv⟩ := hsome
  obtain ⟨p, hp⟩ := h.shown.map.mem.1 hv
  obtain ⟨hlock, hkey, -⟩ := of_see hp
  exact ⟨p, hlock, hkey⟩

lemma key_mem_live (h : w.Holds m) (hnone : ∀ guid, w.deferred guid = 0)
    (hlock : (w.chain.slotAt p).lock ≠ 0) : (w.chain.slotAt p).key ∈ w.live := by
  obtain ⟨⟨k, v⟩, hsee⟩ := entryView.exists_see hlock
  obtain ⟨-, rfl, -⟩ := of_see hsee
  have hm := h.shown.map.eq_of_cell hsee
  rw [h.live]
  have hfits := h.fits (w.chain.slotAt p).key
  rw [hm, hnone] at hfits
  generalize w.stage (w.chain.slotAt p).key = stage at hfits
  generalize hx : some v = x at hfits
  cases hfits with
  | alive halive => exact halive
  | unseen | freed => cases hx

/-- **If nothing was deferred, at most as many slots are taken as EDTs exist.** -/
theorem length_le_live (h : w.Holds m) (hnone : ∀ guid, w.deferred guid = 0) {ps : List SlotRef}
    (hnodup : ps.Nodup) (hlock : ∀ p ∈ ps, (w.chain.slotAt p).lock ≠ 0) :
    ps.length ≤ w.live.length := by
  have hinj : ∀ p ∈ ps, ∀ q ∈ ps, (w.chain.slotAt p).key = (w.chain.slotAt q).key → p = q := by
    intro p hp q hq hkey
    obtain ⟨⟨k, v⟩, hv⟩ := entryView.exists_see (hlock p hp)
    obtain ⟨⟨k', v'⟩, hv'⟩ := entryView.exists_see (hlock q hq)
    obtain ⟨-, rfl, -⟩ := of_see hv
    obtain ⟨-, rfl, -⟩ := of_see hv'
    exact h.shown.map.once hv (hkey ▸ hv')
  have hkeys : (ps.map fun p => (w.chain.slotAt p).key).Nodup := hnodup.map_on hinj
  have hsub : (ps.map fun p => (w.chain.slotAt p).key) ⊆ w.live := by
    intro k hk
    obtain ⟨p, hp, rfl⟩ := mem_map.1 hk
    exact h.key_mem_live hnone (hlock p hp)
  simpa using (hkeys.subperm hsub).length_le

end Holds

/-! ### Runs -/

/-- What holds while nothing is deferred and at most `B` EDTs exist. -/
structure Bounded (B : ℕ) (w : EdtTable δ α) : Prop where
  deferred : ∀ guid, w.deferred guid = 0
  live : w.live.length ≤ B
  tables : 8 * (w.chain.length - 1) ≤ B

variable {self : UInt32}

lemma Bounded.next {B : ℕ} (hb : w.Bounded B) (h : w.Holds m)
    {l : EdtTableStep δ α} (hmost : w.atMost B l) (hok : w.undeferred l) (hstep : w.next self l = some w') :
    w'.Bounded B := by
  cases l with
  | arrive guid x =>
    obtain ⟨hstage, hstep⟩ := ite_none_right_eq_some.1 hstep
    have halive : (w.stage guid).alive := by
      have hne : w.stage guid ≠ .reserved := by simpa [undeferred] using hok
      cases hst : w.stage guid <;> simp_all [EdtStage.alive]
    obtain ⟨edt, hlook⟩ := h.lookupItem halive
    rw [EdtTable.arrive, hlook] at hstep
    cases hstep
    exact hb
  | create guid edt =>
    obtain ⟨hstage, hstep⟩ := ite_none_right_eq_some.1 hstep
    obtain ⟨T, p, n, hadd, -, -, -, hlen⟩ := h.add hstage edt self
    have hlt : w.live.length < B := by simpa [atMost] using hmost
    rw [hadd] at hstep
    cases hstep
    refine ⟨hb.deferred, hlt, ?_⟩
    show 8 * (T.length - 1) ≤ B
    rcases hlen (hb.deferred guid) with heq | ⟨heq, hfull⟩
    · rw [heq]
      exact hb.tables
    · have hle := h.length_le_live hb.deferred (w.chain.nodup_candidates guid) hfull
      rw [length_candidates, collisionResolves] at hle
      omega
  | replay guid =>
    obtain ⟨hstage, hstep⟩ := ite_none_right_eq_some.1 hstep
    cases hstep
    obtain ⟨hchain, hdeferred, hlive⟩ := w.fireOo_frame guid
    exact ⟨hdeferred ▸ hb.deferred, hlive ▸ hb.live, hchain ▸ hb.tables⟩
  | complete guid =>
    obtain ⟨hstage, hstep⟩ := ite_none_right_eq_some.1 hstep
    cases hstep
    exact { hb with }
  | delete guid =>
    obtain ⟨hstage, hstep⟩ := ite_none_right_eq_some.1 hstep
    cases hstep
    obtain ⟨hlen, hdeferred⟩ := w.removeItem_frame guid
    refine ⟨hdeferred ▸ hb.deferred, ?_, hlen ▸ hb.tables⟩
    exact (length_erase_le ..).trans hb.live

lemma exists_holds (h : (machine self).Reachable w) :
    ∃ m, w.Holds m := by
  refine h.invariant (I := fun w => ∃ m, w.Holds m) ?_ ?_
  · rintro w ⟨size, shift, rfl⟩
    exact ⟨_, Holds.init size shift⟩
  · rintro w l w' - ⟨m, hm⟩ hstep
    exact hm.next hstep

/-- **A slot is reclaimed if and only if nothing was deferred on its EDT**; without deferrals and
with at most `B` EDTs at a time, at most `B` slots are taken, in at most `B / 8` more tables. -/
theorem reclaims (self : UInt32) :
    (∀ (w w' : EdtTable δ α) (guid : Guid), (machine self).Reachable w →
      w.next self (.delete guid) = some w' →
      ∃ p, w.chain.searchForKey guid .availableKey = some p ∧
        ((w'.chain.slotAt p).lock = 0 ∧ w'.ooList p = [] ↔ w.deferred guid = 0)) ∧
    ∀ (B : ℕ) (w : EdtTable δ α),
      ((machine self).restrict fun w l => w.atMost B l ∧ w.undeferred l).Reachable w →
      8 * (w.chain.length - 1) ≤ B ∧
        ∀ ps : List SlotRef, ps.Nodup → (∀ p ∈ ps, (w.chain.slotAt p).lock ≠ 0) → ps.length ≤ B := by
  constructor
  · intro w w' guid hreach hstep
    obtain ⟨m, hm⟩ := exists_holds hreach
    obtain ⟨hstage, hstep⟩ := ite_none_right_eq_some.1 hstep
    cases hstep
    obtain ⟨p, m', hs, -, hfree⟩ := hm.delete hstage
    exact ⟨p, hs, hfree⟩
  · intro B w hreach
    have hb : w.Bounded B := by
      refine hreach.invariant ?_ ?_
      · rintro w ⟨size, shift, rfl⟩
        exact ⟨fun _ => rfl, Nat.zero_le B, Nat.zero_le B⟩
      · intro w l w' hr hb hstep
        obtain ⟨m, hm⟩ := exists_holds hr.of_restrict
        obtain ⟨⟨hmost, hok⟩, hstep⟩ := Machine.restrict_next.1 hstep
        exact hb.next hm hmost hok hstep
    obtain ⟨m, hm⟩ := exists_holds hreach.of_restrict
    exact ⟨hb.tables, fun ps hnodup hlock =>
      (hm.length_le_live hb.deferred hnodup hlock).trans hb.live⟩

/-- The steps of an EDT on which nothing is deferred. -/
def calmLife (guid : Guid) : List (EdtTableStep ℕ Bool) :=
  [.create guid 7, .replay guid, .arrive guid true, .complete guid, .delete guid]

/-- The steps of an EDT that is signalled before it exists. -/
def signalledLife (guid : Guid) : List (EdtTableStep ℕ Bool) :=
  [.arrive guid true, .create guid 7, .replay guid, .complete guid, .delete guid]

/-- Two EDTs, one after the other: the slot of the second one is freed, and no table is added. -/
theorem reclaims_calm : ∃ w w' : EdtTable ℕ Bool, ∃ p,
    ((machine 0).restrict fun w l => w.atMost 1 l ∧ w.undeferred l).Reachable w ∧
      w.next 0 (.delete 6) = some w' ∧ w.chain.searchForKey 6 .availableKey = some p ∧
      (w'.chain.slotAt p).lock = 0 ∧ w'.ooList p = [] ∧ 8 * (w.chain.length - 1) ≤ 1 := by
  obtain ⟨w, hreach, hdel, hnone⟩ := Machine.Reachable.exists_of_exec
    (M := (machine 0).restrict fun (w : EdtTable ℕ Bool) l => w.atMost 1 l ∧ w.undeferred l)
    (P := fun w => (w.next 0 (.delete 6)).isSome ∧ w.deferred 6 = 0)
    (r := calmLife 5 ++ (calmLife 6).dropLast)
    ⟨2, 1, rfl⟩ (by decide +kernel)
  obtain ⟨w', hw'⟩ := isSome_iff_exists.1 hdel
  obtain ⟨p, hs, hfree⟩ := (reclaims 0).1 w w' 6 hreach.of_restrict hw'
  obtain ⟨hlock, hlist⟩ := hfree.2 hnone
  exact ⟨w, w', p, hreach, hw', hs, hlock, hlist, ((reclaims 0).2 1 w hreach).1⟩

/-- **Slots of finished EDTs are not reclaimed**: seventeen EDTs, one at a time, each signalled
before it exists. -/
theorem slot_leaks : ∃ w : EdtTable ℕ Bool,
    ((machine 0).restrict fun w l => w.atMost 1 l).Reachable w ∧ w.live = [] ∧
    (∀ k < 17, w.stage (UInt64.ofNat (k + 1)) = .deleted) ∧ w.chain.length = 2 ∧
    ∃ p, (w.chain.slotAt p).key = 1 ∧ (w.chain.slotAt p).lock = word 3 1 := by
  obtain ⟨w, hreach, hlive, hstage, hlen, hslot⟩ := Machine.Reachable.exists_of_exec
    (M := (machine 0).restrict fun (w : EdtTable ℕ Bool) l => w.atMost 1 l)
    (P := fun w => w.live = [] ∧
      (∀ k < 17, w.stage (UInt64.ofNat (k + 1)) = .deleted) ∧ w.chain.length = 2 ∧
      (w.chain.slotAt (0, (getRouteTableKey 1 1).toNat)).key = 1 ∧
      (w.chain.slotAt (0, (getRouteTableKey 1 1).toNat)).lock = word 3 1)
    (r := (range 17).flatMap fun k => signalledLife (UInt64.ofNat (k + 1)))
    ⟨2, 1, rfl⟩ (by decide +kernel)
  exact ⟨w, hreach, hlive, hstage, hlen, _, hslot⟩

end EdtTable

end Arts
