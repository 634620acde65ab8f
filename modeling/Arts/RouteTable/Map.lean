import Arts.Machine.Basic
import Arts.RouteTable.Slots

/-!
# The route table is a map

`Chain.Keeps T m`: the slots of the chain hold the map `m`. **`Chain.implements_of_exec`**: every
sequence of calls leads to a chain that implements the map built by `TableOp.onMap`.
-/

namespace Arts

open List Function Option Slot

variable {δ : Type*}

/-! ### The calls -/

inductive TableOp (δ : Type*) where
  /-- `arts_route_table_reserve_item_race` -/
  | reserve (key : Guid) (used : Bool)
  /-- `arts_route_table_add_item_race` -/
  | addRace (item : Option δ) (key : Guid) (rank : UInt32) (used : Bool)
  /-- `arts_route_table_add_item`, of a key that is not present -/
  | add (item : Option δ) (key : Guid) (rank : UInt32) (used : Bool)
  /-- `arts_route_table_remove_item`, of an available item without references -/
  | remove (key : Guid)

namespace TableOp

def key : TableOp δ → Guid
  | reserve key _ | addRace _ key _ _ | add _ key _ _ | remove key => key

def Allowed (T : Chain δ) : TableOp δ → Prop
  | reserve key _ | addRace _ key _ _ => key ≠ Guid.null
  | add _ key _ _ => key ≠ Guid.null ∧ T.searchForKey key .allocatedKey = none
  | remove key => key ≠ Guid.null ∧
      (T.searchForKey key .availableKey).any (fun p => getCount (T.slotAt p).lock == 0)

instance decidableAllowed (T : Chain δ) : ∀ op, Decidable (Allowed T op)
  | reserve key _ | addRace _ key _ _ => inferInstanceAs (Decidable (key ≠ Guid.null))
  | add _ key _ _ =>
    inferInstanceAs (Decidable (key ≠ Guid.null ∧ T.searchForKey key .allocatedKey = none))
  | remove key => inferInstanceAs (Decidable (key ≠ Guid.null ∧
      (T.searchForKey key .availableKey).any (fun p => getCount (T.slotAt p).lock == 0)))

def call (T : Chain δ) : TableOp δ → Option (Chain δ × Bool)
  | reserve key used => T.reserveItemRace key used
  | addRace item key rank used => T.addItemRace item key rank used
  | add item key rank used => (T.addItem item key rank used).map (·, true)
  | remove key => some (T.removeItem key, false)

/-- A call that may be made. -/
def run (T : Chain δ) (op : TableOp δ) : Option (Chain δ × Bool) :=
  if Allowed T op then op.call T else none

end TableOp

/-- Calls one after another, on a new table. -/
def Chain.machine : Machine (Chain δ) (TableOp δ) where
  init T := ∃ size shift : UInt32, 1 ≤ shift.toNat ∧ size.toNat = 2 ^ shift.toNat ∧
    T = [newRouteTable size shift]
  next T op := (op.run T).map Prod.fst

/-! ### The map -/

/-- A map from keys to the state and the data of an item. -/
abbrev Contents (δ : Type*) := Guid → Option (KeyState × Option δ)

namespace TableOp

/-- What a call does to the map, and what it returns. -/
def onMap (m : Contents δ) : TableOp δ → Contents δ × Bool
  | reserve key _ =>
    if (m key).isNone then (update m key (some (.reservedKey, none)), true) else (m, false)
  | addRace item key _ _ =>
    if (m key).all (fun v => v.1 = .reservedKey) then
      (update m key (some (.availableKey, item)), true)
    else (m, false)
  | add item key _ _ => (update m key (some (.availableKey, item)), true)
  | remove key => (update m key none, false)

def mapAfter (ops : List (TableOp δ)) : Contents δ := ops.foldl (fun m op => (onMap m op).1) fun _ => none

end TableOp

structure Chain.Implements (T : Chain δ) (m : Contents δ) : Prop where
  finite : {key | m key ≠ none}.Finite
  found : ∀ key state data, m key = some (state, data) → ∃ p,
    T.searchForKey key .allocatedKey = some p ∧ getItemState (T.slotAt p).lock = state ∧
      (T.slotAt p).data = data ∧
      ∀ q, (T.slotAt q).lock ≠ 0 → (T.slotAt q).key = key → q = p
  absent : ∀ key, m key = none → ∀ state, T.searchForKey key state = none
  inTable : ∀ t ∈ T, ∀ key, ∀ i ∈ probes key t.shift, i < 8 * t.size.toNat

/-! ### Slots -/

/-- A slot in this state is found if the state `asked` is asked for. -/
def KeyState.admits (asked state : KeyState) : Bool :=
  match asked with
  | .anyKey => true
  | .allocatedKey => state = .reservedKey ∨ state = .availableKey ∨ state = .requestedKey
  | _ => state = asked

namespace Slot

variable {s : Slot δ} {key : Guid} {n : ℕ}

def view (s : Slot δ) : Option (Guid × KeyState × Option δ) :=
  if s.lock = 0 then none else some (s.key, getItemState s.lock, s.data)

/-- The slot is empty, reserved or available. -/
def Clean (s : Slot δ) : Prop :=
  s.lock = 0 ∧ s.key = Guid.null ∧ s.data = none ∨ ∃ t n, (t = 4 ∨ t = 2) ∧ n < 2 ^ 61 ∧ s.lock = word t n

variable {t : ℕ}

lemma checkItemState_word (ht : t = 4 ∨ t = 2) (hn : n < 2 ^ 61) (state : KeyState) :
    checkItemState (word t n) state = state.admits (getItemState (word t n)) := by
  have hlt : t < 8 := by omega
  have hne : word t n ≠ 0 := word_ne_zero hlt (by omega) hn
  have hres := isRes_word hlt hn
  have havail := isAvail_word hlt hn
  have hreq := isReq_word hlt hn
  have hdel := isDel_word hlt hn
  rcases ht with rfl | rfl <;> cases state <;>
    simp [checkItemState, getItemState, KeyState.admits, hres, havail, hreq, hdel, hne]

lemma Clean.isFound_iff (h : s.Clean) (state : KeyState) :
    s.isFound key state ↔ ∃ v, s.view = some (key, v) ∧ state.admits v.1 := by
  rcases h with ⟨h0, -⟩ | ⟨t, n, ht, hn, hlock⟩
  · have hno : checkItemState 0 state = false := by cases state <;> decide
    simp [isFound, view, h0, hno]
  · have hne : s.lock ≠ 0 := hlock ▸ word_ne_zero (by omega) (by omega) hn
    rw [isFound, view, if_neg hne, hlock, checkItemState_word ht hn]
    constructor
    · intro hf
      simp only [Bool.and_eq_true, beq_iff_eq] at hf
      exact ⟨_, by rw [hf.2], hf.1⟩
    · rintro ⟨v, hv, hadm⟩
      cases hv
      simpa using hadm

lemma Clean.data_of_lock (h : s.Clean) (h0 : s.lock = 0) : s.data = none := by
  rcases h with ⟨-, -, hd⟩ | ⟨t, n, ht, hn, hlock⟩
  · exact hd
  · exact absurd (hlock ▸ h0) (word_ne_zero (by omega) (by omega) hn)

lemma clean_of_lock (ht : t = 4 ∨ t = 2) (hn : n < 2 ^ 61) (h : s.lock = word t n) : s.Clean :=
  .inr ⟨t, n, ht, hn, h⟩

lemma view_of_lock (ht : t = 4 ∨ t = 2) (hn : n < 2 ^ 61) (h : s.lock = word t n) :
    s.view = some (s.key, getItemState (word t n), s.data) := by
  rw [view, if_neg (h ▸ word_ne_zero (by omega) (by omega) hn), h]

lemma getItemState_reserved (hn : n < 2 ^ 61) : getItemState (word 4 n) = .reservedKey := by
  simp [getItemState, isRes_word _ hn]

lemma getItemState_available (hn : n < 2 ^ 61) : getItemState (word 2 n) = .availableKey := by
  simp [getItemState, isRes_word _ hn, isAvail_word _ hn]

lemma Clean.of_view (h : s.Clean) {v : KeyState × Option δ} (hv : s.view = some (key, v)) :
    s.key = key ∧ s.data = v.2 ∧
      ∃ n < 2 ^ 61, s.lock = word 4 n ∧ v.1 = .reservedKey ∨
        s.lock = word 2 n ∧ v.1 = .availableKey := by
  rcases h with ⟨h0, -⟩ | ⟨t, n, ht, hn, hlock⟩
  · simp [view, h0] at hv
  · rw [view_of_lock ht hn hlock] at hv
    cases hv
    refine ⟨rfl, rfl, n, hn, ?_⟩
    rcases ht with rfl | rfl
    · exact .inl ⟨hlock, getItemState_reserved hn⟩
    · exact .inr ⟨hlock, getItemState_available hn⟩

end Slot

/-! ### The chain holds the map -/

def Slot.mapView : SlotView δ (KeyState × Option δ) where
  see := view
  eq_none_iff s := by
    unfold view
    split_ifs with h <;> simp [h]
  key {s} {k} {v} h := by
    unfold view at h
    split_ifs at h
    exact (Prod.mk.inj (some.inj h)).1

namespace Chain

variable {T T' : Chain δ} {m : Contents δ} {key : Guid} {p : SlotRef} {s : Slot δ}

def cells (T : Chain δ) : SlotRef → Option (Guid × KeyState × Option δ) := fun p => (T.slotAt p).view

structure Keeps (T : Chain δ) (m : Contents δ) : Prop where
  nonempty : T ≠ []
  clean : ∀ p, (T.slotAt p).Clean
  placed : ∀ p, (T.slotAt p).lock ≠ 0 → p ∈ T.candidates (T.slotAt p).key
  map : CellMap T.cells m

namespace Keeps

lemma shows (h : T.Keeps m) : T.Shows mapView m := { h with }

lemma new (size shift : UInt32) : Keeps [newRouteTable size shift] (fun _ => none : Contents δ) := by
  obtain ⟨hne, hplaced, hmap⟩ := Shows.new (δ := δ) mapView size shift
  refine ⟨hne, fun p => .inl ?_, hplaced, hmap⟩
  rw [slotAt_new]
  exact ⟨rfl, rfl, rfl⟩

lemma cells_of_lock (hlock : (T.slotAt p).lock ≠ 0) : T.cells p =
    some ((T.slotAt p).key, getItemState (T.slotAt p).lock, (T.slotAt p).data) :=
  if_neg hlock

variable {v : KeyState × Option δ}

lemma of_cells (h : T.cells p = some (key, v)) :
    (T.slotAt p).lock ≠ 0 ∧ (T.slotAt p).key = key := by
  unfold cells view at h
  split_ifs at h with h0
  cases h
  exact ⟨h0, rfl⟩

/-- **One slot is written**: an empty candidate of a key that is not present, or the slot of the key. -/
theorem write (h : T.Keeps m) (hw : Wrote T T' key p s) {x : Option (KeyState × Option δ)}
    (hheld : (T.slotAt p).lock ≠ 0 → (T.slotAt p).key = key)
    (hfree : (T.slotAt p).lock = 0 → m key = none) (hclean : s.Clean)
    (hview : s.view = x.map (key, ·)) : T'.Keeps (update m key x) := by
  obtain ⟨hne, hplaced, hmap⟩ := h.shows.write hw hheld hfree hview
  refine ⟨hne, fun q => ?_, hplaced, hmap⟩
  rw [hw.slot]
  by_cases hq : q = p
  · subst hq
    rwa [update_self]
  · rw [update_of_ne hq]
    exact h.clean q

lemma isFound_iff (h : T.Keeps m) (key : Guid) (state : KeyState) (q : SlotRef) :
    (T.slotAt q).isFound key state ↔
      ∃ v, mapView.see (T.slotAt q) = some (key, v) ∧ state.admits v.1 :=
  (h.clean q).isFound_iff state

variable {state : KeyState}

lemma search_eq_some (h : T.Keeps m) (hs : T.searchForKey key state = some p) :
    p ∈ T.candidates key ∧ ∃ v, T.cells p = some (key, v) ∧ state.admits v.1 ∧ m key = some v :=
  h.shows.search_eq_some (h.isFound_iff key state) hs

lemma search_of_mem (h : T.Keeps m) (hm : m key = some v) (hadm : state.admits v.1) :
    ∃ p, T.searchForKey key state = some p ∧ T.cells p = some (key, v) :=
  h.shows.search_of_mem (h.isFound_iff key state) hm hadm

lemma search_eq_none (h : T.Keeps m)
    (hno : ∀ v, m key = some v → ¬ state.admits v.1) : T.searchForKey key state = none :=
  h.shows.search_eq_none (h.isFound_iff key state) hno

lemma lock_of_cells (h : T.Keeps m) (hp : T.cells p = some (key, v)) :
    (T.slotAt p).lock ≠ 0 ∧ (T.slotAt p).key = key ∧ (T.slotAt p).data = v.2 ∧ ∃ n < 2 ^ 61,
      (T.slotAt p).lock = word 4 n ∧ v.1 = .reservedKey ∨
        (T.slotAt p).lock = word 2 n ∧ v.1 = .availableKey :=
  ⟨(of_cells hp).1, (h.clean p).of_view hp⟩

lemma allocated (h : T.Keeps m) (hm : m key = some v) : KeyState.allocatedKey.admits v.1 := by
  obtain ⟨p, hp⟩ := h.map.mem.1 hm
  obtain ⟨-, -, -, n, -, ⟨-, hv⟩ | ⟨-, hv⟩⟩ := h.lock_of_cells hp <;>
    simp [KeyState.admits, hv]

lemma search_allocated_eq_none (h : T.Keeps m) :
    T.searchForKey key .allocatedKey = none ↔ m key = none := by
  constructor
  · intro hs
    cases hm : m key with
    | none => rfl
    | some v =>
      obtain ⟨p, hp, -⟩ := h.search_of_mem hm (h.allocated hm)
      rw [hs] at hp
      cases hp
  · intro hm
    exact h.search_eq_none (by simp [hm])

end Keeps

/-! ### The calls on the map -/

/-- What a call does: it writes a slot of its key, which gives the key the value `x`. -/
def Effect (T T' : Chain δ) (m : Contents δ) (key : Guid) (x : Option (KeyState × Option δ)) : Prop :=
  ∃ p s, Wrote T T' key p s ∧
    ((T.slotAt p).lock = 0 ∧ m key = none ∨ ∃ v, T.cells p = some (key, v)) ∧
    s.Clean ∧ s.view = x.map (key, ·)

namespace Effect

variable {x : Option (KeyState × Option δ)}

lemma keeps (he : Effect T T' m key x) (h : T.Keeps m) : T'.Keeps (update m key x) := by
  obtain ⟨p, s, hw, hplace, hclean, hview⟩ := he
  refine h.write hw (fun hlock => ?_) (fun hlock => ?_) hclean hview
  · rcases hplace with ⟨h0, -⟩ | ⟨v, hv⟩
    · exact absurd h0 hlock
    · exact (Keeps.of_cells hv).2
  · rcases hplace with ⟨-, hm⟩ | ⟨v, hv⟩
    · exact hm
    · exact absurd hlock (Keeps.of_cells hv).1

variable {v : KeyState × Option δ}

lemma other (he : Effect T T' m key x) {q : SlotRef} {k : Guid} (hk : k ≠ key) (hq : T.cells q = some (k, v)) :
    T'.slotAt q = T.slotAt q := by
  obtain ⟨p, s, hw, hplace, -, -⟩ := he
  have hne : q ≠ p := by
    rintro rfl
    rcases hplace with ⟨h0, -⟩ | ⟨w, hw⟩
    · exact (Keeps.of_cells hq).1 h0
    · rw [hw] at hq
      cases hq
      exact hk rfl
  rw [hw.slot, update_of_ne hne]

lemma of_lock (hw : Wrote T T' key p s)
    (hplace : (T.slotAt p).lock = 0 ∧ m key = none ∨ ∃ v, T.cells p = some (key, v)) {t n : ℕ}
    (ht : t = 4 ∨ t = 2) (hn : n < 2 ^ 61) (hlock : s.lock = word t n) (hkey : s.key = key) :
    Effect T T' m key (some (getItemState (word t n), s.data)) :=
  ⟨p, s, hw, hplace, clean_of_lock ht hn hlock, by
    rw [view_of_lock ht hn hlock, hkey]
    rfl⟩

lemma refl (h : T.Keeps m) (hp : p ∈ T.candidates key)
    (hc : T.cells p = some (key, v)) : Effect T T m key (some v) :=
  ⟨p, T.slotAt p, ⟨.inl rfl, hp, (update_eq_self p T.slotAt).symm⟩, .inr ⟨v, hc⟩, h.clean p, hc⟩

end Effect

namespace Keeps

variable {v : KeyState × Option δ}

lemma effect_incItem (h : T.Keeps m) (hp : p ∈ T.candidates key)
    (hc : T.cells p = some (key, v)) :
    Effect T (T.modifySlot p fun s => s.incItem 1 s.key) m key (some v) := by
  obtain ⟨-, hkey, hdata, n, hn, hlock⟩ := h.lock_of_cells hc
  obtain ⟨t, ht, hlock, hstate⟩ : ∃ t, (t = 4 ∨ t = 2) ∧ (T.slotAt p).lock = word t n ∧
      getItemState (word t n) = v.1 := by
    rcases hlock with ⟨hlock, hv⟩ | ⟨hlock, hv⟩
    · exact ⟨4, .inl rfl, hlock, by rw [getItemState_reserved hn, hv]⟩
    · exact ⟨2, .inr rfl, hlock, by rw [getItemState_available hn, hv]⟩
  obtain ⟨n', hn', -, hinc⟩ := incItem_eq ht hlock hn
  have hw := Wrote.modify hp fun s : Slot δ => s.incItem 1 s.key
  rw [hinc] at hw
  have he := Effect.of_lock (m := m) hw (.inr ⟨v, hc⟩) ht hn' rfl hkey
  have hsame : getItemState (word t n') = getItemState (word t n) := by
    rcases ht with rfl | rfl
    · rw [getItemState_reserved hn, getItemState_reserved hn']
    · rw [getItemState_available hn, getItemState_available hn']
  rw [hsame, hstate] at he
  simpa only [hdata] using he

lemma effect_reserveItemRace (h : T.Keeps m) (key : Guid) (used : Bool) : ∃ T',
    T.reserveItemRace key used = some (T', (m key).isNone) ∧
      Effect T T' m key (some ((m key).getD (.reservedKey, none))) := by
  cases hs : T.searchForKey key .allocatedKey with
  | some p =>
    obtain ⟨hp, v, hc, -, hm⟩ := h.search_eq_some hs
    rw [reserveItemRace, hs, hm]
    cases used with
    | false => exact ⟨_, rfl, Effect.refl h hp hc⟩
    | true => exact ⟨_, rfl, h.effect_incItem hp hc⟩
  | none =>
    have hm := h.search_allocated_eq_none.1 hs
    obtain ⟨T', p, heq, hlock, hw⟩ := searchForEmpty_wrote h.nonempty key used
    have hn : used.toNat < 2 ^ 61 := by cases used <;> decide
    have he := Effect.of_lock hw (.inl ⟨hlock, hm⟩) (.inl rfl) hn rfl rfl
    rw [getItemState_reserved hn, (h.clean p).data_of_lock hlock] at he
    rw [reserveItemRace, hs, heq, hm]
    exact ⟨T', rfl, he⟩

lemma effect_addItem (h : T.Keeps m) (hm : m key = none) (item : Option δ) (rank : UInt32)
    (used : Bool) : ∃ T', T.addItem item key rank used = some T' ∧
      Effect T T' m key (some (.availableKey, item)) := by
  obtain ⟨T', p, heq, hlock, hw⟩ := searchForEmpty_wrote h.nonempty key used
  have hn : used.toNat < 2 ^ 61 := by cases used <;> decide
  have hw' := hw.again fun s => s.fill item rank
  rw [fill_eq rfl hn] at hw'
  have he := Effect.of_lock hw' (.inl ⟨hlock, hm⟩) (.inr rfl) hn rfl rfl
  rw [getItemState_available hn] at he
  rw [addItem, heq]
  exact ⟨_, rfl, he⟩

lemma effect_fill (h : T.Keeps m) {n : ℕ} (hp : p ∈ T.candidates key)
    (hc : T.cells p = some (key, v)) (hlock : (T.slotAt p).lock = word 4 n) (hn : n < 2 ^ 61)
    (item : Option δ) (rank : UInt32) (used : Bool) :
    Effect T (if used then
        (T.modifySlot p (·.fill item rank)).modifySlot p fun s => s.incItem 1 s.key
      else T.modifySlot p (·.fill item rank)) m key (some (.availableKey, item)) := by
  obtain ⟨-, hkey, -⟩ := h.lock_of_cells hc
  have hw := Wrote.modify hp fun s : Slot δ => s.fill item rank
  rw [fill_eq hlock hn] at hw
  cases used with
  | false =>
    have he := Effect.of_lock (m := m) hw (.inr ⟨v, hc⟩) (.inr rfl) hn rfl hkey
    rwa [getItemState_available hn] at he
  | true =>
    have hw' := hw.again fun s => s.incItem 1 s.key
    obtain ⟨n', hn', -, hinc⟩ := incItem_eq (s := { T.slotAt p with
      lock := word 2 n, data := item, rank := rank }) (.inr rfl) rfl hn
    rw [hinc] at hw'
    have he := Effect.of_lock (m := m) hw' (.inr ⟨v, hc⟩) (.inr rfl) hn' rfl hkey
    rwa [getItemState_available hn'] at he

lemma effect_addItemRace (h : T.Keeps m) (item : Option δ) (key : Guid) (rank : UInt32)
    (used : Bool) : ∃ T' x,
      T.addItemRace item key rank used = some (T', (m key).all fun v => v.1 = .reservedKey) ∧
      Effect T T' m key x ∧ x = if (m key).all fun v => v.1 = .reservedKey then
        some (.availableKey, item) else m key := by
  cases hs : T.searchForKey key .allocatedKey with
  | none =>
    have hm := h.search_allocated_eq_none.1 hs
    obtain ⟨T', heq, he⟩ := h.effect_addItem hm item rank used
    rw [addItemRace, hs, heq, hm]
    exact ⟨T', _, rfl, he, rfl⟩
  | some p =>
    obtain ⟨hp, v, hc, -, hm⟩ := h.search_eq_some hs
    obtain ⟨-, hkey, -, n, hn, ⟨hlock, hv⟩ | ⟨hlock, hv⟩⟩ := h.lock_of_cells hc
    · have hres : checkItemState (T.slotAt p).lock .reservedKey = true := by
        rw [hlock, checkItemState, isRes_word (by decide) hn]
        rfl
      have hall : (some v).all (fun v => v.1 = .reservedKey) = true := by simp [hv]
      simp only [addItemRace, hs, hres, hm, hall]
      exact ⟨_, _, rfl, h.effect_fill hp hc hlock hn item rank used, rfl⟩
    · have hres : checkItemState (T.slotAt p).lock .reservedKey = false := by
        rw [hlock, checkItemState, isRes_word (by decide) hn]
        rfl
      have hall : (some v).all (fun v => v.1 = .reservedKey) = false := by simp [hv]
      simp only [addItemRace, hs, hres, hm, hall]
      exact ⟨_, some v, rfl, Effect.refl h hp hc, rfl⟩

lemma effect_removeItem (h : T.Keeps m)
    (hfree : (T.searchForKey key .availableKey).any fun p => getCount (T.slotAt p).lock == 0) :
    Effect T (T.removeItem key) m key none := by
  cases hs : T.searchForKey key .availableKey with
  | none => simp [hs] at hfree
  | some p =>
    obtain ⟨hp, v, hc, hadm, -⟩ := h.search_eq_some hs
    obtain ⟨-, -, -, n, hn, ⟨-, hv⟩ | ⟨hlock, -⟩⟩ := h.lock_of_cells hc
    · simp [KeyState.admits, hv] at hadm
    · simp only [hs, any_some, beq_iff_eq, hlock, getCount_eq_zero hn] at hfree
      subst hfree
      have hw := Wrote.modify hp fun s : Slot δ => s.markDelete
      have hdel : shouldDelete ((T.modifySlot p fun s => s.markDelete).slotAt p).lock := by
        rw [hw.slot, update_self, markDelete_eq hlock hn]
        exact (shouldDelete_word hn).2 rfl
      simp only [removeItem, hs, hdel]
      exact ⟨p, _, hw.again fun s => s.freeItem, .inr ⟨v, hc⟩, .inl ⟨rfl, rfl, rfl⟩, rfl⟩

end Keeps

variable {op : TableOp δ}

/-- **A call acts on the map as it should.** -/
theorem Keeps.effect (h : T.Keeps m) {r : Bool} (hrun : op.run T = some (T', r)) :
    ∃ x, Effect T T' m op.key x ∧ op.onMap m = (update m op.key x, r) := by
  unfold TableOp.run at hrun
  split_ifs at hrun with hok
  cases op with
  | reserve key used =>
    obtain ⟨T'', heq, he⟩ := h.effect_reserveItemRace key used
    cases heq.symm.trans hrun
    refine ⟨_, he, ?_⟩
    cases hm : m key with
    | none => simp [TableOp.onMap, TableOp.key, hm]
    | some v =>
      have hsame : update m key (some v) = m := by rw [← hm, update_eq_self]
      simp [TableOp.onMap, TableOp.key, hm]
  | addRace item key rank used =>
    obtain ⟨T'', x, heq, he, hx⟩ := h.effect_addItemRace item key rank used
    cases heq.symm.trans hrun
    refine ⟨x, he, ?_⟩
    subst hx
    simp only [TableOp.onMap, TableOp.key]
    split_ifs with hall
    · rw [hall]
    · rw [update_eq_self, Bool.eq_false_iff.2 hall]
  | add item key rank used =>
    have hm := h.search_allocated_eq_none.1 hok.2
    obtain ⟨T'', heq, he⟩ := h.effect_addItem hm item rank used
    simp only [TableOp.call, heq] at hrun
    cases hrun
    exact ⟨_, he, rfl⟩
  | remove key =>
    cases hrun
    exact ⟨_, h.effect_removeItem hok.2, rfl⟩

lemma Keeps.run_isSome (h : T.Keeps m) (hok : op.Allowed T) :
    ∃ T' r, op.run T = some (T', r) := by
  rw [TableOp.run, if_pos hok]
  cases op with
  | reserve key used =>
    obtain ⟨T', heq, -⟩ := h.effect_reserveItemRace key used
    exact ⟨T', _, heq⟩
  | addRace item key rank used =>
    obtain ⟨T', x, heq, -⟩ := h.effect_addItemRace item key rank used
    exact ⟨T', _, heq⟩
  | add item key rank used =>
    obtain ⟨T', heq, -⟩ := h.effect_addItem (h.search_allocated_eq_none.1 hok.2) item rank used
    exact ⟨T', true, by rw [TableOp.call, heq]; rfl⟩
  | remove key => exact ⟨_, _, rfl⟩

lemma Effect.search_eq {x : Option (KeyState × Option δ)} (he : Effect T T' m key x) (h : T.Keeps m)
    {k : Guid} (hk : k ≠ key) (state : KeyState) :
    T'.searchForKey k state = T.searchForKey k state := by
  have h' := he.keeps h
  have hm : update m key x k = m k := update_of_ne hk _ _
  cases hs : T.searchForKey k state with
  | none =>
    refine h'.search_eq_none fun v hv hadm => ?_
    obtain ⟨p, hp, -⟩ := h.search_of_mem (hm ▸ hv) hadm
    rw [hs] at hp
    cases hp
  | some p =>
    obtain ⟨-, v, hc, hadm, hmk⟩ := h.search_eq_some hs
    obtain ⟨q, hq, hc'⟩ := h'.search_of_mem (hm.trans hmk) hadm
    have hcell : T'.cells p = some (k, v) := by
      rw [cells, he.other hk hc]
      exact hc
    rw [hq, h'.map.once hc' hcell]

/-! ### Sizes -/

/-- Below the bound, the size of a table is `2 ^ shift`. -/
def Sized (T : Chain δ) : Prop :=
  (∀ z ∈ T.shape, z.1.toNat < 2 ^ 31) → ∀ z ∈ T.shape, 1 ≤ z.2.toNat ∧ z.1.toNat = 2 ^ z.2.toNat

lemma Sized.grow (h : T.Sized) : T.grow.Sized := by
  unfold Chain.grow
  cases hl : T.getLast? with
  | none => exact h
  | some t =>
    intro hb z hz
    simp only [shape, map_append, map_cons, map_nil, mem_append,
      mem_singleton] at hb hz
    have hT := h fun z hz => hb z (.inl hz)
    rcases hz with hz | rfl
    · exact hT z hz
    · have hmem : (t.size, t.shift) ∈ T.shape :=
        mem_map.2 ⟨t, mem_of_getLast? hl, rfl⟩
      have hlt := hb (t.size, t.shift) (.inl hmem)
      obtain ⟨hpos, hsize⟩ := hT _ hmem
      simp only at hlt hpos hsize
      have hshift : t.shift.toNat < 31 := (Nat.pow_lt_pow_iff_right (by decide)).1 (hsize ▸ hlt)
      have hadd : (t.shift + 1).toNat = t.shift.toNat + 1 := by
        refine Nat.mod_eq_of_lt (?_ : t.shift.toNat + 1 < 2 ^ 32)
        omega
      have hmul : (2 * t.size).toNat = 2 * t.size.toNat := by
        refine Nat.mod_eq_of_lt (?_ : 2 * t.size.toNat < 2 ^ 32)
        omega
      show 1 ≤ (t.shift + 1).toNat ∧ (2 * t.size).toNat = 2 ^ (t.shift + 1).toNat
      rw [hadd, hmul, hsize, Nat.pow_succ, Nat.mul_comm]
      exact ⟨by omega, rfl⟩

lemma Sized.congr (h : T.Sized) (hs : T'.shape = T.shape) : T'.Sized := by
  unfold Sized
  rw [hs]
  exact h

end Chain

/-! ### Runs -/

namespace TableOp

lemma onMap_eq_of_ne (m : Contents δ) (op : TableOp δ) {key : Guid} (h : key ≠ op.key) :
    (op.onMap m).1 key = m key := by
  cases op with
  | reserve k used | addRace item k rank used =>
    simp only [onMap]
    split_ifs
    · exact update_of_ne h _ _
    · rfl
  | add item k rank used | remove k => exact update_of_ne h _ _

lemma mapAfter_finite (ops : List (TableOp δ)) : {key | mapAfter ops key ≠ none}.Finite := by
  induction ops using reverseRecOn with
  | nil => simp [mapAfter]
  | append_singleton ops op ih =>
    refine (ih.insert op.key).subset fun key hkey => ?_
    by_cases hk : key = op.key
    · exact .inl hk
    · refine .inr fun hm => hkey ?_
      rw [mapAfter, foldl_append]
      exact (onMap_eq_of_ne _ op hk).trans hm

end TableOp

namespace Chain

variable {T T' : Chain δ} {m : Contents δ}

lemma Keeps.next (h : T.Keeps m) {op : TableOp δ} (hstep : machine.next T op = some T') :
    T'.Keeps (op.onMap m).1 ∧ (T.Sized → T'.Sized) := by
  obtain ⟨⟨T'', r⟩, hrun, rfl⟩ := map_eq_some_iff.1 hstep
  obtain ⟨x, he, hmap⟩ := h.effect hrun
  rw [hmap]
  refine ⟨he.keeps h, fun hsized => ?_⟩
  obtain ⟨p, s, hw, -⟩ := he
  rcases hw.shape with hs | hs
  · exact hsized.congr hs
  · exact hsized.grow.congr hs

variable {ops : List (TableOp δ)}

lemma Keeps.exec (h : T.Keeps m) (hsized : T.Sized) (hrun : machine.exec T ops = some T') :
    T'.Keeps (ops.foldl (fun m op => (op.onMap m).1) m) ∧ T'.Sized := by
  induction ops generalizing T m with
  | nil =>
    cases hrun
    exact ⟨h, hsized⟩
  | cons op ops ih =>
    obtain ⟨T₁, h₁, h₂⟩ := bind_eq_some_iff.1 hrun
    obtain ⟨hkeeps, hsize⟩ := h.next h₁
    exact ih hkeeps (hsize hsized) h₂

/-- **The route table is a map**, as long as every table is smaller than `2 ^ 31`; calls leave the
slots of all other keys as they are. -/
theorem implements_of_exec {size shift : UInt32} (hshift : 1 ≤ shift.toNat)
    (hsize : size.toNat = 2 ^ shift.toNat)
    (hrun : machine.exec [newRouteTable size shift] ops = some T)
    (hbound : ∀ t ∈ T, t.size.toNat < 2 ^ 31) :
    T.Implements (TableOp.mapAfter ops) ∧
      ∀ op : TableOp δ, op.Allowed T → ∃ T',
        op.run T = some (T', (op.onMap (TableOp.mapAfter ops)).2) ∧
        ∀ key ≠ op.key, ∀ state, T'.searchForKey key state = T.searchForKey key state ∧
          ∀ p, T.searchForKey key state = some p → T'.slotAt p = T.slotAt p := by
  have hinit : Sized ([newRouteTable size shift] : Chain δ) := by
    intro _ z hz
    cases mem_singleton.1 hz
    exact ⟨hshift, hsize⟩
  obtain ⟨h, hsized⟩ := (Keeps.new size shift).exec hinit hrun
  refine ⟨⟨TableOp.mapAfter_finite ops, ?_, ?_, ?_⟩, ?_⟩
  · rintro key state data hm
    obtain ⟨p, hp, hc⟩ := h.search_of_mem hm (h.allocated hm)
    have hview := (Keeps.cells_of_lock (Keeps.of_cells hc).1).symm.trans hc
    simp only [some.injEq, Prod.mk.injEq] at hview
    refine ⟨p, hp, hview.2.1, hview.2.2, fun q hq hkey => ?_⟩
    subst hkey
    exact h.map.once (Keeps.cells_of_lock hq) hc
  · intro key hm state
    exact h.search_eq_none fun v hv => absurd (hm.symm.trans hv) (by simp)
  · intro t ht key i hi
    have hb : ∀ z ∈ T.shape, z.1.toNat < 2 ^ 31 := by
      intro z hz
      obtain ⟨t, ht, rfl⟩ := mem_map.1 hz
      exact hbound t ht
    obtain ⟨hpos, hsz⟩ := hsized hb (t.size, t.shift) (mem_map.2 ⟨t, ht, rfl⟩)
    have hlt := hbound t ht
    have hle : t.shift.toNat < 31 := (Nat.pow_lt_pow_iff_right (by decide)).1 (hsz ▸ hlt)
    rw [hsz]
    exact probes_lt hpos hle.le hi
  · intro op hok
    obtain ⟨T', r, hop⟩ := h.run_isSome hok
    obtain ⟨x, he, hmap⟩ := h.effect hop
    refine ⟨T', ?_, fun key hkey state => ⟨he.search_eq h hkey state, fun p hp => ?_⟩⟩
    · rw [hop, TableOp.mapAfter, hmap]
    · obtain ⟨-, v, hc, -⟩ := h.search_eq_some hp
      exact he.other hkey hc

/-- Seventeen keys do not fit into a table of two buckets: the chain grows. -/
theorem implements_of_exec_grown : ∃ (ops : List (TableOp ℕ)) (T : Chain ℕ),
    machine.exec [newRouteTable 2 1] ops = some T ∧ T.length = 2 ∧
      T.Implements (TableOp.mapAfter ops) := by
  let ops : List (TableOp ℕ) := (range 17).map (fun k => .add (some k) (UInt64.ofNat (k + 1)) 0 false)
  have hsome : (machine.exec [newRouteTable 2 1] ops).isSome := by decide +kernel
  obtain ⟨T, hT⟩ := isSome_iff_exists.1 hsome
  have hsizes : ((machine.exec [newRouteTable 2 1] ops).map shape) = some [(2, 1), (4, 2)] := by
    decide +kernel
  rw [hT, map_some, some.injEq] at hsizes
  have hbound : ∀ t ∈ T, t.size.toNat < 2 ^ 31 := by
    intro t ht
    have hmem : (t.size, t.shift) ∈ T.shape := mem_map.2 ⟨t, ht, rfl⟩
    rw [hsizes] at hmem
    have hall : ∀ z ∈ [((2 : UInt32), (1 : UInt32)), (4, 2)], z.1.toNat < 2 ^ 31 := by simp
    exact hall _ hmem
  refine ⟨ops, T, hT, ?_, (implements_of_exec (by decide) (by decide) hT hbound).1⟩
  rw [← length_map]
  exact congrArg length hsizes

end Chain

end Arts
