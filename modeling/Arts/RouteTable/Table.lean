import Arts.RouteTable.Item

/-!
# The route table

A key may be in the eight slots from `get_route_table_key` on, in any table of the chain; the
searches go through these `candidates` (`searchForKey_eq`, `searchForEmpty_eq`). Calls run one
after another.
-/

namespace Arts

open List

/-! ### Slots -/

/-- `arts_route_item_s`. -/
structure Slot (δ : Type*) where
  key : Guid := Guid.null
  data : Option δ := none
  lock : UInt64 := 0
  rank : UInt32 := 0
  deriving DecidableEq

namespace Slot

variable {δ : Type*}

/-- `mark_reserve`: the slot, and whether it was reserved by this call. -/
def markReserve (s : Slot δ) (used : Bool) : Slot δ × Bool :=
  if used then
    if s.lock = 0 then ({ s with lock := reservedItem + 1 }, true) else (s, false)
  else ({ s with lock := s.lock ||| reservedItem }, s.lock == 0)

/-- `mark_write` -/
def markWrite (s : Slot δ) : Slot δ :=
  if s.lock &&& reservedItem ≠ 0 then
    { s with lock := s.lock &&& ~~~reservedItem ||| availableItem }
  else s

/-- `mark_delete` -/
def markDelete (s : Slot δ) : Slot δ := { s with lock := s.lock ||| deleteItem }

/-- `inc_item` -/
def incItem (s : Slot δ) (count : UInt64) (key : Guid) : Slot δ :=
  if !isDel s.lock && checkMaxItem s.lock && s.key == key then
    { s with lock := s.lock + count }
  else s

/-- `free_item`, without the datablock and the out-of-order list of the item. -/
def freeItem (s : Slot δ) : Slot δ := { s with data := none, key := Guid.null, lock := 0 }

/-- `setFunc`, the rank, and `mark_write`. -/
def fill (s : Slot δ) (item : Option δ) (rank : UInt32) : Slot δ :=
  markWrite { s with data := item, rank := rank }

/-- The test of `arts_route_table_search_for_key`. -/
def isFound (s : Slot δ) (key : Guid) (state : KeyState) : Bool :=
  checkItemState s.lock state && s.key == key

end Slot

/-! ### Hashing -/

/-- The cases of the `switch` in `get_route_table_key`. -/
def hashCases : List (UInt32 × UInt64) :=
  [(10, 1021), (11, 2039), (12, 4093), (13, 8191), (14, 16381), (15, 32749), (16, 65521),
    (17, 131071), (18, 262139), (19, 524287), (20, 1048573), (21, 2097143), (22, 4194301),
    (31, 2147483647), (32, 4294967291)]

/-- The multiplier for a shift: a case falls through to the cases after it. -/
def hashFactor (shift : UInt32) : UInt64 :=
  (hashCases.dropWhile fun c => c.1 != shift).foldl (fun hash c => hash * c.2) 14695981039346656037

/-- `COLLISION_RESOLVES` -/
def collisionResolves : ℕ := 8

/-- `get_route_table_key` -/
def getRouteTableKey (x : UInt64) (shift : UInt32) : UInt64 :=
  ((x * hashFactor shift) >>> (64 - shift).toUInt64) * UInt64.ofNat collisionResolves

/-- The indices that are probed for a key. -/
def probes (key : Guid) (shift : UInt32) : List ℕ :=
  range' (getRouteTableKey key shift).toNat collisionResolves

lemma getRouteTableKey_lt {shift : UInt32} (hlo : 1 ≤ shift.toNat) (hhi : shift.toNat ≤ 31)
    (x : UInt64) : (getRouteTableKey x shift).toNat + collisionResolves ≤ 8 * 2 ^ shift.toNat := by
  have hsub : (64 - shift : UInt32).toNat = 64 - shift.toNat :=
    UInt32.toNat_sub_of_le _ _ (by rw [UInt32.le_iff_toNat_le]; exact Nat.le_trans hhi (by decide))
  set y := x * hashFactor shift
  have hshr : (y >>> (64 - shift).toUInt64).toNat = y.toNat / 2 ^ (64 - shift.toNat) := by
    rw [UInt64.toNat_shiftRight, UInt32.toNat_toUInt64, hsub, Nat.mod_eq_of_lt (by omega),
      Nat.shiftRight_eq_div_pow]
  have hlt : y.toNat / 2 ^ (64 - shift.toNat) < 2 ^ shift.toNat := by
    rw [Nat.div_lt_iff_lt_mul (Nat.two_pow_pos _), ← Nat.pow_add]
    have : shift.toNat + (64 - shift.toNat) = 64 := by omega
    rw [this]
    exact y.toNat_lt
  have hpow : 2 ^ shift.toNat ≤ 2 ^ 31 := Nat.pow_le_pow_right (by decide) hhi
  have hmul : (getRouteTableKey x shift).toNat = y.toNat / 2 ^ (64 - shift.toNat) * 8 := by
    rw [getRouteTableKey, UInt64.toNat_mul, hshr]
    exact Nat.mod_eq_of_lt (Nat.lt_of_le_of_lt (Nat.mul_le_mul_right 8 (hlt.le.trans hpow)) (by decide))
  rw [hmul, collisionResolves]
  omega

/-- **Every probed index is in the table.** -/
theorem probes_lt {shift : UInt32} (hlo : 1 ≤ shift.toNat) (hhi : shift.toNat ≤ 31) {key : Guid}
    {i : ℕ} (hi : i ∈ probes key shift) : i < 8 * 2 ^ shift.toNat := by
  have hkey := getRouteTableKey_lt hlo hhi key
  have hmem := mem_range'_1.1 hi
  omega

/-! ### Tables -/

/-- `arts_route_table_s`; the pointer `next` is the place in the chain. -/
structure RouteTable (δ : Type*) where
  size : UInt32
  shift : UInt32
  data : ℕ → Slot δ

/-- `arts_new_route_table` -/
def newRouteTable {δ : Type*} (size shift : UInt32) : RouteTable δ where
  size := size
  shift := shift
  data _ := {}

/-- The tables, from the first one on. -/
abbrev Chain (δ : Type*) := List (RouteTable δ)

/-- A pointer to a slot: the table and the index in it. -/
abbrev SlotRef := ℕ × ℕ

namespace RouteTable

variable {δ : Type*}

def modify (t : RouteTable δ) (i : ℕ) (f : Slot δ → Slot δ) : RouteTable δ :=
  { t with data := Function.update t.data i (f (t.data i)) }

def probeKey (t : RouteTable δ) (key : Guid) (state : KeyState) : Option ℕ :=
  (probes key t.shift).find? fun i => (t.data i).isFound key state

def probeEmpty (t : RouteTable δ) (key : Guid) (used : Bool) : Option ℕ :=
  (probes key t.shift).find? fun i => (t.data i).lock == 0 && ((t.data i).markReserve used).2

def reserve (t : RouteTable δ) (i : ℕ) (key : Guid) (used : Bool) : RouteTable δ :=
  t.modify i fun s => { (s.markReserve used).1 with key := key }

end RouteTable

namespace Chain

variable {δ : Type*}

def slotAt (T : Chain δ) (p : SlotRef) : Slot δ := (T[p.1]?.map fun t => t.data p.2).getD {}

def modifySlot (T : Chain δ) (p : SlotRef) (f : Slot δ → Slot δ) : Chain δ :=
  modify T p.1 fun t => t.modify p.2 f

def fromNext (p : SlotRef) : SlotRef := (p.1 + 1, p.2)

/-- `arts_route_table_search_for_key` -/
def searchForKey : Chain δ → Guid → KeyState → Option SlotRef
  | [], _, _ => none
  | t :: T, key, state =>
    match t.probeKey key state with
    | some i => some (0, i)
    | none => (searchForKey T key state).map fromNext

/-- `arts_route_table_search_for_empty`: the slot that is reserved. -/
def searchForEmpty : Chain δ → Guid → Bool → Option (Chain δ × SlotRef)
  | [], _, _ => none
  | t :: T, key, used =>
    match t.probeEmpty key used with
    | some i => some (t.reserve i key used :: T, (0, i))
    | none =>
      match T with
      | [] =>
        -- the chain grows, and the loop goes on in the new table
        let next := newRouteTable (2 * t.size) (t.shift + 1)
        (next.probeEmpty key used).map fun i => ([t, next.reserve i key used], (1, i))
      | _ :: _ => (searchForEmpty T key used).map fun r => (t :: r.1, fromNext r.2)

/-- `internal_route_table_add_item` -/
def addItem (T : Chain δ) (item : Option δ) (key : Guid) (rank : UInt32) (used : Bool) :
    Option (Chain δ) :=
  (T.searchForEmpty key used).map fun r => r.1.modifySlot r.2 (·.fill item rank)

/-- `internal_route_table_add_item_race`, as `arts_route_table_add_item_race` calls it: the chain, and
whether the item was added. -/
def addItemRace (T : Chain δ) (item : Option δ) (key : Guid) (rank : UInt32) (used : Bool) :
    Option (Chain δ × Bool) :=
  match T.searchForKey key .allocatedKey with
  | some p =>
    if checkItemState (T.slotAt p).lock .reservedKey then
      let T := T.modifySlot p (·.fill item rank)
      some (if used then T.modifySlot p fun s => s.incItem 1 s.key else T, true)
    else some (T, false)
  | none => (T.addItem item key rank used).map fun T => (T, true)

/-- `arts_route_table_reserve_item_race`: the chain, and whether the slot is new. -/
def reserveItemRace (T : Chain δ) (key : Guid) (used : Bool) : Option (Chain δ × Bool) :=
  match T.searchForKey key .allocatedKey with
  | some p => some (if used then T.modifySlot p fun s => s.incItem 1 s.key else T, false)
  | none => (T.searchForEmpty key used).map fun r => (r.1, true)

/-- `internal_route_table_remove_item` -/
def removeItem (T : Chain δ) (key : Guid) : Chain δ :=
  match T.searchForKey key .availableKey with
  | some p =>
    let T := T.modifySlot p (·.markDelete)
    if shouldDelete (T.slotAt p).lock then T.modifySlot p (·.freeItem) else T
  | none => T

end Chain

/-! ### The slots of a key -/

namespace Chain

variable {δ : Type*} {T : Chain δ} {key : Guid} {p q : SlotRef}

/-- The slots in which a key may be, in the order of the search. -/
def candidates : Chain δ → Guid → List SlotRef
  | [], _ => []
  | t :: T, key => (probes key t.shift).map (0, ·) ++ (candidates T key).map fromNext

lemma mem_candidates_cons {t : RouteTable δ} : p ∈ candidates (t :: T) key ↔
    (∃ i ∈ probes key t.shift, (0, i) = p) ∨ ∃ q ∈ T.candidates key, fromNext q = p := by
  rw [candidates, mem_append, mem_map, mem_map]

lemma mem_candidates_iff :
    p ∈ T.candidates key ↔ ∃ t, T[p.1]? = some t ∧ p.2 ∈ probes key t.shift := by
  induction T generalizing p with
  | nil => simp [candidates]
  | cons t T ih =>
    rw [mem_candidates_cons]
    obtain ⟨l, i⟩ := p
    cases l with
    | zero =>
      constructor
      · rintro (⟨j, hj, hp⟩ | ⟨q, -, hq⟩)
        · cases hp
          exact ⟨t, rfl, hj⟩
        · cases hq
      · rintro ⟨t', ht', hi⟩
        cases ht'
        exact .inl ⟨i, hi, rfl⟩
    | succ l =>
      constructor
      · rintro (⟨j, -, hp⟩ | ⟨q, hq, hp⟩)
        · cases hp
        · cases hp
          exact ih.1 hq
      · exact fun h => .inr ⟨(l, i), ih.2 h, rfl⟩

/-- **A search goes through the candidates of the key.** -/
theorem searchForKey_eq (T : Chain δ) (key : Guid) (state : KeyState) :
    T.searchForKey key state = (T.candidates key).find? fun p => (T.slotAt p).isFound key state := by
  induction T with
  | nil => rfl
  | cons t T ih =>
    rw [searchForKey, candidates, find?_append, find?_map, find?_map, ih]
    show _ = (Option.map _ (t.probeKey key state)).or _
    cases t.probeKey key state <;> rfl

lemma lt_length_of_mem (h : p ∈ T.candidates key) : p.1 < T.length := by
  induction T generalizing p with
  | nil => cases h
  | cons t T ih =>
    rcases mem_candidates_cons.1 h with ⟨i, -, rfl⟩ | ⟨q, hq, rfl⟩
    · exact Nat.succ_pos _
    · exact Nat.succ_lt_succ (ih hq)

lemma slotAt_modifySlot (hp : p.1 < T.length) (f : Slot δ → Slot δ) :
    (T.modifySlot p f).slotAt = Function.update T.slotAt p (f (T.slotAt p)) := by
  funext q
  obtain ⟨l, i⟩ := p
  obtain ⟨l', j⟩ := q
  by_cases hl : l' = l
  · subst hl
    have hT : T[l']? = some T[l'] := getElem?_eq_getElem hp
    by_cases hj : j = i
    · subst hj
      simp [slotAt, modifySlot, RouteTable.modify, hT]
    · simp [slotAt, modifySlot, RouteTable.modify, hT, hj]
  · have hne : (l', j) ≠ (l, i) := fun h => hl (Prod.mk.inj h).1
    rw [Function.update_of_ne hne]
    simp [slotAt, modifySlot, Ne.symm hl]

/-- The sizes and shifts of the tables. -/
def shape (T : Chain δ) : List (UInt32 × UInt32) := T.map fun t => (t.size, t.shift)

lemma candidates_congr {T' : Chain δ} (h : T'.shape = T.shape) (key : Guid) :
    T'.candidates key = T.candidates key := by
  induction T generalizing T' with
  | nil =>
    cases T' with
    | nil => rfl
    | cons => cases h
  | cons t T ih =>
    cases T' with
    | nil => cases h
    | cons t' T' =>
      obtain ⟨htable, hrest⟩ := cons.inj h
      rw [candidates, candidates, ih hrest, (Prod.mk.inj htable).2]

@[simp] lemma shape_modifySlot (T : Chain δ) (p : SlotRef) (f : Slot δ → Slot δ) :
    (T.modifySlot p f).shape = T.shape := by
  apply ext_getElem?
  intro l
  simp only [shape, modifySlot, getElem?_map, getElem?_modify]
  cases T[l]? with
  | none => rfl
  | some t => split_ifs <;> rfl

def grow (T : Chain δ) : Chain δ :=
  match T.getLast? with
  | some t => T ++ [newRouteTable (2 * t.size) (t.shift + 1)]
  | none => T

lemma slotAt_append_new (T : Chain δ) (size shift : UInt32) :
    slotAt (T ++ [newRouteTable size shift]) = T.slotAt := by
  funext p
  show ((T ++ [_])[p.1]?.map _).getD _ = _
  rcases Nat.lt_or_ge p.1 T.length with hp | hp
  · rw [getElem?_append_left hp]
    rfl
  · rw [slotAt, getElem?_eq_none hp, getElem?_append_right hp]
    cases p.1 - T.length <;> rfl

@[simp] lemma slotAt_grow (T : Chain δ) : T.grow.slotAt = T.slotAt := by
  unfold grow
  cases T.getLast? with
  | none => rfl
  | some t => exact slotAt_append_new T _ _

lemma modifySlot_eq_self {f : Slot δ → Slot δ} (h : f (T.slotAt p) = T.slotAt p) :
    T.modifySlot p f = T := by
  apply ext_getElem?
  intro l
  rw [modifySlot, getElem?_modify]
  by_cases hl : p.1 = l
  · subst hl
    cases ht : T[p.1]? with
    | none => rfl
    | some t =>
      have hslot : T.slotAt p = t.data p.2 := by rw [slotAt, ht]; rfl
      rw [hslot] at h
      show some (if p.1 = p.1 then t.modify p.2 f else t) = some t
      rw [if_pos rfl, RouteTable.modify, h, Function.update_eq_self]
  · simp [hl]

lemma mem_candidates_grow (h : p ∈ T.candidates key) : p ∈ T.grow.candidates key := by
  induction T generalizing p with
  | nil => exact h
  | cons t T ih =>
    cases T with
    | nil =>
      rcases mem_candidates_cons.1 h with h | ⟨q, hq, -⟩
      · exact mem_candidates_cons.2 (.inl h)
      · cases hq
    | cons u T =>
      exact mem_candidates_cons.2
        ((mem_candidates_cons.1 h).imp_right fun ⟨q, hq, hp⟩ => ⟨q, ih hq, hp⟩)

end Chain

lemma RouteTable.probeEmpty_new {δ : Type*} (size shift : UInt32) (key : Guid) (used : Bool) :
    (newRouteTable size shift : RouteTable δ).probeEmpty key used =
      some (getRouteTableKey key shift).toNat := by
  cases used <;> rfl

lemma RouteTable.of_probeEmpty {δ : Type*} {t : RouteTable δ} {key : Guid} {used : Bool} {i : ℕ}
    (h : t.probeEmpty key used = some i) : i ∈ probes key t.shift ∧ (t.data i).lock = 0 := by
  have hpass := find?_some h
  simp only [Bool.and_eq_true, beq_iff_eq] at hpass
  exact ⟨mem_of_find?_eq_some h, hpass.1⟩

namespace Chain

variable {δ : Type*} {T : Chain δ} {key : Guid} {p : SlotRef}

/-- **An empty candidate of the key is reserved**, in the chain or in a table that is added to it. -/
theorem searchForEmpty_eq (hT : T ≠ []) (key : Guid) (used : Bool) :
    ∃ G p, (G = T ∨ G = T.grow) ∧ p ∈ G.candidates key ∧ (G.slotAt p).lock = 0 ∧
      T.searchForEmpty key used =
        some (G.modifySlot p fun s => { (s.markReserve used).1 with key := key }, p) := by
  induction T with
  | nil => exact absurd rfl hT
  | cons t T ih =>
    cases hprobe : t.probeEmpty key used with
    | some i =>
      obtain ⟨hmem, hlock⟩ := RouteTable.of_probeEmpty hprobe
      exact ⟨t :: T, (0, i), .inl rfl, mem_candidates_cons.2 (.inl ⟨i, hmem, rfl⟩), hlock,
        by simp only [searchForEmpty, hprobe]; rfl⟩
    | none =>
      cases T with
      | nil =>
        have hnew := RouteTable.probeEmpty_new (δ := δ) (2 * t.size) (t.shift + 1) key used
        obtain ⟨hmem, hlock⟩ := RouteTable.of_probeEmpty hnew
        refine ⟨grow [t], (1, _), .inr rfl, ?_, hlock, by
          simp [searchForEmpty, hprobe, hnew]; rfl⟩
        exact mem_candidates_cons.2 (.inr ⟨_, mem_candidates_cons.2 (.inl ⟨_, hmem, rfl⟩), rfl⟩)
      | cons u T =>
        obtain ⟨G, p, hG, hmem, hlock, heq⟩ := ih (by simp)
        refine ⟨t :: G, fromNext p, ?_, mem_candidates_cons.2 (.inr ⟨p, hmem, rfl⟩), hlock, ?_⟩
        · exact hG.imp (congrArg _) (congrArg _)
        · rw [searchForEmpty, hprobe, heq]
          rfl

end Chain

end Arts
