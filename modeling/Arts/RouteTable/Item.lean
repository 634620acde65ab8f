import Arts.Guid
import Arts.Word.Packed

/-!
# The items of the route table

`lock` has the bits *reserved*, *available* and *deleted* and a count in the other 61 bits: `word s
n`. `RouteItem` is the item of one GUID; each function of `route_table.c` is one step.
-/

namespace Arts

/-! ### The lock word -/

/-- `RESERVED_ITEM` -/
def reservedItem : UInt64 := 0x8000000000000000

/-- `AVAILABLE_ITEM` -/
def availableItem : UInt64 := 0x4000000000000000

/-- `DELETE_ITEM` -/
def deleteItem : UInt64 := 0x2000000000000000

/-- `MAX_ITEM` -/
def maxItem : UInt64 := 0x1FFFFFFFFFFFFFFF

/-- `COUNT_MASK` -/
def countMask : UInt64 := ~~~(reservedItem ||| availableItem ||| deleteItem)

/-- `GET_COUNT` -/
def getCount (x : UInt64) : UInt64 := x &&& countMask

/-- `CHECK_MAX_ITEM` -/
def checkMaxItem (x : UInt64) : Bool := getCount x + 1 < maxItem

/-- `IS_DEL` -/
def isDel (x : UInt64) : Bool := x &&& deleteItem ≠ 0

/-- `IS_RES` -/
def isRes (x : UInt64) : Bool :=
  x &&& reservedItem ≠ 0 ∧ x &&& availableItem = 0 ∧ x &&& deleteItem = 0

/-- `IS_AVAIL` -/
def isAvail (x : UInt64) : Bool :=
  x &&& availableItem ≠ 0 ∧ x &&& reservedItem = 0 ∧ x &&& deleteItem = 0

/-- `IS_REQ` -/
def isReq (x : UInt64) : Bool :=
  x &&& reservedItem ≠ 0 ∧ x &&& availableItem ≠ 0 ∧ x &&& deleteItem = 0

/-- `SHOULD_DELETE` -/
def shouldDelete (x : UInt64) : Bool := isDel x && getCount x == 0

/-- `item_state_t` -/
inductive KeyState where
  | noKey
  | anyKey
  | deletedKey
  | allocatedKey
  | availableKey
  | requestedKey
  | reservedKey
  deriving DecidableEq

/-- `check_item_state` -/
def checkItemState (x : UInt64) : KeyState → Bool
  | .reservedKey => isRes x
  | .requestedKey => isReq x
  | .availableKey => isAvail x
  | .allocatedKey => isRes x || isAvail x || isReq x
  | .deletedKey => isDel x
  | .anyKey => x ≠ 0
  | .noKey => false

/-- `get_item_state` -/
def getItemState (x : UInt64) : KeyState :=
  if isRes x then .reservedKey
  else if isAvail x then .availableKey
  else if isReq x then .requestedKey
  else if isDel x then .deletedKey
  else .noKey

/-! ### Items -/

/-- `arts_route_item_s`, for a datablock. -/
structure RouteItem where
  lock : UInt64 := 0
  key : Guid := Guid.null
  /-- `copy_count` of the datablock to which `data` points. -/
  data : Option UInt32 := none
  rank : ℕ := 0
  /-- How often a datablock of the item has been freed. -/
  freed : ℕ := 0
  deriving DecidableEq

namespace RouteItem

/-- `arts_route_table_search_for_key` finds the item. -/
def found (i : RouteItem) (guid : Guid) (state : KeyState) : Bool :=
  checkItemState i.lock state && i.key == guid

/-- `arts_db_free` is called if the last copy is gone. -/
def lastCopy (i : RouteItem) : Bool :=
  i.key.getType = .db && i.data.any fun copyCount => copyCount - 1 == 0

/-- `free_item` -/
def freeItem (i : RouteItem) : RouteItem where
  rank := i.rank
  freed := if i.lastCopy then i.freed + 1 else i.freed

/-- `dec_item`: the item, and whether it was freed. -/
def decItem (i : RouteItem) : RouteItem × Bool :=
  let i := { i with lock := i.lock - 1 }
  if getCount i.lock = 0 ∧ shouldDelete i.lock then (i.freeItem, true) else (i, false)

/-- `inc_item` -/
def incItem (i : RouteItem) (count : UInt64) (guid : Guid) : RouteItem × Bool :=
  if !isDel i.lock && checkMaxItem i.lock && i.key == guid then
    ({ i with lock := i.lock + count }, true)
  else (i, false)

/-- `mark_write` -/
def markWrite (i : RouteItem) : RouteItem :=
  if i.lock &&& reservedItem ≠ 0 then
    { i with lock := i.lock &&& ~~~reservedItem ||| availableItem }
  else i

/-- `mark_delete` -/
def markDelete (i : RouteItem) : RouteItem := { i with lock := i.lock ||| deleteItem }

/-- `arts_route_table_search_for_empty`: an empty item is reserved for the GUID. -/
def searchForEmpty (i : RouteItem) (guid : Guid) (used : Bool) : RouteItem :=
  { i with lock := if used then reservedItem + 1 else reservedItem, key := guid, data := none }

/-- `arts_route_table_add_item`, for a datablock with one copy. -/
def addItem (i : RouteItem) (guid : Guid) (rank : ℕ) (used : Bool) : RouteItem :=
  markWrite { i.searchForEmpty guid used with data := some 1, rank := rank }

/-- `arts_route_table_lookup_db`: the item, and whether the datablock was found. -/
def lookupDb (i : RouteItem) (guid : Guid) : RouteItem × Bool :=
  if i.found guid .availableKey then
    let (i, success) := i.incItem 1 i.key
    (i, success && i.data.isSome)
  else (i, false)

/-- `arts_route_table_return_db`, without a mark. -/
def returnDb (i : RouteItem) (guid : Guid) : RouteItem :=
  if i.found guid .availableKey then i.decItem.1 else i

/-- `arts_route_table_add_item_race`, for a datablock with one copy: the item, and whether it was
added. -/
def addItemRace (i : RouteItem) (guid : Guid) (rank : ℕ) : RouteItem × Bool :=
  if i.found guid .allocatedKey then
    if checkItemState i.lock .reservedKey then
      (markWrite { i with data := some 1, rank := rank }, true)
    else (i, false)
  else (i.addItem guid rank false, true)

/-- `arts_route_table_reserve_item_race`: the item, and whether it is new. -/
def reserveItemRace (i : RouteItem) (guid : Guid) (used : Bool) : RouteItem × Bool :=
  if i.found guid .allocatedKey then (if used then (i.incItem 1 i.key).1 else i, false)
  else (i.searchForEmpty guid used, true)

/-- `mark_requested` -/
def markRequested (i : RouteItem) : RouteItem × Bool :=
  if i.lock &&& reservedItem ≠ 0 ∨ i.lock &&& deleteItem ≠ 0 then (i, false)
  else ({ i with lock := i.lock ||| reservedItem }, true)

/-- `arts_route_table_lookup_item_with_state` -/
def lookupItemWithState (i : RouteItem) (guid : Guid) (min : KeyState) (inc : Bool) :
    RouteItem × KeyState :=
  if i.found guid min then
    if inc then
      let r := i.incItem 1 i.key
      (r.1, if r.2 then getItemState r.1.lock else .noKey)
    else (i, getItemState i.lock)
  else (i, .noKey)

/-- `arts_route_table_reserve`: the item and its state. -/
def reserve (i : RouteItem) (guid : Guid) : RouteItem × KeyState :=
  let r := i.reserveItemRace guid true
  let i := if r.2 then r.1 else (r.1.incItem 1 r.1.key).1
  (i, getItemState i.lock)

/-- `arts_route_table_update_item` -/
def updateItem (i : RouteItem) (guid : Guid) (data : Option UInt32) (rank : ℕ) (state : KeyState) :
    RouteItem :=
  if i.found guid state then markWrite { i with data := data, rank := rank } else i

/-- `arts_route_table_lookup_rank` -/
def lookupRank (i : RouteItem) (guid : Guid) : Option ℕ :=
  if i.found guid .availableKey then some i.rank else none

/-- `arts_route_table_set_rank` -/
def setRank (i : RouteItem) (guid : Guid) (rank : ℕ) : RouteItem :=
  if i.found guid .availableKey then { i with rank := rank } else i

/-- `arts_route_table_mark_delete` -/
def routeTableMarkDelete (i : RouteItem) (guid : Guid) : RouteItem :=
  if i.found guid .availableKey then i.markDelete.decItem.1 else i

end RouteItem

/-! ### What the functions do to the word -/

/-- The word with the status `s` and the count `n`. -/
def word (s n : ℕ) : UInt64 := pack 61 s n

section Word

variable {s n : ℕ}

lemma getCount_word (hn : n < 2 ^ 61) : getCount (word s n) = word 0 n := by
  have hmask : countMask = pack 61 0 (2 ^ 61 - 1) := by decide
  rw [getCount, hmask, word, and_pack hn (by decide), Nat.and_zero,
    Nat.and_two_pow_sub_one_eq_mod, Nat.mod_eq_of_lt hn]
  rfl

lemma toNat_getCount (hn : n < 2 ^ 61) : (getCount (word s n)).toNat = n := by
  rw [getCount_word hn, word, toNat_pack (by omega)]
  omega

lemma getCount_eq_zero (hn : n < 2 ^ 61) : getCount (word s n) = 0 ↔ n = 0 := by
  rw [getCount_word hn, word, pack_eq_zero (by omega)]
  simp

lemma and_flag {t : ℕ} (hn : n < 2 ^ 61) : word s n &&& word t 0 = word (s &&& t) 0 := by
  rw [word, word, and_pack hn (by decide), Nat.and_zero]
  rfl

lemma flag_eq_zero (hs : s < 8) : word s 0 = 0 ↔ s = 0 := by
  rw [word, pack_eq_zero (by omega)]
  simp

lemma reservedItem_eq : reservedItem = word 4 0 := by decide

lemma availableItem_eq : availableItem = word 2 0 := by decide

lemma deleteItem_eq : deleteItem = word 1 0 := by decide

lemma isDel_word (hs : s < 8) (hn : n < 2 ^ 61) : isDel (word s n) = decide (s &&& 1 ≠ 0) := by
  have hlt : s &&& 1 < 8 := Nat.lt_of_le_of_lt Nat.and_le_left hs
  rw [isDel, deleteItem_eq, and_flag hn]
  simp only [ne_eq, flag_eq_zero hlt]

lemma isAvail_word (hs : s < 8) (hn : n < 2 ^ 61) : isAvail (word s n) = decide (s = 2) := by
  rw [isAvail, reservedItem_eq, availableItem_eq, deleteItem_eq, and_flag hn, and_flag hn, and_flag hn]
  revert s
  decide

lemma isRes_word (hs : s < 8) (hn : n < 2 ^ 61) : isRes (word s n) = decide (s = 4) := by
  rw [isRes, reservedItem_eq, availableItem_eq, deleteItem_eq, and_flag hn, and_flag hn, and_flag hn]
  revert s
  decide

lemma isReq_word (hs : s < 8) (hn : n < 2 ^ 61) : isReq (word s n) = decide (s = 6) := by
  rw [isReq, reservedItem_eq, availableItem_eq, deleteItem_eq, and_flag hn, and_flag hn, and_flag hn]
  revert s
  decide

lemma word_ne_zero (hs : s < 8) (hpos : s ≠ 0) (hn : n < 2 ^ 61) : word s n ≠ 0 := by
  rw [word, Ne, pack_eq_zero (by omega)]
  omega

lemma word_ne {t k : ℕ} (hs : s < 8) (ht : t < 8) (hn : n < 2 ^ 61) (hk : k < 2 ^ 61)
    (hst : s ≠ t) : word s n ≠ word t k := by
  intro h
  have hnat := congrArg UInt64.toNat h
  rw [word, word, toNat_pack (by omega), toNat_pack (by omega)] at hnat
  omega

lemma checkMaxItem_word (hn : n < 2 ^ 61) : checkMaxItem (word s n) ↔ n + 2 < 2 ^ 61 := by
  have hlt : getCount (word s n) + 1 < maxItem ↔ n + 2 < 2 ^ 61 := by
    rw [getCount_word hn, word, pack_add_one, UInt64.lt_iff_toNat_lt, toNat_pack (by omega)]
    show 2 ^ 61 * 0 + (n + 1) < 2 ^ 61 - 1 ↔ _
    omega
  simp [checkMaxItem, hlt]

lemma word_or_delete (hn : n < 2 ^ 61) : word s n ||| deleteItem = word (s ||| 1) n := by
  rw [deleteItem_eq, word, word, or_pack hn (by decide), Nat.or_zero]
  rfl

lemma word_write (hs : s = 4 ∨ s = 6) (hn : n < 2 ^ 61) : word s n &&& reservedItem ≠ 0 ∧
    word s n &&& ~~~reservedItem ||| availableItem = word 2 n := by
  have hmask : ~~~reservedItem = pack 61 3 (2 ^ 61 - 1) := by decide
  constructor
  · rw [reservedItem_eq, and_flag hn]
    rcases hs with rfl | rfl <;> decide
  · rw [hmask, availableItem_eq, word, and_pack hn (by decide), Nat.and_two_pow_sub_one_eq_mod,
      Nat.mod_eq_of_lt hn, word, or_pack hn (by decide), Nat.or_zero]
    rcases hs with rfl | rfl <;> rfl

end Word

namespace RouteItem

/-- The item of the GUID, with the status `s` and the count `n`. -/
structure Is (i : RouteItem) (guid : Guid) (s n : ℕ) : Prop where
  key : i.key = guid
  lock : i.lock = word s n
  status_lt : s < 8
  count_lt : n < 2 ^ 61

variable {i : RouteItem} {guid : Guid} {s n : ℕ}

lemma markWrite_eq (h : i.lock = word s n) (hs : s = 4 ∨ s = 6) (hn : n < 2 ^ 61) :
    i.markWrite = { i with lock := word 2 n } := by
  obtain ⟨hres, hlock⟩ := word_write hs hn
  rw [markWrite, h, if_pos hres, hlock]

lemma addItem_eq (i : RouteItem) (guid : Guid) (rank : ℕ) : i.addItem guid rank false =
    { i with lock := word 2 0, key := guid, data := some 1, rank := rank } :=
  markWrite_eq reservedItem_eq (.inl rfl) (by decide)

lemma Is.found_iff (h : i.Is guid s n) : i.found guid .availableKey ↔ s = 2 := by
  simp [RouteItem.found, checkItemState, h.key, h.lock, isAvail_word h.status_lt h.count_lt]

lemma Is.incItem (h : i.Is guid 2 n) (hmax : n + 2 < 2 ^ 61) :
    i.incItem 1 i.key = ({ i with lock := word 2 (n + 1) }, true) := by
  have hdel : isDel i.lock = false := by
    rw [h.lock, isDel_word h.status_lt h.count_lt]
    rfl
  have hcheck : checkMaxItem i.lock := by
    rw [h.lock]
    exact (checkMaxItem_word h.count_lt).2 hmax
  have hadd : i.lock + 1 = word 2 (n + 1) := by rw [h.lock, word, pack_add_one, word]
  simp [RouteItem.incItem, hdel, hcheck, hadd]

lemma Is.allocated (h : i.Is guid 2 n) :
    i.found guid .allocatedKey ∧ checkItemState i.lock .reservedKey = false := by
  simp [RouteItem.found, checkItemState, h.key, h.lock, isAvail_word h.status_lt h.count_lt,
    isRes_word h.status_lt h.count_lt]

lemma Is.lookupRank (h : i.Is guid 2 n) : i.lookupRank guid = some i.rank :=
  if_pos (h.found_iff.2 rfl)

lemma found_of_empty (h : i.lock = 0) (guid : Guid) (state : KeyState) :
    i.found guid state = false := by
  have hno : checkItemState 0 state = false := by cases state <;> decide
  simp [RouteItem.found, h, hno]

lemma Is.lookupDb (h : i.Is guid 2 n) (hmax : n + 2 < 2 ^ 61) :
    i.lookupDb guid = ({ i with lock := word 2 (n + 1) }, i.data.isSome) := by
  rw [RouteItem.lookupDb, if_pos (h.found_iff.2 rfl), h.incItem hmax]
  rfl

lemma Is.incItem_of_full (h : i.Is guid 2 n) (hmax : ¬ n + 2 < 2 ^ 61) :
    i.incItem 1 i.key = (i, false) := by
  have hcheck : checkMaxItem i.lock = false := by
    rw [Bool.eq_false_iff, h.lock]
    exact fun hc => hmax ((checkMaxItem_word h.count_lt).1 hc)
  simp [RouteItem.incItem, hcheck]

lemma Is.lookupDb_of_full (h : i.Is guid 2 n) (hmax : ¬ n + 2 < 2 ^ 61) :
    i.lookupDb guid = (i, false) := by
  rw [RouteItem.lookupDb, if_pos (h.found_iff.2 rfl), h.incItem_of_full hmax]
  rfl

lemma Is.lookupDb_of_ne (h : i.Is guid s n) (hs : s ≠ 2) : i.lookupDb guid = (i, false) :=
  if_neg fun hf => hs (h.found_iff.1 hf)

lemma Is.returnDb (h : i.Is guid 2 (n + 1)) :
    i.returnDb guid = { i with lock := word 2 n } := by
  have hsub : i.lock - 1 = word 2 n := by rw [h.lock, word, pack_sub_one, word]
  have hdel : shouldDelete (word 2 n) = false := by
    rw [shouldDelete, isDel_word (by decide) (Nat.lt_of_succ_lt h.count_lt)]
    rfl
  rw [RouteItem.returnDb, if_pos (h.found_iff.2 rfl), decItem]
  simp [hsub, hdel]

lemma Is.routeTableMarkDelete (h : i.Is guid 2 (n + 1)) :
    i.routeTableMarkDelete guid =
      if n = 0 then { i with lock := word 3 n }.freeItem else { i with lock := word 3 n } := by
  have hn : n < 2 ^ 61 := Nat.lt_of_succ_lt h.count_lt
  have hsub : (i.lock ||| deleteItem) - 1 = word 3 n := by
    rw [h.lock, word_or_delete h.count_lt]
    exact pack_sub_one
  have hdel : shouldDelete (word 3 n) ↔ n = 0 := by
    rw [shouldDelete, isDel_word (by decide) hn]
    simpa using getCount_eq_zero hn
  rw [RouteItem.routeTableMarkDelete, if_pos (h.found_iff.2 rfl), decItem, markDelete]
  simp only [hsub, hdel, getCount_eq_zero hn, and_self]
  split_ifs <;> rfl

lemma Is.routeTableMarkDelete_of_zero (h : i.Is guid 2 0) :
    i.routeTableMarkDelete guid = { i with lock := word 2 (2 ^ 61 - 1) } := by
  have hsub : (i.lock ||| deleteItem) - 1 = word 2 (2 ^ 61 - 1) := by
    rw [h.lock, word_or_delete h.count_lt]
    exact pack_borrow
  have hcount : getCount (word 2 (2 ^ 61 - 1)) ≠ 0 := by decide
  rw [RouteItem.routeTableMarkDelete, if_pos (h.found_iff.2 rfl), decItem, markDelete]
  simp only [hsub, hcount, false_and, if_false]

lemma Is.returnDb_of_ne (h : i.Is guid s n) (hs : s ≠ 2) : i.returnDb guid = i :=
  if_neg fun hf => hs (h.found_iff.1 hf)

/-! ### Items that are there -/

section At

variable {t : ℕ}

/-- The item is there, reserved (4), requested (6) or available (2). -/
def At (i : RouteItem) (guid : Guid) (t : ℕ) : Prop :=
  (t = 4 ∨ t = 6 ∨ t = 2) ∧ ∃ n, i.Is guid t n

lemma Is.bits {n : ℕ} (h : i.Is guid t n) : isRes i.lock = decide (t = 4) ∧
    isAvail i.lock = decide (t = 2) ∧ isReq i.lock = decide (t = 6) := by
  rw [h.lock]
  exact ⟨isRes_word h.status_lt h.count_lt, isAvail_word h.status_lt h.count_lt,
    isReq_word h.status_lt h.count_lt⟩

lemma At.getItemState (h : i.At guid t) : getItemState i.lock =
    if t = 4 then .reservedKey else if t = 6 then .requestedKey else .availableKey := by
  obtain ⟨ht, n, hi⟩ := h
  obtain ⟨hres, havail, hreq⟩ := hi.bits
  rw [Arts.getItemState, hres, havail, hreq]
  rcases ht with rfl | rfl | rfl <;> rfl

lemma At.found (h : i.At guid t) : i.found guid (Arts.getItemState i.lock) := by
  rw [h.getItemState]
  obtain ⟨ht, n, hi⟩ := h
  obtain ⟨hres, havail, hreq⟩ := hi.bits
  rcases ht with rfl | rfl | rfl <;> simp [RouteItem.found, checkItemState, hi.key, hres, havail, hreq]

lemma At.allocated_found (h : i.At guid t) : i.found guid .allocatedKey := by
  obtain ⟨ht, n, hi⟩ := h
  obtain ⟨hres, havail, hreq⟩ := hi.bits
  rcases ht with rfl | rfl | rfl <;> simp [RouteItem.found, checkItemState, hi.key, hres, havail, hreq]

lemma At.inc (h : i.At guid t) : (i.incItem 1 i.key).1.At guid t := by
  obtain ⟨ht, n, hi⟩ := h
  refine ⟨ht, ?_⟩
  unfold RouteItem.incItem
  split_ifs with hinc
  · have hmax : n + 2 < 2 ^ 61 := by
      rw [hi.lock] at hinc
      exact (checkMaxItem_word (s := t) hi.count_lt).1 (by simp_all)
    refine ⟨n + 1, hi.key, ?_, hi.status_lt, by omega⟩
    rw [hi.lock, word, pack_add_one, word]
  · exact ⟨n, hi⟩

lemma At.markWrite (h : i.At guid t) : i.markWrite.At guid 2 := by
  obtain ⟨ht, n, hi⟩ := h
  refine ⟨.inr (.inr rfl), n, ?_⟩
  rcases ht with rfl | rfl | rfl
  · rw [markWrite_eq hi.lock (.inl rfl) hi.count_lt]
    exact ⟨hi.key, rfl, by decide, hi.count_lt⟩
  · rw [markWrite_eq hi.lock (.inr rfl) hi.count_lt]
    exact ⟨hi.key, rfl, by decide, hi.count_lt⟩
  · have hres : i.lock &&& reservedItem = 0 := by
      rw [hi.lock, reservedItem_eq, and_flag hi.count_lt]
      rfl
    rw [RouteItem.markWrite, if_neg (not_not.2 hres)]
    exact hi

lemma At.reserved (h : i.At guid t) (ht : t ≠ 2) : i.lock &&& reservedItem ≠ 0 := by
  obtain ⟨hall, n, hi⟩ := h
  rw [hi.lock]
  exact (word_write (by omega) hi.count_lt).1

lemma At.lock_ne_zero (h : i.At guid t) : i.lock ≠ 0 := by
  obtain ⟨ht, n, hi⟩ := h
  rw [hi.lock]
  exact word_ne_zero hi.status_lt (by omega) hi.count_lt

lemma At.searchForEmpty (i : RouteItem) (guid : Guid) (used : Bool) :
    (i.searchForEmpty guid used).At guid 4 := by
  refine ⟨.inl rfl, used.toNat, rfl, ?_, by decide, by cases used <;> decide⟩
  cases used <;> rfl

end At

end RouteItem

end Arts
