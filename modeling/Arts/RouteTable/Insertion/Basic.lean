import Arts.Lock.ReaderWriter
import Arts.Machine.Pool
import Arts.RouteTable.Map

/-!
# Concurrent insertion: the model

The steps of `arts_route_table_add_item`, `arts_route_table_add_item_race` and of a lookup are
interleaved. A table is addressed by its place in `tables`; one that no pointer leads to is not
found.
-/

namespace Arts

/-- `arts_guid_lock_index` -/
def guidLockIndex (key : Guid) : ℕ :=
  let hash := key * 11400714819323198485
  let hash := hash ^^^ (hash >>> 32)
  (hash % 8192).toNat

/-! ### Memory -/

/-- The tables in memory and the locks. -/
structure TableHeap (δ : Type*) where
  /-- The tables, in the order in which they were allocated. -/
  tables : Chain δ
  /-- `next` of a table. -/
  next : ℕ → Option ℕ
  /-- `readerLock` and `writerLock` of a table. -/
  words : ℕ → Lock.Words
  /-- `guid_lock` -/
  guidLock : ℕ → Bool
  inserted : List (Guid × Option δ)

def reach (next : ℕ → Option ℕ) : ℕ → ℕ → List ℕ
  | 0, _ => []
  | fuel + 1, t =>
    t :: match next t with
      | some n => reach next fuel n
      | none => []

namespace TableHeap

variable {δ : Type*} (m : TableHeap δ)

def linked : List ℕ := reach m.next m.tables.length 0

def chain : Chain δ := m.linked.filterMap fun t => m.tables[t]?

/-- The slot of the table `t` that is probed for the key at the `i`-th place. -/
def ref (key : Guid) (t i : ℕ) : SlotRef :=
  (t, ((m.tables[t]?.map fun T => (getRouteTableKey key T.shift).toNat).getD 0) + i)

def write (p : SlotRef) (f : Slot δ → Slot δ) : TableHeap δ :=
  { m with tables := m.tables.modifySlot p f }

def setWords (t : ℕ) (w : Lock.Words) : TableHeap δ := { m with words := Function.update m.words t w }

def setGuidLock (key : Guid) (b : Bool) : TableHeap δ :=
  { m with guidLock := Function.update m.guidLock (guidLockIndex key) b }

/-- A table of twice the size is added, and the table `t` points to it. -/
def grow (t : ℕ) : TableHeap δ :=
  match m.tables[t]? with
  | some T =>
    { m with
      tables := m.tables ++ [newRouteTable (2 * T.size) (T.shift + 1)]
      next := Function.update m.next t (some m.tables.length) }
  | none => m

def log (key : Guid) (item : Option δ) : TableHeap δ := { m with inserted := m.inserted ++ [(key, item)] }

end TableHeap

/-! ### Calls -/

inductive InsertOp (δ : Type*) where
  /-- `arts_route_table_add_item` -/
  | add (item : Option δ) (rank : UInt32) (used : Bool)
  /-- `arts_route_table_add_item_race` -/
  | addRace (item : Option δ) (rank : UInt32) (used : Bool)
  /-- `arts_route_table_search_for_key`, for an available item -/
  | lookup
  deriving DecidableEq

/-- Where a thread is while it reads `next` under the lock of the table. -/
inductive ReadPc where
  | wait
  | count
  | check
  | uncount
  | read
  /-- It has read the pointer and releases the lock. -/
  | leave (n : Option ℕ)
  deriving DecidableEq

/-- Why a thread reads `next`. -/
inductive ReadFor where
  /-- To search on in the next table, with or without the lock of the GUID. -/
  | scan (locked : Bool)
  | empty
  /-- The same, after another thread was found to add the table. -/
  | again
  deriving DecidableEq

inductive InsertPc where
  | start
  /-- `arts_guid_lock_is_free` -/
  | isFree
  | swap
  /-- `check_item_state` of the slot that is probed -/
  | scan (locked : Bool) (t i : ℕ)
  | scanKey (locked : Bool) (t i : ℕ)
  | readNext (why : ReadFor) (t : ℕ) (r : ReadPc)
  | check (p : SlotRef)
  | probe (t i : ℕ)
  /-- `mark_reserve` -/
  | reserve (t i : ℕ)
  | setKey (p : SlotRef)
  /-- `arts_writer_try_lock` -/
  | tryLock (t : ℕ)
  | drain (t : ℕ)
  | grow (t : ℕ)
  | writerUnlock (t n : ℕ)
  /-- `setFunc`; `fresh` if the slot was reserved by this call -/
  | setData (p : SlotRef) (fresh : Bool)
  | setRank (p : SlotRef) (fresh : Bool)
  /-- `mark_write` reads the word -/
  | writeRead (p : SlotRef) (fresh : Bool)
  | writeSwap (p : SlotRef) (fresh : Bool) (seen : UInt64)
  /-- The argument of `inc_item` is read, -/
  | incArg (p : SlotRef)
  | incRead (p : SlotRef) (key : Guid)
  | incSwap (p : SlotRef) (key : Guid) (seen : UInt64)
  | incCheck (p : SlotRef) (key : Guid)
  /-- `dec_item` -/
  | dec (p : SlotRef)
  | release (added : Bool)
  /-- The call has returned: what a search has found, and whether an item was added. -/
  | done (found : Option SlotRef) (added : Bool)
  | failed
  deriving DecidableEq

structure InsertCall (δ : Type*) where
  key : Guid
  op : InsertOp δ
  pc : InsertPc := .start
  /-- The insertions that had returned when the call began. -/
  before : List (Guid × Option δ) := []

namespace InsertCall

variable {δ : Type*} (c : InsertCall δ)

def item : Option δ :=
  match c.op with
  | .add item _ _ | .addRace item _ _ => item
  | .lookup => none

def rank : UInt32 :=
  match c.op with
  | .add _ rank _ | .addRace _ rank _ => rank
  | .lookup => 0

def used : Bool :=
  match c.op with
  | .add _ _ used | .addRace _ _ used => used
  | .lookup => false

def isRace : Bool :=
  match c.op with
  | .addRace _ _ _ => true
  | _ => false

def isLookup : Bool :=
  match c.op with
  | .lookup => true
  | _ => false

def isAdd : Bool :=
  match c.op with
  | .add _ _ _ => true
  | _ => false

/-- The state that is asked for: with the lock of the GUID any item, otherwise an available one. -/
def asked (locked : Bool) : KeyState := if locked then .allocatedKey else .availableKey

/-- The search goes on with the `i`-th slot of the table `t`, or in the next table. -/
def scanOn (locked : Bool) (t i : ℕ) : InsertPc :=
  if i < collisionResolves then .scan locked t i else .readNext (.scan locked) t .wait

def probeOn (t i : ℕ) : InsertPc :=
  if i < collisionResolves then .probe t i else .readNext .empty t .wait

def enter : InsertPc :=
  match c.op with
  | .add _ _ _ => .probe 0 0
  | .addRace _ _ _ => .isFree
  | .lookup => .scan false 0 0

def follow (t : ℕ) : ReadFor → Option ℕ → InsertPc
  | .scan locked, some n => .scan locked n 0
  | .scan true, none => .probe 0 0
  | .scan false, none => if c.isRace then .isFree else .done none false
  | .empty, some n => .probe n 0
  | .empty, none => .tryLock t
  | .again, some n => .probe n 0
  | .again, none => .failed

/-- The slot `p` was written: `mark_write` has returned. -/
def written (p : SlotRef) (fresh : Bool) : InsertPc :=
  if c.isRace then if c.used && !fresh then .incArg p else .release true
  else .done (some p) true

/-- The memory when `mark_write` returns; `arts_route_table_add_item` returns at once. -/
def logged (m : TableHeap δ) : TableHeap δ := if c.isRace then m else m.log c.key c.item

/-- Read `next` of the table `t` under its lock. -/
def stepRead (m : TableHeap δ) (why : ReadFor) (t : ℕ) : ReadPc → TableHeap δ × InsertPc
  | .wait => (m, .readNext why t (if (m.words t).writer then .wait else .count))
  | .count => (m.setWords t { m.words t with reader := (m.words t).reader + 1 }, .readNext why t .check)
  | .check => (m, .readNext why t (if (m.words t).writer then .uncount else .read))
  | .uncount => (m.setWords t { m.words t with reader := (m.words t).reader - 1 }, .readNext why t .wait)
  | .read => (m, .readNext why t (.leave (m.next t)))
  | .leave n => (m.setWords t { m.words t with reader := (m.words t).reader - 1 }, c.follow t why n)

/-- The memory and the place of the call after its next step. -/
def stepPc (m : TableHeap δ) : InsertPc → Option (TableHeap δ × InsertPc)
  | .start => some (m, c.enter)
  | .isFree => some (m, if m.guidLock (guidLockIndex c.key) then .scan false 0 0 else .swap)
  | .swap =>
    if m.guidLock (guidLockIndex c.key) then some (m, .isFree)
    else some (m.setGuidLock c.key true, .scan true 0 0)
  | .scan locked t i =>
    some (m, if checkItemState (m.tables.slotAt (m.ref c.key t i)).lock (asked locked) then
      .scanKey locked t i else scanOn locked t (i + 1))
  | .scanKey locked t i =>
    some (m, if (m.tables.slotAt (m.ref c.key t i)).key = c.key then
      if locked then .check (m.ref c.key t i) else .done (some (m.ref c.key t i)) false
      else scanOn locked t (i + 1))
  | .readNext why t r => some (c.stepRead m why t r)
  | .check p =>
    some (m, if checkItemState (m.tables.slotAt p).lock .reservedKey then .setData p false
      else .release false)
  | .probe t i =>
    some (m, if (m.tables.slotAt (m.ref c.key t i)).lock = 0 then .reserve t i
      else probeOn t (i + 1))
  | .reserve t i =>
    let p := m.ref c.key t i
    some (m.write p fun s => (s.markReserve c.used).1,
      if ((m.tables.slotAt p).markReserve c.used).2 then .setKey p else probeOn t (i + 1))
  | .setKey p => some (m.write p fun s => { s with key := c.key }, .setData p true)
  | .tryLock t =>
    if (m.words t).writer then some (m, .readNext .again t .wait)
    else some (m.setWords t { m.words t with writer := true }, .drain t)
  | .drain t => some (m, if (m.words t).reader = 0 then .grow t else .drain t)
  | .grow t => some (m.grow t, .writerUnlock t m.tables.length)
  | .writerUnlock t n => some (m.setWords t { m.words t with writer := false }, .probe n 0)
  | .setData p fresh => some (m.write p fun s => { s with data := c.item }, .setRank p fresh)
  | .setRank p fresh => some (m.write p fun s => { s with rank := c.rank }, .writeRead p fresh)
  | .writeRead p fresh =>
    let seen := (m.tables.slotAt p).lock
    if seen &&& reservedItem ≠ 0 then some (m, .writeSwap p fresh seen)
    else some (c.logged m, c.written p fresh)
  | .writeSwap p fresh seen =>
    if (m.tables.slotAt p).lock = seen then
      some (c.logged (m.write p fun s => { s with lock := seen &&& ~~~reservedItem ||| availableItem }),
        c.written p fresh)
    else some (m, .writeRead p fresh)
  | .incArg p => some (m, .incRead p (m.tables.slotAt p).key)
  | .incRead p key =>
    let s := m.tables.slotAt p
    some (m, if !isDel s.lock && checkMaxItem s.lock && s.key == key then .incSwap p key s.lock
      else .release true)
  | .incSwap p key seen =>
    if (m.tables.slotAt p).lock = seen then
      some (m.write p fun s => { s with lock := seen + 1 }, .incCheck p key)
    else some (m, .incRead p key)
  | .incCheck p key => some (m, if (m.tables.slotAt p).key ≠ key then .dec p else .release true)
  | .dec p =>
    some (m.write p fun s =>
      let s := { s with lock := s.lock - 1 }
      if shouldDelete s.lock then s.freeItem else s, .release true)
  | .release added =>
    let m := m.setGuidLock c.key false
    some (if added then m.log c.key c.item else m, .done none added)
  | .done _ _ => none
  | .failed => none

/-- The next step of the call; the first one also notes which insertions have returned. -/
def step (m : TableHeap δ) (c : InsertCall δ) : Option (TableHeap δ × InsertCall δ) :=
  (c.stepPc m c.pc).map fun r =>
    (r.1, { c with pc := r.2, before := if c.pc = .start then m.inserted else c.before })

def hasInserted : Bool :=
  match c.pc with
  | .done _ added => added
  | _ => false

end InsertCall

/-! ### Runs -/

/-- The memory when the calls begin: a chain, and no lock is taken. -/
def TableHeap.ofChain {δ : Type*} (T : Chain δ) : TableHeap δ where
  tables := T
  next t := if t + 1 < T.length then some (t + 1) else none
  words _ := ⟨0, false⟩
  guidLock _ := false
  inserted := []

abbrev InsertRun (δ : Type*) := Pool (TableHeap δ) (InsertCall δ)

namespace InsertRun

variable {δ : Type*}

/-- The calls begin on a table that holds a map. The keys of `arts_route_table_add_item` are new and
distinct. -/
structure Start (s : InsertRun δ) : Prop where
  keeps : ∃ T m, Chain.Keeps T m ∧ s.mem = TableHeap.ofChain T ∧
    ∀ c ∈ s.calls, c.isAdd → m c.key = none
  fresh : ∀ c ∈ s.calls, c.pc = .start ∧ c.before = []
  distinct : ∀ {i j : ℕ} {c d}, i ≠ j → s.calls[i]? = some c → s.calls[j]? = some d →
    c.isAdd → d.isAdd → c.key ≠ d.key

def machine : Machine (InsertRun δ) ℕ := Pool.machine Start InsertCall.step

/-- **What concurrent insertion should guarantee.** -/
structure Intact (s : InsertRun δ) : Prop where
  found : ∀ c ∈ s.calls, c.hasInserted → ∃ p, s.mem.chain.searchForKey c.key .availableKey = some p ∧
    (s.mem.chain.slotAt p).data = c.item
  seen : ∀ c ∈ s.calls, ∀ r, c.isLookup → c.pc = .done r false → ∀ item, (c.key, item) ∈ c.before →
    ∃ p, r = some p ∧ (s.mem.tables.slotAt p).data = item
  kept : ∀ p, (s.mem.tables.slotAt p).lock ≠ 0 → p.1 ∈ s.mem.linked
  once : ∀ (i j : ℕ) (c d), s.calls[i]? = some c → s.calls[j]? = some d → c.isRace → d.isRace →
    c.key = d.key → c.hasInserted → d.hasInserted → i = j

end InsertRun

end Arts
