import Arts.Lock.ReaderWriter
import Arts.Machine.Basic

/-!
# The out-of-order list

Operations on an object that does not exist yet are added; when it is published the list is *fired*,
and it refuses items until it is reset. Adders count themselves in `readerLock`; a fire sets
`writerLock` and gives up if it finds an adder, at most 1000 times. A step is one atomic operation;
`positions` and `replays` record what was taken and replayed.
-/

namespace Arts

variable {α : Type*}

/-- The word `writerLock`. -/
inductive WriterLock where
  | free
  /-- `FIRE_LOCK` -/
  | fire
  /-- `RESET_LOCK` -/
  | reset
  deriving DecidableEq

/-- The list (`arts_out_of_order_list_s`). -/
structure OoList (α : Type*) where
  readerLock : UInt32 := 0
  writerLock : WriterLock := .free
  count : UInt32 := 0
  isFired : Bool := false
  /-- The number of elements in the chain; the first one is `head`. -/
  elements : ℕ := 1
  slot : ℕ → Option α := fun _ => none
  fires : ℕ := 0
  /-- The items that took a position, in the order of their positions. -/
  positions : List (ℕ × α) := []
  replays : List (ℕ × α) := []

/-- `OOPERELEMENT` -/
def perElement : ℕ := 4

/-- The number of attempts of a fire. -/
def maxRetries : ℕ := 1000

inductive OoPc (α : Type*) where
  | idle
  -- `arts_out_of_order_list_add_item`, first `reader_oo_try_lock`
  | addEnter (x : α)
  | addSpin (x : α)
  | addCount (x : α)
  | addRecheck (x : α)
  | addUncount (x : α)
  | addFired (x : α)
  | addRefuse (x : α)
  | addPosition (x : α)
  | addWalk (x : α) (pos i : ℕ)
  | addAlloc (x : α) (pos i : ℕ)
  | addInsert (x : α) (pos : ℕ)
  | addUnlock (x : α)
  | added (x : α) (res : Bool)
  -- `arts_out_of_order_list_fire_callback`, first `writer_try_oo_lock`
  | fireTry (attempt : ℕ)
  | fireReaders (attempt : ℕ)
  | fireWithdraw (attempt : ℕ)
  | fireMark
  | fireCount
  | fireNext (pos j : ℕ)
  | fireSwap (pos j : ℕ)
  /-- The callback runs for the item `x`. -/
  | fireCall (pos j : ℕ) (x : α)
  | fireClear (pos : ℕ)
  | fireDetach
  | fireUnlock
  /-- The fire has returned; `res` says whether it had obtained the lock. -/
  | fired (res : Bool)
  -- `arts_out_of_order_list_reset`
  | resetTry
  | resetReaders
  | resetWithdraw
  | resetMark
  | resetUnlock
  | resetDone
  deriving DecidableEq

namespace OoPc

/-- The adder stands at the element `i`. -/
def addFrom (x : α) (pos i : ℕ) : OoPc α :=
  if i < pos / perElement then .addWalk x pos i else .addInsert x pos

def retry (attempt : ℕ) : OoPc α :=
  if attempt + 1 < maxRetries then .fireTry (attempt + 1) else .fired false

/-- The fire has replayed `j` items of `pos`. -/
def fireFrom (pos j : ℕ) : OoPc α :=
  if j = pos then .fireClear pos
  else if j % perElement = 0 ∧ j ≠ 0 then .fireNext pos j
  else .fireSwap pos j

end OoPc

namespace OoList

/-- The fetch-and-add on `count` by an add of `x`. -/
def takePosition (m : OoList α) (x : α) : OoList α :=
  { m with count := m.count + 1, positions := m.positions ++ [(m.fires, x)] }

/-- A new element becomes the next one of element `i`. -/
def link (m : OoList α) (i : ℕ) : OoList α :=
  { m with elements := i + 2, slot := fun k => if k / perElement = i + 1 then none else m.slot k }

/-- The compare-and-swap that puts the item into its empty slot. -/
def insert (m : OoList α) (pos : ℕ) (x : α) : OoList α :=
  { m with slot := Function.update m.slot pos (some x) }

def takeOut (m : OoList α) (j : ℕ) (x : α) : OoList α :=
  { m with slot := Function.update m.slot j none, replays := m.replays ++ [(m.fires, x)] }

def clear (m : OoList α) : OoList α := { m with count := 0, fires := m.fires + 1 }

/-- The elements behind `head` are cut off. -/
def detach (m : OoList α) : OoList α :=
  { m with elements := 1, slot := fun k => if k / perElement = 0 then m.slot k else none }

/-- The next atomic operation of a call. `none` if the call spins or has returned. -/
def step (m : OoList α) : OoPc α → Option (OoList α × OoPc α)
  | .idle => none
  | .addEnter x => some (m, if m.writerLock = .fire then .added x false else .addSpin x)
  | .addSpin x => if m.writerLock = .reset then none else some (m, .addCount x)
  | .addCount x => some ({ m with readerLock := m.readerLock + 1 }, .addRecheck x)
  | .addRecheck x => some (m, if m.writerLock = .free then .addFired x else .addUncount x)
  | .addUncount x => some ({ m with readerLock := m.readerLock - 1 }, .addEnter x)
  | .addFired x => some (m, if m.isFired then .addRefuse x else .addPosition x)
  | .addRefuse x => some ({ m with readerLock := m.readerLock - 1 }, .added x false)
  | .addPosition x => some (m.takePosition x, .addFrom x m.count.toNat 0)
  | .addWalk x pos i =>
    if i + 1 < m.elements then some (m, .addFrom x pos (i + 1))
    else if i + 1 = pos / perElement ∧ pos % perElement = 0 then some (m, .addAlloc x pos i)
    else none
  | .addAlloc x pos i => some (m.link i, .addFrom x pos (i + 1))
  | .addInsert x pos => match m.slot pos with
    | none => some (m.insert pos x, .addUnlock x)
    | some _ => none
  | .addUnlock x => some ({ m with readerLock := m.readerLock - 1 }, .added x true)
  | .added _ _ => none
  | .fireTry n =>
    if m.writerLock = .free then some ({ m with writerLock := .fire }, .fireReaders n)
    else some (m, .retry n)
  | .fireReaders n => some (m, if m.readerLock = 0 then .fireMark else .fireWithdraw n)
  | .fireWithdraw n => some ({ m with writerLock := .free }, .retry n)
  | .fireMark => some ({ m with isFired := true }, .fireCount)
  | .fireCount => some (m, .fireFrom m.count.toNat 0)
  | .fireNext pos j => if j / perElement < m.elements then some (m, .fireSwap pos j) else none
  | .fireSwap pos j => match m.slot j with
    | some x => some (m.takeOut j x, .fireCall pos j x)
    | none => none
  | .fireCall pos j _ => some (m, .fireFrom pos (j + 1))
  | .fireClear _ => some (m.clear, .fireDetach)
  | .fireDetach => some (m.detach, .fireUnlock)
  | .fireUnlock => some ({ m with writerLock := .free }, .fired true)
  | .fired _ => none
  | .resetTry =>
    if m.writerLock = .free then some ({ m with writerLock := .reset }, .resetReaders)
    else some (m, .resetDone)
  | .resetReaders => some (m, if m.readerLock = 0 then .resetMark else .resetWithdraw)
  | .resetWithdraw => some ({ m with writerLock := .free }, .resetDone)
  | .resetMark => some ({ m with isFired := false }, .resetUnlock)
  | .resetUnlock => some ({ m with writerLock := .free }, .resetDone)
  | .resetDone => none

/-- **No counter wraps** in the next operation of the call: fewer than 2^32 adders are counted and
fewer than 2^32 positions are taken. -/
def NoWrap (m : OoList α) : OoPc α → Prop
  | .addCount _ => m.readerLock.toNat + 1 < 2 ^ 32
  | .addPosition _ => m.count.toNat + 1 < 2 ^ 32
  | _ => True

instance (m : OoList α) (p : OoPc α) : Decidable (m.NoWrap p) := by
  unfold NoWrap
  split <;> infer_instance

/-- The items that the fire with the number `g` is to replay, in the order of their positions. -/
def batch (m : OoList α) (g : ℕ) : List α := (m.positions.filter fun e => e.1 = g).map Prod.snd

/-- The items that the fire with the number `g` has replayed, in order. -/
def replayed (m : OoList α) (g : ℕ) : List α := (m.replays.filter fun e => e.1 = g).map Prod.snd

end OoList

def OoPc.item : OoPc α → Option α
  | .addEnter x | .addSpin x | .addCount x | .addRecheck x | .addUncount x | .addFired x
  | .addRefuse x | .addPosition x | .addWalk x _ _ | .addAlloc x _ _ | .addInsert x _
  | .addUnlock x | .added x _ => some x
  | _ => none

structure OoRun (α : Type*) where
  list : OoList α := {}
  calls : List (OoPc α) := []
  /-- A fire has returned since the list was last reset. -/
  answered : Bool := false

namespace OoRun

/-- What happens next: a call begins, or one goes on. -/
inductive Act (α : Type*) where
  | add (x : α)
  | fire
  | reset
  | call (i : ℕ)
  deriving DecidableEq

/-- Whether a fire has returned since the last reset, after a call has gone from `p` to `p'`. -/
def answer (b : Bool) (p p' : OoPc α) : Bool :=
  match p, p' with
  | .resetMark, _ => false
  | _, .fired _ => true
  | _, _ => b

variable [DecidableEq α]

/-- One step. The items of different adds are different. -/
def next (s : OoRun α) : Act α → Option (OoRun α)
  | .add x =>
    if ∀ p ∈ s.calls, p.item ≠ some x then some { s with calls := s.calls ++ [.addEnter x] }
    else none
  | .fire => some { s with calls := s.calls ++ [.fireTry 0] }
  | .reset => some { s with calls := s.calls ++ [.resetTry] }
  | .call i => s.calls[i]?.bind fun p => (s.list.step p).map fun r =>
    { list := r.1, calls := s.calls.set i r.2, answered := answer s.answered p r.2 }

/-- A list under any number of adds, fires and resets. -/
def machine : Machine (OoRun α) (Act α) where
  init s := s = {}
  next := next

/-- **No counter wraps.** -/
def NoWrap (s : OoRun α) : Act α → Prop
  | .call i => ∀ p ∈ s.calls[i]?, s.list.NoWrap p
  | _ => True

instance (s : OoRun α) (l : Act α) : Decidable (s.NoWrap l) := by
  unfold NoWrap
  split <;> infer_instance

end OoRun

end Arts
