import Arts.Machine.Basic
import Arts.Queue.Window

/-!
# The work-stealing deque

The owner pushes and pops at `bottom` of a circular array, thieves take items at `top`. A step is
one load, store or compare-and-swap. With fewer than 2^63 pushes the indices are natural numbers.
-/

namespace Arts

variable {α : Type*}

/-- An array of the deque (`circular_array_s`). -/
structure Segment (α : Type*) where
  size : UInt32
  slot : ℕ → Option α

/-- `new_circular_array`: all slots are null. -/
def newCircularArray (size : UInt32) : Segment α := ⟨size, fun _ => none⟩

/-- `get_circular_array`. -/
def getCircularArray (a : Segment α) (i : ℕ) : Option α := a.slot (i % a.size.toNat)

/-- `put_circular_array`. -/
def putCircularArray (a : Segment α) (i : ℕ) (o : Option α) : Segment α :=
  { a with slot := Function.update a.slot (i % a.size.toNat) o }

/-- Where the owner is. An array is named by its number in the order of creation. -/
inductive OwnerPc (α : Type*) where
  | idle
  -- `arts_deque_simple_push_front`
  | pushArray (x : α)
  | pushBottom (x : α) (a : ℕ)
  | pushTop (x : α) (a b : ℕ)
  /-- `grow_circular_array`, at the head of the loop: the entries below `i` have been copied. -/
  | growLoad (x : α) (a b i : ℕ)
  | growStore (x : α) (a b i : ℕ) (o : Option α)
  | publish (x : α) (a b : ℕ)
  | put (x : α) (a b : ℕ)
  | storeBottom (x : α) (b : ℕ)
  -- `arts_deque_simple_pop_front`
  | fastTop
  | fastBottom (t : ℕ)
  | decLoad
  | decStore (b : ℕ)
  | popTop (b : ℕ)
  | popReset (t : ℕ)
  | popArray (b t : ℕ)
  | popSlot (b t a : ℕ)
  | popCas (t : ℕ) (o : Option α)
  | popRestore (t : ℕ) (o : Option α)
  deriving DecidableEq

inductive ThiefPc (α : Type*) where
  -- `arts_deque_simple_pop_back`
  | fastTop
  | fastBottom (t : ℕ)
  | top
  | bottom (t : ℕ)
  | array (t : ℕ)
  | slot (t a : ℕ)
  | cas (t : ℕ) (o : Option α)
  -- `arts_deque_simple_pop_back_half`
  | halfFastBottom (max : ℕ)
  | halfFastTop (max b : ℕ)
  | halfTop (max : ℕ)
  | halfBottom (max t : ℕ)
  | halfArray (max t b : ℕ)
  | halfCas (t k a : ℕ)
  /-- The items `claimed` are the thief's; it has read `out` of them. -/
  | halfRead (t a : ℕ) (claimed out : List (Option α))
  | done
  deriving DecidableEq

/-- A deque with its owner and its thieves. -/
structure Deque (α : Type*) where
  top : ℕ
  bottom : ℕ
  activeArray : ℕ
  arrays : ℕ → Segment α
  owner : OwnerPc α
  thieves : List (ThiefPc α)
  pushed : List α
  /-- The items returned by the owner's and the thieves' calls. -/
  returned : List α

/-- The number of items to steal when `available` are there. -/
def toSteal (available max : ℕ) : ℕ :=
  let half := available / 2 % 2 ^ 32
  let some := if half = 0 then 1 else half
  if max < some then max else some

namespace Deque

/-- The entry with the index `i` in the array in use. -/
def get (s : Deque α) (i : ℕ) : Option α := getCircularArray (s.arrays s.activeArray) i

/-- The entry `i` of the array `a` is written. -/
def store (s : Deque α) (a i : ℕ) (o : Option α) : ℕ → Segment α :=
  Function.update s.arrays a (putCircularArray (s.arrays a) i o)

/-- `arts_deque_simple_new`. -/
def new (size : UInt32) : Deque α where
  top := 1
  bottom := 1
  activeArray := 0
  arrays := fun _ => newCircularArray size
  owner := .idle
  thieves := []
  pushed := []
  returned := []

/-- The owner is about to replace the array: it has just to load `top` and finds the array full. -/
def Full (s : Deque α) (a b : ℕ) : Prop := ((s.arrays a).size - 1).toNat + s.top ≤ b

instance (s : Deque α) (a b : ℕ) : Decidable (s.Full a b) := by
  unfold Full
  infer_instance

/-- The next memory operation of the owner. -/
def ownerStep (s : Deque α) : Option (Deque α) :=
  match s.owner with
  | .idle => none
  | .pushArray x => some { s with owner := .pushBottom x s.activeArray }
  | .pushBottom x a => some { s with owner := .pushTop x a s.bottom }
  | .pushTop x a b =>
    if s.Full a b then
      -- an array of size 0 traps at the first access, which computes an index modulo its size
      if (s.arrays a).size * 2 = 0 then none
      else some { s with
        arrays := Function.update s.arrays (a + 1) (newCircularArray ((s.arrays a).size * 2)),
        owner := .growLoad x a b s.top }
    else some { s with owner := .put x a b }
  | .growLoad x a b i =>
    if i < b then
      some { s with owner := .growStore x a b i (getCircularArray (s.arrays a) i) }
    else some { s with owner := .publish x (a + 1) b }
  | .growStore x a b i o =>
    some { s with arrays := s.store (a + 1) i o, owner := .growLoad x a b (i + 1) }
  | .publish x a b => some { s with activeArray := a, owner := .put x a b }
  | .put x a b => some { s with arrays := s.store a b (some x), owner := .storeBottom x b }
  | .storeBottom x b =>
    some { s with bottom := b + 1, owner := .idle, pushed := s.pushed ++ [x] }
  | .fastTop => some { s with owner := .fastBottom s.top }
  | .fastBottom t => some { s with owner := if s.bottom ≤ t then .idle else .decLoad }
  | .decLoad => some { s with owner := .decStore (s.bottom - 1) }
  | .decStore b => some { s with bottom := b, owner := .popTop b }
  | .popTop b =>
    some { s with owner := if b < s.top then .popReset s.top else .popArray b s.top }
  | .popReset t => some { s with bottom := t, owner := .idle }
  | .popArray b t => some { s with owner := .popSlot b t s.activeArray }
  | .popSlot b t a =>
    if t < b then
      some { s with
        owner := .idle, returned := s.returned ++ (getCircularArray (s.arrays a) b).toList }
    else some { s with owner := .popCas t (getCircularArray (s.arrays a) b) }
  | .popCas t o =>
    if s.top = t then some { s with top := t + 1, owner := .popRestore t o }
    else some { s with owner := .popRestore t none }
  | .popRestore t o =>
    some { s with bottom := t + 1, owner := .idle, returned := s.returned ++ o.toList }

/-- The thief `i` goes on to `p`. -/
def move (s : Deque α) (i : ℕ) (p : ThiefPc α) : Deque α := { s with thieves := s.thieves.set i p }

/-- The thief `i` returns the items `out`. -/
def yield (s : Deque α) (i : ℕ) (out : List (Option α)) : Deque α :=
  { s with thieves := s.thieves.set i .done, returned := s.returned ++ out.reduceOption }

/-- The next memory operation of the thief `i`, which is at `p`. -/
def thiefStep (s : Deque α) (i : ℕ) : ThiefPc α → Option (Deque α)
  | .fastTop => some (s.move i (.fastBottom s.top))
  | .fastBottom t => some (s.move i (if s.bottom ≤ t then .done else .top))
  | .top => some (s.move i (.bottom s.top))
  | .bottom t => some (s.move i (if t < s.bottom then .array t else .done))
  | .array t => some (s.move i (.slot t s.activeArray))
  | .slot t a => some (s.move i (.cas t (getCircularArray (s.arrays a) t)))
  | .cas t o =>
    if s.top = t then some ({ s with top := t + 1 }.yield i [o]) else some (s.move i .done)
  | .halfFastBottom max => some (s.move i (.halfFastTop max s.bottom))
  | .halfFastTop max b => some (s.move i (if b ≤ s.top then .done else .halfTop max))
  | .halfTop max => some (s.move i (.halfBottom max s.top))
  | .halfBottom max t => some (s.move i (.halfArray max t s.bottom))
  | .halfArray max t b =>
    some (s.move i (if b ≤ t then .done else .halfCas t (toSteal (b - t) max) s.activeArray))
  | .halfCas t k a =>
    if s.top = t then
      some ({ s with top := t + k }.move i (.halfRead t a (Queue.window s.get t (t + k)) []))
    else some (s.move i .done)
  | .halfRead t a claimed out =>
    let out' := out ++ [getCircularArray (s.arrays a) (t + out.length)]
    if out'.length < claimed.length then some (s.move i (.halfRead t a claimed out'))
    else some (s.yield i out')
  | .done => none

/-- What happens next: a call of the owner or of a thief begins, or one of them goes on. -/
inductive Act (α : Type*) where
  | push (x : α)
  | pop
  | owner
  | popBack
  | popBackHalf (max : ℕ)
  | thief (i : ℕ)
  deriving DecidableEq

def next (s : Deque α) : Act α → Option (Deque α)
  | .push x => match s.owner with
    | .idle => some { s with owner := .pushArray x }
    | _ => none
  | .pop => match s.owner with
    | .idle => some { s with owner := .fastTop }
    | _ => none
  | .owner => s.ownerStep
  | .popBack => some { s with thieves := s.thieves ++ [.fastTop] }
  | .popBackHalf max =>
    if 0 < max then some { s with thieves := s.thieves ++ [.halfFastBottom max] } else none
  | .thief i => s.thieves[i]?.bind (s.thiefStep i)

/-- A deque of the given initial size under one owner and any number of thieves. -/
def machine (size : UInt32) : Machine (Deque α) (Act α) where
  init s := s = new size
  next := next

def Quiet (s : Deque α) : Prop := s.owner = .idle ∧ ∀ p ∈ s.thieves, p = .done

instance [DecidableEq α] (s : Deque α) : Decidable s.Quiet := by
  unfold Quiet
  infer_instance

/-- The items between `top` and `bottom`. -/
def between (s : Deque α) : List (Option α) := Queue.window s.get s.top s.bottom

/-- **The doubled size fits**: when the owner finds the array full, twice its size is less than
2^32. -/
def Fits (s : Deque α) : Act α → Prop
  | .owner => match s.owner with
    | .pushTop _ a b => s.Full a b → (s.arrays a).size.toNat * 2 < 2 ^ 32
    | _ => True
  | _ => True

instance (s : Deque α) (l : Act α) : Decidable (s.Fits l) := by
  unfold Fits
  split
  · split <;> infer_instance
  · infer_instance

end Deque

end Arts
