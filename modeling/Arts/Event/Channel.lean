import Arts.Event.Basic
import Arts.Machine.Basic

/-!
# Channel events

They keep a list of *versions*, each with a latch, dependents and a data GUID; all functions run
under the lock. A version whose latch is `0` fires and is consumed.
-/

namespace Arts

/-- `arts_event_version_s`. -/
structure Version where
  version : UInt32
  latchCount : UInt32
  /-- The dependents, `dependent_count` of them. -/
  dependents : List Dependent
  data : Guid
  deriving DecidableEq, Repr

namespace Version

/-- `arts_atomic_add(&version->latch_count, 1U)`. -/
def incr (v : Version) : Version := { v with latchCount := v.latchCount + 1 }

/-- The data are stored, unless the GUID is null, and the latch counter is decremented. -/
def decr (data : Guid) (v : Version) : Version :=
  { v with
    data := if data = Guid.null then v.data else data
    latchCount := v.latchCount - 1 }

def register (d : Dependent) (v : Version) : Version := { v with dependents := v.dependents ++ [d] }

end Version

/-- `arts_event_s` as the functions for channel events use it. -/
structure Channel where
  /-- The latch count that the event was created with. -/
  latchCount : UInt32
  data : Guid
  /-- The versions; empty as long as `event->versions` is `NULL`. -/
  versions : List Version
  deriving DecidableEq, Repr

abbrev Signal := Dependent × Guid

namespace Channel

/-- `arts_event_create_channel_internal`. -/
def create (latchCount : UInt32) (data : Guid) : Channel := ⟨latchCount, data, []⟩

/-- `channel_push_version`. -/
def pushVersion (e : Channel) : Channel :=
  { e with versions := e.versions ++
      [⟨e.versions.getLast?.elim 0 fun last => last.version + 1, 0, [], e.data⟩] }

/-- `channel_get_versions`: the first version is created on demand. -/
def getVersions (e : Channel) : Channel := if e.versions.isEmpty then e.pushVersion else e

/-- `channel_free_version`. -/
def freeVersion (e : Channel) : Channel :=
  match e.versions with
  | [] => e
  | [v] => { e with versions := [{ v with latchCount := 0, dependents := [], data := e.data }] }
  | _ :: vs => { e with versions := vs }

/-- The latch counter of the `k`-th version. -/
def latch (e : Channel) (k : ℕ) : UInt32 := e.versions[k]?.elim 0 Version.latchCount

/-- Change the `k`-th version. -/
def modify (e : Channel) (k : ℕ) (f : Version → Version) : Channel :=
  { e with versions := e.versions.modify k f }

/-- What `channel_fire_dependents` does for one dependent. An EDT is not signalled without data,
and a slice of a data block only if the route table has the block (`db`). -/
def signal (db : Guid → Bool) (data : Guid) (d : Dependent) : Option Signal :=
  match d with
  | .edt _ _ byteOffset size =>
    if data ≠ Guid.null then
      if byteOffset ≠ 0 ∨ size ≠ 0 then
        if db data then some (d, data) else none
      else some (d, data)
    else none
  | .event _ _ => some (d, data)
  | .callback _ => some (d, data)

/-- `channel_fire_dependents` on the `k`-th version. -/
def fireDependents (db : Guid → Bool) (e : Channel) (k : ℕ) : Channel × List Signal :=
  (e.freeVersion, e.versions[k]?.elim [] fun v => v.dependents.filterMap (signal db v.data))

/-- Fire the `k`-th version if its latch is `0`. -/
def fireIfZero (db : Guid → Bool) (e : Channel) (k : ℕ) : Channel × List Signal :=
  if e.latch k = 0 then e.fireDependents db k else (e, [])

/-- The version that a call works on: the first one, or a new last one if the first one is
`taken`. -/
def target (e : Channel) (taken : Bool) : Channel × ℕ :=
  if taken then (e.pushVersion, e.versions.length) else (e, 0)

/-- `channel_satisfy_slot`; `none` if the slot is invalid and the program is aborted. -/
def satisfySlot (db : Guid → Bool) (e : Channel) (slot : UInt32) (data : Guid) :
    Option (Channel × List Signal) :=
  let e := e.getVersions
  if slot = latchIncrSlot then
    let (e, k) := e.target (e.latch 0 = 1)
    some ((e.modify k Version.incr).fireIfZero db k)
  else if slot = latchDecrSlot then
    let (e, k) := e.target (e.latch 0 = -1)
    some ((e.modify k (Version.decr data)).fireIfZero db k)
  else if slot = eventUpdate then some (e.fireIfZero db 0)
  else none

def frontHasDependent (e : Channel) : Bool := e.versions.head?.any fun v => !v.dependents.isEmpty

/-- `arts_event_add_dependence_with_byte_offset`, for a dependent that the caller has built. -/
def addDependent (db : Guid → Bool) (e : Channel) (d : Dependent) : Channel × List Signal :=
  let e := e.getVersions
  let (e, k) :=
    if 0 < e.latchCount then
      let (e, k) := e.target e.frontHasDependent
      (e.modify k Version.incr, k)
    else (e, 0)
  (e.modify k (Version.register d)).fireIfZero db k

def dependentOf (dest : Guid) (slot : UInt32) (byteOffset len : UInt64) : Dependent :=
  if Guid.getType dest = ArtsType.event then .event dest slot else .edt dest slot byteOffset len

/-- `arts_event_add_dependence_with_byte_offset`. -/
def addDependenceWithByteOffset (db : Guid → Bool) (e : Channel) (dest : Guid) (slot : UInt32)
    (byteOffset len : UInt64) : Channel × List Signal :=
  e.addDependent db (dependentOf dest slot byteOffset len)

/-- `arts_event_add_dependence_with_mode`. -/
def addDependenceWithMode (db : Guid → Bool) (e : Channel) (dest : Guid) (slot : UInt32) :
    Channel × List Signal :=
  e.addDependent db (dependentOf dest slot 0 0)

/-- `arts_add_local_event_callback` on a channel event. -/
def addCallback (db : Guid → Bool) (e : Channel) (callback : ℕ) : Channel × List Signal :=
  let e := e.getVersions
  let k := e.versions.length - 1
  (e.modify k (Version.register (.callback callback))).fireIfZero db k

end Channel

inductive ChannelOp where
  /-- `arts_add_dependence`. -/
  | addDependence (dest : Guid) (slot : UInt32)
  /-- `arts_add_dependence_at`. -/
  | addDependenceAt (dest : Guid) (slot : UInt32) (byteOffset len : UInt64)
  /-- `arts_add_local_event_callback`. -/
  | addCallback (callback : ℕ)
  /-- `arts_event_satisfy_slot`. -/
  | satisfy (slot : UInt32) (data : Guid)
  deriving DecidableEq, Repr

/-- A call, and the data blocks that the route table has at that time. -/
structure ChannelAct where
  op : ChannelOp
  db : Guid → Bool

/-- A channel event with the signals that it has sent, the first one first. -/
structure ChannelRun where
  channel : Channel
  log : List Signal
  deriving DecidableEq, Repr

namespace ChannelRun

/-- The effect of a call on the event, and the signals that it sends. -/
def call (e : Channel) (a : ChannelAct) : Option (Channel × List Signal) :=
  match a.op with
  | .addDependence dest slot => some (e.addDependenceWithMode a.db dest slot)
  | .addDependenceAt dest slot byteOffset len =>
    some (e.addDependenceWithByteOffset a.db dest slot byteOffset len)
  | .addCallback callback => some (e.addCallback a.db callback)
  | .satisfy slot data => e.satisfySlot a.db slot data

/-- A channel event as a machine: calls follow one another under the lock. -/
def machine (latchCount : UInt32) (data : Guid) : Machine ChannelRun ChannelAct where
  init s := s = ⟨.create latchCount data, []⟩
  next s a := (call s.channel a).map fun x => ⟨x.1, s.log ++ x.2⟩

end ChannelRun

end Arts
