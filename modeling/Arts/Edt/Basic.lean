import Arts.Guid
import Arts.OutOfOrder.Abandoned

/-!
# An EDT that is signalled while it comes into being

A *main* thread creates the EDT or unpacks it from a message, and each signal is a thread. A signal
that does not find the EDT is put on the out-of-order list; if the list refuses it, it starts again.
-/

namespace Arts

/-- A pointer in a slot: an address, or the copy of a payload. -/
inductive SlotPtr where
  | addr (p : UInt64)
  | copy (bytes : List UInt8)
  deriving DecidableEq

/-- A slot of an EDT (`arts_edt_dep_t`). -/
structure DepSlot where
  guid : Guid := Guid.null
  ptr : SlotPtr := .addr 0
  mode : AccessMode := .null
  flags : UInt32 := 0
  sliceOffset : UInt64 := 0
  sliceSize : UInt64 := 0
  deriving DecidableEq

/-- What is signalled: the arguments of `internal_signal_edt_ex`. -/
structure EdtSignal where
  dataGuid : Guid := Guid.null
  mode : AccessMode := .null
  flags : UInt32 := 0
  ptr : UInt64 := 0
  /-- The `size` bytes at `ptr`. -/
  bytes : List UInt8 := []
  /-- Only `DB_MODE_PTR` comes with a pointer. -/
  noPtr : mode ≠ .ptr → ptr = 0 ∧ bytes = [] := by decide

/-- What the EDT's function finds in a slot. -/
def DepSlot.data (d : DepSlot) : Guid × SlotPtr × AccessMode := (d.guid, d.ptr, d.mode)

namespace EdtSignal

/-- The stores of `internal_signal_edt_ex` into the slot. -/
def write (s : EdtSignal) (d : DepSlot) : DepSlot :=
  let d := { d with
    guid := s.dataGuid
    ptr := if s.mode = .ptr ∧ 0 < s.bytes.length then .copy s.bytes else .addr s.ptr }
  let d := if s.mode ≠ .null then { d with mode := s.mode, sliceOffset := 0, sliceSize := 0 } else d
  if s.flags ≠ 0 then { d with flags := s.flags } else d

/-- The signal as it is delivered after a deferral: `OO_SIGNAL_EDT_PTR` has no flags. -/
def deferred (s : EdtSignal) : EdtSignal :=
  if s.mode = .ptr then { s with flags := 0 } else s

lemma data_write_deferred (s : EdtSignal) (d : DepSlot) :
    (s.deferred.write d).data = (s.write d).data := by
  unfold deferred
  split_ifs with h
  · simp only [write, DepSlot.data, h]
    split_ifs <;> rfl
  · rfl

end EdtSignal

inductive ItemState where
  | none
  | reserved
  | available
  deriving DecidableEq

/-- How the EDT comes into being, and the signals for it. -/
structure EdtArrival where
  /-- It arrives in a message; otherwise it is created on a pre-reserved GUID. -/
  moved : Bool
  count : UInt32
  /-- The field `depc`, the number of slots. -/
  slots : ℕ
  signal : ℕ → EdtSignal
  /-- The slots as they are when the EDT is published. -/
  depv : ℕ → DepSlot

inductive SignalPc where
  /-- `again` after the list has refused the signal. -/
  | lookup (again : Bool)
  -- `arts_route_table_add_oo`
  | reserve
  | check
  /-- In `arts_out_of_order_list_add_item`; at its end the signal has been deferred. -/
  | defer (p : OoPc ℕ)
  | write (again : Bool)
  | sub
  /-- `depc_needed` was 0: about to call `arts_handle_ready_edt`. -/
  | ready
  | done
  deriving DecidableEq

inductive ReplayPc where
  | lookup
  | write
  | sub
  | ready
  deriving DecidableEq

inductive MainPc where
  | create
  -- `arts_route_table_add_item_race`: find or allocate the item, then store the EDT
  | publish
  | store
  /-- The test of `depc_needed` in `arts_remote_handle_edt_move`. -/
  | test
  /-- `arts_route_table_fire_oo` -/
  | fireOo
  | fire (p : OoPc ℕ)
  /-- The callback runs for signal `k`, which is the `j`-th of `pos`. -/
  | replay (pos j k : ℕ) (d : ReplayPc)
  | sentinel
  | ready
  | done
  deriving DecidableEq

/-- An EDT coming into being, and its signals. -/
structure EdtRun where
  item : ItemState := .none
  list : OoList ℕ := {}
  /-- The counter `depc_needed`. -/
  needed : UInt32
  depv : ℕ → DepSlot
  main : MainPc
  signals : List SignalPc
  /-- The slots at the calls of `arts_handle_ready_edt`. -/
  calls : List (ℕ → DepSlot) := []

namespace EdtRun

/-- Nothing has happened yet. -/
def start (a : EdtArrival) : EdtRun where
  needed := if a.moved then a.count else 0
  depv := a.depv
  main := if a.moved then .publish else .create
  signals := List.replicate a.count.toNat (.lookup false)

def afterFire (a : EdtArrival) : MainPc := if a.moved then .done else .sentinel

/-- Write the slot of signal `k`. -/
def writeSlot (a : EdtArrival) (w : EdtRun) (k : ℕ) (s : EdtSignal) : EdtRun :=
  { w with depv := if k < a.slots then Function.update w.depv k (s.write (w.depv k)) else w.depv }

/-- `arts_atomic_sub(&edt->depc_needed, 1U)` -/
def takeOff (w : EdtRun) : EdtRun := { w with needed := w.needed - 1 }

/-- The call of `arts_handle_ready_edt`. -/
def callReady (w : EdtRun) : EdtRun := { w with calls := w.calls ++ [w.depv] }

/-- The main thread while a fire is at `p`. -/
def atFire : OoPc ℕ → MainPc
  | .fireCall pos j k => .replay pos j k .lookup
  | p => .fire p

/-- The next atomic operation of signal `k`. -/
def signalStep (a : EdtArrival) (w : EdtRun) (k : ℕ) : SignalPc → Option (EdtRun × SignalPc)
  | .lookup again => some (w, if w.item = .available then .write again else .reserve)
  | .reserve =>
    if w.item = .none then some ({ w with item := .reserved }, .defer (.addEnter k))
    else some (w, .check)
  | .check => some (w, if w.item = .reserved then .defer (.addEnter k) else .lookup true)
  | .defer (.added _ false) => some (w, .lookup true)
  | .defer p => (w.list.step p).map fun r => ({ w with list := r.1 }, .defer r.2)
  | .write again =>
    some (w.writeSlot a k (if again then (a.signal k).deferred else a.signal k), .sub)
  | .sub => some (w.takeOff, if w.needed - 1 = 0 then .ready else .done)
  | .ready => some (w.callReady, .done)
  | .done => none

/-- The next atomic operation of the callback for signal `k`; the fire goes on to `p`. -/
def replayStep (a : EdtArrival) (w : EdtRun) (pos j k : ℕ) : ReplayPc → Option (EdtRun × MainPc)
  | .lookup => if w.item = .available then some (w, .replay pos j k .write) else none
  | .write => some (w.writeSlot a k (a.signal k).deferred, .replay pos j k .sub)
  | .sub =>
    some (w.takeOff, if w.needed - 1 = 0 then .replay pos j k .ready else .fire (.fireFrom pos (j + 1)))
  | .ready => some (w.callReady, .fire (.fireFrom pos (j + 1)))

/-- The next atomic operation of the main thread. Once `arts_handle_ready_edt` has been called the
counter is used by `acquire_dbs`, and the test may find any value `v` in it. -/
def mainStep (a : EdtArrival) (w : EdtRun) (v : UInt32) : MainPc → Option (EdtRun × MainPc)
  | .create => some ({ w with needed := a.count + 1 }, .publish)
  | .publish => some ({ w with item := if w.item = .none then .reserved else w.item }, .store)
  | .store => some ({ w with item := .available }, if a.moved then .test else .fireOo)
  | .test =>
    let seen := if w.calls.isEmpty then w.needed else v
    some (w, if seen = 0 then .ready else .fireOo)
  | .fireOo => some (w, if w.item = .available then .fire (.fireTry 0) else afterFire a)
  | .fire (.fired _) => some (w, afterFire a)
  | .fire p => (w.list.step p).map fun r => ({ w with list := r.1 }, atFire r.2)
  | .replay pos j k d => w.replayStep a pos j k d
  | .sentinel => some (w.takeOff, if w.needed - 1 = 0 then .ready else .done)
  | .ready => some (w.callReady, .done)
  | .done => none

inductive Act where
  /-- The main thread; `v` is what it finds in a counter that `acquire_dbs` uses. -/
  | main (v : UInt32)
  | signal (k : ℕ)
  deriving DecidableEq

def next (a : EdtArrival) (w : EdtRun) : Act → Option EdtRun
  | .main v => (w.mainStep a v w.main).map fun r => { r.1 with main := r.2 }
  | .signal k => w.signals[k]?.bind fun p => (w.signalStep a k p).map fun r =>
    { r.1 with signals := w.signals.set k r.2 }

/-- The main thread and the signals. -/
def machine (a : EdtArrival) : Machine EdtRun Act where
  init w := w = start a
  next := next a

/-- **The replay obtains the lock of the list** at its last attempt at the latest. -/
def Obtains (w : EdtRun) : Act → Prop
  | .main _ => match w.main with
    | .fire p => w.list.LastAttempt [] p
    | _ => True
  | .signal _ => True

instance (w : EdtRun) (l : Act) : Decidable (w.Obtains l) := by
  unfold Obtains
  split
  · split <;> infer_instance
  · infer_instance

def SignalPc.finished : SignalPc → Bool
  | .done | .defer (.added _ true) => true
  | _ => false

def Finished (w : EdtRun) : Prop := w.main = .done ∧ ∀ p ∈ w.signals, SignalPc.finished p

instance (w : EdtRun) : Decidable w.Finished := by
  unfold Finished
  infer_instance

end EdtRun

end Arts
