import Arts.Db.Frontier
import Arts.Lock.ReaderWriter
import Arts.Machine.Basic

/-!
# The frontier list step by step

`arts_push_db_to_list`, `arts_request_db_slice` and `arts_progress_frontier` run concurrently, one
access to shared memory at a time. A call that finds the list drained only *tries* to take the
writer lock.
-/

namespace Arts

/-- An access that `arts_add_db_duplicate_ex` pushes. -/
structure PushRequest extends FrontierRequest where
  bypass_read : bypass = true → write = false

/-- The access of the given slot. -/
def PushRequest.duplicate (owner rank : ℕ) (edt : Option EdtGuid) (slot : UInt32)
    (mode : AccessMode) (flags : UInt32) : PushRequest where
  toFrontierRequest := duplicateRequest owner rank edt slot mode flags
  bypass_read := bypass_duplicateRequest

/-- The arguments of `arts_request_db_slice`. -/
structure SliceRequest where
  edt : EdtGuid
  slot : UInt32
  offset : UInt64
  size : UInt64
  flags : UInt32

structure FrontierNode where
  frontier : Frontier := {}
  locked : Bool := false
  slices : List SliceRequest := []
  next : Option ℕ := none

/-- `arts_db_list_s`; the frontiers are known by their number. -/
structure DbList where
  head : Option ℕ
  words : Lock.Words
  nodes : List FrontierNode
  /-- The frontiers whose accesses `arts_progress_frontier` has served. -/
  signalled : List ℕ

namespace DbList

/-- The frontier `b` follows the frontier `a`. -/
def Next (d : DbList) (a b : ℕ) : Prop := ∃ ν, d.nodes[a]? = some ν ∧ ν.next = some b

/-- The frontier can be reached from `head`. -/
def Linked (d : DbList) (n : ℕ) : Prop := ∃ h, d.head = some h ∧ Relation.ReflTransGen d.Next h n

def setNode (d : DbList) (n : ℕ) (ν : FrontierNode) : DbList := { d with nodes := d.nodes.set n ν }

end DbList

inductive ListOp where
  /-- `arts_push_db_to_list`. -/
  | push (q : PushRequest)
  /-- `arts_request_db_slice`. -/
  | slice (r : SliceRequest)
  /-- `arts_progress_frontier`. -/
  | progress

namespace ListOp

/-- The access is of the owner rank. -/
def isLocal : ListOp → Bool
  | .push q => q.isLocal
  | _ => false

def isWrite : ListOp → Bool
  | .push q => q.write
  | _ => false

/-- The EDT that asks to write. -/
def edt : ListOp → Option EdtGuid
  | .push q => q.edt
  | _ => none

/-- `frontier_add_read_lock` and `frontier_add_write_lock`: the second one seals the frontier. -/
def lock (op : ListOp) (ν : FrontierNode) : FrontierNode :=
  { ν with locked := true, frontier := { ν.frontier with writeSet := op.isWrite } }

/-- The insertion under the lock of the frontier, and the release of that lock. A slice of the head
is copied at once. -/
def insert (op : ListOp) (isHead : Bool) (ν : FrontierNode) : FrontierNode :=
  match op with
  | .push q =>
    let (list, inserted) := pushDbToElement ν.frontier.list q.data
    { ν with
      locked := false
      frontier := { ν.frontier with
        list := list
        exclusive := if inserted && (q.write && !q.isLocal) then
            q.edt.map fun e => ⟨q.data, e, q.slot, q.mode⟩
          else ν.frontier.exclusive
        localWriteEdt := if q.write && q.isLocal then q.edt else ν.frontier.localWriteEdt } }
  | .slice r => { ν with locked := false, slices := if isHead then ν.slices else ν.slices ++ [r] }
  | .progress => ν

/-- `arts_push_delayed_edt`. -/
def delay (op : ListOp) (ν : FrontierNode) : FrontierNode :=
  match op with
  | .push q => { ν with frontier := ν.frontier.delay q.toFrontierRequest false }
  | _ => ν

end ListOp

inductive ListPc where
  /-- The test of `head`. -/
  | testHead
  /-- `arts_writer_try_lock`: set `writer`. -/
  | tryLock
  /-- `arts_writer_try_lock`: wait for the readers. -/
  | awaitReaders
  | storeHead
  /-- `arts_writer_unlock`. -/
  | unlockWriter
  /-- `arts_reader_lock`: wait for the writer. -/
  | awaitWriter
  /-- `arts_reader_lock`: count the reader. -/
  | countReader
  /-- `arts_reader_lock`: look at `writer` again. -/
  | checkWriter
  /-- `arts_reader_lock`: there was a writer. -/
  | uncountReader
  | readHead
  | lock (n : ℕ) (isHead : Bool)
  | insert (n : ℕ) (isHead : Bool)
  /-- `arts_try_join_same_local_writer`. -/
  | join (n : ℕ) (isHead : Bool)
  | link (n : ℕ)
  | advance (n : ℕ)
  | delay (n : ℕ)
  /-- `arts_reader_unlock`. -/
  | unlockReader
  /-- `arts_progress_frontier`: set `writer`. -/
  | lockWriter
  /-- `arts_progress_frontier`: wait for the readers. -/
  | drainReaders
  /-- `arts_progress_frontier`: remove the head and serve the next frontier. -/
  | pop
  /-- `arts_progress_frontier`: clear `writer`. -/
  | release
  | done
  deriving DecidableEq

structure ListCall where
  op : ListOp
  pc : ListPc
  node : Option ℕ := none
  /-- That frontier was the head, so that the access is granted. -/
  onHead : Bool := false

namespace ListCall

def start (op : ListOp) : ListCall :=
  ⟨op, match op with | .progress => .lockWriter | _ => .testHead, none, false⟩

/-- The access has been accepted by the frontier `n`. -/
def accept (c : ListCall) (n : ℕ) (isHead : Bool) : ListCall :=
  { c with
    node := some n
    onHead := isHead
    pc := if c.op.isLocal && !isHead then .delay n else .unlockReader }

end ListCall

/-- One access of a call to shared memory; `none` while it waits. -/
def DbList.step (d : DbList) (c : ListCall) : Option (DbList × ListCall) :=
  match c.pc with
  | .testHead => some (d, { c with pc := if d.head = none then .tryLock else .awaitWriter })
  | .tryLock =>
    if d.words.writer then some (d, { c with pc := .awaitWriter })
    else some ({ d with words := ⟨d.words.reader, true⟩ }, { c with pc := .awaitReaders })
  | .awaitReaders => if d.words.reader = 0 then some (d, { c with pc := .storeHead }) else none
  | .storeHead =>
    some ({ d with head := some d.nodes.length, nodes := d.nodes ++ [{}] },
      { c with pc := .unlockWriter })
  | .unlockWriter =>
    some ({ d with words := ⟨d.words.reader, false⟩ }, { c with pc := .awaitWriter })
  | .awaitWriter => if d.words.writer then none else some (d, { c with pc := .countReader })
  | .countReader =>
    some ({ d with words := ⟨d.words.reader + 1, d.words.writer⟩ }, { c with pc := .checkWriter })
  | .checkWriter =>
    some (d, { c with pc := if d.words.writer then .uncountReader else .readHead })
  | .uncountReader =>
    some ({ d with words := ⟨d.words.reader - 1, d.words.writer⟩ }, { c with pc := .awaitWriter })
  | .readHead =>
    match d.head with
    | none => some (d, { c with pc := .unlockReader })
    | some n => some (d, { c with pc := .lock n true })
  | .lock n isHead =>
    match d.nodes[n]? with
    | none => none
    | some ν =>
      if ν.frontier.writeSet then
        some (d, { c with pc := if c.op.isLocal then .join n isHead else .link n })
      else if ν.locked then none
      else some (d.setNode n (c.op.lock ν), { c with pc := .insert n isHead })
  | .insert n isHead =>
    match d.nodes[n]? with
    | none => none
    | some ν => some (d.setNode n (c.op.insert isHead ν), c.accept n isHead)
  | .join n isHead =>
    match d.nodes[n]? with
    | none => none
    | some ν =>
      if ν.locked then none
      else if ν.frontier.sameLocalWriter c.op.edt then some (d, c.accept n isHead)
      else some (d, { c with pc := .link n })
  | .link n =>
    match d.nodes[n]? with
    | none => none
    | some ν =>
      if ν.next = none then
        some ({ d with nodes := d.nodes.set n { ν with next := some d.nodes.length } ++ [{}] },
          { c with pc := .advance n })
      else some (d, { c with pc := .advance n })
  | .advance n =>
    match d.nodes[n]?.bind FrontierNode.next with
    | none => some (d, { c with pc := .unlockReader })
    | some m => some (d, { c with pc := .lock m false })
  | .delay n =>
    match d.nodes[n]? with
    | none => none
    | some ν =>
      if ν.locked then none
      else some (d.setNode n (c.op.delay ν), { c with pc := .unlockReader })
  | .unlockReader =>
    some ({ d with words := ⟨d.words.reader - 1, d.words.writer⟩ }, { c with pc := .done })
  | .lockWriter =>
    if d.words.writer then none
    else some ({ d with words := ⟨d.words.reader, true⟩ }, { c with pc := .drainReaders })
  | .drainReaders => if d.words.reader = 0 then some (d, { c with pc := .pop }) else none
  | .pop =>
    match d.head with
    | none => some (d, { c with pc := .release })
    | some h =>
      let head := d.nodes[h]?.bind FrontierNode.next
      some ({ d with head := head, signalled := d.signalled ++ head.toList },
        { c with pc := .release })
  | .release => some ({ d with words := ⟨d.words.reader, false⟩ }, { c with pc := .done })
  | .done => none

/-- The list and the calls on it. -/
structure ListRun where
  list : DbList
  calls : List ListCall

namespace ListRun

inductive Act where
  | call (op : ListOp)
  /-- The `i`-th call makes a step. -/
  | step (i : ℕ)

def next (s : ListRun) : Act → Option ListRun
  | .call op => some { s with calls := s.calls ++ [.start op] }
  | .step i => s.calls[i]?.bind fun c =>
      (s.list.step c).map fun r => ⟨r.1, s.calls.set i r.2⟩

def machine : Machine ListRun Act where
  init s := s = ⟨⟨none, ⟨0, false⟩, [], []⟩, []⟩
  next := next

structure Served (s : ListRun) : Prop where
  accepted : ∀ c ∈ s.calls, c.pc = .done → c.op = .progress ∨ c.node ≠ none
  /-- An accepted access is granted, or waits in a frontier that can be reached from `head`. -/
  registered : ∀ c ∈ s.calls, ∀ n, c.node = some n →
    c.onHead = true ∨ n ∈ s.list.signalled ∨ s.list.Linked n
  writer : ∀ h, s.list.head = some h → ∀ c ∈ s.calls, ∀ c' ∈ s.calls, c.node = some h →
    c'.node = some h → c.op.isWrite = true → c'.op.isWrite = true → c.op.edt = c'.op.edt

end ListRun

end Arts
