import Arts.Db.Slice
import Arts.RouteTable.Handlers

/-!
# Getting from and putting into a datablock

`arts_get_from_db`, `arts_put_in_db` and `arts_out_of_order_handle_db_request` on one rank; a
refused call is made again, at most `fuel` times. `marked`: slots of the GUID that are marked for
deletion.
-/

namespace Arts

inductive DbOp where
  /-- `arts_get_from_db_at_ex`; `arts_get_from_db` does not preserve the shape. -/
  | get (edt : Guid) (slot offset size : UInt32) (preserveShape : Bool)
  /-- `arts_put_in_db`, of `data.length` bytes -/
  | put (data : List UInt8) (edt : Guid) (slot offset : UInt32)
  /-- `arts_out_of_order_handle_db_request` -/
  | request (edt : Guid) (slot : UInt32) (inc : Bool)
  deriving DecidableEq

inductive AccessEnd where
  | delivered (edt : Guid) (slot : UInt32) (bytes : List UInt8)
  | unsignalled
  | queued
  | written
  | forwarded (rank : ℕ)
  | deferred
  /-- `arts_db_request_callback` with the datablock -/
  | granted
  /-- `arts_db_request_callback` with `NULL`: the datablock is taken for destroyed. -/
  | emptied
  /-- `ARTS_ERROR` or a failed `assert` -/
  | error
  deriving DecidableEq

structure AccessDb where
  item : RouteItem := {}
  /-- The slots of the GUID that are marked for deletion. -/
  marked : List RouteItem := []
  block : DbBlock
  /-- `db_list`; it may be `NULL`. -/
  frontiers : Option (List Frontier) := none
  /-- The slice requests, with the number of frontiers that are before theirs. -/
  sliceDelayed : List (ℕ × DbOp) := []
  ooList : List DbOp := []
  isFired : Bool := false

/-- What a call does: the state, how it ends, and the ranges (offset and length) of the payload that it
has read or written. -/
structure AccessResult where
  db : AccessDb
  ending : AccessEnd
  touched : List (ℕ × ℕ) := []

namespace AccessDb

variable (e : DbSite)

/-- `arts_route_table_lookup_db` -/
def lookupDb (w : AccessDb) : AccessDb × Bool :=
  let r := w.item.lookupDb e.guid
  ({ w with item := r.1 }, r.2)

/-- `arts_route_table_return_db` -/
def returnDb (w : AccessDb) : AccessDb := { w with item := w.item.returnDb e.guid }

/-- `arts_out_of_order_list_add_item`: whether the list took the entry. -/
def listAddItem (w : AccessDb) (op : DbOp) : AccessDb × Bool :=
  if w.isFired then (w, false) else ({ w with ooList := w.ooList ++ [op] }, true)

/-- `arts_route_table_add_oo` -/
def addOo (w : AccessDb) (op : DbOp) (inc : Bool) : AccessDb × Bool :=
  let r := w.item.reserveItemRace e.guid true
  let w := { w with item := if inc then (r.1.incItem 1 r.1.key).1 else r.1 }
  if r.2 || checkItemState r.1.lock .reservedKey then w.listAddItem op else (w, false)

/-! ### Serving a slice -/

/-- `arts_signal_db_slice` -/
def signalDbSlice (w : AccessDb) (edt : Guid) (slot : UInt32) (s : DbSlice) : AccessResult :=
  match w.block.deliverSlice s with
  | some bytes => ⟨w, .delivered edt slot bytes, [(s.offset, s.size)]⟩
  | none => ⟨w, .error, []⟩

/-- The first frontier that takes a reader; there is one behind the last. -/
def openFrontier (fs : List Frontier) : ℕ := fs.findIdx fun f => !f.writeSet

/-- The frontiers, with a new one if all are sealed. -/
def withOpen (fs : List Frontier) : List Frontier :=
  if openFrontier fs < fs.length then fs else fs ++ [({} : Frontier)]

/-- `arts_request_db_slice`, for an EDT that is named by its GUID. -/
def requestDbSlice (w : AccessDb) (op : DbOp) (edt : Guid) (slot : UInt32) (s : DbSlice) :
    AccessResult :=
  match w.frontiers with
  | none => w.signalDbSlice edt slot s
  | some fs =>
    let w := { w with frontiers := some (withOpen fs) }
    if openFrontier fs = 0 then w.signalDbSlice edt slot s
    else ⟨{ w with sliceDelayed := w.sliceDelayed ++ [(openFrontier fs, op)] }, .queued, []⟩

/-- The slice of a datablock that may be signalled at once. -/
def signalNow (w : AccessDb) (edt : Guid) (slot : UInt32) (s : DbSlice) : AccessResult :=
  if edt = Guid.null then ⟨w, .unsignalled, []⟩
  else if s.preserveShape then
    match w.block.sliceSignalSize s with
    | none => ⟨w, .error, []⟩
    | some n =>
      -- `arts_alloc_db_slice_payload`
      if s.offset ≤ w.block.dataSize ∧ s.size ≤ w.block.dataSize - s.offset then
        ⟨w, .delivered edt slot (w.block.sliceCopy s n), [(s.offset, s.size)]⟩
      else ⟨w, .error, []⟩
  else ⟨w, .delivered edt slot (readMem w.block.bytes s.offset s.size), [(s.offset, s.size)]⟩

/-- `internal_get_from_db`, of a datablock that was found. -/
def serveGet (w : AccessDb) (op : DbOp) (edt : Guid) (slot : UInt32) (s : DbSlice) : AccessResult :=
  if e.dbType = .dbLocal ∨ w.item.rank = e.self ∧ ¬ e.isLocal then w.signalNow edt slot s
  else if w.item.rank = e.self then
    if edt = Guid.null then ⟨w, .error, []⟩ else w.requestDbSlice op edt slot s
  else ⟨w, .forwarded w.item.rank, []⟩

/-- `internal_put_in_db`, of a datablock that was found. -/
def servePut (w : AccessDb) (data : List UInt8) (offset : ℕ) : AccessResult :=
  ⟨{ w with block := { w.block with bytes := writeMem w.block.bytes offset data } }, .written,
    [(offset, data.length)]⟩

/-- An operation on a datablock that was found. -/
def serve (w : AccessDb) (op : DbOp) : AccessResult :=
  match op with
  | .get edt slot offset size shape => w.serveGet e op edt slot ⟨offset.toNat, size.toNat, shape⟩
  | .put data _ _ offset => w.servePut data offset.toNat
  | .request _ _ _ => ⟨(w.lookupDb e).1, .granted, []⟩

end AccessDb

/-- A get that names no EDT. -/
def DbOp.lacksEdt : DbOp → Bool
  | .get edt _ _ _ _ => edt == Guid.null
  | _ => false

namespace AccessDb

variable (e : DbSite)

/-- `arts_out_of_order_handle_db_request` -/
def handleDbRequest (w : AccessDb) (op : DbOp) (inc : Bool) : AccessResult :=
  let r := w.addOo e op inc
  if r.2 then ⟨r.1, .deferred, []⟩
  else
    let s := r.1.lookupDb e
    if s.2 then
      let a := s.1.serve e op
      { a with db := a.db.returnDb e }
    else ⟨s.1, .emptied, []⟩

/-- `internal_get_from_db` and `internal_put_in_db` on the rank that they name, with a bound on how
often they are called; a request is not called again. -/
def access : ℕ → AccessDb → DbOp → Option AccessResult
  | 0, _, _ => none
  | fuel + 1, w, op =>
    match op with
    | .request _ _ inc => some (w.handleDbRequest e op inc)
    | _ =>
      let r := w.lookupDb e
      if r.2 then
        let a := r.1.serve e op
        some { a with db := a.db.returnDb e }
      else if op.lacksEdt then some ⟨r.1, .error, []⟩
      else
        -- `arts_out_of_order_get_from_db`, `arts_out_of_order_put_in_db`
        let s := r.1.addOo e op false
        if s.2 then some ⟨s.1, .deferred, []⟩ else access fuel s.1 op

/-- `arts_get_from_db_at_ex` and `arts_put_in_db_at` on the rank `rank`: an operation for another rank is
sent there. -/
def callAt (fuel : ℕ) (rank : ℕ) (w : AccessDb) (op : DbOp) : Option AccessResult :=
  if rank = e.self then w.access e fuel op
  else if op.lacksEdt then some ⟨w, .error, []⟩
  else some ⟨w, .forwarded rank, []⟩

/-- `arts_get_from_db`, `arts_put_in_db` and `arts_out_of_order_handle_db_request`. -/
def call (fuel : ℕ) (w : AccessDb) (op : DbOp) : Option AccessResult :=
  match op with
  | .request _ _ _ => w.access e fuel op
  | _ => w.callAt e fuel e.guid.getRank.toNat op

end AccessDb

end Arts
