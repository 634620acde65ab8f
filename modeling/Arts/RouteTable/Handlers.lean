import Arts.Db.Owner
import Arts.RouteTable.Item

/-!
# The references to a datablock on one rank

The functions of `handler.c`, `out_of_order.c` and `db.c` that handle a message or a step of an EDT,
each run to completion. Messages that are sent are left out.
-/

namespace Arts

/-- `arts_db_types_t` -/
inductive DbType where
  | dbDefault
  | dbLocal
  | dbGpu
  | dbLc
  deriving DecidableEq

/-- A datablock as seen from a rank. -/
structure DbSite where
  guid : Guid
  dbType : DbType
  self : ℕ
  /-- `arts_global_rank_count` -/
  ranks : ℕ

/-- `arts_guid_is_local`: the rank owns the datablock. -/
def DbSite.isLocal (e : DbSite) : Bool := e.guid.getRank.toNat == e.self

/-- What is deferred until the datablock is there. -/
inductive OoRequest where
  /-- `OO_REMOTE_DB_SEND` -/
  | remoteDbSend (rank : ℕ) (mode : AccessMode) (flags : UInt32)
  /-- `OO_DB_REQUEST_SATISFY` -/
  | dbRequestSatisfy (a : Acquire)
  /-- `OO_DB_FULL_SEND` -/
  | dbFullSend (x : Exclusive)
  /-- `OO_GET_FROM_DB` -/
  | getFromDb
  deriving DecidableEq

/-- What a rank knows about a datablock. -/
structure RankDb where
  item : RouteItem := {}
  /-- The out-of-order list, and whether it refuses further entries. -/
  ooList : List OoRequest := []
  isFired : Bool := false
  /-- `db_list`; it may be `NULL`. -/
  frontiers : Option (List Frontier) := none
  held : List Acquire := []
  /-- The EDTs in whose `created_db_list` it is. -/
  creators : List EdtGuid := []
  deriving DecidableEq

/-- `arts_wait_reacquire_dbs`: seal the head, or a new frontier if there is none. -/
def reacquireFrontier : List Frontier → List Frontier
  | [] => [{ writeSet := true }]
  | f :: fs => { f with writeSet := true } :: fs

namespace RankDb

variable (e : DbSite)

/-! ### References -/

/-- `arts_route_table_lookup_db` -/
def lookupDb (w : RankDb) : RankDb × Bool :=
  let r := w.item.lookupDb e.guid
  ({ w with item := r.1 }, r.2)

/-- `arts_route_table_return_db` -/
def returnDb (w : RankDb) : RankDb := { w with item := w.item.returnDb e.guid }

/-- A slot gets the datablock, with a reference of its own. -/
def grant (w : RankDb) (a : Acquire) : RankDb :=
  let w := (w.lookupDb e).1
  { w with held := w.held ++ [a] }

/-- `arts_db_request_callback`; without a datablock the slot is emptied. -/
def dbRequestCallback (w : RankDb) (a : Acquire) (found : Bool) : RankDb :=
  if found then w.grant e a else w

/-! ### Frontiers -/

/-- `arts_add_db_duplicate_ex`: whether the rank is new in its frontier, and whether this is the
head. -/
def addDbDuplicate (w : RankDb) (rank : ℕ) (edt : Option EdtGuid) (slot : UInt32)
    (mode : AccessMode) (flags : UInt32) : RankDb × Bool × Bool :=
  if e.dbType = .dbLocal then (w, true, true)
  else
    let r := addDbDuplicateEx e.self (w.frontiers.getD [{}]) rank edt slot mode flags
    ({ w with frontiers := some r.frontiers }, r.unique, r.onHead)

/-- `arts_remote_db_send_check` -/
def remoteDbSendCheck (w : RankDb) (rank : ℕ) (mode : AccessMode) (flags : UInt32) : RankDb :=
  if e.isLocal then (w.addDbDuplicate e rank none 0 mode flags).1 else w.returnDb e

/-- `arts_remote_db_full_send_check` -/
def remoteDbFullSendCheck (w : RankDb) (x : Exclusive) : RankDb :=
  if e.isLocal then
    let r := w.addDbDuplicate e x.node (some x.acquire.edt) x.acquire.slot x.acquire.mode 0
    if r.2.1 && r.2.2 then
      { r.1 with
        frontiers := r.1.frontiers.map (clearExclusiveRequest x.node x.acquire.edt) }
    else r.1
  else w.returnDb e

/-! ### The out-of-order list -/

/-- `arts_out_of_order_handler` -/
def outOfOrderHandler (w : RankDb) : OoRequest → RankDb
  | .remoteDbSend rank mode flags => w.remoteDbSendCheck e rank mode flags
  | .dbRequestSatisfy a => w.dbRequestCallback e a w.item.data.isSome
  | .dbFullSend x => w.remoteDbFullSendCheck e x
  | .getFromDb => if (w.lookupDb e).2 then (w.lookupDb e).1.returnDb e else w

/-- `arts_route_table_fire_oo` -/
def fireOo (w : RankDb) : RankDb :=
  if w.item.found e.guid .availableKey then
    w.ooList.foldl (outOfOrderHandler e) { w with ooList := [], isFired := true }
  else w

/-- `arts_out_of_order_list_add_item`: whether the list took the entry. -/
def addItem (w : RankDb) (q : OoRequest) : RankDb × Bool :=
  if w.isFired then (w, false) else ({ w with ooList := w.ooList ++ [q] }, true)

/-- `arts_route_table_add_oo` -/
def addOo (w : RankDb) (q : OoRequest) (inc : Bool) : RankDb × Bool :=
  let r := w.item.reserveItemRace e.guid true
  let w := { w with item := if inc then (r.1.incItem 1 r.1.key).1 else r.1 }
  if r.2 || checkItemState r.1.lock .reservedKey then w.addItem q else (w, false)

/-- `arts_out_of_order_handle_remote_db_send` -/
def handleRemoteDbSend (w : RankDb) (rank : ℕ) (mode : AccessMode) (flags : UInt32) : RankDb :=
  let r := w.addOo e (.remoteDbSend rank mode flags) false
  if r.2 then r.1
  else
    let s := r.1.lookupDb e
    if s.2 then (s.1.remoteDbSendCheck e rank mode flags).returnDb e else s.1

/-- `arts_out_of_order_handle_remote_db_full_send` -/
def handleRemoteDbFullSend (w : RankDb) (x : Exclusive) : RankDb :=
  let r := w.addOo e (.dbFullSend x) false
  if r.2 then r.1
  else
    let s := r.1.lookupDb e
    if s.2 then (s.1.remoteDbFullSendCheck e x).returnDb e else s.1

/-- `arts_out_of_order_handle_db_request` -/
def handleDbRequest (w : RankDb) (a : Acquire) : RankDb :=
  let r := w.addOo e (.dbRequestSatisfy a) true
  if r.2 then r.1
  else
    let s := r.1.lookupDb e
    let w := s.1.dbRequestCallback e a s.2
    if s.2 then w.returnDb e else w

/-- `arts_remote_db_request`, that is `arts_route_table_add_sent`. -/
def remoteDbRequest (w : RankDb) (a : Acquire) : RankDb :=
  let item :=
    if e.isLocal then w.item.markRequested.1
    else
      let r := w.item.reserveItemRace e.guid true
      if r.2 then r.1 else (r.1.incItem 1 r.1.key).1
  let r := { w with item := item }.addItem (.dbRequestSatisfy a)
  if r.2 then r.1 else r.1.dbRequestCallback e a item.data.isSome

/-! ### Progress of the frontiers -/

/-- What serving a frontier does on this rank. -/
def notice (w : RankDb) : Notice → RankDb
  | .grant a => w.grant e a
  | .request _ a => w.remoteDbRequest e a
  | _ => w

/-- `arts_progress_frontier`: the data are on the rank `rank`. -/
def progressFrontier (w : RankDb) (rank : ℕ) : RankDb :=
  match w.frontiers with
  | none => w
  | some fs =>
    let r := Arts.progressFrontier e.self rank fs
    r.2.foldl (notice e) { w with frontiers := some r.1 }

/-! ### Messages -/

/-- `DB_REQUEST`: `arts_remote_db_send`. -/
def remoteDbSend (w : RankDb) (rank : ℕ) (mode : AccessMode) (flags : UInt32) : RankDb :=
  if (w.item.lookupRank e.guid).any (· != e.self) then w
  else
    let r := w.lookupDb e
    if !r.2 then r.1.handleRemoteDbSend e rank mode flags
    else if !e.isLocal && rank == e.self then (r.1.fireOo e).returnDb e
    else (r.1.remoteDbSendCheck e rank mode flags).returnDb e

/-- `DB_FULL_REQUEST`: `arts_remote_db_full_send`. -/
def remoteDbFullSend (w : RankDb) (x : Exclusive) : RankDb :=
  if (w.item.lookupRank e.guid).any (· != e.self) then w
  else
    let r := w.lookupDb e
    if !r.2 then r.1.handleRemoteDbFullSend e x else (r.1.remoteDbFullSendCheck e x).returnDb e

/-- The frontier list of a datablock that has just arrived. -/
def newDbList : Option (List Frontier) :=
  if e.isLocal && e.dbType != .dbLocal then some [{}] else none

/-- `DB_SEND`: `arts_remote_handle_db_received`; `sameSize` says whether a copy that is there has the
size of the one that arrives. -/
def handleDbReceived (w : RankDb) (sameSize : Bool) : RankDb :=
  let r := w.item.lookupItemWithState e.guid .allocatedKey true
  let w := { w with item := r.1 }
  match r.2 with
  | .requestedKey =>
    if w.item.data.isSome && sameSize then
      { w with item := w.item.updateItem e.guid w.item.data e.self .requestedKey }.fireOo e
    else w
  | .reservedKey =>
    { w with
      item := w.item.updateItem e.guid (some 1) e.self .reservedKey
      frontiers := newDbList e }.fireOo e
  | _ =>
    let s := w.item.addItemRace e.guid e.self
    if s.2 then { w with item := s.1, frontiers := newDbList e }.fireOo e
    else { w with item := s.1 }

/-- `DB_FULL_SEND`: `arts_remote_handle_db_full_recieved`; `edt` says whether the EDT is found. -/
def handleDbFullReceived (w : RankDb) (a : Acquire) (edt : Bool) : RankDb :=
  let r := w.item.reserve e.guid
  let w := { w with
    item := r.1.updateItem e.guid (some (r.1.data.getD 1)) e.self r.2
    frontiers := if r.1.data.isSome then w.frontiers else newDbList e }
  let w := w.fireOo e
  if edt then w.dbRequestCallback e a true else w

/-- `DB_FULL_SEND_ALREADY_LOCAL`: `arts_remote_handle_send_already_local`. -/
def handleSendAlreadyLocal (w : RankDb) (a : Acquire) (edt : Bool) : RankDb :=
  let r := w.lookupDb e
  if edt then r.1.dbRequestCallback e a r.2 else r.1

/-- `DB_UPDATE`: `arts_remote_handle_update_db`. -/
def handleUpdateDb (w : RankDb) (rank : ℕ) (data : Bool) : RankDb :=
  if e.isLocal then
    let r := w.item.lookupItemWithState e.guid .allocatedKey data
    let w := { w with item := r.1 }
    if r.2 ≠ .noKey ∧ w.item.data.isSome then
      if data then { w with item := w.item.setRank e.guid e.self }.progressFrontier e e.self
      else w.progressFrontier e rank
    else w
  else w

/-- `DB_UPDATE_GUID`: `arts_remote_handle_update_db_guid`. -/
def handleUpdateDbGuid (w : RankDb) (rank : ℕ) : RankDb :=
  if e.isLocal ∧ w.item.found e.guid .availableKey then
    { w with
      item := { w.item with rank := rank }
      isFired := false
      frontiers := w.frontiers.map fun fs => (closeFrontier fs).1 }
  else w

/-! ### Steps of EDTs -/

/-- `arts_db_create_with_guid` by an EDT: the datablock is published and, in `arts_db_auto_acquire`,
sealed and tracked. -/
def dbCreate (w : RankDb) (edt : EdtGuid) : RankDb :=
  let r := w.item.addItemRace e.guid e.self
  let w :=
    if r.2 then
      let w := { w with item := r.1, frontiers := newDbList e }.fireOo e
      { w with frontiers := w.frontiers.map fun fs => (closeFrontier fs).1 }
    else { w with item := r.1 }
  { w with creators := w.creators ++ [edt] }

/-- `DB_MODE_RW` is `DB_MODE_EW` if there are several ranks. -/
def accessMode (mode : AccessMode) : AccessMode :=
  if mode = .rw ∧ 1 < e.ranks then .ew else mode

/-- `acquire_dbs`, for a slot with the datablock. -/
def acquireDb (w : RankDb) (a : Acquire) (flags : UInt32) : RankDb :=
  let a := { a with mode := accessMode e a.mode }
  let r := w.lookupDb e
  let granted (w : RankDb) : RankDb := { w with held := w.held ++ [a] }
  if r.2 then
    if e.dbType = .dbLocal then granted r.1
    else if a.mode = .lcSync ∧ e.isLocal then granted r.1
    else if e.isLocal then
      let s := r.1.addDbDuplicate e e.self (some a.edt) a.slot a.mode flags
      if r.1.item.rank = e.self ∧ s.2.2 then granted s.1
      else if r.1.item.rank = e.self then s.1.returnDb e
      else if a.mode = .ro ∨ e.dbType = .dbGpu ∨ e.dbType = .dbLc then
        (s.1.remoteDbRequest e a).returnDb e
      else s.1.returnDb e
    else if r.1.item.rank = e.self then granted r.1
    else if a.mode = .ew then r.1.returnDb e
    else (r.1.remoteDbRequest e a).returnDb e
  else if e.isLocal then r.1.handleDbRequest e a
  else if a.mode = .ew then r.1
  else r.1.remoteDbRequest e a

/-- `acquire_dbs`, for a slot with a slice of the datablock. -/
def acquireSlice (w : RankDb) : RankDb :=
  let r := w.lookupDb e
  if r.2 then r.1.returnDb e
  else if e.isLocal then
    let s := r.1.addOo e .getFromDb false
    if s.2 then s.1 else s.1.outOfOrderHandler e .getFromDb
  else r.1

/-- `release_dbs`, for a slot that holds the datablock; `first` says that no earlier slot of the EDT has
released a write access to it. -/
def releaseDb (w : RankDb) (a : Acquire) (first : Bool) : RankDb :=
  let w :=
    if a.mode.isWrite && first && e.dbType != .dbLocal then
      if e.isLocal then w.progressFrontier e e.self
      -- `arts_remote_update_db`
      else if (w.lookupDb e).2 then (w.lookupDb e).1.returnDb e else w
    else w
  let w := w.returnDb e
  { w with held := w.held.erase a }

/-- `arts_release_created_dbs` -/
def releaseCreatedDb (w : RankDb) (edt : EdtGuid) : RankDb :=
  let r := w.lookupDb e
  let w := if r.2 then (r.1.progressFrontier e e.self).returnDb e else r.1
  { w with creators := w.creators.erase edt }

/-- An EDT holds the datablock with a write access. -/
def writes (w : RankDb) (edt : EdtGuid) : Bool := w.held.any fun a => a.edt = edt && a.mode.isWrite

/-- `arts_wait_release_dbs` -/
def waitReleaseDbs (w : RankDb) (edt : EdtGuid) : RankDb :=
  let w :=
    if edt ∈ w.creators then
      let r := w.lookupDb e
      if r.2 then r.1.progressFrontier e e.self else r.1
    else w
  if w.writes edt then w.progressFrontier e e.self else w

/-- `arts_wait_reacquire_dbs` -/
def waitReacquireDbs (w : RankDb) (edt : EdtGuid) : RankDb :=
  let reacquire (w : RankDb) : RankDb := { w with frontiers := w.frontiers.map reacquireFrontier }
  let w :=
    if edt ∈ w.creators then
      let r := w.lookupDb e
      if r.2 then reacquire r.1 else r.1
    else w
  if w.writes edt then reacquire w else w

end RankDb

end Arts
