import Arts.Db.Owner
import Arts.Db.Replica
import Arts.Machine.Calls

/-!
# A datablock on all ranks

The owner has the frontiers and knows the rank with the data (`validRank`); an EDT that finds a copy
is granted it at once. Messages are delivered in any order; handlers, acquires and releases are
single steps.
-/

namespace Arts

/-- What waits for a copy on a rank that does not own the datablock. -/
inductive Waiter where
  /-- `OO_DB_REQUEST_SATISFY`: a slot of an EDT of the rank. -/
  | slot (a : Acquire)
  /-- `OO_REMOTE_DB_SEND`: a `DB_REQUEST` of the rank `node`. -/
  | dbSend (node : ℕ)
  /-- `OO_DB_FULL_SEND`: a `DB_FULL_REQUEST`. -/
  | fullSend (x : Exclusive)
  deriving DecidableEq

/-- The messages, each with the rank to which it goes if that is not always the owner. -/
inductive DbPacket where
  /-- `DB_REQUEST` of the rank `node`. -/
  | dbRequest (dest node : ℕ) (mode : AccessMode) (flags : UInt32)
  /-- `DB_SEND`. -/
  | dbSend (dest : ℕ)
  /-- `DB_FULL_REQUEST`. -/
  | fullRequest (dest : ℕ) (x : Exclusive)
  /-- `DB_FULL_SEND` for a slot. -/
  | fullSend (dest : ℕ) (a : Acquire)
  /-- `DB_FULL_SEND_ALREADY_LOCAL` for a slot. -/
  | alreadyLocal (dest : ℕ) (a : Acquire)
  /-- `DB_UPDATE` of the rank `node`, with or without data. -/
  | update (node : ℕ) (data : Bool)
  /-- `DB_UPDATE_GUID` of the rank `node`. -/
  | updateGuid (node : ℕ)
  /-- `INVALIDATE_DB`. -/
  | invalidate (dest : ℕ)
  deriving DecidableEq

/-- A datablock on all ranks. -/
structure DbSystem where
  frontiers : List Frontier
  /-- The rank in the owner's entry of the route table. -/
  validRank : ℕ
  /-- The owner's entry is in the state `REQUESTED_KEY`. -/
  requested : Bool
  /-- The out-of-order list of the owner's entry has been fired and takes nothing. -/
  fired : Bool
  waiting : List Acquire
  table : ℕ → Replica Waiter Unit
  packets : List DbPacket
  /-- The slots that hold the datablock, with their ranks. -/
  granted : List (ℕ × Acquire)
  /-- The EDT that has created the datablock has not released it. -/
  creating : Bool

namespace DbSystem

def post (s : DbSystem) (p : DbPacket) : DbSystem := { s with packets := s.packets ++ [p] }

/-- `arts_db_request_callback` with the datablock. -/
def grant (s : DbSystem) (rank : ℕ) (a : Acquire) : DbSystem :=
  { s with granted := s.granted ++ [(rank, a)] }

/-- `arts_remote_db_request` on the owner, to the rank that has the data. -/
def request (owner : ℕ) (s : DbSystem) (dest : ℕ) (a : Acquire) (flags : UInt32) : DbSystem :=
  let s' := if s.requested then s
    else { s.post (.dbRequest dest owner a.mode flags) with requested := true }
  if s.fired then s'.grant owner a else { s' with waiting := s'.waiting ++ [a] }

/-- What serving a frontier gives rise to. -/
def notify (owner : ℕ) (s : DbSystem) : Notice → DbSystem
  | .grant a => s.grant owner a
  | .fullSend node a => s.post (.fullSend node a)
  | .send node => s.post (.dbSend node)
  | .alreadyLocal node a => s.post (.alreadyLocal node a)
  | .fullRequest node getFrom a => s.post (.fullRequest getFrom ⟨node, a⟩)
  | .forward node getFrom => s.post (.dbRequest getFrom node .ro 0)
  | .request getFrom a => s.request owner getFrom a 0

def handle (owner : ℕ) (s : DbSystem) (r : List Frontier × List Notice) : DbSystem :=
  r.2.foldl (notify owner) { s with frontiers := r.1 }

/-- `acquire_dbs` for one slot. -/
def acquire (owner : ℕ) (s : DbSystem) (rank : ℕ) (a : Acquire) (flags : UInt32) : DbSystem :=
  if rank = owner then
    -- an entry that is requested is not found, and the slot is satisfied without the datablock
    if s.requested then s
    else if s.validRank = owner then s.handle owner (acquireDb owner s.frontiers a flags)
    else
      let s' := { s with frontiers := (acquireDb owner s.frontiers a flags).1 }
      if a.mode = .ro then s'.request owner s.validRank a flags
      else s'.post (.fullRequest s.validRank ⟨owner, a⟩)
  else if (s.table rank).isAvailable then s.grant rank a
  else if a.mode = .ew then s.post (.fullRequest owner ⟨rank, a⟩)
  else
    let (e, new) := (s.table rank).await (.slot a)
    let s' := { s with table := Function.update s.table rank e }
    if new then s'.post (.dbRequest owner rank a.mode flags) else s'

/-- `INVALIDATE_DB` to the ranks. -/
def invalidateAll (s : DbSystem) (ranks : List ℕ) : DbSystem :=
  { s with packets := s.packets ++ ranks.map .invalidate }

/-- `prep_dbs` for a slot in mode EW: `arts_remote_update_route_table`. -/
def prep (owner : ℕ) (s : DbSystem) (rank : ℕ) : DbSystem :=
  if rank = owner then
    if s.requested then s
    else
      let (fs, ranks) := closeFrontier s.frontiers
      invalidateAll { s with frontiers := fs } (ranks.filter fun r => r != owner)
  else s.post (.updateGuid rank)

def ofEdt (rank : ℕ) (edt : EdtGuid) (p : ℕ × Acquire) : Bool := p.1 == rank && p.2.edt == edt

/-- `release_dbs`: an EDT that has written releases the datablock once. -/
def release (owner : ℕ) (s : DbSystem) (rank : ℕ) (edt : EdtGuid) : DbSystem :=
  let s' := { s with granted := s.granted.filter fun p => !ofEdt rank edt p }
  if s.granted.any fun p => ofEdt rank edt p && p.2.mode.isWrite then
    if rank = owner then s'.handle owner (progressFrontier owner owner s.frontiers)
    else s'.post (.update rank (s.table rank).isAvailable)
  else s'

/-- `arts_release_created_dbs`. -/
def releaseCreated (owner : ℕ) (s : DbSystem) : DbSystem :=
  handle owner { s with creating := false } (progressFrontier owner owner s.frontiers)

/-- `arts_route_table_fire_oo` on the owner, after a copy has arrived. -/
def fire (owner : ℕ) (s : DbSystem) : DbSystem :=
  { s with
    requested := false
    validRank := owner
    fired := true
    waiting := []
    granted := s.granted ++ s.waiting.map fun a => (owner, a) }

/-- `arts_out_of_order_handler` on another rank. -/
def wake (rank : ℕ) (s : DbSystem) : Waiter → DbSystem
  | .slot a => s.grant rank a
  | .dbSend node => s.post (.dbSend node)
  | .fullSend x => s.post (.fullSend x.node x.acquire)

/-- A copy arrives on a rank and what waits for it is served. -/
def install (s : DbSystem) (rank : ℕ) (r : Replica Waiter Unit × List Waiter) : DbSystem :=
  r.2.foldl (wake rank) { s with table := Function.update s.table rank r.1 }

/-- Something waits for a copy on a rank. -/
def awaitCopy (s : DbSystem) (rank : ℕ) (w : Waiter) : DbSystem :=
  { s with table := Function.update s.table rank ((s.table rank).await w).1 }

/-- `arts_remote_db_send`. -/
def handleDbRequest (owner : ℕ) (s : DbSystem) (dest node : ℕ) (mode : AccessMode)
    (flags : UInt32) : DbSystem :=
  if dest = owner then
    if s.requested then s
    else if s.validRank = owner then
      s.handle owner (remoteDbSendCheck owner s.frontiers node mode flags)
    else s.post (.dbRequest s.validRank node mode flags)
  else if (s.table dest).isAvailable then
    if node = dest then s else s.post (.dbSend node)
  else s.awaitCopy dest (.dbSend node)

/-- `arts_remote_db_full_send`. -/
def handleFullRequest (owner : ℕ) (s : DbSystem) (dest : ℕ) (x : Exclusive) : DbSystem :=
  if dest = owner then
    if s.requested then s
    else if s.validRank = owner then s.handle owner (remoteDbFullSendCheck owner s.frontiers x)
    else s.post (.fullRequest s.validRank x)
  else if (s.table dest).isAvailable then s.post (.fullSend x.node x.acquire)
  else s.awaitCopy dest (.fullSend x)

def receive (owner : ℕ) (s : DbSystem) : DbPacket → DbSystem
  | .dbRequest dest node mode flags => s.handleDbRequest owner dest node mode flags
  | .dbSend dest =>
    if dest = owner then if s.requested then s.fire owner else s
    else s.install dest ((s.table dest).received ())
  | .fullRequest dest x => s.handleFullRequest owner dest x
  | .fullSend dest a =>
    if dest = owner then (s.fire owner).grant owner a
    else (s.install dest ((s.table dest).fullReceived ())).grant dest a
  | .alreadyLocal dest a => if (s.table dest).isAvailable then s.grant dest a else s
  | .update node data =>
    handle owner { s with validRank := if data && !s.requested then owner else s.validRank }
      (handleUpdateDb owner s.frontiers node data)
  | .updateGuid node =>
    if s.requested then s
    else
      let (fs, ranks) := closeFrontier s.frontiers
      invalidateAll { s with frontiers := fs, validRank := node, fired := false }
        (ranks.filter fun r => r != owner && r != node)
  | .invalidate dest =>
    { s with table := Function.update s.table dest (s.table dest).invalidate }

inductive Act where
  | acquire (rank : ℕ) (a : Acquire) (flags : UInt32)
  /-- An EDT that writes through the slot is about to run. -/
  | prep (rank : ℕ) (a : Acquire)
  | release (rank : ℕ) (edt : EdtGuid)
  /-- The EDT that has created the datablock releases. -/
  | releaseCreated
  /-- The `i`-th message is handled. -/
  | deliver (i : ℕ)

def next (owner : ℕ) (s : DbSystem) : Act → Option DbSystem
  | .acquire rank a flags =>
    if a.mode = .ro ∨ a.mode = .ew then some (s.acquire owner rank a flags) else none
  | .prep rank a => if (rank, a) ∈ s.granted ∧ a.mode = .ew then some (s.prep owner rank) else none
  | .release rank edt =>
    if ∃ p ∈ s.granted, ofEdt rank edt p = true then some (s.release owner rank edt) else none
  | .releaseCreated => if s.creating then some (s.releaseCreated owner) else none
  | .deliver i => s.packets[i]?.map fun p =>
      receive owner { s with packets := s.packets.eraseIdx i } p

def start (owner : ℕ) : DbSystem where
  frontiers := autoAcquired
  validRank := owner
  requested := false
  fired := true
  waiting := []
  table _ := .absent
  packets := []
  granted := []
  creating := true

def machine (owner : ℕ) : Machine DbSystem Act where
  init s := s = start owner
  next := next owner

/-- **At most one EDT writes**: the slots in mode EW that are granted are of one EDT, and there is
none before the EDT that has created the datablock has released it. -/
structure OneWriter (s : DbSystem) : Prop where
  same : ∀ p ∈ s.granted, ∀ q ∈ s.granted, p.2.mode = .ew → q.2.mode = .ew →
    p.1 = q.1 ∧ p.2.edt = q.2.edt
  created : s.creating = true → ∀ p ∈ s.granted, p.2.mode ≠ .ew

end DbSystem

end Arts
