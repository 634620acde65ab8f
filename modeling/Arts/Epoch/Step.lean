import Arts.Epoch.Basic

/-!
# The atomic steps of the epoch functions

Each function of `termination.c` is cut into its accesses to the shared record; a *program counter*
holds the live variables. Accesses made only to print a log line are left out.
-/

namespace Arts

/-- The rank that runs the code, the number of ranks and the owner of the epoch. -/
structure Config where
  /-- `arts_global_rank_count`. -/
  rankCount : UInt32
  /-- `arts_global_rank_id`. -/
  rankId : ℕ
  /-- `arts_guid_get_rank(epoch_guid)`. -/
  origin : ℕ
  deriving DecidableEq, Repr

/-- What a step does outside the epoch record. -/
inductive Out where
  /-- `arts_remote_epoch_req`: an `ARTS_EPOCH_REQ_MSG` to a rank. -/
  | epochReq (rank : ℕ)
  /-- `arts_remote_epoch_send`: an `ARTS_EPOCH_SEND_MSG` to the owner. -/
  | epochSend (active finish : UInt32)
  /-- `arts_signal_edt_value`: the epoch fires and signals its exit EDT. -/
  | signalEdtValue (edt : Guid) (slot value : UInt32)
  /-- `arts_shutdown_epoch_fire`: the epoch fires without an exit EDT. -/
  | shutdownEpochFire (guid : Guid)
  /-- `delete_epoch`. -/
  | deleteEpoch
  deriving DecidableEq, Repr

/-- The epoch fires: the exit EDT is signalled if there is one, else a shutdown is tried. -/
def Epoch.fire (e : Epoch) (value : UInt32) : Out :=
  if e.terminationExitGuid ≠ Guid.null then
    .signalEdtValue e.terminationExitGuid e.terminationExitSlot value
  else .shutdownEpochFire e.guid

/-- The request that `broadcast_epoch_request` sends in iteration `i`. -/
def broadcastReq (cfg : Config) (i : ℕ) : Option Out :=
  if i ≠ cfg.origin then some (.epochReq i) else none

/-! ### `increment_finished_epoch_impl` -/

/-- Program counter of `increment_finished_epoch_impl`. -/
inductive FinishPc where
  /-- `__sync_fetch_and_add(&epoch->epoch_counts, 1)`. -/
  | add
  /-- One rank: the compare-and-swap of `phase` from `PHASE_1` to `PHASE_3`. -/
  | casPhase (newFinished : UInt32)
  /-- One rank: the store of `completed`. -/
  | complete (newFinished : UInt32)
  | fire (newFinished : UInt32)
  /-- One rank: `delete_epoch`. -/
  | delete
  /-- Owner: `arts_atomic_sub_u64(&epoch->queued, 1)`. -/
  | subQueued
  /-- Owner: the compare-and-swap of `outstanding` from `0` to the rank count. -/
  | casOutstanding
  /-- Owner: iteration `i` of the broadcast. -/
  | broadcast (i : ℕ)
  /-- Other rank: `local = epoch->queued`. -/
  | load (curActive newFinished : UInt32)
  /-- Other rank: the compare-and-swap of `queued` from `local`. -/
  | cas (curActive newFinished : UInt32) (loc : UInt64)
  /-- Other rank: `arts_remote_epoch_send`. -/
  | send (curActive newFinished : UInt32)
  | done
  deriving DecidableEq, Repr

/-- Where `increment_finished_epoch_impl` goes after the add, given the word before it. -/
def FinishPc.afterAdd (cfg : Config) (prev : UInt64) : FinishPc :=
  let nf := newFinished prev
  let ca := activeHalf prev
  if cfg.rankCount = 1 then
    if nf > 0 ∧ nf = ca then .casPhase nf else .done
  else if cfg.origin = cfg.rankId then .subQueued
  else .load ca nf

/-- One step of `increment_finished_epoch_impl`. -/
def finishStep (cfg : Config) (e : Epoch) : FinishPc → Epoch × FinishPc × Option Out
  | .add => ({ e with epochCounts := e.epochCounts + 1 }, .afterAdd cfg e.epochCounts, none)
  | .casPhase nf =>
    if e.phase = .phase1 then ({ e with phase := .phase3 }, .complete nf, none)
    else (e, .done, none)
  | .complete nf => ({ e with completed := true }, .fire nf, none)
  | .fire nf => (e, .delete, some (e.fire nf))
  | .delete => (e, .done, some .deleteEpoch)
  | .subQueued =>
    ({ e with queued := e.queued - 1 }, if e.queued - 1 = 0 then .casOutstanding else .done, none)
  | .casOutstanding =>
    if e.outstanding = 0 then
      ({ e with outstanding := cfg.rankCount.toUInt64 }, .broadcast 0, none)
    else (e, .done, none)
  | .broadcast i =>
    (e, if i + 1 < cfg.rankCount.toNat then .broadcast (i + 1) else .done, broadcastReq cfg i)
  | .load ca nf => (e, .cas ca nf e.queued, none)
  | .cas ca nf loc =>
    if loc = 1 then
      if e.queued = 1 then ({ e with queued := epochBit }, .send ca nf, none)
      else (e, .load ca nf, none)
    else
      if e.queued = loc then ({ e with queued := loc - 1 }, .done, none)
      else (e, .load ca nf, none)
  | .send ca nf => (e, .done, some (.epochSend ca nf))
  | .done => (e, .done, none)

/-! ### `send_epoch` -/

/-- Program counter of `send_epoch`. -/
inductive SendPc where
  /-- `arts_atomic_fetch_and_u64(&epoch->queued, EPOCH_MASK)`. -/
  | mask
  /-- The compare-and-swap of `queued` from `0` to `EPOCH_BIT`. -/
  | cas
  /-- The evaluation of the arguments `EPOCH_ACTIVE(epoch)` and `EPOCH_FINISHED(epoch)`; the
  ones evaluated so far are given. -/
  | read (active finish : Option UInt32)
  /-- `arts_remote_epoch_send`. -/
  | send (active finish : UInt32)
  | done
  deriving DecidableEq, Repr

/-- One step of `send_epoch`. C leaves the order in which arguments are evaluated open:
`finishFirst` chooses it. -/
def sendStep (finishFirst : Bool) (e : Epoch) : SendPc → Epoch × SendPc × Option Out
  | .mask => ({ e with queued := e.queued &&& epochMask }, .cas, none)
  | .cas =>
    if e.queued = 0 then ({ e with queued := epochBit }, .read none none, none)
    else (e, .done, none)
  | .read none none =>
    (e, if finishFirst then .read none (some e.finished) else .read (some e.active) none, none)
  | .read (some a) none => (e, .send a e.finished, none)
  | .read none (some f) => (e, .send e.active f, none)
  | .read (some a) (some f) => (e, .send a f, none)
  | .send a f => (e, .done, some (.epochSend a f))
  | .done => (e, .done, none)

/-! ### `reduce_epoch` -/

/-- Program counter of `reduce_epoch`; `ta` and `tf` are `total_active` and `total_finish`. -/
inductive ReducePc where
  /-- The test `epoch->outstanding <= 1`. -/
  | test
  /-- `arts_atomic_add(&epoch->global_active_count, active)`. -/
  | addActive
  /-- `arts_atomic_add(&epoch->global_finished_count, finish)`. -/
  | addFinish (ta : UInt32)
  /-- `outstanding_before = epoch->outstanding`. -/
  | load (ta tf : UInt32)
  /-- The round is closed: take the active count back. -/
  | undoActive
  /-- The round is closed: take the finished count back. -/
  | undoFinish
  /-- The compare-and-swap of `outstanding`. -/
  | cas (ta tf : UInt32) (before : UInt64)
  /-- `total_active += EPOCH_ACTIVE(epoch)`. -/
  | readActive (ta tf : UInt32)
  /-- `total_finish += EPOCH_FINISHED(epoch)`. -/
  | readFinish (ta tf : UInt32)
  /-- `epoch->global_active_count = 0`. -/
  | resetActive (ta tf : UInt32)
  /-- `epoch->global_finished_count = 0`. -/
  | resetFinish (ta tf : UInt32)
  /-- The call `check_epoch(epoch, total_active, total_finish)` up to its first access. -/
  | check (ta tf : UInt32)
  /-- `epoch->last_active_count == total_active`. -/
  | testLastActive (ta tf : UInt32)
  /-- `epoch->last_finished_count == total_finish`. -/
  | testLastFinish (ta tf : UInt32)
  /-- The compare-and-swap of `phase` from `PHASE_2` to `PHASE_3`. -/
  | casPhase (tf : UInt32)
  /-- The store of `completed`. -/
  | complete (tf : UInt32)
  | fire (tf : UInt32)
  /-- `epoch->last_active_count = total_active`. -/
  | recordActive (ta tf : UInt32)
  /-- `epoch->last_finished_count = total_finish`. -/
  | recordFinish (tf : UInt32)
  /-- `epoch->phase = PHASE_2`. -/
  | setPhase2
  /-- `return (epoch->queued == 0)`. -/
  | readQueued
  /-- `check_epoch` returned true: `arts_atomic_add_u64(&epoch->outstanding, rank_count - 1)`. -/
  | openRound
  /-- Iteration `i` of the broadcast. -/
  | broadcast (i : ℕ)
  /-- `check_epoch` returned false: `arts_atomic_sub_u64(&epoch->outstanding, 1)`. -/
  | closeRound
  /-- The test `epoch->phase == PHASE_3`. -/
  | testPhase
  /-- `delete_epoch`. -/
  | delete
  | done
  deriving DecidableEq, Repr

/-- The first access of `check_epoch`: a balanced round goes on to the confirmation (or, with one
rank, fires at once), any other round falls back to `PHASE_1`. -/
def checkStep (cfg : Config) (e : Epoch) (ta tf : UInt32) : Epoch × ReducePc :=
  if tf ≠ 0 ∧ ta - tf = 0 then
    if cfg.rankCount = 1 then
      if e.phase = .phase1 then ({ e with phase := .phase3 }, .complete tf) else (e, .closeRound)
    else if e.phase = .phase2 then (e, .testLastActive ta tf)
    else (e, .recordActive ta tf)
  else ({ e with phase := .phase1 }, .readQueued)

/-- One step of `reduce_epoch(epoch_guid, active, finish)`. -/
def reduceStep (cfg : Config) (active finish : UInt32) (e : Epoch) :
    ReducePc → Epoch × ReducePc × Option Out
  | .test => (e, if e.outstanding ≤ 1 then .done else .addActive, none)
  | .addActive =>
    ({ e with globalActiveCount := e.globalActiveCount + active },
      .addFinish (e.globalActiveCount + active), none)
  | .addFinish ta =>
    ({ e with globalFinishedCount := e.globalFinishedCount + finish },
      .load ta (e.globalFinishedCount + finish), none)
  | .load ta tf => (e, if e.outstanding ≤ 1 then .undoActive else .cas ta tf e.outstanding, none)
  | .undoActive =>
    ({ e with globalActiveCount := e.globalActiveCount - active }, .undoFinish, none)
  | .undoFinish =>
    ({ e with globalFinishedCount := e.globalFinishedCount - finish }, .done, none)
  | .cas ta tf before =>
    if e.outstanding = before then
      ({ e with outstanding := before - 1 }, if before - 1 = 1 then .readActive ta tf else .done,
        none)
    else (e, .load ta tf, none)
  | .readActive ta tf => (e, .readFinish (ta + e.active) tf, none)
  | .readFinish ta tf => (e, .resetActive ta (tf + e.finished), none)
  | .resetActive ta tf => ({ e with globalActiveCount := 0 }, .resetFinish ta tf, none)
  | .resetFinish ta tf => ({ e with globalFinishedCount := 0 }, .check ta tf, none)
  | .check ta tf => ((checkStep cfg e ta tf).1, (checkStep cfg e ta tf).2, none)
  | .testLastActive ta tf =>
    (e, if e.lastActiveCount = ta then .testLastFinish ta tf else .recordActive ta tf, none)
  | .testLastFinish ta tf =>
    (e, if e.lastFinishedCount = tf then .casPhase tf else .recordActive ta tf, none)
  | .casPhase tf =>
    if e.phase = .phase2 then ({ e with phase := .phase3 }, .complete tf, none)
    else (e, .closeRound, none)
  | .complete tf => ({ e with completed := true }, .fire tf, none)
  | .fire tf => (e, .closeRound, some (e.fire tf))
  | .recordActive ta tf => ({ e with lastActiveCount := ta }, .recordFinish tf, none)
  | .recordFinish tf => ({ e with lastFinishedCount := tf }, .setPhase2, none)
  | .setPhase2 => ({ e with phase := .phase2 }, .openRound, none)
  | .readQueued => (e, if e.queued = 0 then .openRound else .closeRound, none)
  | .openRound =>
    ({ e with outstanding := e.outstanding + (cfg.rankCount - 1).toUInt64 }, .broadcast 0, none)
  | .broadcast i =>
    (e, if i + 1 < cfg.rankCount.toNat then .broadcast (i + 1) else .testPhase,
      broadcastReq cfg i)
  | .closeRound => ({ e with outstanding := e.outstanding - 1 }, .testPhase, none)
  | .testPhase => (e, if e.phase = .phase3 then .delete else .done, none)
  | .delete => (e, .done, some .deleteEpoch)
  | .done => (e, .done, none)

end Arts
