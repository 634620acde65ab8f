import Arts.Epoch.Safety
import Arts.Machine.Fifo

/-!
# The connections between the ranks

A queue (`outQueueIdForRank`) is a connection that keeps the order. `Transport` adds to `System`
the connections and the `ARTS_REMOTE_DB_UPDATE_MSG` that a worker sends before it finishes.
-/

namespace Arts

open Option Function

/-- A DB that an EDT releases after writing it. -/
structure DbUpdate (δ β : Type*) where
  edt : EdtGuid
  guid : δ
  /-- The bytes; `arts_remote_update_db` sends none when its rank has no copy of the DB. -/
  payload : Option β
  deriving DecidableEq, Repr

/-- The messages that matter for an epoch. -/
inductive Packet (p : Layout) (δ β : Type*) where
  /-- `ARTS_REMOTE_DB_UPDATE_MSG`. -/
  | dbUpdate (u : DbUpdate δ β)
  /-- `ARTS_EPOCH_REQ_MSG` to a rank. -/
  | epochReq (rank : p.Rank)
  /-- `ARTS_EPOCH_SEND_MSG` to the owner of the epoch. -/
  | epochSend (active finish : UInt32)
  deriving DecidableEq, Repr

/-- What is fixed in a run: the number of ports, the owners of the DBs and the threads. -/
structure Placement (p : Layout) (δ : Type*) where
  /-- `ports`. -/
  ports : ℕ
  ports_pos : 0 < ports
  /-- `arts_guid_get_rank` of a DB. -/
  rankOf : δ → p.Rank
  /-- `arts_thread_info.group_pos` of the worker that runs an EDT. -/
  worker : EdtGuid → ℕ
  /-- `arts_thread_info.group_pos` of the thread that runs the `i`-th call of a rank. -/
  thread : p.Rank → ℕ → ℕ

/-- `out_queue_id_for_rank`. -/
def Placement.outQueueIdForRank {p : Layout} {δ : Type*} (c : Placement p δ)
    (groupPos rank : ℕ) : ℕ :=
  rank * c.ports + groupPos % c.ports

/-- The ranks, the connections and the data. -/
structure Transport (p : Layout) (δ β : Type*) where
  sys : System p EdtGuid
  /-- What a rank has sent and nobody has handled, in the order of sending: the queue and the
  message. -/
  out : p.Rank → List (ℕ × Packet p δ β)
  /-- The bytes of the DBs that their owners have in the route table. -/
  stored : δ → Option β
  /-- What the EDTs of a rank have released, the latest one first. -/
  released : p.Rank → List (DbUpdate δ β)
  /-- What was released on a rank and is handled by the owner of the DB, the latest one first. -/
  arrived : p.Rank → List (DbUpdate δ β)

inductive Transport.Event (p : Layout) (δ β : Type*) where
  /-- `increment_active_epoch` on a rank, for a new EDT. -/
  | activate (r : p.Rank) (edt : EdtGuid)
  /-- `increment_queue_epoch` on a rank. -/
  | enqueue (r : p.Rank) (edt : EdtGuid)
  | release (r : p.Rank) (u : DbUpdate δ β)
  /-- An EDT ends on a rank: `increment_finished_epoch` starts. -/
  | finish (r : p.Rank) (edt : EdtGuid)
  | step (r : p.Rank) (i : ℕ) (finishFirst : Bool)
  /-- The `k`-th message in flight from a rank is handled. -/
  | deliver (r : p.Rank) (k : ℕ)
  deriving DecidableEq, Repr

namespace Packet

variable {p : Layout} {δ β : Type*}

def dest (c : Placement p δ) : Packet p δ β → ℕ
  | .dbUpdate u => c.rankOf u.guid
  | .epochReq rank => rank
  | .epochSend _ _ => p.origin

def ofOut : Out → Option (Packet p δ β)
  | .epochReq rank => if h : rank < p.rankCount.toNat then some (.epochReq ⟨rank, h⟩) else none
  | .epochSend a f => some (.epochSend a f)
  | _ => none

def update? : Packet p δ β → Option (DbUpdate δ β)
  | .dbUpdate u => some u
  | _ => none

def req? : Packet p δ β → Option p.Rank
  | .epochReq rank => some rank
  | _ => none

def send? : Packet p δ β → Option (UInt32 × UInt32)
  | .epochSend a f => some (a, f)
  | _ => none

end Packet

namespace Transport

variable {p : Layout} {δ β : Type*}

def send (c : Placement p δ) (s : Transport p δ β) (r : p.Rank) (groupPos : ℕ)
    (m : Packet p δ β) : Transport p δ β :=
  { s with
    out := update s.out r
      (s.out r ++ [(c.outQueueIdForRank groupPos (m.dest c), m)]) }

/-- `arts_remote_handle_update_db`: the bytes are copied if the owner has the DB. -/
def handleUpdateDb [DecidableEq δ] (s : Transport p δ β) (r : p.Rank) (u : DbUpdate δ β) :
    Transport p δ β :=
  { s with
    stored := match u.payload with
      | none => s.stored
      | some bytes => update s.stored u.guid ((s.stored u.guid).map fun _ => bytes)
    arrived := update s.arrived r (u :: s.arrived r) }

/-- The release of a written DB. On the owner of the DB the bytes are in place; elsewhere
`arts_remote_update_db` sends them. -/
def release [DecidableEq δ] (c : Placement p δ) (s : Transport p δ β) (r : p.Rank)
    (u : DbUpdate δ β) : Transport p δ β :=
  let t := { s with released := update s.released r (u :: s.released r) }
  if c.rankOf u.guid = r then t.handleUpdateDb r u
  else t.send c r (c.worker u.edt) (.dbUpdate u)

/-- What the next access of the `i`-th call of a rank sends. -/
def message (s : Transport p δ β) (r : p.Rank) (i : ℕ) (ff : Bool) : Option (Packet p δ β) :=
  ((s.sys.node r).calls[i]?.bind fun d =>
    (d.step (p.config r) ff (s.sys.node r).epoch).2.2).bind Packet.ofOut

/-- The detection handles a request or a report, the `k`-th message in flight from a rank. -/
def handle (s : Transport p δ β) (r : p.Rank) (k : ℕ) :
    Packet p δ β → Option (System p EdtGuid)
  | .dbUpdate _ => some s.sys
  | .epochReq rank => s.sys.next (.deliverReq rank)
  | .epochSend _ _ =>
    s.sys.next (.deliverSend r (((s.out r).take k).filterMap (Packet.send? ·.2)).length)

def next [DecidableEq δ] (c : Placement p δ) (s : Transport p δ β) :
    Event p δ β → Option (Transport p δ β)
  | .activate r edt => (s.sys.next (.activate r edt)).map fun sys => { s with sys }
  | .enqueue r edt => (s.sys.next (.enqueue r edt)).map fun sys => { s with sys }
  | .release r u => if u.edt ∈ (s.sys.node r).ready then some (s.release c r u) else none
  | .finish r edt =>
    -- the worker of the EDT runs the call
    if (s.sys.node r).present = true → c.thread r (s.sys.node r).calls.length = c.worker edt then
      (s.sys.next (.finish r edt)).map fun sys => { s with sys }
    else none
  | .step r i ff =>
    (s.sys.next (.step r i ff)).map fun sys =>
      match s.message r i ff with
      | none => { s with sys }
      | some m => { s with sys }.send c r (c.thread r i) m
  | .deliver r k =>
    match (s.out r)[k]? with
    | none => none
    | some (_, m) =>
      if Fifo.IsNext (s.out r) k then
        (s.handle r k m).map fun sys =>
          let t := { s with sys, out := update s.out r ((s.out r).eraseIdx k) }
          match m with
          | .dbUpdate u => t.handleUpdateDb r u
          | _ => t
      else none

/-- The machine. The epoch is new, and nothing is in flight. -/
def machine [DecidableEq δ] (c : Placement p δ) : Machine (Transport p δ β) (Event p δ β) where
  init s := (System.machine p).init s.sys ∧ s.out = (fun _ => []) ∧ s.released = (fun _ => []) ∧
    s.arrived = fun _ => []
  next := next c

/-! ### What an event does -/

section Next

variable [DecidableEq δ] {c : Placement p δ} {s s' : Transport p δ β} {r : p.Rank}

lemma next_activate {edt : EdtGuid} : s.next c (.activate r edt) = some s' ↔
    ∃ sys, s.sys.next (.activate r edt) = some sys ∧ s' = { s with sys } := by
  simp [next, eq_comm]

lemma next_enqueue {edt : EdtGuid} : s.next c (.enqueue r edt) = some s' ↔
    ∃ sys, s.sys.next (.enqueue r edt) = some sys ∧ s' = { s with sys } := by
  simp [next, eq_comm]

lemma next_release {u : DbUpdate δ β} : s.next c (.release r u) = some s' ↔
    u.edt ∈ (s.sys.node r).ready ∧ s' = s.release c r u := by
  simp [next, eq_comm]

lemma next_finish {edt : EdtGuid} (hst : s.next c (.finish r edt) = some s') :
    ∃ sys, s.sys.next (.finish r edt) = some sys ∧ s' = { s with sys } := by
  obtain ⟨-, hst⟩ := ite_none_right_eq_some.1 hst
  simpa [eq_comm] using hst

lemma next_step {i : ℕ} {ff : Bool} (hst : s.next c (.step r i ff) = some s') :
    ∃ sys, s.sys.next (.step r i ff) = some sys ∧
      (s.message r i ff = none ∧ s' = { s with sys } ∨
        ∃ m, s.message r i ff = some m ∧ s' = { s with sys }.send c r (c.thread r i) m) := by
  simp only [next, map_eq_some_iff] at hst
  obtain ⟨sys, hsys, rfl⟩ := hst
  refine ⟨sys, hsys, ?_⟩
  cases hm : s.message r i ff with
  | none => exact .inl ⟨rfl, rfl⟩
  | some m => exact .inr ⟨m, rfl, rfl⟩

/-- A message is handled: a DB update by the owner of the DB, all others by the detection. -/
theorem next_deliver {k : ℕ} (hst : s.next c (.deliver r k) = some s') :
    ∃ q m sys, (s.out r)[k]? = some (q, m) ∧ Fifo.IsNext (s.out r) k ∧
      s.handle r k m = some sys ∧
      ((∃ u, m = .dbUpdate u ∧ s' = { s with
          sys, out := update s.out r ((s.out r).eraseIdx k) }.handleUpdateDb r u) ∨
        (m.update? = none ∧ s' = { s with
          sys, out := update s.out r ((s.out r).eraseIdx k) })) := by
  simp only [next] at hst
  split at hst
  · cases hst
  · rename_i q m hm
    obtain ⟨hnext, hst⟩ := ite_none_right_eq_some.1 hst
    obtain ⟨sys, hsys, rfl⟩ := map_eq_some_iff.1 hst
    refine ⟨q, m, sys, hm, hnext, hsys, ?_⟩
    cases m with
    | dbUpdate u => exact .inl ⟨u, rfl, rfl⟩
    | epochReq rank | epochSend a f => exact .inr ⟨rfl, rfl⟩

end Next

end Transport

end Arts
