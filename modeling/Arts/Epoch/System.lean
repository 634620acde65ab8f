import Arts.Epoch.History
import Arts.Epoch.Reduction
import Arts.Epoch.Reply
import Arts.Detection.TwoWave

/-!
# The ranks of an epoch and the messages between them

Messages are delivered in any order. The owner takes a reply only when the previous `reduce_epoch`
call has returned.
-/

namespace Arts

open Function

/-- At least two ranks, and the owner of the epoch. -/
structure Layout where
  /-- `arts_global_rank_count`. -/
  rankCount : UInt32
  two_le : 2 ≤ rankCount.toNat
  /-- `arts_guid_get_rank(epoch_guid)`. -/
  origin : Fin rankCount.toNat

namespace Layout

variable (p : Layout)

abbrev Rank : Type := Fin p.rankCount.toNat

/-- Two ranks, of which the first owns the epoch. -/
def pair : Layout := ⟨2, by decide, ⟨0, by decide⟩⟩

def config (r : p.Rank) : Config := ⟨p.rankCount, r, p.origin⟩

lemma isOwner : (p.config p.origin).IsOwner := ⟨p.two_le, rfl, p.origin.isLt⟩

variable {p}

lemma isOther {r : p.Rank} (h : r ≠ p.origin) : (p.config r).IsOther :=
  ⟨p.two_le, fun he => h (Fin.ext he.symm)⟩

end Layout

/-- The ranks, the messages in flight and the history of the epoch. -/
structure System (p : Layout) (ε : Type*) where
  node : p.Rank → Node ε
  /-- The number of `ARTS_EPOCH_REQ_MSG` in flight to a rank. -/
  reqs : p.Rank → ℕ
  /-- The `ARTS_EPOCH_SEND_MSG` in flight from a rank. -/
  sends : p.Rank → List (UInt32 × UInt32)
  history : History ε

inductive System.Event (p : Layout) (ε : Type*) where
  /-- `increment_active_epoch` on a rank, for a new EDT. -/
  | activate (r : p.Rank) (edt : ε)
  /-- `increment_queue_epoch` on a rank. -/
  | enqueue (r : p.Rank) (edt : ε)
  /-- An EDT ends on a rank: `increment_finished_epoch` starts. -/
  | finish (r : p.Rank) (edt : ε)
  | step (r : p.Rank) (i : ℕ) (finishFirst : Bool)
  | deliverReq (r : p.Rank)
  /-- The `k`-th reply in flight from a rank arrives at the owner. -/
  | deliverSend (r : p.Rank) (k : ℕ)
  deriving DecidableEq, Repr

/-- The call is a `reduce_epoch` that has not returned. -/
def Call.handling {ε : Type*} : Call ε → ℕ
  | .reduce _ _ .done => 0
  | .reduce _ _ _ => 1
  | _ => 0

namespace Call

variable {ε : Type*}

lemma handling_step (cfg : Config) (ff : Bool) (e : Epoch) (c : Call ε) :
    (c.step cfg ff e).2.1.handling ≤ c.handling := by
  have hle : ∀ a f pc, (Call.reduce a f pc : Call ε).handling ≤ 1 := by
    intro a f pc
    unfold handling
    split <;> omega
  cases c with
  | finish x pc | send pc => exact Nat.zero_le _
  | reduce a f pc =>
    cases pc with
    | done => exact Nat.zero_le _
    | _ => exact hle a f _

variable {k : Side} {c : Call ε}

lemma handling_of_total
    (h : (c.partialTotal k).isSome = true ∨ (c.fullTotal k).isSome = true) : c.handling = 1 := by
  cases c with
  | finish x pc | send pc => simp [partialTotal, fullTotal] at h
  | reduce a f pc => cases pc <;> simp_all [partialTotal, fullTotal, handling]

lemma handling_of_logStep {i : ℕ} {log : AddLog}
    (h : c.logStep k i log ≠ log) : c.handling = 1 := by
  cases c with
  | finish x pc => exact absurd rfl h
  | send pc => exact absurd rfl h
  | reduce a f pc => cases pc <;> first | rfl | exact absurd rfl h

end Call

namespace System

variable {p : Layout} {ε : Type*}

/-- Put the message of a step into the network. -/
def emit (s : System p ε) (r : p.Rank) : Option Out → System p ε
  | some (.epochReq j) =>
    { s with reqs := fun q => if q.val = j then s.reqs q + 1 else s.reqs q }
  | some (.epochSend a f) =>
    { s with sends := update s.sends r (s.sends r ++ [(a, f)]) }
  | _ => s

def act [DecidableEq ε] (s : System p ε) (r : p.Rank) (a : Act ε) : Option (System p ε) :=
  ((s.node r).next (p.config r) a).map fun x =>
    { s with node := update s.node r x.1 }.emit r x.2

/-- The history after a step of the `i`-th call of a rank. -/
def published (s : System p ε) (r : p.Rank) (i : ℕ) : History ε :=
  match (s.node r).calls[i]? with
  | none => s.history
  | some c => s.history.publish c

def next [DecidableEq ε] (s : System p ε) : Event p ε → Option (System p ε)
  | .activate r edt =>
    if s.history.CanActivate edt then
      { s with history := { s.history with activated := edt :: s.history.activated } }.act r .activate
    else none
  | .enqueue r edt =>
    if s.history.CanEnqueue edt then
      { s with history := { s.history with enqueued := edt :: s.history.enqueued } }.act r
        (.enqueue edt)
    else none
  | .finish r edt => s.act r (.finish edt)
  | .step r i ff => { s with history := s.published r i }.act r (.step i ff)
  | .deliverReq r =>
    if 0 < s.reqs r then
      { s with reqs := update s.reqs r (s.reqs r - 1) }.act r .request
    else none
  | .deliverSend r k =>
    match (s.sends r)[k]? with
    | none => none
    | some (a, f) =>
      if weight Call.handling (s.node p.origin).calls = 0 then
        { s with sends := update s.sends r ((s.sends r).eraseIdx k) }.act p.origin
          (.reply a f)
      else none

/-- The system as a machine; the epoch is present on all ranks. -/
def machine [DecidableEq ε] (p : Layout) : Machine (System p ε) (Event p ε) where
  init s := ∃ guid edtGuid slot, s = ⟨fun r => .create guid edtGuid slot (decide (r = p.origin)),
    fun _ => 0, fun _ => [], ⟨[], [], []⟩⟩
  next := next

/-! ### What an event does -/

section Emit

variable {s : System p ε} {r : p.Rank} {out : Option Out}

@[simp] lemma emit_node : (s.emit r out).node = s.node := by
  unfold emit
  split <;> rfl

@[simp] lemma emit_history : (s.emit r out).history = s.history := by
  unfold emit
  split <;> rfl

lemma emit_reqs (h : countRequest out = 0) : (s.emit r out).reqs = s.reqs := by
  unfold emit
  split
  · simp [countRequest] at h
  · rfl
  · rfl

lemma emit_sends_of_ne {q : p.Rank} (h : q ≠ r) : (s.emit r out).sends q = s.sends q := by
  unfold emit
  split
  · rfl
  · exact update_of_ne h _ _
  · rfl

lemma emit_sends_length :
    ((s.emit r out).sends r).length = (s.sends r).length + Served.countReply out := by
  unfold emit
  split
  · rfl
  · simp [Served.countReply]
  · rename_i h
    have : Served.countReply out = 0 := by
      unfold Served.countReply
      split
      · exact absurd rfl (h _ _)
      · rfl
    rw [this, Nat.add_zero]

lemma mem_emit_sends {v : UInt32 × UInt32} (h : v ∈ (s.emit r out).sends r) :
    v ∈ s.sends r ∨ out = some (.epochSend v.1 v.2) := by
  unfold emit at h
  split at h
  · exact .inl h
  · simp only [update_self, List.mem_append, List.mem_singleton] at h
    exact h.imp id fun he => by rw [he]
  · exact .inl h

end Emit

variable [DecidableEq ε] {s s' : System p ε} {r : p.Rank}

lemma act_eq_some {a : Act ε} : s.act r a = some s' ↔
    ∃ n out, (s.node r).next (p.config r) a = some (n, out) ∧
      s' = { s with node := update s.node r n }.emit r out := by
  simp [act, eq_comm]

variable {edt : ε}

lemma next_activate : s.next (.activate r edt) = some s' ↔
    s.history.CanActivate edt ∧ s' = { s with
      node := update s.node r (s.node r).activate
      history := { s.history with activated := edt :: s.history.activated } } := by
  simp only [next]
  split_ifs with h
  · simp [h, act, Node.next, emit, eq_comm]
  · simp [h]

lemma next_enqueue : s.next (.enqueue r edt) = some s' ↔
    s.history.CanEnqueue edt ∧ edt ∉ (s.node r).queueIds ∧ s' = { s with
      node := update s.node r ((s.node r).enqueue edt)
      history := { s.history with enqueued := edt :: s.history.enqueued } } := by
  simp only [next]
  split_ifs with h
  · rw [act_eq_some]
    simp only [Node.next_enqueue, h, true_and]
    constructor
    · rintro ⟨n, out, ⟨hnew, rfl, rfl⟩, rfl⟩
      exact ⟨hnew, rfl⟩
    · rintro ⟨hnew, rfl⟩
      exact ⟨_, _, ⟨hnew, rfl, rfl⟩, rfl⟩
  · simp [h]

lemma next_finish : s.next (.finish r edt) = some s' ↔ edt ∈ (s.node r).ready ∧
      s' = { s with node := update s.node r ((s.node r).finish edt) } := by
  simp only [next, act_eq_some, Node.next_finish]
  constructor
  · rintro ⟨n, out, ⟨hmem, rfl, rfl⟩, rfl⟩
    exact ⟨hmem, rfl⟩
  · rintro ⟨hmem, rfl⟩
    exact ⟨_, _, ⟨hmem, rfl, rfl⟩, rfl⟩

variable {i : ℕ}

lemma next_step {ff : Bool} : s.next (.step r i ff) = some s' ↔
    ∃ c, (s.node r).calls[i]? = some c ∧ c.isDone = false ∧
      s' = { s with
        node := update s.node r ((s.node r).advance (p.config r) i ff c)
        history := s.history.publish c }.emit r (c.step (p.config r) ff (s.node r).epoch).2.2 := by
  simp only [next, act_eq_some, Node.next_step]
  constructor
  · rintro ⟨n, out, ⟨c, hc, hd, rfl, rfl⟩, rfl⟩
    exact ⟨c, hc, hd, by simp [published, hc]⟩
  · rintro ⟨c, hc, hd, rfl⟩
    exact ⟨_, _, ⟨c, hc, hd, rfl, rfl⟩, by simp [published, hc]⟩

lemma next_deliverReq : s.next (.deliverReq r) = some s' ↔ 0 < s.reqs r ∧ s' = { s with
      node := update s.node r ((s.node r).start (.send .mask))
      reqs := update s.reqs r (s.reqs r - 1) } := by
  simp only [next]
  split_ifs with h
  · simp [h, act, Node.next, emit, eq_comm]
  · simp [h]

variable {k : ℕ}

lemma next_deliverSend : s.next (.deliverSend r k) = some s' ↔
    ∃ v, (s.sends r)[k]? = some v ∧ weight Call.handling (s.node p.origin).calls = 0 ∧
      s' = { s with
        node := update s.node p.origin
          ((s.node p.origin).start (.reduce v.1 v.2 .test))
        sends := update s.sends r ((s.sends r).eraseIdx k) } := by
  simp only [next]
  split
  · rename_i h
    simp [h]
  · rename_i a f h
    split_ifs with hfree
    · simp [h, hfree, act, Node.next, emit, eq_comm]
    · simp [hfree]

/-! ### The history -/

/-- The number of EDTs that are enqueued and have not published their finish. -/
def waiting (s : System p ε) : ℕ := ∑ r, (s.node r).waiting

variable {n : Node ε}

omit [DecidableEq ε] in
lemma waiting_add (hnode : s'.node = update s.node r n) :
    s'.waiting + (s.node r).waiting = s.waiting + n.waiting := by
  have := TwoWave.sum_add_of_ne (f := fun q => (s'.node q).waiting)
    fun q hq => by rw [hnode, update_of_ne hq]
  rwa [show s'.node r = n by rw [hnode, update_self]] at this

omit [DecidableEq ε] in
lemma waiting_mono (hnode : s'.node = update s.node r n)
    (hle : n.waiting ≤ (s.node r).waiting) : s'.waiting ≤ s.waiting := by
  have := waiting_add hnode
  omega

omit [DecidableEq ε] in
lemma waiting_le_add (hnode : s'.node = update s.node r n)
    (hle : n.waiting ≤ (s.node r).waiting + k) : s'.waiting ≤ s.waiting + k := by
  have := waiting_add hnode
  omega

omit [DecidableEq ε] in
lemma waiting_add_le (hnode : s'.node = update s.node r n)
    (hle : n.waiting + k ≤ (s.node r).waiting) : s'.waiting + k ≤ s.waiting := by
  have := waiting_add hnode
  omega

omit [DecidableEq ε] in
lemma unpublished_le_waiting {c : Call ε} (hc : (s.node r).calls[i]? = some c) :
    c.unpublished ≤ s.waiting := by
  have h1 := le_weight_of_getElem? Call.unpublished hc
  have h2 := Finset.single_le_sum (f := fun q => (s.node q).waiting) (fun _ _ => Nat.zero_le _)
    (Finset.mem_univ r)
  simp only [waiting, Node.waiting] at h2 ⊢
  omega

variable {e : Event p ε}

lemma ok_next (h : s.history.Ok s.waiting) (hst : s.next e = some s') :
    s'.history.Ok s'.waiting := by
  cases e with
  | activate r edt =>
    obtain ⟨hcan, rfl⟩ := next_activate.1 hst
    exact (h.activate hcan).mono (waiting_mono rfl (by simp))
  | enqueue r edt =>
    obtain ⟨hcan, -, rfl⟩ := next_enqueue.1 hst
    exact (h.enqueue hcan).mono (waiting_le_add rfl (Node.waiting_enqueue _ edt).le)
  | finish r edt =>
    obtain ⟨hmem, rfl⟩ := next_finish.1 hst
    exact h.mono (waiting_mono rfl (Node.waiting_finish _ hmem))
  | deliverReq r =>
    obtain ⟨-, rfl⟩ := next_deliverReq.1 hst
    exact h.mono (waiting_mono rfl (Node.waiting_start _ rfl).le)
  | deliverSend r k =>
    obtain ⟨v, -, -, rfl⟩ := next_deliverSend.1 hst
    exact h.mono (waiting_mono rfl (Node.waiting_start _ rfl).le)
  | step r i ff =>
    obtain ⟨c, hc, -, rfl⟩ := next_step.1 hst
    rw [emit_history]
    exact (h.mono (waiting_add_le emit_node (Node.waiting_advance (p.config r) ff hc).le)).publish

lemma history_next_of_quiescent (h : s.history.Ok s.waiting)
    (hq : s.history.Quiescent) (hst : s.next e = some s') :
    s'.history.activated = s.history.activated ∧ s'.history.finished = s.history.finished := by
  cases e with
  | activate r edt =>
    obtain ⟨hcan, -⟩ := next_activate.1 hst
    exact absurd hcan hq.not_canActivate
  | enqueue r edt =>
    obtain ⟨-, -, rfl⟩ := next_enqueue.1 hst
    exact ⟨rfl, rfl⟩
  | finish r edt =>
    obtain ⟨-, rfl⟩ := next_finish.1 hst
    exact ⟨rfl, rfl⟩
  | deliverReq r =>
    obtain ⟨-, rfl⟩ := next_deliverReq.1 hst
    exact ⟨rfl, rfl⟩
  | deliverSend r k =>
    obtain ⟨v, -, -, rfl⟩ := next_deliverSend.1 hst
    exact ⟨rfl, rfl⟩
  | step r i ff =>
    obtain ⟨c, hc, -, rfl⟩ := next_step.1 hst
    have hle := unpublished_le_waiting hc
    rw [hq.waiting_eq_zero h] at hle
    rw [emit_history, s.history.publish_of_unpublished (Nat.le_zero.1 hle)]
    exact ⟨rfl, rfl⟩

lemma quiescent_next (h : s.history.Ok s.waiting) (hq : s.history.Quiescent)
    (hst : s.next e = some s') : s'.history.Quiescent := by
  obtain ⟨hact, hfin⟩ := history_next_of_quiescent h hq hst
  rwa [History.Quiescent, hact, hfin]

end System

end Arts
