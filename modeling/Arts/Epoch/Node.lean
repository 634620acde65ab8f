import Arts.Epoch.Step
import Arts.Machine.Basic
import Arts.Machine.Calls

/-!
# One rank

Calls start when an EDT finishes and when a request or a reply arrives; the lookup of the epoch is
part of that. Then they move by single accesses to the record.
-/

namespace Arts

open List

inductive Call (ε : Type*) where
  /-- `increment_finished_epoch` for an EDT. -/
  | finish (edt : ε) (pc : FinishPc)
  /-- `send_epoch`, the handler of a request. -/
  | send (pc : SendPc)
  /-- `reduce_epoch`, the handler of a reply. -/
  | reduce (active finish : UInt32) (pc : ReducePc)
  deriving DecidableEq, Repr

namespace Call

variable {ε : Type*}

def isDone : Call ε → Bool
  | .finish _ pc => decide (pc = .done)
  | .send pc => decide (pc = .done)
  | .reduce _ _ pc => decide (pc = .done)

def step (cfg : Config) (finishFirst : Bool) (e : Epoch) : Call ε → Epoch × Call ε × Option Out
  | .finish edt pc =>
    ((finishStep cfg e pc).1, .finish edt (finishStep cfg e pc).2.1, (finishStep cfg e pc).2.2)
  | .send pc =>
    ((sendStep finishFirst e pc).1, .send (sendStep finishFirst e pc).2.1,
      (sendStep finishFirst e pc).2.2)
  | .reduce a f pc =>
    ((reduceStep cfg a f e pc).1, .reduce a f (reduceStep cfg a f e pc).2.1,
      (reduceStep cfg a f e pc).2.2)

/-- The EDT of a finish call that has not decremented `queued` yet. -/
def queuedEdt : Call ε → Option ε
  | .finish edt .add | .finish edt .subQueued | .finish edt (.load _ _) |
    .finish edt (.cas _ _ _) => some edt
  | _ => none

/-- The call still owes a decrement of `queued`. -/
def owes (c : Call ε) : ℕ := if c.queuedEdt.isSome then 1 else 0

end Call

structure Node (ε : Type*) where
  epoch : Epoch
  present : Bool
  /-- The EDTs that are queued and have not finished. -/
  ready : List ε
  /-- The calls made so far, the ones that have returned included. -/
  calls : List (Call ε)
  deriving DecidableEq, Repr

inductive Act (ε : Type*) where
  /-- `increment_active_epoch`. -/
  | activate
  /-- `increment_queue_epoch` for an EDT that becomes ready. -/
  | enqueue (edt : ε)
  /-- A queued EDT ends: `increment_finished_epoch` starts. -/
  | finish (edt : ε)
  /-- An `ARTS_EPOCH_REQ_MSG` arrives: `send_epoch` starts. -/
  | request
  /-- An `ARTS_EPOCH_SEND_MSG` arrives: `reduce_epoch` starts. -/
  | reply (active finish : UInt32)
  /-- The `i`-th call performs its next access. -/
  | step (i : ℕ) (finishFirst : Bool)
  deriving DecidableEq, Repr

namespace Node

variable {ε : Type*}

/-- The EDTs counted by `queued`. -/
def queueIds (s : Node ε) : List ε := s.ready ++ s.calls.filterMap Call.queuedEdt

/-- The number of EDTs counted by `queued`. -/
def queueLen (s : Node ε) : ℕ := s.ready.length + weight Call.owes s.calls

def Idle (s : Node ε) : Prop := ∀ c ∈ s.calls, c.isDone = true

instance (s : Node ε) : Decidable s.Idle := by unfold Idle; infer_instance

/-- `increment_active_epoch`. -/
def activate (s : Node ε) : Node ε :=
  if s.present then
    { s with epoch := { s.epoch with epochCounts := s.epoch.epochCounts + epochActiveInc } }
  else s

/-- `increment_queue_epoch`. -/
def enqueue (s : Node ε) (edt : ε) : Node ε where
  epoch := if s.present then { s.epoch with queued := s.epoch.queued + 1 } else s.epoch
  present := s.present
  ready := edt :: s.ready
  calls := s.calls

def start (s : Node ε) (c : Call ε) : Node ε :=
  { s with calls := if s.present then s.calls ++ [c] else s.calls }

/-- A queued EDT ends: `increment_finished_epoch` starts. -/
def finish [DecidableEq ε] (s : Node ε) (edt : ε) : Node ε :=
  { s with ready := s.ready.erase edt }.start (.finish edt .add)

/-- Perform the next access of the call `c`, the `i`-th one. -/
def advance (cfg : Config) (s : Node ε) (i : ℕ) (finishFirst : Bool) (c : Call ε) : Node ε where
  epoch := (c.step cfg finishFirst s.epoch).1
  present := s.present && decide ((c.step cfg finishFirst s.epoch).2.2 ≠ some .deleteEpoch)
  ready := s.ready
  calls := s.calls.set i (c.step cfg finishFirst s.epoch).2.1

def next [DecidableEq ε] (cfg : Config) (s : Node ε) : Act ε → Option (Node ε × Option Out)
  | .activate => some (s.activate, none)
  | .enqueue edt => if edt ∈ s.queueIds then none else some (s.enqueue edt, none)
  | .finish edt => if edt ∈ s.ready then some (s.finish edt, none) else none
  | .request => some (s.start (.send .mask), none)
  | .reply a f => some (s.start (.reduce a f .test), none)
  | .step i finishFirst =>
    match s.calls[i]? with
    | none => none
    | some c =>
      if c.isDone then none
      else some (s.advance cfg i finishFirst c, (c.step cfg finishFirst s.epoch).2.2)

/-- A rank right after the epoch was created on it. -/
def create (guid edtGuid : Guid) (slot : UInt32) (isLocal : Bool) : Node ε where
  epoch := .create guid edtGuid slot isLocal
  present := true
  ready := []
  calls := []

/-! ### The fields after an action -/

@[simp] lemma activate_present (s : Node ε) : s.activate.present = s.present := by
  cases h : s.present <;> simp [activate, h]

@[simp] lemma activate_ready (s : Node ε) : s.activate.ready = s.ready := by
  cases h : s.present <;> simp [activate, h]

@[simp] lemma activate_calls (s : Node ε) : s.activate.calls = s.calls := by
  cases h : s.present <;> simp [activate, h]

lemma activate_epoch {s : Node ε} (h : s.present = true) : s.activate.epoch =
    { s.epoch with epochCounts := s.epoch.epochCounts + epochActiveInc } := by
  simp [activate, h]

lemma enqueue_epoch {s : Node ε} (h : s.present = true) (edt : ε) : (s.enqueue edt).epoch =
    { s.epoch with queued := s.epoch.queued + 1 } := by
  simp [enqueue, h]

@[simp] lemma activate_outstanding (s : Node ε) :
    s.activate.epoch.outstanding = s.epoch.outstanding := by
  cases h : s.present <;> simp [activate, h]

@[simp] lemma activate_queued (s : Node ε) : s.activate.epoch.queued = s.epoch.queued := by
  cases h : s.present <;> simp [activate, h]

@[simp] lemma activate_phase (s : Node ε) : s.activate.epoch.phase = s.epoch.phase := by
  cases h : s.present <;> simp [activate, h]

@[simp] lemma enqueue_present (s : Node ε) (edt : ε) :
    (s.enqueue edt).present = s.present := rfl

@[simp] lemma enqueue_calls (s : Node ε) (edt : ε) : (s.enqueue edt).calls = s.calls := rfl

@[simp] lemma enqueue_outstanding (s : Node ε) (edt : ε) :
    (s.enqueue edt).epoch.outstanding = s.epoch.outstanding := by
  cases h : s.present <;> simp [enqueue, h]

@[simp] lemma enqueue_phase (s : Node ε) (edt : ε) :
    (s.enqueue edt).epoch.phase = s.epoch.phase := by
  cases h : s.present <;> simp [enqueue, h]

@[simp] lemma enqueue_epochCounts (s : Node ε) (edt : ε) :
    (s.enqueue edt).epoch.epochCounts = s.epoch.epochCounts := by
  cases h : s.present <;> simp [enqueue, h]

@[simp] lemma start_epoch (s : Node ε) (c : Call ε) : (s.start c).epoch = s.epoch := rfl

@[simp] lemma start_present (s : Node ε) (c : Call ε) : (s.start c).present = s.present := rfl

@[simp] lemma start_ready (s : Node ε) (c : Call ε) : (s.start c).ready = s.ready := rfl

lemma start_calls {s : Node ε} (h : s.present = true) (c : Call ε) :
    (s.start c).calls = s.calls ++ [c] := by
  simp [start, h]

lemma start_of_not_present {s : Node ε} (h : ¬ s.present = true) (c : Call ε) :
    s.start c = s := by
  rw [start, if_neg h]

section Finish

variable [DecidableEq ε]

@[simp] lemma finish_epoch (s : Node ε) (edt : ε) : (s.finish edt).epoch = s.epoch := rfl

@[simp] lemma finish_present (s : Node ε) (edt : ε) : (s.finish edt).present = s.present := rfl

@[simp] lemma finish_ready (s : Node ε) (edt : ε) :
    (s.finish edt).ready = s.ready.erase edt := rfl

lemma finish_calls {s : Node ε} (h : s.present = true) (edt : ε) :
    (s.finish edt).calls = s.calls ++ [.finish edt .add] :=
  start_calls h _

lemma finish_calls_of_not_present {s : Node ε} (h : ¬ s.present = true) (edt : ε) :
    (s.finish edt).calls = s.calls := by
  simp [finish, start, h]

end Finish

/-! ### The number of queued EDTs -/

@[simp] lemma queueLen_activate (s : Node ε) : s.activate.queueLen = s.queueLen := by
  simp [queueLen]

@[simp] lemma queueLen_enqueue (s : Node ε) (edt : ε) :
    (s.enqueue edt).queueLen = s.queueLen + 1 := by
  simp only [queueLen, enqueue, length_cons]
  omega

lemma queueLen_start (s : Node ε) {c : Call ε} (hc : c.owes = 0) :
    (s.start c).queueLen = s.queueLen := by
  cases h : s.present <;> simp [queueLen, start, h, hc]

lemma queueLen_finish [DecidableEq ε] {s : Node ε} (h : s.present = true) {edt : ε}
    (hmem : edt ∈ s.ready) : (s.finish edt).queueLen = s.queueLen := by
  have := length_pos_of_mem hmem
  simp only [queueLen, finish_calls h, weight_append, weight_cons, weight_nil, Call.owes,
    Call.queuedEdt, Option.isSome_some, ↓reduceIte, finish_ready, length_erase_of_mem hmem]
  omega

/-! ### What a step of a call does -/

variable [DecidableEq ε] {cfg : Config} {s s' : Node ε} {out : Option Out}

lemma next_activate : s.next cfg .activate = some (s', out) ↔ s' = s.activate ∧ out = none := by
  simp [next, eq_comm]

lemma next_request :
    s.next cfg .request = some (s', out) ↔ s' = s.start (.send .mask) ∧ out = none := by
  simp [next, eq_comm]

lemma next_reply {a f : UInt32} :
    s.next cfg (.reply a f) = some (s', out) ↔ s' = s.start (.reduce a f .test) ∧ out = none := by
  simp [next, eq_comm]

lemma next_step {i : ℕ} {ff : Bool} :
    s.next cfg (.step i ff) = some (s', out) ↔ ∃ c, s.calls[i]? = some c ∧ c.isDone = false ∧
      s' = s.advance cfg i ff c ∧ out = (c.step cfg ff s.epoch).2.2 := by
  simp only [next]
  constructor
  · intro h
    split at h
    · cases h
    · rename_i c hc
      split_ifs at h with hd
      simp only [Option.some.injEq, Prod.mk.injEq] at h
      exact ⟨c, hc, by simpa using hd, h.1.symm, h.2.symm⟩
  · rintro ⟨c, hc, hd, rfl, rfl⟩
    simp [hc, hd]

lemma next_finish {edt : ε} : s.next cfg (.finish edt) = some (s', out) ↔
    edt ∈ s.ready ∧ s' = s.finish edt ∧ out = none := by
  simp only [next]
  split_ifs with h <;> simp [h, eq_comm]

lemma next_enqueue {edt : ε} : s.next cfg (.enqueue edt) = some (s', out) ↔
    edt ∉ s.queueIds ∧ s' = s.enqueue edt ∧ out = none := by
  simp only [next]
  split_ifs with h <;> simp [h, eq_comm]

omit [DecidableEq ε] in
lemma queueLen_eq (s : Node ε) : s.queueLen = s.queueIds.length := by
  have h : ∀ cs : List (Call ε), weight Call.owes cs = (cs.filterMap Call.queuedEdt).length := by
    intro cs
    induction cs with
    | nil => rfl
    | cons c cs ih =>
      rw [weight_cons, filterMap_cons, ih]
      cases hc : c.queuedEdt with
      | none => simp [Call.owes, hc]
      | some e => simp [Call.owes, hc, Nat.add_comm]
  simp [queueLen, queueIds, h]

omit [DecidableEq ε] in
lemma queuedEdt_step (cfg : Config) (ff : Bool) (e : Epoch) (c : Call ε) :
    (c.step cfg ff e).2.1.queuedEdt = c.queuedEdt ∨ (c.step cfg ff e).2.1.queuedEdt = none := by
  cases c with
  | finish edt pc =>
    cases pc <;> simp only [Call.step, finishStep, FinishPc.afterAdd, Call.queuedEdt] <;>
      (try split_ifs) <;> simp
  | send pc => exact .inl rfl
  | reduce a f pc => exact .inl rfl

omit [DecidableEq ε] in
lemma filterMap_set_sublist {cs : List (Call ε)} {i : ℕ} {c c' : Call ε} (h : cs[i]? = some c)
    (hc : c'.queuedEdt = c.queuedEdt ∨ c'.queuedEdt = none) :
    ((cs.set i c').filterMap Call.queuedEdt).Sublist (cs.filterMap Call.queuedEdt) := by
  induction cs generalizing i with
  | nil => simp at h
  | cons a cs ih =>
    cases i with
    | zero =>
      have ha : a = c := by simpa using h
      subst ha
      simp only [set_cons_zero, filterMap_cons]
      rcases hc with hc | hc
      · rw [hc]
      · rw [hc]
        cases a.queuedEdt with
        | none => exact List.Sublist.refl _
        | some e => exact sublist_cons_self _ _
    | succ i =>
      simp only [set_cons_succ, filterMap_cons]
      have := ih (by simpa using h)
      cases a.queuedEdt with
      | none => exact this
      | some e => exact this.cons_cons e

lemma queueIds_nodup_next {a : Act ε} (h : s.next cfg a = some (s', out))
    (hn : s.queueIds.Nodup) : s'.queueIds.Nodup := by
  have hstart : ∀ (t : Node ε) (c : Call ε), c.queuedEdt = none → (t.start c).queueIds =
      t.queueIds := by
    intro t c hc
    simp only [start, queueIds]
    split_ifs <;> simp [hc]
  cases a with
  | activate =>
    obtain ⟨rfl, -⟩ := next_activate.1 h
    simpa [queueIds] using hn
  | enqueue edt =>
    obtain ⟨hnew, rfl, -⟩ := next_enqueue.1 h
    exact nodup_cons.2 ⟨hnew, hn⟩
  | finish edt =>
    obtain ⟨hmem, rfl, -⟩ := next_finish.1 h
    -- the EDT moves from the ready queue to its finish call
    have hperm : (edt :: s.ready.erase edt).Perm s.ready := (perm_cons_erase hmem).symm
    simp only [finish, start, queueIds] at hn ⊢
    have hcons : (edt :: (s.ready.erase edt ++ s.calls.filterMap Call.queuedEdt)).Nodup :=
      (hperm.append_right _).nodup_iff.2 hn
    split_ifs
    · rw [filterMap_append, ← append_assoc]
      exact (perm_append_singleton edt _).nodup_iff.2 hcons
    · exact (nodup_cons.1 hcons).2
  | request =>
    obtain ⟨rfl, -⟩ := next_request.1 h
    rwa [hstart s _ rfl]
  | reply x y =>
    obtain ⟨rfl, -⟩ := next_reply.1 h
    rwa [hstart s _ rfl]
  | step i ff =>
    obtain ⟨c, hc, -, rfl, -⟩ := next_step.1 h
    exact hn.sublist ((filterMap_set_sublist hc (queuedEdt_step cfg ff s.epoch c)).append_left _)

lemma queueLen_lt {s : Node EdtGuid} (h : s.queueIds.Nodup) : s.queueLen < 2 ^ 63 := by
  have := EdtGuid.length_le_of_nodup h
  rw [queueLen_eq]
  omega

end Node

end Arts
