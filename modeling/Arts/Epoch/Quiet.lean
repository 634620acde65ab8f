import Arts.Epoch.Owner

/-!
# Deleting an epoch

A worker can be between publishing its finish and leaving the queue (`request_after_delete`). If no
call runs at `delete_epoch`, nothing touches the record afterwards (`quiet_after_delete`).
-/

namespace Arts

open List Owner Node

namespace Call

variable {ε : Type*}

def running (c : Call ε) : ℕ := if c.isDone then 0 else 1

/-- The next step of the call is `delete_epoch`. -/
def deleting : Call ε → Bool
  | .finish _ .delete | .reduce _ _ .delete => true
  | _ => false

lemma isDone_of_deleteEpoch {cfg : Config} {ff : Bool} {e : Epoch} {c : Call ε}
    (h : (c.step cfg ff e).2.2 = some .deleteEpoch) :
    c.deleting = true ∧ (c.step cfg ff e).2.1.isDone = true := by
  have hfire : ∀ v, ¬ some (e.fire v) = some Out.deleteEpoch := by
    intro v
    unfold Epoch.fire
    split_ifs <;> nofun
  have hreq : ∀ i, ¬ broadcastReq cfg i = some .deleteEpoch := by
    intro i
    unfold broadcastReq
    split_ifs <;> nofun
  cases c with
  | finish x pc =>
    cases pc <;> simp only [step, finishStep] at h ⊢ <;> (try split_ifs at h) <;>
      simp_all [deleting, isDone]
  | send pc =>
    cases pc with
    | read a f => cases a <;> cases f <;> simp [step, sendStep] at h
    | cas => simp only [step, sendStep] at h; split_ifs at h
    | mask | send | done => simp [step, sendStep] at h
  | reduce a f pc =>
    cases pc <;> simp only [step, reduceStep] at h ⊢ <;> (try split_ifs at h) <;>
      simp_all [deleting, isDone]

end Call

/-- The action reads or writes the epoch record: a running call moves, or a counter of the epoch
is incremented. -/
def Node.Touches {ε : Type*} (s : Node ε) : Act ε → Prop
  | .activate | .enqueue _ => s.present = true
  | .step i _ => ∃ c, s.calls[i]? = some c ∧ c.isDone = false
  | .finish _ | .request | .reply _ _ => False

namespace Owner

variable {ε : Type*} {cfg : Config} {s s' : Owner ε}

/-- `delete_epoch` is called only while no other call on the epoch is in progress. -/
def Alone (s : Owner ε) : Act ε → Prop
  | .step i _ => (∃ c ∈ s.node.calls[i]?, c.deleting = true) →
      weight Call.running s.node.calls ≤ 1
  | _ => True

instance (s : Owner ε) (a : Act ε) : Decidable (s.Alone a) := by
  induction a using Act.casesOn <;> dsimp only [Alone] <;> infer_instance

/-- No call is in progress on a deleted epoch. -/
def Quiet (s : Owner ε) : Prop :=
  s.node.present = false → weight Call.running s.node.calls = 0

lemma quiet_next [DecidableEq ε] {a : Act ε} (h : s.Quiet) (hok : s.Alone a)
    (hst : s.next cfg a = some s') : s'.Quiet := by
  obtain ⟨hadm, n, out, hn, rfl⟩ := next_eq_some.1 hst
  intro hp
  cases a with
  | activate =>
    obtain ⟨rfl, -⟩ := next_activate.1 hn
    simpa using h (by simpa using hp)
  | enqueue edt =>
    obtain ⟨-, rfl, -⟩ := next_enqueue.1 hn
    exact h hp
  | finish edt =>
    obtain ⟨-, rfl, -⟩ := next_finish.1 hn
    have hp' : s.node.present = false := hp
    simpa [finish_calls_of_not_present, hp'] using h hp'
  | request => exact absurd hadm id
  | reply x y =>
    obtain ⟨rfl, -⟩ := next_reply.1 hn
    have hp' : s.node.present = false := hp
    simpa [start_of_not_present, hp'] using h hp'
  | step i ff =>
    obtain ⟨c, hc, hd, rfl, -⟩ := next_step.1 hn
    have hrun : c.running = 1 := by simp [Call.running, hd]
    have hle := le_weight_of_getElem? Call.running hc
    have hset := weight_set Call.running hc (c.step cfg ff s.node.epoch).2.1
    simp only [advance, Bool.and_eq_false_iff, decide_eq_false_iff_not, not_not] at hp ⊢
    rcases hp with hp | hp
    · have := h hp
      omega
    · obtain ⟨hdel, hdone⟩ := Call.isDone_of_deleteEpoch hp
      have hone := hok ⟨c, hc, hdel⟩
      have : (c.step cfg ff s.node.epoch).2.1.running = 0 := by simp [Call.running, hdone]
      omega

lemma reachable_quiet [DecidableEq ε] (h : ((machine cfg).restrict Alone).Reachable s) :
    s.Quiet := by
  refine h.invariant (fun s h hp => ?_) fun s a s' _ hi hst => ?_
  · obtain ⟨guid, edtGuid, slot, rfl⟩ := h
    cases hp
  · obtain ⟨hok, hst⟩ := Machine.restrict_next.1 hst
    exact quiet_next hi hok hst

end Owner

/-- **A completed epoch stays quiet**, if `delete_epoch` is only called while no other call on the
epoch is in progress. -/
theorem quiet_after_delete {ε : Type*} [DecidableEq ε] {cfg : Config} {s s' : Owner ε} {a : Act ε}
    (h : ((machine cfg).restrict Alone).Reachable s) (hdel : s.node.present = false)
    (hst : (machine cfg).next s a = some s') :
    ¬ s.node.Touches a ∧ s'.node.epoch = s.node.epoch ∧ s'.requests = s.requests := by
  have hquiet := weight_eq_zero.1 (reachable_quiet h hdel)
  obtain ⟨hadm, n, out, hn, rfl⟩ := next_eq_some.1 hst
  cases a with
  | activate =>
    obtain ⟨rfl, rfl⟩ := next_activate.1 hn
    simp [Touches, activate, hdel, countRequest]
  | enqueue edt =>
    obtain ⟨-, rfl, rfl⟩ := next_enqueue.1 hn
    simp [Touches, enqueue, hdel, countRequest]
  | finish edt =>
    obtain ⟨-, rfl, rfl⟩ := next_finish.1 hn
    exact ⟨id, rfl, rfl⟩
  | request => exact absurd hadm id
  | reply x y =>
    obtain ⟨rfl, rfl⟩ := next_reply.1 hn
    exact ⟨id, rfl, rfl⟩
  | step i ff =>
    obtain ⟨c, hc, hd, -, -⟩ := next_step.1 hn
    have := hquiet c (mem_of_getElem? hc)
    simp [Call.running, hd] at this

/-- One EDT finishes, both rounds confirm it and the epoch is deleted; an EDT that is enqueued
later leaves the record alone. -/
theorem quiet_after_delete_one_edt :
    ∃ s s' : Owner EdtGuid, ((machine ⟨2, 0, 0⟩).restrict Alone).Reachable s ∧
      s.node.present = false ∧ s.node.epoch.phase = .phase3 ∧
      (machine ⟨2, 0, 0⟩).next s (.enqueue (EdtGuid.ofKey 2)) = some s' ∧
      s'.node.epoch = s.node.epoch := by
  let x := EdtGuid.ofKey 1
  obtain ⟨s, hr, hdel, hph, hsome⟩ :=
    Machine.Reachable.exists_of_exec (M := (machine ⟨2, 0, 0⟩).restrict Alone)
      (P := fun s : Owner EdtGuid => s.node.present = false ∧ s.node.epoch.phase = .phase3 ∧
        ((machine ⟨2, 0, 0⟩).next s (.enqueue (EdtGuid.ofKey 2))).isSome = true)
      (r := flatten [[.activate, .enqueue x, .finish x], replicate 5 (.step 0 false),
        [.reply 0 0], replicate 17 (.step 1 false), [.reply 0 0],
        replicate 18 (.step 2 false)])
      ⟨0, 0, 0, rfl⟩ (by decide +kernel)
  obtain ⟨s', hs'⟩ := Option.isSome_iff_exists.1 hsome
  exact ⟨s, s', hr, hdel, hph, hs', (quiet_after_delete hr hdel hs').2.1⟩

/-- **A request after the deletion.** The second EDT publishes its finish and is interrupted; the
epoch is deleted, and the worker opens a round on the deleted record. -/
theorem request_after_delete :
    ∃ s : Owner EdtGuid, (machine ⟨2, 0, 0⟩).Reachable s ∧ s.node.present = false ∧
      s.node.epoch.phase = .phase3 ∧ ∃ s', (machine ⟨2, 0, 0⟩).Leads s s' ∧
        s'.node.epoch.queued ≠ s.node.epoch.queued ∧ s.requests < s'.requests := by
  let x := EdtGuid.ofKey 1
  let y := EdtGuid.ofKey 2
  let tail : List (Act EdtGuid) := replicate 4 (.step 1 false)
  obtain ⟨s, hr, hdel, hph, htail⟩ :=
    Machine.Reachable.exists_of_exec (M := machine ⟨2, 0, 0⟩)
      (P := fun s : Owner EdtGuid => s.node.present = false ∧ s.node.epoch.phase = .phase3 ∧
        (((machine ⟨2, 0, 0⟩).exec s tail).any fun s' =>
          decide (s'.node.epoch.queued ≠ s.node.epoch.queued ∧ s.requests < s'.requests)) = true)
      (r := flatten [[.activate, .enqueue x, .activate, .finish x],
        replicate 5 (.step 0 false), [.enqueue y, .finish y, .step 1 false], [.reply 0 0],
        replicate 17 (.step 2 false), [.reply 0 0], replicate 18 (.step 3 false)])
      ⟨0, 0, 0, rfl⟩ (by decide +kernel)
  obtain ⟨s', hl, hs'⟩ := Machine.Leads.exists_of_exec htail
  exact ⟨s, hr, hdel, hph, s', hl, hs'⟩

end Arts
