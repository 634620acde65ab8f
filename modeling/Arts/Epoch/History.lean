import Arts.Epoch.Node

/-!
# The EDTs of an epoch

Apart from the first, an EDT is activated by one that has not finished; so an epoch in which all
have finished, a *quiescent* one, stays so.
-/

namespace Arts

open List

/-- The EDTs that were activated, enqueued and finished so far, the latest one first. -/
structure History (ε : Type*) where
  activated : List ε
  enqueued : List ε
  finished : List ε
  deriving DecidableEq, Repr

namespace History

variable {ε : Type*}

/-- An EDT may be activated: it is new, and it is the first one or an EDT is unfinished. -/
def CanActivate (h : History ε) (edt : ε) : Prop :=
  edt ∉ h.activated ∧ (h.activated = [] ∨ h.finished.length < h.activated.length)

/-- An EDT may be enqueued: it was activated and has not been enqueued. -/
def CanEnqueue (h : History ε) (edt : ε) : Prop := edt ∈ h.activated ∧ edt ∉ h.enqueued

instance [DecidableEq ε] (h : History ε) (edt : ε) : Decidable (h.CanActivate edt) := by
  unfold CanActivate; infer_instance

instance [DecidableEq ε] (h : History ε) (edt : ε) : Decidable (h.CanEnqueue edt) := by
  unfold CanEnqueue; infer_instance

/-- Every activated EDT has finished, and there is one. -/
def Quiescent (h : History ε) : Prop :=
  h.activated ≠ [] ∧ h.finished.length = h.activated.length

instance (h : History ε) : Decidable h.Quiescent := by unfold Quiescent; infer_instance

/-- The history of an epoch in which at least `waiting` enqueued EDTs have not finished. -/
structure Ok (h : History ε) (waiting : ℕ) : Prop where
  activated_nodup : h.activated.Nodup
  enqueued_nodup : h.enqueued.Nodup
  enqueued_subset : h.enqueued ⊆ h.activated
  finished_add : h.finished.length + waiting ≤ h.enqueued.length

variable {h : History ε} {w : ℕ} {edt : ε}

lemma ok_init : (⟨[], [], []⟩ : History ε).Ok 0 :=
  ⟨nodup_nil, nodup_nil, List.Subset.refl _, le_rfl⟩

lemma Ok.finished_add_le (hok : h.Ok w) : h.finished.length + w ≤ h.activated.length :=
  hok.finished_add.trans (hok.enqueued_nodup.subperm hok.enqueued_subset).length_le

lemma Ok.activate (hok : h.Ok w) (hcan : h.CanActivate edt) :
    { h with activated := edt :: h.activated }.Ok w :=
  ⟨nodup_cons.2 ⟨hcan.1, hok.activated_nodup⟩, hok.enqueued_nodup,
    subset_cons_of_subset _ hok.enqueued_subset, hok.finished_add⟩

lemma Ok.enqueue (hok : h.Ok w) (hcan : h.CanEnqueue edt) :
    { h with enqueued := edt :: h.enqueued }.Ok (w + 1) :=
  ⟨hok.activated_nodup, nodup_cons.2 ⟨hcan.2, hok.enqueued_nodup⟩,
    cons_subset.2 ⟨hcan.1, hok.enqueued_subset⟩, Nat.succ_le_succ hok.finished_add⟩

lemma Ok.finish (hok : h.Ok (w + 1)) : { h with finished := edt :: h.finished }.Ok w := by
  refine { hok with finished_add := ?_ }
  have := hok.finished_add
  simp only [length_cons]
  omega

lemma Ok.mono (hok : h.Ok w) {w' : ℕ} (hle : w' ≤ w) : h.Ok w' :=
  { hok with finished_add := (Nat.add_le_add_left hle _).trans hok.finished_add }

lemma Quiescent.not_canActivate (hq : h.Quiescent) : ¬ h.CanActivate edt := by
  rintro ⟨-, hnil | hlt⟩
  · exact hq.1 hnil
  · exact absurd hq.2 hlt.ne

lemma Quiescent.waiting_eq_zero (hq : h.Quiescent) (hok : h.Ok w) : w = 0 := by
  have := hok.finished_add_le
  have := hq.2
  omega

end History

/-- The history after a step of the call: its first access publishes a finish. -/
def History.publish {ε : Type*} (h : History ε) : Call ε → History ε
  | .finish edt .add => { h with finished := edt :: h.finished }
  | _ => h

@[simp] lemma History.publish_activated {ε : Type*} (h : History ε) (c : Call ε) :
    (h.publish c).activated = h.activated := by
  unfold publish
  split <;> rfl

def Call.unpublished {ε : Type*} : Call ε → ℕ
  | .finish _ .add => 1
  | _ => 0

lemma History.length_finished_publish {ε : Type*} (h : History ε) (c : Call ε) :
    (h.publish c).finished.length = h.finished.length + c.unpublished := by
  unfold publish
  split
  · rfl
  · rename_i hne
    have : c.unpublished = 0 := by
      unfold Call.unpublished
      split
      · exact absurd rfl (hne _)
      · rfl
    rw [this, Nat.add_zero]

lemma History.Ok.publish {ε : Type*} {h : History ε} {c : Call ε} {w : ℕ}
    (hok : h.Ok (w + c.unpublished)) : (h.publish c).Ok w := by
  unfold History.publish
  split
  · exact hok.finish
  · exact hok.mono (Nat.le_add_right _ _)

lemma History.publish_of_unpublished {ε : Type*} (h : History ε) {c : Call ε}
    (hc : c.unpublished = 0) : h.publish c = h := by
  unfold publish
  split
  · simp [Call.unpublished] at hc
  · rfl

lemma Call.packed_step {ε : Type*} (cfg : Config) (ff : Bool) {e : Epoch} (c : Call ε) {a f : ℕ}
    (h : e.epochCounts = packed a f) :
    (c.step cfg ff e).1.epochCounts = packed a (f + c.unpublished) := by
  cases c with
  | finish x pc =>
    cases pc with
    | add => simp only [step, finishStep, h, packed_finish, unpublished]
    | _ => simp only [step, finishStep]; (try split_ifs) <;> exact h
  | send pc =>
    cases pc with
    | read a f => cases a <;> cases f <;> exact h
    | cas => simp only [step, sendStep]; split_ifs <;> exact h
    | mask | send | done => exact h
  | reduce x y pc =>
    cases pc <;> simp only [step, reduceStep, checkStep] <;> (try split_ifs) <;> exact h

namespace Node

variable {ε : Type*} [DecidableEq ε]

/-- The number of EDTs on a rank that are enqueued and have not published their finish. -/
def waiting (s : Node ε) : ℕ := s.ready.length + weight Call.unpublished s.calls

omit [DecidableEq ε] in
@[simp] lemma waiting_activate (s : Node ε) : s.activate.waiting = s.waiting := by
  simp [waiting]

omit [DecidableEq ε] in
@[simp] lemma waiting_enqueue (s : Node ε) (edt : ε) :
    (s.enqueue edt).waiting = s.waiting + 1 := by
  simp only [waiting, enqueue, length_cons]
  omega

lemma waiting_finish (s : Node ε) {edt : ε} (h : edt ∈ s.ready) :
    (s.finish edt).waiting ≤ s.waiting := by
  have := length_pos_of_mem h
  by_cases hp : s.present = true
  · simp only [waiting, finish_calls hp, weight_append, weight_cons, weight_nil, Call.unpublished,
      finish_ready, length_erase_of_mem h]
    omega
  · simp only [waiting, finish_calls_of_not_present hp, finish_ready, length_erase_of_mem h]
    omega

omit [DecidableEq ε] in
lemma waiting_start (s : Node ε) {c : Call ε} (hc : c.unpublished = 0) :
    (s.start c).waiting = s.waiting := by
  cases h : s.present <;> simp [waiting, start, h, hc]

omit [DecidableEq ε] in
lemma waiting_advance (cfg : Config) {s : Node ε} {i : ℕ} {c : Call ε} (ff : Bool)
    (hc : s.calls[i]? = some c) :
    (s.advance cfg i ff c).waiting + c.unpublished = s.waiting := by
  have hset := weight_set Call.unpublished hc (c.step cfg ff s.epoch).2.1
  have hzero : (c.step cfg ff s.epoch).2.1.unpublished = 0 := by
    cases c with
    | finish x pc =>
      cases pc <;> simp only [Call.step, finishStep, FinishPc.afterAdd] <;> (try split_ifs) <;> rfl
    | send pc => rfl
    | reduce a f pc => rfl
  simp only [waiting, advance]
  omega

end Node

end Arts
