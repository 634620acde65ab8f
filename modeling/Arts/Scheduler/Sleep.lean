import Arts.Machine.Basic
import Arts.Machine.Calls

/-!
# Workers that sleep

The queues are not looked at again before `pthread_cond_wait`, so an EDT pushed in between wakes
nobody (`Sleep.wakeup_lost`), unless a worker waits only while they are empty
(`Sleep.no_wakeup_lost`).
-/

namespace Arts

open List

/-- Where a worker is: in its loop, in `arts_worker_try_sleep`, or in an EDT. -/
inductive WorkerPc where
  | scan
  | running
  | load
  | swap (cur : ℕ)
  | lock
  | wait
  | blocked
  | woken
  | unlock
  | wake
  deriving DecidableEq

/-- Whether the worker is not counted in `n_spinning`. -/
def WorkerPc.asleep : WorkerPc → ℕ
  | .lock | .wait | .blocked | .woken | .unlock | .wake => 1
  | _ => 0

def WorkerPc.idle : WorkerPc → ℕ
  | .running | .blocked => 0
  | _ => 1

/-- Where a call of `arts_wake_one_worker` after a push is. -/
inductive WakePc where
  | test
  | lock
  | signal
  | unlock
  | done
  deriving DecidableEq

def WakePc.pending : WakePc → ℕ
  | .test | .lock | .signal => 1
  | _ => 0

/-- The workers of a rank, and the calls that push an EDT. -/
structure Sleep where
  /-- The number of EDTs in the queues. The last scan of a blocked worker found none, so these were
  pushed after it. -/
  queued : ℕ
  nSpinning : ℕ
  locked : Bool
  workers : List WorkerPc
  producers : List WakePc
  deriving DecidableEq

/-- The worker `i` or the call `j` moves, or an EDT is pushed. -/
inductive SleepStep where
  /-- `go`: the worker has waited long enough to sleep; the compare-and-swap does not fail spuriously. -/
  | worker (i : ℕ) (go : Bool)
  | push
  /-- `i` is the worker that a signal unblocks. -/
  | producer (j i : ℕ)
  deriving DecidableEq

namespace Sleep

def moved (s : Sleep) (i : ℕ) (c : WorkerPc) : Sleep := { s with workers := s.workers.set i c }

def called (s : Sleep) (j : ℕ) (c : WakePc) : Sleep := { s with producers := s.producers.set j c }

/-- A step of a worker: `arts_default_scheduler_loop` and `arts_worker_try_sleep`. -/
def workerStep (maxSpinners : ℕ) (s : Sleep) (i : ℕ) (go : Bool) : WorkerPc → Option Sleep
  | .scan =>
    if s.queued = 0 then some (s.moved i (if go then .load else .scan))
    else some { s.moved i .running with queued := s.queued - 1 }
  | .running => some (s.moved i .scan)
  | .load => some (s.moved i (.swap s.nSpinning))
  | .swap cur =>
    if maxSpinners < cur then
      if go && s.nSpinning = cur then some { s.moved i .lock with nSpinning := cur - 1 }
      else some (s.moved i (.swap s.nSpinning))
    else some (s.moved i .scan)
  | .lock => if s.locked then none else some { s.moved i .wait with locked := true }
  | .wait => some { s.moved i .blocked with locked := false }
  | .blocked => none
  | .woken => if s.locked then none else some { s.moved i .unlock with locked := true }
  | .unlock => some { s.moved i .wake with locked := false }
  | .wake => some { s.moved i .scan with nSpinning := s.nSpinning + 1 }

/-- A step of `arts_wake_one_worker`; a signal unblocks a worker if one is blocked. -/
def producerStep (s : Sleep) (j i : ℕ) : WakePc → Option Sleep
  | .test => some (s.called j (if s.workers.length ≤ s.nSpinning then .done else .lock))
  | .lock => if s.locked then none else some { s.called j .signal with locked := true }
  | .signal =>
    if s.workers[i]? = some .blocked then some ((s.moved i .woken).called j .unlock)
    else if .blocked ∈ s.workers then none else some (s.called j .unlock)
  | .unlock => some { s.called j .done with locked := false }
  | .done => none

/-- The runs of `n` workers, all of which are spinning at the start. -/
def machine (n maxSpinners : ℕ) : Machine Sleep SleepStep where
  init s := s = ⟨0, n, false, replicate n .scan, []⟩
  next s
    | .worker i go => s.workers[i]?.bind (s.workerStep maxSpinners i go)
    | .push => some { s with queued := s.queued + 1, producers := s.producers ++ [.test] }
    | .producer j i => s.producers[j]?.bind (s.producerStep j i)

/-- A wake-up is lost: an EDT is queued, nobody is about to signal it, and the workers are blocked or
busy. -/
def Lost (s : Sleep) : Prop :=
  0 < s.queued ∧ (∀ c ∈ s.producers, c = .done) ∧ .blocked ∈ s.workers ∧
    ∀ c ∈ s.workers, c = .blocked ∨ c = .running

instance : DecidablePred Lost := fun _ => inferInstanceAs (Decidable (_ ∧ _ ∧ _ ∧ _))

/-- **The condition on the steps**: a worker begins to wait only while the queues are empty. -/
def Calm (s : Sleep) : SleepStep → Prop
  | .worker i _ => s.workers[i]? = some .wait → s.queued = 0
  | _ => True

instance (s : Sleep) : (l : SleepStep) → Decidable (s.Calm l)
  | .worker .. => inferInstanceAs (Decidable (_ → _))
  | .push | .producer .. => isTrue trivial

/-- While a worker is blocked, there is somebody for every EDT in the queues: a worker that is going to
scan them, or a call that is going to signal. -/
structure Inv (n : ℕ) (s : Sleep) : Prop where
  length : s.workers.length = n
  spinning : s.nSpinning + weight WorkerPc.asleep s.workers = n
  enough : .blocked ∈ s.workers →
    s.queued ≤ weight WorkerPc.idle s.workers + weight WakePc.pending s.producers

variable {n maxSpinners : ℕ} {s s' : Sleep}

lemma Inv.worker (h : Inv n s) {i : ℕ} {c c' : WorkerPc} (hi : s.workers[i]? = some c)
    (hs : s'.workers = s.workers.set i c')
    (hn : s'.nSpinning + c'.asleep = s.nSpinning + c.asleep)
    (hb : c' = .blocked → s'.queued = 0)
    (hq : c' ≠ .blocked → s'.queued + c.idle + weight WakePc.pending s.producers ≤
      s.queued + c'.idle + weight WakePc.pending s'.producers) : Inv n s' := by
  have hsleep := weight_set WorkerPc.asleep hi c'
  have hidle := weight_set WorkerPc.idle hi c'
  have hspin := h.spinning
  refine ⟨by rw [hs, length_set, h.length], by rw [hs]; omega, fun hmem => ?_⟩
  by_cases hc : c' = .blocked
  · rw [hb hc]
    exact Nat.zero_le _
  rw [hs] at hmem ⊢
  have henough := h.enough ((mem_or_eq_of_mem_set hmem).resolve_right (Ne.symm hc))
  have := hq hc
  omega

lemma Inv.workerStep (h : Inv n s) {i : ℕ} {go : Bool} {c : WorkerPc}
    (hi : s.workers[i]? = some c) (hcalm : c = .wait → s.queued = 0)
    (hst : s.workerStep maxSpinners i go c = some s') : Inv n s' := by
  cases c with
  | scan =>
    simp only [Sleep.workerStep] at hst
    split_ifs at hst with h0 hgo <;> cases hst
    · exact h.worker hi rfl rfl nofun fun _ => Nat.le_refl _
    · exact h.worker hi rfl rfl nofun fun _ => Nat.le_refl _
    · refine h.worker hi rfl rfl nofun fun _ => ?_
      simp only [WorkerPc.idle, moved]
      omega
  | running =>
    cases hst
    refine h.worker hi rfl rfl nofun fun _ => ?_
    simp only [WorkerPc.idle, moved]
    omega
  | load | unlock | wake =>
    cases hst
    exact h.worker hi rfl rfl nofun fun _ => Nat.le_refl _
  | swap cur =>
    simp only [Sleep.workerStep, Bool.and_eq_true, decide_eq_true_eq] at hst
    split_ifs at hst with hmax hcas <;> cases hst
    · refine h.worker hi rfl ?_ nofun fun _ => Nat.le_refl _
      simp only [WorkerPc.asleep]
      omega
    · exact h.worker hi rfl rfl nofun fun _ => Nat.le_refl _
    · exact h.worker hi rfl rfl nofun fun _ => Nat.le_refl _
  | lock | woken =>
    simp only [Sleep.workerStep] at hst
    split_ifs at hst
    cases hst
    exact h.worker hi rfl rfl nofun fun _ => Nat.le_refl _
  | wait =>
    cases hst
    exact h.worker hi rfl rfl (fun _ => hcalm rfl) fun hne => absurd rfl hne
  | blocked => cases hst

/-- The call of a producer moves and does not go away without a signal that somebody needs. -/
theorem Inv.called (h : Inv n s) {j : ℕ} {c c' : WakePc} (hj : s.producers[j]? = some c)
    (hs : s'.producers = s.producers.set j c') (hw : s'.workers = s.workers)
    (hn : s'.nSpinning = s.nSpinning) (hq : s'.queued = s.queued)
    (hc : .blocked ∈ s.workers → c.pending ≤ c'.pending) : Inv n s' := by
  have hset := weight_set WakePc.pending hj c'
  refine ⟨hw ▸ h.length, hw ▸ hn ▸ h.spinning, fun hmem => ?_⟩
  rw [hw] at hmem ⊢
  have henough := h.enough hmem
  have := hc hmem
  rw [hs, hq]
  omega

lemma Inv.producerStep (h : Inv n s) {j i : ℕ} {c : WakePc} (hj : s.producers[j]? = some c)
    (hst : s.producerStep j i c = some s') : Inv n s' := by
  cases c with
  | test =>
    cases hst
    refine h.called hj rfl rfl rfl rfl fun hmem => ?_
    -- a blocked worker is missing in `n_spinning`
    have hle : 1 ≤ weight WorkerPc.asleep s.workers := le_weight WorkerPc.asleep hmem
    have hspin := h.spinning
    rw [if_neg (by rw [h.length]; omega)]
    exact Nat.le_refl _
  | lock =>
    simp only [Sleep.producerStep] at hst
    split_ifs at hst
    cases hst
    exact h.called hj rfl rfl rfl rfl fun _ => Nat.le_refl _
  | signal =>
    simp only [Sleep.producerStep] at hst
    split_ifs at hst with hi hmem <;> cases hst
    · have hset := weight_set WakePc.pending hj .unlock
      refine h.worker hi rfl rfl nofun fun _ => ?_
      simp only [WorkerPc.idle, WakePc.pending, moved, Sleep.called] at hset ⊢
      omega
    · exact h.called hj rfl rfl rfl rfl fun hb => absurd hb hmem
  | unlock =>
    cases hst
    exact h.called hj rfl rfl rfl rfl fun _ => Nat.le_refl _
  | done => cases hst

lemma inv_of_calm (h : ((machine n maxSpinners).restrict Calm).Reachable s) : Inv n s := by
  refine h.invariant ?_ fun s l s' _ hinv hst => ?_
  · rintro s rfl
    refine ⟨length_replicate, ?_, fun _ => Nat.zero_le _⟩
    simp [weight_replicate, WorkerPc.asleep]
  obtain ⟨hcalm, hst⟩ := Machine.restrict_next.1 hst
  cases l with
  | worker i go =>
    obtain ⟨c, hi, hst⟩ := Option.bind_eq_some_iff.1 hst
    exact hinv.workerStep hi (fun hc => hcalm (hc ▸ hi)) hst
  | push =>
    cases hst
    refine ⟨hinv.length, hinv.spinning, fun hmem => ?_⟩
    have := hinv.enough hmem
    simp only [weight_append, weight_cons, WakePc.pending]
    omega
  | producer j i =>
    obtain ⟨c, hj, hst⟩ := Option.bind_eq_some_iff.1 hst
    exact hinv.producerStep hj hst

/-- **No wake-up is lost** in a run in which workers begin to wait only while the queues are empty. -/
theorem no_wakeup_lost (h : ((machine n maxSpinners).restrict Calm).Reachable s) : ¬ s.Lost := by
  rintro ⟨hq, hdone, hblocked, hbusy⟩
  have henough := (inv_of_calm h).enough hblocked
  have hidle : weight WorkerPc.idle s.workers = 0 := weight_eq_zero.2 fun c hc => by
    rcases hbusy c hc with rfl | rfl <;> rfl
  have hpending : weight WakePc.pending s.producers = 0 := weight_eq_zero.2 fun c hc => by
    rw [hdone c hc]
    rfl
  omega

/-- A run of two workers: worker 0 goes to sleep and is woken by a push. -/
theorem no_wakeup_lost_push : ∃ s, ((machine 2 1).restrict Calm).Reachable s ∧
    s.workers = [.woken, .running] ∧ ¬ s.Lost :=
  Machine.Reachable.exists_and (r := [.push, .worker 1 true, .producer 0 0, .worker 0 true, .worker 0 true, .worker 0 true,
      .worker 0 true, .worker 0 true, .push, .producer 1 0, .producer 1 0, .producer 1 0])
    rfl (by decide +kernel) fun _ hs _ => no_wakeup_lost hs

/-- **A wake-up is lost**: an EDT is pushed when worker 0 has found the queues empty and has not
gone to sleep. -/
theorem wakeup_lost : ∃ s, (machine 2 1).Reachable s ∧ s.Lost :=
  Machine.Reachable.exists_of_exec (r := [.push, .worker 1 true, .producer 0 0, .worker 0 true, .push,
    .producer 1 0, .worker 0 true, .worker 0 true, .worker 0 true, .worker 0 true]) rfl
    (by decide +kernel)

end Sleep

end Arts
