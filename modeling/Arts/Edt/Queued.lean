import Arts.Db.Acquisition
import Arts.Edt.AcquireDbs

/-!
# When an EDT is put on a ready queue

Each slot takes one off `depc_needed`; whoever takes the last one queues the EDT. With regular
slots it is queued exactly once (`ReadyEdt.queued_once`), otherwise perhaps never or too early.
-/

namespace Arts

open List Option

variable (e : EdtSite)

/-- A pointer to the data of a slot. -/
abbrev Payload := { p : SlotPtr // p ≠ .addr 0 }

/-- What a completion writes into the slot. A datablock may have been destroyed in the meantime. -/
def Completion.write (d : DepSlot) : Completion → Option Payload → Option DepSlot
  | .callback, some p | .frontier, some p => some { d with ptr := p }
  | .callback, none | .frontier, none => some { d with guid := Guid.null, ptr := .addr 0 }
  | .localSlice, some p | .sliceSignal, some p =>
    some { d with ptr := p, mode := .ptr, sliceOffset := 0, sliceSize := 0 }
  | .localSlice, none | .sliceSignal, none => none

structure ReadyEdt where
  depv : List DepSlot
  /-- `depc_needed` -/
  needed : UInt32 := 0
  /-- The calls of `arts_handle_ready_edt`, with the slots that `acquire_dbs` has not come to. -/
  runs : List (List ℕ) := []
  /-- The completions that are registered, with their slots. -/
  pending : List (ℕ × Completion) := []
  /-- How often the EDT has been put on a ready queue. -/
  queued : ℕ := 0
  deriving DecidableEq

namespace ReadyEdt

/-- `arts_handle_ready_edt` is called. -/
def handleReady (s : ReadyEdt) : ReadyEdt :=
  { s with
    needed := .ofNat (s.depv.length + 1)
    runs := s.runs ++ [sortSlots (fun k => (s.depv[k]?.map DepSlot.guid).getD 0) s.depv.length] }

def enqueue (s : ReadyEdt) : ReadyEdt :=
  if s.needed = 0 then { s with queued := s.queued + 1 } else s

/-- The `k`-th completion writes the slot `i` and counts it. -/
def deliver (s : ReadyEdt) (k i : ℕ) (d : DepSlot) : ReadyEdt :=
  { s with
    depv := s.depv.set i d
    needed := s.needed - 1
    pending := s.pending.eraseIdx k }

/-- The end of a completion. `internal_signal_edt_ex` takes the EDT for one that has become ready. -/
def completed (c : Completion) (s : ReadyEdt) : ReadyEdt :=
  if c = .sliceSignal ∧ s.needed = 0 then s.handleReady else s.enqueue

inductive Act where
  /-- The `j`-th call comes to its next slot. -/
  | acquire (j : ℕ) (db : Option DbView)
  /-- The `j`-th call has visited the slots and takes off the sentinel. -/
  | sentinel (j : ℕ)
  /-- The `k`-th completion happens. -/
  | complete (k : ℕ) (data : Option Payload)
  deriving DecidableEq

def next (s : ReadyEdt) : Act → Option ReadyEdt
  | .acquire j db =>
    match s.runs[j]? with
    | some (i :: is) => do
      let d ← s.depv[i]?
      let r ← acquireSlot e i d db
      some { s with
        depv := s.depv.set i r.slot
        needed := if r.counted then s.needed - 1 else s.needed
        runs := s.runs.set j is
        pending := s.pending ++ r.completions.map fun c => (i, c) }
    | _ => none
  | .sentinel j =>
    if s.runs[j]? = some [] then
      some (enqueue { s with needed := s.needed - 1, runs := s.runs.eraseIdx j })
    else none
  | .complete k data => do
    let p ← s.pending[k]?
    let d ← s.depv[p.1]?
    let d' ← p.2.write d data
    some (completed p.2 (s.deliver k p.1 d'))

/-- An EDT with any slots becomes ready. -/
def machine : Machine ReadyEdt Act where
  init s := s.depv.length < 2 ^ 32 ∧ s = handleReady { depv := s.depv }
  next := next e

/-- The slot that a call comes to is regular. -/
def Visits (s : ReadyEdt) : Act → Prop
  | .acquire j db =>
    ∀ i ∈ (s.runs[j]?.getD []).head?, ∀ d ∈ s.depv[i]?, Regular e d db
  | _ => True

instance (s : ReadyEdt) (l : Act) : Decidable (s.Visits e l) := by
  unfold Visits
  split <;> infer_instance

def outstanding (s : ReadyEdt) : ℕ := weight (fun r => r.length + 1) s.runs + s.pending.length

/-- How often the slot `i` is still to be visited or completed. -/
def visits (s : ReadyEdt) (i : ℕ) : ℕ :=
  weight (count i) s.runs + weight (fun p => if p.1 = i then 1 else 0) s.pending

/-- The slots that need a datablock and do not have it yet. -/
def unsettled (s : ReadyEdt) : ℕ := weight (fun d => (!d.settled).toNat) s.depv

/-- The steps that are left: each slot without its datablock may lead to another call. -/
def left (s : ReadyEdt) : ℕ :=
  (s.depv.length + 2) * s.unsettled + weight (fun r => r.length + 1) s.runs

/-! ### Steps -/

section Steps

variable {e} {s s' : ReadyEdt}

lemma outstanding_eq_zero : s.outstanding = 0 ↔ s.runs = [] ∧ s.pending = [] := by
  unfold outstanding
  rw [Nat.add_eq_zero_iff, length_eq_zero_iff, weight_eq_zero]
  simp [eq_nil_iff_forall_not_mem]

variable {j : ℕ}

/-- What a call does with the next slot, if it is regular: it counts it, or registers one completion. -/
theorem acquire_cases {db : Option DbView} (hok : s.Visits e (.acquire j db))
    (hst : next e s (.acquire j db) = some s') :
    ∃ i is d, s.runs[j]? = some (i :: is) ∧ s.depv[i]? = some d ∧
      ((∃ d' : DepSlot, d'.settled ∧ s' = { s with
          depv := s.depv.set i d', needed := s.needed - 1, runs := s.runs.set j is }) ∨
        ∃ c, ¬ d.settled ∧ s' = { s with
          depv := s.depv.set i (d.promote e.ranks)
          runs := s.runs.set j is
          pending := s.pending ++ [(i, c)] }) := by
  unfold next at hst
  dsimp only at hst
  split at hst
  case h_2 => cases hst
  case h_1 i is hrun =>
    obtain ⟨d, hd, hst⟩ := bind_eq_some_iff.1 hst
    refine ⟨i, is, d, hrun, hd, ?_⟩
    have hreg : Regular e d db := hok i (by rw [hrun]; rfl) d hd
    rcases acquireSlot_cases hreg with ⟨d', hr, hset⟩ | ⟨c, hr, hset⟩
    · rw [hr] at hst
      exact .inl ⟨d', hset, by simpa using (some.inj hst).symm⟩
    · rw [hr] at hst
      exact .inr ⟨c, hset, by simpa using (some.inj hst).symm⟩

lemma sentinel_cases (hst : next e s (.sentinel j) = some s') : s.runs[j]? = some [] ∧
      s' = enqueue { s with needed := s.needed - 1, runs := s.runs.eraseIdx j } := by
  obtain ⟨hrun, hst⟩ := ite_none_right_eq_some.1 hst
  exact ⟨hrun, (some.inj hst).symm⟩

variable {data : Option Payload}

lemma settled_write {c : Completion} {d d' : DepSlot}
    (h : c.write d data = some d') : d'.settled := by
  cases data with
  | none =>
    cases c <;> simp only [Completion.write, some.injEq, reduceCtorEq] at h
    all_goals
      subst h
      exact settled_iff.2 (.inl rfl)
  | some p =>
    cases c <;> simp only [Completion.write, some.injEq] at h
    all_goals
      subst h
      exact settled_iff.2 (.inr (.inl p.2))

lemma complete_cases {k : ℕ} (hst : next e s (.complete k data) = some s') :
    ∃ p d d', s.pending[k]? = some p ∧ s.depv[p.1]? = some d ∧ d'.settled ∧
      s' = completed p.2 (s.deliver k p.1 d') := by
  obtain ⟨p, hp, hst⟩ := bind_eq_some_iff.1 hst
  obtain ⟨d, hd, hst⟩ := bind_eq_some_iff.1 hst
  obtain ⟨d', hd', hst⟩ := bind_eq_some_iff.1 hst
  exact ⟨p, d, d', hp, hd, settled_write hd', (some.inj hst).symm⟩

end Steps

/-! ### The invariant -/

/-- The counter and the slots. -/
structure Inv (s : ReadyEdt) : Prop where
  depc_lt : s.depv.length < 2 ^ 32
  le : s.outstanding ≤ s.depv.length + 1
  needed : s.needed = .ofNat s.outstanding
  queued : s.queued = if s.outstanding = 0 then 1 else 0
  once : ∀ i, s.visits i ≤ 1
  waits : ∀ p ∈ s.pending, ∃ d, s.depv[p.1]? = some d ∧ ¬ d.settled

section Run

variable {e} {s s' : ReadyEdt}

lemma inv_handleReady (hlt : s.depv.length < 2 ^ 32) (hruns : s.runs = [])
    (hpending : s.pending = []) (hqueued : s.queued = 0) : s.handleReady.Inv := by
  have hperm : (sortSlots (fun k => (s.depv[k]?.map DepSlot.guid).getD 0) s.depv.length).Perm _ :=
    sortSlots_perm s.depv.length
  have hout : s.handleReady.outstanding = s.depv.length + 1 := by
    simp [outstanding, handleReady, hruns, hpending, hperm.length_eq]
  refine ⟨hlt, hout.le, by rw [hout]; rfl, ?_, fun i => ?_, ?_⟩
  · rw [hout, if_neg (Nat.succ_ne_zero _)]
    exact hqueued
  · have hnodup := hperm.nodup_iff.2 nodup_range
    simpa [visits, handleReady, hruns, hpending] using nodup_iff_count_le_one.1 hnodup i
  · rw [handleReady, hpending]
    simp

lemma Inv.sub_eq_zero (h : s.Inv) (hpos : 0 < s.outstanding) :
    s.needed - 1 = 0 ↔ s.outstanding = 1 := by
  have := h.depc_lt
  have := h.le
  rw [h.needed, UInt32.ofNat_sub_one_eq_zero hpos (by omega)]

lemma Inv.counted (h : s.Inv) {t : ReadyEdt} (hdepv : t.depv.length = s.depv.length)
    (hout : t.outstanding + 1 = s.outstanding) (hneeded : t.needed = s.needed - 1)
    (hqueued : t.queued = s.queued) (honce : ∀ i, t.visits i ≤ s.visits i)
    (hwaits : ∀ p ∈ t.pending, ∃ d, t.depv[p.1]? = some d ∧ ¬ d.settled) : t.enqueue.Inv := by
  have hsub : t.needed = .ofNat t.outstanding := by
    rw [hneeded, h.needed, UInt32.ofNat_sub_one (by omega), ← hout, Nat.add_sub_cancel]
  have hzero : t.needed = 0 ↔ t.outstanding = 0 := by
    rw [hneeded, h.sub_eq_zero (by omega)]
    omega
  have hnone : t.queued = 0 := by rw [hqueued, h.queued, if_neg (by omega)]
  have hlt : t.depv.length < 2 ^ 32 := hdepv ▸ h.depc_lt
  have hle : t.outstanding ≤ t.depv.length + 1 := by
    have := h.le
    omega
  have honce' : ∀ i, t.visits i ≤ 1 := fun i => (honce i).trans (h.once i)
  unfold enqueue
  split_ifs with hn
  · refine ⟨hlt, hle, hsub, ?_, honce', hwaits⟩
    show t.queued + 1 = if t.outstanding = 0 then 1 else 0
    rw [if_pos (hzero.1 hn), hnone]
  · refine ⟨hlt, hle, hsub, ?_, honce', hwaits⟩
    rw [if_neg fun ho => hn (hzero.2 ho), hnone]

variable {j : ℕ} {p : ℕ × Completion}

lemma Inv.ne_of_mem (h : s.Inv) {i : ℕ} {is : List ℕ} (hrun : s.runs[j]? = some (i :: is)) (hp : p ∈ s.pending) : i ≠ p.1 := by
  rintro rfl
  have hone := h.once p.1
  have hr := le_weight_of_getElem? (count p.1) hrun
  have hq := le_weight (fun q : ℕ × Completion => if q.1 = p.1 then 1 else 0) hp
  rw [count_cons_self] at hr
  simp only [if_true] at hq
  unfold visits at hone
  omega

lemma Inv.acquire (h : s.Inv) {db : Option DbView} (hok : s.Visits e (.acquire j db))
    (hst : next e s (.acquire j db) = some s') : s'.Inv ∧ s'.left < s.left := by
  obtain ⟨i, is, d, hrun, hd, hcase⟩ := acquire_cases hok hst
  have hlen := weight_set (fun r => r.length + 1) hrun is
  rw [length_cons] at hlen
  have hvisits : ∀ k, weight (count k) (s.runs.set j is) + (if i = k then 1 else 0) =
      weight (count k) s.runs := by
    intro k
    have := weight_set (count k) hrun is
    rw [count_cons] at this
    by_cases hik : i = k
    · simp only [hik, beq_self_eq_true] at this ⊢
      omega
    · simp only [beq_iff_eq] at this ⊢
      omega
  have hwaits : ∀ (d' : DepSlot), ∀ p ∈ s.pending,
      ∃ x, (s.depv.set i d')[p.1]? = some x ∧ ¬ x.settled := by
    intro d' p hp
    rw [getElem?_set_ne (h.ne_of_mem hrun hp)]
    exact h.waits p hp
  rcases hcase with ⟨d', hset, rfl⟩ | ⟨c, hset, rfl⟩
  · have hslots := weight_set (fun d => (!d.settled).toNat) hd d'
    simp only [hset, Bool.not_true, Bool.toNat_false] at hslots
    have hout : outstanding { s with
        depv := s.depv.set i d', needed := s.needed - 1, runs := s.runs.set j is } + 1 =
        s.outstanding := by
      simp only [outstanding]
      omega
    refine ⟨?_, ?_⟩
    · have hinv := h.counted (length_set ..) hout rfl rfl
        (fun k => by have := hvisits k; simp only [visits]; omega) (hwaits d')
      -- the call itself is still to be counted
      have hpos : s.outstanding ≠ 1 := by
        have := le_weight (fun r : List ℕ => r.length + 1)
          (List.mem_set (List.getElem?_eq_some_iff.1 hrun).1 is)
        simp only [outstanding] at hout ⊢
        omega
      rwa [enqueue, if_neg fun hz => hpos ((h.sub_eq_zero (by omega)).1 hz)] at hinv
    · have hu : weight (fun d => (!d.settled).toNat) (s.depv.set i d') ≤ s.unsettled := by
        unfold unsettled
        omega
      have := Nat.mul_le_mul_left (s.depv.length + 2) hu
      simp only [left, unsettled, length_set] at this ⊢
      omega
  · have hset' : ¬ (d.promote e.ranks).settled := fun hs => hset ((settled_promote _).1 hs)
    have hslots := weight_set (fun d => (!d.settled).toNat) hd (d.promote e.ranks)
    simp only [Bool.eq_false_iff.2 hset, Bool.eq_false_iff.2 hset'] at hslots
    have hout : outstanding { s with
        depv := s.depv.set i (d.promote e.ranks), runs := s.runs.set j is,
        pending := s.pending ++ [(i, c)] } = s.outstanding := by
      simp only [outstanding, length_append, length_singleton]
      omega
    refine ⟨⟨?_, ?_, ?_, ?_, fun k => ?_, ?_⟩, ?_⟩
    · simpa using h.depc_lt
    · rw [hout, length_set]
      exact h.le
    · rw [hout]
      exact h.needed
    · rw [hout]
      exact h.queued
    · have := hvisits k
      have hone := h.once k
      simp only [visits, weight_append, weight_cons, weight_nil] at hone ⊢
      omega
    · refine forall_mem_append_singleton (hwaits _) ⟨_, ?_, hset'⟩
      exact List.getElem?_set_self (List.getElem?_eq_some_iff.1 hd).1
    · have hu : weight (fun d => (!d.settled).toNat) (s.depv.set i (d.promote e.ranks)) =
          s.unsettled := by
        unfold unsettled
        omega
      simp only [left, unsettled, length_set] at hu ⊢
      rw [hu]
      omega

lemma left_handleReady (hruns : s.runs = []) :
    s.handleReady.left = (s.depv.length + 2) * s.unsettled + (s.depv.length + 1) := by
  simp [left, unsettled, handleReady, hruns, (sortSlots_perm _).length_eq]

lemma left_enqueue (s : ReadyEdt) : s.enqueue.left = s.left := by
  unfold enqueue
  split_ifs <;> rfl

lemma Inv.sentinel (h : s.Inv) (hst : next e s (.sentinel j) = some s') :
    s'.Inv ∧ s'.left < s.left := by
  obtain ⟨hrun, rfl⟩ := sentinel_cases hst
  have hlen := weight_eraseIdx (fun r : List ℕ => r.length + 1) hrun
  rw [length_nil] at hlen
  refine ⟨h.counted rfl ?_ rfl rfl (fun k => ?_) h.waits, ?_⟩
  · simp only [outstanding]
    omega
  · have := weight_eraseIdx (count k) hrun
    simp only [visits]
    omega
  · rw [left_enqueue]
    simp only [left, unsettled]
    omega

variable {k : ℕ}

lemma Inv.deliver (h : s.Inv) (hp : s.pending[k]? = some p) {d : DepSlot} (hset : d.settled) :
    (s.deliver k p.1 d).enqueue.Inv ∧ (s.deliver k p.1 d).outstanding + 1 = s.outstanding ∧
      (s.deliver k p.1 d).unsettled + 1 = s.unsettled := by
  obtain ⟨x, hx, hxset⟩ := h.waits p (mem_of_getElem? hp)
  have hvisits := fun i => weight_eraseIdx (fun q : ℕ × Completion => if q.1 = i then 1 else 0) hp
  have hout : (s.deliver k p.1 d).outstanding + 1 = s.outstanding := by
    have hlen := List.length_eraseIdx_of_lt (List.getElem?_eq_some_iff.1 hp).1
    have hlt := (List.getElem?_eq_some_iff.1 hp).1
    simp only [outstanding, ReadyEdt.deliver]
    omega
  refine ⟨h.counted (length_set ..) hout rfl rfl (fun i => ?_) ?_, hout, ?_⟩
  · have := hvisits i
    simp only [visits, ReadyEdt.deliver]
    omega
  · intro q hq
    have hne : p.1 ≠ q.1 := by
      intro heq
      have hone := h.once p.1
      have hv := hvisits p.1
      have hle := le_weight (fun q : ℕ × Completion => if q.1 = p.1 then 1 else 0) hq
      simp only [heq, if_true] at hle hv hone
      simp only [visits, ReadyEdt.deliver] at hone hle
      omega
    obtain ⟨y, hy, hyset⟩ := h.waits q (eraseIdx_subset hq)
    exact ⟨y, (getElem?_set_ne hne).trans hy, hyset⟩
  · have hslots := weight_set (fun d => (!d.settled).toNat) hx d
    simp only [hset, Bool.eq_false_iff.2 hxset] at hslots
    exact hslots

lemma Inv.complete (h : s.Inv) {data : Option Payload}
    (hst : next e s (.complete k data) = some s') : s'.Inv ∧ s'.left < s.left := by
  obtain ⟨p, d, d', hp, hd, hset, rfl⟩ := complete_cases hst
  obtain ⟨hinv, hout, hunsettled⟩ := h.deliver hp hset
  have hlen : (s.deliver k p.1 d').depv.length = s.depv.length := length_set ..
  have hmul : (s.depv.length + 2) * (s.deliver k p.1 d').unsettled + (s.depv.length + 2) =
      (s.depv.length + 2) * s.unsettled := by
    rw [← hunsettled, Nat.mul_succ]
  unfold completed
  split_ifs with hagain
  · have hone := (h.sub_eq_zero (by omega)).1 hagain.2
    obtain ⟨hruns, hpending⟩ := outstanding_eq_zero.1 (by omega :
      (s.deliver k p.1 d').outstanding = 0)
    have hqueued : s.queued = 0 := by rw [h.queued, if_neg (by omega)]
    refine ⟨inv_handleReady (by rw [hlen]; exact h.depc_lt) hruns hpending hqueued, ?_⟩
    rw [left_handleReady hruns, hlen, left]
    omega
  · refine ⟨hinv, ?_⟩
    rw [left_enqueue, left, left, hlen]
    show _ + weight _ s.runs < _
    omega

/-- **Every step keeps the counter right, and there are only so many.** -/
theorem Inv.next (h : s.Inv) {l : Act} (hok : s.Visits e l) (hst : next e s l = some s') :
    s'.Inv ∧ s'.left < s.left := by
  cases l with
  | acquire j db => exact h.acquire hok hst
  | sentinel j => exact h.sentinel hst
  | complete k data => exact h.complete hst

end Run

/-- An EDT of rank 0. -/
def aReady : EdtSite := ⟨0, 2, .ofKey 1⟩

/-- A slot with a value and a slice of a datablock of rank 1. -/
def valueAndSlice : List DepSlot :=
  [{ guid := 7, mode := .value }, { guid := Guid.make 6 1 1, mode := .ro, sliceSize := 8 }]

/-- A slot with the GUID of an event. -/
def anEvent : DepSlot := { guid := Guid.make 2 0 1, mode := .ro }

/-- Slots with a datablock of rank 0 and one of rank 1. -/
def twoDbs : List DepSlot :=
  [{ guid := Guid.make 6 0 1, mode := .ro }, { guid := Guid.make 6 1 1, mode := .ew }]

/-- The datablock of rank 0 while rank 1 writes it. -/
def writtenByOne : DbView where
  dbType := .dbDefault
  validRank := 1
  frontiers := some [{ writeSet := true, list := [1] }]
  addr := 8
  addr_ne := by decide

end ReadyEdt

end Arts
