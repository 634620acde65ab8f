import Arts.Epoch.History

/-!
# Completion of an epoch on a single node

The finish that makes the halves of `epochCounts` equal fires the epoch. The comparison is right
(`Exact`) for fewer than `2 ^ 32` EDTs (`single_node_fires_once`, `fires_early`).
-/

namespace Arts

open List Call EdtGuid

def Config.single : Config := ⟨1, 0, 0⟩

/-- With `A` EDTs activated and `F` finished, the comparison made by the next finish is right: it
succeeds exactly if that finish is the last one. -/
def Exact (A F : ℕ) : Prop :=
  ((F + 1) % 2 ^ 32 ≠ 0 ∧ (A + F / 2 ^ 32) % 2 ^ 32 = (F + 1) % 2 ^ 32) ↔ A = F + 1

instance (A F : ℕ) : Decidable (Exact A F) := by unfold Exact; infer_instance

lemma exact_of_lt {A F : ℕ} (hA : A < 2 ^ 32) (hF : F < A) : Exact A F := by
  unfold Exact
  rw [Nat.div_eq_of_lt (by omega : F < 2 ^ 32), Nat.mod_eq_of_lt (by omega : F + 1 < 2 ^ 32),
    Nat.mod_eq_of_lt (by omega : A + 0 < 2 ^ 32)]
  omega

lemma FinishPc.afterAdd_single {A F : ℕ} (h : Exact A F) :
    FinishPc.afterAdd Config.single (packed A F) =
      if A = F + 1 then .casPhase (newFinished (packed A F)) else .done := by
  have hnf := toNat_newFinished_packed A F
  have hca := toNat_activeHalf_packed A F
  have hiff : (newFinished (packed A F) > 0 ∧
      newFinished (packed A F) = activeHalf (packed A F)) ↔ A = F + 1 := by
    unfold Exact at h
    rw [gt_iff_lt, UInt32.lt_iff_toNat_lt, ← UInt32.toNat_inj, hnf, hca, UInt32.toNat_zero, ← h]
    omega
  simp [afterAdd, Config.single, hiff]

namespace Call

variable {ε : Type*}

def onSingle : Call ε → Bool
  | .finish _ .add | .finish _ (.casPhase _) | .finish _ (.complete _) | .finish _ (.fire _) |
    .finish _ .delete | .finish _ .done => true
  | _ => false

/-- The EDT of a call that has found that it is the last one and has not fired yet. -/
def firer : Call ε → Option ε
  | .finish x (.casPhase _) | .finish x (.complete _) | .finish x (.fire _) => some x
  | _ => none

def firing (c : Call ε) : ℕ := if c.firer.isSome then 1 else 0

def ending : Call ε → ℕ
  | .finish _ (.casPhase _) | .finish _ (.complete _) | .finish _ (.fire _) |
    .finish _ .delete => 1
  | _ => 0

def claiming : Call ε → Bool
  | .finish _ (.casPhase _) => true
  | _ => false

lemma firing_of_firer {c : Call ε} {x : ε} (h : c.firer = some x) : c.firing = 1 := by
  simp [firing, h]

lemma firing_le_ending (c : Call ε) : c.firing ≤ c.ending := by
  cases c with
  | finish x pc => cases pc <;> simp [firing, firer, ending]
  | send pc | reduce a f pc => simp [firing, firer]

lemma firing_of_claiming {c : Call ε} (h : c.claiming = true) : c.firing = 1 := by
  cases c with
  | finish x pc => cases pc <;> simp_all [claiming, firing, firer]
  | send pc | reduce a f pc => simp [claiming] at h

lemma epochCounts_of_ending (ff : Bool) (e : Epoch) {c : Call ε} (hc : c.ending = 1) :
    (c.step .single ff e).1.epochCounts = e.epochCounts ∧ c.unpublished = 0 := by
  cases c with
  | finish x pc =>
    cases pc <;> simp only [step, finishStep] <;> (try split_ifs) <;>
      simp_all [ending, unpublished]
  | send pc | reduce a f pc => simp [ending] at hc

lemma onSingle_step (ff : Bool) (e : Epoch) {c : Call ε} (hc : c.onSingle = true) :
    (c.step .single ff e).2.1.onSingle = true := by
  cases c with
  | finish x pc =>
    cases pc <;> simp only [step, finishStep, FinishPc.afterAdd, Config.single] <;>
      (try split_ifs) <;> simp_all [onSingle]
  | send pc | reduce a f pc => simp [onSingle] at hc

end Call

/-- A single node, with the history of its EDTs and the EDTs whose finish fired the epoch. -/
structure Solo (ε : Type*) where
  node : Node ε
  history : History ε
  fired : List ε
  deriving DecidableEq, Repr

inductive SoloAct (ε : Type*) where
  | activate (edt : ε)
  | enqueue (edt : ε)
  | finish (edt : ε)
  /-- The `i`-th finish performs its next access. -/
  | step (i : ℕ)
  deriving DecidableEq, Repr

namespace Solo

variable {ε : Type*}

/-- The EDTs that have fired the epoch after a step of the call. -/
def record (fired : List ε) : Call ε → List ε
  | .finish edt (.fire _) => edt :: fired
  | _ => fired

def next [DecidableEq ε] (s : Solo ε) : SoloAct ε → Option (Solo ε)
  | .activate edt =>
    if s.history.CanActivate edt then
      some { s with
        node := s.node.activate
        history := { s.history with activated := edt :: s.history.activated } }
    else none
  | .enqueue edt =>
    if s.history.CanEnqueue edt then
      some { s with
        node := s.node.enqueue edt
        history := { s.history with enqueued := edt :: s.history.enqueued } }
    else none
  | .finish edt => if edt ∈ s.node.ready then some { s with node := s.node.finish edt } else none
  | .step i =>
    match s.node.calls[i]? with
    | none => none
    | some c =>
      if c.isDone then none
      else some ⟨s.node.advance .single i false c, s.history.publish c, record s.fired c⟩

def machine [DecidableEq ε] : Machine (Solo ε) (SoloAct ε) where
  init s := ∃ guid edtGuid slot, s = ⟨.create guid edtGuid slot true, ⟨[], [], []⟩, []⟩
  next := next

/-- Every finish makes its comparison at counts for which it is right. -/
def Exactly (s : Solo ε) : SoloAct ε → Prop
  | .step i => (∃ c ∈ s.node.calls[i]?, c.unpublished = 1) →
      Exact s.history.activated.length s.history.finished.length
  | _ => True

instance (s : Solo ε) (a : SoloAct ε) : Decidable (s.Exactly a) := by
  cases a <;> unfold Exactly <;> infer_instance

/-- What is known about a single node: before the epoch is quiescent nothing has fired, and from
then on the last finish is firing or has fired. -/
structure Inv (s : Solo ε) : Prop where
  ok : s.history.Ok s.node.waiting
  onSingle : ∀ c ∈ s.node.calls, c.onSingle = true
  counts : s.node.epoch.epochCounts =
    packed s.history.activated.length s.history.finished.length
  before : ¬ s.history.Quiescent → s.node.present = true ∧ s.node.epoch.phase = .phase1 ∧
    weight ending s.node.calls = 0 ∧ s.fired = []
  after : s.history.Quiescent → ∃ x, s.history.finished.head? = some x ∧
    (s.fired = [] ∧ weight firing s.node.calls = 1 ∧
        (∀ c ∈ s.node.calls, ∀ y, c.firer = some y → y = x) ∧
        (∀ c ∈ s.node.calls, c.claiming = true → s.node.epoch.phase = .phase1) ∨
      s.fired = [x] ∧ weight firing s.node.calls = 0)

variable [DecidableEq ε] {s s' : Solo ε}

lemma inv_init (h : machine.init s) : s.Inv := by
  obtain ⟨guid, edtGuid, slot, rfl⟩ := h
  refine ⟨History.ok_init, ?_, packed_zero.symm, fun _ => ⟨rfl, rfl, rfl, rfl⟩,
    fun h => absurd rfl h.1⟩
  intro c hc
  cases hc

omit [DecidableEq ε] in
lemma inv_add {i : ℕ} {x : ε} {n : Node ε} (h : s.Inv)
    (hc : s.node.calls[i]? = some (.finish x .add))
    (hexact : Exact s.history.activated.length s.history.finished.length)
    (hcalls : n.calls = s.node.calls.set i
      (.finish x (.afterAdd .single s.node.epoch.epochCounts)))
    (hwait : n.waiting + 1 = s.node.waiting) (hon : ∀ c ∈ n.calls, c.onSingle = true)
    (hcounts : n.epoch.epochCounts = s.node.epoch.epochCounts + 1)
    (hphase : n.epoch.phase = s.node.epoch.phase) (hpres : n.present = s.node.present) :
    Inv ⟨n, { s.history with finished := x :: s.history.finished }, s.fired⟩ := by
  have hn : ¬ s.history.Quiescent := fun hq => by
    have := hq.waiting_eq_zero h.ok
    omega
  obtain ⟨hpres', hph, hend, hfired⟩ := h.before hn
  rw [h.counts, FinishPc.afterAdd_single hexact] at hcalls
  refine ⟨History.Ok.finish (by rw [hwait]; exact h.ok), hon, ?_, ?_, ?_⟩
  · rw [hcounts, h.counts, packed_finish, length_cons]
  · intro hn'
    have hne : ¬ s.history.activated.length = s.history.finished.length + 1 := fun heq =>
      hn' ⟨fun hnil => by simp [show s.history.activated = [] from hnil] at heq, by simp [heq]⟩
    have hw := weight_set ending hc (.finish x .done)
    rw [if_neg hne] at hcalls
    refine ⟨hpres.trans hpres', hphase.trans hph, ?_, hfired⟩
    simp only [ending] at hw
    rw [hcalls]
    omega
  · rintro ⟨-, heq⟩
    have heq' : s.history.activated.length = s.history.finished.length + 1 := by
      simpa using heq.symm
    rw [if_pos heq'] at hcalls
    have hfire : weight firing s.node.calls = 0 := weight_eq_zero.2 fun d hd => by
      have := weight_eq_zero.1 hend d hd
      have := d.firing_le_ending
      omega
    have hw := weight_set firing hc (.finish x (.casPhase (newFinished
      (packed s.history.activated.length s.history.finished.length))))
    simp only [firing, firer, Option.isSome_some, ↓reduceIte] at hw
    refine ⟨x, rfl, .inl ⟨hfired, ?_, ?_, fun _ _ _ => hphase.trans hph⟩⟩
    · rw [hcalls]
      exact hw.trans (by rw [show weight _ s.node.calls = 0 from hfire])
    · rw [hcalls]
      refine forall_mem_set (fun d hd y hy => ?_) fun y hy => ?_
      · have := weight_eq_zero.1 hfire d hd
        rw [firing_of_firer hy] at this
        cases this
      · cases hy
        rfl

omit [DecidableEq ε] in
/-- The steps after the add: the epoch is quiescent, and the call that is about to fire is alone. -/
theorem inv_ending {i : ℕ} {c : Call ε} (h : s.Inv) (hc : s.node.calls[i]? = some c)
    (hend : c.ending = 1) :
    Inv ⟨s.node.advance .single i false c, s.history, record s.fired c⟩ := by
  have hmem := mem_of_getElem? hc
  have hq : s.history.Quiescent := by
    by_contra hn
    have := (h.before hn).2.2.1
    have := le_weight_of_getElem? ending hc
    omega
  have hwait := Node.waiting_advance .single false hc
  have hon := onSingle_step false s.node.epoch (h.onSingle c hmem)
  obtain ⟨z, hhead, hcase⟩ := h.after hq
  have hw := weight_set firing hc (c.step .single false s.node.epoch).2.1
  have hle := le_weight_of_getElem? firing hc
  obtain ⟨hcounts, hun⟩ := epochCounts_of_ending false s.node.epoch hend
  rw [hun, Nat.add_zero] at hwait
  refine ⟨by rw [hwait]; exact h.ok, forall_mem_set h.onSingle hon, hcounts.trans h.counts,
    fun hn => absurd hq hn, fun _ => ⟨z, hhead, ?_⟩⟩
  simp only [Node.advance]
  cases c with
  | send pc | reduce a f pc => simp [ending] at hend
  | finish x pc =>
    cases pc with
    | casPhase nf =>
      have h1 : (finish x (.casPhase nf)).firing = 1 := rfl
      have h1' : (finish x (.complete nf)).firing = 1 := rfl
      obtain ⟨hfired, hone, hfirer, hclaim⟩ | ⟨-, h0⟩ := hcase
      · have hph := hclaim _ hmem rfl
        simp only [step, finishStep, hph, ↓reduceIte] at hw ⊢
        refine .inl ⟨hfired, by omega, forall_mem_set hfirer fun y (hy : some x = some y) =>
          hfirer _ hmem y hy, ?_⟩
        -- nobody else can be about to claim the phase
        intro d hd hcl
        have := eq_of_mem_set_of_weight_le_one hone.le hc (by omega) hd
          (by rw [firing_of_claiming hcl]; exact Nat.one_pos)
        subst this
        cases hcl
      · omega
    | complete nf =>
      have h1 : (finish x (.complete nf)).firing = 1 := rfl
      have h1' : ((finish x (.complete nf)).step .single false s.node.epoch).2.1.firing = 1 :=
        rfl
      obtain ⟨hfired, hone, hfirer, hclaim⟩ | ⟨-, h0⟩ := hcase
      · exact .inl ⟨hfired, by omega, forall_mem_set hfirer fun y (hy : some x = some y) =>
          hfirer _ hmem y hy, forall_mem_set hclaim (by rintro ⟨⟩)⟩
      · omega
    | fire nf =>
      have h1 : (finish x (.fire nf)).firing = 1 := rfl
      have h1' : ((finish x (.fire nf)).step .single false s.node.epoch).2.1.firing = 0 := rfl
      obtain ⟨hfired, hone, hfirer, hclaim⟩ | ⟨-, h0⟩ := hcase
      · refine .inr ⟨?_, by omega⟩
        rw [record, hfired, hfirer _ hmem x rfl]
      · omega
    | delete =>
      have h1 : (finish x .delete).firing = 0 := rfl
      have h1' : ((finish x .delete).step .single false s.node.epoch).2.1.firing = 0 := rfl
      obtain ⟨hfired, hone, hfirer, hclaim⟩ | ⟨hfired, h0⟩ := hcase
      · exact .inl ⟨hfired, by omega, forall_mem_set hfirer (by rintro _ ⟨⟩), forall_mem_set hclaim (by rintro ⟨⟩)⟩
      · exact .inr ⟨hfired, by omega⟩
    | _ => simp [ending] at hend

omit [DecidableEq ε] in
lemma inv_step {i : ℕ} {c : Call ε} (h : s.Inv) (hc : s.node.calls[i]? = some c)
    (hd : c.isDone = false) (hexact : c.unpublished = 1 →
      Exact s.history.activated.length s.history.finished.length) :
    Inv ⟨s.node.advance .single i false c, s.history.publish c, record s.fired c⟩ := by
  have hmem := mem_of_getElem? hc
  have hon := h.onSingle c hmem
  have hon' := forall_mem_set (i := i) h.onSingle (onSingle_step false s.node.epoch hon)
  cases c with
  | finish x pc =>
    cases pc with
    | add =>
      exact inv_add h hc (hexact rfl) rfl (Node.waiting_advance .single false hc) hon' rfl rfl
        (by simp [Node.advance, step, finishStep])
    | casPhase | complete | fire | delete => exact inv_ending h hc rfl
    | done => simp [isDone] at hd
    | subQueued | casOutstanding | broadcast | load | cas | send => simp [onSingle] at hon
  | send pc | reduce a f pc => simp [onSingle] at hon

lemma inv_next {a : SoloAct ε} (h : s.Inv) (hok : s.Exactly a)
    (hst : machine.next s a = some s') : s'.Inv := by
  simp only [machine] at hst
  cases a with
  | activate edt =>
    simp only [next] at hst
    split_ifs at hst with hcan
    cases hst
    have hn : ¬ s.history.Quiescent := fun hq => hq.not_canActivate hcan
    obtain ⟨hpres, hph, hend, hfired⟩ := h.before hn
    refine ⟨by simpa using h.ok.activate hcan, by simpa using h.onSingle, ?_,
      fun _ => ⟨by simpa using hpres, by simpa using hph, by simpa using hend, hfired⟩, ?_⟩
    · simp [Node.activate_epoch hpres, h.counts, packed_activate]
    · rintro ⟨-, heq⟩
      have := h.ok.finished_add_le
      simp only [length_cons] at heq
      omega
  | enqueue edt =>
    simp only [next] at hst
    split_ifs at hst with hcan
    cases hst
    refine ⟨by simpa using h.ok.enqueue hcan, h.onSingle, by simpa using h.counts, fun hn => ?_,
      fun hq => ?_⟩
    · simpa using h.before hn
    · simpa using h.after hq
  | finish edt =>
    simp only [next] at hst
    split_ifs at hst with hmem
    cases hst
    have hok := h.ok.mono (s.node.waiting_finish hmem)
    by_cases hpres : s.node.present = true
    · have hcalls := Node.finish_calls hpres edt
      refine ⟨hok, ?_, h.counts, fun hn => ?_, fun hq => ?_⟩
      · simp only [hcalls]
        exact forall_mem_append_singleton h.onSingle rfl
      · simpa [hcalls, ending] using h.before hn
      · obtain ⟨z, hhead, ⟨hfired, hone, hfirer, hclaim⟩ | ⟨hfired, h0⟩⟩ := h.after hq
        · refine ⟨z, hhead, .inl ⟨hfired, ?_, ?_, ?_⟩⟩ <;> simp only [hcalls]
          · simpa [firing, firer] using hone
          · exact forall_mem_append_singleton hfirer nofun
          · exact forall_mem_append_singleton hclaim nofun
        · refine ⟨z, hhead, .inr ⟨hfired, ?_⟩⟩
          simpa [hcalls, firing, firer] using h0
    · have hcalls := Node.finish_calls_of_not_present hpres edt
      refine ⟨hok, ?_, h.counts, fun hn => ?_, fun hq => ?_⟩ <;> simp only [hcalls]
      · exact h.onSingle
      · exact h.before hn
      · exact h.after hq
  | step i =>
    simp only [next] at hst
    split at hst
    · cases hst
    · rename_i c hc
      split_ifs at hst with hd
      cases hst
      exact inv_step h hc (by simpa using hd) fun hun => hok ⟨c, hc, hun⟩

lemma reachable_inv (h : (machine.restrict Exactly).Reachable s) : s.Inv :=
  h.invariant (fun _ => inv_init) fun _ _ _ _ hi hst =>
    inv_next hi (Machine.restrict_next.1 hst).1 (Machine.restrict_next.1 hst).2

/-- Fewer than `2 ^ 32` EDTs are activated. -/
def Few (s : Solo ε) : SoloAct ε → Prop
  | .activate _ => s.history.activated.length + 1 < 2 ^ 32
  | _ => True

instance (s : Solo ε) (a : SoloAct ε) : Decidable (s.Few a) := by
  cases a <;> unfold Few <;> infer_instance

end Solo

/-- **A single-node epoch fires exactly once, at the last finish**, if every finish compares exact
counts. -/
theorem single_node_fires_once {ε : Type*} [DecidableEq ε] {s : Solo ε}
    (h : (Solo.machine.restrict Solo.Exactly).Reachable s) :
    (∀ x ∈ s.fired, s.fired = [x] ∧ s.history.Quiescent ∧ s.history.finished.head? = some x) ∧
      (s.history.Quiescent → s.node.Idle → s.fired ≠ []) := by
  have hi := Solo.reachable_inv h
  refine ⟨fun x hx => ?_, fun hq hidle => ?_⟩
  · have hq : s.history.Quiescent := by
      by_contra hn
      rw [(hi.before hn).2.2.2] at hx
      cases hx
    obtain ⟨z, hhead, ⟨hfired, -⟩ | ⟨hfired, -⟩⟩ := hi.after hq
    · rw [hfired] at hx
      cases hx
    · rw [hfired, mem_singleton] at hx
      subst hx
      exact ⟨hfired, hq, hhead⟩
  · obtain ⟨z, -, ⟨-, hone, -⟩ | ⟨hfired, -⟩⟩ := hi.after hq
    · have hzero : weight firing s.node.calls = 0 := weight_eq_zero.2 fun c hc => by
        have := hidle c hc
        cases c <;> simp_all [isDone, firing, firer]
      omega
    · simp [hfired]

/-- Two EDTs, the second one activated by the first: the second one fires the epoch. -/
theorem single_node_fires_once_two :
    ∃ s : Solo EdtGuid, (Solo.machine.restrict Solo.Exactly).Reachable s ∧ s.history.Quiescent ∧
      s.fired ≠ [] := by
  let x := ofKey 1
  let y := ofKey 2
  obtain ⟨s, hr, hq, hidle⟩ :=
    Machine.Reachable.exists_of_exec (M := Solo.machine.restrict Solo.Exactly)
      (P := fun s : Solo EdtGuid => s.history.Quiescent ∧ s.node.Idle)
      (r := flatten [
        [.activate x, .enqueue x, .activate y, .enqueue y, .finish x, .finish y, .step 0],
        replicate 5 (.step 1)])
      ⟨0, 0, 0, rfl⟩ (by decide +kernel)
  exact ⟨s, hr, hq, (single_node_fires_once hr).2 hq hidle⟩

section Crowd

/-- The EDTs with the keys below `k`. -/
def crowd : ℕ → List EdtGuid
  | 0 => []
  | k + 1 => ofKey (UInt64.ofNat k) :: crowd k

lemma length_crowd (k : ℕ) : (crowd k).length = k := by
  induction k with
  | zero => rfl
  | succ k ih => rw [crowd, length_cons, ih]

lemma ofKey_notMem_crowd {j k : ℕ} (hkj : k ≤ j) (hj : j < 2 ^ 40) :
    ofKey (UInt64.ofNat j) ∉ crowd k := by
  induction k with
  | zero => exact not_mem_nil
  | succ k ih =>
    have htoNat : ∀ i, i < 2 ^ 40 → (UInt64.ofNat i).toNat = i := fun i hi => by
      rw [UInt64.toNat_ofNat']
      omega
    rw [crowd, mem_cons, not_or]
    refine ⟨fun h => ?_, ih (by omega)⟩
    have hkey := (ofKey_inj (by rw [htoNat j hj]; exact hj)
      (by rw [htoNat k (by omega)]; omega)).1 h
    have := congrArg UInt64.toNat hkey
    rw [htoNat j hj, htoNat k (by omega)] at this
    omega

/-- A single node on which the first EDT is queued and has activated `k` others. -/
def crowded (k : ℕ) : Solo EdtGuid where
  node :=
    { epoch := { Epoch.create 0 0 0 true with epochCounts := packed (k + 1) 0, queued := 1 }
      present := true
      ready := [ofKey 0]
      calls := [] }
  history := ⟨crowd (k + 1), [ofKey 0], []⟩
  fired := []

lemma reachable_crowded {k : ℕ} (hk : k < 2 ^ 40 - 1) : Solo.machine.Reachable (crowded k) := by
  induction k with
  | zero =>
    refine ⟨⟨.create 0 0 0 true, ⟨[], [], []⟩, []⟩, ⟨0, 0, 0, rfl⟩,
      [.activate (ofKey 0), .enqueue (ofKey 0)], ?_⟩
    decide +kernel
  | succ k ih =>
    refine (ih (by omega)).next (l := .activate (ofKey (UInt64.ofNat (k + 1)))) ?_
    have hcan : (crowded k).history.CanActivate (ofKey (UInt64.ofNat (k + 1))) :=
      ⟨ofKey_notMem_crowd le_rfl (by omega), .inr (by simp [crowded, length_crowd])⟩
    simp only [Solo.machine, Solo.next, if_pos hcan]
    simp [crowded, Node.activate, packed_activate, crowd]

/-- **Firing early.** `2 ^ 32 + 1` EDTs are activated, so the active half is `1` when the first one
finishes. -/
theorem fires_early :
    ∃ s : Solo EdtGuid, Solo.machine.Reachable s ∧ s.fired ≠ [] ∧
      s.history.finished.length < s.history.activated.length := by
  have hreach := reachable_crowded (k := 2 ^ 32) (by decide)
  have hlen : (crowded (2 ^ 32)).history.activated.length = 2 ^ 32 + 1 := length_crowd _
  -- the steps do not look at the EDTs activated so far
  have hrun : ∀ acts : List EdtGuid, ∃ n : Node EdtGuid,
      Solo.machine.exec { crowded (2 ^ 32) with history := ⟨acts, [ofKey 0], []⟩ }
        [.finish (ofKey 0), .step 0, .step 0, .step 0, .step 0] =
      some ⟨n, ⟨acts, [ofKey 0], [ofKey 0]⟩, [ofKey 0]⟩ := by
    intro acts
    have hafter : FinishPc.afterAdd .single (packed 4294967297 0) = .casPhase 1 := by decide
    simp [Solo.machine, Solo.next, crowded, Node.finish, Node.start, Node.advance, step,
      finishStep, isDone, hafter, History.publish, Solo.record, Epoch.create]
  obtain ⟨n, hn⟩ := hrun (crowded (2 ^ 32)).history.activated
  refine ⟨_, hreach.leads ⟨_, hn⟩, by simp, ?_⟩
  simp only [hlen]
  decide

end Crowd

end Arts
