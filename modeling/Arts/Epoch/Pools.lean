import Arts.Machine.Basic

/-!
# Pools of epochs

A pool is freed at the end of a wait, at the end, or by `delete_epoch` if another rank owns it:
once, and not while somebody waits (**`EpochPools.safe_of_fit`**), unless `delete_epoch` leaves it
linked.
-/

namespace Arts

open List Function Option

/-- `arts_epoch_pool_t` -/
structure EpochPool where
  /-- The pool belongs to this rank. -/
  owned : Bool := true
  size : ℕ := 0
  index : ℕ := 0
  outstanding : ℕ := 0
  deriving DecidableEq

structure EpochPools where
  pool : ℕ → EpochPool := fun _ => {}
  /-- The number of pools that have been created. -/
  created : ℕ := 0
  /-- `epoch_thread_pool`, for each thread -/
  threadPool : ℕ → List ℕ := fun _ => []
  freed : List ℕ := []
  /-- The epochs that `get_pool_epoch` has returned, and those of them that have not completed. -/
  given : List (ℕ × ℕ) := []
  active : List (ℕ × ℕ) := []
  /-- The epochs that are waited for, with the thread; the innermost wait is the first. -/
  waits : List (ℕ × ℕ × ℕ) := []
  /-- The pools that a message has removed from the route table. -/
  deleted : List ℕ := []

namespace EpochPools

/-- `DEFAULT_EPOCH_POOL_SIZE` -/
def defaultSize : ℕ := 4096

/-- `create_epoch_pool` -/
def createPool (s : EpochPools) (owned : Bool) (size : ℕ) : EpochPools :=
  { s with
    pool := update s.pool s.created ⟨owned, size, 0, size⟩
    created := s.created + 1 }

/-- `arts_remote_handle_epoch_init_pool_send` -/
def initPool (s : EpochPools) (t size : ℕ) : EpochPools :=
  { s.createPool false size with
    threadPool := update s.threadPool t (s.created :: s.threadPool t) }

/-- The next epoch of the pool is returned. -/
def take (s : EpochPools) (p : ℕ) : EpochPools :=
  let e := (p, (s.pool p).index)
  { s with
    pool := update s.pool p { s.pool p with index := (s.pool p).index + 1 }
    given := s.given ++ [e]
    active := s.active ++ [e] }

/-- `get_pool_epoch` -/
def getPoolEpoch (s : EpochPools) (t : ℕ) : EpochPools :=
  match (s.threadPool t).find? fun p => (s.pool p).index < (s.pool p).size with
  | some p => s.take p
  | none =>
    take { s.createPool true defaultSize with
      threadPool := update s.threadPool t (s.threadPool t ++ [s.created]) } s.created

/-- `delete_epoch`, for an epoch of this rank -/
def deleteEpoch (s : EpochPools) (e : ℕ × ℕ) : EpochPools :=
  { s with
    pool := update s.pool e.1 { s.pool e.1 with outstanding := (s.pool e.1).outstanding - 1 }
    active := s.active.erase e }

/-- The loop of `clean_epoch_pool`: the pools that stay and those that are freed. The size is that of the
first pool of the list. -/
def cleanLoop (pool : ℕ → EpochPool) : List ℕ → List ℕ → List ℕ × List ℕ
  | trail, [] => (trail, [])
  | trail, p :: ps =>
    if (pool p).index = (pool (trail.headD p)).size ∧ (pool p).outstanding = 0 then
      ((cleanLoop pool trail ps).1, p :: (cleanLoop pool trail ps).2)
    else cleanLoop pool (trail ++ [p]) ps

/-- `clean_epoch_pool` -/
def cleanEpochPool (s : EpochPools) (t : ℕ) : EpochPools :=
  let r := cleanLoop s.pool [] (s.threadPool t)
  { s with threadPool := update s.threadPool t r.1, freed := s.freed ++ r.2 }

/-- `arts_cleanup_epoch_pools` -/
def cleanupEpochPools (s : EpochPools) (t : ℕ) : EpochPools :=
  { s with threadPool := update s.threadPool t [], freed := s.freed ++ s.threadPool t }

inductive Act where
  | initPool (t size : ℕ)
  | getPoolEpoch (t : ℕ)
  | complete (e : ℕ × ℕ)
  /-- The `EPOCH_DELETE` message for the pool of another rank. -/
  | delete (p : ℕ)
  | wait (t : ℕ) (e : ℕ × ℕ)
  /-- The wait reads that its epoch has completed, and ends with `clean_epoch_pool`. -/
  | endWait (t : ℕ) (e : ℕ × ℕ)
  | cleanup (t : ℕ)
  deriving DecidableEq

/-- An epoch of this rank that is waited for has not completed; the innermost wait of a thread ends first. -/
def next (s : EpochPools) : Act → Option EpochPools
  | .initPool t size => some (s.initPool t size)
  | .getPoolEpoch t => some (s.getPoolEpoch t)
  | .complete e => if e ∈ s.active then some (s.deleteEpoch e) else none
  | .delete p =>
    if p < s.created ∧ (s.pool p).owned = false ∧ p ∉ s.deleted then
      some { s with freed := s.freed ++ [p], deleted := p :: s.deleted }
    else none
  | .wait t e =>
    if e ∈ s.active ∨ e.1 < s.created ∧ (s.pool e.1).owned = false then
      some { s with waits := (t, e) :: s.waits }
    else none
  | .endWait t e =>
    if s.waits.find? (·.1 = t) = some (t, e) ∧ e ∉ s.active then
      some (cleanEpochPool { s with waits := s.waits.erase (t, e) } t)
    else none
  | .cleanup t => some (s.cleanupEpochPools t)

def machine : Machine EpochPools Act where
  init s := s = {}
  next := next

/-- **The condition on the steps.** -/
def Fit (s : EpochPools) : Act → Prop
  -- a thread that has pools of another rank does not take epochs
  | .getPoolEpoch t => ∀ p ∈ s.threadPool t, (s.pool p).owned = true
  | .delete _ => False
  | .wait _ e => (s.pool e.1).owned = true
  -- nobody else waits on an epoch of a pool that is all used and completed
  | .endWait t e => ∀ w ∈ s.waits.erase (t, e), w.2.1 ∈ s.threadPool t → (s.pool w.2.1).outstanding ≠ 0
  | .cleanup t => (∀ e ∈ s.active, e.1 ∉ s.threadPool t) ∧ ∀ w ∈ s.waits, w.2.1 ∉ s.threadPool t
  | _ => True

instance (s : EpochPools) : (l : Act) → Decidable (s.Fit l)
  | .getPoolEpoch _ | .endWait _ _ => inferInstanceAs (Decidable (∀ _ ∈ _, _))
  | .delete _ => isFalse id
  | .cleanup _ => inferInstanceAs (Decidable (_ ∧ _))
  | .wait _ _ => inferInstanceAs (Decidable (_ = _))
  | .initPool _ _ | .complete _ => isTrue trivial

/-- **The pools are used safely.** -/
structure Safe (s : EpochPools) : Prop where
  once : s.freed.Nodup
  unlinked : ∀ p ∈ s.freed, ∀ t, p ∉ s.threadPool t
  readable : ∀ w ∈ s.waits, w.2.1 ∉ s.freed
  owned : ∀ e ∈ s.given, (s.pool e.1).owned = true
  given : s.given.Nodup

/-- A pool is in one list, or it has been freed. -/
structure Links (created : ℕ) (threadPool : ℕ → List ℕ) (freed : List ℕ) : Prop where
  once : freed.Nodup
  unlinked : ∀ p ∈ freed, ∀ t, p ∉ threadPool t
  nodup : ∀ t, (threadPool t).Nodup
  apart : ∀ p t t', p ∈ threadPool t → p ∈ threadPool t' → t = t'
  linked : ∀ t, ∀ p ∈ threadPool t, p < created
  freed_lt : ∀ p ∈ freed, p < created

/-- A pool is outstanding as long as it has epochs that have not completed. -/
structure Counts (created : ℕ) (pool : ℕ → EpochPool) (given active : List (ℕ × ℕ)) : Prop where
  owned : ∀ e ∈ given, (pool e.1).owned = true
  nodup : given.Nodup
  given_lt : ∀ e ∈ given, e.1 < created ∧ e.2 < (pool e.1).index
  subset : active ⊆ given
  outstanding : ∀ p < created, (pool p).outstanding + (pool p).index =
    active.countP (·.1 = p) + (pool p).size
  index_le : ∀ p < created, (pool p).index ≤ (pool p).size

structure Inv (s : EpochPools) : Prop where
  links : Links s.created s.threadPool s.freed
  counts : Counts s.created s.pool s.given s.active
  readable : ∀ w ∈ s.waits, w.2.1 ∉ s.freed
  unfreed : ∀ e ∈ s.active, e.1 ∉ s.freed

section Step

variable {s : EpochPools} {t p created : ℕ} {e : ℕ × ℕ} {threadPool : ℕ → List ℕ} {freed l : List ℕ}
  {pool : ℕ → EpochPool} {given active : List (ℕ × ℕ)}

lemma cleanLoop_spec (trail ps : List ℕ) :
    ((cleanLoop pool trail ps).1 ++ (cleanLoop pool trail ps).2).Perm (trail ++ ps) ∧
      ∀ p ∈ (cleanLoop pool trail ps).2, (pool p).outstanding = 0 := by
  induction ps generalizing trail with
  | nil => exact ⟨.refl _, nofun⟩
  | cons p ps ih =>
    unfold cleanLoop
    split_ifs with h
    · refine ⟨perm_middle.trans (((ih trail).1.cons p).trans perm_middle.symm), ?_⟩
      exact forall_mem_cons.2 ⟨h.2, (ih trail).2⟩
    · simpa using ih (trail ++ [p])

lemma Links.link (h : Links created threadPool freed) (hl : l.Perm (created :: threadPool t)) :
    Links (created + 1) (update threadPool t l) freed := by
  have hmem : ∀ p t', p ∈ update threadPool t l t' ↔ p ∈ threadPool t' ∨ p = created ∧ t' = t := by
    intro p t'
    by_cases ht : t' = t
    · subst ht
      rw [update_self, hl.mem_iff, mem_cons]
      tauto
    · rw [update_of_ne ht]
      tauto
  have hnew : ∀ t', created ∉ threadPool t' := fun t' hm => Nat.lt_irrefl _ (h.linked t' _ hm)
  refine ⟨h.once, fun p hp t' hm => ?_, fun t' => ?_, fun p t₁ t₂ h₁ h₂ => ?_, fun t' p hp => ?_,
    fun p hp => Nat.lt_succ_of_lt (h.freed_lt p hp)⟩
  · obtain hm | ⟨rfl, -⟩ := (hmem p t').1 hm
    · exact h.unlinked p hp t' hm
    · exact Nat.lt_irrefl _ (h.freed_lt _ hp)
  · by_cases ht : t' = t
    · subst ht
      rw [update_self, hl.nodup_iff]
      exact nodup_cons.2 ⟨hnew t', h.nodup t'⟩
    · rw [update_of_ne ht]
      exact h.nodup t'
  · obtain h₁ | ⟨rfl, rfl⟩ := (hmem p t₁).1 h₁
    · obtain h₂ | ⟨rfl, -⟩ := (hmem p t₂).1 h₂
      · exact h.apart p t₁ t₂ h₁ h₂
      · exact absurd h₁ (hnew t₁)
    · exact (((hmem _ t₂).1 h₂).resolve_left (hnew t₂)).2.symm
  · obtain hp | ⟨rfl, -⟩ := (hmem p t').1 hp
    · exact Nat.lt_succ_of_lt (h.linked t' p hp)
    · exact Nat.lt_succ_self _

lemma Links.free (h : Links created threadPool freed) {keep gone : List ℕ}
    (hl : (keep ++ gone).Perm (threadPool t)) :
    Links created (update threadPool t keep) (freed ++ gone) := by
  have hgone : ∀ p ∈ gone, p ∈ threadPool t := fun p hp => hl.subset (mem_append_right _ hp)
  have hnd := nodup_append.1 (hl.nodup_iff.2 (h.nodup t))
  have hmem : ∀ t', ∀ p ∈ update threadPool t keep t', p ∈ threadPool t' ∧ p ∉ gone := by
    intro t' p hp
    by_cases ht : t' = t
    · subst ht
      rw [update_self] at hp
      exact ⟨hl.subset (mem_append_left _ hp), fun hg => hnd.2.2 p hp p hg rfl⟩
    · rw [update_of_ne ht] at hp
      exact ⟨hp, fun hg => ht (h.apart p t' t hp (hgone p hg))⟩
  refine ⟨nodup_append.2 ⟨h.once, hnd.2.1, fun p hp q hq he => ?_⟩, fun p hp t' hm => ?_, fun t' => ?_,
    fun p t₁ t₂ h₁ h₂ => h.apart p t₁ t₂ (hmem t₁ p h₁).1 (hmem t₂ p h₂).1,
    fun t' p hp => h.linked t' p (hmem t' p hp).1, fun p hp => ?_⟩
  · exact h.unlinked p hp t (hgone p (he ▸ hq))
  · exact (mem_append.1 hp).elim (fun hp => h.unlinked p hp t' (hmem t' p hm).1) (hmem t' p hm).2
  · by_cases ht : t' = t
    · subst ht
      rw [update_self]
      exact hnd.1
    · rw [update_of_ne ht]
      exact h.nodup t'
  · exact (mem_append.1 hp).elim (h.freed_lt p) fun hp => h.linked t p (hgone p hp)

lemma Counts.create (h : Counts created pool given active) (owned : Bool) (size : ℕ) :
    Counts (created + 1) (update pool created ⟨owned, size, 0, size⟩) given active := by
  have hpool : ∀ p < created, update pool created ⟨owned, size, 0, size⟩ p = pool p :=
    fun p hp => update_of_ne (Nat.ne_of_lt hp) _ _
  refine ⟨fun e he => ?_, h.nodup, fun e he => ?_, h.subset, fun p hp => ?_, fun p hp => ?_⟩
  · rw [hpool e.1 (h.given_lt e he).1]
    exact h.owned e he
  · rw [hpool e.1 (h.given_lt e he).1]
    exact (h.given_lt e he).imp_left Nat.lt_succ_of_lt
  · obtain hp | rfl := Nat.lt_succ_iff_lt_or_eq.1 hp
    · rw [hpool p hp]
      exact h.outstanding p hp
    · have hnone : active.countP (·.1 = p) = 0 := countP_eq_zero.2 fun e he hc =>
        Nat.ne_of_lt (h.given_lt e (h.subset he)).1 (by simpa using hc)
      rw [update_self, hnone, Nat.zero_add]
      rfl
  · obtain hp | rfl := Nat.lt_succ_iff_lt_or_eq.1 hp
    · rw [hpool p hp]
      exact h.index_le p hp
    · rw [update_self]
      exact Nat.zero_le _

lemma Counts.take (h : Counts created pool given active) (howned : (pool p).owned = true)
    (hp : p < created) (hi : (pool p).index < (pool p).size) :
    Counts created (update pool p { pool p with index := (pool p).index + 1 })
      (given ++ [(p, (pool p).index)]) (active ++ [(p, (pool p).index)]) := by
  have hnew : (p, (pool p).index) ∉ given := fun hm => Nat.lt_irrefl _ (h.given_lt _ hm).2
  have hpool : update pool p { pool p with index := (pool p).index + 1 } =
      fun q => { pool q with index := (pool q).index + if p = q then 1 else 0 } := by
    funext q
    by_cases hq : q = p
    · subst hq
      simp
    · simp [update_of_ne hq, Ne.symm hq]
  rw [hpool]
  refine ⟨fun e he => ?_, nodup_append.2 ⟨h.nodup, by simp, ?_⟩, fun e he => ?_, ?_,
    fun q hq => ?_, fun q hq => ?_⟩
  · obtain he | rfl := by simpa using he
    · exact h.owned e he
    · exact howned
  · rintro e he _ hm rfl
    exact hnew (mem_singleton.1 hm ▸ he)
  · obtain he | rfl := by simpa using he
    · exact (h.given_lt e he).imp_right fun hlt => Nat.lt_add_right _ hlt
    · exact ⟨hp, by simp⟩
  · exact append_subset.2 ⟨fun e he => mem_append_left _ (h.subset he), by simp⟩
  · have := h.outstanding q hq
    simp only [countP_append, countP_singleton, decide_eq_true_eq]
    omega
  · have := h.index_le q hq
    split_ifs with hpq
    · subst hpq
      exact hi
    · exact this

lemma Counts.complete (h : Counts created pool given active) (he : e ∈ active) :
    Counts created (update pool e.1 { pool e.1 with outstanding := (pool e.1).outstanding - 1 })
      given (active.erase e) := by
  have hpool : update pool e.1 { pool e.1 with outstanding := (pool e.1).outstanding - 1 } =
      fun q => { pool q with outstanding := (pool q).outstanding - if e.1 = q then 1 else 0 } := by
    funext q
    by_cases hq : q = e.1
    · subst hq
      simp
    · simp [update_of_ne hq, Ne.symm hq]
  rw [hpool]
  refine ⟨h.owned, h.nodup, h.given_lt, fun x hx => h.subset (mem_of_mem_erase hx), fun q hq => ?_,
    h.index_le⟩
  have hcount := (perm_cons_erase he).countP_eq fun x => decide (x.1 = q)
  have := h.outstanding q hq
  have := h.index_le q hq
  simp only [countP_cons, decide_eq_true_eq] at hcount
  dsimp only
  split_ifs at hcount ⊢ <;> omega

namespace Inv

lemma safe (h : s.Inv) : s.Safe :=
  ⟨h.links.once, h.links.unlinked, h.readable, h.counts.owned, h.counts.nodup⟩

lemma take (h : s.Inv) (hp : p ∈ s.threadPool t) (howned : (s.pool p).owned = true)
    (hi : (s.pool p).index < (s.pool p).size) : (s.take p).Inv := by
  refine ⟨h.links, h.counts.take howned (h.links.linked t p hp) hi, h.readable, fun e he => ?_⟩
  obtain he | rfl := by simpa [EpochPools.take] using he
  · exact h.unfreed e he
  · exact fun hf => h.links.unlinked p hf t hp

lemma free (h : s.Inv) {keep gone : List ℕ} (hl : (keep ++ gone).Perm (s.threadPool t))
    (ha : ∀ e ∈ s.active, e.1 ∉ gone) (hw : ∀ w ∈ s.waits, w.2.1 ∉ gone) :
    { s with threadPool := update s.threadPool t keep, freed := s.freed ++ gone }.Inv :=
  ⟨h.links.free hl, h.counts, fun w hm hp => (mem_append.1 hp).elim (h.readable w hm) (hw w hm),
    fun e he hp => (mem_append.1 hp).elim (h.unfreed e he) (ha e he)⟩

lemma link (h : s.Inv) (owned : Bool) (size : ℕ) (hl : l.Perm (s.created :: s.threadPool t)) :
    { s.createPool owned size with threadPool := update s.threadPool t l }.Inv :=
  ⟨h.links.link hl, h.counts.create owned size, h.readable, h.unfreed⟩

lemma getPoolEpoch (h : s.Inv) (hfit : ∀ p ∈ s.threadPool t, (s.pool p).owned = true) :
    (s.getPoolEpoch t).Inv := by
  unfold EpochPools.getPoolEpoch
  split
  · rename_i p hp
    have hm := mem_of_find?_eq_some hp
    exact h.take hm (hfit p hm) (by simpa using find?_some hp)
  · refine (h.link true defaultSize (perm_append_singleton _ _)).take (t := t) ?_ ?_ ?_
    · simp
    · simp [createPool]
    · simp [createPool, defaultSize]

lemma endWait (h : s.Inv) (hfit : ∀ w ∈ s.waits.erase (t, e), w.2.1 ∈ s.threadPool t →
    (s.pool w.2.1).outstanding ≠ 0) :
    (cleanEpochPool { s with waits := s.waits.erase (t, e) } t).Inv := by
  obtain ⟨hperm, hout⟩ := @cleanLoop_spec s.pool [] (s.threadPool t)
  have hmem : ∀ p ∈ (cleanLoop s.pool [] (s.threadPool t)).2, p ∈ s.threadPool t := fun p hp =>
    hperm.subset (mem_append_right _ hp)
  have hs : { s with waits := s.waits.erase (t, e) }.Inv :=
    { h with readable := fun w hw => h.readable w (mem_of_mem_erase hw) }
  refine hs.free hperm (fun e he hp => ?_) fun w hw hp => hfit w hw (hmem _ hp) (hout _ hp)
  -- a pool with an epoch that has not completed is outstanding
  have hlt := h.links.linked t _ (hmem _ hp)
  have hpos : 0 < s.active.countP (·.1 = e.1) := countP_pos_iff.2 ⟨e, he, by simp⟩
  have := h.counts.outstanding _ hlt
  have := h.counts.index_le _ hlt
  have := hout _ hp
  omega

end Inv

/-- **The pools are used safely** in every run that meets the condition. -/
theorem safe_of_fit (h : (machine.restrict Fit).Reachable s) : s.Safe := by
  refine Inv.safe (h.invariant ?_ ?_)
  · rintro _ rfl
    exact ⟨⟨.nil, nofun, fun _ => .nil, nofun, nofun, nofun⟩, ⟨nofun, .nil, nofun, nofun, nofun, nofun⟩, nofun,
      nofun⟩
  · intro s l s' _ hi hst
    obtain ⟨hfit, hst⟩ := Machine.restrict_next.1 hst
    cases l with
    | initPool t size =>
      cases hst
      exact hi.link false size (.refl _)
    | getPoolEpoch t =>
      cases hst
      exact hi.getPoolEpoch hfit
    | complete e =>
      obtain ⟨he, ⟨⟩⟩ := ite_none_right_eq_some.1 hst
      exact ⟨hi.links, hi.counts.complete he, hi.readable, fun e' he' => hi.unfreed e' (mem_of_mem_erase he')⟩
    | delete p => exact hfit.elim
    | wait t e =>
      obtain ⟨he, ⟨⟩⟩ := ite_none_right_eq_some.1 hst
      have he : e ∈ s.active := he.resolve_right fun h => Bool.noConfusion (h.2.symm.trans hfit)
      exact { hi with readable := forall_mem_cons.2 ⟨hi.unfreed e he, hi.readable⟩ }
    | endWait t e =>
      obtain ⟨-, ⟨⟩⟩ := ite_none_right_eq_some.1 hst
      exact hi.endWait hfit
    | cleanup t =>
      cases hst
      exact hi.free (show ([] ++ s.threadPool t).Perm _ from .refl _) hfit.1 hfit.2

end Step

/-- A pool is taken from, waited on and cleaned up. -/
theorem safe_one_wait : ∃ s : EpochPools, (s.freed = [0] ∧ s.given.length = 2) ∧ s.Safe := by
  obtain ⟨s, hs, hP⟩ := Machine.Reachable.exists_of_exec (M := machine.restrict Fit)
    (P := fun s : EpochPools => s.freed = [0] ∧ s.given.length = 2)
    (r := [.getPoolEpoch 0, .getPoolEpoch 0, .wait 0 (0, 0), .complete (0, 1), .complete (0, 0), .endWait 0 (0, 0),
      .cleanup 0]) rfl (by decide +kernel)
  exact ⟨s, hP, safe_of_fit hs⟩

/-- **The pool of another rank is freed twice**: by `delete_epoch`, and by the final cleanup. -/
theorem freed_twice : ∃ s, machine.Reachable s ∧ s.freed = [0, 0] ∧ ¬ s.Safe :=
  Machine.Reachable.exists_and (r := [.initPool 0 4096, .delete 0, .cleanup 0])
    rfl (by decide +kernel) fun _ _ hP => fun h => absurd (hP ▸ h.once) (by decide)

end EpochPools

end Arts
