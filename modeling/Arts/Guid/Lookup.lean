import Arts.Guid.Generator

/-!
# The route table of a GUID

`arts_get_route_table` divides the key by `keys_per_thread`, which finds the table of the worker
that allocated it, or the remote table (`GuidCluster.getRouteTable_of_reachable`).
-/

namespace Arts

open GuidNode

/-- The table that `arts_get_route_table` returns. -/
inductive TableChoice where
  /-- `arts_node_info.route_table[index]`. -/
  | routeTable (index : UInt64)
  /-- `arts_node_info.remote_route_table`. -/
  | remote
  deriving DecidableEq, Repr

namespace GuidNode

variable {n : GuidNode} {g : Guid}

/-- `arts_get_route_table`. -/
def getRouteTable (n : GuidNode) (g : Guid) : TableChoice :=
  if n.keysPerThread ≠ 0 then
    if n.minGlobalGuidThread ≤ g.getKey / n.keysPerThread ∧
        g.getKey / n.keysPerThread < n.maxGlobalGuidThread then
      .routeTable (g.getKey / n.keysPerThread - n.minGlobalGuidThread)
    else .remote
  else .remote

lemma toNat_blockOf (n : GuidNode) (g : Guid) :
    (g.getKey / n.keysPerThread).toNat = g.toNat % 2 ^ 40 / n.keysPerThread.toNat := by
  rw [UInt64.toNat_div, Guid.toNat_getKey]

lemma getRouteTable_of_worker (hw : n.workers + 1 ≠ 0) (hr : n.rank < n.rankCount)
    (hk : n.keysPerThread ≠ 0) {w : UInt32} (hlt : w < n.workers)
    (hg : g.toNat % 2 ^ 40 / n.keysPerThread.toNat =
      (n.workers.toNat + 1) * n.rank.toNat + w.toNat) :
    n.getRouteTable g = .routeTable w.toUInt64 := by
  have hw' := UInt32.lt_iff_toNat_lt.1 hlt
  have hmin : n.minGlobalGuidThread ≤ g.getKey / n.keysPerThread := by
    rw [UInt64.le_iff_toNat_le, toNat_blockOf, hg, toNat_minGlobalGuidThread hw hr]
    omega
  have hmax : g.getKey / n.keysPerThread < n.maxGlobalGuidThread := by
    rw [UInt64.lt_iff_toNat_lt, toNat_blockOf, hg, toNat_maxGlobalGuidThread hw hr]
    omega
  rw [getRouteTable, if_pos hk, if_pos ⟨hmin, hmax⟩]
  refine congrArg TableChoice.routeTable (UInt64.toNat_inj.1 ?_)
  rw [UInt64.toNat_sub_of_le _ _ hmin, toNat_blockOf, hg, toNat_minGlobalGuidThread hw hr,
    UInt32.toNat_toUInt64]
  omega

/-- Keys outside the blocks of this rank's workers are looked up in the remote table. -/
theorem getRouteTable_of_other (hw : n.workers + 1 ≠ 0) (hr : n.rank < n.rankCount)
    (hg : g.toNat % 2 ^ 40 / n.keysPerThread.toNat < (n.workers.toNat + 1) * n.rank.toNat ∨
      (n.workers.toNat + 1) * n.rank.toNat + n.workers.toNat ≤
        g.toNat % 2 ^ 40 / n.keysPerThread.toNat) :
    n.getRouteTable g = .remote := by
  rw [getRouteTable]
  split_ifs with hk hmm
  · obtain ⟨hmin, hmax⟩ := hmm
    rw [UInt64.le_iff_toNat_le, toNat_blockOf, toNat_minGlobalGuidThread hw hr] at hmin
    rw [UInt64.lt_iff_toNat_lt, toNat_blockOf, toNat_maxGlobalGuidThread hw hr] at hmax
    omega
  · rfl
  · rfl

/-- **No lookup leaves the array of tables.** -/
theorem getRouteTable_lt (hw : n.workers + 1 ≠ 0) (hr : n.rank < n.rankCount) {i : UInt64}
    (h : n.getRouteTable g = .routeTable i) : i.toNat < n.workers.toNat := by
  rw [getRouteTable] at h
  split_ifs at h with hk hmm
  cases h
  obtain ⟨hmin, hmax⟩ := hmm
  rw [UInt64.toNat_sub_of_le _ _ hmin]
  rw [UInt64.le_iff_toNat_le, toNat_minGlobalGuidThread hw hr] at hmin
  rw [UInt64.lt_iff_toNat_lt, toNat_maxGlobalGuidThread hw hr] at hmax
  rw [toNat_minGlobalGuidThread hw hr]
  omega

lemma getRouteTable_of_no_keys (hk : n.keysPerThread = 0) (g : Guid) :
    n.getRouteTable g = .remote := by
  rw [getRouteTable, if_neg (not_not.2 hk)]

end GuidNode

namespace GuidCluster

variable {s : GuidCluster} {mark : ℕ} {r : UInt32} {c : GuidCall} {i : UInt32}

lemma Inv.toNat_keysPerThread (h : s.Inv mark) (r : UInt32) :
    (s.nodes r).keysPerThread.toNat = s.perThread :=
  congrArg UInt64.toNat (h.perThread r)

/-- The block that a GUID of an allocation lies in is the block of the thread that made it. -/
theorem Inv.blockOf_log (h : s.Inv mark) (hc : c ∈ s.log) (hi : i < c.count) :
    (c.start.fromIndex i).toNat % 2 ^ 40 / s.perThread =
      ((s.nodes c.rank).globalGuidThreadId c.thread).toNat := by
  obtain ⟨-, a, ha, -, hper, hat⟩ := h.log c hc
  have hi' := UInt32.lt_iff_toNat_lt.1 hi
  rw [GuidCall.key_fromIndex hat hi, block, Nat.add_assoc, Nat.mul_add_div (by omega),
    Nat.div_eq_of_lt (by omega), Nat.add_zero]

lemma Inv.blockOf_reserved (h : s.Inv mark) {r' : UInt32} (hc : c ∈ (s.nodes r').reserved)
    (hi : i < c.count) (hpos : 0 < s.perThread) :
    ((s.nodes 0).workers + 1).toNat * (s.nodes 0).rankCount.toNat ≤
      (c.start.fromIndex i).toNat % 2 ^ 40 / s.perThread := by
  have hi' := UInt32.lt_iff_toNat_lt.1 hi
  obtain ⟨k, hk, hat⟩ := h.reserved r' c hc (by omega)
  rw [GuidCall.key_fromIndex hat hi, Nat.le_div_iff_mul_le hpos, Nat.mul_comm]
  exact h.blocks.trans (hk.trans (Nat.le_add_right _ _))

/-- **The table chosen for a GUID**: in every state of every run, before and after the parallel
start, on every rank. -/
theorem getRouteTable_of_reachable (hs : machine.Reachable s) (hr : r < (s.nodes 0).rankCount) :
    (∀ r', ∀ c ∈ (s.nodes r').reserved, ∀ i < c.count,
      (s.nodes r).getRouteTable (c.start.fromIndex i) = .remote) ∧
    (∀ c ∈ s.log, ∀ i < c.count,
      (c.rank = r → c.thread < (s.nodes r).workers →
        (s.nodes r).getRouteTable (c.start.fromIndex i) = .routeTable c.thread.toUInt64) ∧
      (c.rank ≠ r → (s.nodes r).getRouteTable (c.start.fromIndex i) = .remote)) ∧
    (∀ g k, (s.nodes r).getRouteTable g = .routeTable k →
      k.toNat < (s.nodes r).workers.toNat) := by
  obtain ⟨mark, h⟩ := inv_of_reachable hs
  have hper := h.toNat_keysPerThread r
  rcases Nat.eq_zero_or_pos s.perThread with hzero | hpos
  · have hk : (s.nodes r).keysPerThread = 0 := UInt64.toNat_inj.1 (hper.trans hzero)
    refine ⟨fun _ _ _ _ _ => getRouteTable_of_no_keys hk _, fun c hc => ?_,
      fun g k hg => ?_⟩
    · obtain ⟨-, a, ha, -, hlt, -⟩ := h.log c hc
      omega
    · rw [getRouteTable_of_no_keys hk] at hg
      cases hg
  · have hw : (s.nodes r).workers + 1 ≠ 0 := h.workers r ▸ h.nowrap hpos
    have hr' : (s.nodes r).rank < (s.nodes r).rankCount := by rwa [h.rank r, h.rankCount r]
    refine ⟨fun r' c hc i hi => ?_, fun c hc i hi => ⟨?_, ?_⟩, fun g k hg =>
      getRouteTable_lt hw hr' hg⟩
    · have hge := h.blockOf_reserved hc hi hpos
      have hshare := share_le hr'
      rw [← h.workers r, ← h.rankCount r, toNat_workers_add_one hw] at hge
      refine getRouteTable_of_other hw hr' (.inr ?_)
      rw [hper]
      omega
    · rintro rfl hthread
      refine getRouteTable_of_worker hw hr' (fun h0 => ?_) hthread ?_
      · rw [h0, UInt64.toNat_zero] at hper
        omega
      · have hmin := UInt32.lt_iff_toNat_lt.1 hthread
        rw [hper, h.blockOf_log hc hi, toNat_globalGuidThreadId hw hr', localId,
          Nat.min_eq_left (by omega)]
    · intro hne
      have hwc : (s.nodes c.rank).workers + 1 ≠ 0 := h.workers c.rank ▸ h.nowrap hpos
      have hrc : (s.nodes c.rank).rank < (s.nodes c.rank).rankCount := by
        rw [h.rank, h.rankCount]
        exact (h.log c hc).1
      have hblock := h.blockOf_log hc hi
      rw [toNat_globalGuidThreadId hwc hrc, localId, h.rank, h.workers,
        ← h.workers r] at hblock
      refine getRouteTable_of_other hw hr' ?_
      rw [hper, hblock, h.rank r]
      -- the shares of two ranks do not overlap
      have hne' : c.rank.toNat ≠ r.toNat := fun he => hne (UInt32.toNat_inj.1 he)
      rcases Nat.lt_or_gt_of_ne hne' with hlt | hgt
      · have := Nat.mul_le_mul_left ((s.nodes r).workers.toNat + 1) (Nat.succ_le_of_lt hlt)
        rw [Nat.mul_succ] at this
        omega
      · have := Nat.mul_le_mul_left ((s.nodes r).workers.toNat + 1) (Nat.succ_le_of_lt hgt)
        rw [Nat.mul_succ] at this
        omega

/-- Two ranks with two workers: a GUID of the startup phase, one of worker 1 of rank 0 and one of
worker 0 of rank 1, looked up on rank 0. -/
theorem getRouteTable_of_reachable_run : ∃ s, machine.Reachable s ∧ s.log.length = 2 ∧
    (∀ c ∈ (s.nodes 0).reserved, (s.nodes 0).getRouteTable (c.start.fromIndex 0) = .remote) ∧
    ∀ c ∈ s.log, (s.nodes 0).getRouteTable (c.start.fromIndex 0) =
      if c.rank = 0 then .routeTable 1 else .remote := by
  obtain ⟨s, hs, hlen, hpos, hreserved, hlog⟩ := Machine.Reachable.exists_of_exec (M := machine)
    (P := fun s => s.log.length = 2 ∧ 0 < (s.nodes 0).rankCount ∧
      (∀ c ∈ (s.nodes 0).reserved, 0 < c.count) ∧ ∀ c ∈ s.log, 0 < c.count ∧
        (c.rank = 0 → c.thread = 1 ∧ c.thread < (s.nodes 0).workers))
    (r := [.startup (.reserve 6 0), .parallelStart, .alloc 0 1 (.reserveRange 6 10 1),
      .alloc 1 0 (.createForRank 0 1)])
    ⟨2, 2, 1, 1, by decide, rfl⟩ (by decide +kernel)
  obtain ⟨hstartup, halloc, -⟩ := getRouteTable_of_reachable hs hpos
  refine ⟨s, hs, hlen, fun c hc => hstartup 0 c hc 0 (hreserved c hc), fun c hc => ?_⟩
  obtain ⟨hcount, hworker⟩ := hlog c hc
  split_ifs with hrank
  · obtain ⟨hthread, hlt⟩ := hworker hrank
    have := (halloc c hc 0 hcount).1 hrank hlt
    rwa [hthread] at this
  · exact (halloc c hc 0 hcount).2 hrank

end GuidCluster

end Arts
