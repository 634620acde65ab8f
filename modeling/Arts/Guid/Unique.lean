import Arts.Guid.Generator

/-!
# GUIDs are unique

Threads that are not workers share a block but not the counters (`GuidCluster.same_guid_twice`).
With one such thread per rank and no wrap around, GUIDs are unique (`GuidCluster.unique_of_fit`).
-/

namespace Arts

open List GuidNode

namespace GuidCall

/-- The two calls hand out different GUIDs. -/
def Apart (c d : GuidCall) : Prop :=
  ∀ i < c.size, ∀ j < d.size, c.guid.fromIndex i ≠ d.guid.fromIndex j

/-- The GUIDs handed out, at least one, are among those allocated. -/
def Inside (c : GuidCall) : Prop :=
  0 < c.size.toNat ∧ ∃ a : ℕ, a + c.size.toNat ≤ c.count.toNat ∧ c.guid = c.start + UInt64.ofNat a

lemma toNat_fromIndex {c : GuidCall} {k : ℕ} (hat : c.KeyAt k) (hin : c.Inside) {i : UInt32}
    (hi : i < c.size) : ∃ b < c.count.toNat, (c.guid.fromIndex i).toNat =
      2 ^ 56 * (c.type.toNat % 2 ^ 8) + (2 ^ 40 * (c.route.toNat % 2 ^ 16) + (k + b)) := by
  obtain ⟨hle, hstart⟩ := hat
  obtain ⟨-, a, ha, hguid⟩ := hin
  have hi' := UInt32.lt_iff_toNat_lt.1 hi
  refine ⟨a + i.toNat, by omega, ?_⟩
  rw [Guid.fromIndex, UInt64.toNat_add, hguid, UInt64.toNat_add, hstart, UInt64.toNat_ofNat',
    UInt32.toNat_toUInt64]
  omega

lemma apart_of_keyAt {c d : GuidCall} {k l : ℕ} (hc : c.KeyAt k) (hd : d.KeyAt l)
    (hcin : c.Inside) (hdin : d.Inside)
    (h : k + c.count.toNat ≤ l ∨ l + d.count.toNat ≤ k ∨
      c.type.toNat % 2 ^ 8 ≠ d.type.toNat % 2 ^ 8 ∨
      c.route.toNat % 2 ^ 16 ≠ d.route.toNat % 2 ^ 16) : c.Apart d := by
  intro i hi j hj heq
  obtain ⟨b, hb, hbn⟩ := toNat_fromIndex hc hcin hi
  obtain ⟨e, he, hen⟩ := toNat_fromIndex hd hdin hj
  have hnat := congrArg UInt64.toNat heq
  have hcle := hc.1
  have hdle := hd.1
  omega

end GuidCall

/-- The number of GUIDs to allocate does not wrap around. -/
def GuidRequest.Narrow : GuidRequest → Prop
  | .reserveRangeHash _ size _ hashSize => size.toNat + hashSize.toNat < 2 ^ 32
  | _ => True

instance GuidRequest.decidableNarrow (q : GuidRequest) : Decidable q.Narrow := by
  cases q <;> unfold GuidRequest.Narrow <;> infer_instance

namespace GuidNode

variable {n n' : GuidNode} {t : UInt32} {q : GuidRequest} {c : GuidCall}

lemma alignTo_eq (hashSize : UInt32) (k : ℕ) (g : Guid) :
    ∃ a ≤ k, alignTo hashSize k g = g + UInt64.ofNat a := by
  induction k generalizing g with
  | zero => exact ⟨0, le_rfl, (UInt64.add_zero g).symm⟩
  | succ k ih =>
    rw [alignTo]
    split_ifs with hdvd
    · exact ⟨0, Nat.zero_le _, (UInt64.add_zero g).symm⟩
    · obtain ⟨a, ha, he⟩ := ih (g + 1)
      refine ⟨a + 1, by omega, ?_⟩
      rw [he, UInt64.ofNat_add, UInt64.add_assoc, UInt64.add_comm 1]
      rfl

lemma toNat_pos_of_ne_zero {a : UInt32} (h : a ≠ 0) : 0 < a.toNat :=
  Nat.pos_of_ne_zero fun h0 => h (UInt32.toNat_inj.1 h0)

lemma inside_of_allocate {route type count size : UInt32}
    (h : n.allocate t route type count id size = some (n', c)) (hle : size = count)
    (hpos : size ≠ 0) : c.Inside := by
  obtain ⟨-, -, -, hcount, hguid, hsize⟩ := allocate_eq_some h
  refine ⟨hsize ▸ toNat_pos_of_ne_zero hpos, 0, ?_, ?_⟩
  · rw [hsize, hcount, hle, Nat.zero_add]
  · rw [hguid]
    exact (UInt64.add_zero _).symm

lemma inside_of_request (hq : q.Narrow) (h : n.request t q = some (n', c)) : c.Inside := by
  cases q with
  | createForRank route type => exact inside_of_allocate h rfl (by decide)
  | reserve type route =>
    rw [request, reserve] at h
    split_ifs at h
    exact inside_of_allocate h rfl (by decide)
  | reserveRange type size route =>
    rw [request, reserveRange] at h
    split_ifs at h with hsize
    exact inside_of_allocate h rfl hsize.1
  | reserveRangeHash type size route hashSize =>
    rw [request, reserveRangeHash] at h
    split_ifs at h with hpos
    obtain ⟨-, -, -, hcount, hguid, hsize⟩ := allocate_eq_some h
    obtain ⟨a, ha, he⟩ := alignTo_eq hashSize hashSize.toNat c.start
    have hsum : size.toNat + hashSize.toNat < 2 ^ 32 := hq
    refine ⟨hsize ▸ toNat_pos_of_ne_zero hpos.1, a, ?_, hguid.trans he⟩
    rw [hsize, hcount, UInt32.toNat_add, Nat.mod_eq_of_lt hsum]
    omega

end GuidNode

namespace GuidCluster

variable {s s' : GuidCluster} {mark : ℕ} {c d : GuidCall}

/-- No GUID is handed out twice, and none of the startup phase again. -/
def Unique (s : GuidCluster) : Prop :=
  s.log.Pairwise GuidCall.Apart ∧
    ∀ c ∈ s.log, ∀ r, ∀ d ∈ (s.nodes r).reserved, c.Apart d

/-- **The condition on the steps.**  No other thread of the rank that is not a worker has allocated
before; the target ranks fit into the rank field; the sum of sizes does not wrap around. -/
def Fit (s : GuidCluster) : GuidStep → Prop
  | .startup q => q.Narrow
  | .parallelStart => True
  | .alloc r t q => q.Narrow ∧ (s.nodes r).rankCount.toNat ≤ 2 ^ 16 ∧
      (t < (s.nodes r).workers ∨
        ∀ c ∈ s.log, c.rank = r → ¬ c.thread < (s.nodes r).workers → c.thread = t)

instance (s : GuidCluster) (l : GuidStep) : Decidable (s.Fit l) := by
  cases l <;> unfold Fit <;> infer_instance

/-- What the uniqueness rests on besides the places of the keys. -/
structure Distinct (s : GuidCluster) : Prop where
  reserved : ∀ r, ∀ c ∈ (s.nodes r).reserved, c.Inside
  log : ∀ c ∈ s.log, c.Inside ∧ c.route.toNat < 2 ^ 16 ∧ c.type < lastType
  apart : s.log.Pairwise GuidCall.Apart

/-- The threads of a rank that have the same number are the same worker or no workers. -/
theorem Inv.same_thread (h : s.Inv mark) (hpos : 0 < s.perThread)
    (hc : c.rank < (s.nodes 0).rankCount) (hd : d.rank < (s.nodes 0).rankCount)
    (hid : ((s.nodes c.rank).globalGuidThreadId c.thread).toNat =
      ((s.nodes d.rank).globalGuidThreadId d.thread).toNat) :
    c.rank = d.rank ∧ (c.thread = d.thread ∨
      ¬ c.thread < (s.nodes c.rank).workers ∧ ¬ d.thread < (s.nodes c.rank).workers) := by
  have hw : ∀ r, (s.nodes r).workers + 1 ≠ 0 := fun r => h.workers r ▸ h.nowrap hpos
  have hlt : ∀ {r}, r < (s.nodes 0).rankCount → (s.nodes r).rank < (s.nodes r).rankCount :=
    fun hr => by rwa [h.rank, h.rankCount]
  rw [toNat_globalGuidThreadId (hw _) (hlt hc),
    toNat_globalGuidThreadId (hw _) (hlt hd), h.rank, h.rank, localId,
    localId, h.workers c.rank, h.workers d.rank] at hid
  rw [h.workers c.rank, UInt32.lt_iff_toNat_lt, UInt32.lt_iff_toNat_lt]
  generalize (s.nodes 0).workers.toNat = w at hid ⊢
  have hrank : c.rank.toNat = d.rank.toNat := by
    rcases Nat.lt_trichotomy c.rank.toNat d.rank.toNat with hlt | heq | hgt
    · have := Nat.mul_le_mul_left (w + 1) (Nat.succ_le_of_lt hlt)
      rw [Nat.mul_succ] at this
      omega
    · exact heq
    · have := Nat.mul_le_mul_left (w + 1) (Nat.succ_le_of_lt hgt)
      rw [Nat.mul_succ] at this
      omega
  rw [hrank] at hid
  refine ⟨UInt32.toNat_inj.1 hrank, ?_⟩
  by_cases hthread : c.thread.toNat = d.thread.toNat
  · exact .inl (UInt32.toNat_inj.1 hthread)
  · omega

lemma keyIndex_inj (hc : c.route.toNat < 2 ^ 16) (hd : d.route.toNat < 2 ^ 16)
    (htc : c.type < lastType) (htd : d.type < lastType)
    (h : keyIndex c.route c.type ≠ keyIndex d.route d.type) :
    c.type.toNat % 2 ^ 8 ≠ d.type.toNat % 2 ^ 8 ∨
      c.route.toNat % 2 ^ 16 ≠ d.route.toNat % 2 ^ 16 := by
  have h7 : lastType.toNat = 7 := rfl
  rw [UInt32.lt_iff_toNat_lt, h7] at htc htd
  by_contra hcon
  refine h (UInt32.toNat_inj.1 ?_)
  have htype : c.type.toNat = d.type.toNat := by omega
  have hroute : c.route.toNat = d.route.toNat := by omega
  rw [UInt32.toNat_inj] at htype hroute
  rw [htype, hroute]

/-- **A new allocation is apart from the earlier ones.** -/
theorem Inv.apart_log (h : s.Inv mark) (hdis : s.Distinct)
    (hlt : s.counter c + c.count.toNat < s.perThread) (hrank : c.rank < (s.nodes 0).rankCount)
    (hkey : c.KeyAt (s.block c + s.counter c)) (hin : c.Inside)
    (hroute : c.route.toNat < 2 ^ 16) (htype : c.type < lastType)
    (hfit : c.thread < (s.nodes c.rank).workers ∨
      ∀ d ∈ s.log, d.rank = c.rank → ¬ d.thread < (s.nodes c.rank).workers → d.thread = c.thread)
    (hd : d ∈ s.log) : c.Apart d := by
  obtain ⟨hdrank, a, ha, hle, hper, hat⟩ := h.log d hd
  obtain ⟨hdin, hdroute, hdtype⟩ := hdis.log d hd
  refine GuidCall.apart_of_keyAt hkey hat hin hdin ?_
  rcases Nat.lt_trichotomy ((s.nodes c.rank).globalGuidThreadId c.thread).toNat
    ((s.nodes d.rank).globalGuidThreadId d.thread).toNat with hlow | hid | hhigh
  · have := Nat.mul_le_mul_left s.perThread (Nat.succ_le_of_lt hlow)
    rw [Nat.mul_succ] at this
    rw [block, block]
    omega
  · obtain ⟨hr, hthread⟩ := h.same_thread (by omega) hrank hdrank hid
    have hsame : c.thread = d.thread := by
      rcases hthread with heq | ⟨hcw, hdw⟩
      · exact heq
      · rcases hfit with hw | hothers
        · exact absurd hw hcw
        · exact (hothers d hd hr.symm hdw).symm
    by_cases hindex : keyIndex c.route c.type = keyIndex d.route d.type
    · right
      have hcounter : s.counter c = s.counter d := by rw [counter, counter, hr, hsame, hindex]
      have hblock : s.block c = s.block d := by rw [block, block, hid]
      omega
    · right
      right
      exact keyIndex_inj hroute hdroute htype hdtype hindex
  · right
    have := Nat.mul_le_mul_left s.perThread (Nat.succ_le_of_lt hhigh)
    rw [Nat.mul_succ] at this
    rw [block, block]
    omega

namespace Distinct

lemma startup (hd : s.Distinct) {q : GuidRequest} (hq : q.Narrow)
    (hst : s.next (.startup q) = some s') : s'.Distinct := by
  obtain ⟨hs, ⟨r₀, hr₀⟩, rfl⟩ := next_startup hst
  refine ⟨fun r c hc => ?_, hd.log, hd.apart⟩
  simp only [reserveOn] at hc
  split at hc
  case h_1 => exact hd.reserved r c hc
  case h_2 n c' hreq =>
    have hsame : n.reserved = (s.nodes r).reserved := by
      have hcreate := (request_eq_some hreq).1
      by_cases hon : (s.nodes r).globalGuidOn = 0
      · rw [(createForRankInternal_started hon hcreate).1]
        rfl
      · rw [(createForRankInternal_startup hon hcreate).1]
    rcases mem_cons.1 hc with rfl | hc
    · exact inside_of_request hq hreq
    · exact hd.reserved r c (hsame ▸ hc)

lemma alloc (h : s.Inv mark) (hd : s.Distinct) {r t : UInt32} {q : GuidRequest}
    (hfit : s.Fit (.alloc r t q)) (hst : s.next (.alloc r t q) = some s') : s'.Distinct := by
  obtain ⟨c, n, hreq, hb, -, -, rfl, rfl, hrank, hlt, hkey, rfl⟩ := h.next_eq_allocated hst
  obtain ⟨hq, hranks, hthread⟩ := hfit
  have hin := inside_of_request hq hreq
  have hroute : c.route.toNat < 2 ^ 16 :=
    lt_of_lt_of_le (UInt32.lt_iff_toNat_lt.1 hb.1) hranks
  refine ⟨fun r' => ?_, fun d hd' => ?_, pairwise_cons.2 ⟨fun d hd' => ?_, hd.apart⟩⟩
  · rw [allocated_nodes GuidNode.reserved (fun _ _ _ _ => rfl)]
    exact hd.reserved r'
  · rcases mem_cons.1 hd' with rfl | hd'
    · exact ⟨hin, hroute, hb.2⟩
    · exact hd.log d hd'
  · exact h.apart_log hd hlt hrank hkey hin hroute hb.2 hthread hd'

end Distinct

/-- Every allocation is apart from the calls of the startup phase: its keys are below theirs. -/
theorem Inv.apart_reserved (h : s.Inv mark) (hdis : s.Distinct) (hc : c ∈ s.log) {r : UInt32}
    (hd : d ∈ (s.nodes r).reserved) : c.Apart d := by
  obtain ⟨hrank, a, ha, -, hper, hat⟩ := h.log c hc
  have hdin := hdis.reserved r d hd
  have ⟨hpos, b, hb, _⟩ := hdin
  obtain ⟨k, hk, hdat⟩ := h.reserved r d hd (by omega)
  have hle := h.block_le (by omega) hrank
  exact GuidCall.apart_of_keyAt hat hdat (hdis.log c hc).1 hdin (.inl (by omega))

/-- **GUIDs are unique in every run that meets the condition.** -/
theorem unique_of_fit (hs : (machine.restrict Fit).Reachable s) : s.Unique := by
  have key : ∃ mark, s.Inv mark ∧ s.Distinct := by
    refine hs.invariant (I := fun s => ∃ mark, s.Inv mark ∧ s.Distinct) ?_ ?_
    · rintro _ ⟨rankCount, workers, senders, receivers, hpos, rfl⟩
      exact ⟨_, inv_create hpos, fun _ _ hc => absurd hc not_mem_nil,
        fun _ hc => absurd hc not_mem_nil, List.Pairwise.nil⟩
    · rintro s l s' - ⟨mark, hi, hd⟩ hst
      obtain ⟨hfit, hst⟩ := Machine.restrict_next.1 hst
      cases l with
      | startup q => exact ⟨_, hi.startup hst, hd.startup hfit hst⟩
      | parallelStart =>
        refine ⟨_, hi.parallelStart hst, ?_⟩
        obtain ⟨-, rfl⟩ := next_parallelStart hst
        exact { hd with }
      | alloc r t q => exact ⟨_, hi.alloc hst, hd.alloc hi hfit hst⟩
  obtain ⟨mark, hi, hd⟩ := key
  exact ⟨hd.apart, fun c hc r d hd' => hi.apart_reserved hd hc hd'⟩

/-- Two ranks with one worker, one sender and one receiver. -/
theorem unique_of_fit_run : ∃ s, (machine.restrict Fit).Reachable s ∧ s.log.length = 3 ∧
    s.Unique :=
  Machine.Reachable.exists_and (r := [.startup (.reserve 6 0), .parallelStart, .alloc 0 0 (.createForRank 0 6),
      .alloc 0 2 (.createForRank 0 6), .alloc 1 0 (.reserveRangeHash 6 5 0 4)])
    ⟨2, 1, 1, 1, by decide, rfl⟩ (by decide +kernel) fun _ hs _ => unique_of_fit hs

/-- **Two receivers hand out the same GUID**: threads 2 and 3 of rank 0. -/
theorem same_guid_twice : ∃ s, machine.Reachable s ∧ ¬ s.Unique := by
  obtain ⟨s, hs, hsame⟩ := Machine.Reachable.exists_of_exec (M := machine)
    (P := fun s => ¬ s.log.Pairwise fun c d => ¬ (c.guid = d.guid ∧ 0 < c.size ∧ 0 < d.size))
    (r := [.parallelStart, .alloc 0 2 (.createForRank 0 6), .alloc 0 3 (.createForRank 0 6)])
    ⟨2, 1, 1, 2, by decide, rfl⟩ (by decide +kernel)
  refine ⟨s, hs, fun hu => hsame (hu.1.imp ?_)⟩
  rintro c d hap ⟨hguid, hc, hd⟩
  exact hap 0 hc 0 hd (by rw [hguid])

end GuidCluster

end Arts
