import Arts.Guid
import Arts.Machine.Basic

/-!
# The GUID generator

In the startup phase keys are taken from the top of the key space; then each worker, and the other
threads of a rank together, have a block of `keys_per_thread` keys (`GuidCluster.Inv`).
-/

namespace Arts

open List Option

/-- `arts_guid_from_index`. -/
def Guid.fromIndex (g : Guid) (i : UInt32) : Guid := g + i.toUInt64

/-- `ARTS_HINT_CURRENT_NODE`. -/
def hintCurrentNode : UInt32 := 0xFFFFFFFF

/-- `ARTS_LAST_TYPE`, the number of types a GUID can have. -/
def lastType : UInt32 := 7

structure GuidCall where
  rank : UInt32
  thread : UInt32
  route : UInt32
  type : UInt32
  /-- The answer of `arts_guid_create_for_rank_internal`, and for how many GUIDs. -/
  start : Guid
  count : UInt32
  /-- The GUID that the caller gets, the first one of so many. -/
  guid : Guid
  size : UInt32
  deriving DecidableEq, Repr

/-- The part of a rank's state that the generator uses. -/
structure GuidNode where
  /-- `arts_global_rank_id`. -/
  rank : UInt32
  /-- `arts_global_rank_count`. -/
  rankCount : UInt32
  /-- `worker_thread_count`; the threads `0 … workers - 1` are the workers. -/
  workers : UInt32
  /-- `sender_thread_count` and `receiver_thread_count`. -/
  senders : UInt32
  receivers : UInt32
  /-- `global_guid_on`. -/
  globalGuidOn : UInt64
  /-- `keys_per_thread`. -/
  keysPerThread : UInt64
  /-- `keys[thread][(route * ARTS_LAST_TYPE) + type]`. -/
  keys : UInt32 → UInt32 → UInt64
  /-- The calls that were answered before the parallel start. -/
  reserved : List GuidCall

namespace GuidNode

/-- A rank after `arts_guid_key_generator_init` of all its threads and `set_global_guid_on`. -/
def create (rank rankCount workers senders receivers : UInt32) : GuidNode where
  rank := rank
  rankCount := rankCount
  workers := workers
  senders := senders
  receivers := receivers
  globalGuidOn := (1 : UInt64) <<< 40
  keysPerThread := 0
  keys := fun _ _ => 1
  reserved := []

/-- `num_tables`. -/
def numTables (n : GuidNode) : UInt64 :=
  if n.rankCount = 1 then n.workers.toUInt64 else (n.workers + 1).toUInt64

/-- `min_global_guid_thread`. -/
def minGlobalGuidThread (n : GuidNode) : UInt64 := n.numTables * n.rank.toUInt64

/-- `max_global_guid_thread`. -/
def maxGlobalGuidThread (n : GuidNode) : UInt64 :=
  if n.rankCount = 1 then n.minGlobalGuidThread + n.numTables
  else n.minGlobalGuidThread + n.numTables - 1

/-- `global_guid_thread_id` of a thread; the threads that are not workers share one number. -/
def globalGuidThreadId (n : GuidNode) (t : UInt32) : UInt64 :=
  n.minGlobalGuidThread + (if t < n.workers then t.toUInt64 else n.workers.toUInt64)

/-- Where a thread keeps the counter for a target rank and a type. -/
def keyIndex (route type : UInt32) : UInt32 := route * lastType + type

/-- `*key_ptr += guid_count`. -/
def bump (n : GuidNode) (t index count : UInt32) : GuidNode :=
  { n with keys := fun t' i =>
      if t' = t ∧ i = index then n.keys t' i + count.toUInt64 else n.keys t' i }

/-- `arts_guid_create_for_rank_internal`, run by thread `t`; `none` if it aborts because there are
no keys left. -/
def createForRankInternal (n : GuidNode) (t route type count : UInt32) :
    Option (GuidNode × Guid) :=
  if n.globalGuidOn ≠ 0 then
    if count.toUInt64 < n.globalGuidOn then
      some ({ n with globalGuidOn := n.globalGuidOn - count.toUInt64 },
        Guid.make type.toUInt64 route.toUInt64 (n.globalGuidOn - count.toUInt64))
    else none
  else if n.keys t (keyIndex route type) + count.toUInt64 < n.keysPerThread then
    some (n.bump t (keyIndex route type) count,
      Guid.make type.toUInt64 route.toUInt64
        (n.keys t (keyIndex route type) + n.keysPerThread * n.globalGuidThreadId t))
  else none

/-- Allocate `count` GUIDs and hand out `size` of them, from `align` of the first one on. -/
def allocate (n : GuidNode) (t route type count : UInt32) (align : Guid → Guid) (size : UInt32) :
    Option (GuidNode × GuidCall) :=
  (n.createForRankInternal t route type count).map fun r =>
    (r.1, { rank := n.rank, thread := t, route := route, type := type, start := r.2, count := count,
            guid := align r.2, size := size })

def resolve (n : GuidNode) (route : UInt32) : UInt32 :=
  if route = hintCurrentNode then n.rank else route

def validType (type : UInt32) : Bool := decide (0 < type) && decide (type < lastType)

/-- `arts_guid_create_for_rank`. -/
def createForRank (n : GuidNode) (t route type : UInt32) : Option (GuidNode × GuidCall) :=
  n.allocate t route type 1 id 1

/-- `arts_guid_reserve`; `none` also for the answer `NULL_GUID`. -/
def reserve (n : GuidNode) (t type route : UInt32) : Option (GuidNode × GuidCall) :=
  if validType type then
    n.allocate t (n.resolve route % n.rankCount) type 1 id 1
  else none

/-- `arts_guid_reserve_range`. -/
def reserveRange (n : GuidNode) (t type size route : UInt32) : Option (GuidNode × GuidCall) :=
  if size ≠ 0 ∧ validType type then
    n.allocate t (n.resolve route) type size id size
  else none

/-- The loop of `arts_guid_reserve_range_hash`: go on to the next key that `hashSize` divides. -/
def alignTo (hashSize : UInt32) : ℕ → Guid → Guid
  | 0, g => g
  | k + 1, g => if Guid.getKey g % hashSize.toUInt64 = 0 then g else alignTo hashSize k (g + 1)

/-- `arts_guid_reserve_range_hash`; the number of GUIDs it allocates is a 32-bit sum. -/
def reserveRangeHash (n : GuidNode) (t type size route hashSize : UInt32) :
    Option (GuidNode × GuidCall) :=
  if size ≠ 0 ∧ validType type then
    n.allocate t route type (size + hashSize) (alignTo hashSize hashSize.toNat) size
  else none

/-- `set_guid_generator_after_parallel_start`. -/
def setAfterParallelStart (n : GuidNode) : GuidNode :=
  { n with
    keysPerThread := n.globalGuidOn / ((n.workers + 1).toUInt64 * n.rankCount.toUInt64)
    globalGuidOn := 0 }

end GuidNode

/-- The calls that allocate GUIDs. `arts_guid_reserve_round_robin` is a row of `createForRank`. -/
inductive GuidRequest where
  | createForRank (route type : UInt32)
  | reserve (type route : UInt32)
  | reserveRange (type size route : UInt32)
  | reserveRangeHash (type size route hashSize : UInt32)
  deriving DecidableEq, Repr

def GuidRequest.count : GuidRequest → UInt32
  | .createForRank _ _ | .reserve _ _ => 1
  | .reserveRange _ size _ => size
  | .reserveRangeHash _ size _ hashSize => size + hashSize

/-- The arguments are not answered with `NULL_GUID`. -/
def GuidRequest.Accepted : GuidRequest → Prop
  | .createForRank _ _ => True
  | .reserve type _ => GuidNode.validType type = true
  | .reserveRange type size _ | .reserveRangeHash type size _ _ =>
    size ≠ 0 ∧ GuidNode.validType type = true

/-- Thread `t` makes the call. -/
def GuidNode.request (n : GuidNode) (t : UInt32) : GuidRequest → Option (GuidNode × GuidCall)
  | .createForRank route type => n.createForRank t route type
  | .reserve type route => n.reserve t type route
  | .reserveRange type size route => n.reserveRange t type size route
  | .reserveRangeHash type size route hashSize => n.reserveRangeHash t type size route hashSize

structure GuidCluster where
  nodes : UInt32 → GuidNode
  started : Bool
  /-- The calls answered since then, the latest one first. -/
  log : List GuidCall

inductive GuidStep where
  /-- Thread 0 of every rank makes the same call in the startup phase. -/
  | startup (q : GuidRequest)
  | parallelStart
  | alloc (rank thread : UInt32) (q : GuidRequest)
  deriving DecidableEq, Repr

namespace GuidCluster

/-- The numbers of ranks and threads, the same on every rank. -/
def create (rankCount workers senders receivers : UInt32) : GuidCluster where
  nodes r := .create r rankCount workers senders receivers
  started := false
  log := []

def reserveOn (n : GuidNode) (q : GuidRequest) : GuidNode :=
  match n.request 0 q with
  | none => n
  | some (n', c) => { n' with reserved := c :: n'.reserved }

/-- The target rank of a call exists and its type is one of the types. -/
def InBounds (n : GuidNode) (c : GuidCall) : Prop := c.route < n.rankCount ∧ c.type < lastType

instance (n : GuidNode) (c : GuidCall) : Decidable (InBounds n c) :=
  inferInstanceAs (Decidable (_ ∧ _))

def HasThread (s : GuidCluster) (r t : UInt32) : Prop :=
  r < (s.nodes r).rankCount ∧ t.toNat <
    (s.nodes r).workers.toNat + (s.nodes r).senders.toNat + (s.nodes r).receivers.toNat

instance (s : GuidCluster) (r t : UInt32) : Decidable (s.HasThread r t) :=
  inferInstanceAs (Decidable (_ ∧ _))

def setNode (s : GuidCluster) (r : UInt32) (n : GuidNode) : GuidCluster :=
  { s with nodes := fun r' => if r' = r then n else s.nodes r' }

/-- The steps of the cluster; only calls that succeed are steps. -/
def next (s : GuidCluster) : GuidStep → Option GuidCluster
  | .startup q =>
    if s.started then none
    else match (s.nodes 0).request 0 q with
      | none => none
      | some (_, c) =>
        if InBounds (s.nodes 0) c then some { s with nodes := fun r => reserveOn (s.nodes r) q }
        else none
  | .parallelStart =>
    if s.started then none
    else some { s with nodes := fun r => (s.nodes r).setAfterParallelStart, started := true }
  | .alloc r t q =>
    if s.started ∧ s.HasThread r t then
      match (s.nodes r).request t q with
      | none => none
      | some (n, c) =>
        if InBounds (s.nodes r) c then some { s.setNode r n with log := c :: s.log } else none
    else none

/-- The cluster, for every number of ranks and threads. -/
def machine : Machine GuidCluster GuidStep where
  init s := ∃ rankCount workers senders receivers,
    0 < rankCount ∧ s = create rankCount workers senders receivers
  next := next

end GuidCluster

/-! ### One call -/

namespace GuidNode

variable {n n' : GuidNode} {t route type count : UInt32} {g : Guid} {c : GuidCall} {q : GuidRequest}

variable {align : Guid → Guid} {size : UInt32}

lemma allocate_eq_some (h : n.allocate t route type count align size = some (n', c)) :
    n.createForRankInternal t c.route c.type c.count = some (n', c.start) ∧ c.rank = n.rank ∧
      c.thread = t ∧ c.count = count ∧ c.guid = align c.start ∧ c.size = size := by
  obtain ⟨⟨m, g⟩, hg, he⟩ := map_eq_some_iff.1 h
  cases he
  exact ⟨hg, rfl, rfl, rfl, rfl, rfl⟩

/-- **A call that is accepted allocates its number of GUIDs**, any other one is answered with
`NULL_GUID`. -/
theorem request_cases (n : GuidNode) (t : UInt32) (q : GuidRequest) :
    (¬ q.Accepted ∧ n.request t q = none) ∨ (q.Accepted ∧ ∃ route type align size,
      n.request t q = n.allocate t route type q.count align size) := by
  by_cases hq : q.Accepted
  · refine .inr ⟨hq, ?_⟩
    cases q with
    | createForRank route type => exact ⟨route, type, id, 1, rfl⟩
    | reserve | reserveRange | reserveRangeHash => exact ⟨_, _, _, _, if_pos hq⟩
  · refine .inl ⟨hq, ?_⟩
    cases q with
    | createForRank => exact absurd trivial hq
    | reserve | reserveRange | reserveRangeHash => exact if_neg hq

lemma request_eq_some (h : n.request t q = some (n', c)) :
    n.createForRankInternal t c.route c.type c.count = some (n', c.start) ∧ c.rank = n.rank ∧
      c.thread = t ∧ c.count = q.count := by
  obtain ⟨-, hn⟩ | ⟨-, _, _, _, _, he⟩ := request_cases n t q
  · cases hn.symm.trans h
  · obtain ⟨hg, hrank, ht, hcount, -⟩ := allocate_eq_some (he.symm.trans h)
    exact ⟨hg, hrank, ht, hcount⟩

lemma allocate_isSome_iff (hon : n.globalGuidOn ≠ 0) :
    (n.allocate t route type count align size).isSome ↔ count.toUInt64 < n.globalGuidOn := by
  rw [allocate, isSome_map, createForRankInternal, if_pos hon]
  split_ifs with hlt <;> simp [hlt]

lemma request_isSome_iff (hon : n.globalGuidOn ≠ 0) :
    (n.request t q).isSome ↔ q.Accepted ∧ q.count.toUInt64 < n.globalGuidOn := by
  obtain ⟨hq, hn⟩ | ⟨hq, _, _, _, _, he⟩ := request_cases n t q
  · simp [hn, hq]
  · rw [he, allocate_isSome_iff hon]
    exact (and_iff_right hq).symm

lemma createForRankInternal_startup (hon : n.globalGuidOn ≠ 0)
    (h : n.createForRankInternal t route type count = some (n', g)) :
    n' = { n with globalGuidOn := n.globalGuidOn - count.toUInt64 } ∧
      g = Guid.make type.toUInt64 route.toUInt64 (n.globalGuidOn - count.toUInt64) ∧
      count.toNat < n.globalGuidOn.toNat := by
  rw [createForRankInternal, if_pos hon] at h
  split_ifs at h with hlt
  cases h
  exact ⟨rfl, rfl, by simpa [UInt64.lt_iff_toNat_lt] using hlt⟩

lemma createForRankInternal_started (hon : n.globalGuidOn = 0)
    (h : n.createForRankInternal t route type count = some (n', g)) :
    n' = n.bump t (keyIndex route type) count ∧
      g = Guid.make type.toUInt64 route.toUInt64
        (n.keys t (keyIndex route type) + n.keysPerThread * n.globalGuidThreadId t) ∧
      n.keys t (keyIndex route type) + count.toUInt64 < n.keysPerThread := by
  rw [createForRankInternal, if_neg (not_not.2 hon)] at h
  split_ifs at h with hlt
  cases h
  exact ⟨rfl, rfl, hlt⟩

/-! ### The numbers of the threads -/

/-- The number of a thread inside its rank's share of the blocks. -/
def localId (n : GuidNode) (t : UInt32) : ℕ := min t.toNat n.workers.toNat

lemma toNat_workers_add_one (hw : n.workers + 1 ≠ 0) :
    (n.workers + 1).toNat = n.workers.toNat + 1 := by
  have hlt := n.workers.toNat_lt
  have hne : (n.workers + 1).toNat ≠ 0 := fun h => hw (UInt32.toNat_inj.1 h)
  rw [UInt32.toNat_add, UInt32.toNat_one] at hne ⊢
  omega

lemma share_le (hr : n.rank < n.rankCount) :
    (n.workers.toNat + 1) * n.rank.toNat + (n.workers.toNat + 1) ≤
      (n.workers.toNat + 1) * n.rankCount.toNat := by
  exact Nat.mul_le_mul_left _ (UInt32.lt_iff_toNat_lt.1 hr)

lemma share_lt (hw : n.workers + 1 ≠ 0) : (n.workers.toNat + 1) * n.rankCount.toNat < 2 ^ 64 := by
  have hlt := (n.workers + 1).toNat_lt
  rw [toNat_workers_add_one hw] at hlt
  calc (n.workers.toNat + 1) * n.rankCount.toNat
      < 2 ^ 32 * 2 ^ 32 := Nat.mul_lt_mul'' hlt n.rankCount.toNat_lt

/-- With one rank there is no table for other threads, but then the only rank is rank 0. -/
theorem toNat_minGlobalGuidThread (hw : n.workers + 1 ≠ 0) (hr : n.rank < n.rankCount) :
    n.minGlobalGuidThread.toNat = (n.workers.toNat + 1) * n.rank.toNat := by
  have hshare := share_le hr
  have hlt := share_lt hw
  rw [minGlobalGuidThread, numTables, UInt64.toNat_mul]
  split_ifs with h
  · have hzero : n.rank.toNat = 0 := by
      have := UInt32.lt_iff_toNat_lt.1 hr
      rw [h, UInt32.toNat_one] at this
      omega
    simp [hzero]
  · rw [UInt32.toNat_toUInt64, UInt32.toNat_toUInt64, toNat_workers_add_one hw,
      Nat.mod_eq_of_lt (by omega)]

lemma toNat_maxGlobalGuidThread (hw : n.workers + 1 ≠ 0) (hr : n.rank < n.rankCount) :
    n.maxGlobalGuidThread.toNat = (n.workers.toNat + 1) * n.rank.toNat + n.workers.toNat := by
  have hshare := share_le hr
  have hlt := share_lt hw
  have hmin := toNat_minGlobalGuidThread hw hr
  rw [maxGlobalGuidThread]
  split_ifs with h
  · rw [UInt64.toNat_add, hmin, numTables, if_pos h, UInt32.toNat_toUInt64,
      Nat.mod_eq_of_lt (by omega)]
  · have hsum : (n.minGlobalGuidThread + n.numTables).toNat =
        (n.workers.toNat + 1) * n.rank.toNat + (n.workers.toNat + 1) := by
      rw [UInt64.toNat_add, hmin, numTables, if_neg h, UInt32.toNat_toUInt64,
        toNat_workers_add_one hw, Nat.mod_eq_of_lt (by omega)]
    rw [UInt64.toNat_sub_of_le _ _ (by rw [UInt64.le_iff_toNat_le, hsum, UInt64.toNat_one]; omega),
      hsum, UInt64.toNat_one]
    omega

lemma toNat_globalGuidThreadId (hw : n.workers + 1 ≠ 0) (hr : n.rank < n.rankCount) (t : UInt32) :
    (n.globalGuidThreadId t).toNat = (n.workers.toNat + 1) * n.rank.toNat + n.localId t := by
  have hshare := share_le hr
  have hlt := share_lt hw
  rw [globalGuidThreadId, UInt64.toNat_add, toNat_minGlobalGuidThread hw hr, localId]
  split_ifs with h
  · have := UInt32.lt_iff_toNat_lt.1 h
    rw [UInt32.toNat_toUInt64, Nat.mod_eq_of_lt (by omega), Nat.min_eq_left (by omega)]
  · have := UInt32.not_lt.1 h
    rw [UInt32.le_iff_toNat_le] at this
    rw [UInt32.toNat_toUInt64, Nat.mod_eq_of_lt (by omega), Nat.min_eq_right (by omega)]

end GuidNode

/-! ### Where the keys lie -/

namespace GuidCall

/-- The call was given the keys from `k` on. -/
def KeyAt (c : GuidCall) (k : ℕ) : Prop :=
  k + c.count.toNat ≤ 2 ^ 40 ∧ c.start.toNat =
    2 ^ 56 * (c.type.toNat % 2 ^ 8) + (2 ^ 40 * (c.route.toNat % 2 ^ 16) + k)

variable {c : GuidCall}

lemma keyAt_make {key : UInt64} (hk : key.toNat + c.count.toNat ≤ 2 ^ 40)
    (hlt : key.toNat < 2 ^ 40) (h : c.start = Guid.make c.type.toUInt64 c.route.toUInt64 key) :
    c.KeyAt key.toNat := by
  refine ⟨hk, ?_⟩
  rw [h, Guid.toNat_make, UInt32.toNat_toUInt64, UInt32.toNat_toUInt64, Nat.mod_eq_of_lt hlt]

lemma key_fromIndex {k : ℕ} (h : c.KeyAt k) {i : UInt32} (hi : i < c.count) :
    (c.start.fromIndex i).toNat % 2 ^ 40 = k + i.toNat := by
  obtain ⟨hle, hstart⟩ := h
  have hi' := UInt32.lt_iff_toNat_lt.1 hi
  rw [Guid.fromIndex, UInt64.toNat_add, hstart, UInt32.toNat_toUInt64]
  omega

end GuidCall

namespace GuidCluster

variable {s s' : GuidCluster} {mark : ℕ}

/-- `keys_per_thread`, the same on every rank. -/
def perThread (s : GuidCluster) : ℕ := (s.nodes 0).keysPerThread.toNat

def counter (s : GuidCluster) (c : GuidCall) : ℕ :=
  ((s.nodes c.rank).keys c.thread (GuidNode.keyIndex c.route c.type)).toNat

/-- The first key of the block of the thread that makes the call. -/
def block (s : GuidCluster) (c : GuidCall) : ℕ :=
  s.perThread * ((s.nodes c.rank).globalGuidThreadId c.thread).toNat

/-- The keys of an allocation lie in the block of the thread, below its counter. -/
def InBlock (s : GuidCluster) (c : GuidCall) : Prop :=
  ∃ a, 0 < a ∧ a + c.count.toNat ≤ s.counter c ∧ a + c.count.toNat < s.perThread ∧
    c.KeyAt (s.block c + a)

/-- What holds in every reachable state: the keys of the startup phase are at least `mark`, the
blocks of all the threads are below it, and the allocations lie in their blocks. -/
structure Inv (s : GuidCluster) (mark : ℕ) : Prop where
  pos : 0 < (s.nodes 0).rankCount
  rank : ∀ r, (s.nodes r).rank = r
  rankCount : ∀ r, (s.nodes r).rankCount = (s.nodes 0).rankCount
  workers : ∀ r, (s.nodes r).workers = (s.nodes 0).workers
  mark_le : mark ≤ 2 ^ 40
  reserved : ∀ r, ∀ c ∈ (s.nodes r).reserved, 0 < c.count.toNat → ∃ k, mark ≤ k ∧ c.KeyAt k
  guidOn : ∀ r, (s.nodes r).globalGuidOn.toNat = if s.started then 0 else mark
  perThread : ∀ r, (s.nodes r).keysPerThread = (s.nodes 0).keysPerThread
  nowrap : 0 < s.perThread → (s.nodes 0).workers + 1 ≠ 0
  blocks : s.perThread * (((s.nodes 0).workers + 1).toNat * (s.nodes 0).rankCount.toNat) ≤ mark
  before : s.started = false → 0 < mark ∧ s.log = [] ∧ s.perThread = 0
  counters : ∀ r t i, 0 < ((s.nodes r).keys t i).toNat ∧ ((s.nodes r).keys t i).toNat ≤ 2 ^ 40
  log : ∀ c ∈ s.log, c.rank < (s.nodes 0).rankCount ∧ s.InBlock c

lemma inv_create {rankCount workers senders receivers : UInt32} (h : 0 < rankCount) :
    Inv (create rankCount workers senders receivers) (2 ^ 40) where
  pos := h
  rank _ := rfl
  rankCount _ := rfl
  workers _ := rfl
  mark_le := le_rfl
  reserved _ _ hc := absurd hc not_mem_nil
  guidOn _ := rfl
  perThread _ := rfl
  nowrap hp := absurd hp (by simp [GuidCluster.perThread, create, GuidNode.create])
  blocks := by simp [GuidCluster.perThread, create, GuidNode.create]
  before _ := ⟨by decide, rfl, rfl⟩
  counters _ _ _ := ⟨by simp [create, GuidNode.create], by simp [create, GuidNode.create]⟩
  log _ hc := absurd hc not_mem_nil

variable {q : GuidRequest}

lemma reserveOn_eq {n : GuidNode} (hon : n.globalGuidOn ≠ 0)
    (hq : q.Accepted) (hlt : q.count.toUInt64 < n.globalGuidOn) :
    ∃ c : GuidCall, reserveOn n q = { n with
        globalGuidOn := n.globalGuidOn - q.count.toUInt64, reserved := c :: n.reserved } ∧
      c.count = q.count ∧ c.start =
        Guid.make c.type.toUInt64 c.route.toUInt64 (n.globalGuidOn - q.count.toUInt64) := by
  have hsome := (GuidNode.request_isSome_iff hon (t := 0)).2 ⟨hq, hlt⟩
  obtain ⟨⟨n', c⟩, hr⟩ := isSome_iff_exists.1 hsome
  obtain ⟨hcreate, -, -, hc⟩ := GuidNode.request_eq_some hr
  obtain ⟨rfl, hstart, -⟩ := GuidNode.createForRankInternal_startup hon hcreate
  refine ⟨c, ?_, hc, hc ▸ hstart⟩
  rw [reserveOn, hr]
  simp only [hc]

lemma next_startup (h : s.next (.startup q) = some s') :
    s.started = false ∧ (∃ r, (s.nodes 0).request 0 q = some r) ∧
      s' = { s with nodes := fun r => reserveOn (s.nodes r) q } := by
  simp only [next] at h
  split_ifs at h with hs
  split at h
  case h_1 => cases h
  case h_2 n c hr =>
    split_ifs at h
    cases h
    exact ⟨by simpa using hs, ⟨_, hr⟩, rfl⟩

lemma next_parallelStart (h : s.next .parallelStart = some s') : s.started = false ∧
      s' = { s with nodes := fun r => (s.nodes r).setAfterParallelStart, started := true } := by
  simp only [next] at h
  split_ifs at h with hs
  cases h
  exact ⟨by simpa using hs, rfl⟩

lemma next_alloc {r t : UInt32} (h : s.next (.alloc r t q) = some s') :
    s.started = true ∧ s.HasThread r t ∧ ∃ n c, (s.nodes r).request t q = some (n, c) ∧
      InBounds (s.nodes r) c ∧ s' = { s.setNode r n with log := c :: s.log } := by
  simp only [next] at h
  split_ifs at h with hs
  split at h
  case h_1 => cases h
  case h_2 n c hr =>
    split_ifs at h with hb
    cases h
    exact ⟨hs.1, hs.2, n, c, hr, hb, rfl⟩

namespace Inv

variable {q : GuidRequest}

lemma startup (h : s.Inv mark) (hst : s.next (.startup q) = some s') :
    s'.Inv (mark - q.count.toNat) := by
  obtain ⟨hs, ⟨r₀, hr₀⟩, rfl⟩ := next_startup hst
  obtain ⟨hpos, hlog, hzero⟩ := h.before hs
  have hnat : ∀ r, (s.nodes r).globalGuidOn.toNat = mark := fun r => by
    rw [h.guidOn r, hs]
    rfl
  have hon : ∀ r, (s.nodes r).globalGuidOn ≠ 0 := fun r h0 => by
    have := hnat r
    rw [h0, UInt64.toNat_zero] at this
    omega
  have hsome : ((s.nodes 0).request 0 q).isSome := by rw [hr₀]; rfl
  obtain ⟨hq, hlt₀⟩ := (GuidNode.request_isSome_iff (hon 0)).1 hsome
  have hcount : q.count.toNat < mark := by
    rw [← hnat 0]
    simpa [UInt64.lt_iff_toNat_lt] using hlt₀
  have hlt : ∀ r, q.count.toUInt64 < (s.nodes r).globalGuidOn := fun r => by
    rw [UInt64.lt_iff_toNat_lt, hnat r, UInt32.toNat_toUInt64]
    exact hcount
  have hsub : ∀ r, ((s.nodes r).globalGuidOn - q.count.toUInt64).toNat = mark - q.count.toNat :=
    fun r => by
      rw [UInt64.toNat_sub_of_le _ _ (UInt64.le_of_lt (hlt r)), hnat r, UInt32.toNat_toUInt64]
  -- every rank takes the same keys, and nothing else of its state changes
  have hnode : ∀ r, ∃ c : GuidCall, reserveOn (s.nodes r) q = { s.nodes r with
        globalGuidOn := (s.nodes r).globalGuidOn - q.count.toUInt64
        reserved := c :: (s.nodes r).reserved } ∧
      (0 < c.count.toNat → c.KeyAt (mark - q.count.toNat)) := fun r => by
    obtain ⟨c, hn, hc, hstart⟩ := reserveOn_eq (hon r) hq (hlt r)
    refine ⟨c, hn, fun hc0 => ?_⟩
    have hm := h.mark_le
    rw [hc] at hc0
    have := GuidCall.keyAt_make (by rw [hsub r, hc]; omega) (by rw [hsub r]; omega) hstart
    rwa [hsub r] at this
  choose c hn hkey using hnode
  exact {
    pos := by simpa only [hn] using h.pos
    rank := fun r => by simpa only [hn] using h.rank r
    rankCount := fun r => by simpa only [hn] using h.rankCount r
    workers := fun r => by simpa only [hn] using h.workers r
    mark_le := (Nat.sub_le _ _).trans h.mark_le
    reserved := fun r d hd hd0 => by
      simp only [hn, mem_cons] at hd
      rcases hd with rfl | hd
      · exact ⟨_, le_rfl, hkey r hd0⟩
      · obtain ⟨k, hk, hat⟩ := h.reserved r d hd hd0
        exact ⟨k, (Nat.sub_le _ _).trans hk, hat⟩
    guidOn := fun r => by
      simp only [hn, hs]
      exact hsub r
    perThread := fun r => by simpa only [hn] using h.perThread r
    nowrap := fun hp => by
      have : s.perThread ≠ 0 := by simpa only [GuidCluster.perThread, hn] using hp.ne'
      exact absurd hzero this
    blocks := by
      have hz : (s.nodes 0).keysPerThread.toNat = 0 := hzero
      simp only [GuidCluster.perThread, hn, hz, Nat.zero_mul]
      exact Nat.zero_le _
    before := fun _ => ⟨by omega, hlog, by simpa only [GuidCluster.perThread, hn] using hzero⟩
    counters := fun r t i => by simpa only [hn] using h.counters r t i
    log := fun d hd => by
      rw [hlog] at hd
      exact absurd hd not_mem_nil }

lemma parallelStart (h : s.Inv mark) (hst : s.next .parallelStart = some s') : s'.Inv mark := by
  obtain ⟨hs, rfl⟩ := next_parallelStart hst
  obtain ⟨hpos, hlog, -⟩ := h.before hs
  have hnat : ∀ r, (s.nodes r).globalGuidOn.toNat = mark := fun r => by
    rw [h.guidOn r, hs]
    rfl
  have hper : ((s.nodes 0).setAfterParallelStart).keysPerThread.toNat =
      mark / (((s.nodes 0).workers + 1).toNat * (s.nodes 0).rankCount.toNat) := by
    rw [GuidNode.setAfterParallelStart, UInt64.toNat_div, hnat 0, UInt64.toNat_mul,
      UInt32.toNat_toUInt64, UInt32.toNat_toUInt64, Nat.mod_eq_of_lt]
    have := Nat.mul_lt_mul'' ((s.nodes 0).workers + 1).toNat_lt (s.nodes 0).rankCount.toNat_lt
    rwa [← Nat.pow_add] at this
  exact {
    __ := h
    guidOn := fun r => rfl
    perThread := fun r => by
      have hon : (s.nodes r).globalGuidOn = (s.nodes 0).globalGuidOn :=
        UInt64.toNat_inj.1 ((hnat r).trans (hnat 0).symm)
      simp [GuidNode.setAfterParallelStart, hon, h.workers r, h.rankCount r]
    nowrap := fun hp h0 => by
      simp only [GuidCluster.perThread, hper] at hp
      rw [show ((s.nodes 0).workers + 1).toNat = 0 from congrArg UInt32.toNat h0] at hp
      simp at hp
    blocks := by
      simp only [GuidCluster.perThread, hper]
      exact Nat.div_mul_le_self _ _
    before := fun hf => absurd hf (by simp)
    log := fun d hd => by
      simp only [hlog] at hd
      exact absurd hd not_mem_nil }

variable {r : UInt32}

lemma globalGuidThreadId_lt (h : s.Inv mark) (hpos : 0 < s.perThread)
    (hr : r < (s.nodes 0).rankCount) (t : UInt32) :
    ((s.nodes r).globalGuidThreadId t).toNat <
      ((s.nodes 0).workers + 1).toNat * (s.nodes 0).rankCount.toNat := by
  have hw : (s.nodes r).workers + 1 ≠ 0 := h.workers r ▸ h.nowrap hpos
  have hr' : (s.nodes r).rank < (s.nodes r).rankCount := by rwa [h.rank r, h.rankCount r]
  have hle := GuidNode.share_le hr'
  rw [← h.workers r, ← h.rankCount r, GuidNode.toNat_workers_add_one hw,
    GuidNode.toNat_globalGuidThreadId hw hr', GuidNode.localId]
  omega

variable {c : GuidCall}

lemma block_le (h : s.Inv mark) (hpos : 0 < s.perThread)
    (hr : c.rank < (s.nodes 0).rankCount) : s.block c + s.perThread ≤ mark := by
  refine le_trans ?_ h.blocks
  exact Nat.mul_le_mul_left _ (h.globalGuidThreadId_lt hpos hr c.thread)

/-- **The keys of an allocation** are the next ones of the thread's block. -/
theorem alloc_key (h : s.Inv mark) (hs : s.started = true) {t : UInt32}
    {n : GuidNode} (hr : r < (s.nodes 0).rankCount)
    (hreq : (s.nodes r).request t q = some (n, c)) :
    n = (s.nodes r).bump t (GuidNode.keyIndex c.route c.type) c.count ∧ c.rank = r ∧
      c.thread = t ∧ s.counter c + c.count.toNat < s.perThread ∧
      c.KeyAt (s.block c + s.counter c) := by
  obtain ⟨hcreate, hrank, rfl, -⟩ := GuidNode.request_eq_some hreq
  rw [h.rank r] at hrank
  have hon : (s.nodes r).globalGuidOn = 0 := UInt64.toNat_inj.1 (by rw [h.guidOn r, hs]; rfl)
  obtain ⟨hn, hstart, hlt⟩ := GuidNode.createForRankInternal_started hon hcreate
  have hcount := (h.counters r c.thread (GuidNode.keyIndex c.route c.type)).2
  have hc32 := c.count.toNat_lt
  have hper : (s.nodes r).keysPerThread.toNat = s.perThread := congrArg _ (h.perThread r)
  have hnat : s.counter c + c.count.toNat < s.perThread := by
    rw [UInt64.lt_iff_toNat_lt, hper, UInt64.toNat_add, UInt32.toNat_toUInt64,
      Nat.mod_eq_of_lt (by omega)] at hlt
    rwa [counter, hrank]
  have hble := h.block_le (by omega) (by rwa [hrank])
  have hmark := h.mark_le
  have hkey : ((s.nodes r).keys c.thread (GuidNode.keyIndex c.route c.type) +
      (s.nodes r).keysPerThread * (s.nodes r).globalGuidThreadId c.thread).toNat =
      s.block c + s.counter c := by
    have hprod : s.perThread * ((s.nodes r).globalGuidThreadId c.thread).toNat = s.block c := by
      rw [block, hrank]
    have hval : ((s.nodes r).keys c.thread (GuidNode.keyIndex c.route c.type)).toNat =
        s.counter c := by rw [counter, hrank]
    rw [UInt64.toNat_add, UInt64.toNat_mul, hper, hprod, hval, Nat.mod_eq_of_lt (by omega),
      Nat.mod_eq_of_lt (by omega), Nat.add_comm]
  refine ⟨hn, hrank, rfl, hnat, ?_⟩
  rw [← hkey]
  exact GuidCall.keyAt_make (by rw [hkey]; omega) (by rw [hkey]; omega) hstart

end Inv

/-! ### Every run -/

variable {r t : UInt32} {n : GuidNode} {c d : GuidCall}

/-- The state after an allocation. -/
def allocated (s : GuidCluster) (c : GuidCall) : GuidCluster :=
  { s.setNode c.rank
      ((s.nodes c.rank).bump c.thread (GuidNode.keyIndex c.route c.type) c.count) with
    log := c :: s.log }

lemma allocated_nodes {α : Type*} (f : GuidNode → α) (hf : ∀ n t i m, f (.bump n t i m) = f n)
    (s : GuidCluster) (c : GuidCall) (r : UInt32) :
    f ((s.allocated c).nodes r) = f (s.nodes r) := by
  simp only [allocated, setNode]
  split_ifs with hr
  · rw [hf, hr]
  · rfl

lemma allocated_perThread (s : GuidCluster) (c : GuidCall) :
    (s.allocated c).perThread = s.perThread :=
  allocated_nodes (fun n => n.keysPerThread.toNat) (fun _ _ _ _ => rfl) s c 0

lemma allocated_block (s : GuidCluster) (c d : GuidCall) :
    (s.allocated c).block d = s.block d := by
  rw [block, block, allocated_perThread,
    allocated_nodes (fun n => n.globalGuidThreadId d.thread) (fun _ _ _ _ => rfl) s c d.rank]

lemma allocated_keys (s : GuidCluster) (c : GuidCall) (r t i : UInt32) :
    ((s.allocated c).nodes r).keys t i =
      if r = c.rank ∧ t = c.thread ∧ i = GuidNode.keyIndex c.route c.type then
        (s.nodes r).keys t i + c.count.toUInt64 else (s.nodes r).keys t i := by
  simp only [allocated, setNode, GuidNode.bump]
  by_cases hr : r = c.rank
  · subst hr
    simp
  · simp [hr]

lemma allocated_counter_self (h : s.counter c + c.count.toNat < 2 ^ 64) :
    (s.allocated c).counter c = s.counter c + c.count.toNat := by
  rw [counter, allocated_keys, if_pos ⟨rfl, rfl, rfl⟩, UInt64.toNat_add, UInt32.toNat_toUInt64]
  exact Nat.mod_eq_of_lt h

lemma counter_le_allocated (h : s.counter c + c.count.toNat < 2 ^ 64) (d : GuidCall) :
    s.counter d ≤ (s.allocated c).counter d := by
  by_cases hd : d.rank = c.rank ∧ d.thread = c.thread ∧
      GuidNode.keyIndex d.route d.type = GuidNode.keyIndex c.route c.type
  · have hsame : ∀ u : GuidCluster, u.counter d = u.counter c := fun u => by
      rw [counter, counter, hd.1, hd.2.1, hd.2.2]
    rw [hsame, hsame, allocated_counter_self h]
    exact Nat.le_add_right _ _
  · rw [counter, counter, allocated_keys, if_neg hd]

namespace Inv

variable {q : GuidRequest}

lemma next_eq_allocated (h : s.Inv mark)
    (hst : s.next (.alloc r t q) = some s') : ∃ c n, (s.nodes r).request t q = some (n, c) ∧
      InBounds (s.nodes r) c ∧ s.started = true ∧ s.HasThread r t ∧ c.rank = r ∧ c.thread = t ∧
      c.rank < (s.nodes 0).rankCount ∧ s.counter c + c.count.toNat < s.perThread ∧
      c.KeyAt (s.block c + s.counter c) ∧ s' = s.allocated c := by
  obtain ⟨hs, hthread, n, c, hreq, hb, rfl⟩ := next_alloc hst
  have hr : r < (s.nodes 0).rankCount := h.rankCount r ▸ hthread.1
  obtain ⟨rfl, rfl, rfl, hlt, hkey⟩ := h.alloc_key hs hr hreq
  exact ⟨c, _, hreq, hb, hs, hthread, rfl, rfl, hr, hlt, hkey, rfl⟩

lemma perThread_le (h : s.Inv mark) (hpos : 0 < s.perThread)
    (hr : c.rank < (s.nodes 0).rankCount) : s.perThread ≤ 2 ^ 40 := by
  have := h.block_le hpos hr
  have := h.mark_le
  omega

lemma inBlock_allocated (hlt : s.counter c + c.count.toNat < 2 ^ 64) (hd : s.InBlock d) :
    (s.allocated c).InBlock d := by
  obtain ⟨a, ha, hle, hper, hat⟩ := hd
  refine ⟨a, ha, hle.trans (counter_le_allocated hlt d), ?_, ?_⟩
  · rwa [allocated_perThread]
  · rwa [allocated_block]

lemma alloc (h : s.Inv mark) (hst : s.next (.alloc r t q) = some s') : s'.Inv mark := by
  obtain ⟨c, n, -, -, hs, -, -, -, hr, hlt, hkey, rfl⟩ := h.next_eq_allocated hst
  have hper := h.perThread_le (by omega) hr
  have hlt64 : s.counter c + c.count.toNat < 2 ^ 64 := by omega
  have hcount := allocated_nodes (α := UInt32) GuidNode.rankCount (fun _ _ _ _ => rfl) s c
  have hwork := allocated_nodes (α := UInt32) GuidNode.workers (fun _ _ _ _ => rfl) s c
  have hkpt := allocated_nodes (α := UInt64) GuidNode.keysPerThread (fun _ _ _ _ => rfl) s c
  exact {
    pos := by rw [hcount]; exact h.pos
    rank := fun r' => by
      rw [allocated_nodes GuidNode.rank (fun _ _ _ _ => rfl)]
      exact h.rank r'
    rankCount := fun r' => by rw [hcount, hcount]; exact h.rankCount r'
    workers := fun r' => by rw [hwork, hwork]; exact h.workers r'
    mark_le := h.mark_le
    reserved := fun r' => by
      rw [allocated_nodes GuidNode.reserved (fun _ _ _ _ => rfl)]
      exact h.reserved r'
    guidOn := fun r' => by
      rw [allocated_nodes GuidNode.globalGuidOn (fun _ _ _ _ => rfl)]
      exact h.guidOn r'
    perThread := fun r' => by rw [hkpt, hkpt]; exact h.perThread r'
    nowrap := fun hp => by
      rw [hwork]
      exact h.nowrap (by rwa [allocated_perThread] at hp)
    blocks := by rw [allocated_perThread, hwork, hcount]; exact h.blocks
    before := fun hf => absurd (show s.started = false from hf) (by simp [hs])
    counters := fun r' t' i => by
      rw [allocated_keys]
      split_ifs with heq
      · obtain ⟨rfl, rfl, rfl⟩ := heq
        have := h.counters c.rank c.thread (GuidNode.keyIndex c.route c.type)
        have hsum : ((s.nodes c.rank).keys c.thread (GuidNode.keyIndex c.route c.type) +
            c.count.toUInt64).toNat = s.counter c + c.count.toNat := by
          exact Nat.mod_eq_of_lt hlt64
        have hcpos : 0 < s.counter c := this.1
        omega
      · exact h.counters r' t' i
    log := fun d hd => by
      rw [hcount]
      rcases mem_cons.1 hd with rfl | hd
      · refine ⟨hr, s.counter d, (h.counters _ _ _).1, ?_, ?_, ?_⟩
        · rw [allocated_counter_self hlt64]
        · rwa [allocated_perThread]
        · rwa [allocated_block]
      · exact ⟨(h.log d hd).1, inBlock_allocated hlt64 (h.log d hd).2⟩ }

end Inv

lemma inv_of_reachable (h : machine.Reachable s) : ∃ mark, s.Inv mark := by
  refine h.invariant (I := fun s => ∃ mark, s.Inv mark) ?_ ?_
  · rintro _ ⟨rankCount, workers, senders, receivers, hpos, rfl⟩
    exact ⟨_, inv_create hpos⟩
  · rintro s l s' - ⟨mark, hi⟩ hst
    cases l with
    | startup q => exact ⟨_, hi.startup hst⟩
    | parallelStart => exact ⟨_, hi.parallelStart hst⟩
    | alloc r t q => exact ⟨_, hi.alloc hst⟩

end GuidCluster

end Arts
