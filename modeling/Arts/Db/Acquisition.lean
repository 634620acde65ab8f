import Arts.Db.Cdag

/-!
# Acquiring several datablocks

`acquire_dbs` goes through the GUIDs in order but does not block, so waits can form a cycle
(`Acquisition.wait_cycle`), unless EDTs that share a datablock acquire one after the other
(`Acquisition.deadlock_free`). The order itself is right (`acquireOrder_iff`).
-/

namespace Arts

open List Function Option Frontier

/-- A dependence of an EDT on a datablock, fields of `arts_edt_dep_t`. -/
structure Dep where
  guid : Guid
  mode : AccessMode
  flags : UInt32

/-! ### The order of the acquires -/

section SortSlots

variable (guid : ℕ → Guid)

/-- The GUID of a slot as an `intptr_t`. -/
def signed (k : ℕ) : ℤ := (UInt64.toInt64 (guid k)).toInt

/-- The inner loop of the insertion sort of `acquire_dbs`, from `j = n - 1` downwards: the slots
with a greater GUID move up, and `val` is stored behind the others. -/
def shiftSlots (val : ℕ) : ℕ → List ℕ → List ℕ
  | 0, sorted => sorted.set 0 val
  | n + 1, sorted =>
    let x := sorted.getD n 0
    if signed guid val < signed guid x then shiftSlots val n (sorted.set (n + 1) x)
    else sorted.set (n + 1) val

def sortRound (sorted : List ℕ) (k : ℕ) : List ℕ := shiftSlots guid (sorted.getD k 0) k sorted

/-- The insertion sort of `acquire_dbs`: the slots in the order of their GUIDs. -/
def sortSlots (depc : ℕ) : List ℕ := (range' 1 (depc - 1)).foldl (sortRound guid) (range depc)

/-- The index array of `acquire_dbs`; in the rounds from `2 ^ 31` on `j` is not an `int`. -/
def acquireOrder (depc : UInt32) : Option (List ℕ) :=
  (range' 1 (depc.toNat - 1)).foldlM
    (fun sorted k => if k < 2 ^ 31 then some (sortRound guid sorted k) else none)
    (range depc.toNat)

/-- The slot `i` is acquired before the slot `j`. -/
def Before (i j : ℕ) : Prop :=
  signed guid i ≤ signed guid j ∧ (signed guid i = signed guid j → i < j)

variable {guid}

lemma shiftSlots_append {val : ℕ} {a : List ℕ} (hs : a.Pairwise (Before guid))
    (hlt : ∀ i ∈ a, i < val) (y : ℕ) (rest : List ℕ) :
    ∃ b, shiftSlots guid val a.length (a ++ y :: rest) = b ++ rest ∧ b.Perm (val :: a) ∧
      b.Pairwise (Before guid) := by
  induction a using List.reverseRecOn generalizing y rest with
  | nil => exact ⟨[val], rfl, .refl _, pairwise_singleton _ _⟩
  | append_singleton a x ih =>
    obtain ⟨ha, -, hx⟩ := pairwise_append.1 hs
    have hx : ∀ i ∈ a, Before guid i x := fun i hi => hx i hi x (mem_singleton_self x)
    have hget : (a ++ [x] ++ y :: rest).getD a.length 0 = x := by simp
    have hset (z : ℕ) : (a ++ [x] ++ y :: rest).set (a.length + 1) z = a ++ x :: z :: rest := by
      simp
    rw [length_append, length_singleton, shiftSlots, hget, hset, hset]
    split_ifs with h
    · obtain ⟨b, hb, hperm, hsort⟩ := ih ha (fun i hi => hlt i (mem_append_left _ hi)) x (x :: rest)
      refine ⟨b ++ [x], by rw [hb, append_assoc]; rfl, hperm.append_right [x], ?_⟩
      refine pairwise_append.2 ⟨hsort, pairwise_singleton _ _, fun i hi j hj => ?_⟩
      rw [mem_singleton.1 hj]
      rcases mem_cons.1 (hperm.mem_iff.1 hi) with rfl | hi
      · exact ⟨h.le, fun heq => absurd heq h.ne⟩
      · exact hx i hi
    · refine ⟨a ++ [x] ++ [val], by simp, perm_append_singleton val _, ?_⟩
      refine pairwise_append.2 ⟨hs, pairwise_singleton _ _, fun i hi j hj => ?_⟩
      rw [mem_singleton.1 hj]
      refine ⟨?_, fun _ => hlt i hi⟩
      rcases mem_append.1 hi with hi | hi
      · exact (hx i hi).1.trans (not_lt.1 h)
      · rw [mem_singleton.1 hi]
        exact not_lt.1 h

lemma foldl_shiftSlots (n m : ℕ) :
    ∃ b, (range' 1 n).foldl (sortRound guid) (range' 0 (n + 1 + m)) = b ++ range' (n + 1) m ∧
      b.Perm (range (n + 1)) ∧ b.Pairwise (Before guid) := by
  induction n generalizing m with
  | zero => exact ⟨[0], by simp [range'_succ, Nat.add_comm], .refl _, pairwise_singleton _ _⟩
  | succ n ih =>
    obtain ⟨b, hb, hperm, hsort⟩ := ih (m + 1)
    have hlen : b.length = n + 1 := by rw [hperm.length_eq, length_range]
    have hget : (b ++ range' (n + 1) (m + 1)).getD (n + 1) 0 = n + 1 := by
      simp [range'_succ, ← hlen]
    obtain ⟨b', hb', hperm', hsort'⟩ := shiftSlots_append hsort
      (fun i hi => mem_range.1 (hperm.mem_iff.1 hi)) (n + 1) (range' (n + 2) m)
    refine ⟨b', ?_, hperm'.trans ((hperm.cons _).trans ?_), hsort'⟩
    · rw [range'_concat, foldl_append, show n + 1 + 1 + m = n + 1 + (m + 1) by omega, hb]
      simp only [foldl_cons, foldl_nil, Nat.one_mul, Nat.add_comm 1 n, sortRound, hget]
      rw [range'_succ, ← hb', hlen]
    · rw [range_succ (n := n + 1)]
      exact (perm_append_singleton _ _).symm

lemma sortSlots_spec (depc : ℕ) :
    (sortSlots guid depc).Perm (range depc) ∧ (sortSlots guid depc).Pairwise (Before guid) := by
  cases depc with
  | zero => exact ⟨.refl _, .nil⟩
  | succ n =>
    obtain ⟨b, hb, h⟩ := @foldl_shiftSlots guid n 0
    rw [sortSlots, Nat.add_sub_cancel, range_eq_range', ← Nat.add_zero (n + 1), hb]
    simpa [range_eq_range'] using h

lemma sortSlots_perm (depc : ℕ) : (sortSlots guid depc).Perm (range depc) := (sortSlots_spec depc).1

lemma acquireOrder_eq (depc : UInt32) : acquireOrder guid depc =
    if depc.toNat ≤ 2 ^ 31 then some (sortSlots guid depc.toNat) else none := by
  have h (ks s : List ℕ) : ks.foldlM
      (fun sorted k => if k < 2 ^ 31 then some (sortRound guid sorted k) else none) s =
      if ∀ k ∈ ks, k < 2 ^ 31 then some (ks.foldl (sortRound guid) s) else none := by
    induction ks generalizing s with
    | nil => simp
    | cons k ks ih =>
      by_cases hk : k < 2 ^ 31
      · simp only [foldlM_cons, forall_mem_cons, hk, if_true, true_and]
        exact ih _
      · simp only [foldlM_cons, forall_mem_cons, hk, if_false, false_and]
        rfl
  rw [acquireOrder, h]
  refine if_congr ⟨fun hall => ?_, fun hle k hk => ?_⟩ rfl rfl
  · by_contra hgt
    have := hall (2 ^ 31) (mem_range'_1.2 (by omega))
    omega
  · have := mem_range'_1.1 hk
    omega

/-- **The order of the acquires** is by GUID and, for one GUID, by slot, if the indices fit in an
`int`. -/
theorem acquireOrder_iff (guid : ℕ → Guid) (depc : UInt32) :
    (∃ sorted ∈ acquireOrder guid depc, sorted.Perm (range depc.toNat) ∧
      sorted.Pairwise (Before guid)) ↔ depc.toNat ≤ 2 ^ 31 := by
  rw [acquireOrder_eq]
  split_ifs with h
  · exact iff_of_true ⟨_, rfl, sortSlots_spec _⟩ h
  · exact iff_of_false (by simp) h

/-- In round `2 ^ 31` the `int` overflows. -/
theorem acquireOrder_overflow : acquireOrder (fun _ => 0) 0x80000001 = none := by
  rw [acquireOrder_eq]
  rfl

end SortSlots

/-- The EDTs of a rank and their dependences. -/
structure Workload where
  self : ℕ
  edts : List EdtGuid
  depv : EdtGuid → List Dep
  /-- `depc` is an `uint32_t`. -/
  depc_lt : ∀ e, (depv e).length < 2 ^ 32
  modes : ∀ e, ∀ x ∈ depv e, x.mode = .ro ∨ x.mode = .ew

structure DbAccess where
  guid : Guid
  acquire : Acquire
  flags : UInt32

namespace Workload

/-- The access through the slot `k`. -/
def access (W : Workload) (e : EdtGuid) (k : ℕ) : Option DbAccess :=
  (W.depv e)[k]?.map fun x => ⟨x.guid, ⟨e, UInt32.ofNat k, x.mode⟩, x.flags⟩

/-- The accesses of an EDT, in the order of `acquire_dbs`. -/
def accesses (W : Workload) (e : EdtGuid) : List DbAccess :=
  (sortSlots (fun k => ((W.depv e)[k]?.map Dep.guid).getD 0) (W.depv e).length).filterMap
    (W.access e)

/-- Two EDTs have a datablock in common. -/
def Shares (W : Workload) (e e' : EdtGuid) : Prop :=
  ∃ x ∈ W.depv e, ∃ y ∈ W.depv e', x.guid = y.guid

lemma Shares.symm {W : Workload} {e e' : EdtGuid} (h : W.Shares e e') : W.Shares e' e := by
  obtain ⟨x, hx, y, hy, hxy⟩ := h
  exact ⟨y, hy, x, hx, hxy.symm⟩

instance (W : Workload) (e e' : EdtGuid) : Decidable (W.Shares e e') := by
  unfold Shares
  infer_instance

end Workload

/-- The datablocks of a rank and the EDTs that acquire them. -/
structure Acquisition where
  dbs : Guid → Cdag
  issued : EdtGuid → ℕ
  /-- The EDTs that have begun to acquire, in this order. -/
  started : List EdtGuid
  ran : List EdtGuid

namespace Acquisition

/-- The EDT has issued all accesses. -/
def Issued (W : Workload) (s : Acquisition) (e : EdtGuid) : Prop :=
  s.issued e = (W.accesses e).length

/-- The EDT can run: it has issued all accesses and they are granted. -/
def CanRun (W : Workload) (s : Acquisition) (e : EdtGuid) : Prop :=
  s.Issued W e ∧ ∀ x ∈ W.accesses e, x.acquire ∈ (s.dbs x.guid).granted

instance (W : Workload) (s : Acquisition) (e : EdtGuid) : Decidable (s.CanRun W e) := by
  unfold CanRun Issued
  infer_instance

inductive Act where
  /-- A worker acquires the next datablock of an EDT. -/
  | acquire (e : EdtGuid)
  | run (e : EdtGuid)
  /-- An EDT that has run releases a datablock it has written. -/
  | release (e : EdtGuid) (d : Guid)

def next (W : Workload) (s : Acquisition) : Act → Option Acquisition
  | .acquire e =>
    if e ∈ W.edts then
      (W.accesses e)[s.issued e]?.map fun x =>
        { s with
          dbs := update s.dbs x.guid ((s.dbs x.guid).acquire W.self x.acquire x.flags)
          issued := update s.issued e (s.issued e + 1)
          started := if s.issued e = 0 then s.started ++ [e] else s.started }
    else none
  | .run e =>
    if e ∈ W.edts ∧ e ∉ s.ran ∧ s.CanRun W e then some { s with ran := s.ran ++ [e] } else none
  | .release e d =>
    if e ∈ s.ran ∧ (s.dbs d).Holds (.edt e) then
      some { s with dbs := update s.dbs d ((s.dbs d).release W.self (.edt e)) }
    else none

/-- All datablocks have been released by the EDTs that created them. -/
def machine (W : Workload) : Machine Acquisition Act where
  init s := s = ⟨fun _ => ⟨[], [], [], [.creator]⟩, fun _ => 0, [], []⟩
  next := next W

/-- The EDT `a` waits in a frontier of some datablock for the release of the EDT `b`. -/
def Waits (s : Acquisition) (a b : EdtGuid) : Prop :=
  ∃ (d : Guid) (j k : ℕ) (f g : Frontier), j < k ∧ (s.dbs d).frontiers[j]? = some f ∧
    (s.dbs d).frontiers[k]? = some g ∧ f.localWriteEdt = some b ∧ ∃ q ∈ g.localDelayed, q.edt = a

/-- The condition on an acquire: no other EDT with a datablock in common has issued some but not all
of its accesses. -/
def Serial (W : Workload) (s : Acquisition) : Act → Prop
  | .acquire e => ∀ e' ∈ W.edts, e' ≠ e → W.Shares e e' → s.issued e' = 0 ∨ s.Issued W e'
  | _ => True

instance (W : Workload) (s : Acquisition) (l : Act) : Decidable (s.Serial W l) := by
  cases l <;> unfold Serial Issued <;> infer_instance

/-! ### The accesses of an EDT -/

section Accesses

variable {W : Workload} {e : EdtGuid}

variable {x : DbAccess}

lemma acquire_edt_of_mem (h : x ∈ W.accesses e) : x.acquire.edt = e := by
  obtain ⟨k, -, hk⟩ := mem_filterMap.1 h
  obtain ⟨y, -, rfl⟩ := map_eq_some_iff.1 hk
  rfl

lemma mem_depv_of_mem (h : x ∈ W.accesses e) :
    ∃ y ∈ W.depv e, y.guid = x.guid := by
  obtain ⟨k, -, hk⟩ := mem_filterMap.1 h
  obtain ⟨y, hy, rfl⟩ := map_eq_some_iff.1 hk
  exact ⟨y, mem_of_getElem? hy, rfl⟩

lemma shares_of_mem {e' : EdtGuid} {y : DbAccess} (hx : x ∈ W.accesses e)
    (hy : y ∈ W.accesses e') (h : x.guid = y.guid) : W.Shares e e' := by
  obtain ⟨x', hx', hxg⟩ := mem_depv_of_mem hx
  obtain ⟨y', hy', hyg⟩ := mem_depv_of_mem hy
  exact ⟨x', hx', y', hy', by rw [hxg, hyg, h]⟩

lemma nodup_slots : ((W.accesses e).map fun x => x.acquire.slot).Nodup := by
  have hslot : (W.accesses e).map (fun x => x.acquire.slot) =
      (sortSlots (fun k => ((W.depv e)[k]?.map Dep.guid).getD 0) (W.depv e).length).map
        UInt32.ofNat := by
    have hmem : ∀ k ∈ sortSlots (fun k => ((W.depv e)[k]?.map Dep.guid).getD 0)
        (W.depv e).length, (W.access e k).map (fun x => x.acquire.slot) = some (UInt32.ofNat k) := by
      intro k hk
      have hlt := mem_range.1 ((sortSlots_perm _).mem_iff.1 hk)
      rw [Workload.access, getElem?_eq_getElem hlt]
      rfl
    rw [Workload.accesses, map_filterMap, ← filterMap_eq_map]
    exact filterMap_congr hmem
  rw [hslot]
  refine List.Nodup.map_on ?_ ((sortSlots_perm _).nodup_iff.2 nodup_range)
  intro i hi j hj h
  have hi' := mem_range.1 ((sortSlots_perm _).mem_iff.1 hi)
  have hj' := mem_range.1 ((sortSlots_perm _).mem_iff.1 hj)
  have hlt := W.depc_lt e
  have hsize : UInt32.size = 2 ^ 32 := rfl
  have := congrArg UInt32.toNat h
  rwa [UInt32.toNat_ofNat_of_lt' (by omega), UInt32.toNat_ofNat_of_lt' (by omega)] at this

end Accesses

/-! ### The order in which EDTs begin -/

/-- What holds in every run: the accesses on a datablock are in the order in which the EDTs have
begun to acquire. -/
structure Inv (W : Workload) (s : Acquisition) : Prop where
  db : ∀ d, (s.dbs d).Inv
  creator : ∀ d, .creator ∈ (s.dbs d).released
  requests : ∀ d q, q ∈ (s.dbs d).requests ↔
    ∃ x ∈ (W.accesses q.edt).take (s.issued q.edt), x.guid = d ∧ x.acquire = q
  released : ∀ d e, .edt e ∈ (s.dbs d).released → e ∈ s.ran
  ran : ∀ e ∈ s.ran, s.CanRun W e
  started : ∀ e, e ∈ s.started ↔ 0 < s.issued e
  edts : ∀ e ∈ s.started, e ∈ W.edts
  order : ∀ (d : Guid) (i j : ℕ) (q r : Acquire), i < j → (s.dbs d).requests[i]? = some q →
    (s.dbs d).requests[j]? = some r → q.edt ≠ r.edt →
    s.started.idxOf q.edt < s.started.idxOf r.edt
  /-- Whoever shares a datablock with an EDT that is still acquiring has begun before it. -/
  partway : ∀ e e', 0 < s.issued e → ¬ s.Issued W e → e' ≠ e → W.Shares e e' → 0 < s.issued e' →
    s.started.idxOf e' < s.started.idxOf e

section Step

variable {W : Workload} {s : Acquisition}

lemma Inv.init : Inv W ⟨fun _ => ⟨[], [], [], [.creator]⟩, fun _ => 0, [], []⟩ where
  db _ := {
    nodup := nodup_nil
    released := rfl
    granted := .nil
    order := rfl
    le_length := Nat.le_refl 1
    length_le := Nat.le_succ 1
    frontier := fun _ _ h => by simp at h
    delayed := fun _ _ => rfl }
  creator _ := mem_singleton_self _
  requests _ _ := by simp
  released _ _ h := by simp at h
  ran _ h := nomatch h
  started _ := by simp
  edts _ h := nomatch h
  order _ _ _ _ _ _ h := by simp at h
  partway _ _ h := absurd h (Nat.lt_irrefl 0)

variable {e : EdtGuid} {x : DbAccess}

lemma Inv.fresh (hs : s.Inv W) (hx : (W.accesses e)[s.issued e]? = some x) :
    x.acquire ∉ (s.dbs x.guid).requests ∧ x.acquire.writer ∉ (s.dbs x.guid).released := by
  have hlt := (List.getElem?_eq_some_iff.1 hx).1
  have he := acquire_edt_of_mem (mem_of_getElem? hx)
  constructor
  · rw [hs.requests, he]
    rintro ⟨y, hy, -, hxy⟩
    obtain ⟨k, hk, rfl⟩ := mem_take_iff_getElem.1 hy
    -- the slot would be acquired twice
    have hk' : k < (W.accesses e).length := by omega
    have h₁ : ((W.accesses e).map fun x => x.acquire.slot)[k]? = some x.acquire.slot := by
      rw [getElem?_map, getElem?_eq_getElem hk', ← hxy]
      rfl
    have h₂ : ((W.accesses e).map fun x => x.acquire.slot)[s.issued e]? = some x.acquire.slot := by
      rw [getElem?_map, hx]
      rfl
    have := (getElem?_inj (by simpa using hk') nodup_slots).1 (h₁.trans h₂.symm)
    omega
  · intro h
    rw [Acquire.writer, he] at h
    have : s.issued e = _ := (hs.ran e (hs.released _ e h)).1
    omega

variable {d : Guid} {q : Acquire}

lemma Inv.mem_started (hs : s.Inv W) {i : ℕ}
    (h : (s.dbs d).requests[i]? = some q) : q.edt ∈ s.started := by
  obtain ⟨x, hx, -⟩ := (hs.requests d q).1 (mem_of_getElem? h)
  rw [hs.started]
  by_contra h0
  rw [Nat.eq_zero_of_not_pos h0] at hx
  cases hx

lemma mem_granted_acquire {self : ℕ} {c : Cdag} {a : Acquire} {flags : UInt32}
    (h : q ∈ c.granted) : q ∈ (c.acquire self a flags).granted := by
  simp only [Cdag.acquire]
  split
  · exact mem_append_left _ h
  · exact h

lemma idxOf_started {es : List EdtGuid} {n : ℕ} {e' : EdtGuid} (he' : e' ∈ es) :
    (if n = 0 then es ++ [e] else es).idxOf e' = es.idxOf e' := by
  split
  · exact idxOf_append_of_mem he'
  · rfl

lemma Inv.acquire (hs : s.Inv W) (he : e ∈ W.edts)
    (hx : (W.accesses e)[s.issued e]? = some x) (hserial : s.Serial W (.acquire e)) :
    Inv W { s with
      dbs := update s.dbs x.guid ((s.dbs x.guid).acquire W.self x.acquire x.flags)
      issued := update s.issued e (s.issued e + 1)
      started := if s.issued e = 0 then s.started ++ [e] else s.started } := by
  obtain ⟨hnew, hrel⟩ := hs.fresh hx
  have hlt := (List.getElem?_eq_some_iff.1 hx).1
  have hxe := acquire_edt_of_mem (mem_of_getElem? hx)
  -- whoever has begun and shares a datablock with the EDT has begun before it
  have hbefore : ∀ e', e' ≠ e → W.Shares e e' → 0 < s.issued e' →
      s.started.idxOf e' < (if s.issued e = 0 then s.started ++ [e] else s.started).idxOf e := by
    intro e' hne hsh hpos
    have hmem' := (hs.started e').2 hpos
    split
    case isTrue h0 =>
      have hmem : e ∉ s.started := fun h => by
        have := (hs.started e).1 h
        omega
      rw [idxOf_append_of_notMem hmem]
      have := idxOf_lt_length_iff.2 hmem'
      omega
    case isFalse h0 =>
      exact hs.partway e e' (Nat.pos_of_ne_zero h0) (by unfold Issued; omega) hne hsh hpos
  have hmem : ∀ d q, q ∈ (update s.dbs x.guid
      ((s.dbs x.guid).acquire W.self x.acquire x.flags) d).requests ↔
      q ∈ (s.dbs d).requests ∨ x.guid = d ∧ x.acquire = q := by
    intro d q
    rcases eq_or_ne d x.guid with rfl | hd
    · simp [eq_comm]
    · simp [update_of_ne hd, hd.symm]
  refine ⟨?db, ?creator, fun d q => ?requests, ?released, fun e' h => ?ran, fun e' => ?started,
    fun e' h => ?edts, fun d i j q r hij hq hr hne => ?order,
    fun e₁ e₂ h₁ hp hne hsh h₂ => ?partway⟩
  case db =>
    exact (forall_update_iff s.dbs fun _ c => c.Inv).2
      ⟨(hs.db _).acquire hnew hrel, fun d _ => hs.db d⟩
  case creator =>
    refine (forall_update_iff s.dbs fun _ c => .creator ∈ c.released).2
      ⟨?_, fun d _ => hs.creator d⟩
    exact hs.creator _
  case requests =>
    have htake : (∃ y ∈ (W.accesses q.edt).take (update s.issued e (s.issued e + 1) q.edt),
        y.guid = d ∧ y.acquire = q) ↔
        (∃ y ∈ (W.accesses q.edt).take (s.issued q.edt), y.guid = d ∧ y.acquire = q) ∨
          x.guid = d ∧ x.acquire = q := by
      by_cases hq : q.edt = e
      · rw [hq, update_self, take_add_one, hx]
        simp
      · have : x.acquire ≠ q := fun h => hq (h ▸ hxe)
        simp [update_of_ne hq, this]
    rw [htake, hmem]
    exact or_congr_left (hs.requests d q)
  case released =>
    refine (forall_update_iff s.dbs fun _ c => ∀ e', .edt e' ∈ c.released → e' ∈ s.ran).2
      ⟨?_, fun d _ => hs.released d⟩
    exact hs.released _
  case ran =>
    obtain ⟨hi, hg⟩ := hs.ran e' h
    have hne : e' ≠ e := by
      rintro rfl
      have : s.issued e' = _ := hi
      omega
    refine ⟨by simpa only [Issued, update_of_ne hne] using hi, fun y hy => ?_⟩
    have hmono : ∀ d, ∀ q ∈ (s.dbs d).granted, q ∈ (update s.dbs x.guid
        ((s.dbs x.guid).acquire W.self x.acquire x.flags) d).granted := by
      refine (forall_update_iff s.dbs fun d c => ∀ q ∈ (s.dbs d).granted,
        q ∈ c.granted).2 ⟨?_, fun _ _ _ hq => hq⟩
      exact fun q hq => mem_granted_acquire hq
    exact hmono y.guid _ (hg y hy)
  case started =>
    by_cases hee : e' = e
    · subst hee
      simp only [update_self]
      refine iff_of_true ?_ (Nat.succ_pos _)
      split
      case isTrue => simp
      case isFalse h0 => exact (hs.started e').2 (Nat.pos_of_ne_zero h0)
    · simp only [update_of_ne hee, ← hs.started e']
      split
      · simp [hee]
      · rfl
  case edts =>
    split at h
    · rcases mem_append.1 h with h | h
      · exact hs.edts e' h
      · rw [mem_singleton.1 h]
        exact he
    · exact hs.edts e' h
  case order =>
    rcases eq_or_ne d x.guid with rfl | hd
    · simp only [update_self, Cdag.acquire_requests] at hq hr
      rcases Nat.lt_or_ge j (s.dbs x.guid).requests.length with hj | hj
      · rw [getElem?_append_left (by omega)] at hq hr
        rw [idxOf_started (hs.mem_started hq), idxOf_started (hs.mem_started hr)]
        exact hs.order _ i j q r hij hq hr hne
      · have hj' := (List.getElem?_eq_some_iff.1 hr).1
        rw [length_append, length_singleton] at hj'
        rw [getElem?_append_left (by omega)] at hq
        rw [getElem?_append_right hj, show j - _ = 0 by omega] at hr
        obtain rfl : x.acquire = r := by simpa using hr
        rw [hxe] at hne ⊢
        rw [idxOf_started (hs.mem_started hq)]
        obtain ⟨y, hy, hyd, -⟩ := (hs.requests _ q).1 (mem_of_getElem? hq)
        exact hbefore _ hne
          (shares_of_mem (mem_of_getElem? hx) (mem_of_mem_take hy) hyd.symm)
          ((hs.started _).1 (hs.mem_started hq))
    · simp only [update_of_ne hd] at hq hr
      rw [idxOf_started (hs.mem_started hq), idxOf_started (hs.mem_started hr)]
      exact hs.order _ i j q r hij hq hr hne
  case partway =>
    by_cases he₁ : e₁ = e
    · subst he₁
      simp only [update_of_ne hne] at h₂
      rw [idxOf_started ((hs.started e₂).2 h₂)]
      exact hbefore e₂ hne hsh h₂
    · simp only [Issued, update_of_ne he₁] at h₁ hp
      have hmem₁ := (hs.started e₁).2 h₁
      by_cases he₂ : e₂ = e
      · subst he₂
        rcases hserial e₁ (hs.edts e₁ hmem₁) he₁ hsh.symm with h | h
        · omega
        · exact absurd h hp
      · simp only [update_of_ne he₂] at h₂
        rw [idxOf_started ((hs.started e₂).2 h₂), idxOf_started hmem₁]
        exact hs.partway e₁ e₂ h₁ hp hne hsh h₂

lemma Inv.run (hs : s.Inv W) (he : s.CanRun W e) : Inv W { s with ran := s.ran ++ [e] } where
  __ := hs
  released d e' h := mem_append_left _ (hs.released d e' h)
  ran e' h := by
    rcases mem_append.1 h with h | h
    · exact hs.ran e' h
    · rw [mem_singleton.1 h]
      exact he

lemma Inv.release (hs : s.Inv W) (he : e ∈ s.ran) (hh : (s.dbs d).Holds (.edt e)) :
    Inv W { s with dbs := update s.dbs d ((s.dbs d).release W.self (.edt e)) } where
  db := (forall_update_iff s.dbs fun _ c => c.Inv).2
    ⟨(hs.db d).release ((hs.db d).getElem?_of_holds hh), fun d' _ => hs.db d'⟩
  creator := (forall_update_iff s.dbs fun _ c => .creator ∈ c.released).2
    ⟨mem_append_left _ (hs.creator d), fun d' _ => hs.creator d'⟩
  requests := (forall_update_iff s.dbs fun d c => ∀ q, q ∈ c.requests ↔
      ∃ x ∈ (W.accesses q.edt).take (s.issued q.edt), x.guid = d ∧ x.acquire = q).2
    ⟨hs.requests d, fun d' _ => hs.requests d'⟩
  released := by
    refine (forall_update_iff s.dbs fun _ c => ∀ e', .edt e' ∈ c.released → e' ∈ s.ran).2
      ⟨fun e' h => ?_, fun d' _ => hs.released d'⟩
    rcases mem_append.1 h with h | h
    · exact hs.released d e' h
    · rw [Writer.edt.inj (mem_singleton.1 h)]
      exact he
  ran e' h := by
    obtain ⟨hi, hg⟩ := hs.ran e' h
    refine ⟨hi, fun x hx => ?_⟩
    have hmono : ∀ d', ∀ q ∈ (s.dbs d').granted,
        q ∈ (update s.dbs d ((s.dbs d).release W.self (.edt e)) d').granted := by
      refine (forall_update_iff s.dbs fun d c => ∀ q ∈ (s.dbs d).granted,
        q ∈ c.granted).2 ⟨?_, fun _ _ _ hq => hq⟩
      exact fun q hq => mem_append_left _ hq
    exact hmono x.guid _ (hg x hx)
  __ := hs
  order := (forall_update_iff s.dbs fun _ c => ∀ (i j : ℕ) (q r : Acquire), i < j →
      c.requests[i]? = some q → c.requests[j]? = some r → q.edt ≠ r.edt →
      s.started.idxOf q.edt < s.started.idxOf r.edt).2
    ⟨hs.order d, fun d' _ => hs.order d'⟩

lemma Inv.next (hs : s.Inv W) {l : Act} {s' : Acquisition} (hserial : s.Serial W l)
    (hst : s.next W l = some s') : s'.Inv W := by
  cases l with
  | acquire e =>
    obtain ⟨he, h⟩ := ite_none_right_eq_some.1 hst
    obtain ⟨x, hx, rfl⟩ := map_eq_some_iff.1 h
    exact hs.acquire he hx hserial
  | run e =>
    obtain ⟨⟨-, -, hc⟩, ⟨⟩⟩ := ite_none_right_eq_some.1 hst
    exact hs.run hc
  | release e d =>
    obtain ⟨⟨he, hh⟩, ⟨⟩⟩ := ite_none_right_eq_some.1 hst
    exact hs.release he hh

end Step

/-! ### Waiting -/

section Waiting

variable {W : Workload} {s : Acquisition}

variable {b : EdtGuid}

/-- A writer that is ahead of a request has begun before its EDT and shares the datablock with
it. -/
theorem Inv.begun_of_mem_ahead (hs : s.Inv W) {d : Guid} {i : ℕ} {q : Acquire}
    (hq : (s.dbs d).requests[i]? = some q)
    (hb : .edt b ∈ ahead (s.dbs d).requests i q) :
    b ≠ q.edt ∧ W.Shares b q.edt ∧ s.started.idxOf b < s.started.idxOf q.edt ∧
      ∃ r ∈ (s.dbs d).requests, r.isWrite = true ∧ r.edt = b := by
  have hbm := mem_of_mem_take hb
  have hne : b ≠ q.edt := by
    rintro rfl
    exact Nat.lt_irrefl _ ((mem_take_iff_idxOf_lt hbm).1 hb)
  -- the write request of the other EDT arrived earlier
  obtain ⟨r, hr, hw, hrb⟩ := (Queue.mem_line.1 hbm).resolve_left (by simp)
  obtain ⟨j, hj, rfl⟩ := mem_take_iff_getElem.1 hr
  have hrb' := Writer.edt.inj hrb
  have hj' : (s.dbs d).requests[j]? = some (s.dbs d).requests[j] :=
    getElem?_eq_getElem (by omega)
  obtain ⟨x, hx, hxd, -⟩ := (hs.requests d _).1 (mem_of_getElem? hj')
  obtain ⟨y, hy, hyd, -⟩ := (hs.requests d _).1 (mem_of_getElem? hq)
  rw [hrb'] at hx
  refine ⟨hne, shares_of_mem (mem_of_mem_take hx) (mem_of_mem_take hy) (by rw [hxd, hyd]),
    ?_, _, mem_of_getElem? hj', hw, hrb'⟩
  have := hs.order d j i _ _ (by omega) hj' hq (by rwa [hrb'])
  rwa [hrb'] at this

lemma Inv.idxOf_lt_of_waits (hs : s.Inv W) {a : EdtGuid} (h : s.Waits a b) :
    s.started.idxOf b < s.started.idxOf a := by
  obtain ⟨d, j, k, f, g, hjk, hf, hg, hfb, q, hq, rfl⟩ := h
  have hd := hs.db d
  have hline : (writers (s.dbs d).requests)[(s.dbs d).released.length + j]? = some (.edt b) := by
    have := (hd.frontier j f hf).localWriteEdt
    rw [hfb] at this
    obtain ⟨w, hw, hwb⟩ := bind_eq_some_iff.1 this.symm
    cases w with
    | creator => cases hwb
    | edt e => rw [hw, some.inj hwb]
  have hplaced := hd.delayed k (by omega)
  rw [Cdag.delayedAt, hg] at hplaced
  change g.localDelayed = _ at hplaced
  rw [hplaced] at hq
  obtain ⟨i, hi, hidx⟩ := Queue.mem_placed.1 hq
  refine (hs.begun_of_mem_ahead hi ?_).2.2.1
  -- the writer stands further ahead in the line
  have hlen : (s.dbs d).released.length + k ≤
      (writers ((s.dbs d).requests.take i)).length := by
    rw [← hidx]
    exact idxOf_le_length
  have hpre := Cdag.writers_take_isPrefix_writers (s.dbs d).requests i
  have hget : (writers ((s.dbs d).requests.take i))[(s.dbs d).released.length + j]? =
      some (.edt b) := by
    rw [prefix_iff_eq_take.1 hpre, getElem?_take_of_lt (by omega), hline]
  rw [Arts.ahead]
  refine mem_iff_getElem?.2 ⟨(s.dbs d).released.length + j, ?_⟩
  rw [getElem?_take_of_lt, hget]
  rw [writers, hidx]
  omega

lemma acyclic_of_lt {α : Type*} {r : α → α → Prop} (f : α → ℕ) (h : ∀ a b, r a b → f b < f a)
    (a : α) : ¬ Relation.TransGen r a a := by
  have key : ∀ a b, Relation.TransGen r a b → f b < f a := by
    intro a b hab
    induction hab with
    | single hab => exact h _ _ hab
    | tail _ hbc ih => exact (h _ _ hbc).trans ih
  exact fun haa => Nat.lt_irrefl _ (key a a haa)

/-- An EDT that has issued all accesses and does not run waits for such an EDT that has begun
earlier. -/
theorem Inv.exists_canRun (hs : s.Inv W)
    (hran : ∀ e ∈ s.ran, ∀ d, ¬ (s.dbs d).Holds (.edt e)) {e : EdtGuid} (hissued : s.Issued W e)
    (hnot : e ∉ s.ran) (hedt : e ∈ W.edts) : ∃ e' ∈ W.edts, e' ∉ s.ran ∧ s.CanRun W e' := by
  -- by induction on the place of the EDT in the order in which the EDTs have begun
  obtain ⟨n, hn⟩ : ∃ n, s.started.idxOf e = n := ⟨_, rfl⟩
  induction n using Nat.strong_induction_on generalizing e with
  | _ n ih =>
    by_cases hrun : s.CanRun W e
    · exact ⟨e, hedt, hnot, hrun⟩
    obtain ⟨x, hx, hng⟩ : ∃ x ∈ W.accesses e, x.acquire ∉ (s.dbs x.guid).granted := by
      by_contra hall
      exact hrun ⟨hissued, fun x hx => by_contra fun h => hall ⟨x, hx, h⟩⟩
    have hxe := acquire_edt_of_mem hx
    have hreq : x.acquire ∈ (s.dbs x.guid).requests := by
      rw [hs.requests, hxe, hissued, take_length]
      exact ⟨x, hx, rfl, rfl⟩
    obtain ⟨i, hi⟩ := mem_iff_getElem?.1 hreq
    -- a writer ahead of the access has not released
    have hahead : ¬ ∀ w ∈ ahead (s.dbs x.guid).requests i x.acquire,
        w ∈ (s.dbs x.guid).released := by
      intro hall
      have hcount := (hs.db x.guid).count_granted hi
      rw [if_pos hall] at hcount
      exact hng (count_pos_iff.1 (by omega))
    obtain ⟨w, hw, hwr⟩ : ∃ w ∈ ahead (s.dbs x.guid).requests i x.acquire,
        w ∉ (s.dbs x.guid).released := by
      by_contra hall
      exact hahead fun w hw => by_contra fun h => hall ⟨w, hw, h⟩
    cases w with
    | creator => exact absurd (hs.creator _) hwr
    | edt b =>
      obtain ⟨hbe, hsh, hlt, r, hr, hrw, hrb⟩ := hs.begun_of_mem_ahead hi hw
      rw [hxe] at hbe hsh hlt
      obtain ⟨j, hj⟩ := mem_iff_getElem?.1 hr
      have hbs : b ∈ s.started := hrb ▸ hs.mem_started hj
      have hepos : 0 < s.issued e := (hs.started e).1 (hxe ▸ hs.mem_started hi)
      refine ih _ (hn ▸ hlt) ?_ (fun hb => ?_) (hs.edts b hbs) rfl
      · by_contra hp
        have := hs.partway b e ((hs.started b).1 hbs) hp hbe.symm hsh hepos
        omega
      · refine hran b hb x.guid ⟨?_, hwr⟩
        obtain ⟨y, hy, hyd, hyr⟩ := (hs.requests _ r).1 hr
        rw [hrb] at hy
        have hgr := (hs.ran b hb).2 y (mem_of_mem_take hy)
        rw [hyd, hyr] at hgr
        exact Queue.mem_line.2 (.inr ⟨r, hgr, hrw, by rw [Acquire.writer, hrb]⟩)

/-- **No deadlock if EDTs that share a datablock do not acquire at the same time**: no EDT waits for
itself, and if some have issued all accesses and not run, one of these can run. -/
theorem deadlock_free (h : ((machine W).restrict (Serial W)).Reachable s) :
    (∀ e, ¬ Relation.TransGen s.Waits e e) ∧
      ((∀ e ∈ s.ran, ∀ d, ¬ (s.dbs d).Holds (.edt e)) →
        (∃ e ∈ W.edts, e ∉ s.ran ∧ s.Issued W e) → ∃ e ∈ W.edts, e ∉ s.ran ∧ s.CanRun W e) := by
  have hs : s.Inv W := by
    refine h.invariant (fun s hs => hs ▸ Inv.init) fun s l s' _ hs hst => ?_
    obtain ⟨hserial, hst⟩ := Machine.restrict_next.1 hst
    exact hs.next hserial hst
  refine ⟨acyclic_of_lt s.started.idxOf fun a b => hs.idxOf_lt_of_waits, ?_⟩
  rintro hran ⟨e, hedt, hnot, hissued⟩
  exact hs.exists_canRun hran hissued hnot hedt

end Waiting

/-- Two EDTs of rank 0 that write the same two datablocks. -/
def twoWriters : Workload where
  self := 0
  edts := [.ofKey 1, .ofKey 2]
  depv _ := [⟨8, .ew, 0⟩, ⟨9, .ew, 0⟩]
  depc_lt _ := by decide
  modes _ := by decide

/-- The two EDTs acquire one after the other; the second one waits and the first one can run. -/
theorem deadlock_free_two_writers :
    ∃ s, ((machine twoWriters).restrict (Serial twoWriters)).Reachable s ∧
      s.Issued twoWriters (.ofKey 2) ∧ ¬ s.CanRun twoWriters (.ofKey 2) ∧
      ∃ e ∈ twoWriters.edts, e ∉ s.ran ∧ s.CanRun twoWriters e := by
  obtain ⟨s, hr, hi, hc, hran⟩ := Machine.Reachable.exists_of_exec
    (M := (machine twoWriters).restrict (Serial twoWriters))
    (P := fun s => s.issued (.ofKey 2) = (twoWriters.accesses (.ofKey 2)).length ∧
      ¬ s.CanRun twoWriters (.ofKey 2) ∧ s.ran = [])
    (r := [.acquire (.ofKey 1), .acquire (.ofKey 1), .acquire (.ofKey 2), .acquire (.ofKey 2)])
    rfl (by decide +kernel)
  refine ⟨s, hr, hi, hc, (deadlock_free hr).2 ?_ ⟨.ofKey 2, by decide +kernel, ?_, hi⟩⟩
  · rw [hran]
    simp
  · rw [hran]
    simp

lemma waits_of_frontiers {s : Acquisition} {d : Guid} {a b : EdtGuid} {q : Acquire}
    (hb : (s.dbs d).frontiers[0]?.bind localWriteEdt = some b)
    (ha : (s.dbs d).frontiers[1]?.map localDelayed = some [q]) (hq : q.edt = a) :
    s.Waits a b := by
  obtain ⟨f, hf, hfb⟩ := bind_eq_some_iff.1 hb
  obtain ⟨g, hg, hgq⟩ := map_eq_some_iff.1 ha
  exact ⟨d, 0, 1, f, g, Nat.one_pos, hf, hg, hfb, q, hgq ▸ mem_singleton_self q, hq⟩

/-- The EDT 1 acquires the datablock 8, the EDT 2 both datablocks, then the EDT 1 the datablock 9:
each is ahead of the other one. -/
theorem wait_cycle : ∃ s, (machine twoWriters).Reachable s ∧
    Relation.TransGen s.Waits (.ofKey 1) (.ofKey 1) := by
  obtain ⟨s, hr, h₁, h₂, h₃, h₄⟩ := Machine.Reachable.exists_of_exec (M := machine twoWriters)
    (P := fun s =>
      (s.dbs 9).frontiers[0]?.bind localWriteEdt = some (.ofKey 2) ∧
      (s.dbs 9).frontiers[1]?.map localDelayed = some [⟨.ofKey 1, 1, .ew⟩] ∧
      (s.dbs 8).frontiers[0]?.bind localWriteEdt = some (.ofKey 1) ∧
      (s.dbs 8).frontiers[1]?.map localDelayed = some [⟨.ofKey 2, 0, .ew⟩])
    (r := [.acquire (.ofKey 1), .acquire (.ofKey 2), .acquire (.ofKey 2), .acquire (.ofKey 1)])
    rfl (by decide +kernel)
  exact ⟨s, hr, .tail (.single (waits_of_frontiers h₁ h₂ rfl)) (waits_of_frontiers h₃ h₄ rfl)⟩

end Acquisition

end Arts
