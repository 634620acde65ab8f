import Arts.Db.Access
import Arts.Db.Cdag
import Arts.Db.Drained

/-!
# Slices are delivered once, behind the writers

A slice waits in the first frontier that takes readers and is served when this is the head
(**`SliceDb.served_of_fit`**). An EDT that also writes the datablock waits for itself.
-/

namespace Arts

open List Option Prod DbBlock

/-- What is to be delivered for the slice of a payload of `n` bytes. -/
def DbSlice.Shows (s : DbSlice) (bytes : ℕ → UInt8) (n : ℕ) (payload : List UInt8) : Prop :=
  if s.preserveShape then payload.length = n ∧ ∀ k < n, payload[k]? =
    some (if s.offset ≤ k ∧ k < s.offset + s.size then bytes k else 0)
  else payload.length = s.size ∧ ∀ k < s.size, payload[k]? = some (bytes (s.offset + k))

lemma DbSlice.shows_sliceCopy {b : DbBlock} {s : DbSlice} {m : ℕ}
    (hm : m = if s.preserveShape then b.dataSize else s.size) :
    s.Shows b.bytes b.dataSize (b.sliceCopy s m) := by
  unfold Shows sliceCopy
  split_ifs at hm ⊢ with hs
  · subst hm
    refine ⟨length_readMem _ _ _, fun k hk => ?_⟩
    rw [getElem?_readMem _ _ hk, Nat.zero_add, writeMem]
    split_ifs with h1 h2 h2
    · rw [getD_eq_getElem?_getD, getElem?_readMem _ _ (by omega), getD_some,
        Nat.add_sub_cancel' h1]
    · rw [getD_eq_getElem?_getD, getElem?_eq_none (by rw [length_readMem]; omega)]
      rfl
    · omega
    · rfl
  · exact ⟨length_readMem _ _ _, fun k hk => getElem?_readMem _ _ hk⟩

lemma DbBlock.deliverSlice_of_inRange {b : DbBlock} {s : DbSlice} (h : s.InRange b)
    (hn : b.dataSize < 2 ^ 32) :
    ∃ payload, b.deliverSlice s = some payload ∧ s.Shows b.bytes b.dataSize payload := by
  have hle : s.offset + s.size ≤ b.dataSize := h
  have hv : b.validateDbSlice s := validateDbSlice_iff.2 ⟨by unfold uintMax; omega, h⟩
  have hsize : b.sliceSignalSize s = some (if s.preserveShape then b.dataSize else s.size) := by
    unfold sliceSignalSize uintMax
    split_ifs
    · omega
    · rfl
    · rfl
  rw [deliverSlice, if_pos hv, hsize]
  exact ⟨_, rfl, DbSlice.shows_sliceCopy rfl⟩

/-- A datablock without frontiers (`ARTS_DB_LOCAL`) delivers a slice at once, whichever way it is asked
for. -/
theorem AccessDb.delivers_now {w : AccessDb} {s : DbSlice} (h : s.InRange w.block)
    (hn : w.block.dataSize < 2 ^ 32) (hlist : w.frontiers = none) (op : DbOp) {edt : Guid}
    (hedt : edt ≠ Guid.null) (slot : UInt32) : ∃ payload,
    s.Shows w.block.bytes w.block.dataSize payload ∧
      (w.requestDbSlice op edt slot s).ending = .delivered edt slot payload ∧
      (w.signalNow edt slot s).ending = .delivered edt slot payload := by
  obtain ⟨payload, hp, hshows⟩ := deliverSlice_of_inRange h hn
  refine ⟨payload, hshows, ?_, ?_⟩
  · rw [requestDbSlice, hlist]
    simp [signalDbSlice, hp]
  · obtain ⟨-, hp⟩ := ite_none_right_eq_some.1 hp
    obtain ⟨m, hm, rfl⟩ := map_eq_some_iff.1 hp
    have hle : s.offset + s.size ≤ w.block.dataSize := h
    by_cases hs : s.preserveShape
    · rw [signalNow, if_neg hedt, if_pos hs, hm]
      exact congrArg AccessResult.ending (if_pos ⟨by omega, by omega⟩)
    · rw [signalNow, if_neg hedt, if_neg hs]
      simp [sliceCopy, hs]

deriving instance DecidableEq for SliceRequest

/-- The slice of a request; `ARTS_DEP_FLAG_PRESERVE_SHAPE` is bit 1. -/
def SliceRequest.slice (r : SliceRequest) : DbSlice :=
  ⟨r.offset.toNat, r.size.toNat, r.flags &&& 2 != 0⟩

/-- A datablock on its owner, with the slices that are asked for. -/
structure SliceDb where
  cdag : Cdag
  bytes : ℕ → UInt8
  /-- The requests that wait, with the number of frontiers that are before theirs. -/
  delayed : List (ℕ × SliceRequest)
  /-- The requests, with the number of writers that had been queued before. -/
  requests : List (ℕ × SliceRequest)
  /-- The requests that were served, with what was delivered; `none` is `ARTS_ERROR`. -/
  delivered : List (SliceRequest × Option (List UInt8))
  /-- The bytes at the start and after each release. -/
  contents : List (ℕ → UInt8)

namespace SliceDb

inductive Act where
  | acquire (a : Acquire) (flags : UInt32)
  /-- A writer that holds the datablock changes its bytes. -/
  | write (w : Writer) (bytes : ℕ → UInt8)
  | release (w : Writer)
  | request (r : SliceRequest)

variable (self n : ℕ)

/-- `arts_signal_db_slice` or `arts_satisfy_local_edt_slice`, of a payload of `n` bytes. -/
def deliver (s : SliceDb) (r : SliceRequest) : SliceRequest × Option (List UInt8) :=
  (r, (DbBlock.mk s.bytes n).deliverSlice r.slice)

/-- `arts_request_db_slice` -/
def request (s : SliceDb) (r : SliceRequest) : SliceDb :=
  let k := AccessDb.openFrontier s.cdag.frontiers
  { s with
    cdag := { s.cdag with frontiers := AccessDb.withOpen s.cdag.frontiers }
    requests := s.requests ++ [((writers s.cdag.requests).length, r)]
    delayed := if k = 0 then s.delayed else s.delayed ++ [(k, r)]
    delivered := if k = 0 then s.delivered ++ [s.deliver n r] else s.delivered }

/-- `arts_progress_frontier`, by a writer that releases: the slices of the new head are served. -/
def release (s : SliceDb) (w : Writer) : SliceDb :=
  { s with
    cdag := s.cdag.release self w
    delayed := (s.delayed.filter (·.1 ≠ 1)).map fun q => (q.1 - 1, q.2)
    delivered := s.delivered ++ (s.delayed.filter (·.1 = 1)).map fun q => s.deliver n q.2
    contents := s.contents ++ [s.bytes] }

/-- A slot is asked for once, and before its EDT runs; a slice is in range. -/
def next (s : SliceDb) : Act → Option SliceDb
  | .acquire a flags =>
    if a ∉ s.cdag.requests ∧ a.writer ∉ s.cdag.released then
      some { s with cdag := s.cdag.acquire self a flags }
    else none
  | .write w bytes => if s.cdag.Holds w then some { s with bytes := bytes } else none
  | .release w =>
    if s.cdag.Holds w ∧ ∀ q ∈ s.delayed, w ≠ .edt q.2.edt then some (s.release self n w) else none
  | .request r =>
    if r ∉ s.requests.map snd ∧ r.slice.offset + r.slice.size ≤ n then some (s.request n r)
    else none

/-- A datablock of `n` bytes that has just been created by an EDT. -/
def machine : Machine SliceDb Act where
  init s := ∃ bytes, s = ⟨⟨autoAcquired, [], [], []⟩, bytes, [], [], [], [bytes]⟩
  next := next self n

/-- **The condition on the steps**: no EDT asks for a slice while it is in the line of the writers. -/
def Fit (s : SliceDb) : Act → Prop
  | .request r => .edt r.edt ∈ writers s.cdag.requests → .edt r.edt ∈ s.cdag.released
  | _ => True

instance (s : SliceDb) : (l : Act) → Decidable (s.Fit l)
  | .request _ => inferInstanceAs (Decidable (_ → _))
  | .acquire .. | .write .. | .release _ => isTrue trivial

/-- Every slice is delivered once, when the writers that were queued before it have released and with
the bytes that they left; until then, some writer can release. -/
structure Serves (s : SliceDb) : Prop where
  count : ∀ k r, (k, r) ∈ s.requests →
    (s.delivered.map fst).count r = if k ≤ s.cdag.released.length then 1 else 0
  bytes : ∀ r o, (r, o) ∈ s.delivered → ∃ k b payload, (k, r) ∈ s.requests ∧
    s.contents[k]? = some b ∧ o = some payload ∧ r.slice.Shows b n payload
  goes_on : ∀ k r, (k, r) ∈ s.requests → s.cdag.released.length < k →
    ∃ w, (s.next self n (.release w)).isSome

/-- The slices that wait are those whose writers have not all released. -/
structure Inv (s : SliceDb) : Prop where
  cdag : s.cdag.Inv
  nodup : (s.requests.map snd).Nodup
  placed : ∀ q ∈ s.requests, q.1 ≤ (writers s.cdag.requests).length
  inRange : ∀ q ∈ s.requests, q.2.slice.offset + q.2.slice.size ≤ n
  delayed : s.delayed = (s.requests.filter (s.cdag.released.length < ·.1)).map
    fun q => (q.1 - s.cdag.released.length, q.2)
  delivered : (s.delivered.map fst).Perm
    ((s.requests.filter (·.1 ≤ s.cdag.released.length)).map snd)
  served : ∀ d ∈ s.delivered, ∃ q ∈ s.requests, q.2 = d.1 ∧ ∃ b, s.contents[q.1]? = some b ∧
    d.2 = (DbBlock.mk b n).deliverSlice d.1.slice
  length : s.contents.length = s.cdag.released.length + 1
  current : (writers s.cdag.requests).length ≤ s.cdag.released.length →
    s.contents[s.cdag.released.length]? = some s.bytes
  apart : ∀ q ∈ s.requests, ∀ i, s.cdag.released.length ≤ i → i < q.1 →
    (writers s.cdag.requests)[i]? ≠ some (.edt q.2.edt)

end SliceDb

/-- The first frontier that takes readers is behind all writers that have not released. -/
theorem Cdag.Inv.openFrontier {s : Cdag} (h : s.Inv) : AccessDb.openFrontier s.frontiers =
    (writers s.requests).length - s.released.length := by
  have hle := h.le_length
  have hreader : AccessDb.openFrontier s.frontiers =
      taker ⟨0, false, false, false, none, 0, .ro⟩ s.frontiers := by
    simp [AccessDb.openFrontier, taker, Frontier.takes]
  rw [hreader]
  refine taker_eq (by omega) (fun i f hi hf => ?_) fun f hf => ?_
  · have hf := (h.frontier i f hf).writeSet
    rw [decide_eq_true (by omega)] at hf
    simp [Frontier.takes, hf]
  · have hf := (h.frontier _ f hf).writeSet
    rw [decide_eq_false (by omega)] at hf
    simp [Frontier.takes, hf]

lemma Cdag.Inv.withOpen {s : Cdag} (h : s.Inv) :
    Cdag.Inv { s with frontiers := AccessDb.withOpen s.frontiers } := by
  unfold AccessDb.withOpen
  split_ifs with hlt
  · exact h
  rw [h.openFrontier] at hlt
  have hle := h.le_length
  have hP := h.released_length_le
  refine { h with le_length := ?_, length_le := ?_, frontier := fun k f hf => ?_, delayed := ?_ }
  · simp only [length_append]
    omega
  · simp only [length_append, length_singleton]
    omega
  · rw [getElem?_append] at hf
    split_ifs at hf with hk
    · exact h.frontier k f hf
    · obtain rfl : k = s.frontiers.length := by
        have := (List.getElem?_eq_some_iff.1 hf).1
        rw [length_singleton] at this
        omega
      obtain rfl : ({} : Frontier) = f := by simpa using hf
      exact ⟨(decide_eq_false (by simp only; omega)).symm,
        by rw [getElem?_eq_none (by simp only; omega)]; rfl, rfl⟩
  · intro k hk
    refine Eq.trans ?_ (h.delayed k hk)
    rw [delayedAt, delayedAt, getElem?_append]
    split_ifs with hlt
    · rfl
    · rw [getElem?_eq_none (by omega : s.frontiers.length ≤ k)]
      cases k - s.frontiers.length <;> rfl

namespace SliceDb

variable {self n} {s s' : SliceDb}

lemma Inv.acquire (h : Inv n s) {a : Acquire} {flags : UInt32} (hnew : a ∉ s.cdag.requests)
    (ha : a.writer ∉ s.cdag.released) : Inv n { s with cdag := s.cdag.acquire self a flags } := by
  obtain ⟨ws, hws⟩ : writers s.cdag.requests <+: writers (s.cdag.requests ++ [a]) :=
    Queue.line_prefix_line (prefix_append _ _)
  have hlen := congrArg List.length hws
  rw [length_append] at hlen
  refine { h with
    cdag := h.cdag.acquire hnew ha
    placed := fun q hq => (h.placed q hq).trans ?_
    current := fun hle => h.current (le_trans ?_ hle)
    apart := fun q hq i hi hlt => ?_ }
  · show _ ≤ (writers (s.cdag.requests ++ [a])).length
    omega
  · show _ ≤ (writers (s.cdag.requests ++ [a])).length
    omega
  · show (writers (s.cdag.requests ++ [a]))[i]? ≠ _
    rw [← hws, getElem?_append_left (hlt.trans_le (h.placed q hq))]
    exact h.apart q hq i hi hlt

lemma filter_le_succ_perm {β : Type*} (l : List (ℕ × β)) (m : ℕ) :
    (l.filter (·.1 ≤ m) ++ l.filter (·.1 = m + 1)).Perm (l.filter (·.1 ≤ m + 1)) := by
  have hperm := filter_append_perm (fun q => decide (q.1 ≤ m)) (l.filter (·.1 ≤ m + 1))
  rw [List.filter_filter, List.filter_filter] at hperm
  refine (List.Perm.of_eq ?_).trans hperm
  congr 1 <;> refine filter_congr fun q _ => ?_
  · rw [← Bool.decide_and, decide_eq_decide]
    omega
  · rw [← decide_not, ← Bool.decide_and, decide_eq_decide]
    omega

lemma Inv.release (h : Inv n s) {w : Writer}
    (hw : (writers s.cdag.requests)[s.cdag.released.length]? = some w) :
    Inv n (s.release self n w) := by
  have hrel : (s.release self n w).cdag.released.length = s.cdag.released.length + 1 := by
    simp [SliceDb.release, Cdag.release]
  have hlast : (s.contents ++ [s.bytes])[s.cdag.released.length + 1]? = some s.bytes := by
    rw [← h.length, getElem?_concat_length]
  -- the requests whose frontier becomes the head
  have hhead : (s.delayed.filter (·.1 = 1)).map snd =
      (s.requests.filter (·.1 = s.cdag.released.length + 1)).map snd := by
    rw [h.delayed, List.filter_map, List.filter_filter, List.map_map]
    refine congrArg (List.map snd) (List.filter_congr fun q _ => ?_)
    rw [Function.comp_apply, ← Bool.decide_and, decide_eq_decide]
    omega
  refine ⟨h.cdag.release hw, h.nodup, h.placed, h.inRange, ?delayed, ?delivered, ?served, ?length,
    fun _ => ?current, fun q hq i hi => h.apart q hq i ?apart⟩
  case delayed =>
    rw [hrel]
    show (s.delayed.filter _).map _ = (s.requests.filter _).map _
    rw [h.delayed, List.filter_map, List.filter_filter, List.map_map]
    refine congr (congrArg _ (funext fun q => ?_)) (filter_congr fun q _ => ?_)
    · exact Prod.ext (Nat.sub_sub ..) rfl
    · rw [Function.comp_apply, ← Bool.decide_and, decide_eq_decide]
      omega
  case delivered =>
    rw [hrel]
    show ((s.delivered ++ _).map fst).Perm ((s.requests.filter _).map snd)
    rw [List.map_append, List.map_map]
    refine (h.delivered.append (.of_eq hhead)).trans ?_
    rw [← map_append]
    exact (filter_le_succ_perm _ _).map _
  case served =>
    refine fun d hd => (mem_append.1 hd).elim (fun hd => ?_) fun hd => ?_
    · obtain ⟨q, hq, hqd, b, hb, hdb⟩ := h.served d hd
      exact ⟨q, hq, hqd, b, List.getElem?_append_left (List.getElem?_eq_some_iff.1 hb).1 ▸ hb, hdb⟩
    · obtain ⟨p, hp, rfl⟩ := mem_map.1 hd
      obtain ⟨q, hq, hqp⟩ := mem_map.1 (hhead ▸ mem_map_of_mem hp)
      obtain ⟨hq, hk⟩ := mem_filter.1 hq
      exact ⟨q, hq, hqp, s.bytes, of_decide_eq_true hk ▸ hlast, rfl⟩
  case length =>
    rw [hrel, ← h.length]
    exact length_append
  case current => exact hrel ▸ hlast
  case apart => omega

@[simp] lemma request_released (s : SliceDb) (r : SliceRequest) :
    (s.request n r).cdag.released = s.cdag.released := rfl

lemma Inv.request (h : Inv n s) {r : SliceRequest} (hnew : r ∉ s.requests.map snd)
    (hr : r.slice.offset + r.slice.size ≤ n)
    (hfit : .edt r.edt ∈ writers s.cdag.requests → .edt r.edt ∈ s.cdag.released) :
    Inv n (s.request n r) := by
  have hopen := h.cdag.openFrontier
  have hP := h.cdag.released_length_le
  have hzero : AccessDb.openFrontier s.cdag.frontiers = 0 ↔
      (writers s.cdag.requests).length ≤ s.cdag.released.length := by omega
  refine ⟨h.cdag.withOpen, ?nodup, forall_mem_append_singleton h.placed le_rfl,
    forall_mem_append_singleton h.inRange hr, ?delayed, ?delivered, ?served, h.length, h.current,
    forall_mem_append_singleton h.apart fun i hi _ hw => ?apart⟩
  case nodup =>
    show ((s.requests ++ [_]).map snd).Nodup
    rw [map_append]
    exact nodup_append'.2 ⟨h.nodup, by simp, by simpa using hnew⟩
  case delayed =>
    show (if _ then _ else _) = ((s.requests ++ [_]).filter _).map _
    rw [filter_append, map_append, request_released, ← h.delayed]
    split_ifs with h0
    · simp [hzero.1 h0]
    · simp [hopen, Nat.lt_of_not_le (mt hzero.2 h0)]
  case delivered =>
    show ((if _ then _ else _ : List _).map fst).Perm (((s.requests ++ [_]).filter _).map _)
    rw [filter_append, map_append, request_released]
    split_ifs with h0
    · simpa [hzero.1 h0, SliceDb.deliver] using h.delivered.append_right [r]
    · simpa [Nat.lt_of_not_le (mt hzero.2 h0)] using h.delivered
  case served =>
    have hold : ∀ d ∈ s.delivered, ∃ q ∈ (s.request n r).requests, _ := fun d hd =>
      (h.served d hd).imp fun q hq => ⟨mem_append_left _ hq.1, hq.2⟩
    show ∀ d ∈ (if AccessDb.openFrontier s.cdag.frontiers = 0 then _ else _), _
    split_ifs with h0
    · refine forall_mem_append_singleton hold ⟨(_, r), mem_append_right _
        (mem_singleton_self _), rfl, s.bytes, ?_, rfl⟩
      exact Nat.le_antisymm hP (hzero.1 h0) ▸ h.current (hzero.1 h0)
    · exact hold
  case apart =>
    exact Nat.not_lt.2 hi ((h.cdag.mem_released_iff hw).1 (hfit (mem_of_getElem? hw)))

lemma inv_of_fit (h : ((machine self n).restrict Fit).Reachable s) : Inv n s := by
  refine h.invariant ?_ fun s l s' _ hinv hst => ?_
  · rintro s ⟨bytes, rfl⟩
    exact ⟨.init, .nil, nofun, nofun, rfl, .nil, nofun, rfl, fun _ => rfl, nofun⟩
  obtain ⟨hfit, hst⟩ := Machine.restrict_next.1 hst
  cases l with
  | acquire a flags =>
    obtain ⟨⟨hnew, ha⟩, ⟨⟩⟩ := ite_none_right_eq_some.1 hst
    exact hinv.acquire hnew ha
  | write w bytes =>
    obtain ⟨hw, ⟨⟩⟩ := ite_none_right_eq_some.1 hst
    have hlt := (List.getElem?_eq_some_iff.1 (hinv.cdag.getElem?_of_holds hw)).1
    exact { hinv with current := fun hle => absurd hlt (Nat.not_lt.2 hle) }
  | release w =>
    obtain ⟨⟨hw, -⟩, ⟨⟩⟩ := ite_none_right_eq_some.1 hst
    exact hinv.release (hinv.cdag.getElem?_of_holds hw)
  | request r =>
    obtain ⟨⟨hnew, hr⟩, ⟨⟩⟩ := ite_none_right_eq_some.1 hst
    exact hinv.request hnew hr hfit

lemma holds_of_getElem? {s : Cdag} (h : s.Inv) {w : Writer}
    (hw : (writers s.requests)[s.released.length]? = some w) : s.Holds w := by
  refine ⟨?_, fun hm => Nat.lt_irrefl _ ((h.mem_released_iff hw).1 hm)⟩
  rw [h.order, take_add_one, hw]
  simp

lemma serves_of_fit (hn : n < 2 ^ 32) (h : ((machine self n).restrict Fit).Reachable s) :
    s.Serves self n := by
  have hinv := inv_of_fit h
  have hinj : ∀ k k' r, (k, r) ∈ s.requests → (k', r) ∈ s.requests → k = k' := fun k k' r hk hk' =>
    congrArg fst (inj_on_of_nodup_map hinv.nodup hk hk' rfl)
  refine ⟨fun k r hr => ?count, fun r o hd => ?bytes, fun k r hr hlt => ?goes_on⟩
  case count =>
    rw [hinv.delivered.count_eq, List.Nodup.count (hinv.nodup.sublist (filter_sublist.map _))]
    refine if_congr ?_ rfl rfl
    rw [List.mem_map]
    constructor
    · rintro ⟨⟨k', r'⟩, hq, rfl⟩
      obtain ⟨hq, hle⟩ := mem_filter.1 hq
      exact hinj k k' r' hr hq ▸ of_decide_eq_true hle
    · exact fun hle => ⟨_, mem_filter.2 ⟨hr, decide_eq_true hle⟩, rfl⟩
  case bytes =>
    obtain ⟨⟨k, r⟩, hq, rfl, b, hb, ho⟩ := hinv.served _ hd
    obtain ⟨payload, hp, hshows⟩ := deliverSlice_of_inRange (b := ⟨b, n⟩)
      (hinv.inRange _ hq) hn
    exact ⟨k, b, payload, hq, hb, ho.trans hp, hshows⟩
  case goes_on =>
    have hlen := hlt.trans_le (hinv.placed _ hr)
    have hw := getElem?_eq_getElem hlen
    refine ⟨_, isSome_iff_exists.2 ⟨_, if_pos ⟨holds_of_getElem? hinv.cdag hw, ?_⟩⟩⟩
    rw [hinv.delayed]
    intro p hp
    obtain ⟨q, hq, rfl⟩ := mem_map.1 hp
    obtain ⟨hq, hk⟩ := mem_filter.1 hq
    exact fun he => hinv.apart q hq _ le_rfl (of_decide_eq_true hk) (he ▸ hw)

end SliceDb

end Arts
