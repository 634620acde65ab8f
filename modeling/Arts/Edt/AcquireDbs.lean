import Arts.Edt.Basic
import Arts.RouteTable.Handlers

/-!
# The slots of an EDT that is ready

`acquireSlot` is what `acquire_dbs` does for one slot. It is counted at once or by a registered
*completion*: once, but never for a foreign GUID and twice for `Twice` (`contribution_eq_one_iff`).
-/

namespace Arts

/-! ### One slot -/

/-- The rank, the number of ranks and the EDT. -/
structure EdtSite where
  self : ℕ
  /-- `arts_global_rank_count` -/
  ranks : ℕ
  edt : EdtGuid

/-- A datablock as `arts_route_table_lookup_db` finds it. -/
structure DbView where
  dbType : DbType
  validRank : ℕ
  /-- `db_list`; it may be `NULL`. -/
  frontiers : Option (List Frontier)
  addr : UInt64
  addr_ne : addr ≠ 0
  deriving DecidableEq

inductive Completion where
  /-- `arts_db_request_callback`, for an entry of the out-of-order list or an answer of another rank. -/
  | callback
  /-- The frontier becomes the head: `arts_signal_frontier_local`, or `arts_signal_frontier_remote` and
  the callback. -/
  | frontier
  /-- `arts_satisfy_local_edt_slice`, at once or from a frontier. -/
  | localSlice
  /-- `arts_signal_edt_ptr_with_guid` with the slice. -/
  | sliceSignal
  deriving DecidableEq

/-- What `acquire_dbs` does with a slot. -/
structure SlotStep where
  slot : DepSlot
  counted : Bool
  completions : List Completion
  deriving DecidableEq

/-- `DB_MODE_RW` is `DB_MODE_EW` if there are several ranks. -/
def DepSlot.promote (d : DepSlot) (ranks : ℕ) : DepSlot :=
  { d with mode := if d.mode = .rw ∧ 1 < ranks then .ew else d.mode }

/-- The accesses of the owner that wait in its frontiers. -/
def waiting (fs : List Frontier) : ℕ := weight (fun f => f.localDelayed.length) fs

variable (e : EdtSite)

def DepSlot.granted (d : DepSlot) (v : DbView) : SlotStep := ⟨{ d with ptr := .addr v.addr }, true, []⟩

def DepSlot.deferred (d : DepSlot) (cs : List Completion) : SlotStep := ⟨d, false, cs⟩

/-- The slice is copied here or asked for; the owner and the other ranks do the same. -/
def acquireSliceSlot (d : DepSlot) : Option DbView → SlotStep
  | some v =>
    if v.dbType = .dbLocal ∨ v.validRank = e.self then d.deferred [.localSlice]
    else d.deferred [.sliceSignal]
  -- `arts_out_of_order_get_from_db` or `arts_remote_get_from_db`
  | none => d.deferred [.sliceSignal]

def acquireDbSlot (i : ℕ) (d : DepSlot) : Option DbView → SlotStep
  | some v =>
    if v.dbType = .dbLocal then d.granted v
    else if d.mode = .lcSync ∧ d.guid.getRank.toNat = e.self then d.granted v
    else if d.guid.getRank.toNat = e.self then
      let fs := v.frontiers.getD [{}]
      let r := addDbDuplicateEx e.self fs e.self (some e.edt) (.ofNat i) d.mode d.flags
      let delayed := List.replicate (waiting r.frontiers - waiting fs) Completion.frontier
      if v.validRank = e.self ∧ r.onHead then d.granted v
      else if v.validRank = e.self then d.deferred delayed
      -- `arts_remote_db_request` or `arts_remote_db_full_request`
      else d.deferred (delayed ++ [.callback])
    else if v.validRank = e.self then d.granted v
    else d.deferred [.callback]
  -- also `arts_out_of_order_handle_db_request`
  | none => d.deferred [.callback]

/-- `acquire_dbs`, for the slot `i`; `none` is an `ARTS_ERROR`, which ends the program. -/
def acquireSlot (i : ℕ) (d : DepSlot) (db : Option DbView) : Option SlotStep :=
  if d.guid = Guid.null ∧ d.mode ≠ .null then some ⟨d, true, []⟩
  else if d.guid ≠ Guid.null ∧ d.ptr = .addr 0 then
    let d := d.promote e.ranks
    if d.mode = .value then some ⟨d, true, []⟩
    else
      match d.guid.getType with
      | .db =>
        if d.sliceSize ≠ 0 then
          if d.mode ≠ .ro then none else some (acquireSliceSlot e d db)
        else some (acquireDbSlot e i d db)
      | .null => some ⟨d, true, []⟩
      | _ => some ⟨d, false, []⟩
  else some ⟨d, true, []⟩

def contribution (i : ℕ) (d : DepSlot) (db : Option DbView) : ℕ :=
  ((acquireSlot e i d db).map fun r => r.counted.toNat + r.completions.length).getD 0

def DepSlot.settled (d : DepSlot) : Bool :=
  d.guid = Guid.null ∨ d.ptr ≠ .addr 0 ∨ d.mode = .value ∨ d.guid.getType = .null

/-- The head of the list takes an access of the EDT. -/
def headOpen (edt : EdtGuid) (fs : List Frontier) : Prop :=
  ∀ f ∈ fs.head?, f.writeSet = false ∨ f.localWriteEdt = some edt

/-- The datablock is found on its owner, the owner's data are not valid, and the head of the frontier
list is sealed for the EDT. -/
def Twice (d : DepSlot) (v : DbView) : Prop :=
  d.guid.getRank.toNat = e.self ∧ v.dbType ≠ .dbLocal ∧ d.mode ≠ .lcSync ∧ v.validRank ≠ e.self ∧
    ¬ headOpen e.edt (v.frontiers.getD [])

/-- **The slots that are counted once**: those that need no datablock, slices that are read, and
datablocks that are not counted twice. -/
def Regular (d : DepSlot) (db : Option DbView) : Prop :=
  d.settled ∨ d.guid.getType = .db ∧
    if d.sliceSize ≠ 0 then d.mode = .ro else ∀ v ∈ db, ¬ Twice e d v

instance (edt : EdtGuid) (fs : List Frontier) : Decidable (headOpen edt fs) := by
  unfold headOpen
  infer_instance

instance (d : DepSlot) (v : DbView) : Decidable (Twice e d v) := by
  unfold Twice
  infer_instance

instance (d : DepSlot) (db : Option DbView) : Decidable (Regular e d db) := by
  unfold Regular
  infer_instance

/-! ### How often a slot is counted -/

section Frontiers

variable {q : FrontierRequest} {f : Frontier}

lemma length_localDelayed_delay (hlocal : q.isLocal) (hedt : q.edt.isSome) (isHead : Bool) :
    (f.delay q isHead).localDelayed.length = f.localDelayed.length + (!isHead).toNat := by
  obtain ⟨edt, hedt⟩ := Option.isSome_iff_exists.1 hedt
  cases isHead <;> simp [Frontier.delay, hedt, hlocal]

lemma waiting_pushDbToList (hlocal : q.isLocal) (hedt : q.edt.isSome) (isHead : Bool)
    (fs : List Frontier) :
    waiting (pushDbToList q isHead fs).frontiers =
      waiting fs + (!(pushDbToList q isHead fs).onHead).toNat := by
  have htake : ∀ (b : Bool) (f : Frontier), ((f.taken q).1.delay q b).localDelayed.length =
      f.localDelayed.length + (!b).toNat := by
    intro b f
    rw [length_localDelayed_delay hlocal hedt, localDelayed_taken]
  unfold waiting
  induction fs generalizing isHead with
  | nil =>
    rw [pushDbToList, pushDbToFrontier_of_open rfl]
    simp [htake]
  | cons f fs ih =>
    cases hseal : f.writeSet with
    | false =>
      rw [pushDbToList, pushDbToFrontier_of_open hseal]
      simp only [weight_cons, htake]
      omega
    | true =>
      rw [pushDbToList, pushDbToFrontier_of_sealed hseal]
      by_cases hsame : (q.isLocal && f.sameLocalWriter q.edt) = true
      · simp only [hsame, if_true, weight_cons, length_localDelayed_delay hlocal hedt]
        omega
      · simp only [hsame, Bool.false_eq_true, if_false, weight_cons, ih]
        omega

lemma taker_cons_eq_zero {fs : List Frontier} : taker q (f :: fs) = 0 ↔ f.takes q := by
  rw [taker, List.findIdx_cons]
  cases f.takes q <;> simp

lemma onHead_addDbDuplicateEx (self : ℕ) (fs : List Frontier) (edt : EdtGuid) (slot : UInt32)
    (mode : AccessMode) (flags : UInt32) :
    (addDbDuplicateEx self fs self (some edt) slot mode flags).onHead ↔ headOpen edt fs := by
  unfold addDbDuplicateEx headOpen
  rw [pushDbToList_eq]
  rcases fs with - | ⟨f, fs⟩
  · simp [taker]
  · simp [taker_cons_eq_zero, Frontier.takes, Frontier.sameLocalWriter, duplicateRequest]

end Frontiers

section Slots

variable {e} {i : ℕ} {d : DepSlot} {db : Option DbView}

lemma mode_promote_iff {ranks : ℕ} {m : AccessMode} (hrw : m ≠ .rw) (hew : m ≠ .ew) :
    (d.promote ranks).mode = m ↔ d.mode = m := by
  by_cases h : d.mode = .rw ∧ 1 < ranks
  · simp [DepSlot.promote, h, hrw.symm, hew.symm]
  · simp [DepSlot.promote, h]

lemma settled_iff : d.settled ↔
    d.guid = Guid.null ∨ d.ptr ≠ .addr 0 ∨ d.mode = .value ∨ d.guid.getType = .null :=
  decide_eq_true_iff

lemma settled_promote (ranks : ℕ) : (d.promote ranks).settled ↔ d.settled := by
  rw [settled_iff, settled_iff, mode_promote_iff (by decide) (by decide)]
  rfl

lemma twice_promote {v : DbView} {ranks : ℕ} : Twice e (d.promote ranks) v ↔ Twice e d v := by
  unfold Twice
  simp only [ne_eq, mode_promote_iff (m := .lcSync) (by decide) (by decide)]
  rfl

lemma acquireSlot_of_settled (h : d.settled) :
    ∃ d' : DepSlot, acquireSlot e i d db = some ⟨d', true, []⟩ ∧ d'.settled := by
  unfold acquireSlot
  by_cases hnull : d.guid = Guid.null ∧ d.mode ≠ .null
  · exact ⟨d, if_pos hnull, h⟩
  · rw [if_neg hnull]
    by_cases hptr : d.guid ≠ Guid.null ∧ d.ptr = .addr 0
    · rw [if_pos hptr]
      have hpromote := (settled_promote e.ranks).2 h
      by_cases hvalue : (d.promote e.ranks).mode = .value
      · exact ⟨_, if_pos hvalue, hpromote⟩
      · have htype : (d.promote e.ranks).guid.getType = .null := by
          rcases settled_iff.1 hpromote with h | h | h | h
          · exact absurd h hptr.1
          · exact absurd hptr.2 h
          · exact absurd h hvalue
          · exact h
        refine ⟨d.promote e.ranks, ?_, hpromote⟩
        simp [htype]
    · exact ⟨d, if_neg hptr, h⟩

lemma acquireSlot_of_unsettled (h : ¬ d.settled) :
    acquireSlot e i d db =
      if d.guid.getType = .db then
        if d.sliceSize ≠ 0 then
          if d.mode ≠ .ro then none else some (acquireSliceSlot e (d.promote e.ranks) db)
        else some (acquireDbSlot e i (d.promote e.ranks) db)
      else some ⟨d.promote e.ranks, false, []⟩ := by
  rw [settled_iff, not_or, not_or, not_or, not_not] at h
  obtain ⟨hguid, hptr, hvalue, htype⟩ := h
  unfold acquireSlot
  rw [if_neg fun hn => hguid hn.1, if_pos ⟨hguid, hptr⟩]
  simp only [mode_promote_iff (m := .value) (by decide) (by decide),
    mode_promote_iff (m := .ro) (by decide) (by decide), if_neg hvalue, ne_eq]
  have hg : (d.promote e.ranks).guid = d.guid := rfl
  have hs : (d.promote e.ranks).sliceSize = d.sliceSize := rfl
  rw [hg, hs]
  cases ht : d.guid.getType with
  | null => exact absurd ht htype
  | db => simp
  | _ => simp

lemma delayed_addDbDuplicateEx (self : ℕ) (fs : List Frontier) (edt : EdtGuid) (slot : UInt32)
    (mode : AccessMode) (flags : UInt32) :
    waiting (addDbDuplicateEx self fs self (some edt) slot mode flags).frontiers - waiting fs =
      (!(addDbDuplicateEx self fs self (some edt) slot mode flags).onHead).toNat := by
  unfold addDbDuplicateEx
  rw [waiting_pushDbToList (beq_self_eq_true self) rfl, Nat.add_sub_cancel_left]

lemma acquireDbSlot_of_twice {v : DbView} (h : Twice e d v) :
    acquireDbSlot e i d (some v) = d.deferred [.frontier, .callback] := by
  obtain ⟨howner, htype, hmode, hvalid, hsealed⟩ := h
  have hhead : (addDbDuplicateEx e.self (v.frontiers.getD [{}]) e.self (some e.edt) (.ofNat i) d.mode
      d.flags).onHead = false := by
    rw [Bool.eq_false_iff, Ne, onHead_addDbDuplicateEx]
    cases hf : v.frontiers with
    | none => simp [hf, headOpen] at hsealed
    | some fs => simpa [hf] using hsealed
  unfold acquireDbSlot
  simp only [htype, hmode, howner, hvalid, delayed_addDbDuplicateEx, hhead]
  rfl

lemma acquireDbSlot_cases (h : ∀ v ∈ db, ¬ Twice e d v) :
    (∃ v, acquireDbSlot e i d db = d.granted v) ∨ ∃ c, acquireDbSlot e i d db = d.deferred [c] := by
  cases db with
  | none => exact .inr ⟨.callback, rfl⟩
  | some v =>
    unfold acquireDbSlot
    simp only [delayed_addDbDuplicateEx]
    split_ifs with htype hsync howner hhead hvalid hself
    · exact .inl ⟨v, rfl⟩
    · exact .inl ⟨v, rfl⟩
    · exact .inl ⟨v, rfl⟩
    · have hno := Bool.eq_false_iff.2 fun hh => hhead ⟨hvalid, hh⟩
      rw [hno]
      exact .inr ⟨.frontier, rfl⟩
    · have hopen : headOpen e.edt (v.frontiers.getD []) := by
        by_contra hsealed
        exact h v rfl ⟨howner, htype, fun hm => hsync ⟨hm, howner⟩, hvalid, hsealed⟩
      have hopen' : headOpen e.edt (v.frontiers.getD [{}]) := by
        cases hf : v.frontiers with
        | none => simp [headOpen]
        | some fs => simpa [hf] using hopen
      rw [(onHead_addDbDuplicateEx ..).2 hopen']
      exact .inr ⟨.callback, rfl⟩
    · exact .inl ⟨v, rfl⟩
    · exact .inr ⟨.callback, rfl⟩

/-- **A regular slot** is counted, or one completion is registered for it. -/
theorem acquireSlot_cases (h : Regular e d db) :
    (∃ d' : DepSlot, acquireSlot e i d db = some ⟨d', true, []⟩ ∧ d'.settled) ∨
      ∃ c, acquireSlot e i d db = some ⟨d.promote e.ranks, false, [c]⟩ ∧ ¬ d.settled := by
  by_cases hset : d.settled
  · exact .inl (acquireSlot_of_settled hset)
  · obtain ⟨htype, hreg⟩ := h.resolve_left hset
    rw [acquireSlot_of_unsettled hset, if_pos htype]
    by_cases hslice : d.sliceSize ≠ 0
    · rw [if_pos hslice] at hreg
      rw [if_pos hslice, if_neg (not_not.2 hreg)]
      refine .inr ?_
      cases db with
      | none => exact ⟨.sliceSignal, rfl, hset⟩
      | some v =>
        unfold acquireSliceSlot
        dsimp only
        split_ifs
        · exact ⟨.localSlice, rfl, hset⟩
        · exact ⟨.sliceSignal, rfl, hset⟩
    · rw [if_neg hslice] at hreg ⊢
      have hreg' : ∀ v ∈ db, ¬ Twice e (d.promote e.ranks) v :=
        fun v hv htwice => hreg v hv (twice_promote.1 htwice)
      rcases acquireDbSlot_cases hreg' with ⟨v, hv⟩ | ⟨c, hc⟩
      · rw [hv]
        exact .inl ⟨_, rfl, settled_iff.2 (.inr (.inl (by simpa using v.addr_ne)))⟩
      · rw [hc]
        exact .inr ⟨c, rfl, hset⟩

/-- **A slot is counted once exactly if it is regular.** -/
theorem contribution_eq_one_iff : contribution e i d db = 1 ↔ Regular e d db := by
  refine ⟨fun hone => ?_, fun hreg => ?_⟩
  · by_contra hirr
    unfold Regular at hirr
    rw [not_or] at hirr
    obtain ⟨hset, hirr⟩ := hirr
    unfold contribution at hone
    rw [acquireSlot_of_unsettled hset] at hone
    by_cases htype : d.guid.getType = .db
    · rw [if_pos htype] at hone
      by_cases hslice : d.sliceSize ≠ 0
      · have hmode : d.mode ≠ .ro := fun hro => hirr ⟨htype, by rwa [if_pos hslice]⟩
        rw [if_pos hslice, if_pos hmode] at hone
        cases hone
      · have htwice : ∃ v ∈ db, Twice e d v := by
          by_contra hno
          push Not at hno
          exact hirr ⟨htype, by rwa [if_neg hslice]⟩
        obtain ⟨v, rfl, htwice⟩ := htwice
        rw [if_neg hslice, acquireDbSlot_of_twice (twice_promote.2 htwice)] at hone
        cases hone
    · rw [if_neg htype] at hone
      cases hone
  · rcases acquireSlot_cases hreg with ⟨d', hd', -⟩ | ⟨c, hc, -⟩
    · rw [contribution, hd']
      rfl
    · rw [contribution, hc]
      rfl

end Slots

end Arts
