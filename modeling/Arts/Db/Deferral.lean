import Arts.Db.Access

/-!
# Deferral of operations on a datablock

A get, a put or a request for a datablock that is not there is deferred; **`AccessDb.settles_iff`**
says exactly when this goes right.
-/

namespace Arts

open List RouteItem

namespace DbOp

/-- `arts_out_of_order_handle_db_request` -/
def isRequest : DbOp → Bool
  | .request _ _ _ => true
  | _ => false

lemma isRequest_iff {op : DbOp} :
    op.isRequest ↔ ∃ edt slot inc, op = .request edt slot inc := by
  cases op <;> simp [isRequest]

/-- How far the count of references has to stay below its bound. -/
def margin : DbOp → ℕ
  | .request _ _ true => 4
  | .request _ _ false => 3
  | _ => 2

lemma margin_eq {op : DbOp} (h : ¬ op.isRequest) : op.margin = 2 := by
  cases op with
  | request => exact absurd rfl h
  | get | put => rfl

end DbOp

namespace AccessDb

variable {e : DbSite} {w w' : AccessDb} {op : DbOp}

/-- The operations that wait. -/
def pending (w : AccessDb) : List DbOp := w.ooList ++ w.sliceDelayed.map Prod.snd

/-- The datablock was destroyed: its item is marked for deletion. -/
def Destroyed (e : DbSite) (w : AccessDb) : Prop :=
  w.item.found e.guid .allocatedKey = false ∧ w.marked ≠ []

/-- The call has completed or left one operation behind, and has taken the datablock for destroyed only
if it was. -/
def Settled (e : DbSite) (w : AccessDb) (op : DbOp) (a : AccessResult) : Prop :=
  match a.ending with
  | .queued | .deferred => a.db.pending.Perm (op :: w.pending)
  | .emptied => a.db.pending = w.pending ∧ w.Destroyed e
  | _ => a.db.pending = w.pending

/-- The call ends, and settles its operation. -/
def Settles (e : DbSite) (w : AccessDb) (op : DbOp) : Prop :=
  ∃ fuel a, w.call e fuel op = some a ∧ w.Settled e op a

/-- The item is absent, reserved, requested or available, and its list was not fired before it was
available. -/
structure Valid (e : DbSite) (w : AccessDb) : Prop where
  item : w.item.lock = 0 ∨ ∃ t, w.item.At e.guid t
  isOpen : w.item.lock = 0 ∨ w.item.At e.guid 4 → w.isFired = false

/-- The item does not stand in the way of the operation. -/
def Ready (e : DbSite) (w : AccessDb) (op : DbOp) : Prop :=
  op.lacksEdt ∨ (¬ op.isRequest ∧ ¬ e.isLocal) ∨
    w.item.found e.guid .requestedKey = false ∧
      (w.item.found e.guid .availableKey →
        w.item.data.isSome ∧ (getCount w.item.lock).toNat + op.margin < 2 ^ 61)

/-! ### Functions of the item -/

lemma found_eq_false {i : RouteItem} {guid : Guid} {t : ℕ} (h : i.At guid t) :
    (i.found guid .availableKey = decide (t = 2)) ∧ (i.found guid .requestedKey = decide (t = 6)) ∧
      checkItemState i.lock .reservedKey = decide (t = 4) := by
  obtain ⟨-, n, hi⟩ := h
  obtain ⟨hres, havail, hreq⟩ := hi.bits
  simp [found, checkItemState, hi.key, hres, havail, hreq]

lemma lookupDb_of_not_found (h : w.item.found e.guid .availableKey = false) :
    w.lookupDb e = (w, false) := by
  simp [lookupDb, RouteItem.lookupDb, h]

lemma lookupDb_of_is {n : ℕ} (h : w.item.Is e.guid 2 n) (hdata : w.item.data.isSome)
    (hn : n + 2 < 2 ^ 61) :
    w.lookupDb e = ({ w with item := { w.item with lock := word 2 (n + 1) } }, true) := by
  rw [lookupDb, h.lookupDb hn, hdata]

lemma addOo_of_reserved (h : w.item.lock = 0 ∨ w.item.At e.guid 4) (hopen : w.isFired = false)
    (op : DbOp) (inc : Bool) : ∃ i, w.addOo e op inc =
      ({ w with item := i, ooList := w.ooList ++ [op] }, true) := by
  rcases h with h0 | h4
  · have hno := found_of_empty h0 e.guid .allocatedKey
    simp only [addOo, reserveItemRace, hno, hopen]
    exact ⟨_, rfl⟩
  · have hres : checkItemState (w.item.incItem 1 w.item.key).1.lock .reservedKey = true := by
      rw [(found_eq_false h4.inc).2.2]
      rfl
    simp only [addOo, reserveItemRace, h4.allocated_found, if_true, hres, hopen]
    exact ⟨_, rfl⟩

lemma addOo_of_at {t : ℕ} (h : w.item.At e.guid t) (ht : t ≠ 4) (op : DbOp) (inc : Bool) :
    w.addOo e op inc =
      let i := (w.item.incItem 1 w.item.key).1
      ({ w with item := if inc then (i.incItem 1 i.key).1 else i }, false) := by
  have hres : checkItemState (w.item.incItem 1 w.item.key).1.lock .reservedKey = false := by
    rw [(found_eq_false h.inc).2.2]
    exact decide_eq_false ht
  simp only [addOo, reserveItemRace, h.allocated_found, if_true, hres]
  rfl

lemma access_succ (hop : ¬ op.isRequest) (fuel : ℕ) : w.access e (fuel + 1) op =
    let r := w.lookupDb e
    if r.2 then some { r.1.serve e op with db := (r.1.serve e op).db.returnDb e }
    else if op.lacksEdt then some ⟨r.1, .error, []⟩
    else
      let s := r.1.addOo e op false
      if s.2 then some ⟨s.1, .deferred, []⟩ else s.1.access e fuel op := by
  cases op with
  | request => exact absurd rfl hop
  | get | put => rfl

lemma call_of_not_request (hop : ¬ op.isRequest) (fuel : ℕ) :
    w.call e fuel op = w.callAt e fuel e.guid.getRank.toNat op := by
  cases op with
  | request => exact absurd rfl hop
  | get | put => rfl

lemma call_eq (hop : op.isRequest ∨ e.isLocal) (fuel : ℕ) :
    w.call e fuel op = w.access e fuel op := by
  by_cases hr : op.isRequest
  · obtain ⟨edt, slot, inc, rfl⟩ := DbOp.isRequest_iff.1 hr
    rfl
  · have hlocal : e.guid.getRank.toNat = e.self := by
      simpa [DbSite.isLocal] using hop.resolve_left hr
    rw [call_of_not_request hr, callAt, if_pos hlocal]

/-! ### Serving -/

/-- The call leaves nothing behind, and has not taken the datablock for destroyed. -/
structure Completed (w : AccessDb) (a : AccessResult) : Prop where
  not_queued : a.ending ≠ .queued
  not_deferred : a.ending ≠ .deferred
  not_emptied : a.ending ≠ .emptied
  pending : a.db.pending = w.pending

lemma Completed.signalDbSlice (h : w'.pending = w.pending) (edt : Guid) (slot : UInt32)
    (s : DbSlice) : Completed w (w'.signalDbSlice edt slot s) := by
  unfold AccessDb.signalDbSlice
  cases w'.block.deliverSlice s <;> exact ⟨nofun, nofun, nofun, h⟩

lemma Completed.signalNow (w : AccessDb) (edt : Guid) (slot : UInt32) (s : DbSlice) :
    Completed w (w.signalNow edt slot s) := by
  unfold AccessDb.signalNow
  by_cases hedt : edt = Guid.null
  · rw [if_pos hedt]
    exact ⟨nofun, nofun, nofun, rfl⟩
  rw [if_neg hedt]
  by_cases hshape : s.preserveShape
  · rw [if_pos hshape]
    cases w.block.sliceSignalSize s with
    | none => exact ⟨nofun, nofun, nofun, rfl⟩
    | some n =>
      split_ifs <;> exact ⟨nofun, nofun, nofun, rfl⟩
  · rw [if_neg hshape]
    exact ⟨nofun, nofun, nofun, rfl⟩

lemma serve_pending (w : AccessDb) (op : DbOp) :
    (w.serve e op).ending = .queued ∧ (w.serve e op).db.pending.Perm (op :: w.pending) ∨
      Completed w (w.serve e op) := by
  cases op with
  | request edt slot inc | put data edt slot offset => exact .inr ⟨nofun, nofun, nofun, rfl⟩
  | get edt slot offset size shape =>
    simp only [serve, serveGet]
    split_ifs
    · exact .inr (Completed.signalNow ..)
    · exact .inr ⟨nofun, nofun, nofun, rfl⟩
    · unfold requestDbSlice
      cases w.frontiers with
      | none => exact .inr (Completed.signalDbSlice rfl ..)
      | some fs =>
        dsimp only
        split_ifs
        · exact .inr (Completed.signalDbSlice (by rfl) ..)
        · refine .inl ⟨rfl, ?_⟩
          show (w.ooList ++ (w.sliceDelayed ++ [_]).map Prod.snd).Perm _
          rw [map_append, ← append_assoc]
          exact perm_append_comm
    · exact .inr ⟨nofun, nofun, nofun, rfl⟩

lemma Completed.settled {a : AccessResult} (h : Completed w a) : w.Settled e op a := by
  have hq := h.not_queued
  have hd := h.not_deferred
  have he := h.not_emptied
  have hp := h.pending
  unfold Settled
  cases hend : a.ending <;> first | exact hp | contradiction

lemma settled_of_serve {v : AccessDb} (hv : v.pending = w.pending) :
    w.Settled e op { v.serve e op with db := (v.serve e op).db.returnDb e } := by
  rcases v.serve_pending (e := e) op with ⟨hq, hperm⟩ | ⟨hq, hd, he, hpend⟩
  · simp only [Settled, hq]
    rw [← hv]
    exact hperm
  · exact Completed.settled ⟨hq, hd, he, hpend.trans hv⟩

lemma settled_of_deferred {i : RouteItem} :
    w.Settled e op ⟨{ w with item := i, ooList := w.ooList ++ [op] }, .deferred, []⟩ := by
  show ((w.ooList ++ [op]) ++ w.sliceDelayed.map Prod.snd).Perm (op :: (w.ooList ++ _))
  rw [append_assoc]
  exact perm_middle

/-! ### Items that stand in the way -/

/-- The item is requested, or available without its data or without room for `margin` references. -/
def Blocked (guid : Guid) (margin : ℕ) (i : RouteItem) : Prop :=
  i.At guid 6 ∨ (i.At guid 2 ∧ i.data = none) ∨ ∃ n, i.Is guid 2 n ∧ ¬ n + margin < 2 ^ 61

section Blocked

variable {guid : Guid} {m : ℕ} {i : RouteItem}

lemma incItem_data (i : RouteItem) (guid : Guid) : (i.incItem 1 guid).1.data = i.data := by
  unfold incItem
  split_ifs <;> rfl

lemma Blocked.inc (h : Blocked guid (m + 1) i) (hm : 2 ≤ m) :
    Blocked guid m (i.incItem 1 i.key).1 := by
  rcases h with h6 | ⟨h2, hdata⟩ | ⟨n, hi, hn⟩
  · exact .inl h6.inc
  · exact .inr (.inl ⟨h2.inc, (incItem_data i _).trans hdata⟩)
  · refine .inr (.inr ?_)
    by_cases hmax : n + 2 < 2 ^ 61
    · rw [hi.incItem hmax]
      exact ⟨n + 1, ⟨hi.key, rfl, by decide, by omega⟩, by omega⟩
    · rw [hi.incItem_of_full hmax]
      exact ⟨n, hi, by omega⟩

lemma Blocked.succ (h : Blocked guid m i) : Blocked guid (m + 1) i := by
  rcases h with h6 | h2 | ⟨n, hi, hn⟩
  · exact .inl h6
  · exact .inr (.inl h2)
  · exact .inr (.inr ⟨n, hi, by omega⟩)

lemma Blocked.exists_at (h : Blocked guid m i) : ∃ t, i.At guid t ∧ t ≠ 4 := by
  rcases h with h6 | ⟨h2, -⟩ | ⟨n, hi, -⟩
  · exact ⟨6, h6, by decide⟩
  · exact ⟨2, h2, by decide⟩
  · exact ⟨2, ⟨.inr (.inr rfl), n, hi⟩, by decide⟩

lemma Blocked.lookupDb (h : Blocked e.guid 2 w.item) :
    (w.lookupDb e).2 = false ∧ Blocked e.guid 2 (w.lookupDb e).1.item := by
  have hfull : ∀ n, w.item.Is e.guid 2 n → ¬ n + 2 < 2 ^ 61 → w.lookupDb e = (w, false) := by
    intro n hi hmax
    rw [AccessDb.lookupDb, hi.lookupDb_of_full hmax]
  rcases h with h6 | ⟨⟨h2, n, hi⟩, hdata⟩ | ⟨n, hi, hmax⟩
  · rw [lookupDb_of_not_found (found_eq_false h6).1]
    exact ⟨rfl, .inl h6⟩
  · by_cases hmax : n + 2 < 2 ^ 61
    · rw [AccessDb.lookupDb, hi.lookupDb hmax]
      refine ⟨by rw [hdata]; rfl, .inr (.inl ⟨⟨h2, n + 1, ?_⟩, hdata⟩)⟩
      exact ⟨hi.key, rfl, by decide, by omega⟩
    · rw [hfull n hi hmax]
      exact ⟨rfl, .inr (.inr ⟨n, hi, hmax⟩)⟩
  · rw [hfull n hi hmax]
    exact ⟨rfl, .inr (.inr ⟨n, hi, hmax⟩)⟩

lemma Blocked.addOo (h : Blocked e.guid 2 w.item) (op : DbOp) :
    (w.addOo e op false).2 = false ∧ Blocked e.guid 2 (w.addOo e op false).1.item := by
  obtain ⟨t, hat, ht⟩ := h.exists_at
  rw [addOo_of_at hat ht]
  exact ⟨rfl, h.succ.inc le_rfl⟩

/-- **A get or put of a datablock whose item stands in the way does not return**: each round leaves the
item in the way of the next. -/
theorem never_returns (h : Blocked e.guid 2 w.item) (hop : ¬ op.isRequest) (hedt : ¬ op.lacksEdt)
    (fuel : ℕ) : w.access e fuel op = none := by
  induction fuel generalizing w with
  | zero => rfl
  | succ fuel ih =>
    obtain ⟨hno, hlook⟩ := h.lookupDb
    obtain ⟨hrefused, hadd⟩ := hlook.addOo op
    simp only [access_succ hop, hno, hrefused, hedt]
    exact ih hadd

lemma request_emptied {edt : Guid} {slot : UInt32} {inc : Bool}
    (h : Blocked e.guid (DbOp.request edt slot inc).margin w.item) :
    (w.handleDbRequest e (.request edt slot inc) inc).ending = .emptied := by
  obtain ⟨t, hat, ht⟩ := h.exists_at
  have hblocked : Blocked e.guid 2 (w.addOo e (.request edt slot inc) inc).1.item := by
    rw [addOo_of_at hat ht]
    cases inc with
    | false => exact Blocked.inc h le_rfl
    | true => exact (Blocked.inc h (by decide)).inc le_rfl
  have hrefused : (w.addOo e (.request edt slot inc) inc).2 = false := by rw [addOo_of_at hat ht]
  simp [handleDbRequest, hrefused, hblocked.lookupDb.1]

end Blocked

lemma blocked_of_not_ready (hw : w.Valid e) (h : ¬ w.Ready e op) :
    ¬ op.lacksEdt ∧ (op.isRequest ∨ e.isLocal) ∧ Blocked e.guid op.margin w.item := by
  unfold Ready at h
  push Not at h
  obtain ⟨hedt, hsite, hitem⟩ := h
  refine ⟨hedt, ?_, ?_⟩
  · by_cases hr : op.isRequest
    · exact .inl hr
    · exact .inr (by simpa using hsite (by simpa using hr))
  rcases hw.item with h0 | ⟨t, hat⟩
  · have := (hitem (found_of_empty h0 ..)).1
    rw [found_of_empty h0] at this
    exact absurd this (by decide)
  obtain ⟨havail, hreq, -⟩ := found_eq_false hat
  rcases hat.1 with rfl | rfl | rfl
  · have := (hitem hreq).1
    rw [havail] at this
    exact absurd this (by decide)
  · exact .inl hat
  · have hfull := (hitem hreq).2
    cases hdata : w.item.data with
    | none => exact .inr (.inl ⟨hat, hdata⟩)
    | some d =>
      obtain ⟨n, hi⟩ := hat.2
      refine .inr (.inr ⟨n, hi, ?_⟩)
      have := hfull (by rw [hdata]; rfl)
      rw [hi.lock, toNat_getCount hi.count_lt] at this
      omega

lemma settles_of_remote (hop : ¬ op.isRequest) (hlocal : ¬ e.isLocal) : w.Settles e op := by
  have hrank : ¬ e.guid.getRank.toNat = e.self := by simpa [DbSite.isLocal] using hlocal
  refine ⟨0, ?_⟩
  rw [call_of_not_request hop, callAt, if_neg hrank]
  split_ifs
  · exact ⟨_, rfl, Completed.settled ⟨nofun, nofun, nofun, rfl⟩⟩
  · exact ⟨_, rfl, Completed.settled ⟨nofun, nofun, nofun, rfl⟩⟩

lemma settles_of_lacksEdt (hedt : op.lacksEdt) : w.Settles e op := by
  have hop : ¬ op.isRequest := by cases op <;> simp_all [DbOp.lacksEdt, DbOp.isRequest]
  by_cases hlocal : e.isLocal
  · refine ⟨1, ?_⟩
    rw [call_eq (.inr hlocal), access_succ hop]
    by_cases hfound : (w.lookupDb e).2
    · simp only [hfound]
      exact ⟨_, rfl, settled_of_serve rfl⟩
    · simp only [hfound, hedt]
      exact ⟨_, rfl, Completed.settled ⟨nofun, nofun, nofun, rfl⟩⟩
  · exact settles_of_remote hop hlocal

lemma settles_of_reserved (h : w.item.lock = 0 ∨ w.item.At e.guid 4) (hopen : w.isFired = false)
    (hop : op.isRequest ∨ e.isLocal) : w.Settles e op := by
  have hno : w.lookupDb e = (w, false) := by
    refine lookupDb_of_not_found ?_
    rcases h with h0 | h4
    · exact found_of_empty h0 ..
    · exact (found_eq_false h4).1
  by_cases hedt : op.lacksEdt
  · exact settles_of_lacksEdt hedt
  refine ⟨1, ?_⟩
  rw [call_eq hop]
  by_cases hr : op.isRequest
  · obtain ⟨edt, slot, inc, rfl⟩ := DbOp.isRequest_iff.1 hr
    obtain ⟨i, hi⟩ := addOo_of_reserved h hopen (.request edt slot inc) inc
    refine ⟨_, rfl, ?_⟩
    simp only [handleDbRequest, hi]
    exact settled_of_deferred
  · obtain ⟨i, hi⟩ := addOo_of_reserved h hopen op false
    simp only [access_succ hr, hno, hi, hedt]
    exact ⟨_, rfl, settled_of_deferred⟩

lemma settles_of_available {n : ℕ} (h : w.item.Is e.guid 2 n) (hdata : w.item.data.isSome)
    (hn : n + op.margin < 2 ^ 61) (hop : op.isRequest ∨ e.isLocal) : w.Settles e op := by
  refine ⟨1, ?_⟩
  rw [call_eq hop]
  by_cases hr : op.isRequest
  · obtain ⟨edt, slot, inc, rfl⟩ := DbOp.isRequest_iff.1 hr
    refine ⟨_, rfl, ?_⟩
    have hat : w.item.At e.guid 2 := ⟨.inr (.inr rfl), n, h⟩
    -- The reservation counts one reference, `inc` another.
    have hadd : ∃ m, m + 2 < 2 ^ 61 ∧ w.addOo e (.request edt slot inc) inc =
        ({ w with item := { w.item with lock := word 2 m } }, false) := by
      have hmax : n + 3 < 2 ^ 61 := by cases inc <;> simp only [DbOp.margin] at hn <;> omega
      have hone : Is { w.item with lock := word 2 (n + 1) } e.guid 2 (n + 1) :=
        ⟨h.key, rfl, by decide, by omega⟩
      rw [addOo_of_at hat (by decide), h.incItem (by omega)]
      cases inc with
      | false => exact ⟨n + 1, hn, rfl⟩
      | true =>
        refine ⟨n + 2, hn, ?_⟩
        simp [hone.incItem hmax]
    obtain ⟨m, hm, hadd⟩ := hadd
    have hlook : AccessDb.lookupDb e { w with item := { w.item with lock := word 2 m } } =
        ({ w with item := { w.item with lock := word 2 (m + 1) } }, true) :=
      lookupDb_of_is ⟨h.key, rfl, by decide, by omega⟩ hdata hm
    simp only [handleDbRequest, hadd, hlook]
    exact settled_of_serve rfl
  · rw [DbOp.margin_eq hr] at hn
    rw [access_succ hr, lookupDb_of_is h hdata hn]
    exact ⟨_, rfl, settled_of_serve rfl⟩

/-- **A call settles its operation if and only if the item is not requested and, if it is available,
has its data and room for another reference** (or the operation is not for this rank). -/
theorem settles_iff (hw : w.Valid e) : w.Settles e op ↔ w.Ready e op := by
  constructor
  · rintro ⟨fuel, a, hcall, hsettled⟩
    by_contra hready
    obtain ⟨hedt, hop, hblocked⟩ := blocked_of_not_ready hw hready
    rw [call_eq hop] at hcall
    by_cases hr : op.isRequest
    · obtain ⟨edt, slot, inc, rfl⟩ := DbOp.isRequest_iff.1 hr
      cases fuel with
      | zero => cases hcall
      | succ fuel =>
        cases hcall
        rw [Settled, request_emptied hblocked] at hsettled
        obtain ⟨t, hat, -⟩ := hblocked.exists_at
        exact absurd hat.allocated_found (by rw [hsettled.2.1]; decide)
    · rw [DbOp.margin_eq hr] at hblocked
      rw [never_returns hblocked hr hedt] at hcall
      cases hcall
  · rintro (hedt | ⟨hop, hlocal⟩ | ⟨hreq, havail⟩)
    · exact settles_of_lacksEdt hedt
    · exact settles_of_remote hop hlocal
    by_cases hop : op.isRequest ∨ e.isLocal
    · rcases hw.item with h0 | ⟨t, hat⟩
      · exact settles_of_reserved (.inl h0) (hw.isOpen (.inl h0)) hop
      obtain ⟨hfavail, hfreq, -⟩ := found_eq_false hat
      rcases hat.1 with rfl | rfl | rfl
      · exact settles_of_reserved (.inr hat) (hw.isOpen (.inr hat)) hop
      · rw [hfreq] at hreq
        exact absurd hreq (by decide)
      · obtain ⟨n, hi⟩ := hat.2
        obtain ⟨hdata, hn⟩ := havail hfavail
        rw [hi.lock, toNat_getCount hi.count_lt] at hn
        exact settles_of_available hi hdata hn hop
    · push Not at hop
      exact settles_of_remote hop.1 hop.2

/-- The rank owns the datablock. -/
def ownSite : DbSite where
  guid := Guid.make 6 0 1
  dbType := .dbDefault
  self := 0
  ranks := 2

/-- The datablock of eight bytes, with the lock word of its item. -/
def withLock (lock : UInt64) : AccessDb where
  item := { lock := lock, key := ownSite.guid, data := some 1 }
  block := ⟨fun _ => 0, 8⟩
  frontiers := some [{}]

lemma withLock_at {s : ℕ} (h : s = 4 ∨ s = 6 ∨ s = 2) :
    (withLock (word s 1)).item.At ownSite.guid s :=
  ⟨h, 1, rfl, rfl, by omega, by decide⟩

lemma valid_withLock {s : ℕ} (h : s = 4 ∨ s = 6 ∨ s = 2) : (withLock (word s 1)).Valid ownSite :=
  ⟨.inr ⟨s, withLock_at h⟩, fun _ => rfl⟩

/-- A get of an available datablock is settled. -/
theorem settles_iff_available :
    (withLock (word 2 1)).Settles ownSite (.get (Guid.make 2 0 2) 0 0 8 false) :=
  (settles_iff (valid_withLock (.inr (.inr rfl)))).2 (.inr (.inr (by decide)))

/-- While a newer copy of the datablock is on its way, a get calls itself for ever, and a request takes
the datablock for destroyed. -/
theorem requested_not_settled : (withLock (word 6 1)).Valid ownSite ∧
    (∀ fuel, (withLock (word 6 1)).call ownSite fuel (.get (Guid.make 2 0 2) 0 0 8 false) = none) ∧
    ((withLock (word 6 1)).call ownSite 1 (.request (Guid.make 2 0 2) 0 false)).map
      AccessResult.ending = some .emptied ∧
    (withLock (word 6 1)).item.found ownSite.guid .allocatedKey = true := by
  have hat := withLock_at (.inr (.inl rfl) : 6 = 4 ∨ 6 = 6 ∨ 6 = 2)
  refine ⟨valid_withLock (.inr (.inl rfl)), fun fuel => ?_, by decide, hat.allocated_found⟩
  exact never_returns (.inl hat) (by decide) (by decide) fuel

end AccessDb

end Arts
