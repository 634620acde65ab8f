import Arts.Db.Cdag

/-!
# Accesses of a datablock that has not been created

They are queued on the GUID and replayed before the creator acquires the datablock, hence not
ordered behind it (`Reserved.deferred_ordered`).
-/

namespace Arts

open List Option

namespace Cdag

/-- `arts_db_request_callback`: the slot is served, whatever the frontier list is. -/
def dbRequestCallback (s : Cdag) (a : Acquire) : Cdag :=
  { s with requests := s.requests ++ [a], granted := s.granted ++ [a] }

/-- `arts_db_auto_acquire`: the head is sealed for the EDT that creates the datablock. -/
def autoAcquire (s : Cdag) : Cdag := { s with frontiers := (closeFrontier s.frontiers).1 }

/-- `arts_db_create_with_guid_impl`, called by an EDT: the queue is replayed, then the datablock is
acquired for the EDT. -/
def createWithGuid (deferred : List Acquire) : Cdag :=
  (deferred.foldl dbRequestCallback ⟨[{}], [], [], []⟩).autoAcquire

lemma foldl_dbRequestCallback (qs : List Acquire) (s : Cdag) : qs.foldl dbRequestCallback s =
    { s with requests := s.requests ++ qs, granted := s.granted ++ qs } := by
  induction qs generalizing s with
  | nil => simp
  | cons q qs ih => simp [ih, dbRequestCallback]

lemma createWithGuid_eq (deferred : List Acquire) :
    createWithGuid deferred = ⟨autoAcquired, deferred, deferred, []⟩ := by
  rw [createWithGuid, foldl_dbRequestCallback]
  rfl

end Cdag

/-- A datablock whose GUID has been reserved on its owner rank. -/
structure Reserved where
  /-- The accesses that were queued before the creation. -/
  deferred : List Acquire
  db : Option Cdag

namespace Reserved

inductive Act where
  | acquire (a : Acquire) (flags : UInt32)
  | create
  | release (w : Writer)

/-- Before the creation an access is queued; afterwards the frontiers order the accesses. -/
def next (self : ℕ) (s : Reserved) : Act → Option Reserved
  | .acquire a flags =>
    match s.db with
    | none =>
      if (a.mode = .ro ∨ a.mode = .ew) ∧ ∀ b ∈ s.deferred, (b.edt, b.slot) ≠ (a.edt, a.slot) then
        some { s with deferred := s.deferred ++ [a] }
      else none
    | some c => (c.next self (.acquire a flags)).map fun c => { s with db := some c }
  | .create =>
    match s.db with
    | none => some { s with db := some (Cdag.createWithGuid s.deferred) }
    | some _ => none
  | .release w =>
    match s.db with
    | none => none
    | some c => (c.next self (.release w)).map fun c => { s with db := some c }

def machine (self : ℕ) : Machine Reserved Act where
  init s := s = ⟨[], none⟩
  next := next self

/-- The queued accesses are ordered behind the creator. -/
structure Ordered (s : Reserved) : Prop where
  waits : ∀ c ∈ s.db, ∀ a ∈ s.deferred, a ∈ c.granted → .creator ∈ c.released
  registered : ∀ c ∈ s.db, .creator ∉ c.released → ∀ a ∈ s.deferred,
    ∃ f ∈ c.frontiers, a ∈ f.localDelayed
  /-- The release of a writer removes the frontier in which that writer is registered. -/
  releases : ∀ c ∈ s.db, ∀ w, c.Holds w → ∃ f, c.frontiers.head? = some f ∧ f.writeSet = true ∧
    f.localWriteEdt = w.edt?

variable {self : ℕ} {s : Reserved}

lemma head_of_holds {c : Cdag} (hc : c.Inv) {w : Writer} (hw : c.Holds w) :
    ∃ f, c.frontiers.head? = some f ∧ f.writeSet = true ∧ f.localWriteEdt = w.edt? := by
  have hget := hc.getElem?_of_holds hw
  have hlt := (List.getElem?_eq_some_iff.1 hget).1
  have hle := hc.le_length
  have hpos : 0 < c.frontiers.length := by omega
  have hf := hc.frontier 0 _ (getElem?_eq_getElem hpos)
  refine ⟨c.frontiers[0], by rw [head?_eq_getElem?, getElem?_eq_getElem hpos], ?_, ?_⟩
  · rw [hf.writeSet, decide_eq_true_eq]
    exact hlt
  · rw [hf.localWriteEdt, Nat.add_zero, hget, bind_some]

/-- A datablock on which nothing was queued follows the order of the frontiers. -/
structure Regular (s : Reserved) : Prop where
  deferred : s.deferred = []
  db : ∃ c, s.db = some c ∧ c.Inv

lemma Regular.next (hs : s.Regular) {l : Act} {s' : Reserved} (h : s.next self l = some s') :
    s'.Regular := by
  obtain ⟨hd, c, hc, hinv⟩ := hs
  cases l with
  | acquire a flags | release w =>
    simp only [Reserved.next, hc] at h
    obtain ⟨c', hc', rfl⟩ := map_eq_some_iff.1 h
    exact ⟨hd, c', rfl, hinv.next hc'⟩
  | create => simp [Reserved.next, hc] at h

lemma Regular.toOrdered (hs : s.Regular) : s.Ordered := by
  obtain ⟨hd, c, hc, hinv⟩ := hs
  refine ⟨fun _ _ a ha => ?_, fun _ _ _ a ha => ?_, fun c' hc' w hw => ?_⟩
  · rw [hd] at ha
    cases ha
  · rw [hd] at ha
    cases ha
  · obtain rfl : c = c' := some.inj (hc.symm.trans hc')
    exact head_of_holds hinv hw

/-- **From the creation on the order is kept in every run exactly if no access was queued.** -/
theorem deferred_ordered {s' : Reserved} (hcreate : s.next self .create = some s') :
    (∀ t, (machine self).Leads s' t → t.Ordered) ↔ s.deferred = [] := by
  obtain ⟨hnone, rfl⟩ : s.db = none ∧
      { s with db := some (Cdag.createWithGuid s.deferred) } = s' := by
    cases hdb : s.db with
    | none => exact ⟨rfl, by simpa [Reserved.next, hdb] using hcreate⟩
    | some c => simp [Reserved.next, hdb] at hcreate
  constructor
  · intro h
    by_contra hne
    obtain ⟨a, ha⟩ := exists_mem_of_ne_nil _ hne
    have hgr : a ∈ (Cdag.createWithGuid s.deferred).granted := by
      rw [Cdag.createWithGuid_eq]
      exact ha
    have := (h _ (Machine.Leads.refl _)).waits _ rfl a ha hgr
    rw [Cdag.createWithGuid_eq] at this
    cases this
  · intro hd t ht
    have hreg : Regular { s with db := some (Cdag.createWithGuid s.deferred) } :=
      ⟨hd, _, rfl, by rw [hd, Cdag.createWithGuid_eq]; exact Cdag.Inv.init⟩
    exact (ht.invariant hreg fun s l s' hs h => hs.next h).toOrdered

/-- Nothing is queued, and an EDT creates the datablock. -/
theorem deferred_ordered_nil : ∃ s', next 0 ⟨[], none⟩ .create = some s' ∧
    ∀ t, (machine 0).Leads s' t → t.Ordered :=
  ⟨_, rfl, (deferred_ordered (s := ⟨[], none⟩) rfl).2 rfl⟩

/-- An EDT asks to write before the creation: it holds the datablock together with the creator. -/
theorem deferred_not_ordered : ∃ s, (machine 0).Reachable s ∧ ¬ s.Ordered := by
  refine ⟨⟨[⟨.ofKey 1, 0, .ew⟩], some (Cdag.createWithGuid [⟨.ofKey 1, 0, .ew⟩])⟩,
    ⟨_, rfl, [.acquire ⟨.ofKey 1, 0, .ew⟩ 0, .create], rfl⟩, fun h => ?_⟩
  have := h.waits _ rfl _ (mem_singleton_self _) (mem_singleton_self _)
  cases this

end Reserved

end Arts
