import Arts.Db.Access
import Arts.Db.Acquisition
import Arts.Edt.AcquireDbs

/-!
# Creating an EDT that is ready

The dependences are copied into its slots. This is the same as one signal per dependence, except
that the number of bytes is cut to 32 bits (**`CreateState.fused_iff`**).
-/

namespace Arts

open List Option Guid DepSlot

/-- The first `k` words of a slot, over a slot of zeros. -/
def DepSlot.firstWords (d : DepSlot) (k : ℕ) : DepSlot where
  guid := if 0 < k then d.guid else null
  ptr := if 1 < k then d.ptr else .addr 0
  mode := if 2 < k then d.mode else .null
  flags := if 2 < k then d.flags else 0
  sliceOffset := if 3 < k then d.sliceOffset else 0
  sliceSize := if 4 < k then d.sliceSize else 0

/-- The `memcpy` of `n` bytes of dependences into empty slots; a slot has 40 bytes. -/
def copySlots (n : ℕ) (depv : List DepSlot) : List DepSlot :=
  depv.mapIdx fun i d => d.firstWords (n / 8 - 5 * i)

/-- `dep_space`, an `unsigned int` -/
def depSpace (depc : ℕ) : ℕ := 40 * depc % 2 ^ 32

structure NewEdt where
  depv : List DepSlot := []
  /-- `depc_needed` -/
  needed : UInt32 := 0
  epochGuid : Guid := null
  /-- The completions that are registered, with their slots. -/
  pending : List (ℕ × Completion) := []

/-- The new EDT, the datablocks, the epochs and the ready queues of a rank. -/
structure CreateState where
  dbs : Guid → Option DbView := fun _ => none
  /-- The slices that the frontiers take: the datablock, the number of the frontier and the slot. -/
  slices : List (Guid × ℕ × ℕ) := []
  /-- The active and queued counts of the epochs, and of the epoch of the shutdown. -/
  active : Guid → ℕ := fun _ => 0
  queued : Guid → ℕ := fun _ => 0
  shutdownActive : ℕ := 0
  shutdownQueued : ℕ := 0
  /-- How often an EDT has been put on a ready queue. -/
  ready : ℕ := 0
  edt : NewEdt := {}

/-- The frontiers after the acquire of a slot. -/
def registerSlot (e : EdtSite) (i : ℕ) (d : DepSlot) (v : DbView) : DbView :=
  if d.sliceSize ≠ 0 then
    -- `arts_request_db_slice`
    if v.dbType = .dbLocal ∨ v.validRank = e.self then
      { v with frontiers := v.frontiers.map AccessDb.withOpen }
    else v
  else if v.dbType ≠ .dbLocal ∧ d.guid.getRank.toNat = e.self ∧ d.mode ≠ .lcSync then
    let r := addDbDuplicateEx e.self (v.frontiers.getD [{}]) e.self (some e.edt) (.ofNat i) d.mode d.flags
    { v with frontiers := some r.frontiers }
  else v

/-- The frontier that takes the slice. -/
def sliceFrontier (e : EdtSite) (d : DepSlot) (v : DbView) : Option ℕ :=
  if d.sliceSize ≠ 0 ∧ (v.dbType = .dbLocal ∨ v.validRank = e.self) then
    v.frontiers.map AccessDb.openFrontier
  else none

namespace CreateState

variable (e : EdtSite)

/-- The epoch of a new EDT, given the list of the thread. -/
def currentEpoch (epochList : List Guid) (epoch : Guid) : Guid :=
  if epoch ≠ null ∧ epoch ∈ epochList then epoch else epochList.getLastD null

/-- `arts_edt_create_internal`, for a new GUID, this rank and at least one slot. Slots for which there is no
memory, since `edt_space` is cut to 32 bits too, are taken to be zero and to be writable. -/
def edtCreateInternal (s : CreateState) (epochList : List Guid) (epoch : Guid) (depc : ℕ)
    (initialDepv : Option (List DepSlot)) : CreateState :=
  let g := currentEpoch epochList epoch
  { s with
    active := if g = null then s.active else Function.update s.active g (s.active g + 1)
    shutdownActive := s.shutdownActive + 1
    edt :=
      { depv := (initialDepv.map (copySlots (depSpace depc))).getD (replicate depc {})
        needed := .ofNat depc
        epochGuid := g } }

/-- `acquire_dbs`, for one slot -/
def acquireNext (s : CreateState) (i : ℕ) : Option (CreateState) := do
  let d ← s.edt.depv[i]?
  let r ← acquireSlot e i d (s.dbs d.guid)
  -- the slots that need no datablock are skipped
  let v := if d.settled then none else s.dbs d.guid
  some { s with
    dbs := (v.map fun v =>
      Function.update s.dbs d.guid (some (registerSlot e i (d.promote e.ranks) v))).getD s.dbs
    slices := s.slices ++ ((v.bind (sliceFrontier e d)).map fun k => (d.guid, k, i)).toList
    edt := { s.edt with
      depv := s.edt.depv.set i r.slot
      needed := if r.counted then s.edt.needed - 1 else s.edt.needed
      pending := s.edt.pending ++ r.completions.map fun c => (i, c) } }

/-- `acquire_dbs` -/
def acquireDbs (s : CreateState) : Option (CreateState) :=
  let n := s.edt.depv.length
  (sortSlots (fun k => (s.edt.depv[k]?.map guid).getD 0) n).foldlM (acquireNext e)
    { s with edt := { s.edt with needed := .ofNat (n + 1) } }

/-- `arts_handle_ready_edt` -/
def handleReadyEdt (s : CreateState) : Option (CreateState) := do
  let s ← s.acquireDbs e
  let s := { s with edt := { s.edt with needed := s.edt.needed - 1 } }
  let g := s.edt.epochGuid
  if s.edt.needed = 0 then
    some { s with
      queued := if g = null then s.queued else Function.update s.queued g (s.queued g + 1)
      shutdownQueued := s.shutdownQueued + 1
      ready := s.ready + 1 }
  else some s

/-- `internal_signal_edt_ex` -/
def signalEdt (s : CreateState) (slot : ℕ) (sig : EdtSignal) : Option (CreateState) :=
  let s := { s with edt := { s.edt with
    depv := s.edt.depv.modify slot sig.write
    needed := s.edt.needed - 1 } }
  if s.edt.needed = 0 then s.handleReadyEdt e else some s

/-- `arts_add_dependence_ex`, for a datablock or no source -/
def addDependenceEx (s : CreateState) (source : Guid) (slot : ℕ) (mode : AccessMode) (flags : UInt32) :
    Option (CreateState) :=
  if source = null ∨ source.getType = .db then
    s.signalEdt e slot { dataGuid := source, mode := mode, flags := flags, noPtr := fun _ => ⟨rfl, rfl⟩ }
  else none

/-- `arts_add_dependence_at_ex`, for a datablock; `none` is an `ARTS_ERROR`. -/
def addDependenceAtEx (s : CreateState) (source : Guid) (slot : ℕ) (mode : AccessMode)
    (offset len : UInt64) (flags : UInt32) : Option (CreateState) :=
  if offset = 0 ∧ len = 0 then s.addDependenceEx e source slot mode flags
  else if source.getType = .db ∧ mode = .ro ∧ len ≠ 0 ∧ offset.toNat < 2 ^ 32 ∧ len.toNat < 2 ^ 32 then
    -- `arts_set_dep_metadata_ext`
    let s := { s with edt := { s.edt with depv := s.edt.depv.modify slot fun d =>
      { d with mode := mode, flags := flags, sliceOffset := offset, sliceSize := len } } }
    s.signalEdt e slot { dataGuid := source }
  else none

/-- One dependence per slot, from the slot `k` on. -/
def addDependences : CreateState → ℕ → List DepSlot → Option (CreateState)
  | s, _, [] => some s
  | s, k, d :: ds => do
    let s ← s.addDependenceAtEx e d.guid k d.mode d.sliceOffset d.sliceSize d.flags
    s.addDependences (k + 1) ds

/-- `arts_edt_create_ready_local_with_epoch` -/
def createReadyLocal (s : CreateState) (epochList : List Guid) (epoch : Guid) (depv : List DepSlot) :
    Option (CreateState) :=
  (s.edtCreateInternal epochList epoch depv.length (some depv)).handleReadyEdt e

/-- `arts_edt_create_with_epoch`, and the dependences in the order of the slots -/
def createThenDepend (s : CreateState) (epochList : List Guid) (epoch : Guid) (depv : List DepSlot) :
    Option (CreateState) :=
  (s.edtCreateInternal epochList epoch depv.length none).addDependences e 0 depv

end CreateState

/-- The dependences in question: on a datablock or on nothing, without a pointer, and slices that are read. -/
structure DepSlot.Source (d : DepSlot) : Prop where
  ptr : d.ptr = .addr 0
  guid : d.guid = null ∨ d.guid.getType = .db
  slice : d.sliceOffset = 0 ∧ d.sliceSize = 0 ∨ d.guid.getType = .db ∧ d.mode = .ro ∧ d.sliceSize ≠ 0 ∧
    d.sliceOffset.toNat < 2 ^ 32 ∧ d.sliceSize.toNat < 2 ^ 32

section Copy

variable {d : DepSlot} {depv : List DepSlot}

lemma firstWords_of_le {k : ℕ} (hk : 5 ≤ k) : d.firstWords k = d := by
  have h : ∀ j < 5, j < k := fun j hj => Nat.lt_of_lt_of_le hj hk
  simp [firstWords, h]

lemma copySlots_depSpace (h : 40 * depv.length < 2 ^ 32) :
    copySlots (depSpace depv.length) depv = depv := by
  refine ext_getElem (by simp [copySlots]) fun i h₁ h₂ => ?_
  simp only [copySlots, getElem_mapIdx, depSpace]
  exact firstWords_of_le (by omega)

end Copy

namespace CreateState

variable {e : EdtSite} {d : DepSlot}

lemma modify_append_cons (f : DepSlot → DepSlot) (l r : List DepSlot) (x : DepSlot) :
    (l ++ x :: r).modify l.length f = l ++ f x :: r := by
  induction l with
  | nil => rfl
  | cons a l ih => simp [ih]

lemma addDependenceAtEx_eq (hd : d.Source) (s : CreateState) (done rest : List DepSlot)
    (hs : s.edt.depv = done ++ {} :: rest) :
    s.addDependenceAtEx e d.guid done.length d.mode d.sliceOffset d.sliceSize d.flags =
      (let s := { s with edt := { s.edt with depv := done ++ d :: rest, needed := s.edt.needed - 1 } }
       if s.edt.needed = 0 then s.handleReadyEdt e else some s) := by
  obtain ⟨guid, ptr, mode, flags, offset, size⟩ := d
  obtain ⟨hptr, hguid, hslice⟩ := hd
  obtain rfl : ptr = .addr 0 := hptr
  obtain hslice | ⟨hdb, hro, hlen, hoff, hsize⟩ := hslice
  · obtain ⟨rfl, rfl⟩ : offset = 0 ∧ size = 0 := hslice
    simp only [addDependenceAtEx, addDependenceEx, and_self, if_true, if_pos hguid, signalEdt, hs,
      modify_append_cons]
    have hwrite : ∀ h, EdtSignal.write ⟨guid, mode, flags, 0, [], h⟩ {} = ⟨guid, .addr 0, mode, flags, 0, 0⟩ := by
      intro h
      by_cases hm : mode = .null <;> by_cases hf : flags = 0 <;> simp [EdtSignal.write, hm, hf]
    rw [hwrite]
  · have hne : ¬ (offset = 0 ∧ size = 0) := fun h => hlen h.2
    obtain rfl : mode = .ro := hro
    rw [addDependenceAtEx, if_neg hne, if_pos ⟨hdb, rfl, hlen, hoff, hsize⟩]
    simp only [signalEdt, hs, modify_append_cons]
    rfl

lemma addDependences_eq (s : CreateState) {depv : List DepSlot} (done : List DepSlot)
    (hsrc : ∀ d ∈ depv, d.Source) (hne : depv ≠ []) (hlt : depv.length < 2 ^ 32)
    (hs : s.edt.depv = done ++ replicate depv.length ({} : DepSlot)) (hn : s.edt.needed = .ofNat depv.length) :
    s.addDependences e done.length depv =
      handleReadyEdt e { s with edt := { s.edt with depv := done ++ depv } } := by
  induction depv generalizing s done with
  | nil => exact absurd rfl hne
  | cons d ds ih =>
    rw [addDependences, addDependenceAtEx_eq (hsrc d mem_cons_self) s done _ hs, hn]
    cases ds with
    | nil =>
      have h0 : UInt32.ofNat [d].length - 1 = 0 := by rw [length_singleton]; decide
      simp only [h0]
      exact bind_fun_some _
    | cons d' ds =>
      have hsub : UInt32.ofNat (d :: d' :: ds).length - 1 = .ofNat (d' :: ds).length := by
        rw [length_cons, UInt32.ofNat_add]
        exact UInt32.add_sub_cancel _ _
      have h0 : UInt32.ofNat (d' :: ds).length ≠ 0 := by
        intro h
        have := congrArg UInt32.toNat h
        rw [UInt32.toNat_ofNat', Nat.mod_eq_of_lt (Nat.lt_of_succ_lt hlt)] at this
        exact Nat.succ_ne_zero _ this
      simp only [hsub, if_neg h0]
      have := ih { s with edt := { s.edt with
        depv := done ++ d :: replicate (d' :: ds).length ({} : DepSlot)
        needed := .ofNat (d' :: ds).length } } (done ++ [d]) (fun x hx => hsrc x (.tail _ hx)) (by simp)
        (Nat.lt_of_succ_lt hlt) (by simp) rfl
      simp only [append_assoc, length_append] at this
      exact this

lemma createThenDepend_eq (s : CreateState) (epochList : List Guid) (epoch : Guid) {depv : List DepSlot}
    (hne : depv ≠ []) (hsrc : ∀ d ∈ depv, d.Source) (hlt : depv.length < 2 ^ 32) :
    s.createThenDepend e epochList epoch depv =
      (let s := s.edtCreateInternal epochList epoch depv.length none
       handleReadyEdt e { s with edt := { s.edt with depv := depv } }) :=
  addDependences_eq _ [] hsrc hne hlt rfl rfl

lemma fused_eq (s : CreateState) (epochList : List Guid) (epoch : Guid) {depv : List DepSlot}
    (hne : depv ≠ []) (hsrc : ∀ d ∈ depv, d.Source) (hlt : 40 * depv.length < 2 ^ 32) :
    s.createReadyLocal e epochList epoch depv = s.createThenDepend e epochList epoch depv := by
  rw [createThenDepend_eq s epochList epoch hne hsrc (by omega), createReadyLocal, edtCreateInternal]
  simp only [map_some, copySlots_depSpace hlt]
  rfl

/-! ### Too many slots -/

lemma acquireSlot_none {i : ℕ} (hmode : d.mode ≠ .rw) (hslice : d.sliceSize ≠ 0 → d.mode = .ro) :
    ∃ c cs, acquireSlot e i d none = some ⟨d, c, cs⟩ := by
  have hpromote : d.promote e.ranks = d := by simp [promote, hmode]
  unfold acquireSlot
  rw [hpromote]
  by_cases hnull : d.guid = null ∧ d.mode ≠ .null
  · exact ⟨_, _, if_pos hnull⟩
  rw [if_neg hnull]
  by_cases hdb : d.guid ≠ null ∧ d.ptr = .addr 0
  · rw [if_pos hdb]
    by_cases hvalue : d.mode = .value
    · exact ⟨_, _, if_pos hvalue⟩
    rw [if_neg hvalue]
    cases d.guid.getType with
    | db =>
      by_cases hs : d.sliceSize ≠ 0
      · exact ⟨_, _, (if_pos hs).trans (if_neg (not_not.2 (hslice hs)))⟩
      · exact ⟨_, _, if_neg hs⟩
    | _ => exact ⟨_, _, rfl⟩
  · exact ⟨_, _, if_neg hdb⟩

lemma foldlM_acquireNext {ks : List ℕ} {s : CreateState} (hdbs : s.dbs = fun _ => none)
    (hslots : ∀ d ∈ s.edt.depv, d.mode ≠ .rw ∧ (d.sliceSize ≠ 0 → d.mode = .ro))
    (hks : ∀ i ∈ ks, i < s.edt.depv.length) :
    ∃ s', ks.foldlM (acquireNext e) s = some s' ∧ s'.edt.depv = s.edt.depv := by
  induction ks generalizing s with
  | nil => exact ⟨s, rfl, rfl⟩
  | cons i ks ih =>
    have hi := hks i mem_cons_self
    have hd := hslots _ (getElem_mem hi)
    obtain ⟨c, cs, hacquire⟩ := acquireSlot_none (e := e) (i := i) hd.1 hd.2
    have hnext : ∃ s', acquireNext e s i = some s' ∧ s'.dbs = s.dbs ∧ s'.edt.depv = s.edt.depv := by
      simp [acquireNext, getElem?_eq_getElem hi, hdbs, hacquire]
    obtain ⟨s', hs', hdbs', hdepv⟩ := hnext
    obtain ⟨s'', hs'', hdepv'⟩ := ih (by rw [hdbs', hdbs]) (by rwa [hdepv])
      (by rw [hdepv]; exact fun j hj => hks j (.tail _ hj))
    refine ⟨s'', ?_, hdepv'.trans hdepv⟩
    rw [foldlM_cons, hs']
    exact hs''

lemma handleReadyEdt_none {s : CreateState} (hdbs : s.dbs = fun _ => none)
    (hslots : ∀ d ∈ s.edt.depv, d.mode ≠ .rw ∧ (d.sliceSize ≠ 0 → d.mode = .ro)) :
    ∃ s', s.handleReadyEdt e = some s' ∧ s'.edt.depv = s.edt.depv := by
  obtain ⟨s', hs', hdepv⟩ := foldlM_acquireNext
    (s := { s with edt := { s.edt with needed := .ofNat (s.edt.depv.length + 1) } }) hdbs hslots
    fun i hi => mem_range.1 ((sortSlots_perm _).mem_iff.1 hi)
  unfold handleReadyEdt acquireDbs
  rw [hs']
  by_cases h0 : s'.edt.needed - 1 = 0
  · exact ⟨_, if_pos h0, hdepv⟩
  · exact ⟨_, if_neg h0, hdepv⟩

def oneByte : DepSlot := { guid := make 6 0 5, mode := .ro, sliceSize := 1 }

lemma source_oneByte : oneByte.Source := by
  refine ⟨rfl, .inr ?_, .inr ⟨?_, rfl, ?_, ?_, ?_⟩⟩ <;> decide

lemma fused_ne_replicate {n : ℕ} (hn : n < 2 ^ 32) (hle : 2 ^ 32 ≤ 40 * n) :
    createReadyLocal e {} [] null (replicate n oneByte) ≠
      createThenDepend e {} [] null (replicate n oneByte) := by
  have hsrc : ∀ d ∈ replicate n oneByte, d.Source := by
    intro d hd
    rw [eq_of_mem_replicate hd]
    exact source_oneByte
  have hwords : ∀ k, (oneByte.firstWords k).mode ≠ .rw ∧
      ((oneByte.firstWords k).sliceSize ≠ 0 → (oneByte.firstWords k).mode = .ro) := by
    intro k
    by_cases h2 : 2 < k
    · simp [firstWords, oneByte, h2]
    · have h4 : ¬ 4 < k := by omega
      simp [firstWords, h2, h4]
  have hne : replicate n oneByte ≠ [] := by
    rw [Ne, replicate_eq_nil_iff]
    omega
  obtain ⟨s₁, hs₁, hdepv₁⟩ := handleReadyEdt_none
    (s := edtCreateInternal {} [] null _ (some (replicate n oneByte))) rfl (by
      intro d hd
      obtain ⟨i, hi, rfl⟩ := mem_mapIdx.1 hd
      rw [getElem_replicate]
      exact hwords _)
  obtain ⟨s₂, hs₂, hdepv₂⟩ := handleReadyEdt_none
    (s := (let s := edtCreateInternal {} [] null (replicate n oneByte).length none
      { s with edt := { s.edt with depv := replicate n oneByte } })) rfl (by
      intro d hd
      rw [eq_of_mem_replicate hd]
      exact ⟨by decide, fun _ => rfl⟩)
  rw [createReadyLocal, hs₁, createThenDepend_eq {} [] null hne hsrc (by rwa [length_replicate]), hs₂]
  intro h
  have hcopy : copySlots (depSpace n) (replicate n oneByte) = replicate n oneByte := by
    have := congrArg (fun s => s.edt.depv) (some.inj h)
    rw [hdepv₁, hdepv₂] at this
    simpa [edtCreateInternal] using this
  have hlast := congrArg (fun l => l[n - 1]?.map sliceSize) hcopy
  have hlt : n - 1 < n := by omega
  have hcut : ¬ 4 < depSpace n / 8 - 5 * (n - 1) := by
    unfold depSpace
    omega
  simp [copySlots, hlt, firstWords, hcut, oneByte] at hlast

end CreateState

end Arts
