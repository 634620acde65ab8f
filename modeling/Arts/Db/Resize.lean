import Arts.Db.Slice

/-!
# Resizing a datablock

`arts_db_resize` does not store the address of the new block, and copies the whole old block however
small the new one is (**`DbHeap.resized_iff`**).
-/

namespace Arts

open Option

/-- The blocks that are allocated, by address, and what a lookup of the GUID finds. -/
structure DbHeap where
  data : Option ℕ
  blocks : ℕ → Option DbBlock

/-- The outcome of `arts_db_resize`: the memory, the pointer, how many bytes `memcpy` copied, with the
header, and how many were allocated. -/
structure ResizeResult where
  heap : DbHeap
  ptr : Option ℕ
  copied : ℕ
  allocated : ℕ

-- `sizeof(struct arts_db_s)`
variable (header : ℕ)

/-- `arts_db_resize_ptr`; `new` is what `arts_calloc_align` returns. -/
def DbHeap.resizePtr (m : DbHeap) (dbRes : Option ℕ) (size : ℕ) (copy : Bool) (new : Option ℕ) :
    ResizeResult :=
  match dbRes, new with
  | some q, some p =>
    let old := (m.blocks q).getD ⟨fun _ => 0, 0⟩
    let oldSize := (old.dataSize + header) % 2 ^ 32
    let copied := if copy then oldSize else header
    let bytes := writeMem (fun _ => 0) 0 (readMem old.bytes 0 (copied - header))
    -- `header.size` has 64 bits, unlike `old_size` and `new_size`
    { heap := { m with
        blocks := Function.update (Function.update m.blocks q none) p (some ⟨bytes, size⟩) }
      ptr := some p, copied, allocated := (size + header) % 2 ^ 32 }
  | _, _ => ⟨m, none, 0, 0⟩

/-- `arts_db_resize` -/
def DbHeap.resize (m : DbHeap) (size : ℕ) (copy : Bool) (new : Option ℕ) : ResizeResult :=
  m.resizePtr header m.data size copy new

/-- The block at `p` is `old` resized, and the copy stays inside both blocks. -/
structure ResizeResult.Resized (r : ResizeResult) (old : DbBlock) (size : ℕ) (copy : Bool) (p : ℕ) :
    Prop where
  read : r.copied ≤ old.dataSize + header
  written : r.copied ≤ r.allocated
  block : ∃ b, r.heap.blocks p = some b ∧ b.dataSize = size ∧
    (copy → ∀ k < size, b.bytes k = if k < old.dataSize then old.bytes k else 0)

lemma writeMem_readMem_zero (f : ℕ → UInt8) (n k : ℕ) :
    writeMem (fun _ => 0) 0 (readMem f 0 n) k = if k < n then f k else 0 := by
  rw [writeMem, if_pos k.zero_le, Nat.sub_zero, List.getD_eq_getElem?_getD]
  split_ifs with hk
  · rw [getElem?_readMem _ _ hk, Nat.zero_add, getD_some]
  · rw [List.getElem?_eq_none (by simpa using hk), getD_none]

variable {header} {m : DbHeap} {old : DbBlock} {size : ℕ} {copy : Bool} {new : Option ℕ}

lemma DbHeap.resize_some (copy : Bool) {q p : ℕ} (hdata : m.data = some q) (hq : m.blocks q = some old)
    (hp : m.blocks p = none) (ha : old.dataSize + header < 2 ^ 32) (hb : size + header < 2 ^ 32) :
    let r := m.resize header size copy (some p)
    r.ptr = some p ∧ (r.heap.data = some q ∧ r.heap.blocks q = none) ∧
      (r.Resized header old size copy p ↔ copy = false ∨ old.dataSize ≤ size) := by
  have hne : q ≠ p := by rintro rfl; simp [hq] at hp
  rw [resize, hdata, resizePtr, hq]
  refine ⟨rfl, ⟨hdata, ?_⟩, fun h => ?_, fun h => ⟨?_, ?_, ?_⟩⟩
  · simp [hne]
  · have hw := h.written
    cases copy with
    | false => exact .inl rfl
    | true =>
      simp only [getD_some, if_true] at hw
      exact .inr (by omega)
  · simp only [getD_some]
    split_ifs <;> omega
  · simp only [getD_some, Nat.mod_eq_of_lt ha, Nat.mod_eq_of_lt hb]
    rcases h with rfl | hle
    · simp
    · split_ifs <;> omega
  · refine ⟨_, Function.update_self .., rfl, fun hcopy k _ => ?_⟩
    refine (writeMem_readMem_zero ..).trans ?_
    rw [if_pos hcopy, getD_some, Nat.mod_eq_of_lt ha, Nat.add_sub_cancel]

/-- **What `arts_db_resize` keeps**: the GUID leads to the datablock that is returned only if it
returns `NULL`; otherwise to the block that was freed. -/
theorem DbHeap.resized_iff (hold : ∀ q, m.data = some q → m.blocks q = some old)
    (hnew : ∀ p, new = some p → m.blocks p = none)
    (ha : old.dataSize + header < 2 ^ 32) (hb : size + header < 2 ^ 32) :
    let r := m.resize header size copy new
    ((∀ p, r.ptr = some p → r.heap.data = some p ∧ r.Resized header old size copy p) ↔
      m.data = none ∨ new = none) ∧
    ∀ q p, m.data = some q → new = some p → r.ptr = some p ∧
      (r.heap.data = some q ∧ r.heap.blocks q = none) ∧
      (r.Resized header old size copy p ↔ copy = false ∨ old.dataSize ≤ size) := by
  rcases hdata : m.data with _ | q
  · have hnone : (m.resize header size copy new).ptr = none := by rw [resize, hdata]; rfl
    exact ⟨⟨fun _ => .inl rfl, fun _ p hp => by simp [hnone] at hp⟩, fun q p h => by cases h⟩
  rcases new with _ | p
  · have hnone : (m.resize header size copy none).ptr = none := by rw [resize, hdata]; rfl
    exact ⟨⟨fun _ => .inr rfl, fun _ p hp => by simp [hnone] at hp⟩, fun q p _ h => by cases h⟩
  obtain ⟨hptr, hlost, hres⟩ := resize_some copy hdata (hold q hdata) (hnew p rfl) ha hb
  refine ⟨⟨fun h => ?_, fun h => by simp at h⟩, ?_⟩
  · obtain ⟨hp, hr⟩ := h p hptr
    obtain ⟨b, hb, -⟩ := hr.block
    have hfreed := hlost.2
    rw [some.inj (hlost.1.symm.trans hp), hb] at hfreed
    cases hfreed
  · rintro q' p' hq hp
    cases hq
    cases hp
    exact ⟨hptr, hlost, hres⟩

/-- Eight bytes at address 0. -/
def DbHeap.eight : DbHeap where
  data := some 0
  blocks p := if p = 0 then some ⟨fun k => k.toUInt8, 8⟩ else none

/-- Without memory for the new block the datablock stays. -/
theorem DbHeap.resized_eight : (DbHeap.eight.resize 96 16 true none).ptr = none ∧
    ∀ p, (DbHeap.eight.resize 96 16 true none).ptr = some p →
    (DbHeap.eight.resize 96 16 true none).heap.data = some p ∧
      (DbHeap.eight.resize 96 16 true none).Resized 96 ⟨fun k => k.toUInt8, 8⟩ 16 true p :=
  ⟨rfl, (resized_iff (by rintro q ⟨⟩; rfl) (by rintro p ⟨⟩) (by decide) (by decide)).1.2 (.inr rfl)⟩

/-- Eight bytes are resized to 16 and to 4; in the second case `memcpy` writes 4 bytes behind the
new block. -/
theorem DbHeap.resize_loses_block :
    ((DbHeap.eight.resize 96 16 true (some 1)).ptr = some 1 ∧
      (DbHeap.eight.resize 96 16 true (some 1)).heap.data = some 0 ∧
      (DbHeap.eight.resize 96 16 true (some 1)).heap.blocks 0 = none) ∧
    (DbHeap.eight.resize 96 4 true (some 1)).copied = 104 ∧
      (DbHeap.eight.resize 96 4 true (some 1)).allocated = 100 := by
  refine ⟨⟨rfl, rfl, rfl⟩, by decide, by decide⟩

end Arts
