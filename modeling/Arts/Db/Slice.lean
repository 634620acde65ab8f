import Arts.Machine.Memory

/-!
# Slices of a datablock

A slice is delivered as a copy of its bytes or, with `ARTS_DEP_FLAG_PRESERVE_SHAPE`, of the payload
with zeros elsewhere. The payload is the memory from `db + 1` on.
-/

namespace Arts

/-- A datablock: the memory from `db + 1` on, and how much of it is the payload. -/
structure DbBlock where
  bytes : ℕ → UInt8
  /-- `header.size - sizeof(struct arts_db_s)` -/
  dataSize : ℕ

/-- `UINT_MAX` -/
def uintMax : ℕ := 2 ^ 32 - 1

/-- A range of the payload, and whether `ARTS_DEP_FLAG_PRESERVE_SHAPE` is set. -/
structure DbSlice where
  offset : ℕ
  size : ℕ
  preserveShape : Bool
  deriving DecidableEq

/-- The slice is in the payload. -/
def DbSlice.InRange (s : DbSlice) (b : DbBlock) : Prop := s.offset + s.size ≤ b.dataSize

namespace DbBlock

/-- `arts_validate_db_slice`; `false` is `ARTS_ERROR`. -/
def validateDbSlice (b : DbBlock) (s : DbSlice) : Bool :=
  s.size ≤ uintMax && s.offset ≤ b.dataSize && s.size ≤ b.dataSize - s.offset

/-- `arts_db_slice_signal_size`; `none` is `ARTS_ERROR`. -/
def sliceSignalSize (b : DbBlock) (s : DbSlice) : Option ℕ :=
  if s.preserveShape then if b.dataSize > uintMax then none else some b.dataSize else some s.size

/-- The copy that `arts_alloc_db_slice_copy` and `arts_alloc_db_slice_payload` make, of `size` bytes. -/
def sliceCopy (b : DbBlock) (s : DbSlice) (size : ℕ) : List UInt8 :=
  let range := readMem b.bytes s.offset s.size
  if s.preserveShape then readMem (writeMem (fun _ => 0) s.offset range) 0 size else range

/-- `arts_signal_db_slice` and `arts_satisfy_local_edt_slice`: what is delivered, or `none` for
`ARTS_ERROR`. -/
def deliverSlice (b : DbBlock) (s : DbSlice) : Option (List UInt8) :=
  if b.validateDbSlice s then (b.sliceSignalSize s).map (b.sliceCopy s) else none

lemma validateDbSlice_iff {b : DbBlock} {s : DbSlice} :
    b.validateDbSlice s ↔ s.size ≤ uintMax ∧ s.InRange b := by
  simp only [validateDbSlice, DbSlice.InRange, Bool.and_eq_true, decide_eq_true_eq]
  omega

end DbBlock

end Arts
