import Arts.Graph.Distribution

/-!
# The CSR of a partition

**`Csr.agrees_iff`**: a CSR agrees with the distribution except about the end of the last partition.
-/

namespace Arts

open BlockDist

/-- What `csr_graph_t` keeps of the distribution. -/
structure Csr where
  numLocalVertices : ℕ
  blockSz : ℕ
  index : ℕ
  numBlocks : ℕ

namespace Csr

/-- `init_csr` for a partition of the distribution. -/
def init (d : BlockDist) (partIndex : ℕ) : Csr where
  numLocalVertices := d.getBlockSizeForPartition partIndex
  blockSz := d.getBlockSizeForPartition 0
  index := partIndex
  numBlocks := d.numBlocks

variable (c : Csr)

/-- `get_owner_csr` -/
def getOwnerCsr (v : ℕ) : ℕ := v / c.blockSz % 2 ^ 32

/-- `index_start_csr` -/
def indexStartCsr (index : ℕ) : ℕ := c.blockSz * index % 2 ^ 64

/-- `index_end_csr` -/
def indexEndCsr (index : ℕ) : ℕ :=
  if index = c.numBlocks - 1 then (c.numLocalVertices + 2 ^ 64 - 1) % 2 ^ 64
  else (c.indexStartCsr index + (c.blockSz - 1)) % 2 ^ 64

/-- `get_vertex_from_local_csr` -/
def getVertexFromLocalCsr (u : ℕ) : ℕ := (c.indexStartCsr c.index + u) % 2 ^ 64

/-- `get_local_index_csr`; its `assert` excludes a start behind the vertex. -/
def getLocalIndexCsr (v : ℕ) : ℕ := v - c.indexStartCsr c.index

/-- The CSR of the partition `i` answers as the distribution does. -/
structure Agrees (d : BlockDist) (i : ℕ) : Prop where
  start : c.indexStartCsr c.index = d.partitionStartDistr i
  stop : c.indexEndCsr c.index = d.partitionEndDistr i
  owner : ∀ v < d.numVertices, c.getOwnerCsr v = d.getOwnerDistr v
  vertex : ∀ v, d.Contains i v →
    c.indexStartCsr c.index ≤ v ∧ c.getVertexFromLocalCsr (c.getLocalIndexCsr v) = v

variable {d : BlockDist} {i : ℕ}

/-- Where no block is empty, the CSR of a partition agrees with the distribution exactly if it is not
the last of several: there its end is counted from its own start. -/
theorem agrees_iff (h64 : d.numVertices < 2 ^ 64) (hone : d.numBlocks = 1 → d.blockSz = d.numVertices)
    (hpos : 0 < d.blockSz) (hne : d.blockSz * (d.numBlocks - 1) < d.numVertices)
    (hi : i < d.numBlocks) : (init d i).Agrees d i ↔ i + 1 < d.numBlocks ∨ d.numBlocks = 1 := by
  have hsz : (init d i).blockSz = d.blockSz := by
    show d.getBlockSizeForPartition 0 = _
    rw [getBlockSizeForPartition]
    split_ifs with h0
    · rw [← h0]
      omega
    · rfl
  have hstart : (init d i).indexStartCsr i = d.partitionStartDistr i := by
    rw [indexStartCsr, hsz, partitionStartDistr]
  have hstop : (init d i).indexEndCsr i = d.partitionEndDistr i ↔
      i + 1 < d.numBlocks ∨ d.numBlocks = 1 := by
    have hmul : d.blockSz * (d.numBlocks - 1) = 0 ↔ d.numBlocks = 1 := by
      rw [Nat.mul_eq_zero]
      omega
    rw [indexEndCsr, hstart, hsz, partitionEndDistr]
    dsimp only [init]
    rw [getBlockSizeForPartition, Nat.mul_comm (d.numBlocks - 1)]
    split_ifs <;> omega
  refine ⟨fun h => hstop.1 h.stop, fun h => ⟨hstart, hstop.2 h, fun v _ => ?_, fun v hv => ?_⟩⟩
  · rw [getOwnerCsr, hsz, getOwnerDistr]
  · have hlt : v < 2 ^ 64 := by
      have hle := hv.2
      rw [partitionEndDistr] at hle
      split_ifs at hle <;> omega
    rw [getVertexFromLocalCsr, getLocalIndexCsr]
    simp only [show (init d i).index = i from rfl, hstart]
    exact ⟨hv.1, by rw [Nat.add_sub_cancel' hv.1, Nat.mod_eq_of_lt hlt]⟩

/-- The first of three partitions of eight vertices. -/
theorem agrees_first : (init (.init 8 3) 0).Agrees (.init 8 3) 0 :=
  (agrees_iff (by decide) (by decide) (by decide) (by decide) (by decide)).2 (.inl (by decide))

/-- The last of three partitions of eight vertices ends at the vertex 1. -/
theorem not_agrees_last : (init (.init 8 3) 2).indexEndCsr 2 = 1 ∧
    partitionEndDistr (.init 8 3) 2 = 7 ∧ ¬ (init (.init 8 3) 2).Agrees (.init 8 3) 2 :=
  ⟨by decide, by decide, fun h => absurd h.stop (by decide)⟩

end Csr

end Arts
