import Mathlib

/-!
# Block distribution of vertices

The blocks have the size `⌈n / blocks⌉`, and the last one gets what is left.
**`BlockDist.partitions_iff`** says exactly when they are a partition with the right sizes, owners
and indices.
-/

namespace Arts

open Nat

/-- `arts_block_dist_t`, with 64-bit numbers of vertices and a 32-bit number of blocks. -/
structure BlockDist where
  numVertices : ℕ
  numBlocks : ℕ
  blockSz : ℕ

namespace BlockDist

/-- `internal_init_block_distribution` -/
def init (n numBlocks : ℕ) : BlockDist where
  numVertices := n
  numBlocks := numBlocks
  blockSz := if 0 < numBlocks then (n + numBlocks - 1) / numBlocks else 0

variable (d : BlockDist)

/-- `get_block_size_for_partition` -/
def getBlockSizeForPartition (index : ℕ) : ℕ :=
  if index = d.numBlocks - 1 then
    (d.numVertices + 2 ^ 64 - (d.numBlocks - 1) * d.blockSz % 2 ^ 64) % 2 ^ 64
  else d.blockSz

/-- `get_owner_distr` -/
def getOwnerDistr (v : ℕ) : ℕ := v / d.blockSz % 2 ^ 32

/-- `partition_start_distr` -/
def partitionStartDistr (index : ℕ) : ℕ := d.blockSz * index % 2 ^ 64

/-- `partition_end_distr` -/
def partitionEndDistr (index : ℕ) : ℕ :=
  if index = d.numBlocks - 1 then d.numVertices - 1
  else (d.partitionStartDistr index + (d.blockSz - 1)) % 2 ^ 64

/-- `get_vertex_from_local_distr` -/
def getVertexFromLocalDistr (block u : ℕ) : ℕ := (d.partitionStartDistr block + u) % 2 ^ 64

/-- `get_local_index_distr`; its `assert` excludes a start behind the vertex. -/
def getLocalIndexDistr (v : ℕ) : ℕ := v - d.partitionStartDistr (d.getOwnerDistr v)

def Contains (i v : ℕ) : Prop := d.partitionStartDistr i ≤ v ∧ v ≤ d.partitionEndDistr i

/-- **The intervals of the blocks are a partition of the vertices**, and the functions agree with it. -/
structure Partitions : Prop where
  disjoint : ∀ i < d.numBlocks, ∀ j < d.numBlocks, i ≠ j → ∀ v, ¬ (d.Contains i v ∧ d.Contains j v)
  cover : ∀ v, (∃ i < d.numBlocks, d.Contains i v) ↔ v < d.numVertices
  size : ∀ i < d.numBlocks, d.getBlockSizeForPartition i =
    d.partitionEndDistr i + 1 - d.partitionStartDistr i
  sum : ∑ i ∈ Finset.range d.numBlocks, d.getBlockSizeForPartition i = d.numVertices
  owner : ∀ v < d.numVertices, d.getOwnerDistr v < d.numBlocks ∧ d.Contains (d.getOwnerDistr v) v
  vertex : ∀ v < d.numVertices, d.partitionStartDistr (d.getOwnerDistr v) ≤ v ∧
    d.getVertexFromLocalDistr (d.getOwnerDistr v) (d.getLocalIndexDistr v) = v

/-- The size of the blocks is large enough, and nothing overflows. -/
structure Fits : Prop where
  vertices : 0 < d.numVertices
  blocks : d.numBlocks < 2 ^ 32
  size : 0 < d.blockSz
  le : d.numVertices ≤ d.blockSz * d.numBlocks
  lt : d.blockSz * d.numBlocks < 2 ^ 63

variable {d}

lemma fits_init {n blocks : ℕ} (hn : 1 ≤ n) (hb : 1 ≤ blocks) (h32 : blocks < 2 ^ 32)
    (hfit : n + blocks < 2 ^ 63) : (init n blocks).Fits := by
  have hdiv := div_add_mod (n + blocks - 1) blocks
  have hmod := mod_lt (n + blocks - 1) hb
  have hsz : (init n blocks).blockSz = (n + blocks - 1) / blocks := if_pos hb
  rw [Nat.mul_comm] at hdiv
  refine ⟨hn, h32, ?_, ?_, ?_⟩ <;> rw [hsz]
  · exact Nat.div_pos (by omega) hb
  · show n ≤ _ * blocks
    omega
  · show _ * blocks < _
    omega

namespace Fits

variable (h : d.Fits) {i v : ℕ}

include h

lemma start_add_le (hi : i < d.numBlocks) : d.partitionStartDistr i = d.blockSz * i ∧
    d.blockSz * i + d.blockSz ≤ d.blockSz * d.numBlocks := by
  have hle : d.blockSz * (i + 1) ≤ d.blockSz * d.numBlocks := Nat.mul_le_mul_left _ hi
  have hlt := h.lt
  rw [mul_succ] at hle
  exact ⟨Nat.mod_eq_of_lt (by omega), hle⟩

lemma contains_iff (hi : i < d.numBlocks) : d.Contains i v ↔ d.blockSz * i ≤ v ∧
    v < if i + 1 = d.numBlocks then d.numVertices else d.blockSz * i + d.blockSz := by
  obtain ⟨hstart, hle⟩ := h.start_add_le hi
  have hpos := h.vertices
  have hsz := h.size
  have hlt := h.lt
  have hlast : i = d.numBlocks - 1 ↔ i + 1 = d.numBlocks := by omega
  rw [Contains, partitionEndDistr, hstart]
  split_ifs <;> omega

lemma owner_eq (hv : v < d.numVertices) :
    d.getOwnerDistr v = v / d.blockSz ∧ v / d.blockSz < d.numBlocks := by
  have hdiv : v / d.blockSz < d.numBlocks := Nat.div_lt_of_lt_mul (hv.trans_le h.le)
  exact ⟨Nat.mod_eq_of_lt (hdiv.trans h.blocks), hdiv⟩

lemma contains_owner (hv : v < d.numVertices) :
    d.getOwnerDistr v < d.numBlocks ∧ d.Contains (d.getOwnerDistr v) v := by
  obtain ⟨ho, hlt⟩ := h.owner_eq hv
  have hhi := lt_mul_div_succ v h.size
  rw [ho, h.contains_iff hlt]
  refine ⟨hlt, mul_div_le v _, ?_⟩
  split_ifs
  · exact hv
  · exact hhi

lemma size_eq (hle : d.blockSz * (d.numBlocks - 1) ≤ d.numVertices) (i : ℕ) :
    d.getBlockSizeForPartition i =
      if i + 1 = d.numBlocks then d.numVertices - d.blockSz * i else d.blockSz := by
  have hpos : 0 < d.numBlocks := by
    refine Nat.pos_of_ne_zero fun h0 => ?_
    have := h.le
    have := h.vertices
    rw [h0] at *
    omega
  have hlast : i = d.numBlocks - 1 ↔ i + 1 = d.numBlocks := by omega
  have hn := h.le
  have hlt := h.lt
  rw [getBlockSizeForPartition, Nat.mul_comm (d.numBlocks - 1)]
  simp only [hlast]
  split_ifs with hi
  · rw [hlast.2 hi]
    omega
  · rfl

lemma sum_size (hle : d.blockSz * (d.numBlocks - 1) ≤ d.numVertices) (hb : 0 < d.numBlocks) :
    ∑ i ∈ Finset.range d.numBlocks, d.getBlockSizeForPartition i = d.numVertices := by
  obtain ⟨k, hk⟩ : ∃ k, d.numBlocks = k + 1 := ⟨d.numBlocks - 1, by omega⟩
  have hconst : ∀ i ∈ Finset.range k, d.getBlockSizeForPartition i = d.blockSz := fun i hi => by
    rw [h.size_eq hle, if_neg (by have := Finset.mem_range.1 hi; omega)]
  rw [hk, Finset.sum_range_succ, Finset.sum_const_nat hconst, Finset.card_range, h.size_eq hle,
    if_pos hk.symm, Nat.mul_comm]
  rw [hk, Nat.add_sub_cancel] at hle
  omega

/-- **The blocks before the last one must not reach beyond the last vertex.** -/
theorem partitions_iff_le (hb : 0 < d.numBlocks) :
    d.Partitions ↔ d.blockSz * (d.numBlocks - 1) ≤ d.numVertices := by
  have hsz := h.size
  have hmul : ∀ i j, i < j → d.blockSz * i + d.blockSz ≤ d.blockSz * j := fun i j hij => by
    exact Nat.mul_le_mul_left _ hij
  refine ⟨fun hp => ?_, fun hle => ?_⟩
  · by_contra hgt
    -- the last vertex of the last but one block
    have hone : d.numBlocks - 1 ≠ 0 := fun h0 => by
      rw [h0] at hgt
      omega
    obtain ⟨k, hk⟩ : ∃ k, d.numBlocks = k + 2 := ⟨d.numBlocks - 2, by omega⟩
    have hk' : d.blockSz * (d.numBlocks - 1) = d.blockSz * k + d.blockSz := by
      rw [hk]
      exact mul_succ _ _
    have hv := (hp.cover (d.blockSz * k + d.blockSz - 1)).1
      ⟨k, by omega, (h.contains_iff (by omega)).2 ⟨by omega, by rw [if_neg (by omega)]; omega⟩⟩
    omega
  refine ⟨fun i hi j hj hij v ⟨hvi, hvj⟩ => ?_, fun v => ⟨fun ⟨i, hi, hv⟩ => ?_, fun hv =>
    ⟨_, h.contains_owner hv⟩⟩, fun i hi => ?_, h.sum_size hle hb, fun v hv => h.contains_owner hv,
    fun v hv => ?_⟩
  · rw [h.contains_iff hi] at hvi
    rw [h.contains_iff hj] at hvj
    rcases Nat.lt_or_gt_of_ne hij with hlt | hlt
    · have := hmul i j hlt
      rw [if_neg (by omega)] at hvi
      omega
    · have := hmul j i hlt
      rw [if_neg (by omega)] at hvj
      omega
  · rw [h.contains_iff hi] at hv
    split_ifs at hv with hl
    · exact hv.2
    · have := hmul i (d.numBlocks - 1) (by omega)
      omega
  · obtain ⟨hstart, hend⟩ := h.start_add_le hi
    have hlast : i = d.numBlocks - 1 ↔ i + 1 = d.numBlocks := by omega
    have hlt := h.lt
    have hpos := h.vertices
    rw [h.size_eq hle, partitionEndDistr, hstart]
    simp only [hlast]
    split_ifs <;> omega
  · have hc := (h.contains_owner hv).2.1
    have hlt := h.lt
    have hn := h.le
    rw [getVertexFromLocalDistr, getLocalIndexDistr]
    omega

end Fits

/-- **When the blocks are a partition of the vertices**, in terms of the numbers of vertices and
blocks. -/
theorem partitions_iff {n blocks : ℕ} (hn : 1 ≤ n) (hb : 1 ≤ blocks) (h32 : blocks < 2 ^ 32)
    (hfit : n + blocks < 2 ^ 63) : (init n blocks).Partitions ↔
      blocks ∣ n ∨ blocks ≤ n / blocks + n % blocks + 1 := by
  rw [(fits_init hn hb h32 hfit).partitions_iff_le hb, dvd_iff_mod_eq_zero]
  show (if 0 < blocks then (n + blocks - 1) / blocks else 0) * (blocks - 1) ≤ n ↔ _
  rw [if_pos (lt_of_succ_le hb)]
  have hdiv := div_add_mod n blocks
  have hmod := mod_lt n hb
  generalize n / blocks = q at *
  generalize n % blocks = r at *
  obtain ⟨c, rfl⟩ : ∃ c, blocks = c + 1 := ⟨blocks - 1, by omega⟩
  have hceil : (n + (c + 1) - 1) / (c + 1) = q + (r + c) / (c + 1) := by
    rw [show n + (c + 1) - 1 = r + c + (c + 1) * q by omega, add_mul_div_left _ _ hb, Nat.add_comm]
  rw [hceil, Nat.add_sub_cancel]
  have hexp : (c + 1) * q = q * c + q := by ring
  rcases Nat.eq_zero_or_pos r with rfl | hr
  · rw [Nat.zero_add, div_eq_of_lt (lt_succ_self c), Nat.add_zero]
    omega
  · have hone : (r + c) / (c + 1) = 1 := Nat.div_eq_of_lt_le (by omega) (by omega)
    have hexp' : (q + 1) * c = q * c + c := by ring
    rw [hone, hexp']
    omega

/-- Eight vertices in three blocks. -/
theorem partitions_eight : (init 8 3).Partitions :=
  (partitions_iff (by decide) (by decide) (by decide) (by decide)).2 (.inr (by decide))

/-- Five vertices in four blocks: the third block has a vertex that does not exist, and the size of the
last one is `2 ^ 64 - 1`. -/
theorem not_partitions_five : ¬ (init 5 4).Partitions ∧
    (init 5 4).Contains 2 5 ∧ (init 5 4).getBlockSizeForPartition 3 = 2 ^ 64 - 1 := by
  have hcontains : (init 5 4).Contains 2 5 := ⟨by decide, by decide⟩
  refine ⟨fun h => ?_, hcontains, by decide⟩
  exact absurd ((h.cover 5).1 ⟨2, by decide, hcontains⟩) (by decide)

end BlockDist

end Arts
