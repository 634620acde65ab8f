import Mathlib

/-!
# Two waves of reports

Sites report counters that never decrease. If the sums of two waves agree and no site is behind its
first report at a moment in between, all had the counters of the second at that moment
(`eq_of_sum_eq`).
-/

namespace Arts

open Finset

namespace TwoWave

variable {ι M N : Type*} [Fintype ι]

section Order

variable [AddCommMonoid M] [PartialOrder M] [IsOrderedCancelAddMonoid M]
  [AddCommMonoid N] [PartialOrder N] [IsOrderedCancelAddMonoid N]

lemma eq_of_le_of_sum_eq {f g : ι → M} (hle : ∀ i, f i ≤ g i) (hsum : ∑ i, f i = ∑ i, g i)
    (i : ι) : f i = g i :=
  (sum_eq_sum_iff_of_le fun i _ => hle i).1 hsum i (mem_univ i)

/-- **Two equal waves** report the counters `base` of a moment between them. -/
theorem eq_of_sum_eq {prev base reply : ι → M × N} (hprev : ∀ i, prev i ≤ base i)
    (hlevel : ∀ i, (prev i).2 ≤ (reply i).2)
    (hfresh : ∀ i, (prev i).2 < (reply i).2 ∨ base i ≤ reply i)
    (hsum : ∑ i, prev i = ∑ i, reply i) (i : ι) : base i = reply i := by
  have hfst : ∑ i, (prev i).1 = ∑ i, (reply i).1 := by
    simpa only [Prod.fst_sum] using congrArg Prod.fst hsum
  have hsnd : ∑ i, (prev i).2 = ∑ i, (reply i).2 := by
    simpa only [Prod.snd_sum] using congrArg Prod.snd hsum
  -- the second counters agree, so no report is older than the moment between the waves
  have heq := eq_of_le_of_sum_eq hlevel hsnd
  have hbase : ∀ i, base i ≤ reply i := fun i => (hfresh i).resolve_left (heq i).not_lt
  have heq' := eq_of_le_of_sum_eq (fun i => (hprev i).1.trans (hbase i).1) hfst
  refine le_antisymm (hbase i) ⟨?_, ?_⟩
  · rw [← heq' i]
    exact (hprev i).1
  · rw [← heq i]
    exact (hprev i).2

end Order

lemma sum_add_of_ne [AddCommMonoid M] {f g : ι → M} {j : ι} (h : ∀ i, i ≠ j → f i = g i) :
    ∑ i, f i + g j = ∑ i, g i + f j := by
  classical
  rw [← add_sum_erase _ f (mem_univ j), ← add_sum_erase _ g (mem_univ j),
    sum_congr rfl fun i hi => h i (ne_of_mem_erase hi)]
  abel

end TwoWave

end Arts
