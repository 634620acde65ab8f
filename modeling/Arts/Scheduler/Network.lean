import Mathlib

/-!
# The queues of the network threads

A sender serves an interval of the outbound queues, a receiver one of the inbound connections.
`network_queues_split`: the intervals partition them evenly.
-/

namespace Arts

/-- `arts_runtime_private_init`: the interval of the thread at `groupPos` of `threads`
(no product exceeds 32 bits). -/
def queueRange (total threads groupPos : ℕ) : ℕ × ℕ :=
  let size := total / threads
  let rem := total % threads
  if groupPos < rem then
    let start := groupPos * (size + 1)
    (start, start + size + 1)
  else
    let start := rem * (size + 1) + (groupPos - rem) * size
    (start, start + size)

def outboundQueues (rankCount portCount senders : ℕ) : ℕ → ℕ × ℕ :=
  queueRange (rankCount * portCount) senders

def inboundQueues (rankCount portCount receivers : ℕ) : ℕ → ℕ × ℕ :=
  queueRange ((rankCount - 1) * portCount) receivers

/-- `out_queue_id_for_rank`, called by a thread at `groupPos` of its group. -/
def outQueueIdForRank (ports groupPos rank : ℕ) : ℕ := rank * ports + groupPos % ports

/-- The intervals of `threads` threads share out `total` queues evenly. -/
@[mk_iff]
structure SplitsEvenly (range : ℕ → ℕ × ℕ) (threads total : ℕ) : Prop where
  served : ∀ x < total, ∃! p, p < threads ∧ (range p).1 ≤ x ∧ x < (range p).2
  stop_le : ∀ p < threads, (range p).2 ≤ total
  even : ∀ p < threads, ∀ q < threads, (range p).2 - (range p).1 ≤ (range q).2 - (range q).1 + 1

section Cut

variable (total threads : ℕ)

/-- The number of queues of the threads before `p`. -/
def queueCut (p : ℕ) : ℕ := p * (total / threads) + min p (total % threads)

lemma queueCut_succ (p : ℕ) : queueCut total threads (p + 1) =
    queueCut total threads p + (total / threads + if p < total % threads then 1 else 0) := by
  rw [queueCut, queueCut, Nat.succ_mul]
  split_ifs <;> omega

lemma queueCut_mono : Monotone (queueCut total threads) := by
  refine monotone_nat_of_le_succ fun p => ?_
  rw [queueCut_succ]
  exact Nat.le_add_right _ _

lemma queueRange_eq (p : ℕ) :
    queueRange total threads p = (queueCut total threads p, queueCut total threads (p + 1)) := by
  rw [queueCut_succ, queueCut, queueRange]
  split_ifs with h
  · dsimp only
    rw [Nat.mul_succ, Nat.min_eq_left h.le, Nat.add_assoc]
  · have hmul := Nat.add_mul (total % threads) (p - total % threads) (total / threads)
    rw [Nat.add_sub_cancel' (Nat.le_of_not_lt h)] at hmul
    rw [Nat.mul_succ, hmul, Nat.min_eq_right (Nat.le_of_not_lt h), Nat.add_right_comm, Nat.add_zero]

variable {total threads}

lemma queueCut_self (h : 1 ≤ threads) : queueCut total threads threads = total := by
  rw [queueCut, Nat.min_eq_right (Nat.mod_lt total h).le, Nat.div_add_mod]

lemma exists_between_cuts {n x : ℕ} (hn : x < queueCut total threads n) :
    ∃ p < n, queueCut total threads p ≤ x ∧ x < queueCut total threads (p + 1) := by
  induction n with
  | zero => simp [queueCut] at hn
  | succ n ih =>
    by_cases h : x < queueCut total threads n
    · obtain ⟨p, hp, hx⟩ := ih h
      exact ⟨p, Nat.lt_succ_of_lt hp, hx⟩
    · exact ⟨n, Nat.lt_succ_self n, Nat.le_of_not_lt h, hn⟩

lemma splitsEvenly_queueRange (ht : 1 ≤ threads) :
    SplitsEvenly (queueRange total threads) threads total := by
  have hmono := queueCut_mono total threads
  simp only [splitsEvenly_iff, queueRange_eq]
  refine ⟨fun x hx => ?_, fun p hp => (hmono hp).trans_eq (queueCut_self ht), fun p _ q _ => ?_⟩
  · obtain ⟨p, hp, hle, hlt⟩ := exists_between_cuts (hx.trans_eq (queueCut_self ht).symm)
    refine ⟨p, ⟨hp, hle, hlt⟩, fun q ⟨_, hleq, hltq⟩ => ?_⟩
    -- of two threads that serve `x`, neither ends before the other starts
    exact le_antisymm (Nat.le_of_lt_succ (hmono.reflect_lt (hleq.trans_lt hlt)))
      (Nat.le_of_lt_succ (hmono.reflect_lt (hle.trans_lt hltq)))
  · rw [queueCut_succ, queueCut_succ]
    split_ifs <;> omega

end Cut

/-- The intervals of the senders and of the receivers share out the queues, and the queue that a
thread picks for a rank has one sender. -/
theorem network_queues_split {rankCount portCount senders receivers : ℕ} (hp : 1 ≤ portCount)
    (hs : 1 ≤ senders) (hr : 1 ≤ receivers) :
    SplitsEvenly (outboundQueues rankCount portCount senders) senders (rankCount * portCount) ∧
    SplitsEvenly (inboundQueues rankCount portCount receivers) receivers
      ((rankCount - 1) * portCount) ∧
    ∀ rank < rankCount, ∀ groupPos, ∃! p, p < senders ∧
      (outboundQueues rankCount portCount senders p).1 ≤ outQueueIdForRank portCount groupPos rank ∧
      outQueueIdForRank portCount groupPos rank <
        (outboundQueues rankCount portCount senders p).2 := by
  have hout : SplitsEvenly (outboundQueues rankCount portCount senders) senders
      (rankCount * portCount) := splitsEvenly_queueRange hs
  refine ⟨hout, splitsEvenly_queueRange hr, fun rank hrank groupPos => hout.served _ ?_⟩
  calc rank * portCount + groupPos % portCount
    _ < rank * portCount + portCount := Nat.add_lt_add_left (Nat.mod_lt groupPos hp) _
    _ = (rank + 1) * portCount := (Nat.succ_mul _ _).symm
    _ ≤ rankCount * portCount := Nat.mul_le_mul_right _ hrank

/-- Three senders share the queues of four ranks with one port. -/
theorem network_queues_split_four :
    SplitsEvenly (outboundQueues 4 1 3) 3 4 ∧ outboundQueues 4 1 3 0 = (0, 2) :=
  ⟨(network_queues_split (by decide) (by decide) (Nat.le_refl 1)).1, by decide⟩

end Arts
