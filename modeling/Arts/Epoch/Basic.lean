import Arts.Guid

/-!
# The epoch record and its packed words

`epochCounts` holds the active EDTs in the upper and the finished ones in the lower 32 bits; the top
bit of `queued` (`EPOCH_BIT`) is set on other ranks while no request waits for an answer.
-/

namespace Arts

/-- `termination_detection_phase_t`. -/
inductive Phase where
  | phase1
  | phase2
  | phase3
  deriving DecidableEq, Repr

/-- `arts_epoch_t`. -/
structure Epoch where
  /-- Active EDTs in the upper, finished EDTs in the lower 32 bits. -/
  epochCounts : UInt64
  phase : Phase
  completed : Bool
  /-- Sum of the active counts of the replies of a round. -/
  globalActiveCount : UInt32
  /-- Sum of the finished counts of the replies of a round. -/
  globalFinishedCount : UInt32
  /-- The active total of the previous balanced round. -/
  lastActiveCount : UInt32
  /-- The finished total of the previous balanced round. -/
  lastFinishedCount : UInt32
  /-- Queued EDTs, with `EPOCH_BIT` on ranks that do not own the epoch. -/
  queued : UInt64
  /-- Outstanding replies of the round, plus one; `0` when no round is open. -/
  outstanding : UInt64
  terminationExitSlot : UInt32
  terminationExitGuid : Guid
  guid : Guid
  deriving DecidableEq, Repr

/-- `EPOCH_MASK`. -/
def epochMask : UInt64 := 0x7FFFFFFFFFFFFFFF

/-- `EPOCH_BIT`. -/
def epochBit : UInt64 := 0x8000000000000000

/-- `EPOCH_ACTIVE_INC`. -/
def epochActiveInc : UInt64 := (1 : UInt64) <<< 32

def activeHalf (w : UInt64) : UInt32 := (w >>> 32).toUInt32

def finishedHalf (w : UInt64) : UInt32 := (w &&& 0xFFFFFFFF).toUInt32

namespace Epoch

/-- `EPOCH_ACTIVE`. -/
def active (e : Epoch) : UInt32 := activeHalf e.epochCounts

/-- `EPOCH_FINISHED`. -/
def finished (e : Epoch) : UInt32 := finishedHalf e.epochCounts

/-- `create_epoch`: the record of a new epoch, on its owner (`isLocal`) or on another rank. -/
def create (guid edtGuid : Guid) (slot : UInt32) (isLocal : Bool) : Epoch where
  epochCounts := 0
  phase := .phase1
  completed := false
  globalActiveCount := 0
  globalFinishedCount := 0
  lastActiveCount := 0
  lastFinishedCount := 0
  queued := if isLocal then 0 else epochBit
  outstanding := 0
  terminationExitSlot := slot
  terminationExitGuid := edtGuid
  guid := guid

end Epoch

lemma toNat_sub_one {w : UInt64} (h : 0 < w.toNat) : (w - 1).toNat = w.toNat - 1 :=
  UInt64.toNat_sub_of_le w 1 (UInt64.le_iff_toNat_le.2 h)

/-! ### The packed counts -/

/-- The word `epochCounts` after `a` activations and `f` finishes. -/
def packed (a f : ℕ) : UInt64 := UInt64.ofNat (a * 2 ^ 32 + f)

lemma packed_zero : packed 0 0 = 0 := by decide

lemma toNat_packed (a f : ℕ) : (packed a f).toNat = (a * 2 ^ 32 + f) % 2 ^ 64 := by
  simp [packed]

lemma packed_activate (a f : ℕ) : packed a f + epochActiveInc = packed (a + 1) f := by
  apply UInt64.toNat_inj.1
  have : epochActiveInc.toNat = 2 ^ 32 := by decide
  rw [UInt64.toNat_add, toNat_packed, toNat_packed, this]
  omega

lemma packed_finish (a f : ℕ) : packed a f + 1 = packed a (f + 1) := by
  apply UInt64.toNat_inj.1
  rw [UInt64.toNat_add, toNat_packed, toNat_packed, UInt64.toNat_one]
  omega

/-- The upper half counts the activations, plus one for every carry out of the lower half. -/
theorem toNat_activeHalf_packed (a f : ℕ) :
    (activeHalf (packed a f)).toNat = (a + f / 2 ^ 32) % 2 ^ 32 := by
  have h32 : (32 : UInt64).toNat % 64 = 32 := rfl
  rw [activeHalf, UInt64.toNat_toUInt32, UInt64.toNat_shiftRight, h32, toNat_packed,
    Nat.shiftRight_eq_div_pow]
  omega

lemma toNat_finishedHalf_packed (a f : ℕ) :
    (finishedHalf (packed a f)).toNat = f % 2 ^ 32 := by
  have hm : (0xFFFFFFFF : UInt64).toNat = 2 ^ 32 - 1 := rfl
  rw [finishedHalf, UInt64.toNat_toUInt32, UInt64.toNat_and, hm, Nat.and_two_pow_sub_one_eq_mod,
    toNat_packed]
  omega

/-- The finished count that `increment_finished_epoch_impl` computes from the word before the
add: `(prev & 0xFFFFFFFF) + 1`, truncated to 32 bits. -/
def newFinished (prev : UInt64) : UInt32 := ((prev &&& 0xFFFFFFFF) + 1).toUInt32

lemma toNat_newFinished_packed (a f : ℕ) :
    (newFinished (packed a f)).toNat = (f % 2 ^ 32 + 1) % 2 ^ 32 := by
  have hm : (0xFFFFFFFF : UInt64).toNat = 2 ^ 32 - 1 := rfl
  rw [newFinished, UInt64.toNat_toUInt32, UInt64.toNat_add, UInt64.toNat_and, hm,
    Nat.and_two_pow_sub_one_eq_mod, toNat_packed, UInt64.toNat_one]
  omega

/-! ### The queue word -/

/-- The word `queued` for `q` queued EDTs; `idle` says that no request waits for an answer. -/
def queueWord (idle : Bool) (q : ℕ) : UInt64 :=
  UInt64.ofNat ((if idle then 2 ^ 63 else 0) + q)

lemma toNat_queueWord {idle : Bool} {q : ℕ} (hq : q < 2 ^ 63) :
    (queueWord idle q).toNat = (if idle then 2 ^ 63 else 0) + q := by
  rw [queueWord, UInt64.toNat_ofNat']
  split_ifs <;> omega

lemma queueWord_succ (idle : Bool) (q : ℕ) : queueWord idle q + 1 = queueWord idle (q + 1) := by
  apply UInt64.toNat_inj.1
  rw [UInt64.toNat_add, queueWord, queueWord, UInt64.toNat_ofNat', UInt64.toNat_ofNat',
    UInt64.toNat_one]
  omega

lemma queueWord_pred (idle : Bool) {q : ℕ} (h : 0 < q) :
    queueWord idle q - 1 = queueWord idle (q - 1) := by
  obtain ⟨q, rfl⟩ := Nat.exists_eq_succ_of_ne_zero h.ne'
  rw [Nat.succ_eq_add_one, ← queueWord_succ, Nat.add_sub_cancel]
  exact UInt64.add_sub_cancel _ _

lemma queueWord_and_mask (idle : Bool) {q : ℕ} (hq : q < 2 ^ 63) :
    queueWord idle q &&& epochMask = queueWord false q := by
  apply UInt64.toNat_inj.1
  have hm : epochMask.toNat = 2 ^ 63 - 1 := by decide
  rw [UInt64.toNat_and, hm, Nat.and_two_pow_sub_one_eq_mod, toNat_queueWord hq, toNat_queueWord hq]
  split_ifs <;> simp_all

lemma queueWord_inj {idle idle' : Bool} {q q' : ℕ} (hq : q < 2 ^ 63) (hq' : q' < 2 ^ 63) :
    queueWord idle q = queueWord idle' q' ↔ idle = idle' ∧ q = q' := by
  rw [← UInt64.toNat_inj, toNat_queueWord hq, toNat_queueWord hq']
  cases idle <;> cases idle' <;> simp <;> omega

lemma queueWord_zero : queueWord false 0 = 0 := rfl

lemma queueWord_one : queueWord false 1 = 1 := rfl

lemma queueWord_bit : queueWord true 0 = epochBit := by decide

end Arts
